import SingBox.Cli.RuleSetFetcher.Urls

namespace SingBox.Cli

open Library Uri
open Core (splitOnce splitOnce_append)

-- What a URL stands for.
structure Denotes (url : ParsedUrl) (location : Location) : Prop where
  scheme : url.scheme.toList = location.scheme
  host : url.host.toList = location.host
  port : url.port = location.port
  target : url.target.toList = requestTarget location.path location.query

-- The current URL, with the segments of its path.
structure Current (url : ParsedUrl) (base : Location) (directory : List Segment) (last : Segment) :
    Prop where
  denotes : Denotes url base
  path : base.path = rooted (directory ++ [last])
  clean : ∀ segment ∈ directory ++ [last], ∀ char ∈ segment, char ∉ delimiters ∧ char ∉ blanks
  query : ∀ query ∈ base.query, '#' ∉ query

-- What `parse` has made sure of.
structure Parsed (url : ParsedUrl) : Prop where
  web : Web url.scheme
  sound : Sound url.authority.toList
  authority : parseAuthority url.authority.toList (defaultPort url.scheme.toList) =
    .ok (url.host.toList, url.port)
  head : url.target.toList.head? = some '/'
  clean : ∀ char ∈ url.target.toList, char ≠ '#' ∧ char ∉ blanks

theorem targetOf_head (tail : List Char) (h : tail = [] ∨ tail.head? = some '/' ∨ tail.head? = some '?') :
    (targetOf tail).head? = some '/' := by
  cases tail with
  | nil => rfl
  | cons char tail =>
      obtain hnil | hslash | hmark := h
      · cases hnil
      · obtain rfl : char = '/' := Option.some.inj hslash
        rfl
      · obtain rfl : char = '?' := Option.some.inj hmark
        rfl

theorem mem_targetOf {tail : List Char} {char : Char} (h : char ∈ targetOf tail) :
    char = '/' ∨ char ∈ tail := by
  unfold targetOf at h
  split at h
  · exact .inl (List.mem_singleton.mp h)
  · split at h
    · exact List.mem_cons.mp h
    · exact .inr h

theorem parsed {value : String} {url : ParsedUrl} (h : ParsedUrl.parse value = .ok url) : Parsed url := by
  obtain ⟨hweb, authority, tail, hsound, htail, hparse⟩ := parse_ok h
  rw [parseAs_append hsound htail] at hparse
  obtain ⟨found, hfound, hrest⟩ := Result.bind_eq_ok.mp hparse
  obtain ⟨_, hensure, hurl⟩ := Result.bind_eq_ok.mp hrest
  have hblank := containsAny_eq_false.mp ((Bool.not_eq_true' _).mp (Result.ensure_eq_ok.mp hensure))
  have hsame := Except.ok.inj hurl
  have hauthority : url.authority.toList = authority := by
    rw [← congrArg ParsedUrl.authority hsame, String.toList_ofList]
  have hhost : url.host.toList = found.1 := by
    rw [← congrArg ParsedUrl.host hsame, String.toList_ofList]
  have hport : url.port = found.2 := (congrArg ParsedUrl.port hsame).symm
  have htarget : url.target.toList = targetOf (tail.takeWhile (· ≠ '#')) := by
    rw [← congrArg ParsedUrl.target hsame, String.toList_ofList]
  refine ⟨hweb, hauthority ▸ hsound, ?_, ?_, fun char hmem => ⟨?_, fun hmark => ?_⟩⟩
  · rw [hauthority, hhost, hport]
    exact hfound
  · rw [htarget]
    refine targetOf_head _ ?_
    cases tail with
    | nil => exact .inl rfl
    | cons char tail =>
        obtain ⟨mark, hmark, hhead⟩ := htail.resolve_left (List.cons_ne_nil _ _)
        obtain rfl : char = mark := Option.some.inj hhead
        have hkinds : char = '/' ∨ char = '?' ∨ char = '#' := by simpa [delimiters] using hmark
        obtain rfl | rfl | rfl := hkinds
        · exact .inr (.inl rfl)
        · exact .inr (.inr rfl)
        · exact .inl rfl
  · rintro rfl
    rw [htarget] at hmem
    cases mem_targetOf hmem with
    | inl hslash => exact absurd hslash (by decide)
    | inr hmem => exact absurd (List.mem_takeWhile_imp hmem) (by decide)
  · rw [htarget] at hmem
    refine hblank char hmem ?_
    simp only [blanks, List.mem_cons, List.not_mem_nil, or_false] at hmark
    obtain rfl | rfl | rfl := hmark <;> decide

-- A text that begins with a slash is a path with a last segment.
theorem exists_rooted (text : List Char) :
    ∃ segments, segments ≠ [] ∧ rooted segments = '/' :: text ∧ ∀ segment ∈ segments, '/' ∉ segment := by
  induction text with
  | nil => exact ⟨[[]], List.cons_ne_nil _ _, rfl, fun segment hmem => by
      rw [List.mem_singleton.mp hmem]
      exact List.not_mem_nil⟩
  | cons char text ih =>
      obtain ⟨segments, hne, hrooted, hclean⟩ := ih
      by_cases hslash : char = '/'
      · subst hslash
        refine ⟨[] :: segments, List.cons_ne_nil _ _, congrArg _ hrooted, ?_⟩
        exact List.forall_mem_cons.mpr ⟨List.not_mem_nil, hclean⟩
      · obtain ⟨first, others, rfl⟩ := List.exists_cons_of_ne_nil hne
        obtain ⟨hfirst, hothers⟩ := List.forall_mem_cons.mp hclean
        refine ⟨(char :: first) :: others, List.cons_ne_nil _ _, ?_, List.forall_mem_cons.mpr ⟨?_, hothers⟩⟩
        · rw [rooted_cons] at hrooted ⊢
          rw [List.cons_append, (List.cons.inj hrooted).2]
        · exact List.not_mem_cons_of_ne_of_not_mem (Ne.symm hslash) hfirst

theorem mem_rooted {segments : List Segment} {segment : Segment} {char : Char}
    (hsegment : segment ∈ segments) (hchar : char ∈ segment) : char ∈ rooted segments :=
  List.mem_flatMap.mpr ⟨segment, hsegment, List.mem_cons_of_mem _ hchar⟩

theorem exists_current {url : ParsedUrl} (h : Parsed url) :
    ∃ base directory last, Current url base directory last := by
  have hhead := h.head
  obtain ⟨rest, htarget⟩ : ∃ rest, url.target.toList = '/' :: rest := by
    cases hcases : url.target.toList with
    | nil => rw [hcases] at hhead; cases hhead
    | cons char rest =>
        rw [hcases] at hhead
        exact ⟨rest, congrArg (· :: rest) (Option.some.inj hhead)⟩
  obtain ⟨segments, hne, hrooted, hslash⟩ := exists_rooted (rest.takeWhile (· ≠ '?'))
  obtain ⟨directory, last, rfl⟩ := (List.eq_nil_or_concat segments).resolve_left hne
  rw [List.concat_eq_append] at hrooted hslash
  have hsplit := List.takeWhile_append_dropWhile (p := (· ≠ '?')) (l := rest)
  have hpath : requestTarget (rooted (directory ++ [last])) = fun query =>
      rooted (directory ++ [last]) ++ marked '?' query := by
    funext query
    rw [requestTarget, if_neg (by rw [hrooted]; exact List.cons_ne_nil _ _)]
  have hclean : ∀ segment ∈ directory ++ [last], ∀ char ∈ segment,
      char ∉ delimiters ∧ char ∉ blanks := by
    intro segment hsegment char hchar
    have hslashless : char ≠ '/' := fun heq => hslash segment hsegment (heq ▸ hchar)
    have hmem := mem_rooted hsegment hchar
    rw [hrooted] at hmem
    have htake := (List.mem_cons.mp hmem).resolve_left hslashless
    have hkept := List.mem_takeWhile_imp htake
    have hquestion : char ≠ '?' := of_decide_eq_true hkept
    have hin : char ∈ url.target.toList := by
      rw [htarget, ← hsplit]
      exact List.mem_cons_of_mem _ (List.mem_append_left _ htake)
    refine ⟨fun hmark => ?_, (h.clean char hin).2⟩
    simp only [delimiters, List.mem_cons, List.not_mem_nil, or_false] at hmark
    obtain heq | heq | heq := hmark
    · exact hslashless heq
    · exact hquestion heq
    · exact (h.clean char hin).1 heq
  have hfind : ∃ query, url.target.toList = rooted (directory ++ [last]) ++ marked '?' query := by
    rw [htarget, hrooted]
    cases hdrop : rest.dropWhile (· ≠ '?') with
    | nil =>
        rw [hdrop, List.append_nil] at hsplit
        refine ⟨none, ?_⟩
        rw [hsplit]
        exact (List.append_nil _).symm
    | cons char query =>
        have hmark := List.head?_dropWhile_not (· ≠ '?') rest
        rw [hdrop] at hmark
        have hsame : decide (char ≠ '?') = false := hmark
        have hchar : char = '?' := not_not.mp (of_decide_eq_false hsame)
        rw [hdrop, hchar] at hsplit
        exact ⟨some query, congrArg _ hsplit.symm⟩
  obtain ⟨query, hquery⟩ := hfind
  refine ⟨⟨url.scheme.toList, url.host.toList, url.port, rooted (directory ++ [last]), query⟩, directory,
    last, ⟨rfl, rfl, rfl, ?_⟩, rfl, hclean, fun text htext hmem => (h.clean '#' ?_).1 rfl⟩
  · rw [hquery, hpath]
  · rw [hquery, show query = some text from htext]
    exact List.mem_append_right _ (List.mem_cons_of_mem _ hmem)

section Parse

variable {scheme value : String} {authority path : List Char} {query fragment : Option (List Char)}

theorem takeWhile_marked {front : List Char} (h : '#' ∉ front) (fragment : Option (List Char)) :
    (front ++ marked '#' fragment).takeWhile (· ≠ '#') = front := by
  have hclean : ∀ char ∈ front, decide (char ≠ '#') = true := fun char hmem =>
    decide_eq_true fun heq => h (heq ▸ hmem)
  rw [List.takeWhile_append_of_pos hclean]
  cases fragment <;> exact List.append_nil front

theorem tail_head (hpath : path = [] ∨ path.head? = some '/') (query fragment : Option (List Char)) :
    path ++ marked '?' query ++ marked '#' fragment = [] ∨ ∃ char ∈ delimiters,
      (path ++ marked '?' query ++ marked '#' fragment).head? = some char := by
  cases path with
  | nil =>
      cases query with
      | none =>
          cases fragment with
          | none => exact .inl rfl
          | some fragment => exact .inr ⟨'#', by decide, rfl⟩
      | some query => exact .inr ⟨'?', by decide, rfl⟩
  | cons char path =>
      obtain rfl : char = '/' := hpath.elim (fun h => by cases h) fun h => Option.some.inj h
      exact .inr ⟨'/', by decide, rfl⟩

-- A URL is read as its parts.
theorem parse_parts (host : List Char) (port : Nat) (h : Web scheme) (hsound : Sound authority)
    (hpath : path = [] ∨ path.head? = some '/')
    (hclean : ∀ char ∈ path ++ marked '?' query, char ≠ '#' ∧ char ∉ blanks)
    (hvalue : value.toList = scheme.toList ++ ("://".toList ++
      (authority ++ (path ++ marked '?' query ++ marked '#' fragment)))) :
    (∀ next, ParsedUrl.parse value = .ok next → ∃ found,
      parseAuthority authority (defaultPort scheme.toList) = .ok found) ∧
    (parseAuthority authority (defaultPort scheme.toList) = .ok (host, port) →
      ∃ next, ParsedUrl.parse value = .ok next ∧
        Denotes next ⟨scheme.toList, host, port, path, query⟩) := by
  have hfragment : '#' ∉ path ++ marked '?' query := fun hmem => (hclean '#' hmem).1 rfl
  have htarget := targetOf_marked hpath query
  rw [parse_append h hvalue, parseAs_append hsound (tail_head hpath query fragment),
    takeWhile_marked hfragment]
  constructor
  · intro next hnext
    obtain ⟨found, hfound, -⟩ := Result.bind_eq_ok.mp hnext
    exact ⟨found, hfound⟩
  · intro hparse
    have hblank : containsAny ['\r', '\n', ' '] (targetOf (path ++ marked '?' query)) = false := by
      rw [containsAny_eq_false]
      intro char hmem hblank
      cases mem_targetOf hmem with
      | inl hslash =>
          subst hslash
          exact absurd hblank (by decide)
      | inr hmem =>
          refine (hclean char hmem).2 ?_
          simp only [List.mem_cons, List.not_mem_nil, or_false] at hblank
          obtain rfl | rfl | rfl := hblank <;> decide
    rw [hparse, hblank]
    exact ⟨_, rfl, rfl, String.toList_ofList, rfl, String.toList_ofList.trans htarget⟩

end Parse

-- A directory without the slashes at its end.
def trimmed (directory : List Segment) : List Segment := directory.rdropWhile List.isEmpty

theorem rdropWhile_rooted {segments : List Segment} (h : ∀ segment ∈ segments, '/' ∉ segment) :
    (rooted segments).rdropWhile (· = '/') = rooted (trimmed segments) := by
  induction segments using List.reverseRecOn with
  | nil => rfl
  | append_singleton init last ih =>
      rw [rooted_append, trimmed]
      cases (List.eq_nil_or_concat last) with
      | inl hlast =>
          subst hlast
          have hslash : rooted [[]] = ['/'] := rfl
          rw [hslash, List.rdropWhile_concat_pos (fun char => decide (char = '/')) _ _ (decide_eq_true rfl),
            List.rdropWhile_concat_pos _ _ _ rfl, ih fun segment hmem => h segment (List.mem_append_left _ hmem)]
          rfl
      | inr hlast =>
          obtain ⟨body, char, rfl⟩ := hlast
          rw [List.concat_eq_append] at h ⊢
          have hchar : ¬decide (char = '/') = true := fun hslash =>
            h (body ++ [char]) (List.mem_append_right _ List.mem_cons_self)
              (of_decide_eq_true hslash ▸ List.mem_append_right _ List.mem_cons_self)
          have hsegment : rooted [body ++ [char]] = '/' :: body ++ [char] := by
            rw [rooted_cons]
            exact congrArg _ (List.append_nil _)
          have hkept : ¬List.isEmpty (body ++ [char]) = true := by simp
          rw [List.rdropWhile_concat_neg _ _ _ hkept, rooted_append, hsegment, ← List.append_assoc,
            List.rdropWhile_concat_neg (fun char => decide (char = '/')) _ _ hchar]

-- The directory that `resolve` finds in the request target.
theorem directory_text {url : ParsedUrl} {base : Location} {directory : List Segment} {last : Segment}
    (h : Current url base directory last) :
    (match splitOnce '/' ((url.target.toList.splitOn '?').headD []).reverse with
      | some (_, directory) => if directory.isEmpty then ['/'] else directory.reverse
      | none => ['/']).rdropWhile (· = '/') = rooted (trimmed directory) := by
  have hslash : ∀ segment ∈ directory ++ [last], '/' ∉ segment := fun segment hmem hchar =>
    (h.clean segment hmem '/' hchar).1 (by decide)
  have hquestion : '?' ∉ rooted (directory ++ [last]) := by
    intro hmem
    obtain ⟨segment, hsegment, hchar⟩ := List.mem_flatMap.mp hmem
    exact (h.clean segment hsegment '?' ((List.mem_cons.mp hchar).resolve_left (by decide))).1 (by decide)
  have hpath : rooted (directory ++ [last]) = rooted directory ++ '/' :: last := by
    rw [rooted_append, rooted_cons]
    exact congrArg (rooted directory ++ '/' :: ·) (List.append_nil last)
  have htarget : url.target.toList = rooted (directory ++ [last]) ++ marked '?' base.query := by
    rw [h.denotes.target, h.path, requestTarget, if_neg]
    rw [hpath]
    exact List.append_ne_nil_of_right_ne_nil _ (List.cons_ne_nil _ _)
  have hback : marked '?' base.query = [] ∨ (marked '?' base.query).head? = some '?' := by
    cases base.query with
    | none => exact .inl rfl
    | some query => exact .inr rfl
  obtain ⟨others, hfront⟩ := Text.splitOn_front hquestion hback
  have hlast : '/' ∉ last.reverse := mt List.mem_reverse.mp
    (hslash last (List.mem_append_right _ List.mem_cons_self))
  have honce : splitOnce '/' (rooted (directory ++ [last])).reverse =
      some (last.reverse, (rooted directory).reverse) := by
    rw [hpath, List.reverse_append, List.reverse_cons, List.append_assoc]
    exact splitOnce_append hlast
  rw [htarget, hfront, List.headD_cons, honce]
  have htrim := rdropWhile_rooted fun segment hmem => hslash segment (List.mem_append_left _ hmem)
  cases hdirectory : directory with
  | nil => rfl
  | cons first others =>
      rw [← hdirectory, ← htrim]
      show (if (rooted directory).reverse.isEmpty = true then _ else _ : List Char).rdropWhile _ = _
      rw [if_neg (by rw [hdirectory]; simp [rooted_cons]), List.reverse_reverse]

section Resolve

variable {url : ParsedUrl} {location : String} {rest : List Char}

theorem containsAny_lineEnd {text : List Char} (h : ∀ char ∈ text, char ∉ blanks) :
    containsAny ['\r', '\n'] text = false :=
  containsAny_eq_false.mpr fun char hmem hline => h char hmem (List.mem_cons_of_mem _ hline)

theorem resolve_absolute {scheme : String} (h : Web scheme)
    (hclean : ∀ char ∈ location.toList, char ∉ blanks)
    (hlocation : location.toList = scheme.toList ++ ("://".toList ++ rest)) :
    url.resolve location = .ok location := by
  have hweb : ("http://".toList.isPrefixOf location.toList ||
      "https://".toList.isPrefixOf location.toList) = true := by
    rw [hlocation, Bool.or_eq_true, List.isPrefixOf_iff_prefix, List.isPrefixOf_iff_prefix]
    obtain rfl | rfl := h
    · exact .inl ⟨rest, rfl⟩
    · exact .inr ⟨rest, rfl⟩
  unfold ParsedUrl.resolve
  simp only [containsAny_lineEnd hclean, hweb]
  rfl

theorem resolve_network (hclean : ∀ char ∈ location.toList, char ∉ blanks)
    (hlocation : location.toList = '/' :: '/' :: rest) :
    ∃ result, url.resolve location = .ok result ∧
      result.toList = url.scheme.toList ++ ("://".toList ++ rest) := by
  have hweb : ("http://".toList.isPrefixOf location.toList ||
      "https://".toList.isPrefixOf location.toList) = false := by
    rw [hlocation]
    rfl
  have hslashes : "//".toList.isPrefixOf location.toList = true := by
    rw [hlocation]
    rfl
  unfold ParsedUrl.resolve
  simp only [containsAny_lineEnd hclean, hweb, hslashes]
  refine ⟨_, rfl, ?_⟩
  rw [hlocation, String.toList_append, String.toList_append, List.append_assoc]
  exact congrArg _ (congrArg _ String.toList_ofList)

theorem resolve_rooted (hclean : ∀ char ∈ location.toList, char ∉ blanks)
    (hlocation : location.toList = '/' :: rest) (hrest : rest.head? ≠ some '/') :
    ∃ result, url.resolve location = .ok result ∧
      result.toList = url.scheme.toList ++ ("://".toList ++ (url.authority.toList ++ '/' :: rest)) := by
  have hweb : ("http://".toList.isPrefixOf location.toList ||
      "https://".toList.isPrefixOf location.toList) = false := by
    rw [hlocation]
    rfl
  have hslashes : "//".toList.isPrefixOf location.toList = false := by
    rw [hlocation, ← Bool.not_eq_true, List.isPrefixOf_iff_prefix]
    rintro ⟨back, hback⟩
    rw [← (List.cons.inj hback).2] at hrest
    exact hrest rfl
  have hhead : location.toList.head? = some '/' := by rw [hlocation]; rfl
  unfold ParsedUrl.resolve
  simp only [containsAny_lineEnd hclean, hweb, hslashes, if_pos hhead]
  refine ⟨_, rfl, ?_⟩
  rw [← hlocation, String.toList_append, String.toList_append, String.toList_append, List.append_assoc,
    List.append_assoc]
  rfl

-- Everything else is taken for a path from the directory.
theorem resolve_relative {base : Location} {directory : List Segment} {last : Segment}
    (h : Current url base directory last) (hclean : ∀ char ∈ location.toList, char ∉ blanks)
    (hhead : location.toList.head? ≠ some '/')
    (hweb : ∀ scheme, Web scheme → ¬scheme.toList ++ "://".toList <+: location.toList) :
    ∃ result, url.resolve location = .ok result ∧
      result.toList = url.scheme.toList ++ ("://".toList ++ (url.authority.toList ++
        (rooted (trimmed directory) ++ '/' :: location.toList))) := by
  have hneither : ("http://".toList.isPrefixOf location.toList ||
      "https://".toList.isPrefixOf location.toList) = false := by
    rw [Bool.or_eq_false_iff, ← Bool.not_eq_true, ← Bool.not_eq_true, List.isPrefixOf_iff_prefix,
      List.isPrefixOf_iff_prefix]
    exact ⟨hweb "http" (.inl rfl), hweb "https" (.inr rfl)⟩
  have hslashes : "//".toList.isPrefixOf location.toList = false := by
    rw [← Bool.not_eq_true, List.isPrefixOf_iff_prefix]
    rintro ⟨back, hback⟩
    exact hhead (congrArg List.head? hback.symm)
  unfold ParsedUrl.resolve
  simp only [containsAny_lineEnd hclean, hneither, hslashes, if_neg hhead]
  refine ⟨_, rfl, ?_⟩
  have hdirectory := directory_text h
  simp only [String.toList_append, List.append_assoc]
  refine congrArg _ (congrArg _ (congrArg _ ?_))
  exact congrArg₂ _ (String.toList_ofList.trans hdirectory) rfl

end Resolve

end SingBox.Cli
