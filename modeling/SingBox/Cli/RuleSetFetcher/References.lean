import Mathlib.Data.Bool.AllAny
import SingBox.Cli.RuleSetFetcher.Redirects

namespace SingBox.Cli

open Library Uri

-- The code finds what the reference stands for.
def Follows (url : ParsedUrl) (base : Location) (reference : Reference) : Prop :=
  ∃ result next, url.resolve (String.ofList reference.text) = .ok result ∧
    ParsedUrl.parse result = .ok next ∧ Denotes next (base.resolve reference)

-- Where it does: the scheme is written in small letters and the port is a number for it, no
-- segment is to be removed, and what is found from the directory is found from the directory
-- as it is.
structure Kept (base : Location) (directory : List Segment) (last : Segment) (reference : Reference) :
    Prop where
  lower : ∀ scheme ∈ reference.scheme, scheme.map Char.toLower = scheme
  port : ∀ authority ∈ reference.authority, ∀ port ∈ authority.port, Fits port
  dotless : ∀ segment ∈ reference.path.segments, isDots segment = false
  merges : ∀ first others, reference.path = .relative first others →
    directory.getLast? ≠ some [] ∧ ∀ segment ∈ directory, isDots segment = false
  stays : reference.authority = none → reference.path = .rooted [] →
    directory.getLast? ≠ some [] ∧ last = [] ∧ (reference.query = none → base.query = none)

section

variable {url next : ParsedUrl} {base here : Location} {reference : Reference} {result : String}

theorem follows_iff (hresolve : url.resolve (String.ofList reference.text) = .ok result)
    (hparse : ParsedUrl.parse result = .ok next) (hdenotes : Denotes next here) :
    Follows url base reference ↔ here.scheme = (base.resolve reference).scheme ∧
      here.host = (base.resolve reference).host ∧ here.port = (base.resolve reference).port ∧
      requestTarget here.path here.query =
        requestTarget (base.resolve reference).path (base.resolve reference).query := by
  constructor
  · rintro ⟨other, found, hother, hfound, hagain⟩
    obtain rfl := Except.ok.inj (hresolve.symm.trans hother)
    obtain rfl := Except.ok.inj (hparse.symm.trans hfound)
    exact ⟨hdenotes.scheme.symm.trans hagain.scheme, hdenotes.host.symm.trans hagain.host,
      hdenotes.port.symm.trans hagain.port, hdenotes.target.symm.trans hagain.target⟩
  · rintro ⟨hscheme, hhost, hport, htarget⟩
    exact ⟨result, next, hresolve, hparse, hdenotes.scheme.trans hscheme, hdenotes.host.trans hhost,
      hdenotes.port.trans hport, hdenotes.target.trans htarget⟩

end

section Text

variable {reference : Reference}

theorem scheme_chars {scheme : List Char} (h : scheme.map Char.toLower = "http".toList ∨
    scheme.map Char.toLower = "https".toList) :
    ∀ char ∈ scheme, char ∉ delimiters ∧ char ∉ blanks ∧ char ≠ ':' := by
  have hletters : ∀ char ∈ scheme, char.toLower ∈ "https".toList := by
    intro char hmem
    have hlower := List.mem_map_of_mem (f := Char.toLower) hmem
    obtain h | h := h
    · rw [h] at hlower
      exact List.mem_append_left ['s'] hlower
    · rwa [h] at hlower
  have hnone : ∀ char ∈ delimiters ++ blanks ++ [':'], char.toLower ∉ "https".toList :=
    List.all_iff_forall_prop.mp (by decide)
  have hbad (char : Char) (hmem : char ∈ scheme) : char ∉ delimiters ++ blanks ++ [':'] :=
    fun hmark => hnone char hmark (hletters char hmem)
  exact fun char hmem =>
    ⟨fun h => hbad char hmem (List.mem_append_left _ (List.mem_append_left _ h)),
      fun h => hbad char hmem (List.mem_append_left _ (List.mem_append_right _ h)),
      fun h => hbad char hmem (List.mem_append_right _ (List.mem_singleton.mpr h))⟩

theorem authority_chars {authority : Authority} (h : authority.Valid) :
    ∀ char ∈ authority.text, char ∉ delimiters ∧ char ∉ blanks ∧ char ≠ '@' := by
  have hmarks : ∀ char ∈ ['[', ']', ':'], char ∉ delimiters ∧ char ∉ blanks ∧ char ≠ '@' :=
    List.all_iff_forall_prop.mp (by decide)
  have hdigits : ∀ char ∈ delimiters ++ blanks ++ ['@'], char.isDigit = false :=
    List.all_iff_forall_prop.mp (by decide)
  have hhost (char : Char) (hmem : char ∈ authority.host) :
      char ∉ delimiters ∧ char ∉ blanks ∧ char ≠ '@' := by
    obtain ⟨hdelimiter, hblank, hother⟩ := h.chars char hmem
    refine ⟨hdelimiter, hblank, fun hat => hother ?_⟩
    rw [hat]
    decide
  intro char hmem
  cases List.mem_append.mp hmem with
  | inl hfront =>
      split at hfront
      · cases List.mem_cons.mp hfront with
        | inl hopen => exact hmarks char (hopen ▸ List.mem_cons_self)
        | inr hrest =>
            cases List.mem_append.mp hrest with
            | inl hin => exact hhost char hin
            | inr hclose =>
                exact hmarks char (List.mem_cons_of_mem _ (List.mem_cons.mpr (.inl
                  (List.mem_singleton.mp hclose))))
      · exact hhost char hfront
  | inr hport =>
      obtain rfl | ⟨port, hsome, hdigit⟩ := mem_marked hport
      · exact hmarks ':' (by decide)
      · have hnone (hmark : char ∈ delimiters ++ blanks ++ ['@']) : False := by
          have hfalse := hdigits char hmark
          rw [h.port port hsome char hdigit] at hfalse
          cases hfalse
        exact ⟨fun h => hnone (List.mem_append_left _ (List.mem_append_left _ h)),
          fun h => hnone (List.mem_append_left _ (List.mem_append_right _ h)),
          fun h => hnone (List.mem_append_right _ (List.mem_singleton.mpr h))⟩

theorem sound_text {authority : Authority} (h : authority.Valid) : Sound authority.text := by
  refine ⟨?_, fun char hmem => ?_⟩
  · unfold Authority.text
    split
    · exact List.cons_ne_nil _ _
    · exact List.append_ne_nil_of_left_ne_nil h.host _
  · obtain ⟨hdelimiter, -, hat⟩ := authority_chars h char hmem
    exact ⟨hdelimiter, hat⟩

theorem hash_delimits : '#' ∈ delimiters := by decide

theorem rooted_chars {segments : List Segment}
    (h : ∀ segment ∈ segments, ∀ char ∈ segment, char ∉ delimiters ∧ char ∉ blanks) :
    ∀ char ∈ rooted segments, char ≠ '#' ∧ char ∉ blanks := by
  intro char hmem
  obtain ⟨segment, hsegment, hchar⟩ := List.mem_flatMap.mp hmem
  cases List.mem_cons.mp hchar with
  | inl hslash => exact hslash ▸ ⟨by decide, by decide⟩
  | inr hchar =>
      obtain ⟨hdelimiter, hblank⟩ := h segment hsegment char hchar
      exact ⟨fun hhash => hdelimiter (hhash ▸ hash_delimits), hblank⟩

theorem query_chars (h : reference.Valid) :
    ∀ char ∈ marked '?' reference.query, char ≠ '#' ∧ char ∉ blanks := by
  intro char hmem
  obtain rfl | ⟨query, hsome, hchar⟩ := mem_marked hmem
  · exact ⟨by decide, by decide⟩
  · exact h.query query hsome char hchar

-- What follows an authority.
theorem path_chars (h : reference.Valid) {segments : List Segment}
    (hsegments : ∀ segment ∈ segments, ∀ char ∈ segment, char ∉ delimiters ∧ char ∉ blanks) :
    ∀ char ∈ rooted segments ++ marked '?' reference.query, char ≠ '#' ∧ char ∉ blanks :=
  List.forall_mem_append.mpr ⟨rooted_chars hsegments, query_chars h⟩

theorem pathText_chars (h : reference.Valid) :
    ∀ char ∈ reference.path.text ++ marked '?' reference.query, char ≠ '#' ∧ char ∉ blanks := by
  intro char hmem
  cases hpath : reference.path with
  | rooted segments =>
      rw [hpath] at hmem
      have hsegments := h.segments
      rw [hpath] at hsegments
      exact path_chars h hsegments char hmem
  | relative first others =>
      -- behind a slash it would be a rooted path
      have hmore : char ∈ rooted (first :: others) ++ marked '?' reference.query := by
        rw [hpath] at hmem
        exact List.mem_cons_of_mem _ hmem
      have hsegments := h.segments
      rw [hpath] at hsegments
      exact path_chars h hsegments char hmore

theorem fragment_chars (h : reference.Valid) :
    ∀ char ∈ marked '#' reference.fragment, char ∉ blanks := by
  intro char hmem
  obtain rfl | ⟨fragment, hsome, hchar⟩ := mem_marked hmem
  · decide
  · exact h.fragment fragment hsome char hchar

theorem front_chars (h : reference.Valid) :
    ∀ char ∈ reference.front, char ≠ '#' ∧ char ∉ blanks := by
  intro char hmem
  cases List.mem_append.mp hmem with
  | inl hscheme =>
      cases hcases : reference.scheme with
      | none =>
          rw [hcases] at hscheme
          cases hscheme
      | some scheme =>
          rw [hcases] at hscheme
          cases List.mem_append.mp hscheme with
          | inl hchar =>
              obtain ⟨hdelimiter, hblank, -⟩ := scheme_chars (h.scheme scheme hcases).2 char hchar
              exact ⟨fun hhash => hdelimiter (hhash ▸ hash_delimits), hblank⟩
          | inr hcolon => exact List.mem_singleton.mp hcolon ▸ ⟨by decide, by decide⟩
  | inr hrest =>
      cases List.mem_append.mp hrest with
      | inr hpath => exact pathText_chars h char hpath
      | inl hauthority =>
          cases hcases : reference.authority with
          | none =>
              rw [hcases] at hauthority
              cases hauthority
          | some authority =>
              rw [hcases] at hauthority
              have hauthority : char = '/' ∨ char = '/' ∨ char ∈ authority.text := by
                simpa only [Option.elim_some, List.mem_cons] using hauthority
              obtain rfl | rfl | hchar := hauthority
              · exact ⟨by decide, by decide⟩
              · exact ⟨by decide, by decide⟩
              · obtain ⟨hdelimiter, hblank, -⟩ := authority_chars (h.authority authority hcases).1 char hchar
                exact ⟨fun hhash => hdelimiter (hhash ▸ hash_delimits), hblank⟩

theorem text_chars (h : reference.Valid) : ∀ char ∈ reference.text, char ∉ blanks :=
  List.forall_mem_append.mpr ⟨fun char hmem => (front_chars h char hmem).2, fragment_chars h⟩

theorem clean_head {front tail : List Char} (hne : front ≠ []) (h : ∀ char ∈ front, char ∉ delimiters) :
    (front ++ tail).head? ≠ some '/' := by
  obtain ⟨char, rest, rfl⟩ := List.exists_cons_of_ne_nil hne
  intro hchar
  refine h char List.mem_cons_self ?_
  rw [show char = '/' from Option.some.inj hchar]
  decide

theorem marks_head (query fragment : Option (List Char)) :
    (marked '?' query ++ marked '#' fragment).head? ≠ some '/' := by
  cases query with
  | some query => exact fun h => absurd (Option.some.inj h) (by decide)
  | none =>
      cases fragment with
      | some fragment => exact fun h => absurd (Option.some.inj h) (by decide)
      | none => exact fun h => by cases h

end Text

section Follows

variable {url : ParsedUrl} {base : Location} {directory segments : List Segment} {last : Segment}
  {reference : Reference} {authority : Authority}

theorem segments_slashless (h : reference.Valid) : ∀ segment ∈ reference.path.segments, '/' ∉ segment :=
  fun segment hmem hchar => (h.segments segment hmem '/' hchar).1 (by decide)

theorem Current.slashless (h : Current url base directory last) :
    ∀ segment ∈ directory ++ [last], '/' ∉ segment :=
  fun segment hmem hchar => (h.clean segment hmem '/' hchar).1 (by decide)

-- The reference has an authority, and the code has found it there.
theorem follows_authority {scheme result : String} (hvalid : reference.Valid)
    (hauthority : reference.authority = some authority) (hpath : reference.path = .rooted segments)
    (hweb : Web scheme) (hscheme : reference.scheme.elim base.scheme (·.map Char.toLower) = scheme.toList)
    (hresolve : url.resolve (String.ofList reference.text) = .ok result)
    (hresult : result.toList = scheme.toList ++ ("://".toList ++
      (authority.text ++ (rooted segments ++ marked '?' reference.query ++ marked '#' reference.fragment)))) :
    Follows url base reference ↔
      (∀ port ∈ authority.port, Fits port) ∧ ∀ segment ∈ segments, isDots segment = false := by
  have hauth := (hvalid.authority authority hauthority).1
  have hslash : ∀ segment ∈ segments, '/' ∉ segment := by
    have hall := segments_slashless hvalid
    rwa [hpath] at hall
  have hclean := path_chars hvalid hvalid.segments
  rw [hpath] at hclean
  obtain ⟨hfound, hnext⟩ := parse_parts authority.host
    (authority.portOr (defaultPort scheme.toList)) hweb (sound_text hauth) (rooted_head segments)
    hclean hresult
  have htarget : base.resolve reference = ⟨scheme.toList, authority.host,
      authority.portOr (defaultPort scheme.toList), rooted (cleared segments), reference.query⟩ := by
    rw [Location.resolve, hauthority, hscheme, hpath, ← removeDotSegments_rooted hslash]
    rfl
  by_cases hfits : ∀ port ∈ authority.port, Fits port
  · obtain ⟨next, hparse, hdenotes⟩ := hnext (parseAuthority_text hauth hfits)
    rw [follows_iff hresolve hparse hdenotes, htarget, requestTarget_rooted hslash
      (cleared_slashless hslash) cleared_eq_nil.symm, eq_comm (a := segments), cleared_eq_self]
    exact ⟨fun h => ⟨hfits, h.2.2.2⟩, fun h => ⟨rfl, rfl, rfl, h.2⟩⟩
  · refine iff_of_false ?_ fun h => hfits h.1
    rintro ⟨other, next, hother, hparse, -⟩
    obtain rfl := Except.ok.inj (hresolve.symm.trans hother)
    obtain ⟨found, hauthorityFound⟩ := hfound next hparse
    exact hfits (fits_of_parseAuthority hauth hauthorityFound)

-- The reference leads to the same server, and so does the code.
theorem follows_base {result : String} {path : List Char} (hparsed : Parsed url)
    (hcurrent : Current url base directory last)
    (hsame : (base.resolve reference).scheme = base.scheme ∧
      (base.resolve reference).host = base.host ∧ (base.resolve reference).port = base.port)
    (hpath : path.head? = some '/')
    (hclean : ∀ char ∈ path ++ marked '?' reference.query, char ≠ '#' ∧ char ∉ blanks)
    (hresolve : url.resolve (String.ofList reference.text) = .ok result)
    (hresult : result.toList = url.scheme.toList ++ ("://".toList ++ (url.authority.toList ++
      (path ++ marked '?' reference.query ++ marked '#' reference.fragment)))) :
    Follows url base reference ↔ requestTarget path reference.query =
      requestTarget (base.resolve reference).path (base.resolve reference).query := by
  obtain ⟨next, hparse, hdenotes⟩ :=
    (parse_parts url.host.toList url.port hparsed.web hparsed.sound (.inr hpath) hclean hresult).2 hparsed.authority
  rw [follows_iff hresolve hparse hdenotes, hsame.1, hsame.2.1, hsame.2.2, ← hcurrent.denotes.scheme,
    ← hcurrent.denotes.host, ← hcurrent.denotes.port]
  exact ⟨fun h => h.2.2.2, fun h => ⟨rfl, rfl, rfl, h⟩⟩

theorem resolve_base (hauthority : reference.authority = none) (hscheme : reference.scheme = none) :
    (base.resolve reference).scheme = base.scheme ∧ (base.resolve reference).host = base.host ∧
      (base.resolve reference).port = base.port := by
  unfold Location.resolve
  rw [hauthority, hscheme]
  show (ite _ _ _ : Location).scheme = _ ∧ (ite _ _ _ : Location).host = _ ∧ (ite _ _ _ : Location).port = _
  split
  · exact ⟨rfl, rfl, rfl⟩
  · split <;> exact ⟨rfl, rfl, rfl⟩

theorem trimmed_eq_self : trimmed directory = directory ↔ directory.getLast? ≠ some [] := by
  rw [trimmed, List.rdropWhile_eq_self_iff]
  constructor
  · intro h hlast
    have hne : directory ≠ [] := by
      rintro rfl
      cases hlast
    have hempty := List.getLast?_eq_some_getLast hne
    rw [hempty] at hlast
    refine h hne ?_
    rw [Option.some.inj hlast]
    rfl
  · intro h hne hempty
    refine h ?_
    rw [List.getLast?_eq_some_getLast hne, List.isEmpty_iff.mp hempty]

theorem mem_trimmed {segment : Segment} (h : segment ∈ trimmed directory) : segment ∈ directory :=
  (List.rdropWhile_prefix _ _).subset h

theorem mem_of_trimmed {segment : Segment} (h : segment ∈ directory) :
    segment ∈ trimmed directory ∨ segment = [] := by
  have hsplit := List.takeWhile_append_dropWhile (p := List.isEmpty) (l := directory.reverse)
  have hmem : segment ∈ directory.reverse := List.mem_reverse.mpr h
  rw [← hsplit] at hmem
  cases List.mem_append.mp hmem with
  | inl hempty => exact .inr (List.isEmpty_iff.mp (List.mem_takeWhile_imp hempty))
  | inr hkept => exact .inl (List.mem_reverse.mpr hkept)

-- What `resolve` finds from the directory.
theorem resolve_directory (hvalid : reference.Valid) (hcurrent : Current url base directory last)
    (hhead : reference.text.head? ≠ some '/')
    (hweb : ∀ scheme, Web scheme → ¬scheme.toList ++ "://".toList <+: reference.text) :
    ∃ result, url.resolve (String.ofList reference.text) = .ok result ∧
      result.toList = url.scheme.toList ++ ("://".toList ++ (url.authority.toList ++
        (rooted (trimmed directory) ++ '/' :: reference.text))) := by
  have htext : (String.ofList reference.text).toList = reference.text := String.toList_ofList
  have hclean := text_chars hvalid
  rw [← htext] at hclean hhead hweb
  obtain ⟨result, hresolve, hresult⟩ := resolve_relative hcurrent hclean hhead hweb
  rw [htext] at hresult
  exact ⟨result, hresolve, hresult⟩

-- What has no colon before its first delimiter does not begin with a scheme.
theorem not_web_prefix {front tail : List Char} (hfront : ':' ∉ front)
    (htail : tail = [] ∨ ∃ char ∈ delimiters, tail.head? = some char) {scheme : String} (h : Web scheme) :
    ¬scheme.toList ++ "://".toList <+: front ++ tail := by
  rintro ⟨back, hback⟩
  have hkey : ∀ char ∈ scheme.toList ++ [':'], char ∉ delimiters := by
    obtain rfl | rfl := h <;> exact List.all_iff_forall_prop.mp (by decide)
  have hsplit : (scheme.toList ++ [':']) ++ ('/' :: '/' :: back) = front ++ tail := by
    rw [← hback, List.append_assoc, List.append_assoc]
    rfl
  have hcolon : ':' ∈ scheme.toList ++ [':'] := List.mem_append_right _ List.mem_cons_self
  cases List.prefix_or_prefix_of_prefix ⟨_, hsplit⟩ (List.prefix_append front tail) with
  | inl hin => exact hfront (hin.subset hcolon)
  | inr hin =>
      obtain ⟨more, hmore⟩ := hin
      rw [← hmore, List.append_assoc] at hsplit
      have hsame := List.append_cancel_left hsplit
      cases more with
      | nil =>
          rw [← hmore, List.append_nil] at hcolon
          exact hfront hcolon
      | cons char more =>
          rw [← hsame] at htail
          obtain hnil | ⟨mark, hmark, hhead⟩ := htail
          · cases hnil
          · refine hkey mark ?_ hmark
            rw [← hmore, ← Option.some.inj hhead]
            exact List.mem_append_right _ List.mem_cons_self

theorem trimmed_clean (hcurrent : Current url base directory last) {others : List Segment}
    (hothers : ∀ segment ∈ others, ∀ char ∈ segment, char ∉ delimiters ∧ char ∉ blanks) :
    ∀ segment ∈ trimmed directory ++ others, ∀ char ∈ segment, char ∉ delimiters ∧ char ∉ blanks := by
  intro segment hmem
  cases List.mem_append.mp hmem with
  | inl hin => exact hcurrent.clean segment (List.mem_append_left _ (mem_trimmed hin))
  | inr hin => exact hothers segment hin

-- What is found from the directory is compared with what the reference stands for.
theorem follows_directory (hvalid : reference.Valid) (hparsed : Parsed url)
    (hcurrent : Current url base directory last) (hauthority : reference.authority = none)
    (hscheme : reference.scheme = none) {front : List Char} {others : List Segment}
    (htext : reference.text = front ++ marked '?' reference.query ++ marked '#' reference.fragment)
    (hothers : ∀ segment ∈ others, ∀ char ∈ segment, char ∉ delimiters ∧ char ∉ blanks)
    (hfront : rooted others = '/' :: front) (hhead : reference.text.head? ≠ some '/')
    (hweb : ∀ scheme, Web scheme → ¬scheme.toList ++ "://".toList <+: reference.text) :
    Follows url base reference ↔
      requestTarget (rooted (trimmed directory ++ others)) reference.query =
        requestTarget (base.resolve reference).path (base.resolve reference).query := by
  obtain ⟨result, hresolve, hresult⟩ := resolve_directory hvalid hcurrent hhead hweb
  have hpath : rooted (trimmed directory ++ others) = rooted (trimmed directory) ++ '/' :: front := by
    rw [rooted_append, hfront]
  have hslash : (rooted (trimmed directory ++ others)).head? = some '/' := by
    refine (rooted_head _).resolve_left ?_
    rw [hpath]
    exact List.append_ne_nil_of_right_ne_nil _ (List.cons_ne_nil _ _)
  refine follows_base hparsed hcurrent (resolve_base hauthority hscheme) hslash
    (path_chars hvalid (trimmed_clean hcurrent hothers)) hresolve ?_
  rw [hresult, hpath, htext]
  simp only [List.append_assoc, List.cons_append]

-- A reference with nothing but a query or a fragment.
theorem follows_empty (hvalid : reference.Valid) (hparsed : Parsed url)
    (hcurrent : Current url base directory last) (hauthority : reference.authority = none)
    (hscheme : reference.scheme = none) (hpath : reference.path = .rooted []) :
    Follows url base reference ↔ directory.getLast? ≠ some [] ∧ last = [] ∧
      (reference.query = none → base.query = none) := by
  have hfront : reference.text = [] ++ marked '?' reference.query ++ marked '#' reference.fragment := by
    rw [Reference.text, Reference.front, hscheme, hauthority, hpath]
    rfl
  have hdelimited := tail_head (.inl rfl) reference.query reference.fragment
  rw [← hfront] at hdelimited
  have hhead : reference.text.head? ≠ some '/' := hfront ▸ marks_head _ _
  have hempty : ∀ segment ∈ [([] : Segment)], ∀ char ∈ segment, char ∉ delimiters ∧ char ∉ blanks :=
    List.forall_mem_singleton.mpr fun char hmem => absurd hmem List.not_mem_nil
  have htarget : (base.resolve reference).path = base.path ∧ (base.resolve reference).query =
      if reference.query = none then base.query else reference.query := by
    rw [Location.resolve, hauthority, hpath]
    exact ⟨rfl, rfl⟩
  have hslash : ∀ segment ∈ trimmed directory ++ [[]], '/' ∉ segment := fun segment hmem hchar =>
    (trimmed_clean hcurrent hempty segment hmem '/' hchar).1 (by decide)
  have hsame : trimmed directory ++ [[]] = directory ++ [last] ↔
      directory.getLast? ≠ some [] ∧ last = [] := by
    rw [← trimmed_eq_self]
    constructor
    · intro h
      obtain ⟨hdirectory, hlast⟩ := List.append_inj' h rfl
      exact ⟨hdirectory, (List.cons.inj hlast).1.symm⟩
    · rintro ⟨hdirectory, rfl⟩
      rw [hdirectory]
  have hnil : trimmed directory ++ [[]] = [] ↔ directory ++ [last] = [] := by simp
  rw [follows_directory hvalid hparsed hcurrent hauthority hscheme hfront hempty rfl hhead
    fun scheme => not_web_prefix List.not_mem_nil hdelimited, htarget.1, htarget.2, hcurrent.path]
  cases hquery : reference.query with
  | some query =>
      rw [if_neg (Option.some_ne_none query), requestTarget_rooted hslash hcurrent.slashless hnil, hsame]
      exact ⟨fun h => ⟨h.1, h.2, fun hnone => by cases hnone⟩, fun h => ⟨h.1, h.2.1⟩⟩
  | none =>
      rw [if_pos rfl]
      cases hbase : base.query with
      | none =>
          rw [requestTarget_rooted hslash hcurrent.slashless hnil, hsame]
          exact ⟨fun h => ⟨h.1, h.2, fun _ => rfl⟩, fun h => ⟨h.1, h.2.1⟩⟩
      | some query =>
          -- a question mark on one side only
          refine iff_of_false (fun htargets => ?_) fun h => by cases h.2.2 rfl
          have hmark : '?' ∈ requestTarget (rooted (directory ++ [last])) (some query) :=
            List.mem_append_right _ List.mem_cons_self
          rw [← htargets, requestTarget, if_neg (mt rooted_eq_nil.mp (by simp))] at hmark
          have hin := (List.mem_append.mp hmark).resolve_right List.not_mem_nil
          obtain ⟨segment, hsegment, hchar⟩ := List.mem_flatMap.mp hin
          exact (trimmed_clean hcurrent hempty segment hsegment '?'
            ((List.mem_cons.mp hchar).resolve_left (by decide))).1 (by decide)

theorem merge_directory (hcurrent : Current url base directory last) (first : Segment)
    (others : List Segment) :
    merge base.path (first ++ rooted others) = rooted (directory ++ first :: others) := by
  have hlast : '/' ∉ last := hcurrent.slashless last (List.mem_append_right _ List.mem_cons_self)
  have hbase : base.path = rooted directory ++ '/' :: last := by
    rw [hcurrent.path, rooted_append]
    exact congrArg (rooted directory ++ '/' :: ·) (List.append_nil last)
  rw [merge, hbase, if_neg (List.append_ne_nil_of_right_ne_nil _ (List.cons_ne_nil _ _)),
    rdropWhile_slash _ hlast, rooted_append, rooted_cons, List.append_assoc]
  rfl

-- A path without a slash in front of it.
theorem follows_relative {first : Segment} {others : List Segment} (hvalid : reference.Valid)
    (hparsed : Parsed url) (hcurrent : Current url base directory last)
    (hauthority : reference.authority = none) (hscheme : reference.scheme = none)
    (hpath : reference.path = .relative first others) :
    Follows url base reference ↔ directory.getLast? ≠ some [] ∧
      (∀ segment ∈ directory, isDots segment = false) ∧
      ∀ segment ∈ first :: others, isDots segment = false := by
  obtain ⟨hfirst, hcolon⟩ := hvalid.relative first others hpath
  have hclean : ∀ segment ∈ first :: others, ∀ char ∈ segment, char ∉ delimiters ∧ char ∉ blanks := by
    have hsegments := hvalid.segments
    rwa [hpath] at hsegments
  have htext : reference.text = first ++ rooted others ++ marked '?' reference.query ++
      marked '#' reference.fragment := by
    rw [Reference.text, Reference.front, hscheme, hauthority, hpath]
    rfl
  have hfront : reference.text = first ++
      (rooted others ++ marked '?' reference.query ++ marked '#' reference.fragment) := by
    rw [htext]
    simp only [List.append_assoc]
  have hhead : reference.text.head? ≠ some '/' := by
    rw [hfront]
    exact clean_head hfirst fun char hmem => (hclean first List.mem_cons_self char hmem).1
  have hslash : ∀ segment ∈ directory ++ first :: others, '/' ∉ segment := by
    intro segment hmem hchar
    cases List.mem_append.mp hmem with
    | inl hin => exact hcurrent.slashless segment (List.mem_append_left _ hin) hchar
    | inr hin => exact (hclean segment hin '/' hchar).1 (by decide)
  have htrimmed : ∀ segment ∈ trimmed directory ++ first :: others, '/' ∉ segment :=
    fun segment hmem hchar => (trimmed_clean hcurrent hclean segment hmem '/' hchar).1 (by decide)
  have hpathText : reference.path.text = first ++ rooted others := by rw [hpath]; rfl
  have htarget : (base.resolve reference).path = rooted (cleared (directory ++ first :: others)) ∧
      (base.resolve reference).query = reference.query := by
    have hsome : reference.path.text ≠ [] := hpathText ▸ List.append_ne_nil_of_left_ne_nil hfirst _
    have hunrooted : reference.path.text.head? ≠ some '/' := by
      have hfront : reference.text = reference.path.text ++
          (marked '?' reference.query ++ marked '#' reference.fragment) := by
        rw [htext, hpathText, List.append_assoc]
      rwa [hfront, List.head?_append_of_ne_nil _ hsome] at hhead
    rw [Location.resolve, hauthority]
    show (ite _ _ _ : Location).path = _ ∧ (ite _ _ _ : Location).query = _
    rw [if_neg hsome, if_neg hunrooted, hpathText, merge_directory hcurrent, removeDotSegments_rooted hslash]
    exact ⟨rfl, rfl⟩
  have hnil : trimmed directory ++ first :: others = [] ↔ cleared (directory ++ first :: others) = [] :=
    iff_of_false (by simp) (cleared_ne_nil (by simp))
  rw [follows_directory hvalid hparsed hcurrent hauthority hscheme htext hclean rfl hhead
    fun scheme => hfront ▸ not_web_prefix hcolon (tail_head (rooted_head others) _ _), htarget.1,
    htarget.2, requestTarget_rooted htrimmed (cleared_slashless hslash) hnil, ← trimmed_eq_self]
  constructor
  · intro h
    have hdotless := cleared_dotless (directory ++ first :: others)
    rw [← h] at hdotless
    have hdirectory : ∀ segment ∈ directory, isDots segment = false := by
      intro segment hmem
      obtain hin | rfl := mem_of_trimmed hmem
      · exact hdotless segment (List.mem_append_left _ hin)
      · rfl
    have hothers : ∀ segment ∈ first :: others, isDots segment = false :=
      fun segment hmem => hdotless segment (List.mem_append_right _ hmem)
    rw [cleared_eq_self.mpr (List.forall_mem_append.mpr ⟨hdirectory, hothers⟩)] at h
    exact ⟨List.append_cancel_right h, hdirectory, hothers⟩
  · rintro ⟨hdirectory, hdots, hothers⟩
    rw [hdirectory, cleared_eq_self.mpr (List.forall_mem_append.mpr ⟨hdots, hothers⟩)]

-- A path with a slash in front of it.
theorem follows_rooted {first : Segment} {others : List Segment} (hvalid : reference.Valid)
    (hparsed : Parsed url) (hcurrent : Current url base directory last)
    (hauthority : reference.authority = none) (hscheme : reference.scheme = none)
    (hpath : reference.path = .rooted (first :: others)) :
    Follows url base reference ↔ ∀ segment ∈ first :: others, isDots segment = false := by
  have hclean : ∀ segment ∈ first :: others, ∀ char ∈ segment, char ∉ delimiters ∧ char ∉ blanks := by
    have hsegments := hvalid.segments
    rwa [hpath] at hsegments
  have hslash : ∀ segment ∈ first :: others, '/' ∉ segment := fun segment hmem hchar =>
    (hclean segment hmem '/' hchar).1 (by decide)
  have htext : reference.text = '/' :: (first ++ (rooted others ++ (marked '?' reference.query ++
      marked '#' reference.fragment))) := by
    rw [Reference.text, Reference.front, hscheme, hauthority, hpath]
    show rooted (first :: others) ++ _ ++ _ = _
    rw [rooted_cons]
    simp only [List.cons_append, List.append_assoc]
  -- an empty first segment is the last one, so there is no second slash
  have hrest : (first ++ (rooted others ++ (marked '?' reference.query ++
      marked '#' reference.fragment))).head? ≠ some '/' := by
    cases first with
    | nil =>
        rw [hvalid.absolute others hauthority hpath]
        exact marks_head _ _
    | cons char first =>
        exact clean_head (List.cons_ne_nil char first) fun char hmem => (hclean _ List.mem_cons_self char hmem).1
  have hblanks := text_chars hvalid
  have hofList : (String.ofList reference.text).toList = reference.text := String.toList_ofList
  rw [← hofList] at hblanks
  obtain ⟨result, hresolve, hresult⟩ : ∃ result, url.resolve (String.ofList reference.text) =
      .ok result ∧ result.toList = url.scheme.toList ++ ("://".toList ++ (url.authority.toList ++ '/' ::
        (first ++ (rooted others ++ (marked '?' reference.query ++ marked '#' reference.fragment))))) :=
    resolve_rooted hblanks (hofList.trans htext) hrest
  have htarget : base.resolve reference =
      { base with path := rooted (cleared (first :: others)), query := reference.query } := by
    rw [Location.resolve, hauthority, hscheme, hpath, ← removeDotSegments_rooted hslash]
    rfl
  have hnil : first :: others = [] ↔ cleared (first :: others) = [] :=
    iff_of_false (List.cons_ne_nil _ _) (cleared_ne_nil (List.cons_ne_nil _ _))
  have hends : result.toList = url.scheme.toList ++ ("://".toList ++ (url.authority.toList ++
      (rooted (first :: others) ++ marked '?' reference.query ++ marked '#' reference.fragment))) := by
    rw [hresult, rooted_cons]
    simp only [List.cons_append, List.append_assoc]
  rw [follows_base hparsed hcurrent (resolve_base hauthority hscheme) rfl (path_chars hvalid hclean)
    hresolve hends, htarget, requestTarget_rooted hslash (cleared_slashless hslash) hnil,
    eq_comm (a := first :: others), cleared_eq_self]

-- The code looks for its two schemes as they are written.
theorem not_web_prefix_upper {scheme back : List Char} (hcolon : ':' ∉ scheme)
    (hupper : scheme.map Char.toLower ≠ scheme) {other : String} (h : Web other) :
    ¬other.toList ++ "://".toList <+: scheme ++ ':' :: back := by
  rintro ⟨rest, hrest⟩
  rw [List.append_assoc] at hrest
  have hnone : ':' ∉ other.toList := by obtain rfl | rfl := h <;> decide
  have hsame : other.toList = scheme :=
    (Prod.mk.inj (Option.some.inj ((Core.splitOnce_append hnone).symm.trans
      ((congrArg _ hrest).trans (Core.splitOnce_append hcolon))))).1
  rw [← hsame] at hupper
  obtain rfl | rfl := h <;> exact hupper (by decide)

-- A longer path is another one.
theorem requestTarget_longer {path : List Char} {query : Option (List Char)}
    (h : (rooted segments).length + 1 < path.length) :
    requestTarget path query ≠ requestTarget (rooted (cleared segments)) query := by
  intro htargets
  have hlengths := congrArg List.length (List.append_cancel_right htargets)
  have hcleared := length_rooted_cleared segments
  have hsome : path ≠ [] := by
    rintro rfl
    cases h
  have hpath : (if path = [] then ['/'] else path).length = path.length := by rw [if_neg hsome]
  have hsame : path.length =
      (if rooted (cleared segments) = [] then ['/'] else rooted (cleared segments)).length :=
    hpath.symm.trans hlengths
  split at hsame
  · rw [List.length_singleton] at hsame
    omega
  · omega

-- A scheme in capital letters is taken for a part of a path.
theorem not_follows_upper {scheme : List Char} (hvalid : reference.Valid) (hparsed : Parsed url)
    (hcurrent : Current url base directory last) (hauthority : reference.authority = some authority)
    (hpath : reference.path = .rooted segments) (hscheme : reference.scheme = some scheme)
    (hupper : scheme.map Char.toLower ≠ scheme) : ¬Follows url base reference := by
  obtain ⟨-, hletters⟩ := hvalid.scheme scheme hscheme
  have hcolon : ':' ∉ scheme := fun hmem => (scheme_chars hletters ':' hmem).2.2 rfl
  have hslash : ∀ segment ∈ segments, '/' ∉ segment := by
    have hall := segments_slashless hvalid
    rwa [hpath] at hall
  have hfront : reference.front = scheme ++ ':' :: '/' :: '/' ::
      (authority.text ++ (rooted segments ++ marked '?' reference.query)) := by
    rw [Reference.front, hscheme, hauthority, hpath]
    simp only [Option.elim_some, List.append_assoc, List.cons_append, List.nil_append, Path.text]
  have hhead : reference.text.head? ≠ some '/' := by
    have hne : scheme ≠ [] := by
      rintro rfl
      exact hupper rfl
    rw [Reference.text, hfront, List.append_assoc]
    exact clean_head hne fun char hmem => (scheme_chars hletters char hmem).1
  have hweb (other : String) (hother : Web other) : ¬other.toList ++ "://".toList <+: reference.text := by
    rw [Reference.text, hfront, List.append_assoc, List.cons_append]
    exact not_web_prefix_upper hcolon hupper hother
  obtain ⟨result, hresolve, hresult⟩ := resolve_directory hvalid hcurrent hhead hweb
  obtain ⟨path, hpathText⟩ : ∃ path, path = rooted (trimmed directory) ++ '/' :: (scheme ++ ':' :: '/' ::
      '/' :: (authority.text ++ rooted segments)) := ⟨_, rfl⟩
  have hends : path ++ marked '?' reference.query = rooted (trimmed directory) ++ '/' :: reference.front := by
    rw [hpathText, hfront]
    simp only [List.append_assoc, List.cons_append]
  have hstarts : path.head? = some '/' := by
    rw [hpathText]
    cases rooted_head (trimmed directory) with
    | inl hnil => rw [hnil]; rfl
    | inr hslash => rw [List.head?_append, hslash]; rfl
  have hclean : ∀ char ∈ path ++ marked '?' reference.query, char ≠ '#' ∧ char ∉ blanks := by
    rw [hends]
    refine List.forall_mem_append.mpr ⟨rooted_chars fun segment hmem =>
      hcurrent.clean segment (List.mem_append_left _ (mem_trimmed hmem)), ?_⟩
    exact List.forall_mem_cons.mpr ⟨⟨by decide, by decide⟩, front_chars hvalid⟩
  have hvalue : result.toList = url.scheme.toList ++ ("://".toList ++ (url.authority.toList ++
      (path ++ marked '?' reference.query ++ marked '#' reference.fragment))) := by
    rw [hresult, hends, Reference.text, List.append_assoc, List.cons_append]
  obtain ⟨next, hparse, hdenotes⟩ := (parse_parts url.host.toList url.port hparsed.web hparsed.sound
    (.inr hstarts) hclean hvalue).2 hparsed.authority
  have htarget : (base.resolve reference).path = rooted (cleared segments) ∧
      (base.resolve reference).query = reference.query := by
    rw [Location.resolve, hauthority, hpath, ← removeDotSegments_rooted hslash]
    exact ⟨rfl, rfl⟩
  -- the path in the code is longer, as it has the scheme in it
  have hlonger : (rooted segments).length + 1 < path.length := by
    rw [hpathText]
    simp only [List.length_append, List.length_cons]
    omega
  rw [follows_iff hresolve hparse hdenotes, htarget.1, htarget.2]
  exact fun hfollows => requestTarget_longer hlonger hfollows.2.2.2

-- What the code makes of a reference with an authority.
theorem follows_server (hvalid : reference.Valid) (hparsed : Parsed url)
    (hcurrent : Current url base directory last) (hauthority : reference.authority = some authority)
    (hpath : reference.path = .rooted segments) :
    Follows url base reference ↔ (∀ scheme ∈ reference.scheme, scheme.map Char.toLower = scheme) ∧
      (∀ port ∈ authority.port, Fits port) ∧ ∀ segment ∈ segments, isDots segment = false := by
  have hblanks := text_chars hvalid
  have hofList : (String.ofList reference.text).toList = reference.text := String.toList_ofList
  rw [← hofList] at hblanks
  cases hscheme : reference.scheme with
  | none =>
      have htext : reference.text = '/' :: '/' :: (authority.text ++ (rooted segments ++
          marked '?' reference.query ++ marked '#' reference.fragment)) := by
        rw [Reference.text, Reference.front, hscheme, hauthority, hpath]
        simp only [Option.elim_none, Option.elim_some, List.nil_append, List.cons_append,
          List.append_assoc, Path.text]
      obtain ⟨result, hresolve, hresult⟩ := @resolve_network url _ _ hblanks (hofList.trans htext)
      have hbase : reference.scheme.elim base.scheme (·.map Char.toLower) = url.scheme.toList := by
        rw [hscheme, hcurrent.denotes.scheme]
        rfl
      rw [follows_authority hvalid hauthority hpath hparsed.web hbase hresolve hresult]
      exact ⟨fun h => ⟨fun scheme hmem => (by cases hmem), h⟩, fun h => h.2⟩
  | some scheme =>
      by_cases hlower : scheme.map Char.toLower = scheme
      · have hletters := (hvalid.scheme scheme hscheme).2
        rw [hlower] at hletters
        obtain ⟨web, hweb, rfl⟩ : ∃ web, Web web ∧ web.toList = scheme :=
          hletters.elim (fun h => ⟨"http", .inl rfl, h.symm⟩) fun h => ⟨"https", .inr rfl, h.symm⟩
        have htext : reference.text = web.toList ++ ("://".toList ++ (authority.text ++ (rooted segments ++
            marked '?' reference.query ++ marked '#' reference.fragment))) := by
          rw [Reference.text, Reference.front, hscheme, hauthority, hpath]
          simp only [Option.elim_some, List.append_assoc, Path.text]
          rfl
        have hresolve : url.resolve (String.ofList reference.text) = .ok (String.ofList reference.text) :=
          resolve_absolute hweb hblanks (hofList.trans htext)
        have hbase : reference.scheme.elim base.scheme (·.map Char.toLower) = web.toList := by
          rw [hscheme]
          exact hlower
        rw [follows_authority hvalid hauthority hpath hweb hbase hresolve (hofList.trans htext)]
        refine ⟨fun h => ⟨fun other hmem => ?_, h⟩, fun h => h.2⟩
        rw [← Option.some.inj hmem]
        exact hlower
      · exact iff_of_false (not_follows_upper hvalid hparsed hcurrent hauthority hpath hscheme hlower)
          fun h => hlower (h.1 scheme rfl)

end Follows

section Kept

variable {base : Location} {directory segments others : List Segment} {first last : Segment}
  {reference : Reference} {authority : Authority}

theorem kept_server (hauthority : reference.authority = some authority)
    (hpath : reference.path = .rooted segments) :
    Kept base directory last reference ↔
      (∀ scheme ∈ reference.scheme, scheme.map Char.toLower = scheme) ∧
        (∀ port ∈ authority.port, Fits port) ∧ ∀ segment ∈ segments, isDots segment = false := by
  constructor
  · intro hkept
    have hdots := hkept.dotless
    rw [hpath] at hdots
    exact ⟨hkept.lower, hkept.port authority hauthority, hdots⟩
  · rintro ⟨hlower, hport, hdots⟩
    refine ⟨hlower, ?_, ?_, ?_, ?_⟩
    · intro other hother
      rw [hauthority] at hother
      rwa [← Option.some.inj hother]
    · rwa [hpath]
    · intro first others hrelative
      rw [hpath] at hrelative
      cases hrelative
    · intro hnone
      rw [hauthority] at hnone
      cases hnone

-- Without an authority there is neither a scheme nor a port.
theorem kept_local (hauthority : reference.authority = none) (hscheme : reference.scheme = none) :
    Kept base directory last reference ↔
      (∀ segment ∈ reference.path.segments, isDots segment = false) ∧
        (∀ first others, reference.path = .relative first others →
          directory.getLast? ≠ some [] ∧ ∀ segment ∈ directory, isDots segment = false) ∧
        (reference.path = .rooted [] →
          directory.getLast? ≠ some [] ∧ last = [] ∧ (reference.query = none → base.query = none)) := by
  constructor
  · exact fun hkept => ⟨hkept.dotless, hkept.merges, hkept.stays hauthority⟩
  · rintro ⟨hdots, hmerges, hstays⟩
    refine ⟨?_, ?_, hdots, hmerges, fun _ => hstays⟩
    · rw [hscheme]
      exact fun scheme hmem => by cases hmem
    · rw [hauthority]
      exact fun authority hmem => by cases hmem

theorem kept_relative (hauthority : reference.authority = none) (hscheme : reference.scheme = none)
    (hpath : reference.path = .relative first others) :
    Kept base directory last reference ↔ directory.getLast? ≠ some [] ∧
      (∀ segment ∈ directory, isDots segment = false) ∧
      ∀ segment ∈ first :: others, isDots segment = false := by
  rw [kept_local hauthority hscheme, hpath]
  constructor
  · rintro ⟨hdots, hmerges, -⟩
    obtain ⟨hlast, hdirectory⟩ := hmerges first others rfl
    exact ⟨hlast, hdirectory, hdots⟩
  · rintro ⟨hlast, hdirectory, hdots⟩
    exact ⟨hdots, fun _ _ _ => ⟨hlast, hdirectory⟩, fun hrooted => by cases hrooted⟩

theorem kept_empty (hauthority : reference.authority = none) (hscheme : reference.scheme = none)
    (hpath : reference.path = .rooted []) :
    Kept base directory last reference ↔ directory.getLast? ≠ some [] ∧ last = [] ∧
      (reference.query = none → base.query = none) := by
  rw [kept_local hauthority hscheme, hpath]
  constructor
  · exact fun hkept => hkept.2.2 rfl
  · intro hstays
    have hnone : ∀ segment ∈ (Path.rooted []).segments, isDots segment = false :=
      fun segment hmem => absurd hmem List.not_mem_nil
    exact ⟨hnone, fun _ _ hrelative => (by cases hrelative), fun _ => hstays⟩

theorem kept_rooted (hauthority : reference.authority = none) (hscheme : reference.scheme = none)
    (hpath : reference.path = .rooted (first :: others)) :
    Kept base directory last reference ↔ ∀ segment ∈ first :: others, isDots segment = false := by
  rw [kept_local hauthority hscheme, hpath]
  constructor
  · exact fun hkept => hkept.1
  · intro hdots
    exact ⟨hdots, fun _ _ hrelative => (by cases hrelative), fun hrooted => (by cases hrooted)⟩

end Kept

-- Where redirects lead, from every current URL and for every reference to something on the web.
theorem resolve_follows_iff {value : String} {url : ParsedUrl} (h : ParsedUrl.parse value = .ok url) :
    (∃ base directory last, Current url base directory last) ∧
      ∀ base directory last, Current url base directory last → ∀ reference : Reference,
        reference.Valid → (Follows url base reference ↔ Kept base directory last reference) := by
  have hparsed := parsed h
  refine ⟨exists_current hparsed, fun base directory last hcurrent reference hvalid => ?_⟩
  cases hauthority : reference.authority with
  | some authority =>
      obtain ⟨segments, hpath⟩ := (hvalid.authority authority hauthority).2
      rw [follows_server hvalid hparsed hcurrent hauthority hpath, kept_server hauthority hpath]
  | none =>
      have hscheme : reference.scheme = none := by
        cases hsome : reference.scheme with
        | none => rfl
        | some scheme => exact absurd hauthority (hvalid.scheme scheme hsome).1
      cases hpath : reference.path with
      | relative first others =>
          rw [follows_relative hvalid hparsed hcurrent hauthority hscheme hpath,
            kept_relative hauthority hscheme hpath]
      | rooted segments =>
          cases segments with
          | nil =>
              rw [follows_empty hvalid hparsed hcurrent hauthority hscheme hpath,
                kept_empty hauthority hscheme hpath]
          | cons first others =>
              rw [follows_rooted hvalid hparsed hcurrent hauthority hscheme hpath,
                kept_rooted hauthority hscheme hpath]

theorem resolve_follows_sample : ∃ url, ParsedUrl.parse "http://h/a/b?x" = .ok url ∧
    (∃ base directory last, Current url base directory last) ∧
      ∀ base directory last, Current url base directory last → ∀ reference : Reference,
        reference.Valid → (Follows url base reference ↔ Kept base directory last reference) :=
  ⟨⟨false, "http", "h", "h", 80, "h", "/a/b?x"⟩, rfl, @resolve_follows_iff "http://h/a/b?x" _ rfl⟩

-- A query in place of that of `/a/b` is sent to `/a/`.
theorem query_leaves_file : ∃ url base reference, ParsedUrl.parse "http://h/a/b?x" = .ok url ∧
    Denotes url base ∧ reference.Valid ∧ reference.text = "?y".toList ∧ ¬Follows url base reference := by
  refine ⟨⟨false, "http", "h", "h", 80, "h", "/a/b?x"⟩,
    ⟨"http".toList, "h".toList, 80, "/a/b".toList, some "x".toList⟩,
    ⟨none, none, .rooted [], some "y".toList, none⟩, rfl, ⟨rfl, rfl, rfl, rfl⟩, ?_, rfl, ?_⟩
  · refine ⟨?_, ?_, ?_, ?_, ?_, ?_, ?_⟩
    · exact fun scheme hmem => by cases hmem
    · exact fun authority hmem => by cases hmem
    · exact fun segment hmem => absurd hmem List.not_mem_nil
    · exact fun others _ hpath => by cases hpath
    · exact fun first others hpath => by cases hpath
    · rintro query hquery char hmem
      obtain rfl : "y".toList = query := Option.some.inj hquery
      obtain rfl := List.mem_singleton.mp hmem
      exact ⟨by decide, by decide⟩
    · exact fun fragment hmem => by cases hmem
  · rintro ⟨result, next, hresolve, hparse, hdenotes⟩
    obtain rfl : "http://h/a/?y" = result := Except.ok.inj hresolve
    obtain rfl : (⟨false, "http", "h", "h", 80, "h", "/a/?y"⟩ : ParsedUrl) = next := Except.ok.inj hparse
    exact absurd hdenotes.target (by decide)

end SingBox.Cli
