import SingBox.Cli.RuleSetFetcher
import SingBox.Library.Uri.Dots

namespace SingBox.Cli

open Library Uri
open Core (splitOnce splitOnce_append splitOnce_none numeral numeralFrom parseUnsigned parseUnsigned_eq toDigit)

-- The request target that `parse` makes of what follows an authority.
def targetOf (tail : List Char) : List Char :=
  if tail.isEmpty then ['/'] else if tail.head? = some '?' then '/' :: tail else tail

theorem targetOf_marked {path : List Char} (h : path = [] ∨ path.head? = some '/')
    (query : Option (List Char)) : targetOf (path ++ marked '?' query) = requestTarget path query := by
  cases path with
  | nil => cases query <;> rfl
  | cons char path =>
      obtain rfl : char = '/' := h.elim (fun h => by cases h) fun h => Option.some.inj h
      rfl

-- What a URL has of an authority.
structure Sound (authority : List Char) : Prop where
  nonempty : authority ≠ []
  chars : ∀ char ∈ authority, char ∉ delimiters ∧ char ≠ '@'

theorem containsAny_eq_false {chars text : List Char} :
    containsAny chars text = false ↔ ∀ char ∈ text, char ∉ chars := by
  rw [containsAny, List.any_eq_false]
  exact forall₂_congr fun char _ => not_congr List.contains_iff_mem

section ParseAs

variable {https : Bool} {scheme : String} {defaultPort : Nat} {authority tail : List Char}

theorem delimited (hauthority : ∀ char ∈ authority, char ∉ delimiters)
    (htail : tail = [] ∨ ∃ char ∈ delimiters, tail.head? = some char) :
    (authority ++ tail).takeWhile (fun char => !(['/', '?', '#'].contains char)) = authority ∧
      (authority ++ tail).dropWhile (fun char => !(['/', '?', '#'].contains char)) = tail := by
  have hclean : ∀ char ∈ authority, (!(['/', '?', '#'].contains char)) = true := by
    intro char hmem
    rw [Bool.not_eq_true', List.contains_eq_mem]
    exact decide_eq_false (hauthority char hmem)
  rw [List.takeWhile_append_of_pos hclean, List.dropWhile_append_of_pos hclean]
  cases tail with
  | nil => exact ⟨List.append_nil _, rfl⟩
  | cons char tail =>
      have hmark : (!(['/', '?', '#'].contains char)) = false := by
        obtain ⟨mark, hmem, hhead⟩ := htail.resolve_left (List.cons_ne_nil _ _)
        rw [Bool.not_eq_false', Option.some.inj hhead]
        exact List.contains_iff_mem.mpr hmem
      rw [List.takeWhile_cons, List.dropWhile_cons, hmark]
      exact ⟨List.append_nil _, rfl⟩

-- `parse` on an authority and what follows it.
theorem parseAs_append (h : Sound authority)
    (htail : tail = [] ∨ ∃ char ∈ delimiters, tail.head? = some char) :
    ParsedUrl.parseAs https scheme defaultPort (authority ++ tail) =
      parseAuthority authority defaultPort >>= fun found =>
        Result.ensure (!containsAny ['\r', '\n', ' '] (targetOf (tail.takeWhile (· ≠ '#'))))
          "invalid character in rule-set URL" >>= fun _ =>
        pure {
          https, scheme
          authority := String.ofList authority
          host := String.ofList found.1
          port := found.2
          hostHeader := if found.2 = defaultPort then authorityHost found.1
            else s!"{authorityHost found.1}:{found.2}"
          target := String.ofList (targetOf (tail.takeWhile (· ≠ '#'))) } := by
  obtain ⟨htake, hdrop⟩ := delimited (fun char hmem => (h.chars char hmem).1) htail
  have hsome : (!authority.isEmpty) = true := by
    rw [Bool.not_eq_true', List.isEmpty_eq_false_iff]
    exact h.nonempty
  have hat : (!authority.contains '@') = true := by
    rw [Bool.not_eq_true', List.contains_eq_mem]
    exact decide_eq_false fun hmem => (h.chars '@' hmem).2 rfl
  simp only [ParsedUrl.parseAs, htake, hdrop, hsome, hat]
  rfl

end ParseAs

def Web (scheme : String) : Prop := scheme = "http" ∨ scheme = "https"

theorem parse_append {scheme value : String} (h : Web scheme) {rest : List Char}
    (hvalue : value.toList = scheme.toList ++ ("://".toList ++ rest)) :
    ParsedUrl.parse value =
      ParsedUrl.parseAs (scheme == "https") scheme (defaultPort scheme.toList) rest := by
  unfold ParsedUrl.parse
  obtain rfl | rfl := h
  · have hsecure : "https://".toList.isPrefixOf value.toList = false := by rw [hvalue]; rfl
    have hplain : "http://".toList.isPrefixOf value.toList = true := by
      rw [hvalue, List.isPrefixOf_iff_prefix]
      exact ⟨rest, rfl⟩
    simp only [hsecure, hplain]
    rw [hvalue]
    rfl
  · have hsecure : "https://".toList.isPrefixOf value.toList = true := by
      rw [hvalue, List.isPrefixOf_iff_prefix]
      exact ⟨rest, rfl⟩
    simp only [hsecure]
    rw [hvalue]
    rfl

-- What `parse` accepts has come in these two parts.
theorem parseAs_ok {https : Bool} {scheme : String} {port : Nat} {rest : List Char} {url : ParsedUrl}
    (h : ParsedUrl.parseAs https scheme port rest = .ok url) :
    url.scheme = scheme ∧ ∃ authority tail, rest = authority ++ tail ∧ Sound authority ∧
      (tail = [] ∨ ∃ char ∈ delimiters, tail.head? = some char) := by
  have hsplit := List.takeWhile_append_dropWhile
    (p := fun char => !(['/', '?', '#'].contains char)) (l := rest)
  obtain ⟨_, hsome, h⟩ := Result.bind_eq_ok.mp h
  obtain ⟨_, hat, h⟩ := Result.bind_eq_ok.mp h
  obtain ⟨found, _, h⟩ := Result.bind_eq_ok.mp h
  obtain ⟨_, _, h⟩ := Result.bind_eq_ok.mp h
  cases h
  refine ⟨rfl, _, _, hsplit.symm, ⟨?_, fun char hmem => ⟨?_, ?_⟩⟩, ?_⟩
  · have hne := Result.ensure_eq_ok.mp hsome
    rwa [Bool.not_eq_true', List.isEmpty_eq_false_iff] at hne
  · have hclean := List.mem_takeWhile_imp hmem
    rw [Bool.not_eq_true', List.contains_eq_mem, decide_eq_false_iff_not] at hclean
    exact hclean
  · rintro rfl
    have hnone := Result.ensure_eq_ok.mp hat
    rw [Bool.not_eq_true', List.contains_eq_mem, decide_eq_false_iff_not] at hnone
    exact hnone hmem
  · cases htail : rest.dropWhile (fun char => !(['/', '?', '#'].contains char)) with
    | nil => exact .inl rfl
    | cons char tail =>
        refine .inr ⟨char, ?_, rfl⟩
        have hhead := List.head?_dropWhile_not (fun char => !(['/', '?', '#'].contains char)) rest
        rw [htail] at hhead
        have hmark : (!(['/', '?', '#'].contains char)) = false := hhead
        rw [Bool.not_eq_false'] at hmark
        exact List.contains_iff_mem.mp hmark

theorem parse_ok {value : String} {url : ParsedUrl} (h : ParsedUrl.parse value = .ok url) :
    Web url.scheme ∧ ∃ authority tail, Sound authority ∧
      (tail = [] ∨ ∃ char ∈ delimiters, tail.head? = some char) ∧
      ParsedUrl.parseAs (url.scheme == "https") url.scheme (defaultPort url.scheme.toList)
        (authority ++ tail) = .ok url := by
  unfold ParsedUrl.parse at h
  simp only at h
  split at h
  · obtain ⟨hscheme, authority, tail, hrest, hsound, htail⟩ := parseAs_ok h
    rw [hrest] at h
    rw [hscheme]
    exact ⟨.inr rfl, authority, tail, hsound, htail, h⟩
  · split at h
    · obtain ⟨hscheme, authority, tail, hrest, hsound, htail⟩ := parseAs_ok h
      rw [hrest] at h
      rw [hscheme]
      exact ⟨.inl rfl, authority, tail, hsound, htail, h⟩
    · cases h

section Authority

variable {authority : Authority} {default : Nat}

theorem toDigit_isDigit {char : Char} (h : char.isDigit = true) :
    toDigit 10 char = some (char.toNat - '0'.toNat) := by
  have hrange : (decide (48 ≤ char.val) && decide (char.val ≤ 57)) = true := h
  obtain ⟨hlow, hhigh⟩ := Bool.and_eq_true_iff.mp hrange
  have hle : char.toNat ≤ 57 := UInt32.le_iff_toNat_le.mp (of_decide_eq_true hhigh)
  have hzero : '0'.toNat = 48 := rfl
  have hdigit : '0' ≤ char ∧ char ≤ '9' := ⟨of_decide_eq_true hlow, of_decide_eq_true hhigh⟩
  rw [toDigit]
  simp only [if_pos hdigit]
  exact if_pos (by omega)

theorem numeralFrom_portNumber {digits : List Char} (h : ∀ char ∈ digits, char.isDigit = true)
    (number : Nat) : numeralFrom 10 digits number =
      some (digits.foldl (fun number digit => number * 10 + (digit.toNat - '0'.toNat)) number) := by
  induction digits generalizing number with
  | nil => rfl
  | cons char digits ih =>
      obtain ⟨hchar, hdigits⟩ := List.forall_mem_cons.mp h
      rw [numeralFrom, toDigit_isDigit hchar, Option.bind_some, ih hdigits, List.foldl_cons]

-- What the code makes of a port.
def Fits (port : List Char) : Prop := port ≠ [] ∧ portNumber port < 2 ^ 16

theorem parseUnsigned_port {digits : List Char} (h : ∀ char ∈ digits, char.isDigit = true)
    (hfits : Fits digits) : parseUnsigned (2 ^ 16) digits = .ok (portNumber digits) := by
  rw [parseUnsigned_eq]
  exact Core.fromStrRadix_numeral (by decide) hfits.1 (numeralFrom_portNumber h 0) hfits.2

theorem fits_of_parseUnsigned {digits : List Char} {port : Nat}
    (h : ∀ char ∈ digits, char.isDigit = true) (hparse : parseUnsigned (2 ^ 16) digits = .ok port) :
    Fits digits := by
  rw [parseUnsigned_eq] at hparse
  have hplus : ∀ rest, digits ≠ '+' :: rest := by
    rintro rest rfl
    exact absurd (h '+' List.mem_cons_self) (by decide)
  unfold Core.fromStrRadix at hparse
  split at hparse
  · cases hparse
  · exact absurd rfl (hplus [])
  · exact absurd rfl (hplus _)
  · rename_i hne _ _
    obtain ⟨hnumeral, hfits⟩ := Core.fromStrRadix_go_ok (by decide) hparse
    rw [numeralFrom_portNumber h 0] at hnumeral
    refine ⟨hne, ?_⟩
    rw [portNumber, Option.some.inj hnumeral]
    exact hfits

theorem parseAuthority_name {text : List Char} (h : text.head? ≠ some '[') :
    parseAuthority text default =
      Result.ensure (text.count ':' ≤ 1) "IPv6 rule-set URL hosts must use brackets" >>= fun _ =>
        match splitOnce ':' text with
        | some (host, port) => do
            Result.ensure (!host.isEmpty) "rule-set URL host is empty"
            return (host, ← parseUnsigned (2 ^ 16) port)
        | none => return (text, default) := by
  unfold parseAuthority
  split
  · exact absurd rfl h
  · rfl

-- A host is read with the port behind it, or the default one.
theorem parseAuthority_eq (h : authority.Valid) :
    parseAuthority authority.text default =
      authority.port.elim (.ok default) (parseUnsigned (2 ^ 16)) >>= fun port =>
        pure (authority.host, port) := by
  have hsome : (!authority.host.isEmpty) = true := by
    rw [Bool.not_eq_true', List.isEmpty_eq_false_iff]
    exact h.host
  cases hbracketed : authority.bracketed with
  | true =>
      have hclose : ']' ∉ authority.host := fun hmem => (h.chars ']' hmem).2.2 (by decide)
      have hsplit : splitOnce ']' (authority.host ++ ']' :: marked ':' authority.port) =
          some (authority.host, marked ':' authority.port) := splitOnce_append hclose
      have htext : authority.text = '[' :: (authority.host ++ ']' :: marked ':' authority.port) := by
        rw [Authority.text, if_pos hbracketed, List.cons_append, List.append_assoc]
        rfl
      rw [htext, parseAuthority, hsplit]
      cases authority.port with
      | none =>
          show Result.ensure (!authority.host.isEmpty) _ >>= _ = _
          rw [hsome]
          rfl
      | some port =>
          show (parseUnsigned (2 ^ 16) port >>= fun port =>
            Result.ensure (!authority.host.isEmpty) _ >>= fun _ => pure (authority.host, port)) = _
          rw [hsome]
          rfl
  | false =>
      have hcolon := h.name hbracketed
      have htext : authority.text = authority.host ++ marked ':' authority.port := by
        rw [Authority.text, hbracketed]
        rfl
      have hhead : authority.text.head? ≠ some '[' := by
        obtain ⟨char, rest, hhost⟩ := List.exists_cons_of_ne_nil h.host
        rw [htext, hhost]
        intro hchar
        refine (h.chars char (hhost ▸ List.mem_cons_self)).2.2 ?_
        rw [show char = '[' from Option.some.inj hchar]
        decide
      rw [parseAuthority_name hhead, htext]
      cases hport : authority.port with
      | none =>
          have hone : decide ((authority.host ++ []).count ':' ≤ 1) = true := by
            rw [List.append_nil, List.count_eq_zero_of_not_mem hcolon]
            rfl
          show Result.ensure (decide ((authority.host ++ []).count ':' ≤ 1)) _ >>= _ = _
          rw [hone, marked, Option.elim_none, List.append_nil, splitOnce_none hcolon]
          rfl
      | some port =>
          have hdigits : ':' ∉ port := fun hmem =>
            absurd (h.port port hport ':' hmem) (by decide)
          have hone : decide ((authority.host ++ ':' :: port).count ':' ≤ 1) = true := by
            rw [List.count_append, List.count_eq_zero_of_not_mem hcolon, List.count_cons_self,
              List.count_eq_zero_of_not_mem hdigits]
            rfl
          show Result.ensure (decide ((authority.host ++ ':' :: port).count ':' ≤ 1)) _ >>= _ = _
          rw [hone, marked, Option.elim_some, splitOnce_append hcolon]
          show Result.ensure (!authority.host.isEmpty) _ >>= _ = _
          rw [hsome]
          rfl

-- An authority is read where its port is a number of the code, and only there.
theorem parseAuthority_text (h : authority.Valid) (hfits : ∀ port ∈ authority.port, Fits port) :
    parseAuthority authority.text default = .ok (authority.host, authority.portOr default) := by
  rw [parseAuthority_eq h, Authority.portOr]
  cases hport : authority.port with
  | none => rfl
  | some port =>
      obtain ⟨char, rest, hcons⟩ := List.exists_cons_of_ne_nil (hfits port hport).1
      rw [Option.elim_some, parseUnsigned_port (h.port port hport) (hfits port hport), hcons]
      rfl

theorem fits_of_parseAuthority (h : authority.Valid) {found : List Char × Nat}
    (hparse : parseAuthority authority.text default = .ok found) : ∀ port ∈ authority.port, Fits port := by
  intro port hport
  rw [parseAuthority_eq h, hport] at hparse
  obtain ⟨number, hnumber, -⟩ := Result.bind_eq_ok.mp hparse
  exact fits_of_parseUnsigned (h.port port hport) hnumber

end Authority

end SingBox.Cli
