import SingBox.Cli.RuleSetFetcher
import SingBox.Hysteria2.Masquerade.Proxy
import Mathlib.Data.Bool.AllAny
import Mathlib.Data.List.Nodup

namespace SingBox.Responses

open Library SingBox.Core
open Hysteria2 (HttpCrate HeaderMap)
open Text (isWhitespace trim splitCrlf splitWhitespace)
open Utf8 (decode encode)

-- What the documentation of the crate says: a name is a token, and comes in lower case; a text
-- of visible ASCII characters is given as one.
structure Lawful (http : HttpCrate) : Prop where
  name : ∀ name lower, http.headerName (encode name) = some lower →
    lower = toAsciiLowercase name ∧ ∀ char ∈ name.toList, isWhitespace char = false
  visible : ∀ value : String, (∀ char ∈ value.toList, 32 ≤ char.toNat ∧ char.toNat < 127) →
    http.visible value = true

section

variable {http : HttpCrate}

theorem insertHeader_appendHeader (hlawful : Lawful http) {headers cli : Cli.Headers}
    {map proxy : HeaderMap} {line : List Char} (hsame : headers = map.reverse)
    (hcli : Cli.HttpResponse.insertHeader headers line = .ok cli)
    (hproxy : Hysteria2.appendHeader http map line = .ok proxy) : cli = proxy.reverse := by
  obtain ⟨⟨name, value⟩, hsplit, hcli⟩ := Result.bind_eq_ok.mp hcli
  obtain ⟨parts, hparts, hproxy⟩ := Result.bind_eq_ok.mp hproxy
  have hline := Result.ofOption_eq_ok.mp hsplit
  obtain rfl := Option.some.inj (hline.symm.trans (Result.ofOption_eq_ok.mp hparts))
  obtain ⟨lower, hlower, hproxy⟩ := Result.bind_eq_ok.mp hproxy
  obtain ⟨⟨⟩, -, hproxy⟩ := Result.bind_eq_ok.mp hproxy
  obtain ⟨rfl, hclean⟩ := hlawful.name _ _ (Result.ofOption_eq_ok.mp hlower)
  rw [String.toList_ofList] at hclean
  obtain rfl := Except.ok.inj hcli
  obtain rfl := Except.ok.inj hproxy
  rw [Text.trim_eq_self hclean, hsame, List.reverse_append]
  rfl

-- The same headers, in the other order.
theorem foldlM_headers (hlawful : Lawful http) {lines : List (List Char)} {headers cli : Cli.Headers}
    {map proxy : HeaderMap} (hsame : headers = map.reverse)
    (hcli : lines.foldlM Cli.HttpResponse.insertHeader headers = .ok cli)
    (hproxy : lines.foldlM (Hysteria2.appendHeader http) map = .ok proxy) : cli = proxy.reverse := by
  induction lines generalizing headers map with
  | nil =>
      obtain rfl : headers = cli := Except.ok.inj hcli
      obtain rfl : map = proxy := Except.ok.inj hproxy
      exact hsame
  | cons line lines ih =>
      rw [List.foldlM_cons] at hcli hproxy
      obtain ⟨nextCli, hfirstCli, hcli⟩ := Result.bind_eq_ok.mp hcli
      obtain ⟨nextProxy, hfirstProxy, hproxy⟩ := Result.bind_eq_ok.mp hproxy
      exact ih (insertHeader_appendHeader hlawful hsame hfirstCli hfirstProxy) hcli hproxy

theorem lookup_reverse {map : HeaderMap} (hnodup : (map.map Prod.fst).Nodup) (name : String) :
    map.reverse.lookup name = map.lookup name := by
  induction map with
  | nil => rfl
  | cons header rest ih =>
      obtain ⟨hfirst, hrest⟩ := List.nodup_cons.mp hnodup
      rw [List.reverse_cons, List.lookup_append, ih hrest]
      by_cases hname : header.1 = name
      · have hnone : rest.lookup name = none := by
          rw [List.lookup_eq_none_iff]
          intro other hother
          rw [bne_iff_ne]
          rintro rfl
          exact hfirst (List.mem_map.mpr ⟨other, hother, hname.symm⟩)
        obtain ⟨first, value⟩ := header
        obtain rfl : first = name := hname
        rw [hnone, List.lookup_cons_self, List.lookup_cons_self]
        rfl
      · obtain ⟨first, value⟩ := header
        have hne : (name == first) = false := beq_eq_false_iff_ne.mpr (Ne.symm hname)
        simp [List.lookup_cons, hne]

-- The values of a name that is not repeated.
theorem visibleValues_eq {map : HeaderMap} (hnodup : (map.map Prod.fst).Nodup) (name : String) :
    Hysteria2.visibleValues http map name = ((map.lookup name).filter http.visible).toList := by
  induction map with
  | nil => rfl
  | cons header rest ih =>
      obtain ⟨hfirst, hrest⟩ := List.nodup_cons.mp hnodup
      obtain ⟨first, value⟩ := header
      by_cases hname : first = name
      · subst hname
        have hothers : rest.filter (fun header => header.1 = first && http.visible header.2) = [] := by
          rw [List.filter_eq_nil_iff]
          intro other hother hboth
          have heq : other.1 = first := by simpa using (Bool.and_eq_true_iff.mp hboth).1
          exact hfirst (List.mem_map.mpr ⟨other, hother, heq⟩)
        rw [List.lookup_cons_self, Hysteria2.visibleValues, List.filter_cons, hothers]
        cases hvisible : http.visible value <;> simp [hvisible, Option.filter]
      · have hne : (name == first) = false := beq_eq_false_iff_ne.mpr (Ne.symm hname)
        have hskip : Hysteria2.visibleValues http ((first, value) :: rest) name =
            Hysteria2.visibleValues http rest name := by
          simp [Hysteria2.visibleValues, hname]
        rw [hskip, ih hrest, List.lookup_cons, hne]

end

-- The parts of a text in front of its first two separators.
theorem splitOn_two {separator : Char} {text first second : List Char}
    (hfirst : (text.splitOn separator).head? = some first)
    (hsecond : (text.splitOn separator)[1]? = some second) :
    ∃ back, text = first ++ separator :: (second ++ back) ∧
      (back = [] ∨ back.head? = some separator) := by
  have hjoin : [separator].intercalate (text.splitOn separator) = text :=
    List.intercalate_splitOn separator
  cases hparts : text.splitOn separator with
  | nil => rw [hparts] at hfirst; cases hfirst
  | cons front rest =>
      cases rest with
      | nil => rw [hparts] at hsecond; cases hsecond
      | cons mid others =>
          rw [hparts] at hfirst hsecond hjoin
          obtain rfl := Option.some.inj hfirst
          obtain rfl := Option.some.inj hsecond
          cases others with
          | nil => exact ⟨[], by simpa [List.intercalate] using hjoin.symm, .inl rfl⟩
          | cons last others =>
              refine ⟨separator :: [separator].intercalate (last :: others), ?_, .inr rfl⟩
              simpa [List.intercalate] using hjoin.symm

-- The words of a status line, where its parts are a version and a number.
theorem status_words {line version second : List Char} {bound status : Nat}
    (hversion : (line.splitOn ' ').head? = some version) (hsecond : (line.splitOn ' ')[1]? = some second)
    (hknown : version = "HTTP/1.0".toList ∨ version = "HTTP/1.1".toList)
    (hstatus : parseUnsigned bound second = .ok status) :
    (splitWhitespace line)[1]? = some second := by
  obtain ⟨back, rfl, hback⟩ := splitOn_two hversion hsecond
  rw [parseUnsigned_eq] at hstatus
  have hword : version ≠ [] ∧ ∀ char ∈ version, isWhitespace char = false := by
    obtain rfl | rfl := hknown
    · exact ⟨by decide, List.all_iff_forall_prop.mp (by decide)⟩
    · exact ⟨by decide, List.all_iff_forall_prop.mp (by decide)⟩
  obtain ⟨others, hothers⟩ := Text.splitWhitespace_front (fromStrRadix_ne_nil hstatus)
    (fun char hchar => (fromStrRadix_plain (by decide) hstatus char hchar).word) hback
  rw [Text.splitWhitespace_cons hword.1 hword.2, hothers]
  rfl

-- What both make of a head.
theorem heads_agree {http : HttpCrate} (hlawful : Lawful http) {head : Bytes} {status other : Nat}
    {headers : Cli.Headers} {map : HeaderMap}
    (hcli : Cli.HttpResponse.parseHead head = .ok (status, headers))
    (hproxy : Hysteria2.parseProxyHead http head = .ok (other, map)) :
    status = other ∧ headers = map.reverse := by
  obtain ⟨text, htext, hcli⟩ := Result.bind_eq_ok.mp hcli
  obtain ⟨same, hsame, hproxy⟩ := Result.bind_eq_ok.mp hproxy
  obtain rfl := Option.some.inj ((Result.ofOption_eq_ok.mp htext).symm.trans (Result.ofOption_eq_ok.mp hsame))
  obtain ⟨line, hline, hcli⟩ := Result.bind_eq_ok.mp hcli
  obtain ⟨sameLine, hsameLine, hproxy⟩ := Result.bind_eq_ok.mp hproxy
  obtain rfl := Option.some.inj ((Result.ofOption_eq_ok.mp hline).symm.trans (Result.ofOption_eq_ok.mp hsameLine))
  obtain ⟨version, -, hcli⟩ := Result.bind_eq_ok.mp hcli
  obtain ⟨⟨⟩, -, hcli⟩ := Result.bind_eq_ok.mp hcli
  obtain ⟨word, hword, hcli⟩ := Result.bind_eq_ok.mp hcli
  obtain ⟨found, hfound, hcli⟩ := Result.bind_eq_ok.mp hcli
  obtain ⟨cli, hheaders, hcli⟩ := Result.bind_eq_ok.mp hcli
  obtain ⟨rfl, rfl⟩ : found = status ∧ cli = headers := by simpa [pure, Except.pure] using hcli
  obtain ⟨⟨⟩, hversion, hproxy⟩ := Result.bind_eq_ok.mp hproxy
  obtain ⟨second, hsecond, hproxy⟩ := Result.bind_eq_ok.mp hproxy
  obtain ⟨number, hnumber, hproxy⟩ := Result.bind_eq_ok.mp hproxy
  obtain ⟨⟨⟩, -, hproxy⟩ := Result.bind_eq_ok.mp hproxy
  obtain ⟨proxy, hmap, hproxy⟩ := Result.bind_eq_ok.mp hproxy
  obtain ⟨rfl, rfl⟩ : number = other ∧ proxy = map := by simpa [pure, Except.pure] using hproxy
  refine ⟨?_, foldlM_headers hlawful List.reverse_nil.symm hheaders hmap⟩
  have hparts := Result.ofOption_eq_ok.mp hsecond
  have hfirst : (line.splitOn ' ').head? = some ((line.splitOn ' ').headD []) := by
    cases hsplit : line.splitOn ' ' with
    | nil => rw [hsplit] at hparts; cases hparts
    | cons first rest => rfl
  have hknown : (line.splitOn ' ').headD [] = "HTTP/1.0".toList ∨
      (line.splitOn ' ').headD [] = "HTTP/1.1".toList := by
    simpa using Result.ensure_eq_ok.mp hversion
  have hword := (Result.ofOption_eq_ok.mp hword).symm.trans
    (status_words hfirst hparts hknown hnumber)
  obtain rfl := Option.some.inj hword
  exact Except.ok.inj (hfound.symm.trans hnumber)

end SingBox.Responses
