import SingBox.Cli.RuleSetFetcher
import SingBox.Hysteria2.Masquerade.Proxy
import SingBox.Library.Relay
import SingBox.Responses.Heads

namespace SingBox.Responses

open Library Chunked SingBox.Core
open Chunked (Line dataOf write)
open HttpHead (crlf)
open Hysteria2 (HeaderMap HttpCrate)
open Relay (upTo)
open Text (trim)
open Utf8 (decode encode)

-- No size line that comes up after chunks has a size that is too large for the two bytes of a
-- line end on top of it.
def SizesFit (sizeOf : Bytes → Option Nat) (fits : Nat → Prop) (input : Bytes) : Prop :=
  ∀ chunks line rest size, input = write chunks ++ (line ++ (crlf ++ rest)) →
    (∀ chunk ∈ chunks, chunk.Reads sizeOf) → fits (dataOf chunks).length → Line line →
    sizeOf line = some size → size + 2 < 2 ^ 64

-- What `decode_chunked` of the fetcher and of the proxy find in a size line.
def cliSize (line : Bytes) : Option Nat := (Cli.readSize line).toOption

def proxySize (line : Bytes) : Option Nat := (Hysteria2.readSize line).toOption

theorem decoders_faultless_iff (input : Bytes) :
    ((Cli.decodeChunked input).Faultless ↔ SizesFit cliSize Cli.FitsResponse input) ∧
      ((Hysteria2.decodeChunked input).Faultless ↔ SizesFit proxySize (fun _ => True) input) :=
  ⟨Cli.decoder.run_faultless_iff (fun _ _ => Nat.le_trans) (Nat.zero_le _),
    Hysteria2.decoder.run_faultless_iff (fun _ _ _ h => h) trivial⟩

def WRAPPING_SIZE : Bytes := encode "fffffffffffffffe"

theorem decoders_overflow :
    ¬∀ input, (Cli.decodeChunked input).Faultless ∧ (Hysteria2.decodeChunked input).Faultless := by
  intro h
  have hline : Line WRAPPING_SIZE := by decide
  have hsize : cliSize WRAPPING_SIZE = some (2 ^ 64 - 2) := by decide
  obtain ⟨⟨result, hresult⟩, -⟩ := h (WRAPPING_SIZE ++ (crlf ++ []))
  have hfault : Cli.decoder.run (WRAPPING_SIZE ++ (crlf ++ [])) [] = Checked.fault .overflow :=
    Cli.decoder.run_overflow hline hsize (by decide)
  rw [Cli.decodeChunked, hfault] at hresult
  cases hresult

-- Both give the same status and the same body, where both accept the response.
def Agree (http : HttpCrate) (bytes : Bytes) : Prop :=
  ∀ cli proxy, Cli.HttpResponse.parse bytes false = pure cli →
    Hysteria2.parseProxyResponse http bytes false = pure proxy →
    cli.status = proxy.status ∧ cli.body = proxy.body

-- How much of the body a length leaves.
def Framed (value : Option String) (limit : Option Nat) : Prop :=
  match value with
  | some length => ∃ most, parseUnsigned (2 ^ 64) length.toList = .ok most ∧ limit = some most
  | none => limit = none

-- A body that is not in the chunked coding.
def plainBody (truncated : String) (value : Option String) (body : Bytes) : Checked Bytes :=
  match value with
  | some length => do
      let length ← Checked.ofResult (parseUnsigned (2 ^ 64) length.toList)
      Checked.ensure (length ≤ body.length) truncated
      Checked.slice body 0 length
  | none => pure body

theorem cli_parseBody (headers : Cli.Headers) (body : Bytes) :
    Cli.HttpResponse.parseBody headers false body =
      if Cli.HttpResponse.isChunked headers then Cli.decodeChunked body
      else plainBody "truncated rule-set HTTP response body" (headers.lookup "content-length") body := rfl

theorem proxy_parseBody (http : HttpCrate) (map : HeaderMap) (body : Bytes) :
    Hysteria2.parseProxyBody http 200 map false body =
      if Hysteria2.transferChunked http map then Hysteria2.decodeChunked body
      else plainBody "truncated proxy response body" ((map.lookup "content-length").filter http.visible)
        body := rfl

theorem plainBody_ok_iff {truncated : String} {value : Option String} {body out : Bytes} :
    plainBody truncated value body = pure out ↔
      ∃ limit, Framed value limit ∧ (∀ most, limit = some most → most ≤ body.length) ∧
        out = upTo limit body := by
  cases value with
  | none =>
      constructor
      · intro h
        obtain rfl := Checked.pure_inj h
        exact ⟨none, rfl, fun most hmost => (nomatch hmost), rfl⟩
      · rintro ⟨limit, rfl, -, rfl⟩
        rfl
  | some length =>
      rw [plainBody]
      cases hparse : parseUnsigned (2 ^ 64) length.toList with
      | error chain =>
          constructor
          · intro h; cases h
          · rintro ⟨limit, ⟨most, hmost, -⟩, -⟩
            rw [hparse] at hmost
            cases hmost
      | ok most =>
          have hframed (limit : Option Nat) : Framed (some length) limit ↔ limit = some most := by
            constructor
            · rintro ⟨other, hother, rfl⟩
              rw [Except.ok.inj (hother.symm.trans hparse)]
            · rintro rfl
              exact ⟨most, hparse, rfl⟩
          simp only [hframed, exists_eq_left, Option.some.injEq, forall_eq', upTo, Checked.ofResult_ok,
            pure_bind]
          by_cases hle : most ≤ body.length
          · have hslice : Checked.slice body 0 most = pure (body.take most) := by
              rw [Checked.slice, if_pos ⟨Nat.zero_le _, hle⟩, List.drop_zero]
            rw [decide_eq_true hle, Checked.ensure_true, pure_bind, hslice]
            constructor
            · intro h
              exact ⟨hle, (Checked.pure_inj h).symm⟩
            · rintro ⟨-, rfl⟩
              rfl
          · rw [decide_eq_false hle, Checked.ensure_false, Checked.error_bind]
            constructor
            · intro h; cases h
            · exact fun h => absurd h.1 hle

-- What the fetcher takes for a size, the proxy does.
theorem proxySize_of_cliSize {line : Bytes} {size : Nat} (h : cliSize line = some size) :
    proxySize line = some size := by
  have hcli : Cli.readSize line = .ok size := by
    rw [cliSize] at h
    cases hread : Cli.readSize line with
    | error chain => rw [hread] at h; cases h
    | ok found => rw [hread] at h; exact congrArg _ (Option.some.inj h)
  obtain ⟨text, htext, hsize⟩ := Result.bind_eq_ok.mp hcli
  rw [proxySize, Hysteria2.readSize, Result.ofOption_eq_ok.mp htext]
  cases hsplit : text.toList.splitOn ';' with
  | nil => exact absurd hsplit (List.splitOn_ne_nil ';' text.toList)
  | cons first others =>
      rw [hsplit, List.headD_cons] at hsize
      have htrim : trim first = first := Text.trim_eq_self fun char hchar =>
        (fromStrRadix_plain (Nat.le_refl 16) hsize char hchar).word
      show ((Result.ofOption "chunk size is missing" (text.toList.splitOn ';').head? >>= fun size =>
        Result.withContext "invalid chunk size" (fromStrRadix 16 (2 ^ 64) (trim size))) : Result Nat).toOption = _
      rw [hsplit]
      show (Result.withContext "invalid chunk size" (fromStrRadix 16 (2 ^ 64) (trim first))).toOption = _
      rw [htrim, hsize]
      rfl

theorem decodes_agree {body decoded : Bytes} (h : Cli.decodeChunked body = pure decoded) :
    Hysteria2.decodeChunked body = pure decoded := by
  obtain ⟨chunks, line, rest, rfl, hchunks, -, hline, hsize, rfl⟩ :=
    (Cli.decoder.decodes body []).of_ok h (Nat.zero_le _)
  have hreads : ∀ chunk ∈ chunks, chunk.Reads fun line => (Hysteria2.readSize line).toOption :=
    fun chunk hchunk => ⟨(hchunks chunk hchunk).1.line, (hchunks chunk hchunk).1.data,
      proxySize_of_cliSize (hchunks chunk hchunk).1.size⟩
  obtain hrun | ⟨⟨chunk, hchunk, hlarge⟩, -⟩ := Hysteria2.decoder.run_write (fun _ _ _ h => h)
    (line ++ (crlf ++ rest)) hreads (trivial : True)
  · rw [Hysteria2.decodeChunked, hrun, Hysteria2.decoder.run_last hline (proxySize_of_cliSize hsize)]
  · have hsmall := (hchunks chunk hchunk).2
    omega

-- Some body that is decoded, of which no length leaves as much.
theorem exists_body (limit : Option Nat) : ∃ body decoded, Cli.decodeChunked body = pure decoded ∧
    (∀ most, limit = some most → most ≤ body.length) ∧ upTo limit body ≠ decoded := by
  have hzero : Line [48] := by decide
  have hend (rest : Bytes) : Cli.decodeChunked ([48] ++ (crlf ++ rest)) = pure [] :=
    Cli.decoder.run_last hzero (by rfl)
  cases limit with
  | none => exact ⟨[48] ++ (crlf ++ []), [], hend [], fun _ hmost => (nomatch hmost), List.cons_ne_nil _ _⟩
  | some most =>
      cases most with
      | zero =>
          have hsize : cliSize [49] = some 1 := by decide
          have hchunk : (⟨[49], [97]⟩ : Chunked.Chunk).Reads cliSize :=
            ⟨by decide, List.cons_ne_nil _ _, hsize⟩
          have hfits : Cli.FitsResponse (([] : Bytes).length + 1) := by
            show 0 + 1 ≤ Cli.MAX_RESPONSE_SIZE
            decide
          have hrun : Cli.decodeChunked (Chunked.Chunk.bytes ⟨[49], [97]⟩ ++ ([48] ++ (crlf ++ []))) =
              pure [97] :=
            (Cli.decoder.run_chunk hchunk (by decide) hfits).trans (Cli.decoder.run_last hzero (by rfl))
          refine ⟨_, _, hrun, fun most hmost => ?_, (List.cons_ne_nil _ _).symm⟩
          rw [← Option.some.inj hmost]
          exact Nat.zero_le _
      | succ most =>
          refine ⟨[48] ++ (crlf ++ List.replicate most 0), [], hend _, fun size hsize => ?_,
            List.cons_ne_nil _ _⟩
          rw [← Option.some.inj hsize, List.length_append, List.length_append, List.length_replicate]
          simp only [crlf, List.length_cons]
          omega

variable {http : HttpCrate}

-- A length that is a number is visible.
theorem framed_visible (hlawful : Lawful http) {value : Option String} {limit : Option Nat}
    (h : Framed value limit) : value.filter http.visible = value := by
  cases value with
  | none => rfl
  | some length =>
      obtain ⟨most, hmost, -⟩ := h
      rw [parseUnsigned_eq] at hmost
      have hvisible := hlawful.visible length fun char hchar =>
        (fromStrRadix_plain (by decide) hmost char hchar).visible
      rw [Option.filter_some, if_pos hvisible]

theorem framed_unique {value : Option String} {limit other : Option Nat} (h : Framed value limit)
    (hother : Framed value other) : limit = other := by
  cases value with
  | none => exact h.trans hother.symm
  | some length =>
      obtain ⟨most, hmost, rfl⟩ := h
      obtain ⟨same, hsame, rfl⟩ := hother
      rw [Except.ok.inj (hmost.symm.trans hsame)]

-- What both make of the bodies behind a head.
theorem agree_bodies_iff {head body : Bytes} {headers : Cli.Headers} {map : HeaderMap}
    (hend : position (crlf ++ crlf) (head ++ (crlf ++ (crlf ++ body))) = some head.length)
    (hsize : head.length ≤ 64 * 1024) (hcli : Cli.HttpResponse.parseHead head = .ok (200, headers))
    (hproxy : Hysteria2.parseProxyHead http head = .ok (200, map)) :
    Agree http (head ++ (crlf ++ (crlf ++ body))) ↔
      ∀ out other, Cli.HttpResponse.parseBody headers false body = pure out →
        Hysteria2.parseProxyBody http 200 map false body = pure other → out = other := by
  rw [Agree, Cli.HttpResponse.parse_append hend hsize hcli,
    Hysteria2.parseProxyResponse_append http hend hproxy]
  constructor
  · intro h out other hout hother
    exact (h _ _ (Checked.bind_eq_pure.mpr ⟨out, hout, rfl⟩)
      (Checked.bind_eq_pure.mpr ⟨other, hother, rfl⟩)).2
  · intro h cli proxy hparsed hanswered
    obtain ⟨out, hout, hparsed⟩ := Checked.bind_eq_pure.mp hparsed
    obtain ⟨other, hother, hanswered⟩ := Checked.bind_eq_pure.mp hanswered
    rw [← Checked.pure_inj hparsed, ← Checked.pure_inj hanswered]
    exact ⟨rfl, h out other hout hother⟩

-- The items of a list of codings.
def codings (value : String) : List (List Char) := (value.toList.splitOn ',').map trim

section

variable {map : HeaderMap} {headers : Cli.Headers}

theorem isChunked_iff : Cli.HttpResponse.isChunked headers = true ↔
    ∃ value, headers.lookup "transfer-encoding" = some value ∧ "chunked".toList ∈ codings value := by
  rw [Cli.HttpResponse.isChunked, Option.any_eq_true]
  refine exists_congr fun value => and_congr_right fun _ => ?_
  simp [codings]

theorem transferChunked_iff (hnodup : (map.map Prod.fst).Nodup) :
    Hysteria2.transferChunked http map = true ↔
      ∃ value, map.lookup "transfer-encoding" = some value ∧ http.visible value = true ∧
        ∃ item ∈ codings value, toAsciiLowercase (String.ofList item) = "chunked" := by
  rw [Hysteria2.transferChunked, visibleValues_eq hnodup, List.any_eq_true]
  simp [codings, Option.filter_eq_some_iff, and_assoc]

-- Where one of them finds the chunked coding, the other does as well, or finds a length that
-- is not a number.
structure Alike (http : HttpCrate) (map : HeaderMap) : Prop where
  visible {value : String} : map.lookup "transfer-encoding" = some value →
    "chunked".toList ∈ codings value → http.visible value = true ∨
      ∀ limit, ¬Framed ((map.lookup "content-length").filter http.visible) limit
  spelled {value : String} {item : List Char} : map.lookup "transfer-encoding" = some value →
    http.visible value = true → item ∈ codings value →
    toAsciiLowercase (String.ofList item) = "chunked" → "chunked".toList ∈ codings value ∨
      ∀ limit, ¬Framed (map.lookup "content-length") limit

theorem Alike.bodies (h : Alike http map) (hlawful : Lawful http) (hsame : headers = map.reverse)
    (hnodup : (map.map Prod.fst).Nodup) {body out other : Bytes}
    (hcli : Cli.HttpResponse.parseBody headers false body = pure out)
    (hproxy : Hysteria2.parseProxyBody http 200 map false body = pure other) : out = other := by
  rw [cli_parseBody, hsame, lookup_reverse hnodup, ← hsame] at hcli
  rw [proxy_parseBody] at hproxy
  by_cases hchunked : Cli.HttpResponse.isChunked headers = true
  · rw [if_pos hchunked] at hcli
    obtain ⟨value, hvalue, hitem⟩ := isChunked_iff.mp hchunked
    rw [hsame, lookup_reverse hnodup] at hvalue
    by_cases htransfer : Hysteria2.transferChunked http map = true
    · rw [if_pos htransfer, decodes_agree hcli] at hproxy
      exact Checked.pure_inj hproxy
    · rw [if_neg htransfer] at hproxy
      obtain ⟨limit, hframed, -⟩ := plainBody_ok_iff.mp hproxy
      obtain hvisible | hrefused := h.visible hvalue hitem
      · exact absurd ((transferChunked_iff hnodup).mpr ⟨value, hvalue, hvisible, _, hitem, by rfl⟩) htransfer
      · exact absurd hframed (hrefused limit)
  · rw [if_neg hchunked] at hcli
    obtain ⟨limit, hframed, -, rfl⟩ := plainBody_ok_iff.mp hcli
    by_cases htransfer : Hysteria2.transferChunked http map = true
    · obtain ⟨value, hvalue, hvisible, item, hitem, hlower⟩ := (transferChunked_iff hnodup).mp htransfer
      obtain hexact | hrefused := h.spelled hvalue hvisible hitem hlower
      · rw [← lookup_reverse hnodup, ← hsame] at hvalue
        exact absurd (isChunked_iff.mpr ⟨value, hvalue, hexact⟩) hchunked
      · exact absurd hframed (hrefused limit)
    · rw [if_neg htransfer] at hproxy
      obtain ⟨same, hother, -, rfl⟩ := plainBody_ok_iff.mp hproxy
      rw [framed_visible hlawful hframed] at hother
      rw [framed_unique hframed hother]

theorem alike_of_bodies (hsame : headers = map.reverse) (hnodup : (map.map Prod.fst).Nodup)
    (h : ∀ body out other, Cli.HttpResponse.parseBody headers false body = pure out →
      Hysteria2.parseProxyBody http 200 map false body = pure other → out = other) :
    Alike http map := by
  constructor
  · intro value hvalue hitem
    by_cases hvisible : http.visible value = true
    · exact .inl hvisible
    refine .inr fun limit hframed => ?_
    have hchunked : Cli.HttpResponse.isChunked headers = true :=
      isChunked_iff.mpr ⟨value, by rwa [hsame, lookup_reverse hnodup], hitem⟩
    have htransfer : ¬Hysteria2.transferChunked http map = true := fun hfound => by
      obtain ⟨other, hother, hseen, -⟩ := (transferChunked_iff hnodup).mp hfound
      exact hvisible (Option.some.inj (hvalue.symm.trans hother) ▸ hseen)
    obtain ⟨body, decoded, hdecoded, hfits, hne⟩ := exists_body limit
    refine hne (h body decoded _ ?_ ?_).symm
    · rw [cli_parseBody, if_pos hchunked, hdecoded]
    · rw [proxy_parseBody, if_neg htransfer]
      exact plainBody_ok_iff.mpr ⟨limit, hframed, hfits, rfl⟩
  · intro value item hvalue hvisible hitem hlower
    by_cases hexact : "chunked".toList ∈ codings value
    · exact .inl hexact
    refine .inr fun limit hframed => ?_
    have htransfer := (transferChunked_iff hnodup).mpr ⟨value, hvalue, hvisible, item, hitem, hlower⟩
    have hchunked : ¬Cli.HttpResponse.isChunked headers = true := fun hfound => by
      obtain ⟨other, hother, hseen⟩ := isChunked_iff.mp hfound
      rw [hsame, lookup_reverse hnodup] at hother
      exact hexact (Option.some.inj (hvalue.symm.trans hother) ▸ hseen)
    obtain ⟨body, decoded, hdecoded, hfits, hne⟩ := exists_body limit
    refine hne (h body _ decoded ?_ ?_)
    · rw [cli_parseBody, if_neg hchunked, hsame, lookup_reverse hnodup]
      exact plainBody_ok_iff.mpr ⟨limit, hframed, hfits, rfl⟩
    · rw [proxy_parseBody, if_pos htransfer, decodes_agree hdecoded]

end

-- The bodies behind the head of a response are read alike where the coding and the length are
-- found alike. In a head of one status that both take and that repeats no name, only the
-- spelling of the coding, and values that are not visible, can make a difference.
theorem parsers_agree_iff (hlawful : Lawful http) {bytes : Bytes} {index status : Nat}
    {headers : Cli.Headers} {map : HeaderMap} (hend : position (crlf ++ crlf) bytes = some index)
    (hsize : index ≤ 64 * 1024)
    (hcli : Cli.HttpResponse.parseHead (bytes.take index) = .ok (200, headers))
    (hproxy : Hysteria2.parseProxyHead http (bytes.take index) = .ok (status, map))
    (hnodup : (map.map Prod.fst).Nodup) :
    (∀ body, Agree http (bytes.take (index + 4) ++ body)) ↔ Alike http map := by
  obtain ⟨head, back, rfl, rfl, -⟩ := position_some (by decide) hend
  have hhead : (head ++ ((crlf ++ crlf) ++ back)).take (head.length + 4) = head ++ (crlf ++ crlf) := by
    rw [List.take_length_add_append]
    rfl
  rw [List.take_left] at hcli hproxy
  obtain ⟨rfl, rfl⟩ := heads_agree hlawful hcli hproxy
  have hbody (body : Bytes) : Agree http ((head ++ (crlf ++ crlf)) ++ body) ↔
      ∀ out other, Cli.HttpResponse.parseBody map.reverse false body = pure out →
        Hysteria2.parseProxyBody http 200 map false body = pure other → out = other := by
    rw [List.append_assoc, List.append_assoc]
    refine agree_bodies_iff ?_ hsize hcli hproxy
    rw [← List.append_assoc crlf]
    exact position_again (by decide) hend body
  rw [hhead]
  simp only [hbody]
  exact ⟨alike_of_bodies rfl hnodup, fun halike body out other hout hother =>
    halike.bodies hlawful rfl hnodup hout hother⟩

-- `HeaderName::from_bytes`, `HeaderValue::from_str` and `HeaderValue::to_str` on characters.
def DELIMITERS : List Nat := [34, 40, 41, 44, 47, 58, 59, 60, 61, 62, 63, 64, 91, 92, 93, 123, 125]

def tokenChar (char : Char) : Bool :=
  33 ≤ char.toNat && char.toNat < 127 && !DELIMITERS.contains char.toNat

def valueChar (char : Char) : Bool := char == '\t' || 32 ≤ char.toNat && char.toNat ≠ 127

def tokenHttp : HttpCrate where
  headerName bytes := (decode bytes).bind fun name =>
    if name ≠ "" && name.toList.all tokenChar then some (toAsciiLowercase name) else none
  admitsValue value := value.toList.all valueChar
  visible value := value.toList.all fun char => valueChar char && char.toNat < 128
  admitsStatus status := 100 ≤ status && status < 1000

theorem tokenHttp_lawful : Lawful tokenHttp where
  name name lower h := by
    obtain ⟨same, hsame, hlower⟩ := Option.bind_eq_some_iff.mp h
    obtain rfl := Option.some.inj ((Utf8.decode_encode name).symm.trans hsame)
    split at hlower
    · next htoken =>
        refine ⟨(Option.some.inj hlower).symm, fun char hchar => ?_⟩
        have htokenChar := List.all_eq_true.mp (Bool.and_eq_true_iff.mp htoken).2 char hchar
        have hcode : 33 ≤ char.toNat ∧ char.toNat < 127 := by
          simpa using (Bool.and_eq_true_iff.mp htokenChar).1
        simp [Text.isWhitespace]
        omega
    · cases hlower
  visible value h := by
    refine List.all_eq_true.mpr fun char hchar => ?_
    have hcode := h char hchar
    simp [valueChar]
    omega

def codedHead (coding : String) : Bytes :=
  encode ("HTTP/1.1 200 OK\r\nTransfer-Encoding: " ++ coding)

def emptyChunked : Bytes := [48] ++ (crlf ++ crlf)

theorem parsers_agree_chunked :
    Agree tokenHttp ((codedHead "gzip, chunked" ++ (crlf ++ crlf)) ++ emptyChunked) := by
  have hend : position (crlf ++ crlf) (codedHead "gzip, chunked" ++ (crlf ++ crlf)) = some 49 := by rfl
  have hagree : (∀ body, Agree tokenHttp
      ((codedHead "gzip, chunked" ++ (crlf ++ crlf)).take 53 ++ body)) ↔
      Alike tokenHttp [("transfer-encoding", "gzip, chunked")] :=
    parsers_agree_iff tokenHttp_lawful hend (by decide) (by rfl) (by rfl) (by decide)
  refine hagree.mpr ⟨fun hvalue _ => .inl ?_, fun hvalue _ _ _ => .inl ?_⟩ emptyChunked
  · rw [← Option.some.inj hvalue]
    rfl
  · rw [← Option.some.inj hvalue]
    decide

-- A coding in another case: the fetcher hands on what the proxy decodes.
theorem parsers_disagree : ¬∀ http, Lawful http → ∀ bytes,
    (∀ index status map, position (crlf ++ crlf) bytes = some index →
      Hysteria2.parseProxyHead http (bytes.take index) = .ok (status, map) →
      status = 200 ∧ (map.map Prod.fst).Nodup) → Agree http bytes := by
  intro h
  have hend : position (crlf ++ crlf) (codedHead "Chunked" ++ (crlf ++ (crlf ++ emptyChunked))) =
      some (codedHead "Chunked").length := by rfl
  have hcli : Cli.HttpResponse.parseHead (codedHead "Chunked") =
      .ok (200, [("transfer-encoding", "Chunked")]) := by rfl
  have hproxy : Hysteria2.parseProxyHead tokenHttp (codedHead "Chunked") =
      .ok (200, [("transfer-encoding", "Chunked")]) := by rfl
  have hagree : Agree tokenHttp (codedHead "Chunked" ++ (crlf ++ (crlf ++ emptyChunked))) := by
    refine h tokenHttp tokenHttp_lawful _ fun index status map hindex hmap => ?_
    obtain rfl := Option.some.inj (hend.symm.trans hindex)
    rw [List.take_left] at hmap
    cases hproxy.symm.trans hmap
    exact ⟨rfl, List.nodup_singleton _⟩
  have hdecoded : Hysteria2.parseProxyBody tokenHttp 200 [("transfer-encoding", "Chunked")] false
      emptyChunked = pure [] := by
    rw [proxy_parseBody, if_pos (by rfl)]
    exact Hysteria2.decoder.run_last (by decide) (by rfl)
  have hhanded : Cli.HttpResponse.parseBody [("transfer-encoding", "Chunked")] false emptyChunked =
      pure emptyChunked := by rfl
  have hbodies := (agree_bodies_iff hend (by decide) hcli hproxy).mp hagree _ _ hhanded hdecoded
  cases hbodies

end SingBox.Responses
