import SingBox.Cloudflared.ServeOrigin
import SingBox.Library.Codings

namespace SingBox.Cloudflared

open Library SingBox.Core

-- A header in bytes.
def headerBytes (header : String × String) : Bytes × Bytes :=
  (Utf8.encode header.1, Utf8.encode header.2)

-- What `serializeHeaders` makes of a header, and of headers, whatever their bytes.
def serializeHeader (header : Bytes × Bytes) : String :=
  base64Encode header.1 ++ ":" ++ base64Encode header.2

def serializeBytes (headers : List (Bytes × Bytes)) : String :=
  ";".intercalate (headers.map serializeHeader)

theorem serializeHeaders_eq (headers : ResponseHeaders) :
    serializeHeaders headers = serializeBytes (headers.map headerBytes) := by
  rw [serializeBytes, List.map_map]
  rfl

-- The headers as they are read: each one up to a semicolon, its name up to a colon.
def parseHeader (part : List Char) : Option (Bytes × Bytes) :=
  match part.splitOn ':' with
  | [name, value] => do return (← Base64.decode name, ← Base64.decode value)
  | _ => none

def parseHeaders (text : String) : Option (List (Bytes × Bytes)) :=
  (text.toList.splitOn ';').mapM parseHeader

theorem digit?_base64Char {digit : UInt8} (h : digit.toNat < 64) :
    Base64.digit? (Vless.base64Char digit) = some digit.toNat := by
  have hall : ∀ n < 64, Base64.digit? (Vless.base64Char (UInt8.ofNat n)) = some n := by decide +kernel
  have hdigit := hall digit.toNat h
  rwa [UInt8.ofNat_toNat] at hdigit

theorem base64Chunks_eq (value : Bytes) : base64Chunks value = Vless.encodeChunks value := by
  fun_induction base64Chunks value with
  | case1 => rfl
  | case2 first =>
      have hmissing : (first &&& 3) <<< 4 ||| (0 : UInt8) >>> 4 = (first &&& 3) <<< 4 := by simp
      rw [base64Chunk, hmissing]
      rfl
  | case3 first second =>
      have hmissing : (second &&& 15) <<< 2 ||| (0 : UInt8) >>> 6 = (second &&& 15) <<< 2 := by simp
      rw [base64Chunk, hmissing]
      rfl
  | case4 first second third rest ih =>
      rw [ih]
      rfl

-- Each chunk is read as the bytes that it is of.
theorem decode_encodeChunks (value : Bytes) : Base64.decode (Vless.encodeChunks value) = some value := by
  fun_induction Vless.encodeChunks value with
  | case1 => rfl
  | case2 first =>
      have hfirst := first.toNat_lt
      have hhigh := Vless.toNat_first first
      have hlow := Vless.toNat_secondLast first
      rw [Base64.decode_one (digit?_base64Char (by omega)) (digit?_base64Char (by omega))]
      rw [@Vless.Base64Bits.ofNat_eq first _ (by omega)]
  | case3 first second =>
      have hfirst := first.toNat_lt
      have hsecond := second.toNat_lt
      have hhigh := Vless.toNat_first first
      have hmid := Vless.toNat_second first second
      have hlow := Vless.toNat_thirdLast second
      rw [Base64.decode_two (digit?_base64Char (by omega)) (digit?_base64Char (by omega))
        (digit?_base64Char (by omega))]
      rw [@Vless.Base64Bits.ofNat_eq first _ (by omega), @Vless.Base64Bits.ofNat_eq second _ (by omega)]
  | case4 first second third rest ih =>
      have hfirst := first.toNat_lt
      have hsecond := second.toNat_lt
      have hthird := third.toNat_lt
      have hhigh := Vless.toNat_first first
      have hmid := Vless.toNat_second first second
      have hnext := Vless.toNat_third second third
      have hlow := Vless.toNat_fourth third
      rw [Base64.decode_three (digit?_base64Char (by omega)) (digit?_base64Char (by omega))
        (digit?_base64Char (by omega)) (digit?_base64Char (by omega)) ih]
      rw [@Vless.Base64Bits.ofNat_eq first _ (by omega), @Vless.Base64Bits.ofNat_eq second _ (by omega),
        @Vless.Base64Bits.ofNat_eq third _ (by omega)]
      rfl

theorem decode_base64Encode (value : Bytes) : Base64.decode (base64Encode value).toList = some value := by
  rw [base64Encode, String.toList_ofList, base64Chunks_eq]
  exact decode_encodeChunks value

-- No separator is in the coding of a name or a value.
theorem base64Encode_chars (value : Bytes) :
    ∀ char ∈ (base64Encode value).toList, char ≠ ':' ∧ char ≠ ';' := by
  have hplain : ∀ char ∈ '=' :: Vless.BASE64_TABLE, char ≠ ':' ∧ char ≠ ';' :=
    List.all_iff_forall_prop.mp (by decide)
  obtain ⟨padding, hchunks⟩ := Vless.encodeChunks_eq value
  intro char hchar
  rw [base64Encode, String.toList_ofList, base64Chunks_eq, hchunks] at hchar
  refine hplain char ?_
  obtain hdigit | hpadding := List.mem_append.mp hchar
  · obtain ⟨digit, hmem, rfl⟩ := List.mem_map.mp hdigit
    exact List.mem_cons_of_mem _ (Vless.base64Char_digit (Vless.digits_lt value digit hmem)).2.1
  · exact List.eq_of_mem_replicate hpadding ▸ List.mem_cons_self

theorem serializeHeader_toList (header : Bytes × Bytes) : (serializeHeader header).toList =
    (base64Encode header.1).toList ++ ':' :: (base64Encode header.2).toList := by
  rw [serializeHeader, String.toList_append, String.toList_append, List.append_assoc]
  rfl

theorem serializeHeader_chars (header : Bytes × Bytes) : ';' ∉ (serializeHeader header).toList := by
  intro hmem
  rw [serializeHeader_toList] at hmem
  obtain hname | hmem := List.mem_append.mp hmem
  · exact (base64Encode_chars header.1 _ hname).2 rfl
  · have hvalue := (List.mem_cons.mp hmem).resolve_left (by decide)
    exact (base64Encode_chars header.2 _ hvalue).2 rfl

theorem parseHeader_serialize (header : Bytes × Bytes) :
    parseHeader (serializeHeader header).toList = some header := by
  have hname : ':' ∉ (base64Encode header.1).toList := fun hmem => (base64Encode_chars header.1 _ hmem).1 rfl
  have hvalue : ':' ∉ (base64Encode header.2).toList := fun hmem => (base64Encode_chars header.2 _ hmem).1 rfl
  have hjoin : (serializeHeader header).toList =
      [':'].intercalate [(base64Encode header.1).toList, (base64Encode header.2).toList] := by
    rw [serializeHeader_toList]
    simp [List.intercalate]
  have hparts : ∀ part ∈ [(base64Encode header.1).toList, (base64Encode header.2).toList], ':' ∉ part :=
    List.forall_mem_cons.mpr ⟨hname, List.forall_mem_singleton.mpr hvalue⟩
  rw [parseHeader, hjoin, List.splitOn_intercalate ':' hparts (List.cons_ne_nil _ _)]
  show (Base64.decode _).bind _ = _
  rw [decode_base64Encode header.1, decode_base64Encode header.2]
  rfl

-- Splitting and decoding give the headers back.
theorem parseHeaders_serialize {headers : List (Bytes × Bytes)} (h : headers ≠ []) :
    parseHeaders (serializeBytes headers) = some headers := by
  have hparts : (serializeBytes headers).toList.splitOn ';' =
      (headers.map serializeHeader).map String.toList := by
    rw [serializeBytes, String.toList_intercalate]
    refine List.splitOn_intercalate ';' ?_ (by simpa using h)
    intro part hpart
    obtain ⟨text, htext, rfl⟩ := List.mem_map.mp hpart
    obtain ⟨header, _, rfl⟩ := List.mem_map.mp htext
    exact serializeHeader_chars header
  rw [parseHeaders, hparts]
  clear hparts h
  induction headers with
  | nil => rfl
  | cons header headers ih =>
      rw [List.map_cons, List.map_cons, List.mapM_cons, parseHeader_serialize, ih]
      rfl

theorem serializeBytes_injective : Function.Injective serializeBytes := by
  have hnil : ∀ {headers : List (Bytes × Bytes)}, serializeBytes headers = serializeBytes [] → headers = [] := by
    intro headers h
    by_contra hne
    have hread := parseHeaders_serialize hne
    rw [h] at hread
    cases hread
  intro first second h
  by_cases hfirst : first = []
  · subst hfirst
    exact (hnil h.symm).symm
  · have hsecond : second ≠ [] := by
      rintro rfl
      exact hfirst (hnil h)
    have hread := parseHeaders_serialize hfirst
    rw [h, parseHeaders_serialize hsecond] at hread
    exact (Option.some.inj hread).symm

theorem headerBytes_injective : Function.Injective headerBytes := by
  rintro ⟨name, value⟩ ⟨other, text⟩ h
  have hname : name = other := Utf8.encode_inj.mp (Prod.mk.inj h).1
  have hvalue : value = text := Utf8.encode_inj.mp (Prod.mk.inj h).2
  rw [hname, hvalue]

-- The header with the others in it is in a response when there are others.
theorem mem_http2Headers {headers : ResponseHeaders} {value : String}
    (h : ("cf-cloudflared-response-headers", value) ∈ http2Headers headers) :
    userHeaders headers ≠ [] ∧ value = serializeHeaders (userHeaders headers) := by
  have hmeta : "cf-cloudflared-response-headers" ≠ "cf-cloudflared-response-meta" := by decide
  have hframed : (!isHopByHopHeader "cf-cloudflared-response-headers" &&
      (eqIgnoreAsciiCase "cf-cloudflared-response-headers" "content-length" ||
        eqIgnoreAsciiCase "cf-cloudflared-response-headers" "content-type")) = false := by decide
  rw [http2Headers, List.mem_cons] at h
  have hin := h.resolve_left fun heq => hmeta (congrArg Prod.fst heq)
  obtain hserialized | hframing := List.mem_append.mp hin
  · split at hserialized
    · cases hserialized
    · exact ⟨‹_›, congrArg Prod.snd (List.mem_singleton.mp hserialized)⟩
  · cases hframed.symm.trans (List.mem_filter.mp hframing).2

-- What is written of the headers of a response says which headers they are.
theorem serializeHeaders_decodable :
    Function.Injective serializeBytes ∧ Function.Injective serializeHeaders ∧
    (∀ headers, headers ≠ [] → parseHeaders (serializeBytes headers) = some headers) ∧
    (∀ headers, headers ≠ [] →
      parseHeaders (serializeHeaders headers) = some (headers.map headerBytes)) ∧
    ∀ headers value, ("cf-cloudflared-response-headers", value) ∈ http2Headers headers →
      parseHeaders value = some ((userHeaders headers).map headerBytes) := by
  have hread (headers : ResponseHeaders) (hne : headers ≠ []) :
      parseHeaders (serializeHeaders headers) = some (headers.map headerBytes) := by
    rw [serializeHeaders_eq]
    exact parseHeaders_serialize (by simpa using hne)
  refine ⟨serializeBytes_injective, ?_, fun headers => parseHeaders_serialize, hread, ?_⟩
  · intro first second h
    rw [serializeHeaders_eq, serializeHeaders_eq] at h
    exact headerBytes_injective.list_map (serializeBytes_injective h)
  · intro headers value hmem
    obtain ⟨hne, rfl⟩ := mem_http2Headers hmem
    exact hread _ hne

end SingBox.Cloudflared
