import SingBox.Cloudflared.ResponseBody
import SingBox.Core.Radix
import SingBox.Library.HttpHead
import SingBox.Library.Relay
import SingBox.Library.Text
import SingBox.Responses.Parsers

namespace SingBox.Responses

open Library SingBox.Core
open Async (Yields)
open Chunked (dataOf)
open HttpHead (CR LF crlf)
open Relay (Copies LoopCopies)
open Text (trim)
open Utf8 (decode encode)

-- A chunk as it is sent. The size has leading zeros and letters in either case.
structure Chunk where
  size : List Char
  extension : Bytes
  data : Bytes

-- A body in the chunked coding: the chunks, the last one, which has no data, and trailers.
structure Coding where
  chunks : List Chunk
  last : Chunk
  trailers : List Bytes

def SEMICOLON : UInt8 := 59

def Chunk.line (this : Chunk) : Bytes := encode (String.ofList this.size) ++ this.extension

def Chunk.bytes (this : Chunk) : Bytes := this.line ++ (crlf ++ (this.data ++ crlf))

namespace Coding

variable (this : Coding)

def trailerBytes : Bytes := this.trailers.flatMap (· ++ crlf) ++ crlf

def bytes : Bytes :=
  this.chunks.flatMap Chunk.bytes ++ (this.last.line ++ (crlf ++ this.trailerBytes))

def data : Bytes := this.chunks.flatMap Chunk.data

end Coding

structure Chunk.WellFormed (this : Chunk) : Prop where
  size : numeral 16 this.size = some this.data.length
  digits : this.size ≠ []
  extension : this.extension = [] ∨ this.extension.head? = some SEMICOLON
  clean : CR ∉ this.extension ∧ LF ∉ this.extension

structure Coding.WellFormed (this : Coding) : Prop where
  chunks : ∀ chunk ∈ this.chunks, chunk.WellFormed ∧ chunk.data ≠ []
  last : this.last.WellFormed ∧ this.last.data = []
  trailers : ∀ trailer ∈ this.trailers, trailer ≠ [] ∧ CR ∉ trailer ∧ LF ∉ trailer

-- What `str::from_utf8` takes.
def IsText (bytes : Bytes) : Prop := ∃ text, bytes = encode text

def Chunk.IsText (this : Chunk) : Prop := Responses.IsText this.extension

structure Coding.ExtensionsText (this : Coding) : Prop where
  chunks : ∀ chunk ∈ this.chunks, chunk.IsText
  last : this.last.IsText

theorem not_mem_encode {text : String} {byte : UInt8} (hbyte : byte.toNat < 128)
    (h : ∀ char ∈ text.toList, byte.toNat ≠ char.toNat) : byte ∉ encode text := fun hmem => by
  obtain ⟨char, hchar, hsame⟩ := Utf8.mem_encode hbyte hmem
  exact h char hchar hsame

namespace Chunk

variable {this : Chunk}

theorem WellFormed.digit (h : this.WellFormed) {char : Char} (hchar : char ∈ this.size) :
    (toDigit 16 char).isSome := numeralFrom_digits h.size char hchar

-- No line end in front of the one that ends the line.
theorem WellFormed.line_clean (h : this.WellFormed) : CR ∉ this.line ∧ LF ∉ this.line := by
  have hne (char other : Char) (hchar : char ∈ this.size) (hother : other = '\r' ∨ other = '\n') :
      other.toNat ≠ char.toNat := by
    obtain ⟨hcr, hlf⟩ := (digit_spec (h.digit hchar)).lineEnd
    intro hsame
    have heq : other = char := Char.toNat_inj.mp hsame
    obtain rfl | rfl := hother
    · exact hcr heq.symm
    · exact hlf heq.symm
  constructor
  · refine fun hmem => (List.mem_append.mp hmem).elim ?_ h.clean.1
    refine not_mem_encode (by decide) fun char hchar => ?_
    rw [String.toList_ofList] at hchar
    exact hne char '\r' hchar (.inl rfl)
  · refine fun hmem => (List.mem_append.mp hmem).elim ?_ h.clean.2
    refine not_mem_encode (by decide) fun char hchar => ?_
    rw [String.toList_ofList] at hchar
    exact hne char '\n' hchar (.inr rfl)

-- The line as a text, and what is in front of its first semicolon.
theorem WellFormed.line_text (h : this.WellFormed) (htext : this.IsText) :
    ∃ text, this.line = encode text ∧ ∃ others, text.toList.splitOn ';' = this.size :: others := by
  obtain ⟨extension, hextension⟩ := htext
  refine ⟨String.ofList this.size ++ extension, by rw [line, hextension, Utf8.encode_append], ?_⟩
  rw [String.toList_append, String.toList_ofList]
  refine Text.splitOn_front (fun hmem => (digit_spec (h.digit hmem)).semicolon rfl) ?_
  obtain hnone | hsome := h.extension
  · refine .inl ?_
    have hempty : encode extension = encode "" := hextension.symm.trans hnone
    rw [Utf8.encode_inj.mp hempty]
    rfl
  · exact .inr (Utf8.head_encode (by decide) (hextension ▸ hsome))

theorem WellFormed.trim_size (h : this.WellFormed) : trim this.size = this.size :=
  Text.trim_eq_self fun _ hchar => (digit_spec (h.digit hchar)).word

theorem WellFormed.fromStrRadix_size (h : this.WellFormed) (hsmall : this.data.length < 2 ^ 64) :
    fromStrRadix 16 (2 ^ 64) this.size = .ok this.data.length :=
  fromStrRadix_numeral (by decide) h.digits h.size hsmall

end Chunk

section

variable {chunk : Chunk}

theorem cli_readSize (h : chunk.WellFormed) (htext : chunk.IsText)
    (hsmall : chunk.data.length < 2 ^ 64) : Cli.readSize chunk.line = .ok chunk.data.length := by
  obtain ⟨text, hline, others, hsplit⟩ := h.line_text htext
  rw [Cli.readSize, hline, Utf8.decode_encode]
  show fromStrRadix 16 (2 ^ 64) ((text.toList.splitOn ';').headD []) = _
  rw [hsplit]
  exact h.fromStrRadix_size hsmall

theorem proxy_readSize (h : chunk.WellFormed) (htext : chunk.IsText)
    (hsmall : chunk.data.length < 2 ^ 64) :
    Hysteria2.readSize chunk.line = .ok chunk.data.length := by
  obtain ⟨text, hline, others, hsplit⟩ := h.line_text htext
  rw [Hysteria2.readSize, hline, Utf8.decode_encode]
  show (Result.ofOption "chunk size is missing" (text.toList.splitOn ';').head? >>= _) = _
  rw [hsplit]
  show Result.withContext _ (fromStrRadix 16 (2 ^ 64) (Text.trim chunk.size)) = _
  rw [h.trim_size, h.fromStrRadix_size hsmall]
  rfl

-- The chunk as its line and its data.
def Chunk.coded (this : Chunk) : Chunked.Chunk := ⟨this.line, this.data⟩

theorem Chunk.WellFormed.line_line (h : chunk.WellFormed) : Chunked.Line chunk.line := fun hwithin =>
  h.line_clean.1 (hwithin.subset (List.mem_cons_self : CR ∈ crlf))

end

section

variable {coding : Coding}

theorem Coding.bytes_eq (coding : Coding) : coding.bytes =
    Chunked.write (coding.chunks.map Chunk.coded) ++ (coding.last.line ++ (crlf ++ coding.trailerBytes)) := by
  rw [Coding.bytes, Chunked.write, List.flatMap_map]
  rfl

theorem Coding.dataOf_coded (coding : Coding) :
    dataOf (coding.chunks.map Chunk.coded) = coding.data := by
  rw [dataOf, List.flatMap_map]
  rfl

theorem Coding.chunk_length_le {chunk : Chunk} (hchunk : chunk ∈ coding.chunks) :
    chunk.data.length ≤ coding.data.length := by
  rw [Coding.data, List.flatMap_def]
  exact (List.sublist_flatten_of_mem (List.mem_map_of_mem hchunk)).length_le

theorem decoder_run {sizeOf : Bytes → Option Nat} {fits : Nat → Prop}
    {body : Bytes × Bytes → Checked (Pass (Bytes × Bytes) Bytes)}
    (hdecoder : Chunked.Decoder sizeOf fits body)
    (hmono : ∀ few many, few ≤ many → fits many → fits few)
    (hsize : ∀ chunk : Chunk, chunk.WellFormed → chunk.IsText → chunk.data.length < 2 ^ 64 →
      sizeOf chunk.line = some chunk.data.length)
    (h : coding.WellFormed) (htext : coding.ExtensionsText) (hfits : fits coding.data.length)
    (hsmall : coding.data.length + 2 < 2 ^ 64) :
    hdecoder.run coding.bytes [] = pure coding.data := by
  have hlength {chunk : Chunk} (hchunk : chunk ∈ coding.chunks) : chunk.data.length + 2 < 2 ^ 64 := by
    have hle := Coding.chunk_length_le hchunk
    omega
  have hchunks : ∀ chunk ∈ coding.chunks.map Chunk.coded, chunk.Reads sizeOf := by
    intro coded hcoded
    obtain ⟨chunk, hchunk, rfl⟩ := List.mem_map.mp hcoded
    obtain ⟨hchunkWf, hdata⟩ := h.chunks chunk hchunk
    refine ⟨hchunkWf.line_line, hdata, hsize chunk hchunkWf (htext.chunks chunk hchunk) ?_⟩
    have hless := hlength hchunk
    omega
  have hlast : sizeOf coding.last.line = some 0 := by
    rw [hsize coding.last h.last.1 htext.last (by rw [h.last.2]; decide), h.last.2]
    rfl
  have hfitsAll : fits (([] : Bytes).length + (dataOf (coding.chunks.map Chunk.coded)).length) := by
    rwa [List.length_nil, Nat.zero_add, Coding.dataOf_coded]
  rw [Coding.bytes_eq]
  obtain hrun | ⟨⟨coded, hcoded, hlarge⟩, -⟩ := hdecoder.run_write hmono
    (coding.last.line ++ (crlf ++ coding.trailerBytes)) hchunks hfitsAll
  · rw [hrun, hdecoder.run_last h.last.1.line_line hlast, List.nil_append, Coding.dataOf_coded]
  · obtain ⟨chunk, hchunk, rfl⟩ := List.mem_map.mp hcoded
    exact absurd (hlength hchunk) (Nat.not_lt.mpr hlarge)

end

section

variable {ρ ω : Type} [AsyncRead ρ] [AsyncWrite ω] {source : Source ρ} {sink : Sink ω}

theorem stripSuffix_append (text suffix : String) :
    Cloudflared.stripSuffix suffix (text ++ suffix) = some text.toList := by
  have hlist : (text ++ suffix).toList = text.toList ++ suffix.toList := String.toList_append
  rw [Cloudflared.stripSuffix, if_pos, hlist]
  · have hlength : (text ++ suffix).length - suffix.length = text.toList.length := by
      rw [String.length_append, Nat.add_sub_cancel_right, String.length_toList]
    rw [hlength, List.take_left]
  · rw [List.isSuffixOf_iff_suffix, hlist]
    exact List.suffix_append _ _

-- A line with its end, as one text.
theorem readLine_text {line : Bytes} {text : String} (hline : line = encode text) (hclean : LF ∉ line) :
    Copies (BufReader.source source) sink BufReader.readLine (text ++ "\r\n") (line ++ crlf) [] := by
  have hend : line ++ crlf = (line ++ [CR]) ++ [LF] := by rw [List.append_assoc]; rfl
  rw [hend]
  refine BufReader.readLine_copies ?_ ?_
  · exact fun hmem => (List.mem_append.mp hmem).elim hclean (by decide)
  · rw [← hend, hline, show crlf = encode "\r\n" by decide, ← Utf8.encode_append]
    exact Utf8.decode_encode _

theorem append_crlf_ne (text : String) : (text ++ "\r\n" != "") = true := by
  rw [bne_iff_ne]
  intro hempty
  have hlength := congrArg String.length hempty
  have hend : "\r\n".length = 2 := by decide
  rw [String.length_append, hend, String.length_empty] at hlength
  omega

variable {chunk : Chunk}

theorem origin_readSize {text : String} {others : List (List Char)} (h : chunk.WellFormed)
    (hsmall : chunk.data.length < 2 ^ 64) (hsplit : text.toList.splitOn ';' = chunk.size :: others) :
    Cloudflared.readSize (text ++ "\r\n") = .ok chunk.data.length := by
  rw [Cloudflared.readSize, stripSuffix_append]
  show Result.withContext _
    (fromStrRadix 16 (2 ^ 64) (Text.trim ((text.toList.splitOn ';').headD []))) = _
  rw [hsplit]
  show Result.withContext _ (fromStrRadix 16 (2 ^ 64) (Text.trim chunk.size)) = _
  rw [h.trim_size, h.fromStrRadix_size hsmall]
  rfl

theorem chunkRound_chunk (h : chunk.WellFormed) (htext : chunk.IsText) (hdata : chunk.data ≠ [])
    (hsmall : chunk.data.length < 2 ^ 64) :
    Copies (BufReader.source source) sink (Cloudflared.chunkRound ()) (.again ()) chunk.bytes
      chunk.data := by
  obtain ⟨text, hline, others, hsplit⟩ := h.line_text htext
  have hzero : chunk.data.length ≠ 0 := (List.length_pos_iff.mpr hdata).ne'
  suffices hround : Copies (BufReader.source source) sink (Cloudflared.chunkRound ()) (.again ())
      ((chunk.line ++ crlf) ++ (chunk.data ++ crlf)) ([] ++ (chunk.data ++ [])) by
    simpa only [Chunk.bytes, List.append_assoc, List.append_nil, List.nil_append] using hround
  refine (readLine_text hline h.line_clean.2).bind ?_
  refine (Copies.ensure (append_crlf_ne text)).bind_nil ?_
  refine (Copies.ofResult (origin_readSize h hsmall hsplit)).bind_nil ?_
  simp only [if_neg hzero]
  refine (Copies.copy chunk.data).bind ?_
  refine (Copies.ensure (decide_eq_true rfl)).bind_nil ?_
  refine (Copies.readExact crlf).bind_last ?_
  refine (Copies.ensure (beq_self_eq_true crlf)).bind_nil ?_
  exact Copies.pure (Pass.again ())

theorem trailers_copies {trailers : List Bytes} (htext : ∀ trailer ∈ trailers, IsText trailer)
    (h : ∀ trailer ∈ trailers, trailer ≠ [] ∧ CR ∉ trailer ∧ LF ∉ trailer) :
    LoopCopies (BufReader.source source) sink Cloudflared.trailerRound () ()
      (trailers.flatMap (· ++ crlf) ++ crlf) [] := by
  induction trailers with
  | nil =>
      refine .done ?_
      have hempty : ([] : Bytes) = encode "" := by decide
      refine (readLine_text hempty List.not_mem_nil).bind_last ?_
      refine (Copies.ensure (append_crlf_ne "")).bind_nil ?_
      exact Copies.pure (Pass.done ())
  | cons trailer trailers ih =>
      obtain ⟨⟨hne, -, hclean⟩, hothers⟩ := List.forall_mem_cons.mp h
      obtain ⟨⟨text, rfl⟩, htexts⟩ := List.forall_mem_cons.mp htext
      have hline : text ++ "\r\n" ≠ "\r\n" := fun heq => by
        have hlength := congrArg String.length heq
        rw [String.length_append] at hlength
        have hnil : text = "" := String.length_eq_zero_iff.mp (by omega)
        exact hne (by rw [hnil]; rfl)
      have hround : Copies (BufReader.source source) sink (Cloudflared.trailerRound ()) (.again ())
          (encode text ++ crlf) [] := by
        refine (readLine_text rfl hclean).bind_last ?_
        refine (Copies.ensure (append_crlf_ne text)).bind_nil ?_
        simp only [if_neg hline]
        exact Copies.pure (Pass.again ())
      rw [List.flatMap_cons, List.append_assoc]
      exact LoopCopies.again hround (ih htexts hothers)

theorem chunkRound_last (h : chunk.WellFormed) (htext : chunk.IsText) (hdata : chunk.data = [])
    {trailers : List Bytes} (htrailers : ∀ trailer ∈ trailers, IsText trailer)
    (hclean : ∀ trailer ∈ trailers, trailer ≠ [] ∧ CR ∉ trailer ∧ LF ∉ trailer) :
    Copies (BufReader.source source) sink (Cloudflared.chunkRound ()) (.done ())
      (chunk.line ++ (crlf ++ (trailers.flatMap (· ++ crlf) ++ crlf))) [] := by
  obtain ⟨text, hline, others, hsplit⟩ := h.line_text htext
  have hsize := origin_readSize h (by rw [hdata]; decide) hsplit
  rw [hdata] at hsize
  rw [← List.append_assoc]
  refine (readLine_text hline h.line_clean.2).bind ?_
  refine (Copies.ensure (append_crlf_ne text)).bind_nil ?_
  refine (Copies.ofResult hsize).bind_nil ?_
  refine (trailers_copies htrailers hclean).loop.bind_last ?_
  exact Copies.pure (Pass.done ())

theorem chunks_copies {chunks : List Chunk} {last : Bytes}
    (h : ∀ chunk ∈ chunks, chunk.WellFormed ∧ chunk.data ≠ []) (htext : ∀ chunk ∈ chunks, chunk.IsText)
    (hsmall : ∀ chunk ∈ chunks, chunk.data.length < 2 ^ 64)
    (hlast : Copies (BufReader.source source) sink (Cloudflared.chunkRound ()) (.done ()) last []) :
    LoopCopies (BufReader.source source) sink Cloudflared.chunkRound () ()
      (chunks.flatMap Chunk.bytes ++ last) (chunks.flatMap Chunk.data) := by
  induction chunks with
  | nil => exact .done hlast
  | cons chunk chunks ih =>
      obtain ⟨⟨hchunk, hdata⟩, hothers⟩ := List.forall_mem_cons.mp h
      obtain ⟨hchunkText, htexts⟩ := List.forall_mem_cons.mp htext
      obtain ⟨hchunkSmall, hsmalls⟩ := List.forall_mem_cons.mp hsmall
      rw [List.flatMap_cons, List.flatMap_cons, List.append_assoc]
      exact LoopCopies.again (chunkRound_chunk hchunk hchunkText hdata hchunkSmall)
        (ih hothers htexts hsmalls)

theorem copyChunked_writes {coding : Coding} (h : coding.WellFormed) (htext : coding.ExtensionsText)
    (htrailers : ∀ trailer ∈ coding.trailers, IsText trailer) (hsmall : coding.data.length < 2 ^ 64)
    {alreadyRead : Bytes} {relay : Relay ρ ω} (hreader : source.good relay.reader)
    (hwriter : sink.good relay.writer) (hsplit : alreadyRead ++ source.rest relay.reader = coding.bytes) :
    ∃ next, Yields (Cloudflared.copyChunkedResponseBody alreadyRead) relay () next ∧
      sink.taken next.writer = sink.taken relay.writer ++ coding.data := by
  have hchunks : ∀ chunk ∈ coding.chunks, chunk.data.length < 2 ^ 64 := fun chunk hchunk =>
    (Coding.chunk_length_le hchunk).trans_lt hsmall
  have hlast : Copies (BufReader.source (Chain.source source)) sink (Cloudflared.chunkRound ())
      (.done ()) (coding.last.line ++ (crlf ++ coding.trailerBytes)) [] :=
    chunkRound_last h.last.1 htext.last h.last.2 htrailers h.trailers
  have hloop : Copies (BufReader.source (Chain.source source)) sink
      (Async.loop Cloudflared.chunkRound ()) () coding.bytes coding.data :=
    (chunks_copies h.chunks htext.chunks hchunks hlast).loop
  have hgood : Relay.Good (BufReader.source (Chain.source source)) sink (sink.taken relay.writer)
      ⟨⟨⟨alreadyRead, relay.reader⟩, []⟩, relay.writer⟩ := ⟨hreader, hwriter, rfl⟩
  obtain ⟨next, ⟨enough, hyields⟩, hnext, -⟩ :=
    hloop _ [] _ hgood (hsplit.trans (List.append_nil coding.bytes).symm)
  refine ⟨⟨next.reader.inner.second, next.writer⟩, ⟨enough, fun polls hpolls => ?_⟩, hnext.taken⟩
  show (Async.loop Cloudflared.chunkRound () polls _).map _ = _
  rw [hyields polls hpolls]
  rfl

end

-- The three decoders take a body apart alike, whatever the sizes look like. A text is asked for
-- in the extensions, and where the trailers are read.
theorem decoders_agree {ρ ω : Type} [AsyncRead ρ] [AsyncWrite ω] (source : Source ρ) (sink : Sink ω)
    (coding : Coding) (h : coding.WellFormed) (htext : coding.ExtensionsText)
    (hlimit : coding.data.length ≤ Cli.MAX_RESPONSE_SIZE) :
    Cli.decodeChunked coding.bytes = pure coding.data ∧
    Hysteria2.decodeChunked coding.bytes = pure coding.data ∧
    ((∀ trailer ∈ coding.trailers, IsText trailer) → ∀ (alreadyRead : Bytes) (relay : Relay ρ ω),
      source.good relay.reader → sink.good relay.writer →
      alreadyRead ++ source.rest relay.reader = coding.bytes →
      ∃ next, Yields (Cloudflared.copyChunkedResponseBody alreadyRead) relay () next ∧
        sink.taken next.writer = sink.taken relay.writer ++ coding.data) := by
  have hmax : Cli.MAX_RESPONSE_SIZE + 2 < 2 ^ 64 := by decide
  have hsmall : coding.data.length + 2 < 2 ^ 64 := by omega
  refine ⟨?_, ?_, fun htrailers alreadyRead relay hreader hwriter hsplit => ?_⟩
  · refine decoder_run Cli.decoder (fun _ _ => Nat.le_trans) (fun chunk hchunk hchunkText hless => ?_) h
      htext hlimit hsmall
    rw [cli_readSize hchunk hchunkText hless]
    rfl
  · refine decoder_run Hysteria2.decoder (fun _ _ _ hfits => hfits)
      (fun chunk hchunk hchunkText hless => ?_) h htext trivial hsmall
    rw [proxy_readSize hchunk hchunkText hless]
    rfl
  · exact copyChunked_writes h htext htrailers (by omega) hreader hwriter hsplit

-- One chunk, with an extension.
def oneChunk (extension : Bytes) : Coding where
  chunks := [⟨['0', '1'], extension, [0x61]⟩]
  last := ⟨['0'], [], []⟩
  trailers := []

theorem oneChunk_wellFormed {extension : Bytes} (h : extension.head? = some SEMICOLON)
    (hclean : CR ∉ extension ∧ LF ∉ extension) : (oneChunk extension).WellFormed where
  chunks chunk hchunk := by
    obtain rfl := List.mem_singleton.mp hchunk
    exact ⟨⟨by show numeral 16 ['0', '1'] = some 1; decide, List.cons_ne_nil _ _, .inr h, hclean⟩,
      List.cons_ne_nil _ _⟩
  last := ⟨⟨by show numeral 16 ['0'] = some 0; decide, List.cons_ne_nil _ _, .inl rfl,
    ⟨List.not_mem_nil, List.not_mem_nil⟩⟩, rfl⟩
  trailers _ htrailer := absurd htrailer List.not_mem_nil

theorem decoders_agree_one : Cli.decodeChunked (oneChunk [SEMICOLON, 0x62]).bytes = pure [0x61] ∧
    ∃ next, Yields (Cloudflared.copyChunkedResponseBody [0x30])
      (⟨⟨[(oneChunk [SEMICOLON, 0x62]).bytes.tail]⟩, ⟨[]⟩⟩ : Relay Pieces Collected) () next ∧
      next.writer.bytes = [0x61] := by
  have htext : (oneChunk [SEMICOLON, 0x62]).ExtensionsText := by
    refine ⟨fun chunk hchunk => ?_, "", rfl⟩
    obtain rfl := List.mem_singleton.mp hchunk
    exact ⟨";b", by decide⟩
  obtain ⟨hcli, -, hcopied⟩ := decoders_agree Pieces.source Collected.sink (oneChunk [SEMICOLON, 0x62])
    (oneChunk_wellFormed rfl (by decide)) htext (by decide)
  refine ⟨hcli, hcopied (fun _ htrailer => absurd htrailer List.not_mem_nil) [0x30] _ ?_ trivial ?_⟩
  · show ∀ piece ∈ [(oneChunk [SEMICOLON, 0x62]).bytes.tail], piece ≠ []
    decide
  · decide

-- A size line that is no text is refused, though nothing of its extension is looked at.
theorem extension_refused : ¬∀ coding : Coding, coding.WellFormed →
    coding.data.length ≤ Cli.MAX_RESPONSE_SIZE →
    Cli.decodeChunked coding.bytes = pure coding.data ∧
      Hysteria2.decodeChunked coding.bytes = pure coding.data := by
  intro h
  obtain ⟨hcli, -⟩ := h (oneChunk [SEMICOLON, 0xff]) (oneChunk_wellFormed rfl (by decide)) (by decide)
  have hrefused : Cli.decodeChunked (oneChunk [SEMICOLON, 0xff]).bytes =
      Checked.ofResult (.error ["invalid utf-8"]) := Cli.decoder.run_error (by rfl)
  cases hrefused.symm.trans hcli

end SingBox.Responses
