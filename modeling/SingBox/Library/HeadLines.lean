import SingBox.Library.Chunked
import SingBox.Library.Text
import Mathlib.Data.Bool.AllAny

namespace SingBox.Library

-- The head of a message of HTTP/1.1 as a text of lines.
namespace HeadLines

open HttpHead (CR crlf headEnd writeLines)
open Text (isWhitespace splitCrlf splitWhitespace)
open Utf8 (decode encode)

structure Line (line : List Char) : Prop where
  some : line ≠ []
  clean : '\r' ∉ line

-- The lines, with an end between them.
def text (first : List Char) (others : List (List Char)) : List Char :=
  first ++ others.flatMap (Text.crlf ++ ·)

def encodeText (text : List Char) : Bytes := encode (String.ofList text)

def bytes (first : List Char) (others : List (List Char)) : Bytes := encodeText (text first others)

theorem encodeText_eq (text : List Char) : encodeText text = text.flatMap String.utf8EncodeChar := by
  rw [encodeText, Utf8.encode_eq_flatMap, String.toList_ofList]

theorem encodeText_append (front back : List Char) :
    encodeText (front ++ back) = encodeText front ++ encodeText back := by
  simp only [encodeText_eq, List.flatMap_append]

theorem encodeText_crlf : encodeText Text.crlf = crlf := by
  rw [encodeText_eq]
  rfl

theorem Line.encoded {line : List Char} (h : Line line) :
    encodeText line ≠ [] ∧ CR ∉ encodeText line :=
  HttpHead.encode_line h.some h.clean

section

variable {first : List Char} {others : List (List Char)}

theorem bytes_eq (first : List Char) (others : List (List Char)) :
    bytes first others = encodeText first ++ (others.map encodeText).flatMap (crlf ++ ·) := by
  rw [bytes, text, encodeText_append]
  congr 1
  induction others with
  | nil => rfl
  | cons line others ih =>
      rw [List.flatMap_cons, encodeText_append, encodeText_append, encodeText_crlf, ih]
      rfl

-- With the empty line behind it.
theorem bytes_end (first : List Char) (others : List (List Char)) :
    bytes first others ++ (crlf ++ crlf) = writeLines ((first :: others).map encodeText) := by
  rw [bytes_eq, writeLines, List.map_cons, HttpHead.flatMap_ends]
  simp only [List.append_assoc]

theorem decode_bytes (first : List Char) (others : List (List Char)) :
    decode (bytes first others) = some (String.ofList (text first others)) := Utf8.decode_encode _

variable (h : ∀ line ∈ first :: others, Line line)

include h

theorem splitCrlf_text : splitCrlf (text first others) = first :: others :=
  Text.splitCrlf_join fun line hline => (h line hline).clean

theorem headEnd_bytes (rest : Bytes) :
    headEnd (bytes first others ++ ((crlf ++ crlf) ++ rest)) = some ((bytes first others).length + 4) := by
  have hlines : ∀ line ∈ (first :: others).map encodeText, line ≠ [] ∧ CR ∉ line :=
    List.forall_mem_map.mpr fun line hline => (h line hline).encoded
  have hend := HttpHead.headEnd_write hlines (by simp) rest
  rw [← bytes_end, List.append_assoc] at hend
  rw [hend, List.length_append]
  rfl

theorem position_bytes (rest : Bytes) :
    position (crlf ++ crlf) (bytes first others ++ ((crlf ++ crlf) ++ rest)) =
      some (bytes first others).length := by
  have hend := headEnd_bytes h rest
  rw [headEnd_eq] at hend
  obtain ⟨index, hindex, hlength⟩ := Option.map_eq_some_iff.mp hend
  rw [hindex]
  exact congrArg some (by omega)

end

-- A field, with whatever blanks stand around its value.
abbrev Field := List Char × List Char

def fieldLine (field : Field) : List Char := field.1 ++ ':' :: field.2

structure Name (name : List Char) : Prop where
  some : name ≠ []
  visible : ∀ char ∈ name, 33 ≤ char.toNat ∧ char.toNat < 127
  colon : ':' ∉ name

theorem Name.word {name : List Char} (h : Name name) : ∀ char ∈ name, isWhitespace char = false := by
  intro char hchar
  have hall : ∀ code < 127, 33 ≤ code → isWhitespace (Char.ofNat code) = false := by decide
  obtain ⟨hleast, hmost⟩ := h.visible char hchar
  have hcode := hall char.toNat hmost hleast
  rwa [Char.ofNat_toNat] at hcode

theorem Name.clean {name : List Char} (h : Name name) : '\r' ∉ name := fun hmem => by
  have hcr := h.visible '\r' hmem
  exact absurd hcr.1 (by decide)

structure Field.WellFormed (field : Field) : Prop where
  name : Name field.1
  value : '\r' ∉ field.2

theorem Field.WellFormed.line {field : Field} (h : field.WellFormed) : Line (fieldLine field) := by
  refine ⟨by simp [fieldLine], ?_⟩
  simp only [fieldLine, List.mem_append, List.mem_cons, not_or]
  exact ⟨h.name.clean, by decide, h.value⟩

def VERSION : List Char := "HTTP/1.1".toList

theorem version_current : VERSION = "HTTP/1.0".toList ∨ VERSION = VERSION := .inr rfl

theorem phrase_none : (([] : List Char) = [] ∨ ([] : List Char).head? = some ' ') ∧
    '\r' ∉ ([] : List Char) := ⟨.inl rfl, List.not_mem_nil⟩

theorem fields_none : ∀ field ∈ ([] : List Field), field.WellFormed :=
  fun _ hfield => absurd hfield List.not_mem_nil

-- The head of a response. The phrase is what comes behind the status in its line.
structure ResponseHead where
  version : List Char := VERSION
  status : Nat
  phrase : List Char := []
  fields : List Field := []
  version_known : version = "HTTP/1.0".toList ∨ version = VERSION := by
    exact Library.HeadLines.version_current
  status_digits : 100 ≤ status ∧ status < 1000
  phrase_clean : (phrase = [] ∨ phrase.head? = some ' ') ∧ '\r' ∉ phrase
  fields_clean : ∀ field ∈ fields, field.WellFormed

namespace ResponseHead

variable (this : ResponseHead)

def code : List Char := Nat.toDigits 10 this.status

def statusLine : List Char := this.version ++ ' ' :: (this.code ++ this.phrase)

def lines : List (List Char) := this.fields.map fieldLine

-- Up to the empty line.
def bytes : Bytes := HeadLines.bytes this.statusLine this.lines

theorem version_word : this.version ≠ [] ∧ '\r' ∉ this.version ∧
    ∀ char ∈ this.version, isWhitespace char = false := by
  obtain hversion | hversion := this.version_known
  · rw [hversion]
    exact ⟨by decide, by decide, List.all_iff_forall_prop.mp (by decide)⟩
  · rw [hversion]
    exact ⟨by decide, by decide, List.all_iff_forall_prop.mp (by decide)⟩

theorem code_word : ∀ char ∈ this.code, isWhitespace char = false ∧ char ≠ '\r' := by
  have hdigits : ∀ code < 58, 48 ≤ code → isWhitespace (Char.ofNat code) = false ∧
      Char.ofNat code ≠ '\r' := by decide
  intro char hchar
  have hdigit := Nat.isDigit_of_mem_toDigits (by decide) (by decide) hchar
  have hrange : 48 ≤ char.val ∧ char.val ≤ 57 := by simpa [Char.isDigit] using hdigit
  have hleast : 48 ≤ char.toNat := hrange.1
  have hmost : char.toNat ≤ 57 := hrange.2
  have hcode := hdigits char.toNat (by omega) hleast
  rwa [Char.ofNat_toNat] at hcode

theorem statusLine_line : Line this.statusLine := by
  have hcode : '\r' ∉ this.code := fun hmem => (this.code_word '\r' hmem).2 rfl
  constructor
  · exact List.append_ne_nil_of_right_ne_nil _ (List.cons_ne_nil _ _)
  · simp only [statusLine, List.mem_append, List.mem_cons, not_or]
    exact ⟨this.version_word.2.1, by decide, hcode, this.phrase_clean.2⟩

theorem all_lines : ∀ line ∈ this.statusLine :: this.lines, Line line := by
  refine List.forall_mem_cons.mpr ⟨this.statusLine_line, fun line hline => ?_⟩
  obtain ⟨field, hfield, rfl⟩ := List.mem_map.mp hline
  exact (this.fields_clean field hfield).line

-- The status is the second word of its line.
theorem statusLine_words : (splitWhitespace this.statusLine)[1]? = some this.code := by
  obtain ⟨others, hothers⟩ := Text.splitWhitespace_front Nat.toDigits_ne_nil
    (fun char hchar => (this.code_word char hchar).1) this.phrase_clean.1
  rw [statusLine, Text.splitWhitespace_cons this.version_word.1 this.version_word.2.2, code, hothers]
  rfl

end ResponseHead

-- A part of the first line of a request.
structure Word (word : List Char) : Prop where
  some : word ≠ []
  solid : ∀ char ∈ word, isWhitespace char = false

theorem Word.clean {word : List Char} (h : Word word) : '\r' ∉ word := fun hmem =>
  absurd (h.solid '\r' hmem) (by decide)

-- The head of a request.
structure RequestHead where
  method : List Char
  target : List Char
  version : List Char := VERSION
  fields : List Field := []
  method_word : Word method
  target_word : Word target
  version_word : Word version
  fields_clean : ∀ field ∈ fields, field.WellFormed

namespace RequestHead

variable (this : RequestHead)

def requestLine : List Char := this.method ++ ' ' :: (this.target ++ ' ' :: this.version)

def lines : List (List Char) := this.fields.map fieldLine

-- Up to the empty line.
def bytes : Bytes := HeadLines.bytes this.requestLine this.lines

theorem requestLine_line : Line this.requestLine := by
  constructor
  · exact List.append_ne_nil_of_right_ne_nil _ (List.cons_ne_nil _ _)
  · simp only [requestLine, List.mem_append, List.mem_cons, not_or]
    exact ⟨this.method_word.clean, by decide, this.target_word.clean, by decide,
      this.version_word.clean⟩

theorem all_lines : ∀ line ∈ this.requestLine :: this.lines, Line line := by
  refine List.forall_mem_cons.mpr ⟨this.requestLine_line, fun line hline => ?_⟩
  obtain ⟨field, hfield, rfl⟩ := List.mem_map.mp hline
  exact (this.fields_clean field hfield).line

theorem requestLine_words :
    ∃ others, splitWhitespace this.requestLine = this.method :: this.target :: others := by
  refine ⟨splitWhitespace this.version, ?_⟩
  rw [requestLine, Text.splitWhitespace_cons this.method_word.some this.method_word.solid,
    Text.splitWhitespace_cons this.target_word.some this.target_word.solid]

end RequestHead

end HeadLines

end SingBox.Library
