import SingBox.Library.Comments
import SingBox.Library.Result

namespace SingBox.Core

open Library Comments
open Utf8 (decode encode)

inductive StripState
  | normal
  | string
  | escape
  | lineComment
  | blockComment
deriving DecidableEq

-- What has been pushed goes before what is pushed later.
def push (bytes : Bytes) (later : Bytes × StripState) : Bytes × StripState :=
  (bytes ++ later.1, later.2)

-- The loop of `strip_json_comments`: the output it makes of the bytes from an index on, and
-- the state in which it ends.
def stripFrom : StripState → Bytes → Bytes × StripState
  | state, [] => ([], state)
  | .normal, byte :: rest =>
      if byte = quote then push [byte] (stripFrom .string rest)
      else
        match rest with
        | next :: after =>
            if byte = slash ∧ next = slash then
              push [space, space] (stripFrom .lineComment after)
            else if byte = slash ∧ next = star then
              push [space, space] (stripFrom .blockComment after)
            else push [byte] (stripFrom .normal (next :: after))
        | [] => push [byte] (stripFrom .normal [])
  | .string, byte :: rest =>
      push [byte] <| stripFrom
        (if byte = backslash then .escape else if byte = quote then .normal else .string) rest
  | .escape, byte :: rest => push [byte] (stripFrom .string rest)
  | .lineComment, byte :: rest =>
      if byte = 10 ∨ byte = 13 then push [byte] (stripFrom .normal rest)
      else push [space] (stripFrom .lineComment rest)
  | .blockComment, byte :: rest =>
      match rest with
      | next :: after =>
          if byte = star ∧ next = slash then push [space, space] (stripFrom .normal after)
          else if byte = 10 ∨ byte = 13 then push [byte] (stripFrom .blockComment (next :: after))
          else push [space] (stripFrom .blockComment (next :: after))
      | [] => push [if byte = 10 ∨ byte = 13 then byte else space] (stripFrom .blockComment [])

theorem push_push (first second : Bytes) (later : Bytes × StripState) :
    push first (push second later) = push (first ++ second) later := by
  rw [push, push, push, List.append_assoc]

theorem stripFrom_plain {byte : UInt8} {rest : Bytes} (hquote : byte ≠ quote)
    (hslash : byte = slash → rest.head? ≠ some slash ∧ rest.head? ≠ some star) :
    stripFrom .normal (byte :: rest) = push [byte] (stripFrom .normal rest) := by
  rw [stripFrom.eq_def]
  cases rest with
  | nil => exact if_neg hquote
  | cons next after =>
      have hline : ¬(byte = slash ∧ next = slash) := fun h => (hslash h.1).1 (congrArg some h.2)
      have hblock : ¬(byte = slash ∧ next = star) := fun h => (hslash h.1).2 (congrArg some h.2)
      simp only [if_neg hquote, if_neg hline, if_neg hblock]

def stripJsonComments (input : String) : Result String := do
  let (output, state) := stripFrom .normal (encode input)
  Result.ensure (state ≠ .blockComment) "unterminated block comment"
  Result.withContext "extended JSON is not UTF-8" (Result.ofOption "invalid utf-8" (decode output))

-- `fromStr` is that of `serde_json`.
def parseExtendedJson {α : Type} (fromStr : String → Result α) (input : String) : Result α := do
  let stripped ← stripJsonComments input
  Result.withContext "decode extended JSON" (fromStr stripped)

example : stripJsonComments "\x7b\"a//b\": 1 /*\n*/\x7d" = .ok "\x7b\"a//b\": 1   \n  \x7d" := by decide

theorem stripFrom_quote (rest : Bytes) :
    stripFrom .normal (quote :: rest) = push [quote] (stripFrom .string rest) := by
  rw [stripFrom.eq_def]
  exact if_pos rfl

theorem stripFrom_openLine (rest : Bytes) :
    stripFrom .normal (slash :: slash :: rest) =
      push [space, space] (stripFrom .lineComment rest) := by
  rw [stripFrom.eq_def]
  exact (if_neg (by decide)).trans (if_pos ⟨rfl, rfl⟩)

theorem stripFrom_openBlock (rest : Bytes) :
    stripFrom .normal (slash :: star :: rest) =
      push [space, space] (stripFrom .blockComment rest) := by
  rw [stripFrom.eq_def]
  exact (if_neg (by decide)).trans ((if_neg (by decide)).trans (if_pos ⟨rfl, rfl⟩))

theorem stripFrom_closeBlock (rest : Bytes) :
    stripFrom .blockComment (star :: slash :: rest) =
      push [space, space] (stripFrom .normal rest) := by
  rw [stripFrom.eq_def]
  exact if_pos ⟨rfl, rfl⟩

theorem stripFrom_string {body : Bytes} (h : StringBody body) (rest : Bytes) :
    stripFrom .string (body ++ rest) = push body (stripFrom .string rest) := by
  induction h with
  | nil => rfl
  | char hquote hescape _ ih =>
      rw [List.cons_append, stripFrom, if_neg hescape, if_neg hquote, ih, push_push]
      rfl
  | escape byte _ ih =>
      rw [List.cons_append, List.cons_append, stripFrom, if_pos rfl, stripFrom, ih, push_push,
        push_push]
      rfl

theorem stripFrom_line {body : Bytes} (h : ∀ byte ∈ body, isLineEnd byte = false) (rest : Bytes) :
    stripFrom .lineComment (body ++ rest) =
      push (body.map blank) (stripFrom .lineComment rest) := by
  induction body with
  | nil => rfl
  | cons byte body ih =>
      obtain ⟨hbyte, hbody⟩ := List.forall_mem_cons.mp h
      have hgoes : ¬(byte = 10 ∨ byte = 13) := by simpa [isLineEnd] using hbyte
      have hblank : blank byte = space := by rw [blank, hbyte]; rfl
      rw [List.cons_append, stripFrom, if_neg hgoes, ih hbody, push_push, List.map_cons, hblank]
      rfl

-- A line comment leaves its line end to what follows it.
theorem stripFrom_lineEnd {byte : UInt8} (h : isLineEnd byte = true) (rest : Bytes) :
    stripFrom .lineComment (byte :: rest) = stripFrom .normal (byte :: rest) := by
  have hend := lineEnd_cases h
  have hquote : byte ≠ quote := by obtain rfl | rfl := hend <;> decide
  have hslash : byte ≠ slash := by obtain rfl | rfl := hend <;> decide
  rw [stripFrom_plain hquote fun h => absurd h hslash, stripFrom, if_pos hend]

theorem stripFrom_inBlock {byte : UInt8} {rest : Bytes}
    (h : byte = star → rest.head? ≠ some slash) :
    stripFrom .blockComment (byte :: rest) =
      push [blank byte] (stripFrom .blockComment rest) := by
  have hblank : blank byte = if byte = 10 ∨ byte = 13 then byte else space := by
    simp [blank, isLineEnd]
  rw [stripFrom.eq_def, hblank]
  cases rest with
  | nil => rfl
  | cons next after =>
      have hgoes : ¬(byte = star ∧ next = slash) := fun hmark => h hmark.1 (congrArg some hmark.2)
      simp only [if_neg hgoes]
      split <;> rfl

theorem stripFrom_block {body rest : Bytes} (h : ¬[star, slash] <:+: body)
    (hrest : rest.head? ≠ some slash) :
    stripFrom .blockComment (body ++ rest) =
      push (body.map blank) (stripFrom .blockComment rest) := by
  induction body with
  | nil => rfl
  | cons byte body ih =>
      have hgoes (hstar : byte = star) : (body ++ rest).head? ≠ some slash := by
        cases body with
        | nil => exact hrest
        | cons next body =>
            intro hnext
            obtain rfl : next = slash := Option.some.inj hnext
            exact h ⟨[], body, by rw [hstar]; rfl⟩
      rw [List.cons_append, stripFrom_inBlock hgoes, ih (mt List.infix_cons h), push_push]
      rfl

-- The machine reads the pieces of its input one after the other.
theorem stripFrom_lexes {input : Bytes} {pieces : List Piece} (h : Lexes input pieces) :
    (stripFrom .normal input).1 = pieces.flatMap Piece.cleaned ∧
      ((stripFrom .normal input).2 = .blockComment ↔ EndsInBlock pieces) := by
  -- a piece that is over when the rest begins
  have hover {piece : Piece} {source rest : Bytes} {pieces : List Piece}
      (hpiece : ∀ body, piece ≠ .openBlock body)
      (hread : stripFrom .normal source = push piece.cleaned (stripFrom .normal rest))
      (ih : (stripFrom .normal rest).1 = pieces.flatMap Piece.cleaned ∧
        ((stripFrom .normal rest).2 = .blockComment ↔ EndsInBlock pieces)) :
      (stripFrom .normal source).1 = (piece :: pieces).flatMap Piece.cleaned ∧
        ((stripFrom .normal source).2 = .blockComment ↔ EndsInBlock (piece :: pieces)) := by
    rw [hread, List.flatMap_cons, ← ih.1, endsInBlock_cons, ← ih.2]
    exact ⟨rfl, .inr, fun h => h.resolve_left fun ⟨body, hsame⟩ => hpiece body hsame⟩
  induction h with
  | nil => exact ⟨rfl, nofun, fun ⟨_, h⟩ => by cases h⟩
  | plain hquote hslash _ ih => exact hover nofun (stripFrom_plain hquote hslash) ih
  | text hbody _ ih =>
      refine hover nofun ?_ ih
      rw [stripFrom_quote, stripFrom_string hbody, stripFrom, if_neg (by decide), if_pos rfl,
        push_push, push_push]
      rfl
  | @openText body hbody =>
      have hread : stripFrom .normal (quote :: body) = (quote :: body, .string) := by
        have hstring := stripFrom_string hbody []
        rw [List.append_nil] at hstring
        rw [stripFrom_quote, hstring, push_push, stripFrom, push, List.append_nil]
        rfl
      rw [hread]
      exact ⟨(List.append_nil _).symm, nofun, fun ⟨_, h⟩ => by cases List.mem_singleton.mp h⟩
  | @openEscape body hbody =>
      have hread : stripFrom .normal (quote :: (body ++ [backslash])) =
          (quote :: (body ++ [backslash]), .escape) := by
        rw [stripFrom_quote, stripFrom_string hbody, push_push, stripFrom, if_pos rfl, push_push,
          stripFrom, push, List.append_nil]
        rfl
      rw [hread]
      exact ⟨(List.append_nil _).symm, nofun, fun ⟨_, h⟩ => by cases List.mem_singleton.mp h⟩
  | @line body rest pieces hbody hrest hpieces ih =>
      have hread : stripFrom .normal (slash :: slash :: (body ++ rest)) =
          push (Piece.line body).cleaned (stripFrom .lineComment rest) := by
        rw [stripFrom_openLine, stripFrom_line hbody, push_push]
        rfl
      cases rest with
      | nil =>
          cases hpieces
          rw [hread]
          exact ⟨rfl, nofun, fun ⟨_, h⟩ => by cases List.mem_singleton.mp h⟩
      | cons first rest =>
          rw [stripFrom_lineEnd (hrest first rfl)] at hread
          exact hover nofun hread ih
  | @block body rest pieces hbody _ ih =>
      refine hover nofun ?_ ih
      have hcleaned : (Piece.block body).cleaned =
          [space, space] ++ body.map blank ++ [space, space] := by
        change blank slash :: blank star :: (body ++ [star, slash]).map blank = _
        rw [List.map_append]
        rfl
      have hstar : (star :: slash :: rest).head? ≠ some slash :=
        fun h => absurd (Option.some.inj h) (by decide)
      rw [stripFrom_openBlock, stripFrom_block hbody hstar, stripFrom_closeBlock, push_push,
        push_push, hcleaned]
  | @openBlock body hbody =>
      have hread : stripFrom .normal (slash :: star :: body) =
          ((Piece.openBlock body).cleaned, .blockComment) := by
        have hblock : stripFrom .blockComment (body ++ []) =
            push (body.map blank) (stripFrom .blockComment []) := stripFrom_block hbody nofun
        rw [List.append_nil] at hblock
        rw [stripFrom_openBlock, hblock, push_push, stripFrom, push, List.append_nil]
        rfl
      rw [hread]
      exact ⟨(List.append_nil _).symm, fun _ => ⟨body, List.mem_singleton_self _⟩, fun _ => rfl⟩

-- The text that a cleaned input is.
theorem cleaned_text {input : String} {pieces : List Piece} (h : Lexes (encode input) pieces) :
    ∃ output, pieces.flatMap Piece.cleaned = encode output := by
  obtain ⟨cleaned, hcleaned, output, rfl⟩ :=
    h.cleaned_isText (List.forall_mem_nil _) ⟨input, rfl⟩ (List.nil_append _).symm
  exact ⟨output, hcleaned⟩

theorem stripJsonComments_ok {input output : String} {pieces : List Piece}
    (h : Lexes (encode input) pieces) (hends : ¬EndsInBlock pieces)
    (houtput : pieces.flatMap Piece.cleaned = encode output) :
    stripJsonComments input = .ok output := by
  obtain ⟨hcleaned, hstate⟩ := stripFrom_lexes h
  have hensure : decide ((stripFrom .normal (encode input)).2 ≠ .blockComment) = true :=
    decide_eq_true (mt hstate.mp hends)
  have hdecode : decode (stripFrom .normal (encode input)).1 = some output := by
    rw [hcleaned, houtput, Utf8.decode_encode]
  rw [stripJsonComments]
  simp only [hensure, hdecode]
  rfl

theorem stripJsonComments_error {input : String} {pieces : List Piece}
    (h : Lexes (encode input) pieces) (hends : EndsInBlock pieces) :
    stripJsonComments input = .error ["unterminated block comment"] := by
  obtain ⟨-, hstate⟩ := stripFrom_lexes h
  have hensure : decide ((stripFrom .normal (encode input)).2 ≠ .blockComment) = false :=
    decide_eq_false (not_not.mpr (hstate.mpr hends))
  rw [stripJsonComments]
  simp only [hensure]
  rfl

-- Stripping keeps the offsets of what it keeps.
theorem comments_stripped (input : String) :
    ∃ pieces, Lexes (encode input) pieces ∧
      (∀ others, Lexes (encode input) others → others = pieces) ∧
      (EndsInBlock pieces ∧
          stripJsonComments input = .error ["unterminated block comment"] ∨
        ¬EndsInBlock pieces ∧ ∃ output, stripJsonComments input = .ok output ∧
          (encode output).length = (encode input).length ∧
          (∀ (offset : Nat) byte, isLineEnd byte = true →
            ((encode output)[offset]? = some byte ↔ (encode input)[offset]? = some byte)) ∧
          (∀ (offset : Nat) byte, (encode input)[offset]? = some byte →
            (encode output)[offset]? = some
              (if (inComment pieces)[offset]? = some true ∧ isLineEnd byte = false then space
                else byte)) ∧
          stripJsonComments output = .ok output) := by
  obtain ⟨pieces, hpieces⟩ := exists_lexes (encode input)
  refine ⟨pieces, hpieces, fun others hothers => hothers.unique hpieces, ?_⟩
  by_cases hends : EndsInBlock pieces
  · exact .inl ⟨hends, stripJsonComments_error hpieces hends⟩
  obtain ⟨output, houtput⟩ := cleaned_text hpieces
  have hbytes := houtput ▸ hpieces.cleaned_eq
  have hlength := hpieces.length_inComment
  have hat (offset : Nat) (byte : UInt8) (hbyte : (encode input)[offset]? = some byte) :
      (encode output)[offset]? = some
        (if (inComment pieces)[offset]? = some true ∧ isLineEnd byte = false then space
          else byte) := by
    obtain ⟨hoffset, -⟩ := List.getElem?_eq_some_iff.mp hbyte
    have hflag := List.getElem?_eq_getElem (hlength ▸ hoffset)
    rw [hbytes, List.getElem?_zipWith, hflag, hbyte]
    cases (inComment pieces)[offset] with
    | false => simp
    | true => cases hend : isLineEnd byte <;> simp [blank, hend]
  have hsame : (encode output).length = (encode input).length := by
    rw [hbytes, List.length_zipWith, hlength, Nat.min_self]
  refine .inr ⟨hends, output, stripJsonComments_ok hpieces hends houtput, hsame, ?_, hat, ?_⟩
  · intro offset byte hend
    constructor
    · intro hbyte
      obtain ⟨hoffset, -⟩ := List.getElem?_eq_some_iff.mp hbyte
      have hinput := List.getElem?_eq_getElem (hsame ▸ hoffset)
      rw [hat offset _ hinput] at hbyte
      split at hbyte
      · obtain rfl := Option.some.inj hbyte
        cases hend
      · rw [hinput, hbyte]
    · intro hbyte
      rw [hat offset byte hbyte, if_neg fun h => by rw [hend] at h; cases h.2]
  · have hagain := houtput ▸ hpieces.settle hends
    exact stripJsonComments_ok hagain (not_endsInBlock_settled pieces)
      ((cleaned_settled pieces).trans houtput)

end SingBox.Core
