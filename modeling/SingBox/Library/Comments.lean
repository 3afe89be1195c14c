import Mathlib.Data.List.Infix
import Mathlib.Data.List.TakeWhile
import SingBox.Library.Utf8

namespace SingBox.Library

open Utf8 (encode encode_append encode_ascii encode_eq_flatMap encode_split encodeChar_large
  encodeChar_small)

-- Texts with strings, line comments and block comments. A comment begins only outside a
-- string, and a string is closed by a quote that no backslash escapes.
namespace Comments

def quote : UInt8 := 34
def backslash : UInt8 := 92
def slash : UInt8 := 47
def star : UInt8 := 42
def space : UInt8 := 32

def isLineEnd (byte : UInt8) : Bool := byte == 10 || byte == 13

inductive Piece
  | plain (byte : UInt8)
  | text (body : Bytes)
  | openText (body : Bytes)
  | line (body : Bytes)
  | block (body : Bytes)
  | openBlock (body : Bytes)
deriving DecidableEq

namespace Piece

def source : Piece → Bytes
  | plain byte => [byte]
  | text body => quote :: (body ++ [quote])
  | openText body => quote :: body
  | line body => slash :: slash :: body
  | block body => slash :: star :: (body ++ [star, slash])
  | openBlock body => slash :: star :: body

def isComment : Piece → Bool
  | line _ | block _ | openBlock _ => true
  | _ => false

end Piece

inductive StringBody : Bytes → Prop
  | nil : StringBody []
  | char {byte : UInt8} {body : Bytes} : byte ≠ quote → byte ≠ backslash → StringBody body →
      StringBody (byte :: body)
  | escape (byte : UInt8) {body : Bytes} : StringBody body →
      StringBody (backslash :: byte :: body)

-- Where the body of a string cannot go on.
def Stops (rest : Bytes) : Prop :=
  rest = [] ∨ rest = [backslash] ∨ ∃ after, rest = quote :: after

-- Only the end of the input leaves a string or a block comment open.
inductive Lexes : Bytes → List Piece → Prop
  | nil : Lexes [] []
  | plain {byte : UInt8} {rest : Bytes} {pieces : List Piece} : byte ≠ quote →
      (byte = slash → rest.head? ≠ some slash ∧ rest.head? ≠ some star) → Lexes rest pieces →
      Lexes (byte :: rest) (.plain byte :: pieces)
  | text {body rest : Bytes} {pieces : List Piece} : StringBody body → Lexes rest pieces →
      Lexes (quote :: (body ++ quote :: rest)) (.text body :: pieces)
  | openText {body : Bytes} : StringBody body → Lexes (quote :: body) [.openText body]
  | openEscape {body : Bytes} : StringBody body →
      Lexes (quote :: (body ++ [backslash])) [.openText (body ++ [backslash])]
  | line {body rest : Bytes} {pieces : List Piece} : (∀ byte ∈ body, isLineEnd byte = false) →
      (∀ byte ∈ rest.head?, isLineEnd byte = true) → Lexes rest pieces →
      Lexes (slash :: slash :: (body ++ rest)) (.line body :: pieces)
  | block {body rest : Bytes} {pieces : List Piece} : ¬[star, slash] <:+: body →
      Lexes rest pieces →
      Lexes (slash :: star :: (body ++ star :: slash :: rest)) (.block body :: pieces)
  | openBlock {body : Bytes} : ¬[star, slash] <:+: body →
      Lexes (slash :: star :: body) [.openBlock body]

-- The bytes of the input that stand in a comment.
def inComment (pieces : List Piece) : List Bool :=
  pieces.flatMap fun piece => List.replicate piece.source.length piece.isComment

def EndsInBlock (pieces : List Piece) : Prop := ∃ body, Piece.openBlock body ∈ pieces

def blank (byte : UInt8) : UInt8 := if isLineEnd byte then byte else space

namespace Piece

def cleaned (piece : Piece) : Bytes :=
  if piece.isComment then piece.source.map blank else piece.source

-- What a piece is after it has been cleaned.
def settled (piece : Piece) : List Piece :=
  if piece.isComment then (piece.source.map blank).map plain else [piece]

end Piece

-- A string goes on up to its quote, or to the end of the input.
theorem exists_stringBody (input : Bytes) :
    ∃ body rest, input = body ++ rest ∧ StringBody body ∧ Stops rest := by
  induction hlength : input.length using Nat.strong_induction_on generalizing input with
  | _ length ih =>
      subst hlength
      match input with
      | [] => exact ⟨[], [], rfl, .nil, .inl rfl⟩
      | byte :: rest =>
          by_cases hquote : byte = quote
          · exact ⟨[], byte :: rest, rfl, .nil, .inr (.inr ⟨rest, by rw [hquote]⟩)⟩
          by_cases hescape : byte = backslash
          · cases rest with
            | nil => exact ⟨[], [byte], rfl, .nil, .inr (.inl (by rw [hescape]))⟩
            | cons escaped rest =>
                obtain ⟨body, after, hrest, hbody, hstops⟩ := ih rest.length (by simp only [List.length_cons]; omega) rest rfl
                exact ⟨byte :: escaped :: body, after, by rw [hrest]; rfl,
                  hescape ▸ hbody.escape escaped, hstops⟩
          · obtain ⟨body, after, hrest, hbody, hstops⟩ := ih rest.length (by simp) rest rfl
            exact ⟨byte :: body, after, by rw [hrest]; rfl, hbody.char hquote hescape, hstops⟩

theorem stringBody_unique {body other rest after : Bytes} (hbody : StringBody body)
    (hother : StringBody other) (hrest : Stops rest) (hafter : Stops after)
    (h : body ++ rest = other ++ after) : body = other := by
  -- a body goes on neither at a quote nor at a backslash without a byte after it
  have hstops {tail more : Bytes} (hmore : StringBody more) (htail : Stops tail)
      (hsame : tail = more ++ after) : more = [] := by
    cases hmore with
    | nil => rfl
    | char hquote hescape _ =>
        obtain rfl | rfl | ⟨_, rfl⟩ := htail
        · cases hsame
        · exact absurd (List.cons.inj hsame).1.symm hescape
        · exact absurd (List.cons.inj hsame).1.symm hquote
    | escape _ _ =>
        obtain rfl | rfl | ⟨_, rfl⟩ := htail
        · cases hsame
        · cases (List.cons.inj hsame).2
        · exact absurd (List.cons.inj hsame).1 (by decide)
  induction hbody generalizing other with
  | nil => exact (hstops hother hrest h).symm
  | char hquote hescape _ ih =>
      cases hother with
      | nil =>
          obtain rfl | rfl | ⟨_, rfl⟩ := hafter
          · cases h
          · exact absurd (List.cons.inj h).1 hescape
          · exact absurd (List.cons.inj h).1 hquote
      | char _ _ hother =>
          obtain ⟨rfl, hsame⟩ := List.cons.inj h
          rw [ih hother hsame]
      | escape _ _ => exact absurd (List.cons.inj h).1 hescape
  | escape byte _ ih =>
      cases hother with
      | nil =>
          obtain rfl | rfl | ⟨_, rfl⟩ := hafter
          · cases h
          · cases (List.cons.inj h).2
          · exact absurd (List.cons.inj h).1 (by decide)
      | char _ hescape _ => exact absurd (List.cons.inj h).1.symm hescape
      | escape _ hother =>
          obtain ⟨-, htail⟩ := List.cons.inj h
          obtain ⟨rfl, hsame⟩ := List.cons.inj htail
          rw [ih hother hsame]

-- A block comment goes on up to the first mark of its end.
theorem exists_blockBody (input : Bytes) :
    ¬[star, slash] <:+: input ∨
      ∃ body rest, input = body ++ star :: slash :: rest ∧ ¬[star, slash] <:+: body := by
  induction input with
  | nil => exact .inl (by decide)
  | cons byte input ih =>
      by_cases hmark : [star, slash] <+: byte :: input
      · obtain ⟨rest, hrest⟩ := hmark
        exact .inr ⟨[], rest, hrest.symm, by decide⟩
      · obtain hnone | ⟨body, rest, rfl, hbody⟩ := ih
        · exact .inl fun h => (List.infix_cons_iff.mp h).elim hmark hnone
        · refine .inr ⟨byte :: body, rest, rfl, fun h => ?_⟩
          obtain hhead | htail := List.infix_cons_iff.mp h
          · exact hmark (hhead.trans (List.prefix_append (byte :: body) _))
          · exact hbody htail

theorem blockBody_unique {body other rest after : Bytes} (hbody : ¬[star, slash] <:+: body)
    (hother : ¬[star, slash] <:+: other)
    (h : body ++ star :: slash :: rest = other ++ star :: slash :: after) :
    body = other ∧ rest = after := by
  induction body generalizing other with
  | nil =>
      cases other with
      | nil => exact ⟨rfl, (List.cons.inj (List.cons.inj h).2).2⟩
      | cons byte other =>
          obtain ⟨rfl, htail⟩ := List.cons.inj h
          cases other with
          | nil => cases (List.cons.inj htail).1
          | cons next other =>
              obtain ⟨rfl, -⟩ := List.cons.inj htail
              exact absurd ⟨[], other, rfl⟩ hother
  | cons byte body ih =>
      cases other with
      | nil =>
          obtain ⟨rfl, htail⟩ := List.cons.inj h
          cases body with
          | nil => cases (List.cons.inj htail).1
          | cons next body =>
              obtain ⟨rfl, -⟩ := List.cons.inj htail
              exact absurd ⟨[], body, rfl⟩ hbody
      | cons otherByte other =>
          obtain ⟨rfl, htail⟩ := List.cons.inj h
          obtain ⟨rfl, hrest⟩ := ih (mt List.infix_cons hbody) (mt List.infix_cons hother) htail
          exact ⟨rfl, hrest⟩

theorem exists_lineBody (input : Bytes) :
    ∃ body rest, input = body ++ rest ∧ (∀ byte ∈ body, isLineEnd byte = false) ∧
      ∀ byte ∈ rest.head?, isLineEnd byte = true := by
  refine ⟨_, _, (List.takeWhile_append_dropWhile (p := fun byte => !isLineEnd byte)).symm,
    fun byte hmem => ?_, fun byte hmem => ?_⟩
  · have hbyte := List.mem_takeWhile_imp hmem
    simpa using hbyte
  · have hhead := List.head?_dropWhile_not (fun byte => !isLineEnd byte) input
    rw [hmem] at hhead
    simpa using hhead

theorem lineBody_unique {body other rest after : Bytes}
    (hbody : ∀ byte ∈ body, isLineEnd byte = false)
    (hother : ∀ byte ∈ other, isLineEnd byte = false)
    (hrest : ∀ byte ∈ rest.head?, isLineEnd byte = true)
    (hafter : ∀ byte ∈ after.head?, isLineEnd byte = true) (h : body ++ rest = other ++ after) :
    body = other := by
  have htake {body rest : Bytes} (hbody : ∀ byte ∈ body, isLineEnd byte = false)
      (hrest : ∀ byte ∈ rest.head?, isLineEnd byte = true) :
      (body ++ rest).takeWhile (fun byte => !isLineEnd byte) = body := by
    rw [List.takeWhile_append_of_pos fun byte hmem => by rw [hbody byte hmem]; rfl]
    cases rest with
    | nil => exact List.append_nil body
    | cons byte rest =>
        rw [List.takeWhile_cons_of_neg (by rw [hrest byte rfl]; decide), List.append_nil]
  rw [← htake hbody hrest, h, htake hother hafter]

theorem exists_lexes (input : Bytes) : ∃ pieces, Lexes input pieces := by
  induction hlength : input.length using Nat.strong_induction_on generalizing input with
  | _ length ih =>
      subst hlength
      match input with
      | [] => exact ⟨[], .nil⟩
      | byte :: rest =>
          by_cases hquote : byte = quote
          · subst hquote
            obtain ⟨body, after, rfl, hbody, rfl | rfl | ⟨after, rfl⟩⟩ := exists_stringBody rest
            · exact ⟨_, by rw [List.append_nil]; exact .openText hbody⟩
            · exact ⟨_, .openEscape hbody⟩
            · obtain ⟨pieces, hpieces⟩ := ih after.length (by simp; omega) after rfl
              exact ⟨_, .text hbody hpieces⟩
          by_cases hopens : byte = slash ∧ (rest.head? = some slash ∨ rest.head? = some star)
          · obtain ⟨rfl, hnext | hnext⟩ := hopens
            · obtain ⟨rest, rfl⟩ := List.head?_eq_some_iff.mp hnext
              obtain ⟨body, after, rfl, hbody, hafter⟩ := exists_lineBody rest
              obtain ⟨pieces, hpieces⟩ := ih after.length (by simp; omega) after rfl
              exact ⟨_, .line hbody hafter hpieces⟩
            · obtain ⟨rest, rfl⟩ := List.head?_eq_some_iff.mp hnext
              obtain hbody | ⟨body, after, rfl, hbody⟩ := exists_blockBody rest
              · exact ⟨_, .openBlock hbody⟩
              · obtain ⟨pieces, hpieces⟩ := ih after.length (by simp; omega) after rfl
                exact ⟨_, .block hbody hpieces⟩
          · obtain ⟨pieces, hpieces⟩ := ih rest.length (by simp) rest rfl
            refine ⟨_, .plain hquote (fun hslash => ?_) hpieces⟩
            exact not_or.mp fun hnext => hopens ⟨hslash, hnext⟩

theorem lineEnd_cases {byte : UInt8} (h : isLineEnd byte = true) : byte = 10 ∨ byte = 13 := by
  simpa [isLineEnd] using h

theorem lineEnd_small {byte : UInt8} (h : isLineEnd byte = true) : byte.toNat < 128 := by
  obtain rfl | rfl := lineEnd_cases h <;> decide

theorem blank_ne (byte : UInt8) : blank byte ≠ quote ∧ blank byte ≠ slash := by
  rw [blank]
  split
  · rename_i hend
    obtain rfl | rfl := lineEnd_cases hend <;> exact ⟨by decide, by decide⟩
  · exact ⟨by decide, by decide⟩

theorem blank_small (byte : UInt8) : (blank byte).toNat < 128 := by
  rw [blank]
  split
  · rename_i hend
    exact lineEnd_small hend
  · decide

-- `String::from_utf8` takes these bytes.
def IsText (bytes : Bytes) : Prop := ∃ text, bytes = encode text

namespace IsText

theorem append {left right : Bytes} : IsText left → IsText right → IsText (left ++ right) := by
  rintro ⟨leftText, rfl⟩ ⟨rightText, rfl⟩
  exact ⟨leftText ++ rightText, (encode_append ..).symm⟩

theorem small {byte : UInt8} (h : byte.toNat < 128) : IsText [byte] :=
  ⟨_, encode_ascii (List.forall_mem_singleton.mpr h)⟩

theorem split {front back : Bytes} {byte : UInt8} (hbyte : byte.toNat < 128) :
    IsText (front ++ byte :: back) → IsText front ∧ IsText back := by
  rintro ⟨text, htext⟩
  obtain ⟨before, after, hfront, hback⟩ := encode_split hbyte htext
  exact ⟨⟨before, hfront⟩, ⟨after, hback⟩⟩

-- What follows a small byte is a text with it.
theorem drop {front back : Bytes} {byte : UInt8} (hbyte : byte.toNat < 128)
    (h : IsText (front ++ byte :: back)) : IsText (byte :: back) :=
  (small hbyte).append (h.split hbyte).2

-- The first character is one small byte or has only large ones.
theorem cons {byte : UInt8} {rest : Bytes} (h : IsText (byte :: rest)) :
    ∃ more tail, rest = more ++ tail ∧ (∀ byte ∈ more, 128 ≤ byte.toNat) ∧
      IsText (byte :: more) ∧ IsText tail := by
  obtain ⟨text, htext⟩ := h
  rw [encode_eq_flatMap] at htext
  cases hchars : text.toList with
  | nil => rw [hchars] at htext; cases htext
  | cons char chars =>
      have htail : IsText (chars.flatMap String.utf8EncodeChar) :=
        ⟨String.ofList chars, by rw [encode_eq_flatMap, String.toList_ofList]⟩
      have hchar : IsText (String.utf8EncodeChar char) :=
        ⟨String.ofList [char], by rw [encode_eq_flatMap, String.toList_ofList]; simp⟩
      rw [hchars, List.flatMap_cons] at htext
      by_cases hsmall : char.toNat < 128
      · rw [encodeChar_small hsmall] at htext hchar
        obtain ⟨rfl, rfl⟩ := List.cons.inj htext
        exact ⟨[], _, rfl, nofun, hchar, htail⟩
      · have hlarge := encodeChar_large (Nat.le_of_not_lt hsmall)
        cases hfirst : String.utf8EncodeChar char with
        | nil => exact absurd hfirst String.utf8EncodeChar_ne_nil
        | cons first more =>
            rw [hfirst] at htext hchar hlarge
            obtain ⟨rfl, rfl⟩ := List.cons.inj htext
            exact ⟨more, _, rfl, (List.forall_mem_cons.mp hlarge).2, hchar, htail⟩

end IsText

theorem endsInBlock_cons {piece : Piece} {pieces : List Piece} :
    EndsInBlock (piece :: pieces) ↔ (∃ body, piece = .openBlock body) ∨ EndsInBlock pieces := by
  simp only [EndsInBlock, List.mem_cons, exists_or, eq_comm]

theorem cleaned_settled (pieces : List Piece) :
    (pieces.flatMap Piece.settled).flatMap Piece.cleaned = pieces.flatMap Piece.cleaned := by
  rw [List.flatMap_assoc]
  refine List.flatMap_congr fun piece _ => ?_
  rw [Piece.settled]
  split
  · rename_i hcomment
    rw [List.flatMap_map, Piece.cleaned, if_pos hcomment]
    exact List.flatMap_singleton' _
  · exact List.flatMap_singleton ..

theorem not_endsInBlock_settled (pieces : List Piece) :
    ¬EndsInBlock (pieces.flatMap Piece.settled) := by
  rintro ⟨body, h⟩
  obtain ⟨piece, -, hmem⟩ := List.mem_flatMap.mp h
  rw [Piece.settled] at hmem
  split at hmem
  · obtain ⟨byte, -, hbyte⟩ := List.mem_map.mp hmem
    cases hbyte
  · rename_i hcomment
    obtain rfl := List.mem_singleton.mp hmem
    exact hcomment rfl

namespace Lexes

variable {input : Bytes} {pieces : List Piece}

theorem source_eq (h : Lexes input pieces) : pieces.flatMap Piece.source = input := by
  induction h with
  | nil => rfl
  | plain _ _ _ ih => rw [List.flatMap_cons, ih]; rfl
  | text _ _ ih => rw [List.flatMap_cons, ih]; simp [Piece.source]
  | openText => simp [Piece.source]
  | openEscape => simp [Piece.source]
  | line _ _ _ ih => rw [List.flatMap_cons, ih]; simp [Piece.source]
  | block _ _ ih => rw [List.flatMap_cons, ih]; simp [Piece.source]
  | openBlock => simp [Piece.source]

-- How an input goes on that begins with a string.
theorem text_inv {body rest : Bytes} (hbody : StringBody body) (hrest : Stops rest)
    (h : Lexes (quote :: (body ++ rest)) pieces) :
    rest = [] ∧ pieces = [.openText body] ∨
      rest = [backslash] ∧ pieces = [.openText (body ++ [backslash])] ∨
      ∃ after others, rest = quote :: after ∧ pieces = .text body :: others ∧
        Lexes after others := by
  have hsame {other after : Bytes} (hother : StringBody other) (hafter : Stops after)
      (hinput : quote :: (body ++ rest) = quote :: (other ++ after)) :
      body = other ∧ rest = after := by
    obtain rfl := stringBody_unique hbody hother hrest hafter (List.cons.inj hinput).2
    exact ⟨rfl, List.append_cancel_left (List.cons.inj hinput).2⟩
  generalize hinput : quote :: (body ++ rest) = input at h
  cases h with
  | nil => cases hinput
  | plain hquote => exact absurd (List.cons.inj hinput).1.symm hquote
  | text hother hpieces =>
      obtain ⟨rfl, rfl⟩ := hsame hother (.inr (.inr ⟨_, rfl⟩)) hinput
      exact .inr (.inr ⟨_, _, rfl, rfl, hpieces⟩)
  | @openText other hother =>
      rw [← List.append_nil other] at hinput
      obtain ⟨rfl, rfl⟩ := hsame hother (.inl rfl) hinput
      exact .inl ⟨rfl, rfl⟩
  | openEscape hother =>
      obtain ⟨rfl, rfl⟩ := hsame hother (.inr (.inl rfl)) hinput
      exact .inr (.inl ⟨rfl, rfl⟩)
  | line | block | openBlock => exact absurd (List.cons.inj hinput).1 (by decide)

theorem line_inv {rest : Bytes} (h : Lexes (slash :: slash :: rest) pieces) :
    ∃ body after others, rest = body ++ after ∧ (∀ byte ∈ body, isLineEnd byte = false) ∧
      (∀ byte ∈ after.head?, isLineEnd byte = true) ∧ pieces = .line body :: others ∧
      Lexes after others := by
  generalize hinput : slash :: slash :: rest = input at h
  cases h with
  | nil => cases hinput
  | plain _ hslash =>
      obtain ⟨rfl, rfl⟩ := List.cons.inj hinput
      exact absurd rfl (hslash rfl).1
  | line hbody hafter hothers =>
      exact ⟨_, _, _, (List.cons.inj (List.cons.inj hinput).2).2, hbody, hafter, rfl, hothers⟩
  | text | openText | openEscape => exact absurd (List.cons.inj hinput).1 (by decide)
  | block | openBlock => exact absurd (List.cons.inj (List.cons.inj hinput).2).1 (by decide)

theorem block_inv {rest : Bytes} (h : Lexes (slash :: star :: rest) pieces) :
    ¬[star, slash] <:+: rest ∧ pieces = [.openBlock rest] ∨
      ∃ body after others, rest = body ++ star :: slash :: after ∧ ¬[star, slash] <:+: body ∧
        pieces = .block body :: others ∧ Lexes after others := by
  generalize hinput : slash :: star :: rest = input at h
  cases h with
  | nil => cases hinput
  | plain _ hslash =>
      obtain ⟨rfl, rfl⟩ := List.cons.inj hinput
      exact absurd rfl (hslash rfl).2
  | block hbody hothers =>
      exact .inr ⟨_, _, _, (List.cons.inj (List.cons.inj hinput).2).2, hbody, rfl, hothers⟩
  | openBlock hbody =>
      obtain rfl := (List.cons.inj (List.cons.inj hinput).2).2
      exact .inl ⟨hbody, rfl⟩
  | text | openText | openEscape => exact absurd (List.cons.inj hinput).1 (by decide)
  | line => exact absurd (List.cons.inj (List.cons.inj hinput).2).1 (by decide)

-- The pieces of an input are the only ones it has.
theorem unique {others : List Piece} (h : Lexes input pieces) (hothers : Lexes input others) :
    pieces = others := by
  induction h generalizing others with
  | nil => cases hothers; rfl
  | plain hquote hslash _ ih =>
      cases hothers with
      | plain _ _ hothers => rw [ih hothers]
      | text | openText | openEscape => exact absurd rfl hquote
      | line => exact absurd rfl (hslash rfl).1
      | block | openBlock => exact absurd rfl (hslash rfl).2
  | text hbody _ ih =>
      obtain ⟨h, -⟩ | ⟨h, -⟩ | ⟨after, others, h, rfl, hothers⟩ :=
        hothers.text_inv hbody (.inr (.inr ⟨_, rfl⟩))
      · cases h
      · exact absurd (List.cons.inj h).1 (by decide)
      · obtain ⟨-, rfl⟩ := List.cons.inj h
        rw [ih hothers]
  | @openText body hbody =>
      rw [← List.append_nil body] at hothers
      obtain ⟨-, rfl⟩ | ⟨h, -⟩ | ⟨_, _, h, -⟩ := hothers.text_inv hbody (.inl rfl)
      · rfl
      · cases h
      · cases h
  | openEscape hbody =>
      obtain ⟨h, -⟩ | ⟨-, rfl⟩ | ⟨_, _, h, -⟩ := hothers.text_inv hbody (.inr (.inl rfl))
      · cases h
      · rfl
      · exact absurd (List.cons.inj h).1 (by decide)
  | line hbody hrest _ ih =>
      obtain ⟨other, after, others, hsame, hother, hafter, rfl, hothers⟩ := hothers.line_inv
      obtain rfl := lineBody_unique hbody hother hrest hafter hsame
      obtain rfl := List.append_cancel_left hsame
      rw [ih hothers]
  | block hbody _ ih =>
      obtain ⟨hnone, -⟩ | ⟨other, after, others, hsame, hother, rfl, hothers⟩ := hothers.block_inv
      · exact absurd ⟨_, _, List.append_assoc _ [star, slash] _⟩ hnone
      · obtain ⟨rfl, rfl⟩ := blockBody_unique hbody hother hsame
        rw [ih hothers]
  | openBlock hbody =>
      obtain ⟨-, rfl⟩ | ⟨other, after, others, rfl, -⟩ := hothers.block_inv
      · rfl
      · exact absurd ⟨_, _, List.append_assoc _ [star, slash] _⟩ hbody

theorem plain_blanks {blanks rest : Bytes} {pieces : List Piece}
    (hblanks : ∀ byte ∈ blanks, byte ≠ quote ∧ byte ≠ slash) (h : Lexes rest pieces) :
    Lexes (blanks ++ rest) (blanks.map .plain ++ pieces) := by
  induction blanks with
  | nil => exact h
  | cons byte blanks ih =>
      obtain ⟨⟨hquote, hslash⟩, hblanks⟩ := List.forall_mem_cons.mp hblanks
      exact .plain hquote (fun hsame => absurd hsame hslash) (ih hblanks)

theorem settle_comment {piece : Piece} {rest : Bytes} {others : List Piece}
    (hcomment : piece.isComment = true) (h : Lexes rest others) :
    Lexes (piece.cleaned ++ rest) (piece.settled ++ others) := by
  rw [Piece.cleaned, Piece.settled, if_pos hcomment, if_pos hcomment]
  refine plain_blanks (fun byte hmem => ?_) h
  obtain ⟨source, -, rfl⟩ := List.mem_map.mp hmem
  exact blank_ne source

theorem head_cleaned (h : Lexes input pieces) :
    (pieces.flatMap Piece.cleaned).head? = input.head? ∨
      (pieces.flatMap Piece.cleaned).head? = some space := by
  cases h with
  | nil | plain | text | openText | openEscape => exact .inl rfl
  | line | block | openBlock => exact .inr rfl

-- A cleaned input has no comments.
theorem settle (h : Lexes input pieces) (hends : ¬EndsInBlock pieces) :
    Lexes (pieces.flatMap Piece.cleaned) (pieces.flatMap Piece.settled) := by
  induction h with
  | nil => exact .nil
  | @plain byte rest pieces hquote hslash hpieces ih =>
      obtain ⟨-, hends⟩ := not_or.mp (mt endsInBlock_cons.mpr hends)
      have hnext (hsame : byte = slash) : (pieces.flatMap Piece.cleaned).head? ≠ some slash ∧
          (pieces.flatMap Piece.cleaned).head? ≠ some star := by
        obtain hhead | hhead := hpieces.head_cleaned
        · rw [hhead]
          exact hslash hsame
        · rw [hhead]
          exact ⟨by decide, by decide⟩
      exact .plain hquote hnext (ih hends)
  | text hbody _ ih =>
      obtain ⟨-, hends⟩ := not_or.mp (mt endsInBlock_cons.mpr hends)
      have htext := Lexes.text hbody (ih hends)
      rwa [List.append_cons] at htext
  | openText hbody =>
      have htext := Lexes.openText hbody
      rwa [← List.append_nil (quote :: _)] at htext
  | openEscape hbody =>
      have htext := Lexes.openEscape hbody
      rwa [← List.append_nil (quote :: _)] at htext
  | line _ _ _ ih =>
      obtain ⟨-, hends⟩ := not_or.mp (mt endsInBlock_cons.mpr hends)
      exact settle_comment rfl (ih hends)
  | block _ _ ih =>
      obtain ⟨-, hends⟩ := not_or.mp (mt endsInBlock_cons.mpr hends)
      exact settle_comment rfl (ih hends)
  | openBlock => exact absurd ⟨_, List.mem_singleton_self _⟩ hends

-- The bytes of a comment are blanked where they stand.
theorem cleaned_eq (h : Lexes input pieces) :
    pieces.flatMap Piece.cleaned =
      List.zipWith (fun comment byte => if comment then blank byte else byte)
        (inComment pieces) input := by
  rw [← h.source_eq, inComment]
  clear h
  induction pieces with
  | nil => rfl
  | cons piece pieces ih =>
      rw [List.flatMap_cons, List.flatMap_cons, List.flatMap_cons,
        List.zipWith_append (List.length_replicate ..), ← ih, Piece.cleaned]
      have hsource (source : Bytes) (comment : Bool) :
          (if comment then source.map blank else source) = 
            List.zipWith (fun comment byte => if comment then blank byte else byte)
              (List.replicate source.length comment) source := by
        induction source with
        | nil => cases comment <;> rfl
        | cons byte source ih =>
            rw [List.length_cons, List.replicate_succ, List.zipWith_cons_cons, ← ih]
            cases comment <;> rfl
      rw [hsource]

theorem length_inComment (h : Lexes input pieces) : (inComment pieces).length = input.length := by
  rw [← h.source_eq, inComment, List.length_flatMap, List.length_flatMap]
  simp only [List.length_replicate]

theorem cleaned_comment {piece : Piece} (h : piece.isComment = true) : IsText piece.cleaned := by
  refine ⟨_, Utf8.encode_ascii fun byte hmem => ?_⟩
  rw [Piece.cleaned, if_pos h] at hmem
  obtain ⟨source, -, rfl⟩ := List.mem_map.mp hmem
  exact blank_small source

-- A text stays one. The bytes of a larger character are pieces of their own, and `bytes` are
-- those left of the last one.
theorem cleaned_isText {bytes tail : Bytes} (h : Lexes input pieces)
    (hbytes : ∀ byte ∈ bytes, 128 ≤ byte.toNat) (htail : IsText tail)
    (hinput : input = bytes ++ tail) :
    ∃ cleaned, pieces.flatMap Piece.cleaned = bytes ++ cleaned ∧ IsText cleaned := by
  have hsmall {bytes tail rest : Bytes} {byte : UInt8} (hbytes : ∀ byte ∈ bytes, 128 ≤ byte.toNat)
      (htail : IsText tail) (hbyte : byte.toNat < 128) (hinput : byte :: rest = bytes ++ tail) :
      bytes = [] ∧ IsText (byte :: rest) := by
    cases bytes with
    | nil => exact ⟨rfl, hinput ▸ htail⟩
    | cons first bytes =>
        have hfirst := hbytes first List.mem_cons_self
        rw [← (List.cons.inj hinput).1] at hfirst
        omega
  have hnone : ∀ byte ∈ ([] : Bytes), 128 ≤ byte.toNat := nofun
  induction h generalizing bytes tail with
  | nil =>
      obtain ⟨rfl, rfl⟩ := List.append_eq_nil_iff.mp hinput.symm
      exact ⟨[], rfl, htail⟩
  | @plain byte rest pieces _ _ _ ih =>
      rw [List.flatMap_cons]
      cases bytes with
      | nil =>
          obtain rfl : byte :: rest = tail := hinput
          obtain ⟨more, after, hrest, hmore, hchar, hafter⟩ := htail.cons
          obtain ⟨cleaned, hcleaned, htext⟩ := ih hmore hafter hrest
          exact ⟨byte :: more ++ cleaned, by rw [hcleaned]; rfl, hchar.append htext⟩
      | cons first bytes =>
          obtain ⟨rfl, hrest⟩ := List.cons.inj hinput
          obtain ⟨cleaned, hcleaned, htext⟩ := ih (List.forall_mem_cons.mp hbytes).2 htail hrest
          exact ⟨cleaned, by rw [hcleaned]; rfl, htext⟩
  | @text body rest pieces _ _ ih =>
      obtain ⟨rfl, htext⟩ := hsmall hbytes htail (by decide) hinput
      rw [← List.cons_append] at htext
      obtain ⟨hbody, hrest⟩ := htext.split (by decide)
      obtain ⟨cleaned, hcleaned, hclean⟩ := ih hnone hrest (List.nil_append rest).symm
      refine ⟨_, by rw [List.flatMap_cons, hcleaned]; rfl, ?_⟩
      exact (hbody.append (.small (by decide))).append hclean
  | openText | openEscape =>
      obtain ⟨rfl, htext⟩ := hsmall hbytes htail (by decide) hinput
      exact ⟨_, List.append_nil _, htext⟩
  | @line body rest pieces _ hrest _ ih =>
      obtain ⟨rfl, htext⟩ := hsmall hbytes htail (by decide) hinput
      have hafter : IsText rest := by
        cases rest with
        | nil => exact ⟨"", rfl⟩
        | cons first rest =>
            rw [← List.cons_append, ← List.cons_append] at htext
            exact htext.drop (lineEnd_small (hrest first rfl))
      obtain ⟨cleaned, hcleaned, hclean⟩ := ih hnone hafter (List.nil_append rest).symm
      have hcomment : IsText (Piece.line body).cleaned := cleaned_comment rfl
      exact ⟨_, by rw [List.flatMap_cons, hcleaned]; rfl, hcomment.append hclean⟩
  | @block body rest pieces _ _ ih =>
      obtain ⟨rfl, htext⟩ := hsmall hbytes htail (by decide) hinput
      rw [List.append_cons, ← List.cons_append, ← List.cons_append] at htext
      obtain ⟨-, hrest⟩ := htext.split (by decide)
      obtain ⟨cleaned, hcleaned, hclean⟩ := ih hnone hrest (List.nil_append rest).symm
      have hcomment : IsText (Piece.block body).cleaned := cleaned_comment rfl
      exact ⟨_, by rw [List.flatMap_cons, hcleaned]; rfl, hcomment.append hclean⟩
  | @openBlock body =>
      obtain ⟨rfl, -⟩ := hsmall hbytes htail (by decide) hinput
      exact ⟨(Piece.openBlock body).cleaned, List.append_nil _, cleaned_comment rfl⟩

end Lexes

end Comments

end SingBox.Library
