import Mathlib.Data.List.Basic
import Mathlib.Data.List.DropRight

namespace SingBox.Library

-- What the standard library does with a text, as its characters.
namespace Text

-- `char::is_whitespace`
def isWhitespace (char : Char) : Bool :=
  let code := char.toNat
  9 ≤ code && code ≤ 13 || code == 32 || code == 0x85 || code == 0xa0 || code == 0x1680 ||
    0x2000 ≤ code && code ≤ 0x200a || code == 0x2028 || code == 0x2029 || code == 0x202f ||
    code == 0x205f || code == 0x3000

-- `str::trim`
def trim (text : List Char) : List Char := (text.dropWhile isWhitespace).rdropWhile isWhitespace

-- `str::split_whitespace`
def splitWhitespace (text : List Char) : List (List Char) :=
  (text.splitOnP isWhitespace).filter (· ≠ [])

-- `str::lines`. `line` is what has been read of the line so far. A carriage return belongs
-- to the end of a line, but not to the end of the text.
def readLines (line : List Char) : List Char → List (List Char)
  | [] => if line = [] then [] else [line]
  | '\n' :: rest =>
      (if line.getLast? = some '\r' then line.dropLast else line) :: readLines [] rest
  | char :: rest => readLines (line ++ [char]) rest

def lines (text : List Char) : List (List Char) := readLines [] text

-- `str::split` at the line ends of HTTP. `line` is what has been read of the part so far.
def splitCrlfFrom (line : List Char) : List Char → List (List Char)
  | [] => [line]
  | [char] => [line ++ [char]]
  | char :: next :: rest =>
      if char = '\r' ∧ next = '\n' then line :: splitCrlfFrom [] rest
      else splitCrlfFrom (line ++ [char]) (next :: rest)

def splitCrlf (text : List Char) : List (List Char) := splitCrlfFrom [] text

def crlf : List Char := ['\r', '\n']

theorem readLines_line (before line rest : List Char) (h : ∀ char ∈ line, char ≠ '\n') :
    readLines before (line ++ '\n' :: rest) =
      (if (before ++ line).getLast? = some '\r' then (before ++ line).dropLast
        else before ++ line) :: lines rest := by
  induction line generalizing before with
  | nil => rw [List.nil_append, List.append_nil]; rfl
  | cons char line ih =>
      obtain ⟨hchar, hline⟩ := List.forall_mem_cons.mp h
      have hstep : readLines before (char :: (line ++ '\n' :: rest)) =
          readLines (before ++ [char]) (line ++ '\n' :: rest) := by
        rw [readLines]
        exact hchar
      rw [List.cons_append, hstep, ih _ hline, List.append_assoc, List.singleton_append]

-- A line without line ends of its own.
theorem lines_cons {line : List Char} (h : ∀ char ∈ line, char ≠ '\n' ∧ char ≠ '\r')
    (rest : List Char) : lines (line ++ '\n' :: rest) = line :: lines rest := by
  rw [lines, readLines_line [] line rest fun char hchar => (h char hchar).1, List.nil_append,
    if_neg]
  intro hlast
  exact (h '\r' (List.mem_of_getLast? hlast)).2 rfl

theorem splitCrlfFrom_cons {line rest : List Char} {char : Char} (h : char ≠ '\r') :
    splitCrlfFrom line (char :: rest) = splitCrlfFrom (line ++ [char]) rest := by
  cases rest with
  | nil => rfl
  | cons next rest => rw [splitCrlfFrom, if_neg (mt And.left h)]

theorem splitCrlfFrom_append (before : List Char) {line : List Char} (h : '\r' ∉ line)
    (rest : List Char) :
    splitCrlfFrom before (line ++ rest) = splitCrlfFrom (before ++ line) rest := by
  induction line generalizing before with
  | nil => rw [List.nil_append, List.append_nil]
  | cons char line ih =>
      obtain ⟨hchar, hline⟩ := not_or.mp (mt List.mem_cons.mpr h)
      rw [List.cons_append, splitCrlfFrom_cons (Ne.symm hchar), ih _ hline, List.append_assoc,
        List.singleton_append]

-- Lines that are put together come apart again.
theorem splitCrlf_join {first : List Char} {others : List (List Char)}
    (h : ∀ line ∈ first :: others, '\r' ∉ line) :
    splitCrlf (first ++ others.flatMap (crlf ++ ·)) = first :: others := by
  induction others generalizing first with
  | nil =>
      rw [List.flatMap_nil, splitCrlf, splitCrlfFrom_append [] (h first List.mem_cons_self)]
      rfl
  | cons line others ih =>
      obtain ⟨hfirst, hlines⟩ := List.forall_mem_cons.mp h
      have hsplit : splitCrlf (first ++ (line :: others).flatMap (crlf ++ ·)) =
          first :: splitCrlf (line ++ others.flatMap (crlf ++ ·)) := by
        rw [splitCrlf, splitCrlfFrom_append [] hfirst]
        rfl
      rw [hsplit, ih hlines]

theorem trim_eq_self {text : List Char} (h : ∀ char ∈ text, isWhitespace char = false) :
    trim text = text := by
  have hfront : text.dropWhile isWhitespace = text := by
    cases text with
    | nil => rfl
    | cons char rest => exact List.dropWhile_cons_of_neg (by simp [h char List.mem_cons_self])
  rw [trim, hfront, List.rdropWhile_eq_self_iff]
  exact fun hne => by simp [h _ (List.getLast_mem hne)]

theorem splitOn_cons {separator : Char} {front : List Char} (hfront : separator ∉ front)
    (rest : List Char) :
    (front ++ separator :: rest).splitOn separator = front :: rest.splitOn separator := by
  have hclean : ∀ char ∈ front, (char == separator) = false := fun char hchar =>
    beq_eq_false_iff_ne.mpr fun heq => hfront (heq ▸ hchar)
  rw [List.splitOn_eq_splitOnP, List.splitOn_eq_splitOnP,
    List.splitOnP_append_cons_of_forall_mem hclean separator (beq_self_eq_true separator)]

-- The part in front of the first separator.
theorem splitOn_front {separator : Char} {front back : List Char} (hfront : separator ∉ front)
    (hback : back = [] ∨ back.head? = some separator) :
    ∃ others, (front ++ back).splitOn separator = front :: others := by
  obtain rfl | hback := hback
  · have hclean : ∀ char ∈ front, (char == separator) = false := fun char hchar =>
      beq_eq_false_iff_ne.mpr fun heq => hfront (heq ▸ hchar)
    rw [List.append_nil, List.splitOn_eq_splitOnP, List.splitOnP_eq_singleton hclean]
    exact ⟨[], rfl⟩
  · obtain ⟨rest, rfl⟩ := List.head?_eq_some_iff.mp hback
    exact ⟨_, splitOn_cons hfront rest⟩

theorem not_mem_of_splitOn {separator : Char} {text part : List Char}
    (h : part ∈ text.splitOn separator) : separator ∉ part := by
  rw [List.splitOn_eq_splitOnP] at h
  induction text generalizing part with
  | nil =>
      rw [List.mem_singleton.mp h]
      exact List.not_mem_nil
  | cons char rest ih =>
      rw [List.splitOnP_cons_eq_if_modifyHead] at h
      split at h
      · obtain rfl | hrest := List.mem_cons.mp h
        · exact List.not_mem_nil
        · exact ih hrest
      · next hchar =>
          have hne : separator ≠ char := fun hsame => hchar (beq_iff_eq.mpr hsame.symm)
          obtain ⟨first, others, hsplit⟩ :=
            List.exists_cons_of_ne_nil (List.splitOnP_ne_nil (· == separator) rest)
          rw [hsplit] at h ih
          obtain rfl | hothers := List.mem_cons.mp h
          · exact List.not_mem_cons_of_ne_of_not_mem hne (ih List.mem_cons_self)
          · exact ih (List.mem_cons_of_mem _ hothers)

-- A word, a blank and what comes after it.
theorem splitWhitespace_cons {word : List Char} (hword : word ≠ [])
    (h : ∀ char ∈ word, isWhitespace char = false) (rest : List Char) :
    splitWhitespace (word ++ ' ' :: rest) = word :: splitWhitespace rest := by
  have hkeep : decide (word ≠ []) = true := decide_eq_true hword
  rw [splitWhitespace, List.splitOnP_append_cons_of_forall_mem h ' ' rfl]
  exact List.filter_cons_of_pos hkeep

-- A word, and nothing or a blank behind it.
theorem splitWhitespace_front {word back : List Char} (hword : word ≠ [])
    (h : ∀ char ∈ word, isWhitespace char = false) (hback : back = [] ∨ back.head? = some ' ') :
    ∃ others, splitWhitespace (word ++ back) = word :: others := by
  obtain rfl | hback := hback
  · have hkeep : decide (word ≠ []) = true := decide_eq_true hword
    rw [List.append_nil, splitWhitespace, List.splitOnP_eq_singleton h]
    exact ⟨[], List.filter_cons_of_pos hkeep⟩
  · obtain ⟨rest, rfl⟩ := List.head?_eq_some_iff.mp hback
    exact ⟨_, splitWhitespace_cons hword h rest⟩

end Text

variable {σ α β : Type}

-- A parser of tokens takes only tokens of one kind off its input.
def Takes (allowed : σ → Prop) (read : StateT (List σ) Option α) : Prop :=
  ∀ (input : List σ) (value : α) (rest : List σ), read input = some (value, rest) →
    ∃ taken, input = taken ++ rest ∧ ∀ token ∈ taken, allowed token

namespace Takes

variable {allowed : σ → Prop}

theorem pure (value : α) : Takes allowed (Pure.pure value) := by
  intro input result rest hread
  obtain ⟨-, rfl⟩ := Prod.mk.inj (Option.some.inj hread)
  exact ⟨[], rfl, nofun⟩

theorem bind {read : StateT (List σ) Option α} {next : α → StateT (List σ) Option β}
    (hread : Takes allowed read) (hnext : ∀ value, Takes allowed (next value)) :
    Takes allowed (read >>= next) := by
  intro input result rest hboth
  obtain ⟨⟨value, mid⟩, hfirst, hsecond⟩ := Option.bind_eq_some_iff.mp hboth
  obtain ⟨taken, rfl, htaken⟩ := hread input value mid hfirst
  obtain ⟨more, rfl, hmore⟩ := hnext value mid result rest hsecond
  exact ⟨taken ++ more, (List.append_assoc ..).symm, List.forall_mem_append.mpr ⟨htaken, hmore⟩⟩

-- A read that stops at the first token it has no use for.
theorem whole {read : StateT (List σ) Option α} (h : Takes allowed read) {input : List σ} {value : α}
    (hread : read input = some (value, [])) : ∀ token ∈ input, allowed token := by
  obtain ⟨taken, rfl, htaken⟩ := h input value [] hread
  rw [List.append_nil]
  exact htaken

end Takes

end SingBox.Library
