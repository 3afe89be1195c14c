import SingBox.Library.Utf8
import Mathlib.Data.List.DropRight

namespace SingBox.Library

-- The head of a message of HTTP/1.1, as bytes.
namespace HttpHead

def CR : UInt8 := 13
def LF : UInt8 := 10
def SP : UInt8 := 32
def COLON : UInt8 := 58

def crlf : Bytes := [CR, LF]

-- The parts in front of the first separator and after it.
def cut (separator : UInt8) : Bytes → Option (Bytes × Bytes)
  | [] => none
  | byte :: rest =>
      if byte = separator then some ([], rest)
      else (cut separator rest).map fun (before, after) => (byte :: before, after)

-- The lines in front of the first empty one, and what comes after that. `line` is what has
-- been read of the line so far.
def readLines (line : Bytes) : Bytes → Option (List Bytes × Bytes)
  | [] => none
  | [_] => none
  | byte :: next :: rest =>
      if byte = CR ∧ next = LF then
        if line = [] then some ([], rest)
        else (readLines [] rest).map fun (lines, after) => (line :: lines, after)
      else readLines (line ++ [byte]) (next :: rest)

structure Field where
  name : Bytes
  value : Bytes
deriving DecidableEq, Repr

structure RequestHead where
  method : Bytes
  target : Bytes
  version : Bytes
  fields : List Field
deriving DecidableEq, Repr

def trimBlanks (value : Bytes) : Bytes :=
  let blank (byte : UInt8) : Bool := byte == SP || byte == 9
  (value.dropWhile blank).rdropWhile blank

-- Which bytes a recipient takes for those of a token, and of a text. All of them tell the
-- parts of a head by blanks, colons and line ends.
structure Bytewise where
  token : UInt8 → Bool
  text : UInt8 → Bool

namespace Bytewise

variable (this : Bytewise)

def Token (bytes : Bytes) : Prop := bytes ≠ [] ∧ bytes.all this.token

def AdmitsField (field : Field) : Prop := this.Token field.name ∧ field.value.all this.text

def Admits (head : RequestHead) : Prop :=
  this.Token head.method ∧ head.target ≠ [] ∧ head.target.all this.text ∧
    ∀ field ∈ head.fields, this.AdmitsField field

instance (bytes : Bytes) : Decidable (this.Token bytes) :=
  inferInstanceAs (Decidable (_ ∧ _))

instance (field : Field) : Decidable (this.AdmitsField field) :=
  inferInstanceAs (Decidable (_ ∧ _))

instance (head : RequestHead) : Decidable (this.Admits head) :=
  inferInstanceAs (Decidable (_ ∧ _))

end Bytewise

-- The recipient that refuses least.
def Bytewise.lenient : Bytewise where
  token byte := 32 < byte && byte < 127 && byte != COLON
  text byte := byte != CR && byte != LF

-- A name, a colon, and the value between blanks.
def readField (line : Bytes) : Option Field :=
  (cut COLON line).map fun (name, value) => ⟨name, trimBlanks value⟩

def readRequestLine (line : Bytes) : Option (Bytes × Bytes × Bytes) := do
  let (method, rest) ← cut SP line
  let (target, version) ← cut SP rest
  return (method, target, version)

-- A request line, fields and an empty line, as a recipient reads them.
def readHead (recipient : Bytewise) (bytes : Bytes) : Option (RequestHead × Bytes) := do
  let (lines, rest) ← readLines [] bytes
  let (first, others) ← lines.head?.map fun first => (first, lines.tail)
  let (method, target, version) ← readRequestLine first
  let fields ← others.mapM readField
  let head : RequestHead := { method, target, version, fields }
  if version = Utf8.encode "HTTP/1.1" ∧ recipient.Admits head then some (head, rest)
  else none

-- The fields of a name, in any case.
def RequestHead.named (this : RequestHead) (name : Bytes) : List Field :=
  this.fields.filter fun field => field.name.map Utf8.lowerByte = name.map Utf8.lowerByte

-- Where the first empty line ends.
def headEnd : Bytes → Option Nat
  | [] => none
  | byte :: rest =>
      if crlf ++ crlf <+: byte :: rest then some 4 else (headEnd rest).map (· + 1)

-- Lines as they are sent.
def writeLines (lines : List Bytes) : Bytes := lines.flatMap (· ++ crlf) ++ crlf

def requestLine (method target : Bytes) : Bytes :=
  method ++ SP :: (target ++ SP :: Utf8.encode "HTTP/1.1")

def fieldLine (field : Field) : Bytes := field.name ++ COLON :: SP :: field.value

-- Lines with an end behind each, and with an end in front of all but the first.
theorem flatMap_ends {α : Type} (ending first : List α) (others : List (List α)) :
    (first :: others).flatMap (· ++ ending) = first ++ others.flatMap (ending ++ ·) ++ ending := by
  induction others generalizing first with
  | nil => simp
  | cons line others ih =>
      rw [List.flatMap_cons, ih line, List.flatMap_cons]
      simp only [List.append_assoc]

theorem cut_append {separator : UInt8} {before after : Bytes} (h : separator ∉ before) :
    cut separator (before ++ separator :: after) = some (before, after) := by
  induction before with
  | nil => simp [cut]
  | cons byte rest ih =>
      obtain ⟨hne, hrest⟩ := not_or.mp (mt List.mem_cons.mpr h)
      simp [cut, Ne.symm hne, ih hrest]

theorem readLines_cons {line bytes : Bytes} {byte : UInt8} (hbyte : byte ≠ CR) (hbytes : bytes ≠ []) :
    readLines line (byte :: bytes) = readLines (line ++ [byte]) bytes := by
  cases bytes with
  | nil => exact absurd rfl hbytes
  | cons next rest => rw [readLines, if_neg (mt And.left hbyte)]

-- A line of text as it stands in a head.
theorem encode_line {line : List Char} (hsome : line ≠ []) (hclean : '\r' ∉ line) :
    Utf8.encode (String.ofList line) ≠ [] ∧ CR ∉ Utf8.encode (String.ofList line) := by
  constructor
  · intro hempty
    have htext : String.ofList line = "" := Utf8.encode_inj.mp hempty
    exact hsome (by simpa using congrArg String.toList htext)
  · intro hmem
    obtain ⟨char, hchar, hcode⟩ := Utf8.mem_encode (by decide) hmem
    rw [String.toList_ofList] at hchar
    have hcr : char = '\r' := Char.toNat_inj.mp hcode.symm
    exact hclean (hcr ▸ hchar)

theorem readLines_line {line rest : Bytes} (before : Bytes) (h : CR ∉ line) :
    readLines before (line ++ crlf ++ rest) =
      if before ++ line = [] then some ([], rest)
      else (readLines [] rest).map fun (lines, after) => ((before ++ line) :: lines, after) := by
  induction line generalizing before with
  | nil => simp [readLines, crlf]
  | cons byte line ih =>
      obtain ⟨hne, hline⟩ := not_or.mp (mt List.mem_cons.mpr h)
      rw [List.cons_append, List.cons_append, readLines_cons (Ne.symm hne) (by simp [crlf]),
        ih (before ++ [byte]) hline, List.append_assoc, List.singleton_append]

-- Lines are read back as they were sent, and what comes after them is left.
theorem readLines_write {lines : List Bytes} (h : ∀ line ∈ lines, line ≠ [] ∧ CR ∉ line)
    (rest : Bytes) : readLines [] (writeLines lines ++ rest) = some (lines, rest) := by
  induction lines with
  | nil => simp [writeLines, readLines, crlf]
  | cons line lines ih =>
      obtain ⟨⟨hne, hline⟩, hlines⟩ := List.forall_mem_cons.mp h
      have hwrite : writeLines (line :: lines) ++ rest =
          line ++ crlf ++ (writeLines lines ++ rest) := by
        simp [writeLines]
      rw [hwrite, readLines_line [] hline, List.nil_append, if_neg hne, ih hlines]
      rfl

-- What follows a line end within lines is a line end only at their end.
theorem writeLines_ne {lines : List Bytes} (h : ∀ line ∈ lines, line ≠ [] ∧ CR ∉ line)
    {back : Bytes} (heq : writeLines lines = crlf ++ back) : lines = [] ∧ back = [] := by
  cases lines with
  | nil =>
      rw [show writeLines [] = crlf ++ [] from rfl] at heq
      exact ⟨rfl, (List.append_cancel_left heq).symm⟩
  | cons line lines =>
      obtain ⟨⟨hne, hline⟩, _⟩ := List.forall_mem_cons.mp h
      cases line with
      | nil => exact absurd rfl hne
      | cons byte line =>
          have hbyte : byte = CR := (List.cons.inj heq).1
          exact absurd (hbyte ▸ List.mem_cons_self) hline

-- The empty line is the last thing there is.
theorem writeLines_ends {lines : List Bytes} (h : ∀ line ∈ lines, line ≠ [] ∧ CR ∉ line)
    {front back : Bytes} (heq : writeLines lines = front ++ (crlf ++ (crlf ++ back))) : back = [] := by
  induction lines generalizing front with
  | nil =>
      have hlength := congrArg List.length heq
      simp only [writeLines, crlf, List.flatMap_nil, List.nil_append, List.length_append,
        List.length_cons, List.length_nil] at hlength
      omega
  | cons line lines ih =>
      obtain ⟨⟨-, hline⟩, hlines⟩ := List.forall_mem_cons.mp h
      have hwrite : writeLines (line :: lines) = line ++ (crlf ++ writeLines lines) := by
        simp [writeLines]
      rw [hwrite] at heq
      clear h hwrite
      induction line generalizing front with
      | nil =>
          -- the line end is the first of the two, or lies before them
          cases front with
          | nil => exact (writeLines_ne hlines (List.append_cancel_left heq)).2
          | cons first front =>
              cases front with
              | nil => cases (List.cons.inj (List.cons.inj heq).2).1
              | cons second front => exact ih hlines (List.cons.inj (List.cons.inj heq).2).2
      | cons byte line ihLine =>
          obtain ⟨hne, hrest⟩ := not_or.mp (mt List.mem_cons.mpr hline)
          cases front with
          | nil => exact absurd (List.cons.inj heq).1.symm hne
          | cons first front => exact ihLine (List.cons.inj heq).2 hrest

theorem headEnd_some {data : Bytes} {position : Nat} (h : headEnd data = some position) :
    ∃ front back, data = front ++ (crlf ++ (crlf ++ back)) ∧ position = front.length + 4 := by
  induction data generalizing position with
  | nil => cases h
  | cons byte rest ih =>
      rw [headEnd] at h
      split at h
      · next hstarts =>
          obtain ⟨back, hback⟩ := hstarts
          exact ⟨[], back, by rw [← hback, List.append_assoc]; rfl, (Option.some.inj h).symm⟩
      · obtain ⟨position, hrest, rfl⟩ := Option.map_eq_some_iff.mp h
        obtain ⟨front, back, rfl, rfl⟩ := ih hrest
        exact ⟨byte :: front, back, rfl, by simp only [List.length_cons]⟩

theorem headEnd_none {data : Bytes} (h : headEnd data = none) (front back : Bytes) :
    data ≠ front ++ (crlf ++ (crlf ++ back)) := by
  induction data generalizing front with
  | nil => simp [crlf]
  | cons byte rest ih =>
      rw [headEnd] at h
      split at h
      · cases h
      · next hstarts =>
          intro heq
          cases front with
          | nil => exact hstarts ⟨back, by rw [heq, List.append_assoc]; rfl⟩
          | cons first front =>
              exact ih (Option.map_eq_none_iff.mp h) front (List.cons.inj heq).2

-- What comes later does not move it.
theorem headEnd_append {data : Bytes} {position : Nat} (h : headEnd data = some position)
    (more : Bytes) : headEnd (data ++ more) = some position := by
  induction data generalizing position with
  | nil => cases h
  | cons byte rest ih =>
      have hlater : byte :: rest <+: byte :: (rest ++ more) := List.prefix_append (byte :: rest) more
      rw [headEnd] at h
      rw [List.cons_append, headEnd]
      split at h
      · next hstarts => rw [if_pos (hstarts.trans hlater), h]
      · next hstarts =>
          obtain ⟨position, hrest, rfl⟩ := Option.map_eq_some_iff.mp h
          obtain ⟨front, back, hdata, _⟩ := headEnd_some hrest
          have hlength := congrArg List.length hdata
          have hlong : (crlf ++ crlf).length ≤ (byte :: rest).length := by
            simp only [List.length_append, List.length_cons, crlf, List.length_nil] at hlength ⊢
            omega
          rw [if_neg fun hend => hstarts (List.prefix_of_prefix_length_le hend hlater hlong),
            ih hrest]
          rfl

-- A head ends with its lines, whatever follows it.
theorem headEnd_write {lines : List Bytes} (h : ∀ line ∈ lines, line ≠ [] ∧ CR ∉ line)
    (hlines : lines ≠ []) (rest : Bytes) :
    headEnd (writeLines lines ++ rest) = some (writeLines lines).length := by
  refine headEnd_append ?_ rest
  cases hend : headEnd (writeLines lines) with
  | none =>
      obtain ⟨front, last, rfl⟩ := (List.eq_nil_or_concat lines).resolve_left hlines
      refine absurd ?_ (headEnd_none hend (front.flatMap (· ++ crlf) ++ last) [])
      simp [writeLines]
  | some position =>
      obtain ⟨front, back, hdata, rfl⟩ := headEnd_some hend
      obtain rfl := writeLines_ends h hdata
      rw [hdata]
      simp [crlf]

-- Before its last byte there is no end of it.
theorem headEnd_part {lines : List Bytes} (h : ∀ line ∈ lines, line ≠ [] ∧ CR ∉ line)
    {data more : Bytes} (heq : writeLines lines = data ++ more) (hmore : more ≠ []) :
    headEnd data = none := by
  cases hend : headEnd data with
  | none => rfl
  | some position =>
      obtain ⟨front, back, rfl, _⟩ := headEnd_some hend
      rw [List.append_assoc, List.append_assoc, List.append_assoc] at heq
      have hback := writeLines_ends h heq
      exact absurd (List.append_eq_nil_iff.mp hback).2 hmore

theorem readRequestLine_write {method target : Bytes} (hmethod : SP ∉ method) (htarget : SP ∉ target) :
    readRequestLine (requestLine method target) =
      some (method, target, Utf8.encode "HTTP/1.1") := by
  rw [readRequestLine, requestLine, cut_append hmethod]
  show (cut SP (target ++ SP :: _)).bind _ = _
  rw [cut_append htarget]
  rfl

theorem readField_write {field : Field} (h : COLON ∉ field.name) :
    readField (fieldLine field) = some { field with value := trimBlanks field.value } := by
  rw [readField, fieldLine, cut_append h]
  rfl

theorem trimBlanks_eq_self {value : Bytes} (h : ∀ byte ∈ value, byte ≠ SP ∧ byte ≠ 9) :
    trimBlanks value = value := by
  have hblank : ∀ byte ∈ value, ¬(byte == SP || byte == 9) = true := fun byte hbyte => by
    simpa using h byte hbyte
  have hfront : value.dropWhile (fun byte => byte == SP || byte == 9) = value := by
    cases value with
    | nil => rfl
    | cons byte rest => exact List.dropWhile_cons_of_neg (hblank byte List.mem_cons_self)
  show (value.dropWhile fun byte => byte == SP || byte == 9).rdropWhile _ = value
  rw [hfront, List.rdropWhile_eq_self_iff]
  exact fun hne => hblank _ (List.getLast_mem hne)

theorem mapM_readField {fields : List Field} (h : ∀ field ∈ fields, COLON ∉ field.name) :
    (fields.map fieldLine).mapM readField =
      some (fields.map fun field => { field with value := trimBlanks field.value }) := by
  induction fields with
  | nil => rfl
  | cons field fields ih =>
      obtain ⟨hfield, hfields⟩ := List.forall_mem_cons.mp h
      rw [List.map_cons, List.mapM_cons, readField_write hfield, ih hfields]
      rfl

-- The lines of a head end where they should.
theorem lines_clean {method target : Bytes} {fields : List Field}
    (hmethod : SP ∉ method ∧ CR ∉ method) (htarget : SP ∉ target ∧ CR ∉ target)
    (hfields : ∀ field ∈ fields, COLON ∉ field.name ∧ CR ∉ field.name ∧ CR ∉ field.value) :
    ∀ line ∈ requestLine method target :: fields.map fieldLine, line ≠ [] ∧ CR ∉ line := by
  refine List.forall_mem_cons.mpr ⟨⟨by simp [requestLine], ?_⟩, ?_⟩
  · simp only [requestLine, List.mem_append, List.mem_cons, not_or]
    exact ⟨hmethod.2, by decide, htarget.2, by decide⟩
  · intro line hline
    obtain ⟨field, hfield, rfl⟩ := List.mem_map.mp hline
    obtain ⟨_, hname, hvalue⟩ := hfields field hfield
    simp only [fieldLine, List.mem_append, List.mem_cons, not_or]
    exact ⟨by simp, hname, by decide, by decide, hvalue⟩

-- What a recipient makes of a head that is sent so: the head, or nothing where it has bytes
-- that the recipient does not admit. What follows it is left.
theorem readHead_write (recipient : Bytewise) {method target : Bytes} {fields : List Field}
    (hmethod : SP ∉ method ∧ CR ∉ method) (htarget : SP ∉ target ∧ CR ∉ target)
    (hfields : ∀ field ∈ fields, COLON ∉ field.name ∧ CR ∉ field.name ∧ CR ∉ field.value)
    (rest : Bytes) :
    let head : RequestHead :=
      { method, target, version := Utf8.encode "HTTP/1.1",
        fields := fields.map fun field => { field with value := trimBlanks field.value } }
    readHead recipient (writeLines (requestLine method target :: fields.map fieldLine) ++ rest) =
      if recipient.Admits head then some (head, rest) else none := by
  intro head
  have hread : (fields.map fieldLine).mapM readField = some head.fields :=
    mapM_readField fun field hfield => (hfields field hfield).1
  rw [readHead, readLines_write (lines_clean hmethod htarget hfields)]
  show (readRequestLine (requestLine method target)).bind _ = _
  rw [readRequestLine_write hmethod.1 htarget.1]
  show ((fields.map fieldLine).mapM readField).bind _ = _
  rw [hread]
  show (if head.version = _ ∧ recipient.Admits head then some (head, rest) else none) = _
  by_cases hadmits : recipient.Admits head
  · rw [if_pos ⟨rfl, hadmits⟩, if_pos hadmits]
  · rw [if_neg (mt And.right hadmits), if_neg hadmits]

end HttpHead

end SingBox.Library
