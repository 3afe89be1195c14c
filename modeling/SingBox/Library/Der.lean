import SingBox.Library.Reader

namespace SingBox.Library.Der

-- Values behind their tag and their length, as a strict reader of the distinguished encoding finds
-- them. The bit of 32 in a tag says that the content is values again.
inductive Value where
  | primitive (tag : UInt8) (content : Bytes)
  | constructed (tag : UInt8) (parts : List Value)

def isConstructed (tag : UInt8) : Bool := tag &&& 32 ≠ 0

-- A length, and what is behind it. A long one is in no more bytes than it needs.
def readLength : Bytes → Option (Nat × Bytes)
  | [] => none
  | first :: rest =>
      if first.toNat < 128 then some (first.toNat, rest)
      else
        let body := rest.take (first.toNat - 128)
        if body.length = first.toNat - 128 ∧ body.head? ≠ some 0 ∧ 128 ≤ ofBe body then
          some (ofBe body, rest.drop (first.toNat - 128))
        else none

-- The first value: its tag, its content and what is behind it.
def split : Bytes → Option (UInt8 × Bytes × Bytes)
  | [] => none
  | tag :: rest => do
      let (length, rest) ← readLength rest
      if length ≤ rest.length then some (tag, rest.take length, rest.drop length) else none

section

variable {bytes content rest more : Bytes} {tag : UInt8} {length : Nat}

theorem readLength_eq_some {first : UInt8} {others : Bytes} :
    readLength (first :: others) = some (length, rest) ↔
      (first.toNat < 128 ∧ length = first.toNat ∧ rest = others) ∨
      ∃ body, others = body ++ rest ∧ first.toNat = 128 + body.length ∧ body.head? ≠ some 0 ∧
        128 ≤ ofBe body ∧ length = ofBe body := by
  rw [readLength]
  by_cases hshort : first.toNat < 128
  · rw [if_pos hshort]
    constructor
    · intro h
      obtain ⟨rfl, rfl⟩ := Prod.mk.inj (Option.some.inj h)
      exact .inl ⟨hshort, rfl, rfl⟩
    · rintro (⟨-, rfl, rfl⟩ | ⟨body, -, hlong, -⟩)
      · rfl
      · omega
  · rw [if_neg hshort]
    constructor
    · intro h
      simp only at h
      split at h
      · next hbody =>
          obtain ⟨rfl, rfl⟩ := Prod.mk.inj (Option.some.inj h)
          exact .inr ⟨_, (List.take_append_drop _ _).symm, by omega, hbody.2.1, hbody.2.2, rfl⟩
      · cases h
    · rintro (⟨hfirst, -⟩ | ⟨body, rfl, hlong, hhead, hlarge, rfl⟩)
      · exact absurd hfirst hshort
      · have hcount : first.toNat - 128 = body.length := by omega
        rw [hcount, List.take_left, List.drop_left]
        exact if_pos ⟨rfl, hhead, hlarge⟩

theorem readLength_shorter (h : readLength bytes = some (length, rest)) : rest.length < bytes.length := by
  cases bytes with
  | nil => cases h
  | cons first others =>
      obtain ⟨-, -, rfl⟩ | ⟨body, rfl, -⟩ := readLength_eq_some.mp h
      · exact Nat.lt_succ_self _
      · rw [List.length_cons, List.length_append]
        omega

theorem readLength_append (h : readLength bytes = some (length, rest)) (more : Bytes) :
    readLength (bytes ++ more) = some (length, rest ++ more) := by
  cases bytes with
  | nil => cases h
  | cons first others =>
      refine readLength_eq_some.mpr ?_
      obtain ⟨hshort, rfl, rfl⟩ | ⟨body, rfl, hbody⟩ := readLength_eq_some.mp h
      · exact .inl ⟨hshort, rfl, rfl⟩
      · exact .inr ⟨body, List.append_assoc body rest more, hbody⟩

theorem split_shorter (h : split bytes = some (tag, content, rest)) :
    content.length < bytes.length ∧ rest.length < bytes.length := by
  cases bytes with
  | nil => cases h
  | cons first others =>
      obtain ⟨⟨count, behind⟩, hlength, h⟩ := Option.bind_eq_some_iff.mp h
      simp only at h
      split at h
      · have hshort := readLength_shorter hlength
        simp only [Option.some.injEq, Prod.mk.injEq] at h
        obtain ⟨-, rfl, rfl⟩ := h
        rw [List.length_take, List.length_drop, List.length_cons]
        omega
      · cases h

theorem split_append (h : split bytes = some (tag, content, rest)) (more : Bytes) :
    split (bytes ++ more) = some (tag, content, rest ++ more) := by
  cases bytes with
  | nil => cases h
  | cons first others =>
      obtain ⟨⟨count, behind⟩, hlength, h⟩ := Option.bind_eq_some_iff.mp h
      simp only at h
      split at h
      · next hroom =>
          simp only [Option.some.injEq, Prod.mk.injEq] at h
          obtain ⟨rfl, rfl, rfl⟩ := h
          rw [List.cons_append, split, readLength_append hlength]
          show (if count ≤ (behind ++ more).length then _ else none) = _
          rw [if_pos (by rw [List.length_append]; omega), List.take_append_of_le_length hroom,
            List.drop_append_of_le_length hroom]
      · cases h

end

-- All that the bytes are.
def values (bytes : Bytes) : Option (List Value) :=
  if bytes = [] then some []
  else
    match h : split bytes with
    | none => none
    | some (tag, content, rest) =>
        have := split_shorter h
        if isConstructed tag then do
          let parts ← values content
          return .constructed tag parts :: (← values rest)
        else (values rest).map (.primitive tag content :: ·)
termination_by bytes.length

section

variable {bytes content rest more : Bytes} {tag : UInt8} {found others : List Value}

theorem values_nil : values [] = some [] := by rw [values, if_pos rfl]

theorem values_split (h : split bytes = some (tag, content, rest)) :
    values bytes = if isConstructed tag then (values content).bind fun parts =>
        (values rest).map (.constructed tag parts :: ·)
      else (values rest).map (.primitive tag content :: ·) := by
  have hne : bytes ≠ [] := by
    rintro rfl
    cases h
  rw [values, if_neg hne]
  split
  · next hnone =>
      rw [h] at hnone
      cases hnone
  · next hsome =>
      obtain ⟨rfl, rfl, rfl⟩ : _ ∧ _ ∧ _ := by simpa using h.symm.trans hsome
      by_cases hconstructed : isConstructed tag
      · rw [if_pos hconstructed, if_pos hconstructed]
        cases values rest <;> rfl
      · rw [if_neg hconstructed, if_neg hconstructed]

-- One value after the other.
theorem values_append (hfound : values bytes = some found) (hothers : values more = some others) :
    values (bytes ++ more) = some (found ++ others) := by
  induction hn : bytes.length using Nat.strong_induction_on generalizing bytes found with
  | _ n ih =>
      by_cases hempty : bytes = []
      · subst hempty
        obtain rfl := Option.some.inj (values_nil.symm.trans hfound)
        exact hothers
      cases hsplit : split bytes with
      | none =>
          rw [values, if_neg hempty] at hfound
          split at hfound
          · cases hfound
          · next hsome =>
              rw [hsplit] at hsome
              cases hsome
      | some header =>
          obtain ⟨tag, content, rest⟩ := header
          have hshort := (split_shorter hsplit).2
          rw [values_split hsplit] at hfound
          rw [values_split (split_append hsplit more)]
          by_cases hconstructed : isConstructed tag
          · rw [if_pos hconstructed] at hfound ⊢
            obtain ⟨parts, hparts, hrest⟩ := Option.bind_eq_some_iff.mp hfound
            obtain ⟨left, hleft, rfl⟩ := Option.map_eq_some_iff.mp hrest
            rw [hparts, Option.bind_some, ih rest.length (by omega) hleft rfl]
            rfl
          · rw [if_neg hconstructed] at hfound ⊢
            obtain ⟨left, hleft, rfl⟩ := Option.map_eq_some_iff.mp hfound
            rw [ih rest.length (by omega) hleft rfl]
            rfl

-- What is written with a length that is read as that of the content.
theorem split_tag {lengthBytes : Bytes}
    (h : readLength lengthBytes = some (content.length, [])) :
    split (tag :: (lengthBytes ++ content)) = some (tag, content, []) := by
  rw [split, readLength_append h content]
  show (if content.length ≤ ([] ++ content).length then _ else none) = _
  rw [List.nil_append, if_pos (Nat.le_refl _), List.take_length, List.drop_length]

theorem values_primitive {lengthBytes : Bytes} (htag : isConstructed tag = false)
    (h : readLength lengthBytes = some (content.length, [])) :
    values (tag :: (lengthBytes ++ content)) = some [.primitive tag content] := by
  rw [values_split (split_tag h), if_neg (by rw [htag]; exact Bool.false_ne_true), values_nil]
  rfl

theorem values_constructed {lengthBytes : Bytes} (htag : isConstructed tag = true)
    (h : readLength lengthBytes = some (content.length, [])) (hfound : values content = some found) :
    values (tag :: (lengthBytes ++ content)) = some [.constructed tag found] := by
  rw [values_split (split_tag h), if_pos htag, hfound, values_nil]
  rfl

end

-- Writing, with whatever writes the lengths.
section

variable (lengthOf : Nat → Bytes)

mutual

def encode : Value → Bytes
  | .primitive tag content => tag :: (lengthOf content.length ++ content)
  | .constructed tag parts => tag :: (lengthOf (encodeAll parts).length ++ encodeAll parts)

def encodeAll : List Value → Bytes
  | [] => []
  | value :: rest => encode value ++ encodeAll rest

end

mutual

-- The tag says what there is.
def Value.tagged : Value → Bool
  | .primitive tag _ => !isConstructed tag
  | .constructed tag parts => isConstructed tag && allTagged parts

def allTagged : List Value → Bool
  | [] => true
  | value :: rest => value.tagged && allTagged rest

end

mutual

-- Room for what is written, if there is room of ten for a tag and a length.
def Value.room : Value → Nat
  | .primitive _ content => content.length + 10
  | .constructed _ parts => allRoom parts + 10

def allRoom : List Value → Nat
  | [] => 0
  | value :: rest => value.room + allRoom rest

end

variable {lengthOf}

mutual

theorem encode_length (hroom : ∀ n, (lengthOf n).length ≤ 9) :
    (value : Value) → (encode lengthOf value).length ≤ value.room
  | .primitive tag content => by
      have hlength := hroom content.length
      rw [encode, Value.room, List.length_cons, List.length_append]
      omega
  | .constructed tag parts => by
      have hlength := hroom (encodeAll lengthOf parts).length
      have hparts := encodeAll_length hroom parts
      rw [encode, Value.room, List.length_cons, List.length_append]
      omega

theorem encodeAll_length (hroom : ∀ n, (lengthOf n).length ≤ 9) :
    (found : List Value) → (encodeAll lengthOf found).length ≤ allRoom found
  | [] => Nat.le_refl _
  | value :: rest => by
      have hvalue := encode_length hroom value
      have hrest := encodeAll_length hroom rest
      rw [encodeAll, allRoom, List.length_append]
      omega

end

mutual

-- What is written is read back.
theorem values_encode {bound : Nat} (hread : ∀ n < bound, readLength (lengthOf n) = some (n, [])) :
    (value : Value) → value.tagged = true → (encode lengthOf value).length < bound →
      values (encode lengthOf value) = some [value]
  | .primitive tag content, htagged, hbound => by
      rw [encode, List.length_cons, List.length_append] at hbound
      rw [Value.tagged, Bool.not_eq_true'] at htagged
      rw [encode]
      exact values_primitive htagged (hread _ (by omega))
  | .constructed tag parts, htagged, hbound => by
      rw [encode, List.length_cons, List.length_append] at hbound
      rw [Value.tagged, Bool.and_eq_true] at htagged
      rw [encode]
      exact values_constructed htagged.1 (hread _ (by omega))
        (values_encodeAll hread parts htagged.2 (by omega))

theorem values_encodeAll {bound : Nat} (hread : ∀ n < bound, readLength (lengthOf n) = some (n, [])) :
    (found : List Value) → allTagged found = true → (encodeAll lengthOf found).length < bound →
      values (encodeAll lengthOf found) = some found
  | [], _, _ => values_nil
  | value :: rest, htagged, hbound => by
      rw [encodeAll, List.length_append] at hbound
      rw [allTagged, Bool.and_eq_true] at htagged
      rw [encodeAll]
      exact values_append (values_encode hread value htagged.1 (by omega))
        (values_encodeAll hread rest htagged.2 (by omega))

end

end

end SingBox.Library.Der
