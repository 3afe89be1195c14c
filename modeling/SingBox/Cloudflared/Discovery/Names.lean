import SingBox.Cloudflared.Discovery
import SingBox.Library.Dns

namespace SingBox.Cloudflared

open Library
open Dns (Label NameAt labelBytes labelBytes_length pointerBytes)
open Utf8 (encode)

theorem label_byte {length : Nat} (hpos : 0 < length) (hlt : length < 64) :
    UInt8.ofNat length &&& 0xc0 ≠ 0xc0 ∧ UInt8.ofNat length ≠ 0 ∧ UInt8.ofNat length ≤ 63 ∧
      (UInt8.ofNat length).toNat = length := by
  have hall : ∀ length < 64, 0 < length → UInt8.ofNat length &&& 0xc0 ≠ 0xc0 ∧
      UInt8.ofNat length ≠ 0 ∧ UInt8.ofNat length ≤ 63 ∧ (UInt8.ofNat length).toNat = length := by
    decide
  exact hall length hlt hpos

theorem pointer_byte {high : Nat} (h : high < 64) :
    UInt8.ofNat (0xc0 + high) &&& 0xc0 = 0xc0 ∧ (UInt8.ofNat (0xc0 + high) &&& 0x3f).toNat = high := by
  have hall : ∀ high < 64, UInt8.ofNat (0xc0 + high) &&& 0xc0 = 0xc0 ∧
      (UInt8.ofNat (0xc0 + high) &&& 0x3f).toNat = high := by decide
  exact hall high h

-- What a byte says that is not of a pointer, and one that is.
theorem length_byte {byte : UInt8} (hbyte : byte ≤ 63) : byte = UInt8.ofNat byte.toNat ∧ byte.toNat < 64 :=
  ⟨(UInt8.ofNat_toNat).symm, Nat.lt_succ_of_le (UInt8.le_iff_toNat_le.mp hbyte)⟩

set_option maxRecDepth 4000 in
theorem high_byte {byte : UInt8} (hbyte : byte &&& 0xc0 = 0xc0) :
    byte = UInt8.ofNat (0xc0 + (byte &&& 0x3f).toNat) ∧ (byte &&& 0x3f).toNat < 64 := by
  have hall : ∀ n < 256, UInt8.ofNat n &&& 0xc0 = 0xc0 →
      UInt8.ofNat n = UInt8.ofNat (0xc0 + (UInt8.ofNat n &&& 0x3f).toNat) ∧
        (UInt8.ofNat n &&& 0x3f).toNat < 64 := by decide
  have hn := hall byte.toNat byte.toNat_lt
  rw [UInt8.ofNat_toNat] at hn
  exact hn hbyte

theorem join_bytes {high low : Nat} (hlow : low < 256) : high <<< 8 ||| low = 256 * high + low := by
  rw [Nat.shiftLeft_eq, Nat.mul_comm, ← Nat.two_pow_add_eq_or_of_lt (i := 8) (by omega)]

theorem getElem?_of_drop {packet rest : Bytes} {position : Nat} {byte : UInt8}
    (h : packet.drop position = byte :: rest) : packet[position]? = some byte := by
  have hhead := congrArg (fun bytes : Bytes => bytes[0]?) h
  simpa using hhead

section

variable {packet : Bytes} (hpacket : packet.length < 2 ^ 63) {state : NameCursor} {rest : Bytes}
  (rounds : Nat)

include hpacket

-- The rounds, by what stands at the cursor.
theorem root_round (h : packet.drop state.cursor = 0 :: rest) :
    readNameRounds packet (rounds + 1) state =
      pure (".".intercalate state.labels, if state.jumped then state.offset else state.cursor + 1) := by
  have hlength := congrArg List.length h
  rw [List.length_drop, List.length_cons] at hlength
  have hadd : Checked.add state.cursor 1 = pure (state.cursor + 1) := Checked.add_of_lt (by omega)
  rw [readNameRounds, getElem?_of_drop h, Checked.ofOption_some, pure_bind, if_neg (by decide), hadd]
  rfl

theorem label_round {label : String} (hlabel : Label label)
    (h : packet.drop state.cursor = labelBytes label ++ rest) :
    readNameRounds packet (rounds + 1) state = readNameRounds packet rounds
      { state with cursor := state.cursor + (labelBytes label).length,
                   labels := state.labels ++ [label] } := by
  obtain ⟨hplain, hzero, hsmall, hvalue⟩ := label_byte hlabel.1 hlabel.2
  have hlength := congrArg List.length h
  rw [List.length_drop, List.length_append, labelBytes_length] at hlength
  have hone : Checked.add state.cursor 1 = pure (state.cursor + 1) := Checked.add_of_lt (by omega)
  have hlast : Checked.add (state.cursor + 1) (encode label).length =
      pure (state.cursor + 1 + (encode label).length) := Checked.add_of_lt (by omega)
  have hsplit : packet = packet.take (state.cursor + 1) ++ (encode label ++ rest) := by
    have hdrop : packet.drop (state.cursor + 1) = encode label ++ rest := by
      rw [← List.drop_drop, h]
      rfl
    rw [← hdrop, List.take_append_drop]
  have hrange : Checked.range? packet (state.cursor + 1) (state.cursor + 1 + (encode label).length) =
      some (encode label) := by
    have hmid := Checked.range?_mid (packet.take (state.cursor + 1)) (encode label) rest
    rwa [← hsplit, List.length_take, Nat.min_eq_left (by omega)] at hmid
  rw [readNameRounds, getElem?_of_drop h, Checked.ofOption_some, pure_bind, if_neg hplain, hone,
    pure_bind, if_neg hzero, decide_eq_true hsmall, Checked.ensure_true, pure_bind, hvalue, hlast,
    pure_bind, hrange, Checked.ofOption_some, pure_bind, Utf8.decode_encode, Checked.ofOption_some,
    pure_bind, labelBytes_length, Nat.add_assoc]

theorem pointer_round {target : Nat} (htarget : target < 2 ^ 14) (hin : target < packet.length)
    (h : packet.drop state.cursor = pointerBytes target ++ rest) :
    readNameRounds packet (rounds + 1) state = readNameRounds packet rounds
      { cursor := target, offset := if state.jumped then state.offset else state.cursor + 2,
        jumped := true, labels := state.labels } := by
  have hbelow : target / 256 < 64 := by omega
  obtain ⟨hmark, hhigh⟩ := pointer_byte hbelow
  have hlength := congrArg List.length h
  rw [List.length_drop, List.length_append] at hlength
  have hroom : 2 ≤ (pointerBytes target).length := Nat.le_refl 2
  have hone : Checked.add state.cursor 1 = pure (state.cursor + 1) := Checked.add_of_lt (by omega)
  have htwo : Checked.add state.cursor 2 = pure (state.cursor + 2) := Checked.add_of_lt (by omega)
  have hsecond : packet[state.cursor + 1]? = some (UInt8.ofNat target) := by
    have hdrop : packet.drop (state.cursor + 1) = UInt8.ofNat target :: rest := by
      rw [← List.drop_drop, h]
      rfl
    exact getElem?_of_drop hdrop
  have hpointer : (UInt8.ofNat (0xc0 + target / 256) &&& 0x3f).toNat <<< 8 |||
      (UInt8.ofNat target).toNat = target := by
    rw [hhigh, join_bytes (UInt8.toNat_lt _), UInt8.toNat_ofNat']
    omega
  rw [readNameRounds, getElem?_of_drop h, Checked.ofOption_some, pure_bind, if_pos hmark, hone,
    pure_bind, hsecond, Checked.ofOption_some, pure_bind]
  show (Checked.ensure (decide (_ < packet.length)) _ >>= _) = _
  rw [hpointer, decide_eq_true hin, Checked.ensure_true, pure_bind, htwo]
  cases state.jumped with
  | false => rfl
  | true => rfl

end

-- A place that no round gets past.
def Stuck (packet : Bytes) (state : NameCursor) : Prop :=
  ∃ chain, ∀ rounds, readNameRounds packet (rounds + 1) state = Checked.ofResult (.error chain)

section

variable {packet rest : Bytes} (hpacket : packet.length < 2 ^ 63) {state : NameCursor} {byte : UInt8}
  (hdrop : packet.drop state.cursor = byte :: rest)

include hpacket hdrop

theorem pointer_or_stuck (hmark : byte &&& 0xc0 = 0xc0) :
    (∃ target rest, target < 2 ^ 14 ∧ target < packet.length ∧
      packet.drop state.cursor = pointerBytes target ++ rest) ∨ Stuck packet state := by
  have hbyte := getElem?_of_drop hdrop
  have hlength := congrArg List.length hdrop
  rw [List.length_drop, List.length_cons] at hlength
  have hone : Checked.add state.cursor 1 = pure (state.cursor + 1) := Checked.add_of_lt (by omega)
  have hrest : packet.drop (state.cursor + 1) = rest := by
    rw [← List.drop_drop, hdrop]
    rfl
  obtain ⟨hhigh, hsmall⟩ := high_byte hmark
  cases rest with
  | nil =>
      have hnone : packet[state.cursor + 1]? = none := by
        rw [List.getElem?_eq_none_iff]
        exact List.drop_eq_nil_iff.mp hrest
      refine .inr ⟨["truncated DNS pointer"], fun rounds => ?_⟩
      rw [readNameRounds, hbyte, Checked.ofOption_some, pure_bind, if_pos hmark, hone, pure_bind, hnone]
      rfl
  | cons next rest =>
      have hnext : packet[state.cursor + 1]? = some next := getElem?_of_drop hrest
      have hlow := next.toNat_lt
      have hpointer : (byte &&& 0x3f).toNat <<< 8 ||| next.toNat =
          256 * (byte &&& 0x3f).toNat + next.toNat := join_bytes hlow
      by_cases hin : 256 * (byte &&& 0x3f).toNat + next.toNat < packet.length
      · refine .inl ⟨256 * (byte &&& 0x3f).toNat + next.toNat, rest, by omega, hin, ?_⟩
        have hdiv : (256 * (byte &&& 0x3f).toNat + next.toNat) / 256 = (byte &&& 0x3f).toNat := by
          omega
        have hmod : UInt8.ofNat (256 * (byte &&& 0x3f).toNat + next.toNat) = next := by
          rw [← UInt8.toNat_inj, UInt8.toNat_ofNat']
          omega
        rw [hdrop, pointerBytes, hdiv, hmod, ← hhigh]
        rfl
      · refine .inr ⟨["invalid DNS pointer"], fun rounds => ?_⟩
        rw [readNameRounds, hbyte, Checked.ofOption_some, pure_bind, if_pos hmark, hone, pure_bind,
          hnext, Checked.ofOption_some, pure_bind]
        show (Checked.ensure (decide (_ < packet.length)) _ >>= _) = _
        rw [hpointer, decide_eq_false hin]
        rfl

theorem label_or_stuck (hmark : byte &&& 0xc0 ≠ 0xc0) (hzero : byte ≠ 0) :
    (∃ label rest, Label label ∧ packet.drop state.cursor = labelBytes label ++ rest) ∨
      Stuck packet state := by
  have hbyte := getElem?_of_drop hdrop
  have hlength := congrArg List.length hdrop
  rw [List.length_drop, List.length_cons] at hlength
  have hone : Checked.add state.cursor 1 = pure (state.cursor + 1) := Checked.add_of_lt (by omega)
  have hrest : packet.drop (state.cursor + 1) = rest := by
    rw [← List.drop_drop, hdrop]
    rfl
  by_cases hsmall : byte ≤ 63
  · obtain ⟨hvalue, hlt⟩ := length_byte hsmall
    have hpos : 0 < byte.toNat := Nat.pos_of_ne_zero fun h0 => hzero (UInt8.toNat_inj.mp h0)
    have hlast : Checked.add (state.cursor + 1) byte.toNat = pure (state.cursor + 1 + byte.toNat) :=
      Checked.add_of_lt (by omega)
    cases hrange : Checked.range? packet (state.cursor + 1) (state.cursor + 1 + byte.toNat) with
    | none =>
        refine .inr ⟨["truncated DNS label"], fun rounds => ?_⟩
        rw [readNameRounds, hbyte, Checked.ofOption_some, pure_bind, if_neg hmark, hone, pure_bind,
          if_neg hzero, decide_eq_true hsmall, Checked.ensure_true, pure_bind, hlast, pure_bind, hrange]
        rfl
    | some bytes =>
        obtain ⟨-, hbytes, back, hback⟩ := Checked.range?_eq_some hrange
        cases hdecode : Utf8.decode bytes with
        | none =>
            refine .inr ⟨["invalid utf-8"], fun rounds => ?_⟩
            rw [readNameRounds, hbyte, Checked.ofOption_some, pure_bind, if_neg hmark, hone, pure_bind,
              if_neg hzero, decide_eq_true hsmall, Checked.ensure_true, pure_bind, hlast, pure_bind,
              hrange, Checked.ofOption_some, pure_bind, hdecode]
            rfl
        | some label =>
            obtain rfl := Utf8.encode_of_decode hdecode
            have hcount : (encode label).length = byte.toNat := by omega
            refine .inl ⟨label, back, ⟨by omega, by omega⟩, ?_⟩
            rw [hdrop, labelBytes, hcount, ← hvalue, List.cons_append, ← hback, hrest]
  · refine .inr ⟨["invalid DNS label length"], fun rounds => ?_⟩
    rw [readNameRounds, hbyte, Checked.ofOption_some, pure_bind, if_neg hmark, hone, pure_bind,
      if_neg hzero, decide_eq_false hsmall]
    rfl

end

-- Whatever the bytes are, a round finds one of these.
theorem round_cases {packet : Bytes} (hpacket : packet.length < 2 ^ 63) (state : NameCursor) :
    (∃ rest, packet.drop state.cursor = 0 :: rest) ∨
    (∃ label rest, Label label ∧ packet.drop state.cursor = labelBytes label ++ rest) ∨
    (∃ target rest, target < 2 ^ 14 ∧ target < packet.length ∧
      packet.drop state.cursor = pointerBytes target ++ rest) ∨
    Stuck packet state := by
  cases hdrop : packet.drop state.cursor with
  | nil =>
      have hnone : packet[state.cursor]? = none := by
        rw [List.getElem?_eq_none_iff]
        exact List.drop_eq_nil_iff.mp hdrop
      refine .inr (.inr (.inr ⟨["truncated DNS name"], fun rounds => ?_⟩))
      rw [readNameRounds, hnone]
      rfl
  | cons byte rest =>
      rw [← hdrop]
      by_cases hmark : byte &&& 0xc0 = 0xc0
      · exact .inr (.inr (pointer_or_stuck hpacket hdrop hmark))
      · by_cases hzero : byte = 0
        · exact .inl ⟨rest, by rw [hdrop, hzero]⟩
        · obtain hlabel | hstuck := label_or_stuck hpacket hdrop hmark hzero
          · exact .inr (.inl hlabel)
          · exact .inr (.inr (.inr hstuck))

-- What the rounds come to for a name, wherever they begin.
theorem readNameRounds_eq {packet : Bytes} (hpacket : packet.length < 2 ^ 63)
    {position parts last : Nat} {labels : List String} (h : NameAt packet position labels parts last) :
    ∀ (rounds : Nat) (state : NameCursor), parts < rounds → state.cursor = position →
      readNameRounds packet rounds state = pure (".".intercalate (state.labels ++ labels),
        if state.jumped then state.offset else last) := by
  induction h with
  | root hbytes =>
      intro rounds state hrounds hcursor
      obtain ⟨rounds, rfl⟩ : ∃ n, rounds = n + 1 := ⟨rounds - 1, by omega⟩
      rw [← hcursor] at hbytes ⊢
      rw [root_round hpacket rounds hbytes, List.append_nil]
  | @label position parts last label labels rest hlabel hbytes _ ih =>
      intro rounds state hrounds hcursor
      obtain ⟨rounds, rfl⟩ : ∃ n, rounds = n + 1 := ⟨rounds - 1, by omega⟩
      rw [← hcursor] at hbytes ih
      rw [label_round hpacket rounds hlabel hbytes, ih rounds _ (by omega) rfl, List.append_assoc]
      rfl
  | @pointer position target parts last labels rest htarget hbytes hrest ih =>
      intro rounds state hrounds hcursor
      obtain ⟨rounds, rfl⟩ : ∃ n, rounds = n + 1 := ⟨rounds - 1, by omega⟩
      rw [← hcursor] at hbytes
      rw [pointer_round hpacket rounds htarget hrest.position_lt hbytes, ih rounds _ (by omega) rfl,
        ← hcursor]
      rfl

theorem readDnsName_eq {packet : Bytes} (hpacket : packet.length < 2 ^ 63)
    {offset parts last : Nat} {labels : List String} (h : NameAt packet offset labels parts last)
    (hparts : parts < 128) : readDnsName packet offset = pure (".".intercalate labels, last) :=
  readNameRounds_eq hpacket h 128 _ hparts rfl

-- Nothing else is read as a name, and no round runs into a fault.
theorem readNameRounds_sound {packet : Bytes} (hpacket : packet.length < 2 ^ 63) (rounds : Nat)
    (state : NameCursor) :
    (readNameRounds packet rounds state).Faultless ∧
    ∀ result, readNameRounds packet rounds state = pure result →
      ∃ labels parts last, NameAt packet state.cursor labels parts last ∧ parts < rounds ∧
        result = (".".intercalate (state.labels ++ labels), if state.jumped then state.offset else last) := by
  induction rounds generalizing state with
  | zero =>
      refine ⟨.ofResult _, fun result hresult => ?_⟩
      cases hresult
  | succ rounds ih =>
      obtain ⟨rest, hroot⟩ | ⟨label, rest, hlabel, hbytes⟩ | ⟨target, rest, htarget, hin, hbytes⟩ |
          ⟨chain, herror⟩ := round_cases hpacket state
      · rw [root_round hpacket rounds hroot]
        refine ⟨.pure _, fun result hresult => ⟨[], 0, _, .root hroot, by omega, ?_⟩⟩
        rw [List.append_nil]
        exact (Checked.pure_inj hresult).symm
      · rw [label_round hpacket rounds hlabel hbytes]
        obtain ⟨hfaultless, hsound⟩ := ih
          { state with cursor := state.cursor + (labelBytes label).length,
                       labels := state.labels ++ [label] }
        refine ⟨hfaultless, fun result hresult => ?_⟩
        obtain ⟨labels, parts, last, hat, hparts, hvalue⟩ := hsound result hresult
        refine ⟨label :: labels, parts + 1, last, .label hlabel hbytes hat, by omega, ?_⟩
        rw [hvalue, List.append_assoc]
        rfl
      · rw [pointer_round hpacket rounds htarget hin hbytes]
        obtain ⟨hfaultless, hsound⟩ := ih
          { cursor := target, offset := if state.jumped then state.offset else state.cursor + 2,
            jumped := true, labels := state.labels }
        refine ⟨hfaultless, fun result hresult => ?_⟩
        obtain ⟨labels, parts, last, hat, hparts, hvalue⟩ := hsound result hresult
        exact ⟨labels, parts + 1, _, .pointer htarget hbytes hat, by omega, hvalue⟩
      · rw [herror rounds]
        refine ⟨.ofResult _, fun result hresult => ?_⟩
        cases hresult

theorem readDnsName_faultless {packet : Bytes} (hpacket : packet.length < 2 ^ 63) (offset : Nat) :
    (readDnsName packet offset).Faultless :=
  (readNameRounds_sound hpacket 128 { cursor := offset, offset }).1

-- A name is read exactly where one begins that is not too long.
theorem readDnsName_eq_pure {packet : Bytes} (hpacket : packet.length < 2 ^ 63) {offset last : Nat}
    {name : String} :
    readDnsName packet offset = pure (name, last) ↔
      ∃ labels parts, NameAt packet offset labels parts last ∧ parts ≤ 127 ∧
        name = ".".intercalate labels := by
  constructor
  · intro h
    obtain ⟨labels, parts, last, hat, hparts, hresult⟩ :=
      (readNameRounds_sound hpacket 128 { cursor := offset, offset }).2 _ h
    obtain ⟨rfl, rfl⟩ := Prod.mk.inj hresult
    exact ⟨labels, parts, hat, Nat.le_of_lt_succ hparts, rfl⟩
  · rintro ⟨labels, parts, hat, hparts, rfl⟩
    exact readDnsName_eq hpacket hat (Nat.lt_succ_of_le hparts)

end SingBox.Cloudflared
