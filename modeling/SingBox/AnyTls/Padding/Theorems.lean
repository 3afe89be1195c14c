import SingBox.AnyTls.Padding

namespace SingBox.AnyTls

open Library

def wire (frames : List Frame) : Bytes := frames.flatMap Frame.wire

@[simp] theorem wire_nil : wire [] = [] := rfl

@[simp] theorem wire_cons (frame : Frame) (frames : List Frame) :
    wire (frame :: frames) = frame.wire ++ wire frames := rfl

@[simp] theorem wire_append (front back : List Frame) :
    wire (front ++ back) = wire front ++ wire back := List.flatMap_append

-- Frames that fit are read back from their bytes one by one, up to the end.
theorem readFrames_wire (frames : List Frame)
    (hlen : ∀ frame ∈ frames, frame.data.length ≤ MAX_FRAME_SIZE) :
    Reader.many readFrame (wire frames) = (frames, []) :=
  Reader.many_flatMap readFrame Frame.wire frames (fun f hf => readFrame_wire f (hlen f hf))
    (fun f _ => by simp) readFrame_nil

-- What `append_waste` adds: empty frames of at most 65535 zeros.
def Waste (frames : List Frame) : Prop :=
  ∀ frame ∈ frames, ∃ length ≤ MAX_FRAME_SIZE, frame = wasteFrame length

theorem Waste.append {front back : List Frame} (hf : Waste front) (hb : Waste back) :
    Waste (front ++ back) := by
  intro frame hm
  exact (List.mem_append.mp hm).elim (hf frame) (hb frame)

theorem Waste.command {frames : List Frame} (hw : Waste frames) (frame : Frame)
    (hm : frame ∈ frames) : frame.command = CMD_WASTE := by
  obtain ⟨_, _, rfl⟩ := hw frame hm
  rfl

theorem Waste.data_length {frames : List Frame} (hw : Waste frames) (frame : Frame)
    (hm : frame ∈ frames) : frame.data.length ≤ MAX_FRAME_SIZE := by
  obtain ⟨_, hl, rfl⟩ := hw frame hm
  simpa using hl

-- The record so far is the caller's bytes and whole waste frames after them,
-- and it has not grown beyond the target.
def WasteInvariant (record : Bytes) (target : Nat) (current : Bytes) : Prop :=
  ∃ wastes, Waste wastes ∧ current = record ++ wire wastes ∧
    current.length ≤ max record.length target

theorem appendWastePass_again (record : Bytes) (target : Nat) (current next : Bytes)
    (hi : WasteInvariant record target current)
    (hp : appendWastePass target current = .again next) :
    WasteInvariant record target next := by
  rw [appendWastePass_eq] at hp
  split at hp
  · rename_i hroom
    obtain rfl := Pass.again.inj hp
    obtain ⟨wastes, hw, hc, hl⟩ := hi
    refine ⟨wastes ++ [wasteFrame (min (target - current.length - 7) MAX_FRAME_SIZE)],
      hw.append ?_, by simp [hc], ?_⟩
    · intro frame hm
      exact ⟨_, Nat.min_le_right _ _, List.mem_singleton.mp hm⟩
    · simp only [List.length_append, wire_length, wasteFrame_data_length]
      omega
  · cases hp

-- The record is kept, filled with whole waste frames to within six bytes of
-- the target and never past it.
theorem appendWaste_spec (record : Bytes) (target : Nat) :
    ∃ wastes, Waste wastes ∧ appendWaste record target = .ok (record ++ wire wastes) ∧
      (record ++ wire wastes).length ≤ max record.length target ∧
      target < (record ++ wire wastes).length + 7 := by
  have h := Loop.run_rule (WasteInvariant record target)
    (fun result => ∃ final, result = .ok final ∧ WasteInvariant record target final ∧
      target < final.length + 7)
    (appendWastePass_decreases target) (appendWastePass_again record target) (by
      intro current result hi hp
      rw [appendWastePass_eq] at hp
      split at hp
      · cases hp
      · exact ⟨current, (Pass.done.inj hp).symm, hi, by omega⟩)
    record ⟨[], by simp [Waste], by simp, Nat.le_max_left _ _⟩
  obtain ⟨_, he, ⟨wastes, hw, rfl, hl⟩, ht⟩ := h
  exact ⟨wastes, hw, he, hl, ht⟩

theorem appendWaste_full (record : Bytes) (target : Nat) (h : target ≤ record.length) :
    appendWaste record target = .ok record := by
  apply Loop.run_done
  rw [appendWastePass_eq, if_neg (by omega)]

-- From `offset` on the records hold the rest of the packet and then nothing
-- but whole waste frames: waste begins only where the packet has ended.
theorem writeInstructions_spec (packet : Bytes) (random : Nat → Option UInt64)
    (instructions : List PaddingInstruction) (offset : Nat) (ho : offset ≤ packet.length) :
    ∃ records wastes, Waste wastes ∧
      writeInstructions packet random instructions offset = .ok records ∧
      records.flatten = packet.drop offset ++ wire wastes := by
  induction instructions generalizing random offset with
  | nil =>
      by_cases hlt : offset < packet.length
      · exact ⟨[packet.drop offset], [], by simp [Waste], by simp [writeInstructions, hlt], by simp⟩
      · exact ⟨[], [], by simp [Waste], by simp [writeInstructions, hlt],
          by simp [List.drop_of_length_le (Nat.not_lt.mp hlt)]⟩
  | cons instruction rest ih =>
      cases instruction with
      | check =>
          by_cases he : offset = packet.length
          · exact ⟨[], [], by simp [Waste], by simp [writeInstructions, he], by simp [he]⟩
          · simpa only [writeInstructions, he, if_false] using ih _ offset ho
      | range low high =>
          simp only [writeInstructions]
          generalize randomRange (random 0) low high = target
          obtain ⟨take, htake⟩ : ∃ take, take = min (packet.length - offset) target := ⟨_, rfl⟩
          rw [← htake]
          obtain ⟨records, wastes, hw, hr, hf⟩ := ih (fun n => random (n + 1)) (offset + take)
            (by omega)
          -- the packet's share of this record is cut short either by the target,
          -- so no waste follows it, or by the packet's end
          by_cases hshort : target ≤ packet.length - offset
          · have hfull := appendWaste_full ((packet.drop offset).take take) target
              (by simp only [List.length_take, List.length_drop]; omega)
            refine ⟨(packet.drop offset).take take :: records, wastes, hw, ?_, ?_⟩
            · rw [hfull, hr]
              rfl
            · rw [List.flatten_cons, hf, ← List.append_assoc, ← List.drop_drop,
                List.take_append_drop]
          · obtain ⟨filler, hfw, hfull, -, -⟩ :=
              appendWaste_spec ((packet.drop offset).take take) target
            refine ⟨((packet.drop offset).take take ++ wire filler) :: records, filler ++ wastes,
              hfw.append hw, ?_, ?_⟩
            · rw [hfull, hr]
              rfl
            · have hend : packet.drop (offset + take) = [] :=
                List.drop_of_length_le (by omega)
              have hall : (packet.drop offset).take take = packet.drop offset :=
                List.take_of_length_le (by simp only [List.length_drop]; omega)
              simp only [List.flatten_cons, hf, hend, hall, wire_append, List.nil_append,
                List.append_assoc]

theorem writePaddedFrame_spec (frame : Frame) (scheme : PaddingScheme)
    (random : Nat → Option UInt64) (packetIndex : Nat)
    (hlen : frame.data.length ≤ MAX_FRAME_SIZE) :
    ∃ records wastes, Waste wastes ∧
      writePaddedFrame frame scheme random packetIndex =
        .ok (records, (packetIndex + 1) % 2 ^ 64) ∧
      records.flatten = wire (frame :: wastes) := by
  have hp := encodeFrame_ok [] frame hlen
  rw [List.nil_append] at hp
  simp only [writePaddedFrame, hp]
  cases hi : if packetIndex < scheme.stop then scheme.rules packetIndex else none with
  | none => exact ⟨[frame.wire], [], by simp [Waste], rfl, by simp⟩
  | some instructions =>
      obtain ⟨records, wastes, hw, hr, hf⟩ :=
        writeInstructions_spec frame.wire random instructions 0 (Nat.zero_le _)
      refine ⟨records, wastes, hw, ?_, by simpa using hf⟩
      change (do
        let records ← writeInstructions frame.wire random instructions 0
        return (records, (packetIndex + 1) % 2 ^ 64)) = _
      rw [hr]
      rfl

-- The second list is the first one with waste frames put between its frames.
inductive WasteInserted : List Frame → List Frame → Prop
  | nil : WasteInserted [] []
  | frame (frame : Frame) {sent received : List Frame} :
      WasteInserted sent received → WasteInserted (frame :: sent) (frame :: received)
  | waste (frame : Frame) {sent received : List Frame} :
      frame.command = CMD_WASTE → WasteInserted sent received →
        WasteInserted sent (frame :: received)

theorem WasteInserted.append_waste {sent received : List Frame} (wastes : List Frame)
    (hw : Waste wastes) (hi : WasteInserted sent received) :
    WasteInserted sent (wastes ++ received) := by
  induction wastes with
  | nil => exact hi
  | cons frame rest ih =>
      exact .waste frame (hw.command frame (by simp)) (ih fun f hf => hw f (by simp [hf]))

theorem writePaddedFrames_spec (writes : List PaddedWrite) (packetIndex : Nat)
    (hlen : ∀ write ∈ writes, write.frame.data.length ≤ MAX_FRAME_SIZE) :
    ∃ records nextIndex frames,
      writePaddedFrames writes packetIndex = .ok (records, nextIndex) ∧
      records.flatten = wire frames ∧ WasteInserted (writes.map PaddedWrite.frame) frames ∧
      ∀ frame ∈ frames, frame.data.length ≤ MAX_FRAME_SIZE := by
  induction writes generalizing packetIndex with
  | nil => exact ⟨[], packetIndex, [], rfl, rfl, .nil, by simp⟩
  | cons write rest ih =>
      obtain ⟨records, wastes, hw, hr, hf⟩ := writePaddedFrame_spec write.frame write.scheme
        write.random packetIndex (hlen write (by simp))
      obtain ⟨more, nextIndex, frames, hm, hfm, hi, hl⟩ :=
        ih ((packetIndex + 1) % 2 ^ 64) (fun w hwm => hlen w (by simp [hwm]))
      refine ⟨records ++ more, nextIndex, write.frame :: (wastes ++ frames), ?_, ?_,
        .frame write.frame (hi.append_waste wastes hw), ?_⟩
      · simp only [writePaddedFrames, hr, Bind.bind, Except.bind, hm]
        rfl
      · simp [hf, hfm]
      · intro frame hm
        rcases List.mem_cons.mp hm with rfl | hm
        · exact hlen write (by simp)
        · exact (List.mem_append.mp hm).elim (hw.data_length frame) (hl frame)

-- Whatever the schemes and the draws are, a peer reads back the frames that
-- were written, with whole waste frames between them and no byte left over.
theorem padding_transparent (writes : List PaddedWrite) (packetIndex : Nat)
    (hlen : ∀ write ∈ writes, write.frame.data.length ≤ MAX_FRAME_SIZE) :
    ∃ records nextIndex frames,
      writePaddedFrames writes packetIndex = .ok (records, nextIndex) ∧
      Reader.many readFrame records.flatten = (frames, []) ∧
      WasteInserted (writes.map PaddedWrite.frame) frames := by
  obtain ⟨records, nextIndex, frames, hr, hf, hi, hl⟩ :=
    writePaddedFrames_spec writes packetIndex hlen
  exact ⟨records, nextIndex, frames, hr, by rw [hf, readFrames_wire frames hl], hi⟩

theorem padding_transparent_split_frame :
    ∃ records nextIndex frames,
      writePaddedFrames [⟨⟨CMD_PSH, 1, List.replicate 40 7⟩,
        ⟨8, fun _ => some [.range 10 10, .check, .range 60 90], ""⟩, fun _ => some 5⟩] 1 =
          .ok (records, nextIndex) ∧
      Reader.many readFrame records.flatten = (frames, []) ∧
      WasteInserted [⟨CMD_PSH, 1, List.replicate 40 7⟩] frames :=
  padding_transparent _ 1 (by decide)

-- The sizes that are drawn for the range instructions, in order.
def drawnTargets : (random : Nat → Option UInt64) → List PaddingInstruction → List Nat
  | _, [] => []
  | random, .check :: rest => drawnTargets (fun n => random (n + 1)) rest
  | random, .range low high :: rest =>
      randomRange (random 0) low high :: drawnTargets (fun n => random (n + 1)) rest

-- A record of a size that has been drawn, as near as whole frames come to it.
def Near (record : Bytes) (target : Nat) : Prop :=
  max 0 (target - 6) ≤ record.length ∧ record.length ≤ target

-- The records of the range instructions up to a check that ends them, or else of all of them and
-- then what is left of the packet.
def Drawn (random : Nat → Option UInt64) (instructions : List PaddingInstruction)
    (records : List Bytes) : Prop :=
  ∃ ranged targets rest, records = ranged ++ rest ∧ targets <+: drawnTargets random instructions ∧
    List.Forall₂ Near ranged targets ∧
    (rest = [] ∨ targets = drawnTargets random instructions ∧ ∃ left, rest = [left])

theorem appendWaste_length (record : Bytes) (target : Nat) :
    ∃ wastes, Waste wastes ∧ appendWaste record target = .ok (record ++ wire wastes) ∧
      (record.length ≤ target → max record.length (target - 6) ≤ (record ++ wire wastes).length ∧
        (record ++ wire wastes).length ≤ target) ∧
      (target < record.length → wastes = []) := by
  by_cases hroom : record.length ≤ target
  · obtain ⟨wastes, hwaste, happend, hmost, hleast⟩ := appendWaste_spec record target
    refine ⟨wastes, hwaste, happend, fun _ => ⟨?_, by omega⟩, fun hover => by omega⟩
    have hkept : record.length ≤ (record ++ wire wastes).length := by
      rw [List.length_append]
      exact Nat.le_add_right _ _
    omega
  · refine ⟨[], fun frame hmem => absurd hmem List.not_mem_nil, ?_, fun h => absurd h hroom, fun _ => rfl⟩
    rw [appendWaste_full record target (by omega), wire_nil, List.append_nil]

-- The loop ends, within as many passes as there are bytes to fill.
theorem appendWaste_terminates (record : Bytes) (target : Nat) :
    Loop.runFor (appendWastePass target) (target - record.length + 1) record =
      some (appendWaste record target) :=
  Loop.runFor_eq_run (appendWastePass_decreases target) _ record (Nat.lt_succ_self _)

theorem appendWaste_near {record full : Bytes} {target : Nat} (h : record.length ≤ target)
    (hfull : appendWaste record target = .ok full) : Near full target := by
  obtain ⟨wastes, -, happend, hnear, -⟩ := appendWaste_length record target
  obtain rfl := Except.ok.inj (hfull.symm.trans happend)
  obtain ⟨hleast, hmost⟩ := hnear h
  exact ⟨by omega, hmost⟩

theorem writeInstructions_drawn (packet : Bytes) (random : Nat → Option UInt64)
    (instructions : List PaddingInstruction) (offset : Nat) (records : List Bytes)
    (h : writeInstructions packet random instructions offset = .ok records) :
    Drawn random instructions records := by
  induction instructions generalizing random offset records with
  | nil =>
      rw [writeInstructions] at h
      split at h
      · obtain rfl := Except.ok.inj h
        exact ⟨[], [], _, rfl, List.nil_prefix, .nil, .inr ⟨rfl, _, rfl⟩⟩
      · obtain rfl := Except.ok.inj h
        exact ⟨[], [], [], rfl, List.nil_prefix, .nil, .inl rfl⟩
  | cons instruction rest ih =>
      cases instruction with
      | check =>
          rw [writeInstructions] at h
          split at h
          · obtain rfl := Except.ok.inj h
            exact ⟨[], [], [], rfl, List.nil_prefix, .nil, .inl rfl⟩
          · exact ih _ offset records h
      | range low high =>
          rw [writeInstructions] at h
          have htake : ((packet.drop offset).take
              (min (packet.length - offset) (randomRange (random 0) low high))).length ≤
                randomRange (random 0) low high := by
            rw [List.length_take]
            omega
          obtain ⟨wastes, -, happend, -⟩ := appendWaste_length ((packet.drop offset).take
            (min (packet.length - offset) (randomRange (random 0) low high)))
            (randomRange (random 0) low high)
          have hnear := appendWaste_near htake happend
          simp only [happend] at h
          cases hmore : writeInstructions packet (fun n => random (n + 1)) rest
              (offset + min (packet.length - offset) (randomRange (random 0) low high)) with
          | error error =>
              simp only [hmore] at h
              cases h
          | ok more =>
              simp only [hmore] at h
              obtain rfl := Except.ok.inj h
              obtain ⟨ranged, targets, last, hsplit, hdrawn, hall, hlast⟩ := ih _ _ more hmore
              rw [hsplit]
              refine ⟨_ :: ranged, randomRange (random 0) low high :: targets, last, rfl,
                List.cons_prefix_cons.mpr ⟨rfl, hdrawn⟩, .cons hnear hall, ?_⟩
              exact hlast.imp_right fun hend => ⟨congrArg _ hend.1, hend.2⟩

-- How the records are filled: each of them up to its target, by complete frames.
theorem appendWaste_fills :
    (∀ record target,
      Loop.runFor (appendWastePass target) (target - record.length + 1) record =
        some (appendWaste record target) ∧
      ∃ wastes, Waste wastes ∧ appendWaste record target = .ok (record ++ wire wastes) ∧
        Reader.many readFrame (wire wastes) = (wastes, []) ∧
        (record.length ≤ target → max record.length (target - 6) ≤ (record ++ wire wastes).length ∧
          (record ++ wire wastes).length ≤ target) ∧
        (target < record.length → wastes = [])) ∧
    ∀ frame scheme random packetIndex instructions records nextIndex,
      packetIndex < scheme.stop → scheme.rules packetIndex = some instructions →
      writePaddedFrame frame scheme random packetIndex = .ok (records, nextIndex) →
      Drawn random instructions records := by
  refine ⟨fun record target => ⟨appendWaste_terminates record target, ?_⟩, ?_⟩
  · obtain ⟨wastes, hwaste, happend, hfilled, hover⟩ := appendWaste_length record target
    exact ⟨wastes, hwaste, happend, readFrames_wire wastes hwaste.data_length, hfilled, hover⟩
  · intro frame scheme random packetIndex instructions records nextIndex hindex hrule hwrite
    rw [writePaddedFrame, if_pos hindex, hrule] at hwrite
    cases hpacket : encodeFrame [] frame with
    | error error =>
        rw [hpacket] at hwrite
        cases hwrite
    | ok packet =>
        rw [hpacket] at hwrite
        cases hrecords : writeInstructions packet random instructions 0 with
        | error error =>
            change (writeInstructions packet random instructions 0 >>= _) = _ at hwrite
            rw [hrecords] at hwrite
            cases hwrite
        | ok written =>
            change (writeInstructions packet random instructions 0 >>= _) = _ at hwrite
            rw [hrecords] at hwrite
            obtain rfl : written = records := congrArg Prod.fst (Except.ok.inj hwrite)
            exact writeInstructions_drawn packet random instructions 0 written hrecords

end SingBox.AnyTls
