import SingBox.Cloudflared.Discovery.Names
import SingBox.Library.StableSort

namespace SingBox.Cloudflared

open Library
open Checked (Faultless)
open Dns (Label Name NameAt Part Reaches Written)

structure Question where
  name : Name
  -- Its type and its class.
  kind : Bytes
  kind_length : kind.length = 4

def Question.parts (this : Question) : List Part := [.name this.name, .raw this.kind]

-- What a record says. Other records may have names in them, too.
inductive RecordData where
  | srv (priority weight port : UInt16) (target : Name)
  | other (recordType recordClass : UInt16) (parts : List Part)
    (notSrv : ¬(recordType = DNS_TYPE_SRV ∧ recordClass = 1))

namespace RecordData

def recordType : RecordData → UInt16
  | srv .. => DNS_TYPE_SRV
  | other recordType .. => recordType

def recordClass : RecordData → UInt16
  | srv .. => 1
  | other _ recordClass .. => recordClass

def parts : RecordData → List Part
  | srv priority weight port target =>
      [.raw (toBe 2 priority.toNat ++ (toBe 2 weight.toNat ++ toBe 2 port.toNat)), .name target]
  | other _ _ parts _ => parts

def length (this : RecordData) : Nat := (this.parts.flatMap Part.bytes).length

end RecordData

structure Record where
  name : Name
  ttl : UInt32
  data : RecordData

namespace Record

def header (this : Record) : Bytes :=
  toBe 2 this.data.recordType.toNat ++ (toBe 2 this.data.recordClass.toNat ++
    (toBe 4 this.ttl.toNat ++ toBe 2 this.data.length))

-- In front of the data.
def opening (this : Record) : List Part := [.name this.name, .raw this.header]

def parts (this : Record) : List Part := this.opening ++ this.data.parts

-- The record that is asked for, with its name in full.
def srv (this : Record) (written : Written) : Option SrvRecord :=
  match this.data with
  | .srv priority weight port target =>
      some { priority, weight, port,
             target := ".".intercalate (target.full (written.parts this.opening).known) }
  | .other .. => none

end Record

def srvRecords : Written → List Record → List SrvRecord
  | _, [] => []
  | written, record :: records =>
      (record.srv written).toList ++ srvRecords (written.parts record.parts) records

-- `more` are the sections behind the answers, which `authorities` and `additionals` count.
structure Message where
  id : UInt16
  flags : UInt16
  questions : List Question
  answers : List Record
  authorities : UInt16
  additionals : UInt16
  more : Bytes

namespace Message

variable (this : Message)

def header : Bytes :=
  toBe 2 this.id.toNat ++ (toBe 2 this.flags.toNat ++ (toBe 2 this.questions.length ++
    (toBe 2 this.answers.length ++ (toBe 2 this.authorities.toNat ++ toBe 2 this.additionals.toNat))))

def asked : List Part := this.questions.flatMap Question.parts

def answered : List Part := this.answers.flatMap Record.parts

def bytes : Bytes :=
  this.header ++ (this.asked.flatMap Part.bytes ++ (this.answered.flatMap Part.bytes ++ this.more))

-- The IN SRV records among the answers, as they come.
def records : List SrvRecord := srvRecords (Written.parts ⟨12, []⟩ this.asked) this.answers

-- A response without an error, with names that are not too long.
structure WellFormed : Prop where
  response : this.flags &&& 0x8000 ≠ 0
  noError : this.flags &&& 0x000f = 0
  questions : this.questions.length < 2 ^ 16
  answers : this.answers.length < 2 ^ 16
  data : ∀ record ∈ this.answers, record.data.length < 2 ^ 16
  names : Written.Fits 127 ⟨12, []⟩ (this.asked ++ this.answered)
  size : this.bytes.length < 2 ^ 63

end Message

section

variable {bytes rest : Bytes} {offset : Nat}

theorem byte_at {byte : UInt8} (h : bytes.drop offset = byte :: rest) :
    Checked.byte bytes offset = pure byte := by
  rw [Checked.byte, getElem?_of_drop h]

theorem wordAt_eq {word : Nat} (hword : word < 2 ^ 16) (h : bytes.drop offset = toBe 2 word ++ rest) :
    wordAt bytes offset (offset + 1) = pure (UInt16.ofNat word) := by
  have hbytes : toBe 2 word ++ rest = UInt8.ofNat (word / 256) :: UInt8.ofNat word :: rest := rfl
  have hvalue := ofBe_toBe 2 word hword
  rw [hbytes] at h
  have hsecond : bytes.drop (offset + 1) = UInt8.ofNat word :: rest := by
    rw [← List.drop_drop, h]
    rfl
  rw [wordAt, byte_at h, byte_at hsecond]
  exact congrArg (fun value => (pure (UInt16.ofNat value) : Checked UInt16)) hvalue

theorem wordAt_word {word : UInt16} (h : bytes.drop offset = toBe 2 word.toNat ++ rest) :
    wordAt bytes offset (offset + 1) = pure word := by
  rw [wordAt_eq word.toNat_lt h, UInt16.ofNat_toNat]

theorem take_eq {value : Bytes} (hbytes : bytes.length < 2 ^ 63)
    (h : bytes.drop offset = value ++ rest) (hne : value ≠ []) :
    take bytes offset value.length = pure (value, offset + value.length) := by
  have hlength := congrArg List.length h
  rw [List.length_drop, List.length_append] at hlength
  have hpos := List.length_pos_iff.mpr hne
  have hadd : checkedAdd offset value.length = some (offset + value.length) :=
    if_pos (by omega)
  have hrange : Checked.range? bytes offset (offset + value.length) = some value := by
    have hmid := Checked.range?_mid (bytes.take offset) value rest
    rwa [← h, List.take_append_drop, List.length_take, Nat.min_eq_left (by omega)] at hmid
  rw [take, hadd, Checked.ofOption_some, pure_bind, hrange]
  rfl

end

section

variable {packet back : Bytes} (hpacket : packet.length < 2 ^ 63) {written : Written}

include hpacket

-- A name is read where it is written, and left behind.
theorem readDnsName_reaches {name : Name} (h : Reaches packet written (name.bytes ++ back))
    (hfits : name.Fits written.known 127) :
    readDnsName packet written.position =
        pure (".".intercalate (name.full written.known), (written.part (.name name)).position) ∧
      Reaches packet (written.part (.name name)) back := by
  obtain ⟨⟨count, hcount, hat⟩, hnext⟩ := h.step_name hfits
  exact ⟨readDnsName_eq hpacket hat (by omega), hnext⟩

theorem take_reaches {value : Bytes} (h : Reaches packet written (value ++ back)) (hne : value ≠ []) :
    take packet written.position value.length = pure (value, (written.part (.raw value)).position) ∧
      Reaches packet (written.part (.raw value)) back :=
  ⟨take_eq hpacket h.bytes hne, h.step_raw⟩

theorem skipQuestions_eq {questions : List Question}
    (h : Reaches packet written ((questions.flatMap Question.parts).flatMap Part.bytes ++ back))
    (hfits : written.Fits 127 (questions.flatMap Question.parts)) :
    skipQuestions packet questions.length written.position =
      pure (written.parts (questions.flatMap Question.parts)).position := by
  induction questions generalizing written with
  | nil => rfl
  | cons question questions ih =>
      have hbytes : ((question :: questions).flatMap Question.parts).flatMap Part.bytes ++ back =
          question.name.bytes ++ (question.kind ++
            ((questions.flatMap Question.parts).flatMap Part.bytes ++ back)) := by
        simp [Question.parts, Part.bytes]
      rw [hbytes] at h
      obtain ⟨hname, hrest⟩ := hfits
      obtain ⟨hread, hnamed⟩ := readDnsName_reaches hpacket h hname
      have hkind : question.kind ≠ [] := by
        have hlength := question.kind_length
        rintro hnil
        simp [hnil] at hlength
      obtain ⟨htake, hnext⟩ := take_reaches hpacket hnamed hkind
      rw [question.kind_length] at htake
      rw [List.length_cons, skipQuestions, hread, pure_bind]
      show (take packet _ 4 >>= fun _ => _) = _
      rw [htake, pure_bind]
      exact ih hnext hrest

omit hpacket in
theorem header_words (record : Record) (hdata : record.data.length < 2 ^ 16) :
    record.header.length = 10 ∧ wordAt record.header 0 1 = pure record.data.recordType ∧
      wordAt record.header 2 3 = pure record.data.recordClass ∧
      wordAt record.header 8 9 = pure (UInt16.ofNat record.data.length) := by
  have hlast : record.header.drop 8 = toBe 2 record.data.length ++ [] := by
    rw [Record.header, ← List.append_assoc, ← List.append_assoc, List.append_nil]
    exact List.drop_left' (by simp)
  have hclass : record.header.drop 2 = toBe 2 record.data.recordClass.toNat ++
      (toBe 4 record.ttl.toNat ++ toBe 2 record.data.length) := List.drop_left' (by simp)
  exact ⟨by simp [Record.header], wordAt_word rfl, wordAt_word hclass, wordAt_eq hdata hlast⟩

theorem readSrvData_eq {priority weight port : UInt16} {target : Name}
    (h : Reaches packet written ((RecordData.srv priority weight port target).parts.flatMap Part.bytes ++ back))
    (hfits : written.Fits 127 (RecordData.srv priority weight port target).parts) :
    readSrvData packet written.position =
      pure ⟨priority, weight, port, ".".intercalate (target.full written.known)⟩ := by
  have hbytes : (RecordData.srv priority weight port target).parts.flatMap Part.bytes ++ back =
      toBe 2 priority.toNat ++ (toBe 2 weight.toNat ++ (toBe 2 port.toNat ++ (target.bytes ++ back))) := by
    simp [RecordData.parts, Part.bytes]
  rw [hbytes] at h
  have hlength := congrArg List.length h.bytes
  simp only [List.length_drop, List.length_append, toBe_length] at hlength
  have hadd : ∀ more ≤ 6, Checked.add written.position more = pure (written.position + more) :=
    fun more hmore => Checked.add_of_lt (by omega)
  have hweight : packet.drop (written.position + 2) =
      toBe 2 weight.toNat ++ (toBe 2 port.toNat ++ (target.bytes ++ back)) := by
    rw [← List.drop_drop, h.bytes]
    rfl
  have hport : packet.drop (written.position + 4) = toBe 2 port.toNat ++ (target.bytes ++ back) := by
    rw [← List.drop_drop, h.bytes]
    rfl
  have hsix : Reaches packet (written.part (.raw (toBe 2 priority.toNat ++
      (toBe 2 weight.toNat ++ toBe 2 port.toNat)))) (target.bytes ++ back) :=
    Reaches.step_raw (by simpa only [List.append_assoc] using h)
  obtain ⟨htarget, -⟩ := readDnsName_reaches hpacket hsix hfits.1
  have hposition : (written.part (.raw (toBe 2 priority.toNat ++
      (toBe 2 weight.toNat ++ toBe 2 port.toNat)))).position = written.position + 6 := rfl
  rw [hposition] at htarget
  rw [readSrvData, hadd 1 (by omega), hadd 2 (by omega), hadd 3 (by omega), hadd 4 (by omega), hadd 5 (by omega),
    hadd 6 (by omega)]
  simp only [pure_bind, wordAt_word h.bytes, wordAt_word hweight, wordAt_word hport, htarget]
  rfl

theorem readAnswer_eq {record : Record} (hdata : record.data.length < 2 ^ 16)
    (h : Reaches packet written (record.parts.flatMap Part.bytes ++ back))
    (hfits : written.Fits 127 record.parts) :
    readAnswer packet written.position =
      pure (record.srv written, (written.parts record.parts).position) := by
  obtain ⟨hlength, htype, hclass, hsize⟩ := header_words record hdata
  have hbytes : record.parts.flatMap Part.bytes ++ back = record.name.bytes ++ (record.header ++
      (record.data.parts.flatMap Part.bytes ++ back)) := by
    simp [Record.parts, Record.opening, Part.bytes]
  have hlast : (written.parts record.parts).position =
      (written.parts record.opening).position + record.data.length := by
    rw [Record.parts, Written.parts_append, Written.parts_position]
    rfl
  rw [hbytes] at h
  obtain ⟨hname, hrest⟩ := hfits
  obtain ⟨hread, hnamed⟩ := readDnsName_reaches hpacket h hname
  obtain ⟨htake, hopened⟩ := take_reaches hpacket hnamed (List.ne_nil_of_length_pos (by omega))
  rw [hlength] at htake
  have hplace : Reaches packet (written.parts record.opening)
      (record.data.parts.flatMap Part.bytes ++ back) := hopened
  have hroom := congrArg List.length hplace.bytes
  have hcount : record.data.length = (record.data.parts.flatMap Part.bytes).length := rfl
  rw [List.length_drop, List.length_append, ← hcount] at hroom
  have hend : (written.parts record.opening).position ≤ packet.length := by
    have hfront := congrArg List.length hnamed.bytes
    rw [List.length_drop, List.length_append] at hfront
    have hposition : (written.parts record.opening).position =
        (written.part (.name record.name)).position + record.header.length := rfl
    omega
  have hvalue : (UInt16.ofNat record.data.length).toNat = record.data.length := by
    rw [UInt16.toNat_ofNat', Nat.mod_eq_of_lt hdata]
  -- what is done with the data, once it is known where it ends
  have hrecord : (if record.data.recordType = DNS_TYPE_SRV ∧ record.data.recordClass = 1 ∧
        7 ≤ record.data.length then
        readSrvData packet (written.parts record.opening).position >>= fun srv =>
          pure (some srv, (written.parts record.parts).position)
      else pure (none, (written.parts record.parts).position)) =
      (pure (record.srv written, (written.parts record.parts).position) :
        Checked (Option SrvRecord × Nat)) := by
    have hfitsData : (written.parts record.opening).Fits 127 record.data.parts := hrest
    rw [Record.srv]
    cases hd : record.data with
    | srv priority weight port target =>
        rw [hd] at hplace hfitsData
        have hseven : 7 ≤ (RecordData.srv priority weight port target).length := by
          have hending : 1 ≤ target.ending.length := by
            unfold Name.ending
            split <;> simp [Dns.pointerBytes]
          simp only [RecordData.length, RecordData.parts, List.flatMap_cons, List.flatMap_nil, Part.bytes,
            Name.bytes, List.length_append, toBe_length]
          omega
        rw [if_pos ⟨rfl, rfl, hseven⟩, readSrvData_eq hpacket hplace hfitsData]
        rfl
    | other recordType recordClass parts notSrv =>
        rw [if_neg fun hall => notSrv ⟨hall.1, hall.2.1⟩]
  have hadd : checkedAdd (written.parts record.opening).position record.data.length =
      some ((written.parts record.opening).position + record.data.length) := if_pos (by omega)
  have hin : decide ((written.parts record.opening).position + record.data.length ≤ packet.length) =
      true := by
    exact decide_eq_true (by omega)
  rw [readAnswer, hread, pure_bind]
  show (take packet _ 10 >>= fun _ => _) = _
  rw [htake, pure_bind]
  show (wordAt record.header 0 1 >>= fun _ => _) = _
  rw [htype, pure_bind, hclass, pure_bind, hsize, pure_bind, hvalue]
  show (Checked.ofOption _ (checkedAdd (written.parts record.opening).position _) >>= fun _ => _) = _
  rw [hadd, Checked.ofOption_some, pure_bind, hin, Checked.ensure_true, pure_bind, ← hlast]
  exact hrecord

theorem readAnswers_eq {records : List Record} (hdata : ∀ record ∈ records, record.data.length < 2 ^ 16)
    (h : Reaches packet written ((records.flatMap Record.parts).flatMap Part.bytes ++ back))
    (hfits : written.Fits 127 (records.flatMap Record.parts)) (found : List SrvRecord) :
    readAnswers packet records.length written.position found =
      pure (found ++ srvRecords written records) := by
  induction records generalizing written found with
  | nil => rw [srvRecords, List.append_nil]; rfl
  | cons record records ih =>
      obtain ⟨hrecord, hrecords⟩ := List.forall_mem_cons.mp hdata
      rw [List.flatMap_cons, List.flatMap_append, List.append_assoc] at h
      rw [List.flatMap_cons, Written.fits_append] at hfits
      have hread := readAnswer_eq hpacket hrecord h hfits.1
      rw [List.length_cons, readAnswers, hread, pure_bind, srvRecords, ← List.append_assoc]
      exact ih hrecords (h.steps hfits.1) hfits.2 _

end

theorem SrvRecord.before_trans (a b c : SrvRecord) (hab : a.before b) (hbc : b.before c) : a.before c := by
  simp only [SrvRecord.before, Bool.or_eq_true, Bool.and_eq_true, decide_eq_true_eq, beq_iff_eq,
    UInt16.lt_iff_toNat_lt, UInt16.le_iff_toNat_le, ← UInt16.toNat_inj] at hab hbc ⊢
  omega

theorem SrvRecord.before_total (a b : SrvRecord) : a.before b || b.before a := by
  simp only [SrvRecord.before, Bool.or_eq_true, Bool.and_eq_true, decide_eq_true_eq, beq_iff_eq,
    UInt16.lt_iff_toNat_lt, UInt16.le_iff_toNat_le, ← UInt16.toNat_inj]
  omega

-- By priority, and of one priority the heavier first.
def SrvRecord.Before (left right : SrvRecord) : Prop :=
  left.priority < right.priority ∨ left.priority = right.priority ∧ right.weight ≤ left.weight

theorem stablySorted_records (records : List SrvRecord) :
    StablySorted SrvRecord.Before records (records.mergeSort SrvRecord.before) := by
  have hbefore : SrvRecord.Before = fun left right => (left.before right : Prop) := by
    funext left right
    simp [SrvRecord.Before, SrvRecord.before]
  rw [hbefore]
  exact stablySorted_mergeSort SrvRecord.before_trans SrvRecord.before_total records

theorem Message.header_words {message : Message} (h : message.WellFormed) (rest : Bytes) :
    wordAt (message.header ++ rest) 0 1 = pure message.id ∧
      wordAt (message.header ++ rest) 2 3 = pure message.flags ∧
      wordAt (message.header ++ rest) 4 5 = pure (UInt16.ofNat message.questions.length) ∧
      wordAt (message.header ++ rest) 6 7 = pure (UInt16.ofNat message.answers.length) := by
  have hflags : (message.header ++ rest).drop 2 = toBe 2 message.flags.toNat ++
      ((toBe 2 message.questions.length ++ (toBe 2 message.answers.length ++
        (toBe 2 message.authorities.toNat ++ toBe 2 message.additionals.toNat))) ++ rest) := rfl
  have hquestions : (message.header ++ rest).drop 4 = toBe 2 message.questions.length ++
      ((toBe 2 message.answers.length ++
        (toBe 2 message.authorities.toNat ++ toBe 2 message.additionals.toNat)) ++ rest) := rfl
  have hanswers : (message.header ++ rest).drop 6 = toBe 2 message.answers.length ++
      ((toBe 2 message.authorities.toNat ++ toBe 2 message.additionals.toNat) ++ rest) := rfl
  exact ⟨wordAt_word rfl, wordAt_word hflags, wordAt_eq h.questions hquestions,
    wordAt_eq h.answers hanswers⟩

theorem parseSrvResponse_eq {message : Message} (h : message.WellFormed) :
    parseSrvResponse message.bytes message.id =
      pure (message.records.mergeSort SrvRecord.before) := by
  obtain ⟨hid, hflags, hasked, hanswered⟩ := Message.header_words h
    (message.asked.flatMap Part.bytes ++ (message.answered.flatMap Part.bytes ++ message.more))
  have hheader : message.header.length = 12 := by simp [Message.header]
  have hstart : Reaches message.bytes ⟨12, []⟩
      (message.asked.flatMap Part.bytes ++ (message.answered.flatMap Part.bytes ++ message.more)) :=
    ⟨fun _ _ _ hnone => absurd hnone List.not_mem_nil, List.drop_left' hheader⟩
  obtain ⟨hquestionNames, hanswerNames⟩ := (Written.fits_append 127 _ _ _).mp h.names
  have hskip : skipQuestions message.bytes message.questions.length 12 =
      pure (Written.parts ⟨12, []⟩ message.asked).position :=
    skipQuestions_eq h.size hstart hquestionNames
  have hread : readAnswers message.bytes message.answers.length
      (Written.parts ⟨12, []⟩ message.asked).position [] = pure ([] ++ message.records) :=
    readAnswers_eq h.size h.data (hstart.steps hquestionNames) hanswerNames []
  have hquestions : (UInt16.ofNat message.questions.length).toNat = message.questions.length := by
    rw [UInt16.toNat_ofNat', Nat.mod_eq_of_lt h.questions]
  have hanswers : (UInt16.ofNat message.answers.length).toNat = message.answers.length := by
    rw [UInt16.toNat_ofNat', Nat.mod_eq_of_lt h.answers]
  have hlong : decide (12 ≤ message.bytes.length) = true := by
    refine decide_eq_true ?_
    rw [Message.bytes, List.length_append]
    omega
  have hbytes : message.bytes = message.header ++ (message.asked.flatMap Part.bytes ++
      (message.answered.flatMap Part.bytes ++ message.more)) := rfl
  rw [← hbytes] at hid hflags hasked hanswered
  rw [parseSrvResponse, hlong, Checked.ensure_true, pure_bind, hid, pure_bind, decide_eq_true rfl,
    Checked.ensure_true, pure_bind, hflags, pure_bind, decide_eq_true h.response, Checked.ensure_true,
    pure_bind]
  show (Checked.ensure (decide (message.flags &&& 0x000f = 0)) _ >>= fun _ => _) = _
  rw [decide_eq_true h.noError, Checked.ensure_true, pure_bind, hasked, pure_bind, hanswered, pure_bind,
    hquestions, hskip, pure_bind, hanswers, hread, pure_bind, List.nil_append]

theorem wordAt_faultless {bytes : Bytes} {high low : Nat} (hhigh : high < bytes.length)
    (hlow : low < bytes.length) : (wordAt bytes high low).Faultless := by
  rw [wordAt, Checked.byte_of_lt hhigh, Checked.byte_of_lt hlow]
  exact .pure _

theorem take_faultless (packet : Bytes) (offset length : Nat) : (take packet offset length).Faultless :=
  .bind (.ofResult _) fun _ _ => .bind (.ofResult _) fun _ _ => .pure _

-- What is taken is as long as was asked for.
theorem take_length {packet value : Bytes} {offset length last : Nat}
    (h : take packet offset length = pure (value, last)) :
    value.length = length ∧ last ≤ packet.length := by
  obtain ⟨reached, hadd, h⟩ := Checked.bind_eq_pure.mp h
  obtain ⟨found, hrange, h⟩ := Checked.bind_eq_pure.mp h
  obtain ⟨rfl, rfl⟩ := Prod.mk.inj (Checked.pure_inj h)
  have hsum : checkedAdd offset length = some reached :=
    Result.ofOption_eq_ok.mp (Except.ok.inj hadd)
  obtain ⟨hin, hlength, -⟩ := Checked.range?_eq_some (Result.ofOption_eq_ok.mp (Except.ok.inj hrange))
  unfold checkedAdd at hsum
  split at hsum
  · obtain rfl := Option.some.inj hsum
    exact ⟨by omega, hin⟩
  · cases hsum

section

variable {packet : Bytes} (hpacket : packet.length < 2 ^ 63)

include hpacket

theorem skipQuestions_faultless (questions offset : Nat) :
    (skipQuestions packet questions offset).Faultless := by
  induction questions generalizing offset with
  | zero => exact .pure _
  | succ questions ih =>
      refine .bind (readDnsName_faultless hpacket offset) fun named _ => ?_
      exact .bind (take_faultless packet named.2 4) fun taken _ => ih taken.2

-- Six bytes of the data and one of the name are there.
theorem readSrvData_faultless {dataStart : Nat} (h : dataStart + 7 ≤ packet.length) :
    (readSrvData packet dataStart).Faultless := by
  have hadd : ∀ more ≤ 6, Checked.add dataStart more = pure (dataStart + more) :=
    fun more hmore => Checked.add_of_lt (by omega)
  have hword : ∀ front ≤ 5, ∀ back ≤ 5,
      (wordAt packet (dataStart + front) (dataStart + back)).Faultless :=
    fun front hfront back hback => wordAt_faultless (by omega) (by omega)
  rw [readSrvData, hadd 1 (by omega), hadd 2 (by omega), hadd 3 (by omega), hadd 4 (by omega),
    hadd 5 (by omega), hadd 6 (by omega)]
  simp only [pure_bind]
  refine .bind (hword 0 (by omega) 1 (by omega)) fun _ _ => ?_
  refine .bind (hword 2 (by omega) 3 (by omega)) fun _ _ => ?_
  refine .bind (hword 4 (by omega) 5 (by omega)) fun _ _ => ?_
  exact .bind (readDnsName_faultless hpacket _) fun _ _ => .pure _

theorem readAnswer_faultless (offset : Nat) : (readAnswer packet offset).Faultless := by
  refine .bind (readDnsName_faultless hpacket offset) fun named _ => ?_
  refine .bind (take_faultless packet named.2 10) fun taken htaken => ?_
  obtain ⟨header, dataStart⟩ := taken
  obtain ⟨hlength, -⟩ := take_length htaken
  have hword : ∀ high < 10, ∀ low < 10, (wordAt header high low).Faultless :=
    fun high hhigh low hlow => wordAt_faultless (by omega) (by omega)
  refine .bind (hword 0 (by omega) 1 (by omega)) fun recordType _ => ?_
  refine .bind (hword 2 (by omega) 3 (by omega)) fun recordClass _ => ?_
  refine .bind (hword 8 (by omega) 9 (by omega)) fun dataLength _ => ?_
  refine .bind (.ofResult _) fun dataEnd hend => ?_
  refine .bind (.ofResult _) fun _ hin => ?_
  have hsum : checkedAdd dataStart dataLength.toNat = some dataEnd :=
    Result.ofOption_eq_ok.mp (Except.ok.inj hend)
  have hfits : dataEnd ≤ packet.length :=
    of_decide_eq_true (Result.ensure_eq_ok.mp (Except.ok.inj hin))
  have hvalue : dataStart + dataLength.toNat = dataEnd := by
    unfold checkedAdd at hsum
    split at hsum
    · exact Option.some.inj hsum
    · cases hsum
  by_cases hsrv : recordType = DNS_TYPE_SRV ∧ recordClass = 1 ∧ 7 ≤ dataLength.toNat
  · rw [if_pos hsrv]
    exact .bind (readSrvData_faultless hpacket (by omega)) fun _ _ => .pure _
  · rw [if_neg hsrv]
    exact .pure _

theorem readAnswers_faultless (answers offset : Nat) (found : List SrvRecord) :
    (readAnswers packet answers offset found).Faultless := by
  induction answers generalizing offset found with
  | zero => exact .pure _
  | succ answers ih =>
      exact .bind (readAnswer_faultless hpacket offset) fun read _ => ih read.2 _

theorem parseSrvResponse_faultless (expectedId : UInt16) :
    (parseSrvResponse packet expectedId).Faultless := by
  refine .bind (.ofResult _) fun _ hlong => ?_
  have hlength : 12 ≤ packet.length :=
    of_decide_eq_true (Result.ensure_eq_ok.mp (Except.ok.inj hlong))
  have hword : ∀ high < 12, ∀ low < 12, (wordAt packet high low).Faultless :=
    fun high hhigh low hlow => wordAt_faultless (by omega) (by omega)
  refine .bind (hword 0 (by omega) 1 (by omega)) fun id _ => .bind (.ofResult _) fun _ _ => ?_
  refine .bind (hword 2 (by omega) 3 (by omega)) fun flags _ => .bind (.ofResult _) fun _ _ => ?_
  refine .bind (.ofResult _) fun _ _ => ?_
  refine .bind (hword 4 (by omega) 5 (by omega)) fun questions _ => ?_
  refine .bind (hword 6 (by omega) 7 (by omega)) fun answers _ => ?_
  refine .bind (skipQuestions_faultless hpacket _ _) fun offset _ => ?_
  exact .bind (readAnswers_faultless hpacket _ offset []) fun _ _ => .pure _

end

-- A response gives its records, best first; and whatever the packet is, no index is outside it,
-- and what is read for a name ends where the name does.
theorem srv_responses_decoded :
    (∀ message : Message, message.WellFormed → ∃ records,
      parseSrvResponse message.bytes message.id = pure records ∧
        StablySorted SrvRecord.Before message.records records) ∧
    ∀ packet : Bytes, packet.length < 2 ^ 63 →
      (∀ expectedId, (parseSrvResponse packet expectedId).Faultless) ∧
      ∀ offset, (readDnsName packet offset).Faultless ∧
        ∀ name last, readDnsName packet offset = pure (name, last) ↔
          ∃ labels parts, NameAt packet offset labels parts last ∧ parts ≤ 127 ∧
            name = ".".intercalate labels :=
  ⟨fun message h => ⟨_, parseSrvResponse_eq h, stablySorted_records message.records⟩,
    fun _ hpacket => ⟨parseSrvResponse_faultless hpacket, fun offset =>
      ⟨readDnsName_faultless hpacket offset, fun _ _ => readDnsName_eq_pure hpacket⟩⟩⟩

-- A question, and an answer that names its target with a part of the name asked for.
def ANSWERED : Message where
  id := 1
  flags := 0x8180
  questions := [⟨⟨["_test", "_tcp", "example", "com"], none⟩, [0, 33, 0, 1], rfl⟩]
  answers := [⟨⟨[], some 12⟩, 60, .srv 1 2 7844 ⟨["edge"], some 23⟩⟩]
  authorities := 0
  additionals := 0
  more := []

theorem answered_wellFormed : ANSWERED.WellFormed := by
  have hlabel : ∀ label ∈ ["_test", "_tcp", "example", "com", "edge"], Label label := by
    intro label hlabel
    simp only [List.mem_cons, List.not_mem_nil, or_false] at hlabel
    obtain rfl | rfl | rfl | rfl | rfl := hlabel
    · exact ⟨by decide, by decide⟩
    · exact ⟨by decide, by decide⟩
    · exact ⟨by decide, by decide⟩
    · exact ⟨by decide, by decide⟩
    · exact ⟨by decide, by decide⟩
  constructor
  · decide
  · decide
  · decide
  · decide
  · intro record hrecord
    obtain rfl := List.mem_singleton.mp hrecord
    decide
  · refine ⟨⟨?_, ?_, ([], 0), rfl, by decide⟩, ⟨?_, ?_, _, rfl, by decide⟩, ⟨?_, ?_, _, rfl, by decide⟩,
      trivial⟩
    · exact fun label h => hlabel label (List.mem_append_left ["edge"] h)
    · exact fun _ h => nomatch h
    · exact fun _ h => nomatch h
    · simp
    · exact fun label h => hlabel label (List.mem_append_right ["_test", "_tcp", "example", "com"] h)
    · simp
  · decide

theorem srv_responses_decoded_edge :
    ∃ records, parseSrvResponse ANSWERED.bytes 1 = pure records ∧
      StablySorted SrvRecord.Before [⟨1, 2, 7844, "edge.example.com"⟩] records :=
  srv_responses_decoded.1 ANSWERED answered_wellFormed

end SingBox.Cloudflared
