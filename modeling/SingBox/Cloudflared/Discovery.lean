import SingBox.Library.Checked
import SingBox.Library.Utf8

namespace SingBox.Cloudflared

open Library

def DNS_TYPE_SRV : UInt16 := 33

structure SrvRecord where
  priority : UInt16
  weight : UInt16
  port : UInt16
  target : String
deriving DecidableEq

-- `usize::checked_add`
def checkedAdd (left right : Nat) : Option Nat :=
  if left + right < 2 ^ 64 then some (left + right) else none

def take (packet : Bytes) (offset length : Nat) : Checked (Bytes × Nat) := do
  let last ← Checked.ofOption "DNS offset overflow" (checkedAdd offset length)
  let value ← Checked.ofOption "truncated DNS response" (Checked.range? packet offset last)
  return (value, last)

-- What `read_dns_name` keeps from one round to the next.
structure NameCursor where
  cursor : Nat
  offset : Nat
  jumped : Bool := false
  labels : List String := []

def readNameRounds (packet : Bytes) : Nat → NameCursor → Checked (String × Nat)
  | 0, _ => Checked.ofResult (Result.bail "DNS name compression loop")
  | rounds + 1, state => do
      let length ← Checked.ofOption "truncated DNS name" packet[state.cursor]?
      if length &&& 0xc0 = 0xc0 then
        let next ← Checked.ofOption "truncated DNS pointer" packet[← Checked.add state.cursor 1]?
        let pointer := (length &&& 0x3f).toNat <<< 8 ||| next.toNat
        Checked.ensure (pointer < packet.length) "invalid DNS pointer"
        let offset ← if state.jumped then pure state.offset else Checked.add state.cursor 2
        readNameRounds packet rounds
          { cursor := pointer, offset, jumped := true, labels := state.labels }
      else
        let cursor ← Checked.add state.cursor 1
        if length = 0 then
          return (".".intercalate state.labels, if state.jumped then state.offset else cursor)
        else
          Checked.ensure (length ≤ 63) "invalid DNS label length"
          let last ← Checked.add cursor length.toNat
          let bytes ← Checked.ofOption "truncated DNS label" (Checked.range? packet cursor last)
          let label ← Checked.ofOption "invalid utf-8" (Utf8.decode bytes)
          readNameRounds packet rounds
            { state with cursor := last, labels := state.labels ++ [label] }

-- The name at the offset, and the offset behind it.
def readDnsName (packet : Bytes) (offset : Nat) : Checked (String × Nat) :=
  readNameRounds packet 128 { cursor := offset, offset }

-- `u16::from_be_bytes` of two bytes of a slice.
def wordAt (bytes : Bytes) (high low : Nat) : Checked UInt16 := do
  return UInt16.ofNat (ofBe [← Checked.byte bytes high, ← Checked.byte bytes low])

def skipQuestions (packet : Bytes) : Nat → Nat → Checked Nat
  | 0, offset => pure offset
  | questions + 1, offset => do
      let (_, offset) ← readDnsName packet offset
      let (_, offset) ← take packet offset 4
      skipQuestions packet questions offset

-- The data of a record of the service: what it says of the target, and its name.
def readSrvData (packet : Bytes) (dataStart : Nat) : Checked SrvRecord := do
  let priority ← wordAt packet dataStart (← Checked.add dataStart 1)
  let weight ← wordAt packet (← Checked.add dataStart 2) (← Checked.add dataStart 3)
  let port ← wordAt packet (← Checked.add dataStart 4) (← Checked.add dataStart 5)
  let (target, _) ← readDnsName packet (← Checked.add dataStart 6)
  return { priority, weight, port, target }

-- The body of the loop over the answers: the record, if it is one for this, and the offset
-- behind it.
def readAnswer (packet : Bytes) (offset : Nat) : Checked (Option SrvRecord × Nat) := do
  let (_, offset) ← readDnsName packet offset
  let (header, dataStart) ← take packet offset 10
  let recordType ← wordAt header 0 1
  let class_ ← wordAt header 2 3
  let dataLength := (← wordAt header 8 9).toNat
  let dataEnd ← Checked.ofOption "DNS record length overflow" (checkedAdd dataStart dataLength)
  Checked.ensure (dataEnd ≤ packet.length) "truncated DNS record"
  if recordType = DNS_TYPE_SRV ∧ class_ = 1 ∧ 7 ≤ dataLength then
    return (some (← readSrvData packet dataStart), dataEnd)
  else return (none, dataEnd)

def readAnswers (packet : Bytes) : Nat → Nat → List SrvRecord → Checked (List SrvRecord)
  | 0, _, records => pure records
  | answers + 1, offset, records => do
      let (record, offset) ← readAnswer packet offset
      readAnswers packet answers offset (records ++ record.toList)

-- The order of the keys: the weight is reversed.
def SrvRecord.before (left right : SrvRecord) : Bool :=
  left.priority < right.priority || left.priority == right.priority && right.weight ≤ left.weight

def parseSrvResponse (packet : Bytes) (expectedId : UInt16) : Checked (List SrvRecord) := do
  Checked.ensure (12 ≤ packet.length) "DNS response is too short"
  let id ← wordAt packet 0 1
  Checked.ensure (id = expectedId) "DNS response ID mismatch"
  let flags ← wordAt packet 2 3
  Checked.ensure (flags &&& 0x8000 ≠ 0) "DNS packet is not a response"
  let code := flags &&& 0x000f
  Checked.ensure (code = 0) s!"DNS server returned error code {code}"
  let questions ← wordAt packet 4 5
  let answers ← wordAt packet 6 7
  let offset ← skipQuestions packet questions.toNat 12
  let records ← readAnswers packet answers.toNat offset []
  return records.mergeSort SrvRecord.before

end SingBox.Cloudflared
