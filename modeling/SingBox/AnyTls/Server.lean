import Mathlib.Data.Bool.AllAny
import SingBox.AnyTls.Client

namespace SingBox.AnyTls

open Library
open Core (splitOnce splitOnce_append)
open Utf8 (encode)

-- The tasks spawned for a CMD_SYN: the one that sends what the stream's end writes, and the
-- one of `handle_server_stream`, which answers once. `leaving` has taken its id out of the map.
inductive ServerTaskStage where
  | running
  | answered
  | leaving
  | ended
deriving DecidableEq, Repr

structure ServerTask where
  id : UInt32
  isPump : Bool
  stage : ServerTaskStage
deriving DecidableEq, Repr

-- `handle_inbound_connection` behind the preamble. `streams` are the keys of its map.
-- `updated` is not in the source: whether a CMD_UPDATE_PADDING has come to the channel.
structure ServerConnection where
  padding : PaddingScheme
  settingsReceived : Bool
  streams : List UInt32
  tasks : List ServerTask
  loop : Option LoopEnd
  tx : List Frame
  txClosed : Bool
  updated : Bool

def settingOfLine (key line : List Char) : Option String := do
  let (name, value) ← splitOnce '=' line
  if name = key then some (String.ofList value) else none

def settingValue (data : Bytes) (key : String) : Option String := do
  let text ← Utf8.decode data
  (Text.lines text.toList).findSome? (settingOfLine key.toList)

namespace ServerConnection

def new (padding : PaddingScheme) : ServerConnection :=
  { padding, settingsReceived := false, streams := [], tasks := [], loop := none, tx := [],
    txClosed := false, updated := false }

-- Nothing comes of a frame for a channel that is closed.
def send (connection : ServerConnection) (frame : Frame) : ServerConnection :=
  if connection.txClosed then connection else { connection with tx := connection.tx ++ [frame] }

-- CMD_SETTINGS
def receiveSettings (connection : ServerConnection) (frame : Frame) : ServerConnection :=
  let connection := { connection.send ⟨CMD_SERVER_SETTINGS, 0, encode "v=2\n"⟩ with
    settingsReceived := true }
  if settingValue frame.data "padding-md5" = some connection.padding.md5Hex then connection
  else { connection.send ⟨CMD_UPDATE_PADDING, 0, encode connection.padding.source⟩ with
    updated := connection.updated || !connection.txClosed }

def removeStream (connection : ServerConnection) (id : UInt32) : ServerConnection :=
  { connection with streams := connection.streams.filter (· ≠ id) }

def endLoop (connection : ServerConnection) (reason : LoopEnd) : ServerConnection :=
  { connection with loop := some reason }

-- CMD_SYN
def receiveSyn (connection : ServerConnection) (frame : Frame) : ServerConnection :=
  if connection.settingsReceived = false then
    connection.endLoop (.bail "AnyTLS SYN received before settings")
  else if frame.streamId = 0 then
    connection.endLoop (.bail "AnyTLS stream id cannot be zero")
  else if frame.streamId ∈ connection.streams then
    connection.endLoop (.bail "AnyTLS duplicate stream id")
  else { connection with
    streams := connection.streams ++ [frame.streamId]
    tasks := connection.tasks ++
      [⟨frame.streamId, true, .running⟩, ⟨frame.streamId, false, .running⟩] }

-- A turn of the loop. The payload of a CMD_PSH goes to the channel of its stream.
def receive (connection : ServerConnection) (frame : Frame) : ServerConnection :=
  if frame.command = CMD_SETTINGS then connection.receiveSettings frame
  else if frame.command = CMD_SYN then connection.receiveSyn frame
  else if frame.command = CMD_PSH then connection
  else if frame.command = CMD_FIN then connection.removeStream frame.streamId
  else if frame.command = CMD_HEARTBEAT_REQUEST then
    connection.send ⟨CMD_HEARTBEAT_RESPONSE, 0, frame.data⟩
  else if frame.command = CMD_WASTE ∨ frame.command = CMD_UPDATE_PADDING ∨
      frame.command = CMD_SERVER_SETTINGS then connection
  else if frame.command = CMD_ALERT then connection.endLoop (.bail "AnyTLS peer sent an alert")
  else connection.endLoop (.bail s!"unsupported AnyTLS command {frame.command}")

inductive Action where
  | receive (frame : Frame)
  | cancelLoop
  | breakLoop
  -- the tasks of a stream: CMD_PSH, CMD_SYNACK, the end and CMD_FIN
  | push (task : Nat) (data : Bytes)
  | answer (task : Nat) (data : Bytes)
  | leave (task : Nat)
  | finish (task : Nat)
  -- the writer's task takes a frame, or is at its end
  | written
  | closeTx

def setTask (connection : ServerConnection) (index : Nat) (task : ServerTask) : ServerConnection :=
  { connection with tasks := connection.tasks.set index task }

def step (connection : ServerConnection) : Action → Option ServerConnection
  | .receive frame => if connection.loop.isNone then some (connection.receive frame) else none
  | .cancelLoop => if connection.loop.isNone then some (connection.endLoop .cancelled) else none
  | .breakLoop => if connection.loop.isNone then some (connection.endLoop .transport) else none
  | .push index data =>
      match connection.tasks[index]? with
      | some ⟨id, true, .running⟩ =>
          if data ≠ [] ∧ data.length ≤ MAX_FRAME_SIZE then
            some (connection.send ⟨CMD_PSH, id, data⟩)
          else none
      | _ => none
  | .answer index data =>
      match connection.tasks[index]? with
      | some ⟨id, false, .running⟩ =>
          some ((connection.send ⟨CMD_SYNACK, id, data⟩).setTask index ⟨id, false, .answered⟩)
      | _ => none
  | .leave index =>
      match connection.tasks[index]? with
      | some ⟨id, isPump, .running⟩ | some ⟨id, isPump, .answered⟩ =>
          some ((connection.removeStream id).setTask index ⟨id, isPump, .leaving⟩)
      | _ => none
  | .finish index =>
      match connection.tasks[index]? with
      | some ⟨id, isPump, .leaving⟩ =>
          some ((connection.send ⟨CMD_FIN, id, []⟩).setTask index ⟨id, isPump, .ended⟩)
      | _ => none
  | .written =>
      match connection.txClosed, connection.tx with
      | false, _ :: rest => some { connection with tx := rest }
      | _, _ => none
  | .closeTx => some { connection with txClosed := true }

end ServerConnection

theorem md5Hex_char (padding : PaddingScheme) {char : Char} (h : char ∈ padding.md5Hex.toList) :
    (char ≠ '\n' ∧ char ≠ '\r') ∧ char.toNat < 128 := by
  have hhex : ∀ char ∈ "0123456789abcdef".toList,
      (char ≠ '\n' ∧ char ≠ '\r') ∧ char.toNat < 128 := List.all_iff_forall_prop.mp (by decide)
  exact hhex char (Md5.md5Hex_mem h)

theorem settingOfLine_eq {key line name value : List Char}
    (h : splitOnce '=' line = some (name, value)) :
    settingOfLine key line = if name = key then some (String.ofList value) else none := by
  rw [settingOfLine, h]
  rfl

theorem settingValue_md5 {value : String}
    (hvalue : ∀ char ∈ value.toList, char ≠ '\n' ∧ char ≠ '\r') :
    settingValue (encode ("v=2\nclient=sing-box-rs\npadding-md5=" ++ value ++ "\n"))
      "padding-md5" = some value := by
  have htext : ("v=2\nclient=sing-box-rs\npadding-md5=" ++ value ++ "\n").toList =
      "v=2".toList ++ '\n' :: ("client=sing-box-rs".toList ++ '\n' ::
        (("padding-md5".toList ++ '=' :: value.toList) ++ '\n' :: [])) := by
    simp only [String.toList_append, List.append_assoc]
    rfl
  have hplain : ∀ line ∈ ["v=2".toList, "client=sing-box-rs".toList, "padding-md5=".toList],
      ∀ char ∈ line, char ≠ '\n' ∧ char ≠ '\r' := by
    have hall : ∀ line ∈ ["v=2".toList, "client=sing-box-rs".toList, "padding-md5=".toList],
        line.all (fun char => char ≠ '\n' ∧ char ≠ '\r') = true := by decide
    exact fun line hline => List.all_iff_forall_prop.mp (hall line hline)
  have hlast : ∀ char ∈ "padding-md5".toList ++ '=' :: value.toList,
      char ≠ '\n' ∧ char ≠ '\r' := by
    intro char hchar
    rw [← List.singleton_append, ← List.append_assoc] at hchar
    obtain hname | hvalued := List.mem_append.mp hchar
    · exact hplain "padding-md5=".toList (by simp) char hname
    · exact hvalue char hvalued
  have hlines : Text.lines ("v=2\nclient=sing-box-rs\npadding-md5=" ++ value ++ "\n").toList =
      ["v=2".toList, "client=sing-box-rs".toList, "padding-md5".toList ++ '=' :: value.toList] := by
    rw [htext, Text.lines_cons (hplain _ (by simp)), Text.lines_cons (hplain _ (by simp)),
      Text.lines_cons hlast]
    rfl
  have hfirst : settingOfLine "padding-md5".toList "v=2".toList = none := by decide
  have hsecond : settingOfLine "padding-md5".toList "client=sing-box-rs".toList = none := by decide
  have hthird : settingOfLine "padding-md5".toList ("padding-md5".toList ++ '=' :: value.toList) =
      some value := by
    rw [settingOfLine_eq (splitOnce_append (by decide)), if_pos rfl, String.ofList_toList]
  rw [settingValue, Utf8.decode_encode]
  show (Text.lines _).findSome? _ = _
  rw [hlines, List.findSome?_cons, hfirst, List.findSome?_cons, hsecond, List.findSome?_cons,
    hthird]

-- What the server reads from the client's CMD_SETTINGS.
theorem settingValue_settingsData (padding : PaddingScheme) :
    settingValue (settingsData padding) "padding-md5" = some padding.md5Hex :=
  settingValue_md5 fun _ hchar => (md5Hex_char padding hchar).1

theorem settingsData_length (padding : PaddingScheme) :
    (settingsData padding).length ≤ MAX_FRAME_SIZE := by
  have hplain : ∀ char ∈ "v=2\nclient=sing-box-rs\npadding-md5=".toList ++ "\n".toList,
      char.toNat < 128 := List.all_iff_forall_prop.mp (by decide)
  have hascii : ∀ char ∈
      ("v=2\nclient=sing-box-rs\npadding-md5=" ++ padding.md5Hex ++ "\n").toList,
      char.toNat < 128 := by
    intro char hchar
    simp only [String.toList_append, List.mem_append] at hchar
    obtain (hfront | hhex) | hback := hchar
    · exact hplain char (List.mem_append_left _ hfront)
    · exact (md5Hex_char padding hhex).2
    · exact hplain char (List.mem_append_right _ hback)
  have hmd5 : padding.md5Hex.toList.length = 32 := Md5.md5Hex_length _
  rw [settingsData, Utf8.encode_length hascii]
  simp only [String.toList_append, List.length_append, hmd5]
  decide

end SingBox.AnyTls
