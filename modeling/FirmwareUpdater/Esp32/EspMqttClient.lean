import FirmwareUpdater.Core.SpscRing
import FirmwareUpdater.Core.Types

/-!
# The MQTT client of the ESP32

`EspMqttClient` takes the events of the esp-mqtt task, puts the fragments of a message
together and delivers it: to the direct callback, or into the ring that `poll` empties.
A `const char*` into a received packet is the memory from that place on, so a text read
there goes on to the first NUL, wherever it is.
-/

namespace FirmwareUpdater

/-- An event of esp-mqtt, with the fields `handle` reads of it. An error is only logged. -/
inductive MqttEvent where
  | connected
  | disconnected
  | error
  | data (topic : Option (List UInt8)) (data : List UInt8) (totalDataLen currentDataOffset : Nat)
  | other

/-- Where a message goes. -/
inductive Delivery where
  | direct (topic : CString) (payload : List UInt8)
  | push (topic : CString) (payload : List UInt8)
  deriving DecidableEq

namespace EspMqttClient

/-- `kMaxReserved`. -/
def maxReserved : Nat := 4

/-- `kAssemblyBytes`. -/
def assemblyBytes : Nat := 1024

/-- `sizeof(_assembly_topic)`. -/
def assemblyTopicBytes : Nat := 96

/-- The slots of `Ring`. -/
def ringSlots : Nat := 6

/-- The bytes of a slot of `Ring`. -/
def ringSlotBytes : Nat := 1024

end EspMqttClient

open EspMqttClient

/-- The members of `EspMqttClient` that messages go through, the ring apart. `direct` says whether
a direct callback is installed. -/
structure EspMqttClient where
  direct : Bool := false
  reserved : List (Field maxTopicLen) := []
  connected : Bool := false
  assembly : List UInt8 := List.replicate assemblyBytes 0
  assemblyTopic : List UInt8 := List.replicate assemblyTopicBytes 0
  assemblyLen : Nat := 0
  assembling : Bool := false
  reserved_le : reserved.length ≤ maxReserved := by decide
  assembly_length : assembly.length = assemblyBytes := by simp
  assemblyLen_le : assemblyLen ≤ assemblyBytes := by decide

namespace EspMqttClient

/-- `setDirectCallback`. -/
def setDirectCallback (c : EspMqttClient) (installed : Bool) : EspMqttClient :=
  { c with direct := installed }

/-- `isReserved`. -/
def isReserved (c : EspMqttClient) (topic : CString) : Bool :=
  c.reserved.any fun reserved => reserved.text = topic

/-- There is room for one more reserved topic. -/
theorem length_reserved {reserved : List (Field maxTopicLen)}
    (hroom : ¬ reserved.length ≥ maxReserved) (topic : Field maxTopicLen) :
    (reserved ++ [topic]).length ≤ maxReserved := by
  rw [List.length_append, List.length_singleton]
  omega

/-- `reserveTopic`. -/
def reserveTopic (c : EspMqttClient) (topic : Option CString) : EspMqttClient :=
  match topic with
  | none => c
  | some topic =>
      if topic.length = 0 then c
      else if hfull : c.reserved.length ≥ maxReserved then c
      else if c.isReserved topic then c
      else
        { c with
          reserved := c.reserved ++ [.print maxTopicLen_pos topic]
          reserved_le := length_reserved hfull _ }

/-- `deliver`: reserved topics always go through the ring. -/
def deliver (c : EspMqttClient) (topic : CString) (payload : List UInt8) : Delivery :=
  if c.direct && !c.isReserved topic then .direct topic payload else .push topic payload

/-- The start of an assembly. -/
def startAssembly (c : EspMqttClient) (topic : CString) : EspMqttClient :=
  { c with
    assembling := true
    assemblyLen := 0
    assemblyTopic := snprintf c.assemblyTopic assemblyTopicBytes topic
    assemblyLen_le := Nat.zero_le _ }

/-- `memcpy(_assembly + _assembly_len, data, chunk)`, and as many more bytes assembled. -/
def append (c : EspMqttClient) (data : List UInt8)
    (hroom : c.assemblyLen + data.length ≤ assemblyBytes) : EspMqttClient :=
  { c with
    assembly :=
      c.assembly.take c.assemblyLen ++ data ++ c.assembly.drop (c.assemblyLen + data.length)
    assemblyLen := c.assemblyLen + data.length
    assembly_length := by
      have hlength := c.assembly_length
      simp only [List.length_append, List.length_take, List.length_drop]
      omega
    assemblyLen_le := hroom }

/-- One more fragment of a message of `totalDataLen` bytes. -/
def assemble (c : EspMqttClient) (data : List UInt8) (totalDataLen : Nat) :
    EspMqttClient × Option Delivery :=
  if !c.assembling then (c, none)
  else if hroom : c.assemblyLen + data.length > assemblyBytes then
    -- Too big: drop rather than deliver a partial.
    ({ c with assembling := false }, none)
  else
    let c := c.append data (by omega)
    if c.assemblyLen ≥ totalDataLen then
      ({ c with assembling := false, assemblyLen := 0, assemblyLen_le := Nat.zero_le _ },
        some (c.deliver (.ofBytes c.assemblyTopic) (c.assembly.take c.assemblyLen)))
    else (c, none)

/-- `handle` of a data event. -/
def handleData (c : EspMqttClient) (topic : Option (List UInt8)) (data : List UInt8)
    (totalDataLen currentDataOffset : Nat) : EspMqttClient × Option Delivery :=
  if ¬totalDataLen > data.length then
    (c, some (c.deliver (.ofBytes (topic.getD c.assemblyTopic)) data))
  else if currentDataOffset = 0 then
    -- The first fragment carries the topic; later ones do not.
    (c.startAssembly (topic.elim .empty .ofBytes)).assemble data totalDataLen
  else c.assemble data totalDataLen

/-- `handle`: the client it leaves, and what it delivers. -/
def handle (c : EspMqttClient) : MqttEvent → EspMqttClient × Option Delivery
  | .connected => ({ c with connected := true }, none)
  | .disconnected => ({ c with connected := false, assembling := false }, none)
  | .data topic data totalDataLen currentDataOffset =>
      c.handleData topic data totalDataLen currentDataOffset
  | .error | .other => (c, none)

/-- The answers of esp-mqtt to a `begin`: whether the client was made, the handler registered and
the client started. -/
structure BeginAnswers where
  made : Bool
  registered : Bool
  started : Bool

/-- The session that a client is, the ring apart: `handle` says whether `_client` is set. -/
structure Session where
  client : EspMqttClient := {}
  handle : Bool := false
  started : Bool := false

/-- `end`. -/
def Session.endSession (s : Session) : Session :=
  if !s.handle then s
  else
    { client := { s.client with connected := false, assembling := false }
      handle := false
      started := false }

/-- `begin`, for a configuration with this `host`. -/
def Session.begin (s : Session) (host : Option CString) (r : BeginAnswers) : Bool × Session :=
  let s := if s.handle then s.endSession else s
  match host with
  | none => (false, s)
  | some host =>
      if host.byteAt 0 = 0 then (false, s)
      else if !r.made || !r.registered || !r.started then (false, { s with handle := false })
      else (true, { s with handle := true, started := true })

/-- A call to the client, or an event it gets. -/
inductive Call where
  | begin (host : Option CString) (r : BeginAnswers)
  | endSession
  | setDirectCallback (installed : Bool)
  | reserveTopic (topic : Option CString)
  | event (e : MqttEvent)

/-- The session after a call. -/
def Session.exec (s : Session) : Call → Session
  | .begin host r => (s.begin host r).2
  | .endSession => s.endSession
  | .setDirectCallback installed => { s with client := s.client.setDirectCallback installed }
  | .reserveTopic topic => { s with client := s.client.reserveTopic topic }
  | .event e => { s with client := (s.client.handle e).1 }

/-- The arguments of `poll`: where it writes, and how much fits there. -/
structure PollCall where
  topic : Option (List UInt8)
  topicCap : Nat
  payload : Option (List UInt8)
  payloadCap : Nat
  deriving DecidableEq

/-- What `poll` returned and left in the caller's buffers. -/
structure PollResult where
  ok : Bool
  topic : Option (List UInt8)
  payload : Option (List UInt8)
  len : Nat
  deriving DecidableEq

/-- `poll` where the ring is empty. -/
def pollEmpty (call : PollCall) : PollResult := ⟨false, call.topic, call.payload, 0⟩

/-- `poll` with the message it popped. -/
def pollPopped (call : PollCall) (msg : SpscRing.Message) : PollResult :=
  if msg.length > call.payloadCap then ⟨false, call.topic, call.payload, 0⟩
  else
    { ok := true
      topic := call.topic.map fun block => snprintf block call.topicCap (.ofBytes msg.topic)
      payload := call.payload.map fun block => overwrite block (msg.payload.take msg.length)
      len := msg.length }

/-- A payload as `push` is given it. -/
def block (payload : List UInt8) : Buffer where
  data := some payload
  len := payload.length
  sized bytes h := by rw [Option.some.inj h]

/-- What is delivered depends on the callback and the reserved topics only. -/
theorem deliver_congr {c d : EspMqttClient} (hdirect : d.direct = c.direct)
    (hreserved : d.reserved = c.reserved) (topic : CString) (payload : List UInt8) :
    d.deliver topic payload = c.deliver topic payload := by
  unfold deliver isReserved
  rw [hdirect, hreserved]

theorem assemble_keeps (c : EspMqttClient) (data : List UInt8) (totalDataLen : Nat) :
    (c.assemble data totalDataLen).1.direct = c.direct ∧
      (c.assemble data totalDataLen).1.reserved = c.reserved := by
  unfold assemble
  split
  · exact ⟨rfl, rfl⟩
  split
  · exact ⟨rfl, rfl⟩
  dsimp only
  split <;> exact ⟨rfl, rfl⟩

/-- An event changes neither. -/
theorem handle_keeps (c : EspMqttClient) (e : MqttEvent) :
    (c.handle e).1.direct = c.direct ∧ (c.handle e).1.reserved = c.reserved := by
  cases e with
  | connected | disconnected | error | other => exact ⟨rfl, rfl⟩
  | data topic data totalDataLen currentDataOffset =>
      simp only [handle, handleData]
      split
      · exact ⟨rfl, rfl⟩
      split
      · exact assemble_keeps _ _ _
      · exact assemble_keeps _ _ _

/-- Only `reserveTopic` changes the reserved topics: sessions begin and end around them. -/
theorem Session.exec_reserved (s : Session) {call : Call}
    (hcall : ∀ topic, call ≠ .reserveTopic topic) :
    (s.exec call).client.reserved = s.client.reserved := by
  have hend (s : Session) : s.endSession.client.reserved = s.client.reserved := by
    unfold Session.endSession
    split <;> rfl
  cases call with
  | reserveTopic topic => exact absurd rfl (hcall topic)
  | endSession => exact hend s
  | setDirectCallback installed => rfl
  | event e => exact (handle_keeps s.client e).2
  | begin host r =>
      have hfirst : (if s.handle then s.endSession else s).client.reserved = s.client.reserved := by
        split
        · exact hend s
        · rfl
      rw [← hfirst]
      show (Session.begin s host r).2.client.reserved = _
      unfold Session.begin
      generalize (if s.handle then s.endSession else s) = s
      cases host with
      | none => rfl
      | some host =>
          dsimp only
          repeat' split
          all_goals rfl

end EspMqttClient

end FirmwareUpdater
