import Mathlib.Data.UInt
import FirmwareUpdater.Core.Memory
import FirmwareUpdater.Library.Channel
import FirmwareUpdater.Library.Circular

/-!
# The single-producer single-consumer ring

`SpscRing<Slots, SlotBytes>` as two threads over shared memory. Every atomic
load, atomic store, read-modify-write and field copy is a step of its own, and
a thread's program point carries the values it has already loaded, so a stale
index or a half-written slot is an ordinary state of the model.
-/

namespace FirmwareUpdater.SpscRing

open Library

/-- `sizeof(Message::topic)`. -/
def topicBytes : Nat := 96

/-- `Message`: the contents of a slot, arrays included as they stand in memory. -/
structure Message where
  topic : List UInt8
  payload : List UInt8
  length : Nat
  deriving DecidableEq

/-- A slot as it is before the first push. -/
def Message.blank (slotBytes : Nat) : Message where
  topic := List.replicate topicBytes 0
  payload := List.replicate slotBytes 0
  length := 0

/-- Where `push` stands. `head` is the value loaded from `_head`. -/
inductive Producer where
  | idle
  | loadHead (topic : CString) (data : Buffer)
  | loadTail (topic : CString) (data : Buffer) (head : Nat)
  | fetchAdd
  | writeTopic (topic : CString) (data : Buffer) (head : Nat)
  | writePayload (topic : CString) (data : Buffer) (head : Nat)
  | writeLength (topic : CString) (data : Buffer) (head : Nat)
  | storeHead (topic : CString) (data : Buffer) (head : Nat)

/-- Where `pop` or `clear` stands, with the index it loaded and what it has copied so far. -/
inductive Consumer where
  | idle
  | loadTail
  | loadHead (tail : Nat)
  | copyTopic (tail : Nat)
  | copyPayload (tail : Nat) (topic : List UInt8)
  | copyLength (tail : Nat) (topic payload : List UInt8)
  | storeTail (tail : Nat) (out : Message)
  | clearLoad
  | clearStore (head : Nat)

/-- The shared memory and the two threads. -/
structure System where
  slots : Nat → Message
  head : Nat
  tail : Nat
  dropped : Nat
  producer : Producer
  consumer : Consumer

/-- A ring nobody has used yet. -/
def System.initial (slotBytes : Nat) : System where
  slots := fun _ => .blank slotBytes
  head := 0
  tail := 0
  dropped := 0
  producer := .idle
  consumer := .idle

/-- `(index + 1) % Slots`, in 32-bit unsigned arithmetic. -/
def next (size index : Nat) : Nat := (index + 1) % 2 ^ 32 % size

/-- One step of the thread inside `push`. -/
def producerStep (size : Nat) (s : System) : Option (System × List (Channel.Observation Message)) :=
  match s.producer with
  | .idle => none
  | .loadHead topic data => some ({ s with producer := .loadTail topic data s.head }, [])
  | .loadTail topic data head =>
      if next size head = s.tail then some ({ s with producer := .fetchAdd }, [])
      else some ({ s with producer := .writeTopic topic data head }, [])
  | .fetchAdd =>
      some ({ s with dropped := (s.dropped + 1) % 2 ^ 32, producer := .idle }, [.refused])
  | .writeTopic topic data head =>
      let slot := { s.slots head with topic := snprintf (s.slots head).topic topicBytes topic }
      some ({ s with
        slots := Function.update s.slots head slot, producer := .writePayload topic data head }, [])
  | .writePayload topic data head =>
      let payload := match data.data with
        | some bytes => overwrite (s.slots head).payload bytes
        | none => (s.slots head).payload
      let slot := { s.slots head with payload := payload }
      some ({ s with
        slots := Function.update s.slots head slot, producer := .writeLength topic data head }, [])
  | .writeLength topic data head =>
      let slot := { s.slots head with length := data.len }
      some ({ s with
        slots := Function.update s.slots head slot, producer := .storeHead topic data head }, [])
  | .storeHead _ _ head =>
      some ({ s with head := next size head, producer := .idle }, [.pushed (s.slots head)])

/-- One step of the thread inside `pop` or `clear`. -/
def consumerStep (size : Nat) (s : System) : Option (System × List (Channel.Observation Message)) :=
  match s.consumer with
  | .idle => none
  | .loadTail => some ({ s with consumer := .loadHead s.tail }, [])
  | .loadHead tail =>
      if tail = s.head then some ({ s with consumer := .idle }, [.empty])
      else some ({ s with consumer := .copyTopic tail }, [])
  | .copyTopic tail =>
      some ({ s with consumer := .copyPayload tail (s.slots tail).topic }, [])
  | .copyPayload tail topic =>
      some ({ s with consumer := .copyLength tail topic (s.slots tail).payload }, [])
  | .copyLength tail topic payload =>
      some ({ s with consumer := .storeTail tail ⟨topic, payload, (s.slots tail).length⟩ }, [])
  | .storeTail tail out =>
      some ({ s with tail := next size tail, consumer := .idle }, [.popped out])
  | .clearLoad => some ({ s with consumer := .clearStore s.head }, [])
  | .clearStore head => some ({ s with tail := head, consumer := .idle }, [.cleared])

/-- What the scheduler may let happen next: a call on an idle thread, or the next step of a
thread inside a call. -/
inductive Action where
  | push (topic : Option CString) (data : Buffer)
  | pop
  | clear
  | producer
  | consumer

/-- One step of the system, with what a call that returns in it reports. -/
def exec (size slotBytes : Nat) (s : System) :
    Action → Option (System × List (Channel.Observation Message))
  | .push topic data =>
      match s.producer with
      | .idle =>
          match topic with
          | none => some ({ s with producer := .fetchAdd }, [])
          | some topic =>
              if slotBytes < data.len then some ({ s with producer := .fetchAdd }, [])
              else some ({ s with producer := .loadHead topic data }, [])
      | _ => none
  | .pop =>
      match s.consumer with
      | .idle => some ({ s with consumer := .loadTail }, [])
      | _ => none
  | .clear =>
      match s.consumer with
      | .idle => some ({ s with consumer := .clearLoad }, [])
      | _ => none
  | .producer => producerStep size s
  | .consumer => consumerStep size s

/-- The transition relation: a scheduler's choice together with what it made visible. -/
def Step (size slotBytes : Nat) (s : System)
    (label : Action × List (Channel.Observation Message)) (t : System) : Prop :=
  exec size slotBytes s label.1 = some (t, label.2)

/-- The number of distinct values an index takes. -/
def turn (size : Nat) : Nat := min size (2 ^ 32)

/-- The number of slots from `_tail` up to `_head`. -/
def occupied (size : Nat) (s : System) : Nat :=
  if s.tail ≤ s.head then s.head - s.tail else turn size - s.tail + s.head

/-- The contents of the slots from `_tail` up to `_head`, oldest first. -/
def queued (size : Nat) (s : System) : List Message :=
  (List.range (occupied size s)).map fun i => s.slots (Circular.position (turn size) s.tail i)

/-- A slot holds what a push was asked to store: the topic as far as it fits, the payload and
its length. -/
structure Stored (topic : CString) (data : Buffer) (slot : Message) : Prop where
  topic_eq : (CString.ofBytes slot.topic).bytes = topic.bytes.take (topicBytes - 1)
  payload_eq : ∀ bytes, data.data = some bytes → slot.payload.take data.len = bytes
  length_eq : slot.length = data.len

end FirmwareUpdater.SpscRing
