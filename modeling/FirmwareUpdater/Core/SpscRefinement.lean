import Mathlib.Data.List.Range
import FirmwareUpdater.Core.SpscRing

/-!
# The ring is a bounded FIFO channel

`Layout size s queue` ties a state of the ring, with both threads possibly in
the middle of a call, to the messages queued in it. Every step of either thread
keeps it and is matched by at most one channel event, so `ring_refines_channel`
gives every interleaving a channel history with the same visible results.
-/

namespace FirmwareUpdater.SpscRing

open Library Library.Circular

/-! ## Index arithmetic -/

/-- `(index + 1) % Slots` walks one slot, also where the 32-bit sum wraps. -/
theorem next_eq_position {size index : Nat} (hsize : 2 ≤ size) (hindex : index < turn size) :
    next size index = position (turn size) index 1 := by
  unfold next position turn at *
  by_cases hlast : index + 1 < min size (2 ^ 32)
  · rw [if_pos hlast, Nat.mod_eq_of_lt (by omega), Nat.mod_eq_of_lt (by omega)]
  · rw [if_neg hlast]
    rcases Nat.lt_or_ge size (2 ^ 32) with hsmall | hlarge
    · rw [show index + 1 = size by omega, Nat.mod_eq_of_lt hsmall, Nat.mod_self]
      omega
    · rw [show index + 1 = 2 ^ 32 by omega, Nat.mod_self, Nat.zero_mod]
      omega

/-- There are at least two index values. -/
theorem two_le_turn {size : Nat} (hsize : 2 ≤ size) : 2 ≤ turn size := by
  unfold turn
  omega

/-- Every index value is the index of a slot. -/
theorem turn_le (size : Nat) : turn size ≤ size := Nat.min_le_left _ _

/-! ## The invariant -/

/-- What the producer's program point knows. Past the fullness check there is still room, since
`_tail` only moves away from `_head`, and the slot it fills is not a queued one. -/
def ProducerOk (size : Nat) (s : System) (queue : List Message) : Prop :=
  match s.producer with
  | .idle | .fetchAdd => True
  | .loadHead _ _ => True
  | .loadTail _ _ head => head = s.head
  | .writeTopic _ _ head => head = s.head ∧ queue.length + 1 < turn size
  | .writePayload topic _ head =>
      head = s.head ∧ queue.length + 1 < turn size ∧
        (CString.ofBytes (s.slots head).topic).bytes = topic.bytes.take (topicBytes - 1)
  | .writeLength topic data head =>
      head = s.head ∧ queue.length + 1 < turn size ∧
        (CString.ofBytes (s.slots head).topic).bytes = topic.bytes.take (topicBytes - 1) ∧
        ∀ bytes, data.data = some bytes → (s.slots head).payload.take data.len = bytes
  | .storeHead topic data head =>
      head = s.head ∧ queue.length + 1 < turn size ∧ Stored topic data (s.slots head)

/-- What the consumer's program point knows: the slot it copies is the oldest queued one, and a
loaded `_head` bounds a prefix of the queue. -/
def ConsumerOk (size : Nat) (s : System) (queue : List Message) : Prop :=
  match s.consumer with
  | .idle | .loadTail | .clearLoad => True
  | .loadHead tail => tail = s.tail
  | .copyTopic tail => tail = s.tail ∧ queue ≠ []
  | .copyPayload tail topic =>
      tail = s.tail ∧ ∃ front rest, queue = front :: rest ∧ topic = front.topic
  | .copyLength tail topic payload =>
      tail = s.tail ∧
        ∃ front rest, queue = front :: rest ∧ topic = front.topic ∧ payload = front.payload
  | .storeTail tail out => tail = s.tail ∧ ∃ rest, queue = out :: rest
  | .clearStore head =>
      ∃ count ≤ queue.length, head = position (turn size) s.tail count

/-- The slots from `_tail` up to `_head` hold `queue`, and both threads know what they should. -/
structure Layout (size : Nat) (s : System) (queue : List Message) : Prop where
  tail_lt : s.tail < turn size
  room : queue.length < turn size
  head_eq : s.head = position (turn size) s.tail queue.length
  slots_eq : ∀ i (h : i < queue.length), s.slots (position (turn size) s.tail i) = queue[i]
  producer_ok : ProducerOk size s queue
  consumer_ok : ConsumerOk size s queue

variable {size slotBytes : Nat} {s t : System} {queue : List Message}

/-- The ring starts empty. -/
theorem layout_initial (hsize : 2 ≤ size) :
    Layout size (System.initial slotBytes) [] where
  tail_lt := Nat.lt_of_lt_of_le (by simp [System.initial]) (two_le_turn hsize)
  room := Nat.lt_of_lt_of_le (by simp) (two_le_turn hsize)
  head_eq := by
    have := two_le_turn hsize
    simp only [System.initial, List.length_nil]
    exact (position_zero (by omega)).symm
  slots_eq := by simp
  producer_ok := trivial
  consumer_ok := trivial

/-- The queued messages are the contents of the slots from `_tail` up to `_head`. -/
theorem Layout.queued_eq (h : Layout size s queue) : queued size s = queue := by
  have hcount : occupied size s = queue.length := by
    have htail := h.tail_lt
    have hroom := h.room
    have hhead := h.head_eq
    unfold occupied
    unfold position at hhead
    split at hhead <;> split <;> omega
  apply List.ext_getElem
  · simp [queued, hcount]
  · intro i _ hi
    simpa [queued] using h.slots_eq i hi

/-- Writing the slot at `_head` leaves every queued slot alone. -/
theorem Layout.slots_update (h : Layout size s queue) (slot : Message) :
    ∀ i (hi : i < queue.length),
      Function.update s.slots s.head slot (position (turn size) s.tail i) = queue[i] := by
  intro i hi
  rw [Function.update_of_ne, h.slots_eq i hi]
  rw [h.head_eq]
  exact position_ne _ hi h.room

/-- A step of the producer before it publishes: `_head`, `_tail` and the consumer stay as they
were, and the slots keep what is queued. -/
theorem Layout.producing (h : Layout size s queue) (slots : Nat → Message) (producer : Producer)
    (dropped : Nat)
    (hslots : ∀ i (hi : i < queue.length),
      slots (position (turn size) s.tail i) = queue[i])
    (hproducer : ProducerOk size { s with slots, producer, dropped } queue) :
    Layout size { s with slots, producer, dropped } queue :=
  ⟨h.tail_lt, h.room, h.head_eq, hslots, hproducer, h.consumer_ok⟩

/-- A step of the consumer before it moves `_tail`. -/
theorem Layout.consuming (h : Layout size s queue) (consumer : Consumer)
    (hconsumer : ConsumerOk size { s with consumer } queue) :
    Layout size { s with consumer } queue :=
  ⟨h.tail_lt, h.room, h.head_eq, h.slots_eq, h.producer_ok, hconsumer⟩

/-- With a message queued, the slot at `_tail` is the oldest. -/
theorem Layout.front_eq {front : Message} {rest : List Message}
    (h : Layout size s (front :: rest)) : s.slots s.tail = front := by
  have hslot := h.slots_eq 0 (by simp)
  rwa [position_zero h.tail_lt] at hslot

/-- A fullness check that passed leaves room for one more. -/
theorem Layout.room_of_next_ne (h : Layout size s queue) (hsize : 2 ≤ size)
    (hne : next size s.head ≠ s.tail) : queue.length + 1 < turn size := by
  have htail := h.tail_lt
  have hroom := h.room
  have hhead : s.head < turn size := h.head_eq ▸ position_lt htail hroom.le
  rw [next_eq_position hsize hhead, h.head_eq, position_add htail hroom] at hne
  rcases Nat.lt_or_ge (queue.length + 1) (turn size) with hlt | hge
  · exact hlt
  · refine absurd ?_ hne
    rw [show queue.length + 1 = turn size by omega]
    unfold position
    split <;> omega

/-! ## Publishing and removing -/

/-- Storing `_head` publishes the slot the producer filled. -/
theorem Layout.publish (h : Layout size s queue) (hsize : 2 ≤ size)
    (hroom : queue.length + 1 < turn size) :
    Layout size { s with head := next size s.head, producer := .idle }
      (queue ++ [s.slots s.head]) where
  tail_lt := h.tail_lt
  room := by simpa using hroom
  head_eq := by
    have hhead : s.head < turn size := h.head_eq ▸ position_lt h.tail_lt h.room.le
    rw [next_eq_position hsize hhead, h.head_eq, position_add h.tail_lt h.room]
    simp
  slots_eq := by
    intro i hi
    rcases Nat.lt_or_ge i queue.length with hlt | hge
    · rw [List.getElem_append_left hlt]
      exact h.slots_eq i hlt
    · have hlast : i = queue.length := by
        rw [List.length_append, List.length_singleton] at hi
        omega
      subst hlast
      simp [h.head_eq]
  producer_ok := trivial
  consumer_ok := by
    have hconsumer := h.consumer_ok
    cases hpc : s.consumer <;> simp only [ConsumerOk, hpc] at hconsumer ⊢
    case copyTopic => exact ⟨hconsumer.1, by simp⟩
    case copyPayload | copyLength =>
      obtain ⟨htail, front, rest, rfl, hcopied⟩ := hconsumer
      exact ⟨htail, front, rest ++ [s.slots s.head], rfl, hcopied⟩
    case storeTail =>
      obtain ⟨htail, rest, rfl⟩ := hconsumer
      exact ⟨htail, rest ++ [s.slots s.head], rfl⟩
    case clearStore =>
      obtain ⟨count, hcount, hhead⟩ := hconsumer
      exact ⟨count, by rw [List.length_append]; omega, hhead⟩
    all_goals exact hconsumer

/-- Moving `_tail` over `count` slots removes the `count` oldest messages. -/
theorem Layout.remove (h : Layout size s queue) (count : Nat) (hcount : count ≤ queue.length) :
    Layout size { s with tail := position (turn size) s.tail count, consumer := .idle }
      (queue.drop count) where
  tail_lt := position_lt h.tail_lt (by have := h.room; omega)
  room := by
    have := h.room
    rw [List.length_drop]
    omega
  head_eq := by
    have := h.room
    rw [List.length_drop, position_add h.tail_lt (by omega), h.head_eq]
    congr 1
    omega
  slots_eq := by
    intro i hi
    have := h.room
    rw [List.length_drop] at hi
    rw [position_add h.tail_lt (by omega), List.getElem_drop]
    exact h.slots_eq (count + i) (by omega)
  producer_ok := by
    have hproducer := h.producer_ok
    have hlength : (queue.drop count).length ≤ queue.length := by
      rw [List.length_drop]
      omega
    cases hpc : s.producer <;> simp only [ProducerOk, hpc] at hproducer ⊢
    case loadTail => exact hproducer
    case writeTopic => exact ⟨hproducer.1, by omega⟩
    case writePayload | writeLength | storeHead =>
      exact ⟨hproducer.1, by omega, hproducer.2.2⟩
  consumer_ok := trivial

/-! ## One step -/

/-- Every step of the producer is matched by the channel. -/
theorem producer_step_matched (hsize : 2 ≤ size) (h : Layout size s queue)
    {shown : List (Channel.Observation Message)} (hstep : producerStep size s = some (t, shown)) :
    ∃ events next, Run (Channel.Step (size - 1)) queue events next ∧
      events.map Channel.Event.observe = shown ∧ Layout size t next := by
  have hproducer := h.producer_ok
  unfold producerStep at hstep
  -- Only a refusal and the store of `_head` show anything; the rest is silent on the channel.
  cases hpc : s.producer with
  | idle => simp [hpc] at hstep
  | loadHead topic data =>
      simp only [hpc, Option.some.injEq, Prod.mk.injEq] at hstep
      obtain ⟨rfl, rfl⟩ := hstep
      exact ⟨[], queue, .nil _, rfl, h.producing _ _ _ h.slots_eq rfl⟩
  | loadTail topic data head =>
      simp only [ProducerOk, hpc] at hproducer
      subst hproducer
      simp only [hpc] at hstep
      split at hstep
      · cases hstep
        exact ⟨[], queue, .nil _, rfl, h.producing _ _ _ h.slots_eq trivial⟩
      · rename_i hne
        cases hstep
        exact ⟨[], queue, .nil _, rfl,
          h.producing _ _ _ h.slots_eq ⟨rfl, h.room_of_next_ne hsize hne⟩⟩
  | fetchAdd =>
      simp only [hpc, Option.some.injEq, Prod.mk.injEq] at hstep
      obtain ⟨rfl, rfl⟩ := hstep
      exact ⟨[.refused], queue, .single (.refused _), rfl,
        h.producing _ _ _ h.slots_eq trivial⟩
  | writeTopic topic data head =>
      simp only [ProducerOk, hpc] at hproducer
      obtain ⟨rfl, hroom⟩ := hproducer
      simp only [hpc, Option.some.injEq, Prod.mk.injEq] at hstep
      obtain ⟨rfl, rfl⟩ := hstep
      refine ⟨[], queue, .nil _, rfl, h.producing _ _ _ (h.slots_update _) ?_⟩
      refine ⟨rfl, hroom, ?_⟩
      simpa using CString.ofBytes_snprintf (by decide) (s.slots s.head).topic topic
  | writePayload topic data head =>
      simp only [ProducerOk, hpc] at hproducer
      obtain ⟨rfl, hroom, htopic⟩ := hproducer
      simp only [hpc, Option.some.injEq, Prod.mk.injEq] at hstep
      obtain ⟨rfl, rfl⟩ := hstep
      refine ⟨[], queue, .nil _, rfl, h.producing _ _ _ (h.slots_update _) ?_⟩
      refine ⟨rfl, hroom, by simpa using htopic, ?_⟩
      intro bytes hbytes
      simp [hbytes, ← data.sized bytes hbytes, take_overwrite]
  | writeLength topic data head =>
      simp only [ProducerOk, hpc] at hproducer
      obtain ⟨rfl, hroom, htopic, hpayload⟩ := hproducer
      simp only [hpc, Option.some.injEq, Prod.mk.injEq] at hstep
      obtain ⟨rfl, rfl⟩ := hstep
      refine ⟨[], queue, .nil _, rfl, h.producing _ _ _ (h.slots_update _) ?_⟩
      exact ⟨rfl, hroom, by simpa using htopic, by simpa using hpayload, by simp⟩
  | storeHead topic data head =>
      simp only [ProducerOk, hpc] at hproducer
      obtain ⟨rfl, hroom, _⟩ := hproducer
      simp only [hpc, Option.some.injEq, Prod.mk.injEq] at hstep
      obtain ⟨rfl, rfl⟩ := hstep
      have hcapacity : queue.length < size - 1 := by
        have := turn_le size
        omega
      exact ⟨[.pushed _], _, .single (.pushed _ _ hcapacity), rfl, h.publish hsize hroom⟩

/-- Every step of the consumer is matched by the channel. -/
theorem consumer_step_matched (hsize : 2 ≤ size) (h : Layout size s queue)
    {shown : List (Channel.Observation Message)} (hstep : consumerStep size s = some (t, shown)) :
    ∃ events next, Run (Channel.Step (size - 1)) queue events next ∧
      events.map Channel.Event.observe = shown ∧ Layout size t next := by
  have hconsumer := h.consumer_ok
  unfold consumerStep at hstep
  -- The channel moves when `_tail` is stored, and when a pop finds nothing.
  cases hpc : s.consumer with
  | idle => simp [hpc] at hstep
  | loadTail =>
      simp only [hpc, Option.some.injEq, Prod.mk.injEq] at hstep
      obtain ⟨rfl, rfl⟩ := hstep
      exact ⟨[], queue, .nil _, rfl, h.consuming _ rfl⟩
  | loadHead tail =>
      simp only [ConsumerOk, hpc] at hconsumer
      subst hconsumer
      simp only [hpc] at hstep
      split at hstep
      · rename_i hempty
        cases hstep
        -- The ring never holds a whole turn, so equal indexes mean that it holds nothing.
        have hnil : queue = [] := by
          have := h.head_eq
          have := h.room
          apply List.eq_nil_of_length_eq_zero
          by_contra hne
          have hdiff := position_ne s.tail (Nat.pos_of_ne_zero hne) h.room
          rw [position_zero h.tail_lt, ← h.head_eq] at hdiff
          exact hdiff hempty
        subst hnil
        exact ⟨[.empty], [], .single .empty, rfl, h.consuming _ trivial⟩
      · rename_i hne
        cases hstep
        refine ⟨[], queue, .nil _, rfl, h.consuming _ ⟨rfl, ?_⟩⟩
        rintro rfl
        exact hne (by rw [h.head_eq]; simp [h.tail_lt])
  | copyTopic tail =>
      simp only [ConsumerOk, hpc] at hconsumer
      obtain ⟨rfl, hne⟩ := hconsumer
      simp only [hpc, Option.some.injEq, Prod.mk.injEq] at hstep
      obtain ⟨rfl, rfl⟩ := hstep
      obtain ⟨front, rest, rfl⟩ := List.exists_cons_of_ne_nil hne
      exact ⟨[], _, .nil _, rfl,
        h.consuming _ ⟨rfl, front, rest, rfl, by rw [h.front_eq]⟩⟩
  | copyPayload tail topic =>
      simp only [ConsumerOk, hpc] at hconsumer
      obtain ⟨rfl, front, rest, rfl, rfl⟩ := hconsumer
      simp only [hpc, Option.some.injEq, Prod.mk.injEq] at hstep
      obtain ⟨rfl, rfl⟩ := hstep
      exact ⟨[], _, .nil _, rfl,
        h.consuming _ ⟨rfl, front, rest, rfl, rfl, by rw [h.front_eq]⟩⟩
  | copyLength tail topic payload =>
      simp only [ConsumerOk, hpc] at hconsumer
      obtain ⟨rfl, front, rest, rfl, rfl, rfl⟩ := hconsumer
      simp only [hpc, Option.some.injEq, Prod.mk.injEq] at hstep
      obtain ⟨rfl, rfl⟩ := hstep
      exact ⟨[], _, .nil _, rfl, h.consuming _ ⟨rfl, rest, by rw [h.front_eq]⟩⟩
  | storeTail tail out =>
      simp only [ConsumerOk, hpc] at hconsumer
      obtain ⟨rfl, rest, rfl⟩ := hconsumer
      simp only [hpc, Option.some.injEq, Prod.mk.injEq] at hstep
      obtain ⟨rfl, rfl⟩ := hstep
      rw [next_eq_position hsize h.tail_lt]
      exact ⟨[.popped out], rest, .single (.popped _ _), rfl, h.remove 1 (by simp)⟩
  | clearLoad =>
      simp only [hpc, Option.some.injEq, Prod.mk.injEq] at hstep
      obtain ⟨rfl, rfl⟩ := hstep
      exact ⟨[], queue, .nil _, rfl, h.consuming _ ⟨queue.length, le_rfl, h.head_eq⟩⟩
  | clearStore head =>
      simp only [ConsumerOk, hpc] at hconsumer
      obtain ⟨count, hcount, rfl⟩ := hconsumer
      simp only [hpc, Option.some.injEq, Prod.mk.injEq] at hstep
      obtain ⟨rfl, rfl⟩ := hstep
      -- What was published after the load of `_head` stays in the queue.
      have hclear : Channel.Step (size - 1) (queue.take count ++ queue.drop count)
          (.cleared (queue.take count)) (queue.drop count) := .cleared _ _
      rw [List.take_append_drop] at hclear
      exact ⟨[.cleared (queue.take count)], _, .single hclear, rfl, h.remove count hcount⟩

/-- Starting a call changes the caller's program point only. -/
theorem call_step_matched (h : Layout size s queue) {action : Action}
    {shown : List (Channel.Observation Message)}
    (hstep : exec size slotBytes s action = some (t, shown))
    (hproducer : action ≠ .producer) (hconsumer : action ≠ .consumer) :
    shown = [] ∧ Layout size t queue := by
  cases action with
  | push topic data =>
      simp only [exec] at hstep
      split at hstep
      · split at hstep
        · cases hstep
          exact ⟨rfl, h.producing _ _ _ h.slots_eq trivial⟩
        · split at hstep <;> cases hstep <;>
            exact ⟨rfl, h.producing _ _ _ h.slots_eq trivial⟩
      · cases hstep
  | pop | clear =>
      simp only [exec] at hstep
      split at hstep <;> cases hstep
      exact ⟨rfl, h.consuming _ trivial⟩
  | producer => exact (hproducer rfl).elim
  | consumer => exact (hconsumer rfl).elim

/-- Every step of the system is matched by the channel. -/
theorem step_matched (hsize : 2 ≤ size) (h : Layout size s queue)
    {label : Action × List (Channel.Observation Message)}
    (hstep : Step size slotBytes s label t) :
    ∃ events next, Run (Channel.Step (size - 1)) queue events next ∧
      events.map Channel.Event.observe = label.2 ∧ Layout size t next := by
  obtain ⟨action, shown⟩ := label
  cases action with
  | producer => exact producer_step_matched hsize h hstep
  | consumer => exact consumer_step_matched hsize h hstep
  | push | pop | clear =>
      obtain ⟨rfl, hlayout⟩ := call_step_matched h hstep (by simp) (by simp)
      exact ⟨[], queue, .nil _, rfl, hlayout⟩

/-- Every interleaving of the two threads is, call result by call result, a history of the
channel, which ends with exactly the messages the ring holds. -/
theorem ring_refines_channel (hsize : 2 ≤ size)
    {trace : List (Action × List (Channel.Observation Message))}
    (hrun : Run (Step size slotBytes) (System.initial slotBytes) trace s) :
    ∃ history, Run (Channel.Step (size - 1)) [] history (queued size s) ∧
      history.map Channel.Event.observe = trace.flatMap Prod.snd ∧
      Layout size s (queued size s) := by
  obtain ⟨history, queue, hhistory, hshown, hlayout⟩ :=
    hrun.simulation (Layout size) Channel.Event.observe
      (fun _ _ _ _ hrel hstep => step_matched hsize hrel hstep) (layout_initial hsize)
  rw [hlayout.queued_eq]
  exact ⟨history, hhistory, hshown, hlayout⟩

/-! ## The drop counter -/

/-- A step counts exactly the refusals it shows. -/
theorem step_dropped {label : Action × List (Channel.Observation Message)}
    (hdropped : s.dropped < 2 ^ 32) (hstep : Step size slotBytes s label t) :
    t.dropped = (s.dropped + Channel.refusals label.2) % 2 ^ 32 := by
  obtain ⟨action, shown⟩ := label
  have hkeep : s.dropped = (s.dropped + 0) % 2 ^ 32 := by omega
  cases action with
  | push | pop | clear =>
      simp only [Step, exec] at hstep
      repeat' split at hstep
      all_goals cases hstep
      all_goals exact hkeep
  | producer =>
      simp only [Step, exec, producerStep] at hstep
      repeat' split at hstep
      all_goals cases hstep
      all_goals first | exact hkeep | rfl
  | consumer =>
      simp only [Step, exec, consumerStep] at hstep
      repeat' split at hstep
      all_goals cases hstep
      all_goals exact hkeep

/-- The counter is the number of refusals so far, modulo its width. -/
theorem run_dropped {trace : List (Action × List (Channel.Observation Message))}
    (hrun : Run (Step size slotBytes) s trace t) (hdropped : s.dropped < 2 ^ 32) :
    t.dropped = (s.dropped + Channel.refusals (trace.flatMap Prod.snd)) % 2 ^ 32 := by
  induction hrun with
  | nil => exact (Nat.mod_eq_of_lt hdropped).symm
  | cons hstep _ ih =>
      have hmiddle := step_dropped hdropped hstep
      rw [ih (by omega), hmiddle, List.flatMap_cons, Channel.refusals_append]
      omega

/-! ## What a caller may rely on -/

/-- The indexes stay inside the slot array. -/
theorem indexes_lt (hsize : 2 ≤ size)
    {trace : List (Action × List (Channel.Observation Message))}
    (hrun : Run (Step size slotBytes) (System.initial slotBytes) trace s) :
    s.head < size ∧ s.tail < size := by
  obtain ⟨_, _, _, hlayout⟩ := ring_refines_channel hsize hrun
  have hturn := turn_le size
  have hhead : s.head < turn size :=
    hlayout.head_eq ▸ position_lt hlayout.tail_lt hlayout.room.le
  exact ⟨by omega, by have := hlayout.tail_lt; omega⟩

/-- What a step of either thread does to the queued messages is what the channel does where the
step shows it: a message enters with a publication and leaves, from the front, with a pop or a
clear, and a step that shows nothing leaves the queue alone. -/
theorem step_queued (hsize : 2 ≤ size)
    {trace : List (Action × List (Channel.Observation Message))}
    (hrun : Run (Step size slotBytes) (System.initial slotBytes) trace s)
    {label : Action × List (Channel.Observation Message)} (hstep : Step size slotBytes s label t) :
    ∃ events, Run (Channel.Step (size - 1)) (queued size s) events (queued size t) ∧
      events.map Channel.Event.observe = label.2 := by
  obtain ⟨_, _, _, hlayout⟩ := ring_refines_channel hsize hrun
  obtain ⟨events, next, hevents, hshown, hnext⟩ := step_matched hsize hlayout hstep
  rw [hnext.queued_eq]
  exact ⟨events, hevents, hshown⟩

/-- Every interleaving of a producer and a consumer uses the ring as a lossless FIFO channel. What
the calls show is a history of the channel, and every further step moves the queue as the channel
moves it. The published slot contents are, in order, those that left and those still queued; the
ones that left were popped, in order and once each, or are among what a clear threw away; a push
about to publish has filled its slot with what it was given; and `_dropped` counts the refused
pushes. -/
theorem ring_lossless_fifo (hsize : 2 ≤ size)
    {trace : List (Action × List (Channel.Observation Message))}
    (hrun : Run (Step size slotBytes) (System.initial slotBytes) trace s) :
    ∃ history : List (Channel.Event Message),
      Run (Channel.Step (size - 1)) [] history (queued size s) ∧
      history.map Channel.Event.observe = trace.flatMap Prod.snd ∧
      (∀ label t, Step size slotBytes s label t → ∃ events,
        Run (Channel.Step (size - 1)) (queued size s) events (queued size t) ∧
          events.map Channel.Event.observe = label.2) ∧
      Channel.pushes (trace.flatMap Prod.snd) =
        (Channel.removals history).map Prod.fst ++ queued size s ∧
      Channel.pops (trace.flatMap Prod.snd) =
        ((Channel.removals history).filter (·.2 = .popped)).map Prod.fst ∧
      (∀ message, (message, .discarded) ∈ Channel.removals history →
        ∃ discarded, .cleared discarded ∈ history ∧ message ∈ discarded) ∧
      (queued size s).length ≤ size - 1 ∧
      s.dropped = Channel.refusals (trace.flatMap Prod.snd) % 2 ^ 32 ∧
      ∀ topic data head, s.producer = .storeHead topic data head →
        Stored topic data (s.slots head) := by
  obtain ⟨history, hhistory, hshown, hlayout⟩ := ring_refines_channel hsize hrun
  rw [← hshown]
  refine ⟨history, hhistory, rfl, fun _ _ hstep => step_queued hsize hrun hstep, ?_,
    Channel.pops_eq_removals history, fun _ => Channel.clear_of_discarded,
    Channel.length_le_capacity hhistory (Nat.zero_le _), ?_, ?_⟩
  · simpa using Channel.channel_conserves hhistory
  · rw [hshown]
    simpa [System.initial] using run_dropped hrun (by simp [System.initial])
  · intro topic data head hpc
    have hproducer := hlayout.producer_ok
    simp only [ProducerOk, hpc] at hproducer
    exact hproducer.2.2

/-- One message pushed and popped on the smallest ring. -/
theorem ring_lossless_fifo_push_pop :
    ∃ (trace : List (Action × List (Channel.Observation Message))) (s : System),
      Run (Step 2 1) (System.initial 1) trace s ∧
      Channel.pops (trace.flatMap Prod.snd) =
        [⟨116 :: List.replicate 95 0, [7], 1⟩] ∧
      ∃ history : List (Channel.Event Message),
        Run (Channel.Step 1) [] history (queued 2 s) ∧
        Channel.pushes (trace.flatMap Prod.snd) =
          (Channel.removals history).map Prod.fst ++ queued 2 s := by
  have hrun := @Run.of_execAll _ _ _ (exec 2 1) (System.initial 1) _
    (.push (some ⟨[116], by decide⟩) ⟨some [7], 1, by simp⟩ ::
      (List.replicate 6 .producer ++ .pop :: List.replicate 6 .consumer)) _ rfl
  obtain ⟨history, hhistory, _, _, hpushes, _⟩ := ring_lossless_fifo (by decide) hrun
  exact ⟨_, _, hrun, rfl, history, hhistory, hpushes⟩

end FirmwareUpdater.SpscRing
