import FirmwareUpdater.Core.SpscRefinement
import FirmwareUpdater.Esp32.TopicFidelity

/-!
# Where received messages end up

The esp-mqtt task, which handles events and pushes into the ring, and the application,
which polls, as one system over the ring's shared memory: an event is handled when the
push before it has returned, and everything else interleaves in any order. The system
remembers which message arrives and which one is being pushed, so what happens to each
can be said: `received_accounted` follows every received message to a poll, to a slot
of the ring or to the drop counter.
-/

namespace FirmwareUpdater

open Library EspMqttClient

/-- The client, its ring and the two tasks: the message that arrives with the fragments that came
and those to come, the message whose push is under way, and the `poll` under way. -/
structure EspSystem where
  client : EspMqttClient
  ring : SpscRing.System := .initial ringSlotBytes
  arriving : Option (Inbound × List (List UInt8) × List (List UInt8)) := none
  pushing : Option Inbound := none
  polling : Option PollCall := none

/-- What may happen next: an event of the first or the next fragment of a message, a change of the
connection, a call of the application, or the next step of a task inside `push` or `poll`. -/
inductive EspAction where
  | arrive (m : Inbound)
  | resume
  | connect
  | disconnect
  | reserveTopic (topic : Option CString)
  | setDirectCallback (installed : Bool)
  | poll (call : PollCall)
  | producer
  | consumer

/-- What a step makes visible: a message whose last fragment came, a call of the direct callback,
what became of a push, and what a `poll` popped before it returned. -/
inductive EspShown where
  | received (m : Inbound)
  | direct (topic : CString) (payload : List UInt8)
  | stored (m : Inbound) (slot : SpscRing.Message)
  | refused (m : Inbound)
  | polled (call : PollCall) (msg : Option SpscRing.Message)

namespace EspLog

/-- The messages received. -/
def received : List EspShown → List Inbound :=
  List.filterMap fun | .received m => some m | _ => none

/-- The messages whose push returned, with the slot it filled or none. -/
def settled : List EspShown → List (Inbound × Option SpscRing.Message) :=
  List.filterMap fun
    | .stored m slot => some (m, some slot)
    | .refused m => some (m, none)
    | _ => none

/-- What a `poll` returned, given what it popped. -/
def result (call : PollCall) (msg : Option SpscRing.Message) : PollResult :=
  msg.elim (pollEmpty call) (pollPopped call)

/-- The messages given out by a `poll` that returned true. -/
def returned : List EspShown → List SpscRing.Message :=
  List.filterMap fun
    | .polled call msg => if (result call msg).ok then msg else none
    | _ => none

/-- The results of the ring's operations. -/
def ring : List EspShown → List (Channel.Observation SpscRing.Message) :=
  List.filterMap fun
    | .stored _ slot => some (.pushed slot)
    | .refused _ => some .refused
    | .polled _ (some msg) => some (.popped msg)
    | .polled _ none => some .empty
    | _ => none

/-- How a push of a message returned. -/
def ofPush (m : Inbound) : Channel.Observation SpscRing.Message → Option EspShown
  | .pushed slot => some (.stored m slot)
  | .refused => some (.refused m)
  | _ => none

/-- How a pop in a `poll` returned. -/
def ofPop (call : PollCall) : Channel.Observation SpscRing.Message → Option EspShown
  | .popped msg => some (.polled call (some msg))
  | .empty => some (.polled call none)
  | _ => none

end EspLog

namespace EspSystem

open EspLog

/-- The esp-mqtt task is inside `push`. -/
def busy (s : EspSystem) : Bool :=
  match s.ring.producer with
  | .idle => false
  | _ => true

/-- Handle the event of a fragment, the last one if no `rest` is to come. -/
def event (s : EspSystem) (m : Inbound) (e : MqttEvent) (before rest : List (List UInt8)) :
    Option (EspSystem × List EspShown) :=
  let (client, delivery) := s.client.handle e
  let s := { s with client, arriving := if rest = [] then none else some (m, before, rest) }
  let shown := if rest = [] then [.received m] else []
  match delivery with
  | none => some (s, shown)
  | some (.direct topic payload) => some (s, shown ++ [.direct topic payload])
  | some (.push topic payload) =>
      (SpscRing.exec ringSlots ringSlotBytes s.ring (.push (some topic) (block payload))).map
        fun (ring, _) => ({ s with ring, pushing := some m }, shown)

/-- One step of the system. -/
def exec (s : EspSystem) : EspAction → Option (EspSystem × List EspShown)
  | .arrive m =>
      if s.busy || s.arriving.isSome then none else s.event m m.firstEvent [m.first] m.others
  | .resume =>
      match s.arriving with
      | some (m, before, piece :: rest) =>
          if s.busy then none
          else
            s.event m (.data none piece m.payload.length before.flatten.length)
              (before ++ [piece]) rest
      | _ => none
  | .connect =>
      if s.busy then none else some ({ s with client := (s.client.handle .connected).1 }, [])
  | .disconnect =>
      if s.busy then none
      else some ({ s with client := (s.client.handle .disconnected).1, arriving := none }, [])
  | .reserveTopic topic => some ({ s with client := s.client.reserveTopic topic }, [])
  | .setDirectCallback installed =>
      some ({ s with client := s.client.setDirectCallback installed }, [])
  | .poll call =>
      if s.polling.isSome then none
      else
        (SpscRing.exec ringSlots ringSlotBytes s.ring .pop).map
          fun (ring, _) => ({ s with ring, polling := some call }, [])
  | .producer =>
      match s.pushing with
      | none => none
      | some m =>
          (SpscRing.exec ringSlots ringSlotBytes s.ring .producer).map fun (ring, shown) =>
            ({ s with ring, pushing := if shown = [] then some m else none },
              shown.filterMap (ofPush m))
  | .consumer =>
      match s.polling with
      | none => none
      | some call =>
          (SpscRing.exec ringSlots ringSlotBytes s.ring .consumer).map fun (ring, shown) =>
            ({ s with ring, polling := if shown = [] then some call else none },
              shown.filterMap (ofPop call))

/-- The transition relation. -/
def Step (s : EspSystem) (label : EspAction × List EspShown) (t : EspSystem) : Prop :=
  s.exec label.1 = some (t, label.2)

/-- A message that is complete goes into the ring: no assembly overflows on it, and the text read
at its topic is reserved or no direct callback is installed. -/
def Queues (c : EspMqttClient) (m : Inbound) : Prop :=
  m.Fits ∧ (c.direct = false ∨ c.isReserved m.seen = true)

/-- A step that loses nothing: the message it completes goes into the ring, and the message it pops
fits where the `poll` writes. -/
def Safe (s : EspSystem) : EspAction → Prop
  | .arrive m => m.others = [] → Queues s.client m
  | .resume =>
      match s.arriving with
      | some (m, _, [_]) => Queues s.client m
      | _ => True
  | .consumer =>
      match s.polling, s.ring.consumer with
      | some call, .storeTail _ out => out.length ≤ call.payloadCap
      | _, _ => True
  | _ => True

instance (c : EspMqttClient) (m : Inbound) : Decidable (Queues c m) :=
  inferInstanceAs (Decidable (_ ∧ _))

instance (s : EspSystem) : ∀ action, Decidable (Safe s action)
  | .arrive m => inferInstanceAs (Decidable (m.others = [] → Queues s.client m))
  | .resume | .consumer => by
      dsimp only [Safe]
      split <;> infer_instance
  | .connect | .disconnect | .reserveTopic _ | .setDirectCallback _ | .poll _ | .producer =>
      isTrue trivial

/-- The steps that are safe. -/
def SafeStep (s : EspSystem) (label : EspAction × List EspShown) (t : EspSystem) : Prop :=
  Step s label t ∧ Safe s label.1

/-- What the task inside `push` pushes is the message that is being pushed. -/
def PushOk (producer : SpscRing.Producer) (pushing : Option Inbound) : Prop :=
  match producer with
  | .idle => pushing = none
  | .fetchAdd => pushing ≠ none
  | .loadHead topic data | .loadTail topic data _ | .writeTopic topic data _
  | .writePayload topic data _ | .writeLength topic data _ | .storeHead topic data _ =>
      ∃ m, pushing = some m ∧ topic = m.seen ∧ data = block m.payload

/-- The application pops only in a `poll`, and never clears. -/
def PollOk (consumer : SpscRing.Consumer) (polling : Option PollCall) : Prop :=
  match consumer with
  | .idle => polling = none
  | .clearLoad | .clearStore _ => False
  | _ => polling ≠ none

/-- What every safe run keeps: the ring's memory is that of a run of the ring, the tasks are where
the system remembers them to be, and the client holds what came of the message that arrives. -/
structure Inv (s : EspSystem) : Prop where
  reachable : ∃ trace,
    Run (SpscRing.Step ringSlots ringSlotBytes) (.initial ringSlotBytes) trace s.ring
  progress : ∀ m before rest, s.arriving = some (m, before, rest) →
    rest ≠ [] ∧ Progress s.client m before rest
  push : PushOk s.ring.producer s.pushing
  poll : PollOk s.ring.consumer s.polling

/-- What a safe run shows: a message stored is in its slot, and a message popped is returned. -/
def Sound : EspShown → Prop
  | .stored m slot => SpscRing.Stored m.seen (block m.payload) slot
  | .polled call (some msg) => msg.length ≤ call.payloadCap
  | _ => True

/-- What a safe step does to the messages: those that were being pushed or complete are settled or
being pushed, and the ring takes the steps that its results are of. -/
structure Moves (s : EspSystem) (shown : List EspShown) (t : EspSystem) : Prop where
  kept : s.pushing.toList ++ received shown = (settled shown).map Prod.fst ++ t.pushing.toList
  ring : ∃ trace, Run (SpscRing.Step ringSlots ringSlotBytes) s.ring trace t.ring ∧
    trace.flatMap Prod.snd = EspLog.ring shown
  sound : ∀ item ∈ shown, Sound item

variable {s t : EspSystem} {action : EspAction} {shown : List EspShown}

/-- The ring's memory goes on being that of a run. -/
theorem Inv.reach (h : Inv s) (hmoves : Moves s shown t) : ∃ trace,
    Run (SpscRing.Step ringSlots ringSlotBytes) (.initial ringSlotBytes) trace t.ring := by
  obtain ⟨before, hbefore⟩ := h.reachable
  obtain ⟨trace, htrace, -⟩ := hmoves.ring
  exact ⟨before ++ trace, hbefore.append htrace⟩

section Ring

variable {ring next : SpscRing.System} {results : List (Channel.Observation SpscRing.Message)}

/-- A step inside `push` goes on with the same message, is refused, or publishes the slot it
filled. -/
theorem producer_cases {m : Inbound} {trace : List (SpscRing.Action ×
      List (Channel.Observation SpscRing.Message))}
    (hreachable : Run (SpscRing.Step ringSlots ringSlotBytes) (.initial ringSlotBytes) trace ring)
    (hpush : PushOk ring.producer (some m))
    (hstep : SpscRing.producerStep ringSlots ring = some (next, results)) :
    next.consumer = ring.consumer ∧
      (results = [] ∧ PushOk next.producer (some m) ∨
        results = [.refused] ∧ next.producer = .idle ∨
        ∃ slot, results = [.pushed slot] ∧ next.producer = .idle ∧
          SpscRing.Stored m.seen (block m.payload) slot) := by
  obtain ⟨-, -, -, hlayout⟩ := SpscRing.ring_refines_channel (by decide) hreachable
  have hproducer := hlayout.producer_ok
  unfold SpscRing.producerStep at hstep
  cases hpc : ring.producer with
  | idle => simp [hpc] at hstep
  | fetchAdd =>
      simp only [hpc, Option.some.injEq, Prod.mk.injEq] at hstep
      obtain ⟨rfl, rfl⟩ := hstep
      exact ⟨rfl, .inr (.inl ⟨rfl, rfl⟩)⟩
  | loadTail topic data head =>
      simp only [hpc] at hstep hpush
      split at hstep <;> cases hstep
      · exact ⟨rfl, .inl ⟨rfl, by simp [PushOk]⟩⟩
      · exact ⟨rfl, .inl ⟨rfl, hpush⟩⟩
  | storeHead topic data head =>
      simp only [hpc, Option.some.injEq, Prod.mk.injEq] at hstep
      obtain ⟨rfl, rfl⟩ := hstep
      simp only [SpscRing.ProducerOk, hpc] at hproducer
      simp only [PushOk, hpc] at hpush
      obtain ⟨n, hn, rfl, rfl⟩ := hpush
      cases hn
      exact ⟨rfl, .inr (.inr ⟨_, rfl, rfl, hproducer.2.2⟩)⟩
  | loadHead topic data | writeTopic topic data head | writePayload topic data head
  | writeLength topic data head =>
      simp only [hpc, Option.some.injEq, Prod.mk.injEq] at hstep hpush
      obtain ⟨rfl, rfl⟩ := hstep
      exact ⟨rfl, .inl ⟨rfl, hpush⟩⟩

/-- A step inside the pop of a `poll` goes on, finds the ring empty, or hands a message over. -/
theorem consumer_cases {call : PollCall} (hpoll : PollOk ring.consumer (some call))
    (hstep : SpscRing.consumerStep ringSlots ring = some (next, results)) :
    next.producer = ring.producer ∧
      (results = [] ∧ PollOk next.consumer (some call) ∨
        results = [.empty] ∧ next.consumer = .idle ∨
        ∃ tail out, ring.consumer = .storeTail tail out ∧ results = [.popped out] ∧
          next.consumer = .idle) := by
  unfold SpscRing.consumerStep at hstep
  cases hpc : ring.consumer with
  | idle => simp [hpc] at hstep
  | clearLoad | clearStore =>
      rw [hpc] at hpoll
      exact hpoll.elim
  | loadHead tail =>
      simp only [hpc] at hstep
      split at hstep <;> cases hstep
      · exact ⟨rfl, .inr (.inl ⟨rfl, rfl⟩)⟩
      · exact ⟨rfl, .inl ⟨rfl, by simp [PollOk]⟩⟩
  | storeTail tail out =>
      simp only [hpc, Option.some.injEq, Prod.mk.injEq] at hstep
      obtain ⟨rfl, rfl⟩ := hstep
      exact ⟨rfl, .inr (.inr ⟨tail, out, rfl, rfl, rfl⟩)⟩
  | loadTail | copyTopic | copyPayload | copyLength =>
      simp only [hpc, Option.some.injEq, Prod.mk.injEq] at hstep
      obtain ⟨rfl, rfl⟩ := hstep
      exact ⟨rfl, .inl ⟨rfl, by simp [PollOk]⟩⟩

/-- A push starts where none is under way. -/
theorem exec_push (hidle : ring.producer = .idle) (topic : CString) (payload : List UInt8) :
    SpscRing.exec ringSlots ringSlotBytes ring (.push (some topic) (block payload)) =
      some ({ ring with
        producer := if ringSlotBytes < payload.length then .fetchAdd
          else .loadHead topic (block payload) }, []) := by
  have hlen : (block payload).len = payload.length := rfl
  simp only [SpscRing.exec, hidle, hlen]
  split <;> rfl

end Ring

/-- A step that leaves the ring and the calls under way alone moves nothing. -/
theorem Inv.quiet (h : Inv s) (hring : t.ring = s.ring) (hpushing : t.pushing = s.pushing)
    (hpolling : t.polling = s.polling)
    (hprogress : ∀ m before rest, t.arriving = some (m, before, rest) →
      rest ≠ [] ∧ Progress t.client m before rest) : Moves s [] t ∧ Inv t where
  left :=
    { kept := by simp [received, settled, hpushing]
      ring := ⟨[], hring ▸ .nil _, rfl⟩
      sound := by simp }
  right :=
    { reachable := hring ▸ h.reachable
      progress := hprogress
      push := by
        rw [hring, hpushing]
        exact h.push
      poll := by
        rw [hring, hpolling]
        exact h.poll }

/-- A task outside `push` is pushing nothing. -/
theorem Inv.idle (h : Inv s) (hbusy : s.busy = false) :
    s.ring.producer = .idle ∧ s.pushing = none := by
  have hpush := h.push
  cases hpc : s.ring.producer with
  | idle =>
      rw [hpc] at hpush
      exact ⟨rfl, hpush⟩
  | _ => simp [busy, hpc] at hbusy

section Event

variable {m : Inbound} {e : MqttEvent} {before rest : List (List UInt8)}

/-- An event that completes no message. -/
theorem event_middle (hrest : rest ≠ []) (hnone : (s.client.handle e).2 = none) :
    s.event m e before rest = some
      ({ s with client := (s.client.handle e).1, arriving := some (m, before, rest) }, []) := by
  simp only [event, hnone, if_neg hrest]

/-- The event that completes a message for the ring starts a push of it. -/
theorem Inv.event_last (h : Inv s) (hidle : s.ring.producer = .idle)
    (hdelivery : (s.client.handle e).2 = some (.push m.seen m.payload))
    (hstep : s.event m e before [] = some (t, shown)) (hpushing : s.pushing = none) :
    Moves s shown t ∧ Inv t := by
  have hexec := exec_push hidle m.seen m.payload
  simp only [event, hdelivery, if_true, hexec, Option.map_some, Option.some.injEq,
    Prod.mk.injEq] at hstep
  obtain ⟨ht, rfl⟩ := hstep
  have hmoves : Moves s [.received m] t :=
    { kept := by rw [hpushing, ← ht]; rfl
      ring := by
        rw [← ht]
        exact ⟨[(_, [])], .single hexec, rfl⟩
      sound := by simp [Sound] }
  subst ht
  refine ⟨hmoves, h.reach hmoves, by simp, ?_, h.poll⟩
  show PushOk (if ringSlotBytes < m.payload.length then .fetchAdd
    else .loadHead m.seen (block m.payload)) (some m)
  split_ifs
  · simp [PushOk]
  · exact ⟨m, rfl, rfl, rfl⟩

/-- A message for the ring is delivered there. -/
theorem deliver_of_queues {c : EspMqttClient} (h : Queues c m) :
    c.deliver m.seen m.payload = .push m.seen m.payload := by
  obtain ⟨-, hdirect | hreserved⟩ := h
  · simp [deliver, hdirect]
  · simp [deliver, hreserved]

/-- The first fragment of a message. -/
theorem Inv.arrive (h : Inv s) (hstep : s.exec (.arrive m) = some (t, shown))
    (hsafe : Safe s (.arrive m)) : Moves s shown t ∧ Inv t := by
  simp only [exec, Option.ite_none_left_eq_some, Bool.or_eq_true, not_or,
    Bool.not_eq_true] at hstep
  obtain ⟨⟨hbusy, -⟩, hstep⟩ := hstep
  obtain ⟨hidle, hpushing⟩ := h.idle hbusy
  by_cases hothers : m.others = []
  · have hdelivery := congrArg Prod.snd (handle_whole s.client hothers)
    rw [deliver_of_queues (hsafe hothers)] at hdelivery
    rw [hothers] at hstep
    exact h.event_last hidle hdelivery hstep hpushing
  · obtain ⟨hnone, hprogress⟩ := progress_first s.client hothers
    rw [event_middle hothers hnone] at hstep
    cases hstep
    refine h.quiet rfl rfl rfl ?_
    rintro n before rest hnext
    cases hnext
    exact ⟨hothers, hprogress⟩

/-- The next fragment. -/
theorem Inv.resume (h : Inv s) (hstep : s.exec .resume = some (t, shown))
    (hsafe : Safe s .resume) : Moves s shown t ∧ Inv t := by
  match harriving : s.arriving with
  | none => simp [exec, harriving] at hstep
  | some (m, before, []) => simp [exec, harriving] at hstep
  | some (m, before, piece :: rest) =>
      simp only [exec, harriving, Option.ite_none_left_eq_some, Bool.not_eq_true] at hstep
      obtain ⟨hbusy, hstep⟩ := hstep
      obtain ⟨hidle, hpushing⟩ := h.idle hbusy
      obtain ⟨-, hprogress⟩ := h.progress m before _ harriving
      cases rest with
      | nil =>
          have hqueues : Queues s.client m := by simpa [Safe, harriving] using hsafe
          have hdelivery := hprogress.last
          rw [if_pos hqueues.1, deliver_of_queues hqueues] at hdelivery
          exact h.event_last hidle hdelivery hstep hpushing
      | cons next rest =>
          obtain ⟨hnone, hnext⟩ := hprogress.middle
          rw [event_middle (by simp) hnone] at hstep
          cases hstep
          refine h.quiet rfl rfl rfl ?_
          rintro n held more heq
          cases heq
          exact ⟨by simp, hnext⟩

end Event

/-- A step that leaves what arrives alone keeps the invariant if the tasks stay where the system
remembers them to be. -/
theorem Inv.moved (h : Inv s) (hmoves : Moves s shown t)
    (hfragments : t.client = s.client ∧ t.arriving = s.arriving)
    (hpush : PushOk t.ring.producer t.pushing) (hpoll : PollOk t.ring.consumer t.polling) :
    Moves s shown t ∧ Inv t := by
  refine ⟨hmoves, h.reach hmoves, ?_, hpush, hpoll⟩
  rw [hfragments.1, hfragments.2]
  exact h.progress

/-- A step of the task inside `push`. -/
theorem Inv.producer (h : Inv s) (hstep : s.exec .producer = some (t, shown)) :
    Moves s shown t ∧ Inv t := by
  cases hpushing : s.pushing with
  | none => simp [exec, hpushing] at hstep
  | some m =>
      simp only [exec, hpushing, Option.map_eq_some_iff, Prod.exists, Prod.mk.injEq] at hstep
      obtain ⟨ring, results, hring, rfl, rfl⟩ := hstep
      obtain ⟨before, hreachable⟩ := h.reachable
      obtain ⟨hconsumer, hcases⟩ := producer_cases hreachable (hpushing ▸ h.push) hring
      have hpoll : PollOk ring.consumer s.polling := hconsumer ▸ h.poll
      have hrun : Run (SpscRing.Step ringSlots ringSlotBytes) s.ring [(.producer, results)] ring :=
        .single hring
      obtain ⟨rfl, hpush⟩ | ⟨rfl, hpush⟩ | ⟨slot, rfl, hpush, hstored⟩ := hcases
      · exact h.moved ⟨by rw [hpushing]; rfl, ⟨_, hrun, rfl⟩, by simp⟩ ⟨rfl, rfl⟩ hpush hpoll
      · refine h.moved ⟨by rw [hpushing]; rfl, ⟨_, hrun, rfl⟩, ?_⟩ ⟨rfl, rfl⟩ ?_ hpoll
        · simp [ofPush, Sound]
        · simp [hpush, PushOk]
      · refine h.moved ⟨by rw [hpushing]; rfl, ⟨_, hrun, rfl⟩, ?_⟩ ⟨rfl, rfl⟩ ?_ hpoll
        · simpa [ofPush, Sound] using hstored
        · simp [hpush, PushOk]

/-- A step of the application inside `poll`. -/
theorem Inv.consumer (h : Inv s) (hstep : s.exec .consumer = some (t, shown))
    (hsafe : Safe s .consumer) : Moves s shown t ∧ Inv t := by
  cases hpolling : s.polling with
  | none => simp [exec, hpolling] at hstep
  | some call =>
      simp only [exec, hpolling, Option.map_eq_some_iff, Prod.exists, Prod.mk.injEq] at hstep
      obtain ⟨ring, results, hring, rfl, rfl⟩ := hstep
      obtain ⟨hproducer, hcases⟩ := consumer_cases (hpolling ▸ h.poll) hring
      have hpush : PushOk ring.producer s.pushing := hproducer ▸ h.push
      have hrun : Run (SpscRing.Step ringSlots ringSlotBytes) s.ring [(.consumer, results)] ring :=
        .single hring
      have hkept : s.pushing.toList ++ received (results.filterMap (ofPop call)) =
          (settled (results.filterMap (ofPop call))).map Prod.fst ++ s.pushing.toList := by
        obtain ⟨rfl, -⟩ | ⟨rfl, -⟩ | ⟨-, -, -, rfl, -⟩ := hcases <;>
          exact List.append_nil _
      obtain ⟨rfl, hpoll⟩ | ⟨rfl, hpoll⟩ | ⟨tail, out, hconsumer, rfl, hpoll⟩ := hcases
      · exact h.moved ⟨hkept, ⟨_, hrun, rfl⟩, by simp⟩ ⟨rfl, rfl⟩ hpush hpoll
      · refine h.moved ⟨hkept, ⟨_, hrun, rfl⟩, by simp [ofPop, Sound]⟩ ⟨rfl, rfl⟩ hpush ?_
        simp [hpoll, PollOk]
      · refine h.moved ⟨hkept, ⟨_, hrun, rfl⟩, ?_⟩ ⟨rfl, rfl⟩ hpush ?_
        · simpa [ofPop, Sound, Safe, hpolling, hconsumer] using hsafe
        · simp [hpoll, PollOk]

/-- A `poll` starts where none is under way. -/
theorem Inv.startPoll (h : Inv s) {call : PollCall}
    (hstep : s.exec (.poll call) = some (t, shown)) : Moves s shown t ∧ Inv t := by
  simp only [exec, Option.ite_none_left_eq_some, Option.map_eq_some_iff, Prod.exists,
    Prod.mk.injEq] at hstep
  obtain ⟨-, ring, results, hring, rfl, rfl⟩ := hstep
  have hrun : Run (SpscRing.Step ringSlots ringSlotBytes) s.ring [(.pop, results)] ring :=
    .single hring
  simp only [SpscRing.exec] at hring
  split at hring
  · cases hring
    exact h.moved ⟨List.append_nil _, ⟨_, hrun, rfl⟩, by simp⟩ ⟨rfl, rfl⟩ h.push (by simp [PollOk])
  · cases hring

/-- A safe step moves the messages as it should, and keeps the invariant. -/
theorem Inv.step (h : Inv s) (hstep : SafeStep s (action, shown) t) : Moves s shown t ∧ Inv t := by
  obtain ⟨hstep, hsafe⟩ := hstep
  cases action with
  | arrive m => exact h.arrive hstep hsafe
  | resume => exact h.resume hstep hsafe
  | producer => exact h.producer hstep
  | consumer => exact h.consumer hstep hsafe
  | poll call => exact h.startPoll hstep
  | connect =>
      simp only [Step, exec, Option.ite_none_left_eq_some, Option.some.injEq,
        Prod.mk.injEq] at hstep
      obtain ⟨-, rfl, rfl⟩ := hstep
      refine h.quiet rfl rfl rfl fun m before rest harriving => ?_
      obtain ⟨hrest, hprogress⟩ := h.progress m before rest harriving
      exact ⟨hrest, hprogress.congr rfl rfl rfl rfl⟩
  | disconnect =>
      simp only [Step, exec, Option.ite_none_left_eq_some, Option.some.injEq,
        Prod.mk.injEq] at hstep
      obtain ⟨-, rfl, rfl⟩ := hstep
      exact h.quiet rfl rfl rfl (by simp)
  | reserveTopic topic =>
      cases hstep
      refine h.quiet rfl rfl rfl fun m before rest harriving => ?_
      obtain ⟨hrest, hprogress⟩ := h.progress m before rest harriving
      exact ⟨hrest, hprogress.reserveTopic topic⟩
  | setDirectCallback installed =>
      cases hstep
      refine h.quiet rfl rfl rfl fun m before rest harriving => ?_
      obtain ⟨hrest, hprogress⟩ := h.progress m before rest harriving
      exact ⟨hrest, hprogress.congr rfl rfl rfl rfl⟩

/-- The ring takes the steps that a safe run's results are of, and the invariant is kept. -/
theorem Inv.run {trace : List (EspAction × List EspShown)} (hrun : Run SafeStep s trace t)
    (h : Inv s) : Inv t ∧ ∃ steps, Run (SpscRing.Step ringSlots ringSlotBytes) s.ring steps t.ring ∧
      steps.flatMap Prod.snd = EspLog.ring (trace.flatMap Prod.snd) := by
  induction hrun with
  | nil => exact ⟨h, [], .nil _, rfl⟩
  | cons hstep _ ih =>
      obtain ⟨hmoves, hnext⟩ := h.step hstep
      obtain ⟨first, hfirst, hshown⟩ := hmoves.ring
      obtain ⟨hlast, rest, hrest, hmore⟩ := ih hnext
      refine ⟨hlast, first ++ rest, hfirst.append hrest, ?_⟩
      rw [List.flatMap_append, List.flatMap_cons, hshown, hmore]
      exact List.filterMap_append.symm

/-- What was received up to a state is accounted for: settled, or being pushed, in order; and what
was stored was returned by a `poll` or is still in the ring, the rest counted. -/
structure Accounted (s : EspSystem) (log : List EspShown) : Prop where
  received : received log = (settled log).map Prod.fst ++ s.pushing.toList
  idle : s.busy = false → s.pushing = none
  stored : ∀ m slot, (m, some slot) ∈ settled log →
    SpscRing.Stored m.seen (block m.payload) slot
  returned : (settled log).filterMap Prod.snd =
    returned log ++ SpscRing.queued ringSlots s.ring
  dropped : s.ring.dropped = (settled log).countP (·.2.isNone) % 2 ^ 32

/-- A `poll` that returns false has met an empty ring. -/
def Truthful (s : EspSystem) (shown : List EspShown) : Prop :=
  ∀ call msg, .polled call msg ∈ shown → (result call msg).ok = false →
    SpscRing.queued ringSlots s.ring = []

section Log

variable (log : List EspShown)

theorem pushes_ring :
    Channel.pushes (EspLog.ring log) = (settled log).filterMap Prod.snd := by
  induction log with
  | nil => rfl
  | cons item log ih =>
      cases item with
      | received | direct | refused => exact ih
      | stored m slot => exact congrArg (slot :: ·) ih
      | polled call msg => cases msg <;> exact ih

theorem refusals_ring :
    Channel.refusals (EspLog.ring log) = (settled log).countP (·.2.isNone) := by
  induction log with
  | nil => rfl
  | cons item log ih =>
      cases item with
      | received | direct => exact ih
      | stored m slot => exact ih.trans (List.countP_cons_of_neg (by simp)).symm
      | refused m =>
          exact (congrArg (· + 1) ih).trans (List.countP_cons_of_pos (by simp)).symm
      | polled call msg => cases msg <;> exact ih

theorem cleared_notMem_ring : .cleared ∉ EspLog.ring log := by
  intro h
  obtain ⟨item, -, hitem⟩ := List.mem_filterMap.mp h
  cases item with
  | received | direct | stored | refused => simp at hitem
  | polled call msg => cases msg <;> simp at hitem

/-- A message that fits is returned. -/
theorem result_ok {call : PollCall} {msg : Option SpscRing.Message}
    (hsound : Sound (.polled call msg)) : (result call msg).ok = msg.isSome := by
  cases msg with
  | none => rfl
  | some msg =>
      have hfits : ¬msg.length > call.payloadCap := Nat.not_lt.mpr hsound
      simp [result, pollPopped, hfits]

theorem pops_ring (hsound : ∀ item ∈ log, Sound item) :
    Channel.pops (EspLog.ring log) = returned log := by
  induction log with
  | nil => rfl
  | cons item log ih =>
      have hrest := ih fun item h => hsound item (List.mem_cons_of_mem _ h)
      have hfirst := hsound item List.mem_cons_self
      cases item with
      | received | direct | stored | refused => exact hrest
      | polled call msg =>
          have hok := result_ok hfirst
          cases msg with
          | none => exact hrest
          | some msg =>
              simp only [returned, List.filterMap_cons, hok, Option.isSome_some, if_true]
              exact congrArg (msg :: ·) hrest

end Log

/-- An event shows no `poll`. -/
theorem polled_notMem_event {m : Inbound} {e : MqttEvent} {before rest : List (List UInt8)}
    (hstep : s.event m e before rest = some (t, shown)) (call : PollCall)
    (msg : Option SpscRing.Message) : .polled call msg ∉ shown := by
  simp only [event] at hstep
  split at hstep
  · cases hstep
    split_ifs <;> simp
  · cases hstep
    split_ifs <;> simp
  · simp only [Option.map_eq_some_iff, Prod.mk.injEq] at hstep
    obtain ⟨-, -, -, rfl⟩ := hstep
    split_ifs <;> simp

/-- Only a step of the application shows one. -/
theorem eq_consumer_of_polled (hstep : Step s (action, shown) t) {call : PollCall}
    {msg : Option SpscRing.Message} (hpolled : .polled call msg ∈ shown) : action = .consumer := by
  cases action with
  | consumer => rfl
  | arrive m =>
      simp only [Step, exec, Option.ite_none_left_eq_some] at hstep
      exact absurd hpolled (polled_notMem_event hstep.2 call msg)
  | resume =>
      simp only [Step, exec] at hstep
      split at hstep
      · simp only [Option.ite_none_left_eq_some] at hstep
        exact absurd hpolled (polled_notMem_event hstep.2 call msg)
      · cases hstep
  | producer =>
      simp only [Step, exec] at hstep
      split at hstep
      · cases hstep
      · simp only [Option.map_eq_some_iff, Prod.mk.injEq] at hstep
        obtain ⟨results, -, -, heq⟩ := hstep
        rw [← heq] at hpolled
        obtain ⟨item, -, hitem⟩ := List.mem_filterMap.mp hpolled
        cases item <;> simp [ofPush] at hitem
  | connect | disconnect =>
      simp only [Step, exec, Option.ite_none_left_eq_some, Option.some.injEq,
        Prod.mk.injEq] at hstep
      simp [← hstep.2.2] at hpolled
  | reserveTopic | setDirectCallback =>
      cases hstep
      cases hpolled
  | poll =>
      simp only [Step, exec, Option.ite_none_left_eq_some, Option.map_eq_some_iff,
        Prod.mk.injEq] at hstep
      obtain ⟨-, results, -, -, heq⟩ := hstep
      simp [← heq] at hpolled

/-- A safe step answers truthfully. -/
theorem Inv.truthful (h : Inv s) (hstep : SafeStep s (action, shown) t) : Truthful s shown := by
  intro call msg hpolled hfalse
  obtain ⟨hmoves, -⟩ := h.step hstep
  have hnone : msg = none := by
    rw [result_ok (hmoves.sound _ hpolled)] at hfalse
    exact Option.not_isSome_iff_eq_none.mp (by simp [hfalse])
  obtain rfl := eq_consumer_of_polled hstep.1 hpolled
  obtain ⟨before, hreachable⟩ := h.reachable
  obtain ⟨-, -, -, hlayout⟩ := SpscRing.ring_refines_channel (by decide) hreachable
  cases hpolling : s.polling with
  | none => simp [SafeStep, Step, exec, hpolling] at hstep
  | some call =>
      simp only [SafeStep, Step, exec, hpolling, Option.map_eq_some_iff, Prod.exists,
        Prod.mk.injEq] at hstep
      obtain ⟨⟨ring, results, hring, rfl, rfl⟩, -⟩ := hstep
      obtain ⟨events, next, hrun, hshown, -⟩ :=
        SpscRing.consumer_step_matched (by decide) hlayout hring
      obtain ⟨-, ⟨rfl, -⟩ | ⟨rfl, -⟩ | ⟨tail, out, -, rfl, -⟩⟩ :=
        consumer_cases (hpolling ▸ h.poll) hring
      · simp at hpolled
      · exact Channel.eq_nil_of_empty hrun hshown
      · simp [ofPop, hnone] at hpolled

/-- In a run of safe steps every message received is accounted for, and a `poll` that returns false
has met an empty ring. -/
theorem received_accounted {client : EspMqttClient} {trace : List (EspAction × List EspShown)}
    (hrun : Run SafeStep { client } trace s) :
    Accounted s (trace.flatMap Prod.snd) ∧
      ∀ label t, SafeStep s label t → Truthful s label.2 := by
  have hstart : Inv { client } :=
    ⟨⟨[], .nil _⟩, by simp, rfl, rfl⟩
  obtain ⟨hinv, steps, hsteps, hshown⟩ := hstart.run hrun
  have hsound : ∀ item ∈ trace.flatMap Prod.snd, Sound item :=
    hrun.shows Inv Prod.snd Sound (fun _ _ _ h hstep => (h.step hstep).2)
      (fun _ _ _ h hstep => (h.step hstep).1.sound) hstart
  refine ⟨⟨?_, fun hbusy => (hinv.idle hbusy).2, ?_, ?_, ?_⟩, fun label t hstep =>
    hinv.truthful hstep⟩
  · have hkept := hrun.conserves Inv (fun s => s.pushing.toList) (fun label => received label.2)
      (fun label => (settled label.2).map Prod.fst) (fun _ _ _ h hstep => (h.step hstep).2)
      (fun _ _ _ h hstep => (h.step hstep).1.kept) hstart
    rw [received, settled, List.filterMap_flatMap, List.filterMap_flatMap, List.map_flatMap]
    exact hkept
  · intro m slot hmem
    obtain ⟨item, hitem, heq⟩ := List.mem_filterMap.mp hmem
    have hitem := hsound item hitem
    cases item <;> simp at heq
    obtain ⟨rfl, rfl⟩ := heq
    exact hitem
  · obtain ⟨history, hhistory, hobserved, -⟩ := SpscRing.ring_refines_channel (by decide) hsteps
    have hclear : .cleared ∉ history.map Channel.Event.observe := by
      rw [hobserved, hshown]
      exact cleared_notMem_ring _
    have hdelivers := Channel.channel_delivers hhistory hclear
    rw [hobserved, hshown, pushes_ring, pops_ring _ hsound] at hdelivers
    exact hdelivers
  · rw [SpscRing.run_dropped hsteps (by decide : 0 < 2 ^ 32), hshown, refusals_ring]
    exact congrArg (· % 2 ^ 32) (Nat.zero_add _)

section Sample

/-- A step, if it is safe. -/
def safeExec (s : EspSystem) (action : EspAction) : Option (EspSystem × List EspShown) :=
  if Safe s action then s.exec action else none

/-- A message arrives and is pushed, and a `poll` with room for `payloadCap` bytes goes on until the
message is copied. -/
def sampleActions (payloadCap : Nat) : List EspAction :=
  .arrive (sampleMessage 5) :: List.replicate 6 .producer ++
    .poll ⟨some (List.replicate 128 0), 128, some (List.replicate payloadCap 0), payloadCap⟩ ::
    List.replicate 5 .consumer

theorem received_accounted_sample : ∃ trace s,
    Run SafeStep { client := sampleClient } trace s ∧
      received (trace.flatMap Prod.snd) ≠ [] ∧ Accounted s (trace.flatMap Prod.snd) := by
  have hexec : ((execAll safeExec { client := sampleClient } (sampleActions 2)).map
      fun (_, trace) => (received (trace.flatMap Prod.snd)).length) = some 1 := by decide +kernel
  obtain ⟨⟨s, trace⟩, hrun, hlength⟩ := Option.map_eq_some_iff.mp hexec
  have hsafe : Run SafeStep { client := sampleClient } trace s :=
    (Run.of_execAll safeExec _ hrun).mono fun _ _ _ h =>
      (Option.ite_none_right_eq_some.mp h).symm
  exact ⟨trace, s, hsafe, List.ne_nil_of_length_eq_add_one hlength, (received_accounted hsafe).1⟩

/-- A `poll` without room for the message takes it off the ring and returns false: the message is
not returned, not in the ring and not counted. -/
theorem received_lost_sample : ∃ trace s shown t,
    Run Step { client := sampleClient } trace s ∧ Step s (.consumer, shown) t ∧
      sampleClient.isReserved (sampleMessage 5).topic = true ∧
      ¬Truthful s shown ∧ ¬Accounted t (trace.flatMap Prod.snd ++ shown) := by
  have hexec : ((execAll exec { client := sampleClient } (sampleActions 1)).bind
      fun (s, trace) => (s.exec .consumer).map fun (t, shown) =>
        let log := trace.flatMap Prod.snd ++ shown
        (decide (SpscRing.queued ringSlots s.ring = []),
          shown.any fun
            | .polled call msg => !(result call msg).ok
            | _ => false,
          (returned log).length + (SpscRing.queued ringSlots t.ring).length,
          ((settled log).filterMap Prod.snd).length)) = some (false, true, 0, 1) := by
    decide +kernel
  obtain ⟨⟨s, trace⟩, hrun, hlast⟩ := Option.bind_eq_some_iff.mp hexec
  obtain ⟨⟨t, shown⟩, hstep, hcheck⟩ := Option.map_eq_some_iff.mp hlast
  simp only [Prod.mk.injEq, decide_eq_false_iff_not, List.any_eq_true] at hcheck
  obtain ⟨hqueued, ⟨item, hitem, hfalse⟩, hgone, hstored⟩ := hcheck
  have hreserved : sampleClient.isReserved (sampleMessage 5).topic = true := by decide
  refine ⟨trace, s, shown, t, Run.of_execAll exec _ hrun, hstep, hreserved, ?_, ?_⟩
  · intro htruthful
    cases item with
    | polled call msg => exact hqueued (htruthful call msg hitem (by simpa using hfalse))
    | received | direct | stored | refused => simp at hfalse
  · intro haccounted
    have hlength := congrArg List.length haccounted.returned
    rw [List.length_append] at hlength
    omega

end Sample

end EspSystem

end FirmwareUpdater
