import FirmwareUpdater.Library.Run

/-!
# Bounded FIFO channels

The abstract meaning of a bounded single-reader queue. A channel holds the
messages published and not yet removed, oldest first. `channel_conserves` says
what every run keeps: the published messages are, in order, the removed ones
followed by the queued ones, so nothing is lost, reordered or delivered twice.
-/

namespace FirmwareUpdater.Library.Channel

variable {Message : Type*}

/-- What an operation on the channel did. `cleared` carries the messages it threw away. -/
inductive Event (Message : Type*) where
  | pushed (message : Message)
  | refused
  | popped (message : Message)
  | empty
  | cleared (discarded : List Message)

/-- What the callers see of an operation: a clear does not tell what it threw away. -/
inductive Observation (Message : Type*) where
  | pushed (message : Message)
  | refused
  | popped (message : Message)
  | empty
  | cleared
  deriving DecidableEq

/-- The visible part of an event. -/
def Event.observe : Event Message → Observation Message
  | .pushed message => .pushed message
  | .refused => .refused
  | .popped message => .popped message
  | .empty => .empty
  | .cleared _ => .cleared

/-- The operations on a channel that holds at most `capacity` messages. A clear removes some
prefix of the queue: what is published while it runs may stay. -/
inductive Step (capacity : Nat) : List Message → Event Message → List Message → Prop where
  | pushed (queue message) :
      queue.length < capacity → Step capacity queue (.pushed message) (queue ++ [message])
  | refused (queue) : Step capacity queue .refused queue
  | popped (message queue) : Step capacity (message :: queue) (.popped message) queue
  | empty : Step capacity [] .empty []
  | cleared (discarded queue) :
      Step capacity (discarded ++ queue) (.cleared discarded) queue

/-- How a message left the channel. -/
inductive Fate where
  | popped
  | discarded
  deriving DecidableEq

/-- The messages published, in order. -/
def pushes : List (Observation Message) → List Message
  | [] => []
  | .pushed message :: shown => message :: pushes shown
  | _ :: shown => pushes shown

/-- The messages delivered, in order. -/
def pops : List (Observation Message) → List Message
  | [] => []
  | .popped message :: shown => message :: pops shown
  | _ :: shown => pops shown

/-- The number of refused publications. -/
def refusals : List (Observation Message) → Nat
  | [] => 0
  | .refused :: shown => refusals shown + 1
  | _ :: shown => refusals shown

/-- The messages that left the channel, in order, each with how it left. -/
def removals : List (Event Message) → List (Message × Fate)
  | [] => []
  | .popped message :: history => (message, .popped) :: removals history
  | .cleared discarded :: history => discarded.map (·, .discarded) ++ removals history
  | _ :: history => removals history

/-- Refusals of consecutive parts add up. -/
theorem refusals_append (first second : List (Observation Message)) :
    refusals (first ++ second) = refusals first + refusals second := by
  induction first with
  | nil => simp [refusals]
  | cons event first ih => cases event <;> simp [refusals, ih]; omega

/-- Publications of consecutive parts follow each other. -/
theorem pushes_append (first second : List (Observation Message)) :
    pushes (first ++ second) = pushes first ++ pushes second := by
  induction first with
  | nil => rfl
  | cons event first ih => cases event <;> simp [pushes, ih]

/-- The delivered messages are the removed ones that were not discarded. -/
theorem pops_eq_removals (history : List (Event Message)) :
    pops (history.map Event.observe) =
      ((removals history).filter (·.2 = .popped)).map Prod.fst := by
  induction history with
  | nil => rfl
  | cons event history ih =>
      cases event with
      | cleared discarded =>
          have hnone : (discarded.map (·, Fate.discarded)).filter (·.2 = .popped) = [] := by
            simp
          simp [pops, removals, Event.observe, hnone, ih]
      | _ => simp [pops, removals, Event.observe, ih]

/-- What was discarded is what some clear threw away. -/
theorem clear_of_discarded {history : List (Event Message)} {message : Message}
    (h : (message, Fate.discarded) ∈ removals history) :
    ∃ discarded, .cleared discarded ∈ history ∧ message ∈ discarded := by
  induction history with
  | nil => simp [removals] at h
  | cons event history ih =>
      cases event with
      | cleared thrown =>
          rw [removals, List.mem_append, List.mem_map] at h
          rcases h with ⟨_, hmem, heq⟩ | hlater
          · cases heq
            exact ⟨thrown, List.mem_cons_self, hmem⟩
          · obtain ⟨discarded, hclear, hmem⟩ := ih hlater
            exact ⟨discarded, List.mem_cons_of_mem _ hclear, hmem⟩
      | _ =>
          simp only [removals, List.mem_cons, Prod.mk.injEq, reduceCtorEq, and_false,
            false_or] at h
          obtain ⟨discarded, hclear, hmem⟩ := ih h
          exact ⟨discarded, List.mem_cons_of_mem _ hclear, hmem⟩

/-- A channel never holds more than its capacity. -/
theorem length_le_capacity {capacity : Nat} {start finish : List Message}
    {history : List (Event Message)} (hrun : Run (Step capacity) start history finish)
    (hstart : start.length ≤ capacity) : finish.length ≤ capacity := by
  refine hrun.invariant (fun queue => queue.length ≤ capacity) ?_ hstart
  intro queue event next hqueue hstep
  cases hstep with
  | pushed _ _ hroom => simpa using Nat.succ_le_of_lt hroom
  | refused | empty => exact hqueue
  | popped => exact Nat.le_of_succ_le hqueue
  | cleared =>
      rw [List.length_append] at hqueue
      omega

/-- A channel that begins by showing that it is empty is empty. -/
theorem eq_nil_of_empty {capacity : Nat} {start finish : List Message}
    {history : List (Event Message)} {shown : List (Observation Message)}
    (hrun : Run (Step capacity) start history finish)
    (hshown : history.map Event.observe = .empty :: shown) : start = [] := by
  cases hrun with
  | nil => cases hshown
  | cons hstep _ =>
      cases hstep with
      | empty => rfl
      | pushed | refused | popped | cleared => cases hshown

/-- What was queued and what was published is, in order, what was removed and what is queued. -/
theorem channel_conserves {capacity : Nat} {start finish : List Message}
    {history : List (Event Message)} (hrun : Run (Step capacity) start history finish) :
    start ++ pushes (history.map Event.observe) =
      (removals history).map Prod.fst ++ finish := by
  induction hrun with
  | nil => simp [pushes, removals]
  | cons hstep _ ih =>
      cases hstep with
      | pushed | refused | empty | popped => simpa [pushes, removals, Event.observe] using ih
      | cleared discarded =>
          simp [pushes, removals, Event.observe, Function.comp_def, ih]

/-- Where nothing was cleared, what was published is, in order, what was delivered and what is
queued. -/
theorem channel_delivers {capacity : Nat} {start finish : List Message}
    {history : List (Event Message)} (hrun : Run (Step capacity) start history finish)
    (hclear : .cleared ∉ history.map Event.observe) :
    start ++ pushes (history.map Event.observe) = pops (history.map Event.observe) ++ finish := by
  have hall : (removals history).filter (·.2 = .popped) = removals history := by
    rw [List.filter_eq_self]
    rintro ⟨message, fate⟩ hmem
    cases fate with
    | popped => rfl
    | discarded =>
        obtain ⟨_, hmem, _⟩ := clear_of_discarded hmem
        exact absurd (List.mem_map_of_mem hmem) hclear
  rw [pops_eq_removals, hall]
  exact channel_conserves hrun

end FirmwareUpdater.Library.Channel
