import Mathlib.Data.Nat.Basic
import Mathlib.Data.UInt

/-!
# Actions that keep their distance

A system that acts again only where some time has passed since its last stamp, on a clock that
wraps. The clock never shows more than has passed (`reading_le`), so the distances hold in real
time, however often the clock wraps in between. A stamp may also be renewed without an action:
that only makes the next one later.
-/

namespace FirmwareUpdater.Library.Spacing

/-- Time number `n` lies `gap n` before the next one. -/
def Spaced (gap : Nat → Nat) : List Nat → Prop
  | [] => True
  | [_] => True
  | first :: second :: times =>
      first + gap 0 ≤ second ∧ Spaced (fun n => gap (n + 1)) (second :: times)

/-- An earlier first time is no closer. -/
theorem Spaced.earlier {gap : Nat → Nat} {first other : Nat} {times : List Nat}
    (h : Spaced gap (first :: times)) (hle : other ≤ first) : Spaced gap (other :: times) := by
  cases times with
  | nil => trivial
  | cons second times => exact ⟨Nat.le_trans (Nat.add_le_add_right hle _) h.1, h.2⟩

/-- Without its first time a sequence is spaced by the later gaps. -/
theorem Spaced.tail {gap : Nat → Nat} {first : Nat} {times : List Nat}
    (h : Spaced gap (first :: times)) : Spaced (fun n => gap (n + 1)) times := by
  cases times with
  | nil => trivial
  | cons second times => exact h.2

/-- A 32-bit clock shows no more than has passed. -/
theorem reading_le {since time : Nat} (h : since ≤ time) :
    (UInt32.ofNat time - UInt32.ofNat since).toNat ≤ time - since := by
  obtain ⟨elapsed, rfl⟩ := Nat.exists_eq_add_of_le h
  have hadd : UInt32.ofNat (since + elapsed) - UInt32.ofNat since = UInt32.ofNat elapsed := by
    rw [UInt32.ofNat_add, UInt32.add_comm, UInt32.add_sub_cancel]
  rw [hadd, UInt32.toNat_ofNat', Nat.add_sub_cancel_left]
  exact Nat.mod_le _ _

section Run

variable {State Event : Type*} (exec : State → Event → State) (acts : State → Event → Bool)

/-- The times at which a system acts. -/
def actions : State → List (Nat × Event) → List Nat
  | _, [] => []
  | s, (time, e) :: schedule =>
      if acts s e then time :: actions (exec s e) schedule else actions (exec s e) schedule

/-- The times of a schedule do not go back. -/
def Ordered (start : Nat) : List (Nat × Event) → Prop
  | [] => True
  | (time, _) :: schedule => start ≤ time ∧ Ordered time schedule

theorem Ordered.earlier {start other : Nat} {schedule : List (Nat × Event)}
    (h : Ordered start schedule) (hle : other ≤ start) : Ordered other schedule := by
  cases schedule with
  | nil => trivial
  | cons event schedule => exact ⟨Nat.le_trans hle h.1, h.2⟩

variable {exec acts} {Allowed : Nat × Event → Prop} {gap : Nat → Nat}
  {Since : Nat → Nat → State → Prop}

/-- From a stamp on. `Since n stamp` says that the system has acted `n` times and was stamped at
`stamp`: it acts again `gap n` later at the earliest, and keeps or renews its stamp until then. -/
theorem spaced_since
    (hstep : ∀ n stamp s time e, Since n stamp s → stamp ≤ time → Allowed (time, e) →
      if acts s e then stamp + gap n ≤ time ∧ Since (n + 1) time (exec s e)
      else ∃ stamp', stamp ≤ stamp' ∧ stamp' ≤ time ∧ Since n stamp' (exec s e))
    {schedule : List (Nat × Event)} (hallowed : ∀ x ∈ schedule, Allowed x) {n stamp : Nat}
    {s : State} (hordered : Ordered stamp schedule) (hsince : Since n stamp s) :
    Spaced (fun k => gap (n + k)) (stamp :: actions exec acts s schedule) := by
  induction schedule generalizing n stamp s with
  | nil => trivial
  | cons event schedule ih =>
      obtain ⟨time, e⟩ := event
      rw [List.forall_mem_cons] at hallowed
      have hnext := hstep n stamp s time e hsince hordered.1 hallowed.1
      rw [actions]
      by_cases hacts : acts s e = true
      · rw [if_pos hacts] at hnext ⊢
        refine ⟨hnext.1, ?_⟩
        have hrest := ih hallowed.2 hordered.2 hnext.2
        have hgap : (fun k => gap (n + 1 + k)) = fun k => gap (n + (k + 1)) := by
          funext k
          rw [Nat.add_right_comm, Nat.add_assoc]
        rwa [hgap] at hrest
      · rw [if_neg hacts] at hnext ⊢
        obtain ⟨stamp', hlater, hpast, hsince'⟩ := hnext
        exact (ih hallowed.2 (hordered.2.earlier hpast) hsince').earlier hlater

/-- From the start on, where the system was not stamped yet and its first action is free. -/
theorem spaced_start {Unstamped : State → Prop}
    (hstep : ∀ n stamp s time e, Since n stamp s → stamp ≤ time → Allowed (time, e) →
      if acts s e then stamp + gap n ≤ time ∧ Since (n + 1) time (exec s e)
      else ∃ stamp', stamp ≤ stamp' ∧ stamp' ≤ time ∧ Since n stamp' (exec s e))
    (hfirst : ∀ s time e, Unstamped s → Allowed (time, e) →
      if acts s e then Since 1 time (exec s e)
      else Unstamped (exec s e) ∨ Since 0 time (exec s e))
    {schedule : List (Nat × Event)} (hallowed : ∀ x ∈ schedule, Allowed x) {start : Nat}
    {s : State} (hordered : Ordered start schedule) (hunstamped : Unstamped s) :
    Spaced (fun k => gap (k + 1)) (actions exec acts s schedule) := by
  induction schedule generalizing start s with
  | nil => trivial
  | cons event schedule ih =>
      obtain ⟨time, e⟩ := event
      rw [List.forall_mem_cons] at hallowed
      have hnext := hfirst s time e hunstamped hallowed.1
      rw [actions]
      by_cases hacts : acts s e = true
      · rw [if_pos hacts] at hnext ⊢
        have hrest := spaced_since hstep hallowed.2 hordered.2 hnext
        have hgap : (fun k => gap (1 + k)) = fun k => gap (k + 1) := by
          funext k
          rw [Nat.add_comm]
        rwa [hgap] at hrest
      · rw [if_neg hacts] at hnext ⊢
        rcases hnext with hunstamped | hsince
        · exact ih hallowed.2 hordered.2 hunstamped
        · have hrest := (spaced_since hstep hallowed.2 hordered.2 hsince).tail
          have hgap : (fun k => gap (0 + (k + 1))) = fun k => gap (k + 1) := by
            funext k
            rw [Nat.zero_add]
          rwa [hgap] at hrest

end Run

end FirmwareUpdater.Library.Spacing
