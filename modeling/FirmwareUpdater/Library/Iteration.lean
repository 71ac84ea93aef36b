import Mathlib.Data.Nat.Basic

/-!
# Loops that end

A loop is a step that either returns or gives the next state. `iterate` runs it for
a bounded number of rounds, so a loop ends where some bound gives a result. A
measure that every round lowers gives such a bound (`iterate_of_measure`), and a
loop that ends has no endless run.
-/

namespace FirmwareUpdater.Library.Iteration

variable {State Result : Type*} (step : State → Result ⊕ State)

/-- The loop, for at most so many rounds. -/
def iterate : Nat → State → Option Result
  | 0, _ => none
  | rounds + 1, s => (step s).elim some (iterate rounds)

/-- There is a run of the loop from `s` on that never returns. -/
def Endless (s : State) : Prop :=
  ∃ states : ℕ → State, states 0 = s ∧ ∀ n, step (states n) = .inr (states (n + 1))

variable {step} {s : State} {rounds : Nat} {result : Result}

/-- A larger bound on the rounds changes nothing. -/
theorem iterate_mono (h : iterate step rounds s = some result) (more : Nat) :
    iterate step (rounds + more) s = some result := by
  induction rounds generalizing s with
  | zero => cases h
  | succ rounds ih =>
      rw [Nat.succ_add, iterate]
      rw [iterate] at h
      cases hstep : step s with
      | inl other =>
          rw [hstep] at h
          exact h
      | inr next =>
          rw [hstep] at h
          exact ih h

/-- A loop whose rounds lower a measure ends within as many rounds as the measure says. -/
theorem iterate_of_measure (measure : State → Nat)
    (hlower : ∀ s next, step s = .inr next → measure next < measure s) (s : State) :
    ∃ result, iterate step (measure s + 1) s = some result := by
  induction hmeasure : measure s using Nat.strongRecOn generalizing s with
  | ind n ih =>
      rw [iterate]
      cases hstep : step s with
      | inl result => exact ⟨result, rfl⟩
      | inr next =>
          have hlt : measure next < n := hmeasure ▸ hlower s next hstep
          obtain ⟨result, hresult⟩ := ih _ hlt next rfl
          have hle : n = measure next + 1 + (n - (measure next + 1)) := by omega
          rw [hle]
          exact ⟨result, iterate_mono hresult _⟩

/-- A loop that ends does not run for ever. -/
theorem not_endless (h : iterate step rounds s = some result) : ¬Endless step s := by
  rintro ⟨states, rfl, hnext⟩
  suffices hnone : ∀ n, iterate step rounds (states n) = none by
    rw [hnone] at h
    cases h
  clear h
  induction rounds with
  | zero => exact fun _ => rfl
  | succ rounds ih =>
      intro n
      rw [iterate, hnext n]
      exact ih (n + 1)

/-- What the loop returns is what any function with its recursion gives. -/
theorem eq_of_iterate {f : State → Result} (hf : ∀ s, f s = (step s).elim id f)
    (h : iterate step rounds s = some result) : f s = result := by
  induction rounds generalizing s with
  | zero => cases h
  | succ rounds ih =>
      rw [iterate] at h
      rw [hf]
      cases hstep : step s with
      | inl other =>
          rw [hstep] at h
          exact Option.some.inj h
      | inr next =>
          rw [hstep] at h
          exact ih h

end FirmwareUpdater.Library.Iteration
