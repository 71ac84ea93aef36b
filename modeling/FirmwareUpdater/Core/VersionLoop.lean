import FirmwareUpdater.Core.OrderCodec
import FirmwareUpdater.Library.Iteration

/-!
# The loop of `compareVersions` ends

`compareRound` is one iteration of the loop, from the two cursors on. A cursor stays
where there is no number, for ever if need be, so neither text is a measure of its
own. But an iteration that does not return has read a number from one of them, and
what is left of both together has become shorter (`compareRound_advances`).
-/

namespace FirmwareUpdater.Order

open Library.Iteration

/-- One iteration of the loop of `compareVersions`: what it returns, or where the cursors are
then. -/
def compareRound (cursors : CString × CString) : Int ⊕ CString × CString :=
  let (a, b) := cursors
  if a.byteAt 0 ≠ 0 ∨ b.byteAt 0 ≠ 0 then
    let (va, a) := nextComponent a
    let (vb, b) := nextComponent b
    if va < 0 ∧ vb < 0 then .inl 0
    else
      let la := if va < 0 then 0 else va
      let lb := if vb < 0 then 0 else vb
      if la ≠ lb then .inl (if la < lb then -1 else 1)
      else if va < 0 ∧ vb < 0 then .inl 0  -- `break`
      else .inr (a, b)
  else .inl 0

/-- An iteration returns what the loop does, or it takes the cursors behind the components it has
read, one of which was a number, and the loop goes on from there. -/
theorem compareRound_cases (a b : CString) :
    compareRound (a, b) = .inl (compareFrom a b) ∨
      compareRound (a, b) = .inr ((nextComponent a).2, (nextComponent b).2) ∧
        compareFrom a b = compareFrom (nextComponent a).2 (nextComponent b).2 ∧
        (0 ≤ (nextComponent a).1 ∨ 0 ≤ (nextComponent b).1) := by
  rw [compareFrom, compareRound]
  dsimp only
  by_cases hmore : a.byteAt 0 ≠ 0 ∨ b.byteAt 0 ≠ 0
  · rw [if_pos hmore, if_pos hmore]
    by_cases hboth : (nextComponent a).1 < 0 ∧ (nextComponent b).1 < 0
    · rw [dif_pos hboth, if_pos hboth]
      exact .inl rfl
    · simp only [dif_neg hboth, if_neg hboth]
      generalize (if (nextComponent a).1 < 0 then 0 else (nextComponent a).1) = la
      generalize (if (nextComponent b).1 < 0 then 0 else (nextComponent b).1) = lb
      by_cases hsame : la ≠ lb
      · rw [if_pos hsame, if_pos hsame]
        exact .inl rfl
      · rw [if_neg hsame, if_neg hsame]
        exact .inr ⟨rfl, rfl, by omega⟩
  · rw [if_neg hmore, if_neg hmore]
    exact .inl rfl

/-- In an iteration that goes on no cursor goes back, and at least one of them advances. -/
theorem compareRound_advances {a b : CString} {next : CString × CString}
    (h : compareRound (a, b) = .inr next) :
    next.1.length ≤ a.length ∧ next.2.length ≤ b.length ∧
      (next.1.length < a.length ∨ next.2.length < b.length) := by
  rcases compareRound_cases a b with hreturns | ⟨hgoes, -, hnumber⟩
  · cases hreturns.symm.trans h
  · cases hgoes.symm.trans h
    obtain ⟨hle, hlt⟩ := nextComponent_length a
    obtain ⟨hle', hlt'⟩ := nextComponent_length b
    exact ⟨hle, hle', hnumber.imp hlt hlt'⟩

/-- `compareFrom` goes through these iterations. -/
theorem compareFrom_eq_round (cursors : CString × CString) :
    compareFrom cursors.1 cursors.2 =
      (compareRound cursors).elim id fun next => compareFrom next.1 next.2 := by
  obtain ⟨a, b⟩ := cursors
  rcases compareRound_cases a b with hreturns | ⟨hgoes, hrest, -⟩
  · rw [hreturns]
    rfl
  · rw [hgoes]
    exact hrest

/-- The text that is left for the two cursors. -/
def ahead (cursors : CString × CString) : Nat := cursors.1.length + cursors.2.length

/-- The loop of `compareVersions` ends on any two strings, within one iteration more than they have
bytes together, and returns what `compareVersions` does; there is no run of it without an end. -/
theorem compareVersions_ends (a b : CString) :
    (∀ more, iterate compareRound (a.length + b.length + 1 + more) (a, b) =
      some (compareVersions (some a) (some b))) ∧ ¬Endless compareRound (a, b) := by
  have hlower : ∀ s next, compareRound s = .inr next → ahead next < ahead s := by
    intro s next hround
    obtain ⟨hle, hle', hlt⟩ := compareRound_advances hround
    simp only [ahead]
    omega
  obtain ⟨result, hresult⟩ := iterate_of_measure ahead hlower (a, b)
  have hvalue : compareVersions (some a) (some b) = result :=
    eq_of_iterate (s := (a, b)) compareFrom_eq_round hresult
  refine ⟨fun more => ?_, not_endless hresult⟩
  rw [hvalue]
  exact iterate_mono hresult more

end FirmwareUpdater.Order
