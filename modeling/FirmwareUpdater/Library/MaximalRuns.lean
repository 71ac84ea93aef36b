import Mathlib.Data.List.Basic
import Mathlib.Data.List.TakeWhile

/-!
# Maximal runs of a sequence

A maximal run is a stretch of accepted items that nothing accepted stands next to.
`Scanned` is where a scan from left to right stands that collects the run it is in
and has found no qualifying one before it: an accepted item goes to the run
(`Scanned.push`), another one starts a new run behind a run that does not qualify
(`Scanned.skip`). Where the run it is in ends and qualifies, it is the first one
(`Scanned.firstRun`); where the sequence ends in one that does not, there is none
(`Scanned.not_hasRun`).
-/

namespace FirmwareUpdater.Library.MaximalRuns

variable {α : Type*}

/-- `run` is a maximal run of `items`, with `before` and `after` around it. -/
structure MaximalRun (accepted : α → Bool) (items before run after : List α) : Prop where
  split : items = before ++ (run ++ after)
  nonempty : run ≠ []
  all : ∀ x ∈ run, accepted x
  left : ∀ x ∈ before.getLast?, ¬accepted x
  right : ∀ x ∈ after.head?, ¬accepted x

/-- There is a maximal run that qualifies. -/
def HasRun (accepted : α → Bool) (qualifies : List α → Prop) (items : List α) : Prop :=
  ∃ before run after, MaximalRun accepted items before run after ∧ qualifies run

/-- `run` is the first maximal run that qualifies. -/
def FirstRun (accepted : α → Bool) (qualifies : List α → Prop) (items run : List α) : Prop :=
  ∃ before after, MaximalRun accepted items before run after ∧ qualifies run ∧
    ∀ before' run' after', MaximalRun accepted items before' run' after' → qualifies run' →
      before.length ≤ before'.length

variable {accepted : α → Bool} {qualifies : List α → Prop}
  {items before run after before' run' after' rest : List α} {x : α}

/-- Accepted items end where the first other one stands. -/
theorem span_append (hrun : ∀ x ∈ run, accepted x) (hrest : ∀ x ∈ rest.head?, ¬accepted x) :
    (run ++ rest).takeWhile accepted = run ∧ (run ++ rest).dropWhile accepted = rest := by
  rw [List.takeWhile_append_of_pos hrun, List.dropWhile_append_of_pos hrun]
  cases rest with
  | nil => exact ⟨by rw [List.takeWhile_nil, List.append_nil], List.dropWhile_nil⟩
  | cons x rest =>
      rw [List.takeWhile_cons_of_neg (hrest x rfl), List.dropWhile_cons_of_neg (hrest x rfl),
        List.append_nil]
      exact ⟨rfl, rfl⟩

/-- Two maximal runs that start at one place are the same. -/
theorem MaximalRun.unique (h : MaximalRun accepted items before run after)
    (h' : MaximalRun accepted items before' run' after')
    (hlength : before.length = before'.length) : run = run' := by
  have hsplit := h.split.symm.trans h'.split
  obtain ⟨-, hsplit⟩ := List.append_inj hsplit hlength
  rw [← (span_append h.all h.right).1, hsplit, (span_append h'.all h'.right).1]

theorem FirstRun.hasRun (h : FirstRun accepted qualifies items run) :
    HasRun accepted qualifies items := by
  obtain ⟨before, after, hrun, hqualifies, -⟩ := h
  exact ⟨before, run, after, hrun, hqualifies⟩

theorem FirstRun.qualifying (h : FirstRun accepted qualifies items run) : qualifies run := by
  obtain ⟨_, _, -, hqualifies, -⟩ := h
  exact hqualifies

/-- There is one first run at most. -/
theorem FirstRun.unique (h : FirstRun accepted qualifies items run)
    (h' : FirstRun accepted qualifies items run') : run = run' := by
  obtain ⟨before, after, hrun, hqualifies, hfirst⟩ := h
  obtain ⟨before', after', hrun', hqualifies', hfirst'⟩ := h'
  exact hrun.unique hrun'
    (Nat.le_antisymm (hfirst _ _ _ hrun' hqualifies') (hfirst' _ _ _ hrun hqualifies))

/-- A scan has come to `rest`, is in the run `run`, and has left no qualifying one behind. -/
structure Scanned (accepted : α → Bool) (qualifies : List α → Prop)
    (items before run rest : List α) : Prop where
  split : items = before ++ (run ++ rest)
  all : ∀ x ∈ run, accepted x
  left : ∀ x ∈ before.getLast?, ¬accepted x
  first : ∀ before' run' after', MaximalRun accepted items before' run' after' → qualifies run' →
    before.length ≤ before'.length

/-- At the start of the sequence. -/
theorem Scanned.start : Scanned accepted qualifies items [] [] items where
  split := rfl
  all _ h := absurd h List.not_mem_nil
  left _ h := by cases h
  first _ _ _ _ _ := Nat.zero_le _

/-- An accepted item goes to the run. -/
theorem Scanned.push (h : Scanned accepted qualifies items before run (x :: rest))
    (hx : accepted x) : Scanned accepted qualifies items before (run ++ [x]) rest where
  split := by rw [h.split, List.append_assoc, List.singleton_append]
  all y hy := by
    rcases List.mem_append.mp hy with hy | hy
    · exact h.all y hy
    · rw [List.mem_singleton.mp hy]
      exact hx
  left := h.left
  first := h.first

/-- A run that ended without qualifying leaves every qualifying one behind itself. -/
theorem Scanned.later (h : Scanned accepted qualifies items before run rest)
    (hrest : ∀ x ∈ rest.head?, ¬accepted x) (hrun : ¬qualifies run)
    (h' : MaximalRun accepted items before' run' after') (hqualifies : qualifies run') :
    before.length + run.length < before'.length := by
  obtain ⟨middle, hbefore, hsplit⟩ : ∃ middle, before' = before ++ middle ∧
      run ++ rest = middle ++ (run' ++ after') := by
    have hle := h.first before' run' after' h' hqualifies
    rcases List.append_eq_append_iff.mp (h.split.symm.trans h'.split) with hlater | hearlier
    · exact hlater
    · obtain ⟨middle, rfl, hsplit⟩ := hearlier
      rw [List.length_append] at hle
      obtain rfl := List.eq_nil_of_length_eq_zero (by omega : middle.length = 0)
      exact ⟨[], by rw [List.append_nil, List.append_nil], hsplit.symm⟩
  by_contra hnot
  rw [hbefore, List.length_append] at hnot
  have hbegins : middle <+: run :=
    List.prefix_of_prefix_length_le ⟨_, hsplit.symm⟩ (List.prefix_append run rest) (by omega)
  -- What stands before a maximal run that starts in `run` would be accepted.
  have hmiddle : middle = [] := by
    by_contra hne
    have hlast : middle.getLast hne ∈ before'.getLast? := by
      rw [hbefore, List.getLast?_append_of_ne_nil before hne, List.getLast?_eq_some_getLast hne]
      rfl
    exact h'.left _ hlast (h.all _ (hbegins.subset (List.getLast_mem hne)))
  rw [hmiddle, List.nil_append] at hsplit
  have hsame : run = run' := by
    rw [← (span_append h.all hrest).1, hsplit, (span_append h'.all h'.right).1]
  exact hrun (hsame ▸ hqualifies)

/-- Behind an item that is not accepted, and a run before it that does not qualify, a new one
starts. -/
theorem Scanned.skip (h : Scanned accepted qualifies items before run (x :: rest))
    (hx : ¬accepted x) (hrun : ¬qualifies run) :
    Scanned accepted qualifies items (before ++ (run ++ [x])) [] rest where
  split := by
    rw [h.split, List.nil_append, List.append_assoc, List.append_assoc, List.singleton_append]
  all _ h := absurd h List.not_mem_nil
  left y hy := by
    rw [← List.append_assoc, List.getLast?_concat] at hy
    cases hy
    exact hx
  first before' run' after' h' hqualifies := by
    have hlater := h.later (fun y hy => by cases hy; exact hx) hrun h' hqualifies
    rw [List.length_append, List.length_append, List.length_singleton]
    omega

/-- A run that ends and qualifies is the first one. -/
theorem Scanned.firstRun (h : Scanned accepted qualifies items before run rest) (hne : run ≠ [])
    (hrest : ∀ x ∈ rest.head?, ¬accepted x) (hqualifies : qualifies run) :
    FirstRun accepted qualifies items run :=
  ⟨before, rest, ⟨h.split, hne, h.all, h.left, hrest⟩, hqualifies, h.first⟩

/-- If the last one does not qualify, there is none. -/
theorem Scanned.not_hasRun (h : Scanned accepted qualifies items before run [])
    (hrun : ¬qualifies run) : ¬HasRun accepted qualifies items := by
  rintro ⟨before', run', after', h', hqualifies⟩
  have hlater := h.later (fun y hy => by cases hy) hrun h' hqualifies
  have hlength := congrArg List.length (h.split.symm.trans h'.split)
  simp only [List.length_append, List.length_nil] at hlength
  omega

end FirmwareUpdater.Library.MaximalRuns
