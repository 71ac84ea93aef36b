import Mathlib.Data.List.Dedup
import Mathlib.Data.List.Induction
import Mathlib.Data.List.Perm.Subperm

/-!
# Tables of bounded size

Two ways to fill a table of `capacity` entries from a sequence: `insertNew` skips
what is there already, `push` stores every entry while there is room. A filled
table holds exactly what the sequence holds when the sequence has no more than
`capacity` different entries (`mem_insertAll_iff`), and when every one of them is
among the first `capacity` entries (`pushAll_eq_take`).
-/

namespace FirmwareUpdater.Library.BoundedTable

variable {Entry : Type*}

/-- Store an entry that is not there yet, while there is room. -/
def insertNew [DecidableEq Entry] (capacity : Nat) (table : List Entry) (entry : Entry) :
    List Entry :=
  if capacity ≤ table.length ∨ entry ∈ table then table else table ++ [entry]

/-- Store an entry, while there is room. -/
def push (capacity : Nat) (table : List Entry) (entry : Entry) : List Entry :=
  if capacity ≤ table.length then table else table ++ [entry]

/-- A table filled entry by entry, without a repetition. -/
def insertAll [DecidableEq Entry] (capacity : Nat) (entries : List Entry) : List Entry :=
  entries.foldl (insertNew capacity) []

/-- A table filled entry by entry. -/
def pushAll (capacity : Nat) (entries : List Entry) : List Entry := entries.foldl (push capacity) []

/-- Over a run of calls, a state's table is filled with the entries that the calls name, if these
calls store them and the other ones store nothing. -/
theorem table_run {State Call Table : Type*} (exec : State → Call → State) (table : State → Table)
    (named : Call → Option Entry) (store : Table → Entry → Table) (Fits : Entry → Prop)
    (hstore : ∀ s call entry, named call = some entry → Fits entry →
      table (exec s call) = store (table s) entry)
    (hkeep : ∀ s call, named call = none → table (exec s call) = table s) {calls : List Call}
    (hfits : ∀ entry ∈ calls.filterMap named, Fits entry) (s : State) :
    table (calls.foldl exec s) = (calls.filterMap named).foldl store (table s) := by
  induction calls generalizing s with
  | nil => rfl
  | cons call calls ih =>
      rw [List.foldl_cons]
      cases hnamed : named call with
      | none =>
          rw [List.filterMap_cons_none hnamed] at hfits ⊢
          rw [ih hfits, hkeep s call hnamed]
      | some entry =>
          rw [List.filterMap_cons_some hnamed] at hfits ⊢
          rw [ih fun other hother => hfits other (List.mem_cons_of_mem _ hother), List.foldl_cons,
            hstore s call entry hnamed (hfits entry List.mem_cons_self)]

/-- Entries stored one by one are the first ones of the sequence. -/
theorem pushAll_eq_take (capacity : Nat) (entries : List Entry) :
    pushAll capacity entries = entries.take capacity := by
  induction entries using List.reverseRecOn with
  | nil => rw [List.take_nil]; rfl
  | append_singleton entries entry ih =>
      rw [pushAll, List.foldl_append]
      show push capacity (pushAll capacity entries) entry = _
      rw [ih, push, List.length_take]
      by_cases hfull : capacity ≤ entries.length
      · rw [if_pos (by omega), List.take_append_of_le_length hfull]
      · have hshort : (entries ++ [entry]).length ≤ capacity := by
          rw [List.length_append, List.length_singleton]
          omega
        rw [if_neg (by omega), List.take_of_length_le hshort, List.take_of_length_le (by omega)]

section Distinct

variable [DecidableEq Entry]

/-- A table filled so has no repetition, and nothing that is not in the sequence. -/
theorem insertAll_sound (capacity : Nat) (entries : List Entry) :
    (insertAll capacity entries).Nodup ∧ insertAll capacity entries ⊆ entries := by
  induction entries using List.reverseRecOn with
  | nil => exact ⟨List.nodup_nil, List.Subset.refl _⟩
  | append_singleton entries entry ih =>
      obtain ⟨hnodup, hsub⟩ := ih
      rw [insertAll, List.foldl_append]
      show (insertNew capacity (insertAll capacity entries) entry).Nodup ∧
        insertNew capacity (insertAll capacity entries) entry ⊆ _
      rw [insertNew]
      split
      · exact ⟨hnodup, fun x hx => List.mem_append_left _ (hsub hx)⟩
      · rename_i hnew
        refine ⟨List.Nodup.append hnodup (List.nodup_singleton entry) ?_, ?_⟩
        · intro x hx hentry
          rw [List.mem_singleton.mp hentry] at hx
          exact hnew (.inr hx)
        · exact List.append_subset.mpr
            ⟨fun x hx => List.mem_append_left _ (hsub hx), List.subset_append_right _ _⟩

/-- With room for every different entry of the sequence, the table holds them all. -/
theorem mem_insertAll_iff {capacity : Nat} {entries : List Entry}
    (hroom : entries.dedup.length ≤ capacity) (entry : Entry) :
    entry ∈ insertAll capacity entries ↔ entry ∈ entries := by
  constructor
  · intro h
    exact (insertAll_sound capacity entries).2 h
  · -- The table is a part of the distinct entries, and a proper one while an entry is missing.
    induction entries using List.reverseRecOn with
    | nil => exact id
    | append_singleton entries last ih =>
        have hsub : entries.dedup ⊆ (entries ++ [last]).dedup := by
          intro x hx
          exact List.mem_dedup.mpr (List.mem_append_left _ (List.mem_dedup.mp hx))
        have hle := (List.subperm_of_subset (List.nodup_dedup _) hsub).length_le
        have hearlier := ih (by omega)
        have hstep : insertAll capacity (entries ++ [last]) =
            insertNew capacity (insertAll capacity entries) last := by
          rw [insertAll, List.foldl_append]
          rfl
        intro hmem
        rw [hstep, insertNew]
        rcases List.mem_append.mp hmem with hold | hlast
        · split
          · exact hearlier hold
          · exact List.mem_append_left _ (hearlier hold)
        · rw [List.mem_singleton.mp hlast]
          by_cases hthere : last ∈ insertAll capacity entries
          · rw [if_pos (.inr hthere)]
            exact hthere
          · obtain ⟨hnodup, hsound⟩ := insertAll_sound capacity entries
            have hnodup' : (last :: insertAll capacity entries).Nodup :=
              List.nodup_cons.mpr ⟨hthere, hnodup⟩
            have hsub' : last :: insertAll capacity entries ⊆ (entries ++ [last]).dedup := by
              intro x hx
              rcases List.mem_cons.mp hx with rfl | hx
              · exact List.mem_dedup.mpr (List.mem_append_right _ (List.mem_singleton.mpr rfl))
              · exact hsub (List.mem_dedup.mpr (hsound hx))
            have hlt := (List.subperm_of_subset hnodup' hsub').length_le
            rw [List.length_cons] at hlt
            have hfree : ¬(capacity ≤ (insertAll capacity entries).length ∨
                last ∈ insertAll capacity entries) := by
              rintro (hfull | h)
              · omega
              · exact hthere h
            rw [if_neg hfree]
            exact List.mem_append_right _ (List.mem_singleton.mpr rfl)

end Distinct

end FirmwareUpdater.Library.BoundedTable
