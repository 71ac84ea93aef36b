import Mathlib.Data.List.Basic
import Mathlib.Logic.Function.Basic

/-!
# Keyed stores whose writes may fail

Every write answers for itself: it takes the next of the coming answers and changes
the store only where that answer is true. A power cut needs no definition of its
own, since it leaves what the store holds when every write from some point on fails.

`putAll_untouched`, `putAll_cases` and `putAll_ok` say what a sequence of writes may
leave under a key, `putAll_granted` and `putAll_steady` when all of it succeeds.
-/

namespace FirmwareUpdater.Library

/-- What a store holds, and what its coming writes answer; they succeed when the list is over. -/
structure FallibleStore (Key Value : Type*) where
  entries : Key → Option Value := fun _ => none
  answers : List Bool := []

namespace FallibleStore

variable {Key Value : Type*}

/-- A call that only answers. -/
def ask (store : FallibleStore Key Value) : Bool × FallibleStore Key Value :=
  (store.answers.headD true, { store with answers := store.answers.tail })

@[simp]
theorem ask_entries (store : FallibleStore Key Value) : store.ask.2.entries = store.entries := rfl

/-- Erase every key, all of them or none. -/
def clear (store : FallibleStore Key Value) : Bool × FallibleStore Key Value :=
  let (ok, store) := store.ask
  (ok, if ok then { store with entries := fun _ => none } else store)

/-- Everything goes, or nothing. -/
theorem clear_cases (store : FallibleStore Key Value) :
    (store.clear.1 = true ∧ store.clear.2.entries = fun _ => none) ∨
      (store.clear.1 = false ∧ store.clear.2.entries = store.entries) := by
  unfold clear
  cases h : store.ask.1 with
  | true => exact .inl ⟨rfl, by simp [h]⟩
  | false => exact .inr ⟨rfl, by simp [h]⟩

variable [DecidableEq Key]

/-- Write `value` under a key, or erase the key where that is none. -/
def put (store : FallibleStore Key Value) (key : Key) (value : Option Value) :
    Bool × FallibleStore Key Value :=
  let (ok, store) := store.ask
  (ok, if ok then { store with entries := Function.update store.entries key value } else store)

/-- Some writes one after the other, whatever became of the ones before, and whether all of them
succeeded. -/
def putAll (store : FallibleStore Key Value) : List (Key × Option Value) →
    Bool × FallibleStore Key Value
  | [] => (true, store)
  | (key, value) :: rest =>
      let (ok, store) := store.put key value
      let (oks, store) := store.putAll rest
      (ok && oks, store)

/-- A write succeeds and is there, or fails and leaves everything. -/
theorem put_cases (store : FallibleStore Key Value) (key : Key) (value : Option Value) :
    ((store.put key value).1 = true ∧
        (store.put key value).2.entries = Function.update store.entries key value) ∨
      ((store.put key value).1 = false ∧ (store.put key value).2.entries = store.entries) := by
  unfold put
  cases h : store.ask.1 with
  | true => exact .inl ⟨rfl, by simp [h]⟩
  | false => exact .inr ⟨rfl, by simp [h]⟩

/-- A write does not touch another key. -/
theorem put_of_ne (store : FallibleStore Key Value) {key other : Key} (value : Option Value)
    (h : other ≠ key) : (store.put key value).2.entries other = store.entries other := by
  rcases store.put_cases key value with ⟨-, hentries⟩ | ⟨-, hentries⟩
  · rw [hentries, Function.update_of_ne h]
  · rw [hentries]

/-- Under its own key it leaves what it writes, or what was there. -/
theorem put_self (store : FallibleStore Key Value) (key : Key) (value : Option Value) :
    (store.put key value).2.entries key = value ∨
      (store.put key value).2.entries key = store.entries key := by
  rcases store.put_cases key value with ⟨-, hentries⟩ | ⟨-, hentries⟩
  · exact .inl (by rw [hentries, Function.update_self])
  · exact .inr (by rw [hentries])

/-- A write that succeeds is there. -/
theorem put_ok {store : FallibleStore Key Value} {key : Key} {value : Option Value}
    (h : (store.put key value).1 = true) : (store.put key value).2.entries key = value := by
  rcases store.put_cases key value with ⟨-, hentries⟩ | ⟨hfailed, -⟩
  · rw [hentries, Function.update_self]
  · rw [hfailed] at h
    cases h

/-- Writes do not touch a key they do not name. -/
theorem putAll_untouched (store : FallibleStore Key Value) (writes : List (Key × Option Value))
    {key : Key} (h : key ∉ writes.map Prod.fst) :
    (store.putAll writes).2.entries key = store.entries key := by
  induction writes generalizing store with
  | nil => rfl
  | cons write writes ih =>
      rw [List.map_cons, List.mem_cons, not_or] at h
      show ((store.put write.1 write.2).2.putAll writes).2.entries key = _
      rw [ih _ h.2, put_of_ne _ _ h.1]

/-- Under any key they leave what was there or what one of them writes. -/
theorem putAll_cases (store : FallibleStore Key Value) (writes : List (Key × Option Value))
    (key : Key) :
    (store.putAll writes).2.entries key = store.entries key ∨
      ∃ value, (key, value) ∈ writes ∧ (store.putAll writes).2.entries key = value := by
  induction writes generalizing store with
  | nil => exact .inl rfl
  | cons write writes ih =>
      show ((store.put write.1 write.2).2.putAll writes).2.entries key = _ ∨ _
      rcases ih (store.put write.1 write.2).2 with hkept | ⟨value, hmem, hwritten⟩
      · by_cases hkey : key = write.1
        · subst hkey
          rcases store.put_self write.1 write.2 with hself | hself
          · exact .inr ⟨write.2, List.mem_cons_self, hkept.trans hself⟩
          · exact .inl (hkept.trans hself)
        · exact .inl (hkept.trans (put_of_ne _ _ hkey))
      · exact .inr ⟨value, List.mem_cons_of_mem _ hmem, hwritten⟩

/-- When all of them succeed, every key holds what was written to it, provided that no key is
written twice. -/
theorem putAll_ok {store : FallibleStore Key Value} {writes : List (Key × Option Value)}
    (hnodup : (writes.map Prod.fst).Nodup) (h : (store.putAll writes).1 = true)
    {key : Key} {value : Option Value} (hmem : (key, value) ∈ writes) :
    (store.putAll writes).2.entries key = value := by
  induction writes generalizing store with
  | nil => cases hmem
  | cons write writes ih =>
      have hok : (store.put write.1 write.2).1 = true ∧
          ((store.put write.1 write.2).2.putAll writes).1 = true := by
        simpa [putAll] using h
      rw [List.map_cons, List.nodup_cons] at hnodup
      show ((store.put write.1 write.2).2.putAll writes).2.entries key = _
      rcases List.mem_cons.mp hmem with rfl | hrest
      · rw [putAll_untouched _ _ hnodup.1]
        exact put_ok hok.1
      · exact ih hnodup.2 hok.2 hrest

/-- A store that fails no more goes on so. -/
theorem put_steady {store : FallibleStore Key Value} (h : store.answers = []) (key : Key)
    (value : Option Value) :
    store.put key value = (true, ⟨Function.update store.entries key value, []⟩) := by
  simp [put, ask, h]

@[inherit_doc put_steady]
theorem putAll_steady {store : FallibleStore Key Value} (h : store.answers = [])
    (writes : List (Key × Option Value)) :
    (store.putAll writes).1 = true ∧ (store.putAll writes).2.answers = [] := by
  induction writes generalizing store with
  | nil => exact ⟨rfl, h⟩
  | cons write writes ih =>
      rw [putAll, put_steady h]
      have hrest := @ih ⟨Function.update store.entries write.1 write.2, []⟩ rfl
      exact ⟨by simp [hrest.1], hrest.2⟩

/-- Writes whose answers are all known to be good succeed, and leave the answers behind them. -/
theorem putAll_granted {store : FallibleStore Key Value} {writes : List (Key × Option Value)}
    {rest : List Bool} (h : store.answers = List.replicate writes.length true ++ rest) :
    (store.putAll writes).1 = true ∧ (store.putAll writes).2.answers = rest := by
  induction writes generalizing store with
  | nil => exact ⟨rfl, h⟩
  | cons write writes ih =>
      rw [List.length_cons, List.replicate_succ, List.cons_append] at h
      have hput : store.put write.1 write.2 =
          (true, ⟨Function.update store.entries write.1 write.2,
            List.replicate writes.length true ++ rest⟩) := by
        simp [put, ask, h]
      obtain ⟨hoks, hleft⟩ := @ih ⟨Function.update store.entries write.1 write.2, _⟩ rfl
      rw [putAll, hput]
      exact ⟨by simp [hoks], hleft⟩

end FallibleStore

end FirmwareUpdater.Library
