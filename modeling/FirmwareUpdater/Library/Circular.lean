import Mathlib.Data.List.Basic
import Mathlib.Tactic.SplitIfs

/-!
# Positions on a circle of slots

`position size start offset` is the slot reached from `start` after `offset`
slots when there are `size` of them. With `start < size` and `offset ≤ size` the
walk crosses the end at most once, so every fact here is linear arithmetic.
`contents` reads a run of slots in that order, for a queue kept in an array of
which one slot stays free.
-/

namespace FirmwareUpdater.Library.Circular

/-- The slot `offset` places after `start` on a circle of `size` slots. -/
def position (size start offset : Nat) : Nat :=
  if start + offset < size then start + offset else start + offset - size

variable {size start offset : Nat}

/-- A position is a slot. -/
theorem position_lt (hstart : start < size) (hoffset : offset ≤ size) :
    position size start offset < size := by
  unfold position
  split <;> omega

/-- Walking no slot stays in place. -/
@[simp] theorem position_zero (hstart : start < size) : position size start 0 = start := by
  simp [position, hstart]

/-- Offsets less than one turn apart are different slots. -/
theorem position_ne (start : Nat) {other : Nat} (hlt : offset < other) (hother : other < size) :
    position size start offset ≠ position size start other := by
  unfold position
  split <;> split <;> omega

/-- Walks add up, as long as the sum is at most one turn. -/
theorem position_add {more : Nat} (hstart : start < size) (hsum : offset + more ≤ size) :
    position size (position size start offset) more = position size start (offset + more) := by
  unfold position
  split <;> split <;> split <;> omega

/-! ## What a run of slots holds -/

/-- The slots from `start` up to `stop`, in order. -/
def occupied (size start stop : Nat) : Nat :=
  if start ≤ stop then stop - start else size + stop - start

/-- What they hold. -/
def contents {α : Type*} (size : Nat) (slots : Nat → α) (start stop : Nat) : List α :=
  (List.range (occupied size start stop)).map fun i => slots (position size start i)

variable {α : Type*} {slots : Nat → α} {stop : Nat}

/-- The next slot, as the code computes it. -/
theorem mod_eq_position (hstart : start < size) : (start + 1) % size = position size start 1 := by
  unfold position
  split
  · rename_i hlt
    exact Nat.mod_eq_of_lt hlt
  · rename_i hend
    have heq : start + 1 = size := by omega
    rw [heq, Nat.mod_self, Nat.sub_self]

/-- A queue that starts where it stops is empty. -/
@[simp] theorem contents_self (slots : Nat → α) (start : Nat) :
    contents size slots start start = [] := by
  simp [contents, occupied]

/-- A slot written behind the last one, with a slot still free, is a message queued last. -/
theorem contents_push (hstart : start < size) (hstop : stop < size)
    (hroom : (stop + 1) % size ≠ start) (value : α) :
    contents size (Function.update slots stop value) start ((stop + 1) % size) =
      contents size slots start stop ++ [value] := by
  rw [mod_eq_position hstop] at hroom ⊢
  have hmore : occupied size start (position size stop 1) = occupied size start stop + 1 := by
    unfold occupied position at *
    split_ifs at hroom ⊢ <;> omega
  have hlast : position size start (occupied size start stop) = stop := by
    unfold occupied position
    split_ifs <;> omega
  have hfits : occupied size start stop < size := by
    unfold occupied
    split <;> omega
  rw [contents, hmore, List.range_succ, List.map_append, contents]
  congr 1
  · refine List.map_congr_left fun i hi => ?_
    have hne : position size start i ≠ stop := by
      rw [← hlast]
      exact position_ne start (List.mem_range.mp hi) hfits
    rw [Function.update_of_ne hne]
  · simp [hlast]

/-- The slot at the start is the message queued first. -/
theorem contents_pop (hstart : start < size) (hstop : stop < size) (hne : start ≠ stop) :
    contents size slots start stop =
      slots start :: contents size slots ((start + 1) % size) stop := by
  rw [mod_eq_position hstart]
  have hmore : occupied size start stop = occupied size (position size start 1) stop + 1 := by
    unfold occupied position
    split_ifs <;> omega
  have hfits : occupied size start stop < size := by
    unfold occupied
    split <;> omega
  rw [contents, hmore, List.range_succ_eq_map, List.map_cons, List.map_map, position_zero hstart,
    contents]
  congr 1
  refine List.map_congr_left fun i hi => ?_
  have hlt := List.mem_range.mp hi
  rw [Function.comp_apply, position_add hstart (by omega), Nat.add_comm 1 i]

/-- A queue of one slot less than there are has no room left. -/
theorem length_contents_lt (hstart : start < size) (hstop : stop < size)
    (hroom : (stop + 1) % size ≠ start) :
    (contents size slots start stop).length < size - 1 := by
  rw [mod_eq_position hstop] at hroom
  rw [contents, List.length_map, List.length_range]
  unfold occupied position at *
  split_ifs at hroom ⊢ <;> omega

end FirmwareUpdater.Library.Circular
