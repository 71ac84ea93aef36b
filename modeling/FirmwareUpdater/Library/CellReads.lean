import Mathlib.Data.List.Basic

/-!
# Programs that read cells

A `CellReads` is a program that reads the cells of a memory one at a time and chooses
the next one by what it found so far. Its run on a memory has a result and the
places it has read (`places`). `Within` says both of a run, with a bound on the
places, and has a rule for each way such programs are put together; the rules for
programs that may fail follow the `Option` of the result. In a text that ends with
a terminator, a cell that holds something else is followed by another one of the
text (`succ_le_of_ne`): what was read so far says how far it may go on.
-/

namespace FirmwareUpdater.Library

/-- A program that reads cells. -/
inductive CellReads (Cell Value : Type) where
  | done (value : Value)
  | read (place : Nat) (next : Cell → CellReads Cell Value)

namespace CellReads

variable {Cell Value Value' : Type}

/-- One program after the other. -/
def andThen : CellReads Cell Value → (Value → CellReads Cell Value') → CellReads Cell Value'
  | done value, f => f value
  | read place next, f => read place fun found => (next found).andThen f

instance : Monad (CellReads Cell) where
  pure := done
  bind := andThen

/-- Read one cell. -/
def cell (place : Nat) : CellReads Cell Cell := read place done

/-- What the program returns on a memory. -/
def result (cells : Nat → Cell) : CellReads Cell Value → Value
  | done value => value
  | read place next => (next (cells place)).result cells

/-- The places it reads there. -/
def places (cells : Nat → Cell) : CellReads Cell Value → List Nat
  | done _ => []
  | read place next => place :: (next (cells place)).places cells

variable (cells : Nat → Cell) (p : CellReads Cell Value) (f : Value → CellReads Cell Value')

theorem result_bind : (p >>= f).result cells = (f (p.result cells)).result cells := by
  induction p with
  | done value => rfl
  | read place next ih => exact ih (cells place)

theorem places_bind :
    (p >>= f).places cells = p.places cells ++ (f (p.result cells)).places cells := by
  induction p with
  | done value => rfl
  | read place next ih => exact congrArg (place :: ·) (ih (cells place))

variable {cells p f} {limit place : Nat} {value : Value} {value' : Value'}

/-- The program reads no place behind the limit and returns this. -/
structure Within (cells : Nat → Cell) (limit : Nat) (p : CellReads Cell Value) (value : Value) :
    Prop where
  inside : ∀ place ∈ p.places cells, place ≤ limit
  returns : p.result cells = value

/-- A value is returned without a read. -/
theorem within_pure (value : Value) :
    Within cells limit (pure value) value where
  inside _ hplace := absurd hplace List.not_mem_nil
  returns := rfl

/-- A cell is read within the limit. -/
theorem within_cell (hplace : place ≤ limit) : Within cells limit (cell place) (cells place) where
  inside _ hmem := List.mem_singleton.mp hmem ▸ hplace
  returns := rfl

/-- A program after another goes on from what that one returned. -/
theorem Within.bind (hp : Within cells limit p value)
    (hf : Within cells limit (f value) value') : Within cells limit (p >>= f) value' where
  inside place hplace := by
    rw [places_bind, List.mem_append, hp.returns] at hplace
    exact hplace.elim (hp.inside place) (hf.inside place)
  returns := by rw [result_bind, hp.returns, hf.returns]

/-! ## Programs that may fail -/

/-- Read one cell in a program that may fail. -/
def cellSome (place : Nat) : OptionT (CellReads Cell) Cell := OptionT.lift (cell place)

section Failing

variable {attempt : OptionT (CellReads Cell) Value}
  {more : Value → OptionT (CellReads Cell) Value'}
  {found : Option Value} {rest : Value → Option Value'}

/-- A program that may fail goes on only from a value. -/
theorem Within.bindSome (hp : Within cells limit attempt.run found)
    (hf : ∀ value, found = some value → Within cells limit (more value).run (rest value)) :
    Within cells limit (attempt >>= more).run (found >>= rest) := by
  rw [OptionT.run_bind]
  refine Within.bind hp ?_
  cases found with
  | none => exact within_pure none
  | some value => exact hf value rfl

/-- It reads a cell and goes on from that. -/
theorem Within.readSome {more : Cell → OptionT (CellReads Cell) Value} (hplace : place ≤ limit)
    (hf : Within cells limit (more (cells place)).run found) :
    Within cells limit (cellSome place >>= more).run found := by
  have hread : Within cells limit (cellSome place).run (some (cells place)) :=
    (within_cell hplace).bind (within_pure _)
  show Within cells limit _ (some (cells place) >>= fun _ => found)
  refine hread.bindSome fun value hvalue => ?_
  cases hvalue
  exact hf

/-- It goes on only where a condition holds. -/
theorem Within.guardSome {condition : Prop} [Decidable condition]
    {more : Unit → OptionT (CellReads Cell) Value} {rest : Unit → Option Value}
    (hf : condition → Within cells limit (more ()).run (rest ())) :
    Within cells limit (guard condition >>= more).run (guard condition >>= rest) := by
  have hguard : Within cells limit (guard condition : OptionT (CellReads Cell) Unit).run
      (guard condition) := by
    unfold guard
    split
    · exact within_pure (some ())
    · exact within_pure none
  refine hguard.bindSome fun _ hholds => hf ?_
  by_contra hnot
  rw [guard, if_neg hnot] at hholds
  cases hholds

end Failing

/-! ## Texts with a terminator -/

/-- A cell that is not the terminator is not the last one. -/
theorem succ_le_of_ne (cells : Nat → Cell) (hplace : place ≤ limit)
    (hne : cells place ≠ cells limit) : place + 1 ≤ limit :=
  Nat.lt_of_le_of_ne hplace fun h => hne (congrArg cells h)

end CellReads

end FirmwareUpdater.Library
