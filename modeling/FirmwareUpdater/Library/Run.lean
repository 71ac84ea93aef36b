import Mathlib.Data.List.Basic

/-!
# Runs of labelled transition systems

`Run Step start labels finish` composes the steps of a labelled transition
relation. The file gives the two rules used to reason about runs: an invariant
kept by every step holds at the end of every run (`Run.invariant`), and a step
by step simulation of one system by another lifts to whole runs
(`Run.simulation`).
-/

namespace FirmwareUpdater.Library

variable {State Label : Type*} {Step : State → Label → State → Prop}

/-- `Run Step start labels finish` says that the steps carrying `labels`, in order, lead from
`start` to `finish`. -/
inductive Run (Step : State → Label → State → Prop) : State → List Label → State → Prop where
  | nil (state) : Run Step state [] state
  | cons {start middle finish label labels} :
      Step start label middle → Run Step middle labels finish →
      Run Step start (label :: labels) finish

/-- Run a deterministic partial system on a list of actions, keeping what each one showed. -/
def execAll {Action Shown : Type*} (exec : State → Action → Option (State × Shown)) :
    State → List Action → Option (State × List (Action × Shown))
  | state, [] => some (state, [])
  | state, action :: actions =>
      (exec state action).bind fun (middle, shown) =>
        (execAll exec middle actions).map fun (finish, trace) =>
          (finish, (action, shown) :: trace)

namespace Run

/-- A single step is a run. -/
theorem single {start finish : State} {label : Label} (h : Step start label finish) :
    Run Step start [label] finish :=
  .cons h (.nil _)

/-- Runs compose. -/
theorem append {start middle finish : State} {first second : List Label}
    (hfirst : Run Step start first middle) (hsecond : Run Step middle second finish) :
    Run Step start (first ++ second) finish := by
  induction hfirst with
  | nil => exact hsecond
  | cons hstep _ ih => exact .cons hstep (ih hsecond)

/-- A run can be cut anywhere. -/
theorem split {start finish : State} {first second : List Label}
    (hrun : Run Step start (first ++ second) finish) :
    ∃ middle, Run Step start first middle ∧ Run Step middle second finish := by
  induction first generalizing start with
  | nil => exact ⟨start, .nil start, hrun⟩
  | cons label first ih =>
      cases hrun with
      | cons hstep hrest =>
          obtain ⟨middle, hfirst, hsecond⟩ := ih hrest
          exact ⟨middle, .cons hstep hfirst, hsecond⟩

/-- The step a label stands for, and the runs around it. -/
theorem split_cons {start finish : State} {before after : List Label} {label : Label}
    (hrun : Run Step start (before ++ label :: after) finish) :
    ∃ middle next, Run Step start before middle ∧ Step middle label next ∧
      Run Step next after finish := by
  obtain ⟨middle, hbefore, hrest⟩ := hrun.split
  cases hrest with
  | cons hstep hafter => exact ⟨middle, _, hbefore, hstep, hafter⟩

/-- The steps of a run may be steps of another relation. -/
theorem mono {Wide : State → Label → State → Prop}
    (hstep : ∀ start label finish, Step start label finish → Wide start label finish)
    {start finish : State} {labels : List Label} (hrun : Run Step start labels finish) :
    Run Wide start labels finish := by
  induction hrun with
  | nil => exact .nil _
  | cons hfirst _ ih => exact .cons (hstep _ _ _ hfirst) ih

/-- A property kept by every step holds at the end of every run that starts with it. -/
theorem invariant (Inv : State → Prop)
    (hstep : ∀ start label finish, Inv start → Step start label finish → Inv finish)
    {start finish : State} {labels : List Label} (hrun : Run Step start labels finish)
    (hstart : Inv start) : Inv finish := by
  induction hrun with
  | nil => exact hstart
  | cons hfirst _ ih => exact ih (hstep _ _ _ hstart hfirst)

/-- The same where only the labels of the run are known to keep the property. -/
theorem invariant_on (Ok : Label → Prop) (Inv : State → Prop)
    (hstep : ∀ start label finish, Ok label → Inv start → Step start label finish → Inv finish)
    {start finish : State} {labels : List Label} (hrun : Run Step start labels finish)
    (hlabels : ∀ label ∈ labels, Ok label) (hstart : Inv start) : Inv finish := by
  induction hrun with
  | nil => exact hstart
  | cons hfirst _ ih =>
      rw [List.forall_mem_cons] at hlabels
      exact ih hlabels.2 (hstep _ _ _ hlabels.1 hstart hfirst)

/-- What a system holds and what enters it is, in order, what leaves it and what it holds then, if
every step from a state with the invariant keeps this and the invariant. -/
theorem conserves {Item : Type*} (Inv : State → Prop) (hold : State → List Item)
    (enter leave : Label → List Item)
    (hinv : ∀ start label finish, Inv start → Step start label finish → Inv finish)
    (hstep : ∀ start label finish, Inv start → Step start label finish →
      hold start ++ enter label = leave label ++ hold finish)
    {start finish : State} {labels : List Label} (hrun : Run Step start labels finish)
    (hstart : Inv start) :
    hold start ++ labels.flatMap enter = labels.flatMap leave ++ hold finish := by
  induction hrun with
  | nil => simp
  | cons hfirst _ ih =>
      have hmore := ih (hinv _ _ _ hstart hfirst)
      rw [List.flatMap_cons, List.flatMap_cons, ← List.append_assoc, hstep _ _ _ hstart hfirst,
        List.append_assoc, hmore, List.append_assoc]

/-- What every step from a state with the invariant shows, a run shows. -/
theorem shows {Item : Type*} (Inv : State → Prop) (shown : Label → List Item) (P : Item → Prop)
    (hinv : ∀ start label finish, Inv start → Step start label finish → Inv finish)
    (hstep : ∀ start label finish, Inv start → Step start label finish →
      ∀ item ∈ shown label, P item)
    {start finish : State} {labels : List Label} (hrun : Run Step start labels finish)
    (hstart : Inv start) : ∀ item ∈ labels.flatMap shown, P item := by
  induction hrun with
  | nil => simp
  | cons hfirst _ ih =>
      intro item hitem
      rw [List.flatMap_cons, List.mem_append] at hitem
      obtain hitem | hitem := hitem
      · exact hstep _ _ _ hstart hfirst item hitem
      · exact ih (hinv _ _ _ hstart hfirst) item hitem

/-- If every concrete step is matched by a run of the abstract system that shows the same
observations, then so is every concrete run. -/
theorem simulation {AbsState Event Observation : Type*} {Abs : AbsState → Event → AbsState → Prop}
    (Rel : State → AbsState → Prop) {emit : Label → List Observation}
    (observe : Event → Observation)
    (hstep : ∀ start label finish abstract, Rel start abstract → Step start label finish →
      ∃ events next, Run Abs abstract events next ∧ events.map observe = emit label ∧
        Rel finish next)
    {start finish : State} {labels : List Label} (hrun : Run Step start labels finish)
    {abstract : AbsState} (hstart : Rel start abstract) :
    ∃ history next, Run Abs abstract history next ∧
      history.map observe = labels.flatMap emit ∧ Rel finish next := by
  induction hrun generalizing abstract with
  | nil => exact ⟨[], abstract, .nil _, rfl, hstart⟩
  | cons hfirst _ ih =>
      obtain ⟨events, middle, hmiddle, hevents, hrel⟩ := hstep _ _ _ _ hstart hfirst
      obtain ⟨history, next, hnext, hhistory, hfinish⟩ := ih hrel
      refine ⟨events ++ history, next, hmiddle.append hnext, ?_, hfinish⟩
      rw [List.map_append, hevents, hhistory, List.flatMap_cons]

/-- An execution of a deterministic system is a run of its transition relation. -/
theorem of_execAll {Action Shown : Type*} (exec : State → Action → Option (State × Shown))
    {start finish : State} (actions : List Action) {trace : List (Action × Shown)}
    (h : execAll exec start actions = some (finish, trace)) :
    Run (fun s label t => exec s label.1 = some (t, label.2)) start trace finish := by
  induction actions generalizing start trace with
  | nil =>
      cases h
      exact .nil _
  | cons action actions ih =>
      simp only [execAll, Option.bind_eq_some_iff, Option.map_eq_some_iff, Prod.mk.injEq,
        Prod.exists] at h
      obtain ⟨middle, shown, hfirst, last, rest, hrest, rfl, rfl⟩ := h
      exact .cons hfirst (ih hrest)

end Run

end FirmwareUpdater.Library
