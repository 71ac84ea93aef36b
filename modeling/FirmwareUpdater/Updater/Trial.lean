import FirmwareUpdater.Library.Spacing
import FirmwareUpdater.Updater.PassMoves

/-!
# The image on trial

A power-on takes its image for one on trial only at its start: where the store has a pending
record and the bootloader says so. `marks_need_trial` says that nothing else ever marks an
image, and `confirmations_spaced` how often the server is asked about one.
-/

namespace FirmwareUpdater.Impl

open Library

variable (v : Vendor)

/-! ## Only a power-on that began with one -/

/-- No restart. -/
def poweredOn : Event → Prop
  | .boot _ _ => False
  | _ => True

/-- No image is on trial, and none was marked. -/
structure Untried (d : Impl) : Prop where
  state : d.state ≠ .confirming
  unmarked : ∀ effect ∈ d.emitted, effect.kind ≠ .mark

/-- Steps that mark nothing. -/
theorem Untried.keep {d d' : Impl} (h : Untried d) (hstate : d'.state ≠ .confirming)
    {kinds : List Effect.Kind} {es : List Effect} (hemitted : d'.emitted = d.emitted ++ es)
    (hes : Only kinds es) (hkinds : Effect.Kind.mark ∉ kinds) : Untried d' where
  state := hstate
  unmarked effect hmem := by
    rw [hemitted] at hmem
    rcases List.mem_append.mp hmem with hmem | hmem
    · exact h.unmarked effect hmem
    · exact fun hkind => hkinds (hkind ▸ hes effect hmem)

/-- No step of a power-on puts an image on trial. -/
theorem untried_kept : Kept v poweredOn Untried where
  facing d flash h := ⟨h.state, fun effect hmem => absurd hmem List.not_mem_nil⟩
  aside d d' haside h := by
    have hstate := haside.state
    obtain ⟨_, _, _, _, _, _, _, _, _, _, es, rfl, hes⟩ := haside
    exact h.keep h.state rfl hes (by decide)
  boot d cfg o d' hok := absurd hok id
  confirm d i d' _ _ hstate _ h := absurd hstate h.state
  provision d i d' _ _ _ _ hmove h := by
    obtain ⟨es, heq, hes⟩ := provision_emits hmove
    refine h.keep ?_ heq hes (by decide)
    cases hmove with
    | waits => exact h.state
    | denied => exact fun hstate => by cases hstate
    | granted => exact fun hstate => by cases hstate
  ingest d i m _ _ hstate _ h := by
    have hnext := ingest_state v hstate m
    rcases ingest_cases v d m with
      ⟨_, _, _, _, es, heq, -, hes⟩ | ⟨_, -, -, -, -, heq⟩ <;> rw [heq] at hnext ⊢
    · exact h.keep hnext rfl hes (by decide)
    · exact h.keep hnext (List.append_nil _).symm (.nil []) (by decide)
  ota d i d' _ _ _ hmove h := by
    obtain ⟨es, heq, hes⟩ := ota_emits hmove
    exact h.keep (ota_state hmove h.state) heq hes (by decide)
  seed d nvs _ h := h.keep h.state (List.append_nil _).symm (.nil []) (by decide)
  reset d flash _ h := h.keep h.state (List.append_nil _).symm (.nil []) (by decide)

/-- An image is marked valid, or given back to the bootloader, only in a power-on that started with
a pending record in the store and with an image that the bootloader has on trial, whatever happens
behind that start. -/
theorem marks_need_trial {nvs : Nvs} {cfg : Config} {o : BootAnswers} {events : List Event}
    {d : Impl} (hrun : Run (Step v) (begin nvs cfg o).2 events d)
    (hevents : ∀ e ∈ events, poweredOn e) {effect : Effect} (hmark : effect ∈ d.emitted)
    (hkind : effect.kind = .mark) :
    cfg.validate = .ok ∧ (mounted nvs o).1 = true ∧
      DeviceStore.hasPending (mounted nvs o).2 = true ∧ o.image.pendingVerify = true := by
  by_contra hnone
  have hmove := begin_move nvs cfg o
  have hstart : Untried (begin nvs cfg o).2 := by
    refine ⟨?_, fun effect hmem => ?_⟩
    · generalize (begin nvs cfg o).2 = d' at hmove
      cases hmove with
      | refused => exact fun hstate => by cases hstate
      | unopened => exact fun hstate => by cases hstate
      | booted hcfg hopens hrestored =>
          cases hrestored with
          | confirming hpending hverify => exact absurd ⟨hcfg, hopens, hpending, hverify⟩ hnone
          | dropped => exact fun hstate => by cases hstate
          | fresh => exact fun hstate => by cases hstate
    · rw [(boot_rest hmove).2.2] at hmem
      exact absurd hmem List.not_mem_nil
  exact ((untried_kept v).run hrun hevents hstart).unmarked effect hmark hkind

/-- The store of the sample device behind its update. -/
def sampleUpdated : Nvs := (after sampleVendor {} (sampleStart ++ sampleUpdate)).nvs

/-- How it starts then. -/
def sampleAnswered : BootAnswers :=
  { image := { isFactory := some false, state := some .pendingVerify } }

/-- The sample device has its image marked valid. -/
theorem marks_need_trial_sample :
    DeviceStore.hasPending (mounted sampleUpdated sampleAnswered).2 = true := by
  have hmark : Effect.markedValid ∈ (after sampleVendor
      (begin sampleUpdated sampleConfig sampleAnswered).2 [.pass sampleConfirmation]).emitted := by
    decide +kernel
  exact (marks_need_trial sampleVendor (run_after sampleVendor _ _) (by simp [poweredOn]) hmark
    rfl).2.2.1

/-! ## How often the server is asked -/

/-- A pass asks the server about the image on trial. -/
def asks (d : Impl) : Event → Bool
  | .pass i =>
      d.state = .confirming &&
        (exec v d (.pass i)).emitted.any fun effect => effect.kind = .request
  | _ => false

/-- The least distance behind question number `n`: the step that the retries have come to, less its
jitter. -/
def confirmGap (n : Nat) : Nat :=
  let step := Backoff.kConfirm.getD (min n Backoff.kConfirm.length - 1) 0
  step.toNat - Backoff.reach 20 step

/-- An event of a power-on at a time that its clock shows. -/
def OnClock : Nat × Event → Prop
  | (time, .pass i) => i.now = UInt32.ofNat time
  | (_, .boot _ _) => False
  | _ => True

/-- The image on trial was asked about `n` times, the last time at `stamp`, or is not any more. -/
def AskedTimes (n stamp : Nat) (d : Impl) : Prop :=
  d.state = .confirming →
    Backoff.Follows Backoff.kConfirm 20 ⟨n, UInt32.ofNat stamp⟩ d.confirmBackoff

/-- A retry that is due lies behind the gap. -/
theorem gap_of_ready {n stamp time : Nat} {b : Backoff} (hn : 1 ≤ n)
    (hfollows : Backoff.Follows Backoff.kConfirm 20 ⟨n, UInt32.ofNat stamp⟩ b)
    (hready : b.ready (UInt32.ofNat time) = true) (hle : stamp ≤ time) :
    stamp + confirmGap n ≤ time := by
  obtain ⟨harmed, hlast, step, hstep, hnear, -⟩ := hfollows.failed hn
  have hdelay : b.currentDelay ≤ UInt32.ofNat time - UInt32.ofNat stamp := by
    simpa [Backoff.ready, harmed, hlast] using hready
  have hgap : confirmGap n = step.toNat - Backoff.reach 20 step := by
    unfold confirmGap
    rw [List.getD_eq_getElem?_getD, hstep, Option.getD_some]
  rw [UInt32.le_iff_toNat_le] at hdelay
  have hreading := Spacing.reading_le hle
  omega

/-- A pass over an image on trial does nothing, or is a move of the confirmation. -/
theorem trial_pass {d : Impl} (hstate : d.state = .confirming) (i : Pass) :
    (∃ flash, exec v d (.pass i) = d.facing flash) ∨ ∃ d₀, Aside (d.facing i.flash) d₀ ∧
      ConfirmMove d₀ i.now i.confirm (exec v d (.pass i)) := by
  rcases exec_pass_cases v d i with hnothing | ⟨-, heq⟩ | ⟨hother, -⟩ | hoperating
  · exact .inl hnothing
  · rw [heq]
    exact .inr ⟨_, prepare_aside (d.facing i.flash) i, confirmStep_move _ i.now i.confirm⟩
  · exact absurd hstate hother
  · exact absurd hstate hoperating.state

/-- A pass that finds no image on trial puts none there. -/
theorem untried_exec {d : Impl} {e : Event} (he : poweredOn e) (hstate : d.state ≠ .confirming) :
    (exec v d e).state ≠ .confirming := by
  have hstart : Untried { d with emitted := [] } :=
    ⟨hstate, fun effect hmem => absurd hmem List.not_mem_nil⟩
  have hend := (untried_kept v).stepwise.exec he hstart
  rw [exec_forgets] at hend
  exact hend.state

/-- The steps of the confirmation are few, and small against the clock. -/
theorem kConfirm_sound : ∀ step ∈ Backoff.kConfirm, Backoff.Sound 20 step := by
  simp only [Backoff.kConfirm, List.forall_mem_cons]
  exact ⟨by decide, by decide, by decide, by decide, by decide, List.forall_mem_nil _⟩

/-- A question is asked by a pass that is due, and by no other. -/
theorem asked_pass {n stamp time : Nat} {d : Impl} {i : Pass} (h : AskedTimes n stamp d)
    (hstate : d.state = .confirming) (hclock : i.now = UInt32.ofNat time) :
    if asks v d (.pass i) then (1 ≤ n → stamp ≤ time → stamp + confirmGap n ≤ time) ∧
      AskedTimes (n + 1) time (exec v d (.pass i))
    else AskedTimes n stamp (exec v d (.pass i)) := by
  have hasks : asks v d (.pass i) = (exec v d (.pass i)).emitted.any
      fun effect => effect.kind = .request := by
    simp [asks, hstate]
  have hfollows := h hstate
  have hsilent : ∀ {effects : List Effect}, (∀ effect ∈ effects, effect.kind ≠ .request) →
      ¬(effects.any fun effect => effect.kind = .request) = true := by
    intro effects hquiet
    simpa using hquiet
  rw [hasks]
  rcases trial_pass v hstate i with ⟨flash, heq⟩ | ⟨d₀, haside, hmove⟩
  · rw [heq]
    exact h
  obtain ⟨_, _, _, _, _, _, _, _, _, _, es, rfl, hes⟩ := haside
  have hquiet : ∀ effect ∈ es, effect.kind ≠ .request :=
    fun effect hmem hkind => absurd (hkind ▸ hes effect hmem) (by decide)
  generalize exec v d (.pass i) = d' at hmove ⊢
  cases hmove with
  | waits =>
      split
      · exact absurd ‹_› (hsilent hquiet)
      · exact fun _ => hfollows
  | forgotten =>
      split
      · exact absurd ‹_› (hsilent hquiet)
      · exact fun htrial => by cases htrial
  | reverted =>
      have hmarked : ∀ effect ∈ es ++ [.markedInvalid], effect.kind ≠ .request := by
        intro effect hmem
        rcases List.mem_append.mp hmem with hmem | hmem
        · exact hquiet effect hmem
        · rw [List.mem_singleton.mp hmem]
          simp [Effect.kind]
      split
      · exact absurd ‹_› (hsilent hmarked)
      · exact fun _ => hfollows
  | refused hasked =>
      rw [if_pos (by simp [question, Effect.kind])]
      refine ⟨fun hn hle => ?_, fun _ => ?_⟩
      · have hdue := hasked.due
        rw [hclock] at hdue
        exact gap_of_ready hn hfollows hdue hle
      · rw [hclock]
        exact hfollows.fail (by decide) (by decide) kConfirm_sound (UInt32.ofNat time)
  | committed hasked =>
      rw [if_pos (by simp [question, Effect.kind])]
      refine ⟨fun hn hle => ?_, fun htrial => by cases htrial⟩
      have hdue := hasked.due
      rw [hclock] at hdue
      exact gap_of_ready hn hfollows hdue hle

/-- A question at its time: the schedule was kept, and goes on. -/
theorem asked_step {n stamp time : Nat} {d : Impl} {e : Event} (h : AskedTimes n stamp d)
    (hclock : OnClock (time, e)) :
    if asks v d e then (1 ≤ n → stamp ≤ time → stamp + confirmGap n ≤ time) ∧
      AskedTimes (n + 1) time (exec v d e)
    else AskedTimes n stamp (exec v d e) := by
  by_cases hstate : d.state = .confirming
  swap
  · have hquiet : ¬asks v d e = true := by
      cases e <;> simp [asks, hstate]
    have hpowered : poweredOn e := by
      cases e with
      | boot => exact absurd hclock id
      | _ => trivial
    rw [if_neg hquiet]
    exact fun htrial => absurd htrial (untried_exec v hpowered hstate)
  have hcalled : called e → ¬asks v d e = true →
      if asks v d e then (1 ≤ n → stamp ≤ time → stamp + confirmGap n ≤ time) ∧
        AskedTimes (n + 1) time (exec v d e)
      else AskedTimes n stamp (exec v d e) := by
    intro he hquiet
    obtain ⟨_, _, _, _, heq⟩ := exec_call v d he
    rw [if_neg hquiet, heq]
    exact h
  cases e with
  | boot => exact absurd hclock id
  | pass i => exact asked_pass v h hstate hclock
  | _ => exact hcalled trivial (by simp [asks])

/-- The server was asked before. -/
structure Questioned (n stamp : Nat) (d : Impl) : Prop where
  asked : 1 ≤ n
  times : AskedTimes n stamp d

/-- From a question on. -/
theorem questioned_step {n stamp time : Nat} {d : Impl} {e : Event} (h : Questioned n stamp d)
    (hle : stamp ≤ time) (hclock : OnClock (time, e)) :
    if asks v d e then stamp + confirmGap n ≤ time ∧ Questioned (n + 1) time (exec v d e)
    else ∃ stamp', stamp ≤ stamp' ∧ stamp' ≤ time ∧ Questioned n stamp' (exec v d e) := by
  have hstep := asked_step v h.times hclock
  split
  · rename_i hasks
    rw [if_pos hasks] at hstep
    exact ⟨hstep.1 h.asked hle, Nat.le_add_left _ _, hstep.2⟩
  · rename_i hquiet
    rw [if_neg hquiet] at hstep
    exact ⟨stamp, Nat.le_refl _, hle, h.asked, hstep⟩

/-- Up to the first one. -/
theorem unquestioned_step {time : Nat} {d : Impl} {e : Event} (h : AskedTimes 0 0 d)
    (hclock : OnClock (time, e)) :
    if asks v d e then Questioned 1 time (exec v d e)
    else AskedTimes 0 0 (exec v d e) ∨ Questioned 0 time (exec v d e) := by
  have hstep := asked_step v h hclock
  split
  · rename_i hasks
    rw [if_pos hasks] at hstep
    exact ⟨Nat.le_refl _, hstep.2⟩
  · rename_i hquiet
    rw [if_neg hquiet] at hstep
    exact .inl hstep

/-- `begin` configures the retries. -/
theorem begin_asked (nvs : Nvs) (cfg : Config) (o : BootAnswers) :
    AskedTimes 0 0 (begin nvs cfg o).2 := by
  unfold begin
  dsimp only
  split
  · exact fun htrial => by cases htrial
  split
  · exact fun htrial => by cases htrial
  · exact fun _ => Backoff.follows_configure _ Backoff.kConfirm 20

/-- A power-on asks the server about its image at distances that grow with the questions: 1.6 s,
4 s, 12 s, 24 s and from then on 48 s at least, in real time and however often the clock wraps. -/
theorem confirmations_spaced {nvs : Nvs} {cfg : Config} {o : BootAnswers}
    {schedule : List (Nat × Event)} {start : Nat} (hordered : Spacing.Ordered start schedule)
    (hclocked : ∀ x ∈ schedule, OnClock x) :
    Spacing.Spaced (fun n => confirmGap (n + 1))
      (Spacing.actions (exec v) (asks v) (begin nvs cfg o).2 schedule) :=
  Spacing.spaced_start (fun _ _ _ _ _ h hle hx => questioned_step v h hle hx)
    (fun _ _ _ h hx => unquestioned_step v h hx) hclocked hordered (begin_asked nvs cfg o)

example : (List.range 6).map (fun n => confirmGap (n + 1)) =
    [1600, 4000, 12000, 24000, 48000, 48000] := by decide

/-- Three passes, of which the second one is too early. -/
def sampleQuestions : List (Nat × Event) :=
  [(1000, .pass (sampleQuestion 1000)), (2000, .pass (sampleQuestion 2000)),
    (4000, .pass (sampleQuestion 4000))]

/-- The sample device asks twice. -/
theorem confirmations_spaced_sample :
    Spacing.actions (exec sampleVendor) (asks sampleVendor)
        (begin sampleUpdated sampleConfig sampleAnswered).2 sampleQuestions = [1000, 4000] ∧
      Spacing.Spaced (fun n => confirmGap (n + 1))
        (Spacing.actions (exec sampleVendor) (asks sampleVendor)
          (begin sampleUpdated sampleConfig sampleAnswered).2 sampleQuestions) := by
  have hordered : Spacing.Ordered 0 sampleQuestions := by
    simp [sampleQuestions, Spacing.Ordered]
  have hclocked : ∀ x ∈ sampleQuestions, OnClock x := by
    simp [sampleQuestions, OnClock, sampleQuestion]
  refine ⟨by decide +kernel, ?_⟩
  exact @confirmations_spaced sampleVendor sampleUpdated sampleConfig sampleAnswered
    sampleQuestions 0 hordered hclocked

end FirmwareUpdater.Impl
