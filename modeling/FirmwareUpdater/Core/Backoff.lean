import Mathlib.Data.List.GetD
import Mathlib.Data.List.Induction
import Mathlib.Data.UInt

/-!
# Escalating retries

`Backoff`: a table of steps, a saturating count of the failures so far and the
time of the last one. The delay after a failure is the step it has come to, up
to a jitter that the time of the failure decides.

`onSchedule` says what holds after any calls of `fail` and `reset`.
-/

namespace FirmwareUpdater

/-- The fields of a `Backoff`; `steps` is none for a null table. -/
structure Backoff where
  steps : Option (List UInt32) := none
  count : Nat := 0
  jitter : UInt8 := 20
  attempts : UInt8 := 0
  lastFailMs : UInt32 := 0
  currentDelay : UInt32 := 0
  armed : Bool := false

namespace Backoff

/-- `scramble`. -/
def scramble (x : UInt32) : UInt32 :=
  let x := x ^^^ (x >>> 16)
  let x := x * 0x7feb352d
  let x := x ^^^ (x >>> 15)
  let x := x * 0x846ca68b
  x ^^^ (x >>> 16)

/-- `applyJitter`. -/
def applyJitter (baseMs : UInt32) (percent : UInt8) (entropy : UInt32) : UInt32 :=
  if percent = 0 ∨ baseMs = 0 then baseMs
  else
    let span := (baseMs / 100) * percent.toUInt32
    if span = 0 then baseMs
    else
      let offset := scramble entropy % (span * 2 + 1)
      -- `int64_t` holds every value of this sum.
      let jittered : Int := baseMs.toNat + offset.toNat - span.toNat
      if jittered < 0 then 0 else UInt32.ofNat jittered.toNat

/-- `reset`. -/
def reset (b : Backoff) : Backoff :=
  { b with attempts := 0, lastFailMs := 0, currentDelay := 0, armed := false }

/-- `configure`: the table is borrowed, `count` is how many steps of it there are. -/
def configure (b : Backoff) (steps : Option (List UInt32)) (count : Nat)
    (jitterPercent : UInt8 := 20) : Backoff :=
  reset { b with steps := steps, count := count, jitter := jitterPercent }

/-- `fail`. -/
def fail (b : Backoff) (nowMs : UInt32) : Backoff :=
  match b.steps with
  | none => b
  | some steps =>
      if b.count = 0 then b
      else
        let idx := if b.attempts.toNat < b.count then b.attempts.toNat else b.count - 1
        { b with
          currentDelay := applyJitter (steps.getD idx 0) b.jitter
            (nowMs ^^^ (b.attempts.toUInt32 * 0x9E3779B9))
          lastFailMs := nowMs
          armed := true
          attempts := if b.attempts < 0xFF then b.attempts + 1 else b.attempts }

/-- `ready`. -/
def ready (b : Backoff) (nowMs : UInt32) : Bool :=
  !b.armed || b.currentDelay ≤ nowMs - b.lastFailMs

/-- `currentDelayMs`. -/
def currentDelayMs (b : Backoff) : UInt32 := if b.armed then b.currentDelay else 0

/-- `kMqtt`. -/
def kMqtt : List UInt32 := [3000, 8000, 15000]

/-- `kNetwork`. -/
def kNetwork : List UInt32 := [2000, 4000, 8000, 12000, 30000]

/-- `kConfirm`. -/
def kConfirm : List UInt32 := [2000, 5000, 15000, 30000, 60000]

/-- `kProvisionDenied`. -/
def kProvisionDenied : List UInt32 := [30000, 60000, 120000, 300000]

/-- The calls that move a configured `Backoff`. -/
inductive Call where
  | fail (nowMs : UInt32)
  | reset

/-- One call. -/
def exec (b : Backoff) : Call → Backoff
  | .fail nowMs => b.fail nowMs
  | .reset => b.reset

/-- What a caller can say of its own calls: the failures since the last reset and the time of the
last one. -/
structure History where
  failures : Nat
  lastMs : UInt32

/-- One more call. -/
def History.next (h : History) : Call → History
  | .fail nowMs => ⟨h.failures + 1, nowMs⟩
  | .reset => ⟨0, h.lastMs⟩

/-- The calls so far. -/
def history (calls : List Call) : History := calls.foldl History.next ⟨0, 0⟩

/-- How far the jitter may move a step: `(b / 100) * percent`. -/
def reach (percent : UInt8) (step : UInt32) : Nat := step.toNat / 100 * percent.toNat

/-- A step whose jitter is computed without overflow. -/
def Sound (percent : UInt8) (step : UInt32) : Prop :=
  reach percent step < 2 ^ 31 ∧ step.toNat + reach percent step < 2 ^ 32

instance (percent : UInt8) (step : UInt32) : Decidable (Sound percent step) :=
  inferInstanceAs (Decidable (_ ∧ _))

/-- A delay within the reach of the jitter around a step. -/
def Near (percent : UInt8) (step delay : UInt32) : Prop :=
  step.toNat ≤ delay.toNat + reach percent step ∧ delay.toNat ≤ step.toNat + reach percent step

/-- The jitter stays within its reach. -/
theorem applyJitter_near {percent : UInt8} {step : UInt32} (hsound : Sound percent step)
    (entropy : UInt32) : Near percent step (applyJitter step percent entropy) := by
  obtain ⟨hspan, hsum⟩ := hsound
  have hself : Near percent step step := ⟨Nat.le_add_right _ _, Nat.le_add_right _ _⟩
  rw [applyJitter]
  split
  · exact hself
  · have htoNat : ((step / 100) * percent.toUInt32).toNat = reach percent step := by
      rw [UInt32.toNat_mul, UInt32.toNat_div, UInt8.toNat_toUInt32]
      exact Nat.mod_eq_of_lt (by
        show reach percent step < _
        omega)
    show Near percent step (if _ then _ else if _ then _ else _)
    rw [htoNat]
    split
    · exact hself
    · have hmodulus : ((step / 100) * percent.toUInt32 * 2 + 1).toNat =
          2 * reach percent step + 1 := by
        rw [UInt32.toNat_add, UInt32.toNat_mul, htoNat]
        simp only [UInt32.reduceToNat]
        omega
      have hoffset : (scramble entropy % ((step / 100) * percent.toUInt32 * 2 + 1)).toNat ≤
          2 * reach percent step := by
        have hlt := Nat.mod_lt (scramble entropy).toNat
          (show 2 * reach percent step + 1 > 0 by omega)
        rw [UInt32.toNat_mod, hmodulus]
        omega
      split
      · refine ⟨?_, Nat.zero_le _⟩
        show step.toNat ≤ 0 + reach percent step
        omega
      · unfold Near
        rw [UInt32.toNat_ofNat_of_lt' (by
          show _ < 2 ^ 32
          omega)]
        omega

/-- What holds of a `Backoff` over `table` once its calls have been `h`. -/
structure Follows (table : List UInt32) (percent : UInt8) (h : History) (b : Backoff) : Prop where
  steps : b.steps = some table
  count : b.count = table.length
  jitter : b.jitter = percent
  attempts : b.attempts.toNat = min h.failures 255
  failed : 1 ≤ h.failures → b.armed = true ∧ b.lastFailMs = h.lastMs ∧
    ∃ step, table[min h.failures table.length - 1]? = some step ∧
      Near percent step b.currentDelay

/-- A `Backoff` starts out so when it is configured. -/
theorem follows_configure (b : Backoff) (table : List UInt32) (percent : UInt8) :
    Follows table percent ⟨0, 0⟩ (b.configure (some table) table.length percent) where
  steps := rfl
  count := rfl
  jitter := rfl
  attempts := rfl
  failed h := absurd h (by decide)

section Schedule

variable {table : List UInt32} {percent : UInt8}

/-- `reset` forgets the failures. -/
theorem Follows.reset {h : History} {b : Backoff} (hb : Follows table percent h b) :
    Follows table percent (h.next .reset) b.reset where
  steps := hb.steps
  count := hb.count
  jitter := hb.jitter
  attempts := rfl
  failed hpos := absurd hpos (by
    show ¬1 ≤ 0
    omega)

/-- `fail` moves on by one step, and stays at the last one. -/
theorem Follows.fail {h : History} {b : Backoff} (hb : Follows table percent h b)
    (hsome : 1 ≤ table.length) (hmax : table.length ≤ 256)
    (hsound : ∀ step ∈ table, Sound percent step) (nowMs : UInt32) :
    Follows table percent (h.next (.fail nowMs)) (b.fail nowMs) := by
  have hattempts := hb.attempts
  -- The saturated count still reaches the last step, since there are at most 256 of them.
  have hidx : (if b.attempts.toNat < b.count then b.attempts.toNat else b.count - 1) =
      min (h.failures + 1) table.length - 1 := by
    rw [hattempts, hb.count]
    split <;> omega
  have hlt : min (h.failures + 1) table.length - 1 < table.length := by omega
  have hne : ¬b.count = 0 := by
    rw [hb.count]
    omega
  have hfail : b.fail nowMs = { b with
      currentDelay := applyJitter (table.getD (min (h.failures + 1) table.length - 1) 0) percent
        (nowMs ^^^ (b.attempts.toUInt32 * 0x9E3779B9))
      lastFailMs := nowMs
      armed := true
      attempts := if b.attempts < 0xFF then b.attempts + 1 else b.attempts } := by
    rw [Backoff.fail, hb.steps]
    show (if _ then _ else _) = _
    rw [if_neg hne, hidx, hb.jitter]
  rw [hfail]
  refine ⟨hb.steps, hb.count, hb.jitter, ?_, fun _ => ⟨rfl, rfl, ?_⟩⟩
  · show (if b.attempts < 0xFF then b.attempts + 1 else b.attempts).toNat =
      min (h.failures + 1) 255
    split
    · have hlt255 : b.attempts.toNat < 255 := UInt8.lt_iff_toNat_lt.mp ‹_›
      rw [UInt8.toNat_add]
      simp only [UInt8.reduceToNat]
      omega
    · have hge : ¬b.attempts.toNat < 255 := fun hlt' => ‹¬_› (UInt8.lt_iff_toNat_lt.mpr hlt')
      omega
  · refine ⟨table[min (h.failures + 1) table.length - 1], List.getElem?_eq_getElem hlt, ?_⟩
    rw [List.getD_eq_getElem _ _ hlt]
    exact applyJitter_near (hsound _ (List.getElem_mem hlt)) _

/-- Every run of calls keeps to the schedule. -/
theorem follows_history (b : Backoff) (hsome : 1 ≤ table.length) (hmax : table.length ≤ 256)
    (hsound : ∀ step ∈ table, Sound percent step) (calls : List Call) :
    Follows table percent (history calls)
      (calls.foldl exec (b.configure (some table) table.length percent)) := by
  induction calls using List.reverseRecOn with
  | nil => exact follows_configure b table percent
  | append_singleton calls call ih =>
      rw [history, List.foldl_append, List.foldl_append]
      cases call with
      | fail nowMs => exact ih.fail hsome hmax hsound nowMs
      | reset => exact ih.reset

/-- Readings of a 32-bit clock are as far apart as the times, while less than a turn passes. -/
theorem elapsed_reading (since : Nat) {elapsed : Nat} (h : elapsed < 2 ^ 32) :
    (UInt32.ofNat (since + elapsed) - UInt32.ofNat since).toNat = elapsed := by
  have hadd : UInt32.ofNat (since + elapsed) - UInt32.ofNat since = UInt32.ofNat elapsed := by
    rw [UInt32.ofNat_add, UInt32.add_comm, UInt32.add_sub_cancel]
  rw [hadd, UInt32.toNat_ofNat_of_lt' h]

/-- After `k` failures since the last reset the delay is that of step `min(k, steps) - 1`, up to
the jitter, and `ready` says whether it has passed since the last of them. -/
theorem onSchedule (b : Backoff) (hsome : 1 ≤ table.length) (hmax : table.length ≤ 256)
    (hsound : ∀ step ∈ table, Sound percent step) (calls : List Call)
    (hfailed : 1 ≤ (history calls).failures) :
    let after := calls.foldl exec (b.configure (some table) table.length percent)
    (∃ step, table[min (history calls).failures table.length - 1]? = some step ∧
      Near percent step after.currentDelayMs) ∧
      ∀ failedAt elapsed, UInt32.ofNat failedAt = (history calls).lastMs → elapsed < 2 ^ 32 →
        (after.ready (UInt32.ofNat (failedAt + elapsed)) = true ↔
          after.currentDelayMs.toNat ≤ elapsed) := by
  intro after
  obtain ⟨harmed, hlast, hstep⟩ := (follows_history b hsome hmax hsound calls).failed hfailed
  have hdelay : after.currentDelayMs = after.currentDelay := if_pos harmed
  rw [hdelay]
  refine ⟨hstep, ?_⟩
  intro failedAt elapsed hat helapsed
  have hready : after.ready (UInt32.ofNat (failedAt + elapsed)) =
      decide (after.currentDelay ≤ UInt32.ofNat (failedAt + elapsed) - UInt32.ofNat failedAt) := by
    show (!after.armed || _) = _
    rw [show after.armed = true from harmed, show after.lastFailMs = _ from hlast, hat]
    rfl
  rw [hready, decide_eq_true_eq, UInt32.le_iff_toNat_le, elapsed_reading failedAt helapsed]

/-- The steps of the connection to the broker, after a reset and two failures. -/
theorem onSchedule_kMqtt :
    let calls := [Call.fail 5, .reset, .fail 7, .fail 4294967000]
    let after := calls.foldl exec (Backoff.configure {} (some kMqtt) kMqtt.length)
    (∃ step, kMqtt[min (history calls).failures kMqtt.length - 1]? = some step ∧
      Near 20 step after.currentDelayMs) ∧
      ∀ failedAt elapsed, UInt32.ofNat failedAt = (history calls).lastMs → elapsed < 2 ^ 32 →
        (after.ready (UInt32.ofNat (failedAt + elapsed)) = true ↔
          after.currentDelayMs.toNat ≤ elapsed) := by
  refine onSchedule {} (by decide) (by decide) ?_ _ (by decide)
  simp only [kMqtt, List.forall_mem_cons]
  exact ⟨by decide, by decide, by decide, List.forall_mem_nil _⟩

end Schedule

end Backoff

end FirmwareUpdater
