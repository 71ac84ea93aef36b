import FirmwareUpdater.Updater.PassMoves

/-!
# Between the events

What an application may rely on between two calls of `loop`: the answer of `canSleep`, and that a
device with nothing to do leaves its flash alone.
-/

namespace FirmwareUpdater.Impl

open Library

variable (v : Vendor)

/-! ## Sleeping -/

/-- `applying` is a state that nothing enters. -/
theorem never_applying : Kept v (fun _ => True) fun d => d.state ≠ .applying where
  facing d flash h := h
  aside d d' haside h := by
    rw [haside.state]
    exact h
  boot d cfg o d' _ hmove _ := by
    cases hmove with
    | refused => exact fun hstate => by cases hstate
    | unopened => exact fun hstate => by cases hstate
    | booted _ _ hrestored => cases hrestored <;> exact fun hstate => by cases hstate
  confirm d i d' _ _ _ hmove h := by
    cases hmove with
    | waits => exact h
    | reverted => exact h
    | refused => exact h
    | _ => exact fun hstate => by cases hstate
  provision d i d' _ _ _ _ hmove h := by
    cases hmove with
    | waits => exact h
    | _ => exact fun hstate => by cases hstate
  ingest d i m _ _ _ _ h := by
    rcases ingest_cases v d m with ⟨_, _, _, _, _, heq, -⟩ | ⟨_, -, -, -, -, heq⟩ <;> rw [heq]
    · exact h
    · exact fun hstate => by cases hstate
  ota d i d' _ _ _ hmove h := by
    cases hmove with
    | idle => exact h
    | begun _ hbegun =>
        obtain ⟨_, _, _, _, _, _, _, rfl, -⟩ := hbegun
        exact fun hstate => by cases hstate
    | fed => exact h
    | givenUp _ hgiven =>
        obtain ⟨_, _, _, _, _, _, _, _, _, _, rfl, -⟩ := hgiven
        exact fun hstate => by cases hstate
    | applied _ happlied =>
        obtain ⟨_, _, rfl, -⟩ := happlied
        exact h
    | _ => exact fun hstate => by cases hstate
  seed d nvs _ h := h
  reset d flash _ h := h

/-- A step of the update leaves no order unevaluated. -/
theorem ota_evaluates {d d' : Impl} {now : UInt32} {i : OtaInput} (hmove : OtaMove v d now i d') :
    d'.state ≠ .evaluatingOrder := by
  cases hmove with
  | idle hstate => exact hstate
  | begun _ hbegun =>
      obtain ⟨_, _, _, _, _, _, _, rfl, -⟩ := hbegun
      exact fun hstate => by cases hstate
  | fed hstate => exact fun hother => by cases hstate.symm.trans hother
  | givenUp _ hgiven =>
      obtain ⟨_, _, _, _, _, _, _, _, _, _, rfl, -⟩ := hgiven
      exact fun hstate => by cases hstate
  | applied hstate happlied =>
      obtain ⟨_, _, rfl, -⟩ := happlied
      exact fun hother => by cases hstate.symm.trans hother
  | _ => exact fun hstate => by cases hstate

/-- Neither does a pass. -/
theorem pass_evaluates {d : Impl} (h : d.state ≠ .evaluatingOrder) (i : Pass) :
    (exec v d (.pass i)).state ≠ .evaluatingOrder := by
  have hgoes : ((d.facing i.flash).prepare i).state ≠ .evaluatingOrder := by
    rw [(prepare_aside (d.facing i.flash) i).state]
    exact h
  show (if d.restarting then d.facing [] else loop v (d.facing i.flash) i).state ≠ _
  split
  · exact h
  unfold loop
  split
  · exact h
  dsimp only
  split
  · have hmove := confirmStep_move ((d.facing i.flash).prepare i) i.now i.confirm
    generalize ((d.facing i.flash).prepare i).confirmStep i.now i.confirm = d' at hmove ⊢
    cases hmove with
    | waits => exact hgoes
    | reverted => exact hgoes
    | refused => exact hgoes
    | _ => exact fun hstate => by cases hstate
  split
  · have hmove := provisionStep_move v ((d.facing i.flash).prepare i) i.now i.provision
    generalize provisionStep v ((d.facing i.flash).prepare i) i.now i.provision = d' at hmove ⊢
    cases hmove with
    | waits => exact hgoes
    | _ => exact fun hstate => by cases hstate
  · unfold operate
    dsimp only
    split
    · exact ota_evaluates v (otaStep_move v _ i.now i.ota)
    · rw [(pingStep_aside v _ i.now i.ping).state]
      exact ota_evaluates v (otaStep_move v _ i.now i.ota)

/-- Neither does any other event. -/
theorem exec_evaluates {d : Impl} (h : d.state ≠ .evaluatingOrder) (e : Event) :
    (exec v d e).state ≠ .evaluatingOrder := by
  have hcalled : called e → (exec v d e).state ≠ .evaluatingOrder := by
    intro he
    obtain ⟨_, _, _, _, heq⟩ := exec_call v d he
    rw [heq]
    exact h
  cases e with
  | boot cfg o =>
      have hrest := (boot_rest (begin_move d.nvs cfg o)).2.1
      intro hstate
      rw [updating, show (begin d.nvs cfg o).2.state = .evaluatingOrder from hstate] at hrest
      cases hrest
  | pass i => exact pass_evaluates v h i
  | _ => exact hcalled trivial

/-- Over every run, the device says between two events that it can sleep exactly where it carries
out no order, waits for no confirmation and is not being provisioned. -/
theorem sleeps_at_rest {nvs : Nvs} {events : List Event} {d : Impl}
    (hrun : Run (Step v) { nvs } events d) :
    d.canSleep = true ↔
      d.updating = false ∧ d.state ≠ .confirming ∧ d.state ≠ .provisioning := by
  have happlying := (never_applying v).run hrun (fun _ _ => trivial) fun hstate => by cases hstate
  have hevaluating : d.state ≠ .evaluatingOrder := by
    refine hrun.invariant_on (fun _ => True) (fun d => d.state ≠ .evaluatingOrder) ?_
      (fun _ _ => trivial) fun hstate => by cases hstate
    intro start e finish _ hstart hstep
    rw [hstep]
    exact exec_evaluates v hstart e
  unfold canSleep sleepBlock updating
  cases hstate : d.state <;> simp_all

/-- The sample device does not sleep through its download. -/
theorem sleeps_at_rest_sample : ¬(after sampleVendor {} sampleStart).canSleep = true := by
  rw [sleeps_at_rest sampleVendor (run_after sampleVendor {} sampleStart)]
  have hupdating : (after sampleVendor {} sampleStart).updating = true := by decide +kernel
  simp [hupdating]

/-! ## The flash at rest -/

/-- Nothing for the device itself: a pass with messages of the application only, or a call that has
no part in the store. -/
def uneventful (topics : TopicResolver) : Event → Prop
  | .pass i => ∀ m ∈ i.inbox, m.topic ≠ topics.update.text ∧ m.topic ≠ topics.config.text
  | .subscribe _ _ _ _ | .unsubscribe _ | .publish _ _ _ _ _ _ => True
  | _ => False

/-- A provisioned device in operation, over a given store. -/
structure Resting (topics : TopicResolver) (nvs : Nvs) (d : Impl) : Prop where
  state : d.state = .operation
  topics_eq : d.topics = topics
  nvs_eq : d.nvs = nvs
  running : d.restarting = false

theorem Resting.aside {topics : TopicResolver} {nvs : Nvs} {d d' : Impl}
    (h : Resting topics nvs d) (haside : Aside d d') : Resting topics nvs d' := by
  obtain ⟨_, _, _, _, _, _, _, _, _, _, _, rfl, -⟩ := haside
  exact ⟨h.state, h.topics_eq, h.nvs_eq, h.running⟩

/-- No step of an uneventful pass asks the store to write. -/
theorem resting_kept {topics : TopicResolver} {nvs : Nvs}
    (hprovisioned : DeviceStore.isProvisioned nvs = true) :
    Passwise v (fun i => uneventful topics (.pass i)) (Resting topics nvs) where
  prepare d i _ _ h := h.aside (prepare_aside d i)
  confirm d i _ _ hstate h := by cases h.state.symm.trans hstate
  provision d i _ _ _ hdown h := by
    rw [h.nvs_eq, hprovisioned] at hdown
    cases hdown
  mqtt d i _ _ _ h := h.aside (mqttStep_aside d i.now i.mqtt)
  ingest d i m hok _ _ hm h := by
    obtain ⟨hupdate, hconfig⟩ := hok m hm
    rw [← h.topics_eq] at hupdate hconfig
    unfold ingest
    rw [if_neg hupdate, if_neg hconfig]
    exact ⟨h.state, h.topics_eq, h.nvs_eq, h.running⟩
  ota d i _ _ _ h := by
    rw [ota_idle (otaStep_move v d i.now i.ota) (by rw [updating, h.state])]
    exact h
  ping d i _ h := h.aside (pingStep_aside v d i.now i.ping)

/-- What an uneventful event makes of the store: it takes no answer of the flash. -/
theorem resting_exec {topics : TopicResolver} {nvs : Nvs} {d : Impl} {e : Event}
    (hprovisioned : DeviceStore.isProvisioned nvs = true) (he : uneventful topics e)
    (h : Resting topics nvs d) :
    ∃ flash, Resting topics { nvs with answers := flash } (exec v d e) ∧
      ∀ i, e = .pass i → flash = i.flash := by
  have hfacing : ∀ flash, Resting topics { nvs with answers := flash } (d.facing flash) :=
    fun flash => ⟨h.state, h.topics_eq, by rw [← h.nvs_eq]; rfl, h.running⟩
  rw [exec_running v h.running]
  cases e with
  | boot => exact absurd he id
  | pass i =>
      refine ⟨i.flash, ?_, fun j hj => by cases hj; rfl⟩
      have hstored : DeviceStore.isProvisioned { nvs with answers := i.flash } = true :=
        hprovisioned
      exact (resting_kept v hstored).loop he (facing_fresh h.running i.flash) (hfacing i.flash)
  | subscribe topic qos connected accepts =>
      refine ⟨[], ?_, fun j hj => by cases hj⟩
      exact (hfacing []).aside (subscribe_aside _ topic qos connected accepts)
  | unsubscribe topic =>
      refine ⟨[], ?_, fun j hj => by cases hj⟩
      exact (hfacing []).aside (unsubscribe_aside _ topic)
  | publish topic payload qos retain connected accepts =>
      refine ⟨[], ?_, fun j hj => by cases hj⟩
      exact (hfacing []).aside (publish_aside _ topic payload qos retain connected accepts)
  | seedBootstrapUrl => exact absurd he id
  | factoryReset => exact absurd he id

/-- So do the events before a pass. -/
theorem resting_run {topics : TopicResolver} {nvs : Nvs} {d d' : Impl} {events : List Event}
    {i : Pass} (hprovisioned : DeviceStore.isProvisioned nvs = true) (h : Resting topics nvs d)
    (hrun : Run (Step v) d (events ++ [.pass i]) d')
    (hevents : ∀ e ∈ events ++ [.pass i], uneventful topics e) :
    Resting topics { nvs with answers := i.flash } d' := by
  induction events generalizing nvs d with
  | nil =>
      cases hrun with
      | cons hstep hend =>
          cases hend with
          | nil =>
              obtain ⟨flash, hnext, hflash⟩ :=
                resting_exec v hprovisioned (hevents (.pass i) (by simp)) h
              rw [hstep]
              rwa [hflash i rfl] at hnext
  | cons e events ih =>
      rw [List.cons_append, List.forall_mem_cons] at hevents
      cases hrun with
      | cons hstep hend =>
          obtain ⟨flash, hnext, -⟩ := resting_exec v hprovisioned hevents.1 h
          have hstored : DeviceStore.isProvisioned { nvs with answers := flash } = true :=
            hprovisioned
          rw [hstep] at hend
          have hrest := ih hstored hnext hend hevents.2
          exact hrest

/-- As long as nothing comes for the device itself, a provisioned device in operation makes no
write: however long it runs and whatever its links and sessions do, what the flash would have
answered to the last pass is all still there, and so is what it holds. -/
theorem rest_spares_flash {d d' : Impl} {events : List Event} {i : Pass}
    (hstate : d.state = .operation) (hrunning : d.restarting = false)
    (hprovisioned : DeviceStore.isProvisioned d.nvs = true)
    (hrun : Run (Step v) d (events ++ [.pass i]) d')
    (hevents : ∀ e ∈ events ++ [.pass i], uneventful d.topics e) :
    d'.nvs = { d.nvs with answers := i.flash } ∧ d'.state = .operation := by
  have hend := resting_run v hprovisioned ⟨hstate, rfl, rfl, hrunning⟩ hrun hevents
  exact ⟨hend.nvs_eq, hend.state⟩

/-- A pass of the sample device with a message for the application, and a ping. -/
def sampleQuiet : Pass :=
  { samplePass [sampleMessage (literal "lamp") (literal "on") (by decide +kernel)] [] with
    flash := [false], ping := { connected := true, link := sampleLinks } }

/-- The flash of the sample device is not asked. -/
theorem rest_spares_flash_sample :
    (after sampleVendor sampleReady
      ([.publish (literal "lamp") [1] 1 false true true] ++ [.pass sampleQuiet])).nvs.answers =
      [false] := by
  have hupdate : sampleReady.topics.update.text = literal "/update/d" := by decide +kernel
  have hconfig : sampleReady.topics.config.text = literal "/config/d" := by decide +kernel
  have huneventful : uneventful sampleReady.topics (.pass sampleQuiet) := by
    intro m hm
    obtain rfl := List.mem_singleton.mp hm
    rw [hupdate, hconfig]
    decide +kernel
  have hevents : ∀ e ∈ [.publish (literal "lamp") [1] 1 false true true] ++ [.pass sampleQuiet],
      uneventful sampleReady.topics e := by
    intro e he
    rcases List.mem_pair.mp he with rfl | rfl
    · trivial
    · exact huneventful
  have hend := rest_spares_flash sampleVendor (by decide +kernel : sampleReady.state = .operation)
    (by decide +kernel) (by decide +kernel) (run_after sampleVendor sampleReady
      ([.publish (literal "lamp") [1] 1 false true true] ++ [.pass sampleQuiet])) hevents
  rw [hend.1]
  rfl

end FirmwareUpdater.Impl
