import FirmwareUpdater.Updater.PassMoves

/-!
# One MQTT session

The device has an MQTT client for each link and changes over while it runs. `one_session` says
that a session is open exactly where `mqttStarted` says so, on the client in use, and that
none is while a download holds MQTT back. What gives it back is the end of that download
only: `muted_for_good` is about a pause that outlives it.
-/

namespace FirmwareUpdater.Impl

open Library

variable (v : Vendor)

/-- A session is open where the flag says so, on the client in use; none is during a pause. -/
structure Owned (d : Impl) : Prop where
  sessions : ∀ transport, d.sessions transport = true ↔
    d.mqttStarted = true ∧ transport = d.transport
  paused : d.mqttPausedForOta = true → d.mqttStarted = false

/-- Neither the session nor its flags change. -/
structure SameSession (d d' : Impl) : Prop where
  sessions : d'.sessions = d.sessions
  mqttStarted : d'.mqttStarted = d.mqttStarted
  transport : d'.transport = d.transport
  paused : d'.mqttPausedForOta = d.mqttPausedForOta

theorem Owned.keep {d d' : Impl} (h : Owned d) (hsame : SameSession d d') : Owned d' where
  sessions transport := by
    rw [hsame.sessions, hsame.mqttStarted, hsame.transport]
    exact h.sessions transport
  paused := by
    rw [hsame.paused, hsame.mqttStarted]
    exact h.paused

/-- Ending the session of the client in use ends all of them. -/
theorem Owned.ended {d : Impl} (h : Owned d) (transport : Transport) :
    Function.update d.sessions d.transport false transport = false := by
  by_cases hsame : transport = d.transport
  · rw [hsame, Function.update_self]
  · rw [Function.update_of_ne hsame]
    by_contra hopen
    exact hsame ((h.sessions transport).mp (by simpa using hopen)).2

/-- What is done for a download to the session. -/
theorem Hung.owned {d d' : Impl} (h : Owned d) {paused : Bool}
    (hhung : Hung d d'.sessions d'.mqttStarted d'.wasConnected paused)
    (htransport : d'.transport = d.transport)
    (hpaused : d'.mqttPausedForOta = true → paused = true) : Owned d' := by
  rcases hhung with ⟨hsessions, hstarted, -, hsame⟩ | ⟨hsessions, hstarted, -⟩
  · refine ⟨fun transport => ?_, fun hd => ?_⟩
    · rw [hsessions, hstarted, htransport]
      exact h.sessions transport
    · rw [hstarted]
      exact h.paused (hsame ▸ hpaused hd)
  · refine ⟨fun transport => ?_, fun _ => hstarted⟩
    rw [hsessions, hstarted, h.ended transport]
    simp

/-- The clients change over without leaving a session behind. -/
theorem prepare_owned {d : Impl} (i : Pass) (h : Owned d) : Owned (d.prepare i) := by
  obtain ⟨_, _, transport, sessions, started, _, heq, hbound, -⟩ := prepare_eq d i
  rw [heq]
  rcases hbound with ⟨rfl, rfl, rfl⟩ | ⟨rfl, rfl⟩
  · exact h.keep ⟨rfl, rfl, rfl, rfl⟩
  · refine ⟨fun other => ?_, fun _ => rfl⟩
    dsimp only
    rw [h.ended other]
    simp

/-- A session is opened where none is, and not during a pause. -/
theorem mqttStep_owned {d : Impl} (now : UInt32) (i : MqttInput) (h : Owned d) :
    Owned (d.mqttStep now i) := by
  obtain ⟨_, started, sessions, _, _, heq, hsession, -⟩ := mqttStep_eq d now i
  rw [heq]
  rcases hsession with ⟨rfl, rfl⟩ | ⟨hclosed, hpaused, ⟨rfl, rfl⟩ | ⟨rfl, rfl⟩⟩
  · exact h.keep ⟨rfl, rfl, rfl, rfl⟩
  · exact h.keep ⟨rfl, rfl, rfl, rfl⟩
  · refine ⟨fun transport => ?_, fun hnow => absurd (hpaused.symm.trans hnow) (by decide)⟩
    by_cases hsame : transport = d.transport
    · subst hsame
      simp
    · have hother : d.sessions transport = false := by
        by_contra hopen
        exact hsame ((h.sessions transport).mp (by simpa using hopen)).2
      simp [hsame, hother]

/-- A step of the update ends the session for a download at most. -/
theorem ota_owned {d d' : Impl} {now : UInt32} {i : OtaInput} (hmove : OtaMove v d now i d')
    (h : Owned d) : Owned d' := by
  cases hmove with
  | begun _ hbegun =>
      obtain ⟨_, _, _, paused, _, _, _, rfl, -, -, -, -, -, hhung⟩ := hbegun
      exact hhung.owned h rfl fun hpaused => hpaused
  | givenUp _ hgiven =>
      obtain ⟨_, _, _, _, _, _, _, _, _, _, rfl, -, -, -, paused, hhung⟩ := hgiven
      exact hhung.owned h rfl fun hpaused => by cases hpaused
  | applied _ happlied =>
      obtain ⟨_, _, rfl, -⟩ := happlied
      exact h.keep ⟨rfl, rfl, rfl, rfl⟩
  | _ => exact h.keep ⟨rfl, rfl, rfl, rfl⟩

/-- A device that has just started has no session. -/
theorem boot_owned {nvs : Nvs} {cfg : Config} {o : BootAnswers} {d' : Impl}
    (hmove : BootMove nvs cfg o d') : Owned d' := by
  have hnone : ∀ {d : Impl}, d.sessions = (fun _ => false) → d.mqttStarted = false → Owned d := by
    intro d hsessions hstarted
    refine ⟨fun transport => ?_, fun _ => hstarted⟩
    rw [hsessions, hstarted]
    simp
  cases hmove <;> exact hnone rfl rfl

/-- Every event keeps the session owned. -/
theorem owned_kept : Stepwise v (fun _ => True) Owned where
  facing d flash h := h.keep ⟨rfl, rfl, rfl, rfl⟩
  boot d cfg o _ _ := boot_owned (begin_move d.nvs cfg o)
  prepare d i _ _ h := prepare_owned i h
  confirm d i _ _ _ h := by
    have hmove := confirmStep_move d i.now i.confirm
    refine h.keep ?_
    generalize d.confirmStep i.now i.confirm = d' at hmove ⊢
    cases hmove <;> exact ⟨rfl, rfl, rfl, rfl⟩
  provision d i _ _ _ _ h := by
    have hmove := provisionStep_move v d i.now i.provision
    refine h.keep ?_
    generalize provisionStep v d i.now i.provision = d' at hmove ⊢
    cases hmove <;> exact ⟨rfl, rfl, rfl, rfl⟩
  mqtt d i _ _ _ h := mqttStep_owned i.now i.mqtt h
  ingest d i m _ _ _ _ h := by
    rcases ingest_cases v d m with ⟨_, _, _, _, _, heq, -⟩ | ⟨_, -, -, -, -, heq⟩ <;> rw [heq]
    · exact h.keep ⟨rfl, rfl, rfl, rfl⟩
    · exact h.keep ⟨rfl, rfl, rfl, rfl⟩
  ota d i _ _ _ h := ota_owned v (otaStep_move v d i.now i.ota) h
  ping d i _ h := by
    obtain ⟨_, _, heq, -⟩ := pingStep_eq v d i.now i.ping
    rw [heq]
    exact h.keep ⟨rfl, rfl, rfl, rfl⟩
  subscribe d topic qos connected accepts h := by
    obtain ⟨_, _, heq, -⟩ := subscribe_eq d topic qos connected accepts
    rw [heq]
    exact h.keep ⟨rfl, rfl, rfl, rfl⟩
  unsubscribe d topic h := h.keep ⟨rfl, rfl, rfl, rfl⟩
  publish d topic payload qos retain connected accepts h := by
    obtain ⟨_, _, heq, -⟩ := publish_eq d topic payload qos retain connected accepts
    rw [heq]
    exact h.keep ⟨rfl, rfl, rfl, rfl⟩
  seed d nvs _ h := h.keep ⟨rfl, rfl, rfl, rfl⟩
  reset d flash _ h := h.keep ⟨rfl, rfl, rfl, rfl⟩

/-- Over every run from a device without a session, one is open exactly where `mqttStarted` is set,
on the client in use and on no other, and none is while MQTT is held back for a download. -/
theorem one_session {nvs : Nvs} {events : List Event} {d : Impl}
    (hrun : Run (Step v) { nvs } events d) :
    (∀ transport, d.sessions transport = true ↔
        d.mqttStarted = true ∧ transport = d.transport) ∧
      (d.mqttPausedForOta = true → ∀ transport, d.sessions transport = false) := by
  have hstart : Owned { nvs } := ⟨fun transport => by simp, fun _ => rfl⟩
  have hend := (owned_kept v).run hrun (fun _ _ => trivial) hstart
  refine ⟨hend.sessions, fun hpaused transport => ?_⟩
  by_contra hopen
  have hstarted := ((hend.sessions transport).mp (by simpa using hopen)).1
  exact absurd ((hend.paused hpaused).symm.trans hstarted) (by decide)

/-- The sample device downloads, and has no session for that time. -/
theorem one_session_sample :
    (after sampleVendor {} sampleStart).sessions .wifi = false :=
  (one_session sampleVendor (run_after sampleVendor {} sampleStart)).2 (by decide +kernel) .wifi

/-! ## A pause that is not lifted -/

/-- Nothing but a restart, and no message. -/
def silent : Event → Prop
  | .pass i => i.inbox = []
  | .boot _ _ => False
  | _ => True

/-- MQTT is held back for an update that there is none of. -/
structure Muted (d : Impl) : Prop where
  paused : d.mqttPausedForOta = true
  idle : d.updating = false
  closed : ∀ effect ∈ d.emitted, effect.kind ≠ .opening

/-- Silent events leave it so. -/
theorem muted_kept : Stepwise v silent Muted where
  facing d flash h := ⟨h.paused, h.idle, fun _ hmem => absurd hmem List.not_mem_nil⟩
  boot d cfg o hok := absurd hok id
  prepare d i _ _ h := by
    obtain ⟨_, _, _, _, _, es, heq, -, hes⟩ := prepare_eq d i
    rw [heq]
    exact ⟨h.paused, h.idle, avoids_append h.closed hes (by decide)⟩
  confirm d i _ _ _ h := by
    have hmove := confirmStep_move d i.now i.confirm
    generalize d.confirmStep i.now i.confirm = d' at hmove ⊢
    obtain ⟨es, heq, hes⟩ := confirm_emits hmove
    refine ⟨?_, ?_, by rw [heq]; exact avoids_append h.closed hes (by decide)⟩
    · cases hmove <;> exact h.paused
    · cases hmove <;> first | exact h.idle | rfl
  provision d i _ _ _ _ h := by
    have hmove := provisionStep_move v d i.now i.provision
    generalize provisionStep v d i.now i.provision = d' at hmove ⊢
    obtain ⟨es, heq, hes⟩ := provision_emits hmove
    refine ⟨?_, ?_, by rw [heq]; exact avoids_append h.closed hes (by decide)⟩
    · cases hmove <;> exact h.paused
    · cases hmove <;> first | exact h.idle | rfl
  mqtt d i _ _ _ h := by
    unfold mqttStep
    split
    · exact h
    · rw [if_pos h.paused]
      exact h
  ingest d i m hok _ _ hm h := by
    have hnone : i.inbox = [] := hok
    rw [hnone] at hm
    exact absurd hm List.not_mem_nil
  ota d i _ _ _ h := by
    rw [ota_idle (otaStep_move v d i.now i.ota) h.idle]
    exact h
  ping d i _ h := by
    obtain ⟨_, es, heq, hes⟩ := pingStep_eq v d i.now i.ping
    rw [heq]
    exact ⟨h.paused, h.idle, avoids_append h.closed hes (by decide)⟩
  subscribe d topic qos connected accepts h := by
    obtain ⟨_, es, heq, hes⟩ := subscribe_eq d topic qos connected accepts
    rw [heq]
    exact ⟨h.paused, h.idle, avoids_append h.closed hes (by decide)⟩
  unsubscribe d topic h := ⟨h.paused, h.idle, h.closed⟩
  publish d topic payload qos retain connected accepts h := by
    obtain ⟨_, es, heq, hes⟩ := publish_eq d topic payload qos retain connected accepts
    rw [heq]
    exact ⟨h.paused, h.idle, avoids_append h.closed hes (by decide)⟩
  seed d nvs _ h := ⟨h.paused, h.idle, h.closed⟩
  reset d flash _ h := ⟨h.paused, h.idle, h.closed⟩

/-- MQTT is held back for an update whose device has lost its credentials. -/
structure Stripped (d : Impl) : Prop where
  paused : d.mqttPausedForOta = true
  down : DeviceStore.isProvisioned d.nvs = false
  closed : ∀ effect ∈ d.emitted, effect.kind ≠ .opening

/-- The step of the provisioning that comes next ends the update, not the pause. -/
theorem stripped_pass {d : Impl} {i : Pass} (hsilent : silent (.pass i)) (h : Stripped d) :
    Muted (exec v d (.pass i)) ∨ Stripped (exec v d (.pass i)) := by
  have hfacing : ∀ flash, Stripped (d.facing flash) :=
    fun flash => ⟨h.paused, h.down, fun _ hmem => absurd hmem List.not_mem_nil⟩
  show Muted (if d.restarting then _ else loop v (d.facing i.flash) i) ∨
    Stripped (if d.restarting then _ else loop v (d.facing i.flash) i)
  split
  · exact .inr (hfacing [])
  rename_i hrunning
  by_cases hconfirming : d.state = .confirming
  · have hmuted : Muted (d.facing i.flash) := by
      refine ⟨h.paused, ?_, (hfacing i.flash).closed⟩
      show (d.facing i.flash).updating = false
      rw [updating]
      simp [facing, hconfirming]
    exact .inl ((muted_kept v).toPasswise.loop hsilent
      (facing_fresh (by simpa using hrunning) i.flash) hmuted)
  unfold loop
  split
  · exact .inr (hfacing i.flash)
  obtain ⟨_, _, _, _, _, es, hprepared, -, hes⟩ := prepare_eq (d.facing i.flash) i
  have hdown : DeviceStore.isProvisioned (d.facing i.flash).nvs = false := h.down
  have hstate : ((d.facing i.flash).prepare i).state ≠ .confirming := by
    rw [hprepared]
    exact hconfirming
  dsimp only
  rw [if_neg hstate, if_pos (by rw [hprepared]; simp [hdown])]
  have hmove := provisionStep_move v ((d.facing i.flash).prepare i) i.now i.provision
  rw [hprepared] at hmove ⊢
  generalize provisionStep v _ i.now i.provision = d' at hmove ⊢
  have hclosed : ∀ effect ∈ d'.emitted, effect.kind ≠ .opening := by
    obtain ⟨more, heq, hmore⟩ := provision_emits hmove
    rw [heq]
    exact avoids_append (avoids_append (hfacing i.flash).closed hes (by decide)) hmore (by decide)
  cases hmove with
  | waits => exact .inr ⟨h.paused, h.down, hclosed⟩
  | denied => exact .inl ⟨h.paused, rfl, hclosed⟩
  | granted => exact .inl ⟨h.paused, rfl, hclosed⟩

/-- Silent events leave it so, or end the update. -/
theorem stripped_exec {d : Impl} {e : Event} (hsilent : silent e) (h : Stripped d) :
    Muted (exec v d e) ∨ Stripped (exec v d e) := by
  have hfacing : ∀ flash, Stripped (d.facing flash) :=
    fun flash => ⟨h.paused, h.down, fun _ hmem => absurd hmem List.not_mem_nil⟩
  by_cases hrestart : d.restarting = true
  · rw [exec_restarting v hrestart (by rintro cfg o rfl; exact hsilent)]
    exact .inr (hfacing [])
  have hrunning : d.restarting = false := by simpa using hrestart
  rw [exec_running v hrunning]
  cases e with
  | boot => exact absurd hsilent id
  | pass i => exact exec_running v hrunning (.pass i) ▸ stripped_pass v hsilent h
  | subscribe topic qos connected accepts =>
      refine .inr ?_
      obtain ⟨_, es, heq, hes⟩ := subscribe_eq (d.facing []) topic qos connected accepts
      show Stripped ((d.facing []).subscribe topic qos connected accepts).2
      rw [heq]
      exact ⟨h.paused, h.down, avoids_append (hfacing []).closed hes (by decide)⟩
  | unsubscribe topic =>
      exact .inr ⟨h.paused, h.down, (hfacing []).closed⟩
  | publish topic payload qos retain connected accepts =>
      refine .inr ?_
      obtain ⟨_, es, heq, hes⟩ :=
        publish_eq (d.facing []) topic payload qos retain connected accepts
      show Stripped ((d.facing []).publish topic payload qos retain connected accepts).2
      rw [heq]
      exact ⟨h.paused, h.down, avoids_append (hfacing []).closed hes (by decide)⟩
  | seedBootstrapUrl url flash =>
      refine .inr ?_
      show Stripped (if d.storeOpen then _ else _)
      split
      · refine ⟨h.paused, ?_, (hfacing flash).closed⟩
        have htouches : Touches [.bootstrapUrl] (d.facing flash).nvs
            (DeviceStore.seedBootstrapUrl (d.facing flash).nvs url).2 := by
          intro key hkey
          exact DeviceStore.seedBootstrapUrl_entries _ url (by simpa using hkey)
        exact (isProvisioned_congr htouches (by decide)).trans h.down
      · exact hfacing flash
  | factoryReset flash =>
      refine .inr ?_
      show Stripped (if d.storeOpen then _ else _)
      split
      · refine ⟨h.paused, ?_, (hfacing flash).closed⟩
        rcases DeviceStore.factoryReset_cases (d.facing flash).nvs with hsame | herased
        · have hkept : Touches [] (d.facing flash).nvs
              (DeviceStore.factoryReset (d.facing flash).nvs).2 := fun key _ => congrFun hsame key
          exact (isProvisioned_congr hkept (by decide)).trans h.down
        · show DeviceStore.isProvisioned (DeviceStore.factoryReset (d.facing flash).nvs).2 = false
          unfold DeviceStore.isProvisioned Nvs.getU8
          rw [herased]
          rfl
      · exact hfacing flash

/-- A device that holds MQTT back and carries out no update never opens a session again: no step
lifts the pause but the end of an update, and without a session no order brings one. Only a
restart helps. So it is for a device that is reset to factory during a download, and provisioned
anew. -/
theorem muted_for_good {d d' : Impl} {events : List Event} (hrun : Run (Step v) d events d')
    (hsilent : ∀ e ∈ events, silent e) (hpaused : d.mqttPausedForOta = true)
    (hidle : d.updating = false ∨ DeviceStore.isProvisioned d.nvs = false)
    (hquiet : ∀ effect ∈ d.emitted, effect.kind ≠ .opening) :
    d'.mqttPausedForOta = true ∧ ∀ transport session,
      .sessionBegun transport session ∉ d'.emitted := by
  have hstart : Muted d ∨ Stripped d :=
    hidle.imp (fun hidle => ⟨hpaused, hidle, hquiet⟩) fun hdown => ⟨hpaused, hdown, hquiet⟩
  have hend : Muted d' ∨ Stripped d' := by
    refine hrun.invariant_on silent (fun d => Muted d ∨ Stripped d) ?_ hsilent hstart
    intro start e finish he h hstep
    rw [hstep]
    exact h.elim (fun h => .inl ((muted_kept v).exec he h)) (stripped_exec v he)
  have hkept : d'.mqttPausedForOta = true ∧ ∀ effect ∈ d'.emitted, effect.kind ≠ .opening :=
    hend.elim (fun h => ⟨h.paused, h.closed⟩) fun h => ⟨h.paused, h.closed⟩
  exact ⟨hkept.1, fun transport session hmem => hkept.2 _ hmem rfl⟩

/-- The sample device is reset during its download, and gets its credentials once more. -/
theorem muted_for_good_sample :
    (after sampleVendor (after sampleVendor {} (sampleStart ++ [.factoryReset []]))
      [.pass sampleProvisioning, .pass (samplePass [] [])]).mqttPausedForOta = true :=
  (muted_for_good sampleVendor (run_after sampleVendor _ _)
    (by simp [silent, samplePass, sampleProvisioning]) (by decide +kernel)
    (.inr (by decide +kernel)) (by decide +kernel)).1

end FirmwareUpdater.Impl
