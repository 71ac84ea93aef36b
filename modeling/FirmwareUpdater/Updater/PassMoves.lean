import FirmwareUpdater.Updater.UpdateMoves

/-!
# From steps to runs

What provisioning and `begin` can do, and the rules every invariant of the device is proved
with. `Passwise.loop` asks for each step of a pass once, `Stepwise.run` for each other event as
well. `Kept.run` does so for the moves, and has one case, `Aside`, for all that has no part in
the update.
-/

namespace FirmwareUpdater.Impl

open Library

variable (v : Vendor)

/-! ## Provisioning -/

/-- What a step of the provisioning makes of a device. -/
inductive ProvisionMove (d : Impl) (now : UInt32) (i : ProvisionInput) : Impl → Prop where
  | waits {warnedNoDns : Bool} : ProvisionMove d now i { d with warnedNoDns }
  /-- The request was made and brought nothing that was stored whole. -/
  | denied {url : CString} {body : List UInt8} {provisionBackoff transportBackoff : Backoff}
      {nvs : Nvs} (hlink : d.linkUp i.link = true)
      (hnvs : nvs = d.nvs ∨ ∃ p,
        (i.post.error = .ok ∧ Provisioning.fromHttpStatus i.post.status = .granted) ∧
          Provisioning.parseResponse v.deserializeJson (some i.post.body) .blank = (.ok, p) ∧
          DeviceStore.saveProvisioning d.nvs p = (false, nvs)) :
      ProvisionMove d now i
        { d with
          warnedNoDns := false, state := .provisioning, provisionBackoff, transportBackoff, nvs
          emitted := d.emitted ++ [.posted url body] }
  | granted {url : CString} {body : List UInt8} {p : Provisioning} {topics : TopicResolver}
      {provisionBackoff transportBackoff : Backoff} {nvs : Nvs}
      (hlink : d.linkUp i.link = true)
      (hpost : i.post.error = .ok ∧ Provisioning.fromHttpStatus i.post.status = .granted)
      (hparse : Provisioning.parseResponse v.deserializeJson (some i.post.body) .blank = (.ok, p))
      (hsave : DeviceStore.saveProvisioning d.nvs p = (true, nvs)) :
      ProvisionMove d now i
        { d with
          warnedNoDns := false, state := .operation, deviceId := p.deviceId
          clientId := p.deviceId, topics, provisionBackoff, transportBackoff, nvs
          emitted := d.emitted ++ [.posted url body] }

/-- A step of the provisioning ends before the request, or makes it and goes by the answer. -/
theorem provisionStep_cases (d : Impl) (now : UInt32) (i : ProvisionInput) :
    (∃ warnedNoDns, provisionStep v d now i = { d with warnedNoDns }) ∨
      d.linkUp i.link = true ∧ ∃ url body, provisionStep v d now i =
        provisionAnswered v
          (emit { d with warnedNoDns := false, state := .provisioning } (.posted url body)) now
          i.post := by
  unfold provisionStep
  split
  · exact .inl ⟨_, rfl⟩
  rename_i hlink
  have hlink : d.linkUp i.link = true := by simpa using hlink
  split
  · exact .inl ⟨_, rfl⟩
  dsimp only
  split
  · exact .inl ⟨_, rfl⟩
  split
  · exact .inl ⟨_, rfl⟩
  split
  · exact .inl ⟨_, rfl⟩
  split
  · exact .inr ⟨hlink, _, _, rfl⟩
  · exact .inl ⟨_, rfl⟩

/-- The step of the provisioning is one of its moves. -/
theorem provisionStep_move (d : Impl) (now : UInt32) (i : ProvisionInput) :
    ProvisionMove v d now i (provisionStep v d now i) := by
  rcases provisionStep_cases v d now i with ⟨_, hwaits⟩ | ⟨hlink, url, body, hasked⟩
  · rw [hwaits]
    exact .waits
  · rw [hasked]
    unfold provisionAnswered
    dsimp only [emit]
    split
    · exact .denied hlink (.inl rfl)
    rename_i hpost
    split
    · exact .denied hlink (.inl rfl)
    rename_i hgranted
    split
    · rename_i p hparse
      split
      · rename_i hsave
        exact .denied hlink (.inr ⟨p, ⟨not_not.mp hpost, not_not.mp hgranted⟩, hparse,
          Prod.ext (by simpa using hsave) rfl⟩)
      · rename_i hsave
        exact .granted hlink ⟨not_not.mp hpost, not_not.mp hgranted⟩ hparse
          (Prod.ext (by simpa using hsave) rfl)
    · exact .denied hlink (.inl rfl)

/-- A grant that the store did not take as a whole is a refusal, whatever is left of it there. -/
theorem provisionAnswered_unsaved {d : Impl} {now : UInt32} {post : PostAnswer} {p : Provisioning}
    {nvs : Nvs} (herror : post.error = .ok)
    (hgranted : Provisioning.fromHttpStatus post.status = .granted)
    (hparse : Provisioning.parseResponse v.deserializeJson (some post.body) .blank = (.ok, p))
    (hsave : DeviceStore.saveProvisioning d.nvs p = (false, nvs)) :
    provisionAnswered v d now post =
      { d with
        transportBackoff := d.transportBackoff.reset
        provisionBackoff := d.provisionBackoff.fail now, nvs } := by
  simp [provisionAnswered, herror, hgranted, hparse, hsave]

variable {v} in
/-- What it writes. -/
theorem provision_touches {d d' : Impl} {now : UInt32} {i : ProvisionInput}
    (hmove : ProvisionMove v d now i d') :
    Touches (.provisioned :: .bootstrapUrl :: DeviceStore.grantKeys) d.nvs d'.nvs := by
  have hsaved : ∀ {p ok nvs}, DeviceStore.saveProvisioning d.nvs p = (ok, nvs) →
      Touches (.provisioned :: .bootstrapUrl :: DeviceStore.grantKeys) d.nvs nvs := by
    intro p ok nvs hsave key hkey
    rw [← DeviceStore.saveProvisioning_entries d.nvs p hkey, hsave]
  cases hmove with
  | waits => exact .refl _ _
  | denied _ hnvs =>
      rcases hnvs with rfl | ⟨p, -, -, hsave⟩
      · exact .refl _ _
      · exact hsaved hsave
  | granted _ _ _ hsave => exact hsaved hsave

variable {v} in
/-- What it leaves alone. -/
theorem provision_rest {d d' : Impl} {now : UInt32} {i : ProvisionInput}
    (hmove : ProvisionMove v d now i d') : Unmoved d d' := by
  cases hmove <;> exact ⟨rfl, rfl, rfl, rfl⟩

variable {v} in
/-- What it does outside. -/
theorem provision_emits {d d' : Impl} {now : UInt32} {i : ProvisionInput}
    (hmove : ProvisionMove v d now i d') :
    ∃ es, d'.emitted = d.emitted ++ es ∧ Only [.request] es := by
  cases hmove with
  | waits => exact ⟨[], (List.append_nil _).symm, .nil _⟩
  | denied => exact ⟨_, rfl, .single (List.mem_singleton_self _)⟩
  | granted => exact ⟨_, rfl, .single (List.mem_singleton_self _)⟩

/-! ## `begin` -/

/-- The store as a boot finds it. -/
def mounted (nvs : Nvs) (o : BootAnswers) : Bool × Nvs :=
  Nvs.begin { nvs with answers := o.flash } o.opening

/-- What `begin` makes of the pending update in the store it has mounted, and what it reports. -/
inductive Restored (nvs : Nvs) (image : RunningImage) : DeviceState → OtaState → Nvs → Prop where
  | confirming {nvs' : Nvs} (hpending : DeviceStore.hasPending nvs = true)
      (hverify : image.pendingVerify = true) (hnvs : Touches [.guardBypassed] nvs nvs') :
      Restored nvs image .confirming .confirming nvs'
  | dropped {middle : Nvs} (hpending : DeviceStore.hasPending nvs = true)
      (hverify : image.pendingVerify = false) (hnvs : Touches [.guardBypassed] nvs middle) :
      Restored nvs image .operation (DeviceStore.otaState nvs) (DeviceStore.clearPending middle).2
  | fresh {nvs' : Nvs} (hpending : DeviceStore.hasPending nvs = false)
      (hnvs : Touches [.guardBypassed] nvs nvs') :
      Restored nvs image .operation (DeviceStore.otaState nvs) nvs'

/-- The configuration a device starts with: what was compiled in, and nothing of what it was told
before. -/
def seeds (cfg : Config) : RemoteConfig :=
  { pingIntervalS := cfg.pingIntervalS
    otaButtonWindowS := cfg.ota.buttonWindowS
    mqttKeepaliveS := cfg.mqtt.keepaliveS
    allowOtaOnGprs := cfg.ota.allowOtaOnGprs }

/-- What a boot makes of a store. -/
inductive BootMove (nvs : Nvs) (cfg : Config) (o : BootAnswers) : Impl → Prop where
  | refused (hcfg : cfg.validate ≠ .ok) :
      BootMove nvs cfg o { cfg, nvs := { nvs with answers := o.flash } }
  | unopened (hcfg : cfg.validate = .ok) (hopens : (mounted nvs o).1 = false) :
      BootMove nvs cfg o { cfg, nvs := (mounted nvs o).2 }
  | booted {state : DeviceState} {otaState : OtaState} {nvs' : Nvs}
      {hardwareModel : Field maxModelLen} {boardId : Field 16}
      {deviceId clientId : Field maxIdLen} {topics : TopicResolver}
      {provisionBackoff transportBackoff mqttBackoff confirmBackoff : Backoff}
      (hcfg : cfg.validate = .ok) (hopens : (mounted nvs o).1 = true)
      (hrestored : Restored (mounted nvs o).2 o.image state otaState nvs') :
      BootMove nvs cfg o
        { cfg, nvs := nvs', storeOpen := true, clock := ArduinoClock.begin {}, hw := o.hw
          hardwareModel, boardId, mqttMaxPublishQos := Transport.wifi.maxPublishQos
          remoteCfg := seeds cfg, state, otaState
          abortReason := DeviceStore.abortReason (mounted nvs o).2, deviceId, clientId, topics
          provisionBackoff, transportBackoff, mqttBackoff, confirmBackoff }

theorem restored_cases (d : Impl) (image : RunningImage) :
    ∃ state otaState nvs,
      d.restored image =
          { d with state, otaState, abortReason := DeviceStore.abortReason d.nvs, nvs } ∧
        Restored d.nvs image state otaState nvs := by
  have hguard : ∃ nvs, (if image.check (DeviceStore.hasPending d.nvs) = .bypassed then
      { d with
        otaState := DeviceStore.otaState d.nvs, abortReason := DeviceStore.abortReason d.nvs
        nvs := (DeviceStore.setRollbackGuardBypassed d.nvs true).2 }
      else
        { d with
          otaState := DeviceStore.otaState d.nvs, abortReason := DeviceStore.abortReason d.nvs }) =
      { d with
        otaState := DeviceStore.otaState d.nvs, abortReason := DeviceStore.abortReason d.nvs
        nvs } ∧ Touches [.guardBypassed] d.nvs nvs := by
    split
    · refine ⟨_, rfl, fun key hkey => ?_⟩
      exact DeviceStore.setRollbackGuardBypassed_entries d.nvs true (by simpa using hkey)
    · exact ⟨d.nvs, rfl, .refl _ _⟩
  obtain ⟨nvs, heq, hnvs⟩ := hguard
  unfold restored
  dsimp only
  rw [heq]
  cases hpending : DeviceStore.hasPending d.nvs with
  | false => exact ⟨_, _, nvs, rfl, .fresh hpending hnvs⟩
  | true =>
      cases hverify : image.pendingVerify with
      | true => exact ⟨_, _, nvs, rfl, .confirming hpending hverify hnvs⟩
      | false => exact ⟨_, _, _, rfl, .dropped hpending hverify hnvs⟩

/-- A boot is one of its moves. -/
theorem begin_move (nvs : Nvs) (cfg : Config) (o : BootAnswers) :
    BootMove nvs cfg o (begin nvs cfg o).2 := by
  unfold begin
  dsimp only
  split
  · rename_i hcfg
    exact .refused hcfg
  rename_i hcfg
  have hcfg : cfg.validate = .ok := not_not.mp hcfg
  change BootMove nvs cfg o (if !(mounted nvs o).1 then _ else _ : ConfigError × Impl).2
  cases hopens : (mounted nvs o).1 with
  | false => exact .unopened hcfg hopens
  | true =>
      obtain ⟨state, otaState, nvs', heq, hrestored⟩ := restored_cases
        ((Impl.probed { cfg, nvs := (mounted nvs o).2, storeOpen := true } o.hw).seeded) o.image
      show BootMove nvs cfg o ((((Impl.probed
        { cfg, nvs := (mounted nvs o).2, storeOpen := true } o.hw).seeded).restored
          o.image).identified).scheduled
      rw [heq]
      unfold identified
      dsimp only
      split <;> exact .booted hcfg hopens hrestored

/-- A store as a boot may come to read it: as it was, or erased to recover the partition. -/
def Recovered (nvs : Nvs) (o : BootAnswers) (found : Nvs) : Prop :=
  found.entries = nvs.entries ∨ o.opening.wantsErase = true ∧ found.entries = fun _ => none

theorem mounted_recovered (nvs : Nvs) (o : BootAnswers) : Recovered nvs o (mounted nvs o).2 := by
  unfold mounted Nvs.begin
  split
  · rename_i hwants
    split
    · exact .inl rfl
    · exact .inr ⟨hwants, rfl⟩
  · exact .inl rfl

/-- Behind the mount a boot writes the mark of the guard and erases the pending record at most. -/
theorem boot_store {nvs : Nvs} {cfg : Config} {o : BootAnswers} {d' : Impl}
    (hmove : BootMove nvs cfg o d') :
    ∃ found, Recovered nvs o found ∧
      Touches (.guardBypassed :: DeviceStore.pendingKeys) found d'.nvs ∧
      ∀ key ∈ DeviceStore.pendingKeys,
        d'.nvs.entries key = found.entries key ∨ d'.nvs.entries key = none := by
  have hguard : ∀ {nvs nvs' : Nvs}, Touches [.guardBypassed] nvs nvs' →
      ∀ key ∈ DeviceStore.pendingKeys, nvs'.entries key = nvs.entries key := by
    intro nvs nvs' hnvs key hkey
    refine hnvs key fun hmem => ?_
    obtain rfl := List.mem_singleton.mp hmem
    exact absurd hkey (by decide)
  cases hmove with
  | refused => exact ⟨_, .inl rfl, .refl _ _, fun key _ => .inl rfl⟩
  | unopened => exact ⟨_, mounted_recovered nvs o, .refl _ _, fun key _ => .inl rfl⟩
  | booted _ _ hrestored =>
      refine ⟨_, mounted_recovered nvs o, ?_⟩
      cases hrestored with
      | confirming _ _ hnvs =>
          exact ⟨hnvs.mono (by decide), fun key hkey => .inl (hguard hnvs key hkey)⟩
      | dropped _ _ hnvs =>
          refine ⟨(hnvs.mono (by decide)).trans fun key hkey => ?_, fun key hkey => ?_⟩
          · exact DeviceStore.clearPending_entries _ fun hmem => hkey (List.mem_cons_of_mem _ hmem)
          · rw [← hguard hnvs key hkey]
            exact DeviceStore.clearPending_cases _ key
      | fresh _ hnvs => exact ⟨hnvs.mono (by decide), fun key hkey => .inl (hguard hnvs key hkey)⟩

/-- A boot carries out no order and has done nothing yet. -/
theorem boot_rest {nvs : Nvs} {cfg : Config} {o : BootAnswers} {d' : Impl}
    (hmove : BootMove nvs cfg o d') : d'.cfg = cfg ∧ d'.updating = false ∧ d'.emitted = [] := by
  cases hmove with
  | refused => exact ⟨rfl, rfl, rfl⟩
  | unopened => exact ⟨rfl, rfl, rfl⟩
  | booted _ _ hrestored => exact ⟨rfl, by cases hrestored <;> rfl, rfl⟩

/-! ## Moves that have no part in the update -/

/-- The device has looked after its links, its session, its clock or its subscriptions. -/
def Aside (d d' : Impl) : Prop :=
  ∃ transport sessions clock mqttStarted wasConnected mqttBackoff mqttStatus lastPingMs
    lastGsmClockMs subs es,
    d' =
      { d with
        transport, sessions, clock, mqttStarted, wasConnected, mqttBackoff, mqttStatus, lastPingMs
        lastGsmClockMs, subs, emitted := d.emitted ++ es } ∧
    Only [.opening, .session, .message] es

theorem prepare_aside (d : Impl) (i : Pass) : Aside d (d.prepare i) := by
  obtain ⟨clock, last, transport, sessions, started, es, heq, -, hes⟩ := prepare_eq d i
  rw [heq]
  exact ⟨_, _, _, _, _, _, _, _, _, _, es, rfl, hes.mono (by decide)⟩

theorem mqttStep_aside (d : Impl) (now : UInt32) (i : MqttInput) : Aside d (d.mqttStep now i) := by
  obtain ⟨was, started, sessions, backoff, es, heq, -, hes⟩ := mqttStep_eq d now i
  rw [heq]
  exact ⟨_, _, _, _, _, _, _, _, _, _, es, rfl, hes.mono (by decide)⟩

theorem pingStep_aside (d : Impl) (now : UInt32) (i : PingInput) :
    Aside d (pingStep v d now i) := by
  obtain ⟨last, es, heq, hes⟩ := pingStep_eq v d now i
  rw [heq]
  exact ⟨_, _, _, _, _, _, _, _, _, _, es, rfl, hes.mono (by decide)⟩

theorem subscribe_aside (d : Impl) (topic : CString) (qos : UInt8) (connected accepts : Bool) :
    Aside d (d.subscribe topic qos connected accepts).2 := by
  obtain ⟨subs, es, heq, hes⟩ := subscribe_eq d topic qos connected accepts
  rw [heq]
  exact ⟨_, _, _, _, _, _, _, _, _, _, es, rfl, hes.mono (by decide)⟩

theorem unsubscribe_aside (d : Impl) (topic : CString) : Aside d (d.unsubscribe topic) :=
  ⟨_, _, _, _, _, _, _, _, _, _, [], by rw [List.append_nil]; rfl, .nil _⟩

theorem publish_aside (d : Impl) (topic : CString) (payload : List UInt8) (qos : UInt8)
    (retain connected accepts : Bool) :
    Aside d (d.publish topic payload qos retain connected accepts).2 := by
  obtain ⟨status, es, heq, hes⟩ := publish_eq d topic payload qos retain connected accepts
  rw [heq]
  exact ⟨_, _, _, _, _, _, _, _, _, _, es, rfl, hes.mono (by decide)⟩

/-- The device runs, and since the event began nothing was done about its image. -/
structure Fresh (d : Impl) : Prop where
  running : d.restarting = false
  quiet : ∀ effect ∈ d.emitted, effect.kind ≠ .image

theorem facing_fresh {d : Impl} (h : d.restarting = false) (flash : List Bool) :
    (d.facing flash).Fresh :=
  ⟨h, fun _ hmem => absurd hmem List.not_mem_nil⟩

theorem Aside.fresh {d d' : Impl} (h : Aside d d') (hd : d.Fresh) : d'.Fresh := by
  obtain ⟨_, _, _, _, _, _, _, _, _, _, es, rfl, hes⟩ := h
  exact ⟨hd.running, avoids_append hd.quiet hes (by decide)⟩

theorem Aside.state {d d' : Impl} (h : Aside d d') : d'.state = d.state := by
  obtain ⟨_, _, _, _, _, _, _, _, _, _, _, rfl, -⟩ := h
  rfl

theorem Aside.ota {d d' : Impl} (h : Aside d d') : d'.ota = d.ota := by
  obtain ⟨_, _, _, _, _, _, _, _, _, _, _, rfl, -⟩ := h
  rfl

theorem Aside.nvs {d d' : Impl} (h : Aside d d') : d'.nvs = d.nvs := by
  obtain ⟨_, _, _, _, _, _, _, _, _, _, _, rfl, -⟩ := h
  rfl

theorem Aside.topics {d d' : Impl} (h : Aside d d') : d'.topics = d.topics := by
  obtain ⟨_, _, _, _, _, _, _, _, _, _, _, rfl, -⟩ := h
  rfl

theorem ingest_state {d : Impl} (hstate : d.state ≠ .confirming) (m : Polled) :
    (ingest v d m).state ≠ .confirming := by
  rcases ingest_cases v d m with ⟨_, _, _, _, _, heq, -⟩ | ⟨_, -, -, -, -, heq⟩ <;> rw [heq]
  · exact hstate
  · simp

theorem ingest_fresh {d : Impl} (hd : d.Fresh) (m : Polled) : (ingest v d m).Fresh := by
  rcases ingest_cases v d m with ⟨_, _, _, _, es, heq, -, hes⟩ | ⟨_, -, -, -, -, heq⟩ <;> rw [heq]
  · exact ⟨hd.running, avoids_append hd.quiet hes (by decide)⟩
  · exact ⟨hd.running, hd.quiet⟩

/-! ## Calls of the application -/

/-- Neither a boot nor a pass. -/
def called : Event → Prop
  | .pass _ | .boot _ _ => False
  | _ => True

theorem onStore_eq (d : Impl) (call : Nvs → Bool × Nvs) :
    ∃ nvs, d.onStore call = { d with nvs } := by
  unfold onStore
  split <;> exact ⟨_, rfl⟩

/-- A call touches the subscriptions, the status of the last publication and the store at most. -/
theorem exec_call (d : Impl) {e : Event} (he : called e) :
    ∃ subs mqttStatus nvs emitted, exec v d e = { d with subs, mqttStatus, nvs, emitted } := by
  have hruns : ∃ subs mqttStatus nvs emitted, run v d e =
      { d with subs, mqttStatus, nvs, emitted } := by
    cases e with
    | boot => exact absurd he id
    | pass => exact absurd he id
    | subscribe topic qos connected accepts =>
        obtain ⟨_, _, heq, -⟩ := subscribe_eq (d.facing []) topic qos connected accepts
        exact ⟨_, _, _, _, heq⟩
    | unsubscribe topic => exact ⟨_, _, _, _, rfl⟩
    | publish topic payload qos retain connected accepts =>
        obtain ⟨_, _, heq, -⟩ := publish_eq (d.facing []) topic payload qos retain connected accepts
        exact ⟨_, _, _, _, heq⟩
    | seedBootstrapUrl url flash =>
        obtain ⟨_, heq⟩ :=
          onStore_eq (d.facing flash) fun nvs => DeviceStore.seedBootstrapUrl nvs url
        exact ⟨_, _, _, _, heq⟩
    | factoryReset flash =>
        obtain ⟨_, heq⟩ := onStore_eq (d.facing flash) DeviceStore.factoryReset
        exact ⟨_, _, _, _, heq⟩
  cases e with
  | boot => exact absurd he id
  | _ =>
      show ∃ subs mqttStatus nvs emitted, (if d.restarting then d.facing [] else run v d _) =
        { d with subs, mqttStatus, nvs, emitted }
      split
      · exact ⟨_, _, _, _, rfl⟩
      · exact hruns

/-! ## The rules -/

/-- A property that the passes allowed by `Ok` keep: one case for each step of a pass. A pass makes
one move about the image at most, so the device is still fresh when it does. -/
structure Passwise (Ok : Pass → Prop) (Inv : Impl → Prop) : Prop where
  prepare : ∀ d i, Ok i → d.Fresh → Inv d → Inv (d.prepare i)
  confirm : ∀ d i, Ok i → d.Fresh → d.state = .confirming → Inv d →
    Inv (d.confirmStep i.now i.confirm)
  provision : ∀ d i, Ok i → d.Fresh → d.state ≠ .confirming →
    DeviceStore.isProvisioned d.nvs = false → Inv d → Inv (provisionStep v d i.now i.provision)
  mqtt : ∀ d i, Ok i → d.Fresh → d.state ≠ .confirming → Inv d → Inv (d.mqttStep i.now i.mqtt)
  ingest : ∀ d i m, Ok i → d.Fresh → d.state ≠ .confirming → m ∈ i.inbox → Inv d →
    Inv (ingest v d m)
  ota : ∀ d i, Ok i → d.Fresh → d.state ≠ .confirming → Inv d → Inv (otaStep v d i.now i.ota)
  ping : ∀ d i, Ok i → Inv d → Inv (pingStep v d i.now i.ping)

/-- A property that every event allowed by `Ok` keeps: those of a pass, and one case for each other
thing that happens. -/
structure Stepwise (Ok : Event → Prop) (Inv : Impl → Prop) : Prop extends
    Passwise v (fun i => Ok (.pass i)) Inv where
  facing : ∀ d flash, Inv d → Inv (d.facing flash)
  boot : ∀ d cfg o, Ok (.boot cfg o) → Inv d → Inv (begin d.nvs cfg o).2
  subscribe : ∀ d topic qos connected accepts, Inv d →
    Inv (d.subscribe topic qos connected accepts).2
  unsubscribe : ∀ d topic, Inv d → Inv (d.unsubscribe topic)
  publish : ∀ d topic payload qos retain connected accepts, Inv d →
    Inv (d.publish topic payload qos retain connected accepts).2
  seed : ∀ d nvs, Touches [.bootstrapUrl] d.nvs nvs → Inv d → Inv { d with nvs }
  reset : ∀ d flash, Ok (.factoryReset flash) → Inv d →
    Inv { d with nvs := (DeviceStore.factoryReset d.nvs).2 }

namespace Passwise

variable {v} {Ok : Pass → Prop} {Inv : Impl → Prop}

/-- The messages of a pass keep it, one after the other. -/
theorem inbox (h : Passwise v Ok Inv) {d : Impl} {i : Pass} (hok : Ok i)
    (hfresh : d.Fresh) (hstate : d.state ≠ .confirming) (hd : Inv d) :
    (ingestStep v d i.inbox).Fresh ∧ (ingestStep v d i.inbox).state ≠ .confirming ∧
      Inv (ingestStep v d i.inbox) := by
  have hall : ∀ (messages : List Polled), (∀ m ∈ messages, m ∈ i.inbox) →
      ∀ d : Impl, d.Fresh ∧ d.state ≠ .confirming ∧ Inv d →
      (messages.foldl (Impl.ingest v) d).Fresh ∧
        (messages.foldl (Impl.ingest v) d).state ≠ .confirming ∧
        Inv (messages.foldl (Impl.ingest v) d) := by
    intro messages
    induction messages with
    | nil => exact fun _ d hd => hd
    | cons m messages ih =>
        intro hsub d hd
        rw [List.forall_mem_cons] at hsub
        exact ih hsub.2 _ ⟨ingest_fresh v hd.1 m, ingest_state v hd.2.1 m,
          h.ingest d i m hok hd.1 hd.2.1 hsub.1 hd.2.2⟩
  exact hall i.inbox (fun _ hm => hm) d ⟨hfresh, hstate, hd⟩

/-- What holds behind the look at the session, the steps after it keep. -/
theorem operate (h : Passwise v Ok Inv) {d : Impl} {i : Pass} (hok : Ok i) (hfresh : d.Fresh)
    (hstate : d.state ≠ .confirming) (hsession : Inv (d.mqttStep i.now i.mqtt)) :
    Inv (operate v d i) := by
  have haside := mqttStep_aside d i.now i.mqtt
  obtain ⟨hfresh', hstate', hinbox⟩ :=
    h.inbox hok (haside.fresh hfresh) (by rwa [haside.state]) hsession
  have hupdate := h.ota _ i hok hfresh' hstate' hinbox
  unfold Impl.operate
  dsimp only
  split
  · exact hupdate
  · exact h.ping _ i hok hupdate

/-- A pass keeps it. -/
theorem loop (h : Passwise v Ok Inv) {d : Impl} {i : Pass} (hok : Ok i)
    (hfresh : d.Fresh) (hd : Inv d) : Inv (loop v d i) := by
  unfold Impl.loop
  split
  · exact hd
  dsimp only
  have hprepared := h.prepare d i hok hfresh hd
  have hgoes := (prepare_aside d i).fresh hfresh
  split
  · rename_i hstate
    exact h.confirm _ i hok hgoes hstate hprepared
  rename_i hstate
  split
  · rename_i hprovisioned
    exact h.provision _ i hok hgoes hstate (by simpa using hprovisioned) hprepared
  · exact h.operate hok hgoes hstate (h.mqtt _ i hok hgoes hstate hprepared)

end Passwise

namespace Stepwise

variable {v} {Ok : Event → Prop} {Inv : Impl → Prop}

/-- An event on a device that runs keeps it. -/
theorem runs (h : Stepwise v Ok Inv) {d : Impl} {e : Event} (hok : Ok e)
    (hrestart : d.restarting = false) (hd : Inv d) : Inv (Impl.run v d e) := by
  cases e with
  | boot cfg o => exact h.boot d cfg o hok hd
  | pass i => exact h.toPasswise.loop hok (facing_fresh hrestart i.flash) (h.facing d i.flash hd)
  | subscribe topic qos connected accepts =>
      exact h.subscribe _ topic qos connected accepts (h.facing d [] hd)
  | unsubscribe topic => exact h.unsubscribe _ topic (h.facing d [] hd)
  | publish topic payload qos retain connected accepts =>
      exact h.publish _ topic payload qos retain connected accepts (h.facing d [] hd)
  | seedBootstrapUrl url flash =>
      have hfacing := h.facing d flash hd
      show Inv (if d.storeOpen then _ else _)
      split
      · refine h.seed _ _ (fun key hkey => ?_) hfacing
        exact DeviceStore.seedBootstrapUrl_entries _ url (by simpa using hkey)
      · exact hfacing
  | factoryReset flash =>
      have hfacing := h.facing d flash hd
      show Inv (if d.storeOpen then _ else _)
      split
      · exact h.reset _ flash hok hfacing
      · exact hfacing

/-- An event keeps it. -/
theorem exec (h : Stepwise v Ok Inv) {d : Impl} {e : Event} (hok : Ok e) (hd : Inv d) :
    Inv (exec v d e) := by
  unfold Impl.exec
  split
  · rename_i cfg o
    exact h.boot d cfg o hok hd
  · split
    · exact h.facing d [] hd
    · rename_i hrestart
      exact h.runs hok (by simpa using hrestart) hd

/-- A run keeps it. -/
theorem run (h : Stepwise v Ok Inv) {d d' : Impl} {events : List Event}
    (hrun : Run (Step v) d events d') (hok : ∀ e ∈ events, Ok e) (hd : Inv d) : Inv d' := by
  refine hrun.invariant_on Ok Inv ?_ hok hd
  intro start e finish he hstart hstep
  rw [hstep]
  exact h.exec he hstart

end Stepwise

/-- The same for a property of the update and the store: what has no part in them is one case, and a
step may be any of its moves. -/
structure Kept (Ok : Event → Prop) (Inv : Impl → Prop) : Prop where
  facing : ∀ d flash, Inv d → Inv (d.facing flash)
  aside : ∀ d d', Aside d d' → Inv d → Inv d'
  boot : ∀ d cfg o d', Ok (.boot cfg o) → BootMove d.nvs cfg o d' → Inv d → Inv d'
  confirm : ∀ d i d', Ok (.pass i) → d.Fresh → d.state = .confirming →
    ConfirmMove d i.now i.confirm d' → Inv d → Inv d'
  provision : ∀ d i d', Ok (.pass i) → d.Fresh → d.state ≠ .confirming →
    DeviceStore.isProvisioned d.nvs = false → ProvisionMove v d i.now i.provision d' →
    Inv d → Inv d'
  ingest : ∀ d i m, Ok (.pass i) → d.Fresh → d.state ≠ .confirming → m ∈ i.inbox → Inv d →
    Inv (ingest v d m)
  ota : ∀ d i d', Ok (.pass i) → d.Fresh → d.state ≠ .confirming → OtaMove v d i.now i.ota d' →
    Inv d → Inv d'
  seed : ∀ d nvs, Touches [.bootstrapUrl] d.nvs nvs → Inv d → Inv { d with nvs }
  reset : ∀ d flash, Ok (.factoryReset flash) → Inv d →
    Inv { d with nvs := (DeviceStore.factoryReset d.nvs).2 }

namespace Kept

variable {v} {Ok : Event → Prop} {Inv : Impl → Prop}

/-- The moves cover the steps. -/
theorem stepwise (h : Kept v Ok Inv) : Stepwise v Ok Inv where
  facing := h.facing
  boot d cfg o hok hd := h.boot d cfg o _ hok (begin_move d.nvs cfg o) hd
  prepare d i _ _ hd := h.aside _ _ (prepare_aside d i) hd
  confirm d i hok hfresh hstate hd :=
    h.confirm d i _ hok hfresh hstate (confirmStep_move d i.now i.confirm) hd
  provision d i hok hfresh hstate hprovisioned hd :=
    h.provision d i _ hok hfresh hstate hprovisioned (provisionStep_move v d i.now i.provision) hd
  mqtt d i _ _ _ hd := h.aside _ _ (mqttStep_aside d i.now i.mqtt) hd
  ingest := h.ingest
  ota d i hok hfresh hstate hd := h.ota d i _ hok hfresh hstate (otaStep_move v d i.now i.ota) hd
  ping d i _ hd := h.aside _ _ (pingStep_aside v d i.now i.ping) hd
  subscribe d topic qos connected accepts hd :=
    h.aside _ _ (subscribe_aside d topic qos connected accepts) hd
  unsubscribe d topic hd := h.aside _ _ (unsubscribe_aside d topic) hd
  publish d topic payload qos retain connected accepts hd :=
    h.aside _ _ (publish_aside d topic payload qos retain connected accepts) hd
  seed := h.seed
  reset := h.reset

/-- A run keeps it. -/
theorem run (h : Kept v Ok Inv) {d d' : Impl} {events : List Event}
    (hrun : Run (Step v) d events d') (hok : ∀ e ∈ events, Ok e) (hd : Inv d) : Inv d' :=
  h.stepwise.run hrun hok hd

end Kept

/-! ## A device in operation -/

/-- A device that runs the steps of `operate` in its passes. -/
structure Operating (d : Impl) : Prop where
  storeOpen : d.storeOpen = true
  running : d.restarting = false
  state : d.state ≠ .confirming
  provisioned : DeviceStore.isProvisioned d.nvs = true

instance (d : Impl) : Decidable (Operating d) :=
  decidable_of_iff (d.storeOpen = true ∧ d.restarting = false ∧ d.state ≠ .confirming ∧
      DeviceStore.isProvisioned d.nvs = true)
    ⟨fun ⟨hopen, hruns, hstate, hprovisioned⟩ => ⟨hopen, hruns, hstate, hprovisioned⟩,
      fun h => ⟨h.storeOpen, h.running, h.state, h.provisioned⟩⟩

/-- That is what a pass is to it. -/
theorem exec_operates {d : Impl} (h : Operating d) (i : Pass) :
    exec v d (.pass i) = operate v ((d.facing i.flash).prepare i) i := by
  obtain ⟨_, _, _, _, _, _, _, _, _, _, _, heq, -⟩ := prepare_aside (d.facing i.flash) i
  have hprovisioned : DeviceStore.isProvisioned (d.facing i.flash).nvs = true := h.provisioned
  rw [exec_running v h.running]
  show loop v (d.facing i.flash) i = _
  rw [loop, if_neg (by simp [facing, h.storeOpen])]
  dsimp only
  rw [if_neg (by rw [heq]; exact h.state), if_neg (by rw [heq]; simp [hprovisioned])]

variable {v} in
/-- So a pass ends with what holds behind its look at the session. -/
theorem Passwise.operated {Ok : Pass → Prop} {Inv : Impl → Prop} (h : Passwise v Ok Inv) {d : Impl}
    (hoperating : Operating d) {i : Pass} (hok : Ok i)
    (hsession : Inv (((d.facing i.flash).prepare i).mqttStep i.now i.mqtt)) :
    Inv (exec v d (.pass i)) := by
  have haside := prepare_aside (d.facing i.flash) i
  rw [exec_operates v hoperating]
  refine h.operate hok (haside.fresh (facing_fresh hoperating.running i.flash)) ?_ hsession
  rw [haside.state]
  exact hoperating.state

/-- A pass over any device does nothing, or is one of the three kinds of work. -/
theorem exec_pass_cases (d : Impl) (i : Pass) :
    (∃ flash, exec v d (.pass i) = d.facing flash) ∨
      (d.state = .confirming ∧ exec v d (.pass i) =
        ((d.facing i.flash).prepare i).confirmStep i.now i.confirm) ∨
      (d.state ≠ .confirming ∧ DeviceStore.isProvisioned d.nvs = false ∧ exec v d (.pass i) =
        provisionStep v ((d.facing i.flash).prepare i) i.now i.provision) ∨
      Operating d := by
  have haside := prepare_aside (d.facing i.flash) i
  cases hrestarting : d.restarting with
  | true => exact .inl ⟨[], exec_restarting v hrestarting (by simp)⟩
  | false =>
      rw [exec_running v hrestarting]
      show (∃ flash, loop v (d.facing i.flash) i = d.facing flash) ∨
        (_ ∧ loop v (d.facing i.flash) i = _) ∨ (_ ∧ _ ∧ loop v (d.facing i.flash) i = _) ∨ _
      unfold loop
      cases hopen : d.storeOpen with
      | false => exact .inl ⟨i.flash, if_pos (by simp [facing, hopen])⟩
      | true =>
          right
          rw [if_neg (by simp [facing, hopen])]
          dsimp only
          rw [haside.state, haside.nvs]
          by_cases hstate : d.state = .confirming
          · exact .inl ⟨hstate, if_pos hstate⟩
          right
          rw [if_neg (show ¬(d.facing i.flash).state = .confirming from hstate)]
          cases hprovisioned : DeviceStore.isProvisioned d.nvs with
          | false =>
              refine .inl ⟨hstate, rfl, if_pos ?_⟩
              show (!DeviceStore.isProvisioned d.nvs) = true
              rw [hprovisioned, Bool.not_false]
          | true => exact .inr ⟨hopen, hrestarting, hstate, hprovisioned⟩

theorem Aside.operating {d d' : Impl} (h : Aside d d') (hd : Operating d) : Operating d' := by
  obtain ⟨_, _, _, _, _, _, _, _, _, _, _, rfl, -⟩ := h
  exact ⟨hd.storeOpen, hd.running, hd.state, hd.provisioned⟩

end FirmwareUpdater.Impl
