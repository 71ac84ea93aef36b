import FirmwareUpdater.Updater.Machine

/-!
# What each step can do

One lemma for each step function: the fields it can change, the keys it can write and the
kind of things it does outside. The invariants of the device are read off these lemmas, not
off the functions.
-/

namespace FirmwareUpdater

/-- What an effect is about. -/
inductive Effect.Kind where
  | ota
  | request
  | opening
  | session
  | message
  | delivery
  | config
  | download
  | image
  | mark
  deriving DecidableEq

/-- The kind of an effect. -/
def Effect.kind : Effect → Effect.Kind
  | .otaChanged _ _ => .ota
  | .posted _ _ => .request
  | .sessionBegun _ _ => .opening
  | .topicReserved _ | .directCallbackSet | .sessionEnded _ | .subscribed _ _ | .connected
  | .disconnected => .session
  | .published _ _ _ _ => .message
  | .delivered _ _ => .delivery
  | .configured _ => .config
  | .downloadBegun _ | .downloadEnded => .download
  | .bootPartitionSet | .restarted => .image
  | .markedValid | .markedInvalid => .mark

namespace Impl

variable (v : Vendor)

/-- Effects of the given kinds only. -/
def Only (kinds : List Effect.Kind) (effects : List Effect) : Prop :=
  ∀ effect ∈ effects, effect.kind ∈ kinds

/-- Writes that touch the given keys only. -/
def Touches (keys : List NvsKey) (nvs nvs' : Nvs) : Prop :=
  ∀ key, key ∉ keys → nvs'.entries key = nvs.entries key

theorem Only.nil (kinds : List Effect.Kind) : Only kinds [] := by simp [Only]

theorem Only.single {kinds : List Effect.Kind} {effect : Effect} (h : effect.kind ∈ kinds) :
    Only kinds [effect] := by simpa [Only] using h

theorem Only.append {kinds : List Effect.Kind} {first second : List Effect}
    (hfirst : Only kinds first) (hsecond : Only kinds second) : Only kinds (first ++ second) := by
  intro effect h
  exact (List.mem_append.mp h).elim (hfirst effect) (hsecond effect)

/-- Effects of other kinds add none of a kind that is not there. -/
theorem avoids_append {kind : Effect.Kind} {kinds : List Effect.Kind} {effects more : List Effect}
    (h : ∀ effect ∈ effects, effect.kind ≠ kind) (hmore : Only kinds more) (hkind : kind ∉ kinds) :
    ∀ effect ∈ effects ++ more, effect.kind ≠ kind := by
  intro effect hmem
  rcases List.mem_append.mp hmem with hmem | hmem
  · exact h effect hmem
  · exact fun hsame => hkind (hsame ▸ hmore effect hmem)

theorem Only.mono {kinds wide : List Effect.Kind} {effects : List Effect}
    (h : Only kinds effects) (hsub : kinds ⊆ wide) : Only wide effects :=
  fun effect heffect => hsub (h effect heffect)

theorem Touches.refl (keys : List NvsKey) (nvs : Nvs) : Touches keys nvs nvs := fun _ _ => rfl

theorem Touches.trans {keys : List NvsKey} {a b c : Nvs} (hab : Touches keys a b)
    (hbc : Touches keys b c) : Touches keys a c :=
  fun key hkey => (hbc key hkey).trans (hab key hkey)

/-- Writes elsewhere leave a device as provisioned as it was. -/
theorem isProvisioned_congr {nvs nvs' : Nvs} {keys : List NvsKey} (hnvs : Touches keys nvs nvs')
    (hkeys : ∀ key ∈ [NvsKey.provisioned, .deviceId], key ∉ keys) :
    DeviceStore.isProvisioned nvs' = DeviceStore.isProvisioned nvs :=
  DeviceStore.isProvisioned_congr fun key hkey => hnvs key (hkeys key hkey)

theorem Touches.mono {keys wide : List NvsKey} {a b : Nvs} (h : Touches keys a b)
    (hsub : keys ⊆ wide) : Touches wide a b :=
  fun key hkey => h key fun hmem => hkey (hsub hmem)

/-! ## The helpers -/

theorem setOtaState_eq (d : Impl) (next : OtaState) (reason : AbortReason) :
    ∃ nvs es, d.setOtaState next reason =
        { d with otaState := next, abortReason := reason, nvs, emitted := d.emitted ++ es } ∧
      Touches [.otaState, .abortReason] d.nvs nvs ∧ Only [.ota] es := by
  unfold setOtaState
  split
  · rename_i hsame
    obtain ⟨rfl, rfl⟩ := hsame
    exact ⟨d.nvs, [], by rw [List.append_nil], .refl _ _, .nil _⟩
  · refine ⟨_, _, rfl, ?_, .single (List.mem_singleton_self _)⟩
    exact fun key hkey => DeviceStore.setOtaState_entries d.nvs next reason hkey

/-- The clients in use are those of `d`, or they changed and the session of the old ones ended. -/
def Rebound (d : Impl) (transport : Transport) (sessions : Transport → Bool) (mqttStarted : Bool) :
    Prop :=
  (transport = d.transport ∧ sessions = d.sessions ∧ mqttStarted = d.mqttStarted) ∨
    sessions = Function.update d.sessions d.transport false ∧ mqttStarted = false

theorem bindTransports_eq (d : Impl) (links : Links) :
    ∃ transport sessions mqttStarted es, d.bindTransports links =
        { d with transport, sessions, mqttStarted, emitted := d.emitted ++ es } ∧
      Rebound d transport sessions mqttStarted ∧ Only [.session] es := by
  unfold bindTransports
  generalize (if d.cfg.linkMode = .gprs ∨ d.activeLink links = .gprs then Transport.gprs
    else .wifi) = transport
  by_cases h : transport = d.transport
  · exact ⟨_, _, _, [], by rw [if_pos h, List.append_nil], .inl ⟨rfl, rfl, rfl⟩, .nil _⟩
  · exact ⟨_, _, _, _, if_neg h, .inr ⟨rfl, rfl⟩, .single (List.mem_singleton_self _)⟩

theorem gsmClockStep_eq (d : Impl) (now : UInt32) (gsmUp : Bool) (modem : ModemTime) :
    ∃ clock lastGsmClockMs, d.gsmClockStep now gsmUp modem = { d with clock, lastGsmClockMs } := by
  unfold gsmClockStep
  split
  · exact ⟨_, _, rfl⟩
  split
  · exact ⟨_, _, rfl⟩
  dsimp only
  split <;> exact ⟨_, _, rfl⟩

theorem prepare_eq (d : Impl) (i : Pass) :
    ∃ clock lastGsmClockMs transport sessions mqttStarted es, d.prepare i =
        { d with
          clock, lastGsmClockMs, transport, sessions, mqttStarted
          emitted := d.emitted ++ es } ∧
      Rebound d transport sessions mqttStarted ∧ Only [.session] es := by
  unfold prepare
  dsimp only
  split
  · obtain ⟨transport, sessions, started, es, heq, hbound, hes⟩ :=
      bindTransports_eq { d with clock := d.clock.tick i.now i.tick } i.bind
    exact ⟨_, _, _, _, _, es, heq, hbound, hes⟩
  · obtain ⟨clock, last, hclock⟩ :=
      gsmClockStep_eq { d with clock := d.clock.tick i.now i.tick } i.now i.gsmUp i.modem
    rw [hclock]
    obtain ⟨transport, sessions, started, es, heq, hbound, hes⟩ :=
      bindTransports_eq { d with clock, lastGsmClockMs := last } i.bind
    exact ⟨_, _, _, _, _, es, heq, hbound, hes⟩

/-- The session is as it was in `d`, or it was ended for a download. -/
def Hung (d : Impl) (sessions : Transport → Bool) (mqttStarted wasConnected paused : Bool) : Prop :=
  (sessions = d.sessions ∧ mqttStarted = d.mqttStarted ∧ wasConnected = d.wasConnected ∧
      paused = d.mqttPausedForOta) ∨
    sessions = Function.update d.sessions d.transport false ∧ mqttStarted = false ∧
      wasConnected = false ∧ paused = true

theorem Hung.refl (d : Impl) :
    Hung d d.sessions d.mqttStarted d.wasConnected d.mqttPausedForOta :=
  .inl ⟨rfl, rfl, rfl, rfl⟩

/-- It brings no session up. -/
theorem Hung.down {d : Impl} {sessions : Transport → Bool} {mqttStarted wasConnected paused : Bool}
    (h : Hung d sessions mqttStarted wasConnected paused) (hdown : d.wasConnected = false) :
    wasConnected = false := by
  rcases h with ⟨-, -, hsame, -⟩ | ⟨-, -, hended, -⟩
  · exact hsame.trans hdown
  · exact hended

theorem pauseMqttForOta_eq (d : Impl) :
    ∃ sessions mqttStarted wasConnected paused es, d.pauseMqttForOta =
        { d with
          sessions, mqttStarted, wasConnected, mqttPausedForOta := paused
          emitted := d.emitted ++ es } ∧
      Only [.session] es ∧ Hung d sessions mqttStarted wasConnected paused := by
  unfold pauseMqttForOta
  split
  · exact ⟨_, _, _, _, [], by rw [List.append_nil], .nil _, .refl d⟩
  · exact ⟨_, _, _, _, _, rfl, .single (List.mem_singleton_self _), .inr ⟨rfl, rfl, rfl, rfl⟩⟩

theorem failOta_eq (d : Impl) (reason : AbortReason) :
    ∃ mqttBackoff nvs es, d.failOta reason =
        { d with
          mqttPausedForOta := false, mqttBackoff
          ota := d.ota.abort, hasOrder := false, state := .operation
          otaState := .failed, abortReason := reason, nvs
          emitted := d.emitted ++ es } ∧
      Touches [.otaState, .abortReason] d.nvs nvs ∧ Only [.ota, .download] es := by
  have hresume : ∃ mqttBackoff, d.resumeMqttAfterOta =
      { d with mqttPausedForOta := false, mqttBackoff } := by
    unfold resumeMqttAfterOta
    by_cases hpaused : d.mqttPausedForOta = false
    · exact ⟨d.mqttBackoff, by rw [if_pos (by simp [hpaused]), ← hpaused]⟩
    · exact ⟨_, if_neg (by simpa using hpaused)⟩
  obtain ⟨backoff, hresume⟩ := hresume
  unfold failOta
  rw [hresume]
  dsimp only [emit]
  obtain ⟨nvs, es, heq, hnvs, hes⟩ := setOtaState_eq
    { d with
      mqttPausedForOta := false, mqttBackoff := backoff, ota := d.ota.abort
      emitted := d.emitted ++ [.downloadEnded], hasOrder := false, state := .operation }
    .failed reason
  refine ⟨backoff, nvs, .downloadEnded :: es, ?_, hnvs, ?_⟩
  · rw [heq]
    simp only [List.append_assoc, List.singleton_append]
  · have hended : Only [.ota, .download] [.downloadEnded] := .single (by decide)
    exact hended.append (hes.mono (by decide))

/-! ## The steps -/

/-- What a new session is asked for. -/
def wanted (d : Impl) : List Effect :=
  .subscribed d.topics.update.text 1 :: .subscribed d.topics.config.text 1 ::
    d.subs.map fun sub => .subscribed sub.1.text sub.2

theorem wanted_only (d : Impl) : Only [.session] d.wanted := by
  intro effect hmem
  rcases List.mem_cons.mp hmem with rfl | hmem
  · exact List.mem_singleton_self _
  rcases List.mem_cons.mp hmem with rfl | hmem
  · exact List.mem_singleton_self _
  · obtain ⟨sub, -, rfl⟩ := List.mem_map.mp hmem
    exact List.mem_singleton_self _

theorem applySubscriptions_eq (d : Impl) :
    d.applySubscriptions = { d with emitted := d.emitted ++ d.wanted } := by
  have htable : ∀ (subs : List (Field maxTopicLen × UInt8)) (d : Impl),
      subs.foldl (fun d sub => d.emit (.subscribed sub.1.text sub.2)) d =
        { d with emitted := d.emitted ++ subs.map fun sub => .subscribed sub.1.text sub.2 } := by
    intro subs
    induction subs with
    | nil => exact fun d => by rw [List.map_nil, List.append_nil]; rfl
    | cons sub subs ih =>
        intro d
        rw [List.foldl_cons, ih]
        simp only [emit, List.map_cons, List.append_assoc, List.singleton_append]
  unfold applySubscriptions
  rw [htable]
  simp only [emit, wanted, List.append_assoc, List.cons_append, List.nil_append]

theorem noticeConnection_eq (d : Impl) (up : Bool) :
    ∃ wasConnected mqttBackoff es, d.noticeConnection up =
        { d with wasConnected, mqttBackoff, emitted := d.emitted ++ es } ∧ Only [.session] es := by
  unfold noticeConnection
  split
  · rw [applySubscriptions_eq]
    refine ⟨true, d.mqttBackoff.reset, d.wanted ++ [.connected], ?_,
      d.wanted_only.append (.single (List.mem_singleton_self _))⟩
    simp only [emit, wanted, List.append_assoc]
  split
  · exact ⟨_, _, _, rfl, .single (List.mem_singleton_self _)⟩
  · exact ⟨_, _, [], by rw [List.append_nil], .nil _⟩

/-- The session is as it was, or was opened on the client in use. -/
def Opened (d : Impl) (sessions : Transport → Bool) (mqttStarted : Bool) : Prop :=
  (sessions = d.sessions ∧ mqttStarted = d.mqttStarted) ∨
    sessions = Function.update d.sessions d.transport true ∧ mqttStarted = true

theorem openSession_eq (d : Impl) (now : UInt32) (begins : Bool) :
    ∃ mqttStarted sessions mqttBackoff es, d.openSession now begins =
        { d with mqttStarted, sessions, mqttBackoff, emitted := d.emitted ++ es } ∧
      Opened d sessions mqttStarted ∧ Only [.opening, .session] es := by
  unfold openSession
  split
  · rename_i host port user pass _ _ _ _
    dsimp only [emit]
    have hreserved : Only [.session]
        [.topicReserved d.topics.update.text, .topicReserved d.topics.config.text] := by
      intro effect hmem
      rcases List.mem_pair.mp hmem with rfl | rfl <;> exact List.mem_singleton_self _
    have hdirect : ∃ es, (if d.cfg.mqtt.dispatch = .async then
        { d with emitted := (d.emitted ++ [.topicReserved d.topics.update.text]) ++
            [.topicReserved d.topics.config.text] ++ [.directCallbackSet] }
      else
        { d with emitted := (d.emitted ++ [.topicReserved d.topics.update.text]) ++
            [.topicReserved d.topics.config.text] }) = { d with emitted := d.emitted ++ es } ∧
        Only [.session] es := by
      split
      · refine ⟨_, by simp only [List.append_assoc]; rfl, hreserved.append (.single ?_)⟩
        exact List.mem_singleton_self _
      · exact ⟨_, by simp only [List.append_assoc]; rfl, hreserved⟩
    obtain ⟨es, heq, hes⟩ := hdirect
    rw [heq]
    split
    · refine ⟨true, Function.update d.sessions d.transport true, d.mqttBackoff,
        es ++ [.sessionBegun d.transport (d.sessionSettings host port user pass)], ?_,
        .inr ⟨rfl, rfl⟩, (hes.mono (by decide)).append (.single List.mem_cons_self)⟩
      rw [← List.append_assoc]
    · exact ⟨_, _, _, es, rfl, .inl ⟨rfl, rfl⟩, hes.mono (by decide)⟩
  · exact ⟨_, _, _, [], by rw [List.append_nil], .inl ⟨rfl, rfl⟩, .nil _⟩

theorem mqttStep_eq (d : Impl) (now : UInt32) (i : MqttInput) :
    ∃ wasConnected mqttStarted sessions mqttBackoff es, d.mqttStep now i =
        { d with wasConnected, mqttStarted, sessions, mqttBackoff, emitted := d.emitted ++ es } ∧
      (sessions = d.sessions ∧ mqttStarted = d.mqttStarted ∨
        d.mqttStarted = false ∧ d.mqttPausedForOta = false ∧ Opened d sessions mqttStarted) ∧
      Only [.opening, .session] es := by
  unfold mqttStep
  split
  · exact ⟨_, _, _, _, [], by rw [List.append_nil], .inl ⟨rfl, rfl⟩, .nil _⟩
  split
  · exact ⟨_, _, _, _, [], by rw [List.append_nil], .inl ⟨rfl, rfl⟩, .nil _⟩
  rename_i hpaused
  obtain ⟨was, backoff, es, heq, hes⟩ := noticeConnection_eq d i.connected
  rw [heq]
  dsimp only
  split
  · exact ⟨_, _, _, _, es, rfl, .inl ⟨rfl, rfl⟩, hes.mono (by decide)⟩
  split
  · exact ⟨_, _, _, _, es, rfl, .inl ⟨rfl, rfl⟩, hes.mono (by decide)⟩
  split
  · exact ⟨_, _, _, _, es, rfl, .inl ⟨rfl, rfl⟩, hes.mono (by decide)⟩
  rename_i hready
  obtain ⟨started, sessions, backoff', es', heq', hopened, hes'⟩ := openSession_eq
    { d with wasConnected := was, mqttBackoff := backoff, emitted := d.emitted ++ es } now i.begins
  rw [heq']
  refine ⟨was, started, sessions, backoff', es ++ es', by rw [List.append_assoc], ?_,
    (hes.mono (by decide)).append hes'⟩
  have hstarted : d.mqttStarted = false := by
    cases h : d.mqttStarted with
    | false => rfl
    | true => exact absurd (by simp [h]) hready
  exact .inr ⟨hstarted, by simpa using hpaused, hopened⟩

/-- The keys that a message may make the device write. -/
def inboxKeys : List NvsKey := [.otaState, .abortReason, .configVersion, .apiBaseUrl]

/-- A configuration is passed over, or is newer than the one on record and applied. -/
theorem handleConfig_cases (d : Impl) (payload : CString) :
    (∃ nvs, handleConfig v d payload = { d with nvs } ∧ Touches [.configVersion] d.nvs nvs ∧
      (DeviceStore.configVersion nvs = DeviceStore.configVersion d.nvs ∨
        ∃ incoming, RemoteConfig.parse v.deserializeJson (some payload) d.remoteCfg =
            (.ok, incoming) ∧
          DeviceStore.configVersion d.nvs < incoming.configVersion ∧
          DeviceStore.configVersion nvs = incoming.configVersion)) ∨
    ∃ incoming nvs, RemoteConfig.parse v.deserializeJson (some payload) d.remoteCfg =
        (.ok, incoming) ∧
      DeviceStore.configVersion d.nvs < incoming.configVersion ∧
      handleConfig v d payload =
        { d with remoteCfg := incoming, nvs, emitted := d.emitted ++ [.configured incoming] } ∧
      Touches [.configVersion, .apiBaseUrl] d.nvs nvs ∧
      DeviceStore.configVersion nvs = incoming.configVersion := by
  unfold handleConfig
  split
  · rename_i incoming hparse
    have htouches : Touches [.configVersion] d.nvs
        (DeviceStore.applyConfigVersion d.nvs incoming.configVersion).2 := by
      intro key hkey
      exact DeviceStore.applyConfigVersion_entries d.nvs _ (by simpa using hkey)
    dsimp only
    rcases DeviceStore.applyConfigVersion_cases d.nvs incoming.configVersion with
      ⟨happlied, hnewer, hversion⟩ | ⟨hrefused, hversion⟩
    · rw [happlied, if_neg (by simp)]
      refine .inr ⟨incoming, ?_⟩
      unfold learnApi
      dsimp only
      split
      · exact ⟨_, hparse, hnewer, rfl, htouches.mono (by decide), hversion⟩
      · refine ⟨_, hparse, hnewer, rfl, (htouches.mono (by decide)).trans ?_, ?_⟩
        · exact fun key hkey => DeviceStore.setApiBaseUrl_entries _ _ fun h => hkey (by simp [h])
        · refine Eq.trans ?_ hversion
          unfold DeviceStore.configVersion
          rw [Nvs.getU32_congr (DeviceStore.setApiBaseUrl_entries _ _ (by decide))]
    · rw [hrefused, if_pos (by simp)]
      refine .inl ⟨_, rfl, htouches, hversion.imp id fun hmoved => ?_⟩
      exact ⟨incoming, hparse, hmoved⟩
  · exact .inl ⟨_, rfl, .refl _ _, .inl rfl⟩

theorem handleConfig_eq (d : Impl) (payload : CString) :
    ∃ remoteCfg nvs es, handleConfig v d payload =
        { d with remoteCfg, nvs, emitted := d.emitted ++ es } ∧
      Touches [.configVersion, .apiBaseUrl] d.nvs nvs ∧ Only [.config] es := by
  rcases handleConfig_cases v d payload with
    ⟨nvs, heq, hnvs, -⟩ | ⟨incoming, nvs, -, -, heq, hnvs, -⟩ <;> rw [heq]
  · exact ⟨_, _, [], by rw [List.append_nil], hnvs.mono (by decide), .nil _⟩
  · exact ⟨_, _, _, rfl, hnvs, .single (List.mem_singleton_self _)⟩

/-- An order is refused in one way or another, or taken. -/
theorem handleOrder_cases (d : Impl) (payload : CString) (allowed : Bool) :
    (∃ nvs otaState abortReason es, handleOrder v d payload allowed =
        { d with nvs, otaState, abortReason, emitted := d.emitted ++ es } ∧
      Touches [.otaState, .abortReason] d.nvs nvs ∧ Only [.ota] es) ∨
    ∃ order, parseOrder v payload = (.ok, order) ∧ d.judge order = .none ∧ allowed = true ∧
      handleOrder v d payload allowed =
        { d with order, hasOrder := true, state := .evaluatingOrder } := by
  have hset : ∀ next reason, ∃ nvs otaState abortReason es, d.setOtaState next reason =
      { d with nvs, otaState, abortReason, emitted := d.emitted ++ es } ∧
      Touches [.otaState, .abortReason] d.nvs nvs ∧ Only [.ota] es := by
    intro next reason
    obtain ⟨nvs, es, heq, hnvs, hes⟩ := setOtaState_eq d next reason
    exact ⟨nvs, _, _, es, heq, hnvs, hes⟩
  have hsame : ∃ nvs otaState abortReason es, d =
      { d with nvs, otaState, abortReason, emitted := d.emitted ++ es } ∧
      Touches [.otaState, .abortReason] d.nvs nvs ∧ Only [.ota] es :=
    ⟨_, _, _, [], by rw [List.append_nil], .refl _ _, .nil _⟩
  unfold handleOrder
  split
  · rename_i incoming hparse
    split
    · rename_i hjudge
      cases allowed with
      | true => exact .inr ⟨incoming, hparse, hjudge, rfl, rfl⟩
      | false => exact .inl (hset _ _)
    · exact .inl hsame
    · exact .inl hsame
    · exact .inl (hset _ _)
  · exact .inl hsame

/-- What a message leaves of the update: everything, or an order that was taken from it. -/
theorem ingest_cases (d : Impl) (m : Polled) :
    (∃ nvs otaState abortReason remoteCfg es, ingest v d m =
        { d with nvs, otaState, abortReason, remoteCfg, emitted := d.emitted ++ es } ∧
      Touches inboxKeys d.nvs nvs ∧ Only [.ota, .delivery, .config] es) ∨
    ∃ order, m.topic = d.topics.update.text ∧ m.allowed = true ∧
      parseOrder v (.ofBytes m.payload) = (.ok, order) ∧ d.judge order = .none ∧
      ingest v d m = { d with order, hasOrder := true, state := .evaluatingOrder } := by
  unfold ingest
  split
  · rename_i htopic
    rcases handleOrder_cases v d (.ofBytes m.payload) m.allowed with
      ⟨nvs, ota, reason, es, heq, hnvs, hes⟩ | ⟨order, hparse, hjudge, hallowed, heq⟩
    · refine .inl ⟨nvs, ota, reason, _, es, heq, hnvs.mono ?_, hes.mono ?_⟩
      · decide
      · decide
    · exact .inr ⟨order, htopic, hallowed, hparse, hjudge, heq⟩
  split
  · obtain ⟨remote, nvs, es, heq, hnvs, hes⟩ := handleConfig_eq v d (.ofBytes m.payload)
    refine .inl ⟨nvs, _, _, remote, es, heq, hnvs.mono ?_, hes.mono ?_⟩
    · decide
    · decide
  · refine .inl ⟨_, _, _, _, _, rfl, .refl _ _, .single ?_⟩
    exact List.mem_cons_of_mem _ List.mem_cons_self

/-- A message that is no order. -/
def orderless (m : Polled) : Prop := ∀ order, parseOrder v (.ofBytes m.payload) ≠ (.ok, order)

variable {v} in
/-- Such a message changes the configuration at most. -/
theorem ingest_orderless {m : Polled} (hm : orderless v m) (d : Impl) :
    ∃ remoteCfg nvs es, ingest v d m = { d with remoteCfg, nvs, emitted := d.emitted ++ es } ∧
      Touches [.configVersion, .apiBaseUrl] d.nvs nvs ∧ Only [.delivery, .config] es := by
  unfold ingest
  split
  · unfold handleOrder
    split
    · rename_i hparse
      exact absurd hparse (hm _)
    · exact ⟨_, _, [], by rw [List.append_nil], .refl _ _, .nil _⟩
  split
  · obtain ⟨remote, nvs, es, heq, hnvs, hes⟩ := handleConfig_eq v d (.ofBytes m.payload)
    exact ⟨remote, nvs, es, heq, hnvs, hes.mono (by decide)⟩
  · exact ⟨_, _, _, rfl, .refl _ _, .single List.mem_cons_self⟩

theorem pingStep_eq (d : Impl) (now : UInt32) (i : PingInput) :
    ∃ lastPingMs es, pingStep v d now i = { d with lastPingMs, emitted := d.emitted ++ es } ∧
      Only [.message] es := by
  unfold pingStep
  split
  · exact ⟨_, [], by rw [List.append_nil], .nil _⟩
  split
  · exact ⟨_, [], by rw [List.append_nil], .nil _⟩
  dsimp only
  split
  · exact ⟨_, _, rfl, .single (List.mem_singleton_self _)⟩
  · exact ⟨_, [], by rw [List.append_nil], .nil _⟩

/-! ## The calls -/

theorem subscribe_eq (d : Impl) (topic : CString) (qos : UInt8) (connected accepts : Bool) :
    ∃ subs es, (d.subscribe topic qos connected accepts).2 =
        { d with subs, emitted := d.emitted ++ es } ∧ Only [.session] es := by
  have hremember : ∃ subs, d.remember topic qos = { d with subs } := by
    unfold remember
    split <;> exact ⟨_, rfl⟩
  obtain ⟨subs, hremember⟩ := hremember
  unfold subscribe
  split
  · exact ⟨_, [], by rw [List.append_nil], .nil _⟩
  rw [hremember]
  split
  · exact ⟨_, _, rfl, .single (List.mem_singleton_self _)⟩
  · exact ⟨_, [], by rw [List.append_nil], .nil _⟩

theorem publish_eq (d : Impl) (topic : CString) (payload : List UInt8) (qos : UInt8)
    (retain connected accepts : Bool) :
    ∃ mqttStatus es, (d.publish topic payload qos retain connected accepts).2 =
        { d with mqttStatus, emitted := d.emitted ++ es } ∧ Only [.message] es := by
  unfold publish
  split
  · exact ⟨_, [], by rw [List.append_nil], .nil _⟩
  split
  · exact ⟨_, [], by rw [List.append_nil], .nil _⟩
  · exact ⟨_, _, rfl, .single (List.mem_singleton_self _)⟩

end Impl

end FirmwareUpdater
