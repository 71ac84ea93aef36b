import FirmwareUpdater.Updater.Trial

/-!
# What an application asks of the broker

`subscribe` remembers its topic in a table, which `mqttStep` hands over whenever it finds a session
up after it found none: a session that is lost, and one that is given up for a download, take
nothing out of it.
`publish` lowers a quality of service to what the client takes, but `begin` has asked the client of
WiFi for that, and nothing asks again when the link changes. The modem's client takes less.
-/

namespace FirmwareUpdater.Impl

open Library

variable (v : Vendor)

/-! ## A pass leaves both alone -/

/-- The table and the limit are those of `start`. -/
def SetUp (start d : Impl) : Prop :=
  d.subs = start.subs ∧ d.mqttMaxPublishQos = start.mqttMaxPublishQos

theorem setUp_kept (start : Impl) : Passwise v (fun _ => True) (SetUp start) where
  prepare d i _ _ h := by
    obtain ⟨_, _, _, _, _, _, heq, -⟩ := prepare_eq d i
    rw [heq]
    exact h
  confirm d i _ _ _ h := by
    have hrest := (confirm_rest (confirmStep_move d i.now i.confirm)).1
    exact ⟨hrest.subs.trans h.1, hrest.mqttMaxPublishQos.trans h.2⟩
  provision d i _ _ _ _ h := by
    have hrest := provision_rest (provisionStep_move v d i.now i.provision)
    exact ⟨hrest.subs.trans h.1, hrest.mqttMaxPublishQos.trans h.2⟩
  mqtt d i _ _ _ h := by
    obtain ⟨_, _, _, _, _, heq, -⟩ := mqttStep_eq d i.now i.mqtt
    rw [heq]
    exact h
  ingest d i m _ _ _ _ h := by
    rcases ingest_cases v d m with
      ⟨_, _, _, _, _, heq, -⟩ | ⟨_, -, -, -, -, heq⟩ <;> rw [heq] <;> exact h
  ota d i _ _ _ h := by
    have hrest := (ota_rest (otaStep_move v d i.now i.ota)).1
    exact ⟨hrest.subs.trans h.1, hrest.mqttMaxPublishQos.trans h.2⟩
  ping d i _ h := by
    obtain ⟨_, _, heq, -⟩ := pingStep_eq v d i.now i.ping
    rw [heq]
    exact h

/-- Nothing but a call of the application changes them. -/
theorem exec_setUp (d : Impl) {e : Event} (hon : poweredOn e)
    (hsubscribe : ∀ topic qos connected accepts, e ≠ .subscribe topic qos connected accepts)
    (hunsubscribe : ∀ topic, e ≠ .unsubscribe topic) : SetUp d (exec v d e) := by
  by_cases hrestarting : d.restarting = true
  · rw [exec_restarting v hrestarting fun cfg o he => by rw [he] at hon; exact hon]
    exact ⟨rfl, rfl⟩
  have hrunning : d.restarting = false := by simpa using hrestarting
  have hstore : ∀ (d : Impl) (call : Nvs → Bool × Nvs), SetUp d (d.onStore call) := by
    intro d call
    obtain ⟨_, heq⟩ := onStore_eq d call
    rw [heq]
    exact ⟨rfl, rfl⟩
  rw [exec_running v hrunning]
  cases e with
  | boot cfg o => exact absurd hon id
  | pass i => exact (setUp_kept v d).loop trivial (facing_fresh hrunning i.flash) ⟨rfl, rfl⟩
  | subscribe topic qos connected accepts => exact absurd rfl (hsubscribe _ _ _ _)
  | unsubscribe topic => exact absurd rfl (hunsubscribe _)
  | publish topic payload qos retain connected accepts =>
      obtain ⟨_, _, heq, -⟩ := publish_eq (d.facing []) topic payload qos retain connected accepts
      show SetUp d ((d.facing []).publish topic payload qos retain connected accepts).2
      rw [heq]
      exact ⟨rfl, rfl⟩
  | seedBootstrapUrl url flash => exact hstore (d.facing flash) _
  | factoryReset flash => exact hstore (d.facing flash) _

/-! ## Subscriptions -/

/-- `subscribe` on a device that runs. -/
theorem exec_subscribe {d : Impl} (hrunning : d.restarting = false) {topic : CString}
    (hname : topic.byteAt 0 ≠ 0) (qos : UInt8) (connected accepts : Bool) :
    (exec v d (.subscribe topic qos connected accepts)).subs = (d.remember topic qos).subs := by
  have hfacing : ((d.facing []).remember topic qos).subs = (d.remember topic qos).subs := by
    unfold remember
    show (if kMaxSubs ≤ d.subs.length ∨ d.subs.any (fun sub => sub.1.text = topic) then
      d.facing [] else _ : Impl).subs = _
    split <;> rfl
  rw [exec_running v hrunning, ← hfacing]
  show ((d.facing []).subscribe topic qos connected accepts).2.subs = _
  unfold subscribe
  rw [if_neg hname]
  dsimp only
  split <;> rfl

theorem mem_remember {d : Impl} {sub : Field maxTopicLen × UInt8} (h : sub ∈ d.subs)
    (topic : CString) (qos : UInt8) : sub ∈ (d.remember topic qos).subs := by
  unfold remember
  split
  · exact h
  · exact List.mem_append_left _ h

/-- The power is on, and the topic is not given up. -/
def keepsTopic (topic : CString) : Event → Prop
  | .boot _ _ => False
  | .unsubscribe other => other ≠ topic
  | _ => True

/-- An entry stays through every such event. -/
theorem mem_subs_step {d : Impl} {e : Event} {sub : Field maxTopicLen × UInt8}
    (he : keepsTopic sub.1.text e) (h : sub ∈ d.subs) : sub ∈ (exec v d e).subs := by
  have hon : poweredOn e := by
    cases e with
    | boot => exact he
    | _ => trivial
  by_cases hrestarting : d.restarting = true
  · rw [exec_restarting v hrestarting fun cfg o heq => by rw [heq] at he; exact he]
    exact h
  have hrunning : d.restarting = false := by simpa using hrestarting
  cases e with
  | subscribe topic qos connected accepts =>
      by_cases hname : topic.byteAt 0 = 0
      · rw [exec_running v hrunning]
        show sub ∈ ((d.facing []).subscribe topic qos connected accepts).2.subs
        unfold subscribe
        rw [if_pos hname]
        exact h
      · rw [exec_subscribe v hrunning hname]
        exact mem_remember h topic qos
  | unsubscribe other =>
      rw [exec_running v hrunning]
      show sub ∈ d.subs.eraseP fun sub => sub.1.text = other
      exact (List.mem_eraseP_of_neg (by simpa using Ne.symm he)).mpr h
  | _ =>
      rw [(exec_setUp v d hon (fun _ _ _ _ heq => nomatch heq) fun _ heq => nomatch heq).1]
      exact h

/-- What was done in a pass stays done. -/
theorem done_kept (effect : Effect) : Passwise v (fun _ => True) (fun d => effect ∈ d.emitted) where
  prepare d i _ _ h := by
    obtain ⟨_, _, _, _, _, _, heq, -⟩ := prepare_eq d i
    rw [heq]
    exact List.mem_append_left _ h
  confirm d i _ _ _ h := by
    obtain ⟨_, heq, -⟩ := confirm_emits (confirmStep_move d i.now i.confirm)
    rw [heq]
    exact List.mem_append_left _ h
  provision d i _ _ _ _ h := by
    obtain ⟨_, heq, -⟩ := provision_emits (provisionStep_move v d i.now i.provision)
    rw [heq]
    exact List.mem_append_left _ h
  mqtt d i _ _ _ h := by
    obtain ⟨_, _, _, _, _, heq, -⟩ := mqttStep_eq d i.now i.mqtt
    rw [heq]
    exact List.mem_append_left _ h
  ingest d i m _ _ _ _ h := by
    rcases ingest_cases v d m with
      ⟨_, _, _, _, _, heq, -⟩ | ⟨_, -, -, -, -, heq⟩ <;> rw [heq]
    · exact List.mem_append_left _ h
    · exact h
  ota d i _ _ _ h := by
    obtain ⟨_, heq, -⟩ := ota_emits (otaStep_move v d i.now i.ota)
    rw [heq]
    exact List.mem_append_left _ h
  ping d i _ h := by
    obtain ⟨_, _, heq, -⟩ := pingStep_eq v d i.now i.ping
    rw [heq]
    exact List.mem_append_left _ h

/-! ## Finding a session up, and finding none -/

/-- A device whose passes look whether a session is up. -/
structure Looks (d : Impl) : Prop extends Operating d where
  ready : d.topics.ready = true
  unpaused : d.mqttPausedForOta = false

instance (d : Impl) : Decidable (Looks d) :=
  decidable_of_iff (Operating d ∧ d.topics.ready = true ∧ d.mqttPausedForOta = false)
    ⟨fun ⟨hoperating, hready, hunpaused⟩ => ⟨hoperating, hready, hunpaused⟩,
      fun h => ⟨h.toOperating, h.ready, h.unpaused⟩⟩

/-- A pass that finds a new session asks it for everything in the table. -/
theorem table_handed_over {d : Impl} (hlooks : Looks d) (hwas : d.wasConnected = false) {i : Pass}
    (hconnected : i.mqtt.connected = true) {effect : Effect} (hwanted : effect ∈ d.wanted) :
    effect ∈ (exec v d (.pass i)).emitted := by
  obtain ⟨_, _, _, _, _, es, heq, -⟩ := prepare_eq (d.facing i.flash) i
  have hnoticed : effect ∈ (((d.facing i.flash).prepare i).mqttStep i.now i.mqtt).emitted := by
    have hprovisioned : DeviceStore.isProvisioned (d.facing i.flash).nvs = true :=
      hlooks.provisioned
    rw [heq]
    unfold mqttStep
    rw [if_neg (by rw [hprovisioned]; simp [facing, hlooks.ready]),
      if_neg (by simp [facing, hlooks.unpaused])]
    dsimp only
    rw [if_pos (by simp [hconnected]), hconnected]
    unfold noticeConnection
    rw [if_pos (by simp [facing, hwas]), applySubscriptions_eq]
    exact List.mem_append_left _ (List.mem_append_right _ hwanted)
  exact (done_kept v effect).operated hlooks.toOperating trivial hnoticed

/-- A step that finds no session up. -/
theorem mqttStep_down {d : Impl} {now : UInt32} {i : MqttInput} (hdown : i.connected = false)
    (hknown : d.wasConnected = true → DeviceStore.isProvisioned d.nvs = true ∧
      d.topics.ready = true ∧ d.mqttPausedForOta = false) :
    (d.mqttStep now i).wasConnected = false := by
  have hnoticed : (d.noticeConnection false).wasConnected = false := by
    unfold noticeConnection
    cases hwas : d.wasConnected <;> simp [hwas, emit]
  have hunknown : ¬(DeviceStore.isProvisioned d.nvs = true ∧ d.topics.ready = true ∧
      d.mqttPausedForOta = false) → d.wasConnected = false :=
    fun hnot => Bool.eq_false_iff.mpr fun hwas => hnot (hknown hwas)
  unfold mqttStep
  split
  · rename_i hunready
    refine hunknown fun hlooks => ?_
    simp [hlooks.1, hlooks.2.1] at hunready
  split
  · rename_i hpaused
    exact hunknown fun hlooks => absurd (hlooks.2.2.symm.trans hpaused) (by decide)
  rw [hdown]
  dsimp only
  split
  · exact hnoticed
  split
  · exact hnoticed
  split
  · exact hnoticed
  · obtain ⟨_, _, _, _, heq, -⟩ := openSession_eq (d.noticeConnection false) now i.begins
    rw [heq]
    exact hnoticed

/-- No session is found up. -/
def findsNone : Event → Prop
  | .pass i => i.mqtt.connected = false
  | _ => True

/-- The device knows of no session until it finds one. -/
theorem down_kept : Stepwise v findsNone (fun d => d.wasConnected = false) where
  facing d flash h := h
  boot d cfg o _ _ := by
    have hmove := begin_move d.nvs cfg o
    generalize (begin d.nvs cfg o).2 = d' at hmove ⊢
    cases hmove <;> rfl
  prepare d i _ _ h := by
    obtain ⟨_, _, _, _, _, _, heq, -⟩ := prepare_eq d i
    rw [heq]
    exact h
  confirm d i _ _ _ h := by
    have hmove := confirmStep_move d i.now i.confirm
    generalize d.confirmStep i.now i.confirm = d' at hmove ⊢
    cases hmove <;> exact h
  provision d i _ _ _ _ h := by
    have hmove := provisionStep_move v d i.now i.provision
    generalize provisionStep v d i.now i.provision = d' at hmove ⊢
    cases hmove <;> exact h
  mqtt d i hok _ _ h := mqttStep_down hok fun hwas => absurd (h.symm.trans hwas) (by decide)
  ingest d i m _ _ _ _ h := by
    rcases ingest_cases v d m with
      ⟨_, _, _, _, _, heq, -⟩ | ⟨_, -, -, -, -, heq⟩ <;> rw [heq] <;> exact h
  ota d i _ _ _ h := ota_down (otaStep_move v d i.now i.ota) h
  ping d i _ h := by
    obtain ⟨_, _, heq, -⟩ := pingStep_eq v d i.now i.ping
    rw [heq]
    exact h
  subscribe d topic qos connected accepts h := by
    obtain ⟨_, _, heq, -⟩ := subscribe_eq d topic qos connected accepts
    rw [heq]
    exact h
  unsubscribe d topic h := h
  publish d topic payload qos retain connected accepts h := by
    obtain ⟨_, _, heq, -⟩ := publish_eq d topic payload qos retain connected accepts
    rw [heq]
    exact h
  seed d nvs _ h := h
  reset d flash _ h := h

/-- A pass that looks and finds none. -/
theorem exec_down {d : Impl} (hlooks : Looks d) {i : Pass} (hdown : i.mqtt.connected = false) :
    (exec v d (.pass i)).wasConnected = false := by
  have hpasses := (down_kept v).toPasswise
  refine hpasses.operated hlooks.toOperating hdown (mqttStep_down hdown fun _ => ?_)
  obtain ⟨_, _, _, _, _, _, heq, -⟩ := prepare_eq (d.facing i.flash) i
  rw [heq]
  exact ⟨hlooks.provisioned, hlooks.ready, hlooks.unpaused⟩

/-- A topic that was subscribed to with room in the table is asked for again, with the quality of
service that was asked for first, by the first pass that finds a session up after one that looked
and found none: however many sessions were lost or given up for a download, and whatever else was
done, until the application gives the topic up. A session that is replaced between two passes, as
by a request of the application's own over the modem, is not noticed. -/
theorem subscription_outlives_session {d lost d' : Impl} {topic : CString} {qos : UInt8}
    {connected accepts : Bool} {events since : List Event} {missed i : Pass}
    (hrunning : d.restarting = false) (hname : topic.byteAt 0 ≠ 0)
    (hfits : topic.length < maxTopicLen) (hroom : d.subs.length < kMaxSubs)
    (hnew : ∀ sub ∈ d.subs, sub.1.text ≠ topic)
    (hrun : Run (Step v) (exec v d (.subscribe topic qos connected accepts)) events lost)
    (hkeeps : ∀ e ∈ events, keepsTopic topic e) (hlost : Looks lost)
    (hmissed : missed.mqtt.connected = false)
    (hsince : Run (Step v) (exec v lost (.pass missed)) since d')
    (hdown : ∀ e ∈ since, keepsTopic topic e ∧ findsNone e) (hlooks : Looks d')
    (hconnected : i.mqtt.connected = true) :
    .subscribed topic qos ∈ (exec v d' (.pass i)).emitted := by
  have htext : (Field.print maxTopicLen_pos topic).text = topic := Field.text_print _ hfits
  have hentered : (Field.print maxTopicLen_pos topic, qos) ∈
      (exec v d (.subscribe topic qos connected accepts)).subs := by
    rw [exec_subscribe v hrunning hname]
    unfold remember
    rw [if_neg]
    · exact List.mem_append_right _ (List.mem_singleton_self _)
    · rintro (hfull | hknown)
      · omega
      · obtain ⟨sub, hsub, hsame⟩ := List.any_eq_true.mp hknown
        exact hnew sub hsub (by simpa using hsame)
  have hentry : (Field.print maxTopicLen_pos topic, qos) ∈ d'.subs := by
    refine (hrun.append (.cons rfl hsince)).invariant_on (keepsTopic topic)
      (fun d => (Field.print maxTopicLen_pos topic, qos) ∈ d.subs) ?_ ?_ hentered
    · intro start e finish he h hstep
      rw [hstep]
      exact mem_subs_step v (by rw [htext]; exact he) h
    · intro e he
      rcases List.mem_append.mp he with he | he
      · exact hkeeps e he
      rcases List.mem_cons.mp he with rfl | he
      · trivial
      · exact (hdown e he).1
  have hwas : d'.wasConnected = false :=
    (down_kept v).run hsince (fun e he => (hdown e he).2) (exec_down v hlost hmissed)
  refine table_handed_over v hlooks hwas hconnected ?_
  refine List.mem_cons_of_mem _ (List.mem_cons_of_mem _ (List.mem_map.mpr ⟨_, hentry, ?_⟩))
  rw [htext]

/-- A pass that finds a session. -/
def sampleReconnect : Pass := { samplePass [] [] with mqtt := { connected := true } }

/-- The sample device with a topic and a session. -/
def sampleSubscribed : Impl :=
  after sampleVendor sampleReady
    [.subscribe (literal "door") 1 false true, .pass sampleReconnect]

/-- It loses the session, and asks the next one for its topic again. -/
theorem subscription_outlives_session_sample :
    .subscribed (literal "door") 1 ∈ (exec sampleVendor
      (after sampleVendor (exec sampleVendor sampleSubscribed (.pass (samplePass [] [])))
        [.pass (samplePass [] [])]) (.pass sampleReconnect)).emitted := by
  have hrun : Run (Step sampleVendor)
      (exec sampleVendor sampleReady (.subscribe (literal "door") 1 false true))
      [.pass sampleReconnect] sampleSubscribed := run_after sampleVendor _ _
  exact subscription_outlives_session sampleVendor (by decide +kernel) (by decide)
    (by decide) (by decide +kernel) (by decide +kernel) hrun (by simp [keepsTopic])
    (by decide +kernel) rfl (run_after sampleVendor _ [.pass (samplePass [] [])])
    (by simp [keepsTopic, findsNone, samplePass]) (by decide +kernel) rfl

/-! ## Publications -/

/-- A power-on whose store has opened takes its limit from the client of WiFi. -/
theorem limit_kept {nvs : Nvs} {cfg : Config} {o : BootAnswers} (hcfg : cfg.validate = .ok)
    (hopens : (mounted nvs o).1 = true) {events : List Event} {d : Impl}
    (hrun : Run (Step v) (begin nvs cfg o).2 events d) (hevents : ∀ e ∈ events, poweredOn e) :
    d.mqttMaxPublishQos = Transport.wifi.maxPublishQos := by
  have hstart : (begin nvs cfg o).2.mqttMaxPublishQos = Transport.wifi.maxPublishQos := by
    have hmove := begin_move nvs cfg o
    generalize (begin nvs cfg o).2 = d at hmove ⊢
    cases hmove with
    | refused hrefused => exact absurd hcfg hrefused
    | unopened _ hunopened => exact absurd (hopens.symm.trans hunopened) (by decide)
    | booted => rfl
  refine hrun.invariant_on poweredOn
    (fun d => d.mqttMaxPublishQos = Transport.wifi.maxPublishQos) ?_ hevents hstart
  intro start e finish hon hlimit hstep
  have hcall : called e → (exec v start e).mqttMaxPublishQos = Transport.wifi.maxPublishQos := by
    intro he
    obtain ⟨_, _, _, _, heq⟩ := exec_call v start he
    rw [heq]
    exact hlimit
  rw [hstep]
  cases e with
  | boot cfg o => exact absurd hon id
  | pass i =>
      have hset : SetUp start (exec v start (.pass i)) :=
        exec_setUp v start trivial (fun _ _ _ _ heq => nomatch heq) fun _ heq => nomatch heq
      exact hset.2.trans hlimit
  | _ => exact hcall trivial

/-- A publication over a session that is up. -/
theorem publish_sent {d : Impl} {payload : List UInt8}
    (hfits : payload.length ≤ d.cfg.mqtt.bufferBytes.toNat) (topic : CString) (qos : UInt8)
    (retain accepts : Bool) :
    (d.publish topic payload qos retain true accepts).2 =
      { d with
        mqttStatus :=
          if d.mqttMaxPublishQos < qos then .qosDowngraded else if accepts then .ok else .failed
        emitted := d.emitted ++ [.published topic payload
          (if d.mqttMaxPublishQos < qos then d.mqttMaxPublishQos else qos) retain] } := by
  unfold publish
  rw [if_neg (by decide), if_neg (Nat.not_lt.mpr hfits)]
  by_cases hlowered : d.mqttMaxPublishQos < qos <;> cases accepts <;> simp [emit, hlowered]

/-- Over a whole power-on and on whatever link, a message goes out with the quality of service that
the client of WiFi takes. On the modem, whose client takes none, it is handed over with 1 all the
same, and its status does not tell. -/
theorem publish_asks_wifi {nvs : Nvs} {cfg : Config} {o : BootAnswers} {events : List Event}
    {d : Impl} (hcfg : cfg.validate = .ok) (hopens : (mounted nvs o).1 = true)
    (hrun : Run (Step v) (begin nvs cfg o).2 events d) (hevents : ∀ e ∈ events, poweredOn e)
    (hrunning : d.restarting = false) (topic : CString) {payload : List UInt8}
    (hfits : payload.length ≤ d.cfg.mqtt.bufferBytes.toNat) (qos : UInt8) (retain accepts : Bool) :
    (exec v d (.publish topic payload qos retain true accepts)).emitted =
        [.published topic payload (if 1 < qos then 1 else qos) retain] ∧
      (exec v d (.publish topic payload qos retain true accepts)).mqttStatus =
        (if 1 < qos then .qosDowngraded else if accepts then .ok else .failed) ∧
      (d.transport = .gprs → 0 < qos → d.transport.maxPublishQos < if 1 < qos then 1 else qos) := by
  have hlimit : d.mqttMaxPublishQos = 1 := limit_kept v hcfg hopens hrun hevents
  have hsent := publish_sent (d := d.facing []) hfits topic qos retain accepts
  rw [exec_running v hrunning]
  show ((d.facing []).publish topic payload qos retain true accepts).2.emitted = _ ∧
    ((d.facing []).publish topic payload qos retain true accepts).2.mqttStatus = _ ∧ _
  rw [hsent]
  refine ⟨?_, ?_, fun hmodem hqos => ?_⟩
  · simp [facing, hlimit]
  · simp [facing, hlimit]
  · rw [hmodem]
    split
    · exact (by decide : (0 : UInt8) < 1)
    · exact hqos

/-- The sample device with a modem, and without WiFi. -/
def sampleModem : Impl :=
  after sampleVendor (begin {}
      { sampleConfig with
        linkMode := .both
        gprs := { apn := some (literal "net"), pinTx := 1, pinRx := 2 } } {}).2
    [.pass { samplePass [] [] with bind := { gsm := true } }]

/-- Its modem is handed a message with 1. -/
theorem publish_asks_wifi_sample :
    sampleModem.transport = .gprs ∧
      (exec sampleVendor sampleModem (.publish (literal "door") [1] 1 false true true)).emitted =
        [.published (literal "door") [1] 1 false] := by
  have hrun : Run (Step sampleVendor) (begin {} _ {}).2 _ sampleModem := run_after sampleVendor _ _
  have hfits : [(1 : UInt8)].length ≤ sampleModem.cfg.mqtt.bufferBytes.toNat := by decide +kernel
  have hsent := publish_asks_wifi sampleVendor (by decide) (by decide) hrun
    (by simp [poweredOn]) (by decide +kernel) (literal "door") hfits 1 false true
  exact ⟨by decide +kernel, hsent.1⟩

end FirmwareUpdater.Impl
