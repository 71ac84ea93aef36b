import FirmwareUpdater.Esp32.BootSafety
import FirmwareUpdater.Library.Run
import FirmwareUpdater.Updater.Steps

/-!
# Starting, passing and calling

`begin`, `loop` and the calls an application makes, and the device as a system that they
move. A restart, a power cut included, is a `boot`: of what was there only the flash is
left. A power cut inside a pass is a pass whose flash calls fail from some point on, with
a `boot` behind it.
-/

namespace FirmwareUpdater.Impl

open Library

variable (v : Vendor)

/-! ## `begin` -/

/-- What the platform answers to `begin`. -/
structure BootAnswers where
  flash : List Bool := []
  opening : NvsOpening := {}
  hw : Hardware.HardwareInfo := {}
  image : RunningImage := {}

/-- The part of `begin` on the board. -/
def probed (d : Impl) (hw : Hardware.HardwareInfo) : Impl :=
  { d with
    hw
    hardwareModel :=
      match d.cfg.hardwareModelOverride with
      | some model => .print maxModelLen_pos model
      | none => (Hardware.classify hw maxModelLen_pos).2
    boardId := .print (by decide) (Hardware.boardId hw.mac)
    mqttMaxPublishQos := d.transport.maxPublishQos }

/-- The part of `begin` on the values a remote configuration may change. -/
def seeded (d : Impl) : Impl :=
  { d with
    remoteCfg :=
      { d.remoteCfg with
        pingIntervalS := d.cfg.pingIntervalS
        otaButtonWindowS := d.cfg.ota.buttonWindowS
        mqttKeepaliveS := d.cfg.mqtt.keepaliveS
        allowOtaOnGprs := d.cfg.ota.allowOtaOnGprs } }

/-- The part of `begin` on the update that was pending. -/
def restored (d : Impl) (image : RunningImage) : Impl :=
  let d :=
    { d with
      otaState := DeviceStore.otaState d.nvs
      abortReason := DeviceStore.abortReason d.nvs }
  let pending := DeviceStore.hasPending d.nvs
  let d :=
    if image.check pending = .bypassed then
      { d with nvs := (DeviceStore.setRollbackGuardBypassed d.nvs true).2 }
    else d
  if pending ∧ image.pendingVerify then { d with state := .confirming, otaState := .confirming }
  else if pending then
    -- The image never came to run.
    { d with nvs := (DeviceStore.clearPending d.nvs).2, state := .operation }
  else { d with state := .operation }

/-- The part of `begin` on the device's name. -/
def identified (d : Impl) : Impl :=
  match DeviceStore.deviceId d.nvs with
  | none => { d with clientId := .print maxIdLen_pos d.boardId.text }
  | some id =>
      let topics := (d.topics.build d.cfg.topics (some id.text)).2
      { d with
        deviceId := id
        clientId := id
        topics :=
          match DeviceStore.topics d.nvs with
          | some (ping, update, config) =>
              topics.applyProvisioned
                { Provisioning.blank with
                  topicPing := ping, topicUpdate := update, topicConfig := config }
          | none => topics }

/-- The part of `begin` on the retries and the clock. -/
def scheduled (d : Impl) : Impl :=
  { d with
    clock := d.clock.begin
    provisionBackoff := d.provisionBackoff.configure (some Backoff.kProvisionDenied) 4
    transportBackoff := d.transportBackoff.configure (some Backoff.kNetwork) 5
    mqttBackoff := d.mqttBackoff.configure (some Backoff.kMqtt) 3
    confirmBackoff := d.confirmBackoff.configure (some Backoff.kConfirm) 5 }

/-- `begin`, over what the flash holds. A store that does not open is no error. -/
def begin (nvs : Nvs) (cfg : Config) (o : BootAnswers) : ConfigError × Impl :=
  let d : Impl := { cfg, nvs := { nvs with answers := o.flash } }
  if cfg.validate ≠ .ok then (cfg.validate, d)
  else
    let (opened, nvs) := d.nvs.begin o.opening
    if !opened then (.ok, { d with nvs })
    else
      let d := { d with nvs, storeOpen := true }
      (.ok, (((d.probed o.hw).seeded.restored o.image).identified).scheduled)

/-! ## `loop` -/

/-- What the world answers to a pass: what the flash answers to the writes, and the answers to each
step. -/
structure Pass where
  flash : List Bool := []
  now : UInt32
  tick : Int := 0
  gsmUp : Bool := false
  modem : ModemTime := {}
  bind : Links := {}
  confirm : ConfirmInput := {}
  provision : ProvisionInput := {}
  mqtt : MqttInput := {}
  inbox : List Polled := []
  ota : OtaInput
  ping : PingInput := {}

/-- The part of `loop` before the steps. -/
def prepare (d : Impl) (i : Pass) : Impl :=
  let d := { d with clock := d.clock.tick i.now i.tick }
  let d := if d.cfg.linkMode = .wifi then d else d.gsmClockStep i.now i.gsmUp i.modem
  d.bindTransports i.bind

/-- The steps of a device in operation. -/
def operate (d : Impl) (i : Pass) : Impl :=
  let d := otaStep v (ingestStep v (d.mqttStep i.now i.mqtt) i.inbox) i.now i.ota
  if d.restarting then d else pingStep v d i.now i.ping

/-- `loop`. -/
def loop (d : Impl) (i : Pass) : Impl :=
  if !d.storeOpen then d
  else
    let d := d.prepare i
    if d.state = .confirming then d.confirmStep i.now i.confirm
    else if !DeviceStore.isProvisioned d.nvs then provisionStep v d i.now i.provision
    else operate v d i

/-! ## Calls of the application -/

/-- `kMaxSubs`. -/
def kMaxSubs : Nat := 8

/-- The part of `subscribe` that remembers a topic, as far as its buffer holds it. -/
def remember (d : Impl) (topic : CString) (qos : UInt8) : Impl :=
  if kMaxSubs ≤ d.subs.length ∨ d.subs.any fun sub => sub.1.text = topic then d
  else { d with subs := d.subs ++ [(.print maxTopicLen_pos topic, qos)] }

/-- `subscribe`; `accepts` is what the client answers. -/
def subscribe (d : Impl) (topic : CString) (qos : UInt8) (connected accepts : Bool) : Bool × Impl :=
  if topic.byteAt 0 = 0 then (false, d)
  else
    let d := d.remember topic qos
    if connected then (accepts, d.emit (.subscribed topic qos)) else (true, d)

/-- `unsubscribe`: the first entry of that name goes, the client is not told. -/
def unsubscribe (d : Impl) (topic : CString) : Impl :=
  { d with subs := d.subs.eraseP fun sub => sub.1.text = topic }

/-- `publish`; `accepts` is what the client answers. -/
def publish (d : Impl) (topic : CString) (payload : List UInt8) (qos : UInt8)
    (retain connected accepts : Bool) : Bool × Impl :=
  if !connected then (false, { d with mqttStatus := .notConnected })
  else if payload.length > d.cfg.mqtt.bufferBytes.toNat then
    (false, { d with mqttStatus := .payloadTooLarge })
  else
    let lowered := qos > d.mqttMaxPublishQos
    let status := if lowered then MqttStatus.qosDowngraded else .ok
    let d := d.emit
      (.published topic payload (if lowered then d.mqttMaxPublishQos else qos) retain)
    (accepts, { d with mqttStatus := if !accepts ∧ status = .ok then .failed else status })

/-- `sleepBlock`. -/
def sleepBlock (d : Impl) : SleepBlock :=
  match d.state with
  | .provisioning => .provisioning
  | .awaitingButton => .awaitingButton
  | .downloading => .downloading
  | .verifying => .verifying
  | .applying => .applying
  | .confirming => .pendingConfirm
  | _ => .none

/-- `canSleep`. -/
def canSleep (d : Impl) : Bool := d.sleepBlock = .none

/-! ## The system -/

/-- What moves a device. -/
inductive Event where
  | boot (cfg : Config) (o : BootAnswers)
  | pass (i : Pass)
  | subscribe (topic : CString) (qos : UInt8) (connected accepts : Bool)
  | unsubscribe (topic : CString)
  | publish (topic : CString) (payload : List UInt8) (qos : UInt8) (retain connected accepts : Bool)
  | seedBootstrapUrl (url : Option CString) (flash : List Bool)
  | factoryReset (flash : List Bool)

/-- A device at the start of an event that the flash answers to with `flash`. -/
def facing (d : Impl) (flash : List Bool) : Impl :=
  { d with emitted := [], nvs := { d.nvs with answers := flash } }

/-- A call on the store, where there is one. -/
def onStore (d : Impl) (call : Nvs → Bool × Nvs) : Impl :=
  if d.storeOpen then { d with nvs := (call d.nvs).2 } else d

/-- An event on a device that runs. -/
def run (d : Impl) : Event → Impl
  | .boot cfg o => (begin d.nvs cfg o).2
  | .pass i => loop v (d.facing i.flash) i
  | .subscribe topic qos connected accepts =>
      ((d.facing []).subscribe topic qos connected accepts).2
  | .unsubscribe topic => (d.facing []).unsubscribe topic
  | .publish topic payload qos retain connected accepts =>
      ((d.facing []).publish topic payload qos retain connected accepts).2
  | .seedBootstrapUrl url flash =>
      (d.facing flash).onStore fun nvs => DeviceStore.seedBootstrapUrl nvs url
  | .factoryReset flash => (d.facing flash).onStore DeviceStore.factoryReset

/-- An event: nothing but a boot reaches a device that is restarting. -/
def exec (d : Impl) (e : Event) : Impl :=
  match e with
  | .boot cfg o => run v d (.boot cfg o)
  | e => if d.restarting then d.facing [] else run v d e

/-- The device as a transition system. -/
def Step (d : Impl) (e : Event) (d' : Impl) : Prop := d' = exec v d e

theorem exec_running {d : Impl} (h : d.restarting = false) (e : Event) :
    exec v d e = run v d e := by
  cases e with
  | boot => rfl
  | _ => exact if_neg (by simp [h])

theorem exec_restarting {d : Impl} (h : d.restarting = true) {e : Event}
    (he : ∀ cfg o, e ≠ .boot cfg o) : exec v d e = d.facing [] := by
  cases e with
  | boot cfg o => exact absurd rfl (he cfg o)
  | _ => exact if_pos h

/-- What was done before an event has no part in it. -/
theorem exec_forgets (d : Impl) (e : Event) : exec v { d with emitted := [] } e = exec v d e := by
  cases e <;> rfl

/-- The device behind some events. -/
def after (d : Impl) (events : List Event) : Impl := events.foldl (exec v) d

theorem run_after (d : Impl) (events : List Event) : Run (Step v) d events (after v d events) := by
  induction events generalizing d with
  | nil => exact .nil d
  | cons e events ih => exact .cons rfl (ih (exec v d e))

/-- It is the only one a run leads to. -/
theorem eq_after {d d' : Impl} {events : List Event} (hrun : Run (Step v) d events d') :
    d' = after v d events := by
  induction hrun with
  | nil => rfl
  | cons hstep _ ih =>
      rw [ih, hstep]
      rfl

theorem after_concat (d : Impl) (events : List Event) (e : Event) :
    after v d (events ++ [e]) = exec v (after v d events) e := by
  simp [after]

/-! ## A sample device -/

/-- The credentials that the sample's server grants. -/
def sampleGrant : JsonNode :=
  .object fun key =>
    match key with
    | "device_id" => .leaf (.string (ascii "d"))
    | "mqtt" =>
        .object fun key =>
          .leaf (match key with
            | "host" => .string (ascii "h")
            | "port" => .integer 1883
            | "username" => .string (ascii "u")
            | "password" => .string (ascii "p")
            | _ => .null)
    | "api_base_url" => .leaf (.string (ascii "http://h"))
    | _ => .leaf .null

/-- What it orders: an image of one byte. -/
def sampleOrder (id version : String) : JsonNode :=
  .object fun key =>
    .leaf (match key with
      | "update_id" => .string (ascii id)
      | "target_version" => .string (ascii version)
      | "url" => .string (ascii "http://h/i")
      | "size_bytes" => .integer 1
      | "sha256" =>
          .string (ascii "bceef655b5a034911f1c3718ce056531b45ef03b4c7b1f15629e867294011a7d")
      | _ => .null)

/-- The configuration it sends. -/
def sampleKnobs : JsonNode :=
  .object fun key =>
    .leaf (match key with
      | "config_version" => .integer 7
      | "ping_interval_s" => .integer 5
      | _ => .null)

/-- A parser that knows four texts, and a digest that tells the image. -/
def sampleVendor : Vendor where
  deserializeJson text :=
    if text = literal "grant" then some sampleGrant
    else if text = literal "order" then some (sampleOrder "u" "2")
    else if text = literal "next" then some (sampleOrder "w" "3")
    else if text = literal "knobs" then some sampleKnobs
    else none
  serializeJson _ := ascii "\x7b\x7d"
  sha256 := OtaSink.sampleSha256

/-- What is compiled into the sample. -/
def sampleConfig : Config := { firmwareVersion := some (literal "1"), repo := some (literal "r") }

/-- The sample's WiFi. -/
def sampleLinks : Links := { wifi := true, dns := true }

/-- A pass of the sample. -/
def samplePass (inbox : List Polled) (reads : List ChunkRead) : Pass where
  now := 1000
  mqtt := { link := sampleLinks, naming := sampleLinks }
  inbox
  ota :=
    { link := sampleLinks
      start := { sink := ⟨some ⟨4096⟩, some 1, true⟩ }
      reads
      finish := ⟨true, true, true⟩ }

/-- A message to the sample. -/
def sampleMessage (topic text : CString) (h : text.bytes.length < kOtaChunkBuffer) : Polled :=
  ⟨topic, text.bytes, h, true⟩

/-- The pass that gets it the credentials. -/
def sampleProvisioning : Pass :=
  { samplePass [] [] with
    provision :=
      { link := sampleLinks, naming := sampleLinks
        post := { status := 200, body := literal "grant" } } }

/-- The sample with its credentials. -/
def sampleReady : Impl := after sampleVendor {} [.boot sampleConfig {}, .pass sampleProvisioning]

/-- The message with its order. -/
def sampleOrdered : Polled :=
  sampleMessage (literal "/update/d") (literal "order") (by decide +kernel)

/-- The message with another one. -/
def sampleReordered : Polled :=
  sampleMessage (literal "/update/d") (literal "next") (by decide +kernel)

/-- The message with its configuration. -/
def sampleConfigured : Polled :=
  sampleMessage (literal "/config/d") (literal "knobs") (by decide +kernel)

/-- The start of the sample, up to the download. -/
def sampleStart : List Event :=
  [.boot sampleConfig {}, .pass sampleProvisioning, .pass (samplePass [sampleOrdered] [])]

/-- The image that its server sends. -/
def sampleReads : List ChunkRead :=
  [{ clock := 1000, result := .ok, bytes := [0xAA] }, { clock := 1001, result := .eof }]

/-- The rest of its update, up to the restart. -/
def sampleUpdate : List Event := [.pass (samplePass [] sampleReads), .pass (samplePass [] [])]

/-- The restart into the new image, on trial. -/
def sampleTrial : Event :=
  .boot sampleConfig { image := { isFactory := some false, state := some .pendingVerify } }

/-- A pass in which it asks its server and is refused. -/
def sampleQuestion (now : UInt32) : Pass :=
  { samplePass [] [] with now, confirm := { link := sampleLinks, post := { status := 500 } } }

/-- The pass that gets the image confirmed. -/
def sampleConfirmation : Pass :=
  { samplePass [] [] with confirm := { link := sampleLinks, post := { status := 200 } } }

end FirmwareUpdater.Impl
