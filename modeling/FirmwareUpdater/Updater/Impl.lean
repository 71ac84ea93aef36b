import FirmwareUpdater.Core.Backoff
import FirmwareUpdater.Core.Config
import FirmwareUpdater.Core.DeviceStore
import FirmwareUpdater.Core.HardwareModel
import FirmwareUpdater.Core.Json
import FirmwareUpdater.Core.Url
import FirmwareUpdater.Esp32.OtaSink
import FirmwareUpdater.Esp32.Platform
import FirmwareUpdater.Gprs.GsmMqttClient

/-!
# The state of the device

`FirmwareUpdater::Impl` and the helpers its steps share. The HTTP and MQTT clients, the
links, the clocks and the library functions answer from outside; what the device does to
them is the list `emitted`. The build is the one with `FWUP_ENABLE_GPRS`.
-/

namespace FirmwareUpdater

/-- The functions of the libraries the device calls. -/
structure Vendor where
  deserializeJson : CString → Option JsonNode
  serializeJson : JsonObject → List UInt8
  sha256 : List UInt8 → Digest

/-- The HTTP and the MQTT client of a link: `d.http` and `d.mqtt` always point to the pair of one
link. -/
inductive Transport where
  | wifi
  | gprs
  deriving DecidableEq, Repr

/-- `supportsTls` of the link's HTTP client. -/
def Transport.supportsTls : Transport → Bool
  | .wifi => true
  | .gprs => false

/-- `maxPublishQos` of the link's MQTT client. -/
def Transport.maxPublishQos : Transport → UInt8
  | .wifi => 1
  | .gprs => 0

/-- What one question about the links finds: `WiFi.status`, a DNS server of its own and
`GsmLink::up`. -/
structure Links where
  wifi : Bool := false
  dns : Bool := false
  gsm : Bool := false
  deriving DecidableEq

/-- `MqttStatus`. -/
inductive MqttStatus where
  | ok
  | notConnected
  | notProvisioned
  | topicRefused
  | payloadTooLarge
  | qosDowngraded
  | failed
  deriving DecidableEq, Repr

deriving instance DecidableEq for MqttSessionConfig

/-- `MqttSessionConfig`, but for the certificates. -/
structure SessionSettings extends MqttSessionConfig where
  keepaliveS : UInt16 := 60
  bufferBytes : UInt16 := 2048
  deriving DecidableEq

/-- What the device does to the world outside, its own flash apart. -/
inductive Effect where
  | otaChanged (before after : OtaState)
  | posted (url : CString) (body : List UInt8)
  | topicReserved (topic : CString)
  | directCallbackSet
  | sessionBegun (transport : Transport) (session : SessionSettings)
  | sessionEnded (transport : Transport)
  | subscribed (topic : CString) (qos : UInt8)
  | published (topic : CString) (payload : List UInt8) (qos : UInt8) (retain : Bool)
  | connected
  | disconnected
  | delivered (topic : CString) (payload : List UInt8)
  | configured (config : RemoteConfig)
  | downloadBegun (url : CString)
  | downloadEnded
  | bootPartitionSet
  | markedValid
  | markedInvalid
  | restarted
  deriving DecidableEq

/-- `FirmwareUpdater::Impl`. -/
structure Impl where
  cfg : Config := {}
  nvs : Nvs := {}
  /-- `store != nullptr`. -/
  storeOpen : Bool := false
  transport : Transport := .wifi
  /-- The clients whose session was begun and not ended. -/
  sessions : Transport → Bool := fun _ => false
  ota : OtaSink := {}
  /-- What the update partition took since it was opened last. -/
  slot : List UInt8 := []
  clock : ArduinoClock := {}
  topics : TopicResolver := {}
  hw : Hardware.HardwareInfo := {}
  mqttMaxPublishQos : UInt8 := 0
  state : DeviceState := .boot
  otaState : OtaState := .idle
  abortReason : AbortReason := .none
  boardId : Field 16 := ⟨.empty, Hardware.chip_pos⟩
  hardwareModel : Field maxModelLen := ⟨.empty, maxModelLen_pos⟩
  deviceId : Field maxIdLen := ⟨.empty, maxIdLen_pos⟩
  clientId : Field maxIdLen := ⟨.empty, maxIdLen_pos⟩
  order : UpdateOrder := {}
  hasOrder : Bool := false
  buttonDeadlineMs : UInt32 := 0
  lastProgressMs : UInt32 := 0
  remoteCfg : RemoteConfig := {}
  provisionBackoff : Backoff := {}
  transportBackoff : Backoff := {}
  warnedNoDns : Bool := false
  mqttBackoff : Backoff := {}
  confirmBackoff : Backoff := {}
  lastPingMs : UInt32 := 0
  lastGsmClockMs : UInt32 := 0
  mqttStarted : Bool := false
  mqttPausedForOta : Bool := false
  wasConnected : Bool := false
  mqttStatus : MqttStatus := .ok
  subs : List (Field maxTopicLen × UInt8) := []
  /-- `esp_restart` was called: nothing runs any more. -/
  restarting : Bool := false
  /-- What was done since the step began. -/
  emitted : List Effect := []

namespace Impl

/-- Do something to the world outside. -/
def emit (d : Impl) (effect : Effect) : Impl := { d with emitted := d.emitted ++ [effect] }

/-- `setOtaState`. -/
def setOtaState (d : Impl) (next : OtaState) (reason : AbortReason) : Impl :=
  if next = d.otaState ∧ reason = d.abortReason then d
  else
    emit
      { d with
        otaState := next
        abortReason := reason
        nvs := (DeviceStore.setOtaState d.nvs next reason).2 }
      (.otaChanged d.otaState next)

/-! ## Links -/

/-- `activeLink`. -/
def activeLink (d : Impl) (links : Links) : LinkType :=
  if d.cfg.linkMode ≠ .gprs ∧ links.wifi then .wifi
  else if d.cfg.linkMode ≠ .wifi ∧ links.gsm then .gprs
  else .none

/-- `linkUp`. -/
def linkUp (d : Impl) (links : Links) : Bool := d.activeLink links ≠ .none

/-- `nameResolutionReady`: only WiFi resolves names with a server of its own. -/
def nameResolutionReady (d : Impl) (links : Links) : Bool :=
  d.activeLink links ≠ .wifi || links.dns

/-- `end` of the active client. -/
def endSession (d : Impl) : Impl :=
  emit { d with sessions := Function.update d.sessions d.transport false }
    (.sessionEnded d.transport)

/-- `bindTransports`. -/
def bindTransports (d : Impl) (links : Links) : Impl :=
  let transport :=
    if d.cfg.linkMode = .gprs ∨ d.activeLink links = .gprs then Transport.gprs else .wifi
  if transport = d.transport then d else { d.endSession with mqttStarted := false, transport }

/-- `networkTime` of the modem: none where it has no time, or the civil time with its zone, and
whether `settimeofday` takes it. -/
structure ModemTime where
  time : Option (Iso8601.Civil × Int8) := none
  sets : Bool := true

/-- `gsmClockStep`. -/
def gsmClockStep (d : Impl) (now : UInt32) (gsmUp : Bool) (modem : ModemTime) : Impl :=
  if d.clock.source ≠ .none ∨ !gsmUp then d
  else if d.lastGsmClockMs ≠ 0 ∧ now - d.lastGsmClockMs < 10000 then d
  else
    let d := { d with lastGsmClockMs := now }
    match modem.time with
    | none => d
    | some (civil, quarters) =>
        { d with
          clock := (d.clock.acceptExternalUtc (Iso8601.fromGsmLocal civil quarters) .gsm
            modem.sets).2 }

/-! ## The API -/

/-- `apiBase`: what provisioning left, or else the bootstrap address. -/
def apiBase (d : Impl) : Option (Field 128) :=
  match DeviceStore.apiBaseUrl d.nvs 128 with
  | some url => some url
  | none =>
      DeviceStore.bootstrapUrl d.nvs 128
        (some (if d.cfg.linkMode = .gprs then d.cfg.endpoints.apiBaseUrlGprs
          else d.cfg.endpoints.apiBaseUrl))

/-- What the firmware is called: as confirmed last, or as compiled in. -/
def currentVersion (d : Impl) : Field maxVersionLen :=
  (DeviceStore.firmwareVersion d.nvs).getD (.print maxVersionLen_pos d.cfg.version)

@[inherit_doc currentVersion]
def currentRepo (d : Impl) : Field maxRepoLen :=
  (DeviceStore.firmwareRepo d.nvs).getD (.print maxRepoLen_pos d.cfg.repoName)

/-! ## The session and the download -/

/-- `pauseMqttForOta`. -/
def pauseMqttForOta (d : Impl) : Impl :=
  if !d.cfg.ota.pauseMqttDuringDownload || !d.mqttStarted then d
  else { d.endSession with mqttStarted := false, wasConnected := false, mqttPausedForOta := true }

/-- `resumeMqttAfterOta`. -/
def resumeMqttAfterOta (d : Impl) : Impl :=
  if !d.mqttPausedForOta then d
  else { d with mqttPausedForOta := false, mqttBackoff := d.mqttBackoff.reset }

/-- `failOta`. -/
def failOta (d : Impl) (reason : AbortReason) : Impl :=
  let d := d.resumeMqttAfterOta
  let d := emit { d with ota := d.ota.abort } .downloadEnded
  setOtaState { d with hasOrder := false, state := .operation } .failed reason

end Impl

end FirmwareUpdater
