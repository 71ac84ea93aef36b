import FirmwareUpdater.Core.OrderCodec
import FirmwareUpdater.Core.PingBuilder
import FirmwareUpdater.Core.ProvisioningCodec
import FirmwareUpdater.Core.RemoteConfigCodec
import FirmwareUpdater.Updater.Impl

/-!
# The steps of a pass

The step functions of `FirmwareUpdater.cpp`: provisioning, the MQTT session, the inbox,
the update and its confirmation, the ping. What the world answers to a step comes in a
record of its own, one field for each question.
-/

namespace FirmwareUpdater.Impl

variable (v : Vendor)

/-! ## Provisioning -/

/-- What `postJson` brings back; `body` is what the scratch buffer reads as. -/
structure PostAnswer where
  error : HttpError := .ok
  status : Int := 0
  body : CString := .empty

/-- What a provisioning step is told. -/
structure ProvisionInput where
  link : Links := {}
  naming : Links := {}
  post : PostAnswer := {}

/-- The part of `provisionStep` behind a grant that was stored. -/
def provisioned (d : Impl) (p : Provisioning) : Impl :=
  { d with
    deviceId := p.deviceId
    clientId := p.deviceId
    topics := (d.topics.build d.cfg.topics (some p.deviceId.text)).2.applyProvisioned p
    provisionBackoff := d.provisionBackoff.reset
    state := .operation }

/-- The part of `provisionStep` behind the request. -/
def provisionAnswered (d : Impl) (now : UInt32) (post : PostAnswer) : Impl :=
  if post.error ≠ .ok then { d with transportBackoff := d.transportBackoff.fail now }
  else
    let d := { d with transportBackoff := d.transportBackoff.reset }
    let denied := { d with provisionBackoff := d.provisionBackoff.fail now }
    if Provisioning.fromHttpStatus post.status ≠ .granted then denied
    else
      match Provisioning.parseResponse v.deserializeJson (some post.body) .blank with
      | (.ok, p) =>
          let (saved, nvs) := DeviceStore.saveProvisioning d.nvs p
          if !saved then { denied with nvs } else provisioned { d with nvs } p
      | _ => denied

/-- The body of the request. -/
def provisionRequest (d : Impl) : CodecError × List UInt8 :=
  Provisioning.buildRequest v.serializeJson
    { boardId := some d.boardId.text
      hardwareModel := some d.hardwareModel.text
      firmwareVersion := some d.cfg.version
      repo := some d.cfg.repoName
      rede := if d.cfg.linkMode = .gprs then .gprs else .wifi } 256

/-- `provisionStep`. -/
def provisionStep (d : Impl) (now : UInt32) (i : ProvisionInput) : Impl :=
  if !d.linkUp i.link then d
  else if !d.nameResolutionReady i.naming then { d with warnedNoDns := true }
  else
    let d := { d with warnedNoDns := false }
    if !d.provisionBackoff.ready now || !d.transportBackoff.ready now then d
    else
      match d.apiBase with
      | none => d
      | some base =>
          match Url.join base.text d.cfg.endpoints.pathProvisioning maxUrlLen with
          | none => d
          | some url =>
              match provisionRequest v d with
              | (.ok, body) =>
                  provisionAnswered v
                    (emit { d with state := .provisioning } (.posted url.text body)) now i.post
              | _ => d

/-! ## The MQTT session -/

/-- `applySubscriptions`. -/
def applySubscriptions (d : Impl) : Impl :=
  d.subs.foldl (fun d sub => d.emit (.subscribed sub.1.text sub.2))
    ((d.emit (.subscribed d.topics.update.text 1)).emit (.subscribed d.topics.config.text 1))

/-- What a step of the session is told; `begins` is the outcome of `begin`. -/
structure MqttInput where
  connected : Bool := false
  link : Links := {}
  naming : Links := {}
  begins : Bool := true

/-- The part of `mqttStep` that notices a change of the connection. -/
def noticeConnection (d : Impl) (up : Bool) : Impl :=
  if up && !d.wasConnected then
    let d := applySubscriptions { d with wasConnected := true }
    emit { d with mqttBackoff := d.mqttBackoff.reset } .connected
  else if !up && d.wasConnected then emit { d with wasConnected := false } .disconnected
  else d

/-- The session `mqttStep` asks for. -/
def sessionSettings (d : Impl) (host : Field 64) (port : UInt16) (user : Field 48)
    (pass : Field 64) : SessionSettings :=
  let tls := port = 8883
  let forced := d.cfg.mqtt.tlsMode = .forcePlain ∧ tls
  { host := some host.text
    port := if forced then d.cfg.mqtt.plainPort else port
    tls := if forced then false else if d.cfg.mqtt.tlsMode = .forceTls then true else tls
    username := some user.text
    password := some pass.text
    clientId := some d.clientId.text
    willTopic := some d.topics.ping.text
    willPayload := some PingBuilder.willPayload
    willQos := PingBuilder.willQos
    willRetain := PingBuilder.willRetain
    cleanSession := d.cfg.mqtt.cleanSession
    keepaliveS := d.remoteCfg.mqttKeepaliveS
    bufferBytes := d.cfg.mqtt.bufferBytes }

/-- The part of `mqttStep` that opens a session. -/
def openSession (d : Impl) (now : UInt32) (begins : Bool) : Impl :=
  match DeviceStore.mqttHost d.nvs 64, DeviceStore.mqttPort d.nvs, DeviceStore.mqttUser d.nvs 48,
      DeviceStore.mqttPass d.nvs 64 with
  | some host, some port, some user, some pass =>
      let session := d.sessionSettings host port user pass
      let d := (d.emit (.topicReserved d.topics.update.text)).emit
        (.topicReserved d.topics.config.text)
      let d := if d.cfg.mqtt.dispatch = .async then d.emit .directCallbackSet else d
      if begins then
        emit { d with mqttStarted := true, sessions := Function.update d.sessions d.transport true }
          (.sessionBegun d.transport session)
      else { d with mqttBackoff := d.mqttBackoff.fail now }
  | _, _, _, _ => d

/-- `mqttStep`. -/
def mqttStep (d : Impl) (now : UInt32) (i : MqttInput) : Impl :=
  if !DeviceStore.isProvisioned d.nvs || !d.topics.ready then d
  else if d.mqttPausedForOta then d
  else
    let d := d.noticeConnection i.connected
    if i.connected || !d.linkUp i.link then d
    else if !d.nameResolutionReady i.naming then d
    else if d.mqttStarted || !d.mqttBackoff.ready now then d
    else d.openSession now i.begins

/-! ## The inbox -/

/-- `kOtaChunkBuffer`. -/
def kOtaChunkBuffer : Nat := 1024

/-- A message that `poll` hands over, and what the application answers if it is asked about the
order in it. -/
structure Polled where
  topic : CString
  payload : List UInt8
  fits : payload.length < kOtaChunkBuffer
  allowed : Bool := true

/-- The part of `handleConfig` on the address of the API. -/
def learnApi (d : Impl) (url : CString) : Impl :=
  let current := ((DeviceStore.apiBaseUrl d.nvs maxUrlLen).map Field.text).getD .empty
  if url.byteAt 0 = 0 ∨ current = url then d
  else { d with nvs := (DeviceStore.setApiBaseUrl d.nvs url).2 }

/-- `handleConfig`. -/
def handleConfig (d : Impl) (payload : CString) : Impl :=
  match RemoteConfig.parse v.deserializeJson (some payload) d.remoteCfg with
  | (.ok, incoming) =>
      let (applied, nvs) := DeviceStore.applyConfigVersion d.nvs incoming.configVersion
      let d := { d with nvs }
      if !applied then d
      else (learnApi { d with remoteCfg := incoming } incoming.apiBaseUrl.text).emit
        (.configured incoming)
  | _ => d

/-- `order::parse` with the library's parser. -/
def parseOrder (payload : CString) : CodecError × UpdateOrder :=
  Order.parse (fun text => (v.deserializeJson text).map JsonNode.document) (some payload) {}

/-- What `handleOrder` makes of an order. -/
def judge (d : Impl) (order : UpdateOrder) : OrderRejection :=
  Order.validate order (some d.currentVersion.text) (some d.currentRepo.text) d.hw.otaSizeBytes
    (some (((DeviceStore.lastUpdateId d.nvs).map Field.text).getD .empty))
    d.cfg.ota.allowDowngrade

/-- The reason that is reported for a refused order. -/
def rejectionReason : OrderRejection → AbortReason
  | .tooLarge => .sizeMismatch
  | .downgrade => .downgrade
  | .wrongRepo => .serverReject
  | .noSha256 => .checksum
  | _ => .none

/-- `handleOrder`. -/
def handleOrder (d : Impl) (payload : CString) (allowed : Bool) : Impl :=
  match parseOrder v payload with
  | (.ok, incoming) =>
      match d.judge incoming with
      | .none =>
          if !allowed then d.setOtaState .failed .appVeto
          else { d with order := incoming, hasOrder := true, state := .evaluatingOrder }
      | .duplicate | .sameVersion => d
      | why => d.setOtaState .failed (rejectionReason why)
  | _ => d

/-- One message of `ingestStep`. -/
def ingest (d : Impl) (m : Polled) : Impl :=
  if m.topic = d.topics.update.text then handleOrder v d (.ofBytes m.payload) m.allowed
  else if m.topic = d.topics.config.text then handleConfig v d (.ofBytes m.payload)
  else d.emit (.delivered m.topic m.payload)

/-- `ingestStep`, with the messages that `poll` hands over. -/
def ingestStep (d : Impl) (messages : List Polled) : Impl := messages.foldl (ingest v) d

/-! ## The update -/

/-- `otaLinkReady`; it asks for the links a second time where WiFi is down and need not be up. -/
def otaLinkReady (d : Impl) (first second : Links) : Bool :=
  if d.cfg.ota.linkPolicy = .wifiOnly then first.wifi
  else if first.wifi then true
  else d.linkUp second && d.remoteCfg.allowOtaOnGprs

/-- `buttonPressed`, where `level` is the level of the pin. -/
def buttonPressed (d : Impl) (level : Bool) : Bool :=
  if d.cfg.button.buttonPin < 0 then false
  else if d.cfg.button.buttonActiveLow then !level else level

/-- What the sink and the server answer when a download starts. -/
structure StartAnswers where
  sink : OtaSink.BeginOutcome
  http : HttpError := .ok

/-- `startDownload`. -/
def startDownload (d : Impl) (now : UInt32) (o : StartAnswers) : Impl :=
  if !Url.fetchable (some d.order.url.text) d.transport.supportsTls then d.failOta .noWifi
  else
    let d := d.pauseMqttForOta
    let (error, ota) := d.ota.begin d.order.sizeBytes o.sink
    let d := { d with ota, slot := if error = OtaSinkError.ok then [] else d.slot }
    if error ≠ .ok then d.failOta .flash
    else
      let d := d.emit (.downloadBegun d.order.url.text)
      if o.http ≠ .ok then d.failOta .network
      else setOtaState { d with lastProgressMs := now, state := .downloading } .downloading .none

/-- One turn of the loop of `pumpDownload`: the clock at its test, what `readChunk` and the sink
answer, and the clock behind the write. -/
structure ChunkRead where
  clock : UInt32
  result : HttpError
  bytes : List UInt8 := []
  fits : bytes.length ≤ kOtaChunkBuffer := by decide
  write : OtaSink.WriteOutcome := ⟨true, true⟩
  after : UInt32 := 0

theorem chunk_sized (bytes : List UInt8) :
    ∀ data, some bytes = some data → data.length = bytes.length :=
  fun _ h => by rw [Option.some.inj h]

/-- The buffer of a chunk. -/
def chunk (bytes : List UInt8) : Buffer := ⟨some bytes, bytes.length, chunk_sized bytes⟩

/-- The bytes that the flash took. -/
def flashed (effects : List OtaSink.Effect) : List UInt8 :=
  effects.flatMap fun
    | .accepted bytes => bytes
    | .setBootPartition => []

/-- The end of the download. -/
def downloaded (d : Impl) : Impl :=
  setOtaState { d.emit .downloadEnded with state := .verifying } .verifying .none

/-- The loop of `pumpDownload`: whether the function has returned in it. The list is over when the
time is. -/
def pumpLoop (d : Impl) (deadline moved : UInt32) : List ChunkRead → Bool × Impl
  | [] => (false, d)
  | r :: reads =>
      if ¬(r.clock < deadline ∧ moved < d.cfg.ota.chunkBytes) then (false, d)
      else
        match r.result with
        | .eof => (true, d.downloaded)
        | .wouldBlock => (false, d)
        | .ok =>
            let (error, ota, effects) := d.ota.write (chunk r.bytes) r.write
            let d := { d with ota, slot := d.slot ++ flashed effects }
            if error ≠ .ok then (true, d.failOta .flash)
            else
              pumpLoop { d with lastProgressMs := r.after } deadline
                (moved + UInt32.ofNat r.bytes.length) reads
        | _ => (true, d.failOta .network)

/-- `pumpDownload`; `last` is the clock at the test behind the loop. -/
def pumpDownload (d : Impl) (now : UInt32) (reads : List ChunkRead) (last : UInt32) : Impl :=
  let (returned, d) := d.pumpLoop (now + d.cfg.ota.budgetMs) 0 reads
  if !returned && last - d.lastProgressMs > d.cfg.ota.stallTimeoutMs then d.failOta .stall else d

/-- The record that survives the restart. -/
def pendingRecord (d : Impl) (time : Int) : Pending :=
  let startedAtS := ((ArduinoClock.utc time).map UInt32.ofInt).getD 0
  { updateId := d.order.updateId
    version := d.order.targetVersion
    repo := d.order.repo
    previous := d.currentVersion
    startedAtS
    deadlineS := startedAtS + d.cfg.ota.rollbackDeadlineS.toUInt32 }

/-- `verifyAndApply`. It ends in `esp_restart`, which does not return. -/
def verifyAndApply (d : Impl) (o : OtaSink.FinishOutcome) (time : Int) : Impl :=
  let (error, ota, effects) :=
    d.ota.finish v.sha256 (if d.order.hasSha256 then some d.order.sha256 else none) o
  let d := { d with ota }
  let d := if .setBootPartition ∈ effects then d.emit .bootPartitionSet else d
  if error ≠ .ok then d.failOta (if error = .checksumMismatch then .checksum else .flash)
  else
    let d := { d with nvs := (DeviceStore.savePending d.nvs (d.pendingRecord time)).2 }
    emit { d.setOtaState .pendingReboot .none with restarting := true } .restarted

/-- What a step of the update is told. -/
structure OtaInput where
  link : Links := {}
  anyLink : Links := {}
  button : Bool := true
  start : StartAnswers
  reads : List ChunkRead := []
  last : UInt32 := 0
  finish : OtaSink.FinishOutcome
  time : Int := 0

/-- Whether an order waits for the button. -/
def needsButton (d : Impl) : Bool :=
  d.cfg.ota.requireButton && d.order.requiresButton &&
    !(d.order.mandatory && d.cfg.ota.mandatoryWaivesButton)

/-- The case of `otaStep` on an order that was accepted. -/
def evaluateOrder (d : Impl) (now : UInt32) (i : OtaInput) : Impl :=
  if !d.otaLinkReady i.link i.anyLink then
    { d.setOtaState .aborted .gprs with state := .operation }
  else if !d.needsButton || d.cfg.button.buttonPin < 0 then d.startDownload now i.start
  else
    setOtaState
      { d with
        buttonDeadlineMs := now + d.remoteCfg.otaButtonWindowS.toUInt32 * 1000
        state := .awaitingButton }
      .pendingUser .none

/-- `otaStep`. -/
def otaStep (d : Impl) (now : UInt32) (i : OtaInput) : Impl :=
  match d.state with
  | .evaluatingOrder => d.evaluateOrder now i
  | .awaitingButton =>
      if d.buttonPressed i.button then d.startDownload now i.start
      -- `static_cast<int32_t>(now - deadline) >= 0`.
      else if now - d.buttonDeadlineMs < 2147483648 then
        { d with hasOrder := false, state := .operation }
      else d
  | .downloading =>
      if !d.otaLinkReady i.link i.anyLink then d.failOta .network
      else d.pumpDownload now i.reads i.last
  | .verifying => verifyAndApply v d i.finish i.time
  | _ => d

/-! ## The confirmation -/

/-- What a step of the confirmation is told; `reverts` is whether the bootloader takes the image
back. -/
structure ConfirmInput where
  link : Links := {}
  time : Int := 0
  post : PostAnswer := {}
  reverts : Bool := true

/-- The body of the confirmation: the strings go in as they are. -/
def confirmBody (deviceId : CString) (p : Pending) : List UInt8 :=
  ascii "\x7b\"device_id\":\"" ++ deviceId.bytes ++
    ascii "\",\"status\":\"success\",\"firmware_version\":\"" ++ p.version.text.bytes ++
    ascii "\",\"repo\":\"" ++ p.repo.text.bytes ++
    ascii "\",\"previous_version\":\"" ++ p.previous.text.bytes ++
    ascii "\",\"duration_ms\":0\x7d"

/-- The deadline of an image that was not confirmed has passed. -/
def overdue (p : Pending) (time : Int) : Bool :=
  0 < p.deadlineS && (ArduinoClock.utc time).any fun epoch => p.deadlineS < UInt32.ofInt epoch

/-- The image goes back to the bootloader; where that does not restart, the device goes on. -/
def revert (d : Impl) (reverts : Bool) : Impl :=
  emit { d with nvs := (DeviceStore.clearPending d.nvs).2, restarting := reverts } .markedInvalid

/-- The server has confirmed. -/
def confirmed (d : Impl) (p : Pending) : Impl :=
  let d := { d with nvs := (DeviceStore.commitFirmware d.nvs p.version.text p.repo.text).2 }
  let d := { d with nvs := (DeviceStore.setLastUpdateId d.nvs p.updateId.text).2 }
  let d := d.emit .markedValid
  setOtaState
    { d with
      nvs := (DeviceStore.clearPending d.nvs).2
      confirmBackoff := d.confirmBackoff.reset
      state := .operation }
    .idle .none

/-- `confirmStep`. -/
def confirmStep (d : Impl) (now : UInt32) (i : ConfirmInput) : Impl :=
  if !d.linkUp i.link || !d.confirmBackoff.ready now then d
  else
    match DeviceStore.loadPending d.nvs with
    | none => { d with state := .operation }
    | some p =>
        if overdue p i.time then d.revert i.reverts
        else
          match d.apiBase with
          | none => d
          | some base =>
              match Url.formatPath base.text d.cfg.endpoints.pathConfirm p.updateId.text
                  maxUrlLen with
              | none => d
              | some url =>
                  -- `snprintf` into 384 bytes.
                  let d := d.emit (.posted url.text ((confirmBody d.deviceId.text p).take 383))
                  if i.post.error ≠ .ok ∨ i.post.status ≠ 200 then
                    { d with confirmBackoff := d.confirmBackoff.fail now }
                  else d.confirmed p

/-! ## The ping -/

/-- What a ping is told. -/
structure PingInput where
  connected : Bool := false
  time : Int := 0
  link : Links := {}
  rssi : Int := 0
  freeHeap : UInt32 := 0
  extender : Option (JsonObject → JsonObject) := none

/-- `kPingScratch`. -/
def kPingScratch : Nat := 1024

/-- The snapshot of a ping. The fields for two links are left at their defaults. -/
def snapshot (d : Impl) (now : UInt32) (i : PingInput) : PingSnapshot :=
  { ts := (ArduinoClock.utc i.time).getD 0
    tsSource := if (ArduinoClock.utc i.time).isSome then d.clock.source else .none
    firmwareVersion := some d.currentVersion.text
    repo := some d.cfg.repoName
    uptimeS := now / 1000
    link := d.activeLink i.link
    rssi := if d.activeLink i.link = .none then 0 else i.rssi
    freeHeap := i.freeHeap
    otaState := d.otaState
    abortReason := d.abortReason
    configVersion := DeviceStore.configVersion d.nvs }

/-- `pingStep`. What `publish` answers is logged only. -/
def pingStep (d : Impl) (now : UInt32) (i : PingInput) : Impl :=
  if !i.connected || !d.topics.ready then d
  else if d.lastPingMs ≠ 0 ∧ now - d.lastPingMs < d.remoteCfg.pingIntervalS.toUInt32 * 1000 then d
  else
    let d := { d with lastPingMs := now }
    match PingBuilder.build v.serializeJson i.extender (d.snapshot now i) (d.cfg.linkMode = .both)
        d.cfg.pingStrict kPingScratch with
    | (.ok, payload) => d.emit (.published d.topics.ping.text payload 1 false)
    | _ => d

end FirmwareUpdater.Impl
