import FirmwareUpdater.Core.Iso8601
import FirmwareUpdater.Core.Json
import FirmwareUpdater.Core.Types

/-!
# Remote configuration

`remoteconfig::parse`. A field that the document does not give, or gives as something
else, keeps the value it had.
-/

namespace FirmwareUpdater.RemoteConfig

/-- `doc[key] | value` for a `uint16_t`: an integer out of its range counts as absent. -/
def uint16Or (doc : JsonDocument) (key : String) (value : UInt16) : UInt16 :=
  match doc.member key with
  | .integer found => if 0 ≤ found ∧ found < 65536 then UInt16.ofNat found.toNat else value
  | _ => value

/-- `doc[key] | value` for a `long long`. -/
def int64Or (doc : JsonDocument) (key : String) (value : Int) : Int :=
  match doc.member key with
  | .integer found => if -2 ^ 63 ≤ found ∧ found < 2 ^ 63 then found else value
  | _ => value

/-- The part of `parse` on the knobs. -/
def parseKnobs (doc : JsonDocument) (out : RemoteConfig) : RemoteConfig :=
  { out with
    pingIntervalS := uint16Or doc "ping_interval_s" out.pingIntervalS
    otaButtonWindowS := uint16Or doc "ota_button_window_s" out.otaButtonWindowS
    allowOtaOnGprs := doc.boolOr "allow_ota_on_gprs" out.allowOtaOnGprs
    mqttKeepaliveS := uint16Or doc "mqtt_keepalive_s" out.mqttKeepaliveS
    appliedAtRequired := doc.boolOr "applied_at_required" out.appliedAtRequired }

/-- The part of `parse` on the address of the API, which is cut to its field. -/
def parseApi (doc : JsonDocument) (out : RemoteConfig) : RemoteConfig :=
  match doc.text "api_base_url" with
  | none => out
  | some api =>
      if api.byteAt 0 = 0 then out else { out with apiBaseUrl := .print maxUrlLen_pos api }

/-- The part of `parse` on the sensors. -/
def parseSensors (node : JsonNode) (out : RemoteConfig) : RemoteConfig :=
  let sensors := node.member "sensors"
  if !sensors.isObject then out
  else
    let interval := int64Or sensors.document "read_interval_s" (-1)
    if 0 < interval then
      { out with
        -- `static_cast<uint32_t>`.
        sensorReadIntervalS := UInt32.ofInt interval
        hasSensorInterval := true }
    else out

/-- The part of `parse` on the server's clock. -/
def parseServerTime (doc : JsonDocument) (out : RemoteConfig) : RemoteConfig :=
  match (doc.text "server_time").bind Iso8601.parse with
  | none => out
  | some epoch => if Iso8601.plausibleEpoch epoch then { out with serverTime := epoch } else out

/-- `parse`, where `deserializeJson` is the library's parser. A failing call leaves `out` as it
was. -/
def parse (deserializeJson : CString → Option JsonNode) (json : Option CString)
    (out : RemoteConfig) : CodecError × RemoteConfig :=
  match json.bind deserializeJson with
  | none => (.malformedJson, out)
  | some node =>
      let doc := node.document
      let version := int64Or doc "config_version" (-1)
      if version < 0 then (.missingField, out)
      else
        let out := parseKnobs doc { out with configVersion := UInt32.ofInt version }
        let out := parseServerTime doc (parseSensors node (parseApi doc out))
        -- An interval of zero would busy-publish.
        (.ok, if out.pingIntervalS = 0 then { out with pingIntervalS := 60 } else out)

end FirmwareUpdater.RemoteConfig
