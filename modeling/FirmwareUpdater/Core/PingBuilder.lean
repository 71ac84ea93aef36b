import FirmwareUpdater.Core.Iso8601
import FirmwareUpdater.Core.Json
import FirmwareUpdater.Core.TimeText
import FirmwareUpdater.Core.TopicResolver

/-!
# The ping

`PingBuilder::build`. The document is the list of its members; how it is printed is the
library's affair, and the project's extender may do anything to it.
-/

namespace FirmwareUpdater

/-- `PingSnapshot`. -/
structure PingSnapshot where
  ts : Int := 0
  tsSource : ClockSource := .none
  firmwareVersion : Option CString := none
  repo : Option CString := none
  uptimeS : UInt32 := 0
  link : LinkType := .none
  rssi : Int := 0
  freeHeap : UInt32 := 0
  otaState : OtaState := .idle
  abortReason : AbortReason := .none
  configVersion : UInt32 := 0
  wifiUp : Bool := false
  gprsUp : Bool := false
  wifiRssi : Int := 0
  gprsRssi : Int := 0
  otaLinkReady : Bool := false
  otaTransportSecure : Bool := false

namespace PingBuilder

/-- The timestamp, left out where there is no clock. -/
def stamped (snap : PingSnapshot) : JsonObject :=
  if 0 < snap.ts ∧ Iso8601.plausibleEpoch snap.ts then
    match Iso8601.format snap.ts (some (List.replicate Iso8601.bufferLen 0)) Iso8601.bufferLen with
    | (true, some printed) => [("ts", .string (CString.ofBytes printed).bytes)]
    | _ => []
  else []

/-- The fields of every ping. -/
def basic (snap : PingSnapshot) : JsonObject :=
  [("firmware_version", .string (snap.firmwareVersion.getD .empty).bytes),
    ("repo", .string (snap.repo.getD .empty).bytes),
    ("uptime_s", .integer snap.uptimeS.toNat),
    ("link", .string (ascii snap.link.toString)),
    ("rssi", .integer snap.rssi),
    ("free_heap", .integer snap.freeHeap.toNat),
    ("ota_state", .string (ascii snap.otaState.toString)),
    ("config_version", .integer snap.configVersion.toNat)] ++
  if snap.abortReason = .none then []
  else [("reason", .string (ascii snap.abortReason.toString))]

/-- The fields of a device with both links. -/
def linkDetail (snap : PingSnapshot) : JsonObject :=
  [("links", .object
      [("wifi", .object [("up", .bool snap.wifiUp), ("rssi", .integer snap.wifiRssi)]),
        ("gprs", .object [("up", .bool snap.gprsUp), ("rssi", .integer snap.gprsRssi)])]),
    ("ota_link_ready", .bool snap.otaLinkReady),
    ("ota_transport_secure", .bool snap.otaTransportSecure)]

/-- The source of the timestamp. -/
def clockDetail (source : ClockSource) : JsonObject :=
  match source with
  | .none => []
  | .sntp => [("ts_source", .string (ascii "sntp"))]
  | .gsm => [("ts_source", .string (ascii "gsm"))]
  | .rtc => [("ts_source", .string (ascii "rtc"))]
  | .server => [("ts_source", .string (ascii "server"))]

/-- The document `build` prints. -/
def document (extender : Option (JsonObject → JsonObject)) (snap : PingSnapshot)
    (dualLink strict : Bool) : JsonObject :=
  let doc := stamped snap ++ basic snap
  if strict then doc
  else
    let doc := doc ++ (if dualLink then linkDetail snap else []) ++ clockDetail snap.tsSource
    match extender with
    | none => doc
    | some extender => extender doc

/-- `build`. -/
def build (serializeJson : JsonObject → List UInt8) (extender : Option (JsonObject → JsonObject))
    (snap : PingSnapshot) (dualLink strict : Bool) (cap : Nat) : CodecError × List UInt8 :=
  if cap = 0 then (.bufferTooSmall, [])
  else printJson serializeJson (document extender snap dualLink strict) cap

/-- `willPayload`. -/
def willPayload : CString := literal "\x7b\"status\":\"offline\"\x7d"

/-- `kWillRetain`. -/
def willRetain : Bool := false

/-- `kWillQos`. -/
def willQos : UInt8 := 1

end PingBuilder

end FirmwareUpdater
