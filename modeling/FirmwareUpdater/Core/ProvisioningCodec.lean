import FirmwareUpdater.Core.Json
import FirmwareUpdater.Core.OrderCodec

/-!
# The answer to a provisioning request

`provisioning::parseResponse`. A mandatory string that does not fit its field is
refused, but the topics are copied without a look at the result, and a string with
a NUL inside ends there before anybody measures it. `exato_iff` says for which
documents what was granted is what is stored.
-/

namespace FirmwareUpdater

/-- `ProvisionRequest`. -/
structure ProvisionRequest where
  boardId : Option CString := none
  hardwareModel : Option CString := none
  firmwareVersion : Option CString := none
  repo : Option CString := none
  rede : LinkType := .none

/-- `ProvisionOutcome`. -/
inductive ProvisionOutcome where
  | granted
  | badRequest
  | notReleased
  | unknownBoard
  | concurrent
  | rateLimited
  | serverError
  | transportError
  deriving DecidableEq, Repr

namespace Provisioning

/-- `buildRequest`. -/
def buildRequest (serializeJson : JsonObject → List UInt8) (req : ProvisionRequest) (cap : Nat) :
    CodecError × List UInt8 :=
  match req.boardId, req.firmwareVersion, req.repo with
  | some boardId, some firmwareVersion, some repo =>
      printJson serializeJson
        ([("board_id", .string boardId.bytes),
          ("hardware_model", .string (req.hardwareModel.getD .empty).bytes),
          ("firmware_version", .string firmwareVersion.bytes),
          ("repo", .string repo.bytes)] ++
          -- Left out where the link is not known, so that the server keeps its default.
          if req.rede = .none then [] else [("rede", .string (ascii req.rede.toString))]) cap
  | _, _, _ => (.missingField, [])

/-- `fromHttpStatus`. -/
def fromHttpStatus (status : Int) : ProvisionOutcome :=
  if status = 200 then .granted
  else if status = 400 then .badRequest
  else if status = 403 then .notReleased
  else if status = 404 then .unknownBoard
  else if status = 409 then .concurrent
  else if status = 429 then .rateLimited
  else if status ≥ 500 then .serverError
  else .transportError

/-- `copyField`, the same as the order codec's. -/
def copyField {cap : Nat} (src : Option CString) (dst : Field cap) : Bool × Field cap :=
  Order.copyField src dst

/-- The part of `parseResponse` on the topics. The results of the copies are not looked at. -/
def parseTopics (topics : JsonNode) (out : Provisioning) : Provisioning :=
  if !topics.isObject then out
  else
    let doc := topics.document
    { out with
      topicPing := (copyField (doc.text "ping") out.topicPing).2
      topicUpdate := (copyField (doc.text "update") out.topicUpdate).2
      topicConfig := (copyField (doc.text "config") out.topicConfig).2 }

/-- The part of `parseResponse` on the broker. -/
def parseMqtt (mqtt : JsonNode) (out : Provisioning) : CodecError × Provisioning :=
  if !mqtt.isObject then (.missingField, out)
  else
    let doc := mqtt.document
    let (copied, mqttHost) := copyField (doc.text "host") out.mqttHost
    let out := { out with mqttHost }
    if !copied then (.missingField, out)
    else
      let port := doc.integerOr "port" 0
      if port ≤ 0 ∨ port > 65535 then (.badValue, out)
      else
        let out := { out with
          mqttPort := .ofNat port.toNat, mqttTls := doc.boolOr "tls" false }
        let (copied, mqttUser) := copyField (doc.text "username") out.mqttUser
        let out := { out with mqttUser }
        if !copied then (.missingField, out)
        else
          let (copied, mqttPass) := copyField (doc.text "password") out.mqttPass
          let out := { out with mqttPass }
          if !copied then (.missingField, out)
          else (.ok, parseTopics (mqtt.member "topics") out)

/-- `parseResponse`, where `deserializeJson` is the library's parser. A failing call leaves in
`out` what was read so far. -/
def parseResponse (deserializeJson : CString → Option JsonNode) (json : Option CString)
    (out : Provisioning) : CodecError × Provisioning :=
  match json.bind deserializeJson with
  | none => (.malformedJson, out)
  | some node =>
      let doc := node.document
      let out : Provisioning := {}
      let (copied, deviceId) := copyField (doc.text "device_id") out.deviceId
      let out := { out with deviceId }
      if !copied then (.missingField, out)
      else
        let (error, out) := parseMqtt (node.member "mqtt") out
        if error ≠ .ok then (error, out)
        else
          let (copied, apiBaseUrl) := copyField (doc.text "api_base_url") out.apiBaseUrl
          let out := { out with apiBaseUrl }
          if !copied then (.missingField, out) else (.ok, out)

/-- A response of which nothing was read. -/
def blank : Provisioning := {}

/-! ## One string -/

variable {cap : Nat}

/-- The field holds the bytes the document gives. -/
def Guarda (value : JsonVariant) (field : Field cap) : Prop := value = .string field.text.bytes

/-- The document gives a string without a NUL inside. -/
def SemNul (value : JsonVariant) : Prop := ∃ bytes, value = .string bytes ∧ 0 ∉ bytes

/-- A string that was copied is stored up to its first NUL. -/
theorem copyField_copied {doc : JsonDocument} {key : String} {dst : Field cap}
    (h : (copyField (doc.text key) dst).1 = true) :
    ∃ bytes, doc.member key = .string bytes ∧
      (copyField (doc.text key) dst).2.text = .ofBytes bytes := by
  unfold copyField Order.copyField JsonDocument.text at *
  cases hmember : doc.member key with
  | string bytes =>
      simp only [hmember] at h ⊢
      refine ⟨bytes, rfl, ?_⟩
      split
      · rename_i hempty
        simp [hempty] at h
      split
      · rfl
      · rename_i hempty hlarge
        simp [hempty, hlarge] at h
  | null | bool | integer | other => simp [hmember] at h

/-- It is stored whole exactly when there is no NUL inside. -/
theorem guarda_iff {doc : JsonDocument} {key : String} {dst : Field cap}
    (h : (copyField (doc.text key) dst).1 = true) :
    Guarda (doc.member key) (copyField (doc.text key) dst).2 ↔ SemNul (doc.member key) := by
  obtain ⟨bytes, hmember, hstored⟩ := copyField_copied h
  rw [Guarda, SemNul, hmember, hstored, JsonVariant.string.injEq, eq_comm, CString.ofBytes_eq_iff]
  refine ⟨fun hnul => ⟨bytes, rfl, hnul⟩, ?_⟩
  rintro ⟨_, ⟨⟩, hnul⟩
  exact hnul

/-- The field of a topic holds the bytes the document gives, if it gives any. -/
def GuardaTopico (value : JsonVariant) (field : Field maxTopicLen) : Prop :=
  ∀ bytes, value = .string bytes → bytes ≠ [] → field.text.bytes = bytes

/-- A topic the document gives has no NUL inside and fits its field. -/
def TopicoCabe (value : JsonVariant) : Prop :=
  ∀ bytes, value = .string bytes → bytes ≠ [] → 0 ∉ bytes ∧ bytes.length < maxTopicLen

/-- A topic copied into an empty field is stored exactly when it fits. -/
theorem guardaTopico_iff {doc : JsonDocument} {key : String} {dst : Field maxTopicLen}
    (hdst : dst.text = .empty) :
    GuardaTopico (doc.member key) (copyField (doc.text key) dst).2 ↔
      TopicoCabe (doc.member key) := by
  refine forall_congr' fun bytes => forall_congr' fun hmember => forall_congr' fun hne => ?_
  have htext : doc.text key = some (.ofBytes bytes) := by
    unfold JsonDocument.text
    rw [hmember]
  rw [htext]
  by_cases hnul : 0 ∈ bytes
  · refine iff_of_false (fun hstored => ?_) (fun hfits => hfits.1 hnul)
    rw [← hstored] at hnul
    exact CString.noNul _ hnul
  have hwhole : (CString.ofBytes bytes).bytes = bytes := (CString.ofBytes_eq_iff bytes).mpr hnul
  have hlength : (CString.ofBytes bytes).length = bytes.length := by rw [CString.length, hwhole]
  have hpos : bytes.length ≠ 0 := fun h => hne (List.eq_nil_of_length_eq_zero h)
  unfold copyField Order.copyField
  dsimp only
  rw [if_neg (by rwa [hlength])]
  split
  · rename_i hfits
    exact iff_of_true hwhole ⟨hnul, hlength ▸ hfits⟩
  · rename_i hlarge
    refine iff_of_false ?_ fun hfits => hlarge (hlength ▸ hfits.2)
    rw [hdst]
    exact fun h => hne h.symm

/-! ## The whole answer -/

/-- The topics are copied one by one, whether there are any or not. -/
theorem parseTopics_eq (topics : JsonNode) (out : Provisioning) :
    parseTopics topics out =
      { out with
        topicPing := (copyField (topics.document.text "ping") out.topicPing).2
        topicUpdate := (copyField (topics.document.text "update") out.topicUpdate).2
        topicConfig := (copyField (topics.document.text "config") out.topicConfig).2 } := by
  cases topics with
  | leaf value => rfl
  | object member => rfl

/-- A broker that was read: every copy succeeded, and the port is in range. -/
theorem parseMqtt_ok {mqtt : JsonNode} {out : Provisioning} (h : (parseMqtt mqtt out).1 = .ok) :
    let doc := mqtt.document
    let port := doc.integerOr "port" 0
    (copyField (doc.text "host") out.mqttHost).1 = true ∧ (0 < port ∧ port ≤ 65535) ∧
      (copyField (doc.text "username") out.mqttUser).1 = true ∧
      (copyField (doc.text "password") out.mqttPass).1 = true ∧
      (parseMqtt mqtt out).2 = parseTopics (mqtt.member "topics")
        { out with
          mqttHost := (copyField (doc.text "host") out.mqttHost).2
          mqttPort := .ofNat port.toNat
          mqttTls := doc.boolOr "tls" false
          mqttUser := (copyField (doc.text "username") out.mqttUser).2
          mqttPass := (copyField (doc.text "password") out.mqttPass).2 } := by
  intro doc port
  unfold parseMqtt at h ⊢
  split at h
  · cases h
  rename_i hobject
  rw [if_neg hobject]
  dsimp only at h ⊢
  split at h
  · cases h
  rename_i hhost
  rw [if_neg hhost]
  split at h
  · cases h
  rename_i hport
  rw [if_neg hport]
  split at h
  · cases h
  rename_i huser
  rw [if_neg huser]
  split at h
  · cases h
  rename_i hpass
  rw [if_neg hpass]
  rw [not_or, not_le, not_lt] at hport
  rw [Bool.not_eq_true, Bool.not_eq_false'] at hhost huser hpass
  exact ⟨hhost, hport, huser, hpass, rfl⟩

/-- An answer that was read: every mandatory copy succeeded. -/
theorem parseResponse_ok {deserializeJson : CString → Option JsonNode} {json : Option CString}
    {node : JsonNode} {out : Provisioning} (hdoc : json.bind deserializeJson = some node)
    (h : (parseResponse deserializeJson json out).1 = .ok) :
    let novo : Provisioning := {}
    let lido :=
      { novo with deviceId := (copyField (node.document.text "device_id") novo.deviceId).2 }
    (copyField (node.document.text "device_id") novo.deviceId).1 = true ∧
      (parseMqtt (node.member "mqtt") lido).1 = .ok ∧
      (copyField (node.document.text "api_base_url")
        (parseMqtt (node.member "mqtt") lido).2.apiBaseUrl).1 = true ∧
      (parseResponse deserializeJson json out).2 =
        { (parseMqtt (node.member "mqtt") lido).2 with
          apiBaseUrl := (copyField (node.document.text "api_base_url")
            (parseMqtt (node.member "mqtt") lido).2.apiBaseUrl).2 } := by
  intro novo lido
  unfold parseResponse at h ⊢
  rw [hdoc] at h ⊢
  dsimp only at h ⊢
  split at h
  · cases h
  rename_i hid
  rw [if_neg hid]
  split at h
  · rename_i herror
    exact absurd h herror
  rename_i herror
  rw [if_neg herror]
  split at h
  · cases h
  rename_i hurl
  rw [if_neg hurl]
  rw [Bool.not_eq_true, Bool.not_eq_false'] at hid hurl
  exact ⟨hid, not_not.mp herror, hurl, rfl⟩

/-- What the document gives is what is stored: the mandatory strings, the topics it gives and the
port. -/
structure Exato (node : JsonNode) (out : Provisioning) : Prop where
  deviceId : Guarda (node.document.member "device_id") out.deviceId
  mqttHost : Guarda ((node.member "mqtt").document.member "host") out.mqttHost
  mqttPort : (node.member "mqtt").document.member "port" = .integer out.mqttPort.toNat
  mqttUser : Guarda ((node.member "mqtt").document.member "username") out.mqttUser
  mqttPass : Guarda ((node.member "mqtt").document.member "password") out.mqttPass
  topicPing : GuardaTopico (((node.member "mqtt").member "topics").document.member "ping")
    out.topicPing
  topicUpdate : GuardaTopico (((node.member "mqtt").member "topics").document.member "update")
    out.topicUpdate
  topicConfig : GuardaTopico (((node.member "mqtt").member "topics").document.member "config")
    out.topicConfig
  apiBaseUrl : Guarda (node.document.member "api_base_url") out.apiBaseUrl

/-- The document has no NUL inside a mandatory string, and no topic that does not fit. -/
structure Cabe (node : JsonNode) : Prop where
  deviceId : SemNul (node.document.member "device_id")
  mqttHost : SemNul ((node.member "mqtt").document.member "host")
  mqttUser : SemNul ((node.member "mqtt").document.member "username")
  mqttPass : SemNul ((node.member "mqtt").document.member "password")
  topicPing : TopicoCabe (((node.member "mqtt").member "topics").document.member "ping")
  topicUpdate : TopicoCabe (((node.member "mqtt").member "topics").document.member "update")
  topicConfig : TopicoCabe (((node.member "mqtt").member "topics").document.member "config")
  apiBaseUrl : SemNul (node.document.member "api_base_url")

/-- A port in range is the document's, and survives the field. -/
theorem port_exato {doc : JsonDocument} (hpos : 0 < doc.integerOr "port" 0)
    (hmax : doc.integerOr "port" 0 ≤ 65535) :
    doc.member "port" = .integer (UInt16.ofNat (doc.integerOr "port" 0).toNat).toNat := by
  unfold JsonDocument.integerOr at *
  cases hmember : doc.member "port" with
  | integer port =>
      simp only [hmember] at hpos hmax ⊢
      have hfits : port.toNat < 2 ^ 16 := by omega
      rw [UInt16.toNat_ofNat_of_lt' hfits, Int.toNat_of_nonneg hpos.le]
  | null | bool | string | other =>
      simp only [hmember] at hpos
      exact absurd hpos (lt_irrefl 0)

/-- An accepted answer is stored as the document gives it exactly when no mandatory string has a
NUL inside and every topic given fits its field. -/
theorem exato_iff (deserializeJson : CString → Option JsonNode) (json : Option CString)
    (node : JsonNode) (hdoc : json.bind deserializeJson = some node) (out : Provisioning) :
    let r := parseResponse deserializeJson json out
    r.1 = .ok → (Exato node r.2 ↔ Cabe node) := by
  intro r hok
  obtain ⟨hid, hmqtt, hurl, hread⟩ := parseResponse_ok hdoc hok
  obtain ⟨hhost, hport, huser, hpass, hbroker⟩ := parseMqtt_ok hmqtt
  rw [parseTopics_eq] at hbroker
  rw [hbroker] at hurl hread
  show Exato node r.2 ↔ _
  rw [show r.2 = _ from hread]
  constructor
  · intro h
    exact ⟨(guarda_iff hid).mp h.deviceId, (guarda_iff hhost).mp h.mqttHost,
      (guarda_iff huser).mp h.mqttUser, (guarda_iff hpass).mp h.mqttPass,
      (guardaTopico_iff rfl).mp h.topicPing, (guardaTopico_iff rfl).mp h.topicUpdate,
      (guardaTopico_iff rfl).mp h.topicConfig, (guarda_iff hurl).mp h.apiBaseUrl⟩
  · intro h
    exact ⟨(guarda_iff hid).mpr h.deviceId, (guarda_iff hhost).mpr h.mqttHost,
      port_exato hport.1 hport.2, (guarda_iff huser).mpr h.mqttUser,
      (guarda_iff hpass).mpr h.mqttPass, (guardaTopico_iff rfl).mpr h.topicPing,
      (guardaTopico_iff rfl).mpr h.topicUpdate, (guardaTopico_iff rfl).mpr h.topicConfig,
      (guarda_iff hurl).mpr h.apiBaseUrl⟩

/-- An answer with one topic, as text. -/
def textoCom (update : List UInt8) : CString :=
  .ofBytes
    ("\x7b\"device_id\":\"a\",\"mqtt\":\x7b\"host\":\"h\",\"port\":1883,".toUTF8.toList ++
      "\"username\":\"u\",\"password\":\"p\",\"topics\":\x7b\"update\":\"".toUTF8.toList ++
      update ++ "\"\x7d\x7d,\"api_base_url\":\"b\"\x7d".toUTF8.toList)

/-- The same answer, parsed. -/
def nodeCom (update : List UInt8) : JsonNode :=
  .object fun
    | "device_id" => .leaf (.string [97])
    | "mqtt" => .object fun
        | "host" => .leaf (.string [104])
        | "port" => .leaf (.integer 1883)
        | "username" => .leaf (.string [117])
        | "password" => .leaf (.string [112])
        | "topics" => .object fun
            | "update" => .leaf (.string update)
            | _ => .leaf .null
        | _ => .leaf .null
    | "api_base_url" => .leaf (.string [98])
    | _ => .leaf .null

/-- A parser that reads that text. -/
def leitorDe (update : List UInt8) (text : CString) : Option JsonNode :=
  if text = textoCom update then some (nodeCom update) else none

/-- It reads it. -/
theorem leitorDe_texto (update : List UInt8) :
    (some (textoCom update)).bind (leitorDe update) = some (nodeCom update) := if_pos rfl

/-- A topic of three bytes fits. -/
theorem cabe_topico_curto : Cabe (nodeCom [47, 117, 112]) where
  deviceId := ⟨[97], rfl, by decide⟩
  mqttHost := ⟨[104], rfl, by decide⟩
  mqttUser := ⟨[117], rfl, by decide⟩
  mqttPass := ⟨[112], rfl, by decide⟩
  topicPing bytes hgiven := by cases hgiven
  topicUpdate bytes hgiven _ := by
    cases hgiven
    decide
  topicConfig bytes hgiven := by cases hgiven
  apiBaseUrl := ⟨[98], rfl, by decide⟩

/-- It is stored. -/
theorem exato_topico_curto :
    let r := parseResponse (leitorDe [47, 117, 112]) (some (textoCom [47, 117, 112])) {}
    r.1 = .ok ∧ Exato (nodeCom [47, 117, 112]) r.2 := by
  intro r
  have hok : r.1 = .ok := by
    show (parseResponse _ _ _).1 = .ok
    unfold parseResponse
    rw [leitorDe_texto]
    decide +kernel
  exact ⟨hok, (exato_iff _ _ _ (leitorDe_texto _) _ hok).mpr cabe_topico_curto⟩

/-- A topic of 128 bytes is lost from an answer that is accepted. -/
theorem topico_longo_perdido :
    let update := List.replicate 128 120
    let r := parseResponse (leitorDe update) (some (textoCom update)) {}
    r.1 = .ok ∧ r.2.topicUpdate.text = .empty ∧ ¬ Exato (nodeCom update) r.2 := by
  intro update r
  have hread : r.1 = .ok ∧ r.2.topicUpdate.text = .empty := by
    show (parseResponse _ _ _).1 = .ok ∧ (parseResponse _ _ _).2.topicUpdate.text = .empty
    unfold parseResponse
    rw [leitorDe_texto]
    decide +kernel
  refine ⟨hread.1, hread.2, fun h => ?_⟩
  have hstored := h.topicUpdate update rfl (List.cons_ne_nil _ _)
  rw [hread.2] at hstored
  exact absurd hstored.symm (List.cons_ne_nil _ _)

end Provisioning

end FirmwareUpdater
