import FirmwareUpdater.Core.TopicResolver
import FirmwareUpdater.Gprs.GsmLink

/-!
# The configuration surface

`Config`, as far as the update machine reads it, and `Config::validate`. A pointer
that may be null is an `Option`.
-/

namespace FirmwareUpdater

/-- `LinkMode`. -/
inductive LinkMode where
  | wifi
  | gprs
  | both
  deriving DecidableEq, Repr

/-- `OtaLinkPolicy`. -/
inductive OtaLinkPolicy where
  | wifiOnly
  | anyLink
  deriving DecidableEq, Repr

/-- `TlsMode`. -/
inductive TlsMode where
  | fromProvisioning
  | forcePlain
  | forceTls
  deriving DecidableEq, Repr

/-- `DispatchMode`. -/
inductive DispatchMode where
  | async
  | sync
  deriving DecidableEq, Repr

/-- `ConfigError`. -/
inductive ConfigError where
  | ok
  | missingFirmwareVersion
  | missingRepo
  | gprsPinsUnset
  | slugRequiredForScheme
  | tlsWithoutCaAndNotInsecure
  | otaOnGprsWithoutOptIn
  | bothModeMissingWifiCreds
  deriving DecidableEq, Repr

/-- `MqttTuning`. -/
structure MqttTuning where
  tlsMode : TlsMode := .fromProvisioning
  plainPort : UInt16 := 1883
  dispatch : DispatchMode := .async
  bufferBytes : UInt16 := 2048
  keepaliveS : UInt16 := 60
  cleanSession : Bool := true
  deriving DecidableEq

/-- `EndpointConfig`. -/
structure EndpointConfig where
  apiBaseUrl : CString := literal "https://updater.example.com"
  apiBaseUrlGprs : CString := literal "http://updater.example.com"
  pathProvisioning : CString := literal "/api/v1/provisioning"
  pathConfirm : CString := literal "/api/v1/firmware/%s/confirm"
  deriving DecidableEq

/-- `OtaPolicy`. -/
structure OtaPolicy where
  linkPolicy : OtaLinkPolicy := .wifiOnly
  allowOtaOnGprs : Bool := false
  pauseMqttDuringDownload : Bool := true
  requireButton : Bool := true
  mandatoryWaivesButton : Bool := true
  buttonWindowS : UInt16 := 60
  chunkBytes : UInt32 := 4096
  budgetMs : UInt32 := 40
  stallTimeoutMs : UInt32 := 300000
  rollbackDeadlineS : UInt16 := 300
  allowDowngrade : Bool := false
  deriving DecidableEq

/-- `ButtonConfig`. -/
structure ButtonConfig where
  buttonPin : Int := -1
  buttonActiveLow : Bool := true
  deriving DecidableEq

deriving instance DecidableEq for TopicConfig

/-- `Config`. -/
structure Config where
  firmwareVersion : Option CString := none
  repo : Option CString := none
  hardwareModelOverride : Option CString := none
  linkMode : LinkMode := .wifi
  gprs : GprsConfig := ⟨none, -1, -1, 8000⟩
  mqtt : MqttTuning := {}
  button : ButtonConfig := {}
  endpoints : EndpointConfig := {}
  topics : TopicConfig := {}
  ota : OtaPolicy := {}
  pingStrict : Bool := true
  pingIntervalS : UInt16 := 60
  deriving DecidableEq

namespace Config

/-- A string that `validate` asks for, and that is there behind it. -/
def given (text : Option CString) : CString := text.getD .empty

/-- `validate`. -/
def validate (cfg : Config) : ConfigError :=
  if (given cfg.firmwareVersion).byteAt 0 = 0 then .missingFirmwareVersion
  else if (given cfg.repo).byteAt 0 = 0 then .missingRepo
  else if cfg.topics.scheme = .slugEnvRet ∧ (given cfg.topics.projectSlug).byteAt 0 = 0 then
    .slugRequiredForScheme
  else if (cfg.linkMode = .gprs ∨ cfg.linkMode = .both) ∧
      (cfg.gprs.apn.isNone ∨ cfg.gprs.pinTx < 0 ∨ cfg.gprs.pinRx < 0) then .gprsPinsUnset
  else if cfg.ota.linkPolicy = .anyLink ∧ !cfg.ota.allowOtaOnGprs then .otaOnGprsWithoutOptIn
  else .ok

/-- The version the project compiled in. -/
def version (cfg : Config) : CString := given cfg.firmwareVersion

/-- The repo the project compiled in. -/
def repoName (cfg : Config) : CString := given cfg.repo

end Config

end FirmwareUpdater
