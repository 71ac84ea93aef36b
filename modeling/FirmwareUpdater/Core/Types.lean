import FirmwareUpdater.Core.Memory

/-!
# Core vocabulary types

The buffer sizes, result enumerations and records of `Types.h` that the modelled
code allocates with, returns or fills.
-/

namespace FirmwareUpdater

/-- `kSha256Bytes`. -/
def sha256Bytes : Nat := 32

/-- `kMaxTopicLen`. -/
def maxTopicLen : Nat := 128

/-- `kMaxUrlLen`. -/
def maxUrlLen : Nat := 256

/-- `kMaxIdLen`. -/
def maxIdLen : Nat := 40

/-- `kMaxVersionLen`. -/
def maxVersionLen : Nat := 24

/-- `kMaxRepoLen`. -/
def maxRepoLen : Nat := 64

/-- There is room for a terminator at least. -/
theorem maxTopicLen_pos : 0 < maxTopicLen := by decide

@[inherit_doc maxTopicLen_pos]
theorem maxUrlLen_pos : 0 < maxUrlLen := by decide

@[inherit_doc maxTopicLen_pos]
theorem maxIdLen_pos : 0 < maxIdLen := by decide

@[inherit_doc maxTopicLen_pos]
theorem maxVersionLen_pos : 0 < maxVersionLen := by decide

@[inherit_doc maxTopicLen_pos]
theorem maxRepoLen_pos : 0 < maxRepoLen := by decide

/-- A SHA-256 digest. -/
abbrev Digest := Vector UInt8 sha256Bytes

/-- `OtaSinkError`. -/
inductive OtaSinkError where
  | ok
  | noPartition
  | tooLarge
  | beginFailed
  | writeFailed
  | checksumMismatch
  | endFailed
  | setBootFailed
  | notOpen
  | alreadyOpen
  deriving DecidableEq, Repr

/-- `HttpError`. -/
inductive HttpError where
  | ok
  | wouldBlock
  | eof
  | connectFailed
  | badStatus
  | rangeUnsupported
  | timeout
  | tooLarge
  | transport
  deriving DecidableEq, Repr

/-- `CodecError`. -/
inductive CodecError where
  | ok
  | bufferTooSmall
  | malformedJson
  | missingField
  | fieldTooLong
  | badValue
  deriving DecidableEq, Repr

/-- An OTA order as delivered on `/update/<id>`, with the defaults of the record. -/
structure UpdateOrder where
  updateId : Field maxIdLen := ⟨.empty, maxIdLen_pos⟩
  targetVersion : Field maxVersionLen := ⟨.empty, maxVersionLen_pos⟩
  repo : Field maxRepoLen := ⟨.empty, maxRepoLen_pos⟩
  url : Field maxUrlLen := ⟨.empty, maxUrlLen_pos⟩
  sizeBytes : UInt32 := 0
  sha256 : Digest := Vector.replicate sha256Bytes 0
  hasSha256 : Bool := false
  mandatory : Bool := false
  requiresButton : Bool := true
  issuedAt : Int := 0

/-- What a provisioning grants, with the defaults of the record. -/
structure Provisioning where
  deviceId : Field maxIdLen := ⟨.empty, maxIdLen_pos⟩
  mqttHost : Field 64 := ⟨.empty, by decide⟩
  mqttPort : UInt16 := 0
  mqttTls : Bool := false
  mqttUser : Field 48 := ⟨.empty, by decide⟩
  mqttPass : Field 64 := ⟨.empty, by decide⟩
  topicPing : Field maxTopicLen := ⟨.empty, maxTopicLen_pos⟩
  topicUpdate : Field maxTopicLen := ⟨.empty, maxTopicLen_pos⟩
  topicConfig : Field maxTopicLen := ⟨.empty, maxTopicLen_pos⟩
  apiBaseUrl : Field 96 := ⟨.empty, by decide⟩

/-- `kMaxModelLen`. -/
def maxModelLen : Nat := 32

@[inherit_doc maxTopicLen_pos]
theorem maxModelLen_pos : 0 < maxModelLen := by decide

/-- `LinkType`. -/
inductive LinkType where
  | none
  | wifi
  | gprs
  deriving DecidableEq, Repr

/-- `toString` of a link. -/
def LinkType.toString : LinkType → String
  | .wifi => "wifi"
  | .gprs => "gprs"
  | .none => "none"

/-- `ClockSource`. -/
inductive ClockSource where
  | none
  | sntp
  | gsm
  | rtc
  | server
  deriving DecidableEq, Repr

/-- `DeviceState`. -/
inductive DeviceState where
  | boot
  | provisioning
  | operation
  | evaluatingOrder
  | awaitingButton
  | downloading
  | verifying
  | applying
  | pendingReboot
  | confirming
  | rollingBack
  | failed
  deriving DecidableEq, Repr

/-- `OtaState`. -/
inductive OtaState where
  | idle
  | aborted
  | pendingUser
  | downloading
  | verifying
  | applying
  | pendingReboot
  | confirming
  | failed
  deriving DecidableEq, Repr

namespace OtaState

/-- `toString` of a state: the spellings of the wire. -/
def toString : OtaState → String
  | idle => "idle"
  | aborted => "aborted"
  | pendingUser => "pending_user"
  | downloading => "downloading"
  | verifying => "verifying"
  | applying => "applying"
  | pendingReboot => "pending_reboot"
  | confirming => "confirming"
  | failed => "failed"

/-- The underlying byte. -/
def code : OtaState → UInt8
  | idle => 0
  | aborted => 1
  | pendingUser => 2
  | downloading => 3
  | verifying => 4
  | applying => 5
  | pendingReboot => 6
  | confirming => 7
  | failed => 8

/-- The state of a byte; `toString` prints a byte beyond the enumeration as the first state. -/
def ofCode (code : UInt8) : OtaState :=
  [idle, aborted, pendingUser, downloading, verifying, applying, pendingReboot, confirming,
    failed].getD code.toNat idle

end OtaState

/-- `AbortReason`. -/
inductive AbortReason where
  | none
  | gprs
  | noWifi
  | checksum
  | network
  | stall
  | flash
  | noSpace
  | noOtaPartition
  | sizeMismatch
  | serverReject
  | userWindow
  | downgrade
  | appVeto
  deriving DecidableEq, Repr

namespace AbortReason

/-- `toString` of a reason: the spellings of the wire. -/
def toString : AbortReason → String
  | none => ""
  | gprs => "gprs"
  | noWifi => "no_wifi"
  | checksum => "checksum"
  | network => "network"
  | stall => "stall"
  | flash => "flash"
  | noSpace => "no_space"
  | noOtaPartition => "no_ota_partition"
  | sizeMismatch => "size_mismatch"
  | serverReject => "server_reject"
  | userWindow => "user_window"
  | downgrade => "downgrade"
  | appVeto => "app_veto"

/-- The underlying byte. -/
def code : AbortReason → UInt8
  | none => 0
  | gprs => 1
  | noWifi => 2
  | checksum => 3
  | network => 4
  | stall => 5
  | flash => 6
  | noSpace => 7
  | noOtaPartition => 8
  | sizeMismatch => 9
  | serverReject => 10
  | userWindow => 11
  | downgrade => 12
  | appVeto => 13

/-- The reason of a byte; `toString` prints a byte beyond the enumeration as no reason. -/
def ofCode (code : UInt8) : AbortReason :=
  [none, gprs, noWifi, checksum, network, stall, flash, noSpace, noOtaPartition, sizeMismatch,
    serverReject, userWindow, downgrade, appVeto].getD code.toNat none

end AbortReason

/-- `SleepBlock`. -/
inductive SleepBlock where
  | none
  | provisioning
  | awaitingButton
  | downloading
  | verifying
  | applying
  | pendingConfirm
  | clockSyncing
  deriving DecidableEq, Repr

/-- `RemoteConfig`, with the defaults of the record. -/
structure RemoteConfig where
  configVersion : UInt32 := 0
  pingIntervalS : UInt16 := 60
  otaButtonWindowS : UInt16 := 300
  allowOtaOnGprs : Bool := false
  mqttKeepaliveS : UInt16 := 60
  sensorReadIntervalS : UInt32 := 0
  hasSensorInterval : Bool := false
  appliedAtRequired : Bool := false
  serverTime : Int := 0
  apiBaseUrl : Field maxUrlLen := ⟨.empty, maxUrlLen_pos⟩
  deriving DecidableEq

end FirmwareUpdater
