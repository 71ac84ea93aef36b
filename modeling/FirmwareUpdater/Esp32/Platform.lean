import FirmwareUpdater.Core.Iso8601
import FirmwareUpdater.Core.Types

/-!
# The clock and the rollback guard

`ArduinoClock` over the system time, which SNTP or the modem sets, and
`rollback::check` over what the bootloader says of the running image. The platform's
answers come with each call.
-/

namespace FirmwareUpdater

/-- The clock's members. -/
structure ArduinoClock where
  source : ClockSource := .none
  lastCheckMs : UInt32 := 0
  started : Bool := false
  deriving DecidableEq

namespace ArduinoClock

/-- `kCheckIntervalMs`. -/
def kCheckIntervalMs : UInt32 := 5000

/-- `begin`. -/
def begin (c : ArduinoClock) : ArduinoClock := { c with started := true }

/-- `tick`, where `time` is what the system's clock reads if it is asked. -/
def tick (c : ArduinoClock) (nowMs : UInt32) (time : Int) : ArduinoClock :=
  if c.source ≠ .none then c
  else if c.started ∧ nowMs - c.lastCheckMs < kCheckIntervalMs then c
  else
    let c := begin { c with lastCheckMs := nowMs }
    if Iso8601.plausibleEpoch time then { c with source := .sntp } else c

/-- `acceptExternalUtc`; `sets` is the outcome of `settimeofday`. -/
def acceptExternalUtc (c : ArduinoClock) (epoch : Int) (source : ClockSource) (sets : Bool) :
    Bool × ArduinoClock :=
  if c.source ≠ .none then (false, c)
  else if !Iso8601.plausibleEpoch epoch then (false, c)
  else if !sets then (false, c)
  else (true, { c with source })

/-- `utc`. -/
def utc (time : Int) : Option Int := if Iso8601.plausibleEpoch time then some time else none

end ArduinoClock

/-! ## The rollback guard -/

/-- `esp_ota_img_states_t`, as far as it is told apart. -/
inductive ImageState where
  | pendingVerify
  | valid
  | other
  deriving DecidableEq, Repr

/-- What `esp_ota_ops` says of the running image. -/
structure RunningImage where
  /-- Whether the build supports rollback. -/
  supported : Bool := true
  /-- Whether the running partition is the factory one; none where there is no answer. -/
  isFactory : Option Bool := none
  /-- The state of the running partition; none where there is no answer. -/
  state : Option ImageState := none
  deriving DecidableEq

/-- `Esp32OtaSink::pendingVerify`. -/
def RunningImage.pendingVerify (image : RunningImage) : Bool :=
  image.isFactory.isSome && image.state = some .pendingVerify

/-- `rollback::GuardState`. -/
inductive GuardState where
  | ok
  | held
  | bypassed
  | unsupported
  deriving DecidableEq, Repr

/-- `rollback::check`. -/
def RunningImage.check (image : RunningImage) (updateWasPending : Bool) : GuardState :=
  if !image.supported then .unsupported
  else
    match image.isFactory with
    | none | some true => .ok
    | some false =>
        match image.state with
        | some .pendingVerify => .held
        | some .valid => if updateWasPending then .bypassed else .ok
        | some .other | none => .ok

end FirmwareUpdater
