import FirmwareUpdater.Core.Hex
import FirmwareUpdater.Core.Types

/-!
# The OTA sink

`Esp32OtaSink` over `esp_ota_*` and the streaming `Sha256`. Every library call
has its outcome in a record, so one definition covers every way the flash and
the digest may fail. An operation returns its error, the sink it leaves, and
what it did to the flash: the blocks `esp_ota_write` accepted and the call that
makes the image bootable.
-/

namespace FirmwareUpdater

/-- The streaming digest. `absorbed` stands for the mbedtls context: the bytes fed to it since it
was started. -/
structure Sha256 where
  active : Bool := false
  absorbed : List UInt8 := []
  deriving DecidableEq

namespace Sha256

/-- `reset`. -/
def reset (sha : Sha256) : Sha256 := { sha with active := false }

/-- `begin`; `starts` is the outcome of `mbedtls_sha256_starts`. -/
def begin (sha : Sha256) (starts : Bool) : Bool × Sha256 :=
  if !starts then (false, sha.reset) else (true, { active := true, absorbed := [] })

/-- `update`; a failing `mbedtls_sha256_update` leaves the context as it was. -/
def update (sha : Sha256) (block : Buffer) (updates : Bool) : Bool × Sha256 :=
  if !sha.active then (false, sha)
  else
    match block.data with
    | none => (block.len = 0, sha)
    | some bytes =>
        if block.len = 0 then (true, sha)
        else if !updates then (false, sha)
        else (true, { sha with absorbed := sha.absorbed ++ bytes })

/-- `finish`: the digest of what was fed, where `sha256` is the function the library computes. -/
def finish (sha256 : List UInt8 → Digest) (sha : Sha256) (finishes : Bool) :
    Option Digest × Sha256 :=
  if !sha.active then (none, sha)
  else
    (if finishes then some (sha256 sha.absorbed) else none, { sha with active := false })

end Sha256

/-- The part of `esp_partition_t` the sink reads. -/
structure Partition where
  size : UInt32
  deriving DecidableEq

/-- The sink's members. -/
structure OtaSink where
  target : Option Partition := none
  handle : UInt32 := 0
  written : UInt32 := 0
  expected : UInt32 := 0
  isOpen : Bool := false
  sha : Sha256 := {}
  deriving DecidableEq

namespace OtaSink

/-- What an operation did to the flash. -/
inductive Effect where
  | accepted (bytes : List UInt8)
  | setBootPartition
  deriving DecidableEq

/-- The library's answers to `begin`: the update partition, the handle of `esp_ota_begin` where
it succeeds, and whether the digest starts. -/
structure BeginOutcome where
  partition : Option Partition
  otaBegin : Option UInt32
  shaStarts : Bool

/-- The library's answers to `write`. -/
structure WriteOutcome where
  otaWrite : Bool
  shaUpdate : Bool

/-- The library's answers to `finish`. -/
structure FinishOutcome where
  shaFinish : Bool
  otaEnd : Bool
  setBoot : Bool

/-- `begin`. -/
def begin (s : OtaSink) (expectedSize : UInt32) (o : BeginOutcome) : OtaSinkError × OtaSink :=
  if s.isOpen then (.alreadyOpen, s)
  else
    match o.partition with
    | none => (.noPartition, { s with target := none })
    | some target =>
        let s := { s with target := some target }
        if expectedSize > 0 ∧ expectedSize > target.size then (.tooLarge, s)
        else
          match o.otaBegin with
          | none => (.beginFailed, s)
          | some handle =>
              let (started, sha) := s.sha.begin o.shaStarts
              if !started then (.beginFailed, { s with handle := 0, sha })
              else
                (.ok,
                  { s with handle, sha, written := 0, expected := expectedSize, isOpen := true })

/-- The checks of `write` before the flash is touched. Both lengths are 32 bits wide, and so is
their sum. -/
def fits (s : OtaSink) (len : Nat) : Bool :=
  match s.target with
  | none => true
  | some target => s.written + UInt32.ofNat len ≤ target.size

/-- `write`. -/
def write (s : OtaSink) (block : Buffer) (o : WriteOutcome) :
    OtaSinkError × OtaSink × List Effect :=
  if !s.isOpen then (.notOpen, s, [])
  else if block.len = 0 then (.ok, s, [])
  else
    match block.data with
    | none => (.writeFailed, s, [])
    | some bytes =>
        if !s.fits block.len then (.tooLarge, s, [])
        else if !o.otaWrite then (.writeFailed, s, [])
        else
          let (updated, sha) := s.sha.update block o.shaUpdate
          if !updated then (.writeFailed, { s with sha }, [.accepted bytes])
          else
            (.ok, { s with sha, written := s.written + UInt32.ofNat block.len },
              [.accepted bytes])

/-- `abort`. -/
def abort (s : OtaSink) : OtaSink :=
  let s := if s.isOpen then { s with handle := 0, isOpen := false } else s
  { s with sha := s.sha.reset, written := 0, expected := 0 }

/-- `finish`; a null digest asks for no comparison. -/
def finish (sha256 : List UInt8 → Digest) (s : OtaSink) (expectedSha256 : Option Digest)
    (o : FinishOutcome) : OtaSinkError × OtaSink × List Effect :=
  if !s.isOpen then (.notOpen, s, [])
  else if s.expected > 0 ∧ s.written ≠ s.expected then (.checksumMismatch, s.abort, [])
  else
    let (actual, sha) := s.sha.finish sha256 o.shaFinish
    let s := { s with sha }
    match actual with
    | none => (.endFailed, s.abort, [])
    | some actual =>
        if (expectedSha256.any fun digest => !Hex.equal actual digest) then
          (.checksumMismatch, s.abort, [])
        else
          let s := { s with handle := 0, isOpen := false }
          if !o.otaEnd then (.endFailed, s, [])
          else if !o.setBoot then (.setBootFailed, s, [.setBootPartition])
          else (.ok, s, [.setBootPartition])

/-- A call by whoever holds the sink, with the library's answers to it. -/
inductive Call where
  | begin (expectedSize : UInt32) (o : BeginOutcome)
  | write (block : Buffer) (o : WriteOutcome)
  | finish (digest : Option Digest) (o : FinishOutcome)
  | abort

variable (sha256 : List UInt8 → Digest)

/-- The sink after a call. -/
def exec (s : OtaSink) : Call → OtaSink
  | .begin expectedSize o => (s.begin expectedSize o).2
  | .write block o => (s.write block o).2.1
  | .finish digest o => (s.finish sha256 digest o).2.1
  | .abort => s.abort

/-- What a call does to the flash. -/
def effects (s : OtaSink) : Call → List Effect
  | .write block o => (s.write block o).2.2
  | .finish digest o => (s.finish sha256 digest o).2.2
  | .begin _ _ | .abort => []

/-- The sink after a sequence of calls. -/
def execAll (s : OtaSink) (calls : List Call) : OtaSink := calls.foldl (exec sha256) s

/-- The bytes `esp_ota_write` accepted over a sequence of calls, in order. -/
def accepted (s : OtaSink) : List Call → List UInt8
  | [] => []
  | call :: calls =>
      (s.effects sha256 call).flatMap (fun | .accepted bytes => bytes | .setBootPartition => []) ++
        accepted (s.exec sha256 call) calls

/-- A `begin` that opens a session. -/
def opens (s : OtaSink) : Call → Bool
  | .begin expectedSize o => (s.begin expectedSize o).1 = .ok
  | _ => false

end OtaSink

end FirmwareUpdater
