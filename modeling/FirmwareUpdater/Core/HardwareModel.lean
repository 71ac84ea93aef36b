import Mathlib.Data.Vector.Basic
import FirmwareUpdater.Core.HexCodec
import FirmwareUpdater.Core.Types

/-!
# The identity of a board

`hardware::classify` and `hardware::boardId`.
-/

namespace FirmwareUpdater.Hardware

/-- A text of 16 bytes has room for its NUL. -/
theorem chip_pos : 0 < 16 := by decide

/-- The fields of `HardwareInfo` that are read. -/
structure HardwareInfo where
  chip : Field 16 := ⟨.empty, chip_pos⟩
  flashBytes : UInt32 := 0
  psramBytes : UInt32 := 0
  mac : Vector UInt8 6 := Vector.replicate 6 0
  otaSizeBytes : UInt32 := 0
  otaCapable : Bool := false

/-- `toMegabytes`. -/
def toMegabytes (bytes : UInt32) : UInt32 := bytes / (1024 * 1024)

/-- `isS3`. -/
def isS3 (chip : CString) : Bool :=
  (strstr chip (ascii "S3")).isSome || (strstr chip (ascii "s3")).isSome

/-- `isPlainEsp32`. -/
def isPlainEsp32 (chip : CString) : Bool :=
  (ascii "ESP32").isPrefixOf chip.bytes && !isS3 chip && (strstr chip (ascii "S2")).isNone &&
    (strstr chip (ascii "C3")).isNone && (strstr chip (ascii "C6")).isNone &&
    (strstr chip (ascii "H2")).isNone

/-- The text `classify` prints. -/
def model (hw : HardwareInfo) : List UInt8 :=
  let flashMb := printUnsigned 0 (toMegabytes hw.flashBytes).toNat
  let psramMb := toMegabytes hw.psramBytes
  let psram := if 0 < psramMb then ascii "r" ++ printUnsigned 0 psramMb.toNat else []
  if isS3 hw.chip.text then ascii "esp32s3-n" ++ flashMb ++ psram
  else if isPlainEsp32 hw.chip.text then
    -- PSRAM is the only thing that separates a WROVER from a plain board.
    ascii (if 0 < psramMb then "esp32-wrover-n" else "esp32-wroom-n") ++ flashMb ++ psram
  else hw.chip.text.bytes.map tolower ++ ascii "-n" ++ flashMb

/-- `classify`, into a buffer of `cap` bytes: whether everything fits, and what the buffer reads
as. -/
def classify (hw : HardwareInfo) {cap : Nat} (hcap : 0 < cap) : Bool × Field cap :=
  (0 < (model hw).length ∧ (model hw).length < cap, .print hcap (.ofBytes (model hw)))

/-- `%02X`. -/
def printHex (byte : UInt8) : List UInt8 :=
  [(ascii "0123456789ABCDEF").getD (byte >>> 4).toNat 0,
    (ascii "0123456789ABCDEF").getD (byte &&& 0x0F).toNat 0]

/-- `boardId`: the octets of the MAC, the last one first. -/
def boardId (mac : Vector UInt8 6) : CString := .ofBytes (mac.toList.reverse.flatMap printHex)

end FirmwareUpdater.Hardware
