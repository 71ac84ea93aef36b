import Mathlib.Data.UInt
import FirmwareUpdater.Core.CLib

/-!
# ISO 8601 timestamps

`iso8601::parse` and the calendar arithmetic under it. A character is read with
`byteAt`, which gives the terminator at the end of the text; the reads come in
an order that stops there.
-/

namespace FirmwareUpdater.Iso8601

/-- `Civil`. -/
structure Civil where
  year : Int := 1970
  month : UInt8 := 1
  day : UInt8 := 1
  hour : UInt8 := 0
  minute : UInt8 := 0
  second : UInt8 := 0
  deriving DecidableEq

/-- `daysFromCivil`: days since 1970-01-01, on a March-based year. -/
def daysFromCivil (y : Int) (m d : UInt32) : Int :=
  let y := if m ≤ 2 then y - 1 else y
  let era := (if 0 ≤ y then y else y - 399).tdiv 400
  let yoe := UInt32.ofInt (y - era * 400)
  let doy := (153 * (if m > 2 then m - 3 else m + 9) + 2) / 5 + d - 1
  let doe := yoe * 365 + yoe / 4 - yoe / 100 + doy
  era * 146097 + doe.toNat - 719468

/-- `toEpoch`. -/
def toEpoch (utc : Civil) : Int :=
  daysFromCivil utc.year utc.month.toUInt32 utc.day.toUInt32 * 86400 + utc.hour.toNat * 3600 +
    utc.minute.toNat * 60 + utc.second.toNat

/-- `civilFromDays`: the year, month and day of a day number. -/
def civilFromDays (z : Int) : Int × UInt32 × UInt32 :=
  let z := z + 719468
  let era := (if 0 ≤ z then z else z - 146096).tdiv 146097
  let doe := UInt32.ofInt (z - era * 146097)
  let yoe := (doe - doe / 1460 + doe / 36524 - doe / 146096) / 365
  let yr := yoe.toNat + era * 400
  let doy := doe - (365 * yoe + yoe / 4 - yoe / 100)
  let mp := (5 * doy + 2) / 153
  let d := doy - (153 * mp + 2) / 5 + 1
  let m := mp + if mp < 10 then 3 else -9
  -- `static_cast<int32_t>`.
  ((yr + if m ≤ 2 then 1 else 0).bmod 4294967296, m, d)

/-- `fromEpoch`: the civil time of an epoch from 1970 on. -/
def fromEpoch (epoch_s : Int) : Option Civil :=
  if epoch_s < 0 then none
  else
    let days := epoch_s.tdiv 86400
    let rem := epoch_s.tmod 86400
    let (y, m, d) := civilFromDays days
    some
      { year := y
        month := m.toUInt8
        day := d.toUInt8
        hour := UInt8.ofInt (rem.tdiv 3600)
        minute := UInt8.ofInt ((rem.tmod 3600).tdiv 60)
        second := UInt8.ofInt ((rem.tmod 3600).tmod 60) }

/-- `kBufferLen`. -/
def bufferLen : Nat := 21

/-- The text `format` prints: `%04d-%02u-%02uT%02u:%02u:%02uZ`. -/
def formatted (c : Civil) : List UInt8 :=
  printSigned 4 c.year ++ [45] ++ printUnsigned 2 c.month.toNat ++ [45] ++
    printUnsigned 2 c.day.toNat ++ [84] ++ printUnsigned 2 c.hour.toNat ++ [58] ++
    printUnsigned 2 c.minute.toNat ++ [58] ++ printUnsigned 2 c.second.toNat ++ [90]

/-- `format`: whether the whole text fits, and what the buffer then holds. -/
def format (epoch_s : Int) (out : Option (List UInt8)) (cap : Nat) :
    Bool × Option (List UInt8) :=
  match out with
  | none => (false, none)
  | some block =>
    if cap < bufferLen then (false, out)
    else
      match fromEpoch epoch_s with
      | none => (false, out)
      | some c =>
        let text := formatted c
        (0 < text.length && text.length < cap, some (snprintf block cap (.ofBytes text)))

/-- `digits`: the value of exactly `count` digits at `start`. -/
def digits (text : CString) (start count : Nat) : Option Nat :=
  let read := (List.range count).map fun i => text.byteAt (start + i)
  if read.all isdigit then some (decimal read) else none

/-- The offset after the seconds: nothing and `Z` mean UTC. -/
def parseTail (text : CString) (value : Int) : Option Int :=
  let tail := text.byteAt 19
  if tail = 43 ∨ tail = 45 then do
    let oh ← digits text 20 2
    let minAt := if text.byteAt 22 = 58 then 23 else 22
    let om ← digits text minAt 2
    let offset : Int := oh * 3600 + om * 60
    some (if tail = 43 then value - offset else value + offset)
  else if tail ≠ 0 ∧ tail ≠ 90 ∧ tail ≠ 122 then none
  else some value

/-- `parse`: the epoch of a timestamp, where it is one. -/
def parse (text : CString) : Option Int := do
  let year ← digits text 0 4
  guard (text.byteAt 4 = 45)
  let mon ← digits text 5 2
  guard (text.byteAt 7 = 45)
  let day ← digits text 8 2
  let sep := text.byteAt 10
  guard (sep = 84 ∨ sep = 116 ∨ sep = 32)
  let hh ← digits text 11 2
  guard (text.byteAt 13 = 58)
  let mm ← digits text 14 2
  guard (text.byteAt 16 = 58)
  let ss ← digits text 17 2
  guard (1 ≤ mon ∧ mon ≤ 12 ∧ 1 ≤ day ∧ day ≤ 31)
  guard (hh ≤ 23 ∧ mm ≤ 59 ∧ ss ≤ 60)
  let civil : Civil :=
    { year
      month := UInt8.ofNat mon
      day := UInt8.ofNat day
      hour := UInt8.ofNat hh
      minute := UInt8.ofNat mm
      second := UInt8.ofNat (if ss = 60 then 59 else ss) }
  parseTail text (toEpoch civil)

/-- `fromGsmLocal`: the epoch of the modem's local time, whose zone counts quarters of an hour. -/
def fromGsmLocal (localTime : Civil) (tz_quarter_hours : Int8) : Int :=
  toEpoch localTime - tz_quarter_hours.toInt * 15 * 60

/-- `plausible`: from 2024 to 2099. -/
def plausibleEpoch (epoch_s : Int) : Bool := 1704067200 ≤ epoch_s ∧ epoch_s < 4102444800

end FirmwareUpdater.Iso8601
