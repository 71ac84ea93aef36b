import Mathlib.Data.List.GetD
import FirmwareUpdater.Core.CivilTime

/-!
# The texts of an instant

A timestamp is a civil time in fields of fixed width, a separator between date
and time, and a tail that says how far the time is from UTC. `stamp` builds
every such text; `parse` reads each back as the civil time's epoch less the
offset, so the formatter's text and the modem's quarter hours name the same
instant as the text an order carries.
-/

namespace FirmwareUpdater.Iso8601

open Library.Calendar

/-- What may stand between the date and the time. -/
inductive Separator where
  | upperT
  | lowerT
  | blank
  deriving DecidableEq

/-- Its character. -/
def Separator.byte : Separator → UInt8
  | .upperT => 84
  | .lowerT => 116
  | .blank => 32

/-- What may stand after the seconds. -/
inductive Tail where
  | none
  | upperZ
  | lowerZ
  | offset (minus colon : Bool) (hours minutes : Fin 100)
  deriving DecidableEq

/-- Its characters. -/
def Tail.bytes : Tail → List UInt8
  | .none => []
  | .upperZ => [90]
  | .lowerZ => [122]
  | .offset minus colon hours minutes =>
      (if minus then 45 else 43) ::
        (lastDigits 2 hours ++ ((if colon then [58] else []) ++ lastDigits 2 minutes))

/-- The seconds it puts the time ahead of UTC. -/
def Tail.seconds : Tail → Int
  | .offset minus _ hours minutes =>
      if minus then -((hours : Nat) * 3600 + (minutes : Nat) * 60)
      else (hours : Nat) * 3600 + (minutes : Nat) * 60
  | _ => 0

/-- The fields of a civil time, as a text holds them. -/
def Civil.bytes (c : Civil) (sep : Separator) : List UInt8 :=
  lastDigits 4 c.year.toNat ++ (45 :: (lastDigits 2 c.month.toNat ++ (45 ::
    (lastDigits 2 c.day.toNat ++ (sep.byte :: (lastDigits 2 c.hour.toNat ++ (58 ::
      (lastDigits 2 c.minute.toNat ++ (58 :: lastDigits 2 c.second.toNat)))))))))

/-- The text of a civil time with a separator and a tail. -/
def stamp (c : Civil) (sep : Separator) (tail : Tail) : CString :=
  .ofBytes (c.bytes sep ++ tail.bytes)

/-! ## Reading at a place -/

/-- The bytes from a place on. -/
theorem map_byteAt (text : CString) {start count : Nat} (h : start + count ≤ text.length) :
    (List.range count).map (fun i => text.byteAt (start + i)) =
      (text.bytes.drop start).take count := by
  have hlen : ((text.bytes.drop start).take count).length = count := by
    rw [List.length_take, List.length_drop]
    unfold CString.length at h
    omega
  refine List.ext_getElem (by simpa using hlen.symm) fun i hi _ => ?_
  rw [List.length_map, List.length_range] at hi
  unfold CString.length at h
  rw [List.getElem_map, List.getElem_range, List.getElem_take, List.getElem_drop,
    CString.byteAt, List.getD_eq_getElem _ _ (by omega)]

variable {text : CString} {before after : List UInt8}

/-- A number printed at a place is read there. -/
theorem digits_at (start : Nat) {count value : Nat}
    (htext : text.bytes = before ++ (lastDigits count value ++ after))
    (hstart : before.length = start) (hvalue : value < 10 ^ count) :
    digits text start count = some value := by
  have hlen : start + count ≤ text.length := by
    rw [CString.length, htext, List.length_append, List.length_append, length_lastDigits]
    omega
  have hread : (text.bytes.drop start).take count = lastDigits count value := by
    rw [htext, List.drop_left' hstart, List.take_left' (length_lastDigits count value)]
  have hall : (lastDigits count value).all isdigit = true :=
    List.all_eq_true.mpr (isdigit_lastDigits count value)
  rw [digits]
  simp only [map_byteAt text hlen, hread, hall, if_true, decimal_lastDigits hvalue]

/-- A number that is read starts with a digit. -/
theorem isdigit_of_digits {start count value : Nat}
    (h : digits text start (count + 1) = some value) : isdigit (text.byteAt start) := by
  rw [digits] at h
  simp only [Option.ite_none_right_eq_some] at h
  refine List.all_eq_true.mp h.1 _ ?_
  rw [List.mem_map]
  exact ⟨0, by simp, rfl⟩

/-- So is a single byte. -/
theorem byteAt_at {i : Nat} {b : UInt8} (htext : text.bytes = before ++ b :: after)
    (hi : before.length = i) : text.byteAt i = b := by
  rw [CString.byteAt, htext, List.getD_append_right _ _ _ _ (by omega), hi, Nat.sub_self]
  rfl

/-- Behind the last byte stands the terminator. -/
theorem byteAt_end {i : Nat} (hi : text.bytes.length = i) : text.byteAt i = 0 :=
  List.getD_eq_default _ _ (by omega)

/-- A number and the byte after it are read, and the text goes on behind them. -/
theorem field_at (start : Nat) {count value : Nat} {b : UInt8}
    (htext : text.bytes = before ++ (lastDigits count value ++ b :: after))
    (hstart : before.length = start) (hvalue : value < 10 ^ count) :
    digits text start count = some value ∧ text.byteAt (start + count) = b ∧
      text.bytes = (before ++ (lastDigits count value ++ [b])) ++ after := by
  refine ⟨digits_at start htext hstart hvalue, ?_, ?_⟩
  · have hfield : text.bytes = (before ++ lastDigits count value) ++ b :: after := by
      rw [htext, List.append_assoc]
    exact byteAt_at hfield (by rw [List.length_append, length_lastDigits, hstart])
  · rw [htext]
    simp only [List.append_assoc, List.cons_append, List.nil_append]

/-! ## Reading a text -/

/-- The bytes of a text, none of which is a terminator. -/
theorem bytes_stamp (c : Civil) (sep : Separator) (tail : Tail) :
    (stamp c sep tail).bytes = c.bytes sep ++ tail.bytes := by
  rw [stamp, CString.ofBytes_eq_iff]
  have hdigits : ∀ width value, (0 : UInt8) ∉ lastDigits width value := by
    intro width value hmem
    exact absurd (isdigit_lastDigits width value 0 hmem) (by decide)
  have hsep : (0 : UInt8) ≠ sep.byte := by cases sep <;> decide
  have htail : (0 : UInt8) ∉ tail.bytes := by
    cases tail with
    | offset minus colon hours minutes =>
        cases minus <;> cases colon <;> simp [Tail.bytes, hdigits]
    | _ => decide
  simp [Civil.bytes, hdigits, hsep, htail]

theorem length_bytes (c : Civil) (sep : Separator) : (c.bytes sep).length = 19 := by
  simp [Civil.bytes]

/-- The tail says how far the time is from UTC, whatever stands behind a `Z` or an offset. -/
theorem parseTail_eq {tail : Tail} {rest : List UInt8} (value : Int)
    (htext : text.bytes = before ++ (tail.bytes ++ rest)) (hbefore : before.length = 19)
    (hended : tail = .none → rest = []) : parseTail text value = some (value - tail.seconds) := by
  cases tail with
  | none =>
      have hend : text.byteAt 19 = 0 :=
        byteAt_end (by rw [htext, hended rfl, List.length_append, hbefore]; rfl)
      simp [parseTail, hend, Tail.seconds]
  | upperZ =>
      have hend : text.byteAt 19 = 90 := byteAt_at htext hbefore
      simp [parseTail, hend, Tail.seconds]
  | lowerZ =>
      have hend : text.byteAt 19 = 122 := byteAt_at htext hbefore
      simp [parseTail, hend, Tail.seconds]
  | offset minus colon hours minutes =>
      have hsign : text.byteAt 19 = if minus then 45 else 43 := byteAt_at htext hbefore
      have hrest : text.bytes = (before ++ [if minus then 45 else 43]) ++
          (lastDigits 2 hours ++
            ((if colon then [58] else []) ++ (lastDigits 2 minutes ++ rest))) := by
        rw [htext, Tail.bytes]
        simp only [List.append_assoc, List.cons_append, List.nil_append]
      have hhours : digits text 20 2 = some (hours : Nat) :=
        digits_at 20 hrest (by simp [hbefore]) hours.isLt
      have hminutes :
          digits text (if text.byteAt 22 = 58 then 23 else 22) 2 = some (minutes : Nat) := by
        cases colon with
        | true =>
            obtain ⟨-, hcolon, hafter⟩ := field_at 20 hrest (by simp [hbefore]) hours.isLt
            rw [hcolon, if_pos rfl]
            exact digits_at 23 hafter (by simp [hbefore]) minutes.isLt
        | false =>
            have hafter : text.bytes = (before ++ [if minus then 45 else 43] ++
                lastDigits 2 hours) ++ (lastDigits 2 minutes ++ rest) := by
              rw [hrest]
              simp
            have hread : digits text 22 2 = some (minutes : Nat) :=
              digits_at 22 hafter (by simp [hbefore]) minutes.isLt
            have hdigit : text.byteAt 22 ≠ 58 := by
              intro hcolon
              have hfirst := isdigit_of_digits hread
              rw [hcolon] at hfirst
              exact absurd hfirst (by decide)
            rw [if_neg hdigit, hread]
      simp only [parseTail, hsign, hhours, hminutes]
      cases minus
      · simp [Tail.seconds]
      · simp [Tail.seconds]
        omega

/-- A text that begins with these fields: each is in the range the code checks, and a `Z` or an
offset may have anything behind it. -/
structure Lenient (text : CString) (c : Civil) (sep : Separator) (tail : Tail)
    (rest : List UInt8) : Prop where
  bytes : text.bytes = c.bytes sep ++ (tail.bytes ++ rest)
  year : 0 ≤ c.year ∧ c.year ≤ 9999
  month : 1 ≤ c.month.toNat ∧ c.month.toNat ≤ 12
  day : 1 ≤ c.day.toNat ∧ c.day.toNat ≤ 31
  hour : c.hour.toNat ≤ 23
  minute : c.minute.toNat ≤ 59
  second : c.second.toNat ≤ 60
  ended : tail = .none → rest = []

/-- The numbers of such a text are read back. -/
theorem Lenient.fields {c : Civil} {sep : Separator} {tail : Tail} {rest : List UInt8}
    (h : Lenient text c sep tail rest) :
    (digits text 0 4 = some c.year.toNat ∧ text.byteAt 4 = 45) ∧
      (digits text 5 2 = some c.month.toNat ∧ text.byteAt 7 = 45) ∧
      (digits text 8 2 = some c.day.toNat ∧ text.byteAt 10 = sep.byte) ∧
      (digits text 11 2 = some c.hour.toNat ∧ text.byteAt 13 = 58) ∧
      (digits text 14 2 = some c.minute.toNat ∧ text.byteAt 16 = 58) ∧
      digits text 17 2 = some c.second.toNat := by
  obtain ⟨-, hyear⟩ := h.year
  obtain ⟨-, hmonth⟩ := h.month
  obtain ⟨-, hday⟩ := h.day
  have hhour := h.hour
  have hminute := h.minute
  have hsecond := h.second
  have htext : text.bytes = [] ++ (c.bytes sep ++ (tail.bytes ++ rest)) := h.bytes
  simp only [Civil.bytes, List.append_assoc, List.cons_append] at htext
  obtain ⟨hyear, hdash, htext⟩ := field_at 0 htext rfl (by omega)
  obtain ⟨hmonth, hdash', htext⟩ := field_at 5 htext (by simp) (by omega)
  obtain ⟨hday, hsep, htext⟩ := field_at 8 htext (by simp) (by omega)
  obtain ⟨hhour, hcolon, htext⟩ := field_at 11 htext (by simp) (by omega)
  obtain ⟨hminute, hcolon', htext⟩ := field_at 14 htext (by simp) (by omega)
  have hsecond := digits_at 17 htext (by simp) (by omega)
  exact ⟨⟨hyear, hdash⟩, ⟨hmonth, hdash'⟩, ⟨hday, hsep⟩, ⟨hhour, hcolon⟩, ⟨hminute, hcolon'⟩,
    hsecond⟩

/-- The civil time the code counts with: a leap second is the one before it. -/
def Civil.kept (c : Civil) : Civil :=
  { c with second := if c.second.toNat = 60 then 59 else c.second }

/-- Such a text reads as its epoch less the offset. -/
theorem Lenient.parse_eq {c : Civil} {sep : Separator} {tail : Tail} {rest : List UInt8}
    (h : Lenient text c sep tail rest) :
    parse text = some (toEpoch c.kept - tail.seconds) := by
  have htail := parseTail_eq (toEpoch c.kept) h.bytes (length_bytes c sep) h.ended
  obtain ⟨⟨hyear, hdash⟩, ⟨hmonth, hdash'⟩, ⟨hday, hsep⟩, ⟨hhour, hcolon⟩, ⟨hminute, hcolon'⟩,
    hsecond⟩ := h.fields
  obtain ⟨hyearpos, -⟩ := h.year
  obtain ⟨hmonthpos, hmonthle⟩ := h.month
  obtain ⟨hdaypos, hdayle⟩ := h.day
  have hisep : sep.byte = 84 ∨ sep.byte = 116 ∨ sep.byte = 32 := by cases sep <;> decide
  have hleap : UInt8.ofNat (if c.second.toNat = 60 then 59 else c.second.toNat) =
      if c.second.toNat = 60 then 59 else c.second := by
    split
    · rfl
    · exact UInt8.ofNat_toNat
  simpa [parse, hyear, hdash, hmonth, hdash', hday, hsep, hisep, hhour, hcolon, hminute, hcolon',
    hsecond, guard, hmonthpos, hmonthle, hdaypos, hdayle, h.hour, h.minute, h.second, hleap,
    hyearpos, Civil.kept] using htail

/-- Every text of a civil time reads as its epoch less the offset. -/
theorem parse_stamp {c : Civil} (h : c.Valid) (hyears : 1970 ≤ c.year ∧ c.year ≤ 9999)
    (sep : Separator) (tail : Tail) :
    parse (stamp c sep tail) = some (toEpoch c - tail.seconds) := by
  have hlenient : Lenient (stamp c sep tail) c sep tail [] :=
    { bytes := by rw [bytes_stamp, List.append_nil]
      year := ⟨by omega, hyears.2⟩
      month := ⟨h.date.month_pos, h.date.month_le⟩
      day := ⟨h.date.day_pos, h.date.day_le.trans (monthLength_le _ _)⟩
      hour := h.hour_le
      minute := h.minute_le
      second := h.second_le.trans (by decide)
      ended := fun _ => rfl }
  have hsecond := h.second_le
  have hkept : c.kept = c := by
    rw [Civil.kept, if_neg (by omega)]
  rw [hlenient.parse_eq, hkept]

/-! ## The formatter and the modem's quarter hours -/

/-- What `format` prints is the text with a `T` and a `Z`. -/
theorem formatted_eq {c : Civil} (h : c.Valid) (hyears : 1970 ≤ c.year ∧ c.year ≤ 9999) :
    formatted c = (stamp c .upperT .upperZ).bytes := by
  have hmonth : c.month.toNat ≤ 12 := h.date.month_le
  have hday : c.day.toNat ≤ 31 := h.date.day_le.trans (monthLength_le _ _)
  have hhour := h.hour_le
  have hminute := h.minute_le
  have hsecond := h.second_le
  have hsign : ¬c.year < 0 := by omega
  have hyear : printSigned 4 c.year = lastDigits 4 c.year.toNat := by
    rw [printSigned, if_neg hsign]
    exact printUnsigned_eq (by decide) (by omega)
  have hfield {n : Nat} (hn : n < 100) : printUnsigned 2 n = lastDigits 2 n :=
    printUnsigned_eq (by decide) (by omega)
  rw [bytes_stamp, formatted, hyear, hfield (by omega), hfield (by omega), hfield (by omega),
    hfield (by omega), hfield (by omega)]
  simp only [Civil.bytes, Tail.bytes, Separator.byte, List.append_assoc, List.cons_append,
    List.nil_append]

/-- The text of every epoch from 1970 to 9999 fits 21 bytes and reads back as the epoch. -/
theorem parse_format {epoch : Int} (hpos : 0 ≤ epoch) (hle : epoch ≤ 253402300799)
    {block : List UInt8} {cap : Nat} (hcap : 21 ≤ cap) :
    ∃ printed, format epoch (some block) cap = (true, some printed) ∧
      parse (.ofBytes printed) = some epoch := by
  obtain ⟨c, hc, hvalid, hyears, -, -, hepoch⟩ := fromEpoch_spec hpos hle
  have htext := formatted_eq hvalid hyears
  have hlen : (formatted c).length = 20 := by
    rw [htext, bytes_stamp, List.length_append, length_bytes]
    rfl
  have hstamp : CString.ofBytes (formatted c) = stamp c .upperT .upperZ := by
    rw [CString.eq_iff, htext, CString.ofBytes_eq_iff]
    exact (stamp c .upperT .upperZ).noNul
  refine ⟨snprintf block cap (.ofBytes (formatted c)), ?_, ?_⟩
  · have hroom : ¬cap < bufferLen := by
      unfold bufferLen
      omega
    have hfits : 20 < cap := by omega
    simp only [format, if_neg hroom, hc, hlen, hfits, Nat.zero_lt_succ, decide_true, Bool.and_self]
  · have hread : CString.ofBytes (snprintf block cap (.ofBytes (formatted c))) =
        stamp c .upperT .upperZ := by
      rw [CString.eq_iff, CString.ofBytes_snprintf (by omega), hstamp, ← htext]
      exact List.take_of_length_le (by omega)
    rw [hread, parse_stamp hvalid hyears, hepoch]
    simp [Tail.seconds]

/-- Every count of quarter hours the modem can report is the offset of a tail of either form. -/
theorem exists_quarters (tz_quarter_hours : Int8) (colon : Bool) :
    ∃ minus hours minutes, (Tail.offset minus colon hours minutes).seconds =
      15 * 60 * tz_quarter_hours.toInt := by
  have hlow := tz_quarter_hours.le_toInt
  have hhigh := tz_quarter_hours.toInt_lt
  have hhours : tz_quarter_hours.toInt.natAbs / 4 < 100 := by omega
  have hminutes : tz_quarter_hours.toInt.natAbs % 4 * 15 < 100 := by omega
  refine ⟨tz_quarter_hours.toInt < 0, ⟨_, hhours⟩, ⟨_, hminutes⟩, ?_⟩
  simp only [Tail.seconds, decide_eq_true_eq]
  split_ifs <;> omega

/-- Every text of an instant parses to it: the texts of a civil time, the formatter's text of an
epoch, and the modem's local time as its text with the offset of its quarter hours. -/
theorem texts_of_instant :
    (∀ (c : Civil) (sep : Separator) (tail : Tail), c.Valid → 1970 ≤ c.year → c.year ≤ 9999 →
      parse (stamp c sep tail) = some (toEpoch c - tail.seconds)) ∧
    (∀ (epoch : Int) (block : List UInt8) (cap : Nat), 0 ≤ epoch → epoch ≤ 253402300799 →
      21 ≤ cap → ∃ printed, format epoch (some block) cap = (true, some printed) ∧
        parse (.ofBytes printed) = some epoch) ∧
    (∀ (c : Civil) (sep : Separator) (colon : Bool) (tz_quarter_hours : Int8), c.Valid →
      1970 ≤ c.year → c.year ≤ 9999 →
      (∃ minus hours minutes, (Tail.offset minus colon hours minutes).seconds =
        15 * 60 * tz_quarter_hours.toInt) ∧
      ∀ minus hours minutes, (Tail.offset minus colon hours minutes).seconds =
          15 * 60 * tz_quarter_hours.toInt →
        parse (stamp c sep (.offset minus colon hours minutes)) =
          some (fromGsmLocal c tz_quarter_hours)) := by
  refine ⟨?_, ?_, ?_⟩
  · intro c sep tail hvalid hfirst hlast
    exact parse_stamp hvalid ⟨hfirst, hlast⟩ sep tail
  · intro epoch block cap hpos hle hcap
    exact parse_format hpos hle hcap
  · intro c sep colon tz_quarter_hours hvalid hfirst hlast
    refine ⟨exists_quarters tz_quarter_hours colon, ?_⟩
    intro minus hours minutes hseconds
    rw [parse_stamp hvalid ⟨hfirst, hlast⟩, hseconds, fromGsmLocal]
    congr 1
    omega

/-- The local time of a modem three hours behind UTC, and its text. -/
theorem texts_of_instant_modem :
    parse (stamp ⟨2025, 8, 20, 11, 5, 33⟩ .upperT (.offset true true 3 0)) =
      some (fromGsmLocal ⟨2025, 8, 20, 11, 5, 33⟩ (-12)) ∧
    ∃ printed, format 1755698733 (some (List.replicate 21 0)) 21 = (true, some printed) ∧
      parse (.ofBytes printed) = some 1755698733 := by
  obtain ⟨-, hformat, hmodem⟩ := texts_of_instant
  constructor
  · refine (hmodem ⟨2025, 8, 20, 11, 5, 33⟩ .upperT true (-12) ⟨⟨?_, ?_, ?_, ?_⟩, ?_, ?_, ?_⟩ ?_
      ?_).2 true 3 0 ?_
    all_goals decide
  · exact hformat 1755698733 _ 21 (by decide) (by decide) (by decide)

end FirmwareUpdater.Iso8601
