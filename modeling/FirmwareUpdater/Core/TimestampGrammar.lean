import FirmwareUpdater.Core.TimeText

/-!
# What a timestamp may look like

`Timestamp` is the text that `parse` is documented to accept, `Lenient` the one
it accepts: `parse_sound` reads the fields back from a text that was accepted.
They differ in the length of the month, in the range of an offset and in what
stands behind a `Z` or an offset; `accepts_only_timestamps_iff` says so for every
text.
-/

namespace FirmwareUpdater.Iso8601

open Library.Calendar

/-- `parse` as its caller sees it: whether the text is accepted, and what `epoch_s` holds then. -/
def parseInto (text : CString) (epoch_s : Int) : Bool × Int :=
  match parse text with
  | some value => (true, value)
  | none => (false, epoch_s)

/-- An offset of at most 23 hours and 59 minutes, if there is one. -/
def Tail.InRange : Tail → Prop
  | .offset _ _ hours minutes => (hours : Nat) ≤ 23 ∧ (minutes : Nat) ≤ 59
  | _ => True

/-- A timestamp: a date of the calendar, a time of the day and a tail, and nothing else. -/
def Timestamp (text : CString) : Prop :=
  ∃ c sep, ∃ tail : Tail, text.bytes = Civil.bytes c sep ++ tail.bytes ∧
    0 ≤ c.year ∧ c.year ≤ 9999 ∧ c.date.Valid ∧ c.hour.toNat ≤ 23 ∧ c.minute.toNat ≤ 59 ∧
    c.second.toNat ≤ 60 ∧ tail.InRange

/-! ## Reading the fields back -/

/-- Digits are the last digits of their value. -/
theorem lastDigits_decimal {digits : List UInt8} (h : ∀ b ∈ digits, isdigit b) :
    lastDigits digits.length (decimal digits) = digits := by
  induction digits using List.reverseRecOn with
  | nil => rfl
  | append_singleton digits digit ih =>
      have hdigit := h digit (by simp)
      have hrest := ih fun b hb => h b (List.mem_append_left _ hb)
      simp only [isdigit, Bool.and_eq_true, decide_eq_true_eq] at hdigit
      have hge : 48 ≤ digit.toNat := UInt8.le_iff_toNat_le.mp hdigit.1
      have hle : digit.toNat ≤ 57 := UInt8.le_iff_toNat_le.mp hdigit.2
      have hfold : decimal (digits ++ [digit]) = decimal digits * 10 + (digit.toNat - 48) := by
        simp [decimal]
      have hdiv : (decimal digits * 10 + (digit.toNat - 48)) / 10 = decimal digits := by omega
      have hmod : (decimal digits * 10 + (digit.toNat - 48)) % 10 = digit.toNat - 48 := by omega
      have hback : 48 + (digit.toNat - 48) = digit.toNat := by omega
      rw [List.length_append, List.length_singleton, lastDigits, hfold, hdiv, hmod, hback, hrest,
        UInt8.ofNat_toNat]

variable {text : CString} {before after : List UInt8}

/-- A byte that is read and is not the terminator stands in the text. -/
theorem byte_read {i : Nat} {b : UInt8} (htext : text.bytes = before ++ after)
    (hi : before.length = i) (hread : text.byteAt i = b) (hb : b ≠ 0) :
    ∃ rest, after = b :: rest := by
  rw [CString.byteAt, htext, List.getD_append_right _ _ _ _ (by omega), hi, Nat.sub_self] at hread
  cases after with
  | nil => exact absurd hread.symm hb
  | cons first rest => exact ⟨rest, by rw [← hread]; rfl⟩

/-- A number that is read stands in the text. -/
theorem digits_read {start count value : Nat} (htext : text.bytes = before ++ after)
    (hstart : before.length = start) (hread : digits text start count = some value) :
    ∃ rest, after = lastDigits count value ++ rest ∧ value < 10 ^ count := by
  have hall : ((List.range count).map fun i => text.byteAt (start + i)).all isdigit = true ∧
      decimal ((List.range count).map fun i => text.byteAt (start + i)) = value := by
    rw [digits] at hread
    simpa only [Option.ite_none_right_eq_some, Option.some_inj] using hread
  obtain ⟨hdigits, hvalue⟩ := hall
  have hdigits := List.all_eq_true.mp hdigits
  have hroom : start + count ≤ text.length := by
    by_contra hshort
    -- The terminator would be among the digits.
    have hge : start ≤ text.bytes.length := by
      rw [htext, List.length_append]
      omega
    have hlt : text.bytes.length - start < count := by
      unfold CString.length at hshort
      omega
    have hzero : isdigit (text.byteAt (start + (text.bytes.length - start))) :=
      hdigits _ (List.mem_map.mpr ⟨_, List.mem_range.mpr hlt, rfl⟩)
    rw [byteAt_end (by omega)] at hzero
    exact absurd hzero (by decide)
  rw [map_byteAt text hroom, htext, List.drop_left' hstart] at hdigits hvalue
  have hlength : (after.take count).length = count := by
    rw [CString.length, htext, List.length_append] at hroom
    rw [List.length_take]
    omega
  refine ⟨after.drop count, ?_, ?_⟩
  · have hback := lastDigits_decimal hdigits
    rw [hlength, hvalue] at hback
    rw [hback, List.take_append_drop]
  · have hlt := decimal_lt hdigits
    rwa [hlength, hvalue] at hlt

/-- A number and the byte behind it that are read stand in the text, which goes on behind them. -/
theorem field_read (start : Nat) {count value : Nat} {b : UInt8}
    (htext : text.bytes = before ++ after) (hstart : before.length = start)
    (hread : digits text start count = some value) (hbyte : text.byteAt (start + count) = b)
    (hb : b ≠ 0) :
    value < 10 ^ count ∧
      ∃ rest, text.bytes = (before ++ (lastDigits count value ++ [b])) ++ rest := by
  obtain ⟨middle, hmiddle, hlt⟩ := digits_read htext hstart hread
  have htext' : text.bytes = (before ++ lastDigits count value) ++ middle := by
    rw [htext, hmiddle, List.append_assoc]
  have hlength : (before ++ lastDigits count value).length = start + count := by
    rw [List.length_append, length_lastDigits, hstart]
  obtain ⟨rest, hrest⟩ := byte_read htext' hlength hbyte hb
  refine ⟨hlt, rest, ?_⟩
  rw [htext', hrest]
  simp only [List.append_assoc, List.cons_append, List.nil_append]

/-- A tail that is read stands in the text. -/
theorem tail_read {value result : Int} (htext : text.bytes = before ++ after)
    (hbefore : before.length = 19) (hread : parseTail text value = some result) :
    ∃ tail rest, after = Tail.bytes tail ++ rest ∧ (tail = .none → rest = []) := by
  rw [parseTail] at hread
  split at hread
  · simp only [Option.bind_eq_bind, Option.bind_eq_some_iff] at hread
    obtain ⟨hours, hhours, minutes, hminutes, -⟩ := hread
    obtain ⟨minus, hsign⟩ : ∃ minus : Bool, text.byteAt 19 = if minus then 45 else 43 := by
      rename_i hsign
      rcases hsign with hplus | hminus
      · exact ⟨false, hplus⟩
      · exact ⟨true, hminus⟩
    obtain ⟨rest, rfl⟩ := byte_read htext hbefore hsign (by cases minus <;> decide)
    have htext' : text.bytes = (before ++ [if minus then 45 else 43]) ++ rest := by
      rw [htext, List.append_assoc, List.singleton_append]
    have hlength : (before ++ [if minus then (45 : UInt8) else 43]).length = 20 := by
      rw [List.length_append, hbefore, List.length_singleton]
    obtain ⟨rest, rfl, hhours⟩ := digits_read htext' hlength hhours
    rw [← List.append_assoc] at htext'
    have hlength : (before ++ [if minus then (45 : UInt8) else 43] ++
        lastDigits 2 hours).length = 22 := by
      rw [List.length_append, hlength, length_lastDigits]
    by_cases hcolon : text.byteAt 22 = 58
    · rw [if_pos hcolon] at hminutes
      obtain ⟨rest, rfl⟩ := byte_read htext' hlength hcolon (by decide)
      have htext'' : text.bytes = (before ++ [if minus then 45 else 43] ++ lastDigits 2 hours ++
          [58]) ++ rest := by
        rw [htext', List.append_assoc _ [58], List.singleton_append]
      obtain ⟨rest, rfl, hminutes⟩ := digits_read htext'' (by
        rw [List.length_append, hlength, List.length_singleton]) hminutes
      refine ⟨.offset minus true ⟨hours, hhours⟩ ⟨minutes, hminutes⟩, rest, ?_,
        fun hnone => by cases hnone⟩
      simp only [Tail.bytes, List.append_assoc, List.cons_append, List.nil_append, if_true]
    · rw [if_neg hcolon] at hminutes
      obtain ⟨rest, rfl, hminutes⟩ := digits_read htext' hlength hminutes
      refine ⟨.offset minus false ⟨hours, hhours⟩ ⟨minutes, hminutes⟩, rest, ?_,
        fun hnone => by cases hnone⟩
      simp only [Tail.bytes, List.append_assoc, List.cons_append, List.nil_append,
        Bool.false_eq_true, if_false]
  · split at hread
    · cases hread
    · rename_i hother
      cases after with
      | nil => exact ⟨.none, [], rfl, fun _ => rfl⟩
      | cons b rest =>
          have hb : text.byteAt 19 = b := byteAt_at htext hbefore
          have hmem : b ∈ text.bytes := htext ▸ List.mem_append_right _ List.mem_cons_self
          have hne : b ≠ 0 := fun h => text.noNul (h ▸ hmem)
          rw [hb] at hother
          by_cases hupper : b = 90
          · exact ⟨.upperZ, rest, by rw [hupper]; rfl, fun hnone => by cases hnone⟩
          · by_cases hlower : b = 122
            · exact ⟨.lowerZ, rest, by rw [hlower]; rfl, fun hnone => by cases hnone⟩
            · exact absurd ⟨hne, hupper, hlower⟩ hother

/-- What `parse` has read when it accepts a text. -/
theorem parse_some {value : Int} (h : parse text = some value) :
    ∃ year month day hour minute second, ∃ sep : Separator,
      (digits text 0 4 = some year ∧ text.byteAt 4 = 45) ∧
      (digits text 5 2 = some month ∧ text.byteAt 7 = 45) ∧
      (digits text 8 2 = some day ∧ text.byteAt 10 = sep.byte) ∧
      (digits text 11 2 = some hour ∧ text.byteAt 13 = 58) ∧
      (digits text 14 2 = some minute ∧ text.byteAt 16 = 58) ∧
      digits text 17 2 = some second ∧ (1 ≤ month ∧ month ≤ 12 ∧ 1 ≤ day ∧ day ≤ 31) ∧
      (hour ≤ 23 ∧ minute ≤ 59 ∧ second ≤ 60) ∧ ∃ epoch, parseTail text epoch = some value := by
  simp only [parse, Option.bind_eq_bind, Option.bind_eq_some_iff, Option.guard_eq_some',
    exists_and_left, exists_const] at h
  obtain ⟨year, hyear, hdash, month, hmonth, hdash', day, hday, hsep, hour, hhour, hcolon, minute,
    hminute, hcolon', second, hsecond, hdate, htime, htail⟩ := h
  obtain ⟨sep, hsep⟩ : ∃ sep : Separator, text.byteAt 10 = sep.byte := by
    rcases hsep with hupper | hlower | hblank
    · exact ⟨.upperT, hupper⟩
    · exact ⟨.lowerT, hlower⟩
    · exact ⟨.blank, hblank⟩
  exact ⟨year, month, day, hour, minute, second, sep, ⟨hyear, hdash⟩, ⟨hmonth, hdash'⟩,
    ⟨hday, hsep⟩, ⟨hhour, hcolon⟩, ⟨hminute, hcolon'⟩, hsecond, hdate, htime, _, htail⟩

/-- An accepted text begins with the fields of a timestamp. -/
theorem parse_sound {value : Int} (h : parse text = some value) :
    ∃ c sep tail rest, Lenient text c sep tail rest := by
  obtain ⟨year, month, day, hour, minute, second, sep, ⟨hyear, hdash⟩, ⟨hmonth, hdash'⟩,
    ⟨hday, hsep⟩, ⟨hhour, hcolon⟩, ⟨hminute, hcolon'⟩, hsecond, hdate, htime, epoch, htail⟩ :=
    parse_some h
  have htext : text.bytes = [] ++ text.bytes := rfl
  obtain ⟨hyearlt, rest, htext⟩ := field_read 0 htext rfl hyear hdash (by decide)
  obtain ⟨-, rest, htext⟩ := field_read 5 htext (by simp) hmonth hdash' (by decide)
  obtain ⟨-, rest, htext⟩ := field_read 8 htext (by simp) hday hsep (by cases sep <;> decide)
  obtain ⟨-, rest, htext⟩ := field_read 11 htext (by simp) hhour hcolon (by decide)
  obtain ⟨-, rest, htext⟩ := field_read 14 htext (by simp) hminute hcolon' (by decide)
  obtain ⟨rest, rfl, -⟩ := digits_read htext (by simp) hsecond
  obtain ⟨c, hc⟩ : ∃ c : Civil, c = ⟨year, UInt8.ofNat month, UInt8.ofNat day, UInt8.ofNat hour,
    UInt8.ofNat minute, UInt8.ofNat second⟩ := ⟨_, rfl⟩
  have hbyte {n : Nat} (hn : n ≤ 60) : (UInt8.ofNat n).toNat = n :=
    UInt8.toNat_ofNat_of_lt' (by
      show n < 256
      omega)
  have hbytes : text.bytes = c.bytes sep ++ rest := by
    rw [htext, hc]
    simp only [Civil.bytes, hbyte (show month ≤ 60 by omega), hbyte (show day ≤ 60 by omega),
      hbyte (show hour ≤ 60 by omega), hbyte (show minute ≤ 60 by omega), hbyte htime.2.2,
      Int.toNat_natCast, List.append_assoc, List.cons_append, List.nil_append]
  obtain ⟨tail, rest, rfl, hended⟩ := tail_read hbytes (length_bytes c sep) htail
  refine ⟨c, sep, tail, rest, hbytes, ?_, ?_, ?_, ?_, ?_, ?_, hended⟩
  all_goals subst hc
  · exact ⟨Int.natCast_nonneg year, by
      show (year : Int) ≤ 9999
      omega⟩
  · rw [hbyte (show month ≤ 60 by omega)]
    omega
  · rw [hbyte (show day ≤ 60 by omega)]
    omega
  · rw [hbyte (show hour ≤ 60 by omega)]
    omega
  · rw [hbyte (show minute ≤ 60 by omega)]
    omega
  · rw [hbyte htime.2.2]
    exact htime.2.2

/-- Numbers of one width are the same when their digits are. -/
theorem lastDigits_inj {width : Nat} {value value' : Nat} {rest rest' : List UInt8}
    (hlt : value < 10 ^ width) (hlt' : value' < 10 ^ width)
    (h : lastDigits width value ++ rest = lastDigits width value' ++ rest') :
    value = value' ∧ rest = rest' := by
  obtain ⟨hdigits, hrest⟩ := List.append_inj h (by rw [length_lastDigits, length_lastDigits])
  have hdecimal := congrArg decimal hdigits
  rw [decimal_lastDigits hlt, decimal_lastDigits hlt'] at hdecimal
  exact ⟨hdecimal, hrest⟩

/-- A colon is no digit. -/
theorem colon_ne_digits {value : Nat} {rest rest' : List UInt8} :
    58 :: rest ≠ lastDigits 2 value ++ rest' := by
  intro h
  have hmem : (58 : UInt8) ∈ lastDigits 2 value := by
    rw [lastDigits, lastDigits, lastDigits] at h ⊢
    rw [List.nil_append, List.singleton_append, List.cons_append, List.cons.injEq] at h
    rw [← h.1]
    exact List.mem_cons_self
  exact absurd (isdigit_lastDigits 2 value 58 hmem) (by decide)

/-- Where the tail of a text ends is settled by the text. -/
theorem Tail.unique {tail tail' : Tail} {rest rest' : List UInt8}
    (h : tail.bytes ++ rest = tail'.bytes ++ rest') (hended : tail = .none → rest = [])
    (hended' : tail' = .none → rest' = []) : tail = tail' ∧ rest = rest' := by
  cases tail with
  | none =>
      rw [hended rfl] at h ⊢
      cases tail' with
      | none => exact ⟨rfl, (hended' rfl).symm⟩
      | _ => cases h
  | upperZ =>
      cases tail' with
      | none => rw [hended' rfl] at h; cases h
      | upperZ => exact ⟨rfl, List.append_cancel_left h⟩
      | lowerZ => cases h
      | offset minus _ _ _ => cases minus <;> cases h
  | lowerZ =>
      cases tail' with
      | none => rw [hended' rfl] at h; cases h
      | lowerZ => exact ⟨rfl, List.append_cancel_left h⟩
      | upperZ => cases h
      | offset minus _ _ _ => cases minus <;> cases h
  | offset minus colon hours minutes =>
      cases tail' with
      | none => rw [hended' rfl] at h; cases h
      | upperZ => cases minus <;> cases h
      | lowerZ => cases minus <;> cases h
      | offset minus' colon' hours' minutes' =>
          simp only [Tail.bytes, List.cons_append, List.append_assoc, List.cons.injEq] at h
          obtain ⟨hsign, h⟩ := h
          have hminus : minus = minus' := by
            revert hsign
            cases minus <;> cases minus' <;> decide
          obtain ⟨hhours, h⟩ := lastDigits_inj hours.isLt hours'.isLt h
          have hcolon : colon = colon' := by
            cases colon <;> cases colon'
            · rfl
            · exact absurd h.symm colon_ne_digits
            · exact absurd h colon_ne_digits
            · rfl
          subst hcolon
          obtain ⟨hminutes, h⟩ :=
            lastDigits_inj minutes.isLt minutes'.isLt (List.append_cancel_left h)
          rw [hminus, Fin.ext hhours, Fin.ext hminutes]
          exact ⟨rfl, h⟩

/-- Where an accepted text has its fields is settled by the text. -/
theorem Lenient.unique {c c' : Civil} {sep sep' : Separator} {tail tail' : Tail}
    {rest rest' : List UInt8} (h : Lenient text c sep tail rest)
    (h' : Lenient text c' sep' tail' rest') : c = c' ∧ tail = tail' ∧ rest = rest' := by
  obtain ⟨⟨hyear, -⟩, ⟨hmonth, -⟩, ⟨hday, -⟩, ⟨hhour, -⟩, ⟨hminute, -⟩, hsecond⟩ := h.fields
  obtain ⟨⟨hyear', -⟩, ⟨hmonth', -⟩, ⟨hday', -⟩, ⟨hhour', -⟩, ⟨hminute', -⟩, hsecond'⟩ := h'.fields
  rw [hyear, Option.some_inj] at hyear'
  rw [hmonth, Option.some_inj] at hmonth'
  rw [hday, Option.some_inj] at hday'
  rw [hhour, Option.some_inj] at hhour'
  rw [hminute, Option.some_inj] at hminute'
  rw [hsecond, Option.some_inj] at hsecond'
  have hyears : c.year = c'.year := by
    have hpos := h.year.1
    have hpos' := h'.year.1
    omega
  have hcivil : c = c' := by
    cases c
    cases c'
    rw [Civil.mk.injEq]
    exact ⟨hyears, UInt8.toNat_inj.mp hmonth', UInt8.toNat_inj.mp hday', UInt8.toNat_inj.mp hhour',
      UInt8.toNat_inj.mp hminute', UInt8.toNat_inj.mp hsecond'⟩
  have hboth := h.bytes
  rw [h'.bytes] at hboth
  have htails := (List.append_inj hboth.symm (by rw [length_bytes, length_bytes])).2
  exact ⟨hcivil, Tail.unique htails h.ended h'.ended⟩

/-! ## Accepted texts and timestamps -/

/-- Where a text begins with the fields `parse` checks, its day is a day of the month, its offset is
in range and nothing stands behind its tail. -/
def Tight (text : CString) : Prop :=
  ∀ c sep tail rest, Lenient text c sep tail rest →
    c.day.toNat ≤ monthLength c.year c.month.toNat ∧ tail.InRange ∧ rest = []

/-- A timestamp begins with the fields `parse` checks. -/
theorem Timestamp.lenient (h : Timestamp text) :
    ∃ c sep tail, Lenient text c sep tail [] ∧
      c.day.toNat ≤ monthLength c.year c.month.toNat ∧ tail.InRange := by
  obtain ⟨c, sep, tail, hbytes, hfirst, hlast, hdate, hhour, hminute, hsecond, hrange⟩ := h
  refine ⟨c, sep, tail, ?_, hdate.day_le, hrange⟩
  exact
    { bytes := by rw [hbytes, List.append_nil]
      year := ⟨hfirst, hlast⟩
      month := ⟨hdate.month_pos, hdate.month_le⟩
      day := ⟨hdate.day_pos, hdate.day_le.trans (monthLength_le _ _)⟩
      hour := hhour
      minute := hminute
      second := hsecond
      ended := fun _ => rfl }

/-- The fields of a timestamp are the only ones its text has. -/
theorem Timestamp.tight (h : Timestamp text) : Tight text := by
  obtain ⟨c, sep, tail, hlenient, hday, hrange⟩ := h.lenient
  intro c' sep' tail' rest' hlenient'
  obtain ⟨rfl, rfl, rfl⟩ := hlenient.unique hlenient'
  exact ⟨hday, hrange, rfl⟩

/-- An accepted text with no more than that is a timestamp. -/
theorem Tight.timestamp (h : Tight text) {value : Int} (hparse : parse text = some value) :
    Timestamp text := by
  obtain ⟨c, sep, tail, rest, hlenient⟩ := parse_sound hparse
  obtain ⟨hday, hrange, rfl⟩ := h c sep tail rest hlenient
  obtain ⟨hmonthpos, hmonthle⟩ := hlenient.month
  refine ⟨c, sep, tail, ?_, hlenient.year.1, hlenient.year.2,
    ⟨hmonthpos, hmonthle, hlenient.day.1, hday⟩, hlenient.hour, hlenient.minute, hlenient.second,
    hrange⟩
  rw [hlenient.bytes, List.append_nil]

/-- Only timestamps are accepted, and any other text is refused with `epoch_s` left as it was,
exactly for the texts without a day that does not exist, an offset out of range or anything behind
the tail. -/
theorem accepts_only_timestamps_iff (text : CString) (epoch_s : Int) :
    (((parseInto text epoch_s).1 = true → Timestamp text) ∧
        (¬Timestamp text → parseInto text epoch_s = (false, epoch_s))) ↔ Tight text := by
  rw [parseInto]
  cases hparse : parse text with
  | none =>
      refine iff_of_true ⟨fun h => absurd h Bool.false_ne_true, fun _ => rfl⟩ ?_
      intro c sep tail rest hlenient
      rw [hlenient.parse_eq] at hparse
      cases hparse
  | some value =>
      constructor
      · intro h
        exact (h.1 rfl).tight
      · intro h
        have htimestamp := h.timestamp hparse
        exact ⟨fun _ => htimestamp, fun hnot => absurd htimestamp hnot⟩

/-- The thirtieth of February is accepted. -/
theorem accepts_no_such_day :
    ¬(((parseInto (stamp ⟨2025, 2, 30, 0, 0, 0⟩ .upperT .upperZ) 0).1 = true →
        Timestamp (stamp ⟨2025, 2, 30, 0, 0, 0⟩ .upperT .upperZ)) ∧
      (¬Timestamp (stamp ⟨2025, 2, 30, 0, 0, 0⟩ .upperT .upperZ) →
        parseInto (stamp ⟨2025, 2, 30, 0, 0, 0⟩ .upperT .upperZ) 0 = (false, 0))) := by
  intro h
  have hlenient : Lenient (stamp ⟨2025, 2, 30, 0, 0, 0⟩ .upperT .upperZ) ⟨2025, 2, 30, 0, 0, 0⟩
      .upperT .upperZ [] := by
    refine ⟨?_, ?_, ?_, ?_, ?_, ?_, ?_, fun _ => rfl⟩
    · rw [bytes_stamp, List.append_nil]
    all_goals decide
  have hday := ((h.1 (by decide +kernel)).tight _ _ _ _ hlenient).1
  exact absurd hday (by decide)

end FirmwareUpdater.Iso8601
