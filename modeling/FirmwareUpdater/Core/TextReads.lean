import FirmwareUpdater.Core.Hex
import FirmwareUpdater.Core.Iso8601
import FirmwareUpdater.Core.Url
import FirmwareUpdater.Library.CellReads
import Mathlib.Data.List.GetD

/-!
# The parsers read no further than the terminator

`iso8601::parse`, `hex::decode` and `url::scheme` again, as programs that read the
characters of their text one by one where the source reads them. None of them knows
the length of the text: each goes on behind a character only after a test which the
terminator fails. Run on a memory that holds the text and anything behind it, they
read no place behind the terminator and return what the functions return
(`text_reads_within`).
-/

namespace FirmwareUpdater

open Library Library.CellReads

namespace CString

/-- A memory that holds the text, its terminator, and anything behind these. -/
def cells (text : CString) (behind : Nat → UInt8) (place : Nat) : UInt8 :=
  if place ≤ text.length then text.byteAt place else behind place

variable {text : CString} {behind : Nat → UInt8} {place : Nat}

/-- Up to the terminator the memory holds the text. -/
theorem cells_of_le (h : place ≤ text.length) : text.cells behind place = text.byteAt place :=
  if_pos h

/-- The terminator stands behind the bytes. -/
theorem byteAt_length (text : CString) : text.byteAt text.length = 0 :=
  List.getD_eq_default _ _ (Nat.le_refl _)

/-- Behind a character that is not the terminator stands another one. -/
theorem succ_le_length (h : place ≤ text.length) (hne : text.byteAt place ≠ 0) :
    place + 1 ≤ text.length := by
  refine succ_le_of_ne (text.cells fun _ => 0) h ?_
  rwa [cells_of_le h, cells_of_le (Nat.le_refl _), byteAt_length]

/-- A character of the text is read, and the program goes on from it. -/
theorem within_char {Value : Type} {more : UInt8 → CellReads UInt8 Value} {value : Value}
    (hplace : place ≤ text.length)
    (hmore : Within (text.cells behind) text.length (more (text.byteAt place)) value) :
    Within (text.cells behind) text.length (cell place >>= more) value := by
  rw [← cells_of_le hplace] at hmore
  exact (within_cell hplace).bind hmore

@[inherit_doc within_char]
theorem within_charSome {Value : Type} {more : UInt8 → OptionT (CellReads UInt8) Value}
    {found : Option Value} (hplace : place ≤ text.length)
    (hmore : Within (text.cells behind) text.length (more (text.byteAt place)).run found) :
    Within (text.cells behind) text.length (cellSome place >>= more).run found := by
  rw [← cells_of_le hplace] at hmore
  exact Within.readSome hplace hmore

end CString

open CString

variable {text : CString} {behind : Nat → UInt8}

/-! ## `iso8601::parse` -/

namespace Iso8601

/-- The loop of `digits` from `place` on, with `count` characters left to read. -/
def digitsReads (place v : Nat) : Nat → OptionT (CellReads UInt8) Nat
  | 0 => pure v
  | count + 1 => do
      let c ← cellSome place
      guard (isdigit c)
      digitsReads (place + 1) (v * 10 + (c.toNat - 48)) count

/-- `parse` from the offset on. -/
def parseTailReads (value : Int) : OptionT (CellReads UInt8) Int := do
  let tail ← cellSome 19
  if tail = 43 ∨ tail = 45 then
    let oh ← digitsReads 20 0 2
    let colon ← cellSome 22
    let om ← digitsReads (if colon = 58 then 23 else 22) 0 2
    let offset : Int := oh * 3600 + om * 60
    pure (if tail = 43 then value - offset else value + offset)
  else if tail ≠ 0 ∧ tail ≠ 90 ∧ tail ≠ 122 then failure
  else pure value

/-- `parse`. -/
def parseReads : OptionT (CellReads UInt8) Int := do
  let year ← digitsReads 0 0 4
  let dash ← cellSome 4
  guard (dash = 45)
  let mon ← digitsReads 5 0 2
  let dash ← cellSome 7
  guard (dash = 45)
  let day ← digitsReads 8 0 2
  let sep ← cellSome 10
  guard (sep = 84 ∨ sep = 116 ∨ sep = 32)
  let hh ← digitsReads 11 0 2
  let colon ← cellSome 13
  guard (colon = 58)
  let mm ← digitsReads 14 0 2
  let colon ← cellSome 16
  guard (colon = 58)
  let ss ← digitsReads 17 0 2
  guard (1 ≤ mon ∧ mon ≤ 12 ∧ 1 ≤ day ∧ day ≤ 31)
  guard (hh ≤ 23 ∧ mm ≤ 59 ∧ ss ≤ 60)
  let civil : Civil :=
    { year
      month := UInt8.ofNat mon
      day := UInt8.ofNat day
      hour := UInt8.ofNat hh
      minute := UInt8.ofNat mm
      second := UInt8.ofNat (if ss = 60 then 59 else ss) }
  parseTailReads (toEpoch civil)

/-- The characters from `place` on. -/
def charsAt (text : CString) (place count : Nat) : List UInt8 :=
  (List.range count).map fun i => text.byteAt (place + i)

theorem charsAt_succ (text : CString) (place count : Nat) :
    charsAt text place (count + 1) = text.byteAt place :: charsAt text (place + 1) count := by
  simp only [charsAt, List.range_succ_eq_map, List.map_cons, List.map_map, Nat.add_zero]
  refine congrArg (text.byteAt place :: ·) (List.map_congr_left fun i _ => ?_)
  rw [Function.comp_apply, Nat.succ_eq_add_one, Nat.add_right_comm, Nat.add_assoc]

/-- Behind a digit stands another character. -/
theorem succ_le_of_isdigit {place : Nat} (hplace : place ≤ text.length)
    (hdigit : isdigit (text.byteAt place) = true) : place + 1 ≤ text.length := by
  refine succ_le_length hplace fun hzero => ?_
  rw [hzero] at hdigit
  cases hdigit

/-- The loop of `digits` goes on behind digits only. -/
theorem digitsReads_loop {place : Nat} (hplace : place ≤ text.length) (v count : Nat) :
    Within (text.cells behind) text.length (digitsReads place v count).run
      (if (charsAt text place count).all isdigit then
        some ((charsAt text place count).foldl (fun v c => v * 10 + (c.toNat - 48)) v)
      else none) := by
  induction count generalizing place v with
  | zero => exact within_pure (some v)
  | succ count ih =>
      rw [charsAt_succ, List.all_cons, List.foldl_cons]
      refine within_charSome hplace ?_
      by_cases hdigit : isdigit (text.byteAt place) = true
      · rw [hdigit, Bool.true_and]
        exact ih (succ_le_of_isdigit hplace hdigit) _
      · rw [Bool.eq_false_of_not_eq_true hdigit, Bool.false_and]
        exact within_pure none

/-- `digits` reads no further than the terminator. -/
theorem digitsReads_within {place : Nat} (hplace : place ≤ text.length) (count : Nat) :
    Within (text.cells behind) text.length (digitsReads place 0 count).run
      (digits text place count) :=
  digitsReads_loop hplace 0 count

/-- Behind digits that were read stands another character. -/
theorem le_of_digits {place count v : Nat} (h : digits text place count = some v)
    (hplace : place ≤ text.length) : place + count ≤ text.length := by
  have hdigits : (charsAt text place count).all isdigit = true := by
    rw [digits, Option.ite_none_right_eq_some] at h
    exact h.1
  clear h
  induction count generalizing place with
  | zero => exact hplace
  | succ count ih =>
      rw [charsAt_succ, List.all_cons, Bool.and_eq_true] at hdigits
      have hle := ih (succ_le_of_isdigit hplace hdigits.1) hdigits.2
      omega

/-- A separator is read and tested, and there is more behind it. -/
theorem separator_within (place : Nat) (c : UInt8) (hc : c ≠ 0)
    {more : Unit → OptionT (CellReads UInt8) Int} {rest : Unit → Option Int}
    (hplace : place ≤ text.length)
    (hmore : place + 1 ≤ text.length →
      Within (text.cells behind) text.length (more ()).run (rest ())) :
    Within (text.cells behind) text.length
      (cellSome place >>= fun found => guard (found = c) >>= more).run
      (guard (text.byteAt place = c) >>= rest) := by
  refine within_charSome hplace ?_
  refine Within.guardSome fun hfound => hmore (succ_le_length hplace ?_)
  rwa [hfound]

/-- So does `parse` from the offset on. -/
theorem parseTailReads_within (h : 19 ≤ text.length) (value : Int) :
    Within (text.cells behind) text.length (parseTailReads value).run (parseTail text value) := by
  refine within_charSome h ?_
  rw [parseTail]
  dsimp only
  split
  · next hsign =>
    have h20 : 20 ≤ text.length := by
      refine succ_le_length h ?_
      rcases hsign with hsign | hsign <;> rw [hsign] <;> decide
    refine (digitsReads_within h20 2).bindSome fun oh hoh => ?_
    have h22 := le_of_digits hoh h20
    refine within_charSome h22 ?_
    have hmin : (if text.byteAt 22 = 58 then 23 else 22) ≤ text.length := by
      split
      · next hcolon => exact succ_le_length h22 (by rw [hcolon]; decide)
      · exact h22
    exact (digitsReads_within hmin 2).bindSome fun om _ => within_pure _
  · split
    · exact within_pure none
    · exact within_pure (some value)

/-- So does `parse`: a text may end wherever it likes. -/
theorem parseReads_within (text : CString) (behind : Nat → UInt8) :
    Within (text.cells behind) text.length parseReads.run (parse text) := by
  refine (digitsReads_within (Nat.zero_le _) 4).bindSome fun year hyear => ?_
  refine separator_within 4 45 (by decide) (le_of_digits hyear (Nat.zero_le _)) fun h5 => ?_
  refine (digitsReads_within h5 2).bindSome fun mon hmon => ?_
  refine separator_within 7 45 (by decide) (le_of_digits hmon h5) fun h8 => ?_
  refine (digitsReads_within h8 2).bindSome fun day hday => ?_
  have h10 := le_of_digits hday h8
  refine within_charSome h10 ?_
  refine Within.guardSome fun hsep => ?_
  have h11 : 11 ≤ text.length := by
    refine succ_le_length h10 ?_
    rcases hsep with hsep | hsep | hsep <;> rw [hsep] <;> decide
  refine (digitsReads_within h11 2).bindSome fun hh hhh => ?_
  refine separator_within 13 58 (by decide) (le_of_digits hhh h11) fun h14 => ?_
  refine (digitsReads_within h14 2).bindSome fun mm hmm => ?_
  refine separator_within 16 58 (by decide) (le_of_digits hmm h14) fun h17 => ?_
  refine (digitsReads_within h17 2).bindSome fun ss hss => ?_
  refine Within.guardSome fun _ => Within.guardSome fun _ => ?_
  exact parseTailReads_within (le_of_digits hss h17) _

end Iso8601

/-! ## `hex::decode` -/

namespace Hex

variable {bytes : Nat}

/-- The loop of `decode` from byte `i` on, with `count` bytes left to write. -/
def decodeFromReads (out : Vector UInt8 bytes) (i : Nat) :
    Nat → CellReads UInt8 (Bool × Vector UInt8 bytes)
  | 0 => pure (true, out)
  | count + 1 => do
      let c ← cell (i * 2)
      let hi := nibble c
      if hi < 0 then pure (false, out)
      else
        let c ← cell (i * 2 + 1)
        let lo := nibble c
        if lo < 0 then pure (false, out)
        else
          decodeFromReads
            (out.setIfInBounds i (UInt8.ofNat (hi.toNat <<< 4 ||| lo.toNat))) (i + 1) count

/-- `decode`: what stands behind the digits is read only if all of them were there, so no index
reaches the width of a `size_t`. -/
def decodeReads (out : Vector UInt8 bytes) : CellReads UInt8 (Bool × Vector UInt8 bytes) := do
  let (ok, out) ← decodeFromReads out 0 bytes
  if ok then
    let c ← cell (bytes * 2)
    pure (c = 0, out)
  else pure (false, out)

/-- Behind a digit stands another character. -/
theorem succ_le_of_nibble {place : Nat} (hplace : place ≤ text.length)
    (hdigit : ¬nibble (text.byteAt place) < 0) : place + 1 ≤ text.length := by
  refine succ_le_length hplace fun hzero => hdigit ?_
  rw [hzero]
  decide

/-- The loop of `decode` goes on behind digits only, and stops behind them. -/
theorem decodeFromReads_within (behind : Nat → UInt8) {i : Nat} (hi : i * 2 ≤ text.length)
    (out : Vector UInt8 bytes) (count : Nat) :
    Within (text.cells behind) text.length (decodeFromReads out i count)
        (decodeFrom text out i count) ∧
      ((decodeFrom text out i count).1 = true → (i + count) * 2 ≤ text.length) := by
  induction count generalizing i out with
  | zero => exact ⟨within_pure (true, out), fun _ => hi⟩
  | succ count ih =>
      rw [decodeFromReads, decodeFrom]
      dsimp only
      by_cases hhi : nibble (text.byteAt (i * 2)) < 0
      · rw [if_pos hhi]
        refine ⟨within_char hi ?_, fun h => by cases h⟩
        rw [if_pos hhi]
        exact within_pure (false, out)
      · have hsecond := succ_le_of_nibble hi hhi
        rw [if_neg hhi]
        by_cases hlo : nibble (text.byteAt (i * 2 + 1)) < 0
        · rw [if_pos hlo]
          refine ⟨within_char hi ?_, fun h => by cases h⟩
          rw [if_neg hhi]
          refine within_char hsecond ?_
          rw [if_pos hlo]
          exact within_pure (false, out)
        · have hnext : (i + 1) * 2 ≤ text.length := by
            have := succ_le_of_nibble hsecond hlo
            omega
          rw [if_neg hlo]
          obtain ⟨hloop, hbehind⟩ := ih hnext (out.setIfInBounds i _)
          refine ⟨within_char hi ?_, fun h => ?_⟩
          · rw [if_neg hhi]
            refine within_char hsecond ?_
            rw [if_neg hlo]
            exact hloop
          · have := hbehind h
            omega

/-- `decode` reads no further than the terminator, however many bytes it is to write. -/
theorem decodeReads_within (text : CString) (behind : Nat → UInt8) (out : Vector UInt8 bytes) :
    Within (text.cells behind) text.length (decodeReads out) (decode text out) := by
  have hzero : 0 * 2 ≤ text.length := by omega
  obtain ⟨hloop, hbehind⟩ := decodeFromReads_within behind hzero out bytes
  refine hloop.bind ?_
  rw [decode]
  generalize decodeFrom text out 0 bytes = decoded at hbehind
  obtain ⟨ok, out⟩ := decoded
  cases ok with
  | false => exact within_pure (false, out)
  | true =>
      have hend : bytes * 2 ≤ text.length := by
        have := hbehind rfl
        omega
      dsimp only
      rw [if_pos rfl, Bool.true_and]
      exact within_char hend (within_pure _)

end Hex

/-! ## `url::scheme` -/

namespace Url

/-- `startsWithNoCase` from `place` on. -/
def startsWithNoCaseReads (place : Nat) : List UInt8 → CellReads UInt8 Bool
  | [] => pure true
  | b :: rest => do
      let a ← cell place
      if tolower a ≠ tolower b then pure false
      else startsWithNoCaseReads (place + 1) rest

/-- `scheme`. -/
def schemeReads : CellReads UInt8 Scheme := do
  let https ← startsWithNoCaseReads 0 (ascii "https://")
  if https then pure .https
  else
    let http ← startsWithNoCaseReads 0 (ascii "http://")
    pure (if http then .http else .unknown)

/-- Only characters of the text are equal to those of a prefix. -/
theorem startsWithNoCaseReads_within {place : Nat} (hplace : place ≤ text.length)
    {wanted : List UInt8} (hwanted : ∀ b ∈ wanted, tolower b ≠ tolower 0) :
    Within (text.cells behind) text.length (startsWithNoCaseReads place wanted)
      (startsWithNoCase (text.bytes.drop place) wanted) := by
  induction wanted generalizing place with
  | nil => exact within_pure true
  | cons b wanted ih =>
      have hhead : (text.bytes.drop place).headD 0 = text.byteAt place := by
        rw [List.headD_eq_head?_getD, List.head?_drop, byteAt, List.getD_eq_getElem?_getD]
      rw [startsWithNoCase, hhead, List.tail_drop]
      refine within_char hplace ?_
      by_cases hsame : tolower (text.byteAt place) = tolower b
      · have hne : text.byteAt place ≠ 0 := by
          intro hzero
          rw [hzero] at hsame
          exact hwanted b List.mem_cons_self hsame.symm
        rw [if_neg (not_not.mpr hsame), decide_eq_true hsame, Bool.true_and]
        exact ih (succ_le_length hplace hne) fun c hc => hwanted c (List.mem_cons_of_mem _ hc)
      · rw [if_pos hsame, decide_eq_false hsame, Bool.false_and]
        exact within_pure false

/-- `scheme` reads no further than the terminator. -/
theorem schemeReads_within (text : CString) (behind : Nat → UInt8) :
    Within (text.cells behind) text.length schemeReads (scheme (some text)) := by
  have hstarts {wanted : List UInt8} (hwanted : ∀ b ∈ wanted, tolower b ≠ tolower 0) :
      Within (text.cells behind) text.length (startsWithNoCaseReads 0 wanted)
        (startsWithNoCase text.bytes wanted) :=
    startsWithNoCaseReads_within (Nat.zero_le _) hwanted
  refine (hstarts (by decide +kernel)).bind ?_
  rw [scheme]
  split
  · exact within_pure Scheme.https
  · refine (hstarts (by decide +kernel)).bind ?_
    split
    · exact within_pure Scheme.http
    · exact within_pure Scheme.unknown

end Url

/-! ## All three -/

/-- In whatever memory a text stands, `iso8601::parse`, `hex::decode` for any number of bytes and
`url::scheme` read no byte of it behind the terminator, and return what they do. -/
theorem text_reads_within (text : CString) (behind : Nat → UInt8) :
    Within (text.cells behind) text.length Iso8601.parseReads.run (Iso8601.parse text) ∧
      (∀ (bytes : Nat) (out : Vector UInt8 bytes),
        Within (text.cells behind) text.length (Hex.decodeReads out) (Hex.decode text out)) ∧
      Within (text.cells behind) text.length Url.schemeReads (Url.scheme (some text)) :=
  ⟨Iso8601.parseReads_within text behind,
    fun _ out => Hex.decodeReads_within text behind out, Url.schemeReads_within text behind⟩

/-- A text of four digits is read up to its terminator. -/
example : Iso8601.parseReads.run.places ((CString.ofBytes (ascii "2025")).cells fun _ => 45) =
    [0, 1, 2, 3, 4] := by decide +kernel

end FirmwareUpdater
