import FirmwareUpdater.Core.Memory
import FirmwareUpdater.Library.MaximalRuns
import Mathlib.Data.List.Induction
import Mathlib.Data.Nat.Digits.Defs

/-!
# C library functions

The functions of `<string.h>`, `<stdlib.h>` and `<ctype.h>` the modelled code
calls, in the "C" locale and with the 32-bit `long` of the target.
-/

namespace FirmwareUpdater

open Library.MaximalRuns

/-- `LONG_MAX`. -/
def longMax : Int := 2147483647

/-- `LONG_MIN`. -/
def longMin : Int := -2147483648

/-- `isspace`. -/
def isspace (c : UInt8) : Bool := c = 32 || (9 ≤ c && c ≤ 13)

/-- `isdigit`. -/
def isdigit (c : UInt8) : Bool := 48 ≤ c && c ≤ 57

/-- The value of a run of decimal digits. -/
def decimal (digits : List UInt8) : Nat :=
  digits.foldl (fun value digit => value * 10 + (digit.toNat - 48)) 0

/-- `ULONG_MAX`. -/
def ulongMax : Nat := 4294967295

/-- A literal of the source, byte by byte. -/
def ascii (text : String) : List UInt8 := text.toList.map fun c => UInt8.ofNat c.toNat

/-- `tolower`. -/
def tolower (c : UInt8) : UInt8 := if 65 ≤ c ∧ c ≤ 90 then c + 32 else c

/-- The text from its first byte that is in `wanted` on: `strchr` for one byte, `strpbrk` for
several. -/
def CString.find (text : CString) (wanted : List UInt8) : Option CString :=
  match text.bytes.findIdx? fun c => c ∈ wanted with
  | some i => some (text.drop i)
  | none => none

/-- `strstr`: the text from the first occurrence of `wanted` on. -/
def strstr (text : CString) (wanted : List UInt8) : Option CString :=
  match (List.range (text.length + 1)).find? fun i => wanted.isPrefixOf (text.bytes.drop i) with
  | some i => some (text.drop i)
  | none => none

/-- `strncasecmp(text, wanted, strlen(wanted)) == 0`. -/
def startsNoCase (text : CString) (wanted : List UInt8) : Bool :=
  (text.bytes.take wanted.length).map tolower = wanted.map tolower

/-- `strtol` in base 10: the value and how many bytes were converted. No digits convert nothing,
and a value out of range saturates. -/
def strtol (text : CString) : Int × Nat :=
  let blanks := text.bytes.takeWhile isspace
  let unsigned := text.bytes.drop blanks.length
  let sign := unsigned.take 1 |>.filter fun c => c = 43 || c = 45
  let digits := (unsigned.drop sign.length).takeWhile isdigit
  if digits = [] then (0, 0)
  else
    let value : Int := decimal digits
    (if sign = [45] then max (-value) longMin else min value longMax,
      blanks.length + sign.length + digits.length)

/-- `atoi`, on a target whose `int` and `long` are the same. -/
def atoi (text : CString) : Int := (strtol text).1

/-- `strtoul` in base 10: a minus sign negates within the width, a value out of range
saturates. -/
def strtoul (text : CString) : UInt32 :=
  let unsigned := text.bytes.dropWhile isspace
  let sign := unsigned.take 1 |>.filter fun c => c = 43 || c = 45
  let value := decimal ((unsigned.drop sign.length).takeWhile isdigit)
  if value > ulongMax then UInt32.ofNat ulongMax
  else if sign = [45] then 0 - UInt32.ofNat value
  else UInt32.ofNat value

/-- `%0<width>u`. -/
def printUnsigned (width value : Nat) : List UInt8 :=
  let digits :=
    if value = 0 then [48] else (Nat.digits 10 value).reverse.map fun d => UInt8.ofNat (48 + d)
  List.replicate (width - digits.length) 48 ++ digits

/-- `%0<width>d`. -/
def printSigned (width : Nat) (value : Int) : List UInt8 :=
  if value < 0 then 45 :: printUnsigned (width - 1) value.natAbs
  else printUnsigned width value.toNat

/-- `strstr` finds the first place where `wanted` stands, or there is none. -/
theorem strstr_spec (text : CString) (wanted : List UInt8) :
    (strstr text wanted = none ∧
        ∀ i, i ≤ text.length → wanted.isPrefixOf (text.bytes.drop i) = false) ∨
      ∃ i, strstr text wanted = some (text.drop i) ∧ i ≤ text.length ∧
        wanted.isPrefixOf (text.bytes.drop i) = true ∧
        ∀ j, j < i → wanted.isPrefixOf (text.bytes.drop j) = false := by
  cases hfind : (List.range (text.length + 1)).find?
      fun i => wanted.isPrefixOf (text.bytes.drop i) with
  | none =>
      refine .inl ⟨by rw [strstr, hfind], ?_⟩
      intro i hi
      exact eq_false_of_ne_true (List.find?_eq_none.mp hfind i (List.mem_range.mpr (by omega)))
  | some i =>
      obtain ⟨hfound, hmem, hbefore⟩ := List.find?_range_eq_some.mp hfind
      refine .inr ⟨i, by rw [strstr, hfind], ?_, hfound, ?_⟩
      · have hlt := List.mem_range.mp hmem
        omega
      · intro j hj
        exact (Bool.not_eq_true' _).mp (hbefore j hj)

/-- What follows a text that was found is shorter than the whole. -/
theorem length_drop_strstr {text found : CString} {wanted : List UInt8}
    (h : strstr text wanted = some found) (hne : wanted ≠ []) :
    (found.drop wanted.length).length < text.length := by
  have hpos := List.length_pos_iff.mpr hne
  rcases strstr_spec text wanted with ⟨hnone, -⟩ | ⟨i, hsome, -, hprefix, -⟩
  · rw [hnone] at h
    cases h
  · rw [hsome, Option.some_inj] at h
    have hle := (List.isPrefixOf_iff_prefix.mp hprefix).length_le
    rw [List.length_drop] at hle
    rw [← h, CString.length_drop, CString.length_drop]
    unfold CString.length
    omega

/-- The first place with a property, and what is left when the places before it are dropped. -/
theorem findIdx?_dropWhile {α : Type} (p : α → Bool) (items : List α) :
    (items.findIdx? p = none ∧ items.dropWhile (fun x => !p x) = []) ∨
      ∃ i, items.findIdx? p = some i ∧ items.drop i = items.dropWhile (fun x => !p x) ∧
        items.drop i ≠ [] := by
  induction items with
  | nil => exact .inl ⟨rfl, rfl⟩
  | cons item items ih =>
      cases hitem : p item with
      | true =>
          refine .inr ⟨0, ?_, ?_, by simp⟩
          · simp [List.findIdx?_cons, hitem]
          · simp [hitem]
      | false =>
          rcases ih with ⟨hnone, hempty⟩ | ⟨i, hsome, hdrop, hne⟩
          · left
            rw [List.findIdx?_cons, hitem, hnone, List.dropWhile_cons, hitem]
            exact ⟨rfl, hempty⟩
          · refine .inr ⟨i + 1, ?_, ?_, hne⟩
            · rw [List.findIdx?_cons, hitem, hsome]
              rfl
            · rw [List.drop_succ_cons, hdrop, List.dropWhile_cons, hitem]
              rfl

/-- The text from a byte on, or nothing where it has none. -/
theorem CString.find_byte (text : CString) (b : UInt8) :
    (text.find [b] = none ∧ text.bytes.dropWhile (· ≠ b) = []) ∨
      ∃ found, text.find [b] = some found ∧ found.bytes = text.bytes.dropWhile (· ≠ b) ∧
        found.bytes ≠ [] := by
  have hpred : (fun x : UInt8 => !decide (x ∈ [b])) = fun x => decide (x ≠ b) := by
    funext x
    simp
  have hindex := findIdx?_dropWhile (fun c => decide (c ∈ [b])) text.bytes
  rw [hpred] at hindex
  rcases hindex with ⟨hnone, hempty⟩ | ⟨i, hsome, hdrop, hne⟩
  · exact .inl ⟨by rw [CString.find, hnone], hempty⟩
  · exact .inr ⟨text.drop i, by rw [CString.find, hsome], hdrop, hne⟩

/-- The text from the first wanted byte on. -/
theorem CString.find_append {text : CString} {wanted antes depois : List UInt8} {b : UInt8}
    (htext : text.bytes = antes ++ b :: depois) (hantes : ∀ x ∈ antes, x ∉ wanted)
    (hwanted : b ∈ wanted) :
    ∃ found, text.find wanted = some found ∧ found.bytes = b :: depois := by
  have hindex : (text.bytes.findIdx? fun c => c ∈ wanted) = some antes.length := by
    rw [htext, List.findIdx?_append, List.findIdx?_eq_none_iff.mpr (by simpa using hantes)]
    simp [List.findIdx?_cons, hwanted]
  refine ⟨text.drop antes.length, by rw [find, hindex], ?_⟩
  show text.bytes.drop antes.length = _
  rw [htext, List.drop_left]

/-- A text without the wanted bytes. -/
theorem CString.find_none {text : CString} {wanted : List UInt8}
    (h : ∀ x ∈ text.bytes, x ∉ wanted) : text.find wanted = none := by
  rw [find, List.findIdx?_eq_none_iff.mpr (by simpa using h)]

/-- A digit is not a space. -/
theorem not_isspace_of_isdigit {b : UInt8} (h : isdigit b) : isspace b = false := by
  simp only [isdigit, isspace, Bool.and_eq_true, decide_eq_true_eq, Bool.or_eq_false_iff,
    decide_eq_false_iff_not, Bool.and_eq_false_iff, UInt8.le_iff_toNat_le] at *
  have hne : b ≠ 32 := by
    rintro rfl
    revert h
    decide
  have hten : b.toNat ≥ 48 := h.1
  exact ⟨hne, .inr (by show ¬b.toNat ≤ 13; omega)⟩

/-- Neither is it a sign. -/
theorem not_sign_of_isdigit {b : UInt8} (h : isdigit b) : ¬(b = 43 ∨ b = 45) := by
  rintro (rfl | rfl) <;> revert h <;> decide

section Digits

variable {text : CString} {blanks digits rest : List UInt8}

/-- The conversions skip the blanks and find no sign. -/
theorem skip_blanks (htext : text.bytes = blanks ++ (digits ++ rest))
    (hblanks : ∀ b ∈ blanks, isspace b) (hne : digits ≠ []) (hdigits : ∀ b ∈ digits, isdigit b) :
    text.bytes.takeWhile isspace = blanks ∧ text.bytes.dropWhile isspace = digits ++ rest ∧
      ((digits ++ rest).take 1).filter (fun c => c = 43 || c = 45) = [] := by
  cases digits with
  | nil => exact absurd rfl hne
  | cons digit digits =>
      have hdigit := hdigits digit List.mem_cons_self
      have hstart := not_isspace_of_isdigit hdigit
      refine ⟨?_, ?_, ?_⟩
      · rw [htext, List.takeWhile_append_of_pos hblanks, List.cons_append,
          List.takeWhile_cons_of_neg (by simp [hstart]), List.append_nil]
      · rw [htext, List.dropWhile_append_of_pos hblanks, List.cons_append,
          List.dropWhile_cons_of_neg (by simp [hstart])]
      · have hsign := not_sign_of_isdigit hdigit
        simpa using hsign

/-- They take the digits that follow. -/
theorem takeWhile_isdigit (hdigits : ∀ b ∈ digits, isdigit b)
    (hrest : ∀ b ∈ rest.head?, ¬isdigit b) : (digits ++ rest).takeWhile isdigit = digits :=
  (span_append hdigits hrest).1

/-- `strtoul` of digits between blanks and something else. -/
theorem strtoul_digits (htext : text.bytes = blanks ++ (digits ++ rest))
    (hblanks : ∀ b ∈ blanks, isspace b) (hne : digits ≠ []) (hdigits : ∀ b ∈ digits, isdigit b)
    (hrest : ∀ b ∈ rest.head?, ¬isdigit b) :
    strtoul text =
      if decimal digits > ulongMax then UInt32.ofNat ulongMax
      else UInt32.ofNat (decimal digits) := by
  obtain ⟨-, hskip, hsign⟩ := skip_blanks htext hblanks hne hdigits
  simp only [strtoul, hskip, hsign, List.length_nil, List.drop_zero,
    takeWhile_isdigit hdigits hrest, List.nil_eq, List.cons_ne_self, if_false]

/-- `strtol` of such a text. -/
theorem strtol_digits (htext : text.bytes = blanks ++ (digits ++ rest))
    (hblanks : ∀ b ∈ blanks, isspace b) (hne : digits ≠ []) (hdigits : ∀ b ∈ digits, isdigit b)
    (hrest : ∀ b ∈ rest.head?, ¬isdigit b) :
    strtol text = (min (decimal digits : Int) longMax, blanks.length + digits.length) := by
  obtain ⟨hblank, hskip, hsign⟩ := skip_blanks htext hblanks hne hdigits
  have hdrop : text.bytes.drop blanks.length = digits ++ rest := by rw [htext, List.drop_left]
  simp only [strtol, hblank, hdrop, hsign, List.length_nil, List.drop_zero,
    takeWhile_isdigit hdigits hrest, if_neg hne, reduceCtorEq, if_false, Nat.add_zero]

/-- `atoi` of such a text. -/
theorem atoi_digits (htext : text.bytes = blanks ++ (digits ++ rest))
    (hblanks : ∀ b ∈ blanks, isspace b) (hne : digits ≠ []) (hdigits : ∀ b ∈ digits, isdigit b)
    (hrest : ∀ b ∈ rest.head?, ¬isdigit b) :
    atoi text = min (decimal digits : Int) longMax := by
  rw [atoi, strtol_digits htext hblanks hne hdigits hrest]

end Digits

/-- The value of digits has as many digits. -/
theorem decimal_lt {digits : List UInt8} (h : ∀ b ∈ digits, isdigit b) :
    decimal digits < 10 ^ digits.length := by
  induction digits using List.reverseRecOn with
  | nil => simp [decimal]
  | append_singleton digits digit ih =>
      have hdigit := h digit (by simp)
      have hvalue := ih fun b hb => h b (List.mem_append_left _ hb)
      have hle : digit.toNat ≤ 57 := by
        simp only [isdigit, Bool.and_eq_true, decide_eq_true_eq] at hdigit
        exact UInt8.le_iff_toNat_le.mp hdigit.2
      have hfold : decimal (digits ++ [digit]) = decimal digits * 10 + (digit.toNat - 48) := by
        simp [decimal]
      rw [hfold, List.length_append, List.length_singleton, Nat.pow_succ]
      omega

/-! ## Numbers of a fixed width -/

/-- The last `width` decimal digits of a number. -/
def lastDigits : Nat → Nat → List UInt8
  | 0, _ => []
  | width + 1, value => lastDigits width (value / 10) ++ [UInt8.ofNat (48 + value % 10)]

/-- A digit as a character. -/
theorem toNat_digit {d : Nat} (h : d < 10) : (UInt8.ofNat (48 + d)).toNat = 48 + d :=
  UInt8.toNat_ofNat_of_lt' (by show 48 + d < 256; omega)

@[simp]
theorem length_lastDigits (width value : Nat) : (lastDigits width value).length = width := by
  induction width generalizing value with
  | zero => rfl
  | succ width ih => rw [lastDigits, List.length_append, ih, List.length_singleton]

/-- They are digits. -/
theorem isdigit_lastDigits (width value : Nat) : ∀ b ∈ lastDigits width value, isdigit b := by
  induction width generalizing value with
  | zero => simp [lastDigits]
  | succ width ih =>
      intro b hb
      rw [lastDigits, List.mem_append, List.mem_singleton] at hb
      rcases hb with hb | rfl
      · exact ih _ b hb
      · have hdigit := toNat_digit (Nat.mod_lt value (by decide : 10 > 0))
        simp only [isdigit, Bool.and_eq_true, decide_eq_true_eq, UInt8.le_iff_toNat_le, hdigit]
        exact ⟨Nat.le_add_right 48 _, by show 48 + value % 10 ≤ 57; omega⟩

/-- They read back as the number, where it is no wider. -/
theorem decimal_lastDigits {width value : Nat} (h : value < 10 ^ width) :
    decimal (lastDigits width value) = value := by
  induction width generalizing value with
  | zero =>
      rw [Nat.pow_zero] at h
      show 0 = value
      omega
  | succ width ih =>
      have hvalue : value / 10 < 10 ^ width := by
        rw [Nat.pow_succ] at h
        omega
      have hrest := ih hvalue
      have hdigit := toNat_digit (Nat.mod_lt value (by decide : 10 > 0))
      have hfold : decimal (lastDigits width (value / 10) ++ [UInt8.ofNat (48 + value % 10)]) =
          decimal (lastDigits width (value / 10)) * 10 +
            ((UInt8.ofNat (48 + value % 10)).toNat - 48) := by
        simp [decimal]
      rw [lastDigits, hfold, hrest, hdigit]
      omega

/-- Zeros and the digits of the number are its last digits, where it is no wider. -/
theorem pad_digits {width value : Nat} (h : value < 10 ^ width) :
    List.replicate (width - (Nat.digits 10 value).length) 48 ++
      (Nat.digits 10 value).reverse.map (fun d => UInt8.ofNat (48 + d)) =
        lastDigits width value := by
  induction width generalizing value with
  | zero =>
      have hzero : value = 0 := by
        rw [Nat.pow_zero] at h
        omega
      subst hzero
      simp [lastDigits]
  | succ width ih =>
      have hvalue : value / 10 < 10 ^ width := by
        rw [Nat.pow_succ] at h
        omega
      have hrest := ih hvalue
      rw [lastDigits, ← hrest]
      by_cases hzero : value = 0
      · subst hzero
        simp [List.replicate_succ']
      · rw [Nat.digits_def' (by decide) (by omega)]
        simp

/-- `%0<width>u` prints them. -/
theorem printUnsigned_eq {width value : Nat} (hpos : 0 < width) (h : value < 10 ^ width) :
    printUnsigned width value = lastDigits width value := by
  rw [← pad_digits h, printUnsigned]
  by_cases hzero : value = 0
  · subst hzero
    obtain ⟨width, rfl⟩ : ∃ n, width = n + 1 := ⟨width - 1, by omega⟩
    simp [List.replicate_succ']
  · simp [hzero]

end FirmwareUpdater
