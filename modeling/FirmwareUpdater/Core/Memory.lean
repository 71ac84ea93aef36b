import Mathlib.Data.List.Basic
import Mathlib.Data.List.TakeWhile

/-!
# C strings and byte blocks

A `const char*` is a run of nonzero bytes, a `const uint8_t*` with its length is
a `Buffer`. Both carry their well-formedness, so a string with an embedded
terminator or a block shorter than its announced length cannot be built.
-/

namespace FirmwareUpdater

/-- A NUL-terminated string: the bytes before the terminator. -/
structure CString where
  bytes : List UInt8
  noNul : 0 ∉ bytes
  deriving DecidableEq

/-- The C string at the start of a block: everything before its first NUL. -/
def CString.ofBytes (block : List UInt8) : CString where
  bytes := block.takeWhile (· ≠ 0)
  noNul h := by simpa using List.mem_takeWhile_imp h

/-- The empty string. -/
def CString.empty : CString := ⟨[], by simp⟩

/-- A string is its bytes. -/
theorem CString.eq_iff {s t : CString} : s = t ↔ s.bytes = t.bytes := by
  cases s
  cases t
  simp

/-- `strlen`. -/
def CString.length (text : CString) : Nat := text.bytes.length

/-- `text[i]`: the terminator stands right after the bytes. -/
def CString.byteAt (text : CString) (i : Nat) : UInt8 := text.bytes.getD i 0

/-- `text + n`, within the string. -/
def CString.drop (text : CString) (n : Nat) : CString where
  bytes := text.bytes.drop n
  noNul h := text.noNul (List.mem_of_mem_drop h)

/-- Only a terminator reads as NUL at the start of a string. -/
theorem CString.byteAt_zero_eq_zero (text : CString) : text.byteAt 0 = 0 ↔ text.length = 0 := by
  obtain ⟨bytes, hnul⟩ := text
  cases bytes with
  | nil => simp [CString.byteAt, CString.length]
  | cons c bytes =>
      have hne : c ≠ 0 := fun h => hnul (by simp [h])
      simp [CString.byteAt, CString.length, hne]

@[simp]
theorem CString.length_drop (text : CString) (n : Nat) :
    (text.drop n).length = text.length - n :=
  List.length_drop

/-- One string behind another, as `"%s%s"` prints them. -/
def CString.append (first second : CString) : CString where
  bytes := first.bytes ++ second.bytes
  noNul h := (List.mem_append.mp h).elim first.noNul second.noNul

/-- A `char[cap]` that holds a string: the terminator fits too. -/
structure Field (cap : Nat) where
  text : CString
  fits : text.length < cap
  deriving DecidableEq

/-- The `char[cap]` that holds the empty string. -/
def Field.empty {cap : Nat} (h : 0 < cap) : Field cap := ⟨.empty, h⟩

/-- `snprintf(field, cap, "%s", text)`: what fits of the text. -/
def Field.print {cap : Nat} (h : 0 < cap) (text : CString) : Field cap where
  text := ⟨text.bytes.take (cap - 1), fun hmem => text.noNul (List.mem_of_mem_take hmem)⟩
  fits := by
    have hle : (text.bytes.take (cap - 1)).length ≤ cap - 1 := List.length_take_le _ _
    exact Nat.lt_of_le_of_lt hle (by omega)

/-- A text that fits a field is kept as it is. -/
theorem Field.text_print {cap : Nat} (h : 0 < cap) {text : CString} (hfits : text.length < cap) :
    (Field.print h text).text = text := by
  rw [CString.eq_iff]
  exact List.take_of_length_le (Nat.le_sub_one_of_lt hfits)

/-- A pointer with a length: the bytes it designates, or a null pointer. -/
structure Buffer where
  data : Option (List UInt8)
  len : Nat
  sized : ∀ bytes, data = some bytes → bytes.length = len

/-- Write `bytes` at the start of `block`, leaving the rest of the block as it was. -/
def overwrite (block bytes : List UInt8) : List UInt8 :=
  bytes ++ block.drop bytes.length

/-- `snprintf(block, cap, "%s", text)`: at most `cap - 1` bytes and the terminator. -/
def snprintf (block : List UInt8) (cap : Nat) (text : CString) : List UInt8 :=
  if cap = 0 then block else overwrite block (text.bytes.take (cap - 1) ++ [0])

/-- The terminator of a written string ends what is read back. -/
theorem CString.ofBytes_terminated (text : List UInt8) (rest : List UInt8) (h : 0 ∉ text) :
    (CString.ofBytes (text ++ 0 :: rest)).bytes = text := by
  have hall : ∀ byte ∈ text, (decide (byte ≠ 0)) = true := by
    intro byte hbyte
    have hne : byte ≠ 0 := fun heq => h (heq ▸ hbyte)
    simpa using hne
  simp only [CString.ofBytes]
  rw [List.takeWhile_append_of_pos hall]
  simp

/-- Only a block without a NUL reads as a string to its end. -/
theorem CString.ofBytes_eq_iff (block : List UInt8) :
    (CString.ofBytes block).bytes = block ↔ 0 ∉ block := by
  rw [CString.ofBytes, List.takeWhile_eq_self_iff]
  constructor
  · intro h hmem
    simpa using h 0 hmem
  · intro h byte hbyte
    have hne : byte ≠ 0 := fun heq => h (heq ▸ hbyte)
    simpa using hne

/-- What `snprintf` stores reads back as the string cut to the room there is. -/
theorem CString.ofBytes_snprintf {cap : Nat} (hcap : 0 < cap) (block : List UInt8)
    (text : CString) :
    (CString.ofBytes (snprintf block cap text)).bytes = text.bytes.take (cap - 1) := by
  have hne : cap ≠ 0 := by omega
  simp only [snprintf, if_neg hne, overwrite, List.append_assoc, List.singleton_append]
  exact ofBytes_terminated _ _ fun hmem => text.noNul (List.mem_of_mem_take hmem)

/-- A text that fits is printed whole. -/
theorem snprintf_of_lt {cap : Nat} {text : List UInt8} (hnul : 0 ∉ text) (hfits : text.length < cap)
    (block : List UInt8) : snprintf block cap (.ofBytes text) = overwrite block (text ++ [0]) := by
  rw [snprintf, if_neg (by omega), (CString.ofBytes_eq_iff text).mpr hnul,
    List.take_of_length_le (by omega)]

/-- What was written at the start of a block reads back. -/
theorem take_overwrite (block bytes : List UInt8) :
    (overwrite block bytes).take bytes.length = bytes := by
  simp [overwrite]

end FirmwareUpdater
