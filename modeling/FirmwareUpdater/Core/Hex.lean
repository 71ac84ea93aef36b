import Mathlib.Data.UInt
import FirmwareUpdater.Core.Memory

/-!
# Hexadecimal digests

`hex::decode` and `hex::equal`. A C string is read at an index with `byteAt`,
which gives the terminator at its end.
-/

namespace FirmwareUpdater.Hex

/-- The value of a hexadecimal digit, or `-1`. -/
def nibble (c : UInt8) : Int :=
  if 48 ≤ c.toNat ∧ c.toNat ≤ 57 then c.toNat - 48
  else if 97 ≤ c.toNat ∧ c.toNat ≤ 102 then c.toNat - 97 + 10
  else if 65 ≤ c.toNat ∧ c.toNat ≤ 70 then c.toNat - 65 + 10
  else -1

/-- The loop of `decode` from byte `i` on, with `count` bytes left to write. -/
def decodeFrom {bytes : Nat} (text : CString) (out : Vector UInt8 bytes) (i : Nat) :
    Nat → Bool × Vector UInt8 bytes
  | 0 => (true, out)
  | count + 1 =>
      let hi := nibble (text.byteAt (i * 2))
      if hi < 0 then (false, out)
      else
        let lo := nibble (text.byteAt (i * 2 + 1))
        if lo < 0 then (false, out)
        else
          decodeFrom text
            (out.setIfInBounds i (UInt8.ofNat (hi.toNat <<< 4 ||| lo.toNat))) (i + 1) count

/-- `decode`: the bytes of `out` from the digits of `text`, and whether `text` is exactly that
long. -/
def decode {bytes : Nat} (text : CString) (out : Vector UInt8 bytes) :
    Bool × Vector UInt8 bytes :=
  let (ok, out) := decodeFrom text out 0 bytes
  (ok && text.byteAt (bytes * 2) = 0, out)

/-- `equal`: every byte is compared, whatever the first ones say. -/
def equal {bytes : Nat} (a b : Vector UInt8 bytes) : Bool :=
  ((a.toList.zip b.toList).foldl (fun diff p => diff ||| (p.1 ^^^ p.2)) 0) = (0 : UInt8)

/-- The differences gathered so far vanish exactly when each of them does. -/
theorem diff_eq_zero (diff : UInt8) (pairs : List (UInt8 × UInt8)) :
    pairs.foldl (fun diff p => diff ||| (p.1 ^^^ p.2)) diff = 0 ↔
      diff = 0 ∧ ∀ p ∈ pairs, p.1 = p.2 := by
  induction pairs generalizing diff with
  | nil => simp
  | cons p pairs ih =>
      rw [List.foldl_cons, ih, UInt8.or_eq_zero_iff, UInt8.xor_eq_zero_iff]
      simp [and_assoc]

/-- Two lists of one length are equal when they agree pair by pair. -/
theorem zip_agree_iff {a b : List UInt8} (hlength : a.length = b.length) :
    (∀ p ∈ a.zip b, p.1 = p.2) ↔ a = b := by
  induction a generalizing b with
  | nil => cases b <;> simp at hlength ⊢
  | cons x a ih =>
      cases b with
      | nil => simp at hlength
      | cons y b =>
          rw [List.zip_cons_cons, List.forall_mem_cons, ih (Nat.succ.inj hlength),
            List.cons.injEq]

/-- `equal` decides equality. -/
theorem equal_iff {bytes : Nat} (a b : Vector UInt8 bytes) : equal a b = true ↔ a = b := by
  rw [equal, decide_eq_true_eq, diff_eq_zero, zip_agree_iff (by simp), Vector.toList_inj]
  simp

end FirmwareUpdater.Hex
