import Mathlib.Data.Nat.Bitwise
import FirmwareUpdater.Core.CLib
import FirmwareUpdater.Core.Hex

/-!
# The hexadecimal codec

`hex::encode`, and what the three functions of `hex` say of one another. A null
text or block is refused by each of them before anything else; the strings and
blocks here are the ones that are there.
-/

namespace FirmwareUpdater.Hex

/-- `kDigits`. -/
def kDigits : List UInt8 := ascii "0123456789abcdef"

/-- The loop of `encode` from byte `i` of the data on. -/
def encodeFrom {cap : Nat} (out : Vector UInt8 cap) (i : Nat) :
    List UInt8 → Vector UInt8 cap
  | [] => out
  | byte :: data =>
      let out := out.setIfInBounds (i * 2) (kDigits.getD (byte >>> 4).toNat 0)
      let out := out.setIfInBounds (i * 2 + 1) (kDigits.getD (byte &&& 0x0F).toNat 0)
      encodeFrom out (i + 1) data

/-- `encode`: two lower-case digits a byte and the terminator, when `out` holds them all. -/
def encode {bytes cap : Nat} (data : Vector UInt8 bytes) (out : Vector UInt8 cap) :
    Bool × Vector UInt8 cap :=
  if cap < bytes * 2 + 1 then (false, out)
  else (true, (encodeFrom out 0 data.toList).setIfInBounds (bytes * 2) 0)

/-- A hexadecimal digit, in either case. -/
def HexDigit (c : UInt8) : Prop := tolower c ∈ kDigits

instance (c : UInt8) : Decidable (HexDigit c) := inferInstanceAs (Decidable (_ ∈ _))

/-- The value of a hexadecimal digit: its place among the sixteen. -/
def digitValue (c : UInt8) : Nat := kDigits.idxOf (tolower c)

/-- The byte that the pair of digits number `i` spells. -/
def spelt (text : CString) (i : Nat) : UInt8 :=
  UInt8.ofNat (16 * digitValue (text.byteAt (2 * i)) + digitValue (text.byteAt (2 * i + 1)))

/-- Pair number `i` of the text is two hexadecimal digits. -/
def Pair (text : CString) (i : Nat) : Prop :=
  HexDigit (text.byteAt (2 * i)) ∧ HexDigit (text.byteAt (2 * i + 1))

/-- The text is hexadecimal digits only, two for each of that many bytes. -/
def Exact (bytes : Nat) (text : CString) : Prop :=
  text.length = 2 * bytes ∧ ∀ c ∈ text.bytes, HexDigit c

/-- What is true of the 256 bytes is true of every byte. -/
theorem forall_byte {P : UInt8 → Prop} (h : ∀ n, n < 256 → P (UInt8.ofNat n)) (c : UInt8) :
    P c := by
  have hc := h c.toNat c.toNat_lt
  rwa [UInt8.ofNat_toNat] at hc

/-- `nibble` is the value of a digit and refuses every other byte. -/
theorem nibble_eq (c : UInt8) : nibble c = if HexDigit c then (digitValue c : Int) else -1 :=
  forall_byte (P := fun c => nibble c = if HexDigit c then (digitValue c : Int) else -1)
    (by decide +kernel) c

/-- The digits of two halves, put together. -/
theorem pair_byte {hi lo : UInt8} (hhi : HexDigit hi) (hlo : HexDigit lo) :
    UInt8.ofNat ((nibble hi).toNat <<< 4 ||| (nibble lo).toNat) =
      UInt8.ofNat (16 * digitValue hi + digitValue lo) := by
  have hlt : digitValue lo < 2 ^ 4 := List.idxOf_lt_length_iff.mpr hlo
  rw [nibble_eq, nibble_eq, if_pos hhi, if_pos hlo, Int.toNat_natCast, Int.toNat_natCast,
    ← Nat.shiftLeft_add_eq_or_of_lt hlt, Nat.shiftLeft_eq, Nat.mul_comm]

/-- A terminator is no digit. -/
theorem not_hexDigit_zero : ¬HexDigit 0 := by decide +kernel

/-- What one pass of the loop does. -/
theorem decodeFrom_succ {bytes : Nat} (text : CString) (out : Vector UInt8 bytes) (i count : Nat) :
    (Pair text i ∧ decodeFrom text out i (count + 1) =
        decodeFrom text (out.setIfInBounds i (spelt text i)) (i + 1) count) ∨
      (¬Pair text i ∧ decodeFrom text out i (count + 1) = (false, out)) := by
  rw [decodeFrom, Nat.mul_comm i 2]
  by_cases hhi : HexDigit (text.byteAt (2 * i))
  · have hnotlt : ¬nibble (text.byteAt (2 * i)) < 0 := by
      rw [nibble_eq, if_pos hhi]
      omega
    by_cases hlo : HexDigit (text.byteAt (2 * i + 1))
    · have hnotlt' : ¬nibble (text.byteAt (2 * i + 1)) < 0 := by
        rw [nibble_eq, if_pos hlo]
        omega
      refine .inl ⟨⟨hhi, hlo⟩, ?_⟩
      show (if _ then _ else if _ then _ else _) = _
      rw [if_neg hnotlt, if_neg hnotlt', pair_byte hhi hlo, spelt]
    · have hlt : nibble (text.byteAt (2 * i + 1)) < 0 := by
        rw [nibble_eq, if_neg hlo]
        decide
      refine .inr ⟨fun h => hlo h.2, ?_⟩
      show (if _ then _ else if _ then _ else _) = _
      rw [if_neg hnotlt, if_pos hlt]
  · have hlt : nibble (text.byteAt (2 * i)) < 0 := by
      rw [nibble_eq, if_neg hhi]
      decide
    refine .inr ⟨fun h => hhi h.1, ?_⟩
    show (if _ then _ else if _ then _ else _) = _
    rw [if_pos hlt]

/-- The loop succeeds exactly when every pair it comes to is two digits. -/
theorem decodeFrom_true_iff {bytes : Nat} (text : CString) (out : Vector UInt8 bytes)
    (i count : Nat) :
    (decodeFrom text out i count).1 = true ↔ ∀ j, i ≤ j → j < i + count → Pair text j := by
  induction count generalizing out i with
  | zero => exact ⟨fun _ j hle hlt => absurd hlt (by omega), fun _ => rfl⟩
  | succ count ih =>
      rcases decodeFrom_succ text out i count with ⟨hpair, hstep⟩ | ⟨hnot, hstep⟩
      · rw [hstep, ih]
        constructor
        · intro h j hle hlt
          by_cases heq : j = i
          · exact heq ▸ hpair
          · exact h j (by omega) (by omega)
        · intro h j hle hlt
          exact h j (by omega) (by omega)
      · rw [hstep]
        refine ⟨fun h => absurd h Bool.false_ne_true, fun h => ?_⟩
        exact absurd (h i (by omega) (by omega)) hnot

/-- A place is written exactly when every pair up to its own is two digits. -/
theorem decodeFrom_get {bytes : Nat} (text : CString) (out : Vector UInt8 bytes) (i count : Nat)
    {j : Nat} (hj : j < bytes) :
    (i ≤ j ∧ j < i + count ∧ (∀ k, i ≤ k → k ≤ j → Pair text k) →
        (decodeFrom text out i count).2[j] = spelt text j) ∧
      (¬(i ≤ j ∧ j < i + count ∧ ∀ k, i ≤ k → k ≤ j → Pair text k) →
        (decodeFrom text out i count).2[j] = out[j]) := by
  induction count generalizing out i with
  | zero => exact ⟨fun h => absurd h.2.1 (by omega), fun _ => rfl⟩
  | succ count ih =>
      rcases decodeFrom_succ text out i count with ⟨hpair, hstep⟩ | ⟨hnot, hstep⟩
      · rw [hstep]
        obtain ⟨hwritten, hkept⟩ := ih (out.setIfInBounds i (spelt text i)) (i + 1)
        by_cases heq : i = j
        · -- This pass writes the place, and no later one comes back to it.
          have hlast := hkept fun h => absurd h.1 (by omega)
          rw [hlast, Vector.getElem_setIfInBounds hj, if_pos heq, heq]
          refine ⟨fun _ => rfl, fun h => absurd ⟨by omega, by omega, ?_⟩ h⟩
          intro k hle hge
          have hk : k = i := by omega
          exact hk ▸ hpair
        · constructor
          · rintro ⟨hle, hlt, hall⟩
            exact hwritten ⟨by omega, by omega, fun k hle' hge => hall k (by omega) hge⟩
          · intro h
            have hlast := hkept fun h' => h ⟨by omega, by omega, fun k hle hge => by
              by_cases hk : k = i
              · exact hk ▸ hpair
              · exact h'.2.2 k (by omega) hge⟩
            rw [hlast, Vector.getElem_setIfInBounds hj, if_neg heq]
      · rw [hstep]
        exact ⟨fun h => absurd (h.2.2 i (Nat.le_refl i) h.1) hnot, fun _ => rfl⟩

/-- The pairs that are all digits, with the terminator behind them, are the whole text. -/
theorem exact_iff {bytes : Nat} (text : CString) :
    ((∀ j, j < bytes → Pair text j) ∧ text.byteAt (2 * bytes) = 0) ↔ Exact bytes text := by
  constructor
  · rintro ⟨hpairs, hend⟩
    have hdigit : ∀ k, k < 2 * bytes → HexDigit (text.byteAt k) := by
      intro k hk
      have hpair := hpairs (k / 2) (by omega)
      rcases Nat.mod_two_eq_zero_or_one k with hmod | hmod
      · have hk' : 2 * (k / 2) = k := by omega
        exact hk' ▸ hpair.1
      · have hk' : 2 * (k / 2) + 1 = k := by omega
        exact hk' ▸ hpair.2
    have hle : text.length ≤ 2 * bytes := by
      by_contra hlong
      have hlt : 2 * bytes < text.bytes.length := by
        unfold CString.length at hlong
        omega
      rw [CString.byteAt, List.getD_eq_getElem _ _ hlt] at hend
      exact text.noNul (hend ▸ List.getElem_mem hlt)
    have hge : 2 * bytes ≤ text.length := by
      by_contra hshort
      -- The terminator would be one of the digits.
      have hzero : text.byteAt text.length = 0 := List.getD_eq_default _ _ (Nat.le_refl _)
      exact not_hexDigit_zero (hzero ▸ hdigit text.length (by omega))
    have hlength : text.length = 2 * bytes := Nat.le_antisymm hle hge
    refine ⟨hlength, ?_⟩
    intro c hc
    obtain ⟨k, hk, hget⟩ := List.getElem_of_mem hc
    have hdig := hdigit k (hlength ▸ hk)
    rwa [CString.byteAt, List.getD_eq_getElem _ _ hk, hget] at hdig
  · rintro ⟨hlength, hdigits⟩
    have hdigit : ∀ k, k < 2 * bytes → HexDigit (text.byteAt k) := by
      intro k hk
      have hlt : k < text.bytes.length := by
        rw [← hlength] at hk
        exact hk
      rw [CString.byteAt, List.getD_eq_getElem _ _ hlt]
      exact hdigits _ (List.getElem_mem hlt)
    refine ⟨fun j hj => ⟨hdigit _ (by omega), hdigit _ (by omega)⟩, ?_⟩
    exact List.getD_eq_default _ _ (Nat.le_of_eq hlength)

/-- `decode` accepts exactly the texts of two digits a byte. -/
theorem decode_true_iff {bytes : Nat} (text : CString) (out : Vector UInt8 bytes) :
    (decode text out).1 = true ↔ Exact bytes text := by
  show (_ && _) = true ↔ _
  rw [Bool.and_eq_true, decide_eq_true_eq, decodeFrom_true_iff, Nat.mul_comm bytes 2, Nat.zero_add,
    ← exact_iff]
  exact and_congr_left' ⟨fun h j hj => h j (Nat.zero_le j) hj, fun h j _ hj => h j hj⟩

/-- What `decode` leaves in a place: the byte spelt there if the text is digits up to it, and
otherwise what was there. -/
theorem decode_get {bytes : Nat} (text : CString) (out : Vector UInt8 bytes) {j : Nat}
    (hj : j < bytes) :
    ((∀ k, k ≤ j → Pair text k) → (decode text out).2[j] = spelt text j) ∧
      (¬(∀ k, k ≤ j → Pair text k) → (decode text out).2[j] = out[j]) := by
  obtain ⟨hwritten, hkept⟩ := decodeFrom_get text out 0 bytes hj
  constructor
  · intro h
    exact hwritten ⟨Nat.zero_le j, by omega, fun k _ hge => h k hge⟩
  · intro h
    exact hkept fun h' => h fun k hge => h'.2.2 k (Nat.zero_le k) hge

/-- What `decode` writes into `out` before it refuses a text is what was there already. -/
def Unchanging {bytes : Nat} (text : CString) (out : Vector UInt8 bytes) : Prop :=
  ∀ i (h : i < bytes), (∀ j, j ≤ i → Pair text j) → spelt text i = out[i]

/-- A refused text leaves `out` as it was exactly when the digits it starts with spell what is
there. -/
theorem decode_refused_unchanged_iff {bytes : Nat} (text : CString) (out : Vector UInt8 bytes) :
    ((decode text out).1 = false → (decode text out).2 = out) ↔
      Exact bytes text ∨ Unchanging text out := by
  rw [← decode_true_iff text out]
  constructor
  · intro h
    cases hok : (decode text out).1 with
    | true => exact .inl rfl
    | false =>
        refine .inr ?_
        intro i hi hdigits
        rw [← (decode_get text out hi).1 hdigits, h hok]
  · intro h hrefused
    rcases h with htrue | hsame
    · rw [hrefused] at htrue
      cases htrue
    · apply Vector.ext
      intro i hi
      by_cases hdigits : ∀ j, j ≤ i → Pair text j
      · rw [(decode_get text out hi).1 hdigits]
        exact hsame i hi hdigits
      · exact (decode_get text out hi).2 hdigits

/-- The text `41` for two bytes is refused, and its one byte has been written by then. -/
theorem decode_refused_writes :
    (decode ⟨[52, 49], by decide⟩ (Vector.replicate 2 0)).1 = false ∧
      (decode ⟨[52, 49], by decide⟩ (Vector.replicate 2 0)).2 ≠ Vector.replicate 2 0 := by
  decide +kernel

/-- The two digits of a byte. -/
def digitsOf (byte : UInt8) : List UInt8 :=
  [kDigits.getD (byte >>> 4).toNat 0, kDigits.getD (byte &&& 0x0F).toNat 0]

/-- The two digits of a byte are digits, and spell it. -/
theorem digits_spell (byte : UInt8) :
    HexDigit (kDigits.getD (byte >>> 4).toNat 0) ∧
      HexDigit (kDigits.getD (byte &&& 0x0F).toNat 0) ∧
      UInt8.ofNat (16 * digitValue (kDigits.getD (byte >>> 4).toNat 0) +
        digitValue (kDigits.getD (byte &&& 0x0F).toNat 0)) = byte :=
  forall_byte (P := fun byte => HexDigit (kDigits.getD (byte >>> 4).toNat 0) ∧
      HexDigit (kDigits.getD (byte &&& 0x0F).toNat 0) ∧
      UInt8.ofNat (16 * digitValue (kDigits.getD (byte >>> 4).toNat 0) +
        digitValue (kDigits.getD (byte &&& 0x0F).toNat 0)) = byte) (by decide +kernel) byte

/-- A byte put together from two halves comes apart into them. -/
theorem halves_of_byte : ∀ hi, hi < 16 → ∀ lo, lo < 16 →
    (UInt8.ofNat (16 * hi + lo) >>> 4).toNat = hi ∧
      (UInt8.ofNat (16 * hi + lo) &&& 0x0F).toNat = lo := by
  decide +kernel

/-- A digit is found at its value, in lower case. -/
theorem kDigits_digitValue {c : UInt8} (h : HexDigit c) :
    kDigits.getD (digitValue c) 0 = tolower c := by
  have hlt : digitValue c < kDigits.length := List.idxOf_lt_length_iff.mpr h
  rw [List.getD_eq_getElem _ _ hlt]
  exact List.getElem_idxOf hlt

/-- The digits of what two digits spell are these, in lower case. -/
theorem digitsOf_spelt {hi lo : UInt8} (hhi : HexDigit hi) (hlo : HexDigit lo) :
    digitsOf (UInt8.ofNat (16 * digitValue hi + digitValue lo)) = [tolower hi, tolower lo] := by
  have hlt (c : UInt8) (h : HexDigit c) : digitValue c < 16 := List.idxOf_lt_length_iff.mpr h
  obtain ⟨hhigh, hlow⟩ := halves_of_byte _ (hlt hi hhi) _ (hlt lo hlo)
  rw [digitsOf, hhigh, hlow, kDigits_digitValue hhi, kDigits_digitValue hlo]

/-- A byte written into a block of three parts. -/
theorem set_append {front : List UInt8} {i : Nat} (hfront : front.length = i) (byte old : UInt8)
    (back : List UInt8) : (front ++ old :: back).set i byte = front ++ byte :: back := by
  rw [List.set_append_right _ _ (Nat.le_of_eq hfront), hfront, Nat.sub_self, List.set_cons_zero]

/-- The loop of `encode` writes the digits of the data, and nothing outside their places. -/
theorem encodeFrom_toList {cap : Nat} (out : Vector UInt8 cap) {front room back : List UInt8}
    {i : Nat} {data : List UInt8} (hout : out.toList = front ++ room ++ back)
    (hfront : front.length = i * 2) (hroom : room.length = 2 * data.length) :
    (encodeFrom out i data).toList = front ++ data.flatMap digitsOf ++ back := by
  induction data generalizing out front room i with
  | nil =>
      have hnil : room = [] := List.length_eq_zero_iff.mp hroom
      rw [encodeFrom, hout, hnil, List.flatMap_nil]
  | cons byte data ih =>
      obtain ⟨x, y, room, rfl⟩ : ∃ x y rest, room = x :: y :: rest := by
        rcases room with _ | ⟨x, _ | ⟨y, rest⟩⟩
        · simp at hroom
        · simp at hroom
          omega
        · exact ⟨x, y, rest, rfl⟩
      have hroom' : room.length = 2 * data.length := by
        rw [List.length_cons, List.length_cons, List.length_cons] at hroom
        omega
      have hhi : (front ++ [kDigits.getD (byte >>> 4).toNat 0]).length = i * 2 + 1 := by
        rw [List.length_append, hfront, List.length_singleton]
      have hlo : (front ++ digitsOf byte).length = (i + 1) * 2 := by
        rw [List.length_append, hfront, digitsOf, List.length_cons, List.length_singleton]
        omega
      have hset : ((out.setIfInBounds (i * 2) (kDigits.getD (byte >>> 4).toNat 0)).setIfInBounds
          (i * 2 + 1) (kDigits.getD (byte &&& 0x0F).toNat 0)).toList =
          front ++ digitsOf byte ++ room ++ back := by
        rw [Vector.toList_setIfInBounds, Vector.toList_setIfInBounds, hout, List.append_assoc,
          List.cons_append, set_append hfront]
        have hsplit (a : UInt8) (rest : List UInt8) :
            front ++ a :: rest = front ++ [a] ++ rest := by
          rw [List.append_assoc, List.singleton_append]
        rw [hsplit, List.cons_append, set_append hhi]
        simp only [digitsOf, List.append_assoc, List.cons_append, List.nil_append]
      show (encodeFrom _ (i + 1) data).toList = _
      rw [ih _ hset hlo hroom', List.flatMap_cons, List.append_assoc front]

/-- The digits of the data, in the order of its bytes. -/
theorem length_digits (data : List UInt8) : (data.flatMap digitsOf).length = 2 * data.length := by
  induction data with
  | nil => rfl
  | cons byte data ih =>
      rw [List.flatMap_cons, List.length_append, ih, List.length_cons, digitsOf, List.length_cons,
        List.length_singleton]
      omega

/-- Every byte of the digits is a digit. -/
theorem hexDigit_of_mem {data : List UInt8} {c : UInt8} (h : c ∈ data.flatMap digitsOf) :
    HexDigit c := by
  obtain ⟨byte, -, hc⟩ := List.mem_flatMap.mp h
  obtain ⟨hhi, hlo, -⟩ := digits_spell byte
  rcases List.mem_cons.mp hc with heq | hmem
  · exact heq ▸ hhi
  · exact List.mem_singleton.mp hmem ▸ hlo

/-- The two digits of byte number `i` stand at its places. -/
theorem digits_at {data : List UInt8} {i : Nat} (hi : i < data.length) :
    (data.flatMap digitsOf).getD (2 * i) 0 = kDigits.getD (data[i] >>> 4).toNat 0 ∧
      (data.flatMap digitsOf).getD (2 * i + 1) 0 =
        kDigits.getD (data[i] &&& 0x0F).toNat 0 := by
  induction data generalizing i with
  | nil => exact absurd hi (Nat.not_lt_zero i)
  | cons byte data ih =>
      cases i with
      | zero => exact ⟨rfl, rfl⟩
      | succ i => exact ih (Nat.lt_of_succ_lt_succ hi)

/-- With room for it, `encode` writes the digits of the data as a C string. -/
theorem encode_text {bytes cap : Nat} (data : Vector UInt8 bytes) (out : Vector UInt8 cap)
    (hroom : bytes * 2 + 1 ≤ cap) :
    (encode data out).1 = true ∧
      (CString.ofBytes (encode data out).2.toList).bytes = data.toList.flatMap digitsOf := by
  have hbig : ¬cap < bytes * 2 + 1 := Nat.not_lt.mpr hroom
  have hlength : out.toList.length = cap := Vector.length_toList
  have hdata : data.toList.length = bytes := Vector.length_toList
  obtain ⟨old, back, hback⟩ : ∃ old back, out.toList.drop (bytes * 2) = old :: back := by
    cases hdrop : out.toList.drop (bytes * 2) with
    | nil =>
        have hle := List.drop_eq_nil_iff.mp hdrop
        omega
    | cons old back => exact ⟨old, back, rfl⟩
  have hwritten : (encodeFrom out 0 data.toList).toList =
      data.toList.flatMap digitsOf ++ old :: back := by
    have hout : out.toList = [] ++ out.toList.take (bytes * 2) ++ old :: back := by
      rw [List.nil_append, ← hback, List.take_append_drop]
    have hroom' : (out.toList.take (bytes * 2)).length = 2 * data.toList.length := by
      rw [List.length_take, hlength, hdata]
      omega
    exact encodeFrom_toList out hout rfl hroom'
  have hplace : (data.toList.flatMap digitsOf).length = bytes * 2 := by
    rw [length_digits, hdata, Nat.mul_comm]
  rw [encode, if_neg hbig]
  refine ⟨rfl, ?_⟩
  show (CString.ofBytes (Vector.setIfInBounds _ _ _).toList).bytes = _
  rw [Vector.toList_setIfInBounds, hwritten, set_append hplace]
  exact CString.ofBytes_terminated _ _ fun hmem => not_hexDigit_zero (hexDigit_of_mem hmem)

/-- `decode` of what `encode` wrote gives the data back. -/
theorem decode_encode {bytes cap : Nat} (data out : Vector UInt8 bytes) (block : Vector UInt8 cap)
    (hroom : bytes * 2 + 1 ≤ cap) :
    decode (CString.ofBytes (encode data block).2.toList) out = (true, data) := by
  obtain ⟨-, htext⟩ := encode_text data block hroom
  have hdata : data.toList.length = bytes := Vector.length_toList
  have hexact : Exact bytes (CString.ofBytes (encode data block).2.toList) := by
    constructor
    · rw [CString.length, htext, length_digits, hdata]
    · intro c hc
      rw [htext] at hc
      exact hexDigit_of_mem hc
  refine Prod.ext ((decode_true_iff _ out).mpr hexact) (Vector.ext fun i hi => ?_)
  have hpairs := ((exact_iff _).mpr hexact).1
  rw [(decode_get _ out hi).1 fun k hk => hpairs k (by omega), spelt, CString.byteAt,
    CString.byteAt, htext]
  have hi' : i < data.toList.length := hdata.symm ▸ hi
  obtain ⟨hhigh, hlow⟩ := digits_at hi'
  rw [hhigh, hlow, (digits_spell _).2.2, Vector.getElem_toList]

/-- `encode` of what `decode` read is the text in lower case. -/
theorem encode_decode {bytes cap : Nat} (text : CString) (out : Vector UInt8 bytes)
    (block : Vector UInt8 cap) (hroom : bytes * 2 + 1 ≤ cap) (hexact : Exact bytes text) :
    (CString.ofBytes (encode (decode text out).2 block).2.toList).bytes =
      text.bytes.map tolower := by
  rw [(encode_text _ block hroom).2]
  have hdata : (decode text out).2.toList.length = bytes := Vector.length_toList
  have hpairs := ((exact_iff text).mpr hexact).1
  have hlength : text.bytes.length = 2 * bytes := hexact.1
  have hspelt {i : Nat} (hi : i < bytes) : (decode text out).2[i] = spelt text i :=
    (decode_get text out hi).1 fun k hk => hpairs k (by omega)
  apply List.ext_getElem
  · rw [length_digits, hdata, List.length_map, hlength]
  · intro k hk hk'
    rw [List.length_map, hlength] at hk'
    have hhalf : k / 2 < (decode text out).2.toList.length := by omega
    obtain ⟨hhigh, hlow⟩ := digits_at hhalf
    have hpair := hpairs (k / 2) (by omega)
    have hdigits := digitsOf_spelt hpair.1 hpair.2
    rw [Vector.getElem_toList, hspelt (by omega), spelt] at hhigh hlow
    rw [digitsOf, List.cons.injEq, List.cons.injEq] at hdigits
    rw [hdigits.1] at hhigh
    rw [hdigits.2.1] at hlow
    rw [List.getElem_map, ← List.getD_eq_getElem _ 0 hk,
      ← List.getD_eq_getElem text.bytes 0 (hlength.symm ▸ hk')]
    rcases Nat.mod_two_eq_zero_or_one k with hmod | hmod
    · have hk2 : 2 * (k / 2) = k := by omega
      rw [hk2] at hhigh
      exact hhigh
    · have hk2 : 2 * (k / 2) + 1 = k := by omega
      rw [hk2] at hlow
      exact hlow

/-- The codec: `decode` accepts exactly two digits a byte and leaves what they spell, `encode`
and `decode` undo each other up to the case of the digits, and `equal` is equality. -/
theorem codec_agrees {bytes : Nat} (text : CString) (data out : Vector UInt8 bytes) :
    ((decode text out).1 = true ↔ Exact bytes text) ∧
      ((decode text out).1 = true →
        ∀ i (h : i < bytes), (decode text out).2[i] = spelt text i) ∧
      (∀ cap (block : Vector UInt8 cap), bytes * 2 + 1 ≤ cap → (encode data block).1 = true ∧
        decode (CString.ofBytes (encode data block).2.toList) out = (true, data)) ∧
      ((decode text out).1 = true → ∀ cap (block : Vector UInt8 cap), bytes * 2 + 1 ≤ cap →
        (encode (decode text out).2 block).1 = true ∧
          (CString.ofBytes (encode (decode text out).2 block).2.toList).bytes =
            text.bytes.map tolower) ∧
      ∀ other, equal data other = true ↔ data = other := by
  refine ⟨decode_true_iff text out, ?_, ?_, ?_, equal_iff data⟩
  · intro htrue i hi
    have hpairs := ((exact_iff text).mpr ((decode_true_iff text out).mp htrue)).1
    exact (decode_get text out hi).1 fun k hk => hpairs k (by omega)
  · intro cap block hroom
    exact ⟨(encode_text data block hroom).1, decode_encode data out block hroom⟩
  · intro htrue cap block hroom
    have hexact := (decode_true_iff text out).mp htrue
    exact ⟨(encode_text _ block hroom).1, encode_decode text out block hroom hexact⟩

end FirmwareUpdater.Hex
