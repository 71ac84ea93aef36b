import Mathlib.Data.List.GetD
import FirmwareUpdater.Core.VersionOrder

/-!
# Dotted decimal versions

What `compareVersions` answers on dotted versions. The readings of a text are
the numbers `nextComponent` takes from it one after the other; the loop answers
by the first place, before both texts have run out, where the readings differ.
On a dotted version they are its components, but for those `strtol` cuts at
`LONG_MAX`.
-/

namespace FirmwareUpdater.Order

/-! ## Readings -/

/-- What `nextComponent` returns the `n`-th time. -/
def reading (p : CString) : ℕ → Int
  | 0 => (nextComponent p).1
  | n + 1 => reading (nextComponent p).2 n

/-- A component is a reading, a negative one as zero. -/
theorem component_eq (p : CString) (n : ℕ) :
    component p n = if reading p n < 0 then 0 else reading p n := by
  induction n generalizing p with
  | zero => rfl
  | succ n ih => exact ih (nextComponent p).2

/-- The loop of `compareVersions` comes to place `n`: so far the components are the same, and the
texts have not both run out. -/
def Reached (a b : CString) (n : ℕ) : Prop :=
  ∀ i < n, component a i = component b i ∧ (0 ≤ reading a i ∨ 0 ≤ reading b i)

/-- Behind an equal first place the loop goes on with the rest. -/
theorem reached_succ {a b : CString} (h0 : component a 0 = component b 0)
    (hnumber : 0 ≤ reading a 0 ∨ 0 ≤ reading b 0) (n : ℕ) :
    Reached a b (n + 1) ↔ Reached (nextComponent a).2 (nextComponent b).2 n := by
  constructor
  · intro h i hi
    exact h (i + 1) (by omega)
  · intro h i hi
    cases i with
    | zero => exact ⟨h0, hnumber⟩
    | succ i => exact h i (by omega)

/-- Where no number is found the reader stays. -/
theorem reading_stuck {p : CString} (h : nextComponent p = (-1, p)) (n : ℕ) : reading p n = -1 := by
  induction n with
  | zero => rw [reading, h]
  | succ n ih => rw [reading, h, ih]

/-- An empty text gives no number. -/
theorem reading_empty {p : CString} (h : p.byteAt 0 = 0) (n : ℕ) : reading p n = -1 := by
  refine reading_stuck ?_ n
  unfold nextComponent
  rw [if_pos h]

/-- The loop answers by the first place it comes to where the components differ. -/
theorem compareFrom_iff (a b : CString) :
    (compareFrom a b < 0 ↔ ∃ n, Reached a b n ∧ component a n < component b n) ∧
      (0 < compareFrom a b ↔ ∃ n, Reached a b n ∧ component b n < component a n) := by
  -- Once both have run out no place is decided.
  have hout {a b : CString} (ha : reading a 0 < 0) (hb : reading b 0 < 0) (n : ℕ)
      (h : Reached a b n) : component a n = component b n := by
    cases n with
    | zero => rw [component_eq, component_eq, if_pos ha, if_pos hb]
    | succ n =>
        have hnumber := (h 0 (by omega)).2
        omega
  fun_induction compareFrom a b with
  | case1 a b _ va vb hboth =>
      refine ⟨iff_of_false (by omega) ?_, iff_of_false (by omega) ?_⟩
      · rintro ⟨n, hreached, hlt⟩
        exact hlt.ne (hout hboth.1 hboth.2 n hreached)
      · rintro ⟨n, hreached, hlt⟩
        exact hlt.ne' (hout hboth.1 hboth.2 n hreached)
  | case2 a b _ va vb _ la lb _ hlt =>
      have hhead : component a 0 < component b 0 := hlt
      refine ⟨iff_of_true (by omega) ⟨0, fun i hi => absurd hi (Nat.not_lt_zero i), hhead⟩,
        iff_of_false (by omega) ?_⟩
      rintro ⟨n, hreached, hgt⟩
      cases n with
      | zero => exact hgt.asymm hhead
      | succ n => exact hhead.ne (hreached 0 (by omega)).1
  | case3 a b _ va vb _ la lb hne hge =>
      have hhead : component b 0 < component a 0 := by
        have hle : component b 0 ≤ component a 0 := not_lt.mp hge
        have hne' : component a 0 ≠ component b 0 := hne
        omega
      refine ⟨iff_of_false (by omega) ?_,
        iff_of_true (by omega) ⟨0, fun i hi => absurd hi (Nat.not_lt_zero i), hhead⟩⟩
      rintro ⟨n, hreached, hlt⟩
      cases n with
      | zero => exact hlt.asymm hhead
      | succ n => exact hhead.ne' (hreached 0 (by omega)).1
  | case4 a b _ va vb hboth la lb heq ih =>
      have hhead : component a 0 = component b 0 := not_not.mp heq
      have hnumber : 0 ≤ reading a 0 ∨ 0 ≤ reading b 0 := by
        rcases not_and_or.mp hboth with h | h
        · exact .inl (not_lt.mp h)
        · exact .inr (not_lt.mp h)
      have hshift (R : Int → Int → Prop) (hirrefl : ∀ c, ¬R c c) :
          (∃ n, Reached a b n ∧ R (component a n) (component b n)) ↔
            ∃ n, Reached (nextComponent a).2 (nextComponent b).2 n ∧
              R (component (nextComponent a).2 n) (component (nextComponent b).2 n) := by
        constructor
        · rintro ⟨n, hreached, hr⟩
          cases n with
          | zero =>
              rw [hhead] at hr
              exact absurd hr (hirrefl _)
          | succ n => exact ⟨n, (reached_succ hhead hnumber n).mp hreached, hr⟩
        · rintro ⟨n, hreached, hr⟩
          exact ⟨n + 1, (reached_succ hhead hnumber n).mpr hreached, hr⟩
      exact ⟨ih.1.trans (hshift (· < ·) lt_irrefl).symm,
        ih.2.trans (hshift (fun x y => y < x) lt_irrefl).symm⟩
  | case5 a b hend =>
      have hboth : a.byteAt 0 = 0 ∧ b.byteAt 0 = 0 := by
        simpa [not_or] using hend
      have ha : reading a 0 < 0 := by
        rw [reading_empty hboth.1]
        decide
      have hb : reading b 0 < 0 := by
        rw [reading_empty hboth.2]
        decide
      refine ⟨iff_of_false (by omega) ?_, iff_of_false (by omega) ?_⟩
      · rintro ⟨n, hreached, hlt⟩
        exact hlt.ne (hout ha hb n hreached)
      · rintro ⟨n, hreached, hlt⟩
        exact hlt.ne' (hout ha hb n hreached)

/-! ## Versions and their suffixes -/

/-- A dotted decimal version: digit strings, one or more, with a dot between them. -/
structure Dotted where
  parts : List (List UInt8)
  ne_nil : parts ≠ []
  digits : ∀ part ∈ parts, part ≠ [] ∧ ∀ b ∈ part, isdigit b

/-- What may follow a version: a text that goes on with neither a digit nor a dot. -/
structure Suffix where
  text : CString
  start : ∀ b ∈ text.bytes.head?, ¬isdigit b ∧ b ≠ 46

/-- No suffix. -/
def Suffix.none : Suffix := ⟨.empty, by simp [CString.empty]⟩

/-- The component at a place, a missing one as zero. -/
def Dotted.value (v : Dotted) (n : ℕ) : ℕ := (v.parts.map decimal).getD n 0

/-- Between the parts there is nothing but the separator. -/
theorem mem_intercalate {sep : List UInt8} {parts : List (List UInt8)} {b : UInt8}
    (h : b ∈ sep.intercalate parts) : b ∈ sep ∨ ∃ part ∈ parts, b ∈ part := by
  induction parts with
  | nil => simp at h
  | cons part parts ih =>
      cases parts with
      | nil =>
          rw [List.intercalate_singleton] at h
          exact .inr ⟨part, List.mem_cons_self, h⟩
      | cons next parts =>
          rw [List.intercalate_cons_cons, List.mem_append, List.mem_append] at h
          rcases h with (h | h) | h
          · exact .inr ⟨part, List.mem_cons_self, h⟩
          · exact .inl h
          · rcases ih h with hsep | ⟨found, hfound, hb⟩
            · exact .inl hsep
            · exact .inr ⟨found, List.mem_cons_of_mem _ hfound, hb⟩

/-- The version and a suffix as one text. -/
def Dotted.text (v : Dotted) (s : Suffix) : CString where
  bytes := [46].intercalate v.parts ++ s.text.bytes
  noNul h := by
    rw [List.mem_append] at h
    rcases h with h | h
    · rcases mem_intercalate h with hdot | ⟨part, hpart, hmem⟩
      · simp at hdot
      · exact absurd ((v.digits part hpart).2 0 hmem) (by decide)
    · exact s.text.noNul h

/-- `nextComponent` takes a digit string and the dot behind it. -/
theorem nextComponent_digits {p : CString} {part rest : List UInt8}
    (hp : p.bytes = part ++ rest) (hne : part ≠ []) (hdigits : ∀ b ∈ part, isdigit b)
    (hrest : ∀ b ∈ rest.head?, ¬isdigit b) :
    (nextComponent p).1 = min (decimal part : Int) longMax ∧
      (nextComponent p).2.bytes = if rest.head? = some 46 then rest.tail else rest := by
  have hstart : p.byteAt 0 ≠ 0 := by
    rw [Ne, CString.byteAt_zero_eq_zero, CString.length, hp, List.length_append]
    have hpos := List.length_pos_iff.mpr hne
    omega
  have hblanks : ∀ b ∈ ([] : List UInt8), isspace b := by simp
  have hstrtol := strtol_digits hp hblanks hne hdigits hrest
  have hconsumed : ([] : List UInt8).length + part.length ≠ 0 := by
    have hpos := List.length_pos_iff.mpr hne
    omega
  have hdrop : (p.drop part.length).bytes = rest := by
    show p.bytes.drop part.length = rest
    rw [hp, List.drop_left]
  have hdot : (p.drop part.length).byteAt 0 = 46 ↔ rest.head? = some 46 := by
    rw [CString.byteAt, hdrop]
    cases rest <;> simp
  rw [nextComponent, if_neg hstart, hstrtol]
  simp only [List.length_nil, Nat.zero_add] at hconsumed ⊢
  rw [if_neg hconsumed]
  refine ⟨rfl, ?_⟩
  simp only [hdot]
  by_cases hhead : rest.head? = some 46
  · rw [if_pos hhead, if_pos hhead]
    show (p.drop part.length).bytes.drop 1 = rest.tail
    rw [hdrop, List.drop_one]
  · rw [if_neg hhead, if_neg hhead, hdrop]

/-- The readings of digit strings with dots between them, and of what follows. -/
theorem reading_intercalate {p : CString} {s : Suffix} {parts : List (List UInt8)}
    (hne : parts ≠ []) (hdigits : ∀ part ∈ parts, part ≠ [] ∧ ∀ b ∈ part, isdigit b)
    (hp : p.bytes = [46].intercalate parts ++ s.text.bytes) (n : ℕ) :
    reading p n =
      if n < parts.length then min ((parts.map decimal).getD n 0 : Int) longMax
      else reading s.text (n - parts.length) := by
  induction parts generalizing p n with
  | nil => exact absurd rfl hne
  | cons part parts ih =>
      obtain ⟨hpart, hpartdigits⟩ := hdigits part List.mem_cons_self
      cases parts with
      | nil =>
          rw [List.intercalate_singleton] at hp
          obtain ⟨hvalue, hrest⟩ :=
            nextComponent_digits hp hpart hpartdigits fun b hb => (s.start b hb).1
          have hnodot : ¬s.text.bytes.head? = some 46 := fun h => (s.start 46 h).2 rfl
          rw [if_neg hnodot] at hrest
          cases n with
          | zero => simpa [reading] using hvalue
          | succ n =>
              have heq : (nextComponent p).2 = s.text := CString.eq_iff.mpr hrest
              simp [reading, heq]
      | cons next parts =>
          rw [List.intercalate_cons_cons, List.append_assoc, List.append_assoc] at hp
          obtain ⟨hvalue, hrest⟩ :=
            nextComponent_digits hp hpart hpartdigits fun b hb => by
              simp only [List.singleton_append, List.head?_cons, Option.mem_some_iff] at hb
              rw [← hb]
              decide
          rw [if_pos (by simp), List.singleton_append, List.tail_cons] at hrest
          have hmore := ih (by simp) (fun found hfound => hdigits found
            (List.mem_cons_of_mem _ hfound)) hrest
          cases n with
          | zero => simpa [reading] using hvalue
          | succ n =>
              rw [reading, hmore n]
              simp

/-- The readings of a version and its suffix: the components, then the suffix. -/
theorem reading_text (v : Dotted) (s : Suffix) (n : ℕ) :
    reading (v.text s) n =
      if n < v.parts.length then min (v.value n : Int) longMax
      else reading s.text (n - v.parts.length) :=
  reading_intercalate v.ne_nil v.digits rfl n

/-- A version has no component past its parts. -/
theorem value_of_ge (v : Dotted) {n : ℕ} (h : v.parts.length ≤ n) : v.value n = 0 :=
  List.getD_eq_default _ _ (by simpa using h)

/-- The reader takes no positive number from the suffix. -/
def Inert (s : Suffix) : Prop := ∀ n, reading s.text n ≤ 0

/-- As from no suffix. -/
theorem inert_none : Inert .none := by
  intro n
  rw [reading_empty rfl]
  decide

/-- What `compareVersions` compares of a version with such a suffix. -/
theorem component_text {s : Suffix} (hs : Inert s) (v : Dotted) (n : ℕ) :
    component (v.text s) n = (Ranking.cut longMax.toNat v.value n : ℕ) := by
  have hlimit : ((longMax.toNat : ℕ) : Int) = longMax := by decide
  rw [component_eq, Ranking.cut, Nat.cast_min, hlimit, reading_text]
  by_cases hn : n < v.parts.length
  · have hpos : ¬min (v.value n : Int) longMax < 0 := by
      unfold longMax
      omega
    rw [if_pos hn, if_neg hpos]
  · have hle := hs (n - v.parts.length)
    rw [if_neg hn, value_of_ge v (by omega)]
    unfold longMax
    split_ifs <;> omega

/-- The loop comes to every place up to the first difference between versions. -/
theorem reached_text {s t : Suffix} (ht : Inert t) {a b : Dotted} {n : ℕ}
    (hbefore : ∀ i < n, component (a.text s) i = component (b.text t) i)
    (hlt : component (a.text s) n < component (b.text t) n) :
    Reached (a.text s) (b.text t) n := by
  have hn : n < b.parts.length := by
    by_contra hge
    have hzero : component (b.text t) n = 0 := by
      rw [component_text ht, Ranking.cut, value_of_ge b (by omega)]
      decide
    rw [hzero, component_eq] at hlt
    split_ifs at hlt
    · exact absurd hlt (lt_irrefl _)
    · omega
  intro i hi
  refine ⟨hbefore i hi, .inr ?_⟩
  rw [reading_text, if_pos (by omega)]
  unfold longMax
  omega

/-- The same places in the other order. -/
theorem Reached.symm {a b : CString} {n : ℕ} (h : Reached a b n) : Reached b a n :=
  fun i hi => ⟨(h i hi).1.symm, (h i hi).2.symm⟩

/-- A place decides between versions where their cut components first differ. -/
theorem decides_iff {s t : Suffix} (hs : Inert s) (ht : Inert t) (a b : Dotted) :
    (∃ n, Reached (a.text s) (b.text t) n ∧ component (a.text s) n < component (b.text t) n) ↔
      toLex (Ranking.cut longMax.toNat a.value) < toLex (Ranking.cut longMax.toNat b.value) := by
  rw [Ranking.toLex_lt_iff]
  constructor
  · rintro ⟨n, hreached, hlt⟩
    refine ⟨n, fun i hi => ?_, ?_⟩
    · have heq := (hreached i hi).1
      rw [component_text hs, component_text ht] at heq
      exact_mod_cast heq
    · rw [component_text hs, component_text ht] at hlt
      exact_mod_cast hlt
  · rintro ⟨n, hbefore, hlt⟩
    have hlt' : component (a.text s) n < component (b.text t) n := by
      rw [component_text hs, component_text ht]
      exact_mod_cast hlt
    refine ⟨n, reached_text ht (fun i hi => ?_) hlt', hlt'⟩
    rw [component_text hs, component_text ht, hbefore i hi]

/-- So `compareVersions` answers by the components cut at `LONG_MAX`. -/
theorem compareFrom_text {s t : Suffix} (hs : Inert s) (ht : Inert t) (a b : Dotted) :
    (compareFrom (a.text s) (b.text t) < 0 ↔
      toLex (Ranking.cut longMax.toNat a.value) < toLex (Ranking.cut longMax.toNat b.value)) ∧
    (0 < compareFrom (a.text s) (b.text t) ↔
      toLex (Ranking.cut longMax.toNat b.value) < toLex (Ranking.cut longMax.toNat a.value)) := by
  obtain ⟨hneg, hpos⟩ := compareFrom_iff (a.text s) (b.text t)
  refine ⟨hneg.trans (decides_iff hs ht a b), hpos.trans (Iff.trans ?_ (decides_iff ht hs b a))⟩
  constructor
  · rintro ⟨n, hreached, hlt⟩
    exact ⟨n, hreached.symm, hlt⟩
  · rintro ⟨n, hreached, hlt⟩
    exact ⟨n, hreached.symm, hlt⟩

/-! ## The order of versions -/

/-- `compareVersions` orders two versions by their components exactly where the cut at `LONG_MAX`
keeps what decides: the smaller of the components that differ first is below it, or the cut
components after them go on to differ the same way. -/
theorem compare_dotted_iff (a b : Dotted) :
    Ranking.Answers (compareVersions (some (a.text .none)) (some (b.text .none))) a.value b.value ↔
      Ranking.CutKeeps longMax.toNat a.value b.value ∧
        Ranking.CutKeeps longMax.toNat b.value a.value := by
  obtain ⟨hneg, hpos⟩ := compareFrom_text inert_none inert_none a b
  rw [Ranking.cutKeeps_iff, Ranking.cutKeeps_iff, compareVersions]
  constructor
  · rintro ⟨hless, -, hgreater⟩
    exact ⟨fun h => hneg.mp (hless.mpr h), fun h => hpos.mp (hgreater.mpr h)⟩
  · rintro ⟨hless, hgreater⟩
    refine Ranking.answers_of_lt (fun h => hneg.mpr (hless h)) (fun h => hpos.mpr (hgreater h)) ?_
    intro heq
    have hnotneg : ¬compareFrom (a.text .none) (b.text .none) < 0 := by
      rw [hneg, heq]
      exact lt_irrefl _
    have hnotpos : ¬0 < compareFrom (a.text .none) (b.text .none) := by
      rw [hpos, heq]
      exact lt_irrefl _
    omega

/-- A version of one component. -/
def single (part : List UInt8) (hne : part ≠ []) (hdigits : ∀ b ∈ part, isdigit b) : Dotted where
  parts := [part]
  ne_nil := by simp
  digits := by
    intro found hfound
    rw [List.mem_singleton.mp hfound]
    exact ⟨hne, hdigits⟩

/-- Two builds of one minute, named by their time, compare as equal. -/
theorem compare_dotted_time_builds :
    ∃ a b : Dotted, (a.text .none).bytes = ascii "20250101123457" ∧
      (b.text .none).bytes = ascii "20250101123456" ∧ (a.text .none).length ≤ 23 ∧
      (b.text .none).length ≤ 23 ∧
      compareVersions (some (a.text .none)) (some (b.text .none)) = 0 ∧
      ¬Ranking.Answers (compareVersions (some (a.text .none)) (some (b.text .none)))
        a.value b.value := by
  refine ⟨single (ascii "20250101123457") (by decide +kernel) (by decide +kernel),
    single (ascii "20250101123456") (by decide +kernel) (by decide +kernel), by decide +kernel,
    by decide +kernel, by decide +kernel, by decide +kernel, by decide +kernel, ?_⟩
  intro h
  have hequal := h.2.1.mp (by decide +kernel)
  exact absurd (congrFun hequal 0) (by decide)

end FirmwareUpdater.Order
