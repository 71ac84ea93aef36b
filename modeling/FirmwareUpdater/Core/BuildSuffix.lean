import FirmwareUpdater.Core.DottedVersions

/-!
# Build suffixes

`strtol` takes a sign and leading blanks, so some suffixes are read as further
components: `+5` as a five, `-0.5` as a zero and a five. A suffix leaves every
comparison as it is exactly if nothing positive is read from it.
-/

namespace FirmwareUpdater.Order

/-- Every component is below `2^31`. -/
def Dotted.Small (v : Dotted) : Prop := ∀ part ∈ v.parts, decimal part < 2147483648

/-- The suffixes leave the comparison of the versions as it is. -/
def KeepsOrder (v w : Dotted) (s t : Suffix) : Prop :=
  compareVersions (some (v.text s)) (some (w.text t)) =
    compareVersions (some (v.text .none)) (some (w.text .none))

/-- The numbers read from two texts first differ at `n`, where `a` is below, and the texts have
not both run out before. -/
def FirstReadBelow (a b : CString) (n : ℕ) : Prop :=
  Reached a b n ∧ component a n < component b n

/-- A comparison has three answers. -/
theorem compareFrom_values (a b : CString) :
    compareFrom a b = -1 ∨ compareFrom a b = 0 ∨ compareFrom a b = 1 := by
  fun_induction compareFrom a b with
  | case4 a b _ va vb _ la lb _ ih => exact ih
  | _ => simp

/-- Comparisons are equal that have the same sign. -/
theorem compareFrom_eq_iff (a b c d : CString) :
    compareFrom a b = compareFrom c d ↔
      (compareFrom a b < 0 ↔ compareFrom c d < 0) ∧
        (0 < compareFrom a b ↔ 0 < compareFrom c d) := by
  have hab := compareFrom_values a b
  have hcd := compareFrom_values c d
  constructor
  · intro h
    rw [h]
    exact ⟨Iff.rfl, Iff.rfl⟩
  · rintro ⟨hneg, hpos⟩
    omega

/-- Small components are not cut. -/
theorem Dotted.Small.cut_eq {v : Dotted} (h : v.Small) :
    Ranking.cut longMax.toNat v.value = v.value := by
  funext n
  have hle : v.value n ≤ 2147483647 := by
    by_cases hn : n < v.parts.length
    · have hpart := h (v.parts.get ⟨n, hn⟩) (List.get_mem _ _)
      have hvalue : v.value n = decimal (v.parts.get ⟨n, hn⟩) := by
        rw [Dotted.value, List.getD_eq_getElem _ _ (by simpa using hn), List.getElem_map]
        rfl
      omega
    · rw [value_of_ge v (by omega)]
      omega
  exact min_eq_left hle

/-- One comparison is kept if the first place that decides it goes the way the components of the
versions first differ. -/
theorem keepsOrder_iff {v w : Dotted} (hv : v.Small) (hw : w.Small) (s t : Suffix) :
    KeepsOrder v w s t ↔
      ((∃ n, FirstReadBelow (v.text s) (w.text t) n) ↔
        ∃ n, Ranking.FirstBelow v.value w.value n) ∧
      ((∃ n, FirstReadBelow (w.text t) (v.text s) n) ↔
        ∃ n, Ranking.FirstBelow w.value v.value n) := by
  obtain ⟨hneg, hpos⟩ := compareFrom_iff (v.text s) (w.text t)
  obtain ⟨hplainneg, hplainpos⟩ := compareFrom_text inert_none inert_none v w
  have hsymm : (∃ n, Reached (v.text s) (w.text t) n ∧
      component (w.text t) n < component (v.text s) n) ↔
        ∃ n, FirstReadBelow (w.text t) (v.text s) n := by
    constructor
    · rintro ⟨n, hreached, hlt⟩
      exact ⟨n, hreached.symm, hlt⟩
    · rintro ⟨n, hreached, hlt⟩
      exact ⟨n, hreached.symm, hlt⟩
  rw [hv.cut_eq, hw.cut_eq, Ranking.toLex_lt_iff] at hplainneg hplainpos
  show compareFrom _ _ = compareFrom _ _ ↔ _
  rw [compareFrom_eq_iff, hneg, hpos, hplainneg, hplainpos, hsymm]
  rfl

/-- Suffixes from which nothing positive is read keep every comparison. -/
theorem keepsOrder_of_inert {s t : Suffix} (hs : Inert s) (ht : Inert t) (v w : Dotted) :
    KeepsOrder v w s t := by
  obtain ⟨hneg, hpos⟩ := compareFrom_text hs ht v w
  obtain ⟨hplainneg, hplainpos⟩ := compareFrom_text inert_none inert_none v w
  show compareFrom _ _ = compareFrom _ _
  rw [compareFrom_eq_iff, hneg, hpos, hplainneg, hplainpos]
  exact ⟨Iff.rfl, Iff.rfl⟩

/-- A version of zeros. -/
def zeros (k : ℕ) : Dotted where
  parts := List.replicate (k + 1) [48]
  ne_nil := by simp
  digits := by
    intro part hpart
    rw [List.eq_of_mem_replicate hpart]
    decide +kernel

/-- All its components are zero. -/
theorem value_zeros (k n : ℕ) : (zeros k).value n = 0 := by
  have hdecimal : decimal [48] = 0 := by decide
  rw [Dotted.value, zeros, List.map_replicate, hdecimal]
  by_cases hn : n < k + 1
  · rw [List.getD_replicate _ hn]
  · exact List.getD_eq_default _ _ (by simpa using hn)

/-- It is small. -/
theorem small_zeros (k : ℕ) : (zeros k).Small := by
  intro part hpart
  rw [List.eq_of_mem_replicate hpart]
  decide +kernel

/-- A suffix that is not inert has a first positive number. -/
theorem first_positive {s : Suffix} (h : ¬Inert s) :
    ∃ k, 0 < reading s.text k ∧ ∀ i < k, reading s.text i ≤ 0 := by
  have hexists : ∃ k, 0 < reading s.text k := by
    by_contra hnone
    exact h fun n => not_lt.mp fun hpos => hnone ⟨n, hpos⟩
  refine ⟨Nat.find hexists, Nat.find_spec hexists, ?_⟩
  intro i hi
  exact not_lt.mp (Nat.find_min hexists hi)

/-- A positive number of the suffix of "0" decides against a version of enough zeros. -/
theorem firstReadBelow_zeros {s : Suffix} (t : Suffix) {k : ℕ} (hk : 0 < reading s.text k)
    (hbefore : ∀ i < k, reading s.text i ≤ 0) :
    FirstReadBelow ((zeros (k + 1)).text t) ((zeros 0).text s) (k + 1) := by
  have hlong : ∀ n, n ≤ k + 1 → reading ((zeros (k + 1)).text t) n = 0 := by
    intro n hn
    have hlength : (zeros (k + 1)).parts.length = k + 2 := List.length_replicate
    rw [reading_text, if_pos (by omega), value_zeros]
    decide
  have hlongzero : ∀ n, n ≤ k + 1 → component ((zeros (k + 1)).text t) n = 0 := by
    intro n hn
    rw [component_eq, hlong n hn]
    decide
  have hshort : ∀ n, component ((zeros 0).text s) (n + 1) =
      if reading s.text n < 0 then 0 else reading s.text n := by
    intro n
    have hlength : (zeros 0).parts.length = 1 := rfl
    have hread : reading ((zeros 0).text s) (n + 1) = reading s.text n := by
      rw [reading_text, hlength, if_neg (by omega), Nat.add_sub_cancel]
    rw [component_eq, hread]
  constructor
  · intro i hi
    refine ⟨?_, .inl (hlong i (by omega)).ge⟩
    rw [hlongzero i (by omega)]
    cases i with
    | zero =>
        have hfirst : reading ((zeros 0).text s) 0 = 0 := by
          rw [reading_text, if_pos (by decide), value_zeros]
          decide
        rw [component_eq, hfirst]
        decide
    | succ i =>
        have hle := hbefore i (by omega)
        rw [hshort]
        split_ifs <;> omega
  · rw [hlongzero _ le_rfl, hshort, if_neg (by omega)]
    exact hk

/-- The suffixes leave every comparison of versions as it is exactly if nothing positive is read
from either; a single comparison stays exactly if the first place where numbers read from the two
texts differ, before both run out, decides as the versions' own components do. -/
theorem suffix_law_iff (s t : Suffix) :
    ((∀ v w : Dotted, v.Small → w.Small → KeepsOrder v w s t) ↔ Inert s ∧ Inert t) ∧
    ∀ v w : Dotted, v.Small → w.Small →
      (KeepsOrder v w s t ↔
        ((∃ n, FirstReadBelow (v.text s) (w.text t) n) ↔
          ∃ n, Ranking.FirstBelow v.value w.value n) ∧
        ((∃ n, FirstReadBelow (w.text t) (v.text s) n) ↔
          ∃ n, Ranking.FirstBelow w.value v.value n)) := by
  refine ⟨?_, fun v w hv hw => keepsOrder_iff hv hw s t⟩
  constructor
  · intro hlaw
    -- Versions of zeros are equal, whatever their lengths.
    have hequal : ∀ j k, ¬∃ n, Ranking.FirstBelow (zeros j).value (zeros k).value n := by
      rintro j k ⟨n, -, hlt⟩
      rw [value_zeros, value_zeros] at hlt
      exact lt_irrefl _ hlt
    constructor
    · by_contra hs
      obtain ⟨k, hk, hbefore⟩ := first_positive hs
      have hkeeps := hlaw (zeros 0) (zeros (k + 1)) (small_zeros _) (small_zeros _)
      rw [keepsOrder_iff (small_zeros _) (small_zeros _)] at hkeeps
      exact hequal _ _ (hkeeps.2.mp ⟨k + 1, firstReadBelow_zeros t hk hbefore⟩)
    · by_contra ht
      obtain ⟨k, hk, hbefore⟩ := first_positive ht
      have hkeeps := hlaw (zeros (k + 1)) (zeros 0) (small_zeros _) (small_zeros _)
      rw [keepsOrder_iff (small_zeros _) (small_zeros _)] at hkeeps
      exact hequal _ _ (hkeeps.1.mp ⟨k + 1, firstReadBelow_zeros s hk hbefore⟩)
  · rintro ⟨hs, ht⟩ v w - -
    exact keepsOrder_of_inert hs ht v w

/-- The versions of the samples. -/
def release (patch : UInt8) (h : isdigit patch) : Dotted where
  parts := [[49], [52], [patch]]
  ne_nil := by simp
  digits := by simp [h]; decide

/-- A label behind a hyphen leaves "1.4.2" before "1.4.3". -/
theorem suffix_law_label :
    KeepsOrder (release 50 (by decide)) (release 51 (by decide))
      ⟨⟨ascii "-rc1", by decide +kernel⟩, by decide +kernel⟩ .none := by
  refine (suffix_law_iff _ _).1.mpr ⟨?_, inert_none⟩ _ _ ?_ ?_
  · intro n
    rw [reading_stuck (by decide +kernel)]
    decide
  · unfold Dotted.Small
    decide
  · unfold Dotted.Small
    decide

/-- A build number behind a plus sign makes a version newer than itself. -/
theorem suffix_law_build_number :
    ∃ (v : Dotted) (s : Suffix), v.Small ∧ (v.text .none).bytes = ascii "1.4.2" ∧
      s.text.bytes = ascii "+7" ∧
      compareVersions (some (v.text s)) (some (v.text .none)) = 1 ∧
      ¬KeepsOrder v v s .none := by
  refine ⟨release 50 (by decide), ⟨⟨ascii "+7", by decide +kernel⟩, by decide +kernel⟩, ?_⟩
  refine ⟨?_, by decide, rfl, by decide +kernel, ?_⟩
  · unfold Dotted.Small
    decide
  · unfold KeepsOrder
    decide +kernel

end FirmwareUpdater.Order
