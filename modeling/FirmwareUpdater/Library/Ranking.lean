import Mathlib.Order.PiLex
import Mathlib.Data.List.Chain

/-!
# Comparisons that respect a rank

A comparison need not be transitive, nor tell all distinct values apart. If its
strict answers follow some linear rank, a sequence in which each value compares
above the one before it still never returns to an earlier value and never
compares below one.
-/

namespace FirmwareUpdater.Ranking

/-- Every strict answer of `compare` is a strict step of `rank`. -/
structure Respects {α ρ : Type*} [LinearOrder ρ] (compare : α → α → Int) (rank : α → ρ) :
    Prop where
  greater : ∀ {a b}, 0 < compare a b → rank b < rank a
  less : ∀ {a b}, compare a b < 0 → rank a < rank b

/-- Along a sequence that climbs step by step, every value is new and compares below no earlier
one. -/
theorem Respects.pairwise_of_climbs {α ρ : Type*} [LinearOrder ρ] {compare : α → α → Int}
    {rank : α → ρ} (hrank : Respects compare rank) {values : List α}
    (hclimbs : values.IsChain fun earlier later => 0 < compare later earlier) :
    values.Pairwise fun earlier later => later ≠ earlier ∧ 0 ≤ compare later earlier := by
  have hranks : (values.map rank).IsChain (· < ·) := by
    rw [List.isChain_map]
    exact hclimbs.imp fun _ _ => hrank.greater
  have hordered := List.pairwise_map.mp (List.isChain_iff_pairwise.mp hranks)
  refine hordered.imp ?_
  intro earlier later hlt
  refine ⟨?_, ?_⟩
  · rintro rfl
    exact lt_irrefl _ hlt
  · by_contra hneg
    exact lt_asymm hlt (hrank.less (not_le.mp hneg))

/-! ## Sequences in lexicographic order -/

variable {β : Type*} [LinearOrder β]

/-- The first places decide. -/
theorem lt_of_head {f g : ℕ → β} (h : f 0 < g 0) : toLex f < toLex g :=
  ⟨0, by simp, h⟩

/-- Equal first places leave the decision to the rest. -/
theorem lt_of_tail {f g : ℕ → β} (h0 : f 0 = g 0)
    (h : toLex (fun n => f (n + 1)) < toLex (fun n => g (n + 1))) : toLex f < toLex g := by
  obtain ⟨i, heq, hlt⟩ := h
  refine ⟨i + 1, ?_, hlt⟩
  intro j hj
  cases j with
  | zero => exact h0
  | succ j => exact heq j (Nat.lt_of_succ_lt_succ hj)

/-- The sequences first differ at `n`, where `f` is below. -/
def FirstBelow (f g : ℕ → β) (n : ℕ) : Prop :=
  (∀ i < n, f i = g i) ∧ f n < g n

/-- The order of sequences is decided where they first differ. -/
theorem toLex_lt_iff {f g : ℕ → β} : toLex f < toLex g ↔ ∃ n, FirstBelow f g n := Iff.rfl

/-- An answer of a comparison has the sign of the order of two sequences. -/
def Answers (answer : Int) (f g : ℕ → β) : Prop :=
  (answer < 0 ↔ toLex f < toLex g) ∧ (answer = 0 ↔ f = g) ∧ (0 < answer ↔ toLex g < toLex f)

/-- It is enough that the answer follows the order both ways, and is zero on equal sequences. -/
theorem answers_of_lt {answer : Int} {f g : ℕ → β} (hless : toLex f < toLex g → answer < 0)
    (hgreater : toLex g < toLex f → 0 < answer) (hequal : f = g → answer = 0) :
    Answers answer f g := by
  rcases lt_trichotomy (toLex f) (toLex g) with hlt | heq | hgt
  · have hneg := hless hlt
    refine ⟨iff_of_true hneg hlt, iff_of_false (by omega) ?_, iff_of_false (by omega) hlt.asymm⟩
    rintro rfl
    exact lt_irrefl _ hlt
  · have hfg : f = g := toLex.injective heq
    have hzero := hequal hfg
    subst hfg
    exact ⟨iff_of_false (by omega) (lt_irrefl _), iff_of_true hzero rfl,
      iff_of_false (by omega) (lt_irrefl _)⟩
  · have hpos := hgreater hgt
    refine ⟨iff_of_false (by omega) hgt.asymm, iff_of_false (by omega) ?_, iff_of_true hpos hgt⟩
    rintro rfl
    exact lt_irrefl _ hgt

/-! ## Sequences cut at a limit -/

/-- A sequence with nothing above the limit. -/
def cut (limit : β) (f : ℕ → β) (n : ℕ) : β := min (f n) limit

/-- Where `f` first falls below `g` it does so below the limit, or the cut sequences go on to
differ the same way. -/
def CutKeeps (limit : β) (f g : ℕ → β) : Prop :=
  ∀ n, FirstBelow f g n → f n < limit ∨
    ∃ m, n < m ∧ (∀ i, n < i → i < m → cut limit f i = cut limit g i) ∧
      cut limit f m < cut limit g m

/-- That is what cutting keeps of the order of two sequences. -/
theorem cutKeeps_iff {limit : β} {f g : ℕ → β} :
    CutKeeps limit f g ↔ (toLex f < toLex g → toLex (cut limit f) < toLex (cut limit g)) := by
  constructor
  · intro hkeeps hlt
    obtain ⟨n, hfirst⟩ := toLex_lt_iff.mp hlt
    have hbefore : ∀ i < n, cut limit f i = cut limit g i := by
      intro i hi
      rw [cut, cut, hfirst.1 i hi]
    by_cases hbelow : f n < limit
    · refine ⟨n, hbefore, ?_⟩
      show min (f n) limit < min (g n) limit
      rw [min_eq_left hbelow.le]
      exact lt_min hfirst.2 hbelow
    · obtain ⟨m, hnm, hbetween, hm⟩ := (hkeeps n hfirst).resolve_left hbelow
      refine ⟨m, ?_, hm⟩
      intro i hi
      rcases lt_trichotomy i n with hin | rfl | hni
      · exact hbefore i hin
      · -- Both are at the limit here.
        have hf := not_lt.mp hbelow
        show min (f i) limit = min (g i) limit
        rw [min_eq_right hf, min_eq_right (hf.trans hfirst.2.le)]
      · exact hbetween i hni hi
  · intro hcut n hfirst
    obtain ⟨m, hbefore, hm⟩ := toLex_lt_iff.mp (hcut (toLex_lt_iff.mpr ⟨n, hfirst⟩))
    have hm : min (f m) limit < min (g m) limit := hm
    rcases lt_trichotomy m n with hmn | rfl | hnm
    · rw [hfirst.1 m hmn] at hm
      exact absurd hm (lt_irrefl _)
    · left
      by_contra hlimit
      rw [min_eq_right (not_lt.mp hlimit)] at hm
      exact absurd hm (not_lt.mpr (min_le_right _ _))
    · exact .inr ⟨m, hnm, fun i _ hi => hbefore i hi, hm⟩

end FirmwareUpdater.Ranking
