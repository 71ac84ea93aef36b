import Mathlib.Data.List.Basic

/-!
# Pumping blocks into a bounded frame

A loop takes blocks from a source and hands each to a sink, as long as the frame, of
`total` elements, is not full. The source may fail or be at its end, and the sink may
take a part of a block only, which ends the loop. What is written keeps to the frame
exactly if each block the loop comes to fits what is left of it
(`Pumped.length_le_iff`).
-/

namespace FirmwareUpdater.Library

variable {α : Type*}

/-- The loop, with `sent` elements handed over before. The result is whether nothing failed, how
many elements went out in whole blocks, and what was written. -/
def pump (source : Nat → Option (List α)) (takes : Nat → Nat) (total call sent : Nat) :
    Nat → Option (Bool × Nat × List α)
  | 0 => none
  | rounds + 1 =>
      if ¬sent < total then some (true, sent, [])
      else
        match source call with
        | none => some (false, sent, [])
        | some block =>
            if block = [] then some (true, sent, [])
            else if (block.take (takes call)).length ≠ block.length then
              some (false, sent, block.take (takes call))
            else
              (pump source takes total (call + 1) (sent + block.length) rounds).map
                fun (ok, n, written) => (ok, n, block ++ written)

variable (source : Nat → Option (List α)) (takes : Nat → Nat) (total : Nat)

/-- The block of a call, where it is none of the ends. -/
def block (call : Nat) : List α := (source call).getD []

/-- What the source gives in its first calls. -/
def offered (calls : Nat) : List α := ((List.range calls).map (block source)).flatten

/-- The block of a call goes out as a whole. -/
def Whole (call : Nat) : Prop := block source call ≠ [] ∧ (block source call).length ≤ takes call

/-- The loop comes to that call. -/
def Comes (call : Nat) : Prop :=
  (∀ i < call, Whole source takes i) ∧ (offered source call).length < total

/-- What the sink takes of each block the loop comes to fits what is left of the frame. -/
def Fits : Prop :=
  ∀ call, Comes source takes total call →
    (offered source call).length + min (takes call) (block source call).length ≤ total

variable {source takes total}

@[simp]
theorem offered_zero : offered source 0 = [] := rfl

theorem offered_succ (calls : Nat) :
    offered source (calls + 1) = offered source calls ++ block source calls := by
  rw [offered, List.range_succ, List.map_append, List.flatten_append]
  simp [offered]

theorem length_offered_succ (source : Nat → Option (List α)) (calls : Nat) :
    (offered source (calls + 1)).length =
      (offered source calls).length + (block source calls).length := by
  rw [offered_succ, List.length_append]

/-- The first calls give the first part of what more calls give. -/
theorem offered_isPrefix (source : Nat → Option (List α)) {calls calls' : Nat}
    (h : calls ≤ calls') :
    offered source calls <+: offered source calls' := by
  induction h with
  | refl => exact List.prefix_refl _
  | step _ ih =>
      rw [offered_succ]
      exact ih.trans (List.prefix_append _ _)

/-- How a run of the loop ends at the call number `calls`, with `written` from the first on. -/
structure Pumped (source : Nat → Option (List α)) (takes : Nat → Nat) (total calls : Nat)
    (ok : Bool) (n : Nat) (written : List α) : Prop where
  whole : ∀ i < calls, Whole source takes i
  short : ∀ i < calls, (offered source i).length < total
  count : n = (offered source calls).length
  ending : total ≤ n ∧ written = offered source calls ∨
    block source calls = [] ∧ written = offered source calls ∨
    n < total ∧ ok = false ∧ takes calls < (block source calls).length ∧
      written = offered source calls ++ (block source calls).take (takes calls)

/-- The loop ends so. -/
theorem pump_spec {rounds call n : Nat} {ok : Bool} {written : List α}
    (hwhole : ∀ i < call, Whole source takes i)
    (hshort : ∀ i < call, (offered source i).length < total)
    (hrun : pump source takes total call (offered source call).length rounds =
      some (ok, n, written)) :
    ∃ calls, Pumped source takes total calls ok n (offered source call ++ written) := by
  induction rounds generalizing call written with
  | zero => cases hrun
  | succ rounds ih =>
      rw [pump] at hrun
      by_cases hroom : (offered source call).length < total
      · rw [if_neg (not_not_intro hroom)] at hrun
        cases hblock : source call with
        | none =>
            rw [hblock] at hrun
            cases hrun
            exact ⟨call, hwhole, hshort, rfl,
              .inr (.inl ⟨by rw [block, hblock]; rfl, List.append_nil _⟩)⟩
        | some bytes =>
            have hbytes : block source call = bytes := by
              rw [block, hblock]
              rfl
            simp only [hblock] at hrun
            by_cases hempty : bytes = []
            · rw [if_pos hempty] at hrun
              cases hrun
              exact ⟨call, hwhole, hshort, rfl,
                .inr (.inl ⟨hbytes.trans hempty, List.append_nil _⟩)⟩
            rw [if_neg hempty] at hrun
            rw [List.length_take] at hrun
            by_cases hall : bytes.length ≤ takes call
            · -- The block goes out, and the loop goes on behind it.
              rw [if_neg (by omega)] at hrun
              obtain ⟨⟨ok', n', rest⟩, hrest, heq⟩ := Option.map_eq_some_iff.mp hrun
              cases heq
              have hlength := length_offered_succ source call
              rw [hbytes] at hlength
              rw [← hlength] at hrest
              have hnext : Whole source takes call :=
                ⟨hbytes ▸ hempty, hbytes.symm ▸ hall⟩
              obtain ⟨calls, hpumped⟩ := ih
                (fun i hi => (Nat.lt_succ_iff_lt_or_eq.mp hi).elim (hwhole i) (· ▸ hnext))
                (fun i hi => (Nat.lt_succ_iff_lt_or_eq.mp hi).elim (hshort i) (· ▸ hroom)) hrest
              rw [offered_succ, hbytes, List.append_assoc] at hpumped
              exact ⟨calls, hpumped⟩
            · rw [if_pos (by omega)] at hrun
              cases hrun
              exact ⟨call, hwhole, hshort, rfl,
                .inr (.inr ⟨hroom, rfl, by rw [hbytes]; omega, by rw [hbytes]⟩)⟩
      · rw [if_pos hroom] at hrun
        cases hrun
        exact ⟨call, hwhole, hshort, rfl, .inl ⟨by omega, List.append_nil _⟩⟩

/-- A run from the start. -/
theorem pump_start {rounds n : Nat} {ok : Bool} {written : List α}
    (hrun : pump source takes total 0 0 rounds = some (ok, n, written)) :
    ∃ calls, Pumped source takes total calls ok n written :=
  pump_spec (fun _ h => absurd h (Nat.not_lt_zero _)) (fun _ h => absurd h (Nat.not_lt_zero _))
    hrun

namespace Pumped

variable {calls n : Nat} {ok : Bool} {written : List α}

/-- What was written is the first part of what the source gives. -/
theorem prefix_offered (h : Pumped source takes total calls ok n written) :
    ∃ k, written <+: offered source k := by
  rcases h.ending with ⟨-, hwritten⟩ | ⟨-, hwritten⟩ | ⟨-, -, -, hwritten⟩
  · exact ⟨calls, hwritten ▸ List.prefix_refl _⟩
  · exact ⟨calls, hwritten ▸ List.prefix_refl _⟩
  · refine ⟨calls + 1, ?_⟩
    rw [hwritten, offered_succ]
    exact (List.prefix_append_right_inj _).mpr (List.take_prefix _ _)

/-- Where nothing failed, whole blocks were written. -/
theorem length_of_ok (h : Pumped source takes total calls true n written) : written.length = n := by
  rcases h.ending with ⟨-, hwritten⟩ | ⟨-, hwritten⟩ | ⟨-, hok, -⟩
  · rw [hwritten, h.count]
  · rw [hwritten, h.count]
  · cases hok

/-- The loop came to the calls before the one it ended at. -/
theorem comes (h : Pumped source takes total calls ok n written) {i : Nat} (hi : i < calls) :
    Comes source takes total i :=
  ⟨fun k hk => h.whole k (Nat.lt_trans hk hi), h.short i hi⟩

/-- It comes to none behind that one. -/
theorem le_calls (h : Pumped source takes total calls ok n written) {call : Nat}
    (hcomes : Comes source takes total call) : call ≤ calls := by
  by_contra hlt
  obtain ⟨hne, hle⟩ := hcomes.1 calls (by omega)
  have hmono := (offered_isPrefix source (Nat.le_of_not_le hlt)).length_le
  have hroom := hcomes.2
  rcases h.ending with ⟨hfull, -⟩ | ⟨hempty, -⟩ | ⟨-, -, htakes, -⟩
  · rw [h.count] at hfull
    omega
  · exact hne hempty
  · omega

/-- No more is written than the frame holds, exactly if the blocks fit. -/
theorem length_le_iff (h : Pumped source takes total calls ok n written) :
    written.length ≤ total ↔ Fits source takes total := by
  constructor
  · intro hle call hcomes
    rcases Nat.lt_or_eq_of_le (h.le_calls hcomes) with hlt | heq
    · -- A block that went out is in what was written.
      have hmono := (offered_isPrefix source (Nat.succ_le_of_lt hlt)).length_le
      have hlong : (offered source calls).length ≤ written.length := by
        rcases h.ending with ⟨-, hwritten⟩ | ⟨-, hwritten⟩ | ⟨-, -, -, hwritten⟩
        · exact Nat.le_of_eq (congrArg List.length hwritten).symm
        · exact Nat.le_of_eq (congrArg List.length hwritten).symm
        · rw [hwritten, List.length_append]
          exact Nat.le_add_right _ _
      rw [length_offered_succ] at hmono
      omega
    · rw [heq]
      have hroom := hcomes.2
      rw [heq] at hroom
      rcases h.ending with ⟨hfull, -⟩ | ⟨hempty, hwritten⟩ | ⟨-, -, -, hwritten⟩
      · rw [h.count] at hfull
        omega
      · rw [hempty, List.length_nil]
        omega
      · rw [hwritten, List.length_append, List.length_take] at hle
        exact hle
  · intro hfits
    have hoffered : (offered source calls).length ≤ total := by
      cases hcalls : calls with
      | zero => simp
      | succ i =>
          have hi : i < calls := by omega
          have hfit := hfits i (h.comes hi)
          rw [Nat.min_eq_right (h.whole i hi).2] at hfit
          rw [length_offered_succ]
          exact hfit
    rcases h.ending with ⟨-, hwritten⟩ | ⟨-, hwritten⟩ | ⟨hroom, -, -, hwritten⟩
    · rw [hwritten]
      exact hoffered
    · rw [hwritten]
      exact hoffered
    · rw [h.count] at hroom
      rw [hwritten, List.length_append, List.length_take]
      exact hfits calls ⟨h.whole, hroom⟩

end Pumped

/-- The loop ends, as each block that goes out fills the frame some more. -/
theorem pump_ends {rounds call sent : Nat} (h : total - sent < rounds) :
    (pump source takes total call sent rounds).isSome := by
  induction rounds generalizing call sent with
  | zero => exact absurd h (Nat.not_lt_zero _)
  | succ rounds ih =>
      rw [pump]
      by_cases hroom : sent < total
      · rw [if_neg (not_not_intro hroom)]
        cases hblock : source call with
        | none => rfl
        | some bytes =>
            simp only
            by_cases hempty : bytes = []
            · rw [if_pos hempty]
              rfl
            rw [if_neg hempty]
            by_cases htaken : (bytes.take (takes call)).length ≠ bytes.length
            · rw [if_pos htaken]
              rfl
            · have hpos := List.length_pos_iff.mpr hempty
              rw [if_neg htaken, Option.isSome_map]
              exact ih (by omega)
      · rw [if_pos hroom]
        rfl

end FirmwareUpdater.Library
