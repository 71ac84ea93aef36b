import FirmwareUpdater.Core.OrderCodec
import FirmwareUpdater.Library.Ranking

/-!
# The order versions climb in

`compareVersions` is not transitive: two strings that run out of numbers together
compare as equal whatever follows. What every strict answer does respect is the
sequence of components read one after the other, a negative or missing one
counting as zero, in lexicographic order. A run that only ever installs a
strictly newer version therefore never comes back to one it left.
-/

namespace FirmwareUpdater.Order

/-! ## The rank of a version -/

/-- The component at place `n`, a negative or missing one as zero. -/
def component (p : CString) : ℕ → Int
  | 0 => if (nextComponent p).1 < 0 then 0 else (nextComponent p).1
  | n + 1 => component (nextComponent p).2 n

/-- Versions in the lexicographic order of their components. -/
def versionRank (p : CString) : Lex (ℕ → Int) := toLex (component p)

/-- A smaller first component makes a smaller version. -/
theorem versionRank_lt_of_head {a b : CString} (h : component a 0 < component b 0) :
    versionRank a < versionRank b :=
  Ranking.lt_of_head h

/-- Behind equal first components the rest decides. -/
theorem versionRank_lt_of_tail {a b : CString} (h0 : component a 0 = component b 0)
    (h : versionRank (nextComponent a).2 < versionRank (nextComponent b).2) :
    versionRank a < versionRank b :=
  Ranking.lt_of_tail h0 h

/-- The loop answers strictly only where the ranks differ the same way. -/
theorem compareFrom_rank (a b : CString) :
    (0 < compareFrom a b → versionRank b < versionRank a) ∧
      (compareFrom a b < 0 → versionRank a < versionRank b) := by
  fun_induction compareFrom a b with
  | case1 | case5 => simp
  | case2 a b _ va vb _ la lb _ hlt =>
      have hhead : component a 0 < component b 0 := hlt
      exact ⟨by simp, fun _ => versionRank_lt_of_head hhead⟩
  | case3 a b _ va vb _ la lb hne hge =>
      have hhead : component b 0 < component a 0 := by
        have hle : component b 0 ≤ component a 0 := not_lt.mp hge
        have hne' : component a 0 ≠ component b 0 := hne
        omega
      exact ⟨fun _ => versionRank_lt_of_head hhead, by simp⟩
  | case4 a b _ va vb _ la lb heq ih =>
      have hhead : component a 0 = component b 0 := not_not.mp heq
      exact ⟨fun h => versionRank_lt_of_tail hhead.symm (ih.1 h),
        fun h => versionRank_lt_of_tail hhead (ih.2 h)⟩

/-- `compareVersions` on strings that are there. -/
def compareStrings (a b : CString) : Int := compareVersions (some a) (some b)

/-- `compareVersions` respects the rank. -/
theorem compare_respects_rank : Ranking.Respects compareStrings versionRank where
  greater h := (compareFrom_rank _ _).1 h
  less h := (compareFrom_rank _ _).2 h

/-! ## Runs of orders -/

/-- An order and what `validate` is given with it. -/
structure Received where
  order : UpdateOrder
  repo : Option CString
  slotBytes : UInt32
  lastUpdateId : Option CString

/-- The order is accepted on a device that runs `current`. -/
def accepts (current : CString) (r : Received) : Bool :=
  validate r.order (some current) r.repo r.slotBytes r.lastUpdateId false = .none

/-- The targets installed over a sequence of orders, the current version being replaced by each
accepted one. -/
def installed (current : CString) : List Received → List CString
  | [] => []
  | r :: received =>
      if accepts current r then
        r.order.targetVersion.text :: installed r.order.targetVersion.text received
      else installed current received

/-- An accepted target is a version, and a strictly newer one. -/
theorem newer_of_accepts {current : CString} {r : Received} (hcurrent : current ≠ .empty)
    (h : accepts current r = true) :
    r.order.targetVersion.text ≠ .empty ∧
      0 < compareStrings r.order.targetVersion.text current := by
  have hstarts : current.byteAt 0 ≠ 0 := by
    rw [Ne, CString.byteAt_zero_eq_zero]
    intro hlength
    apply hcurrent
    cases current
    simpa [CString.length, CString.empty] using hlength
  rw [accepts, decide_eq_true_eq, validate] at h
  split at h
  · cases h
  rename_i hfields
  split at h
  · cases h
  split at h
  · cases h
  refine ⟨?_, ?_⟩
  · intro hempty
    exact hfields (.inr (.inr (by simp [hempty, CString.byteAt, CString.empty])))
  · rw [compareStrings]
    by_contra hle
    have hversion :
        validateVersion r.order (some current) false = .sameVersion ∨
          validateVersion r.order (some current) false = .downgrade := by
      rw [validateVersion]
      rcases (not_lt.mp hle).eq_or_lt with hzero | hneg
      · left
        simp [hstarts, hzero]
      · right
        simp [hstarts, hneg, hneg.ne]
    rcases hversion with hversion | hversion <;> simp [hversion] at h

/-- Each installed version climbs above the one before it. -/
theorem installed_climbs {current : CString} (received : List Received)
    (hcurrent : current ≠ .empty) :
    (current :: installed current received).IsChain
      fun earlier later => 0 < compareStrings later earlier := by
  induction received generalizing current with
  | nil => simp [installed]
  | cons r received ih =>
      rw [installed]
      cases haccepts : accepts current r with
      | false => simpa using ih hcurrent
      | true =>
          obtain ⟨hversion, hnewer⟩ := newer_of_accepts hcurrent haccepts
          simpa using ⟨hnewer, ih hversion⟩

/-- No accepted target equals a version that was current before it, and none compares below
one. -/
theorem no_replay_no_downgrade (v0 : CString) (received : List Received) (h0 : v0 ≠ .empty) :
    (v0 :: installed v0 received).Pairwise fun earlier later =>
      later ≠ earlier ∧ 0 ≤ compareVersions (some later) (some earlier) :=
  compare_respects_rank.pairwise_of_climbs (installed_climbs received h0)

/-- An order for `version`, complete enough to be accepted. -/
def sampleReceived (version : CString) (hfits : version.length < maxVersionLen) : Received where
  order :=
    { updateId := ⟨.ofBytes [97], by decide⟩
      targetVersion := ⟨version, hfits⟩
      url := ⟨.ofBytes [104], by decide⟩
      sizeBytes := 1
      hasSha256 := true }
  repo := none
  slotBytes := 0
  lastUpdateId := none

/-- A device on "1" installs "2" and refuses "1". -/
theorem no_replay_no_downgrade_sample :
    installed (.ofBytes [49]) [sampleReceived (.ofBytes [50]) (by decide),
        sampleReceived (.ofBytes [49]) (by decide)] = [.ofBytes [50]] ∧
      (CString.ofBytes [49] :: installed (.ofBytes [49])
        [sampleReceived (.ofBytes [50]) (by decide),
          sampleReceived (.ofBytes [49]) (by decide)]).Pairwise fun earlier later =>
        later ≠ earlier ∧ 0 ≤ compareVersions (some later) (some earlier) :=
  ⟨by decide +kernel, no_replay_no_downgrade _ _ (by decide)⟩

end FirmwareUpdater.Order
