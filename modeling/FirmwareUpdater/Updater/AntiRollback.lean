import Mathlib.Data.Int.ConditionallyCompleteOrder
import FirmwareUpdater.Core.VersionOrder
import FirmwareUpdater.Updater.OrderAcceptance

/-!
# The recorded version climbs

The version a device believes to run is recorded by a confirmation only, from a pending
record that an accepted order left. Every write in between may fail, and power may go at any
of them, so a record can mix an old version with a new id. `Climbing` is what holds all the
same, and `recorded_never_falls` is the promise of `allow_downgrade` over restarts.
-/

namespace FirmwareUpdater.Impl

open Library FirmwareUpdater.Order

variable (v : Vendor)

/-- A version is nowhere above the version recorded in a store. -/
def AtLeast (nvs : Nvs) (version : CString) : Prop :=
  ∀ recorded, DeviceStore.firmwareVersion nvs = some recorded →
    versionRank recorded.text ≤ versionRank version

/-- What keeps the recorded version from falling. -/
structure Climbing (d : Impl) : Prop where
  strict : d.cfg.ota.allowDowngrade = false
  /-- Whatever version a pending record holds, of whichever update. -/
  pending : ∀ version, d.nvs.getString .pendVersion maxVersionLen = some version →
    AtLeast d.nvs version.text
  ordered : d.updating = true → AtLeast d.nvs d.order.targetVersion.text

/-- No configuration allows a downgrade. -/
def strictConfig : Event → Prop
  | .boot cfg _ => cfg.ota.allowDowngrade = false
  | _ => True

/-- The record depends on one key. -/
theorem AtLeast.congr {nvs nvs' : Nvs} {version : CString} (h : AtLeast nvs version)
    (hkey : nvs'.entries .fwVersion = nvs.entries .fwVersion) : AtLeast nvs' version := by
  intro recorded hrecorded
  refine h recorded ?_
  rw [← hrecorded]
  exact (Nvs.getString_congr hkey maxVersionLen).symm

/-- Nothing is recorded in a store that is empty there. -/
theorem AtLeast.of_none {nvs : Nvs} (version : CString) (hkey : nvs.entries .fwVersion = none) :
    AtLeast nvs version := by
  intro recorded hrecorded
  unfold DeviceStore.firmwareVersion Nvs.getString at hrecorded
  rw [hkey] at hrecorded
  cases hrecorded

/-- Nothing changes where neither key is written. -/
theorem Climbing.keep {d d' : Impl} (h : Climbing d) (hcfg : d'.cfg = d.cfg)
    (hstate : d'.updating = true → d.updating = true ∧ d'.order = d.order) {keys : List NvsKey}
    (hnvs : Touches keys d.nvs d'.nvs)
    (hkeys : NvsKey.fwVersion ∉ keys ∧ NvsKey.pendVersion ∉ keys) : Climbing d' where
  strict := by rw [hcfg, h.strict]
  pending version hversion := by
    have hkey := hnvs _ hkeys.2
    rw [Nvs.getString_congr hkey] at hversion
    exact (h.pending version hversion).congr (hnvs _ hkeys.1)
  ordered hupdating := by
    obtain ⟨hwas, horder⟩ := hstate hupdating
    rw [horder]
    exact (h.ordered hwas).congr (hnvs _ hkeys.1)

/-- An accepted order is not below the record. -/
theorem judge_atLeast {d : Impl} {order : UpdateOrder} (hstrict : d.cfg.ota.allowDowngrade = false)
    (h : d.judge order = .none) : AtLeast d.nvs order.targetVersion.text := by
  intro recorded hrecorded
  have hcurrent : d.currentVersion = recorded := by
    unfold currentVersion
    rw [hrecorded, Option.getD_some]
  have haccepts : accepts recorded.text
      ⟨order, some d.currentRepo.text, d.hw.otaSizeBytes,
        some (((DeviceStore.lastUpdateId d.nvs).map Field.text).getD .empty)⟩ = true := by
    rw [accepts, decide_eq_true_eq, ← hcurrent, ← hstrict]
    exact h
  have hnonempty : recorded.text ≠ .empty := by
    intro hempty
    apply (Nvs.getString_some hrecorded).2
    rw [hempty]
    rfl
  exact (compare_respects_rank.greater (newer_of_accepts hnonempty haccepts).2).le

/-! ## The confirmation -/

theorem settled_fwVersion (nvs : Nvs) (p : Pending) :
    (settled nvs p).entries .fwVersion = nvs.entries .fwVersion ∨
      p.version.text.byteAt 0 ≠ 0 ∧
        (settled nvs p).entries .fwVersion = some (.string p.version.text) := by
  have hrest : (settled nvs p).entries .fwVersion =
      (DeviceStore.commitFirmware nvs p.version.text p.repo.text).2.entries .fwVersion :=
    (DeviceStore.clearPending_entries _ (by decide)).trans
      (DeviceStore.setLastUpdateId_entries _ _ (by decide))
  rw [hrest]
  exact DeviceStore.commitFirmware_version nvs p.version.text p.repo.text

theorem settled_pendVersion (nvs : Nvs) (p : Pending) :
    (settled nvs p).entries .pendVersion = nvs.entries .pendVersion ∨
      (settled nvs p).entries .pendVersion = none := by
  have hrest : (DeviceStore.setLastUpdateId
      (DeviceStore.commitFirmware nvs p.version.text p.repo.text).2
      p.updateId.text).2.entries .pendVersion = nvs.entries .pendVersion :=
    (DeviceStore.setLastUpdateId_entries _ _ (by decide)).trans
      (DeviceStore.commitFirmware_entries nvs _ _ (by decide))
  rw [← hrest]
  exact DeviceStore.clearPending_cases _ .pendVersion

/-- The version of a pending record is what its key holds. -/
theorem pending_version {nvs : Nvs} {p : Pending} (hpending : DeviceStore.loadPending nvs = some p)
    (hversion : p.version.text.byteAt 0 ≠ 0) :
    nvs.getString .pendVersion maxVersionLen = some p.version := by
  unfold DeviceStore.loadPending at hpending
  obtain ⟨_, -, rfl⟩ := Option.map_eq_some_iff.mp hpending
  dsimp only at hversion ⊢
  cases hstored : nvs.getString .pendVersion maxVersionLen with
  | some version => rfl
  | none =>
      rw [hstored] at hversion
      exact absurd rfl hversion

/-- A pending version that is read was read before, where its key was left or erased. -/
theorem pendVersion_of {nvs nvs' : Nvs} {version : Field maxVersionLen}
    (hkey : nvs'.entries .pendVersion = nvs.entries .pendVersion ∨
      nvs'.entries .pendVersion = none)
    (h : nvs'.getString .pendVersion maxVersionLen = some version) :
    nvs.getString .pendVersion maxVersionLen = some version := by
  rcases hkey with hkey | hkey
  · rwa [Nvs.getString_congr hkey] at h
  · unfold Nvs.getString at h
    rw [hkey] at h
    cases h

/-- The recorded version is still there, or one that is not below it. -/
def Rises (nvs nvs' : Nvs) : Prop :=
  ∀ recorded, DeviceStore.firmwareVersion nvs = some recorded →
    ∃ recorded', DeviceStore.firmwareVersion nvs' = some recorded' ∧
      versionRank recorded.text ≤ versionRank recorded'.text

theorem Rises.of_kept {nvs nvs' : Nvs} (hkey : nvs'.entries .fwVersion = nvs.entries .fwVersion) :
    Rises nvs nvs' := by
  intro recorded hrecorded
  refine ⟨recorded, ?_, le_rfl⟩
  rw [← hrecorded]
  exact Nvs.getString_congr hkey maxVersionLen

/-- A confirmation records a version that is not below the old one, and no pending version is below
the new one then. -/
theorem settled_rises {nvs nvs' : Nvs} {p : Pending}
    (hpending : DeviceStore.loadPending nvs = some p)
    (hleast : ∀ version, nvs.getString .pendVersion maxVersionLen = some version →
      AtLeast nvs version.text)
    (hnvs : Touches [.otaState, .abortReason] (settled nvs p) nvs') :
    Rises nvs nvs' ∧ ∀ version, nvs'.getString .pendVersion maxVersionLen = some version →
      AtLeast nvs' version.text := by
  have hversion := settled_fwVersion nvs p
  rw [← hnvs .fwVersion (by decide)] at hversion
  have hleft := settled_pendVersion nvs p
  rw [← hnvs .pendVersion (by decide)] at hleft
  rcases hversion with hkept | ⟨hstarts, hrecorded⟩
  · refine ⟨.of_kept hkept, fun version hread => ?_⟩
    exact (hleast version (pendVersion_of hleft hread)).congr hkept
  · have hpend := pending_version hpending hstarts
    have hnew : DeviceStore.firmwareVersion nvs' = some p.version :=
      Nvs.getString_of p.version hrecorded hstarts
    refine ⟨fun recorded hold => ⟨p.version, hnew, hleast _ hpend recorded hold⟩, ?_⟩
    intro version hread recorded hold
    have hsame := (pendVersion_of hleft hread).symm.trans hpend
    have hsame' := hold.symm.trans hnew
    cases hsame
    cases hsame'
    exact le_rfl

/-! ## Every move -/

/-- A step of the update records nothing, and what it leaves pending is the order's version. -/
theorem ota_climbing {d d' : Impl} {i : Pass} (hmove : OtaMove v d i.now i.ota d')
    (h : Climbing d) : Climbing d' ∧ Rises d.nvs d'.nvs := by
  have hquiet : ∀ {nvs : Nvs}, Touches [.otaState, .abortReason] d.nvs nvs → Rises d.nvs nvs :=
    fun hnvs => .of_kept (hnvs _ (by decide))
  cases hmove with
  | idle => exact ⟨h, .of_kept rfl⟩
  | refused _ hnvs =>
      exact ⟨h.keep rfl (fun hupdating => by cases hupdating) hnvs (by decide), hquiet hnvs⟩
  | waits hstate _ hnvs =>
      refine ⟨h.keep rfl (fun _ => ⟨?_, rfl⟩) hnvs (by decide), hquiet hnvs⟩
      rw [updating, hstate]
  | begun hready hbegun =>
      obtain ⟨_, _, _, _, _, _, _, rfl, -, -, -, hnvs, -⟩ := hbegun
      refine ⟨h.keep rfl (fun _ => ⟨?_, rfl⟩) hnvs (by decide), hquiet hnvs⟩
      rcases hready with ⟨hstate, -⟩ | ⟨hstate, -⟩ <;> rw [updating, hstate]
  | fed hstate =>
      refine ⟨h.keep rfl (fun _ => ⟨?_, rfl⟩) (.refl [] _) (by decide), .of_kept rfl⟩
      rw [updating, hstate]
  | complete hstate _ hnvs =>
      refine ⟨h.keep rfl (fun _ => ⟨?_, rfl⟩) hnvs (by decide), hquiet hnvs⟩
      rw [updating, hstate]
  | givenUp _ hgiven =>
      obtain ⟨_, _, _, _, _, _, _, _, _, _, rfl, -, hnvs, -⟩ := hgiven
      exact ⟨h.keep rfl (fun hupdating => by cases hupdating) hnvs (by decide), hquiet hnvs⟩
  | applied hstate happlied =>
      obtain ⟨nvs, _, rfl, -, hnvs, -, -⟩ := happlied
      have hordered := h.ordered (by rw [updating, hstate])
      have hrecord : nvs.entries .fwVersion = d.nvs.entries .fwVersion :=
        (hnvs _ (by decide)).trans (DeviceStore.savePending_entries _ _ (by decide))
      have hpend := DeviceStore.savePending_version d.nvs (d.pendingRecord i.ota.time)
      rw [← hnvs .pendVersion (by decide)] at hpend
      refine ⟨⟨h.strict, fun version hread => ?_, fun _ => hordered.congr hrecord⟩,
        .of_kept hrecord⟩
      rcases hpend with hkept | hsaved
      · rw [Nvs.getString_congr hkept] at hread
        exact (h.pending version hread).congr hrecord
      · have htext : version.text = d.order.targetVersion.text := by
          have hentry := (Nvs.getString_some hread).1.symm.trans hsaved
          simpa [pendingRecord] using hentry
        rw [htext]
        exact hordered.congr hrecord

/-- Only a step of the confirmation records a version. -/
theorem confirm_climbing {d d' : Impl} {now : UInt32} {i : ConfirmInput}
    (hstate : d.state = .confirming) (hmove : ConfirmMove d now i d') (h : Climbing d) :
    Climbing d' ∧ Rises d.nvs d'.nvs := by
  have hrest : d.updating = false := by rw [updating, hstate]
  have hnever : d.updating = true → d.updating = true ∧ d.order = d.order := fun h => ⟨h, rfl⟩
  cases hmove with
  | waits => exact ⟨h, .of_kept rfl⟩
  | forgotten =>
      refine ⟨h.keep rfl (fun hupdating => ?_) (.refl [] _) (by decide), .of_kept rfl⟩
      cases hupdating
  | reverted hlink hpending =>
      have hkept : (DeviceStore.clearPending d.nvs).2.entries .fwVersion =
          d.nvs.entries .fwVersion := DeviceStore.clearPending_entries d.nvs (by decide)
      refine ⟨⟨h.strict, fun version hread => ?_, fun hupdating => ?_⟩, .of_kept hkept⟩
      · have hleft := pendVersion_of (DeviceStore.clearPending_cases d.nvs .pendVersion) hread
        exact (h.pending version hleft).congr hkept
      · cases hrest.symm.trans hupdating
  | refused => exact ⟨h.keep rfl hnever (.refl [] _) (by decide), .of_kept rfl⟩
  | committed hasked _ hnvs =>
      obtain ⟨hrises, hpending⟩ := settled_rises hasked.pending h.pending hnvs
      exact ⟨⟨h.strict, hpending, fun hupdating => by cases hupdating⟩, hrises⟩

theorem provision_climbing {d d' : Impl} {now : UInt32} {i : ProvisionInput}
    (hmove : ProvisionMove v d now i d') (h : Climbing d) : Climbing d' ∧ Rises d.nvs d'.nvs := by
  have htouches := provision_touches hmove
  refine ⟨?_, .of_kept (htouches _ (by decide))⟩
  cases hmove with
  | waits => exact h.keep rfl (fun h => ⟨h, rfl⟩) htouches (by decide)
  | denied => exact h.keep rfl (fun hupdating => by cases hupdating) htouches (by decide)
  | granted => exact h.keep rfl (fun hupdating => by cases hupdating) htouches (by decide)

theorem ingest_climbing (d : Impl) (m : Polled) (h : Climbing d) :
    Climbing (ingest v d m) ∧ Rises d.nvs (ingest v d m).nvs := by
  rcases ingest_cases v d m with
    ⟨_, _, _, _, _, heq, hnvs, -⟩ | ⟨order, -, -, -, hjudge, heq⟩ <;> rw [heq]
  · exact ⟨h.keep rfl (fun h => ⟨h, rfl⟩) hnvs (by decide), .of_kept (hnvs _ (by decide))⟩
  · exact ⟨⟨h.strict, h.pending, fun _ => judge_atLeast h.strict hjudge⟩, .of_kept rfl⟩

/-- A boot leaves the recorded version and the pending one or erases the latter, unless it erases
the store. -/
theorem boot_versions {nvs : Nvs} {cfg : Config} {o : BootAnswers} {d' : Impl}
    (hmove : BootMove nvs cfg o d') :
    d'.nvs.entries .fwVersion = nvs.entries .fwVersion ∧
        (d'.nvs.entries .pendVersion = nvs.entries .pendVersion ∨
          d'.nvs.entries .pendVersion = none) ∨
      o.opening.wantsErase = true ∧ d'.nvs.entries .fwVersion = none := by
  obtain ⟨found, hfound, htouches, hpending⟩ := boot_store hmove
  have hversion := htouches .fwVersion (by decide)
  have hpending := hpending .pendVersion (by decide)
  rcases hfound with hsame | ⟨hwants, herased⟩
  · rw [hsame] at hversion hpending
    exact .inl ⟨hversion, hpending⟩
  · rw [herased] at hversion
    exact .inr ⟨hwants, hversion⟩

/-- The device keeps climbing over every event under strict configurations. -/
theorem climbing_kept : Kept v strictConfig Climbing where
  facing d flash h := h.keep rfl (fun h => ⟨h, rfl⟩) (.refl [] _) (by decide)
  aside d d' haside h := by
    obtain ⟨_, _, _, _, _, _, _, _, _, _, _, rfl, -⟩ := haside
    exact h.keep rfl (fun h => ⟨h, rfl⟩) (.refl [] _) (by decide)
  boot d cfg o d' hstrict hmove h := by
    obtain ⟨hcfg, hrest, -⟩ := boot_rest hmove
    refine ⟨by rw [hcfg]; exact hstrict, fun version hread => ?_, fun hupdating => ?_⟩
    · rcases boot_versions hmove with ⟨hversion, hpending⟩ | ⟨-, hversion⟩
      · exact (h.pending version (pendVersion_of hpending hread)).congr hversion
      · exact .of_none version.text hversion
    · cases hrest.symm.trans hupdating
  confirm d i d' _ _ hstate hmove h := (confirm_climbing hstate hmove h).1
  provision d i d' _ _ _ _ hmove h := (provision_climbing v hmove h).1
  ingest d i m _ _ _ _ h := (ingest_climbing v d m h).1
  ota d i d' _ _ _ hmove h := (ota_climbing v hmove h).1
  seed d nvs hnvs h := h.keep rfl (fun h => ⟨h, rfl⟩) hnvs (by decide)
  reset d flash _ h := by
    rcases DeviceStore.factoryReset_cases d.nvs with hsame | herased
    · exact h.keep rfl (fun h => ⟨h, rfl⟩) (fun key (_ : key ∉ []) => congrFun hsame key)
        (by decide)
    · exact ⟨h.strict, fun version _ => .of_none version.text (congrFun herased _),
        fun _ => .of_none _ (congrFun herased _)⟩

/-- Nothing erases the store. -/
def keepsRecord : Event → Prop
  | .factoryReset _ => False
  | .boot _ o => o.opening.wantsErase = false
  | _ => True

/-- A version of at least this rank is recorded. -/
def Above (floor : Lex (ℕ → Int)) (nvs : Nvs) : Prop :=
  ∃ recorded, DeviceStore.firmwareVersion nvs = some recorded ∧ floor ≤ versionRank recorded.text

theorem Rises.above {nvs nvs' : Nvs} {floor : Lex (ℕ → Int)} (h : Rises nvs nvs')
    (habove : Above floor nvs) : Above floor nvs' := by
  obtain ⟨recorded, hrecorded, hfloor⟩ := habove
  obtain ⟨recorded', hrecorded', hle⟩ := h recorded hrecorded
  exact ⟨recorded', hrecorded', hfloor.trans hle⟩

/-- What was recorded once stays a floor where nothing erases the store. -/
theorem above_kept (floor : Lex (ℕ → Int)) :
    Kept v (fun e => strictConfig e ∧ keepsRecord e)
      fun d => Climbing d ∧ Above floor d.nvs where
  facing d flash h := ⟨(climbing_kept v).facing d flash h.1, (Rises.of_kept rfl).above h.2⟩
  aside d d' haside h := by
    refine ⟨(climbing_kept v).aside d d' haside h.1, ?_⟩
    obtain ⟨_, _, _, _, _, _, _, _, _, _, _, rfl, -⟩ := haside
    exact (Rises.of_kept rfl).above h.2
  boot d cfg o d' hok hmove h := by
    refine ⟨(climbing_kept v).boot d cfg o d' hok.1 hmove h.1, ?_⟩
    rcases boot_versions hmove with ⟨hversion, -⟩ | ⟨hwants, -⟩
    · exact (Rises.of_kept hversion).above h.2
    · exact absurd (hok.2.symm.trans hwants) (by decide)
  confirm d i d' _ _ hstate hmove h :=
    (confirm_climbing hstate hmove h.1).imp id fun hrises => hrises.above h.2
  provision d i d' _ _ _ _ hmove h :=
    (provision_climbing v hmove h.1).imp id fun hrises => hrises.above h.2
  ingest d i m _ _ _ _ h := (ingest_climbing v d m h.1).imp id fun hrises => hrises.above h.2
  ota d i d' _ _ _ hmove h := (ota_climbing v hmove h.1).imp id fun hrises => hrises.above h.2
  seed d nvs hnvs h :=
    ⟨(climbing_kept v).seed d nvs hnvs h.1, (Rises.of_kept (hnvs _ (by decide))).above h.2⟩
  reset d flash hok _ := absurd hok.2 id

/-- A version that was recorded is never replaced by a lower one: not by a later update, not over
restarts and power cuts, and not where writes of the store fail, as long as no configuration
allows downgrades and nothing erases the store. -/
theorem recorded_never_falls {before after : List Event} {d d' : Impl}
    {recorded : Field maxVersionLen} (hbefore : Run (Step v) {} before d)
    (hafter : Run (Step v) d after d') (hstrict : ∀ e ∈ before ++ after, strictConfig e)
    (hkeeps : ∀ e ∈ after, keepsRecord e)
    (hrecorded : DeviceStore.firmwareVersion d.nvs = some recorded) :
    ∃ recorded', DeviceStore.firmwareVersion d'.nvs = some recorded' ∧
      versionRank recorded.text ≤ versionRank recorded'.text := by
  have hblank : Climbing {} :=
    ⟨rfl, fun version _ => .of_none version.text rfl, fun hupdating => by cases hupdating⟩
  have hclimbing := (climbing_kept v).run hbefore
    (fun e he => hstrict e (List.mem_append_left _ he)) hblank
  exact ((above_kept v (versionRank recorded.text)).run hafter
    (fun e he => ⟨hstrict e (List.mem_append_right _ he), hkeeps e he⟩)
    ⟨hclimbing, recorded, hrecorded, le_rfl⟩).2

/-- The sample device records version 2 and keeps it over another restart. -/
theorem recorded_never_falls_sample :
    ∃ recorded, DeviceStore.firmwareVersion (after sampleVendor (after sampleVendor {}
        (sampleStart ++ sampleUpdate ++ [sampleTrial, .pass sampleConfirmation]))
        [.boot sampleConfig {}]).nvs = some recorded ∧
      versionRank (literal "2") ≤ versionRank recorded.text := by
  have hrecorded : DeviceStore.firmwareVersion (after sampleVendor {}
      (sampleStart ++ sampleUpdate ++ [sampleTrial, .pass sampleConfirmation])).nvs =
      some (.print maxVersionLen_pos (literal "2")) := by decide +kernel
  exact recorded_never_falls sampleVendor (run_after sampleVendor {} _)
    (run_after sampleVendor _ [.boot sampleConfig {}])
    (by simp [sampleStart, sampleUpdate, sampleTrial, strictConfig, sampleConfig])
    (by simp [keepsRecord]) hrecorded

end FirmwareUpdater.Impl
