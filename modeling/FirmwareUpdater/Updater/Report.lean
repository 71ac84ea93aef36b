import FirmwareUpdater.Updater.AntiRollback

/-!
# What a device reports

The state of the update is written to the store as it changes, and read back at a start. Nothing
compares the two: a device that was cut off in a download starts without an order and says
`downloading`. `report_outlives_update` is about how long it does.
-/

namespace FirmwareUpdater.Impl

open Library

variable (v : Vendor)

/-- A pass without an order, or another event that does not erase the store. -/
def orderlessEvent : Event → Prop
  | .pass i => ∀ m ∈ i.inbox, orderless v m
  | e => keepsRecord e

/-- A report from the store that no update is behind. -/
structure Reports (next : OtaState) (reason : AbortReason) (d : Impl) : Prop where
  idle : d.updating = false
  state : d.state ≠ .confirming
  pending : DeviceStore.hasPending d.nvs = false
  stored : DeviceStore.otaState d.nvs = next ∧ DeviceStore.abortReason d.nvs = reason
  shown : d.storeOpen = true → d.otaState = next ∧ d.abortReason = reason

/-- The keys it is read from. -/
def reportKeys : List NvsKey := [.otaState, .abortReason, .pendUpdateId]

section Stores

variable {nvs nvs' : Nvs}

theorem report_congr (h : ∀ key ∈ reportKeys, nvs'.entries key = nvs.entries key) :
    DeviceStore.otaState nvs' = DeviceStore.otaState nvs ∧
      DeviceStore.abortReason nvs' = DeviceStore.abortReason nvs ∧
      DeviceStore.hasPending nvs' = DeviceStore.hasPending nvs := by
  unfold DeviceStore.otaState DeviceStore.abortReason DeviceStore.hasPending Nvs.getU8
  rw [h .otaState (by decide), h .abortReason (by decide),
    Nvs.getString_congr (h .pendUpdateId (by decide))]
  exact ⟨rfl, rfl, rfl⟩

/-- Writes elsewhere. -/
theorem Reports.keep {next : OtaState} {reason : AbortReason} {d d' : Impl}
    (h : Reports next reason d) {keys : List NvsKey} (hnvs : Touches keys d.nvs d'.nvs)
    (hkeys : ∀ key ∈ reportKeys, key ∉ keys) (hidle : d'.updating = false)
    (hstate : d'.state ≠ .confirming)
    (hshown : d'.storeOpen = d.storeOpen ∧ d'.otaState = d.otaState ∧
      d'.abortReason = d.abortReason) : Reports next reason d' := by
  obtain ⟨hota, hreason, hpending⟩ := report_congr fun key hkey => hnvs key (hkeys key hkey)
  refine ⟨hidle, hstate, hpending.trans h.pending,
    ⟨hota.trans h.stored.1, hreason.trans h.stored.2⟩, fun hopen => ?_⟩
  rw [hshown.2.1, hshown.2.2]
  exact h.shown (hshown.1 ▸ hopen)

/-- What a boot makes of a store without a pending update. -/
theorem boot_reports {cfg : Config} {o : BootAnswers} {d' : Impl} (hmove : BootMove nvs cfg o d')
    (hkeeps : o.opening.wantsErase = false) (hpending : DeviceStore.hasPending nvs = false) :
    Reports (DeviceStore.otaState nvs) (DeviceStore.abortReason nvs) d' := by
  have hmounted : (mounted nvs o).2 = { nvs with answers := o.flash } := by
    unfold mounted Nvs.begin
    rw [hkeeps]
    rfl
  cases hmove with
  | refused => exact ⟨rfl, by simp, hpending, ⟨rfl, rfl⟩, fun hopen => by cases hopen⟩
  | unopened =>
      rw [hmounted]
      exact ⟨rfl, by simp, hpending, ⟨rfl, rfl⟩, fun hopen => by cases hopen⟩
  | booted _ _ hrestored =>
      rw [hmounted] at hrestored ⊢
      cases hrestored with
      | confirming hother => cases hpending.symm.trans hother
      | dropped hother => cases hpending.symm.trans hother
      | fresh _ hnvs =>
          obtain ⟨hota, hreason, hnone⟩ := report_congr fun key hkey => hnvs key fun hmem => by
            revert key
            decide
          exact ⟨rfl, by simp, hnone.trans hpending, ⟨hota, hreason⟩, fun _ => ⟨rfl, rfl⟩⟩

end Stores

/-- Every event without an order leaves it. -/
theorem reports_kept (next : OtaState) (reason : AbortReason) :
    Kept v (orderlessEvent v) (Reports next reason) where
  facing d flash h := h.keep (.refl [] _) (by decide) h.idle h.state ⟨rfl, rfl, rfl⟩
  aside d d' haside h := by
    obtain ⟨_, _, _, _, _, _, _, _, _, _, _, rfl, -⟩ := haside
    exact h.keep (.refl [] _) (by decide) h.idle h.state ⟨rfl, rfl, rfl⟩
  boot d cfg o d' hok hmove h := by
    have hboot := boot_reports hmove hok h.pending
    rwa [h.stored.1, h.stored.2] at hboot
  confirm d i d' _ _ hstate _ h := absurd hstate h.state
  provision d i d' _ _ _ _ hmove h := by
    have htouches := provision_touches hmove
    cases hmove with
    | waits => exact h.keep htouches (by decide) h.idle h.state ⟨rfl, rfl, rfl⟩
    | denied => exact h.keep htouches (by decide) rfl (by simp) ⟨rfl, rfl, rfl⟩
    | granted => exact h.keep htouches (by decide) rfl (by simp) ⟨rfl, rfl, rfl⟩
  ingest d i m hok _ _ hm h := by
    obtain ⟨_, _, _, heq, hnvs, -⟩ := ingest_orderless (hok m hm) d
    rw [heq]
    exact h.keep hnvs (by decide) h.idle h.state ⟨rfl, rfl, rfl⟩
  ota d i d' _ _ _ hmove h := by
    rw [ota_idle hmove h.idle]
    exact h
  seed d nvs hnvs h := h.keep hnvs (by decide) h.idle h.state ⟨rfl, rfl, rfl⟩
  reset d flash hok _ := absurd hok id

/-- A device that starts without a pending update tells in its pings what its store says of the last
one, until an order comes: over any number of passes and restarts, whatever the flash answers, and
be it that a download which no longer goes on is under way. -/
theorem report_outlives_update {d d' : Impl} {cfg : Config} {o : BootAnswers} {events : List Event}
    (hrun : Run (Step v) d (.boot cfg o :: events) d')
    (hevents : ∀ e ∈ .boot cfg o :: events, orderlessEvent v e)
    (hpending : DeviceStore.hasPending d.nvs = false) :
    DeviceStore.otaState d'.nvs = DeviceStore.otaState d.nvs ∧
      (d'.storeOpen = true → ∀ now i,
        (d'.snapshot now i).otaState = DeviceStore.otaState d.nvs ∧
          (d'.snapshot now i).abortReason = DeviceStore.abortReason d.nvs) := by
  rw [List.forall_mem_cons] at hevents
  cases hrun with
  | cons hstep hrest =>
      have hboot := boot_reports (begin_move d.nvs cfg o) hevents.1 hpending
      rw [hstep] at hrest
      have hend := (reports_kept v _ _).run hrest hevents.2 hboot
      exact ⟨hend.stored.1, fun hopen _ _ => hend.shown hopen⟩

/-- The sample device is cut off in its download, and restarts twice. -/
theorem report_outlives_update_sample :
    ((after sampleVendor (after sampleVendor {} sampleStart)
      [.boot sampleConfig {}, .pass (samplePass [] []), .boot sampleConfig {}]).snapshot 0
        {}).otaState = .downloading := by
  have hend := report_outlives_update sampleVendor (run_after sampleVendor
    (after sampleVendor {} sampleStart)
    [.boot sampleConfig {}, .pass (samplePass [] []), .boot sampleConfig {}])
    (by simp [orderlessEvent, keepsRecord, samplePass]) (by decide +kernel)
  exact (hend.2 (by decide +kernel) 0 {}).1.trans (by decide +kernel)

end FirmwareUpdater.Impl
