import FirmwareUpdater.Updater.AntiRollback

/-!
# Who confirms an update, and when

Only an answer of the server changes the record of what runs and marks the image valid. The
deadline for that answer is looked at behind the question whether there is a link, so a
device that stays offline never takes an image back; and it counts from zero where the
update was applied without a clock, so that no image of such an update is confirmed by a
device that knows the time.
-/

namespace FirmwareUpdater.Impl

open Library

variable (v : Vendor)

/-! ## No confirmation without an answer -/

/-- A pass in which the server confirms nothing. -/
def unanswered : Event → Prop
  | .pass i => ¬(i.confirm.post.error = .ok ∧ i.confirm.post.status = 200)
  | _ => True

/-- The record of what runs is that of `nvs`, and no image was marked valid. -/
structure Unconfirmed (nvs : Nvs) (d : Impl) : Prop where
  record : ∀ key ∈ judgeKeys, d.nvs.entries key = nvs.entries key
  unmarked : .markedValid ∉ d.emitted

/-- It stays so where the keys are left alone and nothing is marked. -/
theorem Unconfirmed.keep {nvs : Nvs} {d d' : Impl} (h : Unconfirmed nvs d) {keys : List NvsKey}
    (hnvs : Touches keys d.nvs d'.nvs) (hkeys : ∀ key ∈ judgeKeys, key ∉ keys)
    (hmarks : .markedValid ∈ d'.emitted → .markedValid ∈ d.emitted) : Unconfirmed nvs d' where
  record key hkey := (hnvs key (hkeys key hkey)).trans (h.record key hkey)
  unmarked hmem := h.unmarked (hmarks hmem)

/-- Effects of other kinds mark nothing. -/
theorem not_marked {kinds : List Effect.Kind} {effects more : List Effect} (hmore : Only kinds more)
    (hkinds : Effect.Kind.mark ∉ kinds) (h : .markedValid ∈ effects ++ more) :
    .markedValid ∈ effects := by
  rcases List.mem_append.mp h with h | h
  · exact h
  · exact absurd (hmore _ h) hkinds

/-- Every event without an answer keeps it, where nothing erases the store. -/
theorem unconfirmed_kept (nvs : Nvs) :
    Kept v (fun e => unanswered e ∧ keepsRecord e) (Unconfirmed nvs) where
  facing d flash h := ⟨h.record, List.not_mem_nil⟩
  aside d d' haside h := by
    obtain ⟨_, _, _, _, _, _, _, _, _, _, _, rfl, hes⟩ := haside
    exact h.keep (.refl [] _) (by decide) (not_marked hes (by decide))
  boot d cfg o d' hok hmove h := by
    obtain ⟨-, -, hquiet⟩ := boot_rest hmove
    obtain ⟨found, hfound | ⟨hwants, -⟩, htouches, -⟩ := boot_store hmove
    · refine ⟨fun key hkey => ?_, by rw [hquiet]; exact List.not_mem_nil⟩
      rw [← h.record key hkey, ← hfound]
      refine htouches key fun hmem => ?_
      revert key
      decide
    · exact absurd (hok.2.symm.trans hwants) (by decide)
  confirm d i d' hok _ _ hmove h := by
    cases hmove with
    | waits => exact h
    | forgotten => exact h.keep (.refl [] _) (by decide) id
    | reverted =>
        have hcleared : Touches DeviceStore.pendingKeys d.nvs (DeviceStore.clearPending d.nvs).2 :=
          fun key hkey => DeviceStore.clearPending_entries d.nvs hkey
        refine h.keep hcleared (by decide) fun hmem => ?_
        rcases List.mem_append.mp hmem with hmem | hmem
        · exact hmem
        · cases List.mem_singleton.mp hmem
    | refused =>
        refine h.keep (.refl [] _) (by decide) fun hmem => ?_
        rcases List.mem_append.mp hmem with hmem | hmem
        · exact hmem
        · cases List.mem_singleton.mp hmem
    | committed _ hpost => exact absurd hpost hok.1
  provision d i d' _ _ _ _ hmove h := by
    obtain ⟨es, heq, hes⟩ := provision_emits hmove
    refine h.keep (provision_touches hmove) (by decide) fun hmem => ?_
    rw [heq] at hmem
    exact not_marked hes (by decide) hmem
  ingest d i m _ _ _ _ h := by
    rcases ingest_cases v d m with
      ⟨_, _, _, _, _, heq, hnvs, hes⟩ | ⟨_, -, -, -, -, heq⟩ <;> rw [heq]
    · exact h.keep hnvs (by decide) (not_marked hes (by decide))
    · exact h.keep (.refl [] _) (by decide) id
  ota d i d' _ _ _ hmove h := by
    obtain ⟨es, heq, hes⟩ := ota_emits hmove
    refine h.keep (ota_touches hmove) (by decide) fun hmem => ?_
    rw [heq] at hmem
    exact not_marked hes (by decide) hmem
  seed d nvs hnvs h := h.keep hnvs (by decide) id
  reset d flash hok _ := absurd hok.2 id

/-- However long a device runs, through restarts and further updates and whatever its flash answers:
as long as no pass gets the server's answer to a confirmation, and nothing erases the store, the
version, the repo and the last update on record stay what they are, and no image is marked
valid. -/
theorem record_needs_answer {d d' : Impl} {events : List Event}
    (hrun : Run (Step v) d events d') (hevents : ∀ e ∈ events, unanswered e ∧ keepsRecord e)
    (hquiet : .markedValid ∉ d.emitted) :
    (∀ key ∈ judgeKeys, d'.nvs.entries key = d.nvs.entries key) ∧ .markedValid ∉ d'.emitted := by
  have hend := (unconfirmed_kept v d.nvs).run hrun hevents ⟨fun _ _ => rfl, hquiet⟩
  exact ⟨hend.record, hend.unmarked⟩

/-- The sample device on trial, where the server fails to answer. -/
theorem record_needs_answer_sample :
    .markedValid ∉ (after sampleVendor
      (after sampleVendor {} (sampleStart ++ sampleUpdate ++ [sampleTrial]))
      [.pass { sampleConfirmation with
        confirm := { link := sampleLinks, post := { status := 500 } } }]).emitted :=
  (record_needs_answer sampleVendor (run_after sampleVendor _ _)
    (by simp [unanswered, keepsRecord]) (by decide +kernel)).2

/-! ## No deadline without a link -/

/-- A pass whose confirmation finds no link, or a call of the application that leaves the store. -/
def offline : Event → Prop
  | .pass i => i.confirm.link.wifi = false ∧ i.confirm.link.gsm = false
  | .boot _ _ | .factoryReset _ => False
  | _ => True

/-- The image waits for its confirmation, with the record of `nvs`. -/
structure Waiting (nvs : Nvs) (d : Impl) : Prop where
  state : d.state = .confirming
  record : ∀ key ∈ DeviceStore.pendingKeys, d.nvs.entries key = nvs.entries key
  unmarked : ∀ effect ∈ d.emitted, effect.kind ≠ .mark

/-- Without a link it goes on waiting. -/
theorem waiting_kept (nvs : Nvs) : Kept v offline (Waiting nvs) where
  facing d flash h := ⟨h.state, h.record, fun effect hmem => absurd hmem List.not_mem_nil⟩
  aside d d' haside h := by
    obtain ⟨_, _, _, _, _, _, _, _, _, _, _, rfl, hes⟩ := haside
    refine ⟨h.state, h.record, fun effect hmem => ?_⟩
    rcases List.mem_append.mp hmem with hmem | hmem
    · exact h.unmarked effect hmem
    · exact fun hkind => absurd (hkind ▸ hes effect hmem) (by decide)
  boot d cfg o d' hok := absurd hok id
  confirm d i d' hok _ _ hmove h := by
    have hdown : d.linkUp i.confirm.link = false := by
      simp [linkUp, activeLink, hok.1, hok.2]
    cases hmove with
    | waits => exact h
    | forgotten hlink => exact absurd (hdown.symm.trans hlink) (by decide)
    | reverted hlink => exact absurd (hdown.symm.trans hlink) (by decide)
    | refused hasked => exact absurd (hdown.symm.trans hasked.link) (by decide)
    | committed hasked => exact absurd (hdown.symm.trans hasked.link) (by decide)
  provision d i d' _ _ hstate _ _ h := absurd h.state hstate
  ingest d i m _ _ hstate _ h := absurd h.state hstate
  ota d i d' _ _ hstate _ h := absurd h.state hstate
  seed d nvs' hnvs h := by
    refine ⟨h.state, fun key hkey => ?_, h.unmarked⟩
    rw [← h.record key hkey]
    refine hnvs key fun hmem => ?_
    obtain rfl := List.mem_singleton.mp hmem
    exact absurd hkey (by decide)
  reset d flash hok := absurd hok id

/-- An image that waits for its confirmation is neither confirmed nor taken back as long as the
device finds no link, whatever its clock says and however long the deadline has passed. -/
theorem offline_keeps_waiting {d d' : Impl} {events : List Event}
    (hrun : Run (Step v) d events d') (hoffline : ∀ e ∈ events, offline e)
    (hstate : d.state = .confirming) (hquiet : ∀ effect ∈ d.emitted, effect.kind ≠ .mark) :
    d'.state = .confirming ∧
      (∀ key ∈ DeviceStore.pendingKeys, d'.nvs.entries key = d.nvs.entries key) ∧
      ∀ effect ∈ d'.emitted, effect.kind ≠ .mark := by
  have hend := (waiting_kept v d.nvs).run hrun hoffline ⟨hstate, fun _ _ => rfl, hquiet⟩
  exact ⟨hend.state, hend.record, hend.unmarked⟩

/-- The sample device on trial, out of reach. -/
theorem offline_keeps_waiting_sample :
    (after sampleVendor
      (after sampleVendor {} (sampleStart ++ sampleUpdate ++ [sampleTrial]))
      [.pass (samplePass [] [])]).state = .confirming :=
  (offline_keeps_waiting sampleVendor (run_after sampleVendor _ _)
    (by simp [offline, samplePass]) (by decide +kernel) (by decide +kernel)).1

/-! ## No confirmation for an update without a clock -/

/-- A pass that knows the time and whose image the bootloader can take back, or a call of the
application that leaves the store. -/
def timed : Event → Prop
  | .pass i => Iso8601.plausibleEpoch i.confirm.time = true ∧ i.confirm.reverts = true
  | .boot _ _ | .factoryReset _ => False
  | _ => True

/-- Every time that a clock shows is behind the deadline of a record made without one. -/
theorem clockless_overdue {d : Impl} {applied now : Int}
    (happlied : Iso8601.plausibleEpoch applied = false) (hpos : 0 < d.cfg.ota.rollbackDeadlineS)
    (hnow : Iso8601.plausibleEpoch now = true) : overdue (d.pendingRecord applied) now = true := by
  have hdeadline : (d.pendingRecord applied).deadlineS = d.cfg.ota.rollbackDeadlineS.toUInt32 := by
    simp [pendingRecord, ArduinoClock.utc, happlied]
  have hutc : ArduinoClock.utc now = some now := if_pos hnow
  rw [Iso8601.plausibleEpoch, decide_eq_true_eq] at hnow
  have hsmall := d.cfg.ota.rollbackDeadlineS.toNat_lt
  rw [UInt16.lt_iff_toNat_lt] at hpos
  have hlate : d.cfg.ota.rollbackDeadlineS.toUInt32 < UInt32.ofInt now := by
    rw [UInt32.lt_iff_toNat_lt, UInt16.toNat_toUInt32, UInt32.ofInt, UInt32.toNat_ofNat']
    omega
  have hstarted : 0 < d.cfg.ota.rollbackDeadlineS.toUInt32 := by
    rw [UInt32.lt_iff_toNat_lt, UInt16.toNat_toUInt32]
    exact hpos
  simp [overdue, hutc, hdeadline, hlate, hstarted]

/-- The image was taken back, or waits with the record of `nvs`. -/
structure Doomed (nvs : Nvs) (d : Impl) : Prop where
  waits : d.restarting = true ∨ d.state = .confirming ∧
    ∀ key ∈ DeviceStore.pendingKeys, d.nvs.entries key = nvs.entries key
  unmarked : .markedValid ∉ d.emitted

/-- A device that knows the time takes the image back before anybody can confirm it. -/
theorem doomed_kept {nvs : Nvs} {x : Impl} {applied : Int}
    (hrecord : DeviceStore.loadPending nvs = some (x.pendingRecord applied))
    (happlied : Iso8601.plausibleEpoch applied = false) (hpos : 0 < x.cfg.ota.rollbackDeadlineS) :
    Kept v timed (Doomed nvs) where
  facing d flash h := ⟨h.waits, List.not_mem_nil⟩
  aside d d' haside h := by
    obtain ⟨_, _, _, _, _, _, _, _, _, _, _, rfl, hes⟩ := haside
    exact ⟨h.waits, fun hmem => h.unmarked (not_marked hes (by decide) hmem)⟩
  boot d cfg o d' hok := absurd hok id
  confirm d i d' hok hfresh _ hmove h := by
    have hwaits := h.waits.resolve_left (by simp [hfresh.running])
    have hpending := (DeviceStore.loadPending_congr hwaits.2).trans hrecord
    have hlate := clockless_overdue happlied hpos hok.1
    cases hmove with
    | waits => exact h
    | forgotten _ hnone => exact absurd (hpending.symm.trans hnone) (by simp)
    | reverted =>
        refine ⟨.inl hok.2, fun hmem => h.unmarked ?_⟩
        rcases List.mem_append.mp hmem with hmem | hmem
        · exact hmem
        · cases List.mem_singleton.mp hmem
    | refused hasked =>
        cases hpending.symm.trans hasked.pending
        exact absurd (hlate.symm.trans hasked.inTime) (by decide)
    | committed hasked =>
        cases hpending.symm.trans hasked.pending
        exact absurd (hlate.symm.trans hasked.inTime) (by decide)
  provision d i d' _ hfresh hstate _ _ h :=
    absurd (h.waits.resolve_left (by simp [hfresh.running])).1 hstate
  ingest d i m _ hfresh hstate _ h :=
    absurd (h.waits.resolve_left (by simp [hfresh.running])).1 hstate
  ota d i d' _ hfresh hstate _ h :=
    absurd (h.waits.resolve_left (by simp [hfresh.running])).1 hstate
  seed d nvs' hnvs h := by
    refine ⟨h.waits.imp id fun hwaits => ⟨hwaits.1, fun key hkey => ?_⟩, h.unmarked⟩
    rw [← hwaits.2 key hkey]
    refine hnvs key fun hmem => ?_
    obtain rfl := List.mem_singleton.mp hmem
    exact absurd hkey (by decide)
  reset d flash hok := absurd hok id

/-- The deadline of an update that was applied without a clock counts from zero. A device that boots
into it and knows the time never marks it valid, whatever the server answers: it waits or takes
the image back. -/
theorem clockless_update_is_doomed {d d' x : Impl} {applied : Int} {events : List Event}
    (hrecord : DeviceStore.loadPending d.nvs = some (x.pendingRecord applied))
    (happlied : Iso8601.plausibleEpoch applied = false) (hpos : 0 < x.cfg.ota.rollbackDeadlineS)
    (hrun : Run (Step v) d events d') (htimed : ∀ e ∈ events, timed e)
    (hstate : d.state = .confirming) (hquiet : .markedValid ∉ d.emitted) :
    .markedValid ∉ d'.emitted ∧ (d'.restarting = true ∨ d'.state = .confirming) := by
  have hend := (doomed_kept v hrecord happlied hpos).run hrun htimed
    ⟨.inr ⟨hstate, fun _ _ => rfl⟩, hquiet⟩
  exact ⟨hend.unmarked, hend.waits.imp id And.left⟩

/-- The update of the sample device was applied without a clock, and its server confirms it. -/
theorem clockless_update_is_doomed_sample :
    .markedValid ∉ (after sampleVendor
      (after sampleVendor {} (sampleStart ++ sampleUpdate ++ [sampleTrial]))
      [.pass { sampleConfirmation with
        confirm := { sampleConfirmation.confirm with time := 1800000000 } }]).emitted := by
  have hrecord : DeviceStore.loadPending
      (after sampleVendor {} (sampleStart ++ sampleUpdate ++ [sampleTrial])).nvs =
      some ((after sampleVendor {} sampleStart).pendingRecord 0) := by decide +kernel
  have htime : Iso8601.plausibleEpoch 1800000000 = true := by decide +kernel
  exact (clockless_update_is_doomed sampleVendor hrecord (by decide +kernel) (by decide +kernel)
    (run_after sampleVendor _ _) (by simp [timed, sampleConfirmation, htime])
    (by decide +kernel) (by decide +kernel)).1

end FirmwareUpdater.Impl
