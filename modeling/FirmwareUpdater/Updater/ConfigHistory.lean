import FirmwareUpdater.Updater.AntiRollback

/-!
# Which remote configurations are applied

A configuration is applied only where its version is above the one on record, which is
written before. So the versions that are applied rise, and none is applied twice, not even
over restarts. What it set lives in
RAM, though: behind a restart the device runs on its compiled-in values until a newer
configuration comes, and the retained message on the broker is none.
-/

namespace FirmwareUpdater.Impl

open Library

variable (v : Vendor)

/-! ## No version is applied twice -/

/-- The versions of the configurations that were applied, in order. -/
def appliedIn (effects : List Effect) : List UInt32 :=
  effects.filterMap fun
    | .configured config => some config.configVersion
    | _ => none

/-- The versions of the configurations that some events make a device apply. -/
def appliedVersions (d : Impl) : List Event → List UInt32
  | [] => []
  | e :: events => appliedIn (exec v d e).emitted ++ appliedVersions (exec v d e) events

/-- Other effects apply none. -/
theorem appliedIn_append {kinds : List Effect.Kind} {effects more : List Effect}
    (hmore : Only kinds more) (hkinds : Effect.Kind.config ∉ kinds) :
    appliedIn (effects ++ more) = appliedIn effects := by
  have hnone : appliedIn more = [] := by
    refine List.filterMap_eq_nil_iff.mpr fun effect hmem => ?_
    cases effect with
    | configured => exact absurd (hmore _ hmem) hkinds
    | _ => rfl
  rw [appliedIn, List.filterMap_append, ← appliedIn, ← appliedIn, hnone, List.append_nil]

/-- The record has not fallen below `base`, and what was applied since it was `base` rises, above
`base` and up to the record. -/
structure Rising (base : UInt32) (d : Impl) : Prop where
  recorded : base ≤ DeviceStore.configVersion d.nvs
  bounded : ∀ version ∈ appliedIn d.emitted,
    base < version ∧ version ≤ DeviceStore.configVersion d.nvs
  rising : (appliedIn d.emitted).Pairwise (· < ·)

theorem Rising.keep {base : UInt32} {d d' : Impl} (h : Rising base d) {kinds : List Effect.Kind}
    {es : List Effect} (hemitted : d'.emitted = d.emitted ++ es) (hes : Only kinds es)
    (hkinds : Effect.Kind.config ∉ kinds) {keys : List NvsKey} (hnvs : Touches keys d.nvs d'.nvs)
    (hkeys : NvsKey.configVersion ∉ keys) : Rising base d' := by
  have hversion : DeviceStore.configVersion d'.nvs = DeviceStore.configVersion d.nvs := by
    unfold DeviceStore.configVersion
    rw [Nvs.getU32_congr (hnvs _ hkeys)]
  have happlied : appliedIn d'.emitted = appliedIn d.emitted := by
    rw [hemitted, appliedIn_append hes hkinds]
  refine ⟨?_, ?_, ?_⟩
  · rw [hversion]
    exact h.recorded
  · rw [hversion, happlied]
    exact h.bounded
  · rw [happlied]
    exact h.rising

/-- The record may rise with nothing applied, where the version was written and not committed. -/
theorem Rising.raise {base : UInt32} {d : Impl} (h : Rising base d) {nvs : Nvs}
    (hle : DeviceStore.configVersion d.nvs ≤ DeviceStore.configVersion nvs) :
    Rising base { d with nvs } where
  recorded := UInt32.le_trans h.recorded hle
  bounded version hmem :=
    ⟨(h.bounded version hmem).1, UInt32.le_trans (h.bounded version hmem).2 hle⟩
  rising := h.rising

/-- A configuration that is applied is above the record, and so above all that were. -/
theorem Rising.apply {base : UInt32} {d : Impl} (h : Rising base d) {incoming : RemoteConfig}
    {nvs : Nvs} (hnewer : DeviceStore.configVersion d.nvs < incoming.configVersion)
    (hversion : DeviceStore.configVersion nvs = incoming.configVersion) :
    Rising base
      { d with remoteCfg := incoming, nvs, emitted := d.emitted ++ [.configured incoming] } := by
  have happlied : appliedIn (d.emitted ++ [.configured incoming]) =
      appliedIn d.emitted ++ [incoming.configVersion] := by
    simp [appliedIn]
  have hle := UInt32.le_of_lt hnewer
  refine ⟨?_, ?_, ?_⟩
  · rw [hversion]
    exact UInt32.le_trans h.recorded hle
  · rw [hversion, happlied]
    intro version hmem
    rcases List.mem_append.mp hmem with hbefore | hlast
    · exact ⟨(h.bounded version hbefore).1, UInt32.le_trans (h.bounded version hbefore).2 hle⟩
    · obtain rfl := List.mem_singleton.mp hlast
      exact ⟨UInt32.lt_of_le_of_lt h.recorded hnewer, UInt32.le_refl _⟩
  · rw [happlied, List.pairwise_append]
    refine ⟨h.rising, List.pairwise_singleton _ _, ?_⟩
    intro version hmem last hlast
    obtain rfl := List.mem_singleton.mp hlast
    exact UInt32.lt_of_le_of_lt (h.bounded version hmem).2 hnewer

/-- A message applies nothing, or a configuration that is newer than the record. -/
theorem ingest_rising {base : UInt32} {d : Impl} (m : Polled) (h : Rising base d) :
    Rising base (ingest v d m) := by
  unfold ingest
  split
  · rcases handleOrder_cases v d (.ofBytes m.payload) m.allowed with
      ⟨_, _, _, es, heq, hnvs, hes⟩ | ⟨_, -, -, -, heq⟩ <;> rw [heq]
    · exact h.keep rfl hes (by decide) hnvs (by decide)
    · exact ⟨h.recorded, h.bounded, h.rising⟩
  split
  · rcases handleConfig_cases v d (.ofBytes m.payload) with
      ⟨nvs, heq, -, hversion⟩ | ⟨incoming, nvs, -, hnewer, heq, -, hversion⟩ <;> rw [heq]
    · refine h.raise ?_
      rcases hversion with hkept | ⟨incoming, -, hnewer, hmoved⟩
      · rw [hkept]
        exact UInt32.le_refl _
      · rw [hmoved]
        exact UInt32.le_of_lt hnewer
    · exact h.apply hnewer hversion
  · have hes : Only [.delivery] [.delivered m.topic m.payload] :=
      .single (List.mem_singleton_self _)
    exact h.keep rfl hes (by decide) (.refl [] _) (by decide)

/-- Every event that does not erase the store keeps it so. -/
theorem rising_kept (base : UInt32) : Kept v keepsRecord (Rising base) where
  facing d flash h := ⟨h.recorded, fun _ hmem => absurd hmem List.not_mem_nil, .nil⟩
  aside d d' haside h := by
    obtain ⟨_, _, _, _, _, _, _, _, _, _, es, rfl, hes⟩ := haside
    exact h.keep rfl hes (by decide) (.refl [] _) (by decide)
  boot d cfg o d' hok hmove h := by
    obtain ⟨-, -, hquiet⟩ := boot_rest hmove
    obtain ⟨found, hfound | ⟨hwants, -⟩, htouches, -⟩ := boot_store hmove
    · have hkey := (htouches .configVersion (by decide)).trans (congrFun hfound _)
      have hversion : DeviceStore.configVersion d'.nvs = DeviceStore.configVersion d.nvs := by
        unfold DeviceStore.configVersion
        rw [Nvs.getU32_congr hkey]
      refine ⟨hversion ▸ h.recorded, ?_, ?_⟩
      · rw [hquiet]
        exact fun _ hmem => absurd hmem List.not_mem_nil
      · rw [hquiet]
        exact .nil
    · exact absurd (hok.symm.trans hwants) (by decide)
  confirm d i d' _ _ _ hmove h := by
    obtain ⟨es, heq, hes⟩ := confirm_emits hmove
    exact h.keep heq hes (by decide) (confirm_touches hmove) (by decide)
  provision d i d' _ _ _ _ hmove h := by
    obtain ⟨es, heq, hes⟩ := provision_emits hmove
    exact h.keep heq hes (by decide) (provision_touches hmove) (by decide)
  ingest d i m _ _ _ _ h := ingest_rising v m h
  ota d i d' _ _ _ hmove h := by
    obtain ⟨es, heq, hes⟩ := ota_emits hmove
    exact h.keep heq hes (by decide) (ota_touches hmove) (by decide)
  seed d nvs hnvs h := h.keep (List.append_nil _).symm (.nil []) (by decide) hnvs (by decide)
  reset d flash hok _ := absurd hok id

/-- Over any events that do not erase the store, restarts and failing writes included, the versions
of the configurations that the device applies rise strictly, above the one on record before and up
to the one on record behind them: none is applied twice, and none that is not newer. -/
theorem configs_applied_once (d : Impl) (events : List Event)
    (hkeeps : ∀ e ∈ events, keepsRecord e) :
    (appliedVersions v d events).Pairwise (· < ·) ∧
      DeviceStore.configVersion d.nvs ≤ DeviceStore.configVersion (after v d events).nvs ∧
      ∀ version ∈ appliedVersions v d events, DeviceStore.configVersion d.nvs < version ∧
        version ≤ DeviceStore.configVersion (after v d events).nvs := by
  induction events generalizing d with
  | nil => exact ⟨.nil, UInt32.le_refl _, fun _ hmem => absurd hmem List.not_mem_nil⟩
  | cons e events ih =>
      rw [List.forall_mem_cons] at hkeeps
      have hstart : Rising (DeviceStore.configVersion d.nvs) { d with emitted := [] } :=
        ⟨UInt32.le_refl _, fun _ hmem => absurd hmem List.not_mem_nil, .nil⟩
      have hstep := (rising_kept v (DeviceStore.configVersion d.nvs)).stepwise.exec hkeeps.1 hstart
      rw [exec_forgets] at hstep
      obtain ⟨hrising, hraised, hbounded⟩ := ih (exec v d e) hkeeps.2
      refine ⟨List.pairwise_append.mpr ⟨hstep.rising, hrising, ?_⟩,
        UInt32.le_trans hstep.recorded hraised, ?_⟩
      · intro early hearly late hlate
        exact UInt32.lt_of_le_of_lt (hstep.bounded early hearly).2 (hbounded late hlate).1
      · intro version hmem
        rcases List.mem_append.mp hmem with hfirst | hrest
        · obtain ⟨habove, hle⟩ := hstep.bounded version hfirst
          exact ⟨habove, UInt32.le_trans hle hraised⟩
        · obtain ⟨habove, hle⟩ := hbounded version hrest
          exact ⟨UInt32.lt_of_le_of_lt hstep.recorded habove, hle⟩

/-- The sample device is sent its configuration twice, and once more behind a restart. -/
def sampleRepeated : List Event :=
  [.pass (samplePass [sampleConfigured, sampleConfigured] []), .boot sampleConfig {},
    .pass (samplePass [sampleConfigured] [])]

/-- It applies it once. -/
theorem configs_applied_once_sample :
    appliedVersions sampleVendor (after sampleVendor {} sampleStart) sampleRepeated = [7] ∧
      (appliedVersions sampleVendor (after sampleVendor {} sampleStart)
        sampleRepeated).Pairwise (· < ·) :=
  ⟨by decide +kernel,
    (configs_applied_once sampleVendor _ _ (by simp [sampleRepeated, keepsRecord])).1⟩

/-! ## A restart forgets the configuration -/

/-- No configuration that a pass brings is newer than the one `d` has on record. -/
def replays (d : Impl) : Event → Prop
  | .pass i => ∀ m ∈ i.inbox, ∀ incoming,
      RemoteConfig.parse v.deserializeJson (some (.ofBytes m.payload)) d.remoteCfg =
        (.ok, incoming) →
      incoming.configVersion ≤ DeviceStore.configVersion d.nvs
  | .boot _ _ | .factoryReset _ => False
  | _ => True

/-- The configuration in force and the one on record are those of `start`. -/
structure Unconfigured (start d : Impl) : Prop where
  inForce : d.remoteCfg = start.remoteCfg
  recorded : d.nvs.entries .configVersion = start.nvs.entries .configVersion
  silent : ∀ config, .configured config ∉ d.emitted

theorem Unconfigured.keep {start d d' : Impl} (h : Unconfigured start d)
    (hforce : d'.remoteCfg = d.remoteCfg) {keys : List NvsKey} (hnvs : Touches keys d.nvs d'.nvs)
    (hkeys : NvsKey.configVersion ∉ keys) {kinds : List Effect.Kind} {es : List Effect}
    (hemitted : d'.emitted = d.emitted ++ es) (hes : Only kinds es)
    (hkinds : Effect.Kind.config ∉ kinds) : Unconfigured start d' where
  inForce := hforce.trans h.inForce
  recorded := (hnvs _ hkeys).trans h.recorded
  silent config hmem := by
    rw [hemitted] at hmem
    rcases List.mem_append.mp hmem with hmem | hmem
    · exact h.silent config hmem
    · exact hkinds (hes _ hmem)

/-- A message with no newer configuration. -/
theorem ingest_unconfigured {start d : Impl} {i : Pass} (hreplays : replays v start (.pass i))
    {m : Polled} (hm : m ∈ i.inbox) (h : Unconfigured start d) :
    Unconfigured start (ingest v d m) := by
  have hversion : DeviceStore.configVersion d.nvs = DeviceStore.configVersion start.nvs := by
    unfold DeviceStore.configVersion
    rw [Nvs.getU32_congr h.recorded]
  have hstale : ∀ incoming, RemoteConfig.parse v.deserializeJson (some (.ofBytes m.payload))
      d.remoteCfg = (.ok, incoming) →
      ¬DeviceStore.configVersion d.nvs < incoming.configVersion := by
    intro incoming hparse
    rw [h.inForce] at hparse
    rw [hversion, UInt32.not_lt]
    exact hreplays m hm incoming hparse
  unfold ingest
  split
  · rcases handleOrder_cases v d (.ofBytes m.payload) m.allowed with
      ⟨_, _, _, es, heq, hnvs, hes⟩ | ⟨_, -, -, -, heq⟩ <;> rw [heq]
    · exact h.keep rfl hnvs (by decide) rfl hes (by decide)
    · exact ⟨h.inForce, h.recorded, h.silent⟩
  split
  · unfold handleConfig
    split
    · rename_i incoming hparse
      have hrefused :
          DeviceStore.applyConfigVersion d.nvs incoming.configVersion = (false, d.nvs) := by
        rw [DeviceStore.applyConfigVersion, if_pos (UInt32.not_lt.mp (hstale incoming hparse))]
      rw [hrefused]
      exact h
    · exact h
  · have hes : Only [.delivery] [.delivered m.topic m.payload] :=
      .single (List.mem_singleton_self _)
    exact h.keep rfl (.refl [] _) (by decide) rfl hes (by decide)

/-- Events that bring nothing newer change no configuration. -/
theorem unconfigured_kept (start : Impl) : Kept v (replays v start) (Unconfigured start) where
  facing d flash h := ⟨h.inForce, h.recorded, fun _ => List.not_mem_nil⟩
  aside d d' haside h := by
    obtain ⟨_, _, _, _, _, _, _, _, _, _, es, rfl, hes⟩ := haside
    exact h.keep rfl (.refl [] _) (by decide) rfl hes (by decide)
  boot d cfg o d' hok := absurd hok id
  confirm d i d' _ _ _ hmove h := by
    obtain ⟨es, heq, hes⟩ := confirm_emits hmove
    exact h.keep (confirm_rest hmove).1.remoteCfg (confirm_touches hmove) (by decide) heq hes
      (by decide)
  provision d i d' _ _ _ _ hmove h := by
    obtain ⟨es, heq, hes⟩ := provision_emits hmove
    exact h.keep (provision_rest hmove).remoteCfg (provision_touches hmove) (by decide) heq hes
      (by decide)
  ingest d i m hok _ _ hm h := ingest_unconfigured v hok hm h
  ota d i d' _ _ _ hmove h := by
    obtain ⟨es, heq, hes⟩ := ota_emits hmove
    exact h.keep (ota_rest hmove).1.remoteCfg (ota_touches hmove) (by decide) heq hes (by decide)
  seed d nvs hnvs h := h.keep rfl hnvs (by decide) (List.append_nil _).symm (.nil []) (by decide)
  reset d flash hok := absurd hok id

/-- Behind a restart a device runs on its compiled-in values, whatever configuration it had applied
before: as long as no message is newer than the version on record, and the retained one is not,
none is applied, and no application hears of one. -/
theorem restart_forgets_config {nvs : Nvs} {cfg : Config} {o : BootAnswers} {events : List Event}
    {d : Impl} (hcfg : cfg.validate = .ok) (hopens : (mounted nvs o).1 = true)
    (hrun : Run (Step v) (begin nvs cfg o).2 events d)
    (hreplays : ∀ e ∈ events, replays v (begin nvs cfg o).2 e) :
    d.remoteCfg = seeds cfg ∧ ∀ config, .configured config ∉ d.emitted := by
  have hboot := begin_move nvs cfg o
  have hend := (unconfigured_kept v (begin nvs cfg o).2).run hrun hreplays
    ⟨rfl, rfl, by rw [(boot_rest hboot).2.2]; exact fun _ => List.not_mem_nil⟩
  refine ⟨hend.inForce.trans ?_, hend.silent⟩
  generalize (begin nvs cfg o).2 = d0 at hboot
  cases hboot with
  | refused hbad => exact absurd hcfg hbad
  | unopened _ hclosed => exact absurd (hclosed.symm.trans hopens) (by decide)
  | booted => rfl

/-- The sample device restarts behind its configuration, and the broker sends that again. -/
theorem restart_forgets_config_sample :
    (after sampleVendor (begin (after sampleVendor {} (sampleStart ++
        [.pass (samplePass [sampleConfigured] [])])).nvs sampleConfig {}).2
      [.pass (samplePass [sampleConfigured] [])]).remoteCfg = seeds sampleConfig := by
  refine (restart_forgets_config sampleVendor (by decide +kernel) (by decide +kernel)
    (run_after sampleVendor _ _) ?_).1
  intro e he
  obtain rfl := List.mem_singleton.mp he
  intro m hm incoming hparse
  obtain rfl := List.mem_singleton.mp hm
  have hversion : (RemoteConfig.parse sampleVendor.deserializeJson
      (some (.ofBytes sampleConfigured.payload)) (begin (after sampleVendor {} (sampleStart ++
        [.pass (samplePass [sampleConfigured] [])])).nvs sampleConfig
        {}).2.remoteCfg).2.configVersion = 7 := by decide +kernel
  rw [hparse] at hversion
  rw [hversion]
  decide +kernel

end FirmwareUpdater.Impl
