import FirmwareUpdater.Updater.PassMoves

/-!
# Where an update comes from

An order that is carried out was parsed from a message on the device's own update topic and
accepted, and it is still acceptable in every state until it ends: what `validate` was told
when the order came does not change under it.
-/

namespace FirmwareUpdater.Impl

open Library

variable (v : Vendor)

/-- The keys that the check of an order reads. -/
def judgeKeys : List NvsKey := [.fwVersion, .fwRepo, .lastUpdateId]

/-- The check of an order depends on those keys, the configuration and the board. -/
theorem judge_congr {d d' : Impl} (order : UpdateOrder) (hcfg : d'.cfg = d.cfg) (hhw : d'.hw = d.hw)
    (hkeys : ∀ key ∈ judgeKeys, d'.nvs.entries key = d.nvs.entries key) :
    d'.judge order = d.judge order := by
  have hversion : d'.currentVersion = d.currentVersion := by
    unfold currentVersion DeviceStore.firmwareVersion
    rw [Nvs.getString_congr (hkeys .fwVersion (by decide)), hcfg]
  have hrepo : d'.currentRepo = d.currentRepo := by
    unfold currentRepo DeviceStore.firmwareRepo
    rw [Nvs.getString_congr (hkeys .fwRepo (by decide)), hcfg]
  have hlast : DeviceStore.lastUpdateId d'.nvs = DeviceStore.lastUpdateId d.nvs :=
    Nvs.getString_congr (hkeys .lastUpdateId (by decide)) maxIdLen
  unfold judge
  rw [hversion, hrepo, hlast, hcfg, hhw]

/-- The order of `d` came in one of `events` on the topic for updates, the application allowed it,
and it is acceptable. -/
def Warranted (events : List Event) (d : Impl) : Prop :=
  ∃ i m, .pass i ∈ events ∧ m ∈ i.inbox ∧ m.topic = d.topics.update.text ∧ m.allowed = true ∧
    parseOrder v (.ofBytes m.payload) = (.ok, d.order) ∧ d.judge d.order = .none

/-- A warrant stays where nothing of it changes. -/
theorem Warranted.keep {events : List Event} {d d' : Impl} (h : Warranted v events d)
    (horder : d'.order = d.order) (htopics : d'.topics = d.topics) (hcfg : d'.cfg = d.cfg)
    (hhw : d'.hw = d.hw) {keys : List NvsKey} (hnvs : Touches keys d.nvs d'.nvs)
    (hkeys : ∀ key ∈ judgeKeys, key ∉ keys) : Warranted v events d' := by
  obtain ⟨i, m, hi, hm, htopic, hallowed, hparse, hjudge⟩ := h
  refine ⟨i, m, hi, hm, by rw [htopics]; exact htopic, hallowed, by rw [horder]; exact hparse, ?_⟩
  rw [judge_congr d'.order hcfg hhw fun key hkey => hnvs key (hkeys key hkey), horder]
  exact hjudge

/-- A device whose order is warranted if it is carried out. -/
def Lawful (events : List Event) (d : Impl) : Prop :=
  d.updating = true → Warranted v events d

/-- A step of the update. -/
theorem ota_lawful {events : List Event} {d d' : Impl} {i : Pass}
    (hmove : OtaMove v d i.now i.ota d') (h : Lawful v events d) : Lawful v events d' := by
  cases hmove with
  | idle => exact h
  | refused => exact fun hupdating => by cases hupdating
  | waits hstate _ hnvs =>
      intro _
      exact (h (by rw [updating, hstate])).keep v rfl rfl rfl rfl hnvs (by decide)
  | begun hready hbegun =>
      obtain ⟨_, _, _, _, _, _, _, rfl, -, -, -, hnvs, -⟩ := hbegun
      intro _
      refine (h ?_).keep v rfl rfl rfl rfl hnvs (by decide)
      rcases hready with ⟨hstate, -⟩ | ⟨hstate, -⟩ <;> rw [updating, hstate]
  | fed hstate =>
      intro _
      exact (h (by rw [updating, hstate])).keep v rfl rfl rfl rfl (.refl [] _) (by decide)
  | complete hstate _ hnvs =>
      intro _
      exact (h (by rw [updating, hstate])).keep v rfl rfl rfl rfl hnvs (by decide)
  | givenUp _ hgiven =>
      obtain ⟨_, _, _, _, _, _, _, _, _, _, rfl, -⟩ := hgiven
      exact fun hupdating => by cases hupdating
  | applied hstate happlied =>
      obtain ⟨nvs, _, rfl, -, hnvs, -, -⟩ := happlied
      intro _
      exact (h (by rw [updating, hstate])).keep v rfl rfl rfl rfl (saved_touches hnvs) (by decide)

/-- Not a factory reset. -/
def keepsStore : Event → Prop
  | .factoryReset _ => False
  | _ => True

/-- Every one of some events keeps it, but for a factory reset. -/
theorem lawful_kept (events : List Event) :
    Kept v (fun e => e ∈ events ∧ keepsStore e) (Lawful v events) where
  facing d flash h hupdating := (h hupdating).keep v rfl rfl rfl rfl (.refl [] _) (by decide)
  aside d d' haside h := by
    obtain ⟨_, _, _, _, _, _, _, _, _, _, _, rfl, -⟩ := haside
    exact fun hupdating => (h hupdating).keep v rfl rfl rfl rfl (.refl [] _) (by decide)
  boot d cfg o d' _ hmove _ := by
    cases hmove with
    | refused => exact fun hupdating => by cases hupdating
    | unopened => exact fun hupdating => by cases hupdating
    | booted _ _ hrestored => cases hrestored <;> exact fun hupdating => by cases hupdating
  confirm d i d' _ _ hstate hmove h := by
    have hrest : d.updating = false := by rw [updating, hstate]
    intro hupdating
    cases hmove with
    | waits => exact h hupdating
    | forgotten => cases hupdating
    | reverted => cases hrest.symm.trans hupdating
    | refused => cases hrest.symm.trans hupdating
    | committed => cases hupdating
  provision d i d' _ _ _ _ hmove h := by
    cases hmove with
    | waits => exact fun hupdating => (h hupdating).keep v rfl rfl rfl rfl (.refl [] _) (by decide)
    | denied => exact fun hupdating => by cases hupdating
    | granted => exact fun hupdating => by cases hupdating
  ingest d i m hok _ _ hm h := by
    rcases ingest_cases v d m with
      ⟨_, _, _, _, _, heq, hnvs, -⟩ | ⟨order, htopic, hallowed, hparse, hjudge, heq⟩ <;> rw [heq]
    · exact fun hupdating => (h hupdating).keep v rfl rfl rfl rfl hnvs (by decide)
    · exact fun _ => ⟨i, m, hok.1, hm, htopic, hallowed, hparse, hjudge⟩
  ota d i d' _ _ _ hmove h := ota_lawful v hmove h
  seed d nvs hnvs h hupdating := (h hupdating).keep v rfl rfl rfl rfl hnvs (by decide)
  reset d flash hok _ := absurd hok.2 id

/-- An order that a device carries out, from its acceptance to the restart, came in a message on its
update topic, was allowed by the application, and would be accepted again in every state on the
way, unless the store is reset to factory. -/
theorem update_is_warranted {nvs : Nvs} {events : List Event} {d : Impl}
    (hrun : Run (Step v) { nvs } events d) (hevents : ∀ e ∈ events, keepsStore e)
    (hupdating : d.updating = true) : Warranted v events d :=
  (lawful_kept v events).run hrun (fun e he => ⟨he, hevents e he⟩)
    (fun hupdating => by cases hupdating) hupdating

/-- The update of the sample device is warranted by its third event. -/
theorem update_is_warranted_sample :
    Warranted sampleVendor sampleStart (after sampleVendor {} sampleStart) :=
  update_is_warranted sampleVendor (run_after sampleVendor {} sampleStart)
    (by simp [sampleStart, keepsStore]) (by decide +kernel)

end FirmwareUpdater.Impl
