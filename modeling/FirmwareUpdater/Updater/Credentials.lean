import FirmwareUpdater.Updater.AntiRollback
import FirmwareUpdater.Updater.SessionOwnership

/-!
# All or nothing of a provisioning

`saveProvisioning` writes up to nine keys and then a flag, and any of the writes may fail or
be the last one before a power cut. `provisioned_whole` says that a device that takes itself
for provisioned has all five credentials, and all of one response.
-/

namespace FirmwareUpdater.DeviceStore

open Library

/-- A key is written once at most. -/
theorem grant_nodup (p : Provisioning) : ((grant p).map Prod.fst).Nodup := by
  have hoptional : ∀ {cap : Nat} (key : NvsKey) (field : Field cap),
      ((optional key field).map Prod.fst).Sublist [key] := by
    intro cap key field
    unfold optional
    split
    · exact List.nil_sublist _
    · exact List.Sublist.refl _
  have hsublist : ((grant p).map Prod.fst).Sublist grantKeys := by
    simp only [grant, List.map_append]
    exact (List.Sublist.refl _).append
      ((((hoptional _ _).append (hoptional _ _)).append (hoptional _ _)).append (hoptional _ _))
  exact hsublist.nodup (by decide)

/-- The five credentials of a response. -/
structure Holds (nvs : Nvs) (p : Provisioning) : Prop where
  deviceId : nvs.entries .deviceId = some (.string p.deviceId.text)
  mqttHost : nvs.entries .mqttHost = some (.string p.mqttHost.text)
  mqttPort : nvs.entries .mqttPort = some (.u16 p.mqttPort)
  mqttUser : nvs.entries .mqttUser = some (.string p.mqttUser.text)
  mqttPass : nvs.entries .mqttPass = some (.string p.mqttPass.text)

/-- The keys of the credentials. -/
def credentialKeys : List NvsKey := [.deviceId, .mqttHost, .mqttPort, .mqttUser, .mqttPass]

theorem Holds.congr {nvs nvs' : Nvs} {p : Provisioning} (h : Holds nvs p)
    (hkeys : ∀ key ∈ credentialKeys, nvs'.entries key = nvs.entries key) : Holds nvs' p where
  deviceId := (hkeys _ (by decide)).trans h.deviceId
  mqttHost := (hkeys _ (by decide)).trans h.mqttHost
  mqttPort := (hkeys _ (by decide)).trans h.mqttPort
  mqttUser := (hkeys _ (by decide)).trans h.mqttUser
  mqttPass := (hkeys _ (by decide)).trans h.mqttPass

/-- A response that names all of them. -/
structure Complete (p : Provisioning) : Prop where
  deviceId : p.deviceId.text.byteAt 0 ≠ 0
  mqttHost : p.mqttHost.text.byteAt 0 ≠ 0
  mqttUser : p.mqttUser.text.byteAt 0 ≠ 0
  mqttPass : p.mqttPass.text.byteAt 0 ≠ 0

/-- `saveProvisioning` stores all of a complete response, or leaves the flag down or as it was. -/
theorem saveProvisioning_cases (nvs : Nvs) (p : Provisioning) :
    (Complete p ∧ Holds (saveProvisioning nvs p).2 p) ∨
      (saveProvisioning nvs p).2.entries .provisioned = nvs.entries .provisioned ∨
      (saveProvisioning nvs p).2.entries .provisioned = some (.u8 0) := by
  unfold saveProvisioning
  split
  · exact .inr (.inl rfl)
  rename_i hempty
  rw [not_or, not_or, not_or] at hempty
  dsimp only
  split
  · right
    have hflag : (nvs.putAll (grant p)).2.entries .provisioned = nvs.entries .provisioned := by
      refine nvs.putAll_untouched (grant p) fun hmem => ?_
      obtain ⟨write, hwrite, hkey⟩ := List.mem_map.mp hmem
      have hgrant : write.1 ∈ grantKeys := mem_grant hwrite
      rw [hkey] at hgrant
      exact absurd hgrant (by decide)
    rw [← hflag]
    exact (FallibleStore.put_self _ NvsKey.provisioned (some (NvsValue.u8 0))).symm
  · rename_i hok
    have hok : (nvs.putAll (grant p)).1 = true := by simpa using hok
    have hwritten : ∀ {key value}, (key, value) ∈ grant p → key ∈ credentialKeys →
        ((((nvs.putAll (grant p)).2.put NvsKey.provisioned (some (.u8 1))).2.put
          NvsKey.bootstrapUrl none).2).entries key = value := by
      intro key value hmem hkey
      rw [FallibleStore.put_of_ne, FallibleStore.put_of_ne]
      · exact FallibleStore.putAll_ok (grant_nodup p) hok hmem
      · rintro rfl
        exact absurd hkey (by decide)
      · rintro rfl
        exact absurd hkey (by decide)
    refine .inl ⟨⟨hempty.1, hempty.2.1, hempty.2.2.1, hempty.2.2.2⟩, ?_⟩
    constructor
    · exact hwritten (by simp [grant]) (by decide)
    · exact hwritten (by simp [grant]) (by decide)
    · exact hwritten (by simp [grant]) (by decide)
    · exact hwritten (by simp [grant]) (by decide)
    · exact hwritten (by simp [grant]) (by decide)

/-- The flag goes up before the last commit: where only that fails, the response is refused, and
the store holds it under the flag. -/
theorem saveProvisioning_uncommitted {nvs : Nvs} {p : Provisioning} {erased : Bool}
    {rest : List Bool} (hcomplete : Complete p)
    (hanswers : nvs.answers =
      List.replicate (grant p).length true ++ true :: erased :: false :: rest) :
    (saveProvisioning nvs p).1 = false ∧ isProvisioned (saveProvisioning nvs p).2 = true := by
  obtain ⟨hok, hleft⟩ := FallibleStore.putAll_granted hanswers
  have hid : (nvs.putAll (grant p)).2.entries .deviceId = some (.string p.deviceId.text) :=
    FallibleStore.putAll_ok (grant_nodup p) hok (by simp [grant])
  obtain ⟨flagged, hflag, hentries, hnext⟩ : ∃ flagged : Nvs,
      Nvs.setU8 (nvs.putAll (grant p)).2 .provisioned 1 = (true, flagged) ∧
        flagged.entries = Function.update (nvs.putAll (grant p)).2.entries .provisioned
          (some (.u8 1)) ∧ flagged.answers = erased :: false :: rest := by
    refine ⟨⟨Function.update _ _ _, erased :: false :: rest⟩, ?_, rfl, rfl⟩
    simp [Nvs.setU8, FallibleStore.put, FallibleStore.ask, hleft]
  have hcommit : (flagged.erase .bootstrapUrl).2.commit.1 = false := by
    cases erased <;> simp [Nvs.erase, Nvs.commit, FallibleStore.put, FallibleStore.ask, hnext]
  have hkept : ∀ key ∈ [NvsKey.provisioned, .deviceId],
      (flagged.erase .bootstrapUrl).2.commit.2.entries key = flagged.entries key := by
    intro key hkey
    refine FallibleStore.put_of_ne flagged none ?_
    rintro rfl
    exact absurd hkey (by decide)
  have hread : deviceId flagged = some p.deviceId := by
    refine Nvs.getString_of p.deviceId ?_ hcomplete.deviceId
    rw [hentries, Function.update_of_ne (by decide)]
    exact hid
  unfold saveProvisioning
  rw [if_neg (by simp [hcomplete.deviceId, hcomplete.mqttHost, hcomplete.mqttUser,
    hcomplete.mqttPass])]
  simp only [hok, hflag, Bool.not_true, Bool.false_eq_true, if_false]
  refine ⟨by rw [hcommit, Bool.false_and], ?_⟩
  rw [isProvisioned_congr hkept]
  simp [isProvisioned, hread, Nvs.getU8, hentries]

end FirmwareUpdater.DeviceStore

namespace FirmwareUpdater.Impl

open Library

variable (v : Vendor)

/-- A response that one of `events` brought and that was read as `p`. -/
def Granted (events : List Event) (p : Provisioning) : Prop :=
  ∃ i, .pass i ∈ events ∧ i.provision.post.error = .ok ∧
    Provisioning.fromHttpStatus i.provision.post.status = .granted ∧
    Provisioning.parseResponse v.deserializeJson (some i.provision.post.body) .blank = (.ok, p)

/-- Where the flag is up, the credentials are those of one complete response. -/
def Whole (events : List Event) (nvs : Nvs) : Prop :=
  (∃ flag, nvs.getU8 .provisioned = some flag ∧ flag ≠ 0) →
    ∃ p, Granted v events p ∧ DeviceStore.Complete p ∧ DeviceStore.Holds nvs p

/-- The keys it depends on. -/
def wholeKeys : List NvsKey := .provisioned :: DeviceStore.credentialKeys

theorem Whole.congr {events : List Event} {nvs nvs' : Nvs} (h : Whole v events nvs)
    (hkeys : ∀ key ∈ wholeKeys, nvs'.entries key = nvs.entries key) : Whole v events nvs' := by
  intro hflag
  have hread : nvs'.getU8 .provisioned = nvs.getU8 .provisioned := by
    unfold Nvs.getU8
    rw [hkeys .provisioned (by decide)]
  rw [hread] at hflag
  obtain ⟨p, hgranted, hcomplete, hholds⟩ := h hflag
  refine ⟨p, hgranted, hcomplete, hholds.congr fun key hkey => ?_⟩
  exact hkeys key (List.mem_cons_of_mem _ hkey)

/-- A device that holds the credentials under the flag is provisioned. -/
theorem isProvisioned_of_holds {nvs : Nvs} {p : Provisioning} {flag : UInt8}
    (hflag : nvs.getU8 .provisioned = some flag) (hup : flag ≠ 0)
    (hcomplete : DeviceStore.Complete p) (hholds : DeviceStore.Holds nvs p) :
    DeviceStore.isProvisioned nvs = true := by
  have hid : DeviceStore.deviceId nvs = some p.deviceId :=
    Nvs.getString_of p.deviceId hholds.deviceId hcomplete.deviceId
  simp [DeviceStore.isProvisioned, hflag, hup, hid]

/-- What a step of the provisioning leaves is whole, whichever write failed. -/
theorem provision_whole {events : List Event} {d d' : Impl} {i : Pass}
    (hi : .pass i ∈ events) (hdown : DeviceStore.isProvisioned d.nvs = false)
    (hmove : ProvisionMove v d i.now i.provision d') (h : Whole v events d.nvs) :
    Whole v events d'.nvs := by
  have hflag : ∀ flag, d.nvs.getU8 .provisioned = some flag → flag = 0 := by
    intro flag hread
    by_contra hup
    obtain ⟨p, -, hcomplete, hholds⟩ := h ⟨flag, hread, hup⟩
    exact absurd (hdown.symm.trans (isProvisioned_of_holds hread hup hcomplete hholds)) (by decide)
  have hsaved : ∀ {p ok nvs}, Granted v events p →
      DeviceStore.saveProvisioning d.nvs p = (ok, nvs) → Whole v events nvs := by
    intro p ok nvs hgranted hsave
    have hcases := DeviceStore.saveProvisioning_cases d.nvs p
    rw [hsave] at hcases
    intro ⟨flag, hread, hup⟩
    rcases hcases with ⟨hcomplete, hholds⟩ | hkept | hcleared
    · exact ⟨p, hgranted, hcomplete, hholds⟩
    · refine absurd (hflag flag ?_) hup
      unfold Nvs.getU8 at hread ⊢
      rwa [← hkept]
    · unfold Nvs.getU8 at hread
      rw [hcleared] at hread
      cases hread
      exact absurd rfl hup
  cases hmove with
  | waits => exact h
  | denied _ hnvs =>
      rcases hnvs with rfl | ⟨p, hpost, hparse, hsave⟩
      · exact h
      · exact hsaved ⟨i, hi, hpost.1, hpost.2, hparse⟩ hsave
  | granted _ hpost hparse hsave => exact hsaved ⟨i, hi, hpost.1, hpost.2, hparse⟩ hsave

/-- Every one of some events keeps the credentials whole. -/
theorem whole_kept (events : List Event) :
    Kept v (fun e => e ∈ events) fun d => Whole v events d.nvs where
  facing d flash h := h.congr v fun key _ => rfl
  aside d d' haside h := by
    obtain ⟨_, _, _, _, _, _, _, _, _, _, _, rfl, -⟩ := haside
    exact h
  boot d cfg o d' _ hmove h := by
    obtain ⟨found, hfound, htouches, -⟩ := boot_store hmove
    have hkeys : ∀ key ∈ wholeKeys, d'.nvs.entries key = found.entries key := by
      intro key hkey
      refine htouches key fun hmem => ?_
      revert key
      decide
    rcases hfound with hsame | ⟨-, herased⟩
    · exact h.congr v fun key hkey => by rw [hkeys key hkey, hsame]
    · intro ⟨flag, hread, _⟩
      unfold Nvs.getU8 at hread
      rw [hkeys .provisioned (by decide), herased] at hread
      cases hread
  confirm d i d' _ _ _ hmove h := by
    refine h.congr v fun key hkey => confirm_touches hmove key fun hmem => ?_
    revert key
    decide
  provision d i d' hi _ _ hdown hmove h := provision_whole v hi hdown hmove h
  ingest d i m _ _ _ _ h := by
    rcases ingest_cases v d m with
      ⟨_, _, _, _, _, heq, hnvs, -⟩ | ⟨_, -, -, -, -, heq⟩ <;> rw [heq]
    · refine h.congr v fun key hkey => hnvs key fun hmem => ?_
      revert key
      decide
    · exact h
  ota d i d' _ _ _ hmove h := by
    refine h.congr v fun key hkey => ota_touches hmove key fun hmem => ?_
    revert key
    decide
  seed d nvs hnvs h := by
    refine h.congr v fun key hkey => hnvs key fun hmem => ?_
    revert key
    decide
  reset d flash _ h := by
    rcases DeviceStore.factoryReset_cases d.nvs with hsame | herased
    · exact h.congr v fun key _ => congrFun hsame key
    · intro ⟨flag, hread, _⟩
      unfold Nvs.getU8 at hread
      rw [herased] at hread
      cases hread

/-- A device that takes itself for provisioned holds all five credentials, and they are those of one
response the server granted, whichever writes failed and wherever the power went since the store
was blank. -/
theorem provisioned_whole {events : List Event} {d : Impl} (hrun : Run (Step v) {} events d)
    (hprovisioned : DeviceStore.isProvisioned d.nvs = true) :
    ∃ p, Granted v events p ∧ DeviceStore.deviceId d.nvs = some p.deviceId ∧
      DeviceStore.mqttHost d.nvs 64 = some p.mqttHost ∧
      DeviceStore.mqttPort d.nvs = some p.mqttPort ∧
      DeviceStore.mqttUser d.nvs 48 = some p.mqttUser ∧
      DeviceStore.mqttPass d.nvs 64 = some p.mqttPass := by
  have hblank : Whole v events ({} : Impl).nvs := by
    intro ⟨flag, hread, _⟩
    cases hread
  have hwhole := (whole_kept v events).run hrun (fun e he => he) hblank
  rw [DeviceStore.isProvisioned, Bool.and_eq_true, Option.any_eq_true] at hprovisioned
  obtain ⟨flag, hread, hup⟩ := hprovisioned.1
  obtain ⟨p, hgranted, hcomplete, hholds⟩ := hwhole ⟨flag, hread, by simpa using hup⟩
  refine ⟨p, hgranted, Nvs.getString_of _ hholds.deviceId hcomplete.deviceId,
    Nvs.getString_of _ hholds.mqttHost hcomplete.mqttHost, ?_,
    Nvs.getString_of _ hholds.mqttUser hcomplete.mqttUser,
    Nvs.getString_of _ hholds.mqttPass hcomplete.mqttPass⟩
  unfold DeviceStore.mqttPort Nvs.getU16
  rw [hholds.mqttPort]

/-- The sample device holds what it was granted. -/
theorem provisioned_whole_sample :
    ∃ p, Granted sampleVendor sampleStart p ∧
      DeviceStore.mqttPort (after sampleVendor {} sampleStart).nvs = some p.mqttPort := by
  obtain ⟨p, hgranted, -, -, hport, -⟩ := provisioned_whole sampleVendor
    (run_after sampleVendor {} sampleStart) (by decide +kernel)
  exact ⟨p, hgranted, hport⟩

/-! ## For good -/

/-- The keys that nothing but a provisioning writes. The address of the API is not among them. -/
def lastingKeys : List NvsKey :=
  [.provisioned, .deviceId, .mqttHost, .mqttPort, .mqttUser, .mqttPass, .topicPing, .topicUpdate,
    .topicConfig]

/-- What was granted is what `nvs` holds of it. -/
def Lasting (nvs : Nvs) (d : Impl) : Prop :=
  ∀ key ∈ lastingKeys, d.nvs.entries key = nvs.entries key

theorem Lasting.keep {nvs : Nvs} {d d' : Impl} (h : Lasting nvs d) {keys : List NvsKey}
    (hnvs : Touches keys d.nvs d'.nvs) (hkeys : ∀ key ∈ lastingKeys, key ∉ keys) :
    Lasting nvs d' :=
  fun key hkey => (hnvs key (hkeys key hkey)).trans (h key hkey)

theorem Lasting.isProvisioned {nvs : Nvs} {d : Impl} (h : Lasting nvs d) :
    DeviceStore.isProvisioned d.nvs = DeviceStore.isProvisioned nvs := by
  refine DeviceStore.isProvisioned_congr fun key hkey => h key ?_
  revert key
  decide

/-- A device that is provisioned does not ask again. -/
theorem lasting_kept {nvs : Nvs} (hprovisioned : DeviceStore.isProvisioned nvs = true) :
    Kept v keepsRecord (Lasting nvs) where
  facing d flash h := h
  aside d d' haside h := by
    obtain ⟨_, _, _, _, _, _, _, _, _, _, _, rfl, -⟩ := haside
    exact h
  boot d cfg o d' hok hmove h := by
    obtain ⟨found, hfound | ⟨hwants, -⟩, htouches, -⟩ := boot_store hmove
    · intro key hkey
      rw [← h key hkey, ← hfound]
      refine htouches key fun hmem => ?_
      revert key
      decide
    · exact absurd (hok.symm.trans hwants) (by decide)
  confirm d i d' _ _ _ hmove h := h.keep (confirm_touches hmove) (by decide)
  provision d i d' _ _ _ hdown _ h := by
    rw [h.isProvisioned, hprovisioned] at hdown
    cases hdown
  ingest d i m _ _ _ _ h := by
    rcases ingest_cases v d m with
      ⟨_, _, _, _, _, heq, hnvs, -⟩ | ⟨_, -, -, -, -, heq⟩ <;> rw [heq]
    · exact h.keep hnvs (by decide)
    · exact h
  ota d i d' _ _ _ hmove h := h.keep (ota_touches hmove) (by decide)
  seed d nvs hnvs h := h.keep hnvs (by decide)
  reset d flash hok _ := absurd hok id

/-- Credentials and topics that a device was granted stay what they are over every run, with its
updates, configurations and restarts, until something erases the store. -/
theorem provisioned_for_good {d d' : Impl} {events : List Event} (hrun : Run (Step v) d events d')
    (hkeeps : ∀ e ∈ events, keepsRecord e)
    (hprovisioned : DeviceStore.isProvisioned d.nvs = true) :
    DeviceStore.isProvisioned d'.nvs = true ∧
      ∀ key ∈ lastingKeys, d'.nvs.entries key = d.nvs.entries key := by
  have hend := (lasting_kept v hprovisioned).run hrun hkeeps fun _ _ => rfl
  exact ⟨hend.isProvisioned.trans hprovisioned, hend⟩

/-- The sample device through its update. -/
theorem provisioned_for_good_sample :
    DeviceStore.isProvisioned (after sampleVendor sampleReady
      ([.pass (samplePass [sampleOrdered, sampleConfigured] [])] ++ sampleUpdate ++
        [sampleTrial])).nvs = true :=
  (provisioned_for_good sampleVendor (run_after sampleVendor sampleReady _)
    (by simp [sampleUpdate, sampleTrial, keepsRecord]) (by decide +kernel)).1

/-! ## A grant that is stored and not taken -/

/-- No restart, and nothing erases the store. -/
def still : Event → Prop
  | .boot _ _ | .factoryReset _ => False
  | _ => True

/-- The device takes itself for provisioned and has no topics. -/
structure Stranded (d : Impl) : Prop where
  provisioned : DeviceStore.isProvisioned d.nvs = true
  unready : d.topics.ready = false
  state : d.state ≠ .confirming
  closed : ∀ effect ∈ d.emitted, effect.kind ≠ .opening
  silent : ∀ effect ∈ d.emitted, effect.kind ≠ .request

/-- It stays so where nothing touches its credentials and its topics. -/
theorem Stranded.keep {d d' : Impl} (h : Stranded d) {keys : List NvsKey} {es : List Effect}
    {kinds : List Effect.Kind} (hnvs : Touches keys d.nvs d'.nvs)
    (hkeys : ∀ key ∈ [NvsKey.provisioned, .deviceId], key ∉ keys)
    (htopics : d'.topics = d.topics) (hstate : d'.state ≠ .confirming)
    (hemitted : d'.emitted = d.emitted ++ es) (hes : Only kinds es)
    (hkinds : .opening ∉ kinds ∧ .request ∉ kinds) : Stranded d' where
  provisioned := (isProvisioned_congr hnvs hkeys).trans h.provisioned
  unready := htopics ▸ h.unready
  state := hstate
  closed := hemitted ▸ avoids_append h.closed hes hkinds.1
  silent := hemitted ▸ avoids_append h.silent hes hkinds.2

/-- Nothing gives it any. -/
theorem stranded_kept : Stepwise v still Stranded where
  facing d flash h :=
    ⟨h.provisioned, h.unready, h.state, fun _ hmem => absurd hmem List.not_mem_nil,
      fun _ hmem => absurd hmem List.not_mem_nil⟩
  boot d cfg o hok := absurd hok id
  prepare d i _ _ h := by
    obtain ⟨_, _, _, _, _, es, heq, -, hes⟩ := prepare_eq d i
    rw [heq]
    exact h.keep (.refl [] _) (by simp) rfl h.state rfl hes (by decide)
  confirm d i _ _ hstate h := absurd hstate h.state
  provision d i _ _ _ hdown h := absurd (hdown.symm.trans h.provisioned) (by decide)
  mqtt d i _ _ _ h := by
    unfold mqttStep
    rw [if_pos (by simp [h.unready])]
    exact h
  ingest d i m _ _ _ _ h := by
    have hstate := ingest_state v h.state m
    rcases ingest_cases v d m with
      ⟨_, _, _, _, es, heq, hnvs, hes⟩ | ⟨_, -, -, -, -, heq⟩ <;> rw [heq] at hstate ⊢
    · exact h.keep hnvs (by decide) rfl hstate rfl hes (by decide)
    · exact ⟨h.provisioned, h.unready, hstate, h.closed, h.silent⟩
  ota d i _ _ _ h := by
    have hmove := otaStep_move v d i.now i.ota
    obtain ⟨es, heq, hes⟩ := ota_emits hmove
    exact h.keep (ota_touches hmove) (by decide) (ota_rest hmove).2 (ota_state hmove h.state) heq
      hes (by decide)
  ping d i _ h := by
    obtain ⟨_, es, heq, hes⟩ := pingStep_eq v d i.now i.ping
    rw [heq]
    exact h.keep (.refl [] _) (by simp) rfl h.state rfl hes (by decide)
  subscribe d topic qos connected accepts h := by
    obtain ⟨_, es, heq, hes⟩ := subscribe_eq d topic qos connected accepts
    rw [heq]
    exact h.keep (.refl [] _) (by simp) rfl h.state rfl hes (by decide)
  unsubscribe d topic h := ⟨h.provisioned, h.unready, h.state, h.closed, h.silent⟩
  publish d topic payload qos retain connected accepts h := by
    obtain ⟨_, es, heq, hes⟩ := publish_eq d topic payload qos retain connected accepts
    rw [heq]
    exact h.keep (.refl [] _) (by simp) rfl h.state rfl hes (by decide)
  seed d nvs hnvs h :=
    ⟨(isProvisioned_congr hnvs (by decide)).trans h.provisioned, h.unready, h.state, h.closed,
      h.silent⟩
  reset d flash hok _ := absurd hok id

/-- A pass that is granted all of `p`, on a flash that takes every write of it and fails the last
commit; `erased` is what it answers to the erasure of the bootstrap address. -/
structure Uncommitted (d : Impl) (i : Pass) (p : Provisioning) : Prop where
  asks : ∃ url body, .posted url body ∈ (exec v d (.pass i)).emitted
  unprovisioned : DeviceStore.isProvisioned d.nvs = false
  state : d.state ≠ .confirming
  answered : i.provision.post.error = .ok
  grants : Provisioning.fromHttpStatus i.provision.post.status = .granted
  parses :
    Provisioning.parseResponse v.deserializeJson (some i.provision.post.body) .blank = (.ok, p)
  complete : DeviceStore.Complete p
  flash : ∃ erased,
    List.replicate (DeviceStore.grant p).length true ++ [true, erased, false] <+: i.flash

/-- It leaves the device stranded, had it no topics before. -/
theorem Uncommitted.stranded {v : Vendor} {d : Impl} {i : Pass} {p : Provisioning}
    (h : Uncommitted v d i p) (hunready : d.topics.ready = false) :
    Stranded { exec v d (.pass i) with emitted := [] } := by
  obtain ⟨url, body, hasked⟩ := h.asks
  obtain ⟨_, _, _, _, _, es, heq, -, hes⟩ := prepare_eq (d.facing i.flash) i
  rcases exec_pass_cases v d i with ⟨_, hnothing⟩ | ⟨htrial, -⟩ | ⟨-, -, hstep⟩ | hoperating
  · rw [hnothing] at hasked
    exact absurd hasked List.not_mem_nil
  · exact absurd htrial h.state
  swap
  · exact absurd (h.unprovisioned.symm.trans hoperating.provisioned) (by decide)
  rw [hstep, heq] at hasked
  rw [hstep, heq]
  rcases provisionStep_cases v _ i.now i.provision with ⟨_, hwaits⟩ | ⟨-, _, _, hanswered⟩
  · rw [hwaits] at hasked
    exact absurd (hes _ hasked) (by simp [Effect.kind])
  obtain ⟨erased, rest, hflash⟩ := h.flash
  obtain ⟨hrefused, hstored⟩ := @DeviceStore.saveProvisioning_uncommitted
    { d.nvs with answers := i.flash } p erased rest h.complete (by simp [← hflash])
  have hsave : DeviceStore.saveProvisioning { d.nvs with answers := i.flash } p =
      (false, (DeviceStore.saveProvisioning { d.nvs with answers := i.flash } p).2) :=
    Prod.ext hrefused rfl
  rw [hanswered, provisionAnswered_unsaved v h.answered h.grants h.parses hsave]
  exact ⟨hstored, hunready, by simp [emit], by simp, by simp⟩

/-- A complete grant whose last commit fails is in the store with its flag up, and the device does
not take it. One that had no topics never asks again and never gets any, so that it opens no
session until it is restarted. -/
theorem stranded_until_restart {d d' : Impl} {i : Pass} {p : Provisioning} {events : List Event}
    (hunready : d.topics.ready = false) (hgrant : Uncommitted v d i p)
    (hrun : Run (Step v) (exec v d (.pass i)) events d') (hstill : ∀ e ∈ events, still e) :
    DeviceStore.isProvisioned d'.nvs = true ∧ d'.topics.ready = false ∧
      (events ≠ [] → ∀ effect ∈ d'.emitted,
        (∀ transport session, effect ≠ .sessionBegun transport session) ∧
          ∀ url body, effect ≠ .posted url body) := by
  have hstart := hgrant.stranded hunready
  cases hrun with
  | nil => exact ⟨hstart.provisioned, hstart.unready, fun hne => absurd rfl hne⟩
  | cons hstep hrest =>
      -- What was done in the pass of the grant is forgotten at the next event.
      have hrun' : Run (Step v) { exec v d (.pass i) with emitted := [] } _ d' :=
        .cons (hstep.trans (exec_forgets v _ _).symm) hrest
      have hend := (stranded_kept v).run hrun' hstill hstart
      refine ⟨hend.provisioned, hend.unready, fun _ effect hmem => ⟨?_, ?_⟩⟩
      · rintro _ _ rfl
        exact hend.closed _ hmem rfl
      · rintro _ _ rfl
        exact hend.silent _ hmem rfl

/-- The pass that gets the sample its credentials, on a flash that fails behind the flag. -/
def sampleUncommitted : Pass :=
  { sampleProvisioning with flash := List.replicate 7 true ++ [true, false] }

/-- What it is granted. -/
def sampleGranted : Provisioning :=
  (Provisioning.parseResponse sampleVendor.deserializeJson
    (some sampleUncommitted.provision.post.body) .blank).2

/-- It is still without topics after another answer of the server. -/
theorem stranded_until_restart_sample :
    (after sampleVendor (exec sampleVendor (after sampleVendor {} [.boot sampleConfig {}])
      (.pass sampleUncommitted)) [.pass sampleProvisioning]).topics.ready = false :=
  (stranded_until_restart sampleVendor (by decide +kernel)
    (p := sampleGranted)
    ⟨⟨_, _, List.mem_singleton_self _⟩, by decide +kernel, by decide +kernel, rfl, rfl, rfl,
      ⟨by decide +kernel, by decide +kernel, by decide +kernel, by decide +kernel⟩,
      ⟨true, [], by decide +kernel⟩⟩
    (run_after sampleVendor _ _) (by simp [still])).2.1

end FirmwareUpdater.Impl
