import FirmwareUpdater.Core.Types
import FirmwareUpdater.Library.FallibleStore

/-!
# What a device remembers

`DeviceStore` over `INvs`, with `Esp32Nvs` as the store. A write reaches the flash
when it is made, so `commit` only answers, and a getter's buffer is empty wherever it
returns false. The calls of a device store are made on a store that was opened.
-/

namespace FirmwareUpdater

open Library

/-- The keys of the namespace "updater". -/
inductive NvsKey where
  | deviceId
  | mqttUser
  | mqttPass
  | mqttHost
  | mqttPort
  | apiBaseUrl
  | fwVersion
  | fwRepo
  | configVersion
  | provisioned
  | bootstrapUrl
  | topicPing
  | topicUpdate
  | topicConfig
  | pendUpdateId
  | pendVersion
  | pendRepo
  | pendPrevVer
  | pendStartedAt
  | pendDeadline
  | lastUpdateId
  | otaState
  | abortReason
  | clockBasis
  | guardBypassed
  deriving DecidableEq, Repr

/-- A value of the store, of the type it was written with. -/
inductive NvsValue where
  | string (text : CString)
  | u8 (value : UInt8)
  | u16 (value : UInt16)
  | u32 (value : UInt32)
  deriving DecidableEq

/-- `Esp32Nvs`, opened. -/
abbrev Nvs := FallibleStore NvsKey NvsValue

/-- What the `nvs_flash` calls of `Esp32Nvs::begin` answer. -/
structure NvsOpening where
  /-- `nvs_flash_init` asks for an erased partition: it has no free page, or is of another
  version. -/
  wantsErase : Bool := false
  erases : Bool := true
  inits : Bool := true
  opens : Bool := true

namespace Nvs

/-- `Esp32Nvs::begin`, after a restart: the recovery from a partition that cannot be used erases
all of it. -/
def begin (nvs : Nvs) (o : NvsOpening) : Bool × Nvs :=
  if o.wantsErase then
    if !o.erases then (false, nvs)
    else (o.inits && o.opens, { nvs with entries := fun _ => none })
  else (o.inits && o.opens, nvs)

/-- `getString`: nothing where the buffer is too small, and nothing where the string is empty. -/
def getString (nvs : Nvs) (key : NvsKey) (cap : Nat) : Option (Field cap) :=
  match nvs.entries key with
  | some (.string text) => if h : text.length < cap then
      if text.byteAt 0 = 0 then none else some ⟨text, h⟩
    else none
  | _ => none

/-- `getU32`. -/
def getU32 (nvs : Nvs) (key : NvsKey) : Option UInt32 :=
  match nvs.entries key with
  | some (.u32 value) => some value
  | _ => none

/-- `getU16`. -/
def getU16 (nvs : Nvs) (key : NvsKey) : Option UInt16 :=
  match nvs.entries key with
  | some (.u16 value) => some value
  | _ => none

/-- `getU8`. -/
def getU8 (nvs : Nvs) (key : NvsKey) : Option UInt8 :=
  match nvs.entries key with
  | some (.u8 value) => some value
  | _ => none

/-- `setString`. -/
def setString (nvs : Nvs) (key : NvsKey) (text : CString) : Bool × Nvs :=
  nvs.put key (some (.string text))

/-- `setU32`. -/
def setU32 (nvs : Nvs) (key : NvsKey) (value : UInt32) : Bool × Nvs :=
  nvs.put key (some (.u32 value))

/-- `setU8`. -/
def setU8 (nvs : Nvs) (key : NvsKey) (value : UInt8) : Bool × Nvs := nvs.put key (some (.u8 value))

/-- `erase`; a key that is not there is erased already. -/
def erase (nvs : Nvs) (key : NvsKey) : Bool × Nvs := nvs.put key none

/-- `commit`. -/
def commit (nvs : Nvs) : Bool × Nvs := nvs.ask

/-- A read depends on its key only. -/
theorem getString_congr {nvs nvs' : Nvs} {key : NvsKey} (h : nvs'.entries key = nvs.entries key)
    (cap : Nat) : nvs'.getString key cap = nvs.getString key cap := by
  unfold getString
  rw [h]

@[inherit_doc getString_congr]
theorem getU32_congr {nvs nvs' : Nvs} {key : NvsKey} (h : nvs'.entries key = nvs.entries key) :
    nvs'.getU32 key = nvs.getU32 key := by
  unfold getU32
  rw [h]

/-- A string that is read is there, and is not empty. -/
theorem getString_some {nvs : Nvs} {key : NvsKey} {cap : Nat} {field : Field cap}
    (h : nvs.getString key cap = some field) :
    nvs.entries key = some (.string field.text) ∧ field.text.byteAt 0 ≠ 0 := by
  unfold getString at h
  split at h
  · rename_i text hentry
    split at h
    · split at h
      · cases h
      · rename_i hstarts
        cases h
        exact ⟨hentry, hstarts⟩
    · cases h
  · cases h

/-- What is there and fits is read. -/
theorem getString_of {nvs : Nvs} {key : NvsKey} {cap : Nat} (field : Field cap)
    (hentry : nvs.entries key = some (.string field.text)) (hstarts : field.text.byteAt 0 ≠ 0) :
    nvs.getString key cap = some field := by
  unfold getString
  rw [hentry]
  simp [field.fits, hstarts]

/-- What is there and fits is read, or is empty. -/
theorem getString_getD {nvs : Nvs} {key : NvsKey} {cap : Nat} (field : Field cap) (hcap : 0 < cap)
    (hentry : nvs.entries key = some (.string field.text)) :
    (nvs.getString key cap).getD ⟨.empty, hcap⟩ = field := by
  by_cases hstarts : field.text.byteAt 0 = 0
  · have hempty : field.text = .empty := by
      rw [CString.byteAt_zero_eq_zero, CString.length, List.length_eq_zero_iff] at hstarts
      exact CString.eq_iff.mpr hstarts
    obtain ⟨text, hfits⟩ := field
    subst hempty
    unfold getString
    rw [hentry]
    simp [hstarts]
  · rw [getString_of field hentry hstarts, Option.getD_some]

end Nvs

/-- `DeviceStore::Pending`. -/
structure Pending where
  updateId : Field maxIdLen := ⟨.empty, maxIdLen_pos⟩
  version : Field maxVersionLen := ⟨.empty, maxVersionLen_pos⟩
  repo : Field maxRepoLen := ⟨.empty, maxRepoLen_pos⟩
  previous : Field maxVersionLen := ⟨.empty, maxVersionLen_pos⟩
  startedAtS : UInt32 := 0
  deadlineS : UInt32 := 0
  deriving DecidableEq

namespace DeviceStore

/-! ## Identity -/

/-- `deviceId`. -/
def deviceId (nvs : Nvs) : Option (Field maxIdLen) := nvs.getString .deviceId maxIdLen

/-- `isProvisioned`: the flag alone is not enough. -/
def isProvisioned (nvs : Nvs) : Bool :=
  (nvs.getU8 .provisioned).any (· ≠ 0) && (deviceId nvs).isSome

/-- A string that `saveProvisioning` writes only where the response gave it. -/
def optional {cap : Nat} (key : NvsKey) (field : Field cap) : List (NvsKey × Option NvsValue) :=
  if field.text.byteAt 0 = 0 then [] else [(key, some (.string field.text))]

/-- The writes of `saveProvisioning` before the flag, in their order. -/
def grant (p : Provisioning) : List (NvsKey × Option NvsValue) :=
  [(.deviceId, some (.string p.deviceId.text)),
    (.mqttHost, some (.string p.mqttHost.text)),
    (.mqttPort, some (.u16 p.mqttPort)),
    (.mqttUser, some (.string p.mqttUser.text)),
    (.mqttPass, some (.string p.mqttPass.text))] ++
  (optional .apiBaseUrl p.apiBaseUrl ++ optional .topicPing p.topicPing ++
    optional .topicUpdate p.topicUpdate ++ optional .topicConfig p.topicConfig)

/-- `saveProvisioning`. The result of erasing the bootstrap URL is not looked at. -/
def saveProvisioning (nvs : Nvs) (p : Provisioning) : Bool × Nvs :=
  if p.deviceId.text.byteAt 0 = 0 ∨ p.mqttHost.text.byteAt 0 = 0 ∨ p.mqttUser.text.byteAt 0 = 0 ∨
      p.mqttPass.text.byteAt 0 = 0 then (false, nvs)
  else
    let (ok, nvs) := nvs.putAll (grant p)
    if !ok then (false, (Nvs.setU8 nvs .provisioned 0).2.commit.2)
    else
      let (ok, nvs) := Nvs.setU8 nvs .provisioned 1
      let (committed, nvs) := (nvs.erase .bootstrapUrl).2.commit
      (committed && ok, nvs)

/-! ## Bootstrap -/

/-- `bootstrapUrl`: what was seeded, or the default that was compiled in. -/
def bootstrapUrl (nvs : Nvs) (cap : Nat) (fallback : Option CString) : Option (Field cap) :=
  match nvs.getString .bootstrapUrl cap with
  | some url => some url
  | none =>
      match fallback with
      | none => none
      | some url => if h : url.length < cap then some ⟨url, h⟩ else none

/-- `seedBootstrapUrl`. -/
def seedBootstrapUrl (nvs : Nvs) (url : Option CString) : Bool × Nvs :=
  match url with
  | none => (false, nvs)
  | some url =>
      if url.byteAt 0 = 0 then (false, nvs)
      else
        let (ok, nvs) := nvs.setString .bootstrapUrl url
        -- The second call is made only where the first one succeeds.
        if !ok then (false, nvs) else nvs.commit

/-! ## Broker -/

/-- `mqttHost`, into a buffer of the caller's. -/
def mqttHost (nvs : Nvs) (cap : Nat) : Option (Field cap) := nvs.getString .mqttHost cap

/-- `mqttPort`. -/
def mqttPort (nvs : Nvs) : Option UInt16 := nvs.getU16 .mqttPort

@[inherit_doc mqttHost]
def mqttUser (nvs : Nvs) (cap : Nat) : Option (Field cap) := nvs.getString .mqttUser cap

@[inherit_doc mqttHost]
def mqttPass (nvs : Nvs) (cap : Nat) : Option (Field cap) := nvs.getString .mqttPass cap

/-- `setApiBaseUrl`: nothing is committed. -/
def setApiBaseUrl (nvs : Nvs) (url : CString) : Bool × Nvs :=
  if url.byteAt 0 = 0 then (false, nvs) else nvs.setString .apiBaseUrl url

@[inherit_doc mqttHost]
def apiBaseUrl (nvs : Nvs) (cap : Nat) : Option (Field cap) := nvs.getString .apiBaseUrl cap

/-- `topics`: all three, or none. -/
def topics (nvs : Nvs) : Option (Field maxTopicLen × Field maxTopicLen × Field maxTopicLen) :=
  match nvs.getString .topicPing maxTopicLen, nvs.getString .topicUpdate maxTopicLen,
      nvs.getString .topicConfig maxTopicLen with
  | some ping, some update, some config => some (ping, update, config)
  | _, _, _ => none

/-! ## Version -/

/-- `firmwareVersion`. -/
def firmwareVersion (nvs : Nvs) : Option (Field maxVersionLen) :=
  nvs.getString .fwVersion maxVersionLen

/-- `firmwareRepo`. -/
def firmwareRepo (nvs : Nvs) : Option (Field maxRepoLen) := nvs.getString .fwRepo maxRepoLen

/-- `commitFirmware`. -/
def commitFirmware (nvs : Nvs) (version repo : CString) : Bool × Nvs :=
  if version.byteAt 0 = 0 then (false, nvs)
  else
    let (ok, nvs) := nvs.putAll ((.fwVersion, some (.string version)) ::
      if repo.byteAt 0 = 0 then [] else [(.fwRepo, some (.string repo))])
    let (committed, nvs) := Nvs.commit nvs
    (committed && ok, nvs)

/-- `configVersion`. -/
def configVersion (nvs : Nvs) : UInt32 := (nvs.getU32 .configVersion).getD 0

/-- `applyConfigVersion`: only a strictly newer one. -/
def applyConfigVersion (nvs : Nvs) (version : UInt32) : Bool × Nvs :=
  if version ≤ configVersion nvs then (false, nvs)
  else
    let (ok, nvs) := nvs.setU32 .configVersion version
    if !ok then (false, nvs) else nvs.commit

/-! ## Pending update -/

/-- `hasPending`. -/
def hasPending (nvs : Nvs) : Bool := (nvs.getString .pendUpdateId maxIdLen).isSome

/-- `loadPending`: whatever is missing besides the id reads as empty. -/
def loadPending (nvs : Nvs) : Option Pending :=
  (nvs.getString .pendUpdateId maxIdLen).map fun updateId =>
    { updateId
      version := (nvs.getString .pendVersion maxVersionLen).getD ⟨.empty, maxVersionLen_pos⟩
      repo := (nvs.getString .pendRepo maxRepoLen).getD ⟨.empty, maxRepoLen_pos⟩
      previous := (nvs.getString .pendPrevVer maxVersionLen).getD ⟨.empty, maxVersionLen_pos⟩
      startedAtS := (nvs.getU32 .pendStartedAt).getD 0
      deadlineS := (nvs.getU32 .pendDeadline).getD 0 }

/-- The writes of `savePending`. -/
def pendingWrites (p : Pending) : List (NvsKey × Option NvsValue) :=
  [(.pendUpdateId, some (.string p.updateId.text)),
    (.pendVersion, some (.string p.version.text)),
    (.pendRepo, some (.string p.repo.text)),
    (.pendPrevVer, some (.string p.previous.text)),
    (.pendStartedAt, some (.u32 p.startedAtS)),
    (.pendDeadline, some (.u32 p.deadlineS))]

/-- `savePending`. -/
def savePending (nvs : Nvs) (p : Pending) : Bool × Nvs :=
  if p.updateId.text.byteAt 0 = 0 then (false, nvs)
  else
    let (ok, nvs) := nvs.putAll (pendingWrites p)
    let (committed, nvs) := Nvs.commit nvs
    (committed && ok, nvs)

/-- `clearPending`: the results of the single erasures are not looked at. -/
def clearPending (nvs : Nvs) : Bool × Nvs :=
  Nvs.commit (nvs.putAll [(.pendUpdateId, none), (.pendVersion, none), (.pendRepo, none),
    (.pendPrevVer, none), (.pendStartedAt, none), (.pendDeadline, none)]).2

/-- `lastUpdateId`. -/
def lastUpdateId (nvs : Nvs) : Option (Field maxIdLen) := nvs.getString .lastUpdateId maxIdLen

/-- `setLastUpdateId`. -/
def setLastUpdateId (nvs : Nvs) (updateId : CString) : Bool × Nvs :=
  if updateId.byteAt 0 = 0 then (false, nvs)
  else
    let (ok, nvs) := nvs.setString .lastUpdateId updateId
    if !ok then (false, nvs) else nvs.commit

/-! ## State -/

/-- `otaState`. -/
def otaState (nvs : Nvs) : OtaState := ((nvs.getU8 .otaState).map .ofCode).getD .idle

/-- `abortReason`. -/
def abortReason (nvs : Nvs) : AbortReason := ((nvs.getU8 .abortReason).map .ofCode).getD .none

/-- `setOtaState`. -/
def setOtaState (nvs : Nvs) (state : OtaState) (reason : AbortReason) : Bool × Nvs :=
  let (ok, nvs) := nvs.putAll
    [(.otaState, some (.u8 state.code)), (.abortReason, some (.u8 reason.code))]
  let (committed, nvs) := Nvs.commit nvs
  (committed && ok, nvs)

/-- `setRollbackGuardBypassed`. -/
def setRollbackGuardBypassed (nvs : Nvs) (bypassed : Bool) : Bool × Nvs :=
  let (ok, nvs) := nvs.setU8 .guardBypassed (if bypassed then 1 else 0)
  if !ok then (false, nvs) else nvs.commit

/-- `factoryReset`. -/
def factoryReset (nvs : Nvs) : Bool × Nvs :=
  let (ok, nvs) := nvs.clear
  if !ok then (false, nvs) else Nvs.commit nvs

/-! ## What the calls leave alone -/

/-- The keys of a pending update. -/
def pendingKeys : List NvsKey :=
  [.pendUpdateId, .pendVersion, .pendRepo, .pendPrevVer, .pendStartedAt, .pendDeadline]

/-- The keys of what a provisioning grants. -/
def grantKeys : List NvsKey :=
  [.deviceId, .mqttHost, .mqttPort, .mqttUser, .mqttPass, .apiBaseUrl, .topicPing, .topicUpdate,
    .topicConfig]

section Untouched

variable (nvs : Nvs) {key : NvsKey}

theorem setOtaState_entries (state : OtaState) (reason : AbortReason)
    (h : key ∉ [NvsKey.otaState, .abortReason]) :
    (setOtaState nvs state reason).2.entries key = nvs.entries key :=
  nvs.putAll_untouched [(.otaState, some (.u8 state.code)), (.abortReason, some (.u8 reason.code))]
    h

theorem clearPending_entries (h : key ∉ pendingKeys) :
    (clearPending nvs).2.entries key = nvs.entries key :=
  nvs.putAll_untouched (pendingKeys.map fun key => (key, none)) h

theorem savePending_entries (p : Pending) (h : key ∉ pendingKeys) :
    (savePending nvs p).2.entries key = nvs.entries key := by
  unfold savePending
  split
  · rfl
  · exact nvs.putAll_untouched (pendingWrites p) h

theorem commitFirmware_entries (version repo : CString) (h : key ∉ [NvsKey.fwVersion, .fwRepo]) :
    (commitFirmware nvs version repo).2.entries key = nvs.entries key := by
  unfold commitFirmware
  split
  · rfl
  · refine nvs.putAll_untouched ((.fwVersion, some (.string version)) :: _) ?_
    rw [List.mem_cons, not_or] at h
    rw [List.map_cons, List.mem_cons, not_or]
    refine ⟨h.1, ?_⟩
    split
    · exact List.not_mem_nil
    · exact h.2

theorem applyConfigVersion_entries (version : UInt32) (h : key ≠ .configVersion) :
    (applyConfigVersion nvs version).2.entries key = nvs.entries key := by
  have hset := nvs.put_of_ne (some (.u32 version)) h
  unfold applyConfigVersion
  split
  · rfl
  · show (if _ then _ else _ : Bool × Nvs).2.entries key = _
    split <;> exact hset

theorem setLastUpdateId_entries (updateId : CString) (h : key ≠ .lastUpdateId) :
    (setLastUpdateId nvs updateId).2.entries key = nvs.entries key := by
  have hset := nvs.put_of_ne (some (.string updateId)) h
  unfold setLastUpdateId
  split
  · rfl
  · show (if _ then _ else _ : Bool × Nvs).2.entries key = _
    split <;> exact hset

theorem setApiBaseUrl_entries (url : CString) (h : key ≠ .apiBaseUrl) :
    (setApiBaseUrl nvs url).2.entries key = nvs.entries key := by
  unfold setApiBaseUrl
  split
  · rfl
  · exact nvs.put_of_ne (some (.string url)) h

theorem seedBootstrapUrl_entries (url : Option CString) (h : key ≠ .bootstrapUrl) :
    (seedBootstrapUrl nvs url).2.entries key = nvs.entries key := by
  unfold seedBootstrapUrl
  split
  · rfl
  · rename_i url
    have hset := nvs.put_of_ne (some (.string url)) h
    split
    · rfl
    · show (if _ then _ else _ : Bool × Nvs).2.entries key = _
      split <;> exact hset

theorem setRollbackGuardBypassed_entries (bypassed : Bool) (h : key ≠ .guardBypassed) :
    (setRollbackGuardBypassed nvs bypassed).2.entries key = nvs.entries key := by
  have hset := nvs.put_of_ne (some (.u8 (if bypassed then 1 else 0))) h
  show (if _ then _ else _ : Bool × Nvs).2.entries key = _
  split <;> exact hset

/-- A granted response names no key but its own. -/
theorem mem_grant {p : Provisioning} {value : Option NvsValue} (h : (key, value) ∈ grant p) :
    key ∈ grantKeys := by
  have hoptional : ∀ {cap : Nat} {own : NvsKey} {field : Field cap},
      (key, value) ∈ optional own field → key = own := by
    intro cap own field hmem
    unfold optional at hmem
    split at hmem
    · cases hmem
    · exact (Prod.mk.inj (List.mem_singleton.mp hmem)).1
  unfold grant at h
  simp only [List.mem_append, List.mem_cons, Prod.mk.injEq, List.not_mem_nil, or_false] at h
  rcases h with (⟨rfl, -⟩ | ⟨rfl, -⟩ | ⟨rfl, -⟩ | ⟨rfl, -⟩ | ⟨rfl, -⟩) | ((h | h) | h) | h
  all_goals first | exact hoptional h ▸ by decide | decide

theorem saveProvisioning_entries (p : Provisioning)
    (h : key ∉ .provisioned :: .bootstrapUrl :: grantKeys) :
    (saveProvisioning nvs p).2.entries key = nvs.entries key := by
  rw [List.mem_cons, List.mem_cons, not_or, not_or] at h
  have hgrant : (nvs.putAll (grant p)).2.entries key = nvs.entries key := by
    refine nvs.putAll_untouched (grant p) fun hmem => h.2.2 ?_
    obtain ⟨write, hwrite, rfl⟩ := List.mem_map.mp hmem
    exact mem_grant hwrite
  unfold saveProvisioning
  split
  · rfl
  · dsimp only
    split
    · exact (FallibleStore.put_of_ne _ _ h.1).trans hgrant
    · exact (FallibleStore.put_of_ne _ _ h.2.1).trans
        ((FallibleStore.put_of_ne _ _ h.1).trans hgrant)

end Untouched

/-! ## What they leave under their own keys -/

section Own

variable (nvs : Nvs)

/-- The key of a pending update is erased or left, and so is any other. -/
theorem clearPending_cases (key : NvsKey) :
    (clearPending nvs).2.entries key = nvs.entries key ∨
      (clearPending nvs).2.entries key = none := by
  rcases nvs.putAll_cases (pendingKeys.map fun key => (key, none)) key with
    hkept | ⟨value, hmem, hwritten⟩
  · exact .inl hkept
  · obtain ⟨_, -, hpair⟩ := List.mem_map.mp hmem
    obtain rfl := (Prod.mk.inj hpair).2
    exact .inr hwritten

theorem savePending_version (p : Pending) :
    (savePending nvs p).2.entries .pendVersion = nvs.entries .pendVersion ∨
      (savePending nvs p).2.entries .pendVersion = some (.string p.version.text) := by
  unfold savePending
  split
  · exact .inl rfl
  · rcases nvs.putAll_cases (pendingWrites p) .pendVersion with hkept | ⟨value, hmem, hwritten⟩
    · exact .inl hkept
    · right
      have hvalue : value = some (.string p.version.text) := by
        simpa [pendingWrites] using hmem
      exact hwritten.trans hvalue

/-- Whether a device is provisioned depends on two keys. -/
theorem isProvisioned_congr {nvs nvs' : Nvs}
    (h : ∀ key ∈ [NvsKey.provisioned, .deviceId], nvs'.entries key = nvs.entries key) :
    isProvisioned nvs' = isProvisioned nvs := by
  unfold isProvisioned deviceId Nvs.getU8
  rw [h .provisioned (by decide), Nvs.getString_congr (h .deviceId (by decide))]

/-- A record is read from its keys. -/
theorem loadPending_congr {nvs nvs' : Nvs}
    (h : ∀ key ∈ pendingKeys, nvs'.entries key = nvs.entries key) :
    loadPending nvs' = loadPending nvs := by
  unfold loadPending
  rw [Nvs.getString_congr (h .pendUpdateId (by decide)),
    Nvs.getString_congr (h .pendVersion (by decide)), Nvs.getString_congr (h .pendRepo (by decide)),
    Nvs.getString_congr (h .pendPrevVer (by decide)),
    Nvs.getU32_congr (h .pendStartedAt (by decide)), Nvs.getU32_congr (h .pendDeadline (by decide))]

/-- A record that is saved without a failure is loaded as it was. -/
theorem loadPending_savePending (p : Pending) (hid : p.updateId.text.byteAt 0 ≠ 0)
    (hsteady : nvs.answers = []) : loadPending (savePending nvs p).2 = some p := by
  have hwritten : ∀ {key value}, (key, value) ∈ pendingWrites p →
      (savePending nvs p).2.entries key = value := by
    intro key value hmem
    rw [savePending, if_neg hid]
    have hnodup : ((pendingWrites p).map Prod.fst).Nodup := by simp [pendingWrites]
    exact FallibleStore.putAll_ok hnodup (FallibleStore.putAll_steady hsteady _).1 hmem
  unfold loadPending
  rw [Nvs.getString_of p.updateId (hwritten (by simp [pendingWrites])) hid,
    Nvs.getString_getD p.version _ (hwritten (by simp [pendingWrites])),
    Nvs.getString_getD p.repo _ (hwritten (by simp [pendingWrites])),
    Nvs.getString_getD p.previous _ (hwritten (by simp [pendingWrites]))]
  have hnumber : ∀ key value, (key, some (.u32 value)) ∈ pendingWrites p →
      (savePending nvs p).2.getU32 key = some value := by
    intro key value hmem
    rw [Nvs.getU32, hwritten hmem]
  rw [hnumber .pendStartedAt p.startedAtS (by simp [pendingWrites]),
    hnumber .pendDeadline p.deadlineS (by simp [pendingWrites])]
  rfl

/-- A version that is not empty is recorded, or the old one stays. -/
theorem commitFirmware_version (version repo : CString) :
    (commitFirmware nvs version repo).2.entries .fwVersion = nvs.entries .fwVersion ∨
      version.byteAt 0 ≠ 0 ∧
        (commitFirmware nvs version repo).2.entries .fwVersion = some (.string version) := by
  unfold commitFirmware
  split
  · exact .inl rfl
  · rename_i hversion
    rcases nvs.putAll_cases ((.fwVersion, some (.string version)) ::
      if repo.byteAt 0 = 0 then [] else [(.fwRepo, some (.string repo))]) .fwVersion with
      hkept | ⟨value, hmem, hwritten⟩
    · exact .inl hkept
    · right
      have hvalue : value = some (.string version) := by
        split at hmem <;> simpa using hmem
      exact ⟨hversion, hwritten.trans hvalue⟩

/-- A newer configuration version is recorded where it is applied, and may be where it is not: the
commit can fail behind the write. -/
theorem applyConfigVersion_cases (version : UInt32) :
    ((applyConfigVersion nvs version).1 = true ∧ configVersion nvs < version ∧
        configVersion (applyConfigVersion nvs version).2 = version) ∨
      (applyConfigVersion nvs version).1 = false ∧
        (configVersion (applyConfigVersion nvs version).2 = configVersion nvs ∨
          configVersion nvs < version ∧
            configVersion (applyConfigVersion nvs version).2 = version) := by
  have hread : ∀ {nvs' : Nvs}, nvs'.entries .configVersion = some (.u32 version) →
      configVersion nvs' = version := by
    intro nvs' hentry
    unfold configVersion Nvs.getU32
    rw [hentry]
    rfl
  unfold applyConfigVersion
  split
  · exact .inr ⟨rfl, .inl rfl⟩
  rename_i hnewer
  have hnewer : configVersion nvs < version := UInt32.not_le.mp hnewer
  dsimp only
  rcases nvs.put_cases NvsKey.configVersion (some (.u32 version)) with ⟨hok, hput⟩ | ⟨hok, hput⟩
  · have hwritten : configVersion (nvs.setU32 .configVersion version).2 = version := by
      refine hread ?_
      rw [Nvs.setU32, hput, Function.update_self]
    rw [Nvs.setU32] at hwritten ⊢
    rw [hok]
    cases hcommit : (Nvs.commit (nvs.put NvsKey.configVersion (some (.u32 version))).2).1 with
    | true => exact .inl ⟨hcommit, hnewer, hwritten⟩
    | false => exact .inr ⟨hcommit, .inr ⟨hnewer, hwritten⟩⟩
  · rw [Nvs.setU32, hok]
    refine .inr ⟨rfl, .inl ?_⟩
    unfold configVersion Nvs.getU32
    show (match (nvs.put NvsKey.configVersion (some (.u32 version))).2.entries .configVersion with
      | some (.u32 value) => some value | _ => none).getD 0 = _
    rw [hput]

/-- A store that fails no more goes on so behind a configuration. -/
theorem applyConfigVersion_steady (version : UInt32) (hsteady : nvs.answers = []) :
    (applyConfigVersion nvs version).2.answers = [] := by
  unfold applyConfigVersion
  split
  · exact hsteady
  · simp [Nvs.setU32, FallibleStore.put_steady hsteady, Nvs.commit, FallibleStore.ask]

@[inherit_doc applyConfigVersion_steady]
theorem setOtaState_steady (state : OtaState) (reason : AbortReason)
    (hsteady : nvs.answers = []) : (setOtaState nvs state reason).2.answers = [] := by
  have hwrites := FallibleStore.putAll_steady hsteady
    [(NvsKey.otaState, some (NvsValue.u8 state.code)), (.abortReason, some (.u8 reason.code))]
  simp [setOtaState, Nvs.commit, FallibleStore.ask, hwrites.2]

@[inherit_doc applyConfigVersion_steady]
theorem setApiBaseUrl_steady (url : CString) (hsteady : nvs.answers = []) :
    (setApiBaseUrl nvs url).2.answers = [] := by
  unfold setApiBaseUrl
  split
  · exact hsteady
  · simp [Nvs.setString, FallibleStore.put_steady hsteady]

@[inherit_doc applyConfigVersion_steady]
theorem commitFirmware_steady {version : CString} (repo : CString) (hversion : version.byteAt 0 ≠ 0)
    (hsteady : nvs.answers = []) :
    (commitFirmware nvs version repo).2.entries .fwVersion = some (.string version) ∧
      (commitFirmware nvs version repo).2.answers = [] := by
  have hwrites := FallibleStore.putAll_steady hsteady ((.fwVersion, some (.string version)) ::
    if repo.byteAt 0 = 0 then [] else [(.fwRepo, some (.string repo))])
  have hanswers : (commitFirmware nvs version repo).2.answers = [] := by
    simp [commitFirmware, hversion, Nvs.commit, FallibleStore.ask, hwrites.2]
  refine ⟨?_, hanswers⟩
  rw [commitFirmware, if_neg hversion]
  refine FallibleStore.putAll_ok ?_ hwrites.1 List.mem_cons_self
  split <;> simp

@[inherit_doc applyConfigVersion_steady]
theorem setLastUpdateId_steady {updateId : CString} (hid : updateId.byteAt 0 ≠ 0)
    (hsteady : nvs.answers = []) :
    (setLastUpdateId nvs updateId).2.entries .lastUpdateId = some (.string updateId) ∧
      (setLastUpdateId nvs updateId).2.answers = [] := by
  simp [setLastUpdateId, hid, Nvs.setString, FallibleStore.put_steady hsteady, Nvs.commit,
    FallibleStore.ask]

@[inherit_doc applyConfigVersion_steady]
theorem clearPending_steady (hsteady : nvs.answers = []) :
    (clearPending nvs).2.entries .pendUpdateId = none := by
  have hwrites := FallibleStore.putAll_steady hsteady (pendingKeys.map fun key => (key, none))
  exact FallibleStore.putAll_ok (by decide) hwrites.1 (by simp [pendingKeys])

/-- A factory reset erases everything or nothing. -/
theorem factoryReset_cases :
    (factoryReset nvs).2.entries = nvs.entries ∨ (factoryReset nvs).2.entries = fun _ => none := by
  have hclear := nvs.clear_cases
  show (if _ then _ else _ : Bool × Nvs).2.entries = _ ∨
    (if _ then _ else _ : Bool × Nvs).2.entries = _
  split
  · exact hclear.elim (fun h => .inr h.2) fun h => .inl h.2
  · exact hclear.elim (fun h => .inr h.2) fun h => .inl h.2

end Own

end DeviceStore

end FirmwareUpdater
