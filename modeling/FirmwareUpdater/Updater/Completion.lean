import FirmwareUpdater.Updater.Confirmation
import FirmwareUpdater.Updater.SecondOrder

/-!
# An update that goes well

What the device needs to finish. `download_completes` takes a download from any state of any
run to the restart into the image, where the rest of the bytes comes in whatever pieces the
passes find, with pauses below the stall timeout; `confirmation_completes` takes the image
on trial from there to the record of its version.
-/

namespace FirmwareUpdater.Impl

open Library

variable (v : Vendor)

/-! ## What a pass brings -/

/-- What a pass brings of an image: the bytes, whether their end was seen, and the clock behind the
last chunk. -/
structure Arrival where
  bytes : List UInt8
  ended : Bool
  progressMs : UInt32

/-- The chunks that `pumpLoop` takes where none of them fails. -/
def arrivals (cfg : Config) (deadline moved progressMs : UInt32) : List ChunkRead → Arrival
  | [] => ⟨[], false, progressMs⟩
  | r :: reads =>
      if ¬(r.clock < deadline ∧ moved < cfg.ota.chunkBytes) then ⟨[], false, progressMs⟩
      else
        match r.result with
        | .eof => ⟨[], true, progressMs⟩
        | .ok =>
            let rest := arrivals cfg deadline (moved + UInt32.ofNat r.bytes.length) r.after reads
            { rest with bytes := r.bytes ++ rest.bytes }
        | _ => ⟨[], false, progressMs⟩

/-- The arrivals of a pass. -/
def arrival (d : Impl) (i : Pass) : Arrival :=
  arrivals d.cfg (i.now + d.cfg.ota.budgetMs) 0 d.lastProgressMs i.ota.reads

/-- A read that does not fail, of a chunk that is not lost. -/
structure Smooth (r : ChunkRead) : Prop where
  result : r.result = .ok ∨ r.result = .wouldBlock ∨ r.result = .eof
  otaWrite : r.write.otaWrite = true
  shaUpdate : r.write.shaUpdate = true

/-- The device as a pass brings it to the step of the update. -/
def beforeUpdate (d : Impl) (i : Pass) : Impl :=
  ingestStep v (((d.facing i.flash).prepare i).mqttStep i.now i.mqtt) i.inbox

/-- A pass that nothing happens in to the download of `d`: it has a link for it, on which the
configuration that the messages of the pass leave has its say, no message brings an order that is
taken, and no read fails. -/
structure Serves (d : Impl) (i : Pass) : Prop where
  link : (beforeUpdate v d i).otaLinkReady i.ota.link i.ota.anyLink = true
  undisturbed : ∀ m ∈ i.inbox, ¬Acceptable v d m
  smooth : ∀ r ∈ i.ota.reads, Smooth r

/-- Passes that bring `d` some bytes and their end, and no pause that counts as a stall. -/
inductive Brings : Impl → List Pass → List UInt8 → Prop where
  | ends {d : Impl} {i : Pass} (hserves : Serves v d i) (hended : (d.arrival i).ended = true) :
      Brings d [i] (d.arrival i).bytes
  | goes {d : Impl} {i : Pass} {passes : List Pass} {bytes : List UInt8}
      (hserves : Serves v d i) (hended : (d.arrival i).ended = false)
      (hpause : i.ota.last - (d.arrival i).progressMs ≤ d.cfg.ota.stallTimeoutMs)
      (hrest : Brings (exec v d (.pass i)) passes bytes) :
      Brings d (i :: passes) ((d.arrival i).bytes ++ bytes)

/-! ## A download on its way -/

/-- The sink is open, has room for an image of `size` bytes and has taken those of `slot`. -/
structure Taking (size : UInt32) (slot : List UInt8) (ota : OtaSink) : Prop where
  opened : ota.isOpen = true
  session : OtaSink.InSession size slot ota
  room : ∃ target, ota.target = some target ∧ size ≤ target.size

/-- A device in operation that has come so far with an order. -/
structure Filling (cfg : Config) (order : UpdateOrder) (slot : List UInt8) (progressMs : UInt32)
    (state : DeviceState) (d : Impl) : Prop where
  operating : Operating d
  cfg_eq : d.cfg = cfg
  order_eq : d.order = order
  slot_eq : d.slot = slot
  progress_eq : d.lastProgressMs = progressMs
  state_eq : d.state = state
  taking : Taking order.sizeBytes slot d.ota

section Steps

variable {v} {cfg : Config} {order : UpdateOrder} {slot : List UInt8} {progressMs : UInt32}
  {state : DeviceState}

theorem Filling.aside {d d' : Impl} (h : Filling cfg order slot progressMs state d)
    (haside : Aside d d') : Filling cfg order slot progressMs state d' := by
  have hoperating := haside.operating h.operating
  obtain ⟨_, _, _, _, _, _, _, _, _, _, _, rfl, -⟩ := haside
  exact ⟨hoperating, h.cfg_eq, h.order_eq, h.slot_eq, h.progress_eq, h.state_eq, h.taking⟩

/-- A message whose order is not taken has no part in it. -/
theorem Filling.ingest {d : Impl} {m : Polled} (h : Filling cfg order slot progressMs state d)
    (hm : ¬Acceptable v d m) : Filling cfg order slot progressMs state (ingest v d m) := by
  rcases ingest_cases v d m with
    ⟨nvs, _, _, _, _, heq, hnvs, -⟩ | ⟨order, htopic, hallowed, hparse, hjudge, -⟩
  · have hprovisioned : DeviceStore.isProvisioned nvs = true := by
      rw [isProvisioned_congr hnvs (by decide)]
      exact h.operating.provisioned
    rw [heq]
    exact ⟨⟨h.operating.storeOpen, h.operating.running, h.operating.state, hprovisioned⟩,
      h.cfg_eq, h.order_eq, h.slot_eq, h.progress_eq, h.state_eq, h.taking⟩
  · exact absurd ⟨htopic, hallowed, order, hparse, hjudge⟩ hm

/-- A pass comes to the step of the update with it. -/
theorem Filling.reached {d : Impl} {i : Pass} (h : Filling cfg order slot progressMs state d)
    (hinbox : ∀ m ∈ i.inbox, ¬Acceptable v d m) :
    Filling cfg order slot progressMs state (beforeUpdate v d i) := by
  have hall : ∀ (messages : List Polled) (d : Impl), (∀ m ∈ messages, ¬Acceptable v d m) →
      Filling cfg order slot progressMs state d →
      Filling cfg order slot progressMs state (ingestStep v d messages) := by
    intro messages
    induction messages with
    | nil => exact fun _ _ h => h
    | cons m messages ih =>
        intro d hmessages h
        rw [List.forall_mem_cons] at hmessages
        refine ih _ (fun later hlater => ?_) (h.ingest hmessages.1)
        rw [(ingest_keeps v d m).2.2 later]
        exact hmessages.2 later hlater
  have hfacing : Filling cfg order slot progressMs state (d.facing i.flash) :=
    ⟨⟨h.operating.storeOpen, h.operating.running, h.operating.state, h.operating.provisioned⟩,
      h.cfg_eq, h.order_eq, h.slot_eq, h.progress_eq, h.state_eq, h.taking⟩
  have hprepared := hfacing.aside (prepare_aside _ i)
  refine hall i.inbox _ (fun m hm => ?_) (hprepared.aside (mqttStep_aside _ i.now i.mqtt))
  rw [acceptable_reached v d i m]
  exact hinbox m hm

end Steps

/-! ## The chunks of a pass -/

/-- A sink that has room takes a chunk. -/
theorem Taking.chunk {size : UInt32} {slot bytes : List UInt8} {ota : OtaSink}
    {o : OtaSink.WriteOutcome} (h : Taking size slot ota) (hsize : 0 < size)
    (hroom : slot.length + bytes.length ≤ size.toNat) (hwrite : o.otaWrite = true)
    (hupdate : o.shaUpdate = true) :
    (ota.write (chunk bytes) o).1 = .ok ∧ flashed (ota.write (chunk bytes) o).2.2 = bytes ∧
      Taking size (slot ++ bytes) (ota.write (chunk bytes) o).2.1 := by
  obtain ⟨target, htarget, hlarge⟩ := h.room
  have hwritten := h.session.written_eq hsize
  have hlimit := size.toNat_lt
  rw [UInt32.le_iff_toNat_le] at hlarge
  cases bytes with
  | nil =>
      have hnothing : ota.write (Impl.chunk []) o = (.ok, ota, []) := by
        simp [OtaSink.write, h.opened, Impl.chunk]
      rw [hnothing, List.append_nil]
      exact ⟨rfl, rfl, h⟩
  | cons byte bytes =>
      have hfits : ota.fits (byte :: bytes).length = true := by
        have hsum : (ota.written + UInt32.ofNat (byte :: bytes).length).toNat =
            slot.length + (byte :: bytes).length := by
          rw [UInt32.toNat_add, UInt32.toNat_ofNat', hwritten]
          omega
        rw [OtaSink.fits, htarget]
        dsimp only
        rw [decide_eq_true_eq, UInt32.le_iff_toNat_le, hsum]
        omega
      have hok : ota.write (Impl.chunk (byte :: bytes)) o =
          (.ok,
            { ota with
              sha := { ota.sha with absorbed := ota.sha.absorbed ++ byte :: bytes }
              written := ota.written + UInt32.ofNat (byte :: bytes).length },
            [.accepted (byte :: bytes)]) := by
        simp only [List.length_cons] at hfits
        simp [OtaSink.write, h.opened, Impl.chunk, hfits, hwrite, Sha256.update, h.session.active,
          hupdate]
      have hcounted : ota.Counted (.write (Impl.chunk (byte :: bytes)) o) := by
        intro _ _
        have hlen : (Impl.chunk (byte :: bytes)).len = (byte :: bytes).length := rfl
        omega
      have hsession := OtaSink.write_session h.session (congrArg Prod.fst hok) hcounted
      rw [hok] at hsession ⊢
      exact ⟨rfl, by simp [flashed], h.opened, by simpa [flashed] using hsession, target, htarget,
        UInt32.le_iff_toNat_le.mpr hlarge⟩

/-- A device that has received what some reads brought. -/
def received (d : Impl) (ota : OtaSink) (a : Arrival) : Impl :=
  { d with ota, slot := d.slot ++ a.bytes, lastProgressMs := a.progressMs }

/-- The loop takes all that the reads bring. -/
theorem pumpLoop_arrivals {size : UInt32} (hsize : 0 < size) (reads : List ChunkRead) (d : Impl)
    (deadline moved : UInt32) (h : Taking size d.slot d.ota) (hsmooth : ∀ r ∈ reads, Smooth r)
    {a : Arrival} (ha : arrivals d.cfg deadline moved d.lastProgressMs reads = a)
    (hroom : d.slot.length + a.bytes.length ≤ size.toNat) :
    ∃ ota, Taking size (d.slot ++ a.bytes) ota ∧
      d.pumpLoop deadline moved reads =
        (a.ended, if a.ended then (d.received ota a).downloaded else d.received ota a) := by
  induction reads generalizing d moved a with
  | nil =>
      subst ha
      exact ⟨d.ota, by simpa [arrivals] using h, by simp [pumpLoop, arrivals, received]⟩
  | cons r reads ih =>
      rw [List.forall_mem_cons] at hsmooth
      by_cases hclock : r.clock < deadline ∧ moved < d.cfg.ota.chunkBytes
      · rcases hsmooth.1.result with hresult | hresult | hresult
        · rw [arrivals, if_neg (not_not.mpr hclock), hresult] at ha
          subst ha
          dsimp only at hroom ⊢
          rw [List.length_append] at hroom
          have hchunk : d.slot.length + r.bytes.length ≤ size.toNat := by omega
          obtain ⟨hok, hflashed, htaken⟩ :=
            h.chunk hsize hchunk hsmooth.1.otaWrite hsmooth.1.shaUpdate
          rw [pumpLoop_chunk d reads hclock hresult, if_neg (not_not.mpr hok), hflashed]
          obtain ⟨ota, hend, heq⟩ := ih
            { d with
              ota := (d.ota.write (Impl.chunk r.bytes) r.write).2.1
              slot := d.slot ++ r.bytes
              lastProgressMs := r.after } (moved + UInt32.ofNat r.bytes.length) htaken hsmooth.2 rfl
            (by rw [List.length_append, Nat.add_assoc]; exact hroom)
          rw [List.append_assoc] at hend
          refine ⟨ota, hend, heq.trans ?_⟩
          simp only [received, List.append_assoc]
        · rw [arrivals, if_neg (not_not.mpr hclock), hresult] at ha
          subst ha
          exact ⟨d.ota, by simpa using h, by simp [pumpLoop, hclock, hresult, received]⟩
        · rw [arrivals, if_neg (not_not.mpr hclock), hresult] at ha
          subst ha
          exact ⟨d.ota, by simpa using h, by simp [pumpLoop, hclock, hresult, received]⟩
      · rw [arrivals, if_pos hclock] at ha
        subst ha
        refine ⟨d.ota, by simpa using h, ?_⟩
        rw [pumpLoop, if_pos hclock]
        simp [received]

/-- The step of the update on a pass that serves. -/
theorem Filling.fed {cfg : Config} {order : UpdateOrder} {slot : List UInt8} {progressMs : UInt32}
    {d : Impl} {i : Pass} {a : Arrival} (h : Filling cfg order slot progressMs .downloading d)
    (hlink : d.otaLinkReady i.ota.link i.ota.anyLink = true) (hsmooth : ∀ r ∈ i.ota.reads, Smooth r)
    (ha : d.arrival i = a) (hsize : 0 < order.sizeBytes)
    (hroom : slot.length + a.bytes.length ≤ order.sizeBytes.toNat)
    (hpause : a.ended = false → i.ota.last - a.progressMs ≤ cfg.ota.stallTimeoutMs) :
    Filling cfg order (slot ++ a.bytes) a.progressMs (if a.ended then .verifying else .downloading)
      (otaStep v d i.now i.ota) := by
  obtain ⟨hoperating, rfl, rfl, rfl, rfl, hstate, htaking⟩ := h
  have hstep : otaStep v d i.now i.ota = d.pumpDownload i.now i.ota.reads i.ota.last := by
    rw [otaStep, hstate]
    simp [hlink]
  obtain ⟨ota, htaken, hloop⟩ := pumpLoop_arrivals hsize i.ota.reads d
    (i.now + d.cfg.ota.budgetMs) 0 htaking hsmooth ha hroom
  rw [hstep, pumpDownload, hloop]
  cases hended : a.ended with
  | false =>
      have hgoes : ¬((!false && i.ota.last - (d.received ota a).lastProgressMs >
          (d.received ota a).cfg.ota.stallTimeoutMs) = true) := by
        simpa [received] using hpause hended
      simp only [Bool.false_eq_true, if_false]
      rw [if_neg hgoes]
      exact ⟨⟨hoperating.storeOpen, hoperating.running, hoperating.state,
        hoperating.provisioned⟩, rfl, rfl, rfl, rfl, hstate, htaken⟩
  | true =>
      obtain ⟨nvs, es, heq, hnvs, -⟩ := downloaded_eq (d.received ota a)
      simp only [Bool.not_true, Bool.false_and, Bool.false_eq_true, if_false, if_true]
      rw [heq]
      have hprovisioned : DeviceStore.isProvisioned nvs = true := by
        rw [isProvisioned_congr hnvs (by decide)]
        exact hoperating.provisioned
      exact ⟨⟨hoperating.storeOpen, hoperating.running, by simp, hprovisioned⟩,
        rfl, rfl, rfl, rfl, rfl, htaken⟩

/-! ## The passes of a download -/

section Passes

variable {v} {cfg : Config} {order : UpdateOrder} {slot : List UInt8} {progressMs : UInt32}

/-- A pass that serves brings the download on. -/
theorem Filling.pass {d : Impl} {i : Pass} {a : Arrival}
    (h : Filling cfg order slot progressMs .downloading d) (hserves : Serves v d i)
    (ha : d.arrival i = a) (hsize : 0 < order.sizeBytes)
    (hroom : slot.length + a.bytes.length ≤ order.sizeBytes.toNat)
    (hpause : a.ended = false → i.ota.last - a.progressMs ≤ cfg.ota.stallTimeoutMs) :
    Filling cfg order (slot ++ a.bytes) a.progressMs (if a.ended then .verifying else .downloading)
      (exec v d (.pass i)) := by
  have hreached := h.reached hserves.undisturbed
  have hsame : (beforeUpdate v d i).arrival i = a := by
    rw [← ha, arrival, arrival, hreached.cfg_eq, hreached.progress_eq, h.cfg_eq, h.progress_eq]
  have hfed := hreached.fed v hserves.link hserves.smooth hsame hsize hroom hpause
  rw [exec_operates v h.operating, operate]
  rw [beforeUpdate] at hfed
  generalize otaStep v _ i.now i.ota = d' at hfed ⊢
  have hruns : ¬d'.restarting = true := by simp [hfed.operating.running]
  rw [if_neg hruns]
  exact hfed.aside (pingStep_aside v d' i.now i.ping)

/-- Passes that bring the rest complete it. -/
theorem Filling.completed {d : Impl} {passes : List Pass} {rest : List UInt8}
    (hbrings : Brings v d passes rest)
    (h : Filling cfg order slot progressMs .downloading d) (hsize : 0 < order.sizeBytes)
    (hroom : slot.length + rest.length ≤ order.sizeBytes.toNat) :
    ∃ last, Filling cfg order (slot ++ rest) last .verifying
      (after v d (passes.map Event.pass)) := by
  induction hbrings generalizing slot progressMs with
  | ends hserves hended =>
      have hpass := h.pass hserves rfl hsize hroom fun hgoes => by simp [hended] at hgoes
      rw [hended] at hpass
      exact ⟨_, hpass⟩
  | goes hserves hended hpause _ ih =>
      rw [List.length_append] at hroom
      have hpass := h.pass hserves rfl hsize (by omega) fun _ => by rwa [← h.cfg_eq]
      rw [hended] at hpass
      rw [← List.append_assoc]
      exact ih hpass (by rw [List.length_append]; omega)

end Passes

/-! ## The restart -/

/-- A sink that took all of the image makes it bootable. -/
theorem finished_ok {d : Impl} (h : Taking d.order.sizeBytes d.slot d.ota)
    (hannounced : Announced d.order) (hlength : d.slot.length = d.order.sizeBytes.toNat)
    (hdigest : v.sha256 d.slot = d.order.sha256) :
    ∃ ota, finished v d ⟨true, true, true⟩ = (.ok, ota, [.setBootPartition]) := by
  have hwritten : d.ota.written = d.ota.expected := by
    rw [← UInt32.toNat_inj, h.session.written_eq hannounced.sizeBytes, hlength,
      h.session.expected_eq]
  have hequal : Hex.equal (v.sha256 d.slot) d.order.sha256 = true :=
    (Hex.equal_iff _ _).mpr hdigest
  refine
    ⟨{ d.ota with sha := { d.ota.sha with active := false }, handle := 0, isOpen := false }, ?_⟩
  simp [finished, OtaSink.finish, h.opened, hwritten, hannounced.hasSha256, Sha256.finish,
    h.session.active, h.session.absorbed_eq, hequal]

/-- So the device restarts into it. -/
theorem verifyAndApply_ok {d : Impl} {o : OtaSink.FinishOutcome} {ota : OtaSink} (time : Int)
    (h : finished v d o = (.ok, ota, [.setBootPartition])) :
    ∃ nvs es, verifyAndApply v d o time =
        { d with
          ota, otaState := .pendingReboot, abortReason := .none, restarting := true, nvs
          emitted := d.emitted ++ (.bootPartitionSet :: es) } ∧
      Touches [.otaState, .abortReason] (DeviceStore.savePending d.nvs (d.pendingRecord time)).2
        nvs := by
  have hnoted : noted v d o = { d with ota, emitted := d.emitted ++ [.bootPartitionSet] } := by
    unfold noted
    rw [h]
    exact if_pos (List.mem_singleton_self _)
  obtain ⟨nvs, es, heq, hnvs, -⟩ := setOtaState_eq
    { d with
      ota, emitted := d.emitted ++ [.bootPartitionSet]
      nvs := (DeviceStore.savePending d.nvs (d.pendingRecord time)).2 } .pendingReboot .none
  rw [verifyAndApply_eq, h, if_neg (by simp), hnoted]
  refine ⟨nvs, es ++ [.restarted], ?_, hnvs⟩
  have hend := congrArg (fun d => emit { d with restarting := true } .restarted) heq
  refine hend.trans ?_
  simp only [emit, List.append_assoc, List.cons_append, List.nil_append]

/-- A store that fails no more goes on so behind a message. -/
theorem ingest_steady (m : Polled) {d : Impl} (h : d.nvs.answers = []) :
    (ingest v d m).nvs.answers = [] := by
  have hset : ∀ next reason, (d.setOtaState next reason).nvs.answers = [] := by
    intro next reason
    unfold setOtaState
    split
    · exact h
    · exact DeviceStore.setOtaState_steady d.nvs next reason h
  unfold ingest
  split
  · unfold handleOrder
    split
    · split
      · split
        · exact hset _ _
        · exact h
      · exact h
      · exact h
      · exact hset _ _
    · exact h
  split
  · unfold handleConfig
    split
    · rename_i incoming _
      have happlied := DeviceStore.applyConfigVersion_steady d.nvs incoming.configVersion h
      dsimp only
      split
      · exact happlied
      · unfold learnApi
        dsimp only
        split
        · exact happlied
        · exact DeviceStore.setApiBaseUrl_steady _ _ happlied
    · exact h
  · exact h

/-- Behind a download that is complete the device restarts into the image, with a record of it. -/
theorem Filling.applied {cfg : Config} {order : UpdateOrder} {slot : List UInt8}
    {progressMs : UInt32} {d : Impl} {i : Pass}
    (h : Filling cfg order slot progressMs .verifying d) (hannounced : Announced order)
    (hlength : slot.length = order.sizeBytes.toNat) (hdigest : v.sha256 slot = order.sha256)
    (hinbox : ∀ m ∈ i.inbox, ¬Acceptable v d m) (hflash : i.flash = [])
    (hfinish : i.ota.finish = ⟨true, true, true⟩) :
    (exec v d (.pass i)).restarting = true ∧ (exec v d (.pass i)).slot = slot ∧
      .bootPartitionSet ∈ (exec v d (.pass i)).emitted ∧
      ∃ p, DeviceStore.loadPending (exec v d (.pass i)).nvs = some p ∧
        p.updateId = order.updateId ∧ p.version = order.targetVersion ∧ p.repo = order.repo := by
  have hsteady : ∀ (messages : List Polled) (d : Impl), d.nvs.answers = [] →
      (ingestStep v d messages).nvs.answers = [] := by
    intro messages
    induction messages with
    | nil => exact fun _ h => h
    | cons m messages ih => exact fun _ h => ih _ (ingest_steady v m h)
  have hanswers : (((d.facing i.flash).prepare i).mqttStep i.now i.mqtt).nvs.answers = [] := by
    rw [(mqttStep_aside _ i.now i.mqtt).nvs, (prepare_aside _ i).nvs]
    exact hflash
  have hreached := h.reached hinbox
  have hanswers := hsteady i.inbox _ hanswers
  rw [beforeUpdate] at hreached
  rw [exec_operates v h.operating, operate]
  generalize ingestStep v (((d.facing i.flash).prepare i).mqttStep i.now i.mqtt) i.inbox = d'
    at hreached hanswers ⊢
  obtain ⟨hoperating, rfl, rfl, rfl, rfl, hstate, htaking⟩ := hreached
  have hstep : otaStep v d' i.now i.ota = verifyAndApply v d' ⟨true, true, true⟩ i.ota.time := by
    rw [otaStep, hstate, hfinish]
  obtain ⟨ota, hfinished⟩ := finished_ok v htaking hannounced hlength hdigest
  obtain ⟨nvs, es, heq, hnvs⟩ := verifyAndApply_ok v i.ota.time hfinished
  have hsaved := DeviceStore.loadPending_savePending d'.nvs (d'.pendingRecord i.ota.time)
    hannounced.updateId hanswers
  have hkept : ∀ key ∈ DeviceStore.pendingKeys, nvs.entries key =
      (DeviceStore.savePending d'.nvs (d'.pendingRecord i.ota.time)).2.entries key := by
    intro key hkey
    refine hnvs key fun hmem => ?_
    revert key
    decide
  have hloaded := (DeviceStore.loadPending_congr hkept).trans hsaved
  rw [hstep, heq, if_pos rfl]
  exact ⟨rfl, rfl, List.mem_append_right _ List.mem_cons_self, _, hloaded, rfl, rfl, rfl⟩

/-- From whatever state of whatever run a download has come to, the device finishes it: where the
passes bring the rest of the image, in whatever pieces and over whichever link the policy admits,
without a failed read or write, without a pause that counts as a stall and without an order that is
taken in between, and the digest is the announced one, the next pass restarts into the image and
leaves the record that its confirmation needs. -/
theorem download_completes {nvs : Nvs} {before : List Event} {d : Impl} {passes : List Pass}
    {last : Pass} {rest : List UInt8} (hbefore : Run (Step v) { nvs } before d)
    (hflash : ∀ e ∈ before, saneFlash e) (hoperating : Operating d)
    (hdownloading : d.state = .downloading) (hbrings : Brings v d passes rest)
    (hlength : (d.slot ++ rest).length = d.order.sizeBytes.toNat)
    (hdigest : v.sha256 (d.slot ++ rest) = d.order.sha256)
    (hinbox : ∀ m ∈ last.inbox, ¬Acceptable v (after v d (passes.map Event.pass)) m)
    (hsteady : last.flash = [])
    (hfinish : last.ota.finish = ⟨true, true, true⟩) :
    (after v d (passes.map Event.pass ++ [.pass last])).restarting = true ∧
      (after v d (passes.map Event.pass ++ [.pass last])).slot = d.slot ++ rest ∧
      .bootPartitionSet ∈ (after v d (passes.map Event.pass ++ [.pass last])).emitted ∧
      ∃ p, DeviceStore.loadPending (after v d (passes.map Event.pass ++ [.pass last])).nvs =
          some p ∧
        p.updateId = d.order.updateId ∧ p.version = d.order.targetVersion ∧
        p.repo = d.order.repo := by
  have hblank : Intact v { nvs } := .at_rest v rfl fun hmem => absurd hmem List.not_mem_nil
  have hintact := (intact_kept v).run hbefore hflash hblank
  have hopen := (downloading_kept v).run hbefore (fun _ _ => trivial)
    (fun hstate => by cases hstate) hdownloading
  have hannounced := hintact.announced (by rw [updating, hdownloading])
  have hstreaming := hintact.streaming hoperating.running (.inl hdownloading)
  obtain ⟨target, htarget, hlarge, -⟩ := hstreaming.target
  have hfilling : Filling d.cfg d.order d.slot d.lastProgressMs .downloading d :=
    ⟨hoperating, rfl, rfl, rfl, rfl, hdownloading, hopen, hstreaming.session, target, htarget,
      hlarge⟩
  rw [List.length_append] at hlength
  obtain ⟨_, hcomplete⟩ := hfilling.completed hbrings hannounced.sizeBytes hlength.le
  rw [after, List.foldl_append]
  rw [← List.length_append] at hlength
  exact hcomplete.applied v hannounced hlength hdigest hinbox hsteady hfinish

/-- The sample device in its download. -/
def sampleDownloading : Impl := after sampleVendor {} sampleStart

/-- A pass that brings it a configuration and nothing of the image yet. -/
def samplePause : Pass :=
  { samplePass [sampleConfigured] [] with ota := { (samplePass [] []).ota with last := 1000 } }

/-- That pass, and one that finds the byte and its end. -/
def samplePasses : List Pass := [samplePause, samplePass [] sampleReads]

theorem samplePasses_brings : Brings sampleVendor sampleDownloading samplePasses [0xAA] := by
  have hpause : Serves sampleVendor sampleDownloading samplePause := by
    refine ⟨by decide +kernel, fun m hm haccepted => ?_, fun r hr => absurd hr List.not_mem_nil⟩
    obtain rfl := List.mem_singleton.mp hm
    exact absurd haccepted.topic (by decide +kernel)
  have hbyte : Serves sampleVendor (exec sampleVendor sampleDownloading (.pass samplePause))
      (samplePass [] sampleReads) := by
    refine ⟨by decide +kernel, fun m hm => absurd hm List.not_mem_nil, fun r hr => ?_⟩
    rcases List.mem_pair.mp hr with rfl | rfl
    · exact ⟨.inl rfl, rfl, rfl⟩
    · exact ⟨.inr (.inr rfl), rfl, rfl⟩
  have hbrings := Brings.goes hpause (by decide +kernel) (by decide +kernel)
    (.ends hbyte (by decide +kernel))
  have hbytes : (sampleDownloading.arrival samplePause).bytes ++
      ((exec sampleVendor sampleDownloading (.pass samplePause)).arrival
        (samplePass [] sampleReads)).bytes = [0xAA] := by decide +kernel
  rwa [hbytes] at hbrings

/-- The sample device gets its byte in the second of two passes. -/
theorem download_completes_sample :
    (after sampleVendor sampleDownloading
      (samplePasses.map Event.pass ++ [.pass (samplePass [] [])])).restarting = true := by
  have hflash : ∀ e ∈ sampleStart, saneFlash e := by
    simp [sampleStart, saneFlash, samplePass, sampleProvisioning, kOtaChunkBuffer]
  have hoperating : Operating sampleDownloading := by decide +kernel
  exact (download_completes sampleVendor (run_after sampleVendor {} sampleStart) hflash hoperating
    (by decide +kernel) samplePasses_brings (by decide +kernel) (by decide +kernel)
    (fun m hm => absurd hm List.not_mem_nil) rfl rfl).1

/-! ## The confirmation -/

/-- A pass whose question stays without an answer, before the deadline, or a call of the application
that leaves the store. -/
def patient (p : Pending) : Event → Prop
  | .pass i => unanswered (.pass i) ∧ overdue p i.confirm.time = false
  | .boot _ _ | .factoryReset _ => False
  | _ => True

/-- The image that `p` records is on trial. -/
structure OnTrial (p : Pending) (d : Impl) : Prop where
  storeOpen : d.storeOpen = true
  running : d.restarting = false
  state : d.state = .confirming
  pending : DeviceStore.loadPending d.nvs = some p

/-- It stays so as long as nobody answers and there is time. -/
theorem onTrial_kept (p : Pending) : Kept v (patient p) (OnTrial p) where
  facing d flash h := ⟨h.storeOpen, h.running, h.state, h.pending⟩
  aside d d' haside h := by
    obtain ⟨_, _, _, _, _, _, _, _, _, _, _, rfl, -⟩ := haside
    exact ⟨h.storeOpen, h.running, h.state, h.pending⟩
  boot d cfg o d' hok := absurd hok id
  confirm d i d' hok _ _ hmove h := by
    cases hmove with
    | waits => exact h
    | forgotten _ hnone => cases hnone.symm.trans h.pending
    | reverted _ hpending hlate =>
        cases hpending.symm.trans h.pending
        cases hok.2.symm.trans hlate
    | refused => exact ⟨h.storeOpen, h.running, h.state, h.pending⟩
    | committed _ hpost => exact absurd hpost hok.1
  provision d i d' _ _ hstate _ _ h := absurd h.state hstate
  ingest d i m _ _ hstate _ h := absurd h.state hstate
  ota d i d' _ _ hstate _ h := absurd h.state hstate
  seed d nvs hnvs h := by
    have hkept : ∀ key ∈ DeviceStore.pendingKeys, nvs.entries key = d.nvs.entries key := by
      intro key hkey
      refine hnvs key fun hmem => ?_
      revert key
      decide
    exact ⟨h.storeOpen, h.running, h.state, (DeviceStore.loadPending_congr hkept).trans h.pending⟩
  reset d flash hok := absurd hok id

/-- A device that finds a record boots into the trial of an image that the bootloader has not made
final. -/
theorem boot_onTrial {nvs : Nvs} {cfg : Config} {o : BootAnswers} {p : Pending}
    (hcfg : cfg.validate = .ok) (hopening : o.opening = {}) (hverify : o.image.pendingVerify = true)
    (hpending : DeviceStore.loadPending nvs = some p) : OnTrial p (begin nvs cfg o).2 := by
  have hmounted : mounted nvs o = (true, { nvs with answers := o.flash }) := by
    unfold mounted Nvs.begin
    rw [hopening]
    rfl
  have hhas : DeviceStore.hasPending (mounted nvs o).2 = true := by
    rw [hmounted]
    obtain ⟨id, hid, -⟩ := Option.map_eq_some_iff.mp hpending
    exact Option.isSome_iff_exists.mpr ⟨id, hid⟩
  have hmove := begin_move nvs cfg o
  generalize (begin nvs cfg o).2 = d at hmove
  cases hmove with
  | refused hinvalid => exact absurd hcfg hinvalid
  | unopened _ hclosed =>
      rw [hmounted] at hclosed
      cases hclosed
  | booted _ _ hrestored =>
      cases hrestored with
      | dropped _ hother => cases hother.symm.trans hverify
      | fresh hnone => cases hnone.symm.trans hhas
      | confirming _ _ hnvs =>
          refine ⟨rfl, rfl, rfl, ?_⟩
          rw [hmounted] at hnvs
          refine (DeviceStore.loadPending_congr fun key hkey => hnvs key fun hmem => ?_).trans
            hpending
          revert key
          decide

/-- A confirmation on a flash that fails no more records all of it. -/
theorem settled_steady {nvs nvs' : Nvs} {p : Pending} (hsteady : nvs.answers = [])
    (hid : p.updateId.text.byteAt 0 ≠ 0) (hversion : p.version.text.byteAt 0 ≠ 0)
    (hnvs : Touches [.otaState, .abortReason] (settled nvs p) nvs') :
    DeviceStore.firmwareVersion nvs' = some p.version ∧
      DeviceStore.lastUpdateId nvs' = some p.updateId ∧ DeviceStore.loadPending nvs' = none := by
  obtain ⟨hrecorded, hcommitted⟩ :=
    DeviceStore.commitFirmware_steady nvs p.repo.text hversion hsteady
  obtain ⟨hnamed, hset⟩ := DeviceStore.setLastUpdateId_steady _ hid hcommitted
  have hcleared := DeviceStore.clearPending_steady _ hset
  refine ⟨Nvs.getString_of _ ?_ hversion, Nvs.getString_of _ ?_ hid, ?_⟩
  · rw [hnvs _ (by decide), settled, DeviceStore.clearPending_entries _ (by decide),
      DeviceStore.setLastUpdateId_entries _ _ (by decide)]
    exact hrecorded
  · rw [hnvs _ (by decide), settled, DeviceStore.clearPending_entries _ (by decide)]
    exact hnamed
  · have hnone : nvs'.entries .pendUpdateId = none := by
      rw [hnvs _ (by decide)]
      exact hcleared
    unfold DeviceStore.loadPending Nvs.getString
    rw [hnone]
    rfl

/-- A record that is read has an id. -/
theorem pending_updateId {nvs : Nvs} {p : Pending} (h : DeviceStore.loadPending nvs = some p) :
    p.updateId.text.byteAt 0 ≠ 0 := by
  obtain ⟨id, hid, rfl⟩ := Option.map_eq_some_iff.mp h
  exact (Nvs.getString_some hid).2

/-- What an answer makes of a device that has asked. -/
theorem confirmStep_answered {d : Impl} {now : UInt32} {i : ConfirmInput} {p : Pending}
    {url : CString} (hasked : d.Asked now i p url)
    (hpost : i.post.error = .ok ∧ i.post.status = 200) :
    d.confirmStep now i = (d.emit (d.question p url)).confirmed p := by
  obtain ⟨base, field, hbase, hurl, rfl⟩ := hasked.url_eq
  have hready : ¬((!d.linkUp i.link || !d.confirmBackoff.ready now) = true) := by
    simp [hasked.link, hasked.due]
  have hanswered : ¬(i.post.error ≠ .ok ∨ i.post.status ≠ 200) := by simp [hpost]
  rw [confirmStep, if_neg hready, hasked.pending]
  dsimp only
  rw [if_neg (by simp [hasked.inTime]), hbase]
  dsimp only
  rw [hurl]
  exact if_neg hanswered

/-- An image that was booted with its record is confirmed by the first answer that comes in time,
however many questions before stayed without one: its version and its order are on record then, and
nothing is pending any more. -/
theorem confirmation_completes {d d' : Impl} {cfg : Config} {o : BootAnswers} {p : Pending}
    {waiting : List Event} {i : Pass} {base : Field 128} {url : Field maxUrlLen}
    (hpending : DeviceStore.loadPending d.nvs = some p) (hversion : p.version.text.byteAt 0 ≠ 0)
    (hcfg : cfg.validate = .ok) (hopening : o.opening = {}) (hverify : o.image.pendingVerify = true)
    (hrun : Run (Step v) (exec v d (.boot cfg o)) waiting d')
    (hwaiting : ∀ e ∈ waiting, patient p e) (hlink : d'.linkUp i.confirm.link = true)
    (hdue : d'.confirmBackoff.ready i.now = true) (hbase : d'.apiBase = some base)
    (hurl : Url.formatPath base.text d'.cfg.endpoints.pathConfirm p.updateId.text maxUrlLen =
      some url)
    (hintime : overdue p i.confirm.time = false)
    (hpost : i.confirm.post.error = .ok ∧ i.confirm.post.status = 200) (hflash : i.flash = []) :
    (exec v d' (.pass i)).state = .operation ∧ .markedValid ∈ (exec v d' (.pass i)).emitted ∧
      DeviceStore.firmwareVersion (exec v d' (.pass i)).nvs = some p.version ∧
      DeviceStore.lastUpdateId (exec v d' (.pass i)).nvs = some p.updateId ∧
      DeviceStore.loadPending (exec v d' (.pass i)).nvs = none := by
  have htrial := (onTrial_kept v p).run hrun hwaiting
    (boot_onTrial hcfg hopening hverify hpending)
  obtain ⟨_, _, _, _, _, _, _, _, _, _, _, hprepared, -⟩ := prepare_aside (d'.facing i.flash) i
  have hpass : exec v d' (.pass i) =
      ((d'.facing i.flash).prepare i).confirmStep i.now i.confirm := by
    rw [exec_running v htrial.running]
    show loop v (d'.facing i.flash) i = _
    rw [loop, if_neg (by simp [facing, htrial.storeOpen])]
    exact if_pos (by rw [hprepared]; exact htrial.state)
  have hasked : ((d'.facing i.flash).prepare i).Asked i.now i.confirm p url.text := by
    rw [hprepared]
    exact ⟨hlink, hdue, htrial.pending, hintime, base, url, hbase, hurl, rfl⟩
  have hanswers : ((d'.facing i.flash).prepare i).nvs.answers = [] := by
    rw [(prepare_aside _ i).nvs]
    exact hflash
  rw [hpass, confirmStep_answered hasked hpost]
  generalize (d'.facing i.flash).prepare i = d'' at hasked hanswers ⊢
  obtain ⟨nvs, es, heq, hnvs, -⟩ := confirmed_eq (d''.emit (d''.question p url.text)) p
  obtain ⟨hrecorded, hnamed, hcleared⟩ :=
    settled_steady hanswers (pending_updateId hasked.pending) hversion hnvs
  rw [heq]
  refine ⟨rfl, ?_, hrecorded, hnamed, hcleared⟩
  exact List.mem_append_right _ List.mem_cons_self

/-- The sample device on trial, with one question that stayed without an answer. -/
def sampleAsked : Impl :=
  after sampleVendor
    (exec sampleVendor (after sampleVendor {} (sampleStart ++ sampleUpdate)) sampleTrial)
    [.pass (sampleQuestion 1000)]

/-- It is confirmed by the second one. -/
theorem confirmation_completes_sample :
    DeviceStore.firmwareVersion (exec sampleVendor sampleAsked
      (.pass { sampleConfirmation with now := 5000 })).nvs =
      some (after sampleVendor {} sampleStart).order.targetVersion := by
  have hpending : DeviceStore.loadPending
      (after sampleVendor {} (sampleStart ++ sampleUpdate)).nvs =
      some ((after sampleVendor {} sampleStart).pendingRecord 0) := by decide +kernel
  have hwaiting : ∀ e ∈ [Event.pass (sampleQuestion 1000)],
      patient ((after sampleVendor {} sampleStart).pendingRecord 0) e := by
    intro e he
    obtain rfl := List.mem_singleton.mp he
    exact ⟨by simp [unanswered, sampleQuestion], by decide +kernel⟩
  have hlink : sampleAsked.linkUp sampleConfirmation.confirm.link = true := by decide +kernel
  have hbase : sampleAsked.apiBase = some (.print (by decide) (literal "http://h")) := by
    decide +kernel
  have hurl : Url.formatPath (literal "http://h") sampleAsked.cfg.endpoints.pathConfirm
      ((after sampleVendor {} sampleStart).pendingRecord 0).updateId.text maxUrlLen =
      some (.print maxUrlLen_pos (literal "http://h/api/v1/firmware/u/confirm")) := by
    decide +kernel
  have hend := confirmation_completes sampleVendor (i := { sampleConfirmation with now := 5000 })
    hpending (by decide +kernel) (by decide +kernel) rfl rfl (run_after sampleVendor _ _) hwaiting
    hlink (by decide +kernel) hbase hurl (by decide +kernel) ⟨rfl, rfl⟩ rfl
  exact hend.2.2.1

end FirmwareUpdater.Impl
