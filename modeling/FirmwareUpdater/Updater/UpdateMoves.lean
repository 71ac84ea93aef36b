import FirmwareUpdater.Esp32.BootSafety
import FirmwareUpdater.Updater.Frames

/-!
# What a step of an update can do

`otaStep` gives the update up, waits, starts a download, feeds the sink or applies the
image, and `confirmStep` takes the image back, asks the server again or commits. Each of
the two has one inductive relation for that, with what every way needs of the state before.
-/

namespace FirmwareUpdater.Impl

variable (v : Vendor)

/-! ## Giving up -/

/-- The update was given up: the sink is closed, and nothing is left of the download but what the
slot holds. -/
def GivenUp (d d' : Impl) : Prop :=
  ∃ sessions mqttStarted wasConnected mqttBackoff ota slot lastProgressMs abortReason nvs es,
    d' =
      { d with
        sessions, mqttStarted, wasConnected, mqttPausedForOta := false, mqttBackoff
        ota, slot, lastProgressMs
        hasOrder := false, state := .operation, otaState := .failed, abortReason, nvs
        emitted := d.emitted ++ es } ∧
    ota.isOpen = false ∧ Touches [.otaState, .abortReason] d.nvs nvs ∧
    Only [.ota, .session, .download] es ∧
    ∃ paused, Hung d sessions mqttStarted wasConnected paused

theorem failOta_givenUp (d : Impl) (reason : AbortReason) : GivenUp d (d.failOta reason) := by
  obtain ⟨backoff, nvs, es, heq, hnvs, hes⟩ := failOta_eq d reason
  refine ⟨_, _, _, backoff, _, _, _, _, nvs, es, heq, OtaSink.abort_closes d.ota, hnvs, ?_,
    _, .refl d⟩
  exact hes.mono (by decide)

theorem failOta_slot (d : Impl) (reason : AbortReason) : (d.failOta reason).slot = d.slot := by
  obtain ⟨_, _, _, heq, -, -⟩ := failOta_eq d reason
  rw [heq]

/-- What is given up later may have moved the download and the session before. -/
theorem GivenUp.of_moved {d d' : Impl} {sessions mqttStarted wasConnected paused mqttBackoff ota
    slot lastProgressMs es}
    (h : GivenUp
      { d with
        sessions, mqttStarted, wasConnected, mqttPausedForOta := paused, mqttBackoff
        ota, slot, lastProgressMs, emitted := d.emitted ++ es } d')
    (hes : Only [.ota, .session, .download] es)
    (hhung : Hung d sessions mqttStarted wasConnected paused) :
    GivenUp d d' := by
  obtain ⟨s, m, w, b, ota', slot', l, r, nvs, es', heq, hclosed, hnvs, hes', paused', hhung'⟩ := h
  refine ⟨s, m, w, b, ota', slot', l, r, nvs, es ++ es', ?_, hclosed, hnvs, hes.append hes',
    paused', ?_⟩
  · rw [heq, ← List.append_assoc]
  · rcases hhung' with ⟨rfl, rfl, rfl, rfl⟩ | ⟨rfl, rfl, rfl, rfl⟩
    · exact hhung
    · rcases hhung with ⟨rfl, -⟩ | ⟨rfl, -⟩
      · exact .inr ⟨rfl, rfl, rfl, rfl⟩
      · exact .inr ⟨Function.update_idem _ _ _, rfl, rfl, rfl⟩

/-- What is given up with some of the image in the slot could have been given up before. -/
theorem GivenUp.of_fed {d d' : Impl} {ota : OtaSink} {slot : List UInt8} {lastProgressMs : UInt32}
    (h : GivenUp { d with ota, slot, lastProgressMs } d') : GivenUp d d' := h

/-! ## Starting a download -/

/-- A download was started on a sink that was opened for the announced size. -/
def Begun (d : Impl) (now : UInt32) (o : StartAnswers) (d' : Impl) : Prop :=
  ∃ sessions mqttStarted wasConnected paused ota nvs es,
    d' =
      { d with
        sessions, mqttStarted, wasConnected, mqttPausedForOta := paused
        ota, slot := [], lastProgressMs := now
        state := .downloading, otaState := .downloading, abortReason := .none, nvs
        emitted := d.emitted ++ es } ∧
    d.ota.begin d.order.sizeBytes o.sink = (.ok, ota) ∧
    Url.fetchable (some d.order.url.text) d.transport.supportsTls = true ∧ o.http = .ok ∧
    Touches [.otaState, .abortReason] d.nvs nvs ∧ Only [.ota, .session, .download] es ∧
    Hung d sessions mqttStarted wasConnected paused

theorem startDownload_cases (d : Impl) (now : UInt32) (o : StartAnswers) :
    GivenUp d (d.startDownload now o) ∨ Begun d now o (d.startDownload now o) := by
  unfold startDownload
  split
  · exact .inl (failOta_givenUp d .noWifi)
  rename_i hfetch
  obtain ⟨sessions, started, was, paused, es, heq, hes, hhung⟩ := pauseMqttForOta_eq d
  rw [heq]
  have hwide : Only [.ota, .session, .download] es := hes.mono (by decide)
  dsimp only [emit]
  split
  · exact .inl ((failOta_givenUp _ .flash).of_moved hwide hhung)
  rename_i hbegin
  have hbegin : (d.ota.begin d.order.sizeBytes o.sink).1 = .ok := not_not.mp hbegin
  have hfetched : Only [.ota, .session, .download] [.downloadBegun d.order.url.text] :=
    .single (by simp [Effect.kind])
  rw [List.append_assoc]
  split
  · exact .inl ((failOta_givenUp _ .network).of_moved (hwide.append hfetched) hhung)
  rename_i hhttp
  obtain ⟨nvs, es', heq', hnvs, hes'⟩ := setOtaState_eq
    { d with
      sessions, mqttStarted := started, wasConnected := was, mqttPausedForOta := paused
      ota := (d.ota.begin d.order.sizeBytes o.sink).2, slot := []
      lastProgressMs := now, state := .downloading
      emitted := d.emitted ++ (es ++ [.downloadBegun d.order.url.text]) } .downloading .none
  refine .inr ⟨sessions, started, was, paused, (d.ota.begin d.order.sizeBytes o.sink).2, nvs,
    es ++ [.downloadBegun d.order.url.text] ++ es', heq'.trans ?_, Prod.ext hbegin rfl, ?_,
    not_not.mp hhttp, hnvs, (hwide.append hfetched).append (hes'.mono (by decide)), hhung⟩
  · simp only [List.append_assoc]
  · simpa using hfetch

/-! ## Feeding the sink -/

/-- Chunks that the sink took one after the other, and what they left in the slot. -/
inductive Fed : OtaSink → List UInt8 → OtaSink → List UInt8 → Prop where
  | done (ota : OtaSink) (slot : List UInt8) : Fed ota slot ota slot
  | more {ota ota' : OtaSink} {slot slot' bytes : List UInt8} {o : OtaSink.WriteOutcome}
      (hfits : bytes.length ≤ kOtaChunkBuffer) (hok : (ota.write (chunk bytes) o).1 = .ok)
      (hrest : Fed (ota.write (chunk bytes) o).2.1
        (slot ++ flashed (ota.write (chunk bytes) o).2.2) ota' slot') :
      Fed ota slot ota' slot'

/-- A turn of the loop that brings a chunk. -/
theorem pumpLoop_chunk (d : Impl) {deadline moved : UInt32} {r : ChunkRead} (reads : List ChunkRead)
    (hclock : r.clock < deadline ∧ moved < d.cfg.ota.chunkBytes) (hresult : r.result = .ok) :
    d.pumpLoop deadline moved (r :: reads) =
      if (d.ota.write (chunk r.bytes) r.write).1 ≠ .ok then
        (true, failOta
          { d with
            ota := (d.ota.write (chunk r.bytes) r.write).2.1
            slot := d.slot ++ flashed (d.ota.write (chunk r.bytes) r.write).2.2 } .flash)
      else
        pumpLoop
          { d with
            ota := (d.ota.write (chunk r.bytes) r.write).2.1
            slot := d.slot ++ flashed (d.ota.write (chunk r.bytes) r.write).2.2
            lastProgressMs := r.after } deadline (moved + UInt32.ofNat r.bytes.length) reads := by
  rw [pumpLoop, if_neg (not_not.mpr hclock), hresult]

/-- The loop feeds the sink and stops, ends the download or gives it up. -/
theorem pumpLoop_cases (reads : List ChunkRead) (d : Impl) (deadline moved : UInt32) :
    (∃ ota slot lastProgressMs, Fed d.ota d.slot ota slot ∧
      (d.pumpLoop deadline moved reads = (false, { d with ota, slot, lastProgressMs }) ∨
        d.pumpLoop deadline moved reads =
          (true, downloaded { d with ota, slot, lastProgressMs }))) ∨
    ∃ d', d.pumpLoop deadline moved reads = (true, d') ∧ GivenUp d d' := by
  induction reads generalizing d moved with
  | nil => exact .inl ⟨_, _, _, .done _ _, .inl rfl⟩
  | cons r reads ih =>
      by_cases hclock : r.clock < deadline ∧ moved < d.cfg.ota.chunkBytes
      · cases hresult : r.result with
        | eof =>
            refine .inl ⟨d.ota, d.slot, d.lastProgressMs, .done _ _, .inr ?_⟩
            simp [pumpLoop, hclock, hresult]
        | wouldBlock =>
            refine .inl ⟨d.ota, d.slot, d.lastProgressMs, .done _ _, .inl ?_⟩
            simp [pumpLoop, hclock, hresult]
        | ok =>
            rw [pumpLoop_chunk d reads hclock hresult]
            by_cases hok : (d.ota.write (chunk r.bytes) r.write).1 = .ok
            · rw [if_neg (not_not.mpr hok)]
              rcases ih _ _ with ⟨ota, slot, last, hfed, hend⟩ | ⟨d', heq, hgiven⟩
              · exact .inl ⟨ota, slot, last, .more r.fits hok hfed, hend⟩
              · exact .inr ⟨d', heq, GivenUp.of_fed hgiven⟩
            · rw [if_pos hok]
              exact .inr ⟨_, rfl, GivenUp.of_fed (failOta_givenUp _ .flash)⟩
        | _ =>
            refine .inr ⟨d.failOta .network, ?_, failOta_givenUp d .network⟩
            simp [pumpLoop, hclock, hresult]
      · refine .inl ⟨d.ota, d.slot, d.lastProgressMs, .done _ _, .inl ?_⟩
        rw [pumpLoop, if_pos hclock]

theorem downloaded_eq (d : Impl) :
    ∃ nvs es, d.downloaded =
        { d with
          state := .verifying, otaState := .verifying, abortReason := .none, nvs
          emitted := d.emitted ++ es } ∧
      Touches [.otaState, .abortReason] d.nvs nvs ∧ Only [.ota, .download] es := by
  obtain ⟨nvs, es, heq, hnvs, hes⟩ := setOtaState_eq
    { d with emitted := d.emitted ++ [.downloadEnded], state := .verifying } .verifying .none
  have hended : Only [.ota, .download] [.downloadEnded] := .single (by decide)
  refine ⟨nvs, .downloadEnded :: es, heq.trans ?_, hnvs, hended.append (hes.mono (by decide))⟩
  rw [List.append_assoc, List.singleton_append]

/-- `pumpDownload` leaves a download that goes on, one that is complete, or none. -/
theorem pumpDownload_cases (d : Impl) (now : UInt32) (reads : List ChunkRead) (last : UInt32) :
    (∃ ota slot lastProgressMs, Fed d.ota d.slot ota slot ∧
      (d.pumpDownload now reads last = { d with ota, slot, lastProgressMs } ∨
        d.pumpDownload now reads last = downloaded { d with ota, slot, lastProgressMs })) ∨
    GivenUp d (d.pumpDownload now reads last) := by
  unfold pumpDownload
  rcases pumpLoop_cases reads d (now + d.cfg.ota.budgetMs) 0 with
    ⟨ota, slot, moved, hfed, heq | heq⟩ | ⟨d', heq, hgiven⟩
  · rw [heq]
    dsimp only
    split
    · exact .inr (GivenUp.of_fed (failOta_givenUp _ .stall))
    · exact .inl ⟨ota, slot, moved, hfed, .inl rfl⟩
  · rw [heq]
    exact .inl ⟨ota, slot, moved, hfed, .inr rfl⟩
  · rw [heq]
    exact .inr hgiven

/-! ## Applying the image -/

/-- What `finish` is called with. -/
def finished (d : Impl) (o : OtaSink.FinishOutcome) :
    OtaSinkError × OtaSink × List OtaSink.Effect :=
  d.ota.finish v.sha256 (if d.order.hasSha256 then some d.order.sha256 else none) o

/-- The device behind the call of `finish`. -/
def noted (d : Impl) (o : OtaSink.FinishOutcome) : Impl :=
  if .setBootPartition ∈ (finished v d o).2.2 then
    emit { d with ota := (finished v d o).2.1 } .bootPartitionSet
  else { d with ota := (finished v d o).2.1 }

/-- Effects that tell of a bootable image only where `finish` made one. -/
def Noted (d : Impl) (o : OtaSink.FinishOutcome) (es : List Effect) : Prop :=
  .bootPartitionSet ∈ es → .setBootPartition ∈ (finished v d o).2.2

theorem noted_eq (d : Impl) (o : OtaSink.FinishOutcome) :
    ∃ es, noted v d o = { d with ota := (finished v d o).2.1, emitted := d.emitted ++ es } ∧
      Noted v d o es ∧ Only [.image] es := by
  unfold noted
  split
  · rename_i hboots
    exact ⟨_, rfl, fun _ => hboots, .single (List.mem_singleton_self _)⟩
  · exact ⟨[], by rw [List.append_nil], fun h => absurd h List.not_mem_nil, .nil _⟩

/-- The image was made bootable, the record written, and the device restarts. -/
def Applied (d : Impl) (o : OtaSink.FinishOutcome) (time : Int) (d' : Impl) : Prop :=
  ∃ nvs es,
    d' =
      { d with
        ota := (finished v d o).2.1, otaState := .pendingReboot, abortReason := .none
        restarting := true, nvs, emitted := d.emitted ++ es } ∧
    (finished v d o).1 = .ok ∧
    Touches [.otaState, .abortReason] (DeviceStore.savePending d.nvs (d.pendingRecord time)).2 nvs ∧
    Noted v d o es ∧ Only [.ota, .image] es

/-- What an applied update writes. -/
theorem saved_touches {nvs nvs' : Nvs} {p : Pending}
    (h : Touches [.otaState, .abortReason] (DeviceStore.savePending nvs p).2 nvs') :
    Touches (.otaState :: .abortReason :: DeviceStore.pendingKeys) nvs nvs' := by
  refine Touches.trans (fun key hkey => ?_) (h.mono (by decide))
  exact DeviceStore.savePending_entries nvs p fun hmem =>
    hkey (List.mem_cons_of_mem _ (List.mem_cons_of_mem _ hmem))

theorem verifyAndApply_eq (d : Impl) (o : OtaSink.FinishOutcome) (time : Int) :
    verifyAndApply v d o time =
      if (finished v d o).1 ≠ .ok then
        (noted v d o).failOta (if (finished v d o).1 = .checksumMismatch then .checksum else .flash)
      else
        emit
          { setOtaState
              { noted v d o with
                nvs := (DeviceStore.savePending (noted v d o).nvs
                  ((noted v d o).pendingRecord time)).2 } .pendingReboot .none with
            restarting := true } .restarted := rfl

/-- `verifyAndApply` gives the update up or restarts into the image. -/
theorem verifyAndApply_cases (d : Impl) (o : OtaSink.FinishOutcome) (time : Int) :
    (∃ es, GivenUp { d with emitted := d.emitted ++ es } (verifyAndApply v d o time) ∧
      (verifyAndApply v d o time).slot = d.slot ∧ Noted v d o es ∧ Only [.image] es) ∨
    Applied v d o time (verifyAndApply v d o time) := by
  obtain ⟨es, heq, hes, honly⟩ := noted_eq v d o
  rw [verifyAndApply_eq, heq]
  split
  · exact .inl ⟨es, failOta_givenUp _ _, failOta_slot _ _, hes, honly⟩
  · rename_i hok
    obtain ⟨nvs, es', heq', hnvs, hes'⟩ := setOtaState_eq
      { d with
        ota := (finished v d o).2.1, emitted := d.emitted ++ es
        nvs := (DeviceStore.savePending d.nvs (d.pendingRecord time)).2 } .pendingReboot .none
    refine .inr ⟨nvs, es ++ es' ++ [.restarted], ?_, not_not.mp hok, hnvs, ?_, ?_⟩
    · rw [← List.append_assoc, ← List.append_assoc]
      exact congrArg (fun d => emit { d with restarting := true } .restarted) heq'
    · intro hboots
      rw [List.mem_append, List.mem_append] at hboots
      rcases hboots with (hboots | hboots) | hboots
      · exact hes hboots
      · exact absurd (hes' _ hboots) (by simp [Effect.kind])
      · simp at hboots
    · exact ((honly.mono (by decide)).append (hes'.mono (by decide))).append
        (.single (by simp [Effect.kind]))

/-! ## `otaStep` -/

/-- An order is being carried out. -/
def updating (d : Impl) : Bool :=
  match d.state with
  | .evaluatingOrder | .awaitingButton | .downloading | .verifying => true
  | _ => false

/-- A download may start: the order was just accepted, has a link and needs no button, or its button
was pressed. -/
def Ready (d : Impl) (i : OtaInput) : Prop :=
  (d.state = .evaluatingOrder ∧ d.otaLinkReady i.link i.anyLink = true ∧
      (d.needsButton = false ∨ d.cfg.button.buttonPin < 0)) ∨
    d.state = .awaitingButton ∧ d.buttonPressed i.button = true

/-- What a step of the update makes of a device. -/
inductive OtaMove (d : Impl) (now : UInt32) (i : OtaInput) : Impl → Prop where
  | idle (hstate : d.state ≠ .evaluatingOrder) (hdone : d.state ≠ .verifying) : OtaMove d now i d
  /-- There is no link for the download, or nobody pressed the button. -/
  | refused {hasOrder : Bool} {otaState : OtaState} {abortReason : AbortReason} {nvs : Nvs}
      {es : List Effect} (hstate : d.state = .evaluatingOrder ∨ d.state = .awaitingButton)
      (hnvs : Touches [.otaState, .abortReason] d.nvs nvs) (hes : Only [.ota] es) :
      OtaMove d now i
        { d with
          hasOrder, state := .operation, otaState, abortReason, nvs, emitted := d.emitted ++ es }
  | waits {buttonDeadlineMs : UInt32} {nvs : Nvs} {es : List Effect}
      (hstate : d.state = .evaluatingOrder) (hneeds : d.needsButton = true)
      (hnvs : Touches [.otaState, .abortReason] d.nvs nvs) (hes : Only [.ota] es) :
      OtaMove d now i
        { d with
          buttonDeadlineMs, state := .awaitingButton, otaState := .pendingUser, abortReason := .none
          nvs, emitted := d.emitted ++ es }
  | begun {d' : Impl} (hready : d.Ready i) (h : Begun d now i.start d') : OtaMove d now i d'
  | fed {ota : OtaSink} {slot : List UInt8} {lastProgressMs : UInt32}
      (hstate : d.state = .downloading) (hfed : Fed d.ota d.slot ota slot) :
      OtaMove d now i { d with ota, slot, lastProgressMs }
  | complete {ota : OtaSink} {slot : List UInt8} {lastProgressMs : UInt32} {nvs : Nvs}
      {es : List Effect} (hstate : d.state = .downloading) (hfed : Fed d.ota d.slot ota slot)
      (hnvs : Touches [.otaState, .abortReason] d.nvs nvs) (hes : Only [.ota, .download] es) :
      OtaMove d now i
        { d with
          ota, slot, lastProgressMs, state := .verifying, otaState := .verifying
          abortReason := .none, nvs, emitted := d.emitted ++ es }
  | givenUp {es : List Effect} {d' : Impl} (hstate : d.updating = true)
      (h : GivenUp { d with emitted := d.emitted ++ es } d') (hes : Only [.image] es)
      (hnoted : .bootPartitionSet ∈ es →
        d.state = .verifying ∧ d'.slot = d.slot ∧ Noted v d i.finish es) :
      OtaMove d now i d'
  | applied {d' : Impl} (hstate : d.state = .verifying) (h : Applied v d i.finish i.time d') :
      OtaMove d now i d'

/-- An update that is given up without a word about the image. -/
theorem OtaMove.dropped {d d' : Impl} {now : UInt32} {i : OtaInput} (hstate : d.updating = true)
    (h : GivenUp d d') : OtaMove v d now i d' := by
  have hnothing : GivenUp { d with emitted := d.emitted ++ [] } d' := by rwa [List.append_nil]
  exact .givenUp hstate hnothing (.nil _) fun hmem => absurd hmem List.not_mem_nil

theorem startDownload_move (d : Impl) (now : UInt32) (i : OtaInput) (hready : d.Ready i) :
    OtaMove v d now i (d.startDownload now i.start) := by
  have hupdating : d.updating = true := by
    rcases hready with ⟨hstate, -⟩ | ⟨hstate, -⟩ <;> rw [updating, hstate]
  rcases startDownload_cases d now i.start with hgiven | hbegun
  · exact .dropped v hupdating hgiven
  · exact .begun hready hbegun

theorem evaluateOrder_move (d : Impl) (now : UInt32) (i : OtaInput)
    (hstate : d.state = .evaluatingOrder) : OtaMove v d now i (d.evaluateOrder now i) := by
  unfold evaluateOrder
  split
  · obtain ⟨nvs, es, heq, hnvs, hes⟩ := setOtaState_eq d .aborted .gprs
    rw [heq]
    exact .refused (.inl hstate) hnvs hes
  rename_i hlink
  split
  · rename_i hbutton
    refine startDownload_move v d now i (.inl ⟨hstate, by simpa using hlink, ?_⟩)
    simpa using hbutton
  · rename_i hbutton
    obtain ⟨nvs, es, heq, hnvs, hes⟩ := setOtaState_eq
      { d with
        buttonDeadlineMs := now + d.remoteCfg.otaButtonWindowS.toUInt32 * 1000
        state := .awaitingButton } .pendingUser .none
    rw [heq]
    have hneeds : d.needsButton = true ∧ 0 ≤ d.cfg.button.buttonPin := by simpa using hbutton
    exact .waits hstate hneeds.1 hnvs hes

/-- The step of the update is one of its moves. -/
theorem otaStep_move (d : Impl) (now : UInt32) (i : OtaInput) :
    OtaMove v d now i (otaStep v d now i) := by
  unfold otaStep
  split
  · rename_i hstate
    exact evaluateOrder_move v d now i hstate
  · rename_i hstate
    split
    · rename_i hpressed
      exact startDownload_move v d now i (.inr ⟨hstate, hpressed⟩)
    split
    · have hmove : OtaMove v d now i
          { d with hasOrder := false, state := .operation, emitted := d.emitted ++ [] } :=
        .refused (.inr hstate) (.refl _ d.nvs) (.nil _)
      rwa [List.append_nil] at hmove
    · exact .idle (by simp [hstate]) (by simp [hstate])
  · rename_i hstate
    split
    · exact .dropped v (by rw [updating, hstate]) (failOta_givenUp d .network)
    rcases pumpDownload_cases d now i.reads i.last with ⟨ota, slot, last, hfed, heq | heq⟩ | hgiven
    · rw [heq]
      exact .fed hstate hfed
    · obtain ⟨nvs, es, heq', hnvs, hes⟩ := downloaded_eq
        { d with ota, slot, lastProgressMs := last }
      rw [heq, heq']
      exact .complete hstate hfed hnvs hes
    · exact .dropped v (by rw [updating, hstate]) hgiven
  · rename_i hstate
    rcases verifyAndApply_cases v d i.finish i.time with
      ⟨es, hgiven, hslot, hnoted, hes⟩ | happlied
    · exact .givenUp (by rw [updating, hstate]) hgiven hes fun _ => ⟨hstate, hslot, hnoted⟩
    · exact .applied hstate happlied
  · rename_i hevaluating _ _ hverifying
    exact .idle hevaluating hverifying

variable {v} in
/-- Without an order it does nothing. -/
theorem ota_idle {d d' : Impl} {now : UInt32} {i : OtaInput} (hmove : OtaMove v d now i d')
    (h : d.updating = false) : d' = d := by
  have hnone : ∀ {state}, d.state = state → state ∈ [.evaluatingOrder, .awaitingButton,
      .downloading, DeviceState.verifying] → False := by
    intro state hstate hmem
    rw [updating, hstate] at h
    simp only [List.mem_cons, List.not_mem_nil, or_false] at hmem
    rcases hmem with rfl | rfl | rfl | rfl <;> cases h
  cases hmove with
  | idle => rfl
  | refused hstate => exact (hstate.elim (hnone · (by simp)) (hnone · (by simp))).elim
  | waits hstate => exact (hnone hstate (by simp)).elim
  | begun hready =>
      rcases hready with ⟨hstate, -⟩ | ⟨hstate, -⟩ <;> exact (hnone hstate (by simp)).elim
  | fed hstate => exact (hnone hstate (by simp)).elim
  | complete hstate => exact (hnone hstate (by simp)).elim
  | givenUp hupdating => exact absurd (h.symm.trans hupdating) (by decide)
  | applied hstate => exact (hnone hstate (by simp)).elim

variable {v} in
/-- What a step of the update writes. -/
theorem ota_touches {d d' : Impl} {now : UInt32} {i : OtaInput} (hmove : OtaMove v d now i d') :
    Touches (.otaState :: .abortReason :: DeviceStore.pendingKeys) d.nvs d'.nvs := by
  cases hmove with
  | idle => exact .refl _ _
  | refused _ hnvs => exact hnvs.mono (by decide)
  | waits _ _ hnvs => exact hnvs.mono (by decide)
  | begun _ hbegun =>
      obtain ⟨_, _, _, _, _, _, _, rfl, -, -, -, hnvs, -⟩ := hbegun
      exact hnvs.mono (by decide)
  | fed => exact .refl _ _
  | complete _ _ hnvs => exact hnvs.mono (by decide)
  | givenUp _ hgiven =>
      obtain ⟨_, _, _, _, _, _, _, _, _, _, rfl, -, hnvs, -⟩ := hgiven
      exact hnvs.mono (by decide)
  | applied _ happlied =>
      obtain ⟨_, _, rfl, -, hnvs, -, -⟩ := happlied
      exact saved_touches hnvs

variable {v} in
/-- What it does outside. -/
theorem ota_emits {d d' : Impl} {now : UInt32} {i : OtaInput} (hmove : OtaMove v d now i d') :
    ∃ es, d'.emitted = d.emitted ++ es ∧ Only [.ota, .session, .download, .image] es := by
  cases hmove with
  | idle => exact ⟨[], (List.append_nil _).symm, .nil _⟩
  | refused _ _ hes => exact ⟨_, rfl, hes.mono (by decide)⟩
  | waits _ _ _ hes => exact ⟨_, rfl, hes.mono (by decide)⟩
  | begun _ hbegun =>
      obtain ⟨_, _, _, _, _, _, _, rfl, -, -, -, -, hes, -⟩ := hbegun
      exact ⟨_, rfl, hes.mono (by decide)⟩
  | fed => exact ⟨[], (List.append_nil _).symm, .nil _⟩
  | complete _ _ _ hes => exact ⟨_, rfl, hes.mono (by decide)⟩
  | givenUp _ hgiven hes =>
      obtain ⟨_, _, _, _, _, _, _, _, _, es', rfl, -, -, hes', -⟩ := hgiven
      refine ⟨_, List.append_assoc _ _ _, (hes.mono ?_).append (hes'.mono ?_)⟩
      · decide
      · decide
  | applied _ happlied =>
      obtain ⟨_, _, rfl, -, -, -, hes⟩ := happlied
      exact ⟨_, rfl, hes.mono (by decide)⟩

/-- The remote configuration, the pings and what the application asked for are as they were. -/
structure Unmoved (d d' : Impl) : Prop where
  remoteCfg : d'.remoteCfg = d.remoteCfg
  lastPingMs : d'.lastPingMs = d.lastPingMs
  subs : d'.subs = d.subs
  mqttMaxPublishQos : d'.mqttMaxPublishQos = d.mqttMaxPublishQos

variable {v} in
/-- An update leaves these alone, and the topics. -/
theorem ota_rest {d d' : Impl} {now : UInt32} {i : OtaInput} (hmove : OtaMove v d now i d') :
    Unmoved d d' ∧ d'.topics = d.topics := by
  cases hmove with
  | begun _ hbegun =>
      obtain ⟨_, _, _, _, _, _, _, rfl, -⟩ := hbegun
      exact ⟨⟨rfl, rfl, rfl, rfl⟩, rfl⟩
  | givenUp _ hgiven =>
      obtain ⟨_, _, _, _, _, _, _, _, _, _, rfl, -⟩ := hgiven
      exact ⟨⟨rfl, rfl, rfl, rfl⟩, rfl⟩
  | applied _ happlied =>
      obtain ⟨_, _, rfl, -⟩ := happlied
      exact ⟨⟨rfl, rfl, rfl, rfl⟩, rfl⟩
  | _ => exact ⟨⟨rfl, rfl, rfl, rfl⟩, rfl⟩

variable {v} in
/-- It puts no image on trial. -/
theorem ota_state {d d' : Impl} {now : UInt32} {i : OtaInput} (hmove : OtaMove v d now i d')
    (hstate : d.state ≠ .confirming) : d'.state ≠ .confirming := by
  cases hmove with
  | idle => exact hstate
  | begun _ hbegun =>
      obtain ⟨_, _, _, _, _, _, _, rfl, -⟩ := hbegun
      exact fun hnext => by cases hnext
  | fed => exact hstate
  | givenUp _ hgiven =>
      obtain ⟨_, _, _, _, _, _, _, _, _, _, rfl, -⟩ := hgiven
      exact fun hnext => by cases hnext
  | applied _ happlied =>
      obtain ⟨_, _, rfl, -⟩ := happlied
      exact hstate
  | _ => exact fun hnext => by cases hnext

variable {v} in
/-- It brings no session up. -/
theorem ota_down {d d' : Impl} {now : UInt32} {i : OtaInput} (hmove : OtaMove v d now i d')
    (hdown : d.wasConnected = false) : d'.wasConnected = false := by
  cases hmove with
  | begun _ hbegun =>
      obtain ⟨_, _, _, _, _, _, _, rfl, -, -, -, -, -, hhung⟩ := hbegun
      exact hhung.down hdown
  | givenUp _ hgiven =>
      obtain ⟨_, _, _, _, _, _, _, _, _, _, rfl, -, -, -, _, hhung⟩ := hgiven
      exact hhung.down hdown
  | applied _ happlied =>
      obtain ⟨_, _, rfl, -⟩ := happlied
      exact hdown
  | _ => exact hdown

/-! ## `confirmStep` -/

/-- What the flash holds once an update was confirmed. -/
def settled (nvs : Nvs) (p : Pending) : Nvs :=
  (DeviceStore.clearPending (DeviceStore.setLastUpdateId
    (DeviceStore.commitFirmware nvs p.version.text p.repo.text).2 p.updateId.text).2).2

/-- The server is asked about a pending update: there is a link, the time has come and the image is
not overdue. -/
structure Asked (d : Impl) (now : UInt32) (i : ConfirmInput) (p : Pending) (url : CString) :
    Prop where
  link : d.linkUp i.link = true
  due : d.confirmBackoff.ready now = true
  pending : DeviceStore.loadPending d.nvs = some p
  inTime : overdue p i.time = false
  url_eq : ∃ base field, d.apiBase = some base ∧
    Url.formatPath base.text d.cfg.endpoints.pathConfirm p.updateId.text maxUrlLen = some field ∧
    url = field.text

/-- The request it is asked with. -/
def question (d : Impl) (p : Pending) (url : CString) : Effect :=
  .posted url ((confirmBody d.deviceId.text p).take 383)

/-- What a step of the confirmation makes of a device. -/
inductive ConfirmMove (d : Impl) (now : UInt32) (i : ConfirmInput) : Impl → Prop where
  | waits : ConfirmMove d now i d
  | forgotten (hlink : d.linkUp i.link = true) (hpending : DeviceStore.loadPending d.nvs = none) :
      ConfirmMove d now i { d with state := .operation }
  | reverted {p : Pending} (hlink : d.linkUp i.link = true)
      (hpending : DeviceStore.loadPending d.nvs = some p) (hlate : overdue p i.time = true) :
      ConfirmMove d now i (d.revert i.reverts)
  | refused {p : Pending} {url : CString} (hasked : d.Asked now i p url)
      (hpost : i.post.error ≠ .ok ∨ i.post.status ≠ 200) :
      ConfirmMove d now i
        { d with
          confirmBackoff := d.confirmBackoff.fail now
          emitted := d.emitted ++ [d.question p url] }
  | committed {p : Pending} {url : CString} {nvs : Nvs} {es : List Effect}
      (hasked : d.Asked now i p url) (hpost : i.post.error = .ok ∧ i.post.status = 200)
      (hnvs : Touches [.otaState, .abortReason] (settled d.nvs p) nvs) (hes : Only [.ota] es) :
      ConfirmMove d now i
        { d with
          confirmBackoff := d.confirmBackoff.reset, state := .operation
          otaState := .idle, abortReason := .none, nvs
          emitted := d.emitted ++ (d.question p url :: .markedValid :: es) }

theorem confirmed_eq (d : Impl) (p : Pending) :
    ∃ nvs es, d.confirmed p =
        { d with
          confirmBackoff := d.confirmBackoff.reset, state := .operation
          otaState := .idle, abortReason := .none, nvs
          emitted := d.emitted ++ .markedValid :: es } ∧
      Touches [.otaState, .abortReason] (settled d.nvs p) nvs ∧ Only [.ota] es := by
  obtain ⟨nvs, es, heq, hnvs, hes⟩ := setOtaState_eq
    { d with
      nvs := settled d.nvs p, confirmBackoff := d.confirmBackoff.reset, state := .operation
      emitted := d.emitted ++ [.markedValid] } .idle .none
  rw [List.append_assoc, List.singleton_append] at heq
  exact ⟨nvs, es, heq, hnvs, hes⟩

/-- The step of the confirmation is one of its moves. -/
theorem confirmStep_move (d : Impl) (now : UInt32) (i : ConfirmInput) :
    ConfirmMove d now i (d.confirmStep now i) := by
  unfold confirmStep
  split
  · exact .waits
  rename_i hready
  have hready : d.linkUp i.link = true ∧ d.confirmBackoff.ready now = true := by
    simpa using hready
  split
  · rename_i hpending
    exact .forgotten hready.1 hpending
  rename_i p hpending
  split
  · rename_i hlate
    exact .reverted hready.1 hpending hlate
  rename_i hintime
  split
  · exact .waits
  rename_i base hbase
  split
  · exact .waits
  rename_i url hurl
  have hasked : d.Asked now i p url.text :=
    ⟨hready.1, hready.2, hpending, by simpa using hintime, base, url, hbase, hurl, rfl⟩
  dsimp only
  split
  · rename_i hpost
    exact .refused hasked hpost
  · rename_i hpost
    rw [not_or, not_not, not_not] at hpost
    obtain ⟨nvs, es, heq, hnvs, hes⟩ := confirmed_eq (d.emit (d.question p url.text)) p
    show ConfirmMove d now i ((d.emit (d.question p url.text)).confirmed p)
    rw [heq]
    dsimp only [emit]
    rw [List.append_assoc]
    exact .committed hasked hpost hnvs hes

/-- What a step of the confirmation writes. -/
theorem confirm_touches {d d' : Impl} {now : UInt32} {i : ConfirmInput}
    (hmove : ConfirmMove d now i d') :
    Touches (.otaState :: .abortReason :: .fwVersion :: .fwRepo :: .lastUpdateId ::
      DeviceStore.pendingKeys) d.nvs d'.nvs := by
  cases hmove with
  | waits => exact .refl _ _
  | forgotten => exact .refl _ _
  | reverted =>
      have hcleared : Touches DeviceStore.pendingKeys d.nvs (DeviceStore.clearPending d.nvs).2 :=
        fun _ hkey => DeviceStore.clearPending_entries d.nvs hkey
      exact hcleared.mono (by decide)
  | refused => exact .refl _ _
  | committed _ _ hnvs =>
      have hcommitted : ∀ p : Pending, Touches [.fwVersion, .fwRepo] d.nvs
          (DeviceStore.commitFirmware d.nvs p.version.text p.repo.text).2 :=
        fun p _ hkey => DeviceStore.commitFirmware_entries d.nvs _ _ hkey
      have hnamed : ∀ (nvs : Nvs) (id : CString), Touches [.lastUpdateId] nvs
          (DeviceStore.setLastUpdateId nvs id).2 :=
        fun nvs id _ hkey => DeviceStore.setLastUpdateId_entries nvs id (by simpa using hkey)
      have hcleared : ∀ nvs : Nvs, Touches DeviceStore.pendingKeys nvs
          (DeviceStore.clearPending nvs).2 :=
        fun nvs _ hkey => DeviceStore.clearPending_entries nvs hkey
      refine Touches.trans ?_ (hnvs.mono (by decide))
      exact (((hcommitted _).mono (by decide)).trans ((hnamed _ _).mono (by decide))).trans
        ((hcleared _).mono (by decide))

/-- What it leaves alone. -/
theorem confirm_rest {d d' : Impl} {now : UInt32} {i : ConfirmInput}
    (hmove : ConfirmMove d now i d') : Unmoved d d' ∧ d'.topics = d.topics := by
  cases hmove <;> exact ⟨⟨rfl, rfl, rfl, rfl⟩, rfl⟩

/-- What it does outside. -/
theorem confirm_emits {d d' : Impl} {now : UInt32} {i : ConfirmInput}
    (hmove : ConfirmMove d now i d') :
    ∃ es, d'.emitted = d.emitted ++ es ∧ Only [.request, .mark, .ota] es := by
  cases hmove with
  | waits => exact ⟨[], (List.append_nil _).symm, .nil _⟩
  | forgotten => exact ⟨[], (List.append_nil _).symm, .nil _⟩
  | reverted => exact ⟨_, rfl, .single (by simp [Effect.kind])⟩
  | refused => exact ⟨_, rfl, .single (by simp [question, Effect.kind])⟩
  | committed _ _ _ hes =>
      refine ⟨_, rfl, ?_⟩
      intro effect hmem
      rcases List.mem_cons.mp hmem with rfl | hmem
      · simp [question, Effect.kind]
      rcases List.mem_cons.mp hmem with rfl | hmem
      · simp [Effect.kind]
      · exact hes.mono (by decide) effect hmem

end FirmwareUpdater.Impl
