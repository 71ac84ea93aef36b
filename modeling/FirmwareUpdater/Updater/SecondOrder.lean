import FirmwareUpdater.Updater.ImageIntegrity
import FirmwareUpdater.Updater.OrderAcceptance

/-!
# An order during a download

`handleOrder` does not ask what the device is doing. An order that it accepts during a
download takes the place of the one that is carried out, and the sink that is still open for
that one refuses to be opened again. An order is acceptable until it was confirmed, so the
broker ends a download by delivering its message once more.
-/

namespace FirmwareUpdater.Impl

open Library

variable (v : Vendor)

/-! ## The sink of a download is open -/

/-- Chunks leave the sink open. -/
theorem fed_isOpen {ota ota' : OtaSink} {slot slot' : List UInt8} (hfed : Fed ota slot ota' slot')
    (h : ota.isOpen = true) : ota'.isOpen = true := by
  induction hfed with
  | done => exact h
  | @more ota _ _ _ bytes o _ _ _ ih =>
      refine ih ?_
      rcases ota.write_cases (chunk bytes) o with ⟨-, hwrite⟩ | ⟨-, _, -, hwrite⟩ <;> rw [hwrite]
      · exact h
      · dsimp only
        split <;> exact h

/-- A sink that was opened is open. -/
theorem begin_isOpen {ota opened : OtaSink} {size : UInt32} {o : OtaSink.BeginOutcome}
    (hbegin : ota.begin size o = (.ok, opened)) : ota.isOpen = false ∧ opened.isOpen = true := by
  unfold OtaSink.begin at hbegin
  cases hopen : ota.isOpen with
  | true => simp [hopen] at hbegin
  | false =>
      refine ⟨rfl, ?_⟩
      rw [hopen] at hbegin
      simp only [Bool.false_eq_true, if_false] at hbegin
      split at hbegin
      · cases hbegin
      split at hbegin
      · cases hbegin
      split at hbegin
      · cases hbegin
      split at hbegin <;> cases hbegin
      rfl

/-- A download has an open sink. -/
def Downloading (d : Impl) : Prop := d.state = .downloading → d.ota.isOpen = true

/-- Every event keeps it so. -/
theorem downloading_kept : Kept v (fun _ => True) Downloading where
  facing d flash h := h
  aside d d' haside h := by
    obtain ⟨_, _, _, _, _, _, _, _, _, _, _, rfl, -⟩ := haside
    exact h
  boot d cfg o d' _ hmove _ hstate := by
    have hrest := (boot_rest hmove).2.1
    rw [updating, hstate] at hrest
    cases hrest
  confirm d i d' _ _ hconfirming hmove h := by
    have hother : d.state ≠ .downloading := by
      rw [hconfirming]
      simp
    cases hmove with
    | waits => exact h
    | forgotten => exact fun hstate => by cases hstate
    | reverted => exact fun hstate => absurd hstate hother
    | refused => exact h
    | committed => exact fun hstate => by cases hstate
  provision d i d' _ _ _ _ hmove h := by
    cases hmove with
    | waits => exact h
    | denied => exact fun hstate => by cases hstate
    | granted => exact fun hstate => by cases hstate
  ingest d i m _ _ _ _ h := by
    rcases ingest_cases v d m with ⟨_, _, _, _, _, heq, -⟩ | ⟨_, -, -, -, -, heq⟩ <;> rw [heq]
    · exact h
    · exact fun hstate => by cases hstate
  ota d i d' _ _ _ hmove h := by
    cases hmove with
    | idle => exact h
    | begun _ hbegun =>
        obtain ⟨_, _, _, _, _, _, _, rfl, hbegin, -⟩ := hbegun
        exact fun _ => (begin_isOpen hbegin).2
    | fed hstate hfed => exact fun _ => fed_isOpen hfed (h hstate)
    | givenUp _ hgiven =>
        obtain ⟨_, _, _, _, _, _, _, _, _, _, rfl, -⟩ := hgiven
        exact fun hstate => by cases hstate
    | applied hverifying happlied =>
        obtain ⟨_, _, rfl, -⟩ := happlied
        exact fun hstate => absurd (hverifying.symm.trans hstate) (by simp)
    | _ => exact fun hstate => by cases hstate
  seed d nvs _ h := h
  reset d flash _ h := h

/-! ## A message with an acceptable order -/

/-- The message brings an order that the device takes. -/
structure Acceptable (d : Impl) (m : Polled) : Prop where
  topic : m.topic = d.topics.update.text
  allowed : m.allowed = true
  order : ∃ order, parseOrder v (.ofBytes m.payload) = (.ok, order) ∧ d.judge order = .none

/-- Whether it does depends on what its check depends on, and on the topics. -/
theorem acceptable_congr {d d' : Impl} (m : Polled) (htopics : d'.topics = d.topics)
    (hcfg : d'.cfg = d.cfg) (hhw : d'.hw = d.hw)
    {keys : List NvsKey} (hnvs : Touches keys d.nvs d'.nvs)
    (hkeys : ∀ key ∈ judgeKeys, key ∉ keys) : Acceptable v d' m ↔ Acceptable v d m := by
  have hjudge : ∀ order, d'.judge order = d.judge order := fun order =>
    judge_congr order hcfg hhw fun key hkey => hnvs key (hkeys key hkey)
  constructor
  · rintro ⟨htopic, hallowed, order, hparse, hnone⟩
    exact ⟨htopics ▸ htopic, hallowed, order, hparse, (hjudge order).symm.trans hnone⟩
  · rintro ⟨htopic, hallowed, order, hparse, hnone⟩
    exact ⟨htopics ▸ htopic, hallowed, order, hparse, (hjudge order).trans hnone⟩

/-- Another message does not change that, nor the sink, nor an order that was taken. -/
theorem ingest_keeps (d : Impl) (m : Polled) :
    (ingest v d m).ota = d.ota ∧
      (d.state = .evaluatingOrder → (ingest v d m).state = .evaluatingOrder) ∧
      ∀ other, Acceptable v (ingest v d m) other ↔ Acceptable v d other := by
  rcases ingest_cases v d m with ⟨_, _, _, _, _, heq, hnvs, -⟩ | ⟨_, -, -, -, -, heq⟩ <;> rw [heq]
  · exact ⟨rfl, fun h => h, fun other => acceptable_congr v other rfl rfl rfl hnvs (by decide)⟩
  · exact ⟨rfl, fun _ => rfl,
      fun other => acceptable_congr v other rfl rfl rfl (.refl [] _) (by decide)⟩

/-- An acceptable order is taken. -/
theorem ingest_takes {d : Impl} {m : Polled} (h : Acceptable v d m) :
    (ingest v d m).state = .evaluatingOrder := by
  obtain ⟨order, hparse, hjudge⟩ := h.order
  rw [ingest, if_pos h.topic]
  simp [handleOrder, hparse, hjudge, h.allowed]

/-- So an inbox with one in it ends with an order to evaluate, and the sink as it was. -/
theorem inbox_takes {d : Impl} {m : Polled} {messages : List Polled} (hm : m ∈ messages)
    (h : Acceptable v d m) :
    (ingestStep v d messages).state = .evaluatingOrder ∧ (ingestStep v d messages).ota = d.ota := by
  have hrest : ∀ (messages : List Polled) (d : Impl),
      (ingestStep v d messages).ota = d.ota ∧ (d.state = .evaluatingOrder →
        (ingestStep v d messages).state = .evaluatingOrder) := by
    intro messages
    induction messages with
    | nil => exact fun d => ⟨rfl, fun hstate => hstate⟩
    | cons first messages ih =>
        intro d
        obtain ⟨hota, hstate⟩ := ih (ingest v d first)
        obtain ⟨hfirst, hkept, -⟩ := ingest_keeps v d first
        exact ⟨hota.trans hfirst, fun hd => hstate (hkept hd)⟩
  refine ⟨?_, (hrest messages d).1⟩
  induction messages generalizing d with
  | nil => cases hm
  | cons first messages ih =>
      rcases List.mem_cons.mp hm with rfl | hm
      · exact (hrest messages _).2 (ingest_takes v h)
      · exact ih hm (((ingest_keeps v d first).2.2 m).mpr h)

/-- With the sink open the order is not downloaded. -/
theorem blocked_order {d : Impl} (now : UInt32) (i : OtaInput) (hstate : d.state = .evaluatingOrder)
    (hopen : d.ota.isOpen = true) :
    (otaStep v d now i).state = .operation ∨ (otaStep v d now i).state = .awaitingButton := by
  have hmove := otaStep_move v d now i
  generalize otaStep v d now i = d' at hmove ⊢
  cases hmove with
  | idle hnone => exact absurd hstate hnone
  | refused => exact .inl rfl
  | waits => exact .inr rfl
  | begun _ hbegun =>
      obtain ⟨_, _, _, _, _, _, _, -, hbegin, -⟩ := hbegun
      exact absurd (hopen.symm.trans (begin_isOpen hbegin).1) (by decide)
  | fed hother => exact absurd (hstate.symm.trans hother) (by simp)
  | complete hother => exact absurd (hstate.symm.trans hother) (by simp)
  | givenUp _ hgiven =>
      obtain ⟨_, _, _, _, _, _, _, _, _, _, rfl, -⟩ := hgiven
      exact .inl rfl
  | applied hother => exact absurd (hstate.symm.trans hother) (by simp)

/-- What has no part in the update leaves it at that. -/
theorem Aside.acceptable {d d' : Impl} (haside : Aside d d') (m : Polled) :
    Acceptable v d' m ↔ Acceptable v d m := by
  obtain ⟨_, _, _, _, _, _, _, _, _, _, _, rfl, -⟩ := haside
  exact acceptable_congr v m rfl rfl rfl (.refl [] _) (by decide)

/-- Nor does anything in a pass before its messages change it. -/
theorem acceptable_reached (d : Impl) (i : Pass) (m : Polled) :
    Acceptable v (((d.facing i.flash).prepare i).mqttStep i.now i.mqtt) m ↔ Acceptable v d m := by
  rw [(mqttStep_aside _ i.now i.mqtt).acceptable v m,
    (prepare_aside (d.facing i.flash) i).acceptable v m]
  exact acceptable_congr v m rfl rfl rfl (.refl [] _) (by decide)

/-- A pass over an open sink that brings an acceptable order. -/
theorem order_mid_download {d : Impl} {i : Pass} {m : Polled} (hoperating : Operating d)
    (hopen : d.ota.isOpen = true) (hm : m ∈ i.inbox) (h : Acceptable v d m) :
    (exec v d (.pass i)).state = .operation ∨ (exec v d (.pass i)).state = .awaitingButton := by
  -- Up to the inbox nothing touches the order or the sink.
  have hsession := (acceptable_reached v d i m).mpr h
  have hsink : (((d.facing i.flash).prepare i).mqttStep i.now i.mqtt).ota.isOpen = true := by
    rw [(mqttStep_aside _ i.now i.mqtt).ota, (prepare_aside _ i).ota]
    exact hopen
  obtain ⟨htaken, hkept⟩ := inbox_takes v hm hsession
  have hblocked := blocked_order v i.now i.ota htaken (by rw [hkept]; exact hsink)
  rw [exec_operates v hoperating, operate]
  split
  · exact hblocked
  · rw [(pingStep_aside v _ i.now i.ping).state]
    exact hblocked

/-- The message that brought the order of a download ends it when it comes once more: the order is
still acceptable, it takes the place of itself, and the sink is open. So it is in every run in which
the store is not reset to factory, for every download and every pass of a device in operation. -/
theorem redelivery_ends_download {nvs : Nvs} {events : List Event} {d : Impl}
    (hrun : Run (Step v) { nvs } events d) (hevents : ∀ e ∈ events, keepsStore e)
    (hdownloading : d.state = .downloading) (hrunning : d.restarting = false)
    (hprovisioned : DeviceStore.isProvisioned d.nvs = true) (hstore : d.storeOpen = true) :
    ∃ before m, .pass before ∈ events ∧ m ∈ before.inbox ∧
      parseOrder v (.ofBytes m.payload) = (.ok, d.order) ∧ ∀ i : Pass, m ∈ i.inbox →
        (exec v d (.pass i)).state = .operation ∨
          (exec v d (.pass i)).state = .awaitingButton := by
  have hlawful := (lawful_kept v events).run hrun (fun e he => ⟨he, hevents e he⟩)
    fun hupdating => by cases hupdating
  have hopen := (downloading_kept v).run hrun (fun _ _ => trivial) (fun hstate => by cases hstate)
    hdownloading
  obtain ⟨before, m, hbefore, hm, htopic, hallowed, hparse, hjudge⟩ :=
    hlawful (by rw [updating, hdownloading])
  refine ⟨before, m, hbefore, hm, hparse, fun i hi => ?_⟩
  have hoperating : Operating d := ⟨hstore, hrunning, by simp [hdownloading], hprovisioned⟩
  exact order_mid_download v hoperating hopen hi ⟨htopic, hallowed, d.order, hparse, hjudge⟩

/-- The download of the sample device ends so. -/
theorem redelivery_ends_download_sample :
    ∃ before m, .pass before ∈ sampleStart ∧ m ∈ before.inbox ∧ ∀ i : Pass, m ∈ i.inbox →
      (exec sampleVendor (after sampleVendor {} sampleStart) (.pass i)).state ≠ .downloading := by
  obtain ⟨before, m, hbefore, hm, -, hends⟩ := redelivery_ends_download sampleVendor
    (run_after sampleVendor {} sampleStart) (by simp [sampleStart, keepsStore])
    (by decide +kernel) (by decide +kernel) (by decide +kernel) (by decide +kernel)
  refine ⟨before, m, hbefore, hm, fun i hi hstate => ?_⟩
  rcases hends i hi with hother | hother <;> cases hstate.symm.trans hother

end FirmwareUpdater.Impl
