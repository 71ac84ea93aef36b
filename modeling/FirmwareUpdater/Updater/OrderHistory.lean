import FirmwareUpdater.Updater.Confirmation

/-!
# What was ordered before

`record_from_orders` says where the record of a device comes from: every version, repo and id
in it was named by an order that came on the topic for updates. `confirmed_not_repeated` says
what the record is for: the last order that was confirmed is not carried out once more.
-/

namespace FirmwareUpdater

theorem Field.eq_of_text {cap : Nat} {first second : Field cap} (h : first.text = second.text) :
    first = second := by
  obtain ⟨text, _⟩ := first
  obtain ⟨_, _⟩ := second
  cases h
  rfl

namespace Impl

open Library

variable (v : Vendor)

/-! ## Every name on record was ordered -/

/-- An order that an event brings `d`, in operation, on the topic it has for updates, and that the
application allows. -/
def BringsOrder (d : Impl) : Event → UpdateOrder → Prop
  | .pass i, order =>
      Operating d ∧ ∃ m ∈ i.inbox, m.topic = d.topics.update.text ∧ m.allowed = true ∧
        parseOrder v (.ofBytes m.payload) = (.ok, order)
  | _, _ => False

/-- An order that one of `events` brought a device whose store was blank before them. -/
def Ordered (events : List Event) (order : UpdateOrder) : Prop :=
  ∃ before e rest, events = before ++ e :: rest ∧ BringsOrder v (after v {} before) e order

variable {v} in
/-- It stays one. -/
theorem Ordered.concat {events : List Event} {order : UpdateOrder} (h : Ordered v events order)
    (e : Event) : Ordered v (events ++ [e]) order := by
  obtain ⟨before, brought, rest, rfl, hbrings⟩ := h
  exact ⟨before, brought, rest ++ [e], by simp, hbrings⟩

variable {v} in
/-- What the last of them brings is one. -/
theorem BringsOrder.ordered {events : List Event} {e : Event} {order : UpdateOrder}
    (h : BringsOrder v (after v {} events) e order) : Ordered v (events ++ [e]) order :=
  ⟨events, e, [], rfl, h⟩

/-- The keys that hold a name from an order. -/
def nameKeys : List NvsKey := [.fwVersion, .fwRepo, .lastUpdateId, .pendVersion, .pendRepo,
  .pendUpdateId]

/-- What an order would have under each of them. -/
def named (order : UpdateOrder) : NvsKey → Option CString
  | .fwVersion | .pendVersion => some order.targetVersion.text
  | .fwRepo | .pendRepo => some order.repo.text
  | .lastUpdateId | .pendUpdateId => some order.updateId.text
  | _ => none

/-- What a store holds under `key` was named by one of `orders`. -/
def NamedAt (orders : UpdateOrder → Prop) (nvs : Nvs) (key : NvsKey) : Prop :=
  ∀ text, nvs.entries key = some (.string text) →
    ∃ order, orders order ∧ named order key = some text

/-- So is all that a device has on record, and the order in hand is one of them. -/
structure Attributed (orders : UpdateOrder → Prop) (d : Impl) : Prop where
  ordered : d.updating = true → orders d.order
  names : ∀ key ∈ nameKeys, NamedAt orders d.nvs key

section Names

variable {orders : UpdateOrder → Prop} {nvs nvs' : Nvs} {key : NvsKey}

theorem NamedAt.congr (h : NamedAt orders nvs key) (hkey : nvs'.entries key = nvs.entries key) :
    NamedAt orders nvs' key := by
  intro text htext
  exact h text (hkey ▸ htext)

theorem NamedAt.of_none (hkey : nvs.entries key = none) : NamedAt orders nvs key := by
  intro text htext
  cases hkey.symm.trans htext

/-- A name that was written. -/
theorem NamedAt.of_order {order : UpdateOrder} (horder : orders order) {written : CString}
    (hkey : nvs.entries key = some (.string written)) (hnamed : named order key = some written) :
    NamedAt orders nvs key := by
  intro text htext
  cases hkey.symm.trans htext
  exact ⟨order, horder, hnamed⟩

/-- Erasing the pending record leaves no other names. -/
theorem NamedAt.cleared (h : NamedAt orders nvs key) :
    NamedAt orders (DeviceStore.clearPending nvs).2 key := by
  rcases DeviceStore.clearPending_cases nvs key with hkept | hnone
  · exact h.congr hkept
  · exact .of_none hnone

end Names

section Moves

variable {v} {orders : UpdateOrder → Prop}

/-- Writes elsewhere. -/
theorem Attributed.keep {d d' : Impl} (h : Attributed orders d) {keys : List NvsKey}
    (hnvs : Touches keys d.nvs d'.nvs) (hkeys : ∀ key ∈ nameKeys, key ∉ keys)
    (hordered : d'.updating = true → d.updating = true ∧ d'.order = d.order) :
    Attributed orders d' where
  ordered hupdating := by
    obtain ⟨hbefore, hsame⟩ := hordered hupdating
    rw [hsame]
    exact h.ordered hbefore
  names key hkey := (h.names key hkey).congr (hnvs key (hkeys key hkey))

/-- An applied update writes the names of its order, as far as the writes succeed. -/
theorem saved_named {nvs : Nvs} {d : Impl} {time : Int} (horder : orders d.order)
    {key : NvsKey} (hkey : key ∈ nameKeys) (h : NamedAt orders nvs key) :
    NamedAt orders (DeviceStore.savePending nvs (d.pendingRecord time)).2 key := by
  unfold DeviceStore.savePending
  split
  · exact h
  rcases nvs.putAll_cases (DeviceStore.pendingWrites (d.pendingRecord time)) key with
    hkept | ⟨value, hmem, hwritten⟩
  · exact h.congr hkept
  · simp only [DeviceStore.pendingWrites, List.mem_cons, Prod.mk.injEq, List.not_mem_nil,
      or_false] at hmem
    rcases hmem with ⟨rfl, rfl⟩ | ⟨rfl, rfl⟩ | ⟨rfl, rfl⟩ | ⟨rfl, rfl⟩ | ⟨rfl, rfl⟩ | ⟨rfl, rfl⟩
    · exact .of_order horder hwritten rfl
    · exact .of_order horder hwritten rfl
    · exact .of_order horder hwritten rfl
    all_goals exact absurd hkey (by decide)

/-- A name that the pending record is read with stands under its key. -/
theorem pending_named {nvs : Nvs} {p : Pending} (hpending : DeviceStore.loadPending nvs = some p) :
    nvs.entries .pendUpdateId = some (.string p.updateId.text) ∧
      (p.version.text.byteAt 0 ≠ 0 → nvs.entries .pendVersion = some (.string p.version.text)) ∧
      (p.repo.text.byteAt 0 ≠ 0 → nvs.entries .pendRepo = some (.string p.repo.text)) := by
  have hread : ∀ {cap : Nat} (key : NvsKey) (hcap : 0 < cap),
      ((nvs.getString key cap).getD ⟨.empty, hcap⟩).text.byteAt 0 ≠ 0 →
        nvs.entries key =
          some (.string ((nvs.getString key cap).getD ⟨.empty, hcap⟩).text) := by
    intro cap key hcap hstarts
    cases hfound : nvs.getString key cap with
    | none =>
        rw [hfound] at hstarts
        exact absurd rfl hstarts
    | some field => exact (Nvs.getString_some hfound).1
  obtain ⟨id, hid, rfl⟩ := Option.map_eq_some_iff.mp hpending
  exact ⟨(Nvs.getString_some hid).1, hread .pendVersion _, hread .pendRepo _⟩

/-- A confirmation puts the names of the pending record on record. -/
theorem settled_named {nvs : Nvs} {p : Pending} (hpending : DeviceStore.loadPending nvs = some p)
    (h : ∀ key ∈ nameKeys, NamedAt orders nvs key) :
    ∀ key ∈ nameKeys, NamedAt orders (settled nvs p) key := by
  obtain ⟨hid, hversion, hrepo⟩ := pending_named hpending
  have hcommitted : ∀ key ∈ nameKeys,
      NamedAt orders (DeviceStore.commitFirmware nvs p.version.text p.repo.text).2 key := by
    intro key hkey
    unfold DeviceStore.commitFirmware
    split
    · exact h key hkey
    rename_i hstarts
    rcases nvs.putAll_cases ((.fwVersion, some (.string p.version.text)) ::
      if p.repo.text.byteAt 0 = 0 then [] else [(.fwRepo, some (.string p.repo.text))]) key with
      hkept | ⟨value, hmem, hwritten⟩
    · exact (h key hkey).congr hkept
    rcases List.mem_cons.mp hmem with hmem | hmem
    · cases hmem
      obtain ⟨order, horder, hnamed⟩ := h .pendVersion (by decide) _ (hversion hstarts)
      exact .of_order horder hwritten hnamed
    split at hmem
    · cases hmem
    · rename_i hrepostarts
      cases List.mem_singleton.mp hmem
      obtain ⟨order, horder, hnamed⟩ := h .pendRepo (by decide) _ (hrepo hrepostarts)
      exact .of_order horder hwritten hnamed
  intro key hkey
  refine NamedAt.cleared ?_
  by_cases hlast : key = .lastUpdateId
  · subst hlast
    obtain ⟨order, horder, hnamed⟩ := h .pendUpdateId (by decide) _ hid
    have hkept := hcommitted .lastUpdateId (by decide)
    generalize (DeviceStore.commitFirmware nvs p.version.text p.repo.text).2 = nvs' at hkept ⊢
    have hset := nvs'.put_self NvsKey.lastUpdateId (some (.string p.updateId.text))
    unfold DeviceStore.setLastUpdateId
    split
    · exact hkept
    · have hwritten : NamedAt orders
          (nvs'.put NvsKey.lastUpdateId (some (.string p.updateId.text))).2 .lastUpdateId := by
        rcases hset with hset | hset
        · exact .of_order horder hset hnamed
        · exact hkept.congr hset
      show NamedAt orders (if _ then _ else _ : Bool × Nvs).2 _
      split <;> exact hwritten
  · exact (hcommitted key hkey).congr (DeviceStore.setLastUpdateId_entries _ _ hlast)

/-- A step of the update. -/
theorem ota_attributed {d d' : Impl} {now : UInt32} {i : OtaInput} (hmove : OtaMove v d now i d')
    (h : Attributed orders d) : Attributed orders d' := by
  have hends : ∀ {nvs : Nvs}, Touches [.otaState, .abortReason] d.nvs nvs →
      ∀ key ∈ nameKeys, NamedAt orders nvs key := by
    intro nvs hnvs key hkey
    refine (h.names key hkey).congr (hnvs key fun hmem => ?_)
    revert key
    decide
  cases hmove with
  | idle => exact h
  | refused _ hnvs => exact ⟨fun hupdating => (by cases hupdating), hends hnvs⟩
  | waits hstate _ hnvs =>
      exact ⟨fun _ => h.ordered (by rw [updating, hstate]), hends hnvs⟩
  | begun hready hbegun =>
      obtain ⟨_, _, _, _, _, _, _, rfl, -, -, -, hnvs, -⟩ := hbegun
      refine ⟨fun _ => h.ordered ?_, hends hnvs⟩
      rcases hready with ⟨hstate, -⟩ | ⟨hstate, -⟩ <;> rw [updating, hstate]
  | fed hstate => exact ⟨fun _ => h.ordered (by rw [updating, hstate]), h.names⟩
  | complete hstate _ hnvs =>
      exact ⟨fun _ => h.ordered (by rw [updating, hstate]), hends hnvs⟩
  | givenUp _ hgiven =>
      obtain ⟨_, _, _, _, _, _, _, _, _, _, rfl, -, hnvs, -⟩ := hgiven
      exact ⟨fun hupdating => (by cases hupdating), hends hnvs⟩
  | applied hstate happlied =>
      obtain ⟨nvs, _, rfl, -, hnvs, -, -⟩ := happlied
      have horder := h.ordered (by rw [updating, hstate])
      refine ⟨fun _ => horder, fun key hkey => ?_⟩
      refine (saved_named horder hkey (h.names key hkey)).congr (hnvs key fun hmem => ?_)
      revert key
      decide

/-- A step of the confirmation. -/
theorem confirm_attributed {d d' : Impl} {now : UInt32} {i : ConfirmInput}
    (hstate : d.state = .confirming) (hmove : ConfirmMove d now i d')
    (h : Attributed orders d) : Attributed orders d' := by
  have hrest : d.updating = false := by rw [updating, hstate]
  cases hmove with
  | waits => exact h
  | forgotten => exact ⟨fun hupdating => (by cases hupdating), h.names⟩
  | reverted =>
      refine ⟨fun hupdating => ?_, fun key hkey => (h.names key hkey).cleared⟩
      cases hrest.symm.trans hupdating
  | refused => exact ⟨h.ordered, h.names⟩
  | committed hasked _ hnvs =>
      refine ⟨fun hupdating => (by cases hupdating), fun key hkey => ?_⟩
      refine (settled_named hasked.pending h.names key hkey).congr (hnvs key fun hmem => ?_)
      revert key
      decide

/-- A boot. -/
theorem boot_attributed {nvs : Nvs} {cfg : Config} {o : BootAnswers} {d' : Impl}
    (hmove : BootMove nvs cfg o d') (h : ∀ key ∈ nameKeys, NamedAt orders nvs key) :
    Attributed orders d' := by
  have hrest := (boot_rest hmove).2.1
  obtain ⟨found, hfound, htouches, hpending⟩ := boot_store hmove
  have hmounted : ∀ key ∈ nameKeys, NamedAt orders found key := by
    intro key hkey
    rcases hfound with hsame | ⟨-, herased⟩
    · exact (h key hkey).congr (congrFun hsame key)
    · exact .of_none (congrFun herased key)
  refine ⟨fun hupdating => absurd (hrest.symm.trans hupdating) (by decide), fun key hkey => ?_⟩
  by_cases hpend : key ∈ DeviceStore.pendingKeys
  · rcases hpending key hpend with hkept | hnone
    · exact (hmounted key hkey).congr hkept
    · exact .of_none hnone
  · refine (hmounted key hkey).congr (htouches key fun hmem => ?_)
    revert key
    decide

/-- More orders may be known by then. -/
theorem Attributed.mono {more : UpdateOrder → Prop} {d : Impl} (h : Attributed orders d)
    (hmore : ∀ order, orders order → more order) : Attributed more d where
  ordered hupdating := hmore _ (h.ordered hupdating)
  names key hkey text htext := by
    obtain ⟨order, horder, hnamed⟩ := h.names key hkey text htext
    exact ⟨order, hmore order horder, hnamed⟩

/-- The inbox of a pass brings orders on the topic that the device has before it, and has still when
it comes to read them. -/
theorem ingest_attributed {start d : Impl} {i : Pass}
    (hbrings : ∀ order, BringsOrder v start (.pass i) order → orders order)
    (hoperating : Operating start) (htopics : d.topics = start.topics) (h : Attributed orders d) :
    Attributed orders (ingestStep v d i.inbox) := by
  have hkept : Attributed orders (ingestStep v d i.inbox) ∧
      (ingestStep v d i.inbox).topics = start.topics := by
    refine List.foldlRecOn
      (motive := fun d => Attributed orders d ∧ d.topics = start.topics)
      i.inbox (Impl.ingest v) ⟨h, htopics⟩ ?_
    intro d ⟨h, htopics⟩ m hm
    rcases ingest_cases v d m with
      ⟨_, _, _, _, _, heq, hnvs, -⟩ | ⟨order, htopic, hallowed, hparse, -, heq⟩ <;> rw [heq]
    · exact ⟨h.keep hnvs (by decide) fun hupdating => ⟨hupdating, rfl⟩, htopics⟩
    · rw [htopics] at htopic
      have horder := hbrings order ⟨hoperating, m, hm, htopic, hallowed, hparse⟩
      exact ⟨⟨fun _ => horder, h.names⟩, htopics⟩
  exact hkept.1

theorem Aside.attributed {d d' : Impl} (haside : Aside d d') (h : Attributed orders d) :
    Attributed orders d' := by
  obtain ⟨_, _, _, _, _, _, _, _, _, _, _, rfl, -⟩ := haside
  exact h.keep (.refl [] _) (by decide) fun hupdating => ⟨hupdating, rfl⟩

/-- A step of the provisioning. -/
theorem provision_attributed {d d' : Impl} {now : UInt32} {i : ProvisionInput}
    (hmove : ProvisionMove v d now i d') (h : Attributed orders d) : Attributed orders d' := by
  refine h.keep (provision_touches hmove) (by decide) fun hupdating => ?_
  cases hmove with
  | waits => exact ⟨hupdating, rfl⟩
  | denied => cases hupdating
  | granted => cases hupdating

/-- A pass. -/
theorem attributed_pass {d : Impl} {i : Pass}
    (hbrings : ∀ order, BringsOrder v d (.pass i) order → orders order) (h : Attributed orders d) :
    Attributed orders (exec v d (.pass i)) := by
  have hfacing : ∀ flash, Attributed orders (d.facing flash) := fun flash =>
    h.keep (.refl [] _) (by decide) fun hupdating => ⟨hupdating, rfl⟩
  have haside := prepare_aside (d.facing i.flash) i
  have hprepared := haside.attributed (hfacing i.flash)
  rcases exec_pass_cases v d i with ⟨flash, heq⟩ | ⟨hstate, heq⟩ | ⟨-, -, heq⟩ | hoperating
  · rw [heq]
    exact hfacing flash
  · rw [heq]
    exact confirm_attributed (haside.state.trans hstate) (confirmStep_move _ i.now i.confirm)
      hprepared
  · rw [heq]
    exact provision_attributed (provisionStep_move v _ i.now i.provision) hprepared
  · have hsession := mqttStep_aside ((d.facing i.flash).prepare i) i.now i.mqtt
    have hinbox := ingest_attributed hbrings hoperating (hsession.topics.trans haside.topics)
      (hsession.attributed hprepared)
    have hupdate := ota_attributed (otaStep_move v _ i.now i.ota) hinbox
    rw [exec_operates v hoperating, operate]
    split
    · exact hupdate
    · exact (pingStep_aside v _ i.now i.ping).attributed hupdate

end Moves

/-- Every other event. -/
theorem attributed_kept (orders : UpdateOrder → Prop) :
    Kept v (fun e => ∀ i, e ≠ .pass i) (Attributed orders) where
  facing d flash h := h.keep (.refl [] _) (by decide) fun hupdating => ⟨hupdating, rfl⟩
  aside d d' haside h := haside.attributed h
  boot d cfg o d' _ hmove h := boot_attributed hmove h.names
  confirm d i d' hok := absurd rfl (hok i)
  provision d i d' hok := absurd rfl (hok i)
  ingest d i m hok := absurd rfl (hok i)
  ota d i d' hok := absurd rfl (hok i)
  seed d nvs hnvs h := h.keep hnvs (by decide) fun hupdating => ⟨hupdating, rfl⟩
  reset d flash _ h := by
    refine ⟨h.ordered, fun key hkey => ?_⟩
    rcases DeviceStore.factoryReset_cases d.nvs with hsame | herased
    · exact (h.names key hkey).congr (congrFun hsame key)
    · exact .of_none (congrFun herased key)

/-- All that a device has on record was ordered. -/
theorem attributed_after (events : List Event) :
    Attributed (Ordered v events) (after v {} events) := by
  induction events using List.reverseRecOn with
  | nil => exact ⟨fun hupdating => (by cases hupdating), fun key _ => .of_none rfl⟩
  | append_singleton events e ih =>
      have hbefore := ih.mono fun order horder => horder.concat e
      rw [after_concat]
      by_cases hpass : ∃ i, e = .pass i
      · obtain ⟨i, rfl⟩ := hpass
        exact attributed_pass (fun order hbrings => hbrings.ordered) hbefore
      · exact (attributed_kept v _).stepwise.exec (fun i he => hpass ⟨i, he⟩) hbefore

/-- Whatever a device has on record since its store was blank was ordered on the topic that it had
for updates then: there is an order with the recorded version, one with the recorded repo, one with
the id that was confirmed last and one with the id of the pending update. It need not be the same
order: where writes fail, the pending record mixes two of them. -/
theorem record_from_orders {events : List Event} {d : Impl} (hrun : Run (Step v) {} events d) :
    (∀ version, DeviceStore.firmwareVersion d.nvs = some version →
        ∃ order, Ordered v events order ∧ order.targetVersion = version) ∧
      (∀ repo, DeviceStore.firmwareRepo d.nvs = some repo →
        ∃ order, Ordered v events order ∧ order.repo = repo) ∧
      (∀ id, DeviceStore.lastUpdateId d.nvs = some id →
        ∃ order, Ordered v events order ∧ order.updateId = id) ∧
      ∀ p, DeviceStore.loadPending d.nvs = some p →
        ∃ order, Ordered v events order ∧ order.updateId = p.updateId := by
  have hnames := (attributed_after v events).names
  rw [← eq_after v hrun] at hnames
  refine ⟨fun version hread => ?_, fun repo hread => ?_, fun id hread => ?_, fun p hpending => ?_⟩
  · obtain ⟨order, horder, hnamed⟩ :=
      hnames .fwVersion (by decide) _ (Nvs.getString_some hread).1
    exact ⟨order, horder, Field.eq_of_text (Option.some.inj hnamed)⟩
  · obtain ⟨order, horder, hnamed⟩ := hnames .fwRepo (by decide) _ (Nvs.getString_some hread).1
    exact ⟨order, horder, Field.eq_of_text (Option.some.inj hnamed)⟩
  · obtain ⟨order, horder, hnamed⟩ :=
      hnames .lastUpdateId (by decide) _ (Nvs.getString_some hread).1
    exact ⟨order, horder, Field.eq_of_text (Option.some.inj hnamed)⟩
  · obtain ⟨order, horder, hnamed⟩ :=
      hnames .pendUpdateId (by decide) _ (pending_named hpending).1
    exact ⟨order, horder, Field.eq_of_text (Option.some.inj hnamed)⟩

/-- The sample device has the version of its order on record. -/
theorem record_from_orders_sample :
    ∃ order, Ordered sampleVendor
        (sampleStart ++ sampleUpdate ++ [sampleTrial, .pass sampleConfirmation]) order ∧
      order.targetVersion = (after sampleVendor {} sampleStart).order.targetVersion :=
  (record_from_orders sampleVendor (run_after sampleVendor {} _)).1 _ (by decide +kernel)

/-! ## The last one is not carried out again -/

/-- An update that was confirmed is not carried out again, whatever the broker delivers and however
often the device restarts, until the server confirms another one. -/
theorem confirmed_not_repeated {nvs : Nvs} {before after : List Event} {d d' : Impl}
    {id : Field maxIdLen} (hbefore : Run (Step v) { nvs } before d)
    (hafter : Run (Step v) d after d') (hkeeps : ∀ e ∈ before, keepsStore e)
    (hunanswered : ∀ e ∈ after, unanswered e ∧ keepsRecord e)
    (hlast : DeviceStore.lastUpdateId d.nvs = some id) (hupdating : d'.updating = true) :
    d'.order.updateId ≠ id := by
  have hstore : ∀ e, keepsRecord e → keepsStore e := by
    intro e he
    cases e with
    | factoryReset => exact he
    | _ => trivial
  have hlawful := (lawful_kept v (before ++ after)).run (hbefore.append hafter) (fun e he => by
    refine ⟨he, ?_⟩
    rcases List.mem_append.mp he with he | he
    · exact hkeeps e he
    · exact hstore e (hunanswered e he).2) fun hupdating => by cases hupdating
  have hrecord : d'.nvs.entries .lastUpdateId = d.nvs.entries .lastUpdateId := by
    cases hafter with
    | nil => rfl
    | cons hstep hrest =>
        -- What was done before has no part in it, a confirmation included.
        have hforgot : Run (Step v) { d with emitted := [] } (_ :: _) d' :=
          .cons (hstep.trans (exec_forgets v d _).symm) hrest
        have hend := (unconfirmed_kept v d.nvs).run hforgot hunanswered
          ⟨fun _ _ => rfl, List.not_mem_nil⟩
        exact hend.record .lastUpdateId (by decide)
  obtain ⟨_, _, -, -, -, -, -, hjudge⟩ := hlawful hupdating
  have hlast' : DeviceStore.lastUpdateId d'.nvs = some id := by
    rw [← hlast]
    exact Nvs.getString_congr hrecord maxIdLen
  rintro rfl
  have hstarts := (Nvs.getString_some hlast).2
  unfold judge Order.validate at hjudge
  rw [hlast'] at hjudge
  simp only [hstarts, Option.getD_some, Option.map_some, Option.any_some, ne_eq, not_false_eq_true,
    true_and, decide_true, if_true, false_or] at hjudge
  split at hjudge <;> cases hjudge

/-- The sample device with its update confirmed. -/
def sampleConfirmed : Impl :=
  after sampleVendor {} (sampleStart ++ sampleUpdate ++ [sampleTrial, .pass sampleConfirmation])

/-- The broker sends it the order once more and another one. -/
def sampleRedelivery : List Event :=
  [.boot sampleConfig {}, .pass (samplePass [sampleOrdered, sampleReordered] [])]

/-- It carries out the other one. -/
theorem confirmed_not_repeated_sample :
    (after sampleVendor sampleConfirmed sampleRedelivery).order.updateId ≠
      .print maxIdLen_pos (literal "u") := by
  have hbefore : Run (Step sampleVendor) {} _ sampleConfirmed := run_after sampleVendor {} _
  exact confirmed_not_repeated sampleVendor hbefore (run_after sampleVendor _ sampleRedelivery)
    (by simp [sampleStart, sampleUpdate, sampleTrial, keepsStore])
    (by simp [sampleRedelivery, unanswered, keepsRecord, samplePass]) (by decide +kernel)
    (by decide +kernel)

end Impl

end FirmwareUpdater
