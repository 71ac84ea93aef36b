import FirmwareUpdater.Library.Spacing
import FirmwareUpdater.Updater.PassMoves

/-!
# How often the device pings

`pingStep` compares a reading of a 32-bit clock with the stamp of the last ping, and the interval
may be configured anew at any time. `pings_spaced` says what that comes to in real time. A stamp
of zero counts as none, so a ping in the one millisecond that reads as zero is no distance from
the next one; the theorem leaves that millisecond out.
-/

namespace FirmwareUpdater.Impl

open Library

variable (v : Vendor)

/-- No configuration in the inbox sets an interval below `m` seconds, or leaves one there. -/
def unhurried (m : Nat) (i : Pass) : Prop :=
  ∀ message ∈ i.inbox, ∀ before incoming,
    RemoteConfig.parse v.deserializeJson (some (.ofBytes message.payload)) before =
      (.ok, incoming) →
    m ≤ before.pingIntervalS.toNat → m ≤ incoming.pingIntervalS.toNat

/-- The configuration in force behind a message is that before it, or came in it. -/
theorem ingest_remoteCfg (d : Impl) (message : Polled) :
    (ingest v d message).remoteCfg = d.remoteCfg ∨ ∃ incoming,
      RemoteConfig.parse v.deserializeJson (some (.ofBytes message.payload)) d.remoteCfg =
        (.ok, incoming) ∧ (ingest v d message).remoteCfg = incoming := by
  unfold ingest
  split
  · rcases handleOrder_cases v d (.ofBytes message.payload) message.allowed with
      ⟨_, _, _, _, heq, -⟩ | ⟨_, -, -, -, heq⟩ <;> rw [heq] <;> exact .inl rfl
  split
  · rcases handleConfig_cases v d (.ofBytes message.payload) with
      ⟨_, heq, -⟩ | ⟨incoming, _, hparse, -, heq, -⟩ <;> rw [heq]
    · exact .inl rfl
    · exact .inr ⟨incoming, hparse, rfl⟩
  · exact .inl rfl

/-! ## One pass -/

/-- Since the stamp `last` the device has published nothing, or it was stamped again at `now`, `m`
seconds later at least. -/
structure Paced (m : Nat) (last now : UInt32) (d : Impl) : Prop where
  interval : m ≤ d.remoteCfg.pingIntervalS.toNat
  stamp : (d.lastPingMs = last ∧ ∀ effect ∈ d.emitted, effect.kind ≠ .message) ∨
    d.lastPingMs = now ∧ (last = 0 ∨ m * 1000 ≤ (now - last).toNat)

/-- Steps that publish nothing leave it so. -/
theorem Paced.keep {m : Nat} {last now : UInt32} {d d' : Impl} (h : Paced m last now d)
    (hinterval : m ≤ d'.remoteCfg.pingIntervalS.toNat) (hlast : d'.lastPingMs = d.lastPingMs)
    {kinds : List Effect.Kind} {es : List Effect} (hemitted : d'.emitted = d.emitted ++ es)
    (hes : Only kinds es) (hkinds : Effect.Kind.message ∉ kinds) : Paced m last now d' where
  interval := hinterval
  stamp := by
    rw [hlast]
    refine h.stamp.imp (fun hsilent => ⟨hsilent.1, fun effect hmem => ?_⟩) id
    rw [hemitted] at hmem
    rcases List.mem_append.mp hmem with hmem | hmem
    · exact hsilent.2 effect hmem
    · exact fun hkind => hkinds (hkind ▸ hes effect hmem)

/-- The ping itself. -/
theorem pingStep_paced {m : Nat} (hm : 1 ≤ m) {last now : UInt32} {d : Impl} (i : PingInput)
    (h : Paced m last now d) : Paced m last now (pingStep v d now i) := by
  unfold pingStep
  split
  · exact h
  split
  · exact h
  rename_i hdue
  have hstamped : ∀ emitted, Paced m last now { d with lastPingMs := now, emitted } := by
    intro emitted
    refine ⟨h.interval, .inr ⟨rfl, ?_⟩⟩
    rcases h.stamp with ⟨hlast, -⟩ | ⟨-, hspaced⟩
    · by_cases hnever : last = 0
      · exact .inl hnever
      · right
        rw [not_and, hlast, UInt32.not_lt, UInt32.le_iff_toNat_le] at hdue
        have helapsed := hdue hnever
        have hinterval := h.interval
        have hbound := d.remoteCfg.pingIntervalS.toNat_lt
        rw [UInt32.toNat_mul, UInt16.toNat_toUInt32] at helapsed
        simp only [UInt32.reduceToNat] at helapsed
        omega
    · exact hspaced
  dsimp only
  split
  · exact hstamped _
  · exact hstamped d.emitted

/-- So is every other step. -/
theorem paced_kept {m : Nat} (hm : 1 ≤ m) {last : UInt32} {pass : Pass}
    (hunhurried : unhurried v m pass) : Passwise v (fun i => i = pass) (Paced m last pass.now) where
  prepare d i _ _ h := by
    obtain ⟨_, _, _, _, _, es, heq, -, hes⟩ := prepare_eq d i
    rw [heq]
    exact h.keep h.interval rfl rfl hes (by decide)
  confirm d i _ _ _ h := by
    have hmove := confirmStep_move d i.now i.confirm
    obtain ⟨es, heq, hes⟩ := confirm_emits hmove
    have hrest := (confirm_rest hmove).1
    exact h.keep (by rw [hrest.remoteCfg]; exact h.interval) hrest.lastPingMs heq hes (by decide)
  provision d i _ _ _ _ h := by
    have hmove := provisionStep_move v d i.now i.provision
    obtain ⟨es, heq, hes⟩ := provision_emits hmove
    have hrest := provision_rest hmove
    exact h.keep (by rw [hrest.remoteCfg]; exact h.interval) hrest.lastPingMs heq hes (by decide)
  mqtt d i _ _ _ h := by
    obtain ⟨_, _, _, _, es, heq, -, hes⟩ := mqttStep_eq d i.now i.mqtt
    rw [heq]
    exact h.keep h.interval rfl rfl hes (by decide)
  ingest d i message hi _ _ hmem h := by
    have hinterval : m ≤ (ingest v d message).remoteCfg.pingIntervalS.toNat := by
      rcases ingest_remoteCfg v d message with hsame | ⟨incoming, hparse, hset⟩
      · rw [hsame]
        exact h.interval
      · rw [hset]
        exact hunhurried message (hi ▸ hmem) _ incoming hparse h.interval
    rcases ingest_cases v d message with
      ⟨_, _, _, _, es, heq, -, hes⟩ | ⟨_, -, -, -, -, heq⟩ <;> rw [heq] at hinterval ⊢
    · exact h.keep hinterval rfl rfl hes (by decide)
    · exact h.keep hinterval rfl (List.append_nil _).symm (.nil []) (by decide)
  ota d i _ _ _ h := by
    have hmove := otaStep_move v d i.now i.ota
    generalize otaStep v d i.now i.ota = d' at hmove ⊢
    obtain ⟨es, heq, hes⟩ := ota_emits hmove
    have hrest := (ota_rest hmove).1
    exact h.keep (by rw [hrest.remoteCfg]; exact h.interval) hrest.lastPingMs heq hes (by decide)
  ping d i hi h := by
    subst hi
    exact pingStep_paced v hm i.ping h

/-! ## A power-on -/

/-- A pass publishes, and that is a ping. -/
def pinged (d : Impl) : Event → Bool
  | .pass i => (exec v d (.pass i)).emitted.any fun effect => effect.kind = .message
  | _ => false

theorem not_pinged {d : Impl} {i : Pass}
    (hsilent : ∀ effect ∈ (exec v d (.pass i)).emitted, effect.kind ≠ .message) :
    ¬pinged v d (.pass i) = true := by
  rw [pinged, List.any_eq_true]
  rintro ⟨effect, hmem, hkind⟩
  exact hsilent effect hmem (by simpa using hkind)

/-- An event of a power-on at a time: the clock shows that time, and not zero. -/
def Clocked (m : Nat) : Nat × Event → Prop
  | (time, .pass i) => i.now = UInt32.ofNat time ∧ i.now ≠ 0 ∧ unhurried v m i
  | (_, .boot _ _) => False
  | _ => True

/-- A whole pass. -/
theorem pass_paced {m : Nat} (hm : 1 ≤ m) {d : Impl} {i : Pass} (hunhurried : unhurried v m i)
    (hinterval : m ≤ d.remoteCfg.pingIntervalS.toNat) :
    Paced m d.lastPingMs i.now (exec v d (.pass i)) := by
  have hfacing : ∀ flash, Paced m d.lastPingMs i.now (d.facing flash) := fun flash =>
    ⟨hinterval, .inl ⟨rfl, fun effect hmem => absurd hmem List.not_mem_nil⟩⟩
  show Paced m d.lastPingMs i.now
    (if d.restarting then d.facing [] else loop v (d.facing i.flash) i)
  split
  · exact hfacing []
  · rename_i hrunning
    exact (paced_kept v hm hunhurried).loop rfl
      (facing_fresh (by simpa using hrunning) i.flash) (hfacing i.flash)

/-- The device was stamped at a time. -/
structure Stamped (m : Nat) (stamp : Nat) (d : Impl) : Prop where
  interval : m ≤ d.remoteCfg.pingIntervalS.toNat
  lastPingMs : d.lastPingMs = UInt32.ofNat stamp
  stamped : d.lastPingMs ≠ 0

/-- From a stamp on. -/
theorem stamped_step {m : Nat} (hm : 1 ≤ m) {stamp time : Nat} {d : Impl} {e : Event}
    (hstamped : Stamped m stamp d) (hle : stamp ≤ time) (hclocked : Clocked v m (time, e)) :
    if pinged v d e then stamp + m * 1000 ≤ time ∧ Stamped m time (exec v d e)
    else ∃ stamp', stamp ≤ stamp' ∧ stamp' ≤ time ∧ Stamped m stamp' (exec v d e) := by
  have hcall : called e → Stamped m stamp (exec v d e) := by
    intro he
    obtain ⟨_, _, _, _, heq⟩ := exec_call v d he
    rw [heq]
    exact ⟨hstamped.interval, hstamped.lastPingMs, hstamped.stamped⟩
  cases e with
  | boot cfg o => exact absurd hclocked id
  | pass i =>
      obtain ⟨hnow, hzero, hunhurried⟩ := hclocked
      have hpaced := pass_paced v hm hunhurried hstamped.interval
      rcases hpaced.stamp with ⟨hlast, hsilent⟩ | ⟨hlast, hspaced⟩
      · rw [if_neg (not_pinged v hsilent)]
        exact ⟨stamp, Nat.le_refl _, hle, hpaced.interval, hlast.trans hstamped.lastPingMs,
          hlast ▸ hstamped.stamped⟩
      · have hnext : Stamped m time (exec v d (.pass i)) :=
          ⟨hpaced.interval, hlast.trans hnow, hlast ▸ hzero⟩
        have hgap : stamp + m * 1000 ≤ time := by
          have helapsed := hspaced.resolve_left hstamped.stamped
          rw [hnow, hstamped.lastPingMs] at helapsed
          have hreading := Spacing.reading_le hle
          omega
        split
        · exact ⟨hgap, hnext⟩
        · exact ⟨time, hle, Nat.le_refl _, hnext⟩
  | _ => exact ⟨stamp, Nat.le_refl _, hle, hcall trivial⟩

/-- Up to the first stamp. -/
theorem unstamped_step {m : Nat} (hm : 1 ≤ m) {time : Nat} {d : Impl} {e : Event}
    (hd : m ≤ d.remoteCfg.pingIntervalS.toNat ∧ d.lastPingMs = 0)
    (hclocked : Clocked v m (time, e)) :
    if pinged v d e then Stamped m time (exec v d e)
    else (m ≤ (exec v d e).remoteCfg.pingIntervalS.toNat ∧ (exec v d e).lastPingMs = 0) ∨
      Stamped m time (exec v d e) := by
  have hcall : called e →
      m ≤ (exec v d e).remoteCfg.pingIntervalS.toNat ∧ (exec v d e).lastPingMs = 0 := by
    intro he
    obtain ⟨_, _, _, _, heq⟩ := exec_call v d he
    rw [heq]
    exact hd
  cases e with
  | boot cfg o => exact absurd hclocked id
  | pass i =>
      obtain ⟨hnow, hzero, hunhurried⟩ := hclocked
      have hpaced := pass_paced v hm hunhurried hd.1
      rcases hpaced.stamp with ⟨hlast, hsilent⟩ | ⟨hlast, -⟩
      · rw [if_neg (not_pinged v hsilent)]
        exact .inl ⟨hpaced.interval, hlast.trans hd.2⟩
      · have hnext : Stamped m time (exec v d (.pass i)) :=
          ⟨hpaced.interval, hlast.trans hnow, hlast ▸ hzero⟩
        split
        · exact hnext
        · exact .inr hnext
  | _ => exact .inl (hcall trivial)

/-- Over a whole power-on, in real time and however often the clock wraps, any two pings lie at
least `m` seconds apart, as long as no configuration asks for less. A stamp of zero means to
`pingStep` that there was no ping yet, so that no pass may read it. -/
theorem pings_spaced {m : Nat} (hm : 1 ≤ m) {d : Impl} {schedule : List (Nat × Event)} {start : Nat}
    (hinterval : m ≤ d.remoteCfg.pingIntervalS.toNat) (hfirst : d.lastPingMs = 0)
    (hordered : Spacing.Ordered start schedule) (hclocked : ∀ x ∈ schedule, Clocked v m x) :
    Spacing.Spaced (fun _ => m * 1000) (Spacing.actions (exec v) (pinged v) d schedule) :=
  Spacing.spaced_start (fun _ _ _ _ _ hstamped hle hx => stamped_step v hm hstamped hle hx)
    (fun _ _ _ hd hx => unstamped_step v hm hd hx) hclocked hordered ⟨hinterval, hfirst⟩

/-- A pass of the sample device with a connection. -/
def samplePing (now : UInt32) : Pass :=
  { samplePass [] [] with now, ping := { connected := true, link := sampleLinks } }

/-- Three passes of the sample device, of which the second one is too early. -/
def sampleSchedule : List (Nat × Event) :=
  [(1000, .pass (samplePing 1000)), (60999, .pass (samplePing 60999)),
    (61000, .pass (samplePing 61000))]

/-- The sample device pings twice. -/
theorem pings_spaced_sample :
    Spacing.actions (exec sampleVendor) (pinged sampleVendor) sampleReady sampleSchedule =
      [1000, 61000] ∧
    Spacing.Spaced (fun _ => 60 * 1000)
      (Spacing.actions (exec sampleVendor) (pinged sampleVendor) sampleReady sampleSchedule) := by
  have hinterval : 60 ≤ sampleReady.remoteCfg.pingIntervalS.toNat := by decide +kernel
  have hfirst : sampleReady.lastPingMs = 0 := by decide +kernel
  have hordered : Spacing.Ordered 0 sampleSchedule := by
    simp [sampleSchedule, Spacing.Ordered]
  have hclocked : ∀ x ∈ sampleSchedule, Clocked sampleVendor 60 x := by
    simp [sampleSchedule, Clocked, samplePing, samplePass, unhurried]
  refine ⟨by decide +kernel, ?_⟩
  exact @pings_spaced sampleVendor 60 (by decide) sampleReady sampleSchedule 0 hinterval hfirst
    hordered hclocked

end FirmwareUpdater.Impl
