import FirmwareUpdater.Gprs.GsmLink

/-!
# What the link's operations can do

One lemma for each operation says what it leaves of the link, the session and the
log, and `loop_cases` what a step of the state machine can be. Everything proved
about runs of the link goes through these and unfolds no operation.
-/

namespace FirmwareUpdater

/-- The states on the way up to a PDP, after a fall or the start. -/
def LinkState.subindo : LinkState → Bool
  | .init | .network | .attaching | .backoff => true
  | .off | .settling | .ready => false

/-- A step of the climb: the lease, the paused session, the ladder and the PDP are as they were,
and the link neither reaches nor leaves `ready`. -/
structure GsmLink.Quieto (l l' : GsmLink) : Prop where
  httpLeased_eq : l'.httpLeased = l.httpLeased
  paused_eq : l'.mqttPausedByFail = l.mqttPausedByFail
  falhas_eq : l'.mqttFalhasSeguidas = l.mqttFalhasSeguidas
  refazer_eq : l'.refazerPdp = l.refazerPdp
  ready_iff : l'.state = .ready ↔ l.state = .ready
  subindo : l.state.subindo = true → l'.state.subindo = true

/-- A step that leaves the modem object and the count of its resets as they were, and does not take
the link to `backoff`. -/
structure GsmLink.Anda (l l' : GsmLink) : Prop where
  modem_eq : l'.modem = l.modem
  resetsModem_eq : l'.resetsModem = l.resetsModem
  backoff_of : l'.state = .backoff → l.state = .backoff

theorem GsmLink.Anda.refl (l : GsmLink) : l.Anda l := ⟨rfl, rfl, id⟩

namespace Rede

variable {σ : Type} (s : Rede σ) (now millis : UInt32)

/-- What the gate's `pause` makes of a session. -/
def pausada : σ := s.gates.pause.getD id s.sessao

/-- What the gate's `resume` makes of a session. -/
def retomada : σ := s.gates.resume.getD id s.sessao

/-! ## Falls and resets -/

/-- `pausarPorQueda`, whether a gate is registered or not. -/
theorem pausarPorQueda_eq :
    s.pausarPorQueda =
      { s with
        sessao := s.pausada
        link :=
          { s.link with
            mqttPausedByFail := s.gates.pause.isSome || s.link.mqttPausedByFail } } := by
  unfold pausarPorQueda pausada
  cases s.gates.pause <;> rfl

/-- A fall ends in `backoff`, without a lease. -/
theorem fail_link :
    (s.fail now).link.state = .backoff ∧ (s.fail now).link.httpLeased = false ∧
      (s.fail now).link.mqttPausedByFail =
        (s.gates.pause.isSome || s.link.mqttPausedByFail) ∧
      (s.fail now).link.mqttFalhasSeguidas = s.link.mqttFalhasSeguidas ∧
      (s.fail now).link.refazerPdp = s.link.refazerPdp := by
  simp [fail, pausarPorQueda_eq]

/-- A fall pauses the session and is no event of the ladder. -/
theorem fail_rest :
    (s.fail now).sessao = s.pausada ∧ (s.fail now).gates = s.gates ∧
      (s.fail now).log = s.log := by
  simp [fail, pausarPorQueda_eq, pausada]

theorem fail_anda :
    (s.fail now).link.modem = s.link.modem ∧
      (s.fail now).link.resetsModem = s.link.resetsModem := by
  simp [fail, pausarPorQueda_eq]

/-- A reset ends in `settling`, without a lease and with the ladder cleared. -/
theorem resetModem_link :
    (s.resetModem millis).link.state = .settling ∧
      (s.resetModem millis).link.httpLeased = false ∧
      (s.resetModem millis).link.mqttPausedByFail =
        (s.gates.pause.isSome || s.link.mqttPausedByFail) ∧
      (s.resetModem millis).link.mqttFalhasSeguidas = 0 ∧
      (s.resetModem millis).link.refazerPdp = false := by
  simp [resetModem, pausarPorQueda_eq]

/-- A reset pauses the session and is logged. -/
theorem resetModem_rest :
    (s.resetModem millis).sessao = s.pausada ∧ (s.resetModem millis).gates = s.gates ∧
      (s.resetModem millis).log = s.log ++ [.reset (s.link.resetsModem &&& 1 = 0)] := by
  simp [resetModem, pausarPorQueda_eq, pausada]

/-- A reset is counted up to 255. -/
theorem resetModem_anda :
    (s.resetModem millis).link.modem = s.link.modem ∧
      (s.resetModem millis).link.resetsModem =
        if s.link.resetsModem < 255 then s.link.resetsModem + 1 else s.link.resetsModem := by
  simp [resetModem, pausarPorQueda_eq]

/-! ## The PDP comes up -/

/-- With the PDP up the link is ready and the session is no longer paused by the fall. -/
theorem subirPdp_link (ip : UInt32) :
    (s.subirPdp now ip).link.state = .ready ∧
      (s.subirPdp now ip).link.httpLeased = s.link.httpLeased ∧
      (s.subirPdp now ip).link.mqttPausedByFail = false ∧
      (s.subirPdp now ip).link.mqttFalhasSeguidas = s.link.mqttFalhasSeguidas ∧
      (s.subirPdp now ip).link.refazerPdp = s.link.refazerPdp := by
  unfold subirPdp
  cases hpaused : s.link.mqttPausedByFail with
  | false => simp [hpaused]
  | true => cases hresume : s.gates.resume <;> simp [hpaused, hresume]

theorem subirPdp_anda (ip : UInt32) :
    (s.subirPdp now ip).link.modem = s.link.modem ∧
      (s.subirPdp now ip).link.resetsModem = s.link.resetsModem := by
  unfold subirPdp
  cases hpaused : s.link.mqttPausedByFail with
  | false => simp [hpaused]
  | true => cases hresume : s.gates.resume <;> simp [hpaused, hresume]

/-- The session is resumed where the fall had paused it. -/
theorem subirPdp_rest (ip : UInt32) :
    (s.subirPdp now ip).sessao =
        (if s.link.mqttPausedByFail then s.retomada else s.sessao) ∧
      (s.subirPdp now ip).gates = s.gates ∧
      (s.subirPdp now ip).log = s.log ++ [.pdpAtivo] := by
  unfold subirPdp retomada
  cases hpaused : s.link.mqttPausedByFail with
  | false => simp [hpaused]
  | true => cases hresume : s.gates.resume <;> simp [hpaused, hresume]

/-! ## A step of the state machine -/

/-- Only the link's own bookkeeping of the climb changes. -/
def Quieta (t : Rede σ) : Prop := ∃ l, s.link.Quieto l ∧ t = { s with link := l }

/-- Nothing at all is quiet. -/
theorem quieta_refl : s.Quieta s := ⟨s.link, ⟨rfl, rfl, rfl, rfl, Iff.rfl, id⟩, rfl⟩

/-- A change of the bookkeeping within a state. -/
theorem quieta_fica {l : GsmLink} (hstate : l.state = s.link.state)
    (hlease : l.httpLeased = s.link.httpLeased)
    (hpaused : l.mqttPausedByFail = s.link.mqttPausedByFail)
    (hfalhas : l.mqttFalhasSeguidas = s.link.mqttFalhasSeguidas)
    (hrefazer : l.refazerPdp = s.link.refazerPdp) : s.Quieta { s with link := l } :=
  ⟨l, ⟨hlease, hpaused, hfalhas, hrefazer, by rw [hstate], fun h => by rwa [hstate]⟩, rfl⟩

/-- A change of state between two that are not `ready`, the new one on the way up. -/
theorem quieta_sobe {l : GsmLink} (hready : s.link.state ≠ .ready)
    (hstate : l.state.subindo = true) (hlease : l.httpLeased = s.link.httpLeased)
    (hpaused : l.mqttPausedByFail = s.link.mqttPausedByFail)
    (hfalhas : l.mqttFalhasSeguidas = s.link.mqttFalhasSeguidas)
    (hrefazer : l.refazerPdp = s.link.refazerPdp) : s.Quieta { s with link := l } := by
  refine ⟨l, ⟨hlease, hpaused, hfalhas, hrefazer, ?_, fun _ => hstate⟩, rfl⟩
  have hne : l.state ≠ .ready := by
    intro h
    rw [h] at hstate
    cases hstate
  simp [hready, hne]

/-- A step in `settling`. -/
theorem loopSettling_cases (r : RespostaModem) (hstate : s.link.state = .settling) :
    s.Quieta (s.loopSettling now r) ∨ s.loopSettling now r = s.fail now := by
  unfold loopSettling
  generalize (if s.link.settleMs ≠ 0 then s.link.settleMs else s.link.cfg.bootSettleMs) = settle
  dsimp only
  split
  · exact .inl s.quieta_refl
  split
  · exact .inr rfl
  split
  · exact .inl (s.quieta_sobe (by simp [hstate]) rfl rfl rfl rfl rfl)
  · exact .inl s.quieta_refl

/-- A step in `network`. -/
theorem loopNetwork_cases (r : RespostaModem) (hstate : s.link.state = .network) :
    s.Quieta (s.loopNetwork now r) ∨
      ∃ t, s.Quieta t ∧ s.loopNetwork now r = t.resetModem r.millis := by
  have hchecked : s.Quieta { s with link := { s.link with netCheckMs := now } } :=
    s.quieta_fica rfl rfl rfl rfl rfl
  unfold loopNetwork
  dsimp only
  split
  · exact .inl (s.quieta_sobe (by simp [hstate]) rfl rfl rfl rfl rfl)
  split
  · exact .inl s.quieta_refl
  split
  · exact .inr ⟨_, hchecked, rfl⟩
  split
  · exact .inr ⟨_, hchecked, rfl⟩
  split
  · exact .inr ⟨_, hchecked, rfl⟩
  · exact .inl hchecked

/-- The teardown of a PDP that was to be redone. -/
def Refaz (t : Rede σ) : Prop :=
  s.link.refazerPdp = true ∧ ∃ l, ({ s.link with refazerPdp := false } : GsmLink).Quieto l ∧
    t = { s with link := l, log := s.log ++ [.derrubarPdp] }

/-- A step in `attaching`. -/
theorem loopAttaching_cases (r : RespostaModem) :
    s.Quieta (s.loopAttaching now r) ∨
      (∃ t, s.Quieta t ∧ s.loopAttaching now r = t.resetModem r.millis) ∨
      s.Refaz (s.loopAttaching now r) ∨
      (s.link.refazerPdp = false ∧ s.loopAttaching now r = s.subirPdp now r.localIP) := by
  have hsame : s.Quieta { s with link := { s.link with compararIp := false } } :=
    s.quieta_fica rfl rfl rfl rfl rfl
  unfold loopAttaching
  split
  · rename_i hrefazer
    refine .inr (.inr (.inl ⟨hrefazer, _, ?_, rfl⟩))
    exact ⟨rfl, rfl, rfl, rfl, Iff.rfl, id⟩
  rename_i hrefazer
  split
  · split
    · exact .inr (.inl ⟨_, hsame, rfl⟩)
    · exact .inr (.inr (.inr ⟨by simpa using hrefazer, rfl⟩))
  split
  · exact .inr (.inl ⟨s, s.quieta_refl, rfl⟩)
  · exact .inl s.quieta_refl

/-- A step of the link is one of the climb, a fall from `settling`, a modem reset below `ready`,
or, in `attaching`, the teardown of a PDP that was to be redone or the PDP coming up with none to
redo. -/
theorem loop_cases (r : RespostaModem) :
    s.Quieta (s.loop now r) ∨
      (s.link.state = .settling ∧ s.loop now r = s.fail now) ∨
      (s.link.state ≠ .ready ∧ ∃ t, s.Quieta t ∧ s.loop now r = t.resetModem r.millis) ∨
      (s.link.state = .attaching ∧ s.Refaz (s.loop now r)) ∨
      (s.link.state = .attaching ∧ s.link.refazerPdp = false ∧
        s.loop now r = s.subirPdp now r.localIP) := by
  unfold loop
  cases hmodem : s.link.modem with
  | false => exact .inl s.quieta_refl
  | true =>
      rw [Bool.not_true, if_neg Bool.false_ne_true]
      split
      · exact .inl s.quieta_refl
      · exact .inl s.quieta_refl
      · rename_i hstate
        rcases s.loopSettling_cases now r hstate with hquiet | hfail
        · exact .inl hquiet
        · exact .inr (.inl ⟨hstate, hfail⟩)
      · rename_i hstate
        exact .inl (s.quieta_sobe (by simp [hstate]) rfl rfl rfl rfl rfl)
      · rename_i hstate
        rcases s.loopNetwork_cases now r hstate with hquiet | hreset
        · exact .inl hquiet
        · exact .inr (.inr (.inl ⟨by simp [hstate], hreset⟩))
      · rename_i hstate
        rcases s.loopAttaching_cases now r with hquiet | hreset | hrefaz | hup
        · exact .inl hquiet
        · exact .inr (.inr (.inl ⟨by simp [hstate], hreset⟩))
        · exact .inr (.inr (.inr (.inl ⟨hstate, hrefaz⟩)))
        · exact .inr (.inr (.inr (.inr ⟨hstate, hup⟩)))
      · rename_i hstate
        unfold loopBackoff
        split
        · exact .inl s.quieta_refl
        · exact .inl (s.quieta_sobe (by simp [hstate]) rfl rfl rfl rfl rfl)

/-- The same step in the other fields of the link: it leaves them, tears the PDP down, or is a fall,
a modem reset or the PDP coming up. -/
theorem loop_anda (r : RespostaModem) :
    (∃ l, s.link.Anda l ∧ s.loop now r = { s with link := l }) ∨
      (∃ l, s.link.Anda l ∧
        s.loop now r = { s with link := l, log := s.log ++ [.derrubarPdp] }) ∨
      s.loop now r = s.fail now ∨
      (∃ l, s.link.Anda l ∧ s.loop now r = { s with link := l }.resetModem r.millis) ∨
      s.loop now r = s.subirPdp now r.localIP := by
  have hsame : ∃ l, s.link.Anda l ∧ s = { s with link := l } := ⟨_, .refl _, rfl⟩
  unfold loop
  split
  · exact .inl hsame
  split
  · exact .inl hsame
  · exact .inl hsame
  · unfold loopSettling
    generalize (if s.link.settleMs ≠ 0 then s.link.settleMs else s.link.cfg.bootSettleMs) = settle
    dsimp only
    split
    · exact .inl hsame
    split
    · exact .inr (.inr (.inl rfl))
    split
    · refine .inl ⟨_, ?_, rfl⟩
      exact ⟨rfl, rfl, nofun⟩
    · exact .inl hsame
  · refine .inl ⟨_, ?_, rfl⟩
    exact ⟨rfl, rfl, nofun⟩
  · have hchecked : s.link.Anda { s.link with netCheckMs := now } := ⟨rfl, rfl, id⟩
    unfold loopNetwork
    dsimp only
    split
    · refine .inl ⟨_, ?_, rfl⟩
      exact ⟨rfl, rfl, nofun⟩
    split
    · exact .inl hsame
    -- The three triggers of this state lead to the same reset.
    split
    · exact .inr (.inr (.inr (.inl ⟨_, hchecked, rfl⟩)))
    split
    · exact .inr (.inr (.inr (.inl ⟨_, hchecked, rfl⟩)))
    split
    · exact .inr (.inr (.inr (.inl ⟨_, hchecked, rfl⟩)))
    · exact .inl ⟨_, hchecked, rfl⟩
  · unfold loopAttaching
    split
    · refine .inr (.inl ⟨_, ?_, rfl⟩)
      exact ⟨rfl, rfl, id⟩
    split
    · split
      · refine .inr (.inr (.inr (.inl ⟨_, ?_, rfl⟩)))
        exact ⟨rfl, rfl, id⟩
      · exact .inr (.inr (.inr (.inr rfl)))
    split
    · exact .inr (.inr (.inr (.inl ⟨_, .refl _, rfl⟩)))
    · exact .inl hsame
  · unfold loopBackoff
    split
    · exact .inl hsame
    · refine .inl ⟨_, ?_, rfl⟩
      exact ⟨rfl, rfl, nofun⟩

/-- With the PDP up, `loop` changes nothing. -/
theorem loop_ready (r : RespostaModem) (hready : s.link.state = .ready) : s.loop now r = s := by
  unfold loop
  cases s.link.modem <;> simp [hready]

/-- No loop of the link takes a lease. -/
theorem loop_lease (r : RespostaModem)
    (h : (s.loop now r).link.httpLeased = true) : s.link.httpLeased = true := by
  rcases s.loop_cases now r with
    ⟨l, hl, hquiet⟩ | ⟨_, hfail⟩ | ⟨_, t, _, hreset⟩ | ⟨_, _, l, hl, hrefaz⟩ | ⟨_, _, hup⟩
  · rw [hquiet] at h
    exact hl.httpLeased_eq ▸ h
  · rw [hfail, (s.fail_link now).2.1] at h
    cases h
  · rw [hreset, (t.resetModem_link _).2.1] at h
    cases h
  · rw [hrefaz] at h
    exact hl.httpLeased_eq ▸ h
  · rwa [hup, (s.subirPdp_link now r.localIP).2.1] at h

/-! ## The lease and the ladder -/

/-- A lease is refused without a change, or granted on a free link that is up. -/
theorem acquireForHttp_cases :
    s.acquireForHttp = (false, s) ∨
      s.link.state = .ready ∧ s.link.httpLeased = false ∧ ∃ t : Rede σ,
        s.acquireForHttp = (true, t) ∧ t.link = { s.link with httpLeased := true } := by
  unfold acquireForHttp
  split
  · exact .inl rfl
  · rename_i hfree
    rw [not_or, not_not, Bool.not_eq_true] at hfree
    exact .inr ⟨hfree.1, hfree.2, _, rfl, rfl⟩

/-- A lease that was given back is free. -/
theorem releaseHttp_lease : s.releaseHttp.link.httpLeased = false := by
  unfold Rede.releaseHttp
  cases hleased : s.link.httpLeased with
  | false => simpa using hleased
  | true => rfl

/-- What a transport failure leads to is a fall, a reset or nothing. -/
theorem escalar_cases :
    (s.link.mqttFalhasSeguidas < 3 ∧ s.escalar now millis = s) ∨
      (3 ≤ s.link.mqttFalhasSeguidas ∧ s.link.mqttFalhasSeguidas < 5 ∧
        s.escalar now millis = { s with link := { s.link with refazerPdp := true } }.fail now) ∨
      (5 ≤ s.link.mqttFalhasSeguidas ∧ s.escalar now millis = s.resetModem millis) := by
  unfold escalar
  split
  · rename_i hreset
    exact .inr (.inr ⟨hreset, rfl⟩)
  rename_i hreset
  split
  · rename_i hredo
    exact .inr (.inl ⟨hredo, UInt8.not_le.mp hreset, rfl⟩)
  · rename_i hredo
    exact .inl ⟨UInt8.not_le.mp hredo, rfl⟩

/-- A failure reported while the link is not ready, or lent to HTTP, is ignored. -/
theorem report_ignored (h : ¬(s.link.state = .ready ∧ s.link.httpLeased = false)) :
    s.reportMqttTransportFailure now millis = s := by
  unfold reportMqttTransportFailure
  rw [if_pos (by simpa [or_iff_not_imp_left] using h)]

/-- A failure reported on a ready link without a lease is counted and logged, and what follows
depends on its number alone: below three nothing else changes, at three and four the link falls
and is to redo the PDP, at five the modem is reset. -/
theorem report_counted (hready : s.link.state = .ready) (hfree : s.link.httpLeased = false)
    (hlt : s.link.mqttFalhasSeguidas.toNat < 5) :
    let k := s.link.mqttFalhasSeguidas.toNat + 1
    ∃ t : Rede σ, s.reportMqttTransportFailure now millis =
        { t with log := s.log ++ .falhaTransporte s.link t.link :: t.log } ∧
      (k < 3 ∧ t.log = [] ∧ t.link.state = .ready ∧ t.link.pdpSeq = s.link.pdpSeq ∧
          t.link.mqttFalhasSeguidas.toNat = k ∧ t.link.refazerPdp = s.link.refazerPdp ∨
        3 ≤ k ∧ k < 5 ∧ t.log = [] ∧ t.link.state = .backoff ∧
          t.link.mqttFalhasSeguidas.toNat = k ∧ t.link.refazerPdp = true ∨
        k = 5 ∧ (∃ cfunCompleto, t.log = [.reset cfunCompleto]) ∧ t.link.state = .settling ∧
          t.link.mqttFalhasSeguidas = 0 ∧ t.link.refazerPdp = false) := by
  intro k
  have hbelow : s.link.mqttFalhasSeguidas < 255 :=
    UInt8.lt_iff_toNat_lt.mpr (hlt.trans (by decide))
  have hnext : (s.link.mqttFalhasSeguidas + 1).toNat = k := by
    rw [UInt8.toNat_add]
    exact Nat.mod_eq_of_lt (by simp only [UInt8.toNat_one]; omega)
  generalize hcontada : ({ s with
    link := { s.link with mqttFalhasSeguidas := s.link.mqttFalhasSeguidas + 1 }
    log := [] } : Rede σ) = contada
  have hlink : contada.link.state = .ready ∧ contada.link.pdpSeq = s.link.pdpSeq ∧
      contada.link.mqttFalhasSeguidas.toNat = k ∧
      contada.link.refazerPdp = s.link.refazerPdp ∧ contada.log = [] := by
    subst hcontada
    exact ⟨hready, rfl, hnext, rfl, rfl⟩
  obtain ⟨hstate, hseq, hcount, hrefazer, hlog⟩ := hlink
  -- What the count leads to is decided on the link that has it already.
  refine ⟨contada.escalar now millis, ?_, ?_⟩
  · subst hcontada
    simp [reportMqttTransportFailure, hready, hfree, hbelow]
  rcases contada.escalar_cases now millis with
    ⟨hthree, hsame⟩ | ⟨hthree, hfive, hredo⟩ | ⟨hfive, hreset⟩
  · rw [UInt8.lt_iff_toNat_lt, hcount] at hthree
    rw [hsame]
    exact .inl ⟨hthree, hlog, hstate, hseq, hcount, hrefazer⟩
  · rw [UInt8.le_iff_toNat_le, hcount] at hthree
    rw [UInt8.lt_iff_toNat_lt, hcount] at hfive
    rw [hredo]
    generalize hmarcada : ({ contada with
      link := { contada.link with refazerPdp := true } } : Rede σ) = marcada
    have hmarked : marcada.link.mqttFalhasSeguidas.toNat = k ∧ marcada.link.refazerPdp = true ∧
        marcada.log = [] := by
      subst hmarcada
      exact ⟨hcount, rfl, hlog⟩
    obtain ⟨hbackoff, _, _, hkept, hredone⟩ := marcada.fail_link now
    refine .inr (.inl ⟨hthree, hfive, ?_, hbackoff, ?_, ?_⟩)
    · rw [(marcada.fail_rest now).2.2, hmarked.2.2]
    · rw [hkept, hmarked.1]
    · rw [hredone, hmarked.2.1]
  · rw [UInt8.le_iff_toNat_le, hcount] at hfive
    obtain ⟨hsettling, _, _, hzero, hnone⟩ := contada.resetModem_link millis
    have hlogged := (contada.resetModem_rest millis).2.2
    rw [hlog, List.nil_append] at hlogged
    rw [hreset]
    exact .inr (.inr ⟨Nat.le_antisymm hlt hfive, ⟨_, hlogged⟩, hsettling, hzero, hnone⟩)

end Rede

end FirmwareUpdater
