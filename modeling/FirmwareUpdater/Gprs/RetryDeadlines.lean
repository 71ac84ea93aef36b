import FirmwareUpdater.Gprs.SessionSteps
import FirmwareUpdater.Library.Deadline

/-!
# Retries on a clock that wraps

After a failure the link waits in `backoff` and the session between two attempts,
each until an absolute reading of `millis()`. With real time as a natural number
and `millis()` as its residue, both are cases of a deadline on a clock that wraps,
and `prazos_iff` says for which schedules of calls they are kept: those in which no
call is parted from the deadline by the wrap.
-/

namespace FirmwareUpdater

open GsmMqttClient Library Deadline

/-- `millis()` at a real time. -/
def relogio (instante : Nat) : UInt32 := .ofNat instante

/-- The range of `millis()`. -/
def voltaMillis : Nat := 2 ^ 32

/-- Readings compare as residues. -/
theorem relogio_lt_iff (instante prazo : Nat) :
    relogio instante < relogio prazo ↔ instante % voltaMillis < prazo % voltaMillis := by
  rw [UInt32.lt_iff_toNat_lt]
  simp only [relogio, UInt32.toNat_ofNat', voltaMillis]

/-- A reading and a wait add up to the reading of their sum. -/
theorem relogio_add (instante : Nat) (espera : UInt32) :
    relogio instante + espera = relogio (instante + espera.toNat) := by
  rw [← UInt32.toNat_inj, UInt32.toNat_add]
  simp only [relogio, UInt32.toNat_ofNat']
  omega

/-- The `now` of a loop is `millis()` at the call. -/
def NoRelogio (x : Nat × Chamada) : Prop :=
  match x.2 with
  | .linkLoop now _ | .mqttLoop now _ => now = relogio x.1
  | _ => True

namespace Rede

variable {s : Rede GsmMqttClient}

/-! ## The link in `backoff` -/

/-- A link that was begun stays so, and one that was not stays off. -/
def Comecada (s : Rede GsmMqttClient) : Prop := s.link.modem = true ∨ s.link.state = .off

/-- No step of the link touches the modem object. -/
theorem loop_modem (s : Rede GsmMqttClient) (now : UInt32) (r : RespostaModem) :
    (s.loop now r).link.modem = s.link.modem := by
  rcases s.loop_anda now r with
    ⟨l, hl, hstep⟩ | ⟨l, hl, hstep⟩ | hfail | ⟨l, hl, hreset⟩ | hup
  · rw [hstep]
    exact hl.modem_eq
  · rw [hstep]
    exact hl.modem_eq
  · rw [hfail]
    exact (s.fail_anda now).1
  · rw [hreset]
    exact (resetModem_anda _ _).1.trans hl.modem_eq
  · rw [hup]
    exact (s.subirPdp_anda now r.localIP).1

/-- What a report makes of the link: nothing, a fall from `now` on, or a reset. -/
theorem report_link (s : Rede GsmMqttClient) (now millis : UInt32) :
    let t := (s.reportMqttTransportFailure now millis).link
    t.modem = s.link.modem ∧
      (t = s.link ∨
        s.link.state = .ready ∧ t.failures = s.link.failures ∧ t.state ≠ .backoff ∨
        s.link.state = .ready ∧ t.state = .backoff ∧
          t.nextTry = now + GsmLink.backoffMs s.link.failures) := by
  intro t
  unfold t reportMqttTransportFailure
  split
  · exact ⟨rfl, .inl rfl⟩
  rename_i hfree
  rw [not_or, not_not] at hfree
  dsimp only
  generalize hcontada : Rede.mk _ s.gates s.sessao [] = contada
  have hkept : contada.link.modem = s.link.modem ∧ contada.link.failures = s.link.failures ∧
      contada.link.state = .ready := by
    subst hcontada
    exact ⟨rfl, rfl, hfree.1⟩
  obtain ⟨hmodem, hfailures, hready⟩ := hkept
  rw [← hmodem, ← hfailures]
  rcases contada.escalar_cases now millis with ⟨_, hnone⟩ | ⟨_, _, hredo⟩ | ⟨_, hreset⟩
  · rw [hnone]
    exact ⟨rfl, .inr (.inl ⟨hfree.1, rfl, by simp [hready]⟩)⟩
  · rw [hredo]
    exact ⟨by simp [Rede.fail, pausarPorQueda_eq],
      .inr (.inr ⟨hfree.1, by simp [Rede.fail, pausarPorQueda_eq]⟩)⟩
  · rw [hreset]
    exact ⟨by simp [Rede.resetModem, pausarPorQueda_eq],
      .inr (.inl ⟨hfree.1, by simp [Rede.resetModem, pausarPorQueda_eq]⟩)⟩

/-- Every call keeps it. -/
theorem Comecada.exec (h : Comecada s) (chamada : Chamada) : Comecada (s.exec chamada) := by
  have hreport : ∀ (t : Rede GsmMqttClient) (now millis : UInt32), Comecada t →
      Comecada (t.reportMqttTransportFailure now millis) := by
    intro t now millis ht
    obtain ⟨hmodem, hcases⟩ := t.report_link now millis
    rcases ht with ht | hoff
    · exact .inl (hmodem.trans ht)
    · rcases hcases with hsame | ⟨hready, _⟩ | ⟨hready, _⟩
      · exact .inr (by rw [hsame, hoff])
      · rw [hoff] at hready
        cases hready
      · rw [hoff] at hready
        cases hready
  cases chamada with
  | linkLoop now r =>
      rcases h with h | hoff
      · exact .inl ((s.loop_modem now r).trans h)
      · refine .inr ?_
        show (s.loop now r).link.state = .off
        unfold Rede.loop
        rw [hoff]
        split <;> exact hoff
  | mqttLoop now r =>
      refine mqttLoop_keeps ?_ ?_ ?_ h now
      · intro s t h hs
        unfold Comecada
        rwa [hs.link_eq]
      · exact fun t ht => hreport t _ _ ht
      · exact fun s h => h
  | acquireForHttp =>
      simp only [Rede.exec, Rede.acquireForHttp]
      split <;> exact h
  | releaseHttp =>
      simp only [Rede.exec, Rede.releaseHttp]
      split <;> exact h
  | reportMqttTransportFailure now millis => exact hreport s now millis h
  | reportMqttSessionLost | reportMqttConnected | begin | endSession | modem => exact h

/-- It holds over every run. -/
theorem comecada_execAll (cfg : GprsConfig) (millis : UInt32) (chamadas : List Chamada) :
    Comecada ((ligada cfg millis).execAll chamadas) := by
  refine (run_execAll _ chamadas).invariant Comecada ?_ ?_
  · rintro s chamada t h rfl
    exact h.exec chamada
  · simp only [Comecada, ligada, setMqttGate, GsmLink.begin]
    split
    · exact .inr rfl
    · exact .inl rfl

/-- The link waits in `backoff` for a reading of the clock. -/
structure Recua (nextTry : UInt32) (s : Rede GsmMqttClient) : Prop where
  state : s.link.state = .backoff
  nextTry : s.link.nextTry = nextTry
  modem : s.link.modem = true

/-- A loop of the link, the only call that can end the wait. -/
def DoLink : Chamada → Prop
  | .linkLoop _ _ => True
  | _ => False

/-- The call takes the link out of `backoff`. -/
def DeixaBackoff (s : Rede GsmMqttClient) (chamada : Chamada) : Prop :=
  (s.exec chamada).link.state ≠ .backoff

/-- A waiting link's loop is a comparison of two readings. -/
theorem Recua.deixa_iff {prazo instante : Nat} {chamada : Chamada}
    (h : Recua (relogio prazo) s) (hrelogio : NoRelogio (instante, chamada))
    (hloop : DoLink chamada) :
    DeixaBackoff s chamada ↔ ¬ instante % voltaMillis < prazo % voltaMillis := by
  cases chamada with
  | linkLoop now r =>
      have hnow : now = relogio instante := hrelogio
      rw [← relogio_lt_iff, ← hnow, ← h.nextTry]
      show (s.loop now r).link.state ≠ .backoff ↔ _
      unfold Rede.loop
      rw [h.modem, h.state, Bool.not_true, if_neg Bool.false_ne_true]
      dsimp only
      unfold loopBackoff
      split
      · rename_i hearly
        simp [h.state, hearly]
      · rename_i hdue
        simp [hdue]
  | _ => cases hloop

/-- Every call that does not end the wait leaves it as it is. -/
theorem Recua.exec {nextTry : UInt32} (h : Recua nextTry s) {chamada : Chamada}
    (hfica : DoLink chamada → ¬ DeixaBackoff s chamada) : Recua nextTry (s.exec chamada) := by
  have hreport : ∀ (t : Rede GsmMqttClient) (now millis : UInt32), Recua nextTry t →
      Recua nextTry (t.reportMqttTransportFailure now millis) := by
    intro t now millis ht
    unfold Rede.reportMqttTransportFailure
    rw [if_pos (.inl (by simp [ht.state]))]
    exact ht
  cases chamada with
  | linkLoop now r =>
      have hstays := hfica trivial
      unfold DeixaBackoff at hstays
      rw [Rede.exec] at hstays ⊢
      unfold Rede.loop at hstays ⊢
      rw [h.modem, h.state, Bool.not_true, if_neg Bool.false_ne_true] at hstays ⊢
      dsimp only at hstays ⊢
      unfold loopBackoff at hstays ⊢
      split
      · exact h
      · rename_i hdue
        rw [if_neg hdue] at hstays
        exact absurd (by simp) hstays
  | mqttLoop now r =>
      refine mqttLoop_keeps ?_ ?_ ?_ h now
      · intro s t h hs
        obtain ⟨hstate, hnext, hmodem⟩ := h
        rw [← hs.link_eq] at hstate hnext hmodem
        exact ⟨hstate, hnext, hmodem⟩
      · exact fun t ht => hreport t _ _ ht
      · exact fun s h => ⟨h.state, h.nextTry, h.modem⟩
  | acquireForHttp =>
      simp only [Rede.exec, Rede.acquireForHttp]
      split
      · exact h
      · exact ⟨h.state, h.nextTry, h.modem⟩
  | releaseHttp =>
      simp only [Rede.exec, Rede.releaseHttp]
      split
      · exact h
      · exact ⟨h.state, h.nextTry, h.modem⟩
  | reportMqttTransportFailure now millis => exact hreport s now millis h
  | reportMqttConnected => exact ⟨h.state, h.nextTry, h.modem⟩
  | reportMqttSessionLost | begin | endSession | modem => exact ⟨h.state, h.nextTry, h.modem⟩

/-- The reading a call hands to `fail`, if it comes to one. -/
def instanteFalha : Chamada → UInt32
  | .linkLoop now _ => now
  | .mqttLoop _ r => r.millisFalha
  | .reportMqttTransportFailure now _ => now
  | .acquireForHttp | .releaseHttp | .reportMqttSessionLost _ | .reportMqttConnected | .begin _
  | .endSession | .modem _ => 0

/-- The link's own way into `backoff` is a fall. -/
theorem loop_backoff {now : UInt32} {r : RespostaModem} (hstate : s.link.state ≠ .backoff)
    (hbackoff : (s.loop now r).link.state = .backoff) : s.loop now r = s.fail now := by
  rcases s.loop_anda now r with
    ⟨l, hl, hstep⟩ | ⟨l, hl, hstep⟩ | hfail | ⟨l, _, hreset⟩ | hup
  · rw [hstep] at hbackoff
    exact absurd (hl.backoff_of hbackoff) hstate
  · rw [hstep] at hbackoff
    exact absurd (hl.backoff_of hbackoff) hstate
  · exact hfail
  · rw [hreset, (resetModem_link _ _).1] at hbackoff
    cases hbackoff
  · rw [hup, (s.subirPdp_link now r.localIP).1] at hbackoff
    cases hbackoff

/-- A call that takes the link into `backoff` sets the deadline from its own reading of the clock
and the number of failures so far. -/
theorem entra_backoff {chamada : Chamada} (h : Comecada s) (hstate : s.link.state ≠ .backoff)
    (hbackoff : (s.exec chamada).link.state = .backoff) :
    Recua (instanteFalha chamada + GsmLink.backoffMs s.link.failures) (s.exec chamada) := by
  have hmodem : (s.exec chamada).link.modem = true := by
    rcases h.exec chamada with h | hoff
    · exact h
    · rw [hbackoff] at hoff
      cases hoff
  refine ⟨hbackoff, ?_, hmodem⟩
  cases chamada with
  | linkLoop now r =>
      have hfail : s.exec (.linkLoop now r) = s.fail now := loop_backoff hstate hbackoff
      rw [hfail]
      simp [Rede.fail, pausarPorQueda_eq, instanteFalha]
  | mqttLoop now r =>
      -- Before the report nothing of the link has changed, and after it nothing changes any more.
      have hend : (s.mqttLoop now r).link.state = .backoff ∧
            (s.mqttLoop now r).link.nextTry = r.millisFalha + GsmLink.backoffMs s.link.failures ∨
          (s.mqttLoop now r).link.state ≠ .backoff ∧
            (s.mqttLoop now r).link.failures = s.link.failures := by
        refine mqttLoop_keeps (P := fun t => t.link.state = .backoff ∧
            t.link.nextTry = r.millisFalha + GsmLink.backoffMs s.link.failures ∨
          t.link.state ≠ .backoff ∧ t.link.failures = s.link.failures) ?_ ?_ ?_
          (.inr ⟨hstate, rfl⟩) now
        · intro s t h hs
          rwa [hs.link_eq]
        · intro t ht
          obtain ⟨_, hcases⟩ := t.report_link r.millisFalha r.millisReset
          rcases hcases with hsame | ⟨hready, hfailures, hother⟩ | ⟨hready, hfell, hnext⟩
          · rwa [hsame]
          · refine .inr ⟨hother, ?_⟩
            rcases ht with ⟨hthere, _⟩ | ⟨_, hbefore⟩
            · rw [hready] at hthere
              cases hthere
            · rw [hfailures, hbefore]
          · refine .inl ⟨hfell, ?_⟩
            rcases ht with ⟨hthere, _⟩ | ⟨_, hbefore⟩
            · rw [hready] at hthere
              cases hthere
            · rw [hnext, hbefore]
        · exact fun s h => h
      rcases hend with ⟨_, hnext⟩ | ⟨hother, _⟩
      · exact hnext
      · exact absurd hbackoff hother
  | reportMqttTransportFailure now millis =>
      obtain ⟨_, hsame | ⟨_, _, hother⟩ | ⟨_, _, hnext⟩⟩ := s.report_link now millis
      · rw [Rede.exec, hsame] at hbackoff
        exact absurd hbackoff hstate
      · exact absurd hbackoff hother
      · exact hnext
  | acquireForHttp =>
      simp only [Rede.exec, Rede.acquireForHttp] at hbackoff
      split at hbackoff <;> exact absurd hbackoff hstate
  | releaseHttp =>
      simp only [Rede.exec, Rede.releaseHttp] at hbackoff
      split at hbackoff <;> exact absurd hbackoff hstate
  | reportMqttSessionLost | reportMqttConnected | begin | endSession | modem =>
      exact absurd hbackoff hstate

/-! ## The session between two attempts -/

/-- The session waits for a reading of the clock before its next attempt, with no open pending. -/
structure Aguarda (proxima : UInt32) (s : Rede GsmMqttClient) : Prop where
  arbitrada : Arbitrada s
  proximaTentativa : s.sessao.proximaTentativa = proxima
  cipstartMs : s.sessao.cipstartMs = 0
  conectado : s.sessao.conectado = false
  estavaConectado : s.sessao.estavaConectado = false

/-- A loop of the session, the only call that makes an attempt. -/
def DaSessao : Chamada → Prop
  | .mqttLoop _ _ => True
  | _ => False

/-- The call asks for a connection. -/
def Conecta (s : Rede GsmMqttClient) (chamada : Chamada) : Prop :=
  s.sessao.tentativas < (s.exec chamada).sessao.tentativas

/-- The session is configured, not suspended and without a connection, the link is up and not
leased, and the call is no `begin` or `end`, takes or returns no lease and reads the clock right. -/
structure Espera (s : Rede GsmMqttClient) (x : Nat × Chamada) : Prop where
  configurado : s.sessao.configurado = true
  suspenso : s.sessao.suspenso = false
  ready : s.link.state = .ready
  livre : s.link.httpLeased = false
  relogio : NoRelogio x
  chamada : match x.2 with
    | .mqttLoop _ r => r.pubLoop = false
    | .begin _ | .endSession | .acquireForHttp | .releaseHttp => False
    | _ => True

/-- A waiting session that gets to an attempt asks for a connection. -/
theorem Aguarda.conecta {proxima : UInt32} (h : Aguarda proxima s) {now : UInt32}
    {r : RespostaSessao} (htenta : s.Tenta now r) : Conecta s (.mqttLoop now r) := by
  obtain ⟨_, _, _, _, _, hcipstart, _, _, hcount⟩ := s.sondada_sessao r
  have hpause : (s.sondada r).gates.pause = some suspend := h.arbitrada.pause_eq
  obtain ⟨_, hasks, _⟩ := conectar_spec (r := r) hpause htenta.ready htenta.livre
  have hmore := hasks (hcipstart.trans h.cipstartMs)
  rwa [hcount, ← aposTentativa_tentativas, ← mqttLoop_tenta htenta] at hmore

/-- A waiting session's loop is a comparison of two readings. -/
theorem Aguarda.conecta_iff {prazo instante : Nat} {chamada : Chamada}
    (h : Aguarda (FirmwareUpdater.relogio prazo) s) (hespera : Espera s (instante, chamada))
    (hloop : DaSessao chamada) :
    Conecta s chamada ↔ ¬ instante % voltaMillis < prazo % voltaMillis := by
  cases chamada with
  | mqttLoop now r =>
      have hnow : now = FirmwareUpdater.relogio instante := hespera.relogio
      have hpub : r.pubLoop = false := hespera.chamada
      rw [← relogio_lt_iff, ← hnow, ← h.proximaTentativa]
      by_cases hdue : now < s.sessao.proximaTentativa
      · refine iff_of_false ?_ (not_not.mpr hdue)
        have hwaits : ¬ s.Tenta now r := fun htenta => htenta.vencida hdue
        rw [Conecta, Rede.exec]
        rcases mqttLoop_espera hpub h.estavaConectado hespera.ready hespera.livre hwaits with
          hsame | hpolled
        · rw [hsame]
          exact lt_irrefl _
        · obtain ⟨_, _, _, _, _, _, _, _, hcount⟩ := s.sondada_sessao r
          rw [hpolled, hcount]
          exact lt_irrefl _
      · exact iff_of_true (h.conecta ⟨hespera.configurado, hespera.suspenso, hpub,
          h.estavaConectado, hespera.ready, hespera.livre, hdue⟩) hdue
  | _ => cases hloop

/-- A suspension from within leaves the wait as it is. -/
theorem Aguarda.suspensa {proxima : UInt32} {t : Rede GsmMqttClient} (h : Aguarda proxima s)
    (ht : Arbitrada t) (hsessao : t.sessao = s.sessao ∨ t.sessao = s.sessao.suspend) :
    Aguarda proxima t := by
  rcases hsessao with hsame | hsuspended
  · refine ⟨ht, ?_, ?_, ?_, ?_⟩
    · rw [hsame, h.proximaTentativa]
    · rw [hsame, h.cipstartMs]
    · rw [hsame, h.conectado]
    · rw [hsame, h.estavaConectado]
  · have hparada : Parada s.sessao.falhas t.sessao := by
      rw [hsuspended]
      exact Parada.suspend ⟨h.cipstartMs, h.conectado, h.estavaConectado, rfl⟩
    refine ⟨ht, ?_, hparada.cipstartMs, hparada.conectado, hparada.estavaConectado⟩
    rw [hsuspended, ← h.proximaTentativa]
    unfold GsmMqttClient.suspend
    cases s.sessao.suspenso with
    | true => rfl
    | false => cases s.sessao.conectado <;> rfl

/-- Every call that makes no attempt leaves the wait as it is. -/
theorem Aguarda.exec {proxima : UInt32} (h : Aguarda proxima s) {instante : Nat}
    {chamada : Chamada} (hespera : Espera s (instante, chamada))
    (hquieta : DaSessao chamada → ¬ Conecta s chamada) : Aguarda proxima (s.exec chamada) := by
  have hnext := h.arbitrada.exec chamada
  have hchamada := hespera.chamada
  cases chamada with
  | linkLoop now r =>
      refine h.suspensa hnext (.inl ?_)
      rw [Rede.exec, s.loop_ready now r hespera.ready]
  | mqttLoop now r =>
      have hpub : r.pubLoop = false := hchamada
      have hwaits : ¬ s.Tenta now r := fun htenta => hquieta trivial (h.conecta htenta)
      obtain ⟨_, _, hestava, hconectado, hproxima, hcipstart, _⟩ := s.sondada_sessao r
      rcases mqttLoop_espera hpub h.estavaConectado hespera.ready hespera.livre hwaits with
        hsame | hpolled
      · exact h.suspensa hnext (.inl (by rw [Rede.exec, hsame]))
      · refine ⟨hnext, ?_, ?_, ?_, ?_⟩
        · rw [Rede.exec, hpolled, hproxima, h.proximaTentativa]
        · rw [Rede.exec, hpolled, hcipstart, h.cipstartMs]
        · rw [Rede.exec, hpolled, hconectado, hpub]
        · rw [Rede.exec, hpolled, hestava, h.estavaConectado]
  | reportMqttTransportFailure now millis =>
      exact h.suspensa hnext (report_sessao h.arbitrada.pause_eq now millis)
  | modem novo =>
      exact ⟨hnext, h.proximaTentativa, h.cipstartMs, h.conectado, h.estavaConectado⟩
  | reportMqttSessionLost | reportMqttConnected => exact h.suspensa hnext (.inl rfl)
  | begin | endSession | acquireForHttp | releaseHttp => cases hchamada

/-- A loop whose attempt fails leaves the session waiting, from its last reading of the clock on
and for as long as the failures before it say. -/
theorem aguarda_depois {now : UInt32} {r : RespostaSessao} (h : Arbitrada s)
    (htenta : s.Tenta now r) (hfalhou : ((s.sondada r).conectar r).1 = .falhou) :
    Aguarda (r.millisFim + backoffMs s.sessao.falhas) (s.mqttLoop now r) := by
  obtain ⟨_, _, hestava, hconectado, _, _, _, hfalhas, _⟩ := s.sondada_sessao r
  obtain ⟨_, _, hparada⟩ := conectar_spec (s := s.sondada r) (r := r) h.pause_eq htenta.ready
    htenta.livre
  have hstopped := hparada hfalhou (hconectado.trans htenta.pubLoop)
    (hestava.trans htenta.estavaConectado)
  rw [hfalhas] at hstopped
  have hnext : Arbitrada (s.mqttLoop now r) := h.exec (.mqttLoop now r)
  rw [mqttLoop_tenta htenta] at hnext ⊢
  generalize (s.sondada r).conectar r = tried at hfalhou hstopped hnext ⊢
  obtain ⟨tentativa, t⟩ := tried
  obtain rfl : tentativa = .falhou := hfalhou
  refine ⟨hnext, ?_, hstopped.cipstartMs, hstopped.conectado, hstopped.estavaConectado⟩
  rw [← hstopped.falhas]
  rfl

/-! ## Both waits -/

/-- No wait is as long as a turn of the clock. -/
theorem espera_lt (instante : Nat) (espera : UInt32) :
    instante + espera.toNat < instante + voltaMillis :=
  Nat.add_lt_add_left espera.toNat_lt instante

/-- The two retries, after any calls. A link that a call took into `backoff` at the real time
`inicio` leaves it at the first loop that comes no earlier than the wait says, and at none before
it; and a session whose attempt failed at `inicio` makes the next one so. Both hold of a schedule
of calls exactly when, up to the first loop that is due, every loop before the deadline falls in
the same turn of `millis()` as the deadline, and the one that is due reads no less than it. -/
theorem prazos_iff (cfg : GprsConfig) (millis : UInt32) (chamadas : List Chamada) :
    let s := (ligada cfg millis).execAll chamadas
    (∀ (chamada : Chamada) (inicio : Nat) (agenda : List (Nat × Chamada)),
      let prazo := inicio + (GsmLink.backoffMs s.link.failures).toNat
      s.link.state ≠ .backoff → (s.exec chamada).link.state = .backoff →
        instanteFalha chamada = relogio inicio → (∀ x ∈ agenda, inicio ≤ x.1 ∧ NoRelogio x) →
        (OnTime exec DoLink DeixaBackoff prazo (s.exec chamada) agenda ↔
          UpToDue DoLink (Legible voltaMillis prazo) prazo agenda)) ∧
      ∀ (now : UInt32) (r : RespostaSessao) (inicio : Nat) (agenda : List (Nat × Chamada)),
        let prazo := inicio + (backoffMs s.sessao.falhas).toNat
        s.Tenta now r → ((s.sondada r).conectar r).1 = .falhou → r.millisFim = relogio inicio →
          (∀ x ∈ agenda, inicio ≤ x.1) →
          AllAllowed exec DaSessao Espera prazo (s.mqttLoop now r) agenda →
          (OnTime exec DaSessao Conecta prazo (s.mqttLoop now r) agenda ↔
            UpToDue DaSessao (Legible voltaMillis prazo) prazo agenda) := by
  intro s
  refine ⟨?_, ?_⟩
  · intro chamada inicio agenda prazo hstate hbackoff hinicio hagenda
    have hrecua : Recua (relogio prazo) (s.exec chamada) := by
      have hentra := entra_backoff (comecada_execAll cfg millis chamadas) hstate hbackoff
      rwa [hinicio, relogio_add] at hentra
    refine onTime_iff (Recua (relogio prazo)) (fun _ x => NoRelogio x) ?_ hrecua ?_ ?_ ?_
    · exact fun s instante chamada h _ hfica => h.exec hfica
    · exact fun before x after hsplit _ => (hagenda x (by simp [hsplit])).2
    · exact fun s instante chamada h hrelogio hloop => h.deixa_iff hrelogio hloop
    · exact fun x hx => (espera_lt _ _).trans_le (Nat.add_le_add_right (hagenda x hx).1 _)
  · intro now r inicio agenda prazo htenta hfalhou hinicio hagenda hespera
    have haguarda : Aguarda (relogio prazo) (s.mqttLoop now r) := by
      have hdepois := aguarda_depois (arbitrada_execAll cfg millis chamadas) htenta hfalhou
      rwa [hinicio, relogio_add] at hdepois
    refine onTime_iff (Aguarda (relogio prazo)) Espera ?_ haguarda hespera ?_ ?_
    · exact fun s instante chamada h hallowed hquieta => h.exec hallowed hquieta
    · exact fun s instante chamada h hallowed hloop => h.conecta_iff hallowed hloop
    · exact fun x hx => (espera_lt _ _).trans_le (Nat.add_le_add_right (hagenda x hx) _)

/-- A modem that answers nothing. -/
def respostaMuda : RespostaModem := { respostaPronta with testAT := false }

/-- A session begun on a link that is up 8 s after power on. -/
def ateReady : List Chamada :=
  [.begin { host := some (.ofBytes [104]), clientId := some (.ofBytes [99]) },
    .linkLoop 8000 respostaPronta, .linkLoop 8001 respostaPronta, .linkLoop 8002 respostaPronta,
    .linkLoop 8003 respostaPronta]

/-- The link falls 28 s after power on and is looped 2 s later; the session's first attempt fails
and its loop comes 3 s later. -/
theorem prazos_iff_cedo :
    (OnTime Rede.exec DoLink DeixaBackoff 30001
        (((ligada { apn := some .empty, pinTx := 1, pinRx := 2 } 0).execAll []).exec
          (.linkLoop 28001 respostaMuda)) [(30001, .linkLoop 30001 respostaMuda)] ↔
      UpToDue DoLink (Legible voltaMillis 30001) 30001 [(30001, .linkLoop 30001 respostaMuda)]) ∧
    (OnTime Rede.exec DaSessao Conecta 12000
        (((ligada { apn := some .empty, pinTx := 1, pinRx := 2 } 0).execAll ateReady).mqttLoop 8004
          { millisFim := 9000 }) [(12000, .mqttLoop 12000 {})] ↔
      UpToDue DaSessao (Legible voltaMillis 12000) 12000 [(12000, .mqttLoop 12000 {})]) := by
  refine ⟨?_, ?_⟩
  · refine (prazos_iff { apn := some .empty, pinTx := 1, pinRx := 2 } 0 []).1
      (.linkLoop 28001 respostaMuda) 28001 _ ?_ ?_ rfl ?_
    · decide +kernel
    · decide +kernel
    · simp [NoRelogio, relogio]
  · refine (prazos_iff { apn := some .empty, pinTx := 1, pinRx := 2 } 0 ateReady).2 8004
      { millisFim := 9000 } 9000 _ ?_ ?_ rfl ?_ ?_
    · constructor <;> decide +kernel
    · decide +kernel
    · simp
    · intro before x after hsplit _
      obtain ⟨rfl, rfl⟩ : before = [] ∧ x = (12000, .mqttLoop 12000 {}) := by
        cases before with
        | nil => simpa using (List.cons.inj hsplit).1.symm
        | cons _ _ => simp at hsplit
      exact ⟨by decide +kernel, by decide +kernel, by decide +kernel, by decide +kernel, rfl, rfl⟩

/-- A link that falls one second before the clock wraps is out of `backoff` after one millisecond
instead of two seconds. -/
theorem recuo_na_volta :
    ∃ (chamada : Chamada) (inicio : Nat) (agenda : List (Nat × Chamada)),
      let s := (ligada { apn := some .empty, pinTx := 1, pinRx := 2 } 4294938295).execAll []
      let prazo := inicio + (GsmLink.backoffMs s.link.failures).toNat
      s.link.state ≠ .backoff ∧ (s.exec chamada).link.state = .backoff ∧
        instanteFalha chamada = relogio inicio ∧ (∀ x ∈ agenda, inicio ≤ x.1 ∧ NoRelogio x) ∧
        ¬ OnTime exec DoLink DeixaBackoff prazo (s.exec chamada) agenda := by
  refine ⟨.linkLoop 4294966296 respostaMuda, 4294966296,
    [(4294966297, .linkLoop 4294966297 respostaMuda)], by decide +kernel, by decide +kernel, rfl,
    by simp [NoRelogio, relogio], fun h => ?_⟩
  have hleft := h [] _ _ [] rfl trivial (by simp [NoneDue])
  have hearly : DeixaBackoff (((ligada { apn := some .empty, pinTx := 1, pinRx := 2 }
      4294938295).execAll []).exec (.linkLoop 4294966296 respostaMuda))
      (.linkLoop 4294966297 respostaMuda) := by
    unfold DeixaBackoff
    decide +kernel
  exact absurd (hleft.mp hearly) (by decide +kernel)

end Rede

end FirmwareUpdater
