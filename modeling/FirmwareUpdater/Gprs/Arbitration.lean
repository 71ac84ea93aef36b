import FirmwareUpdater.Gprs.GsmMqttClient
import FirmwareUpdater.Gprs.LinkSteps
import FirmwareUpdater.Library.Run

/-!
# One owner of the link at a time

The lease, the pause flag of the link and the suspension of the session move
together (`Arbitrada`), over every order of calls to the two objects and every
answer of the modem. A lease is only ever held on a link that is ready, and a
session is only ever suspended for a lease or for a fall that the next PDP makes
good. What the lease does not see is a connection attempt that has not ended:
`mux_exclusivo_iff` says which acquisitions leave the modem's MQTT socket shut.
-/

namespace FirmwareUpdater

open GsmMqttClient Library

namespace Rede

/-! ## What a loop of the session does to the rest -/

/-- Only the session changes, and not its suspension. -/
structure SoSessao (s t : Rede GsmMqttClient) : Prop where
  link_eq : t.link = s.link
  gates_eq : t.gates = s.gates
  log_eq : t.log = s.log
  suspenso_eq : t.sessao.suspenso = s.sessao.suspenso

/-- Nor whether it is configured, nor where the MQTT library delivers to. -/
structure SoTentativa (s t : Rede GsmMqttClient) : Prop extends SoSessao s t where
  configurado_eq : t.sessao.configurado = s.sessao.configurado
  instancia_eq : t.sessao.instancia = s.sessao.instancia

/-- What `loop` makes of an attempt is the session's own affair. -/
theorem aposTentativa_soTentativa (r : RespostaSessao) (tried : Tentativa × Rede GsmMqttClient) :
    SoTentativa tried.2 (aposTentativa r tried) := by
  obtain ⟨tentativa, t⟩ := tried
  cases tentativa <;> refine ⟨⟨?_, ?_, ?_, ?_⟩, ?_, ?_⟩ <;> simp only [aposTentativa, comSessao]

section MqttLoop

variable {P : Rede GsmMqttClient → Prop} {r : RespostaSessao}
  (hsessao : ∀ s t, P s → SoTentativa s t → P t)
  (hfalha : ∀ s, P s → P (s.reportMqttTransportFailure r.millisFalha r.millisReset))
  (hconectado : ∀ s, P s → P s.reportMqttConnected)

include hsessao hfalha

/-- Judging a pending open reports at most a failure. -/
theorem avaliarAbertura_keeps {s : Rede GsmMqttClient} (h : P s) :
    P (s.avaliarAbertura r).2 := by
  unfold avaliarAbertura
  dsimp only
  split
  · exact hsessao _ _ h ⟨⟨rfl, rfl, rfl, rfl⟩, rfl, rfl⟩
  split
  · exact hsessao _ _ h ⟨⟨rfl, rfl, rfl, rfl⟩, rfl, rfl⟩
  · exact hfalha _ (hsessao _ _ h ⟨⟨rfl, rfl, rfl, rfl⟩, rfl, rfl⟩)

/-- Opening the socket reports at most a failure. -/
theorem abrirTcp_keeps {s : Rede GsmMqttClient} (h : P s) (prazo : Nat) :
    P (s.abrirTcp prazo r).2 := by
  unfold abrirTcp
  split
  · exact hsessao _ _ h ⟨⟨rfl, rfl, rfl, rfl⟩, rfl, rfl⟩
  split
  · exact avaliarAbertura_keeps hsessao hfalha h
  dsimp only
  split
  · exact hsessao _ _ h ⟨⟨rfl, rfl, rfl, rfl⟩, rfl, rfl⟩
  · refine avaliarAbertura_keeps hsessao hfalha ?_
    exact hsessao _ _ h ⟨⟨rfl, rfl, rfl, rfl⟩, rfl, rfl⟩

include hconectado

/-- The handshake reports a failure, a success or nothing. -/
theorem abrirSessao_keeps {s : Rede GsmMqttClient} (h : P s) :
    P (s.abrirSessao r).2 := by
  unfold abrirSessao
  dsimp only
  split
  · split
    · exact hfalha _ (hsessao s _ h ⟨⟨rfl, rfl, rfl, rfl⟩, rfl, rfl⟩)
    · exact hsessao _ _ h ⟨⟨rfl, rfl, rfl, rfl⟩, rfl, rfl⟩
  · have hentered := hconectado _ (hsessao s _ h ⟨⟨rfl, rfl, rfl, rfl⟩, rfl, rfl⟩)
    exact hsessao _ _ hentered ⟨⟨rfl, rfl, rfl, rfl⟩, rfl, rfl⟩

/-- What any change of the session and the two reports keep, a connection attempt keeps. -/
theorem conectar_keeps {s : Rede GsmMqttClient} (h : P s) :
    P (s.conectar r).2 := by
  unfold conectar
  split
  · exact h
  dsimp only
  generalize hnovo : s.comSessao _ = novo
  have hkept : P novo := by
    subst hnovo
    exact hsessao s _ h ⟨⟨rfl, rfl, rfl, rfl⟩, rfl, rfl⟩
  generalize haberto : novo.abrirTcp _ r = aberto
  have htcp : P aberto.2 := by
    subst haberto
    exact abrirTcp_keeps hsessao hfalha hkept _
  obtain ⟨tentativa, t⟩ := aberto
  cases tentativa with
  | conectou => exact abrirSessao_keeps hsessao hfalha hconectado htcp
  | falhou | aguardando => exact htcp

/-- What any change of the session and the two reports keep, a loop of the session keeps. -/
theorem mqttLoop_keeps {s : Rede GsmMqttClient} (h : P s) (now : UInt32) :
    P (s.mqttLoop now r) := by
  unfold mqttLoop
  split
  · exact h
  have hfecha : ∀ c : GsmMqttClient,
      (if r.pubLoopFecha then c.fechar else c).suspenso = c.suspenso ∧
        (if r.pubLoopFecha then c.fechar else c).configurado = c.configurado ∧
        (if r.pubLoopFecha then c.fechar else c).instancia = c.instancia := by
    intro c
    cases r.pubLoopFecha <;> exact ⟨rfl, rfl, rfl⟩
  dsimp only
  generalize hpolled : s.comSessao _ = polled
  have hkept : P polled := by
    subst hpolled
    obtain ⟨hsuspenso, hconfigurado, hinstancia⟩ := hfecha s.sessao
    exact hsessao s _ h ⟨⟨rfl, rfl, rfl, hsuspenso⟩, hconfigurado, hinstancia⟩
  split
  · exact hsessao _ _ hkept ⟨⟨rfl, rfl, rfl, rfl⟩, rfl, rfl⟩
  split
  · exact hsessao _ _ hkept ⟨⟨rfl, rfl, rfl, rfl⟩, rfl, rfl⟩
  split
  · exact hsessao _ _ hkept ⟨⟨rfl, rfl, rfl, rfl⟩, rfl, rfl⟩
  split
  · exact hkept
  · have htried := conectar_keeps hsessao hfalha hconectado hkept
    exact hsessao _ _ htried (aposTentativa_soTentativa r _)

end MqttLoop

/-! ## The lease, the pause and the suspension -/

/-- What ties the link's two flags to its state and to the suspension of the session. -/
structure Arbitrada (s : Rede GsmMqttClient) : Prop where
  pause_eq : s.gates.pause = some suspend
  resume_eq : s.gates.resume = some resume
  lease_ready : s.link.httpLeased = true → s.link.state = .ready
  suspensa : s.sessao.suspenso = true → s.link.httpLeased = true ∨ s.link.mqttPausedByFail = true
  pausa : s.link.mqttPausedByFail = true → s.link.state ≠ .ready

/-- Below `ready` nobody holds a lease. -/
theorem Arbitrada.livre {s : Rede GsmMqttClient} (h : Arbitrada s)
    (hstate : s.link.state ≠ .ready) : s.link.httpLeased = false := by
  rw [← Bool.not_eq_true]
  exact fun hleased => hstate (h.lease_ready hleased)

/-- A session that the gate has resumed is not suspended. -/
theorem resume_suspenso (c : GsmMqttClient) : c.resume.suspenso = false := by
  unfold resume
  cases h : c.suspenso <;> simp [h]

/-- A change of the session alone that does not suspend it. -/
theorem Arbitrada.sessao {s t : Rede GsmMqttClient} (h : Arbitrada s) (hlink : t.link = s.link)
    (hgates : t.gates = s.gates) (hsuspenso : t.sessao.suspenso = true → s.sessao.suspenso = true) :
    Arbitrada t := by
  obtain ⟨hpause, hresume, hlease, hsuspensa, hpausa⟩ := h
  refine ⟨?_, ?_, ?_, ?_, ?_⟩
  · rw [hgates, hpause]
  · rw [hgates, hresume]
  · rwa [hlink]
  · rw [hlink]
    exact fun hs => hsuspensa (hsuspenso hs)
  · rwa [hlink]

/-- A quiet step of the link. -/
theorem Arbitrada.quieta {s t : Rede GsmMqttClient} (h : Arbitrada s) (ht : s.Quieta t) :
    Arbitrada t := by
  obtain ⟨l, hl, rfl⟩ := ht
  refine ⟨h.pause_eq, h.resume_eq, ?_, ?_, ?_⟩
  · intro hleased
    exact hl.ready_iff.mpr (h.lease_ready (hl.httpLeased_eq ▸ hleased))
  · intro hsuspenso
    rw [hl.httpLeased_eq, hl.paused_eq]
    exact h.suspensa hsuspenso
  · intro hpaused hready
    exact h.pausa (hl.paused_eq ▸ hpaused) (hl.ready_iff.mp hready)

/-- A fall, from whatever state: the session is suspended and the link knows why. -/
theorem Arbitrada.fail {s : Rede GsmMqttClient} (h : Arbitrada s) (now : UInt32) :
    Arbitrada (s.fail now) := by
  obtain ⟨hstate, hlease, hpaused, _, _⟩ := s.fail_link now
  obtain ⟨_, hgates, _⟩ := s.fail_rest now
  have hflag : (s.fail now).link.mqttPausedByFail = true := by simp [hpaused, h.pause_eq]
  refine ⟨?_, ?_, ?_, ?_, ?_⟩
  · rw [hgates, h.pause_eq]
  · rw [hgates, h.resume_eq]
  · simp [hlease]
  · exact fun _ => .inr hflag
  · simp [hstate]

/-- A modem reset, from whatever state. -/
theorem Arbitrada.resetModem {s : Rede GsmMqttClient} (h : Arbitrada s) (millis : UInt32) :
    Arbitrada (s.resetModem millis) := by
  obtain ⟨hstate, hlease, hpaused, _, _⟩ := s.resetModem_link millis
  obtain ⟨_, hgates, _⟩ := s.resetModem_rest millis
  have hflag : (s.resetModem millis).link.mqttPausedByFail = true := by
    simp [hpaused, h.pause_eq]
  refine ⟨?_, ?_, ?_, ?_, ?_⟩
  · rw [hgates, h.pause_eq]
  · rw [hgates, h.resume_eq]
  · simp [hlease]
  · exact fun _ => .inr hflag
  · simp [hstate]

/-- The PDP comes up: whoever was paused by the fall runs again. -/
theorem Arbitrada.subirPdp {s : Rede GsmMqttClient} (h : Arbitrada s)
    (hfree : s.link.httpLeased = false) (now ip : UInt32) : Arbitrada (s.subirPdp now ip) := by
  obtain ⟨hstate, hlease, hpaused, _, _⟩ := s.subirPdp_link now ip
  obtain ⟨hsessao, hgates, _⟩ := s.subirPdp_rest now ip
  refine ⟨?_, ?_, ?_, ?_, ?_⟩
  · rw [hgates, h.pause_eq]
  · rw [hgates, h.resume_eq]
  · exact fun _ => hstate
  · intro hsuspenso
    rw [hsessao] at hsuspenso
    split at hsuspenso
    · rw [retomada, h.resume_eq, Option.getD_some, resume_suspenso] at hsuspenso
      cases hsuspenso
    · rename_i hnot
      rcases h.suspensa hsuspenso with hleased | hpaused
      · rw [hfree] at hleased
        cases hleased
      · exact absurd hpaused hnot
  · simp [hpaused]

/-- A step of the link. -/
theorem Arbitrada.loop {s : Rede GsmMqttClient} (h : Arbitrada s) (now : UInt32)
    (r : RespostaModem) : Arbitrada (s.loop now r) := by
  rcases s.loop_cases now r with
    hquiet | ⟨_, hfail⟩ | ⟨_, t, ht, hreset⟩ | ⟨_, hrefazer, l, hl, hrefaz⟩ | ⟨hstate, _, hup⟩
  · exact h.quieta hquiet
  · rw [hfail]
    exact h.fail now
  · rw [hreset]
    exact (h.quieta ht).resetModem r.millis
  · rw [hrefaz]
    refine ⟨h.pause_eq, h.resume_eq, ?_, ?_, ?_⟩
    · intro hleased
      exact hl.ready_iff.mpr (h.lease_ready (hl.httpLeased_eq ▸ hleased))
    · intro hsuspenso
      rw [hl.httpLeased_eq, hl.paused_eq]
      exact h.suspensa hsuspenso
    · intro hpaused hready
      exact h.pausa (hl.paused_eq ▸ hpaused) (hl.ready_iff.mp hready)
  · rw [hup]
    exact h.subirPdp (h.livre (by simp [hstate])) now r.localIP

/-- Taking the lease suspends the session. -/
theorem Arbitrada.acquireForHttp {s : Rede GsmMqttClient} (h : Arbitrada s) :
    Arbitrada s.acquireForHttp.2 := by
  unfold Rede.acquireForHttp
  split
  · exact h
  · rename_i hfree
    rw [not_or, not_not] at hfree
    exact ⟨h.pause_eq, h.resume_eq, fun _ => hfree.1, fun _ => .inl rfl, h.pausa⟩

/-- Giving the lease back resumes it. -/
theorem Arbitrada.releaseHttp {s : Rede GsmMqttClient} (h : Arbitrada s) :
    Arbitrada s.releaseHttp := by
  unfold Rede.releaseHttp
  split
  · exact h
  · refine ⟨h.pause_eq, h.resume_eq, by simp, ?_, h.pausa⟩
    intro hsuspenso
    simp only [h.resume_eq, resume_suspenso] at hsuspenso
    cases hsuspenso

/-- A transport failure, reported from within a connection attempt or from outside. -/
theorem Arbitrada.reportMqttTransportFailure {s : Rede GsmMqttClient} (h : Arbitrada s)
    (now millis : UInt32) : Arbitrada (s.reportMqttTransportFailure now millis) := by
  unfold Rede.reportMqttTransportFailure
  split
  · exact h
  dsimp only
  generalize hcontada : Rede.mk _ s.gates s.sessao [] = contada
  have hkept : Arbitrada contada := by
    subst hcontada
    exact ⟨h.pause_eq, h.resume_eq, h.lease_ready, h.suspensa, h.pausa⟩
  have hescala : Arbitrada (contada.escalar now millis) := by
    rcases contada.escalar_cases now millis with ⟨_, hnone⟩ | ⟨_, _, hredo⟩ | ⟨_, hreset⟩
    · rwa [hnone]
    · rw [hredo]
      refine Arbitrada.fail ?_ now
      exact ⟨hkept.pause_eq, hkept.resume_eq, hkept.lease_ready, hkept.suspensa, hkept.pausa⟩
    · rw [hreset]
      exact hkept.resetModem millis
  exact hescala.sessao rfl rfl id

/-- A connection that came up. -/
theorem Arbitrada.reportMqttConnected {s : Rede GsmMqttClient} (h : Arbitrada s) :
    Arbitrada s.reportMqttConnected :=
  ⟨h.pause_eq, h.resume_eq, h.lease_ready, h.suspensa, h.pausa⟩

/-- `begin` suspends nobody. -/
theorem begin_suspenso (c : GsmMqttClient) (cfg : MqttSessionConfig)
    (h : (c.begin cfg).2.suspenso = true) : c.suspenso = true := by
  have hcopias : (c.copiarTodas cfg).2.suspenso = c.suspenso := by
    unfold copiarTodas
    dsimp only
    repeat' split
    all_goals rfl
  unfold GsmMqttClient.begin at h
  split at h
  · exact h
  split at h
  · exact h
  generalize c.copiarTodas cfg = copiado at h hcopias
  dsimp only at h
  split at h
  · rwa [← hcopias]
  · cases h

/-- Nor does `end`, nor does it free anybody. -/
theorem endSession_suspenso (c : GsmMqttClient) : c.endSession.suspenso = c.suspenso := by
  unfold endSession
  cases c.conectado <;> rfl

/-- Every call keeps the lease, the pause and the suspension together. -/
theorem Arbitrada.exec {s : Rede GsmMqttClient} (h : Arbitrada s) (chamada : Chamada) :
    Arbitrada (s.exec chamada) := by
  cases chamada with
  | linkLoop now r => exact h.loop now r
  | mqttLoop now r =>
      refine mqttLoop_keeps ?_ ?_ ?_ h now
      · exact fun s t h hs => h.sessao hs.link_eq hs.gates_eq fun ht => hs.suspenso_eq ▸ ht
      · exact fun s h => h.reportMqttTransportFailure _ _
      · exact fun s h => h.reportMqttConnected
  | acquireForHttp => exact h.acquireForHttp
  | releaseHttp => exact h.releaseHttp
  | reportMqttTransportFailure now millis => exact h.reportMqttTransportFailure now millis
  | reportMqttSessionLost now => exact h
  | reportMqttConnected => exact h.reportMqttConnected
  | begin cfg => exact h.sessao rfl rfl (begin_suspenso _ cfg)
  | endSession =>
      refine h.sessao rfl rfl (fun hsuspenso => ?_)
      rwa [Rede.exec, comSessao, endSession_suspenso] at hsuspenso
  | modem novo => exact h.sessao rfl rfl id

/-- It holds from the start. -/
theorem arbitrada_ligada (cfg : GprsConfig) (millis : UInt32) : Arbitrada (ligada cfg millis) := by
  have hlink : (GsmLink.begin { cfg } cfg millis).2.httpLeased = false ∧
      (GsmLink.begin { cfg } cfg millis).2.mqttPausedByFail = false := by
    unfold GsmLink.begin
    split <;> exact ⟨rfl, rfl⟩
  refine ⟨rfl, rfl, ?_, ?_, ?_⟩
  · intro hleased
    exact absurd hleased (by simp [ligada, setMqttGate, hlink.1])
  · intro hsuspenso
    cases hsuspenso
  · intro hpaused
    exact absurd hpaused (by simp [ligada, setMqttGate, hlink.2])

/-- One call as a labelled step. -/
def Passo (s : Rede GsmMqttClient) (chamada : Chamada) (t : Rede GsmMqttClient) : Prop :=
  t = s.exec chamada

/-- A sequence of calls is a run. -/
theorem run_execAll (s : Rede GsmMqttClient) (chamadas : List Chamada) :
    Run Passo s chamadas (s.execAll chamadas) := by
  induction chamadas generalizing s with
  | nil => exact .nil s
  | cons chamada chamadas ih => exact .cons rfl (ih (s.exec chamada))

/-- It holds in every state of every run. -/
theorem arbitrada_execAll (cfg : GprsConfig) (millis : UInt32) (chamadas : List Chamada) :
    Arbitrada ((ligada cfg millis).execAll chamadas) := by
  refine (run_execAll _ chamadas).invariant Arbitrada ?_ (arbitrada_ligada cfg millis)
  rintro s chamada t h rfl
  exact h.exec chamada

/-- A ready link without a lease has a session that may run. -/
theorem Arbitrada.solta {s : Rede GsmMqttClient} (h : Arbitrada s) (hready : s.link.state = .ready)
    (hfree : s.link.httpLeased = false) : s.sessao.suspenso = false := by
  by_contra hsuspenso
  rw [Bool.not_eq_false] at hsuspenso
  rcases h.suspensa hsuspenso with hleased | hpaused
  · rw [hfree] at hleased
    cases hleased
  · exact h.pausa hpaused hready

/-- No session is stranded: after any calls, a lease is only held on a link that is ready, the
session of a ready link without a lease is not suspended, and the pause of a fall is over once
the link is ready. -/
theorem sessao_nunca_encalha (cfg : GprsConfig) (millis : UInt32) (chamadas : List Chamada) :
    let s := (ligada cfg millis).execAll chamadas
    (s.link.httpLeased = true → s.link.state = .ready) ∧
      (s.link.state = .ready ∧ s.link.httpLeased = false → s.sessao.suspenso = false) ∧
      (s.link.mqttPausedByFail = true → s.link.state ≠ .ready) := by
  have h := arbitrada_execAll cfg millis chamadas
  exact ⟨h.lease_ready, fun hidle => h.solta hidle.1 hidle.2, h.pausa⟩

/-! ## The two sockets -/

/-- While HTTP has the link, the MQTT socket is neither open nor opening. -/
def MuxExclusivo (s : Rede GsmMqttClient) : Prop :=
  s.link.httpLeased = true → s.sessao.mux = .fechado

/-- A lease that is granted now finds the session up, or its socket closed. -/
def AquisicaoSegura (s : Rede GsmMqttClient) : Prop :=
  s.link.state = .ready → s.link.httpLeased = false →
    s.sessao.conectado = true ∨ s.sessao.mux = .fechado

/-- What suspending a running session does to its socket. -/
theorem suspend_mux {c : GsmMqttClient} (h : c.suspenso = false) :
    c.suspend.mux = if c.conectado then .fechado else c.mux := by
  unfold suspend
  rw [h]
  cases hconectado : c.conectado <;> simp [fechar]

/-- A granted lease leaves the socket closed exactly when it was safe to grant. -/
theorem acquire_exclusivo_iff {s : Rede GsmMqttClient} (h : Arbitrada s)
    (hready : s.link.state = .ready) (hfree : s.link.httpLeased = false) :
    MuxExclusivo s.acquireForHttp.2 ↔ s.sessao.conectado = true ∨ s.sessao.mux = .fechado := by
  have hafter : s.acquireForHttp.2 =
      { s with sessao := s.sessao.suspend, link := { s.link with httpLeased := true } } := by
    unfold Rede.acquireForHttp
    simp [hready, hfree, h.pause_eq]
  rw [hafter, MuxExclusivo, suspend_mux (h.solta hready hfree)]
  cases s.sessao.conectado <;> simp

/-- No report takes a lease, and under a lease a failure is not counted. -/
theorem report_lease {s : Rede GsmMqttClient} (hfree : s.link.httpLeased = false)
    (now millis : UInt32) : (s.reportMqttTransportFailure now millis).link.httpLeased = false := by
  unfold Rede.reportMqttTransportFailure
  split
  · exact hfree
  dsimp only
  generalize hcontada : Rede.mk _ s.gates s.sessao [] = contada
  have hkept : contada.link.httpLeased = false := by
    subst hcontada
    exact hfree
  rcases contada.escalar_cases now millis with ⟨_, hnone⟩ | ⟨_, _, hredo⟩ | ⟨_, hreset⟩
  · rw [hnone, hkept]
  · rw [hredo, (fail_link _ now).2.1]
  · rw [hreset, (contada.resetModem_link millis).2.1]

/-- A loop of the session takes no lease. -/
theorem mqttLoop_lease {s : Rede GsmMqttClient} (hfree : s.link.httpLeased = false)
    (now : UInt32) (r : RespostaSessao) : (s.mqttLoop now r).link.httpLeased = false := by
  refine @mqttLoop_keeps (fun t => t.link.httpLeased = false) r ?_ ?_ ?_ s hfree now
  · exact fun s t h hs => hs.link_eq ▸ h
  · exact fun s h => report_lease h _ _
  · exact fun s h => h

/-- While HTTP has the link, a loop of the session opens nothing. -/
theorem mqttLoop_leased {s : Rede GsmMqttClient} (hleased : s.link.httpLeased = true)
    (hmux : s.sessao.mux = .fechado) (now : UInt32) (r : RespostaSessao) :
    (s.mqttLoop now r).sessao.mux = .fechado := by
  unfold mqttLoop
  split
  · exact hmux
  dsimp only
  generalize hpolled : s.comSessao _ = polled
  have hkept : polled.sessao.mux = .fechado ∧ polled.link = s.link := by
    subst hpolled
    refine ⟨?_, rfl⟩
    cases r.pubLoopFecha with
    | false => exact hmux
    | true => rfl
  split
  · exact hkept.1
  split
  · exact hkept.1
  split
  · exact hkept.1
  · rename_i hfree
    rw [hkept.2] at hfree
    simp [GsmLink.httpBusy, hleased] at hfree

/-- `begin` does not touch the socket. -/
theorem begin_mux (c : GsmMqttClient) (cfg : MqttSessionConfig) : (c.begin cfg).2.mux = c.mux := by
  have hcopias : (c.copiarTodas cfg).2.mux = c.mux := by
    unfold copiarTodas
    dsimp only
    repeat' split
    all_goals rfl
  unfold GsmMqttClient.begin
  split
  · rfl
  split
  · rfl
  generalize c.copiarTodas cfg = copiado at hcopias
  dsimp only
  split <;> exact hcopias

/-- Every call keeps the two sockets apart, a lease that was safe to grant included. -/
theorem muxExclusivo_exec {s : Rede GsmMqttClient} (h : Arbitrada s) (hmux : MuxExclusivo s)
    {chamada : Chamada} (hsegura : chamada = .acquireForHttp → AquisicaoSegura s) :
    MuxExclusivo (s.exec chamada) := by
  cases chamada with
  | linkLoop now r =>
      intro hleased
      have hbefore := s.loop_lease now r hleased
      rw [Rede.exec, s.loop_ready now r (h.lease_ready hbefore)]
      exact hmux hbefore
  | mqttLoop now r =>
      intro hleased
      cases hbefore : s.link.httpLeased with
      | false =>
          rw [Rede.exec, mqttLoop_lease hbefore] at hleased
          cases hleased
      | true => exact mqttLoop_leased hbefore (hmux hbefore) now r
  | acquireForHttp =>
      -- The only call that can break it: suspending leaves an attempt under way alone.
      by_cases hgranted : s.link.state = .ready ∧ s.link.httpLeased = false
      · exact (acquire_exclusivo_iff h hgranted.1 hgranted.2).mpr
          (hsegura rfl hgranted.1 hgranted.2)
      · have hrefused : s.acquireForHttp.2 = s := by
          unfold Rede.acquireForHttp
          rw [if_pos (by simpa [or_iff_not_imp_left] using hgranted)]
        rwa [Rede.exec, hrefused]
  | releaseHttp =>
      intro hleased
      rw [Rede.exec, releaseHttp_lease] at hleased
      cases hleased
  | reportMqttTransportFailure now millis =>
      intro hleased
      cases hbefore : s.link.httpLeased with
      | false =>
          rw [Rede.exec, report_lease hbefore] at hleased
          cases hleased
      | true =>
          rw [Rede.exec, s.report_ignored now millis (by simp [hbefore])]
          exact hmux hbefore
  | reportMqttSessionLost now => exact hmux
  | reportMqttConnected => exact hmux
  | begin cfg =>
      intro hleased
      exact (begin_mux s.sessao cfg).trans (hmux hleased)
  | endSession =>
      intro hleased
      have hclosed := hmux hleased
      simp only [Rede.exec, comSessao, endSession]
      split
      · rfl
      · exact hclosed
  | modem novo =>
      intro hleased
      simp only [Rede.exec, comSessao, hmux hleased, Mux.responde]

/-- HTTP and MQTT never share the link over a sequence of calls exactly when every lease granted
on the way finds the session up or its socket closed. -/
theorem mux_exclusivo_iff (cfg : GprsConfig) (millis : UInt32) (chamadas : List Chamada) :
    (∀ feitas, feitas <+: chamadas → MuxExclusivo ((ligada cfg millis).execAll feitas)) ↔
      ∀ feitas, feitas ++ [.acquireForHttp] <+: chamadas →
        AquisicaoSegura ((ligada cfg millis).execAll feitas) := by
  have hsnoc : ∀ feitas chamada, (ligada cfg millis).execAll (feitas ++ [chamada]) =
      ((ligada cfg millis).execAll feitas).exec chamada := by
    intro feitas chamada
    simp [execAll]
  refine ⟨?_, ?_⟩
  · intro hexclusivo feitas hprefix hready hfree
    have hgranted := hexclusivo _ hprefix
    rw [hsnoc] at hgranted
    exact (acquire_exclusivo_iff (arbitrada_execAll cfg millis feitas) hready hfree).mp hgranted
  · intro hsegura feitas
    induction feitas using List.reverseRecOn with
    | nil =>
        intro _ hleased
        rfl
    | append_singleton feitas chamada ih =>
        intro hprefix
        rw [hsnoc]
        refine muxExclusivo_exec (arbitrada_execAll cfg millis feitas) ?_ ?_
        · exact ih ((List.prefix_append feitas [chamada]).trans hprefix)
        · rintro rfl
          exact hsegura feitas hprefix

/-- A modem that does everything it is asked to at once. -/
def respostaPronta : RespostaModem where
  testAT := true
  init := true
  networkConnected := true
  registrationStatus := 1
  signalQuality := 20
  gprsConnected := true
  localIP := 1
  millis := 0

/-- From power on to the first connection attempt, whose `CIPSTART` is still under way after
45 s, and then the lease. -/
def cipstartPendente : List Chamada :=
  [.begin { host := some (.ofBytes [104]), clientId := some (.ofBytes [99]) },
    .linkLoop 8000 respostaPronta, .linkLoop 8001 respostaPronta, .linkLoop 8002 respostaPronta,
    .linkLoop 8003 respostaPronta,
    .mqttLoop 8004
      { millisCipstart := 8004, muxDepoisConnect := .abrindo, millisAbertura := 53004,
        estadoSocket := .abrindo, millisFim := 53005 },
    .acquireForHttp]

/-- The lease is granted over the pending `CIPSTART`, which may then open the socket next to
HTTP's. -/
theorem lease_sobre_cipstart :
    let s := (ligada { apn := some .empty, pinTx := 1, pinRx := 2 } 0).execAll cipstartPendente
    s.link.httpLeased = true ∧ s.sessao.mux = .abrindo ∧
      (s.exec (.modem .aberto)).link.httpLeased = true ∧
      (s.exec (.modem .aberto)).sessao.mux = .aberto := by
  decide +kernel

end Rede

end FirmwareUpdater
