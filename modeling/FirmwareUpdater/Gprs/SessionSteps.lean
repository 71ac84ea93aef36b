import FirmwareUpdater.Gprs.Arbitration

/-!
# What a loop of the session can do

The session's `loop` either gets to a connection attempt (`Tenta`) or leaves the link
alone. One lemma for each part of an attempt says what it asks of the socket and how
it leaves the session when it fails. A failure is reported to the link, which may
suspend the session from within, so all of them suppose a gate that does.
-/

namespace FirmwareUpdater

namespace GsmMqttClient

/-- The connections asked for, of the socket or of the MQTT library. -/
def tentativas (c : GsmMqttClient) : Nat := c.pedidos.countP (· ≠ .stop)

/-- Closing the socket asks for none. -/
@[simp] theorem fechar_tentativas (c : GsmMqttClient) : c.fechar.tentativas = c.tentativas := by
  simp [tentativas, fechar]

/-- Nor does suspending. -/
@[simp] theorem suspend_tentativas (c : GsmMqttClient) : c.suspend.tentativas = c.tentativas := by
  unfold suspend
  cases c.suspenso with
  | true => rfl
  | false => cases c.conectado <;> simp [tentativas, fechar]

/-- A session that has no connection and waits for none, after `falhas` failures. -/
structure Parada (falhas : UInt8) (c : GsmMqttClient) : Prop where
  cipstartMs : c.cipstartMs = 0
  conectado : c.conectado = false
  estavaConectado : c.estavaConectado = false
  falhas : c.falhas = falhas

/-- Suspending it changes nothing of that. -/
theorem Parada.suspend {falhas : UInt8} {c : GsmMqttClient} (h : Parada falhas c) :
    Parada falhas c.suspend := by
  unfold GsmMqttClient.suspend
  cases c.suspenso with
  | true => exact h
  | false =>
      simp only [Bool.false_eq_true, if_false, h.conectado]
      exact ⟨rfl, rfl, rfl, h.falhas⟩

end GsmMqttClient

namespace Rede

open GsmMqttClient

variable {s : Rede GsmMqttClient} {now : UInt32} {r : RespostaSessao} {falhas : UInt8}

/-! ## Reports -/

/-- A failure is reported to a link that may suspend the session, and that is all the session sees
of it. -/
theorem report_sessao (hpause : s.gates.pause = some suspend) (now millis : UInt32) :
    (s.reportMqttTransportFailure now millis).sessao = s.sessao ∨
      (s.reportMqttTransportFailure now millis).sessao = s.sessao.suspend := by
  unfold reportMqttTransportFailure
  split
  · exact .inl rfl
  dsimp only
  generalize hcontada : Rede.mk _ s.gates s.sessao [] = contada
  have hkept : contada.sessao = s.sessao ∧ contada.gates.pause = some suspend := by
    subst hcontada
    exact ⟨rfl, hpause⟩
  obtain ⟨hsessao, hpause⟩ := hkept
  rw [← hsessao]
  rcases contada.escalar_cases now millis with ⟨_, hnone⟩ | ⟨_, _, hredo⟩ | ⟨_, hreset⟩
  · exact .inl (by rw [hnone])
  · refine .inr ?_
    rw [hredo, (fail_rest _ now).1, pausada, hpause]
    rfl
  · refine .inr ?_
    rw [hreset, (contada.resetModem_rest millis).1, pausada, hpause]
    rfl

/-- A report leaves the gate as it is. -/
theorem report_gates (s : Rede GsmMqttClient) (now millis : UInt32) :
    (s.reportMqttTransportFailure now millis).gates = s.gates := by
  unfold reportMqttTransportFailure
  split
  · rfl
  dsimp only
  generalize hcontada : Rede.mk _ s.gates s.sessao [] = contada
  have hkept : contada.gates = s.gates := by rw [← hcontada]
  rw [← hkept]
  rcases contada.escalar_cases now millis with ⟨_, hnone⟩ | ⟨_, _, hredo⟩ | ⟨_, hreset⟩
  · rw [hnone]
  · rw [hredo, (fail_rest _ now).2.1]
  · rw [hreset, (contada.resetModem_rest millis).2.1]

/-- A report asks for no connection. -/
theorem report_tentativas (hpause : s.gates.pause = some suspend) (now millis : UInt32) :
    (s.reportMqttTransportFailure now millis).sessao.tentativas = s.sessao.tentativas := by
  rcases report_sessao hpause now millis with hsame | hsuspended
  · rw [hsame]
  · rw [hsuspended, suspend_tentativas]

/-- A report leaves a session that waits for nothing as it is. -/
theorem report_parada (hpause : s.gates.pause = some suspend) (h : Parada falhas s.sessao)
    (now millis : UInt32) :
    Parada falhas (s.reportMqttTransportFailure now millis).sessao := by
  rcases report_sessao hpause now millis with hsame | hsuspended
  · rwa [hsame]
  · rw [hsuspended]
    exact h.suspend

/-! ## The parts of an attempt -/

/-- Judging an open asks for no connection, and ends with none pending unless the modem is still
at it. -/
theorem avaliarAbertura_spec (hpause : s.gates.pause = some suspend) :
    (s.avaliarAbertura r).2.sessao.tentativas = s.sessao.tentativas ∧
      ((s.avaliarAbertura r).1 ≠ .aguardando → s.sessao.conectado = false →
        s.sessao.estavaConectado = false →
        Parada s.sessao.falhas (s.avaliarAbertura r).2.sessao) := by
  unfold avaliarAbertura
  dsimp only
  split
  · exact ⟨rfl, fun _ hconectado hestava => ⟨rfl, hconectado, hestava, rfl⟩⟩
  split
  · exact ⟨rfl, fun h => absurd rfl h⟩
  generalize hfechada : s.comSessao _ = fechada
  have hclosed : fechada.sessao.tentativas = s.sessao.tentativas ∧
      fechada.gates.pause = some suspend ∧
      (s.sessao.conectado = false → s.sessao.estavaConectado = false →
        Parada s.sessao.falhas fechada.sessao) := by
    subst hfechada
    exact ⟨fechar_tentativas _, hpause, fun hconectado hestava => ⟨rfl, hconectado, hestava, rfl⟩⟩
  obtain ⟨hcount, hpause, hparada⟩ := hclosed
  refine ⟨?_, fun _ hconectado hestava => ?_⟩
  · rw [← hcount]
    exact report_tentativas hpause _ _
  · exact report_parada hpause (hparada hconectado hestava) _ _

/-- Opening the socket asks for a connection where none is there or pending. -/
theorem abrirTcp_spec (hpause : s.gates.pause = some suspend) (prazo : Nat) :
    (s.abrirTcp prazo r).2.sessao.tentativas = s.sessao.tentativas +
        (if r.socketConnected = false ∧ s.sessao.cipstartMs = 0 then 1 else 0) ∧
      ((s.abrirTcp prazo r).1 ≠ .aguardando → s.sessao.conectado = false →
        s.sessao.estavaConectado = false →
        Parada s.sessao.falhas (s.abrirTcp prazo r).2.sessao) ∧
      ((s.abrirTcp prazo r).1 ≠ .conectou → r.socketConnected = false) := by
  unfold abrirTcp
  split
  · rename_i hopen
    refine ⟨?_, fun _ hconectado hestava => ⟨rfl, hconectado, hestava, rfl⟩,
      fun h => absurd rfl h⟩
    rw [if_neg (by simp [hopen])]
    rfl
  rename_i hclosed
  refine and_assoc.mp ⟨?_, fun _ => by simpa using hclosed⟩
  split
  · rename_i hpending
    rw [if_neg fun h => hpending h.2]
    exact avaliarAbertura_spec hpause
  rename_i hidle
  have hasks : r.socketConnected = false ∧ s.sessao.cipstartMs = 0 :=
    ⟨by simpa using hclosed, not_not.mp hidle⟩
  rw [if_pos hasks]
  dsimp only
  generalize hpedida : s.comSessao _ = pedida
  have hasked : pedida.sessao.tentativas = s.sessao.tentativas + 1 ∧
      pedida.gates.pause = some suspend ∧ pedida.sessao.conectado = s.sessao.conectado ∧
      pedida.sessao.estavaConectado = s.sessao.estavaConectado ∧
      pedida.sessao.falhas = s.sessao.falhas := by
    subst hpedida
    refine ⟨?_, hpause, rfl, rfl, rfl⟩
    simp [tentativas, comSessao, fechar]
  obtain ⟨hcount, hpause, hconectado, hestava, hfalhas⟩ := hasked
  rw [← hcount, ← hconectado, ← hestava, ← hfalhas]
  split
  · exact ⟨rfl, fun _ hconectado hestava => ⟨rfl, hconectado, hestava, rfl⟩⟩
  · exact avaliarAbertura_spec hpause

/-- The handshake asks for a connection of its own. -/
theorem abrirSessao_spec (falhas : UInt8) (hpause : s.gates.pause = some suspend) :
    (s.abrirSessao r).2.sessao.tentativas = s.sessao.tentativas + 1 ∧
      ((s.abrirSessao r).1 = .falhou → Parada falhas s.sessao →
        Parada falhas (s.abrirSessao r).2.sessao) := by
  unfold abrirSessao
  dsimp only
  generalize hpedida : s.comSessao _ = pedida
  have hasked : pedida.sessao.tentativas = s.sessao.tentativas + 1 ∧
      pedida.gates.pause = some suspend ∧
      (Parada falhas s.sessao → Parada falhas pedida.sessao) := by
    subst hpedida
    refine ⟨?_, hpause, fun h => ⟨h.cipstartMs, h.conectado, h.estavaConectado, h.falhas⟩⟩
    simp [tentativas, comSessao]
  obtain ⟨hcount, hpause, hparada⟩ := hasked
  rw [← hcount]
  split
  · split
    · exact ⟨report_tentativas hpause _ _, fun _ h => report_parada hpause (hparada h) _ _⟩
    · exact ⟨rfl, fun _ h => hparada h⟩
  · exact ⟨rfl, fun hfalhou => by cases hfalhou⟩

/-- An attempt on a free link asks for a connection where none is pending, and one that fails leaves
none pending. -/
theorem conectar_spec (hpause : s.gates.pause = some suspend) (hready : s.link.state = .ready)
    (hfree : s.link.httpLeased = false) :
    s.sessao.tentativas ≤ (s.conectar r).2.sessao.tentativas ∧
      (s.sessao.cipstartMs = 0 →
        s.sessao.tentativas < (s.conectar r).2.sessao.tentativas) ∧
      ((s.conectar r).1 = .falhou → s.sessao.conectado = false →
        s.sessao.estavaConectado = false →
        Parada s.sessao.falhas (s.conectar r).2.sessao) := by
  unfold conectar
  rw [if_neg (by simp [GsmLink.up, GsmLink.httpBusy, hready, hfree])]
  dsimp only
  generalize (if s.link.pdpSeq ≠ s.sessao.pdpDaTentativa then connectTimeoutNovoS
    else connectTimeoutS) = prazo
  generalize hnova : s.comSessao _ = nova
  have hkept : nova.sessao.tentativas = s.sessao.tentativas ∧
      nova.gates.pause = some suspend ∧ nova.sessao.conectado = s.sessao.conectado ∧
      nova.sessao.estavaConectado = s.sessao.estavaConectado ∧
      nova.sessao.falhas = s.sessao.falhas ∧
      (s.sessao.cipstartMs = 0 → nova.sessao.cipstartMs = 0) := by
    subst hnova
    refine ⟨rfl, hpause, rfl, rfl, rfl, fun hidle => ?_⟩
    simp only [comSessao, hidle]
    split <;> rfl
  obtain ⟨hcount, hpause, hconectado, hestava, hfalhas, hidle⟩ := hkept
  obtain ⟨htcp, hparada, hclosed⟩ := abrirTcp_spec (r := r) hpause prazo
  have hgate : (nova.abrirTcp prazo r).2.gates.pause = some suspend := by
    refine abrirTcp_keeps (P := fun t => t.gates.pause = some suspend) ?_ ?_ hpause prazo
    · intro s t h hs
      rw [hs.gates_eq, h]
    · intro s h
      rw [report_gates, h]
  rw [← hcount, ← hconectado, ← hestava, ← hfalhas]
  generalize nova.abrirTcp prazo r = aberta at htcp hparada hclosed hgate
  obtain ⟨tentativa, t⟩ := aberta
  cases tentativa with
  | conectou =>
      obtain ⟨hsessao, hfalha⟩ := abrirSessao_spec (r := r) nova.sessao.falhas hgate
      dsimp only at htcp hsessao ⊢
      rw [hsessao, htcp]
      exact ⟨by omega, fun _ => by omega,
        fun h hconectado hestava => hfalha h (hparada (by simp) hconectado hestava)⟩
  | falhou =>
      dsimp only at htcp hclosed ⊢
      rw [htcp]
      refine ⟨by omega, fun hzero => ?_, fun _ => hparada (by simp)⟩
      rw [if_pos ⟨hclosed (by simp), hidle hzero⟩]
      omega
  | aguardando =>
      dsimp only at htcp hclosed ⊢
      rw [htcp]
      refine ⟨by omega, fun hzero => ?_, fun hfalhou => by cases hfalhou⟩
      rw [if_pos ⟨hclosed (by simp), hidle hzero⟩]
      omega

/-! ## The loop -/

/-- The session after the MQTT library was polled. -/
def sondada (s : Rede GsmMqttClient) (r : RespostaSessao) : Rede GsmMqttClient :=
  s.comSessao fun c => { (if r.pubLoopFecha then c.fechar else c) with conectado := r.pubLoop }

/-- The loop gets to a connection attempt. -/
structure Tenta (s : Rede GsmMqttClient) (now : UInt32) (r : RespostaSessao) : Prop where
  configurado : s.sessao.configurado = true
  suspenso : s.sessao.suspenso = false
  pubLoop : r.pubLoop = false
  estavaConectado : s.sessao.estavaConectado = false
  ready : s.link.state = .ready
  livre : s.link.httpLeased = false
  vencida : ¬ now < s.sessao.proximaTentativa

/-- The poll of the MQTT library changes the connection alone. -/
theorem sondada_sessao (s : Rede GsmMqttClient) (r : RespostaSessao) :
    (s.sondada r).sessao.configurado = s.sessao.configurado ∧
      (s.sondada r).sessao.suspenso = s.sessao.suspenso ∧
      (s.sondada r).sessao.estavaConectado = s.sessao.estavaConectado ∧
      (s.sondada r).sessao.conectado = r.pubLoop ∧
      (s.sondada r).sessao.proximaTentativa = s.sessao.proximaTentativa ∧
      (s.sondada r).sessao.cipstartMs = s.sessao.cipstartMs ∧
      (s.sondada r).sessao.pdpDaTentativa = s.sessao.pdpDaTentativa ∧
      (s.sondada r).sessao.falhas = s.sessao.falhas ∧
      (s.sondada r).sessao.tentativas = s.sessao.tentativas := by
  unfold sondada comSessao
  cases r.pubLoopFecha with
  | false => exact ⟨rfl, rfl, rfl, rfl, rfl, rfl, rfl, rfl, rfl⟩
  | true => exact ⟨rfl, rfl, rfl, rfl, rfl, rfl, rfl, rfl, fechar_tentativas _⟩

/-- The loop from its poll of the MQTT library on. -/
theorem mqttLoop_sondada (s : Rede GsmMqttClient) (now : UInt32) (r : RespostaSessao) :
    s.mqttLoop now r =
      if !s.sessao.configurado || s.sessao.suspenso then s
      else if r.pubLoop then
        (s.sondada r).comSessao fun c => { c with falhas := 0, estavaConectado := true }
      else if (s.sondada r).sessao.estavaConectado then
        ((s.sondada r).comSessao fun c =>
          { c with
            estavaConectado := false
            falhas := 0
            proximaTentativa := now }).reportMqttSessionLost now
      else if !(s.sondada r).link.up || (s.sondada r).link.httpBusy then
        (s.sondada r).comSessao fun c => { c with cipstartMs := 0 }
      else if now < (s.sondada r).sessao.proximaTentativa then s.sondada r
      else aposTentativa r ((s.sondada r).conectar r) := rfl

/-- What becomes of an attempt asks for nothing more. -/
theorem aposTentativa_tentativas (tried : Tentativa × Rede GsmMqttClient) :
    (aposTentativa r tried).sessao.tentativas = tried.2.sessao.tentativas := by
  obtain ⟨tentativa, t⟩ := tried
  cases tentativa <;> simp only [aposTentativa, comSessao, tentativas]

/-- A loop that gets to an attempt is what becomes of the attempt. -/
theorem mqttLoop_tenta (h : s.Tenta now r) :
    s.mqttLoop now r = aposTentativa r ((s.sondada r).conectar r) := by
  obtain ⟨_, _, hestava, _, hproxima, _⟩ := s.sondada_sessao r
  rw [mqttLoop_sondada, if_neg (by simp [h.configurado, h.suspenso]),
    if_neg (by simp [h.pubLoop]), if_neg (by simp [hestava, h.estavaConectado]),
    if_neg (by simp [sondada, comSessao, GsmLink.up, GsmLink.httpBusy, h.ready, h.livre]),
    if_neg (by rw [hproxima]; exact h.vencida)]

/-- One that does not, on a free link and without a connection, only polled the MQTT library, if
that. -/
theorem mqttLoop_espera (hpub : r.pubLoop = false) (hestava : s.sessao.estavaConectado = false)
    (hready : s.link.state = .ready) (hfree : s.link.httpLeased = false)
    (h : ¬ s.Tenta now r) : s.mqttLoop now r = s ∨ s.mqttLoop now r = s.sondada r := by
  obtain ⟨_, _, hkept, _, hproxima, _⟩ := s.sondada_sessao r
  rw [mqttLoop_sondada]
  split
  · exact .inl rfl
  rename_i hruns
  simp only [Bool.or_eq_true, Bool.not_eq_true', not_or, Bool.not_eq_false,
    Bool.not_eq_true] at hruns
  refine .inr ?_
  rw [if_neg (by simp [hpub]), if_neg (by simp [hkept, hestava]),
    if_neg (by simp [sondada, comSessao, GsmLink.up, GsmLink.httpBusy, hready, hfree]), hproxima]
  refine if_pos ?_
  by_contra hdue
  exact h ⟨hruns.1, hruns.2, hpub, hestava, hready, hfree, hdue⟩

end Rede

end FirmwareUpdater
