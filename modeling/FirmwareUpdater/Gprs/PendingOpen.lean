import FirmwareUpdater.Gprs.SessionSteps

/-!
# Connections still on their way

A `connect` that gave up may leave a `CIPSTART` outstanding in the modem, and until it
is settled the session is to leave the socket alone. It knows of one by the clock
reading at which it was asked for, where zero stands for none. `pendente_iff` says for
which openings the session keeps its hands off, over every order of calls and every
answer that leaves the matter open: all but those asked for when `millis()` read zero.
-/

namespace FirmwareUpdater

open GsmMqttClient

namespace Rede

variable {s : Rede GsmMqttClient} {now : UInt32} {r : RespostaSessao} {inicio : UInt32}

/-! ## An open that goes on -/

/-- The loop asks for the socket, and `connect` returns false with the modem still at it. -/
structure Abre (s : Rede GsmMqttClient) (now : UInt32) (r : RespostaSessao) : Prop where
  tenta : s.Tenta now r
  fechado : r.socketConnected = false
  nenhum : s.sessao.cipstartMs = 0 ∨ s.link.pdpSeq ≠ s.sessao.pdpDaTentativa
  desistiu : r.socketConnect = false
  abrindo : r.estadoSocket = .abrindo
  cedo : r.millisAbertura - r.millisCipstart < cipstartMaxMs

/-- A session without a connection, with an open asked for at `inicio` on the PDP that is up. -/
structure Pendente (inicio : UInt32) (s : Rede GsmMqttClient) : Prop where
  pause_eq : s.gates.pause = some suspend
  cipstartMs : s.sessao.cipstartMs = inicio
  conectado : s.sessao.conectado = false
  estavaConectado : s.sessao.estavaConectado = false
  pdp : s.sessao.pdpDaTentativa = s.link.pdpSeq
  suspenso : s.sessao.suspenso = false
  ready : s.link.state = .ready
  livre : s.link.httpLeased = false

/-- While the modem is at it and 75 s have not passed, judging the open changes nothing but the
notice about it. -/
theorem avaliarAbertura_abrindo (habrindo : r.estadoSocket = .abrindo)
    (hcedo : r.millisAbertura - s.sessao.cipstartMs < cipstartMaxMs) :
    s.avaliarAbertura r = (.aguardando, s.comSessao fun c => { c with avisouAbrindo := true }) := by
  unfold avaliarAbertura
  dsimp only
  rw [if_neg (by simp [habrindo]), if_pos ⟨hcedo, habrindo⟩]

/-- Everything but the opening itself stays as it was. -/
structure SoAbertura (s t : Rede GsmMqttClient) : Prop where
  link_eq : t.link = s.link
  gates_eq : t.gates = s.gates
  conectado_eq : t.sessao.conectado = s.sessao.conectado
  estavaConectado_eq : t.sessao.estavaConectado = s.sessao.estavaConectado
  pdp_eq : t.sessao.pdpDaTentativa = s.sessao.pdpDaTentativa
  suspenso_eq : t.sessao.suspenso = s.sessao.suspenso
  configurado_eq : t.sessao.configurado = s.sessao.configurado

/-- A connection that is asked for and goes on. -/
theorem abrirTcp_abre (hfechado : r.socketConnected = false) (hzero : s.sessao.cipstartMs = 0)
    (hdesistiu : r.socketConnect = false) (habrindo : r.estadoSocket = .abrindo)
    (hcedo : r.millisAbertura - r.millisCipstart < cipstartMaxMs) (prazo : Nat) :
    ∃ t, s.abrirTcp prazo r = (.aguardando, t) ∧ SoAbertura s t ∧
      t.sessao.cipstartMs = r.millisCipstart := by
  unfold abrirTcp
  rw [if_neg (by simp [hfechado]), if_neg (by simp [hzero])]
  dsimp only
  rw [if_neg (by simp [hdesistiu])]
  generalize hpedida : s.comSessao _ = pedida
  have hasked : SoAbertura s pedida ∧ pedida.sessao.cipstartMs = r.millisCipstart := by
    subst hpedida
    exact ⟨⟨rfl, rfl, rfl, rfl, rfl, rfl, rfl⟩, rfl⟩
  obtain ⟨⟨hlink, hgates, hconectado, hestava, hpdp, hsuspenso, hconfigurado⟩, hcipstart⟩ := hasked
  rw [avaliarAbertura_abrindo habrindo (by rwa [hcipstart])]
  exact ⟨_, rfl, ⟨hlink, hgates, hconectado, hestava, hpdp, hsuspenso, hconfigurado⟩, hcipstart⟩

/-- An attempt over an open that goes on. -/
theorem abrirTcp_pendente (hfechado : r.socketConnected = false)
    (hpendente : s.sessao.cipstartMs ≠ 0) (habrindo : r.estadoSocket = .abrindo)
    (hcedo : r.millisAbertura - s.sessao.cipstartMs < cipstartMaxMs) (prazo : Nat) :
    s.abrirTcp prazo r =
      (.aguardando, s.comSessao fun c => { c with avisouAbrindo := true }) := by
  unfold abrirTcp
  rw [if_neg (by simp [hfechado]), if_pos hpendente, avaliarAbertura_abrindo habrindo hcedo]

/-- The session as an attempt finds it: an open left from an earlier PDP is forgotten. -/
def preparada (s : Rede GsmMqttClient) : Rede GsmMqttClient :=
  s.comSessao fun c =>
    { c with
      pdpDaTentativa := s.link.pdpSeq
      cipstartMs := if s.link.pdpSeq ≠ s.sessao.pdpDaTentativa then 0 else c.cipstartMs }

/-- It differs in nothing else. -/
theorem preparada_sessao (s : Rede GsmMqttClient) :
    s.preparada.sessao.conectado = s.sessao.conectado ∧
      s.preparada.sessao.estavaConectado = s.sessao.estavaConectado ∧
      s.preparada.sessao.suspenso = s.sessao.suspenso ∧
      s.preparada.sessao.configurado = s.sessao.configurado ∧
      s.preparada.sessao.pedidos = s.sessao.pedidos ∧
      s.preparada.sessao.cipstartMs =
        if s.link.pdpSeq ≠ s.sessao.pdpDaTentativa then 0 else s.sessao.cipstartMs :=
  ⟨rfl, rfl, rfl, rfl, rfl, rfl⟩

/-- On a free link, an attempt that leaves an open pending is what opening the socket makes of
it. -/
theorem conectar_aguarda (hready : s.link.state = .ready) (hfree : s.link.httpLeased = false)
    {P : Rede GsmMqttClient → Prop}
    (htcp : ∀ prazo, ∃ t, s.preparada.abrirTcp prazo r = (.aguardando, t) ∧ P t) :
    ∃ t, s.conectar r = (.aguardando, t) ∧ P t := by
  unfold conectar
  rw [if_neg (by simp [GsmLink.up, GsmLink.httpBusy, hready, hfree])]
  obtain ⟨t, hopened, ht⟩ := htcp (if s.link.pdpSeq ≠ s.sessao.pdpDaTentativa then
    connectTimeoutNovoS else connectTimeoutS)
  refine ⟨t, ?_, ht⟩
  unfold preparada at hopened
  dsimp only
  rw [hopened]

/-- A loop whose attempt leaves an open pending only sets when to look at it again. -/
theorem aposTentativa_aguardando (t : Rede GsmMqttClient) :
    let u := aposTentativa r (.aguardando, t)
    SoAbertura t u ∧ u.log = t.log ∧ u.sessao.pedidos = t.sessao.pedidos ∧
      u.sessao.cipstartMs = t.sessao.cipstartMs ∧
      u.sessao.proximaTentativa = r.millisFim + reavaliarAberturaMs := by
  refine ⟨⟨?_, ?_, ?_, ?_, ?_, ?_, ?_⟩, ?_, ?_, ?_, ?_⟩ <;> simp only [aposTentativa, comSessao]

/-- A loop that leaves an open pending. -/
theorem Abre.pendente (h : Abre s now r) (hpause : s.gates.pause = some suspend) :
    Pendente r.millisCipstart (s.mqttLoop now r) ∧
      (s.mqttLoop now r).sessao.configurado = true ∧
      (s.mqttLoop now r).sessao.proximaTentativa = r.millisFim + reavaliarAberturaMs := by
  obtain ⟨hconfigurado, hsuspenso, hestava, hconectado, _, hcipstart, hpdp, _⟩ :=
    s.sondada_sessao r
  have hzero : (s.sondada r).preparada.sessao.cipstartMs = 0 := by
    obtain ⟨_, _, _, _, _, hprepared⟩ := (s.sondada r).preparada_sessao
    rw [hprepared]
    split
    · rfl
    · rename_i hsame
      rw [hpdp] at hsame
      rw [hcipstart]
      rcases h.nenhum with hzero | hnew
      · exact hzero
      · exact absurd hnew hsame
  obtain ⟨t, hopened, hkept, hinicio⟩ := conectar_aguarda (s := s.sondada r) h.tenta.ready
    h.tenta.livre fun prazo => abrirTcp_abre h.fechado hzero h.desistiu h.abrindo h.cedo prazo
  obtain ⟨hafter, _, _, hstill, hproxima⟩ := aposTentativa_aguardando (r := r) t
  rw [mqttLoop_tenta h.tenta, hopened]
  refine ⟨⟨?_, hstill.trans hinicio, ?_, ?_, ?_, ?_, ?_, ?_⟩, ?_, hproxima⟩
  · rw [hafter.gates_eq, hkept.gates_eq]
    exact hpause
  · exact (hafter.conectado_eq.trans hkept.conectado_eq).trans (hconectado.trans h.tenta.pubLoop)
  · exact (hafter.estavaConectado_eq.trans hkept.estavaConectado_eq).trans
      (hestava.trans h.tenta.estavaConectado)
  · rw [hafter.pdp_eq, hkept.pdp_eq, hafter.link_eq, hkept.link_eq]
    rfl
  · exact (hafter.suspenso_eq.trans hkept.suspenso_eq).trans (hsuspenso.trans h.tenta.suspenso)
  · rw [hafter.link_eq, hkept.link_eq]
    exact h.tenta.ready
  · rw [hafter.link_eq, hkept.link_eq]
    exact h.tenta.livre
  · exact (hafter.configurado_eq.trans hkept.configurado_eq).trans
      (hconfigurado.trans h.tenta.configurado)

/-! ## What leaves it alone -/

/-- The MQTT library has a session, and stops the socket, only where it was connected. -/
def Possivel (s : Rede GsmMqttClient) : Chamada → Prop
  | .mqttLoop _ r => r.pubLoop = true ∨ r.pubLoopFecha = true → s.sessao.conectado = true
  | _ => True

/-- The call settles the open asked for at `inicio`: a loop gets another answer than `CONNECTING`
from the modem or finds that 75 s have passed, the session is ended or suspended, or the link goes
down, is leased or has another PDP. -/
def Resolve (inicio : UInt32) (s : Rede GsmMqttClient) (chamada : Chamada) : Prop :=
  match chamada with
  | .mqttLoop now r => s.Tenta now r ∧
      (r.socketConnected = true ∨ r.estadoSocket ≠ .abrindo ∨
        cipstartMaxMs ≤ r.millisAbertura - inicio)
  | .endSession => True
  | chamada =>
      (s.exec chamada).link.state ≠ .ready ∨ (s.exec chamada).link.httpLeased = true ∨
        (s.exec chamada).link.pdpSeq ≠ s.link.pdpSeq ∨ (s.exec chamada).sessao.suspenso = true

/-- The call asks nothing of the socket and reports nothing. -/
def Respeita (s : Rede GsmMqttClient) (chamada : Chamada) : Prop :=
  (s.exec chamada).sessao.pedidos = s.sessao.pedidos ∧ (s.exec chamada).log = s.log

/-- A loop over an open that is not settled leaves it pending and respects it. -/
theorem Pendente.mqttLoop (h : Pendente inicio s) (hinicio : inicio ≠ 0)
    (hpossivel : Possivel s (.mqttLoop now r)) (haberta : ¬ Resolve inicio s (.mqttLoop now r)) :
    Pendente inicio (s.mqttLoop now r) ∧ Respeita s (.mqttLoop now r) := by
  have hpub : r.pubLoop = false ∧ r.pubLoopFecha = false := by
    have hnot : ¬(r.pubLoop = true ∨ r.pubLoopFecha = true) := by
      intro hup
      exact absurd (hpossivel hup) (by simp [h.conectado])
    rwa [not_or, Bool.not_eq_true, Bool.not_eq_true] at hnot
  have hpolled : s.sondada r = s := by
    have hsame : { s.sessao with conectado := r.pubLoop } = s.sessao := by
      rw [hpub.1, ← h.conectado]
    simp only [sondada, comSessao, hpub.2, Bool.false_eq_true, if_false, hsame]
  by_cases htenta : s.Tenta now r
  · have hopen : r.socketConnected = false ∧ r.estadoSocket = .abrindo ∧
        r.millisAbertura - s.sessao.cipstartMs < cipstartMaxMs := by
      have hnot : ¬ (r.socketConnected = true ∨ r.estadoSocket ≠ .abrindo ∨
          cipstartMaxMs ≤ r.millisAbertura - inicio) := fun hsettled => haberta ⟨htenta, hsettled⟩
      rw [not_or, not_or, not_not, UInt32.not_le, Bool.not_eq_true] at hnot
      rw [h.cipstartMs]
      exact hnot
    obtain ⟨hfechado, habrindo, hcedo⟩ := hopen
    have hkept : s.preparada = s := by
      unfold preparada
      simp only [comSessao, ← h.pdp, ne_eq, not_true_eq_false, if_false]
    have hpendente : s.sessao.cipstartMs ≠ 0 := by rwa [h.cipstartMs]
    obtain ⟨t, hopened, rfl⟩ := conectar_aguarda (s := s) (r := r)
      (P := fun t => t = s.comSessao fun c => { c with avisouAbrindo := true }) h.ready h.livre
      fun prazo => ⟨_, by rw [hkept, abrirTcp_pendente hfechado hpendente habrindo hcedo], rfl⟩
    obtain ⟨hafter, hlog, hpedidos, hstill, _⟩ := aposTentativa_aguardando (r := r)
      (s.comSessao fun c => { c with avisouAbrindo := true })
    unfold Respeita
    rw [Rede.exec, mqttLoop_tenta htenta, hpolled, hopened]
    refine ⟨⟨?_, hstill.trans h.cipstartMs, hafter.conectado_eq.trans h.conectado,
      hafter.estavaConectado_eq.trans h.estavaConectado, ?_, hafter.suspenso_eq.trans h.suspenso,
      ?_, ?_⟩, hpedidos, hlog⟩
    · rw [hafter.gates_eq]
      exact h.pause_eq
    · rw [hafter.pdp_eq, hafter.link_eq]
      exact h.pdp
    · rw [hafter.link_eq]
      exact h.ready
    · rw [hafter.link_eq]
      exact h.livre
  · have hloop : s.mqttLoop now r = s := by
      rcases mqttLoop_espera hpub.1 h.estavaConectado h.ready h.livre htenta with hsame | hsondada
      · exact hsame
      · rw [hsondada, hpolled]
    unfold Respeita
    rw [Rede.exec, hloop]
    exact ⟨h, rfl, rfl⟩

/-- A call to the session alone that leaves the opening as it was. -/
theorem Pendente.sessao {t : Rede GsmMqttClient} (h : Pendente inicio s) (hlink : t.link = s.link)
    (hgates : t.gates = s.gates) (hcipstart : t.sessao.cipstartMs = s.sessao.cipstartMs)
    (hconectado : t.sessao.conectado = s.sessao.conectado)
    (hestava : t.sessao.estavaConectado = s.sessao.estavaConectado)
    (hpdp : t.sessao.pdpDaTentativa = s.sessao.pdpDaTentativa)
    (hsuspenso : t.sessao.suspenso = false) : Pendente inicio t := by
  refine ⟨?_, ?_, ?_, ?_, ?_, hsuspenso, ?_, ?_⟩
  · rw [hgates, h.pause_eq]
  · rw [hcipstart, h.cipstartMs]
  · rw [hconectado, h.conectado]
  · rw [hestava, h.estavaConectado]
  · rw [hpdp, hlink, h.pdp]
  · rw [hlink, h.ready]
  · rw [hlink, h.livre]

/-- `begin` leaves the opening as it was. -/
theorem begin_abertura (c : GsmMqttClient) (cfg : MqttSessionConfig) :
    (c.begin cfg).2.cipstartMs = c.cipstartMs ∧ (c.begin cfg).2.conectado = c.conectado ∧
      (c.begin cfg).2.estavaConectado = c.estavaConectado ∧
      (c.begin cfg).2.pdpDaTentativa = c.pdpDaTentativa := by
  have hcopias : (c.copiarTodas cfg).2.cipstartMs = c.cipstartMs ∧
      (c.copiarTodas cfg).2.conectado = c.conectado ∧
      (c.copiarTodas cfg).2.estavaConectado = c.estavaConectado ∧
      (c.copiarTodas cfg).2.pdpDaTentativa = c.pdpDaTentativa := by
    unfold copiarTodas
    dsimp only
    repeat' split
    all_goals exact ⟨rfl, rfl, rfl, rfl⟩
  unfold GsmMqttClient.begin
  split
  · exact ⟨rfl, rfl, rfl, rfl⟩
  split
  · exact ⟨rfl, rfl, rfl, rfl⟩
  generalize c.copiarTodas cfg = copiado at hcopias
  dsimp only
  split <;> exact hcopias

/-- Every call that does not settle an open leaves it pending, and a loop respects it. -/
theorem Pendente.exec (h : Pendente inicio s) (hinicio : inicio ≠ 0) {chamada : Chamada}
    (hpossivel : Possivel s chamada) (haberta : ¬ Resolve inicio s chamada) :
    Pendente inicio (s.exec chamada) := by
  cases chamada with
  | mqttLoop now r => exact (h.mqttLoop hinicio hpossivel haberta).1
  | endSession => exact absurd trivial haberta
  | linkLoop now r =>
      rw [Rede.exec, s.loop_ready now r h.ready]
      exact h
  | acquireForHttp =>
      simp only [Resolve, not_or] at haberta
      rcases s.acquireForHttp_cases with hrefused | ⟨_, _, t, hgranted, hlink⟩
      · rw [Rede.exec, hrefused]
        exact h
      · exact absurd (by rw [Rede.exec, hgranted, hlink]) haberta.2.1
  | releaseHttp =>
      have hsame : s.releaseHttp = s := by
        unfold Rede.releaseHttp
        rw [h.livre]
        rfl
      rw [Rede.exec, hsame]
      exact h
  | reportMqttTransportFailure now millis =>
      simp only [Resolve, not_or, not_not] at haberta
      obtain ⟨hready, hleased, hseq, hsuspenso⟩ := haberta
      have hsessao : (s.reportMqttTransportFailure now millis).sessao = s.sessao := by
        rcases report_sessao h.pause_eq now millis with hsame | hsuspended
        · exact hsame
        · rw [Rede.exec, hsuspended] at hsuspenso
          refine absurd ?_ hsuspenso
          unfold GsmMqttClient.suspend
          rw [h.suspenso]
          cases s.sessao.conectado <;> rfl
      rw [Rede.exec] at *
      refine ⟨?_, ?_, ?_, ?_, ?_, ?_, hready, by simpa using hleased⟩
      · rw [report_gates, h.pause_eq]
      · rw [hsessao, h.cipstartMs]
      · rw [hsessao, h.conectado]
      · rw [hsessao, h.estavaConectado]
      · rw [hsessao, h.pdp, hseq]
      · rw [hsessao, h.suspenso]
  | reportMqttSessionLost | reportMqttConnected =>
      exact ⟨h.pause_eq, h.cipstartMs, h.conectado, h.estavaConectado, h.pdp, h.suspenso, h.ready,
        h.livre⟩
  | begin cfg =>
      simp only [Resolve, not_or] at haberta
      obtain ⟨hcipstart, hconectado, hestava, hpdp⟩ := begin_abertura s.sessao cfg
      exact h.sessao rfl rfl hcipstart hconectado hestava hpdp (by simpa using haberta.2.2.2)
  | modem novo => exact h.sessao rfl rfl rfl rfl rfl rfl h.suspenso

/-! ## Runs -/

/-- Every call of a sequence, in the state it is made in, is as `Q` says. -/
def AoLongo (Q : Rede GsmMqttClient → Chamada → Prop) (s : Rede GsmMqttClient) :
    List Chamada → Prop
  | [] => True
  | chamada :: chamadas => Q s chamada ∧ AoLongo Q (s.exec chamada) chamadas

/-- The matter stays open: the answers are the MQTT library's, and no call settles it. -/
def EmAberto (inicio : UInt32) (s : Rede GsmMqttClient) (chamada : Chamada) : Prop :=
  Possivel s chamada ∧ ¬ Resolve inicio s chamada

/-- While it does, the open stays pending. -/
theorem Pendente.execAll (hinicio : inicio ≠ 0) {chamadas resto : List Chamada}
    (h : Pendente inicio s) (haberto : AoLongo (EmAberto inicio) s (chamadas ++ resto)) :
    Pendente inicio (s.execAll chamadas) ∧
      AoLongo (EmAberto inicio) (s.execAll chamadas) resto := by
  induction chamadas generalizing s with
  | nil => exact ⟨h, haberto⟩
  | cons chamada chamadas ih =>
      obtain ⟨⟨hpossivel, haberta⟩, hrest⟩ := haberto
      exact ih (h.exec hinicio hpossivel haberta) hrest

/-- After a `connect` that returned false with the modem still opening the socket, and as long as
nothing settles the matter, the session's loop asks nothing of the socket and reports no failure,
over any calls, exactly when the open was not asked for at a reading of zero. -/
theorem pendente_iff (cfg : GprsConfig) (millis : UInt32) (chamadas : List Chamada) (now : UInt32)
    (r : RespostaSessao) (h : Abre ((ligada cfg millis).execAll chamadas) now r) :
    let s := ((ligada cfg millis).execAll chamadas).mqttLoop now r
    (∀ meio agora resposta,
        AoLongo (EmAberto r.millisCipstart) s (meio ++ [.mqttLoop agora resposta]) →
          Respeita (s.execAll meio) (.mqttLoop agora resposta)) ↔
      r.millisCipstart ≠ 0 := by
  intro s
  have hpause := (arbitrada_execAll cfg millis chamadas).pause_eq
  obtain ⟨hpendente, hconfigurado, hproxima⟩ := h.pendente hpause
  constructor
  · intro hrespeita hzero
    -- The next loop that is due takes the reading for none, and opens the socket again.
    let resposta : RespostaSessao := { estadoSocket := .abrindo }
    have htenta : s.Tenta s.sessao.proximaTentativa resposta :=
      ⟨hconfigurado, hpendente.suspenso, rfl, hpendente.estavaConectado, hpendente.ready,
        hpendente.livre, UInt32.lt_irrefl _⟩
    have haberto : AoLongo (EmAberto r.millisCipstart) s
        ([] ++ [.mqttLoop s.sessao.proximaTentativa resposta]) := by
      refine ⟨⟨nofun, ?_⟩, trivial⟩
      rintro ⟨_, hopen | hother | hlate⟩
      · cases hopen
      · exact hother rfl
      · rw [hzero] at hlate
        exact absurd hlate (by decide)
    obtain ⟨hasked, _⟩ := hrespeita [] _ _ haberto
    obtain ⟨_, _, _, _, _, hcipstart, _, _, hcount⟩ := s.sondada_sessao resposta
    obtain ⟨_, hmore, _⟩ := conectar_spec (s := s.sondada resposta) (r := resposta)
      hpendente.pause_eq hpendente.ready hpendente.livre
    have hmore := hmore (by rw [hcipstart, hpendente.cipstartMs, hzero])
    rw [hcount, ← aposTentativa_tentativas, ← mqttLoop_tenta htenta] at hmore
    refine absurd hmore ?_
    have hsame : (s.mqttLoop s.sessao.proximaTentativa resposta).sessao.pedidos =
      s.sessao.pedidos := hasked
    rw [tentativas, tentativas, hsame]
    exact lt_irrefl _
  · intro hinicio meio agora resposta haberto
    obtain ⟨hmeio, ⟨hpossivel, haberta⟩, _⟩ := hpendente.execAll hinicio haberto
    exact (hmeio.mqttLoop hinicio hpossivel haberta).2

/-- From power on at `millis` to a link that is up, with a session begun. -/
def subida (millis : UInt32) : List Chamada :=
  [.begin { host := some (.ofBytes [104]), clientId := some (.ofBytes [99]) },
    .linkLoop (millis + 8000) respostaPronta, .linkLoop (millis + 8001) respostaPronta,
    .linkLoop (millis + 8002) respostaPronta, .linkLoop (millis + 8003) respostaPronta]

/-- A `connect` asked for at `inicio` that gives up after 45 s. -/
def desistencia (inicio : UInt32) : RespostaSessao where
  millisCipstart := inicio
  muxDepoisConnect := .abrindo
  millisAbertura := inicio + 45000
  estadoSocket := .abrindo
  millisFim := inicio + 45001

/-- One such open, 8 s after power on. -/
theorem pendente_iff_oito_segundos :
    (∀ meio agora resposta,
        AoLongo (EmAberto 8004)
          (((ligada { apn := some .empty, pinTx := 1, pinRx := 2 } 0).execAll (subida 0)).mqttLoop
            8004 (desistencia 8004)) (meio ++ [.mqttLoop agora resposta]) →
          Respeita ((((ligada { apn := some .empty, pinTx := 1, pinRx := 2 } 0).execAll
            (subida 0)).mqttLoop 8004 (desistencia 8004)).execAll meio)
            (.mqttLoop agora resposta)) ↔
      (8004 : UInt32) ≠ 0 := by
  refine pendente_iff { apn := some .empty, pinTx := 1, pinRx := 2 } 0 (subida 0) 8004
    (desistencia 8004) ⟨?_, rfl, ?_, rfl, rfl, ?_⟩
  · constructor <;> decide +kernel
  · decide +kernel
  · decide +kernel

/-- An open asked for just as the clock wraps is closed and opened again one second after it was
left pending. -/
theorem cipstart_no_zero :
    ∃ (chamadas : List Chamada) (now : UInt32) (r : RespostaSessao) (agora : UInt32)
      (resposta : RespostaSessao),
      let s := (ligada { apn := some .empty, pinTx := 1, pinRx := 2 } 4294959000).execAll chamadas
      Abre s now r ∧
        AoLongo (EmAberto r.millisCipstart) (s.mqttLoop now r) [.mqttLoop agora resposta] ∧
        ¬ Respeita (s.mqttLoop now r) (.mqttLoop agora resposta) := by
  refine ⟨subida 4294959000, 4294967295, desistencia 0, 46001,
    { desistencia 46002 with millisAbertura := 46002 }, ⟨?_, rfl, ?_, rfl, rfl, ?_⟩,
    ⟨⟨nofun, ?_⟩, trivial⟩, ?_⟩
  · constructor <;> decide +kernel
  · decide +kernel
  · decide +kernel
  · rintro ⟨_, hopen | hother | hlate⟩
    · cases hopen
    · exact hother rfl
    · exact absurd hlate (by decide)
  · unfold Respeita
    decide +kernel

end Rede

end FirmwareUpdater
