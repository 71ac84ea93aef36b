import FirmwareUpdater.Gprs.LinkParametricity
import FirmwareUpdater.Gprs.RetryDeadlines

/-!
# A session that is refused

`begin` copies six texts into the buffers that the session in use reads, one after the
other, and refuses where one does not fit. What it copied by then stays. Two sessions
that differ in their copies only, and not in a text that a configured session uses, make
the same connection attempts over every order of calls (`Troca`, `conexoes_execAll`), and
two that differ in one do not, since the link can always be brought up (`exists_ready`).
`begin_recusado_iff` says from this for which refusals the old session stays intact.
-/

namespace FirmwareUpdater

namespace GsmMqttClient

/-! ## The copies -/

/-- The session's own copies of its texts. -/
structure Textos where
  host : Field hostMax
  usuario : Field usuarioMax
  senha : Field senhaMax
  clientId : Field clientIdMax
  willTopico : Field topicoMax
  willCarga : Field willCargaMax

/-- The copies as they are. -/
def textos (c : GsmMqttClient) : Textos :=
  ⟨c.host, c.usuario, c.senha, c.clientId, c.willTopico, c.willCarga⟩

/-- The session with other copies. -/
def comTextos (c : GsmMqttClient) (x : Textos) : GsmMqttClient :=
  { c with
    host := x.host
    usuario := x.usuario
    senha := x.senha
    clientId := x.clientId
    willTopico := x.willTopico
    willCarga := x.willCarga }

/-- What connection attempts asked for. -/
def conexoes (c : GsmMqttClient) : List MuxEvent := c.pedidos.filter (· ≠ .stop)

/-- Whether `copiar` finds room for a text. -/
def cabe (cap : Nat) (src : Option CString) : Bool := src.all (·.length < cap)

/-- What `copiar` leaves in a buffer of `cap` bytes. -/
def copia {cap : Nat} (h : 0 < cap) (src : Option CString) : Field cap := (copiar h src).2

theorem copiar_eq {cap : Nat} (h : 0 < cap) (src : Option CString) :
    copiar h src = (cabe cap src, copia h src) := by
  cases src <;> rfl

/-- The copies after `begin` went through them: each is made where all before it fitted. -/
def Textos.gravar (x : Textos) (cfg : MqttSessionConfig) : Textos :=
  let ateHost := cabe hostMax cfg.host
  let ateUsuario := ateHost && cabe usuarioMax cfg.username
  let ateSenha := ateUsuario && cabe senhaMax cfg.password
  let ateClientId := ateSenha && cabe clientIdMax cfg.clientId
  let ateTopico := ateClientId && cabe topicoMax cfg.willTopic
  { host := copia hostMax_pos cfg.host
    usuario := if ateHost then copia usuarioMax_pos cfg.username else x.usuario
    senha := if ateUsuario then copia senhaMax_pos cfg.password else x.senha
    clientId := if ateSenha then copia clientIdMax_pos cfg.clientId else x.clientId
    willTopico := if ateClientId then copia topicoMax_pos cfg.willTopic else x.willTopico
    willCarga := if ateTopico then copia willCargaMax_pos cfg.willPayload else x.willCarga }

/-- Every text fits its buffer. -/
def cabem (cfg : MqttSessionConfig) : Bool :=
  cabe hostMax cfg.host && cabe usuarioMax cfg.username && cabe senhaMax cfg.password &&
    cabe clientIdMax cfg.clientId && cabe topicoMax cfg.willTopic &&
    cabe willCargaMax cfg.willPayload

/-- What the copies of `begin` come to. -/
theorem copiarTodas_eq (c : GsmMqttClient) (cfg : MqttSessionConfig) :
    c.copiarTodas cfg = (cabem cfg, c.comTextos (c.textos.gravar cfg)) := by
  unfold copiarTodas cabem Textos.gravar
  simp only [copiar_eq]
  -- The copies stop at the first text without room.
  cases cabe hostMax cfg.host with
  | false => rfl
  | true =>
    cases cabe usuarioMax cfg.username with
    | false => rfl
    | true =>
      cases cabe senhaMax cfg.password with
      | false => rfl
      | true =>
        cases cabe clientIdMax cfg.clientId with
        | false => rfl
        | true => cases cabe topicoMax cfg.willTopic <;> rfl

/-- `begin` refuses before it copies anything. -/
def RecusaAntes (cfg : MqttSessionConfig) : Prop :=
  cfg.host = none ∨ cfg.clientId = none ∨ cfg.tls = true

/-- A refusal leaves the session as it was or with the copies made by then. -/
theorem begin_recusado {c : GsmMqttClient} {cfg : MqttSessionConfig}
    (h : (c.begin cfg).1 = false) :
    RecusaAntes cfg ∧ (c.begin cfg).2 = c ∨
      ¬ RecusaAntes cfg ∧ (c.begin cfg).2 = c.comTextos (c.textos.gravar cfg) := by
  unfold GsmMqttClient.begin at h ⊢
  unfold RecusaAntes
  by_cases hnulo : cfg.host = none ∨ cfg.clientId = none
  · rw [if_pos hnulo]
    exact Or.inl ⟨by tauto, rfl⟩
  rw [if_neg hnulo] at h ⊢
  by_cases htls : cfg.tls = true
  · rw [if_pos htls]
    exact Or.inl ⟨by tauto, rfl⟩
  rw [if_neg htls] at h ⊢
  rw [copiarTodas_eq] at h ⊢
  refine Or.inr ⟨by tauto, ?_⟩
  cases hcabem : cabem cfg with
  | false => rfl
  | true =>
      rw [hcabem] at h
      cases h

/-- An attempt with the copies `x` sends what one with the session's own copies sends. -/
def MesmoUso (x : Textos) (c : GsmMqttClient) : Prop :=
  x.host.text = c.host.text ∧ (c.comTextos x).credenciais = c.credenciais

/-- Every text that `begin` gets to copy, and that the session uses, is the one in its buffer
already, as far as the buffer has room. -/
structure Inalterada (c : GsmMqttClient) (cfg : MqttSessionConfig) : Prop where
  host : copia hostMax_pos cfg.host = c.host
  usuario : cabe hostMax cfg.host = true → c.temUsuario = true →
    copia usuarioMax_pos cfg.username = c.usuario
  senha : cabe hostMax cfg.host = true → cabe usuarioMax cfg.username = true →
    c.temSenha = true → copia senhaMax_pos cfg.password = c.senha
  clientId : cabe hostMax cfg.host = true → cabe usuarioMax cfg.username = true →
    cabe senhaMax cfg.password = true → copia clientIdMax_pos cfg.clientId = c.clientId
  willTopico : cabe hostMax cfg.host = true → cabe usuarioMax cfg.username = true →
    cabe senhaMax cfg.password = true → cabe clientIdMax cfg.clientId = true →
    c.temWillTopico = true → copia topicoMax_pos cfg.willTopic = c.willTopico
  willCarga : cabe hostMax cfg.host = true → cabe usuarioMax cfg.username = true →
    cabe senhaMax cfg.password = true → cabe clientIdMax cfg.clientId = true →
    cabe topicoMax cfg.willTopic = true → c.temWillTopico = true → c.temWillCarga = true →
    copia willCargaMax_pos cfg.willPayload = c.willCarga

theorem field_ext_iff {cap : Nat} {a b : Field cap} : a.text = b.text ↔ a = b := by
  cases a
  cases b
  simp

/-- Which copies an attempt uses. -/
theorem mesmoUso_iff {x : Textos} {c : GsmMqttClient} :
    MesmoUso x c ↔
      x.host = c.host ∧ (c.temUsuario = true → x.usuario = c.usuario) ∧
        (c.temSenha = true → x.senha = c.senha) ∧ x.clientId = c.clientId ∧
        (c.temWillTopico = true → x.willTopico = c.willTopico) ∧
        (c.temWillTopico = true → c.temWillCarga = true → x.willCarga = c.willCarga) := by
  unfold MesmoUso credenciais comTextos
  simp only [Credenciais.mk.injEq, ← field_ext_iff]
  cases c.temUsuario <;> cases c.temSenha <;> cases c.temWillTopico <;> cases c.temWillCarga <;>
    simp <;> tauto

/-- The copies that `begin` made are the ones an attempt uses, or not used at all. -/
theorem mesmoUso_gravar_iff {c : GsmMqttClient} {cfg : MqttSessionConfig} :
    MesmoUso (c.textos.gravar cfg) c ↔ Inalterada c cfg := by
  rw [mesmoUso_iff]
  unfold Textos.gravar textos
  dsimp only
  constructor
  · rintro ⟨hhost, husuario, hsenha, hclientId, htopico, hcarga⟩
    refine ⟨hhost, ?_, ?_, ?_, ?_, ?_⟩
    · intro h1 huso
      simpa [h1] using husuario huso
    · intro h1 h2 huso
      simpa [h1, h2] using hsenha huso
    · intro h1 h2 h3
      simpa [h1, h2, h3] using hclientId
    · intro h1 h2 h3 h4 huso
      simpa [h1, h2, h3, h4] using htopico huso
    · intro h1 h2 h3 h4 h5 huso hcargaUso
      simpa [h1, h2, h3, h4, h5] using hcarga huso hcargaUso
  · intro h
    refine ⟨h.host, fun huso => ?_, fun huso => ?_, ?_, fun huso => ?_, fun huso hcargaUso => ?_⟩
    · exact ite_eq_right_iff.mpr fun h1 => h.usuario h1 huso
    · refine ite_eq_right_iff.mpr fun hcopiou => ?_
      simp only [Bool.and_eq_true] at hcopiou
      exact h.senha hcopiou.1 hcopiou.2 huso
    · refine ite_eq_right_iff.mpr fun hcopiou => ?_
      simp only [Bool.and_eq_true] at hcopiou
      exact h.clientId hcopiou.1.1 hcopiou.1.2 hcopiou.2
    · refine ite_eq_right_iff.mpr fun hcopiou => ?_
      simp only [Bool.and_eq_true] at hcopiou
      exact h.willTopico hcopiou.1.1.1 hcopiou.1.1.2 hcopiou.1.2 hcopiou.2 huso
    · refine ite_eq_right_iff.mpr fun hcopiou => ?_
      simp only [Bool.and_eq_true] at hcopiou
      exact h.willCarga hcopiou.1.1.1.1 hcopiou.1.1.1.2 hcopiou.1.1.2 hcopiou.1.2 hcopiou.2 huso
        hcargaUso

/-! ## Sessions that differ in their copies -/

/-- The same session with other copies, which a configured session uses the same way. -/
def Troca (c d : GsmMqttClient) : Prop :=
  ∃ x, d = c.comTextos x ∧ (c.configurado = true → MesmoUso x c)

/-- What becomes of a session with other copies when it is suspended. -/
theorem comTextos_suspend (c : GsmMqttClient) (x : Textos) :
    (c.comTextos x).suspend = c.suspend.comTextos x := by
  cases hsuspenso : c.suspenso <;> cases hconectado : c.conectado <;>
    simp [suspend, comTextos, fechar, hsuspenso, hconectado]

theorem comTextos_resume (c : GsmMqttClient) (x : Textos) :
    (c.comTextos x).resume = c.resume.comTextos x := by
  cases hsuspenso : c.suspenso <;> simp [resume, comTextos, hsuspenso]

theorem comTextos_endSession (c : GsmMqttClient) (x : Textos) :
    (c.comTextos x).endSession = c.endSession.comTextos x := by
  cases hconectado : c.conectado <;> simp [endSession, comTextos, fechar, hconectado]

/-- A pause changes nothing that an attempt uses, nor what was attempted. -/
theorem suspend_usos (c : GsmMqttClient) :
    c.suspend.configurado = c.configurado ∧ c.suspend.host = c.host ∧
      c.suspend.credenciais = c.credenciais ∧ (∀ x, MesmoUso x c.suspend ↔ MesmoUso x c) := by
  cases hsuspenso : c.suspenso <;> cases hconectado : c.conectado <;>
    simp [suspend, fechar, MesmoUso, comTextos, credenciais, hsuspenso, hconectado]

theorem resume_usos (c : GsmMqttClient) :
    c.resume.configurado = c.configurado ∧ c.resume.host = c.host ∧
      c.resume.credenciais = c.credenciais ∧ (∀ x, MesmoUso x c.resume ↔ MesmoUso x c) := by
  cases hsuspenso : c.suspenso <;>
    simp [resume, MesmoUso, comTextos, credenciais, hsuspenso]

namespace Troca

variable {c d : GsmMqttClient}

theorem refl (c : GsmMqttClient) : Troca c c := ⟨c.textos, rfl, fun _ => ⟨rfl, rfl⟩⟩

theorem suspend (h : Troca c d) : Troca c.suspend d.suspend := by
  obtain ⟨x, rfl, huso⟩ := h
  obtain ⟨hconfigurado, _, _, hmesmo⟩ := suspend_usos c
  rw [comTextos_suspend]
  exact ⟨x, rfl, fun hc => (hmesmo x).mpr (huso (hconfigurado ▸ hc))⟩

theorem resume (h : Troca c d) : Troca c.resume d.resume := by
  obtain ⟨x, rfl, huso⟩ := h
  obtain ⟨hconfigurado, _, _, hmesmo⟩ := resume_usos c
  rw [comTextos_resume]
  exact ⟨x, rfl, fun hc => (hmesmo x).mpr (huso (hconfigurado ▸ hc))⟩

/-- `end` leaves no session. -/
theorem endSession (h : Troca c d) : Troca c.endSession d.endSession := by
  obtain ⟨x, rfl, _⟩ := h
  rw [comTextos_endSession]
  refine ⟨x, rfl, fun hc => ?_⟩
  exact absurd hc Bool.false_ne_true

/-- Copies made over other copies: the same ones are made, and those that are not stay. -/
theorem gravar {x : Textos} (huso : c.configurado = true → MesmoUso x c)
    (cfg : MqttSessionConfig) :
    Troca (c.comTextos (c.textos.gravar cfg)) (c.comTextos (x.gravar cfg)) := by
  refine ⟨x.gravar cfg, rfl, fun hc => ?_⟩
  obtain ⟨_, husuario, hsenha, hclientId, htopico, hcarga⟩ := mesmoUso_iff.mp (huso hc)
  refine mesmoUso_iff.mpr ⟨rfl, fun huso => ?_, fun huso => ?_, ?_, fun huso => ?_,
    fun huso hcargaUso => ?_⟩
  all_goals unfold Textos.gravar comTextos textos
  all_goals dsimp only
  · rw [husuario huso]
  · rw [hsenha huso]
  · rw [hclientId]
  · rw [htopico huso]
  · rw [hcarga huso hcargaUso]

/-- A session that was configured or refused on both sides. -/
theorem begin (h : Troca c d) (cfg : MqttSessionConfig) :
    Troca (c.begin cfg).2 (d.begin cfg).2 := by
  obtain ⟨x, rfl, huso⟩ := h
  unfold GsmMqttClient.begin
  simp only [copiarTodas_eq]
  split
  · exact ⟨x, rfl, huso⟩
  split
  · exact ⟨x, rfl, huso⟩
  cases hcabem : cabem cfg with
  | false => exact gravar huso cfg
  | true =>
      -- Where all fit, nothing is left of the copies before.
      have hgravar : x.gravar cfg = c.textos.gravar cfg := by
        simp only [cabem, Bool.and_eq_true] at hcabem
        unfold Textos.gravar
        simp [hcabem]
      have htextos : (c.comTextos x).textos = x := rfl
      rw [htextos, hgravar]
      exact refl _

end Troca

end GsmMqttClient

namespace Rede

open GsmMqttClient

/-! ## Two runs side by side -/

section LadoALado

variable {s t : Rede GsmMqttClient}

/-- A move of the two sessions. -/
theorem Par.comSessao {R : GsmMqttClient → GsmMqttClient → Prop} (h : Par R s t)
    {f g : GsmMqttClient → GsmMqttClient} (hfg : R (f s.sessao) (g t.sessao)) :
    Par R (s.comSessao f) (t.comSessao g) :=
  ⟨h.link_eq, h.log_eq, hfg, h.pause, h.resume⟩

/-- A move of a session that looks at no copy and configures nothing. -/
structure SemCopias (f : GsmMqttClient → GsmMqttClient) : Prop where
  copias : ∀ c x, f (c.comTextos x) = (f c).comTextos x
  usos : ∀ c x, MesmoUso x c → MesmoUso x (f c)
  configurado : ∀ c, (f c).configurado = true → c.configurado = true

/-- Both sessions make such a move. -/
theorem Par.move (h : Par Troca s t) {f : GsmMqttClient → GsmMqttClient} (hf : SemCopias f) :
    Par Troca (s.comSessao f) (t.comSessao f) := by
  refine h.comSessao ?_
  obtain ⟨x, hx, huso⟩ := h.sessao
  rw [hx, hf.copias]
  exact ⟨x, rfl, fun hc => hf.usos _ x (huso (hf.configurado _ hc))⟩

/-- Two attempts that ended the same way. -/
structure MesmaTentativa (a b : Tentativa × Rede GsmMqttClient) : Prop where
  tentativa : b.1 = a.1
  par : Par Troca a.2 b.2

theorem Par.tentativa (h : Par Troca s t) (tentativa : Tentativa) :
    MesmaTentativa (tentativa, s) (tentativa, t) := ⟨rfl, h⟩

theorem avaliarAbertura_troca (h : Par Troca s t) (r : RespostaSessao) :
    MesmaTentativa (s.avaliarAbertura r) (t.avaliarAbertura r) := by
  have hcipstart : t.sessao.cipstartMs = s.sessao.cipstartMs := by
    obtain ⟨x, hx, _⟩ := h.sessao
    rw [hx]
    rfl
  unfold avaliarAbertura
  dsimp only
  rw [hcipstart]
  split
  · refine (h.move ?_).tentativa _
    exact ⟨fun _ _ => rfl, fun _ _ => id, fun _ => id⟩
  split
  · refine (h.move ?_).tentativa _
    exact ⟨fun _ _ => rfl, fun _ _ => id, fun _ => id⟩
  · have hfechada : Par Troca (s.comSessao fun c => { c with cipstartMs := 0 }.fechar)
        (t.comSessao fun c => { c with cipstartMs := 0 }.fechar) := by
      refine h.move ?_
      exact ⟨fun _ _ => rfl, fun _ _ => id, fun _ => id⟩
    exact (hfechada.reportMqttTransportFailure _ _).tentativa _

/-- The TCP connection goes to one host. -/
theorem abrirTcp_troca (h : Par Troca s t) (hconfigurado : s.sessao.configurado = true)
    (prazo : Nat) (r : RespostaSessao) :
    MesmaTentativa (s.abrirTcp prazo r) (t.abrirTcp prazo r) := by
  obtain ⟨x, hx, huso⟩ := h.sessao
  have hcipstart : t.sessao.cipstartMs = s.sessao.cipstartMs := by
    rw [hx]
    rfl
  have hhost : t.sessao.host.text = s.sessao.host.text := by
    rw [hx]
    exact (huso hconfigurado).1
  unfold abrirTcp
  split
  · refine (h.move ?_).tentativa _
    exact ⟨fun _ _ => rfl, fun _ _ => id, fun _ => id⟩
  rw [hcipstart]
  split
  · exact avaliarAbertura_troca h r
  have hpedida : Par Troca
      (s.comSessao fun c =>
        { c.fechar with
          cipstartMs := r.millisCipstart
          avisouAbrindo := false
          mux := r.muxDepoisConnect
          pedidos := c.fechar.pedidos ++ [.connect c.host.text c.port prazo] })
      (t.comSessao fun c =>
        { c.fechar with
          cipstartMs := r.millisCipstart
          avisouAbrindo := false
          mux := r.muxDepoisConnect
          pedidos := c.fechar.pedidos ++ [.connect c.host.text c.port prazo] }) := by
    refine h.comSessao ?_
    dsimp only
    rw [hhost, hx]
    exact ⟨x, rfl, huso⟩
  dsimp only
  split
  · refine (hpedida.move ?_).tentativa _
    exact ⟨fun _ _ => rfl, fun _ _ => id, fun _ => id⟩
  · exact avaliarAbertura_troca hpedida r

/-- The handshake sends one set of credentials. -/
theorem abrirSessao_troca (h : Par Troca s t) (hconfigurado : s.sessao.configurado = true)
    (r : RespostaSessao) :
    MesmaTentativa (s.abrirSessao r) (t.abrirSessao r) := by
  obtain ⟨x, hx, huso⟩ := h.sessao
  have hcredenciais : t.sessao.credenciais = s.sessao.credenciais := by
    rw [hx]
    exact (huso hconfigurado).2
  have hpedida : Par Troca
      (s.comSessao fun c => { c with
        mux := r.muxDepoisPub, pedidos := c.pedidos ++ [.mqttConnect c.credenciais] })
      (t.comSessao fun c => { c with
        mux := r.muxDepoisPub, pedidos := c.pedidos ++ [.mqttConnect c.credenciais] }) := by
    refine h.comSessao ?_
    rw [hcredenciais, hx]
    exact ⟨x, rfl, huso⟩
  unfold abrirSessao
  dsimp only
  split
  · refine Par.tentativa ?_ _
    split
    · exact hpedida.reportMqttTransportFailure _ _
    · exact hpedida
  · refine (hpedida.reportMqttConnected.move ?_).tentativa _
    exact ⟨fun _ _ => rfl, fun _ _ => id, fun _ => id⟩

/-- A session in use behind the gate that suspends it. -/
structure Configurada (s : Rede GsmMqttClient) : Prop where
  pause_eq : s.gates.pause = some suspend
  configurado : s.sessao.configurado = true

/-- A failure that is reported does not end the session. -/
theorem Configurada.report {s : Rede GsmMqttClient} (h : Configurada s) (now millis : UInt32) :
    Configurada (s.reportMqttTransportFailure now millis) := by
  refine ⟨(report_gates s now millis).symm ▸ h.pause_eq, ?_⟩
  rcases report_sessao h.pause_eq now millis with hs | hs
  · rw [hs]
    exact h.configurado
  · rw [hs, (suspend_usos _).1]
    exact h.configurado

/-- Nor does a change of the session alone. -/
theorem Configurada.soTentativa {s t : Rede GsmMqttClient} (h : Configurada s)
    (ht : SoTentativa s t) : Configurada t :=
  ⟨ht.gates_eq ▸ h.pause_eq, ht.configurado_eq.trans h.configurado⟩

/-- An attempt of a configured session. -/
theorem conectar_troca (h : Par Troca s t) (hs : Configurada s) (r : RespostaSessao) :
    MesmaTentativa (s.conectar r) (t.conectar r) := by
  have hpdp : t.sessao.pdpDaTentativa = s.sessao.pdpDaTentativa := by
    obtain ⟨x, hx, _⟩ := h.sessao
    rw [hx]
    rfl
  unfold conectar
  rw [h.link_eq, hpdp]
  split
  · exact h.tentativa _
  dsimp only
  generalize (if s.link.pdpSeq ≠ s.sessao.pdpDaTentativa then connectTimeoutNovoS
    else connectTimeoutS) = prazo
  have hmove : SemCopias fun c : GsmMqttClient =>
      { c with
        pdpDaTentativa := s.link.pdpSeq
        cipstartMs := if s.link.pdpSeq ≠ s.sessao.pdpDaTentativa then 0 else c.cipstartMs } :=
    ⟨fun _ _ => rfl, fun _ _ => id, fun _ => id⟩
  have hpreparada := h.move hmove
  generalize hu : (s.comSessao fun c : GsmMqttClient =>
    { c with
      pdpDaTentativa := s.link.pdpSeq
      cipstartMs := if s.link.pdpSeq ≠ s.sessao.pdpDaTentativa then 0 else c.cipstartMs }) = u
    at hpreparada ⊢
  have hconfigurada : Configurada u := by
    subst hu
    exact ⟨hs.pause_eq, hs.configurado⟩
  obtain ⟨hresultado, haberta⟩ := abrirTcp_troca hpreparada hconfigurada.configurado prazo r
  have hsegue : Configurada (u.abrirTcp prazo r).2 :=
    abrirTcp_keeps (fun _ _ h ht => h.soTentativa ht) (fun _ h => h.report _ _) hconfigurada prazo
  generalize u.abrirTcp prazo r = aberto at hresultado haberta hsegue ⊢
  generalize Rede.abrirTcp _ prazo r = outro at hresultado haberta ⊢
  obtain ⟨tentativa, v⟩ := aberto
  obtain ⟨tentativa', w⟩ := outro
  obtain rfl : tentativa' = tentativa := hresultado
  cases tentativa' with
  | conectou => exact abrirSessao_troca haberta hsegue.configurado r
  | falhou | aguardando => exact haberta.tentativa _

/-- What became of the attempts. -/
theorem aposTentativa_troca {a b : Tentativa × Rede GsmMqttClient} (h : MesmaTentativa a b)
    (r : RespostaSessao) : Par Troca (aposTentativa r a) (aposTentativa r b) := by
  obtain ⟨tentativa, s⟩ := a
  obtain ⟨tentativa', t⟩ := b
  obtain rfl : tentativa' = tentativa := h.tentativa
  have hpar : Par Troca s t := h.par
  cases tentativa' with
  | conectou | aguardando | falhou =>
      simp only [aposTentativa]
      refine hpar.move ?_
      refine ⟨fun _ _ => rfl, fun c x huso => ?_, fun _ => id⟩
      rw [mesmoUso_iff] at huso ⊢
      dsimp only
      exact huso

/-- A loop of the session. -/
theorem mqttLoop_troca (h : Par Troca s t) (hpause : s.gates.pause = some suspend) (now : UInt32)
    (r : RespostaSessao) : Par Troca (s.mqttLoop now r) (t.mqttLoop now r) := by
  have hguarda : (!t.sessao.configurado || t.sessao.suspenso) =
      (!s.sessao.configurado || s.sessao.suspenso) := by
    obtain ⟨x, hx, _⟩ := h.sessao
    rw [hx]
    rfl
  rw [mqttLoop_sondada, mqttLoop_sondada, hguarda]
  split
  · exact h
  rename_i hroda
  have hconfigurado : s.sessao.configurado = true := by
    simp only [Bool.or_eq_true, Bool.not_eq_true', not_or, Bool.not_eq_false] at hroda
    exact hroda.1
  have hsondada : Par Troca (s.sondada r) (t.sondada r) := by
    refine h.move ?_
    cases r.pubLoopFecha <;> exact ⟨fun _ _ => rfl, fun _ _ => id, fun _ => id⟩
  have hu : Configurada (s.sondada r) :=
    ⟨hpause, (s.sondada_sessao r).1.trans hconfigurado⟩
  generalize s.sondada r = u at hsondada hu ⊢
  generalize t.sondada r = v at hsondada ⊢
  have higuais : v.sessao.estavaConectado = u.sessao.estavaConectado ∧
      v.sessao.proximaTentativa = u.sessao.proximaTentativa := by
    obtain ⟨x, hx, _⟩ := hsondada.sessao
    rw [hx]
    exact ⟨rfl, rfl⟩
  rw [hsondada.link_eq, higuais.1, higuais.2]
  split
  · refine hsondada.move ?_
    exact ⟨fun _ _ => rfl, fun _ _ => id, fun _ => id⟩
  split
  · refine hsondada.move ?_
    exact ⟨fun _ _ => rfl, fun _ _ => id, fun _ => id⟩
  split
  · refine hsondada.move ?_
    exact ⟨fun _ _ => rfl, fun _ _ => id, fun _ => id⟩
  split
  · exact hsondada
  · exact aposTentativa_troca (conectar_troca hsondada hu r) r

/-- Any call. -/
theorem exec_troca (h : Par Troca s t) (hpause : s.gates.pause = some suspend)
    (chamada : Chamada) : Par Troca (s.exec chamada) (t.exec chamada) := by
  cases chamada with
  | linkLoop now r => exact h.loop now r
  | mqttLoop now r => exact mqttLoop_troca h hpause now r
  | acquireForHttp => exact h.acquireForHttp.2
  | releaseHttp => exact h.releaseHttp
  | reportMqttTransportFailure now millis => exact h.reportMqttTransportFailure now millis
  | reportMqttSessionLost now => exact h
  | reportMqttConnected => exact h.reportMqttConnected
  | begin cfg =>
      show Par Troca (s.comSessao fun c => (c.begin cfg).2) (t.comSessao fun c => (c.begin cfg).2)
      exact h.comSessao (h.sessao.begin cfg)
  | endSession => exact h.comSessao h.sessao.endSession
  | modem novo =>
      unfold exec
      refine h.move ?_
      exact ⟨fun _ _ => rfl, fun _ _ => id, fun _ => id⟩

/-- Sessions that differ in copies they do not use attempt the same, over every order of calls. -/
theorem conexoes_execAll (h : Par Troca s t) (hs : Arbitrada s) (chamadas : List Chamada) :
    (t.execAll chamadas).sessao.conexoes = (s.execAll chamadas).sessao.conexoes := by
  induction chamadas generalizing s t with
  | nil =>
      obtain ⟨x, hx, _⟩ := h.sessao
      show t.sessao.conexoes = s.sessao.conexoes
      rw [hx]
      rfl
  | cons chamada chamadas ih => exact ih (exec_troca h hs.pause_eq chamada) (hs.exec chamada)

end LadoALado

/-! ## The link can be brought up -/

section Subida

variable {s : Rede GsmMqttClient}

/-- A modem that does everything it is asked to, with an address that was not seen before. -/
def respostaSobe : RespostaModem := { respostaPronta with localIP := 0 }

/-- Loops of the link alone. -/
def voltas (agenda : List (UInt32 × RespostaModem)) : List Chamada :=
  agenda.map fun volta => .linkLoop volta.1 volta.2

/-- Loops of the link that bring it up. -/
def Sobe (s : Rede GsmMqttClient) : Prop :=
  ∃ agenda, (s.execAll (voltas agenda)).link.state = .ready

/-- One loop more. -/
theorem Sobe.volta (now : UInt32) (r : RespostaModem) (h : Sobe (s.loop now r)) : Sobe s := by
  obtain ⟨agenda, hagenda⟩ := h
  exact ⟨(now, r) :: agenda, hagenda⟩

theorem sobe_ready (h : s.link.state = .ready) : Sobe s := ⟨[], h⟩

/-- In `attaching` the PDP comes up, after it was redone if it is to be. -/
theorem sobe_attaching (hmodem : s.link.modem = true) (h : s.link.state = .attaching) : Sobe s := by
  have hdireto : ∀ t : Rede GsmMqttClient, t.link.modem = true → t.link.state = .attaching →
      t.link.refazerPdp = false → Sobe t := by
    intro t hmodem h hrefazer
    refine Sobe.volta 0 respostaSobe (sobe_ready ?_)
    have hloop : t.loop 0 respostaSobe = t.subirPdp 0 0 := by
      simp [Rede.loop, hmodem, h, loopAttaching, hrefazer, respostaSobe, respostaPronta]
    rw [hloop]
    exact (t.subirPdp_link 0 0).1
  cases hrefazer : s.link.refazerPdp with
  | false => exact hdireto s hmodem h hrefazer
  | true =>
      refine Sobe.volta 0 respostaSobe (hdireto _ ?_ ?_ ?_)
      · rw [loop_modem, hmodem]
      all_goals simp [Rede.loop, hmodem, h, loopAttaching, hrefazer, derrubarPdp]

theorem sobe_network (hmodem : s.link.modem = true) (h : s.link.state = .network) : Sobe s := by
  refine Sobe.volta 0 respostaSobe (sobe_attaching ?_ ?_)
  · rw [loop_modem, hmodem]
  · simp [Rede.loop, hmodem, h, loopNetwork, respostaSobe, respostaPronta]

theorem sobe_init (hmodem : s.link.modem = true) (h : s.link.state = .init) : Sobe s := by
  refine Sobe.volta 0 respostaSobe (sobe_network ?_ ?_)
  · rw [loop_modem, hmodem]
  · simp [Rede.loop, hmodem, h, loopInit]

theorem sobe_backoff (hmodem : s.link.modem = true) (h : s.link.state = .backoff) : Sobe s := by
  refine Sobe.volta s.link.nextTry respostaSobe (sobe_init ?_ ?_)
  · rw [loop_modem, hmodem]
  · simp [Rede.loop, hmodem, h, loopBackoff]

/-- In `settling` the modem answers as soon as it is asked, unless the window for it is empty. -/
theorem sobe_settling (hmodem : s.link.modem = true) (h : s.link.state = .settling) : Sobe s := by
  generalize hsettle :
    (if s.link.settleMs ≠ 0 then s.link.settleMs else s.link.cfg.bootSettleMs) = settle
  have hdecorrido : s.link.since + settle - s.link.since = settle := by
    rw [UInt32.add_comm, UInt32.add_sub_cancel]
  refine Sobe.volta (s.link.since + settle) respostaSobe ?_
  have hmodem' := (loop_modem s (s.link.since + settle) respostaSobe).trans hmodem
  have hloop : s.loop (s.link.since + settle) respostaSobe =
      s.loopSettling (s.link.since + settle) respostaSobe := by
    simp [Rede.loop, hmodem, h]
  rw [hloop] at hmodem' ⊢
  unfold loopSettling at hmodem' ⊢
  rw [hsettle, hdecorrido, if_neg (UInt32.lt_irrefl settle)] at hmodem' ⊢
  by_cases htarde : settle > settle + 20000
  · rw [if_pos htarde] at hmodem' ⊢
    exact sobe_backoff hmodem' (s.fail_link _).1
  · have hresponde : respostaSobe.testAT = true := rfl
    rw [if_neg htarde, if_pos hresponde] at hmodem' ⊢
    exact sobe_init hmodem' rfl

/-- A link that was begun can always be brought up. -/
theorem exists_ready (h : Comecada s) (hoff : s.link.state ≠ .off) : Sobe s := by
  have hmodem : s.link.modem = true := h.resolve_right hoff
  cases hstate : s.link.state with
  | off => exact absurd hstate hoff
  | settling => exact sobe_settling hmodem hstate
  | init => exact sobe_init hmodem hstate
  | network => exact sobe_network hmodem hstate
  | attaching => exact sobe_attaching hmodem hstate
  | ready => exact sobe_ready hstate
  | backoff => exact sobe_backoff hmodem hstate

end Subida

/-! ## Sessions that differ in a copy that is used -/

/-- Other copies, which the configured session would not use the same way. -/
def Difere (x : Textos) (c d : GsmMqttClient) : Prop :=
  d = c.comTextos x ∧ c.configurado = true ∧ ¬ MesmoUso x c

theorem difere_suspend {x : Textos} {c d : GsmMqttClient} (h : Difere x c d) :
    Difere x c.suspend d.suspend := by
  obtain ⟨rfl, hconfigurado, huso⟩ := h
  obtain ⟨hmantido, _, _, hmesmo⟩ := suspend_usos c
  exact ⟨comTextos_suspend c x, hmantido.trans hconfigurado, fun h => huso ((hmesmo x).mp h)⟩

theorem difere_resume {x : Textos} {c d : GsmMqttClient} (h : Difere x c d) :
    Difere x c.resume d.resume := by
  obtain ⟨rfl, hconfigurado, huso⟩ := h
  obtain ⟨hmantido, _, _, hmesmo⟩ := resume_usos c
  exact ⟨comTextos_resume c x, hmantido.trans hconfigurado, fun h => huso ((hmesmo x).mp h)⟩

section Diferenca

variable {s t : Rede GsmMqttClient}

/-- Loops of the link keep related sessions related. -/
theorem par_voltas {R : GsmMqttClient → GsmMqttClient → Prop} (h : Par R s t)
    (agenda : List (UInt32 × RespostaModem)) :
    Par R (s.execAll (voltas agenda)) (t.execAll (voltas agenda)) := by
  induction agenda generalizing s t with
  | nil => exact h
  | cons volta agenda ih => exact ih (h.loop volta.1 volta.2)

/-- A lease that is taken and given back, whatever lease there was. -/
def emprestimo : List Chamada := [.releaseHttp, .acquireForHttp, .releaseHttp]

theorem par_emprestimo {R : GsmMqttClient → GsmMqttClient → Prop} (h : Par R s t) :
    Par R (s.execAll emprestimo) (t.execAll emprestimo) :=
  h.releaseHttp.acquireForHttp.2.releaseHttp

/-- After the lease the session is free to try at once, with no open pending. -/
theorem emprestimo_livre (h : Arbitrada s) (hready : s.link.state = .ready) :
    (s.execAll emprestimo).link.state = .ready ∧
      (s.execAll emprestimo).link.httpLeased = false ∧
      (s.execAll emprestimo).sessao.suspenso = false ∧
      (s.execAll emprestimo).sessao.estavaConectado = false ∧
      (s.execAll emprestimo).sessao.proximaTentativa = 0 ∧
      (s.execAll emprestimo).sessao.cipstartMs = 0 := by
  have hu := h.releaseHttp
  have hfree := s.releaseHttp_lease
  have hup : s.releaseHttp.link.state = .ready := by
    unfold Rede.releaseHttp
    split
    · exact hready
    · exact hready
  show (s.releaseHttp.acquireForHttp.2.releaseHttp).link.state = .ready ∧
    (s.releaseHttp.acquireForHttp.2.releaseHttp).link.httpLeased = false ∧
    (s.releaseHttp.acquireForHttp.2.releaseHttp).sessao.suspenso = false ∧
    (s.releaseHttp.acquireForHttp.2.releaseHttp).sessao.estavaConectado = false ∧
    (s.releaseHttp.acquireForHttp.2.releaseHttp).sessao.proximaTentativa = 0 ∧
    (s.releaseHttp.acquireForHttp.2.releaseHttp).sessao.cipstartMs = 0
  have hsolta := hu.solta hup hfree
  generalize s.releaseHttp = u at hu hfree hup hsolta ⊢
  have htomado : u.acquireForHttp =
      (true, { u with
        sessao := u.sessao.suspend, link := { u.link with httpLeased := true } }) := by
    unfold Rede.acquireForHttp
    rw [if_neg (by simp [hup, hfree]), hu.pause_eq]
  rw [htomado]
  unfold Rede.releaseHttp
  simp only [hu.resume_eq, Bool.not_true, Bool.false_eq_true, if_false]
  unfold GsmMqttClient.resume GsmMqttClient.suspend
  cases hconectado : u.sessao.conectado <;> simp [hup, hsolta, fechar]

/-- A socket that opens at once. -/
def respostaAbre : RespostaSessao := { socketConnect := true }

/-- What became of an attempt asks for nothing more. -/
theorem aposTentativa_conexoes (r : RespostaSessao) (tried : Tentativa × Rede GsmMqttClient) :
    (aposTentativa r tried).sessao.conexoes = tried.2.sessao.conexoes := by
  obtain ⟨tentativa, t⟩ := tried
  cases tentativa <;> simp only [aposTentativa, comSessao, conexoes]

/-- An attempt with no open pending goes to the host and sends the credentials. -/
theorem mqttLoop_conexoes (h : s.Tenta 0 respostaAbre) (hcipstart : s.sessao.cipstartMs = 0) :
    ∃ prazo, (s.mqttLoop 0 respostaAbre).sessao.conexoes =
      s.sessao.conexoes ++ [.connect s.sessao.host.text s.sessao.port prazo,
        .mqttConnect s.sessao.credenciais] := by
  refine ⟨if s.link.pdpSeq ≠ s.sessao.pdpDaTentativa then connectTimeoutNovoS
    else connectTimeoutS, ?_⟩
  rw [mqttLoop_tenta h, aposTentativa_conexoes]
  simp [conectar, sondada, comSessao, abrirTcp, abrirSessao, respostaAbre, GsmLink.up,
    GsmLink.httpBusy, h.ready, h.livre, hcipstart, conexoes, fechar, credenciais]

/-- The lease, the pause and the suspension stay together over every order of calls. -/
theorem arbitrada_depois (h : Arbitrada s) (chamadas : List Chamada) :
    Arbitrada (s.execAll chamadas) := by
  induction chamadas generalizing s with
  | nil => exact h
  | cons chamada chamadas ih => exact ih (h.exec chamada)

/-- Sessions that differ in a copy that is used attempt something else, once the link is up. -/
theorem conexoes_difere {x : Textos} (h : Par (Difere x) s t) (hs : Arbitrada s)
    (hcomecada : Comecada s) (hoff : s.link.state ≠ .off) :
    ∃ depois, (t.execAll depois).sessao.conexoes ≠ (s.execAll depois).sessao.conexoes := by
  obtain ⟨agenda, hagenda⟩ := exists_ready hcomecada hoff
  refine ⟨voltas agenda ++ emprestimo ++ [.mqttLoop 0 respostaAbre], ?_⟩
  have hpar := par_emprestimo (par_voltas h agenda)
  obtain ⟨hready, hfree, hsuspenso, hestava, hproxima, hcipstart⟩ :=
    emprestimo_livre (arbitrada_depois hs (voltas agenda)) hagenda
  have hate : ∀ u : Rede GsmMqttClient,
      u.execAll (voltas agenda ++ emprestimo ++ [.mqttLoop 0 respostaAbre]) =
        ((u.execAll (voltas agenda)).execAll emprestimo).mqttLoop 0 respostaAbre := by
    intro u
    simp only [execAll, List.foldl_append, List.foldl_cons, List.foldl_nil]
    rfl
  rw [hate, hate]
  generalize (s.execAll (voltas agenda)).execAll emprestimo = u at *
  generalize (t.execAll (voltas agenda)).execAll emprestimo = v at *
  obtain ⟨hx, hconfigurado, huso⟩ := hpar.sessao
  have hvencida : ¬ (0 : UInt32) < 0 := UInt32.lt_irrefl 0
  have hu : u.Tenta 0 respostaAbre :=
    ⟨hconfigurado, hsuspenso, rfl, hestava, hready, hfree, hproxima ▸ hvencida⟩
  have hv : v.Tenta 0 respostaAbre := by
    refine ⟨?_, ?_, rfl, ?_, hpar.link_eq ▸ hready, hpar.link_eq ▸ hfree, ?_⟩
    all_goals rw [hx]
    · exact hconfigurado
    · exact hsuspenso
    · exact hestava
    · show ¬ (0 : UInt32) < u.sessao.proximaTentativa
      rw [hproxima]
      exact hvencida
  obtain ⟨prazo, hpedidos⟩ := mqttLoop_conexoes hu hcipstart
  obtain ⟨prazo', hpedidos'⟩ := mqttLoop_conexoes hv (by rw [hx]; exact hcipstart)
  rw [hpedidos, hpedidos', hx]
  intro higuais
  have hmesmas : (u.sessao.comTextos x).conexoes = u.sessao.conexoes := rfl
  rw [hmesmas, List.append_cancel_left_eq, List.cons.injEq, List.cons.injEq,
    MuxEvent.connect.injEq, MuxEvent.mqttConnect.injEq] at higuais
  exact huso ⟨higuais.1.1, higuais.2.1⟩

end Diferenca

/-! ## A link that is off -/

section Desligada

variable {s : Rede GsmMqttClient}

theorem begin_conexoes (c : GsmMqttClient) (cfg : MqttSessionConfig) :
    (c.begin cfg).2.conexoes = c.conexoes := by
  unfold GsmMqttClient.begin
  simp only [copiarTodas_eq]
  split
  · rfl
  split
  · rfl
  · cases cabem cfg <;> rfl

theorem endSession_conexoes (c : GsmMqttClient) : c.endSession.conexoes = c.conexoes := by
  unfold endSession
  cases c.conectado <;> simp [conexoes, fechar]

theorem sondada_conexoes (s : Rede GsmMqttClient) (r : RespostaSessao) :
    (s.sondada r).sessao.conexoes = s.sessao.conexoes := by
  unfold sondada comSessao
  cases r.pubLoopFecha <;> simp [conexoes, fechar]

/-- Without a link the session attempts nothing, and the link stays off. -/
theorem desligada_exec (h : Arbitrada s) (hoff : s.link.state = .off) (chamada : Chamada) :
    (s.exec chamada).link.state = .off ∧
      (s.exec chamada).sessao.conexoes = s.sessao.conexoes := by
  have hnotReady : s.link.state ≠ .ready := by simp [hoff]
  cases chamada with
  | linkLoop now r =>
      have hloop : s.loop now r = s := by
        unfold Rede.loop
        cases s.link.modem <;> simp [hoff]
      show (s.loop now r).link.state = .off ∧ (s.loop now r).sessao.conexoes = _
      rw [hloop]
      exact ⟨hoff, rfl⟩
  | mqttLoop now r =>
      show (s.mqttLoop now r).link.state = .off ∧ (s.mqttLoop now r).sessao.conexoes = _
      rw [mqttLoop_sondada]
      split
      · exact ⟨hoff, rfl⟩
      split
      · exact ⟨hoff, sondada_conexoes s r⟩
      split
      · exact ⟨hoff, sondada_conexoes s r⟩
      · rw [if_pos (by simp [sondada, comSessao, GsmLink.up, hoff])]
        exact ⟨hoff, sondada_conexoes s r⟩
  | acquireForHttp =>
      show s.acquireForHttp.2.link.state = .off ∧ s.acquireForHttp.2.sessao.conexoes = _
      unfold Rede.acquireForHttp
      rw [if_pos (Or.inl hnotReady)]
      exact ⟨hoff, rfl⟩
  | releaseHttp =>
      show s.releaseHttp.link.state = .off ∧ s.releaseHttp.sessao.conexoes = _
      unfold Rede.releaseHttp
      rw [if_pos (by simp [h.livre hnotReady])]
      exact ⟨hoff, rfl⟩
  | reportMqttTransportFailure now millis =>
      show (s.reportMqttTransportFailure now millis).link.state = .off ∧
        (s.reportMqttTransportFailure now millis).sessao.conexoes = _
      unfold Rede.reportMqttTransportFailure
      rw [if_pos (Or.inl hnotReady)]
      exact ⟨hoff, rfl⟩
  | reportMqttSessionLost now | reportMqttConnected | modem novo => exact ⟨hoff, rfl⟩
  | begin cfg => exact ⟨hoff, begin_conexoes _ cfg⟩
  | endSession => exact ⟨hoff, endSession_conexoes _⟩

theorem desligada_execAll (h : Arbitrada s) (hoff : s.link.state = .off)
    (chamadas : List Chamada) :
    (s.execAll chamadas).sessao.conexoes = s.sessao.conexoes := by
  induction chamadas generalizing s with
  | nil => rfl
  | cons chamada chamadas ih =>
      obtain ⟨hsegue, hconexoes⟩ := desligada_exec h hoff chamada
      exact (ih (h.exec chamada) hsegue).trans hconexoes

end Desligada

/-! ## What a refusal leaves -/

/-- The refusal of `nova` changes no later connection attempt. -/
def SessaoIntacta (s : Rede GsmMqttClient) (nova : MqttSessionConfig) : Prop :=
  ∀ depois, ((s.exec (.begin nova)).execAll depois).sessao.conexoes =
    (s.execAll depois).sessao.conexoes

section Recusa

variable {s : Rede GsmMqttClient} {nova : MqttSessionConfig}

/-- Gates that suspend and resume keep what `suspend` and `resume` keep. -/
theorem par_gates {R : GsmMqttClient → GsmMqttClient → Prop} {t : Rede GsmMqttClient}
    (h : Arbitrada s) (hsuspend : ∀ c d, R c d → R c.suspend d.suspend)
    (hresume : ∀ c d, R c d → R c.resume d.resume) (hlink : t.link = s.link)
    (hlog : t.log = s.log) (hgates : t.gates = s.gates) (hR : R s.sessao t.sessao) :
    Par R s t := by
  refine ⟨hlink, hlog, hR, ?_, ?_⟩
  · rw [hgates, h.pause_eq]
    exact .some hsuspend
  · rw [hgates, h.resume_eq]
    exact .some hresume

/-- What a refusal leaves, where it changed a copy that the session uses. -/
theorem difere_de_recusa (h : Arbitrada s) (hcomecada : Comecada s)
    (hrecusa : (s.sessao.begin nova).1 = false) (hoff : s.link.state ≠ .off)
    (hconfigurado : s.sessao.configurado = true) (hcopiou : ¬ RecusaAntes nova)
    (hmudou : ¬ Inalterada s.sessao nova) : ¬ SessaoIntacta s nova := by
  have hnova : (s.sessao.begin nova).2 = s.sessao.comTextos (s.sessao.textos.gravar nova) := by
    rcases begin_recusado hrecusa with ⟨hantes, _⟩ | ⟨_, hnova⟩
    · exact absurd hantes hcopiou
    · exact hnova
  have hpar : Par (Difere (s.sessao.textos.gravar nova)) s (s.exec (.begin nova)) :=
    par_gates h (fun _ _ => difere_suspend) (fun _ _ => difere_resume) rfl rfl rfl
      ⟨hnova, hconfigurado, fun huso => hmudou (mesmoUso_gravar_iff.mp huso)⟩
  obtain ⟨depois, hdepois⟩ := conexoes_difere hpar h hcomecada hoff
  exact fun hintacta => hdepois (hintacta depois)

/-- What a refusal leaves, where every copy that it made and that the session uses is the one
that was there. -/
theorem intacta_de_recusa (h : Arbitrada s) (hrecusa : (s.sessao.begin nova).1 = false)
    (hsame : s.sessao.configurado = false ∨ RecusaAntes nova ∨ Inalterada s.sessao nova) :
    SessaoIntacta s nova := by
  refine conexoes_execAll (par_gates h (fun _ _ => Troca.suspend) (fun _ _ => Troca.resume)
    rfl rfl rfl ?_) h
  show Troca s.sessao (s.sessao.begin nova).2
  rcases begin_recusado hrecusa with ⟨_, hnova⟩ | ⟨hcopiou, hnova⟩
  · rw [hnova]
    exact Troca.refl _
  · rw [hnova]
    refine ⟨_, rfl, fun hconfigurado => ?_⟩
    rcases hsame with hlivre | hantes | hinalterada
    · exact absurd (hlivre.symm.trans hconfigurado) Bool.false_ne_true
    · exact absurd hantes hcopiou
    · exact mesmoUso_gravar_iff.mpr hinalterada

end Recusa

/-- A refused session leaves the old one intact exactly where nothing can be attempted with the
copies it made, or they make no difference: the link is off, no session is configured, the
refusal came before the copies, or every text copied that the session uses was there already. -/
theorem begin_recusado_iff (cfg : GprsConfig) (millis : UInt32) (chamadas : List Chamada)
    (nova : MqttSessionConfig) :
    let s := (ligada cfg millis).execAll chamadas
    (s.sessao.begin nova).1 = false →
      (SessaoIntacta s nova ↔
        s.link.state = .off ∨ s.sessao.configurado = false ∨ RecusaAntes nova ∨
          Inalterada s.sessao nova) := by
  intro s hrecusa
  have h : Arbitrada s := arbitrada_execAll cfg millis chamadas
  have hcomecada : Comecada s := comecada_execAll cfg millis chamadas
  constructor
  · intro hintacta
    by_contra hnot
    simp only [not_or] at hnot
    obtain ⟨hoff, hlivre, hcopiou, hmudou⟩ := hnot
    exact difere_de_recusa h hcomecada hrecusa hoff (Bool.not_eq_false _ ▸ hlivre) hcopiou hmudou
      hintacta
  · rintro (hoff | hsame)
    · intro depois
      obtain ⟨hnovaOff, hconexoes⟩ := desligada_exec h hoff (.begin nova)
      rw [desligada_execAll (h.exec _) hnovaOff, hconexoes, desligada_execAll h hoff]
    · exact intacta_de_recusa h hrecusa hsame

/-- A broker with a user and a password. -/
def sessaoVelha : MqttSessionConfig where
  host := some (.ofBytes [104])
  username := some (.ofBytes [117])
  password := some (.ofBytes [112])
  clientId := some (.ofBytes [99])

/-- The same session with a will that has no topic and does not fit. -/
def sessaoComWill : MqttSessionConfig :=
  { sessaoVelha with willPayload := some (.ofBytes (List.replicate 128 65)) }

/-- Refusing the session that is in use, for its will, leaves it intact. -/
theorem begin_recusado_will :
    SessaoIntacta ((ligada { apn := some .empty, pinTx := 1, pinRx := 2 } 0).execAll
      [.begin sessaoVelha]) sessaoComWill := by
  refine (begin_recusado_iff { apn := some .empty, pinTx := 1, pinRx := 2 } 0
    [.begin sessaoVelha] sessaoComWill (by decide +kernel)).mpr (.inr (.inr (.inr ?_)))
  refine ⟨by decide +kernel, fun _ _ => by decide +kernel, fun _ _ _ => by decide +kernel,
    fun _ _ _ => by decide +kernel, fun _ _ _ _ h => ?_, fun _ _ _ _ _ h => ?_⟩
  · exact absurd h (by decide +kernel)
  · exact absurd h (by decide +kernel)

/-- Another broker, with a user that does not fit and a password that is never copied. -/
def sessaoNova : MqttSessionConfig where
  host := some (.ofBytes [120])
  username := some (.ofBytes (List.replicate 48 97))
  password := some (.ofBytes [113])
  clientId := some (.ofBytes [99])

/-- The refusal of a user that does not fit sends the old password to the new broker. -/
theorem recusa_troca_broker :
    ¬ ∀ (cfg : GprsConfig) (millis : UInt32) (chamadas : List Chamada) (nova : MqttSessionConfig),
      (((ligada cfg millis).execAll chamadas).sessao.begin nova).1 = false →
        SessaoIntacta ((ligada cfg millis).execAll chamadas) nova := by
  intro hall
  let cfg : GprsConfig := { apn := some .empty, pinTx := 1, pinRx := 2 }
  refine difere_de_recusa (arbitrada_execAll cfg 0 [.begin sessaoVelha])
    (comecada_execAll cfg 0 [.begin sessaoVelha]) (by decide +kernel) (by decide +kernel)
    (by decide +kernel) ?_ (fun h => ?_) (hall cfg 0 [.begin sessaoVelha] sessaoNova
      (by decide +kernel))
  · unfold RecusaAntes
    decide +kernel
  · exact absurd h.host (by decide +kernel)

end Rede

end FirmwareUpdater
