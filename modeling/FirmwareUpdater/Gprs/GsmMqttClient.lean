import FirmwareUpdater.Gprs.GsmLink

/-!
# The MQTT session over the cellular link

`GsmMqttClient` keeps the session of one modem socket, the MQTT mux, alive. The
socket's own state is part of the model, as the modem sees it. The answers of the
modem, of the MQTT library and of the clock to one call come in a record. The
library speaks to the modem through an adapter of its own; what it does to the
socket is among the answers. A report to the link may come back through the gate
while a connection attempt is still running, so an operation of the session maps
the whole network state.
-/

namespace FirmwareUpdater

/-- The MQTT socket as the modem has it: closed, with a `CIPSTART` outstanding, or open. -/
inductive Mux where
  | fechado
  | abrindo
  | aberto
  deriving DecidableEq, Repr

/-- The socket after the modem moved by itself: a pending open completes or fails, an open socket
may close, and nothing opens unasked. -/
def Mux.responde : Mux → Mux → Mux
  | .fechado, _ => .fechado
  | .aberto, .abrindo => .aberto
  | _, novo => novo

/-- The part of `MqttSessionConfig` a session on this link reads. -/
structure MqttSessionConfig where
  host : Option CString := none
  port : UInt16 := 1883
  tls : Bool := false
  username : Option CString := none
  password : Option CString := none
  clientId : Option CString := none
  willTopic : Option CString := none
  willPayload : Option CString := none
  willQos : UInt8 := 1
  willRetain : Bool := false
  cleanSession : Bool := true

/-- `kHostMax`, and so on for the other copies. -/
def hostMax : Nat := 64

@[inherit_doc hostMax]
def usuarioMax : Nat := 48

@[inherit_doc hostMax]
def senhaMax : Nat := 64

@[inherit_doc hostMax]
def clientIdMax : Nat := 64

@[inherit_doc hostMax]
def topicoMax : Nat := 128

@[inherit_doc hostMax]
def willCargaMax : Nat := 128

/-- There is room for a terminator at least. -/
theorem hostMax_pos : 0 < hostMax := by decide

@[inherit_doc hostMax_pos]
theorem usuarioMax_pos : 0 < usuarioMax := by decide

@[inherit_doc hostMax_pos]
theorem senhaMax_pos : 0 < senhaMax := by decide

@[inherit_doc hostMax_pos]
theorem clientIdMax_pos : 0 < clientIdMax := by decide

@[inherit_doc hostMax_pos]
theorem topicoMax_pos : 0 < topicoMax := by decide

@[inherit_doc hostMax_pos]
theorem willCargaMax_pos : 0 < willCargaMax := by decide

/-- What an MQTT connection attempt sends: client id, user, password and will. -/
structure Credenciais where
  clientId : CString
  usuario : Option CString
  senha : Option CString
  will : Option (CString × UInt8 × Bool × Option CString × Bool)
  deriving DecidableEq

/-- What the session asks of the socket and of the MQTT library. -/
inductive MuxEvent where
  | stop
  | connect (host : CString) (port : UInt16) (prazo : Nat)
  | mqttConnect (credenciais : Credenciais)
  deriving DecidableEq

/-- The members of `GsmMqttClient`, the session's socket and what was asked of it. `instancia`
says whether `g_instancia` points here. The configuration keeps pointers into the session's own
copies, so of `_cfg` only whether a pointer is null is kept beside them. -/
structure GsmMqttClient where
  configurado : Bool := false
  host : Field hostMax := .empty (by decide)
  usuario : Field usuarioMax := .empty (by decide)
  senha : Field senhaMax := .empty (by decide)
  clientId : Field clientIdMax := .empty (by decide)
  willTopico : Field topicoMax := .empty (by decide)
  willCarga : Field willCargaMax := .empty (by decide)
  port : UInt16 := 1883
  temUsuario : Bool := false
  temSenha : Bool := false
  temWillTopico : Bool := false
  temWillCarga : Bool := false
  willQos : UInt8 := 1
  willRetain : Bool := false
  cleanSession : Bool := true
  suspenso : Bool := false
  proximaTentativa : UInt32 := 0
  falhas : UInt8 := 0
  estavaConectado : Bool := false
  conectado : Bool := false
  pdpDaTentativa : UInt32 := 0
  cipstartMs : UInt32 := 0
  avisouAbrindo : Bool := false
  instancia : Bool := true
  mux : Mux := .fechado
  pedidos : List MuxEvent := []

/-- `GsmMqttClient::Tentativa`. -/
inductive Tentativa where
  | conectou
  | falhou
  | aguardando
  deriving DecidableEq, Repr

/-- The answers to one `loop` of the session, in the order it may ask for them. `pubLoop` is what
`PubSubClient::loop` returns and `pubLoopFecha` whether it stopped the socket; the two `mux`
fields are the socket after a `connect` and after the library's own attempt. -/
structure RespostaSessao where
  pubLoop : Bool := false
  pubLoopFecha : Bool := false
  socketConnected : Bool := false
  millisCipstart : UInt32 := 0
  socketConnect : Bool := false
  muxDepoisConnect : Mux := .fechado
  millisAbertura : UInt32 := 0
  estadoSocket : EstadoSocket := .semResposta
  pubConnect : Bool := false
  muxDepoisPub : Mux := .fechado
  pubState : Int := 0
  millisFalha : UInt32 := 0
  millisReset : UInt32 := 0
  millisFim : UInt32 := 0

namespace GsmMqttClient

/-- `kBackoffMs` at `_falhas < 4 ? _falhas : 3`. -/
def backoffMs (falhas : UInt8) : UInt32 :=
  match falhas.toNat with
  | 0 => 3000
  | 1 => 8000
  | 2 => 15000
  | _ => 30000

/-- `kConnectTimeoutS`. -/
def connectTimeoutS : Nat := 12

/-- `kConnectTimeoutNovoS`. -/
def connectTimeoutNovoS : Nat := 45

/-- `kCipstartMaxMs`. -/
def cipstartMaxMs : UInt32 := 75000

/-- `kReavaliarAberturaMs`. -/
def reavaliarAberturaMs : UInt32 := 1000

/-- `copiar`: what fits is stored either way; the result says whether all of it did. -/
def copiar {cap : Nat} (h : 0 < cap) (src : Option CString) : Bool × Field cap :=
  match src with
  | none => (true, .empty h)
  | some src => (src.length < cap, .print h src)

/-- The copies of `begin`, each made only once those before it succeeded. -/
def copiarTodas (c : GsmMqttClient) (cfg : MqttSessionConfig) : Bool × GsmMqttClient :=
  let (ok, host) := copiar (by decide) cfg.host
  let c := { c with host }
  if !ok then (false, c)
  else
    let (ok, usuario) := copiar (by decide) cfg.username
    let c := { c with usuario }
    if !ok then (false, c)
    else
      let (ok, senha) := copiar (by decide) cfg.password
      let c := { c with senha }
      if !ok then (false, c)
      else
        let (ok, clientId) := copiar (by decide) cfg.clientId
        let c := { c with clientId }
        if !ok then (false, c)
        else
          let (ok, willTopico) := copiar (by decide) cfg.willTopic
          let c := { c with willTopico }
          if !ok then (false, c)
          else
            let (ok, willCarga) := copiar (by decide) cfg.willPayload
            (ok, { c with willCarga })

/-- `begin`. -/
def begin (c : GsmMqttClient) (cfg : MqttSessionConfig) : Bool × GsmMqttClient :=
  if cfg.host = none ∨ cfg.clientId = none then (false, c)
  else if cfg.tls then (false, c)
  else
    let (copiou, c) := c.copiarTodas cfg
    if !copiou then (false, c)
    else
      (true,
        { c with
          port := cfg.port
          temUsuario := cfg.username.isSome
          temSenha := cfg.password.isSome
          temWillTopico := cfg.willTopic.isSome
          temWillCarga := cfg.willPayload.isSome
          willQos := cfg.willQos
          willRetain := cfg.willRetain
          cleanSession := cfg.cleanSession
          configurado := true
          suspenso := false
          proximaTentativa := 0
          falhas := 0 })

/-- The stop of the socket, by the session or by the MQTT library's `disconnect`. -/
def fechar (c : GsmMqttClient) : GsmMqttClient :=
  { c with mux := .fechado, pedidos := c.pedidos ++ [.stop] }

/-- `end`. -/
def endSession (c : GsmMqttClient) : GsmMqttClient :=
  let c := if c.conectado then c.fechar else c
  { c with
    estavaConectado := false
    conectado := false
    cipstartMs := 0
    configurado := false
    instancia := false }

/-- `suspend`. The socket is closed only where the session is up. -/
def suspend (c : GsmMqttClient) : GsmMqttClient :=
  if c.suspenso then c
  else
    let c := { c with suspenso := true, estavaConectado := false }
    let c := if c.conectado then c.fechar else c
    { c with conectado := false, cipstartMs := 0 }

/-- `resume`. -/
def resume (c : GsmMqttClient) : GsmMqttClient :=
  if !c.suspenso then c else { c with suspenso := false, proximaTentativa := 0 }

/-- The arguments of the MQTT library's `connect`, as the copies have them now. -/
def credenciais (c : GsmMqttClient) : Credenciais where
  clientId := c.clientId.text
  usuario := if c.temUsuario then some c.usuario.text else none
  senha := if c.temSenha then some c.senha.text else none
  will :=
    if c.temWillTopico then
      some (c.willTopico.text, c.willQos, c.willRetain,
        if c.temWillCarga then some c.willCarga.text else none, c.cleanSession)
    else none

end GsmMqttClient

namespace Rede

open GsmMqttClient

/-- Change the session only. -/
def comSessao {σ : Type} (s : Rede σ) (f : σ → σ) : Rede σ := { s with sessao := f s.sessao }

/-- `avaliarAbertura`. -/
def avaliarAbertura (s : Rede GsmMqttClient) (r : RespostaSessao) :
    Tentativa × Rede GsmMqttClient :=
  let decorrido := r.millisAbertura - s.sessao.cipstartMs
  if decorrido < cipstartMaxMs ∧ r.estadoSocket = .conectado then
    (.conectou, s.comSessao fun c => { c with cipstartMs := 0 })
  else if decorrido < cipstartMaxMs ∧ r.estadoSocket = .abrindo then
    (.aguardando, s.comSessao fun c => { c with avisouAbrindo := true })
  else
    let s := s.comSessao fun c => { c with cipstartMs := 0 }.fechar
    (.falhou, s.reportMqttTransportFailure r.millisFalha r.millisReset)

/-- The first half of `conectar`: the TCP connection, within a deadline of its own. -/
def abrirTcp (s : Rede GsmMqttClient) (prazo : Nat) (r : RespostaSessao) :
    Tentativa × Rede GsmMqttClient :=
  if r.socketConnected then (.conectou, s.comSessao fun c => { c with cipstartMs := 0 })
  else if s.sessao.cipstartMs ≠ 0 then s.avaliarAbertura r
  else
    let s := s.comSessao fun c =>
      { c.fechar with
        cipstartMs := r.millisCipstart
        avisouAbrindo := false
        mux := r.muxDepoisConnect
        pedidos := c.fechar.pedidos ++ [.connect c.host.text c.port prazo] }
    if r.socketConnect then (.conectou, s.comSessao fun c => { c with cipstartMs := 0 })
    else s.avaliarAbertura r

/-- The second half of `conectar`: the MQTT handshake. A negative state is a transport failure, a
positive one a refusal of the broker. -/
def abrirSessao (s : Rede GsmMqttClient) (r : RespostaSessao) :
    Tentativa × Rede GsmMqttClient :=
  let s := s.comSessao fun c =>
    { c with mux := r.muxDepoisPub, pedidos := c.pedidos ++ [.mqttConnect c.credenciais] }
  if !r.pubConnect then
    (.falhou,
      if r.pubState < 0 then s.reportMqttTransportFailure r.millisFalha r.millisReset else s)
  else
    (.conectou,
      s.reportMqttConnected.comSessao fun c =>
        { c with estavaConectado := true, conectado := true })

/-- `conectar`. -/
def conectar (s : Rede GsmMqttClient) (r : RespostaSessao) : Tentativa × Rede GsmMqttClient :=
  if !s.link.up || s.link.httpBusy then (.falhou, s)
  else
    let pdpNovo := s.link.pdpSeq ≠ s.sessao.pdpDaTentativa
    let prazo := if pdpNovo then connectTimeoutNovoS else connectTimeoutS
    -- An open still pending belongs to the PDP it was asked on.
    let s := s.comSessao fun c =>
      { c with
        pdpDaTentativa := s.link.pdpSeq
        cipstartMs := if pdpNovo then 0 else c.cipstartMs }
    match s.abrirTcp prazo r with
    | (.conectou, s) => s.abrirSessao r
    | (tentativa, s) => (tentativa, s)

/-- What `loop` makes of a connection attempt. -/
def aposTentativa (r : RespostaSessao) : Tentativa × Rede GsmMqttClient → Rede GsmMqttClient
  | (.conectou, s) => s.comSessao fun c => { c with falhas := 0 }
  | (.aguardando, s) =>
      s.comSessao fun c => { c with proximaTentativa := r.millisFim + reavaliarAberturaMs }
  | (.falhou, s) =>
      s.comSessao fun c =>
        { c with
          falhas := if c.falhas < 4 then c.falhas + 1 else c.falhas
          proximaTentativa := r.millisFim + backoffMs c.falhas }

/-- `GsmMqttClient::loop`. -/
def mqttLoop (s : Rede GsmMqttClient) (now : UInt32) (r : RespostaSessao) : Rede GsmMqttClient :=
  if !s.sessao.configurado || s.sessao.suspenso then s
  else
    let s := s.comSessao fun c =>
      { (if r.pubLoopFecha then c.fechar else c) with conectado := r.pubLoop }
    if r.pubLoop then s.comSessao fun c => { c with falhas := 0, estavaConectado := true }
    -- A session that was up is only noted as lost; the next pass opens the socket again.
    else if s.sessao.estavaConectado then
      let s := s.comSessao fun c =>
        { c with estavaConectado := false, falhas := 0, proximaTentativa := now }
      s.reportMqttSessionLost now
    else if !s.link.up || s.link.httpBusy then s.comSessao fun c => { c with cipstartMs := 0 }
    else if now < s.sessao.proximaTentativa then s
    else aposTentativa r (s.conectar r)

end Rede

/-- A call to the link or to the session, with the answers it gets, or a move of the modem. -/
inductive Chamada where
  | linkLoop (now : UInt32) (r : RespostaModem)
  | mqttLoop (now : UInt32) (r : RespostaSessao)
  | acquireForHttp
  | releaseHttp
  | reportMqttTransportFailure (now millis : UInt32)
  | reportMqttSessionLost (now : UInt32)
  | reportMqttConnected
  | begin (cfg : MqttSessionConfig)
  | endSession
  | modem (novo : Mux)

/-- The network state after a call. -/
def Rede.exec (s : Rede GsmMqttClient) : Chamada → Rede GsmMqttClient
  | .linkLoop now r => s.loop now r
  | .mqttLoop now r => s.mqttLoop now r
  | .acquireForHttp => s.acquireForHttp.2
  | .releaseHttp => s.releaseHttp
  | .reportMqttTransportFailure now millis => s.reportMqttTransportFailure now millis
  | .reportMqttSessionLost now => s.reportMqttSessionLost now
  | .reportMqttConnected => s.reportMqttConnected
  | .begin cfg => s.comSessao fun c => (c.begin cfg).2
  | .endSession => s.comSessao GsmMqttClient.endSession
  | .modem novo => s.comSessao fun c => { c with mux := c.mux.responde novo }

/-- The network state after a sequence of calls. -/
def Rede.execAll (s : Rede GsmMqttClient) (chamadas : List Chamada) : Rede GsmMqttClient :=
  chamadas.foldl Rede.exec s

/-- The link just powered, its gate wired to a session that was never begun. -/
def Rede.ligada (cfg : GprsConfig) (millis : UInt32) : Rede GsmMqttClient :=
  Rede.setMqttGate { link := (GsmLink.begin { cfg } cfg millis).2, gates := {}, sessao := {} }
    (some GsmMqttClient.suspend) (some GsmMqttClient.resume)

end FirmwareUpdater
