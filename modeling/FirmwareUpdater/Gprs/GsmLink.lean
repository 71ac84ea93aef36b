import Mathlib.Data.UInt
import FirmwareUpdater.Core.Memory

/-!
# The cellular link

`GsmLink` brings the modem up, owns the PDP context and lends the link to HTTP.
It is stepped from `loop`, one state at a time. The modem's answers to a step
and the clock readings inside it come in a record, so one definition covers
every behaviour of the modem. What the link does to the MQTT session goes
through two functions registered by the owner; the session's own state is a
parameter here. Events that leave the link's fields, such as a modem reset,
are kept in a log.
-/

namespace FirmwareUpdater

/-- `GsmLink::State`. -/
inductive LinkState where
  | off
  | settling
  | init
  | network
  | attaching
  | ready
  | backoff
  deriving DecidableEq, Repr

/-- The part of `GprsConfig` the link reads outside of AT commands. -/
structure GprsConfig where
  apn : Option CString
  pinTx : Int
  pinRx : Int
  bootSettleMs : UInt32 := 8000
  deriving DecidableEq

/-- The members of `GsmLink`. `modem` says whether `begin` has built the modem object. -/
structure GsmLink where
  cfg : GprsConfig
  modem : Bool := false
  state : LinkState := .off
  since : UInt32 := 0
  nextTry : UInt32 := 0
  failures : UInt8 := 0
  httpLeased : Bool := false
  lastHealthMs : UInt32 := 0
  mqttPausedByFail : Bool := false
  mqttFalhasSeguidas : UInt8 := 0
  resetsModem : UInt8 := 0
  refazerPdp : Bool := false
  settleMs : UInt32 := 0
  netCheckMs : UInt32 := 0
  ipAnterior : UInt32 := 0
  pdpSeq : UInt32 := 0
  compararIp : Bool := false
  deriving DecidableEq

/-- `GsmLink::EstadoSocket`. -/
inductive EstadoSocket where
  | conectado
  | abrindo
  | outro
  | semResposta
  deriving DecidableEq, Repr

/-- What happened on the link: a transport failure that was counted, with the link before and
after the report, a session that came up, a modem reset, by `AT+CFUN=1,1` or by `CFUN=0/1`, a PDP
torn down on purpose and a PDP that came up. -/
inductive LinkEvent where
  | falhaTransporte (antes depois : GsmLink)
  | conectado
  | reset (cfunCompleto : Bool)
  | derrubarPdp
  | pdpAtivo
  deriving DecidableEq

/-- The two functions the owner registers with `setMqttGate`. -/
structure Gates (σ : Type) where
  pause : Option (σ → σ) := none
  resume : Option (σ → σ) := none

/-- The link, the session behind its gates and the log. -/
structure Rede (σ : Type) where
  link : GsmLink
  gates : Gates σ
  sessao : σ
  log : List LinkEvent := []

/-- The modem's answers to one step of the link, and the clock when the step reads it. -/
structure RespostaModem where
  testAT : Bool
  init : Bool
  networkConnected : Bool
  registrationStatus : Int
  signalQuality : Int
  gprsConnected : Bool
  localIP : UInt32
  millis : UInt32

namespace GsmLink

/-- `kBackoffMs` at `_failures < 4 ? _failures : 3`. -/
def backoffMs (failures : UInt8) : UInt32 :=
  match failures.toNat with
  | 0 => 2000
  | 1 => 5000
  | 2 => 15000
  | _ => 30000

/-- `kNetworkMs`. -/
def networkMs : UInt32 := 60000

/-- `kAttachMs`. -/
def attachMs : UInt32 := 25000

/-- `kNetCheckMs`. -/
def checkMs : UInt32 := 3000

/-- `kNetSinalBomMs`. -/
def netSinalBomMs : UInt32 := 20000

/-- `kSettleResetMs`. -/
def settleResetMs : UInt32 := 3000

/-- `kFalhasRefazerPdp`. -/
def falhasRefazerPdp : UInt8 := 3

/-- `kFalhasResetModem`. -/
def falhasResetModem : UInt8 := 5

/-- `begin`; `millis` is the clock after the power pulse. -/
def begin (l : GsmLink) (cfg : GprsConfig) (millis : UInt32) : Bool × GsmLink :=
  if cfg.apn = none ∨ cfg.pinTx < 0 ∨ cfg.pinRx < 0 then (false, l)
  else (true, { l with cfg, modem := true, state := .settling, since := millis })

/-- `up`. -/
def up (l : GsmLink) : Bool := l.state = .ready

/-- `httpBusy`. -/
def httpBusy (l : GsmLink) : Bool := l.httpLeased

end GsmLink

namespace Rede

variable {σ : Type}

open GsmLink

/-- `setMqttGate`. -/
def setMqttGate (s : Rede σ) (pause resume : Option (σ → σ)) : Rede σ :=
  { s with gates := { pause, resume } }

/-- The pause on the way down, remembered for when the PDP is back. -/
def pausarPorQueda (s : Rede σ) : Rede σ :=
  match s.gates.pause with
  | none => s
  | some pause =>
      { s with sessao := pause s.sessao, link := { s.link with mqttPausedByFail := true } }

/-- `fail`. -/
def fail (s : Rede σ) (now : UInt32) : Rede σ :=
  let espera := backoffMs s.link.failures
  let failures := if s.link.failures < 4 then s.link.failures + 1 else s.link.failures
  let s := { s with link := { s.link with failures } }.pausarPorQueda
  { s with
    link := { s.link with httpLeased := false, state := .backoff, nextTry := now + espera } }

/-- `resetModem`: every other reset takes the radio down and up instead. -/
def resetModem (s : Rede σ) (millis : UInt32) : Rede σ :=
  let s := s.pausarPorQueda
  let resets := s.link.resetsModem
  { s with
    link :=
      { s.link with
        httpLeased := false
        mqttFalhasSeguidas := 0
        refazerPdp := false
        compararIp := false
        resetsModem := if resets < 255 then resets + 1 else resets
        settleMs := settleResetMs
        state := .settling
        since := millis }
    log := s.log ++ [.reset (resets &&& 1 = 0)] }

/-- `derrubarPdp`: bearer, `CIPSHUT`, context and attachment, whatever the modem answers. -/
def derrubarPdp (s : Rede σ) : Rede σ := { s with log := s.log ++ [.derrubarPdp] }

/-- `loop` in `State::Settling`. -/
def loopSettling (s : Rede σ) (now : UInt32) (r : RespostaModem) : Rede σ :=
  let settle := if s.link.settleMs ≠ 0 then s.link.settleMs else s.link.cfg.bootSettleMs
  if now - s.link.since < settle then s
  else if now - s.link.since > settle + 20000 then s.fail now
  else if r.testAT then { s with link := { s.link with state := .init, since := now } }
  else s

/-- `loop` in `State::Init`: an incomplete init goes on just the same. -/
def loopInit (s : Rede σ) (now : UInt32) : Rede σ :=
  { s with link := { s.link with state := .network, since := now, netCheckMs := now } }

/-- `loop` in `State::Network`. -/
def loopNetwork (s : Rede σ) (now : UInt32) (r : RespostaModem) : Rede σ :=
  if r.networkConnected then { s with link := { s.link with state := .attaching, since := now } }
  else if now - s.link.netCheckMs < checkMs then s
  else
    let s := { s with link := { s.link with netCheckMs := now } }
    let decorrido := now - s.link.since
    let sinalBom := r.signalQuality ≥ 15 ∧ r.signalQuality ≠ 99
    -- A denied registration is not retried by the modem.
    if r.registrationStatus = 3 then s.resetModem r.millis
    else if sinalBom ∧ decorrido ≥ netSinalBomMs then s.resetModem r.millis
    else if decorrido > networkMs then s.resetModem r.millis
    else s

/-- The PDP is up: the session that a fall paused is let go. -/
def subirPdp (s : Rede σ) (now ip : UInt32) : Rede σ :=
  let s :=
    { s with
      link :=
        { s.link with
          compararIp := false
          ipAnterior := ip
          pdpSeq := s.link.pdpSeq + 1
          failures := 0
          state := .ready
          lastHealthMs := now }
      log := s.log ++ [LinkEvent.pdpAtivo] }
  if s.link.mqttPausedByFail then
    let s := { s with link := { s.link with mqttPausedByFail := false } }
    match s.gates.resume with
    | none => s
    | some resume => { s with sessao := resume s.sessao }
  else s

/-- `loop` in `State::Attaching`. -/
def loopAttaching (s : Rede σ) (now : UInt32) (r : RespostaModem) : Rede σ :=
  if s.link.refazerPdp then
    let s := { s with link := { s.link with refazerPdp := false, compararIp := true } }
    let s := s.derrubarPdp
    { s with link := { s.link with since := r.millis } }
  else if r.gprsConnected then
    -- A PDP redone on purpose that is back with its old address was not undone.
    if s.link.compararIp ∧ r.localIP ≠ 0 ∧ r.localIP = s.link.ipAnterior then
      { s with link := { s.link with compararIp := false } }.resetModem r.millis
    else s.subirPdp now r.localIP
  else if now - s.link.since > attachMs then s.resetModem r.millis
  else s

/-- `loop` in `State::Backoff`. -/
def loopBackoff (s : Rede σ) (now : UInt32) : Rede σ :=
  if now < s.link.nextTry then s
  else { s with link := { s.link with state := .init, since := now } }

/-- `loop`. With the PDP up the link checks nothing by itself. -/
def loop (s : Rede σ) (now : UInt32) (r : RespostaModem) : Rede σ :=
  if !s.link.modem then s
  else
    match s.link.state with
    | .off | .ready => s
    | .settling => s.loopSettling now r
    | .init => s.loopInit now
    | .network => s.loopNetwork now r
    | .attaching => s.loopAttaching now r
    | .backoff => s.loopBackoff now

/-- `acquireForHttp`. -/
def acquireForHttp (s : Rede σ) : Bool × Rede σ :=
  if s.link.state ≠ .ready ∨ s.link.httpLeased then (false, s)
  else
    let sessao := match s.gates.pause with
      | none => s.sessao
      | some pause => pause s.sessao
    (true, { s with sessao, link := { s.link with httpLeased := true } })

/-- `releaseHttp`. The stop of the HTTP socket is the owner's of that socket. -/
def releaseHttp (s : Rede σ) : Rede σ :=
  if !s.link.httpLeased then s
  else
    let sessao := match s.gates.resume with
      | none => s.sessao
      | some resume => resume s.sessao
    { s with sessao, link := { s.link with httpLeased := false } }

/-- What a counted failure leads to: nothing, the PDP once more, or a modem reset. -/
def escalar (s : Rede σ) (now millis : UInt32) : Rede σ :=
  if s.link.mqttFalhasSeguidas ≥ falhasResetModem then s.resetModem millis
  else if s.link.mqttFalhasSeguidas ≥ falhasRefazerPdp then
    { s with link := { s.link with refazerPdp := true } }.fail now
  else s

/-- `reportMqttTransportFailure`. The failure is logged before what it leads to. -/
def reportMqttTransportFailure (s : Rede σ) (now millis : UInt32) : Rede σ :=
  if s.link.state ≠ .ready ∨ s.link.httpLeased then s
  else
    let falhas := s.link.mqttFalhasSeguidas
    let contada :=
      { s with
        link := { s.link with mqttFalhasSeguidas := if falhas < 255 then falhas + 1 else falhas }
        log := [] }
    let t := contada.escalar now millis
    { t with log := s.log ++ .falhaTransporte s.link t.link :: t.log }

/-- `reportMqttSessionLost`: the loss is only noted. -/
def reportMqttSessionLost (s : Rede σ) (_now : UInt32) : Rede σ := s

/-- `reportMqttConnected`. -/
def reportMqttConnected (s : Rede σ) : Rede σ :=
  { s with
    link := { s.link with mqttFalhasSeguidas := 0, resetsModem := 0 }
    log := s.log ++ [.conectado] }

end Rede

end FirmwareUpdater
