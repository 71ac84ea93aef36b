import FirmwareUpdater.Gprs.Arbitration
import FirmwareUpdater.Gprs.InboundQueue

/-!
# From the MQTT library to the session

The MQTT library hands a message to a static callback, which finds the session
through a file-scope pointer. The constructor sets the pointer and `end` clears it;
no other call touches it, `begin` included, over every order of calls
(`instancia_execAll`). So a session that was begun again after an `end` looks
healthy and receives nothing.
-/

namespace FirmwareUpdater

open GsmMqttClient Library

/-- The session with the link it runs on, and what it receives. -/
structure Cliente where
  rede : Rede GsmMqttClient
  recepcao : Recepcao := {}

/-- A call to the one live session, or to its link. -/
inductive ChamadaCliente where
  | rede (chamada : Chamada)
  | suspend
  | resume
  | setDirectCallback (cb : Bool)
  | reserveTopic (topic : Option CString)
  | poll (topic payload : Buffer)
  | aoReceber (r : Recebida)

namespace Cliente

/-- `aoReceber`, with where `entregar` took the message, if it got there. -/
def aoReceber (s : Cliente) (r : Recebida) : Option Destino × Cliente :=
  if s.rede.sessao.instancia then
    let (destino, recepcao) := s.recepcao.entregar r
    (some destino, { s with recepcao })
  else (none, s)

/-- The state after a call. -/
def exec (s : Cliente) : ChamadaCliente → Cliente
  | .rede chamada => { s with rede := s.rede.exec chamada }
  | .suspend => { s with rede := s.rede.comSessao GsmMqttClient.suspend }
  | .resume => { s with rede := s.rede.comSessao GsmMqttClient.resume }
  | .setDirectCallback cb => { s with recepcao := s.recepcao.setDirectCallback cb }
  | .reserveTopic topic => { s with recepcao := s.recepcao.reserveTopic topic }
  | .poll topic payload => { s with recepcao := (s.recepcao.poll topic payload).2 }
  | .aoReceber r => (s.aoReceber r).2

/-- The state after a sequence of calls. -/
def execAll (s : Cliente) (chamadas : List ChamadaCliente) : Cliente :=
  chamadas.foldl exec s

/-- The session just constructed, on a link just powered. -/
def ligado (cfg : GprsConfig) (millis : UInt32) : Cliente := { rede := .ligada cfg millis }

end Cliente

/-! ## What leaves the pointer alone -/

namespace GsmMqttClient

/-- `suspend` leaves the pointer alone. -/
theorem suspend_instancia (c : GsmMqttClient) : c.suspend.instancia = c.instancia := by
  unfold suspend
  cases c.suspenso with
  | true => rfl
  | false => cases c.conectado <;> simp [fechar]

/-- `resume` leaves the pointer alone. -/
theorem resume_instancia (c : GsmMqttClient) : c.resume.instancia = c.instancia := by
  unfold resume
  cases c.suspenso <;> rfl

/-- `begin` leaves the pointer alone, whether it succeeds or not. -/
theorem begin_instancia (c : GsmMqttClient) (cfg : MqttSessionConfig) :
    (c.begin cfg).2.instancia = c.instancia := by
  have hcopias : (c.copiarTodas cfg).2.instancia = c.instancia := by
    unfold copiarTodas
    dsimp only
    repeat' split
    all_goals rfl
  unfold GsmMqttClient.begin
  split
  · rfl
  split
  · rfl
  generalize c.copiarTodas cfg = copiado at hcopias
  dsimp only
  split <;> exact hcopias

end GsmMqttClient

namespace Rede

/-- The gate suspends and resumes the session, and the pointer is as `b` says. -/
structure Presa (b : Bool) (s : Rede GsmMqttClient) : Prop where
  pause_eq : s.gates.pause = some suspend
  resume_eq : s.gates.resume = some resume
  instancia_eq : s.sessao.instancia = b

variable {b : Bool} {s t : Rede GsmMqttClient}

/-- Only the gate and the pointer matter. -/
theorem Presa.mesma (h : Presa b s) (hgates : t.gates = s.gates)
    (hinstancia : t.sessao.instancia = s.sessao.instancia) : Presa b t := by
  obtain ⟨hpause, hresume, hb⟩ := h
  refine ⟨?_, ?_, ?_⟩
  · rw [hgates, hpause]
  · rw [hgates, hresume]
  · rw [hinstancia, hb]

/-- A session paused by the gate. -/
theorem Presa.pausada (h : Presa b s) (hgates : t.gates = s.gates)
    (hsessao : t.sessao = s.pausada) : Presa b t := by
  refine h.mesma hgates ?_
  rw [hsessao, Rede.pausada, h.pause_eq]
  exact suspend_instancia _

/-- A step of the link. -/
theorem Presa.loop (h : Presa b s) (now : UInt32) (r : RespostaModem) :
    Presa b (s.loop now r) := by
  rcases s.loop_cases now r with
    ⟨l, _, hquiet⟩ | ⟨_, hfail⟩ | ⟨_, t, ⟨l, _, rfl⟩, hreset⟩ | ⟨_, _, l, _, hrefaz⟩ | ⟨_, _, hup⟩
  · rw [hquiet]
    exact h.mesma rfl rfl
  · rw [hfail]
    exact h.pausada (s.fail_rest now).2.1 (s.fail_rest now).1
  · rw [hreset]
    generalize ht : ({ s with link := l } : Rede GsmMqttClient) = t
    have hkept : Presa b t := by
      subst ht
      exact h.mesma rfl rfl
    exact hkept.pausada (t.resetModem_rest r.millis).2.1 (t.resetModem_rest r.millis).1
  · rw [hrefaz]
    exact h.mesma rfl rfl
  · rw [hup]
    obtain ⟨hsessao, hgates, _⟩ := s.subirPdp_rest now r.localIP
    refine h.mesma hgates ?_
    rw [hsessao]
    split
    · rw [retomada, h.resume_eq]
      exact resume_instancia _
    · rfl

/-- A transport failure, and what it leads to. -/
theorem Presa.reportMqttTransportFailure (h : Presa b s) (now millis : UInt32) :
    Presa b (s.reportMqttTransportFailure now millis) := by
  unfold Rede.reportMqttTransportFailure
  split
  · exact h
  dsimp only
  generalize hcontada : Rede.mk _ s.gates s.sessao [] = contada
  have hkept : Presa b contada := by
    subst hcontada
    exact h.mesma rfl rfl
  have hescala : Presa b (contada.escalar now millis) := by
    rcases contada.escalar_cases now millis with ⟨_, hnone⟩ | ⟨_, _, hredo⟩ | ⟨_, hreset⟩
    · rwa [hnone]
    · rw [hredo]
      generalize hmarcada : ({ contada with
        link := { contada.link with refazerPdp := true } } : Rede GsmMqttClient) = marcada
      have hmarked : Presa b marcada := by
        subst hmarcada
        exact hkept.mesma rfl rfl
      exact hmarked.pausada (marcada.fail_rest now).2.1 (marcada.fail_rest now).1
    · rw [hreset]
      exact hkept.pausada (contada.resetModem_rest millis).2.1 (contada.resetModem_rest millis).1
  exact hescala.mesma rfl rfl

/-- Every call but `end` leaves the pointer alone, and `end` clears it. -/
theorem Presa.exec (h : Presa b s) (chamada : Chamada) :
    (chamada ≠ .endSession → Presa b (s.exec chamada)) ∧
      (chamada = .endSession → Presa false (s.exec chamada)) := by
  cases chamada with
  | endSession => exact ⟨fun hne => absurd rfl hne, fun _ => ⟨h.pause_eq, h.resume_eq, rfl⟩⟩
  | linkLoop now r => exact ⟨fun _ => h.loop now r, fun hend => by cases hend⟩
  | mqttLoop now r =>
      refine ⟨fun _ => mqttLoop_keeps ?_ ?_ ?_ h now, fun hend => by cases hend⟩
      · exact fun s t h hs => h.mesma hs.gates_eq hs.instancia_eq
      · exact fun s h => h.reportMqttTransportFailure _ _
      · exact fun s h => h.mesma rfl rfl
  | acquireForHttp =>
      refine ⟨fun _ => ?_, fun hend => by cases hend⟩
      simp only [Rede.exec, Rede.acquireForHttp]
      split
      · exact h
      · refine h.mesma rfl ?_
        rw [h.pause_eq]
        exact suspend_instancia _
  | releaseHttp =>
      refine ⟨fun _ => ?_, fun hend => by cases hend⟩
      simp only [Rede.exec, Rede.releaseHttp]
      split
      · exact h
      · refine h.mesma rfl ?_
        rw [h.resume_eq]
        exact resume_instancia _
  | reportMqttTransportFailure now millis =>
      exact ⟨fun _ => h.reportMqttTransportFailure now millis, fun hend => by cases hend⟩
  | reportMqttSessionLost now => exact ⟨fun _ => h, fun hend => by cases hend⟩
  | reportMqttConnected => exact ⟨fun _ => h.mesma rfl rfl, fun hend => by cases hend⟩
  | begin cfg => exact ⟨fun _ => h.mesma rfl (begin_instancia _ cfg), fun hend => by cases hend⟩
  | modem novo => exact ⟨fun _ => h.mesma rfl rfl, fun hend => by cases hend⟩

end Rede

/-! ## What reaches the session -/

namespace Cliente

open Rede

/-- Every call keeps the gate, and the pointer unless it is an `end`. -/
theorem presa_exec {b : Bool} {s : Cliente} (h : Presa b s.rede) {chamada : ChamadaCliente}
    (hend : chamada ≠ .rede .endSession) : Presa b (s.exec chamada).rede := by
  cases chamada with
  | rede chamada => exact (h.exec chamada).1 fun heq => hend (heq ▸ rfl)
  | suspend => exact h.mesma rfl (suspend_instancia _)
  | resume => exact h.mesma rfl (resume_instancia _)
  | setDirectCallback | reserveTopic | poll => exact h
  | aoReceber r =>
      show Presa b (s.aoReceber r).2.rede
      unfold aoReceber
      split <;> exact h

/-- Over every sequence of calls, the pointer is set until the first `end` and cleared from then
on. -/
theorem instancia_execAll (cfg : GprsConfig) (millis : UInt32) (chamadas : List ChamadaCliente) :
    ∃ b, Presa b ((ligado cfg millis).execAll chamadas).rede ∧
      (b = true ↔ .rede .endSession ∉ chamadas) := by
  induction chamadas using List.reverseRecOn with
  | nil => exact ⟨true, ⟨rfl, rfl, rfl⟩, by simp⟩
  | append_singleton chamadas chamada ih =>
      obtain ⟨b, h, hb⟩ := ih
      rw [execAll, List.foldl_append]
      by_cases hend : chamada = .rede .endSession
      · refine ⟨false, ?_, by simp [hend]⟩
        rw [hend]
        exact (h.exec .endSession).2 rfl
      · exact ⟨b, presa_exec h hend, by simp [hb, Ne.symm hend]⟩

/-- The most recent of `begin` and `end` is a `begin` that returned true. -/
def Aberta (cfg : GprsConfig) (millis : UInt32) (chamadas : List ChamadaCliente) : Prop :=
  ∃ antes sessao depois, chamadas = antes ++ .rede (.begin sessao) :: depois ∧
    (((ligado cfg millis).execAll antes).rede.sessao.begin sessao).1 = true ∧
    ∀ x ∈ depois, x ≠ .rede .endSession ∧ ∀ outra, x ≠ .rede (.begin outra)

/-- A message handed to `aoReceber` now is `entregar`'s: queued, counted as dropped or passed to the
direct callback. -/
def Alcanca (s : Cliente) (r : Recebida) : Prop :=
  s.aoReceber r =
    (some (s.recepcao.entregar r).1, { s with recepcao := (s.recepcao.entregar r).2 })

/-- It is exactly where the pointer is set. -/
theorem alcanca_iff (s : Cliente) (r : Recebida) :
    Alcanca s r ↔ s.rede.sessao.instancia = true := by
  unfold Alcanca aoReceber
  split
  · rename_i hset
    exact iff_of_true rfl hset
  · rename_i hclear
    exact iff_of_false (by simp) hclear

/-- A session that is begun receives every message, in every state of a sequence of calls, exactly
when no `begin` that succeeds comes after an `end`. -/
theorem sessao_alcancada_iff (cfg : GprsConfig) (millis : UInt32)
    (chamadas : List ChamadaCliente) :
    (∀ feitas, feitas <+: chamadas → Aberta cfg millis feitas →
        ∀ r, Alcanca ((ligado cfg millis).execAll feitas) r) ↔
      ∀ feitas, feitas <+: chamadas → Aberta cfg millis feitas → .rede .endSession ∉ feitas := by
  have hset : ∀ feitas r, Alcanca ((ligado cfg millis).execAll feitas) r ↔
      .rede .endSession ∉ feitas := by
    intro feitas r
    obtain ⟨b, hpresa, hb⟩ := instancia_execAll cfg millis feitas
    rw [alcanca_iff, hpresa.instancia_eq, hb]
  refine ⟨?_, ?_⟩
  · intro hreaches feitas hprefix haberta
    exact (hset feitas ⟨.empty, []⟩).mp (hreaches feitas hprefix haberta _)
  · intro hnone feitas hprefix haberta r
    exact (hset feitas r).mpr (hnone feitas hprefix haberta)

/-- A session begun, ended and begun again with the same settings loses what arrives. -/
theorem begin_depois_de_end :
    ∃ feitas, Aberta { apn := some .empty, pinTx := 1, pinRx := 2 } 0 feitas ∧
      ¬ Alcanca ((ligado { apn := some .empty, pinTx := 1, pinRx := 2 } 0).execAll feitas)
        ⟨.ofBytes [116], [1]⟩ := by
  let sessao : MqttSessionConfig :=
    { host := some (.ofBytes [104]), clientId := some (.ofBytes [99]) }
  refine ⟨[.rede (.begin sessao), .rede .endSession, .rede (.begin sessao)],
    ⟨[.rede (.begin sessao), .rede .endSession], sessao, [], rfl, rfl, by simp⟩, ?_⟩
  rw [alcanca_iff]
  decide +kernel

end Cliente

end FirmwareUpdater
