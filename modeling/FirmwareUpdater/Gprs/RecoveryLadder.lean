import FirmwareUpdater.Gprs.Arbitration

/-!
# The recovery ladder

What the link does about failed connections is a ladder of its own: a count of
failures, a PDP that is to be redone, and whether a PDP is up (`Escada`). The
link's log is a run of it, over every order of calls and every answer of the modem
(`Escalado`), although the count, the order to redo and its execution sit in
different states of the link. What the ladder promises is then read off its runs.
-/

namespace FirmwareUpdater

open Library

/-! ## The ladder by itself -/

/-- How far the ladder was climbed, whether a teardown is owed, and whether a PDP is up. -/
structure Escada where
  falhas : Nat
  deve : Bool
  ativo : Bool

namespace Escada

/-- The foot of the ladder, with no PDP yet. -/
def inicio : Escada := ⟨0, false, false⟩

/-- A failure that a ready link without a lease counted. -/
def Contada (e : Escada) (antes : GsmLink) : Prop :=
  antes.state = .ready ∧ antes.httpLeased = false ∧ e.ativo = true ∧ e.deve = false

/-- The rungs. The first two failures stay on the PDP, the next two send the link down and leave
a teardown to be done before the next PDP, and the fifth is a reset, which is the only event that
may follow it. A teardown happens only where one is owed, and a PDP comes up only where none is. -/
inductive Step : Escada → LinkEvent → Escada → Prop where
  | mesmoPdp {e antes depois} : e.Contada antes → e.falhas + 1 < 3 →
      depois.state = .ready → depois.pdpSeq = antes.pdpSeq →
      Step e (.falhaTransporte antes depois) { e with falhas := e.falhas + 1 }
  | refazer {e antes depois} : e.Contada antes → 3 ≤ e.falhas + 1 → e.falhas + 1 < 5 →
      depois.state = .backoff →
      Step e (.falhaTransporte antes depois) ⟨e.falhas + 1, true, false⟩
  | reiniciar {e antes depois} : e.Contada antes → e.falhas + 1 = 5 →
      depois.state = .settling →
      Step e (.falhaTransporte antes depois) ⟨5, false, false⟩
  | conectado {e} : e.falhas < 5 → Step e .conectado { e with falhas := 0 }
  | reset {e} (cfunCompleto) : Step e (.reset cfunCompleto) inicio
  | derrubarPdp {e} : e.falhas < 5 → e.deve = true → Step e .derrubarPdp { e with deve := false }
  | pdpAtivo {e} : e.falhas < 5 → e.deve = false → Step e .pdpAtivo { e with ativo := true }

/-- The transport failures since the last connection or reset, in a log that starts with `n`. -/
def contar (n : Nat) : LinkEvent → Nat
  | .falhaTransporte _ _ => n + 1
  | .conectado | .reset _ => 0
  | .derrubarPdp | .pdpAtivo => n

/-- The transport failures since the last connection or reset of a log. -/
def falhasDe (log : List LinkEvent) : Nat := log.foldl contar 0

/-- A run counts the failures of its log. -/
theorem run_falhas {e f : Escada} {log : List LinkEvent} (hrun : Run Step e log f) :
    f.falhas = log.foldl contar e.falhas := by
  induction hrun with
  | nil => rfl
  | cons hstep _ ih =>
      rw [ih, List.foldl_cons]
      cases hstep with
      | reiniciar _ hfive => rw [contar, hfive]
      | mesmoPdp | refazer | conectado | reset | derrubarPdp | pdpAtivo => rfl

/-- Between a fall and the next PDP, with no reset on the way, there are as many teardowns as
were owed and are no longer. -/
theorem run_derrubadas {e f : Escada} {log : List LinkEvent} (hrun : Run Step e log f)
    (hativo : e.ativo = false) (hlog : ∀ x ∈ log, x ≠ .pdpAtivo ∧ ∀ c, x ≠ .reset c) :
    log.count .derrubarPdp + f.deve.toNat = e.deve.toNat := by
  induction hrun with
  | nil => simp
  | cons hstep _ ih =>
      have hfirst := hlog _ (List.mem_cons_self ..)
      have hrest := fun x hx => hlog x (List.mem_cons_of_mem _ hx)
      cases hstep with
      | mesmoPdp hcontada | refazer hcontada | reiniciar hcontada =>
          rw [hcontada.2.2.1] at hativo
          cases hativo
      | conectado =>
          rw [List.count_cons_of_ne (by simp)]
          exact ih hativo hrest
      | reset c => exact absurd rfl (hfirst.2 c)
      | derrubarPdp _ hdeve =>
          have hlater := ih hativo hrest
          rw [List.count_cons_self, hdeve]
          simp only [Bool.toNat_false, Bool.toNat_true] at hlater ⊢
          omega
      | pdpAtivo => exact absurd rfl hfirst.1

/-- A teardown that is owed goes back to a third or fourth failure, with no teardown, PDP or reset
since. -/
theorem run_deve {f : Escada} {log : List LinkEvent} (hrun : Run Step inicio log f)
    (hdeve : f.deve = true) :
    ∃ antes a d meio, log = antes ++ .falhaTransporte a d :: meio ∧
      (falhasDe antes + 1 = 3 ∨ falhasDe antes + 1 = 4) ∧
      ∀ x ∈ meio, x ≠ .derrubarPdp ∧ x ≠ .pdpAtivo ∧ ∀ c, x ≠ .reset c := by
  -- From the end, back to the failure that left the debt.
  induction log using List.reverseRecOn generalizing f with
  | nil =>
      cases hrun
      cases hdeve
  | append_singleton log x ih =>
      obtain ⟨e, g, hlog, hstep, hnil⟩ := hrun.split_cons
      cases hnil
      cases hstep with
      | mesmoPdp hcontada =>
          rw [hcontada.2.2.2] at hdeve
          cases hdeve
      | refazer _ hthree hfive =>
          refine ⟨log, _, _, [], rfl, ?_, by simp⟩
          have hcount : falhasDe log = e.falhas := (run_falhas hlog).symm
          omega
      | reiniciar | derrubarPdp | reset => cases hdeve
      | conectado =>
          obtain ⟨antes, a, d, meio, rfl, hthree, hmeio⟩ := ih hlog hdeve
          refine ⟨antes, a, d, meio ++ [.conectado], by simp, hthree, ?_⟩
          intro x hx
          rcases List.mem_append.mp hx with hold | hnew
          · exact hmeio x hold
          · rw [List.mem_singleton.mp hnew]
            simp
      | pdpAtivo _ hnone =>
          rw [hnone] at hdeve
          cases hdeve

end Escada

namespace Rede

variable {σ : Type}

/-! ## The link climbs it -/

/-- Where the link stands on the ladder. -/
def escada (l : GsmLink) : Escada := ⟨l.mqttFalhasSeguidas.toNat, l.refazerPdp, l.state = .ready⟩

/-- The log is a run of the ladder that ends where the link stands, below the fifth rung, and a
teardown is only owed on the way up to a PDP. -/
structure Escalado (s : Rede σ) : Prop where
  run : Run Escada.Step .inicio s.log (escada s.link)
  falhas_lt : s.link.mqttFalhasSeguidas.toNat < 5
  subindo : s.link.refazerPdp = true → s.link.state.subindo = true

/-- Outside the way up, no teardown is owed. -/
theorem Escalado.nada_deve {s : Rede σ} (h : Escalado s) (hstate : s.link.state.subindo = false) :
    s.link.refazerPdp = false := by
  rw [← Bool.not_eq_true]
  intro hrefazer
  rw [h.subindo hrefazer] at hstate
  cases hstate

/-- Only the link and the log matter. -/
theorem Escalado.so_sessao {s t : Rede σ} (h : Escalado s) (hlink : t.link = s.link)
    (hlog : t.log = s.log) : Escalado t := by
  obtain ⟨hrun, hlt, hsubindo⟩ := h
  refine ⟨?_, ?_, ?_⟩
  · rwa [hlink, hlog]
  · rwa [hlink]
  · rwa [hlink]

/-- A quiet step stays on its rung. -/
theorem Escalado.quieta {s t : Rede σ} (h : Escalado s) (ht : s.Quieta t) : Escalado t := by
  obtain ⟨l, hl, rfl⟩ := ht
  have hsame : escada l = escada s.link := by
    simp only [escada, hl.falhas_eq, hl.refazer_eq, hl.ready_iff]
  refine ⟨?_, ?_, ?_⟩
  · simpa only [hsame] using h.run
  · simpa only [hl.falhas_eq] using h.falhas_lt
  · intro hrefazer
    exact hl.subindo (h.subindo (hl.refazer_eq ▸ hrefazer))

/-- A modem reset goes back to the foot. -/
theorem Escalado.resetModem {s : Rede σ} (h : Escalado s) (millis : UInt32) :
    Escalado (s.resetModem millis) := by
  obtain ⟨hstate, _, _, hfalhas, hrefazer⟩ := s.resetModem_link millis
  obtain ⟨_, _, hlog⟩ := s.resetModem_rest millis
  have hfoot : escada (s.resetModem millis).link = .inicio := by
    simp [escada, Escada.inicio, hstate, hfalhas, hrefazer]
  refine ⟨?_, by simp [hfalhas], by simp [hrefazer]⟩
  rw [hlog, hfoot]
  exact h.run.append (.single (.reset _))

/-- A step of the link is one of the ladder, or none. -/
theorem Escalado.loop {s : Rede σ} (h : Escalado s) (now : UInt32) (r : RespostaModem) :
    Escalado (s.loop now r) := by
  rcases s.loop_cases now r with
    hquiet | ⟨hstate, hfail⟩ | ⟨_, t, ht, hreset⟩ | ⟨hstate, hdeve, l, hl, hrefaz⟩ |
      ⟨hstate, hnone, hup⟩
  · exact h.quieta hquiet
  · obtain ⟨hbackoff, _, _, hfalhas, hrefazer⟩ := s.fail_link now
    obtain ⟨_, _, hlog⟩ := s.fail_rest now
    have hnone := h.nada_deve (by rw [hstate]; rfl)
    have hsame : escada (s.fail now).link = escada s.link := by
      simp [escada, hbackoff, hfalhas, hrefazer, hstate]
    rw [hfail]
    refine ⟨?_, ?_, ?_⟩
    · rw [hlog, hsame]
      exact h.run
    · rw [hfalhas]
      exact h.falhas_lt
    · simp [hrefazer, hnone]
  · rw [hreset]
    exact (h.quieta ht).resetModem r.millis
  · have hpaid : escada l = { escada s.link with deve := false } := by
      simp only [escada, hl.falhas_eq, hl.refazer_eq, hl.ready_iff]
    rw [hrefaz]
    refine ⟨?_, ?_, ?_⟩
    · rw [hpaid]
      exact h.run.append (.single (.derrubarPdp h.falhas_lt hdeve))
    · simpa only [hl.falhas_eq] using h.falhas_lt
    · simp [hl.refazer_eq]
  · obtain ⟨hready, _, _, hfalhas, hrefazer⟩ := s.subirPdp_link now r.localIP
    obtain ⟨_, _, hlog⟩ := s.subirPdp_rest now r.localIP
    have hactive : escada (s.subirPdp now r.localIP).link =
        { escada s.link with ativo := true } := by
      simp [escada, hready, hfalhas, hrefazer]
    rw [hup]
    refine ⟨?_, ?_, ?_⟩
    · rw [hlog, hactive]
      exact h.run.append (.single (.pdpAtivo h.falhas_lt hnone))
    · rw [hfalhas]
      exact h.falhas_lt
    · simp [hrefazer, hnone]

/-- A counted failure is the rung its number says. -/
theorem Escalado.reportMqttTransportFailure {s : Rede σ} (h : Escalado s) (now millis : UInt32) :
    Escalado (s.reportMqttTransportFailure now millis) := by
  by_cases hcounted : s.link.state = .ready ∧ s.link.httpLeased = false
  · obtain ⟨hready, hfree⟩ := hcounted
    have hnone : s.link.refazerPdp = false := h.nada_deve (by rw [hready]; rfl)
    have hhere : (escada s.link).Contada s.link :=
      ⟨hready, hfree, by simp [escada, hready], hnone⟩
    obtain ⟨t, ht, hrung⟩ := s.report_counted now millis hready hfree h.falhas_lt
    rw [ht]
    rcases hrung with
      ⟨hthree, hlog, hstate, hseq, hfalhas, hrefazer⟩ |
      ⟨hthree, hfive, hlog, hstate, hfalhas, hrefazer⟩ |
      ⟨hfive, ⟨cfunCompleto, hlog⟩, hstate, hfalhas, hrefazer⟩
    · have hup : escada t.link =
          { escada s.link with falhas := (escada s.link).falhas + 1 } := by
        simp [escada, hfalhas, hrefazer, hstate, hready]
      refine ⟨?_, ?_, ?_⟩
      · rw [hlog, hup]
        exact h.run.append (.single (.mesmoPdp hhere hthree hstate hseq))
      · rw [hfalhas]
        exact hthree.trans (by decide)
      · simp [hrefazer, hnone]
    · have hup : escada t.link = ⟨(escada s.link).falhas + 1, true, false⟩ := by
        simp [escada, hfalhas, hrefazer, hstate]
      refine ⟨?_, ?_, ?_⟩
      · rw [hlog, hup]
        exact h.run.append (.single (.refazer hhere hthree hfive hstate))
      · rwa [hfalhas]
      · intro _
        rw [hstate]
        rfl
    · have hfoot : escada t.link = .inicio := by
        simp [escada, Escada.inicio, hfalhas, hrefazer, hstate]
      refine ⟨?_, ?_, ?_⟩
      · rw [hlog, hfoot]
        exact h.run.append (.cons (.reiniciar hhere hfive hstate) (.single (.reset _)))
      · simp [hfalhas]
      · simp [hrefazer]
  · rwa [s.report_ignored now millis hcounted]

/-- A connection that came up goes back to the foot of the count. -/
theorem Escalado.reportMqttConnected {s : Rede σ} (h : Escalado s) :
    Escalado s.reportMqttConnected :=
  ⟨h.run.append (.single (.conectado h.falhas_lt)), Nat.succ_pos 4, h.subindo⟩

/-- Every call keeps the link on the ladder. -/
theorem Escalado.exec {s : Rede GsmMqttClient} (h : Escalado s) (chamada : Chamada) :
    Escalado (s.exec chamada) := by
  cases chamada with
  | linkLoop now r => exact h.loop now r
  | mqttLoop now r =>
      refine mqttLoop_keeps ?_ ?_ ?_ h now
      · exact fun s t h hs => h.so_sessao hs.link_eq hs.log_eq
      · exact fun s h => h.reportMqttTransportFailure _ _
      · exact fun s h => h.reportMqttConnected
  | acquireForHttp =>
      simp only [Rede.exec, Rede.acquireForHttp]
      split
      · exact h
      · exact ⟨h.run, h.falhas_lt, h.subindo⟩
  | releaseHttp =>
      simp only [Rede.exec, Rede.releaseHttp]
      split
      · exact h
      · exact ⟨h.run, h.falhas_lt, h.subindo⟩
  | reportMqttTransportFailure now millis => exact h.reportMqttTransportFailure now millis
  | reportMqttSessionLost now => exact h
  | reportMqttConnected => exact h.reportMqttConnected
  | begin cfg => exact h.so_sessao rfl rfl
  | endSession => exact h.so_sessao rfl rfl
  | modem novo => exact h.so_sessao rfl rfl

/-- The link starts at the foot of the ladder. -/
theorem escalado_ligada (cfg : GprsConfig) (millis : UInt32) : Escalado (ligada cfg millis) := by
  have hlink : escada (ligada cfg millis).link = .inicio ∧
      (ligada cfg millis).link.refazerPdp = false ∧
      (ligada cfg millis).link.mqttFalhasSeguidas = 0 := by
    simp only [ligada, setMqttGate, GsmLink.begin]
    split <;> exact ⟨rfl, rfl, rfl⟩
  obtain ⟨hfoot, hnone, hzero⟩ := hlink
  refine ⟨?_, ?_, ?_⟩
  · rw [hfoot]
    exact .nil _
  · rw [hzero]
    decide
  · simp [hnone]

/-- It stays on it over every run. -/
theorem escalado_execAll (cfg : GprsConfig) (millis : UInt32) (chamadas : List Chamada) :
    Escalado ((ligada cfg millis).execAll chamadas) := by
  refine (run_execAll _ chamadas).invariant Escalado ?_ (escalado_ligada cfg millis)
  rintro s chamada t h rfl
  exact h.exec chamada

/-! ## What the ladder promises -/

/-- What the failure with number `k` did to the link, and the event it was followed by. -/
def Degrau (k : Nat) (antes depois : GsmLink) (resto : List LinkEvent) : Prop :=
  antes.state = .ready ∧ antes.httpLeased = false ∧ k ≤ 5 ∧
    (k ≤ 2 → depois.state = .ready ∧ depois.pdpSeq = antes.pdpSeq) ∧
    (k = 3 ∨ k = 4 → depois.state = .backoff) ∧
    (k = 5 → ∃ cfunCompleto outros, resto = .reset cfunCompleto :: outros)

/-- A failure in the log is the rung its number says. -/
theorem Escalado.degrau {s : Rede σ} (h : Escalado s) {before after : List LinkEvent}
    {antes depois : GsmLink} (hlog : s.log = before ++ .falhaTransporte antes depois :: after) :
    Degrau (Escada.falhasDe before + 1) antes depois after := by
  have hrun := h.run
  rw [hlog] at hrun
  obtain ⟨e, f, hbefore, hstep, hafter⟩ := hrun.split_cons
  have hcount : e.falhas = Escada.falhasDe before := Escada.run_falhas hbefore
  rw [← hcount]
  cases hstep with
  | mesmoPdp hcontada hthree hready hseq =>
      exact ⟨hcontada.1, hcontada.2.1, by omega, fun _ => ⟨hready, hseq⟩, by omega, by omega⟩
  | refazer hcontada hthree hfive hbackoff =>
      exact ⟨hcontada.1, hcontada.2.1, by omega, by omega, fun _ => hbackoff, by omega⟩
  | reiniciar hcontada hfive _ =>
      refine ⟨hcontada.1, hcontada.2.1, by omega, by omega, by omega, fun _ => ?_⟩
      have hend : (escada s.link).falhas < 5 := h.falhas_lt
      generalize escada s.link = fim at hafter hend
      -- At five the run neither ends nor goes on with anything but a reset.
      cases hafter with
      | nil => exact absurd hend (Nat.lt_irrefl 5)
      | cons hnext hrest =>
          cases hnext with
          | reset cfunCompleto => exact ⟨cfunCompleto, _, rfl⟩
          | mesmoPdp hcontada | refazer hcontada | reiniciar hcontada => cases hcontada.2.2.1
          | conectado hlt | derrubarPdp hlt | pdpAtivo hlt => exact absurd hlt (Nat.lt_irrefl 5)

/-- A PDP that comes up after a third or fourth failure, with no PDP and no reset in between, was
torn down once on the way. -/
theorem Escalado.uma_derrubada {s : Rede σ} (h : Escalado s) {before meio after : List LinkEvent}
    {antes depois : GsmLink}
    (hlog : s.log = before ++ .falhaTransporte antes depois :: (meio ++ .pdpAtivo :: after))
    (hk : Escada.falhasDe before + 1 = 3 ∨ Escada.falhasDe before + 1 = 4)
    (hmeio : ∀ x ∈ meio, x ≠ .pdpAtivo ∧ ∀ c, x ≠ .reset c) :
    meio.count .derrubarPdp = 1 := by
  have hrun := h.run
  rw [hlog] at hrun
  obtain ⟨e, f, hbefore, hstep, hrest⟩ := hrun.split_cons
  obtain ⟨g, _, hclimb, hup, _⟩ := hrest.split_cons
  have hcount : e.falhas = Escada.falhasDe before := Escada.run_falhas hbefore
  have hpaid : g.deve = false := by
    cases hup with
    | pdpAtivo _ hnone => exact hnone
  cases hstep with
  | mesmoPdp | reiniciar => omega
  | refazer _ _ _ _ =>
      have hbalance := Escada.run_derrubadas hclimb rfl hmeio
      simpa [hpaid] using hbalance

/-- A teardown follows a third or fourth failure, with no teardown, PDP or reset in between. -/
theorem Escalado.derrubada {s : Rede σ} (h : Escalado s) {before after : List LinkEvent}
    (hlog : s.log = before ++ .derrubarPdp :: after) :
    ∃ inicio antes depois meio, before = inicio ++ .falhaTransporte antes depois :: meio ∧
      (Escada.falhasDe inicio + 1 = 3 ∨ Escada.falhasDe inicio + 1 = 4) ∧
      ∀ x ∈ meio, x ≠ .derrubarPdp ∧ x ≠ .pdpAtivo ∧ ∀ c, x ≠ .reset c := by
  have hrun := h.run
  rw [hlog] at hrun
  obtain ⟨e, f, hbefore, hstep, _⟩ := hrun.split_cons
  cases hstep with
  | derrubarPdp _ hdeve => exact Escada.run_deve hbefore hdeve

/-- A refusal of the broker is none of the link's business. -/
theorem abrirSessao_recusada (s : Rede GsmMqttClient) (r : RespostaSessao)
    (hrecusa : r.pubConnect = false) (hestado : 0 ≤ r.pubState) :
    (s.abrirSessao r).2.link = s.link ∧ (s.abrirSessao r).2.log = s.log := by
  unfold abrirSessao
  simp [hrecusa, not_lt.mpr hestado, comSessao]

/-! ## What climbs it -/

/-- What a transport failure leads to, on a link that stands as in `s`. Ready and without a lease,
the link counts it, its number says which rung it is, and only the fifth is followed by anything,
the reset; otherwise nothing happens. -/
def Relatada (s t : Rede σ) : Prop :=
  if s.link.state = .ready ∧ s.link.httpLeased = false then
    ∃ resto, t.log = s.log ++ .falhaTransporte s.link t.link :: resto ∧
      Degrau (Escada.falhasDe s.log + 1) s.link t.link resto ∧
      (Escada.falhasDe s.log + 1 < 5 → resto = []) ∧
      (Escada.falhasDe s.log + 1 = 5 →
        t.link.state = .settling ∧ ∃ cfunCompleto, resto = [.reset cfunCompleto])
  else t.link = s.link ∧ t.log = s.log

/-- What the link hears of a session, standing as in `s`. A report of its own, a socket that did
not open and a handshake that broke off are each a transport failure; a handshake that came
through is a connection, and starts the count again. -/
structure Relatos (s : Rede GsmMqttClient) : Prop where
  falha : ∀ now millis, Relatada s (s.reportMqttTransportFailure now millis)
  tcp : ∀ prazo r, (s.abrirTcp prazo r).1 = .falhou → Relatada s (s.abrirTcp prazo r).2
  sessao : ∀ r, r.pubConnect = false → r.pubState < 0 → Relatada s (s.abrirSessao r).2
  conectado : s.reportMqttConnected.log = s.log ++ [.conectado]
  aberta : ∀ r, r.pubConnect = true → (s.abrirSessao r).2.log = s.log ++ [.conectado]

/-- The link counts the failures of its log. -/
theorem Escalado.falhas_eq {s : Rede σ} (h : Escalado s) :
    s.link.mqttFalhasSeguidas.toNat = Escada.falhasDe s.log :=
  Escada.run_falhas h.run

/-- A report counts and takes its rung. -/
theorem Escalado.relatada {s : Rede σ} (h : Escalado s) (now millis : UInt32) :
    Relatada s (s.reportMqttTransportFailure now millis) := by
  unfold Relatada
  split
  · rename_i hcounted
    obtain ⟨t, ht, hrung⟩ := s.report_counted now millis hcounted.1 hcounted.2 h.falhas_lt
    rw [h.falhas_eq] at hrung
    have hdegrau := (h.reportMqttTransportFailure now millis).degrau (by rw [ht])
    rw [ht]
    refine ⟨t.log, rfl, hdegrau, ?_, ?_⟩
    · intro hlt
      rcases hrung with ⟨_, hlog, _⟩ | ⟨_, _, hlog, _⟩ | ⟨hfive, _⟩
      · exact hlog
      · exact hlog
      · omega
    · intro hk
      rcases hrung with ⟨hthree, _⟩ | ⟨_, hfive, _⟩ | ⟨_, hreset, hsettling, _⟩
      · omega
      · omega
      · exact ⟨hsettling, hreset⟩
  · rename_i hignored
    rw [s.report_ignored now millis hignored]
    exact ⟨rfl, rfl⟩

/-- A socket that did not open is reported. -/
theorem Escalado.avaliarAbertura_falhou {s : Rede GsmMqttClient} (h : Escalado s)
    (r : RespostaSessao) (hfalhou : (s.avaliarAbertura r).1 = .falhou) :
    Relatada s (s.avaliarAbertura r).2 := by
  unfold avaliarAbertura at hfalhou ⊢
  dsimp only at hfalhou ⊢
  split at hfalhou
  · cases hfalhou
  rename_i hconectado
  split at hfalhou
  · cases hfalhou
  rename_i habrindo
  rw [if_neg hconectado, if_neg habrindo]
  have hfechada : Escalado (s.comSessao fun c => { c with cipstartMs := 0 }.fechar) :=
    h.so_sessao rfl rfl
  exact hfechada.relatada r.millisFalha r.millisReset

/-- So is one that the whole attempt did not open. -/
theorem Escalado.abrirTcp_falhou {s : Rede GsmMqttClient} (h : Escalado s) (prazo : Nat)
    (r : RespostaSessao) (hfalhou : (s.abrirTcp prazo r).1 = .falhou) :
    Relatada s (s.abrirTcp prazo r).2 := by
  unfold abrirTcp at hfalhou ⊢
  split at hfalhou
  · cases hfalhou
  rename_i hfechado
  rw [if_neg hfechado]
  split at hfalhou
  · rename_i hpendente
    rw [if_pos hpendente]
    exact h.avaliarAbertura_falhou r hfalhou
  rename_i hnovo
  rw [if_neg hnovo]
  dsimp only at hfalhou ⊢
  split at hfalhou
  · cases hfalhou
  rename_i hrecusado
  rw [if_neg hrecusado]
  generalize hpedida : s.comSessao _ = pedida at hfalhou ⊢
  have hsame : pedida.link = s.link ∧ pedida.log = s.log := by
    subst hpedida
    exact ⟨rfl, rfl⟩
  have hreported := (h.so_sessao hsame.1 hsame.2).avaliarAbertura_falhou r hfalhou
  simpa only [Relatada, hsame] using hreported

/-- A handshake that broke off is reported. -/
theorem Escalado.abrirSessao_falhou {s : Rede GsmMqttClient} (h : Escalado s)
    (r : RespostaSessao) (hfalhou : r.pubConnect = false) (hestado : r.pubState < 0) :
    Relatada s (s.abrirSessao r).2 := by
  unfold abrirSessao
  simp only [hfalhou, Bool.not_false, if_true, if_pos hestado]
  generalize hpedida : s.comSessao _ = pedida
  have hsame : pedida.link = s.link ∧ pedida.log = s.log := by
    subst hpedida
    exact ⟨rfl, rfl⟩
  have hreported := (h.so_sessao hsame.1 hsame.2).relatada r.millisFalha r.millisReset
  simpa only [Relatada, hsame] using hreported

/-- What the link hears is counted. -/
theorem Escalado.relatos {s : Rede GsmMqttClient} (h : Escalado s) : Relatos s where
  falha := h.relatada
  tcp := h.abrirTcp_falhou
  sessao := h.abrirSessao_falhou
  conectado := rfl
  aberta r hpub := by
    unfold abrirSessao
    simp only [hpub, Bool.not_true, Bool.false_eq_true, if_false]
    rfl

/-- A link that gets ready does so by a PDP that comes up. -/
theorem loop_pdpAtivo (s : Rede σ) (now : UInt32) (r : RespostaModem)
    (hbefore : s.link.state ≠ .ready) (hafter : (s.loop now r).link.state = .ready) :
    (s.loop now r).log = s.log ++ [.pdpAtivo] := by
  rcases s.loop_cases now r with
    hquiet | ⟨_, hfail⟩ | ⟨_, t, _, hreset⟩ | ⟨_, _, l, hl, hrefaz⟩ | ⟨_, _, hup⟩
  · obtain ⟨l, hl, hsame⟩ := hquiet
    rw [hsame] at hafter
    exact absurd (hl.ready_iff.mp hafter) hbefore
  · rw [hfail, (s.fail_link now).1] at hafter
    cases hafter
  · rw [hreset, (t.resetModem_link r.millis).1] at hafter
    cases hafter
  · rw [hrefaz] at hafter
    exact absurd (hl.ready_iff.mp hafter) hbefore
  · rw [hup]
    exact (s.subirPdp_rest now r.localIP).2.2

/-- The recovery ladder, after any calls. No more than four failures are ever counted; each one
counted did what its number says; a PDP that comes up after the third or fourth was torn down
exactly once on the way, unless the modem was reset; and no PDP is torn down for any other reason,
in particular not for a lost session or a refusal of the broker, which leave the link alone. What
the count counts is every failure reported in `ready` without a lease, by the session from the
middle of an attempt or from outside, since the last connection or reset, and a link only gets
ready by a PDP that comes up. -/
theorem escada_de_recuperacao (cfg : GprsConfig) (millis : UInt32) (chamadas : List Chamada) :
    let s := (ligada cfg millis).execAll chamadas
    Escada.falhasDe s.log ≤ 4 ∧
      (∀ before antes depois after,
        s.log = before ++ .falhaTransporte antes depois :: after →
          Degrau (Escada.falhasDe before + 1) antes depois after) ∧
      (∀ before antes depois meio after,
        s.log = before ++ .falhaTransporte antes depois :: (meio ++ .pdpAtivo :: after) →
          (Escada.falhasDe before + 1 = 3 ∨ Escada.falhasDe before + 1 = 4) →
          (∀ x ∈ meio, x ≠ .pdpAtivo ∧ ∀ c, x ≠ .reset c) → meio.count .derrubarPdp = 1) ∧
      (∀ before after, s.log = before ++ .derrubarPdp :: after →
        ∃ inicio antes depois meio, before = inicio ++ .falhaTransporte antes depois :: meio ∧
          (Escada.falhasDe inicio + 1 = 3 ∨ Escada.falhasDe inicio + 1 = 4) ∧
          ∀ x ∈ meio, x ≠ .derrubarPdp ∧ x ≠ .pdpAtivo ∧ ∀ c, x ≠ .reset c) ∧
      (∀ now, (s.reportMqttSessionLost now).link = s.link ∧
        (s.reportMqttSessionLost now).log = s.log) ∧
      (∀ r, r.pubConnect = false → 0 ≤ r.pubState →
        (s.abrirSessao r).2.link = s.link ∧ (s.abrirSessao r).2.log = s.log) ∧
      (∀ t : Rede GsmMqttClient, t.link = s.link → t.log = s.log → Relatos t) ∧
      (∀ millis, ∃ cfunCompleto, (s.resetModem millis).log = s.log ++ [.reset cfunCompleto]) ∧
      ∀ now r, s.link.state ≠ .ready → (s.loop now r).link.state = .ready →
        (s.loop now r).log = s.log ++ [.pdpAtivo] := by
  intro s
  have h : Escalado s := escalado_execAll cfg millis chamadas
  refine ⟨?_, ?_, ?_, ?_, ?_, ?_, ?_, ?_, ?_⟩
  · rw [← h.falhas_eq]
    exact Nat.le_of_lt_succ h.falhas_lt
  · exact fun _ _ _ _ hlog => h.degrau hlog
  · exact fun _ _ _ _ _ hlog hk hmeio => h.uma_derrubada hlog hk hmeio
  · exact fun _ _ hlog => h.derrubada hlog
  · exact fun _ => ⟨rfl, rfl⟩
  · exact fun r hrecusa hestado => abrirSessao_recusada s r hrecusa hestado
  · exact fun t hlink hlog => (h.so_sessao hlink hlog).relatos
  · exact fun millis => ⟨_, (s.resetModem_rest millis).2.2⟩
  · exact fun now r hbefore hafter => loop_pdpAtivo s now r hbefore hafter

-- Three failures on a PDP that is up, and the climb to the next one with another address.
example :
    let s := (ligada { apn := some .empty, pinTx := 1, pinRx := 2 } 0).execAll
      [.linkLoop 8000 respostaPronta, .linkLoop 8001 respostaPronta,
        .linkLoop 8002 respostaPronta, .linkLoop 8003 respostaPronta,
        .reportMqttTransportFailure 9000 9000, .reportMqttTransportFailure 9001 9001,
        .reportMqttTransportFailure 9002 9002, .linkLoop 11002 respostaPronta,
        .linkLoop 11003 respostaPronta, .linkLoop 11004 respostaPronta,
        .linkLoop 11005 respostaPronta, .linkLoop 11006 { respostaPronta with localIP := 2 }]
    s.link.state = .ready ∧ Escada.falhasDe s.log = 3 ∧ s.log.count .derrubarPdp = 1 := by
  decide +kernel

end Rede

end FirmwareUpdater
