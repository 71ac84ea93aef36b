import FirmwareUpdater.Gprs.Arbitration

/-!
# Which reset the modem gets

The two kinds of modem reset cure different states of the radio, so the link is
to use them in turn. It takes the kind from the parity of a counter of 8 bits that
stops at 255. The log is a run of that counter (`Alternancia`), over every order of
calls, and from its runs it is read off how far the turns go on: up to the 256th
reset of one outage (`alterna_iff`). The 257th, and every one after it, is
`CFUN=0/1`.
-/

namespace FirmwareUpdater

open Library

/-! ## The counter by itself -/

/-- Resets counted since the last connection: one more by a reset, none by a connection. -/
def contarReset (n : Nat) : LinkEvent → Nat
  | .reset _ => n + 1
  | .conectado => 0
  | .falhaTransporte _ _ | .derrubarPdp | .pdpAtivo => n

/-- The resets of a log since its start or its last connection. -/
def resetsDe (log : List LinkEvent) : Nat := log.foldl contarReset 0

/-- One more event. -/
theorem resetsDe_snoc (log : List LinkEvent) (e : LinkEvent) :
    resetsDe (log ++ [e]) = contarReset (resetsDe log) e := by
  rw [resetsDe, List.foldl_append]
  rfl

/-- The counter, and what a reset after `n` others is: the complete one where the counter, which
stops at 255, is even. -/
inductive Alternancia : Nat → LinkEvent → Nat → Prop where
  | reset (n) : Alternancia n (.reset (min n 255 % 2 = 0)) (n + 1)
  | conectado (n) : Alternancia n .conectado 0
  | falhaTransporte (n antes depois) : Alternancia n (.falhaTransporte antes depois) n
  | derrubarPdp (n) : Alternancia n .derrubarPdp n
  | pdpAtivo (n) : Alternancia n .pdpAtivo n

/-- A run counts the resets of its log. -/
theorem Alternancia.run_resets {m n : Nat} {log : List LinkEvent}
    (hrun : Run Alternancia m log n) : n = log.foldl contarReset m := by
  induction hrun with
  | nil => rfl
  | cons hstep _ ih =>
      rw [ih, List.foldl_cons]
      cases hstep <;> rfl

namespace Rede

variable {σ : Type}

/-! ## The link follows it -/

/-- The log is a run of the counter, and the link's own count of 8 bits follows it up to 255. -/
structure Alternada (s : Rede σ) : Prop where
  run : Run Alternancia 0 s.log (resetsDe s.log)
  conta : s.link.resetsModem.toNat = min (resetsDe s.log) 255

/-- Only the link's count and the log matter. -/
theorem Alternada.mesma {s t : Rede σ} (h : Alternada s)
    (hresets : t.link.resetsModem = s.link.resetsModem) (hlog : t.log = s.log) :
    Alternada t := by
  obtain ⟨hrun, hconta⟩ := h
  refine ⟨?_, ?_⟩
  · rwa [hlog]
  · rwa [hresets, hlog]

/-- One more event that the counter allows. -/
theorem Alternada.evento {s t : Rede σ} {e : LinkEvent} (h : Alternada s)
    (hlog : t.log = s.log ++ [e])
    (hstep : Alternancia (resetsDe s.log) e (resetsDe (s.log ++ [e])))
    (hconta : t.link.resetsModem.toNat = min (resetsDe (s.log ++ [e])) 255) : Alternada t := by
  refine ⟨?_, ?_⟩
  · rw [hlog]
    exact h.run.append (.single hstep)
  · rw [hlog]
    exact hconta

/-- The parity that `resetModem` reads off its count. -/
theorem and_one_eq_zero_iff (n : UInt8) : n &&& 1 = 0 ↔ n.toNat % 2 = 0 := by
  rw [← UInt8.toNat_inj, UInt8.toNat_and]
  simp only [UInt8.toNat_one, UInt8.toNat_zero, Nat.and_one_is_mod]

/-- A modem reset is the counter's step. -/
theorem Alternada.resetModem {s : Rede σ} (h : Alternada s) (millis : UInt32) :
    Alternada (s.resetModem millis) := by
  obtain ⟨_, _, hlog⟩ := s.resetModem_rest millis
  refine h.evento hlog ?_ ?_
  · have hkind : (decide (s.link.resetsModem &&& 1 = 0)) =
        decide (min (resetsDe s.log) 255 % 2 = 0) := by
      rw [decide_eq_decide, and_one_eq_zero_iff, h.conta]
    rw [hkind, resetsDe_snoc]
    exact .reset _
  · have hconta := h.conta
    rw [(s.resetModem_anda millis).2, resetsDe_snoc]
    show _ = min (resetsDe s.log + 1) 255
    split
    · rename_i hbelow
      rw [UInt8.lt_iff_toNat_lt] at hbelow
      simp only [UInt8.reduceToNat] at hbelow
      rw [UInt8.toNat_add, UInt8.toNat_one]
      omega
    · rename_i hfull
      rw [UInt8.lt_iff_toNat_lt] at hfull
      simp only [UInt8.reduceToNat] at hfull
      omega

/-- A fall resets nothing. -/
theorem Alternada.fail {s : Rede σ} (h : Alternada s) (now : UInt32) : Alternada (s.fail now) :=
  h.mesma (s.fail_anda now).2 (s.fail_rest now).2.2

/-- The PDP comes up with the count as it was. -/
theorem Alternada.subirPdp {s : Rede σ} (h : Alternada s) (now ip : UInt32) :
    Alternada (s.subirPdp now ip) := by
  refine h.evento (s.subirPdp_rest now ip).2.2 ?_ ?_
  · rw [resetsDe_snoc]
    exact .pdpAtivo _
  · rw [(s.subirPdp_anda now ip).2, resetsDe_snoc]
    exact h.conta

/-- A step of the link. -/
theorem Alternada.loop {s : Rede σ} (h : Alternada s) (now : UInt32) (r : RespostaModem) :
    Alternada (s.loop now r) := by
  rcases s.loop_anda now r with
    ⟨l, hl, hstep⟩ | ⟨l, hl, hstep⟩ | hfail | ⟨l, hl, hreset⟩ | hup
  · rw [hstep]
    exact h.mesma hl.resetsModem_eq rfl
  · rw [hstep]
    refine h.evento rfl ?_ ?_
    · rw [resetsDe_snoc]
      exact .derrubarPdp _
    · rw [resetsDe_snoc, hl.resetsModem_eq]
      exact h.conta
  · rw [hfail]
    exact h.fail now
  · have hmesma : Alternada { s with link := l } := h.mesma hl.resetsModem_eq rfl
    rw [hreset]
    exact hmesma.resetModem r.millis
  · rw [hup]
    exact h.subirPdp now r.localIP

/-- A transport failure, and the reset that the fifth leads to. -/
theorem Alternada.reportMqttTransportFailure {s : Rede σ} (h : Alternada s)
    (now millis : UInt32) : Alternada (s.reportMqttTransportFailure now millis) := by
  unfold Rede.reportMqttTransportFailure
  split
  · exact h
  dsimp only
  generalize hcontada : Rede.mk _ s.gates s.sessao [] = contada
  have hcount : contada.link.resetsModem = s.link.resetsModem ∧ contada.log = [] := by
    subst hcontada
    exact ⟨rfl, rfl⟩
  obtain ⟨hresets, hlog⟩ := hcount
  -- The failure is no reset, so what the count leads to starts from a log that has it already.
  generalize hfalha : LinkEvent.falhaTransporte s.link (contada.escalar now millis).link = falha
  have hlogged : Alternada { contada with log := s.log ++ [falha] } := by
    refine h.evento rfl ?_ ?_
    · rw [resetsDe_snoc, ← hfalha]
      exact .falhaTransporte ..
    · rw [resetsDe_snoc, ← hfalha, hresets]
      exact h.conta
  rcases contada.escalar_cases now millis with ⟨_, hnone⟩ | ⟨_, _, hredo⟩ | ⟨_, hreset⟩
  · rw [hnone]
    refine hlogged.mesma rfl ?_
    rw [hlog]
  · rw [hredo]
    refine hlogged.mesma (fail_anda _ now).2 ?_
    rw [(fail_rest _ now).2.2, hlog]
  · rw [hreset]
    refine (hlogged.resetModem millis).mesma ?_ ?_
    · simp [Rede.resetModem, pausarPorQueda_eq]
    · rw [(resetModem_rest _ millis).2.2, (resetModem_rest _ millis).2.2, hlog]
      simp

/-- A connection starts the count again. -/
theorem Alternada.reportMqttConnected {s : Rede σ} (h : Alternada s) :
    Alternada s.reportMqttConnected := by
  refine h.evento rfl ?_ ?_
  · rw [resetsDe_snoc]
    exact .conectado _
  · rw [resetsDe_snoc]
    rfl

/-- Every call follows the counter. -/
theorem Alternada.exec {s : Rede GsmMqttClient} (h : Alternada s) (chamada : Chamada) :
    Alternada (s.exec chamada) := by
  cases chamada with
  | linkLoop now r => exact h.loop now r
  | mqttLoop now r =>
      refine mqttLoop_keeps ?_ ?_ ?_ h now
      · intro s t h hs
        exact h.mesma (by rw [hs.link_eq]) hs.log_eq
      · exact fun s h => h.reportMqttTransportFailure _ _
      · exact fun s h => h.reportMqttConnected
  | acquireForHttp =>
      simp only [Rede.exec, Rede.acquireForHttp]
      split
      · exact h
      · exact h.mesma rfl rfl
  | releaseHttp =>
      simp only [Rede.exec, Rede.releaseHttp]
      split
      · exact h
      · exact h.mesma rfl rfl
  | reportMqttTransportFailure now millis => exact h.reportMqttTransportFailure now millis
  | reportMqttSessionLost now => exact h
  | reportMqttConnected => exact h.reportMqttConnected
  | begin cfg => exact h.mesma rfl rfl
  | endSession => exact h.mesma rfl rfl
  | modem novo => exact h.mesma rfl rfl

/-- The link starts with no reset counted. -/
theorem alternada_ligada (cfg : GprsConfig) (millis : UInt32) : Alternada (ligada cfg millis) := by
  have hzero : (ligada cfg millis).link.resetsModem = 0 := by
    simp only [ligada, setMqttGate, GsmLink.begin]
    split <;> rfl
  refine ⟨.nil _, ?_⟩
  rw [hzero]
  rfl

/-- It follows the counter over every run. -/
theorem alternada_execAll (cfg : GprsConfig) (millis : UInt32) (chamadas : List Chamada) :
    Alternada ((ligada cfg millis).execAll chamadas) := by
  refine (run_execAll _ chamadas).invariant Alternada ?_ (alternada_ligada cfg millis)
  rintro s chamada t h rfl
  exact h.exec chamada

/-! ## How far the turns go on -/

/-- The resets of a log take turns: the i-th since the start or the last connection is the
complete one exactly where i is odd. -/
def Alterna (log : List LinkEvent) : Prop :=
  ∀ before cfunCompleto after, log = before ++ .reset cfunCompleto :: after →
    (cfunCompleto = true ↔ (resetsDe before + 1) % 2 = 1)

/-- What a logged reset is. -/
theorem Alternada.reset_eq {s : Rede σ} (h : Alternada s) {before after : List LinkEvent}
    {cfunCompleto : Bool} (hlog : s.log = before ++ .reset cfunCompleto :: after) :
    cfunCompleto = decide (min (resetsDe before) 255 % 2 = 0) := by
  have hrun := h.run
  rw [hlog] at hrun
  obtain ⟨n, _, hbefore, hstep, _⟩ := hrun.split_cons
  have hcount : n = resetsDe before := Alternancia.run_resets hbefore
  rw [← hcount]
  cases hstep
  rfl

/-- A count that passes `n` passes it at a reset. -/
theorem exists_reset_of_lt {n : Nat} {log : List LinkEvent} (h : n < resetsDe log) :
    ∃ before cfunCompleto after, log = before ++ .reset cfunCompleto :: after ∧
      resetsDe before = n := by
  induction log using List.reverseRecOn with
  | nil => exact absurd h (Nat.not_lt_zero n)
  | append_singleton log e ih =>
      rw [resetsDe_snoc] at h
      by_cases hold : n < resetsDe log
      · obtain ⟨before, c, after, rfl, hcount⟩ := ih hold
        exact ⟨before, c, after ++ [e], by simp, hcount⟩
      · cases e with
        | reset c =>
            have hnext : n < resetsDe log + 1 := h
            exact ⟨log, c, [], rfl, by omega⟩
        | conectado => exact absurd h (Nat.not_lt_zero n)
        | falhaTransporte | derrubarPdp | pdpAtivo => exact absurd h hold

/-- The resets take turns over a sequence of calls exactly when no more than 256 of them ever
follow the start or a connection: at the 257th the counter stands still. -/
theorem alterna_iff (cfg : GprsConfig) (millis : UInt32) (chamadas : List Chamada) :
    let log := ((ligada cfg millis).execAll chamadas).log
    Alterna log ↔ ∀ before, before <+: log → resetsDe before ≤ 256 := by
  intro log
  have h : Alternada ((ligada cfg millis).execAll chamadas) :=
    alternada_execAll cfg millis chamadas
  refine ⟨?_, ?_⟩
  · intro halterna before ⟨after, hlog⟩
    by_contra hmany
    -- The 257th reset is among them, and it is not the complete one.
    obtain ⟨antes, c, meio, hbefore, hcount⟩ :=
      exists_reset_of_lt (show 256 < resetsDe before by omega)
    have hsplit : log = antes ++ .reset c :: (meio ++ after) := by
      rw [← hlog, hbefore]
      simp
    have hkind := h.reset_eq hsplit
    have hturn := halterna antes c (meio ++ after) hsplit
    rw [hkind, hcount] at hturn
    exact absurd hturn (by decide)
  · intro hfew before c after hlog
    have hkind := h.reset_eq hlog
    have hcount := hfew (before ++ [.reset c]) ⟨after, by simp [hlog]⟩
    rw [resetsDe_snoc] at hcount
    have hbelow : resetsDe before + 1 ≤ 256 := hcount
    rw [hkind, decide_eq_true_iff, Nat.min_eq_left (by omega)]
    omega

/-- A modem that the network refuses. -/
def respostaNegada (millis : UInt32) : RespostaModem :=
  { respostaPronta with networkConnected := false, registrationStatus := 3, millis }

/-- From the settling of the modem to the next reset, 20 s after the last one. -/
def voltaNegada (i : Nat) : List Chamada :=
  let inicio : UInt32 := .ofNat (20000 * i)
  [.linkLoop (inicio + 8000) (respostaNegada 0), .linkLoop (inicio + 8001) (respostaNegada 0),
    .linkLoop (inicio + 20000) (respostaNegada (inicio + 20000))]

/-- After an hour and a half of refused registrations the 257th reset is a second `CFUN=0/1` in a
row. -/
theorem reset_257_repete :
    ¬ Alterna ((ligada { apn := some .empty, pinTx := 1, pinRx := 2 } 0).execAll
      ((List.range 257).flatMap voltaNegada)).log := by
  generalize hlog : ((ligada { apn := some .empty, pinTx := 1, pinRx := 2 } 0).execAll
    ((List.range 257).flatMap voltaNegada)).log = log
  have hlast : log.drop 256 = [.reset false] ∧ resetsDe (log.take 256) = 256 := by
    subst hlog
    decide +kernel
  intro halterna
  have hturn := halterna (log.take 256) false [] (by rw [← hlast.1, List.take_append_drop])
  rw [hlast.2] at hturn
  exact absurd hturn (by decide)

end Rede

end FirmwareUpdater
