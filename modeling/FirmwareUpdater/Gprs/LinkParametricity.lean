import FirmwareUpdater.Gprs.LinkSteps

/-!
# The link cannot tell two sessions apart

What the link does to a session goes through the two functions behind its gates, and
nothing of the session comes back. Two networks with the same link and log and with
related sessions (`Par`), whose gates take related sessions to related ones, stay so
over every operation of the link, whatever the modem answers.
-/

namespace FirmwareUpdater

namespace Rede

variable {σ τ : Type} {R : σ → τ → Prop}

/-- Functions behind a gate that take related sessions to related ones, or none on both sides. -/
def GateRel (R : σ → τ → Prop) (f : Option (σ → σ)) (g : Option (τ → τ)) : Prop :=
  Option.Rel (fun f g => ∀ c d, R c d → R (f c) (g d)) f g

/-- One link and one log over two related sessions. -/
structure Par (R : σ → τ → Prop) (s : Rede σ) (t : Rede τ) : Prop where
  link_eq : t.link = s.link
  log_eq : t.log = s.log
  sessao : R s.sessao t.sessao
  pause : GateRel R s.gates.pause t.gates.pause
  resume : GateRel R s.gates.resume t.gates.resume

variable {s : Rede σ} {t : Rede τ}

/-- A gate that is registered, or none, keeps sessions related. -/
theorem GateRel.getD {f : Option (σ → σ)} {g : Option (τ → τ)} (h : GateRel R f g) {c : σ} {d : τ}
    (hR : R c d) : R (f.getD id c) (g.getD id d) := by
  cases h with
  | none => exact hR
  | some hfg => exact hfg c d hR

theorem GateRel.isSome_eq {f : Option (σ → σ)} {g : Option (τ → τ)} (h : GateRel R f g) :
    g.isSome = f.isSome := by
  cases h <;> rfl

namespace Par

/-- Both sides move to the same link and log, with sessions that are related again. -/
theorem both (h : Par R s t) {l : GsmLink} {log : List LinkEvent} {c : σ} {d : τ} (hR : R c d) :
    Par R { s with link := l, sessao := c, log } { t with link := l, sessao := d, log } :=
  ⟨rfl, rfl, hR, h.pause, h.resume⟩

/-- A move of the link alone. -/
theorem linkMove (h : Par R s t) (l : GsmLink) : Par R { s with link := l } { t with link := l } :=
  ⟨rfl, h.log_eq, h.sessao, h.pause, h.resume⟩

theorem pausada (h : Par R s t) : R s.pausada t.pausada := h.pause.getD h.sessao

theorem retomada (h : Par R s t) : R s.retomada t.retomada := h.resume.getD h.sessao

theorem pausarPorQueda (h : Par R s t) : Par R s.pausarPorQueda t.pausarPorQueda := by
  rw [pausarPorQueda_eq, pausarPorQueda_eq, h.pause.isSome_eq, h.link_eq]
  exact ⟨rfl, h.log_eq, h.pausada, h.pause, h.resume⟩

/-- A fall. -/
theorem fail (h : Par R s t) (now : UInt32) : Par R (s.fail now) (t.fail now) := by
  unfold Rede.fail
  rw [h.link_eq]
  have hpausa := (h.linkMove { s.link with
    failures := if s.link.failures < 4 then s.link.failures + 1 else s.link.failures })
      |>.pausarPorQueda
  dsimp only
  rw [hpausa.link_eq]
  exact hpausa.linkMove _

/-- A modem reset. -/
theorem resetModem (h : Par R s t) (millis : UInt32) :
    Par R (s.resetModem millis) (t.resetModem millis) := by
  unfold Rede.resetModem
  have hpausa := h.pausarPorQueda
  dsimp only
  rw [hpausa.link_eq, hpausa.log_eq]
  exact hpausa.both hpausa.sessao

/-- The PDP comes up. -/
theorem subirPdp (h : Par R s t) (now ip : UInt32) :
    Par R (s.subirPdp now ip) (t.subirPdp now ip) := by
  obtain ⟨link, ⟨pause, resume⟩, sessao, log⟩ := s
  obtain ⟨_, ⟨pause', resume'⟩, sessao', _⟩ := t
  obtain ⟨rfl, rfl, hsessao, hpause, hresume⟩ := h
  have hboth := hresume
  unfold Rede.subirPdp
  dsimp only at hresume ⊢
  split
  · cases hresume with
    | none => exact ⟨rfl, rfl, hsessao, hpause, hboth⟩
    | some hfg => exact ⟨rfl, rfl, hfg _ _ hsessao, hpause, hboth⟩
  · exact ⟨rfl, rfl, hsessao, hpause, hboth⟩

theorem loopSettling (h : Par R s t) (now : UInt32) (r : RespostaModem) :
    Par R (s.loopSettling now r) (t.loopSettling now r) := by
  unfold Rede.loopSettling
  rw [h.link_eq]
  dsimp only
  generalize (if s.link.settleMs ≠ 0 then s.link.settleMs else s.link.cfg.bootSettleMs) = settle
  by_cases hcedo : now - s.link.since < settle
  · simpa only [if_pos hcedo] using h
  by_cases htarde : now - s.link.since > settle + 20000
  · simpa only [if_neg hcedo, if_pos htarde] using h.fail now
  simp only [if_neg hcedo, if_neg htarde]
  cases r.testAT with
  | false => exact h
  | true => exact h.linkMove _

theorem loopNetwork (h : Par R s t) (now : UInt32) (r : RespostaModem) :
    Par R (s.loopNetwork now r) (t.loopNetwork now r) := by
  unfold Rede.loopNetwork
  rw [h.link_eq]
  have hchecada := h.linkMove { s.link with netCheckMs := now }
  split
  · exact h.linkMove _
  split
  · exact h
  dsimp only
  -- The three triggers of this state lead to the same reset.
  split
  · exact hchecada.resetModem _
  split
  · exact hchecada.resetModem _
  split
  · exact hchecada.resetModem _
  · exact hchecada

theorem loopAttaching (h : Par R s t) (now : UInt32) (r : RespostaModem) :
    Par R (s.loopAttaching now r) (t.loopAttaching now r) := by
  unfold Rede.loopAttaching
  rw [h.link_eq]
  split
  · unfold Rede.derrubarPdp
    dsimp only
    rw [h.log_eq]
    exact h.both h.sessao
  split
  · split
    · exact (h.linkMove _).resetModem _
    · exact h.subirPdp _ _
  split
  · exact h.resetModem _
  · exact h

/-- A step of the link. -/
theorem loop (h : Par R s t) (now : UInt32) (r : RespostaModem) :
    Par R (s.loop now r) (t.loop now r) := by
  unfold Rede.loop
  rw [h.link_eq]
  split
  · exact h
  split
  · exact h
  · exact h
  · exact h.loopSettling now r
  · unfold Rede.loopInit
    rw [h.link_eq]
    exact h.linkMove _
  · exact h.loopNetwork now r
  · exact h.loopAttaching now r
  · unfold Rede.loopBackoff
    rw [h.link_eq]
    split
    · exact h
    · exact h.linkMove _

/-- The lease. -/
theorem acquireForHttp (h : Par R s t) :
    s.acquireForHttp.1 = t.acquireForHttp.1 ∧ Par R s.acquireForHttp.2 t.acquireForHttp.2 := by
  unfold Rede.acquireForHttp
  rw [h.link_eq]
  split
  · exact ⟨rfl, h⟩
  · refine ⟨rfl, rfl, h.log_eq, ?_, h.pause, h.resume⟩
    have hpausada := h.pausada
    unfold Rede.pausada at hpausada
    cases hs : s.gates.pause <;> cases ht : t.gates.pause <;> simpa [hs, ht] using hpausada

/-- The end of a lease. -/
theorem releaseHttp (h : Par R s t) : Par R s.releaseHttp t.releaseHttp := by
  unfold Rede.releaseHttp
  rw [h.link_eq]
  split
  · exact h
  · refine ⟨rfl, h.log_eq, ?_, h.pause, h.resume⟩
    have hretomada := h.retomada
    unfold Rede.retomada at hretomada
    cases hs : s.gates.resume <;> cases ht : t.gates.resume <;> simpa [hs, ht] using hretomada

theorem escalar (h : Par R s t) (now millis : UInt32) :
    Par R (s.escalar now millis) (t.escalar now millis) := by
  unfold Rede.escalar
  rw [h.link_eq]
  split
  · exact h.resetModem millis
  split
  · exact (h.linkMove _).fail now
  · exact h

/-- A transport failure. -/
theorem reportMqttTransportFailure (h : Par R s t) (now millis : UInt32) :
    Par R (s.reportMqttTransportFailure now millis) (t.reportMqttTransportFailure now millis) := by
  unfold Rede.reportMqttTransportFailure
  rw [h.link_eq, h.log_eq]
  split
  · exact h
  · have hcontada : Par R { s with link := { s.link with mqttFalhasSeguidas :=
          if s.link.mqttFalhasSeguidas < 255 then s.link.mqttFalhasSeguidas + 1
          else s.link.mqttFalhasSeguidas }, log := [] } { t with link := { s.link with
        mqttFalhasSeguidas := if s.link.mqttFalhasSeguidas < 255
          then s.link.mqttFalhasSeguidas + 1 else s.link.mqttFalhasSeguidas }, log := [] } :=
      h.both h.sessao
    have hescalada := hcontada.escalar now millis
    dsimp only
    rw [hescalada.link_eq, hescalada.log_eq]
    exact ⟨rfl, rfl, hescalada.sessao, hescalada.pause, hescalada.resume⟩

/-- A connection that came up. -/
theorem reportMqttConnected (h : Par R s t) :
    Par R s.reportMqttConnected t.reportMqttConnected := by
  unfold Rede.reportMqttConnected
  rw [h.link_eq, h.log_eq]
  exact h.both h.sessao

end Par

end Rede

end FirmwareUpdater
