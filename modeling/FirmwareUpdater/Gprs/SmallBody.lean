import FirmwareUpdater.Gprs.BodyArrival

/-!
# What `lerResposta` leaves in the output

Each block of the body goes behind the ones before it, as far as it fits below the
terminator; the total counts all of them. `blocos_conta` says so of every run of the
loop, and `lerResposta_texto` what is in the output then.
-/

namespace FirmwareUpdater

open Library Library.Deadline Framing

namespace Saida

/-- The output with as much of `b` as fits, and a terminator behind it. -/
def comTexto (out : Saida) (b : List UInt8) : Saida :=
  { out with
    buf := out.buf.map fun buf =>
      b.take (out.cap - 1) ++ 0 :: buf.drop (min b.length (out.cap - 1) + 1) }

/-- The output with as much of `b` as fits, so far without a terminator. -/
def guardado (out : Saida) (b : List UInt8) : Saida := out.copiar 0 (b.take (out.cap - 1))

/-- The buffer is there and has the size the caller says. -/
def Inteira (out : Saida) : Prop := ∃ buf, out.buf = some buf ∧ buf.length = out.cap

variable {out : Saida}

/-- One copy behind another is one copy of both. -/
theorem copiar_copiar {buf : List UInt8} (hbuf : out.buf = some buf) {at_ : Nat}
    (hat : at_ ≤ buf.length) (first second : List UInt8) :
    (out.copiar at_ first).copiar (at_ + first.length) second =
      out.copiar at_ (first ++ second) := by
  have hlength : (buf.take at_ ++ first).length = at_ + first.length := by
    rw [List.length_append, List.length_take, Nat.min_eq_left hat]
  have hbytes : (buf.take at_ ++ first ++ buf.drop (at_ + first.length)).take
        (at_ + first.length) ++ second ++
      (buf.take at_ ++ first ++ buf.drop (at_ + first.length)).drop
        (at_ + first.length + second.length) =
      buf.take at_ ++ (first ++ second) ++ buf.drop (at_ + (first ++ second).length) := by
    rw [← hlength, List.take_left, List.drop_append, List.drop_of_length_le (Nat.le_add_right _ _),
      List.nil_append, Nat.add_sub_cancel_left, List.drop_drop, hlength, List.length_append]
    simp only [List.append_assoc, Nat.add_assoc]
  simp only [copiar, hbuf, Option.map_some, hbytes]

/-- A block goes behind what is there. -/
theorem anexar_guardado (hout : out.Inteira) (b bloco : List UInt8) :
    GsmHttpClient.anexar (out.guardado b) b.length bloco = out.guardado (b ++ bloco) := by
  obtain ⟨buf, hbuf, -⟩ := hout
  show (if b.length + 1 < out.cap then (out.guardado b).copiar b.length
    (bloco.take (out.cap - 1 - b.length)) else out.guardado b) = out.guardado (b ++ bloco)
  by_cases hroom : b.length + 1 < out.cap
  · have htake : b.take (out.cap - 1) = b := List.take_of_length_le (by omega)
    have hcopies := copiar_copiar hbuf (Nat.zero_le _) b (bloco.take (out.cap - 1 - b.length))
    rw [if_pos hroom, guardado, guardado, List.take_append, htake, ← hcopies, Nat.zero_add]
  · have hfull : out.cap - 1 ≤ b.length := by omega
    rw [if_neg hroom, guardado, guardado, List.take_append_of_le_length hfull]

/-- The terminator goes behind the text, and covers one that stood at the start. -/
theorem guardado_copiar (hout : out.Inteira) (hpos : 1 ≤ out.cap) (b : List UInt8) :
    ((out.terminar 0).guardado b).copiar (min b.length (out.cap - 1)) [0] = out.comTexto b := by
  obtain ⟨buf, hbuf, hcap⟩ := hout
  obtain ⟨first, more, rfl⟩ : ∃ first more, buf = first :: more :=
    List.exists_cons_of_ne_nil (by rintro rfl; simp at hcap; omega)
  have hstart : out.terminar 0 = { out with buf := some (0 :: more) } := by
    rw [terminar, if_pos (show out.cap > 0 from hpos)]
    simp [copiar, hbuf]
  have hlength : (b.take (out.cap - 1)).length = min b.length (out.cap - 1) := by
    rw [List.length_take, Nat.min_comm]
  have hbuf₀ : ({ out with buf := some (0 :: more) } : Saida).buf = some (0 :: more) := rfl
  have hcopies := copiar_copiar hbuf₀ (Nat.zero_le _) (b.take (out.cap - 1)) [0]
  rw [Nat.zero_add, hlength] at hcopies
  rw [hstart]
  refine hcopies.trans ?_
  simp [copiar, comTexto, hbuf, Nat.min_comm]

/-- Where the terminator goes when so many bytes came. -/
theorem terminar_at (hpos : 1 ≤ out.cap) (total : Nat) :
    (if total < out.cap then total else out.cap - 1) = min total (out.cap - 1) := by
  split <;> omega

end Saida

namespace GsmHttpClient

variable {a : Ambiente} {f : Option Framing} {raw : List UInt8} {status : Int} {inicio : Saida}

/-- What the loop of `lerResposta` keeps: the total and the output are those of the body that was
read so far. -/
structure Conta (f : Option Framing) (raw : List UInt8) (status : Int) (inicio : Saida)
    (todos : List UInt8) (s : Laco) : Prop where
  resto : todos ++ s.2.2.2.rest = raw
  situado : s.2.2.1.Situado f todos
  status_eq : s.2.2.1.status = status
  total : s.1 = (corpo f todos).length
  saida : s.2.1 = inicio.guardado (corpo f todos)

/-- A round keeps it, whether the loop goes on or not. -/
theorem rodada_conta (hinicio : inicio.Inteira) {todos : List UInt8} {s t : Laco}
    (h : Conta f raw status inicio todos s)
    (hround : rodadaBlocos a s = .inl t ∨ rodadaBlocos a s = .inr t) :
    ∃ mais, Conta f raw status inicio mais t := by
  obtain ⟨total, out, c, w⟩ := s
  obtain ⟨hrest, hsituado, hstatus, rfl, rfl⟩ := h
  cases hcorpo : lerCorpo a 128 [] c w.passo with
  | mk bloco more =>
      obtain ⟨fim, c', w'⟩ := more
      obtain ⟨novos, entregue, hbloco, hnovos, hbody, hnext, hkept, -, -⟩ :=
        lerCorpo_bloco a 128 [] w.passo hsituado hcorpo
      rw [List.nil_append] at hbloco
      subst hbloco
      -- Whichever end the round takes, what it returns is this but for the queries of the socket.
      have hconta : ∀ w'' : Socket, w''.rest = w'.rest →
          Conta f raw status inicio (todos ++ novos)
            ((corpo f todos).length + bloco.length,
              anexar (inicio.guardado (corpo f todos)) (corpo f todos).length bloco, c', w'') := by
        intro w'' hw
        refine ⟨?_, hnext, hkept.trans hstatus, ?_, ?_⟩
        · show (todos ++ novos) ++ w''.rest = raw
          rw [hw, List.append_assoc, hnovos]
          exact hrest
        · show (corpo f todos).length + bloco.length = _
          rw [hbody, List.length_append]
        · show anexar _ _ _ = _
          rw [Saida.anexar_guardado hinicio, hbody]
      refine ⟨todos ++ novos, ?_⟩
      cases fim with
      | true =>
          rw [rodada_fim hcorpo] at hround
          rcases hround with hround | hround
          · cases hround
            exact hconta w' rfl
          · cases hround
      | false =>
          by_cases hempty : bloco = []
          · subst hempty
            by_cases hlink : a.connected w'.tick = true
            · rw [rodada_espera hcorpo hlink] at hround
              rcases hround with hround | hround
              · cases hround
              · cases hround
                exact hconta w'.passo rfl
            by_cases hleft : a.available (w'.tick + 1) = 0
            · rw [rodada_fecha hcorpo hlink hleft] at hround
              rcases hround with hround | hround
              · cases hround
                exact hconta w'.passo.passo rfl
              · cases hround
            · rw [rodada_resta hcorpo hlink hleft] at hround
              rcases hround with hround | hround
              · cases hround
              · cases hround
                exact hconta w'.passo.passo rfl
          · rw [rodada_mais hcorpo hempty] at hround
            rcases hround with hround | hround
            · cases hround
            · cases hround
              exact hconta w' rfl

/-- So does the loop. -/
theorem blocos_conta (hinicio : inicio.Inteira) {limite : UInt32} {rounds : Nat} {s t : Laco}
    (h : ∃ todos, Conta f raw status inicio todos s) (hrun : blocos a limite rounds s = some t) :
    ∃ todos, Conta f raw status inicio todos t := by
  refine loop_induction (fun s => ∃ todos, Conta f raw status inicio todos s)
    (fun t => ∃ todos, Conta f raw status inicio todos t) ?_ ?_ ?_ h hrun
  · rintro s next ⟨todos, hs⟩ hround
    exact rodada_conta hinicio hs (.inr hround)
  · rintro s result ⟨todos, hs⟩ hround
    exact rodada_conta hinicio hs (.inl hround)
  · rintro s ⟨todos, hrest, hsituado, hstatus, htotal, hout⟩
    exact ⟨todos, hrest, hsituado, hstatus, htotal, hout⟩

/-- What a call of `lerResposta` returns is what came of the body. -/
theorem lerResposta_texto {out out' : Saida} (hout : out.Inteira) (hpos : 1 ≤ out.cap)
    {rounds total : Nat} {c c' : GsmHttpClient} {w w' : Socket} (hc : c.Situado f [])
    (h : lerResposta a rounds (out.terminar 0) c w = some (total, out', c', w')) :
    ∃ todos, todos ++ w'.rest = w.rest ∧ total = (corpo f todos).length ∧
      out' = out.comTexto (corpo f todos) ∧ c'.status = c.status := by
  simp only [lerResposta, bind, Option.bind_eq_some_iff] at h
  obtain ⟨⟨total, saida, c', w'⟩, hblocos, h⟩ := h
  cases h
  rw [lerBlocos_eq_loop] at hblocos
  have hinicio : (out.terminar 0).Inteira := by
    obtain ⟨buf, hbuf, hcap⟩ := hout
    refine ⟨[0] ++ buf.drop 1, ?_, ?_⟩
    · rw [Saida.terminar, if_pos (show out.cap > 0 from hpos)]
      simp [Saida.copiar, hbuf]
    · have hkept : (out.terminar 0).cap = out.cap := by
        unfold Saida.terminar
        split <;> rfl
      rw [hkept, List.length_append, List.length_drop]
      show 1 + (buf.length - 1) = out.cap
      omega
  have hempty : corpo f [] = [] := by
    cases f with
    | none => rfl
    | some f => cases f <;> simp [corpo, Framing.body]
  have hstart : Conta f w.rest c.status (out.terminar 0) [] (0, out.terminar 0, c, w.passo) := by
    refine ⟨rfl, hc, rfl, by rw [hempty]; rfl, ?_⟩
    rw [hempty, Saida.guardado, List.take_nil]
    obtain ⟨buf, hbuf, -⟩ := hinicio
    show out.terminar 0 = _
    cases hend : out.terminar 0 with
    | mk start cap => simp [Saida.copiar]
  obtain ⟨todos, hrest, -, hstatus, htotal, hsaida⟩ :=
    blocos_conta hinicio ⟨[], hstart⟩ hblocos
  have hcap : saida.cap = out.cap := by
    show saida.cap = _
    have hsaida' : saida = (out.terminar 0).guardado (corpo f todos) := hsaida
    rw [hsaida']
    show (out.terminar 0).cap = _
    unfold Saida.terminar
    split <;> rfl
  refine ⟨todos, hrest, htotal, ?_, hstatus⟩
  show saida.terminar (if total < saida.cap then total else saida.cap - 1) = _
  rw [hcap, Saida.terminar_at hpos, Saida.terminar, if_pos (by omega),
    ← Saida.guardado_copiar hout hpos]
  have htotal' : total = (corpo f todos).length := htotal
  have hsaida' : saida = (out.terminar 0).guardado (corpo f todos) := hsaida
  rw [htotal', hsaida']

/-- The body `b` is handed over before the deadline: it comes whole, or the head announced that
nothing comes and the wait for the close ends at the deadline at the latest. -/
def Entregue (a : Ambiente) (limite : UInt32) (f : Option Framing) (w : Socket)
    (b : List UInt8) : Prop :=
  (∃ todos, Chega a limite f [] w todos ∧ corpo f todos = b) ∨
    f = none ∧ w.rest = [] ∧ b = [] ∧ ∃ late, ∀ t, late ≤ t → ¬a.millis t < limite

/-- Every query takes its turn. -/
theorem tick_mantido (a : Ambiente) (n : Nat) : MantidaNoCorpo a fun _ w => n ≤ w.tick :=
  ⟨Nat.le_succ_of_le, fun _ => Nat.le_succ_of_le, fun _ => id, fun _ => id⟩

/-- So a round takes at least one. -/
theorem rodada_tick {s next : Laco} (h : rodadaBlocos a s = .inr next) :
    s.2.2.2.tick < next.2.2.2.tick := by
  obtain ⟨total, out, c, w⟩ := s
  have hlt : w.tick < (lerCorpo a 128 [] c w.passo).2.2.2.tick :=
    lerCorpo_keeps (tick_mantido a (w.tick + 1)) 128 [] (Nat.le_refl _)
  simp only [rodadaBlocos] at h
  generalize lerCorpo a 128 [] c w.passo = lida at h hlt
  split at h
  · cases h
  split at h
  · cases h
    exact hlt
  split at h
  · cases h
    exact hlt.trans (Nat.lt_succ_self _)
  split at h
  · cases h
  · cases h
    exact hlt.trans (Nat.lt_add_of_pos_right (by decide : 0 < 2))

/-- The loop ends, at the latest when the clock stays at its deadline. -/
theorem blocos_ends {limite : UInt32} {late : Nat} (hlate : ∀ t, late ≤ t → ¬a.millis t < limite)
    {rounds : Nat} {s : Laco} (h : late ≤ s.2.2.2.tick + rounds) :
    ∃ t, blocos a limite (rounds + 1) s = some t := by
  induction rounds generalizing s with
  | zero => exact ⟨_, (blocos_expirado (hlate _ h)).1⟩
  | succ rounds ih =>
      by_cases hclock : a.millis s.2.2.2.tick < limite
      · cases hround : rodadaBlocos a s with
        | inl t => exact ⟨t, (blocos_result hclock hround).1⟩
        | inr next =>
            have htick := rodada_tick hround
            obtain ⟨t, ht⟩ := ih (by omega : late ≤ next.2.2.2.tick + rounds)
            exact ⟨t, (blocos_next _ hclock hround).1.trans ht⟩
      · exact ⟨_, (blocos_expirado hclock).1⟩

/-- A body that is handed over is what `lerResposta` returns. -/
theorem lerResposta_entregue {out : Saida} (hout : out.Inteira) (hpos : 1 ≤ out.cap)
    {c : GsmHttpClient} {w : Socket} (hc : c.Situado f []) {b : List UInt8}
    (h : Entregue a (a.millis w.tick + idleTimeoutMs) f w.passo b) :
    ∃ least, ∀ rounds, least ≤ rounds → ∃ c' w',
      lerResposta a rounds (out.terminar 0) c w = some (b.length, out.comTexto b, c', w') ∧
      c'.status = c.status := by
  -- A run of the loop that leaves as much of the stream as is behind `b` returns `b`.
  have hreturns : ∀ {rounds : Nat} {t : Laco} {todos : List UInt8},
      blocos a (a.millis w.tick + idleTimeoutMs) rounds (0, out.terminar 0, c, w.passo) = some t →
      (∀ lidos, lidos ++ t.2.2.2.rest = w.rest → lidos = todos) → corpo f todos = b →
      ∃ c' w', lerResposta a rounds (out.terminar 0) c w =
        some (b.length, out.comTexto b, c', w') ∧ c'.status = c.status := by
    intro rounds t todos hrun hall hbody
    have hcall : lerResposta a rounds (out.terminar 0) c w =
        some (t.1, t.2.1.terminar (if t.1 < t.2.1.cap then t.1 else t.2.1.cap - 1),
          t.2.2.1, t.2.2.2) := by
      have hblocos : lerBlocos a (a.millis w.tick + idleTimeoutMs) (out.terminar 0) 0 c w.passo
          rounds = some t := (lerBlocos_eq_loop ..).trans hrun
      rw [lerResposta, hblocos]
      rfl
    obtain ⟨lidos, hrest, htotal, hout', hstatus⟩ := lerResposta_texto hout hpos hc hcall
    obtain rfl := hall lidos hrest
    rw [hbody] at htotal hout'
    exact ⟨t.2.2.1, t.2.2.2, by rw [hcall, hout', htotal], hstatus⟩
  rcases h with ⟨todos, hchega, hbody⟩ | ⟨rfl, hempty, rfl, late, hlate⟩
  · obtain ⟨least, hleast⟩ := termina_of_chega hchega hc 0 (out.terminar 0)
    refine ⟨least, fun rounds hle => ?_⟩
    obtain ⟨-, t, hrun, -, hrest, -⟩ := hleast rounds hle
    refine hreturns hrun (fun lidos hlidos => ?_) hbody
    exact List.append_cancel_right (hlidos.trans hrest.symm)
  · refine ⟨late + 1, fun rounds hle => ?_⟩
    obtain ⟨more, rfl⟩ := Nat.exists_eq_add_of_le' hle
    obtain ⟨t, hrun⟩ := blocos_ends hlate
      (by omega : late ≤ (0, out.terminar 0, c, w.passo).2.2.2.tick + (more + late))
    have hnothing : w.rest = [] := hempty
    have hnone : ∀ lidos, lidos ++ t.2.2.2.rest = w.rest → lidos = [] := by
      intro lidos hlidos
      rw [hnothing] at hlidos
      exact (List.append_eq_nil_iff.mp hlidos).1
    exact hreturns hrun hnone rfl

end GsmHttpClient

end FirmwareUpdater
