import FirmwareUpdater.Gprs.GsmHttpClient
import FirmwareUpdater.Library.Deadline

/-!
# The reading loops

`lerLinhas` and `lerBlocos` are loops that a deadline ends (`lerLinhas_eq_loop`,
`lerBlocos_eq_loop`). What each step of a reading keeps (`MantidaNaCabeca` for the
head, `MantidaNoCorpo` for the body), the whole reading keeps, however it ends.
-/

namespace FirmwareUpdater

open Library.Deadline

namespace GsmHttpClient

/-! ## The rounds -/

/-- A round of `lerLinhas` before its deadline. -/
def rodadaLinhas (a : Ambiente) : Bool × GsmHttpClient × Socket →
    (HttpError × GsmHttpClient × Socket) ⊕ (Bool × GsmHttpClient × Socket)
  | (primeira, c, w) =>
      let w := w.passo
      let connected := a.connected w.tick
      let w := w.passo
      let vazio := !connected && a.available w.tick = 0
      let w := if connected then w else w.passo
      if vazio then .inl (.transport, c, w)
      else
        let disponivel := a.available w.tick
        let w := w.passo
        if disponivel = 0 then .inr (primeira, c, w)
        else
          let (bytes, w) := w.readBytesUntil a 159
          let linha := linhaLida bytes
          if primeira then
            match linha.find [32] with
            | none => .inl (.badStatus, c, w)
            | some espaco => .inr (false, { c with status := atoi (espaco.drop 1) }, w)
          else if linha.length = 0 then .inl (.ok, c, w)
          else .inr (primeira, c.cabecalho linha, w)

/-- What `lerLinhas` returns at its deadline. -/
def expirarLinhas (s : Bool × GsmHttpClient × Socket) : HttpError × GsmHttpClient × Socket :=
  (.timeout, s.2.1, s.2.2.passo)

/-- `lerLinhas` looks at the clock at the start of a round only. -/
theorem lerLinhas_eq_loop (a : Ambiente) (limite : UInt32) (primeira : Bool) (c : GsmHttpClient)
    (w : Socket) (rounds : Nat) :
    lerLinhas a limite primeira c w rounds =
      loop (rodadaLinhas a) (·.2.2.tick) expirarLinhas (fun t => a.millis t < limite) rounds
        (primeira, c, w) := by
  induction rounds generalizing primeira c w with
  | zero => rfl
  | succ rounds ih =>
      rw [lerLinhas, loop]
      by_cases hclock : a.millis w.tick < limite
      · simp only [hclock, not_true_eq_false, if_false, decide_true, if_true, rodadaLinhas]
        generalize (if a.connected _ = true then _ else _ : Socket) = asked
        split
        · rfl
        split
        · exact ih _ _ _
        split
        · generalize CString.find _ _ = espaco
          cases espaco with
          | none => rfl
          | some espaco => exact ih _ _ _
        split
        · rfl
        · exact ih _ _ _
      · simp only [hclock, not_false_eq_true, if_true, decide_false, Bool.false_eq_true, if_false,
          expirarLinhas]

/-- A round of `lerBlocos` before its deadline. -/
def rodadaBlocos (a : Ambiente) : Nat × Saida × GsmHttpClient × Socket →
    (Nat × Saida × GsmHttpClient × Socket) ⊕ (Nat × Saida × GsmHttpClient × Socket)
  | (total, out, c, w) =>
      let (bloco, fim, c, w) := lerCorpo a 128 [] c w.passo
      let out :=
        if total + 1 < out.cap then out.copiar total (bloco.take (out.cap - 1 - total)) else out
      let total := total + bloco.length
      if fim then .inl (total, out, c, w)
      else if bloco ≠ [] then .inr (total, out, c, w)
      else
        let connected := a.connected w.tick
        let w := w.passo
        if connected then .inr (total, out, c, w)
        else if a.available w.tick = 0 then .inl (total, out, c, w.passo)
        else .inr (total, out, c, w.passo)

/-- What `lerBlocos` returns at its deadline. -/
def expirarBlocos (s : Nat × Saida × GsmHttpClient × Socket) :
    Nat × Saida × GsmHttpClient × Socket :=
  (s.1, s.2.1, s.2.2.1, s.2.2.2.passo)

/-- So does `lerBlocos`. -/
theorem lerBlocos_eq_loop (a : Ambiente) (limite : UInt32) (out : Saida) (total : Nat)
    (c : GsmHttpClient) (w : Socket) (rounds : Nat) :
    lerBlocos a limite out total c w rounds =
      loop (rodadaBlocos a) (·.2.2.2.tick) expirarBlocos (fun t => a.millis t < limite) rounds
        (total, out, c, w) := by
  induction rounds generalizing out total c w with
  | zero => rfl
  | succ rounds ih =>
      rw [lerBlocos, loop]
      by_cases hclock : a.millis w.tick < limite
      · simp only [hclock, not_true_eq_false, if_false, decide_true, if_true, rodadaBlocos]
        split
        · rfl
        split
        · exact ih _ _ _ _
        split
        · exact ih _ _ _ _
        split
        · rfl
        · exact ih _ _ _ _
      · simp only [hclock, not_false_eq_true, if_true, decide_false, Bool.false_eq_true, if_false,
          expirarBlocos]

/-- A larger bound on the rounds changes nothing. -/
theorem lerLinhas_mono {a : Ambiente} {limite : UInt32} {primeira : Bool} {rounds more : Nat}
    {c : GsmHttpClient} {w : Socket} {saida : HttpError × GsmHttpClient × Socket}
    (h : lerLinhas a limite primeira c w rounds = some saida) :
    lerLinhas a limite primeira c w (rounds + more) = some saida := by
  rw [lerLinhas_eq_loop] at h ⊢
  exact (loop_mono h more).1

/-! ## What a reading keeps -/

section Keeps

variable {a : Ambiente} {P : GsmHttpClient → Socket → Prop} {c c' : GsmHttpClient} {w w' : Socket}

/-- No step of reading a head changes it: asking the modem, reading a line, taking the status from
it or taking it as a field. -/
structure MantidaNaCabeca (a : Ambiente) (P : GsmHttpClient → Socket → Prop) : Prop where
  passo {c : GsmHttpClient} {w : Socket} : P c w → P c w.passo
  linha {c : GsmHttpClient} {w : Socket} (n : Nat) : P c w → P c (w.readBytesUntil a n).2
  status {c : GsmHttpClient} {w : Socket} (status : Int) : P c w → P { c with status } w
  cabecalho {c : GsmHttpClient} {w : Socket} (linha : CString) : P c w → P (c.cabecalho linha) w

/-- A round keeps it. -/
theorem rodadaLinhas_keeps (hP : MantidaNaCabeca a P) (primeira : Bool) (h : P c w) :
    (rodadaLinhas a (primeira, c, w)).elim (fun fim => P fim.2.1 fim.2.2)
      (fun next => P next.2.1 next.2.2) := by
  have hasked : P c (if a.connected w.passo.tick = true then w.passo.passo
      else w.passo.passo.passo) := by
    split
    · exact hP.passo (hP.passo h)
    · exact hP.passo (hP.passo (hP.passo h))
  simp only [rodadaLinhas]
  generalize (if a.connected w.passo.tick = true then w.passo.passo
    else w.passo.passo.passo) = asked at hasked
  have hlida := hP.linha 159 (hP.passo hasked)
  split
  · exact hasked
  split
  · exact hP.passo hasked
  split
  · generalize CString.find _ _ = espaco
    cases espaco with
    | none => exact hlida
    | some espaco => exact hP.status _ hlida
  split
  · exact hlida
  · exact hP.cabecalho _ hlida

/-- So does the loop over the lines. -/
theorem lerLinhas_keeps (hP : MantidaNaCabeca a P) {limite : UInt32} {rounds : Nat}
    {primeira : Bool} {erro : HttpError}
    (hread : lerLinhas a limite primeira c w rounds = some (erro, c', w')) (h : P c w) :
    P c' w' := by
  rw [lerLinhas_eq_loop] at hread
  refine loop_induction (fun s => P s.2.1 s.2.2) (fun fim => P fim.2.1 fim.2.2) ?_ ?_
    (fun s hs => hP.passo hs) h hread
  · rintro ⟨primeira, c, w⟩ next hs hround
    have hkept := rodadaLinhas_keeps hP primeira hs
    rwa [hround] at hkept
  · rintro ⟨primeira, c, w⟩ fim hs hround
    have hkept := rodadaLinhas_keeps hP primeira hs
    rwa [hround] at hkept

/-- Reading the headers resets the decoder and leaves the open flag alone. -/
theorem lerCabecalhos_keeps {rounds : Nat} {erro : HttpError}
    (h : lerCabecalhos a rounds c w = some (erro, c', w')) :
    c'.chunks = .reset ∧ c'.open_ = c.open_ := by
  have hkept : MantidaNaCabeca a fun s _ => s.chunks = .reset ∧ s.open_ = c.open_ := by
    refine ⟨id, fun _ => id, fun _ => id, fun {s _} linha hs => ?_⟩
    rw [(s.cabecalho_keeps linha).1, (s.cabecalho_keeps linha).2]
    exact hs
  exact lerLinhas_keeps hkept h ⟨rfl, rfl⟩

/-- No step of reading body changes it: asking the modem, reading from it, following the framing
and counting what came. -/
structure MantidaNoCorpo (a : Ambiente) (P : GsmHttpClient → Socket → Prop) : Prop where
  passo {c : GsmHttpClient} {w : Socket} : P c w → P c w.passo
  leitura {c : GsmHttpClient} {w : Socket} (n : Nat) : P c w → P c (w.depoisDeLer a n)
  byte {c : GsmHttpClient} {w : Socket} (b : UInt8) :
    P c w → P { c with chunks := c.chunks.feed b } w
  receber {c : GsmHttpClient} {w : Socket} (n : Nat) : P c w → P (c.receber n) w

/-- Reading a block keeps it. -/
theorem lerCorpo_keeps (hP : MantidaNoCorpo a P) (cap : Nat) (got : List UInt8) (h : P c w) :
    P (lerCorpo a cap got c w).2.2.1 (lerCorpo a cap got c w).2.2.2 := by
  fun_induction lerCorpo a cap got c w with
  | case1 | case7 => exact h
  | case2 => exact hP.passo h
  | case3 | case5 => exact hP.leitura _ (hP.passo h)
  | case4 =>
      rename_i ih
      exact ih (hP.byte _ (hP.leitura _ (hP.passo h)))
  | case6 =>
      rename_i ih
      exact ih (hP.receber _ (hP.leitura _ (hP.passo h)))

/-- A round keeps it. -/
theorem rodadaBlocos_keeps (hP : MantidaNoCorpo a P) (total : Nat) (out : Saida) (h : P c w) :
    (rodadaBlocos a (total, out, c, w)).elim (fun fim => P fim.2.2.1 fim.2.2.2)
      (fun next => P next.2.2.1 next.2.2.2) := by
  have hcorpo := lerCorpo_keeps hP 128 [] (hP.passo h)
  simp only [rodadaBlocos]
  generalize lerCorpo a 128 [] c w.passo = lida at hcorpo
  split
  · exact hcorpo
  split
  · exact hcorpo
  split
  · exact hP.passo hcorpo
  split
  · exact hP.passo (hP.passo hcorpo)
  · exact hP.passo (hP.passo hcorpo)

/-- So does reading a whole small response. -/
theorem lerResposta_keeps (hP : MantidaNoCorpo a P) {rounds total : Nat} {out out' : Saida}
    (hread : lerResposta a rounds out c w = some (total, out', c', w')) (h : P c w) :
    P c' w' := by
  simp only [lerResposta, bind, Option.bind_eq_some_iff] at hread
  obtain ⟨⟨lidos, saida, cliente, socket⟩, hblocos, hread⟩ := hread
  cases hread
  rw [lerBlocos_eq_loop] at hblocos
  refine loop_induction (fun s => P s.2.2.1 s.2.2.2) (fun fim => P fim.2.2.1 fim.2.2.2) ?_ ?_
    (fun s hs => hP.passo hs) (hP.passo h) hblocos
  · rintro ⟨total, out, c, w⟩ next hs hround
    have hkept := rodadaBlocos_keeps hP total out hs
    rwa [hround] at hkept
  · rintro ⟨total, out, c, w⟩ fim hs hround
    have hkept := rodadaBlocos_keeps hP total out hs
    rwa [hround] at hkept

/-- Reading body neither opens nor closes a download. -/
theorem open_mantido (a : Ambiente) (aberto : Bool) :
    MantidaNoCorpo a fun c _ => c.open_ = aberto :=
  ⟨id, fun _ => id, fun _ => id, fun _ => id⟩

end Keeps

end GsmHttpClient

end FirmwareUpdater
