import FirmwareUpdater.Gprs.HeadReading

/-!
# Reading a response on any clock

The loops of `lerCabecalhos` and `lerResposta` end at absolute deadlines of 20 and 30
seconds, kept as readings of `millis()`. Apart from these comparisons no round looks at
the clock (`lerLinhas_eq_loop`, `lerBlocos_eq_loop`), so a response is read as on a
clock that never wraps where the readings are judged right, and then the same whatever
the clock shows at the start.
-/

namespace FirmwareUpdater

open Library.Deadline

/-- The answers of the same modem, with the clock at `inicio` when real time is zero: `tempo` says
when a query is made. -/
def Ambiente.desde (a : Ambiente) (tempo : Nat → Nat) (inicio : Nat) : Ambiente :=
  { a with millis := fun t => UInt32.ofNat (inicio + tempo t) }

namespace GsmHttpClient

variable {a : Ambiente} {tempo : Nat → Nat} {inicio rounds : Nat}

/-- The body is read without the clock. -/
theorem lerCorpo_desde (a : Ambiente) (tempo : Nat → Nat) (inicio cap : Nat) (got : List UInt8)
    (c : GsmHttpClient) (w : Socket) :
    lerCorpo (a.desde tempo inicio) cap got c w = lerCorpo a cap got c w := by
  have havailable : (a.desde tempo inicio).available = a.available := rfl
  fun_induction lerCorpo a cap got c w with
  | case1 got c w hlt hlido => rw [lerCorpo, if_pos hlt, if_pos hlido]
  | case2 got c w hlt hlido disponivel asked hnothing =>
      rw [lerCorpo, if_pos hlt, if_neg hlido]
      simp only [havailable]
      rw [if_pos hnothing]
  | case3 got c w hlt hlido disponivel asked hsome hframe hnone =>
      rw [lerCorpo, if_pos hlt, if_neg hlido]
      simp only [havailable]
      rw [if_neg hsome, if_pos hframe]
      split
      · rfl
      · next hbyte => cases hnone.symm.trans hbyte
  | case4 got c w hlt hlido disponivel asked hsome hframe byte more hread ih =>
      rw [lerCorpo, if_pos hlt, if_neg hlido]
      simp only [havailable]
      rw [if_neg hsome, if_pos hframe]
      split
      · next hbyte => cases hread.symm.trans hbyte
      · next hbyte =>
          cases hread.symm.trans hbyte
          exact ih
  | case5 got c w hlt hlido disponivel asked hsome hframe pedir hnone =>
      rw [lerCorpo, if_pos hlt, if_neg hlido]
      simp only [havailable]
      rw [if_neg hsome, if_neg hframe]
      exact dif_pos hnone
  | case6 got c w hlt hlido disponivel asked hsome hframe pedir hread ih =>
      rw [lerCorpo, if_pos hlt, if_neg hlido]
      simp only [havailable]
      rw [if_neg hsome, if_neg hframe]
      exact (dif_neg hread).trans ih
  | case7 got c w hlt => rw [lerCorpo, if_neg hlt]

theorem rodadaBlocos_desde (a : Ambiente) (tempo : Nat → Nat) (inicio : Nat) :
    rodadaBlocos (a.desde tempo inicio) = rodadaBlocos a := by
  funext ⟨total, out, c, w⟩
  simp only [rodadaBlocos, lerCorpo_desde]
  rfl

/-- The clock compares the moments of two queries as it wraps. -/
theorem millis_lt_iff (a : Ambiente) (tempo : Nat → Nat) (inicio t partida : Nat) (ms : UInt32) :
    (a.desde tempo inicio).millis t < (a.desde tempo inicio).millis partida + ms ↔
      (inicio + tempo t) % 2 ^ 32 < (inicio + tempo partida + ms.toNat) % 2 ^ 32 := by
  rw [UInt32.lt_iff_toNat_lt, UInt32.toNat_add]
  simp only [Ambiente.desde, UInt32.toNat_ofNat']
  rw [Nat.mod_add_mod]

/-- `lerCabecalhos` on a clock that never wraps. -/
def cabecalhosReal (a : Ambiente) (tempo : Nat → Nat) (rounds : Nat) (c : GsmHttpClient)
    (w : Socket) : Option (HttpError × GsmHttpClient × Socket) :=
  loop (rodadaLinhas a) (·.2.2.tick) expirarLinhas
    (fun t => tempo t < tempo w.tick + headerTimeoutMs.toNat) rounds (true, c.zerar, w.passo)

/-- The queries in which it asks for the clock. -/
def consultasCabecalhos (a : Ambiente) (tempo : Nat → Nat) (rounds : Nat) (c : GsmHttpClient)
    (w : Socket) : List Nat :=
  asked (rodadaLinhas a) (·.2.2.tick)
    (fun t => tempo t < tempo w.tick + headerTimeoutMs.toNat) rounds (true, c.zerar, w.passo)

/-- `lerBlocos` on such a clock, from the deadline that `lerResposta` sets on. -/
def blocosReal (a : Ambiente) (tempo : Nat → Nat) (rounds : Nat) (out : Saida)
    (c : GsmHttpClient) (w : Socket) : Option (Nat × Saida × GsmHttpClient × Socket) :=
  loop (rodadaBlocos a) (·.2.2.2.tick) expirarBlocos
    (fun t => tempo t < tempo w.tick + idleTimeoutMs.toNat) rounds (0, out, c, w.passo)

/-- The queries in which it asks for the clock. -/
def consultasBlocos (a : Ambiente) (tempo : Nat → Nat) (rounds : Nat) (out : Saida)
    (c : GsmHttpClient) (w : Socket) : List Nat :=
  asked (rodadaBlocos a) (·.2.2.2.tick)
    (fun t => tempo t < tempo w.tick + idleTimeoutMs.toNat) rounds (0, out, c, w.passo)

/-- What a caller sees of a response that was read. -/
structure Leitura where
  erro : HttpError
  status : Int
  chunked : Bool
  length : UInt32
  out : Saida
  total : Nat
  deriving DecidableEq

/-- `lerCabecalhos`, and `lerResposta` after it if there is a body to read. -/
def ler (a : Ambiente) (rounds : Nat) (out : Saida) (c : GsmHttpClient) (w : Socket) :
    Option Leitura := do
  let (erro, c, w) ← lerCabecalhos a rounds c w
  if erro ≠ .ok then some ⟨erro, c.status, c.chunked, c.length, out, 0⟩
  else
    let (total, out, c, _) ← lerResposta a rounds out c w
    some ⟨.ok, c.status, c.chunked, c.length, out, total⟩

/-- Whatever the loops ask a clock started at `inicio`, it answers as real time does. -/
structure Julgada (a : Ambiente) (tempo : Nat → Nat) (rounds : Nat) (out : Saida)
    (c : GsmHttpClient) (w : Socket) (inicio : Nat) : Prop where
  cabecalhos : ∀ t ∈ consultasCabecalhos a tempo rounds c w,
    Judged (2 ^ 32) (inicio + tempo w.tick + headerTimeoutMs.toNat) (inicio + tempo t)
  blocos : ∀ c' w', cabecalhosReal a tempo rounds c w = some (.ok, c', w') →
    ∀ t ∈ consultasBlocos a tempo rounds out c' w',
      Judged (2 ^ 32) (inicio + tempo w'.tick + idleTimeoutMs.toNat) (inicio + tempo t)

section Judging

variable {State Result : Type} {round : State → Result ⊕ State} {moment : State → Nat}
  {expired : State → Result}

/-- A loop to a deadline of `ms` from `partida` on is that on real time, where it is judged
right. -/
theorem loop_desde {ms : UInt32} {partida : Nat} {s : State}
    (h : ∀ t ∈ asked round moment (fun t => tempo t < tempo partida + ms.toNat) rounds s,
      Judged (2 ^ 32) (inicio + tempo partida + ms.toNat) (inicio + tempo t)) :
    loop round moment expired (fun t => (a.desde tempo inicio).millis t <
        (a.desde tempo inicio).millis partida + ms) rounds s =
      loop round moment expired (fun t => tempo t < tempo partida + ms.toNat) rounds s := by
  have hreadings : (fun t => decide ((a.desde tempo inicio).millis t <
      (a.desde tempo inicio).millis partida + ms)) = fun t =>
        decide ((inicio + tempo t) % 2 ^ 32 < (inicio + tempo partida + ms.toNat) % 2 ^ 32) :=
    funext fun t => decide_eq_decide.mpr (millis_lt_iff ..)
  have hreal : (fun t => decide (tempo t < tempo partida + ms.toNat)) = fun t =>
      decide (inicio + tempo t < inicio + tempo partida + ms.toNat) := by
    funext t
    rw [decide_eq_decide]
    omega
  rw [hreal] at h ⊢
  rw [hreadings]
  exact loop_judged h

end Judging

/-- Where its clock is judged right, the head is read as on a clock that never wraps. -/
theorem lerCabecalhos_desde {c : GsmHttpClient} {w : Socket}
    (h : ∀ t ∈ consultasCabecalhos a tempo rounds c w,
      Judged (2 ^ 32) (inicio + tempo w.tick + headerTimeoutMs.toNat) (inicio + tempo t)) :
    lerCabecalhos (a.desde tempo inicio) rounds c w = cabecalhosReal a tempo rounds c w := by
  rw [lerCabecalhos_eq, lerLinhas_eq_loop]
  exact loop_desde h

/-- So is the body. -/
theorem lerBlocos_desde {out : Saida} {c : GsmHttpClient} {w : Socket}
    (h : ∀ t ∈ consultasBlocos a tempo rounds out c w,
      Judged (2 ^ 32) (inicio + tempo w.tick + idleTimeoutMs.toNat) (inicio + tempo t)) :
    lerBlocos (a.desde tempo inicio) ((a.desde tempo inicio).millis w.tick + idleTimeoutMs) out 0 c
      w.passo rounds = blocosReal a tempo rounds out c w := by
  rw [lerBlocos_eq_loop, rodadaBlocos_desde]
  exact loop_desde h

/-- Reading a response on a clock that never wraps. -/
def lerReal (a : Ambiente) (tempo : Nat → Nat) (rounds : Nat) (out : Saida) (c : GsmHttpClient)
    (w : Socket) : Option Leitura := do
  let (erro, c, w) ← cabecalhosReal a tempo rounds c w
  if erro ≠ .ok then some ⟨erro, c.status, c.chunked, c.length, out, 0⟩
  else
    let (total, out, c, _) ← blocosReal a tempo rounds out c w
    some ⟨.ok, c.status, c.chunked, c.length,
      out.terminar (if total < out.cap then total else out.cap - 1), total⟩

/-- A response is read as on a clock that never wraps, where the clock is judged right. -/
theorem ler_desde {out : Saida} {c : GsmHttpClient} {w : Socket}
    (h : Julgada a tempo rounds out c w inicio) :
    ler (a.desde tempo inicio) rounds out c w = lerReal a tempo rounds out c w := by
  unfold ler lerReal
  rw [lerCabecalhos_desde h.cabecalhos]
  cases hhead : cabecalhosReal a tempo rounds c w with
  | none => rfl
  | some lida =>
      obtain ⟨erro, c', w'⟩ := lida
      by_cases herro : erro = .ok
      · subst herro
        have hbody := lerBlocos_desde (h.blocos c' w' hhead)
        simp only [Option.bind_eq_bind, Option.bind_some, lerResposta, hbody]
        cases blocosReal a tempo rounds out c' w' <;> rfl
      · simp only [Option.bind_eq_bind, Option.bind_some, ne_eq, herro, not_false_eq_true, if_true]

/-- Two clocks that are judged right give the same result, wherever they start. -/
theorem ler_desde_eq (a : Ambiente) (tempo : Nat → Nat) (rounds : Nat) (out : Saida)
    (c : GsmHttpClient) (w : Socket) (inicio outro : Nat)
    (h : Julgada a tempo rounds out c w inicio) (hother : Julgada a tempo rounds out c w outro) :
    ler (a.desde tempo inicio) rounds out c w = ler (a.desde tempo outro) rounds out c w :=
  (ler_desde h).trans (ler_desde hother).symm

/-- A clock that does not come to the end of its turn is judged right. -/
theorem julgada_of_lt {out : Saida} {c : GsmHttpClient} {w : Socket}
    (h : ∀ t, inicio + tempo t + 30000 < 2 ^ 32) : Julgada a tempo rounds out c w inicio := by
  constructor
  · intro t _
    have hdeadline := h w.tick
    have htime := h t
    refine judged_of_lt ?_ (by omega)
    show inicio + tempo w.tick + 20000 < 2 ^ 32
    omega
  · intro c' w' _ t _
    exact judged_of_lt (h w'.tick) (by have := h t; omega)

/-- A response of two bytes, all of it there. -/
def respostaPronta : Socket := { rest := cabecaCurta.bytes ++ ascii "ok" }

theorem ler_respostaPronta :
    ler (semprePronto.desde (fun _ => 0) 0) 9 ⟨some (List.replicate 8 255), 8⟩ {} respostaPronta =
      ler (semprePronto.desde (fun _ => 0) 4294930000) 9 ⟨some (List.replicate 8 255), 8⟩ {}
        respostaPronta :=
  ler_desde_eq _ _ _ _ _ _ _ _ (julgada_of_lt fun _ => by decide)
    (julgada_of_lt fun _ => by decide)

/-- Within 30 seconds of the end of a turn the body of a response that is all there is not read,
and the result is a success without a body. -/
theorem not_ler_desde_eq :
    ¬∀ (a : Ambiente) (tempo : Nat → Nat) (rounds : Nat) (out : Saida) (c : GsmHttpClient)
      (w : Socket) (inicio outro : Nat), Monotone tempo →
      ler (a.desde tempo inicio) rounds out c w = ler (a.desde tempo outro) rounds out c w := by
  intro h
  have hsame := h semprePronto (fun _ => 0) 9 ⟨some (List.replicate 8 255), 8⟩ {} respostaPronta 0
    4294942296 fun _ _ _ => le_refl 0
  have hread : ler (semprePronto.desde (fun _ => 0) 0) 9 ⟨some (List.replicate 8 255), 8⟩ {}
      respostaPronta = some ⟨.ok, 201, false, 2,
        ⟨some (ascii "ok" ++ 0 :: List.replicate 5 255), 8⟩, 2⟩ := by
    decide +kernel
  have hlost : ler (semprePronto.desde (fun _ => 0) 4294942296) 9
      ⟨some (List.replicate 8 255), 8⟩ {} respostaPronta = some ⟨.ok, 201, false, 2,
        ⟨some (0 :: List.replicate 7 255), 8⟩, 0⟩ := by
    decide +kernel
  rw [hread, hlost] at hsame
  exact absurd hsame (by decide)

end GsmHttpClient

end FirmwareUpdater
