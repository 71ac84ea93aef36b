import FirmwareUpdater.Gprs.ClockIndependence
import FirmwareUpdater.Gprs.DownloadStream

/-!
# How the body of a small response arrives

`Bloco` says what the modem hands over to one block of a reader that knows how the body
is delimited, and `Chega` that the body comes whole that way: before the deadline, and
before the connection closes if it has an end of its own. `lerCorpo` reads such a block
(`lerCorpo_bloco`), so `lerResposta` reads a body that comes whole to its end
(`termina_of_chega`), and no other (`chega_of_blocos`).
-/

namespace FirmwareUpdater

open Library Library.Chunked Library.Deadline ChunkedDecoder

namespace Framing

/-- The body that reading `raw` yields, up to the end of the connection where there is no
framing. -/
def corpo : Option Framing → List UInt8 → List UInt8
  | none, raw => raw
  | some f, raw => f.body raw

/-- The end of the body is in `raw`. -/
def Inteiro : Option Framing → List UInt8 → Prop
  | none, _ => False
  | some f, raw => f.Complete raw

/-- The framing broke in `raw`. -/
def Quebrado : Option Framing → List UInt8 → Prop
  | some .chunked, raw => Reader.start.after sizeLimit raw = .invalid
  | _, _ => False

/-- Behind `lidos` there is nothing to read. -/
def Acabou (f : Option Framing) (lidos : List UInt8) : Prop := Inteiro f lidos ∨ Quebrado f lidos

/-- How many bytes to ask for, with room for so many bytes of body: one of the framing, or what is
left of the chunk or of the body. -/
def pede : Option Framing → List UInt8 → Nat → Nat
  | none, _, room => room
  | some (.contentLength n), lidos, room => min room (n - lidos.length)
  | some .chunked, lidos, room =>
      match Reader.start.after sizeLimit lidos with
      | .data left => min room (left + 1)
      | _ => 1

end Framing

open Framing

/-- What the modem hands over to a block of at most `cap` bytes of body, of which it has `got`:
whether the body is over behind it, what was handed over by then, and the socket. -/
inductive Bloco (a : Ambiente) (f : Option Framing) (cap : Nat) :
    Nat → List UInt8 → Socket → Nat → Bool → List UInt8 → Socket → Prop where
  | cheio {got : Nat} {lidos : List UInt8} {w : Socket} :
      cap ≤ got → Bloco a f cap got lidos w got false lidos w
  | fim {got : Nat} {lidos : List UInt8} {w : Socket} :
      got < cap → Acabou f lidos → Bloco a f cap got lidos w got true lidos w
  | nada {got : Nat} {lidos : List UInt8} {w : Socket} :
      got < cap → ¬Acabou f lidos → a.available w.tick ≤ 0 →
      Bloco a f cap got lidos w got false lidos w.passo
  | vazio {got n : Nat} {lidos : List UInt8} {w : Socket} :
      got < cap → ¬Acabou f lidos → ¬a.available w.tick ≤ 0 →
      n = pede f lidos (min (cap - got) (a.available w.tick).toNat) →
      w.passo.leitura a n = [] →
      Bloco a f cap got lidos w got false lidos (w.passo.depoisDeLer a n)
  | le {got got' n : Nat} {fim : Bool} {lidos lidos' : List UInt8} {w w' : Socket} :
      got < cap → ¬Acabou f lidos → ¬a.available w.tick ≤ 0 →
      n = pede f lidos (min (cap - got) (a.available w.tick).toNat) →
      w.passo.leitura a n ≠ [] →
      Bloco a f cap
        (got + ((corpo f (lidos ++ w.passo.leitura a n)).length - (corpo f lidos).length))
        (lidos ++ w.passo.leitura a n) (w.passo.depoisDeLer a n) got' fim lidos' w' →
      Bloco a f cap got lidos w got' fim lidos' w'

/-- A body comes whole, block after block: its end is handed over before the clock shows `limite`,
or the connection closes if that is its end. `todos` is what was handed over by then. -/
inductive Chega (a : Ambiente) (limite : UInt32) (f : Option Framing) :
    List UInt8 → Socket → List UInt8 → Prop where
  | tarde {lidos : List UInt8} {w : Socket} :
      ¬a.millis w.tick < limite → Inteiro f lidos → Chega a limite f lidos w lidos
  | fim {got : Nat} {lidos todos : List UInt8} {w w' : Socket} :
      a.millis w.tick < limite → Bloco a f 128 0 lidos w.passo got true todos w' →
      Inteiro f todos → Chega a limite f lidos w todos
  | mais {got : Nat} {lidos lidos' todos : List UInt8} {w w' : Socket} :
      a.millis w.tick < limite → Bloco a f 128 0 lidos w.passo got false lidos' w' → got ≠ 0 →
      Chega a limite f lidos' w' todos → Chega a limite f lidos w todos
  | espera {lidos lidos' todos : List UInt8} {w w' : Socket} :
      a.millis w.tick < limite → Bloco a f 128 0 lidos w.passo 0 false lidos' w' →
      a.connected w'.tick = true → Chega a limite f lidos' w'.passo todos →
      Chega a limite f lidos w todos
  | resta {lidos lidos' todos : List UInt8} {w w' : Socket} :
      a.millis w.tick < limite → Bloco a f 128 0 lidos w.passo 0 false lidos' w' →
      ¬a.connected w'.tick = true → ¬a.available (w'.tick + 1) = 0 →
      Chega a limite f lidos' w'.passo.passo todos → Chega a limite f lidos w todos
  | fecha {todos lidos : List UInt8} {w w' : Socket} :
      a.millis w.tick < limite → Bloco a f 128 0 lidos w.passo 0 false todos w' →
      ¬a.connected w'.tick = true → a.available (w'.tick + 1) = 0 → f = none →
      Chega a limite f lidos w todos

/-- A body of known length that is there at once comes whole. -/
theorem chega_de_uma_vez {a : Ambiente} {limite : UInt32} {w : Socket}
    (hclock : a.millis w.tick < limite) (hsome : w.rest ≠ []) (hroom : w.rest.length < 128)
    (hthere : (w.rest.length : Int) ≤ a.available (w.tick + 1))
    (hgiven : w.rest.length ≤ a.entrega (w.tick + 2)) :
    Chega a limite (some (.contentLength w.rest.length)) [] w w.rest := by
  have hpos : 0 < w.rest.length := List.length_pos_of_ne_nil hsome
  have hmore : ¬Acabou (some (.contentLength w.rest.length)) [] := by
    simp [Acabou, Inteiro, Quebrado, Framing.Complete, hsome]
  have hwhole : Inteiro (some (.contentLength w.rest.length)) w.rest := Nat.le_refl _
  have hfilled : ¬a.available w.passo.tick ≤ 0 := by
    show ¬a.available (w.tick + 1) ≤ 0
    omega
  have hasked : pede (some (.contentLength w.rest.length)) []
      (min (128 - 0) (a.available w.passo.tick).toNat) = w.rest.length := by
    show min (min (128 - 0) (a.available (w.tick + 1)).toNat) (w.rest.length - 0) = _
    omega
  have hread : w.passo.passo.leitura a w.rest.length = w.rest :=
    List.take_of_length_le (Nat.le_min.mpr ⟨Nat.le_refl _, hgiven⟩)
  have hend : ∀ {got : Nat} {lidos : List UInt8} {w' : Socket}, lidos = w.rest → got < 128 →
      Bloco a (some (.contentLength w.rest.length)) 128 got lidos w' got true w.rest w' := by
    rintro got lidos w' rfl hgot
    exact .fim hgot (.inl hwhole)
  refine .fim hclock (.le (by decide) hmore hfilled hasked.symm (by rwa [hread])
    (hend hread ?_)) hwhole
  rw [hread]
  simpa [corpo, Framing.body] using hroom

/-- What a block hands over is the same however it is derived. -/
theorem Bloco.unique {a : Ambiente} {f : Option Framing} {cap got got₁ got₂ : Nat}
    {fim₁ fim₂ : Bool} {lidos lidos₁ lidos₂ : List UInt8} {w w₁ w₂ : Socket}
    (h₁ : Bloco a f cap got lidos w got₁ fim₁ lidos₁ w₁)
    (h₂ : Bloco a f cap got lidos w got₂ fim₂ lidos₂ w₂) :
    got₁ = got₂ ∧ fim₁ = fim₂ ∧ lidos₁ = lidos₂ ∧ w₁ = w₂ := by
  induction h₁ with
  | cheio hfull =>
      cases h₂ with
      | cheio => exact ⟨rfl, rfl, rfl, rfl⟩
      | fim hroom => omega
      | nada hroom => omega
      | vazio hroom => omega
      | le hroom => omega
  | fim hroom hend =>
      cases h₂ with
      | cheio hfull => omega
      | fim => exact ⟨rfl, rfl, rfl, rfl⟩
      | nada _ hmore => exact absurd hend hmore
      | vazio _ hmore => exact absurd hend hmore
      | le _ hmore => exact absurd hend hmore
  | nada hroom hmore hnothing =>
      cases h₂ with
      | cheio hfull => omega
      | fim _ hend => exact absurd hend hmore
      | nada => exact ⟨rfl, rfl, rfl, rfl⟩
      | vazio _ _ hsome => exact absurd hnothing hsome
      | le _ _ hsome => exact absurd hnothing hsome
  | vazio hroom hmore hsome hn hempty =>
      subst hn
      cases h₂ with
      | cheio hfull => omega
      | fim _ hend => exact absurd hend hmore
      | nada _ _ hnothing => exact absurd hnothing hsome
      | vazio _ _ _ hn =>
          subst hn
          exact ⟨rfl, rfl, rfl, rfl⟩
      | le _ _ _ hn hread =>
          subst hn
          exact absurd hempty hread
  | le hroom hmore hsome hn hread _ ih =>
      subst hn
      cases h₂ with
      | cheio hfull => omega
      | fim _ hend => exact absurd hend hmore
      | nada _ _ hnothing => exact absurd hnothing hsome
      | vazio _ _ _ hn hempty =>
          subst hn
          exact absurd hempty hread
      | le _ _ _ hn _ hrest =>
          subst hn
          exact ih hrest

namespace GsmHttpClient

/-- The client stands behind `lidos` in a body that is delimited so. -/
inductive Situado (c : GsmHttpClient) : Option Framing → List UInt8 → Prop where
  | livre {lidos : List UInt8} : c.chunked = false → c.length = 0 → Situado c none lidos
  | delimitado {f : Framing} {lidos : List UInt8} : c.Segue f lidos → Situado c (some f) lidos

variable {c : GsmHttpClient} {f : Option Framing} {lidos : List UInt8}

/-- The body is over exactly where the client says so. -/
theorem corpoLido_iff (h : c.Situado f lidos) : c.corpoLido = true ↔ Acabou f lidos := by
  cases h with
  | livre hplain hlength => simp [corpoLido, hplain, hlength, Acabou, Inteiro, Quebrado]
  | delimitado h =>
      cases h with
      | chunked hchunked _ hreader =>
          rw [corpoLido, hchunked, if_pos rfl, Bool.or_eq_true, done_iff, invalid_iff, hreader]
          exact Iff.rfl
      | contentLength hplain hlength hrecebido =>
          have hcount : c.recebido ≥ c.length ↔ c.length.toNat ≤ lidos.length := by
            rw [ge_iff_le, UInt32.le_iff_toNat_le, hrecebido]
          simp [corpoLido, hplain, hlength, Acabou, Inteiro, Quebrado, Framing.Complete, hcount]

/-- Outside a chunk's payload one byte is asked for. -/
theorem pede_framing (h : c.Situado f lidos) (hframing : (c.chunked && !c.chunks.inData) = true)
    (room : Nat) : pede f lidos room = 1 := by
  obtain ⟨hchunked, hdata⟩ : c.chunked = true ∧ c.chunks.inData = false := by
    simpa using hframing
  cases h with
  | livre hplain =>
      rw [hplain] at hchunked
      cases hchunked
  | delimitado h =>
      cases h with
      | contentLength hplain =>
          rw [hplain] at hchunked
          cases hchunked
      | chunked _ _ hreader =>
          simp only [pede, ← hreader]
          cases hphase : c.chunks.phase <;> simp [reader, hphase]
          simp [inData, hphase] at hdata

/-- In the body as many are asked for as the client asks for. -/
theorem pede_body (h : c.Situado f lidos) (hframing : ¬(c.chunked && !c.chunks.inData) = true)
    (room disponivel : Nat) : pede f lidos (min room disponivel) = c.aPedir room disponivel := by
  cases h with
  | livre hplain hlength => simp [pede, aPedir, hplain, hlength]
  | delimitado h =>
      cases h with
      | contentLength hplain hlength hrecebido hbound =>
          have hle : c.recebido ≤ c.length := UInt32.le_iff_toNat_le.mpr (hrecebido ▸ hbound)
          simp only [pede, aPedir, hplain, Bool.false_eq_true, if_false, gt_iff_lt, hlength,
            if_true, UInt32.toNat_sub_of_le _ _ hle, hrecebido]
      | chunked hchunked hwf hreader =>
          have hdata : c.chunks.inData = true := by simpa [hchunked] using hframing
          have hpos := hwf.data_pos (by simpa [inData] using hdata)
          simp only [pede, ← hreader, reader_of_inData hdata, aPedir, hchunked, if_true]
          congr 1
          omega

/-- A byte of the framing was fed. -/
theorem situado_feed (h : c.Situado f lidos) (hframing : (c.chunked && !c.chunks.inData) = true)
    (byte : UInt8) :
    Situado { c with chunks := c.chunks.feed byte } f (lidos ++ [byte]) ∧
      corpo f (lidos ++ [byte]) = corpo f lidos := by
  obtain ⟨hchunked, hdata⟩ : c.chunked = true ∧ c.chunks.inData = false := by
    simpa using hframing
  cases h with
  | livre hplain =>
      rw [hplain] at hchunked
      cases hchunked
  | delimitado h =>
      obtain ⟨hsegue, hbody⟩ := segue_feed h hchunked hdata byte
      exact ⟨.delimitado hsegue, hbody⟩

/-- A block of the body was received. -/
theorem situado_receber (h : c.Situado f lidos)
    (hframing : ¬(c.chunked && !c.chunks.inData) = true) (hfim : c.corpoLido = false)
    {block : List UInt8} (hblock : block ≠ []) {room disponivel : Nat}
    (hle : block.length ≤ c.aPedir room disponivel) :
    Situado (c.receber block.length) f (lidos ++ block) ∧
      corpo f (lidos ++ block) = corpo f lidos ++ block := by
  have hdata : c.chunked = true → c.chunks.inData = true := by simpa using hframing
  cases h with
  | livre hplain hlength => exact ⟨.livre hplain hlength, rfl⟩
  | delimitado h =>
      obtain ⟨hsegue, hbody⟩ := segue_receber h hdata hfim hblock hle
      exact ⟨.delimitado hsegue, hbody⟩

/-- `lerCorpo` reads a block as the modem hands it over. -/
theorem lerCorpo_bloco (a : Ambiente) (cap : Nat) (got : List UInt8) (w : Socket)
    (h : c.Situado f lidos) {got' : List UInt8} {fim : Bool} {c' : GsmHttpClient} {w' : Socket}
    (hcall : lerCorpo a cap got c w = (got', fim, c', w')) :
    ∃ novos entregue, got' = got ++ entregue ∧ novos ++ w'.rest = w.rest ∧
      corpo f (lidos ++ novos) = corpo f lidos ++ entregue ∧ c'.Situado f (lidos ++ novos) ∧
      c'.status = c.status ∧ (fim = true → c'.corpoLido = true) ∧
      Bloco a f cap got.length lidos w got'.length fim (lidos ++ novos) w' := by
  -- Iteration by iteration, as in the block: `lidos` grows by what each of them read.
  fun_induction lerCorpo a cap got c w generalizing lidos with
  | case1 got c w hroom hover =>
      cases hcall
      refine ⟨[], [], (List.append_nil _).symm, rfl, by simp, by rwa [List.append_nil], rfl,
        fun _ => hover, ?_⟩
      rw [List.append_nil]
      exact .fim hroom ((corpoLido_iff h).mp hover)
  | case2 got c w hroom hover disponivel asked =>
      rename_i hnothing
      simp only [Prod.mk.injEq] at hcall
      obtain ⟨rfl, rfl, rfl, rfl⟩ := hcall
      refine ⟨[], [], (List.append_nil _).symm, rfl, by simp, by rwa [List.append_nil], rfl,
        fun hfim => absurd hfim Bool.false_ne_true, ?_⟩
      rw [List.append_nil]
      exact .nada hroom (fun hend => hover ((corpoLido_iff h).mpr hend)) hnothing
  | case3 got c w hroom hover disponivel asked hsome hframing =>
      rename_i hread
      cases hcall
      have hrest := asked.leitura_append_rest a 1
      rw [hread] at hrest
      refine ⟨[], [], (List.append_nil _).symm, hrest, by simp, by rwa [List.append_nil], rfl,
        fun hfim => absurd hfim Bool.false_ne_true, ?_⟩
      rw [List.append_nil]
      exact .vazio hroom (fun hend => hover ((corpoLido_iff h).mpr hend)) hsome
        (pede_framing h hframing _).symm hread
  | case4 got c w hroom hover disponivel asked hsome hframing byte tail hread =>
      rename_i ih
      have hone : asked.leitura a 1 = [byte] := by
        have hlength : (asked.leitura a 1).length ≤ 1 := by
          simp only [Socket.leitura, List.length_take]
          omega
        rw [hread, List.length_cons] at hlength
        rw [hread, List.eq_nil_of_length_eq_zero (by omega : tail.length = 0)]
      have hrest := asked.leitura_append_rest a 1
      rw [hone] at hrest
      obtain ⟨hnext, hbody⟩ := situado_feed h hframing byte
      obtain ⟨novos, entregue, hgot, hnovos, hmore, hsituado, hstatus, hfim, hbloco⟩ :=
        ih hnext hcall
      rw [List.append_assoc] at hmore hsituado hbloco
      refine ⟨[byte] ++ novos, entregue, hgot, ?_, hmore.trans (by rw [hbody]), hsituado, hstatus,
        hfim, ?_⟩
      · rw [List.append_assoc, hnovos]
        exact hrest
      · refine .le hroom (fun hend => hover ((corpoLido_iff h).mpr hend)) hsome
          (pede_framing h hframing _).symm (by rw [hone]; simp) ?_
        rw [hone, hbody, Nat.sub_self, Nat.add_zero]
        exact hbloco
  | case5 got c w hroom hover disponivel asked hsome hframing pedir =>
      rename_i hread
      cases hcall
      have hrest := asked.leitura_append_rest a pedir
      rw [hread] at hrest
      refine ⟨[], [], (List.append_nil _).symm, hrest, by simp, by rwa [List.append_nil], rfl,
        fun hfim => absurd hfim Bool.false_ne_true, ?_⟩
      rw [List.append_nil]
      exact .vazio hroom (fun hend => hover ((corpoLido_iff h).mpr hend)) hsome
        (pede_body h hframing _ _).symm hread
  | case6 got c w hroom hover disponivel asked hsome hframing pedir hread =>
      rename_i ih
      have hle : (asked.leitura a pedir).length ≤
          c.aPedir (cap - got.length) disponivel.toNat := by
        simp only [Socket.leitura, List.length_take]
        omega
      obtain ⟨hnext, hbody⟩ :=
        situado_receber h hframing (Bool.not_eq_true _ ▸ hover) hread hle
      obtain ⟨novos, entregue, hgot, hnovos, hmore, hsituado, hstatus, hfim, hbloco⟩ :=
        ih hnext hcall
      rw [List.append_assoc] at hmore hsituado hbloco
      refine ⟨asked.leitura a pedir ++ novos, asked.leitura a pedir ++ entregue, ?_, ?_, ?_,
        hsituado, hstatus, hfim, ?_⟩
      · rw [hgot, List.append_assoc]
      · rw [List.append_assoc, hnovos]
        exact asked.leitura_append_rest a pedir
      · rw [hmore, hbody, List.append_assoc]
      · refine .le hroom (fun hend => hover ((corpoLido_iff h).mpr hend)) hsome
          (pede_body h hframing _ _).symm hread ?_
        rw [hbody, List.length_append, Nat.add_sub_cancel_left]
        rw [List.length_append] at hbloco
        exact hbloco
  | case7 got c w hfull =>
      cases hcall
      refine ⟨[], [], (List.append_nil _).symm, rfl, by simp, by rwa [List.append_nil], rfl,
        fun hfim => absurd hfim Bool.false_ne_true, ?_⟩
      rw [List.append_nil]
      exact .cheio (Nat.le_of_not_lt hfull)

/-! ## Block after block -/

/-- A block with room left ends before the body does, unless it says so. -/
theorem not_acabou {a : Ambiente} {cap got got' : Nat} {fim : Bool} {lidos' : List UInt8}
    {w w' : Socket} (h : Bloco a f cap got lidos w got' fim lidos' w') (hfim : fim = false)
    (hroom : got' < cap) : ¬Acabou f lidos' := by
  induction h with
  | cheio hfull => omega
  | fim => cases hfim
  | nada _ hmore => exact hmore
  | vazio _ hmore => exact hmore
  | le _ _ _ _ _ _ ih => exact ih hfim hroom

/-- The output behind a block of which it takes what fits. -/
def anexar (out : Saida) (total : Nat) (bloco : List UInt8) : Saida :=
  if total + 1 < out.cap then out.copiar total (bloco.take (out.cap - 1 - total)) else out

section Rounds

variable {a : Ambiente} {limite : UInt32} {total rounds : Nat} {out : Saida} {c' : GsmHttpClient}
  {w w' : Socket} {bloco : List UInt8}

/-- The block ends the body. -/
theorem rodada_fim (hcorpo : lerCorpo a 128 [] c w.passo = (bloco, true, c', w')) :
    rodadaBlocos a (total, out, c, w) =
      .inl (total + bloco.length, anexar out total bloco, c', w') := by
  simp only [rodadaBlocos, hcorpo, if_true, anexar]

/-- There is more to come behind a block. -/
theorem rodada_mais (hcorpo : lerCorpo a 128 [] c w.passo = (bloco, false, c', w'))
    (hbloco : bloco ≠ []) :
    rodadaBlocos a (total, out, c, w) =
      .inr (total + bloco.length, anexar out total bloco, c', w') := by
  simp only [rodadaBlocos, hcorpo, Bool.false_eq_true, if_false, if_pos hbloco, anexar]

/-- Nothing came, and the connection is there. -/
theorem rodada_espera (hcorpo : lerCorpo a 128 [] c w.passo = ([], false, c', w'))
    (hlink : a.connected w'.tick = true) :
    rodadaBlocos a (total, out, c, w) = .inr (total, anexar out total [], c', w'.passo) := by
  simp only [rodadaBlocos, hcorpo, Bool.false_eq_true, if_false, ne_eq, not_true_eq_false, hlink,
    if_true, List.length_nil, Nat.add_zero, anexar]

/-- Nothing came, and there is something left behind a connection that closed. -/
theorem rodada_resta (hcorpo : lerCorpo a 128 [] c w.passo = ([], false, c', w'))
    (hlink : ¬a.connected w'.tick = true) (hleft : ¬a.available (w'.tick + 1) = 0) :
    rodadaBlocos a (total, out, c, w) = .inr (total, anexar out total [], c', w'.passo.passo) := by
  have hasked : ¬a.available w'.passo.tick = 0 := hleft
  simp only [rodadaBlocos, hcorpo, Bool.false_eq_true, if_false, ne_eq, not_true_eq_false, hlink,
    hasked, List.length_nil, Nat.add_zero, anexar]

/-- Nothing came, and the connection closed. -/
theorem rodada_fecha (hcorpo : lerCorpo a 128 [] c w.passo = ([], false, c', w'))
    (hlink : ¬a.connected w'.tick = true) (hleft : a.available (w'.tick + 1) = 0) :
    rodadaBlocos a (total, out, c, w) = .inl (total, anexar out total [], c', w'.passo.passo) := by
  have hasked : a.available w'.passo.tick = 0 := hleft
  simp only [rodadaBlocos, hcorpo, Bool.false_eq_true, if_false, ne_eq, not_true_eq_false, hlink,
    hasked, if_true, List.length_nil, Nat.add_zero, anexar]

end Rounds

/-- Where the loop of `lerResposta` stands: the total, the output, the client and the socket. -/
abbrev Laco := Nat × Saida × GsmHttpClient × Socket

/-- The loop, from there. -/
def blocos (a : Ambiente) (limite : UInt32) (rounds : Nat) (s : Laco) : Option Laco :=
  loop (rodadaBlocos a) (·.2.2.2.tick) expirarBlocos (fun t => a.millis t < limite) rounds s

/-- The round in which it ends. -/
def ultima (a : Ambiente) (limite : UInt32) (rounds : Nat) (s : Laco) : Option Laco :=
  stop (rodadaBlocos a) (·.2.2.2.tick) (fun t => a.millis t < limite) rounds s

/-- That round finds the connection closed with nothing left. -/
def Fechou (a : Ambiente) (limite : UInt32) : Laco → Prop
  | (_, _, c, w) => a.millis w.tick < limite ∧ ∃ c' w',
      lerCorpo a 128 [] c w.passo = ([], false, c', w') ∧ ¬a.connected w'.tick = true ∧
        a.available (w'.tick + 1) = 0

/-- The loop ends in the round `s` and returns `t`, with the whole body behind it. -/
def Inteira (a : Ambiente) (limite : UInt32) (f : Option Framing) (todos : List UInt8)
    (s t : Laco) : Prop :=
  t.2.2.1.Situado f todos ∧ (Inteiro f todos ∨ f = none ∧ Fechou a limite s)

section Ends

variable {a : Ambiente} {limite : UInt32} {raw todos : List UInt8} {s next t : Laco}

/-- Whatever bound on its rounds is large enough, the loop ends with the whole body behind it. -/
def Termina (a : Ambiente) (limite : UInt32) (f : Option Framing) (raw todos : List UInt8)
    (s : Laco) : Prop :=
  ∃ least, ∀ rounds, least ≤ rounds → ∃ last t, blocos a limite rounds s = some t ∧
    ultima a limite rounds s = some last ∧ todos ++ t.2.2.2.rest = raw ∧
    Inteira a limite f todos last t

theorem blocos_next (rounds : Nat) (hclock : a.millis s.2.2.2.tick < limite)
    (hround : rodadaBlocos a s = .inr next) :
    blocos a limite (rounds + 1) s = blocos a limite rounds next ∧
      ultima a limite (rounds + 1) s = ultima a limite rounds next :=
  loop_next (by simpa using hclock) hround

theorem blocos_result {rounds : Nat} (hclock : a.millis s.2.2.2.tick < limite)
    (hround : rodadaBlocos a s = .inl t) :
    blocos a limite (rounds + 1) s = some t ∧ ultima a limite (rounds + 1) s = some s :=
  loop_result (by simpa using hclock) hround

theorem blocos_expirado {rounds : Nat} (hclock : ¬a.millis s.2.2.2.tick < limite) :
    blocos a limite (rounds + 1) s = some (expirarBlocos s) ∧
      ultima a limite (rounds + 1) s = some s :=
  loop_expired (by simpa using hclock)

/-- A round before the deadline that goes on. -/
theorem termina_next (hclock : a.millis s.2.2.2.tick < limite)
    (hround : rodadaBlocos a s = .inr next) (h : Termina a limite f raw todos next) :
    Termina a limite f raw todos s := by
  refine exists_least_add 1 (fun rounds hlast => ?_) h
  obtain ⟨hloop, hstop⟩ := blocos_next rounds hclock hround
  rw [hloop, hstop]
  exact hlast

/-- A round before the deadline that ends the body. -/
theorem termina_result (hclock : a.millis s.2.2.2.tick < limite)
    (hround : rodadaBlocos a s = .inl t) (hrest : todos ++ t.2.2.2.rest = raw)
    (hwhole : Inteira a limite f todos s t) : Termina a limite f raw todos s := by
  refine ⟨1, fun rounds hle => ?_⟩
  obtain ⟨more, rfl⟩ := Nat.exists_eq_add_of_le' hle
  obtain ⟨hloop, hstop⟩ := blocos_result hclock hround
  exact ⟨s, t, hloop, hstop, hrest, hwhole⟩

/-- A round at the deadline, with the whole body there. -/
theorem termina_expirada (hclock : ¬a.millis s.2.2.2.tick < limite)
    (hrest : todos ++ s.2.2.2.rest = raw)
    (hwhole : Inteira a limite f todos s s) : Termina a limite f raw todos s := by
  refine ⟨1, fun rounds hle => ?_⟩
  obtain ⟨more, rfl⟩ := Nat.exists_eq_add_of_le' hle
  obtain ⟨hloop, hstop⟩ := blocos_expirado hclock
  exact ⟨s, _, hloop, hstop, hrest, hwhole⟩

end Ends

/-- A block of `lerCorpo` that goes with what the modem hands over to it. -/
theorem lerCorpo_of_bloco {a : Ambiente} {w w' : Socket} {got : Nat} {fim : Bool}
    {lidos' : List UInt8} (h : Bloco a f 128 0 lidos w got fim lidos' w')
    (hc : c.Situado f lidos) :
    ∃ bloco c', lerCorpo a 128 [] c w = (bloco, fim, c', w') ∧ bloco.length = got ∧
      c'.Situado f lidos' ∧ lidos' ++ w'.rest = lidos ++ w.rest := by
  cases hcall : lerCorpo a 128 [] c w with
  | mk bloco more =>
      obtain ⟨fim', c', w''⟩ := more
      obtain ⟨novos, entregue, -, hnovos, -, hsituado, -, -, hread⟩ :=
        lerCorpo_bloco a 128 [] w hc hcall
      obtain ⟨rfl, rfl, rfl, rfl⟩ := h.unique hread
      exact ⟨bloco, c', rfl, rfl, hsituado, by rw [List.append_assoc, hnovos]⟩

/-- A body that comes whole is read to its end. -/
theorem termina_of_chega {a : Ambiente} {limite : UInt32} {w : Socket} {todos : List UInt8}
    (h : Chega a limite f lidos w todos) (hc : c.Situado f lidos) (total : Nat) (out : Saida) :
    Termina a limite f (lidos ++ w.rest) todos (total, out, c, w) := by
  induction h generalizing c total out with
  | tarde hlate hwhole => exact termina_expirada hlate rfl ⟨hc, .inl hwhole⟩
  | fim hclock hbloco hwhole =>
      obtain ⟨bloco, c', hcorpo, -, hnext, hrest⟩ := lerCorpo_of_bloco hbloco hc
      exact termina_result hclock (rodada_fim hcorpo) hrest ⟨hnext, .inl hwhole⟩
  | mais hclock hbloco hgot _ ih =>
      obtain ⟨bloco, c', hcorpo, hlength, hnext, hrest⟩ := lerCorpo_of_bloco hbloco hc
      have hne : bloco ≠ [] := by
        rintro rfl
        exact hgot hlength.symm
      have hmore := ih hnext (total + bloco.length) (anexar out total bloco)
      rw [hrest] at hmore
      exact termina_next hclock (rodada_mais hcorpo hne) hmore
  | espera hclock hbloco hlink _ ih =>
      obtain ⟨bloco, c', hcorpo, hlength, hnext, hrest⟩ := lerCorpo_of_bloco hbloco hc
      obtain rfl := List.eq_nil_of_length_eq_zero hlength
      have hmore := ih hnext total (anexar out total [])
      simp only [Socket.passo, hrest] at hmore
      exact termina_next hclock (rodada_espera hcorpo hlink) hmore
  | resta hclock hbloco hlink hleft _ ih =>
      obtain ⟨bloco, c', hcorpo, hlength, hnext, hrest⟩ := lerCorpo_of_bloco hbloco hc
      obtain rfl := List.eq_nil_of_length_eq_zero hlength
      have hmore := ih hnext total (anexar out total [])
      simp only [Socket.passo, hrest] at hmore
      exact termina_next hclock (rodada_resta hcorpo hlink hleft) hmore
  | fecha hclock hbloco hlink hleft hframing =>
      obtain ⟨bloco, c', hcorpo, hlength, hnext, hrest⟩ := lerCorpo_of_bloco hbloco hc
      obtain rfl := List.eq_nil_of_length_eq_zero hlength
      refine termina_result hclock (rodada_fecha hcorpo hlink hleft) hrest ⟨hnext, .inr ?_⟩
      exact ⟨hframing, hclock, c', _, hcorpo, hlink, hleft⟩

/-- A run of the loop that ends with the whole body behind it was one of a body that comes
whole. -/
theorem chega_of_blocos {a : Ambiente} {limite : UInt32} {rounds total : Nat} {out : Saida}
    {w : Socket} {t : Laco} (hc : c.Situado f lidos)
    (hrun : blocos a limite rounds (total, out, c, w) = some t) :
    ∃ last todos, ultima a limite rounds (total, out, c, w) = some last ∧
      todos ++ t.2.2.2.rest = lidos ++ w.rest ∧ t.2.2.1.Situado f todos ∧
      (Inteiro f todos ∨ f = none ∧ Fechou a limite last → Chega a limite f lidos w todos) := by
  induction rounds generalizing total out c w lidos with
  | zero => cases hrun
  | succ rounds ih =>
      by_cases hclock : a.millis w.tick < limite
      · cases hcorpo : lerCorpo a 128 [] c w.passo with
        | mk bloco more =>
            obtain ⟨fim, c', w'⟩ := more
            obtain ⟨novos, entregue, -, hnovos, -, hnext, -, -, hbloco⟩ :=
              lerCorpo_bloco a 128 [] w.passo hc hcorpo
            have hrest : (lidos ++ novos) ++ w'.rest = lidos ++ w.rest := by
              rw [List.append_assoc, hnovos]
              rfl
            cases fim with
            | true =>
                obtain ⟨hloop, hstop⟩ := blocos_result hclock (rodada_fim hcorpo)
                cases hloop.symm.trans hrun
                refine ⟨_, _, hstop, hrest, hnext, ?_⟩
                rintro (hwhole | ⟨-, -, c'', w'', hother, -⟩)
                · exact .fim hclock hbloco hwhole
                · cases hcorpo.symm.trans hother
            | false =>
                by_cases hempty : bloco = []
                · subst hempty
                  by_cases hlink : a.connected w'.tick = true
                  · obtain ⟨hloop, hstop⟩ := blocos_next rounds hclock (rodada_espera hcorpo hlink)
                    rw [hloop] at hrun
                    obtain ⟨last, todos, hlast, htodos, hend, hchega⟩ := ih hnext hrun
                    refine ⟨last, todos, hstop.trans hlast, htodos.trans hrest, hend, ?_⟩
                    intro hwhole
                    exact .espera hclock hbloco hlink (hchega hwhole)
                  by_cases hleft : a.available (w'.tick + 1) = 0
                  · obtain ⟨hloop, hstop⟩ := blocos_result hclock (rodada_fecha hcorpo hlink hleft)
                    cases hloop.symm.trans hrun
                    refine ⟨_, _, hstop, hrest, hnext, ?_⟩
                    rintro (hwhole | ⟨hframing, -⟩)
                    · exact absurd (.inl hwhole) (not_acabou hbloco rfl (by decide))
                    · exact .fecha hclock hbloco hlink hleft hframing
                  · obtain ⟨hloop, hstop⟩ :=
                      blocos_next rounds hclock (rodada_resta hcorpo hlink hleft)
                    rw [hloop] at hrun
                    obtain ⟨last, todos, hlast, htodos, hend, hchega⟩ := ih hnext hrun
                    refine ⟨last, todos, hstop.trans hlast, htodos.trans hrest, hend, ?_⟩
                    intro hwhole
                    exact .resta hclock hbloco hlink hleft (hchega hwhole)
                · obtain ⟨hloop, hstop⟩ := blocos_next rounds hclock (rodada_mais hcorpo hempty)
                  rw [hloop] at hrun
                  obtain ⟨last, todos, hlast, htodos, hend, hchega⟩ := ih hnext hrun
                  refine ⟨last, todos, hstop.trans hlast, htodos.trans hrest, hend, ?_⟩
                  intro hwhole
                  refine .mais hclock hbloco ?_ (hchega hwhole)
                  simpa using hempty
      · obtain ⟨hloop, hstop⟩ := blocos_expirado (s := (total, out, c, w)) hclock
        cases hloop.symm.trans hrun
        refine ⟨_, lidos, hstop, rfl, hc, ?_⟩
        rintro (hwhole | ⟨-, hopen, -⟩)
        · exact .tarde hclock hwhole
        · exact absurd hopen hclock

/-- A run of the loop ends with the whole body behind it exactly where the body comes whole. -/
theorem inteira_iff {a : Ambiente} {limite : UInt32} {rounds total : Nat} {out : Saida}
    {w : Socket} {t : Laco} (hc : c.Situado f lidos)
    (hrun : blocos a limite rounds (total, out, c, w) = some t) :
    ∃ last todos, ultima a limite rounds (total, out, c, w) = some last ∧
      t.2.2.1.Situado f todos ∧
      (Inteiro f todos ∨ f = none ∧ Fechou a limite last ↔
        ∃ todos, Chega a limite f lidos w todos) := by
  obtain ⟨last, todos, hlast, htodos, hend, hchega⟩ := chega_of_blocos hc hrun
  refine ⟨last, todos, hlast, hend, fun hwhole => ⟨todos, hchega hwhole⟩, ?_⟩
  rintro ⟨all, hcomes⟩
  obtain ⟨least, hleast⟩ := termina_of_chega hcomes hc total out
  obtain ⟨hmore, hmoreLast⟩ := loop_mono hrun least
  obtain ⟨other, u, hother, hotherLast, hall, -, hwhole⟩ := hleast _ (Nat.le_add_left _ rounds)
  have heq : t = u := Option.some.inj (hmore.symm.trans hother)
  have hlastEq : last = other :=
    Option.some.inj ((hmoreLast.trans hlast).symm.trans hotherLast)
  have htodosEq : todos = all :=
    List.append_cancel_right (htodos.trans (heq ▸ hall).symm)
  rw [htodosEq, hlastEq]
  exact hwhole

end GsmHttpClient

end FirmwareUpdater
