import FirmwareUpdater.Gprs.HeadReading

/-!
# The fields read of a response head

`camposLidos` are the reads that `lerCabecalhos` uses as header lines. A head that is
read well leaves the client with what these say and nothing else
(`lerCabecalhos_ok`), whatever the server sent.
-/

namespace FirmwareUpdater

namespace GsmHttpClient

variable {a : Ambiente} {rounds : Nat} {c c' : GsmHttpClient} {w w' : Socket}

/-- The reads that `lerLinhas` uses as header lines. -/
def camposLidos (a : Ambiente) (limite : UInt32) (primeira : Bool) (w : Socket) :
    Nat → List (List UInt8)
  | 0 => []
  | rounds + 1 =>
      let agora := a.millis w.tick
      let w := w.passo
      if ¬agora < limite then []
      else
        let connected := a.connected w.tick
        let w := w.passo
        let vazio := !connected && a.available w.tick = 0
        let w := if connected then w else w.passo
        if vazio then []
        else
          let disponivel := a.available w.tick
          let w := w.passo
          if disponivel = 0 then camposLidos a limite primeira w rounds
          else
            let (bytes, w) := w.readBytesUntil a 159
            if primeira then camposLidos a limite false w rounds
            else if (linhaLida bytes).length = 0 then []
            else bytes :: camposLidos a limite primeira w rounds

/-- The loop ends well from here on, with `final`, and uses these reads as header lines. Each
iteration asks the modem, which reads nothing, and then waits, takes the status line, stops at a
line that looks empty or takes a header line. -/
inductive Campos (a : Ambiente) (final : GsmHttpClient) :
    Bool → GsmHttpClient → Socket → List (List UInt8) → Prop where
  | espera {primeira : Bool} {c : GsmHttpClient} {w : Socket} {lidos : List (List UInt8)}
      (asked : Socket) : asked.rest = w.rest → Campos a final primeira c asked lidos →
      Campos a final primeira c w lidos
  | status {c : GsmHttpClient} {w : Socket} {lidos : List (List UInt8)} (asked : Socket)
      (status : Int) : asked.rest = w.rest →
      Campos a final false { c with status } (asked.readBytesUntil a 159).2 lidos →
      Campos a final true c w lidos
  | vazia {w : Socket} (asked : Socket) : asked.rest = w.rest →
      (linhaLida (asked.readBytesUntil a 159).1).length = 0 → Campos a final false final w []
  | campo {c : GsmHttpClient} {w : Socket} {lidos : List (List UInt8)} (asked : Socket) :
      asked.rest = w.rest → (linhaLida (asked.readBytesUntil a 159).1).length ≠ 0 →
      Campos a final false (c.cabecalho (linhaLida (asked.readBytesUntil a 159).1))
        (asked.readBytesUntil a 159).2 lidos →
      Campos a final false c w ((asked.readBytesUntil a 159).1 :: lidos)

/-- A loop that ends well does so, and uses the reads of `camposLidos`. -/
theorem lerLinhas_campos {limite : UInt32} {primeira : Bool}
    (h : lerLinhas a limite primeira c w rounds = some (.ok, c', w')) :
    Campos a c' primeira c w (camposLidos a limite primeira w rounds) := by
  induction rounds generalizing primeira c w with
  | zero => cases h
  | succ rounds ih =>
      simp only [lerLinhas] at h
      simp only [camposLidos]
      split at h
      · cases h
      next hclock =>
      rw [if_neg hclock]
      split at h
      · cases h
      next hclosed =>
      rw [if_neg hclosed]
      have hrest : (if a.connected w.passo.tick = true then w.passo.passo
          else w.passo.passo.passo).rest = w.rest := by
        split <;> rfl
      generalize (if a.connected _ = true then _ else _ : Socket) = asked at h hrest ⊢
      split at h
      · next hnothing =>
          rw [if_pos hnothing]
          exact .espera asked.passo hrest (ih h)
      next hnothing =>
      rw [if_neg hnothing]
      split at h
      · next hfirst =>
          obtain rfl := hfirst
          rw [if_pos rfl]
          split at h
          · cases h
          · exact .status asked.passo _ hrest (ih h)
      next hfirst =>
      obtain rfl : primeira = false := by simpa using hfirst
      rw [if_neg hfirst]
      split at h
      · next hend =>
          cases h
          rw [if_pos hend]
          exact .vazia asked.passo hrest hend
      · next hend =>
          rw [if_neg hend]
          exact .campo asked.passo hrest hend (ih h)

/-- It leaves what these reads say, behind the status line. -/
theorem Campos.final_eq {primeira : Bool} {lidos : List (List UInt8)}
    (h : Campos a c' primeira c w lidos) :
    ∃ status, c' = usar { c with status } lidos ∧ (primeira = false → status = c.status) := by
  induction h with
  | espera _ _ _ ih => exact ih
  | status _ _ _ _ ih =>
      obtain ⟨status, hstatus, -⟩ := ih
      exact ⟨status, hstatus, fun hlater => by cases hlater⟩
  | vazia => exact ⟨_, rfl, fun _ => rfl⟩
  | @campo c _ _ _ _ _ _ ih =>
      obtain ⟨status, hstatus, hkept⟩ := ih
      refine ⟨c.status, ?_, fun _ => rfl⟩
      rw [hstatus, hkept rfl]
      rfl

/-- The header lines of a head. -/
def camposDaCabeca (a : Ambiente) (rounds : Nat) (w : Socket) : List (List UInt8) :=
  camposLidos a (a.millis w.tick + headerTimeoutMs) true w.passo rounds

/-- A head that is read well leaves what its status line and its header lines say. -/
theorem lerCabecalhos_ok (h : lerCabecalhos a rounds c w = some (.ok, c', w')) :
    ∃ status, c' = (c.comStatus status).usar (camposDaCabeca a rounds w) := by
  rw [lerCabecalhos_eq] at h
  obtain ⟨status, hstatus, -⟩ := (lerLinhas_campos h).final_eq
  exact ⟨status, hstatus⟩

/-- The reads leave the counters of the body alone. -/
theorem usar_keeps (c : GsmHttpClient) (lidos : List (List UInt8)) :
    (c.usar lidos).recebido = c.recebido ∧ (c.usar lidos).chunks = c.chunks := by
  induction lidos using List.reverseRecOn with
  | nil => exact ⟨rfl, rfl⟩
  | append_singleton lidos lido ih =>
      have hfold : c.usar (lidos ++ [lido]) = (c.usar lidos).cabecalho (linhaLida lido) := by
        simp [usar]
      have hcount : ((c.usar lidos).cabecalho (linhaLida lido)).recebido =
          (c.usar lidos).recebido := by
        unfold cabecalho
        dsimp only
        split
        · rfl
        split
        · split <;> rfl
        split
        · split
          · rfl
          split
          · rfl
          split <;> rfl
        · rfl
      rw [hfold]
      exact ⟨hcount.trans ih.1, ((c.usar lidos).cabecalho_keeps _).1.trans ih.2⟩

/-! ## The start of the range -/

/-- The read counts as a Content-Range field. -/
def comecaIntervalo (lido : List UInt8) : Bool :=
  startsNoCase (linhaLida lido) (ascii "Content-Range:")

/-- The start it then gives, if it gives one: what stands at the first `=` behind a blank, or else
the first number there. -/
def inicioLido (lido : List UInt8) : Option UInt32 :=
  if comecaIntervalo lido then
    ((linhaLida lido).find [32]).bind fun traco =>
      match traco.find [61] with
      | some ini => some (strtoul ini)
      | none =>
          ((traco.drop (traco.bytes.takeWhile (· = 32)).length).find
            (ascii "0123456789")).map strtoul
  else none

/-- A line does not count as a Content-Range and another field. -/
theorem not_startsNoCase_intervalo {linha : CString}
    (h : startsNoCase linha (ascii "Content-Range:")) :
    startsNoCase linha (ascii "Content-Length:") = false ∧
      startsNoCase linha (ascii "Transfer-Encoding:") = false := by
  have hbyte : ∀ {i : Nat} {esperado : String}, startsNoCase linha (ascii esperado) →
      i < (ascii esperado).length →
      (linha.bytes.map tolower)[i]? = ((ascii esperado).map tolower)[i]? := by
    intro i esperado hstarts hi
    have htake : (linha.bytes.take (ascii esperado).length).map tolower =
        (ascii esperado).map tolower := of_decide_eq_true hstarts
    rw [← htake, List.map_take, List.getElem?_take_of_lt hi]
  constructor
  · refine Bool.eq_false_of_not_eq_true fun hother => ?_
    have hsame := (hbyte (i := 8) h (by decide)).symm.trans (hbyte hother (by decide))
    exact absurd hsame (by decide)
  · refine Bool.eq_false_of_not_eq_true fun hother => ?_
    have hsame := (hbyte (i := 0) h (by decide)).symm.trans (hbyte hother (by decide))
    exact absurd hsame (by decide)

/-- What one read does to the start of the range. -/
theorem cabecalho_resumedAt (c : GsmHttpClient) (lido : List UInt8) :
    (c.cabecalho (linhaLida lido)).resumedAt = (inicioLido lido).getD c.resumedAt := by
  unfold inicioLido
  by_cases hrange : comecaIntervalo lido = true
  · obtain ⟨hlength, hencoding⟩ := not_startsNoCase_intervalo hrange
    have hstarts : startsNoCase (linhaLida lido) (ascii "Content-Range:") = true := hrange
    rw [if_pos hrange, cabecalho, if_neg (by simp [hlength]), if_neg (by simp [hencoding]),
      if_pos hstarts]
    cases (linhaLida lido).find [32] with
    | none => rfl
    | some traco =>
        simp only [Option.bind_some]
        cases traco.find [61] with
        | some ini => rfl
        | none =>
            simp only
            cases CString.find _ (ascii "0123456789") <;> rfl
  · have hstarts : ¬startsNoCase (linhaLida lido) (ascii "Content-Range:") = true := hrange
    rw [if_neg hrange, cabecalho, if_neg hstarts]
    dsimp only
    split
    · rfl
    split
    · split <;> rfl
    · rfl

/-- The reads leave the last start given. -/
theorem usar_resumedAt (c : GsmHttpClient) (lidos : List (List UInt8)) :
    (c.usar lidos).resumedAt = (lidos.filterMap inicioLido).getLast?.getD c.resumedAt := by
  induction lidos using List.reverseRecOn with
  | nil => rfl
  | append_singleton lidos lido ih =>
      have hfold : c.usar (lidos ++ [lido]) = (c.usar lidos).cabecalho (linhaLida lido) := by
        simp [usar]
      rw [hfold, cabecalho_resumedAt, ih, List.filterMap_append]
      cases hstart : inicioLido lido <;> simp [hstart]

end GsmHttpClient

end FirmwareUpdater
