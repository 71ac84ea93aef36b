import FirmwareUpdater.Core.ResponseHead
import FirmwareUpdater.Gprs.ReadingLoops
import FirmwareUpdater.Library.LineCuts
import Mathlib.Data.List.Induction

/-!
# How a response head is read

`lerCabecalhos` reads lines of any length through a buffer of 160 bytes, so it sees the
cuts of the lines: `pedacos` are the reads after the first. What it makes of a head is
said over these reads, and `Legivel` is when this is what the head says: no line ends
right at a cut, and what a cut leaves of a field does not stand for another one.
-/

namespace FirmwareUpdater

open Library.LineCuts

namespace GsmHttpClient

variable {a : Ambiente} {limite : UInt32} {c : GsmHttpClient} {w : Socket}

section Reads

/-- Where the loop reads in the round that asks the clock at `t`. -/
def vez (a : Ambiente) (t : Nat) : Nat := (if a.connected (t + 1) then t + 2 else t + 3) + 1

/-- In the round that asks the clock at `t`, the connection is there or has something left. -/
def Ligado (a : Ambiente) (t : Nat) : Prop := a.connected (t + 1) ∨ a.available (t + 2) ≠ 0

/-- `n` reads come, and the clock is asked at `voltas` up to the last one. As long as there is
nothing to read, the connection stays. -/
inductive Chegam (a : Ambiente) : Nat → Nat → List Nat → Prop where
  | fim (t : Nat) : Chegam a t 0 []
  | espera {t n : Nat} {voltas : List Nat} :
      Ligado a t → a.available (vez a t - 1) = 0 → Chegam a (vez a t) (n + 1) voltas →
      Chegam a t (n + 1) (t :: voltas)
  | leitura {t n : Nat} {voltas : List Nat} :
      Ligado a t → a.available (vez a t - 1) ≠ 0 → Chegam a (vez a t + 1) n voltas →
      Chegam a t (n + 1) (t :: voltas)

/-- A read gets all it asks for, as far as the stream goes: none times out. -/
def SemDemora (a : Ambiente) : Prop := ∀ t, 159 ≤ a.entrega t

/-- The first of these reads come, too. -/
theorem Chegam.mono {t n m : Nat} {voltas : List Nat} (h : Chegam a t m voltas) (hle : n ≤ m) :
    ∃ antes, Chegam a t n antes := by
  induction h generalizing n with
  | fim t =>
      obtain rfl : n = 0 := by omega
      exact ⟨[], .fim t⟩
  | @espera t _ _ hlink hnothing _ ih =>
      cases n with
      | zero => exact ⟨[], .fim t⟩
      | succ n =>
          obtain ⟨antes, hantes⟩ := ih hle
          exact ⟨t :: antes, .espera hlink hnothing hantes⟩
  | @leitura t _ _ hlink hsome _ ih =>
      cases n with
      | zero => exact ⟨[], .fim t⟩
      | succ n =>
          obtain ⟨antes, hantes⟩ := ih (by omega : n ≤ _)
          exact ⟨t :: antes, .leitura hlink hsome hantes⟩

/-- A read without a delay is a read of the stream. -/
theorem readBytesUntil_eq (hdemora : SemDemora a) (w : Socket) :
    w.readBytesUntil a 159 = ((readUntil 159 10 w.rest).1,
      { w with rest := (readUntil 159 10 w.rest).2, tick := w.tick + 1 }) := by
  have hasked := hdemora w.tick
  have htake : (w.rest.take (a.entrega w.tick)).take 159 = w.rest.take 159 := by
    rw [List.take_take, min_eq_left hasked]
  simp only [Socket.readBytesUntil, readUntil, htake, List.length_take]
  generalize ((w.rest.take 159).takeWhile (· ≠ 10)).length = n
  have hcount : n < 159 ∧ n < min (a.entrega w.tick) w.rest.length ↔
      n < 159 ∧ n < w.rest.length := by
    omega
  simp only [hcount]

/-- What the loop does with a line. -/
def tratar (a : Ambiente) (limite : UInt32) (primeira : Bool) (c : GsmHttpClient) (w : Socket)
    (rounds : Nat) : Option (HttpError × GsmHttpClient × Socket) :=
  let (bytes, w) := w.readBytesUntil a 159
  let linha := linhaLida bytes
  if primeira then
    match linha.find [32] with
    | none => some (.badStatus, c, w)
    | some espaco => lerLinhas a limite false { c with status := atoi (espaco.drop 1) } w rounds
  else if linha.length = 0 then some (.ok, c, w)
  else lerLinhas a limite primeira (c.cabecalho linha) w rounds

/-- A round without a byte waits, another one reads. -/
theorem lerLinhas_succ {primeira : Bool} {rounds : Nat} (hclock : a.millis w.tick < limite)
    (hlink : Ligado a w.tick) :
    lerLinhas a limite primeira c w (rounds + 1) =
      if a.available (vez a w.tick - 1) = 0 then
        lerLinhas a limite primeira c { w with tick := vez a w.tick } rounds
      else tratar a limite primeira c { w with tick := vez a w.tick } rounds := by
  rw [lerLinhas]
  by_cases hconnected : a.connected (w.tick + 1) = true
  · simp only [Socket.passo, vez, hclock, hconnected, not_true_eq_false, if_false, if_true,
      Bool.not_true, Bool.false_and, Bool.false_eq_true, Nat.add_sub_cancel]
    rfl
  · have havailable : a.available (w.tick + 1 + 1) ≠ 0 := hlink.resolve_left hconnected
    simp only [Socket.passo, vez, hclock, hconnected, havailable, not_true_eq_false, if_false,
      Bool.not_false, Bool.true_and, decide_false, Bool.false_eq_true, Nat.add_sub_cancel]
    rfl

/-- A round at or after the deadline ends the loop. -/
theorem lerLinhas_timeout {primeira : Bool} {rounds : Nat} (hclock : ¬a.millis w.tick < limite) :
    lerLinhas a limite primeira c w (rounds + 1) = some (.timeout, c, w.passo) := by
  rw [lerLinhas]
  simp only [hclock, not_false_eq_true, if_true]

/-- The loop ends with a timeout, whatever bound on its rounds is large enough. -/
def Expira (a : Ambiente) (limite : UInt32) (primeira : Bool) (c : GsmHttpClient) (w : Socket) :
    Prop :=
  ∃ least, ∀ rounds, least ≤ rounds → ∃ c' w',
    lerLinhas a limite primeira c w rounds = some (.timeout, c', w')

/-- What a large enough bound gives from a later round on, one larger by `k` gives before it. -/
theorem exists_least_add {P Q : Nat → Prop} (k : Nat) (hstep : ∀ n, Q n → P (n + k))
    (h : ∃ least, ∀ n, least ≤ n → Q n) : ∃ least, ∀ n, least ≤ n → P n := by
  obtain ⟨least, hleast⟩ := h
  refine ⟨least + k, fun n hle => ?_⟩
  obtain ⟨more, rfl⟩ := Nat.exists_eq_add_of_le' hle
  rw [← Nat.add_assoc]
  exact hstep _ (hleast _ (Nat.le_add_left _ _))

/-- The clock is asked while a read is waited for and in what follows it: `P` comes of it if no
answer is late, and `E` if one is. -/
theorem espera_depois {ok : Nat → Prop} {espera depois : List Nat} {P Q E F : Nat → Prop} (k : Nat)
    (hstep : (∀ volta ∈ espera, ok volta) → ∀ n, (Q n → P (n + k)) ∧ (F n → E (n + k)))
    (hends : (∃ volta ∈ espera, ¬ok volta) → ∃ least, ∀ n, least ≤ n → E n)
    (hmore : (∀ volta ∈ depois, ok volta) → ∃ least, ∀ n, least ≤ n → Q n)
    (hlater : (∃ volta ∈ depois, ¬ok volta) → ∃ least, ∀ n, least ≤ n → F n) :
    ((∀ volta ∈ espera ++ depois, ok volta) → ∃ least, ∀ n, least ≤ n → P n) ∧
      ((∃ volta ∈ espera ++ depois, ¬ok volta) → ∃ least, ∀ n, least ≤ n → E n) := by
  constructor
  · intro hok
    rw [List.forall_mem_append] at hok
    exact exists_least_add k (fun n => (hstep hok.1 n).1) (hmore hok.2)
  · rintro ⟨volta, hvolta, hlate⟩
    by_cases hok : ∀ volta ∈ espera, ok volta
    · have hdepois : volta ∈ depois :=
        (List.mem_append.mp hvolta).resolve_left fun hmem => hlate (hok volta hmem)
      exact exists_least_add k (fun n => (hstep hok n).2) (hlater ⟨volta, hdepois, hlate⟩)
    · exact hends (by simpa using hok)

/-- The loop gets to its next read, unless the clock ends it. -/
theorem chegam_leitura {n t : Nat} {voltas : List Nat} (h : Chegam a t (n + 1) voltas) :
    ∃ espera depois waited t', voltas = espera ++ depois ∧ Chegam a (t' + 1) n depois ∧
      ∀ primeira c (w : Socket), w.tick = t →
        ((∀ volta ∈ espera, a.millis volta < limite) → ∀ rounds,
          lerLinhas a limite primeira c w (rounds + waited + 1) =
            tratar a limite primeira c { w with tick := t' } rounds) ∧
        ((∃ volta ∈ espera, ¬a.millis volta < limite) → Expira a limite primeira c w) := by
  generalize hm : n + 1 = m at h
  induction h generalizing n with
  | fim => omega
  | @espera t _ _ hlink hnothing _ ih =>
      obtain ⟨espera, depois, waited, t', rfl, hrest, hround⟩ := ih hm
      refine ⟨t :: espera, depois, waited + 1, t', rfl, hrest, ?_⟩
      rintro primeira c w rfl
      obtain ⟨hgoes, hends⟩ := hround primeira c { w with tick := vez a w.tick } rfl
      constructor
      · intro hclock rounds
        rw [← Nat.add_assoc, lerLinhas_succ (hclock _ List.mem_cons_self) hlink, if_pos hnothing]
        exact hgoes (fun volta hvolta => hclock volta (List.mem_cons_of_mem _ hvolta)) rounds
      · intro hlate
        by_cases hnow : a.millis w.tick < limite
        · obtain ⟨volta, hvolta, hmillis⟩ := hlate
          have hlater : volta ∈ espera :=
            (List.mem_cons.mp hvolta).resolve_left fun heq => hmillis (heq ▸ hnow)
          refine exists_least_add 1 (fun rounds hlast => ?_) (hends ⟨volta, hlater, hmillis⟩)
          rw [lerLinhas_succ hnow hlink, if_pos hnothing]
          exact hlast
        · refine ⟨1, fun rounds hle => ?_⟩
          obtain ⟨more, rfl⟩ := Nat.exists_eq_add_of_le' hle
          exact ⟨_, _, lerLinhas_timeout hnow⟩
  | @leitura t _ _ hlink hsome hrest ih =>
      cases hm
      refine ⟨[t], _, 0, vez a t, rfl, hrest, ?_⟩
      rintro primeira c w rfl
      refine ⟨fun hclock rounds => ?_, fun ⟨volta, hvolta, hmillis⟩ => ⟨1, fun rounds hle => ?_⟩⟩
      · rw [Nat.add_zero, lerLinhas_succ (hclock _ List.mem_cons_self) hlink, if_neg hsome]
      · obtain ⟨more, rfl⟩ := Nat.exists_eq_add_of_le' hle
        rw [List.mem_singleton.mp hvolta] at hmillis
        exact ⟨_, _, lerLinhas_timeout hmillis⟩

/-- Use the reads of the head's fields. -/
def usar (c : GsmHttpClient) (lidos : List (List UInt8)) : GsmHttpClient :=
  lidos.foldl (fun c lido => c.cabecalho (linhaLida lido)) c

/-- Reads up to the first one that looks empty end the loop, with every line before it used, or
the clock ends it before. -/
theorem lerLinhas_reads (hdemora : SemDemora a) {lidos : List (List UInt8)}
    {ultimo rest : List UInt8} {voltas : List Nat}
    (hreads : Reads 159 10 w.rest (lidos ++ [ultimo]) rest)
    (hcheios : ∀ lido ∈ lidos, (linhaLida lido).length ≠ 0)
    (hvazio : (linhaLida ultimo).length = 0)
    (hchegam : Chegam a w.tick (lidos.length + 1) voltas) :
    ((∀ volta ∈ voltas, a.millis volta < limite) → ∃ least, ∀ rounds, least ≤ rounds →
      ∃ w', w'.rest = rest ∧
        lerLinhas a limite false c w rounds = some (.ok, c.usar lidos, w')) ∧
    ((∃ volta ∈ voltas, ¬a.millis volta < limite) → Expira a limite false c w) := by
  induction lidos generalizing c w voltas with
  | nil =>
      obtain ⟨espera, depois, waited, t', rfl, hrest, hround⟩ := chegam_leitura hchegam
      obtain ⟨hgoes, hends⟩ := hround false c w rfl
      cases hrest
      rw [List.append_nil]
      refine ⟨fun hclock => ⟨waited + 1, fun rounds hle => ?_⟩, hends⟩
      cases hreads with
      | read hreads =>
          cases hreads
          obtain ⟨more, rfl⟩ := Nat.exists_eq_add_of_le' hle
          rw [← Nat.add_assoc, hgoes hclock more, tratar, readBytesUntil_eq hdemora]
          simp only [Bool.false_eq_true, if_false, hvazio, if_true, usar, List.foldl_nil]
          exact ⟨_, rfl, rfl⟩
  | cons lido lidos ih =>
      obtain ⟨espera, depois, waited, t', rfl, hrest, hround⟩ := chegam_leitura hchegam
      obtain ⟨hgoes, hends⟩ := hround false c w rfl
      cases hreads with
      | read hreads =>
          have hcheio := hcheios _ List.mem_cons_self
          have hstep : (∀ volta ∈ espera, a.millis volta < limite) → ∀ rounds,
              lerLinhas a limite false c w (rounds + waited + 1) =
                lerLinhas a limite false (c.cabecalho (linhaLida (readUntil 159 10 w.rest).1))
                  { w with rest := (readUntil 159 10 w.rest).2, tick := t' + 1 } rounds := by
            intro hclock rounds
            rw [hgoes hclock, tratar, readBytesUntil_eq hdemora]
            simp only [Bool.false_eq_true, if_false, hcheio]
          obtain ⟨hmore, hlater⟩ := ih (c := c.cabecalho (linhaLida (readUntil 159 10 w.rest).1))
            (w := { w with rest := (readUntil 159 10 w.rest).2, tick := t' + 1 }) hreads
            (fun other hother => hcheios other (List.mem_cons_of_mem _ hother)) hrest
          refine espera_depois (waited + 1) (fun hclock rounds => ?_) hends hmore hlater
          rw [← Nat.add_assoc, hstep hclock]
          exact ⟨id, id⟩

end Reads

section Pieces

/-- A read without a terminator in it is used whole, but for a carriage return at its end. -/
theorem linhaLida_bytes {lido : List UInt8} (h : 0 ∉ lido) :
    (linhaLida lido).bytes = if lido.getLast? = some 13 then lido.dropLast else lido := by
  refine (CString.ofBytes_eq_iff _).mpr fun hmem => h ?_
  split at hmem
  · exact List.mem_of_mem_dropLast hmem
  · exact hmem

/-- It looks empty only if there is nothing or a carriage return in it. -/
theorem linhaLida_eq_empty {lido : List UInt8} (h : 0 ∉ lido) :
    (linhaLida lido).length = 0 ↔ lido = [] ∨ lido = [13] := by
  rw [CString.length, linhaLida_bytes h, List.length_eq_zero_iff]
  split_ifs with hlast
  · obtain ⟨before, rfl⟩ := List.getLast?_eq_some_iff.mp hlast
    simp
  · refine ⟨.inl, fun h => h.resolve_right fun heq => hlast ?_⟩
    rw [heq, List.getLast?_singleton]

/-- What it starts with is there, without carriage returns. -/
theorem linhaLida_prefix {inicio resto : List UInt8} (h : 0 ∉ inicio ++ resto) (hcr : 13 ∉ inicio) :
    ∃ fim, (linhaLida (inicio ++ resto)).bytes = inicio ++ fim := by
  rw [linhaLida_bytes h]
  split_ifs with hlast
  · have hne : resto ≠ [] := by
      rintro rfl
      rw [List.append_nil] at hlast
      exact hcr (List.mem_of_getLast? hlast)
    exact ⟨resto.dropLast, List.dropLast_append_of_ne_nil hne⟩
  · exact ⟨resto, rfl⟩

/-- A whole line is used as it is. -/
theorem linhaLida_linha {linha : List UInt8} (h : ∀ b ∈ linha, texto b) :
    (linhaLida (linha ++ [13])).bytes = linha := by
  have hnul : 0 ∉ linha ++ [13] := by
    intro hmem
    rcases List.mem_append.mp hmem with hmem | hmem
    · exact absurd (h 0 hmem) (by decide)
    · simp at hmem
  rw [linhaLida_bytes hnul, List.getLast?_concat, if_pos rfl, List.dropLast_concat]

end Pieces

section Fields

/-- The read counts as a Content-Length field. -/
def comecaTamanho (lido : List UInt8) : Bool :=
  startsNoCase (linhaLida lido) (ascii "Content-Length:")

/-- The length it then gives. -/
def numero (lido : List UInt8) : UInt32 := strtoul ((linhaLida lido).drop 15)

/-- The read counts as a Transfer-Encoding field with the text `chunked` in it. -/
def falaDeChunked (lido : List UInt8) : Bool :=
  startsNoCase (linhaLida lido) (ascii "Transfer-Encoding:") &&
    (List.range ((linhaLida lido).drop 18).length).any fun i =>
      startsNoCase (((linhaLida lido).drop 18).drop i) (ascii "chunked")

/-- A line does not count as both. -/
theorem not_startsNoCase {linha : CString} (h : startsNoCase linha (ascii "Content-Length:")) :
    startsNoCase linha (ascii "Transfer-Encoding:") = false := by
  have hfirst := congrArg List.head? (of_decide_eq_true h)
  refine decide_eq_false fun hother => ?_
  have hsecond := congrArg List.head? hother
  cases hbytes : linha.bytes with
  | nil =>
      rw [hbytes] at hfirst
      exact absurd hfirst (by decide)
  | cons b bytes =>
      rw [hbytes] at hfirst hsecond
      have htwo : some (tolower b) = some 99 ∧ some (tolower b) = some 116 := ⟨hfirst, hsecond⟩
      rw [htwo.1] at htwo
      exact absurd htwo.2 (by decide)

/-- What one read does. -/
theorem cabecalho_spec (c : GsmHttpClient) (lido : List UInt8) :
    (c.cabecalho (linhaLida lido)).status = c.status ∧
      (c.cabecalho (linhaLida lido)).length =
        (if comecaTamanho lido then numero lido else c.length) ∧
      (c.cabecalho (linhaLida lido)).chunked = (c.chunked || falaDeChunked lido) := by
  unfold comecaTamanho numero falaDeChunked
  by_cases hlength : startsNoCase (linhaLida lido) (ascii "Content-Length:") = true
  · rw [cabecalho, if_pos hlength, if_pos hlength, not_startsNoCase hlength, Bool.false_and,
      Bool.or_false]
    exact ⟨rfl, rfl, rfl⟩
  rw [if_neg hlength]
  by_cases hencoding : startsNoCase (linhaLida lido) (ascii "Transfer-Encoding:") = true
  · rw [cabecalho, if_neg hlength, if_pos hencoding, hencoding, Bool.true_and]
    dsimp only
    split
    · next hany => exact ⟨rfl, rfl, by rw [hany, Bool.or_true]⟩
    · next hany => exact ⟨rfl, rfl, by rw [Bool.eq_false_of_not_eq_true hany, Bool.or_false]⟩
  · rw [Bool.eq_false_of_not_eq_true hencoding, Bool.false_and, Bool.or_false, cabecalho,
      if_neg hlength, if_neg hencoding]
    split
    · split
      · exact ⟨rfl, rfl, rfl⟩
      split
      · exact ⟨rfl, rfl, rfl⟩
      dsimp only
      split <;> exact ⟨rfl, rfl, rfl⟩
    · exact ⟨rfl, rfl, rfl⟩

/-- What the reads do, one after the other. -/
theorem usar_spec (c : GsmHttpClient) (lidos : List (List UInt8)) :
    (c.usar lidos).status = c.status ∧
      (c.usar lidos).length = (lidos.filter comecaTamanho).getLast?.elim c.length numero ∧
      (c.usar lidos).chunked = (c.chunked || lidos.any falaDeChunked) := by
  induction lidos using List.reverseRecOn with
  | nil => simp [usar]
  | append_singleton lidos lido ih =>
      obtain ⟨hstatus, hlength, hchunked⟩ := ih
      obtain ⟨hstatus', hlength', hchunked'⟩ := (c.usar lidos).cabecalho_spec lido
      have hfold : c.usar (lidos ++ [lido]) = (c.usar lidos).cabecalho (linhaLida lido) := by
        simp [usar]
      rw [hfold, hstatus', hlength', hchunked', hstatus, hlength, hchunked, List.any_append,
        List.filter_append, ← Bool.or_assoc]
      refine ⟨rfl, ?_, by simp⟩
      by_cases hstarts : comecaTamanho lido = true
      · simp [hstarts]
      · simp [hstarts]

end Fields

end GsmHttpClient

namespace Cabeca

open GsmHttpClient

variable (cabeca : Cabeca)

/-- The first read of the head. -/
def primeiro : List UInt8 := (cabeca.linhaDeStatus ++ [13]).take 159

/-- The reads after the first one, up to the empty line. -/
def pedacos : List (List UInt8) :=
  (cuts 159 (cabeca.linhaDeStatus ++ [13])).tail ++
    cabeca.campos.flatMap fun campo => cuts 159 (campo.linha ++ [13])

/-- The head is read in these pieces. -/
theorem reads_bytes (corpo : List UInt8) :
    Reads 159 10 (cabeca.bytes ++ corpo) (cabeca.primeiro :: cabeca.pedacos ++ [[13]]) corpo := by
  have hlines : ∀ linha ∈ (cabeca.linhas ++ [[]]).map (· ++ [13]), (10 : UInt8) ∉ linha := by
    intro linha hlinha hmem
    obtain ⟨texto, htexto, rfl⟩ := List.mem_map.mp hlinha
    rcases List.mem_append.mp hmem with hmem | hmem
    · rcases List.mem_append.mp htexto with htexto | htexto
      · exact absurd (cabeca.linhas_texto texto htexto 10 hmem) (by decide)
      · rw [List.mem_singleton.mp htexto] at hmem
        cases hmem
    · simp at hmem
  have hreads := reads_lines (by decide : 0 < 159) hlines corpo
  have hbytes : ((cabeca.linhas ++ [[]]).map (· ++ [13])).flatMap (· ++ [10]) = cabeca.bytes := by
    rw [List.flatMap_map]
    simp [bytes]
  have hpieces : ((cabeca.linhas ++ [[]]).map (· ++ [13])).flatMap (cuts 159) =
      cabeca.primeiro :: cabeca.pedacos ++ [[13]] := by
    rw [List.map_append, List.flatMap_append, linhas, List.map_cons, List.flatMap_cons,
      cuts_eq_cons (by decide), List.map_map, List.flatMap_map, primeiro, pedacos]
    simp [cuts_of_lt]
  rwa [hbytes, hpieces] at hreads

/-- A read is a piece of a line with its carriage return. -/
theorem mem_cuts_of_mem {lido : List UInt8} (h : lido ∈ cabeca.primeiro :: cabeca.pedacos) :
    ∃ linha ∈ cabeca.linhas, lido ∈ cuts 159 (linha ++ [13]) := by
  rcases List.mem_cons.mp h with rfl | h
  · refine ⟨_, List.mem_cons_self, ?_⟩
    rw [cuts_eq_cons (by decide)]
    exact List.mem_cons_self
  rcases List.mem_append.mp h with h | h
  · exact ⟨_, List.mem_cons_self, List.mem_of_mem_tail h⟩
  · obtain ⟨campo, hcampo, hlido⟩ := List.mem_flatMap.mp h
    exact ⟨campo.linha, List.mem_cons_of_mem _ (List.mem_map_of_mem hcampo), hlido⟩

/-- No read holds a terminator. -/
theorem nul_not_mem {lido : List UInt8} (h : lido ∈ cabeca.primeiro :: cabeca.pedacos) :
    0 ∉ lido := by
  intro hnul
  obtain ⟨linha, hlinha, hlido⟩ := cabeca.mem_cuts_of_mem h
  rcases List.mem_append.mp ((infix_of_mem_cuts hlido).mem hnul) with hmem | hmem
  · exact absurd (cabeca.linhas_texto linha hlinha 0 hmem) (by decide)
  · simp at hmem

/-- The end of a line is among the reads after the first one, where it is one byte at most. -/
theorem fim_mem_pedacos {linha : List UInt8} (hlinha : linha ∈ cabeca.linhas)
    (hshort : (linha ++ [13]).length % 159 ≤ 1) :
    (linha ++ [13]).drop ((linha ++ [13]).length - (linha ++ [13]).length % 159) ∈
      cabeca.pedacos := by
  have hend := end_mem_cuts (by decide : 0 < 159) (linha ++ [13])
  rcases List.mem_cons.mp hlinha with rfl | hlinha
  · rw [cuts_eq_cons (by decide)] at hend
    rcases List.mem_cons.mp hend with hfirst | hend
    · have hlengths := congrArg List.length hfirst
      have hstatus : 13 ≤ cabeca.linhaDeStatus.length := by
        have hversao : (ascii "HTTP/1.1 ").length = 9 := by decide
        have hcodigo := cabeca.codigo_digitos.1
        simp only [linhaDeStatus, List.length_append, List.length_cons, hversao, hcodigo]
        omega
      simp only [List.length_drop, List.length_take, List.length_append,
        List.length_singleton] at hlengths hshort
      omega
    · exact List.mem_append_left _ hend
  · obtain ⟨campo, hcampo, rfl⟩ := List.mem_map.mp hlinha
    exact List.mem_append_right _ (List.mem_flatMap.mpr ⟨campo, hcampo, hend⟩)

/-- A read that looks empty comes of a line that ends right at a cut. -/
theorem cheios_iff :
    (∀ lido ∈ cabeca.pedacos, (linhaLida lido).length ≠ 0) ↔
      ∀ linha ∈ cabeca.linhas, linha.length % 159 ≠ 158 ∧ linha.length % 159 ≠ 0 := by
  constructor
  · intro hcheios linha hlinha
    by_contra hcut
    have hshort : (linha ++ [13]).length % 159 ≤ 1 := by
      rw [List.length_append, List.length_singleton]
      omega
    have hend := cabeca.fim_mem_pedacos hlinha hshort
    refine hcheios _ hend ((linhaLida_eq_empty ?_).mpr ?_)
    · exact cabeca.nul_not_mem (List.mem_cons_of_mem _ hend)
    generalize hn : (linha ++ [13]).length % 159 = n at hshort
    obtain rfl | rfl : n = 0 ∨ n = 1 := by omega
    · exact .inl (by rw [Nat.sub_zero, List.drop_length])
    · refine .inr ?_
      rw [List.length_append, List.length_singleton, Nat.add_sub_cancel, List.drop_left]
  · intro hlinhas lido hlido hvazio
    obtain ⟨linha, hlinha, hcut⟩ := cabeca.mem_cuts_of_mem (List.mem_cons_of_mem _ hlido)
    have hnul := cabeca.nul_not_mem (List.mem_cons_of_mem _ hlido)
    have hshort : lido.length ≤ 1 := by
      rcases (linhaLida_eq_empty hnul).mp hvazio with rfl | rfl <;> simp
    have hline := hlinhas linha hlinha
    rcases mem_cuts (by decide) hcut with hfull | ⟨hlength, -⟩
    · omega
    · rw [List.length_append, List.length_singleton] at hlength
      omega

/-- A line shorter than the buffer is one read. -/
theorem cuts_linha {campo : Campo} (h : campo.linha.length < 158) :
    cuts 159 (campo.linha ++ [13]) = [campo.linha ++ [13]] := by
  refine cuts_of_lt ?_
  rw [List.length_append, List.length_singleton]
  omega

/-- Where every line is shorter than that, the fields are read line by line. -/
theorem pedacos_of_curta {cabeca : Cabeca} (hcurta : ∀ linha ∈ cabeca.linhas, linha.length < 158) :
    cabeca.pedacos = cabeca.campos.map fun campo => campo.linha ++ [13] := by
  have hstatus : (cabeca.linhaDeStatus ++ [13]).length < 159 := by
    have hlt := hcurta _ List.mem_cons_self
    rw [List.length_append, List.length_singleton]
    omega
  rw [pedacos, cuts_of_lt hstatus, List.tail_cons, List.nil_append, List.map_eq_flatMap]
  refine List.flatMap_congr fun campo hcampo => cuts_linha ?_
  exact hcurta _ (List.mem_cons_of_mem _ (List.mem_map_of_mem hcampo))

theorem cuts_subset_pedacos {campo : Campo} (h : campo ∈ cabeca.campos) :
    cuts 159 (campo.linha ++ [13]) ⊆ cabeca.pedacos := fun _ hlido =>
  List.mem_append_right _ (List.mem_flatMap.mpr ⟨campo, h, hlido⟩)

end Cabeca

section FieldLines

open GsmHttpClient

variable {campo : Campo}

/-- A text starts with a name and a colon exactly where its field has that name. -/
theorem startsNoCase_linha (esperado : String) {linha : CString} {fim : List UInt8}
    (hlinha : linha.bytes = campo.nome ++ 58 :: fim) (hcolon : 58 ∉ (ascii esperado).map tolower) :
    startsNoCase linha (ascii esperado ++ [58]) = ehNome campo.nome esperado := by
  have hlower : ∀ b, tolower b = 58 → b = 58 := by
    intro b hb
    unfold tolower at hb
    split at hb
    · next hrange =>
        have hlow := UInt8.le_iff_toNat_le.mp hrange.1
        have hhigh := UInt8.le_iff_toNat_le.mp hrange.2
        have hsum := congrArg UInt8.toNat hb
        simp only [UInt8.toNat_add, UInt8.reduceToNat] at hsum hlow hhigh
        omega
    · exact hb
  have hname : 58 ∉ campo.nome.map tolower := by
    intro hmem
    obtain ⟨b, hb, heq⟩ := List.mem_map.mp hmem
    exact campo.dois_pontos_not_mem (hlower b heq ▸ hb)
  have hcolonLower : tolower 58 = 58 := by decide
  rw [startsNoCase, ehNome, decide_eq_decide, hlinha]
  constructor
  · intro h
    have hprefix := (List.take_prefix (ascii esperado ++ [58]).length
      (campo.nome ++ 58 :: fim)).map tolower
    rw [h] at hprefix
    obtain ⟨more, hmore⟩ := hprefix
    simp only [List.map_append, List.map_cons, List.map_nil, hcolonLower, List.append_assoc,
      List.cons_append, List.nil_append] at hmore
    have hcut : ∀ nome fim : List UInt8, 58 ∉ nome →
        (nome ++ 58 :: fim).takeWhile (· ≠ 58) = nome := by
      intro nome fim hnome
      have hall : ∀ b ∈ nome, decide (b ≠ 58) = true := by
        intro b hb
        exact decide_eq_true fun heq => hnome (heq ▸ hb)
      rw [List.takeWhile_append_of_pos hall,
        List.takeWhile_cons_of_neg (by simp), List.append_nil]
    rw [← hcut _ _ hname, ← hmore, hcut _ _ hcolon]
  · intro h
    have hlength : campo.nome.length = (ascii esperado).length := by
      simpa using congrArg List.length h
    rw [List.length_append, List.length_singleton, ← hlength, List.take_append,
      List.take_of_length_le (Nat.le_succ _), Nat.add_sub_cancel_left, List.take_succ_cons,
      List.take_zero, List.map_append, List.map_append, h]

/-- The first read of a field's line starts with its name and colon, if they fit. -/
theorem linhaLida_primeiro (hfits : campo.nome.length < 159) :
    ∃ fim, (linhaLida ((campo.linha ++ [13]).take 159)).bytes = campo.nome ++ 58 :: fim := by
  have htake : (campo.linha ++ [13]).take 159 =
      (campo.nome ++ [58]) ++ (campo.valor ++ [13]).take (158 - campo.nome.length) := by
    have hroom : 159 - campo.nome.length = (158 - campo.nome.length) + 1 := by omega
    rw [Campo.linha, List.append_assoc, List.cons_append, List.take_append,
      List.take_of_length_le (by omega), hroom, List.take_succ_cons, List.append_assoc,
      List.singleton_append]
  have htext : ∀ b ∈ campo.nome ++ [58], texto b := by
    intro b hb
    refine campo.linha_texto b (List.mem_append.mpr ?_)
    exact (List.mem_append.mp hb).imp_right fun hb => List.mem_cons.mpr (.inl (by simpa using hb))
  have hnul : 0 ∉ (campo.linha ++ [13]).take 159 := by
    intro hmem
    rcases List.mem_append.mp (List.mem_of_mem_take hmem) with hmem | hmem
    · exact absurd (campo.linha_texto 0 hmem) (by decide)
    · simp at hmem
  rw [htake] at hnul ⊢
  obtain ⟨fim, hfim⟩ := linhaLida_prefix hnul fun hmem => absurd (htext 13 hmem) (by decide)
  exact ⟨fim, by rw [hfim, List.append_assoc, List.singleton_append]⟩

/-- A Content-Length field counts as one. -/
theorem comecaTamanho_primeiro (h : campo.EhTamanho) :
    comecaTamanho ((campo.linha ++ [13]).take 159) := by
  have hlength : campo.nome.length = (ascii "Content-Length").length := by
    simpa using congrArg List.length (of_decide_eq_true h)
  have hfourteen : (ascii "Content-Length").length = 14 := by decide
  obtain ⟨fim, hfim⟩ := linhaLida_primeiro (by omega : campo.nome.length < 159)
  have hstarts := startsNoCase_linha "Content-Length" hfim (by decide)
  exact hstarts.trans h

/-- The line of a field that counts as Content-Length gives the number of the head. -/
theorem numero_linha {cabeca : Cabeca} (hcampo : campo ∈ cabeca.campos)
    (h : comecaTamanho (campo.linha ++ [13])) : numero (campo.linha ++ [13]) = cabeca.tamanho := by
  have hlinha := linhaLida_linha campo.linha_texto
  have hnome : campo.EhTamanho :=
    (startsNoCase_linha "Content-Length" hlinha (by decide)).symm.trans h
  have hlength : campo.nome.length = 14 := by
    simpa [ascii] using congrArg List.length (of_decide_eq_true hnome)
  obtain ⟨hne, hdigits, hvalue⟩ := cabeca.tamanho_dito campo hcampo hnome
  have hvalor : ((linhaLida (campo.linha ++ [13])).drop 15).bytes =
      campo.valor.takeWhile branco ++
        (aparar campo.valor ++ (campo.valor.dropWhile branco).rtakeWhile branco) := by
    rw [aparar, List.rdropWhile_append_rtakeWhile, List.takeWhile_append_dropWhile]
    show (linhaLida (campo.linha ++ [13])).bytes.drop 15 = campo.valor
    rw [hlinha, Campo.linha, List.drop_append, List.drop_of_length_le (by omega), hlength]
    rfl
  have hblank : ∀ b, branco b → isspace b ∧ ¬isdigit b := by
    intro b hb
    simp only [branco, Bool.or_eq_true, decide_eq_true_eq] at hb
    rcases hb with rfl | rfl <;> decide
  rw [numero, strtoul_digits hvalor (fun b hb => (hblank b (List.mem_takeWhile_imp hb)).1) hne
    hdigits, hvalue]
  · have hle : ¬cabeca.tamanho.toNat > ulongMax := by
      have := cabeca.tamanho.toNat_lt
      simp only [ulongMax]
      omega
    rw [if_neg hle, UInt32.ofNat_toNat]
  · intro b hb
    exact (hblank b (List.mem_rtakeWhile_imp (List.mem_of_mem_head? hb))).2

/-- A text with some part in it has the part in it at some place. -/
theorem any_startsNoCase {texto : CString} {parte : List UInt8} {esperado : String}
    (hparte : parte <:+: texto.bytes) (hne : ascii esperado ≠ []) (h : ehNome parte esperado) :
    ((List.range texto.length).any fun i =>
      startsNoCase (texto.drop i) (ascii esperado)) = true := by
  obtain ⟨antes, depois, htexto⟩ := hparte
  have hmap : parte.map tolower = (ascii esperado).map tolower := of_decide_eq_true h
  have hlength : parte.length = (ascii esperado).length := by simpa using congrArg List.length hmap
  have hpos := List.length_pos_iff.mpr hne
  refine List.any_eq_true.mpr ⟨antes.length, List.mem_range.mpr ?_, decide_eq_true ?_⟩
  · have htotal := congrArg List.length htexto
    simp only [List.length_append] at htotal
    show antes.length < texto.bytes.length
    omega
  · show ((texto.bytes.drop antes.length).take (ascii esperado).length).map tolower = _
    rw [← htexto, List.append_assoc, List.drop_left, ← hlength, List.take_left, hmap]

/-- The line of a Transfer-Encoding field that names chunked has the text in it. -/
theorem falaDeChunked_linha (h : campo.NomeiaChunked) : falaDeChunked (campo.linha ++ [13]) := by
  obtain ⟨hnome, hcodings⟩ := Bool.and_eq_true_iff.mp h
  obtain ⟨codificacao, hmem, hchunked⟩ := List.any_eq_true.mp hcodings
  have hlinha := linhaLida_linha campo.linha_texto
  have hlength : campo.nome.length = 17 := by
    simpa [ascii] using congrArg List.length (of_decide_eq_true hnome)
  have hvalor : ((linhaLida (campo.linha ++ [13])).drop 18).bytes = campo.valor := by
    show (linhaLida (campo.linha ++ [13])).bytes.drop 18 = campo.valor
    rw [hlinha, Campo.linha, List.drop_append, List.drop_of_length_le (by omega), hlength]
    rfl
  have hstarts := startsNoCase_linha "Transfer-Encoding" hlinha (by decide)
  refine Bool.and_eq_true_iff.mpr ⟨hstarts.trans hnome, any_startsNoCase ?_ (by decide) hchunked⟩
  rw [hvalor]
  exact Campo.codificacao_isInfix hmem

end FieldLines

namespace GsmHttpClient

variable {a : Ambiente} {c : GsmHttpClient} {w : Socket} {cabeca : Cabeca} {corpo : List UInt8}

/-- The head is read as what it says. -/
structure Legivel (cabeca : Cabeca) : Prop where
  cortes : ∀ linha ∈ cabeca.linhas, linha.length % 159 ≠ 158 ∧ linha.length % 159 ≠ 0
  tamanho : ∀ lido, (cabeca.pedacos.filter comecaTamanho).getLast? = some lido →
    (∃ campo ∈ cabeca.campos, campo.linha.length < 158 ∧ lido = campo.linha ++ [13]) ∨
      numero lido = cabeca.tamanho
  nomeado : ∀ campo ∈ cabeca.campos, campo.NomeiaChunked →
    campo.linha.length < 158 ∨ ∃ lido ∈ cabeca.pedacos, falaDeChunked lido
  calado : ¬cabeca.NomeiaChunked → ∀ lido ∈ cabeca.pedacos, ¬falaDeChunked lido

/-- Where every line fits into the buffer, only a Transfer-Encoding field with `chunked` inside
another name is misread. -/
theorem legivel_iff_of_curta {cabeca : Cabeca}
    (hcurta : ∀ linha ∈ cabeca.linhas, linha.length < 158) :
    Legivel cabeca ↔
      (¬cabeca.NomeiaChunked → ∀ campo ∈ cabeca.campos, ¬falaDeChunked (campo.linha ++ [13])) := by
  have hcampo : ∀ campo ∈ cabeca.campos, campo.linha.length < 158 := fun campo h =>
    hcurta campo.linha (List.mem_cons_of_mem _ (List.mem_map_of_mem h))
  have hpedacos : ∀ lido, lido ∈ cabeca.pedacos ↔
      ∃ campo ∈ cabeca.campos, campo.linha ++ [13] = lido := by
    intro lido
    rw [Cabeca.pedacos_of_curta hcurta, List.mem_map]
  constructor
  · intro h hsilent campo hmem
    exact h.calado hsilent _ ((hpedacos _).mpr ⟨campo, hmem, rfl⟩)
  · intro h
    refine ⟨fun linha hmem => ?_, fun lido hlast => ?_, fun campo hmem _ => ?_, ?_⟩
    · have hpos : 0 < linha.length := by
        rcases List.mem_cons.mp hmem with rfl | hmem
        · simp only [Cabeca.linhaDeStatus, List.length_append, List.length_cons]
          omega
        · obtain ⟨campo, -, rfl⟩ := List.mem_map.mp hmem
          simp only [Campo.linha, List.length_append, List.length_cons]
          omega
      have hlt := hcurta linha hmem
      omega
    · obtain ⟨campo, hmem, rfl⟩ :=
        (hpedacos lido).mp (List.mem_of_mem_filter (List.mem_of_getLast? hlast))
      exact .inl ⟨campo, hmem, hcampo campo hmem, rfl⟩
    · exact .inl (hcampo campo hmem)
    · intro hsilent lido hlido
      obtain ⟨campo, hmem, rfl⟩ := (hpedacos lido).mp hlido
      exact h hsilent campo hmem

/-- The members at the start of `lerCabecalhos`. -/
def zerar (c : GsmHttpClient) : GsmHttpClient :=
  { c with
    status := 0
    length := 0
    resumedAt := 0
    recebido := 0
    chunked := false
    chunks := .reset }

/-- The head is read by the loop over its lines. -/
theorem lerCabecalhos_eq (a : Ambiente) (rounds : Nat) (c : GsmHttpClient) (w : Socket) :
    lerCabecalhos a rounds c w =
      lerLinhas a (a.millis w.tick + headerTimeoutMs) true c.zerar w.passo rounds :=
  rfl

/-- `lerCabecalhos` consumes the head and nothing more, and says what the head says. -/
def Entende (a : Ambiente) (c : GsmHttpClient) (w : Socket) (cabeca : Cabeca)
    (corpo : List UInt8) : Prop :=
  ∃ least, ∀ rounds, least ≤ rounds → ∃ c' w',
    lerCabecalhos a rounds c w = some (.ok, c', w') ∧ w'.rest = corpo ∧
      c'.status = cabeca.status ∧ c'.length = cabeca.tamanho ∧
      (c'.chunked = true ↔ cabeca.NomeiaChunked)

/-- The first read gives the status code. -/
theorem primeiro_find (cabeca : Cabeca) :
    ∃ espaco, (linhaLida cabeca.primeiro).find [32] = some espaco ∧
      atoi (espaco.drop 1) = cabeca.status := by
  have hversao : ascii "HTTP/1.1 " = [72, 84, 84, 80, 47, 49, 46, 49, 32] := by decide
  obtain ⟨hthree, hdigits⟩ := cabeca.codigo_digitos
  have hinicio : cabeca.primeiro =
      ascii "HTTP/1.1 " ++ cabeca.codigo ++ [32] ++ (cabeca.motivo ++ [13]).take 146 := by
    rw [Cabeca.primeiro, Cabeca.linhaDeStatus, List.append_assoc, List.cons_append,
      List.take_append, List.take_of_length_le (by simp [hversao, hthree]), List.length_append,
      hthree, hversao]
    simp
  have htexto : ∀ b ∈ ascii "HTTP/1.1 " ++ cabeca.codigo ++ [32], texto b := by
    intro b hb
    refine cabeca.linhaDeStatus_texto b (List.mem_append.mpr ?_)
    exact (List.mem_append.mp hb).imp_right fun hb => List.mem_cons.mpr (.inl (by simpa using hb))
  have hnul := cabeca.nul_not_mem (List.mem_cons_self (l := cabeca.pedacos))
  rw [hinicio] at hnul ⊢
  obtain ⟨fim, hfim⟩ := linhaLida_prefix hnul fun hmem => absurd (htexto 13 hmem) (by decide)
  generalize linhaLida _ = linha at hfim
  refine ⟨linha.drop 8, ?_, ?_⟩
  · have hindex : (linha.bytes.findIdx? fun c => c ∈ [32]) = some 8 := by
      rw [hfim, hversao]
      simp [List.findIdx?_cons]
    rw [CString.find, hindex]
  · have hbytes : ((linha.drop 8).drop 1).bytes = [] ++ (cabeca.codigo ++ 32 :: fim) := by
      show (linha.bytes.drop 8).drop 1 = _
      rw [hfim, hversao]
      simp
    have hne : cabeca.codigo ≠ [] := by
      rintro hnil
      rw [hnil] at hthree
      cases hthree
    have hlt := decimal_lt hdigits
    rw [hthree] at hlt
    rw [atoi_digits hbytes (by simp) hne hdigits (by simp [isdigit]), Cabeca.status, longMax]
    omega

/-- The length used is that of the head. -/
theorem usar_length_iff (hzero : c.length = 0) :
    (c.usar cabeca.pedacos).length = cabeca.tamanho ↔
    ∀ lido, (cabeca.pedacos.filter comecaTamanho).getLast? = some lido →
      (∃ campo ∈ cabeca.campos, campo.linha.length < 158 ∧ lido = campo.linha ++ [13]) ∨
        numero lido = cabeca.tamanho := by
  rw [(c.usar_spec cabeca.pedacos).2.1, hzero]
  cases hlast : (cabeca.pedacos.filter comecaTamanho).getLast? with
  | none =>
      rw [List.getLast?_eq_none_iff, List.filter_eq_nil_iff] at hlast
      have habsent : cabeca.tamanho = 0 := by
        refine cabeca.tamanho_ausente fun campo hcampo htamanho => ?_
        refine hlast _ (cabeca.cuts_subset_pedacos hcampo ?_) (comecaTamanho_primeiro htamanho)
        rw [cuts_eq_cons (by decide)]
        exact List.mem_cons_self
      rw [habsent]
      exact ⟨fun _ _ h => (nomatch h), fun _ => rfl⟩
  | some lido =>
      have hcomeca := (List.mem_filter.mp (List.mem_of_getLast? hlast)).2
      refine ⟨fun h other hother => .inr (Option.some.inj hother ▸ h), fun h => ?_⟩
      rcases h lido rfl with ⟨campo, hcampo, -, rfl⟩ | h
      · exact numero_linha hcampo hcomeca
      · exact h

/-- The framing used is that of the head. -/
theorem usar_chunked_iff (hplain : c.chunked = false) :
    ((c.usar cabeca.pedacos).chunked = true ↔ cabeca.NomeiaChunked) ↔
      (∀ campo ∈ cabeca.campos, campo.NomeiaChunked →
        campo.linha.length < 158 ∨ ∃ lido ∈ cabeca.pedacos, falaDeChunked lido) ∧
      (¬cabeca.NomeiaChunked → ∀ lido ∈ cabeca.pedacos, ¬falaDeChunked lido) := by
  have hany : (c.usar cabeca.pedacos).chunked = true ↔
      ∃ lido ∈ cabeca.pedacos, falaDeChunked lido := by
    rw [(c.usar_spec cabeca.pedacos).2.2, hplain]
    simp
  rw [hany]
  constructor
  · intro h
    exact ⟨fun campo hcampo hnomeia => .inr (h.mpr ⟨campo, hcampo, hnomeia⟩),
      fun hsilent lido hlido hfala => hsilent (h.mp ⟨lido, hlido, hfala⟩)⟩
  · rintro ⟨hnamed, hsilent⟩
    refine ⟨fun ⟨lido, hlido, hfala⟩ => ?_, fun ⟨campo, hcampo, hnomeia⟩ => ?_⟩
    · by_contra hnone
      exact hsilent hnone lido hlido hfala
    · rcases hnamed campo hcampo hnomeia with hshort | h
      · refine ⟨campo.linha ++ [13], cabeca.cuts_subset_pedacos hcampo ?_,
          falaDeChunked_linha hnomeia⟩
        rw [Cabeca.cuts_linha hshort]
        exact List.mem_singleton.mpr rfl
      · exact h

/-- The members once the status line was read. -/
def comStatus (c : GsmHttpClient) (status : Int) : GsmHttpClient := { c.zerar with status }

/-- `lerCabecalhos` up to the first read that looks empty, unless the clock ends it before. -/
theorem lerCabecalhos_reads (hdemora : SemDemora a) {lidos : List (List UInt8)}
    {ultimo rest : List UInt8} {voltas : List Nat}
    (hreads : Reads 159 10 w.rest (cabeca.primeiro :: lidos ++ [ultimo]) rest)
    (hcheios : ∀ lido ∈ lidos, (linhaLida lido).length ≠ 0)
    (hvazio : (linhaLida ultimo).length = 0)
    (hchegam : Chegam a (w.tick + 1) (lidos.length + 2) voltas) :
    ((∀ volta ∈ voltas, a.millis volta < a.millis w.tick + headerTimeoutMs) →
      ∃ least, ∀ rounds, least ≤ rounds → ∃ w', w'.rest = rest ∧
        lerCabecalhos a rounds c w = some (.ok, (c.comStatus cabeca.status).usar lidos, w')) ∧
    ((∃ volta ∈ voltas, ¬a.millis volta < a.millis w.tick + headerTimeoutMs) →
      Expira a (a.millis w.tick + headerTimeoutMs) true c.zerar w.passo) := by
  obtain ⟨espera, depois, waited, t', rfl, hrest, hround⟩ := chegam_leitura hchegam
  obtain ⟨hgoes, hends⟩ := hround true c.zerar w.passo rfl
  obtain ⟨espaco, hfind, hstatus⟩ := primeiro_find cabeca
  rw [List.cons_append] at hreads
  generalize hfirst : cabeca.primeiro = primeiro at hreads hfind
  cases hreads with
  | read hreads =>
      have hstep : (∀ volta ∈ espera, a.millis volta < a.millis w.tick + headerTimeoutMs) →
          ∀ rounds, lerLinhas a (a.millis w.tick + headerTimeoutMs) true c.zerar w.passo
              (rounds + waited + 1) =
            lerLinhas a (a.millis w.tick + headerTimeoutMs) false (c.comStatus cabeca.status)
              { w with rest := (readUntil 159 10 w.rest).2, tick := t' + 1 } rounds := by
        intro hclock rounds
        rw [hgoes hclock, tratar, readBytesUntil_eq hdemora]
        simp only [Socket.passo, if_true, hfind, hstatus, comStatus]
      obtain ⟨hmore, hlater⟩ := lerLinhas_reads (c := c.comStatus cabeca.status)
        (w := { w with rest := (readUntil 159 10 w.rest).2, tick := t' + 1 }) hdemora hreads
        hcheios hvazio hrest
      refine espera_depois (waited + 1) (fun hclock rounds => ?_) hends hmore hlater
      rw [lerCabecalhos_eq, ← Nat.add_assoc, hstep hclock]
      exact ⟨id, id⟩

/-- A loop that expires does not give the head. -/
theorem not_entende_of_expira
    (h : Expira a (a.millis w.tick + headerTimeoutMs) true c.zerar w.passo) :
    ¬Entende a c w cabeca corpo := by
  rintro ⟨least, hleast⟩
  obtain ⟨other, hother⟩ := h
  obtain ⟨c₁, w₁, hok, -⟩ := hleast (max least other) (le_max_left _ _)
  obtain ⟨c₂, w₂, htimeout⟩ := hother (max least other) (le_max_right _ _)
  cases hok.symm.trans htimeout

/-- A head that arrives is read as what it says exactly if it is legible and the clock shows less
than the deadline in every round up to the one of its end. -/
theorem entende_iff {voltas : List Nat} (hrest : w.rest = cabeca.bytes ++ corpo)
    (hdemora : SemDemora a)
    (hchegam : Chegam a (w.tick + 1) (cabeca.pedacos.length + 2) voltas) :
    Entende a c w cabeca corpo ↔
      Legivel cabeca ∧
        ∀ volta ∈ voltas, a.millis volta < a.millis w.tick + headerTimeoutMs := by
  have hreads := cabeca.reads_bytes corpo
  rw [← hrest] at hreads
  by_cases hcheios : ∀ lido ∈ cabeca.pedacos, (linhaLida lido).length ≠ 0
  · have hvazio : (linhaLida [13]).length = 0 := by decide
    obtain ⟨hok, htimeout⟩ := lerCabecalhos_reads (c := c) hdemora hreads hcheios hvazio hchegam
    by_cases hclock : ∀ volta ∈ voltas, a.millis volta < a.millis w.tick + headerTimeoutMs
    · obtain ⟨least, hleast⟩ := hok hclock
      have hlength := @usar_length_iff (c.comStatus cabeca.status) cabeca rfl
      have hchunked := @usar_chunked_iff (c.comStatus cabeca.status) cabeca rfl
      have hstatus := ((c.comStatus cabeca.status).usar_spec cabeca.pedacos).1
      constructor
      · rintro ⟨other, hother⟩
        obtain ⟨w₁, -, hloop⟩ := hleast (max least other) (le_max_left _ _)
        obtain ⟨c₂, w₂, hread, -, -, hsize, hframing⟩ :=
          hother (max least other) (le_max_right _ _)
        cases hloop.symm.trans hread
        obtain ⟨hnamed, hsilent⟩ := hchunked.mp hframing
        exact ⟨⟨cabeca.cheios_iff.mp hcheios, hlength.mp hsize, hnamed, hsilent⟩, hclock⟩
      · rintro ⟨hlegivel, -⟩
        refine ⟨least, fun rounds hle => ?_⟩
        obtain ⟨w', hw', hloop⟩ := hleast rounds hle
        exact ⟨_, w', hloop, hw', hstatus, hlength.mpr hlegivel.tamanho,
          hchunked.mpr ⟨hlegivel.nomeado, hlegivel.calado⟩⟩
    · refine iff_of_false (not_entende_of_expira (htimeout (by simpa using hclock))) ?_
      exact fun h => hclock h.2
  · refine iff_of_false ?_ fun h => hcheios (cabeca.cheios_iff.mpr h.1.cortes)
    -- The loop ends at the first read that looks empty, with at least the empty line unread.
    obtain ⟨ultimo, hfind⟩ : ∃ ultimo,
        cabeca.pedacos.find? (fun lido => (linhaLida lido).length = 0) = some ultimo := by
      rw [← Option.isSome_iff_exists, List.find?_isSome]
      simpa using hcheios
    obtain ⟨hvazio, lidos, depois, hpedacos, hantes⟩ := List.find?_eq_some_iff_append.mp hfind
    rw [hpedacos, show cabeca.primeiro :: (lidos ++ ultimo :: depois) ++ [[13]] =
      (cabeca.primeiro :: lidos ++ [ultimo]) ++ (depois ++ [[13]]) by simp] at hreads
    obtain ⟨meio, hbefore, hafter⟩ := hreads.split
    rw [hpedacos, List.length_append, List.length_cons] at hchegam
    obtain ⟨menos, hmenos⟩ := hchegam.mono (by omega : lidos.length + 2 ≤ _)
    obtain ⟨hok, htimeout⟩ := lerCabecalhos_reads (c := c) hdemora hbefore
      (fun lido hlido => by simpa using hantes lido hlido) (by simpa using hvazio) hmenos
    by_cases hclock : ∀ volta ∈ menos, a.millis volta < a.millis w.tick + headerTimeoutMs
    · obtain ⟨least, hleast⟩ := hok hclock
      rintro ⟨other, hother⟩
      obtain ⟨w₁, hw₁, hloop⟩ := hleast (max least other) (le_max_left _ _)
      obtain ⟨c₂, w₂, hread, hw₂, -⟩ := hother (max least other) (le_max_right _ _)
      cases hloop.symm.trans hread
      have hlength := hafter.length_le
      rw [← hw₁, hw₂, List.map_append, List.sum_append, List.map_singleton, List.sum_singleton,
        List.length_singleton] at hlength
      omega
    · exact not_entende_of_expira (htimeout (by simpa using hclock))

/-- A modem that always has what is asked for, on a clock that stands still. -/
def semprePronto : Ambiente where
  millis _ := 0
  conecta _ := none
  connected _ := true
  available _ := 1
  entrega _ := 159
  aceita _ := 0

/-- A head with one Content-Length field. -/
def cabecaCurta : Cabeca where
  codigo := ascii "201"
  motivo := ascii "Created"
  campos :=
    [⟨ascii "content-length", ascii " 2", by decide +kernel, by decide +kernel,
      by decide +kernel⟩]
  tamanho := 2
  codigo_digitos := by decide +kernel
  motivo_texto := by decide +kernel
  tamanho_dito := by decide +kernel
  tamanho_ausente := by decide +kernel

/-- A field whose line has 158 bytes. -/
def campoLongo : Campo :=
  ⟨ascii "X", List.replicate 156 97, by decide +kernel, by decide +kernel, by decide +kernel⟩

/-- A head with this field. -/
def cabecaLonga : Cabeca where
  codigo := ascii "200"
  motivo := ascii "OK"
  campos := [campoLongo]
  tamanho := 0
  codigo_digitos := by decide +kernel
  motivo_texto := by decide +kernel
  tamanho_dito := by decide +kernel
  tamanho_ausente _ := rfl

theorem entende_cabecaCurta :
    Entende semprePronto {} { rest := cabecaCurta.bytes ++ ascii "ok" } cabecaCurta
      (ascii "ok") := by
  have hpedacos : cabecaCurta.pedacos.length = 1 := by
    rw [Cabeca.pedacos_of_curta (by decide), List.length_map]
    rfl
  have hchegam : Chegam semprePronto 1 (cabecaCurta.pedacos.length + 2) [1, 5, 9] := by
    rw [hpedacos]
    have hready : ∀ t, semprePronto.available (vez semprePronto t - 1) ≠ 0 := by
      intro t
      show (1 : Int) ≠ 0
      decide
    exact .leitura (.inl rfl) (hready _) (.leitura (.inl rfl) (hready _)
      (.leitura (.inl rfl) (hready _) (.fim _)))
  have hlegivel : Legivel cabecaCurta := (legivel_iff_of_curta (by decide)).mpr fun _ => by decide
  exact (entende_iff rfl (fun _ => le_refl 159) hchegam).mpr ⟨hlegivel, by decide⟩

/-- A line that ends right at the cut passes for the end of the head: what follows it is left to
the body. -/
theorem not_entende_cabecaLonga :
    ¬∀ (a : Ambiente) (c : GsmHttpClient) (w : Socket) (cabeca : Cabeca) (corpo : List UInt8)
      (voltas : List Nat), w.rest = cabeca.bytes ++ corpo → SemDemora a →
      Chegam a (w.tick + 1) (cabeca.pedacos.length + 2) voltas →
      (∀ volta ∈ voltas, a.millis volta < a.millis w.tick + headerTimeoutMs) →
      Entende a c w cabeca corpo := by
  have hpedacos : cabecaLonga.pedacos.length = 2 := by
    have hlong : 159 ≤ (campoLongo.linha ++ [13]).length := by decide +kernel
    have hshort : ((campoLongo.linha ++ [13]).drop 159).length < 159 := by decide +kernel
    rw [Cabeca.pedacos, cuts_of_lt (by decide)]
    show ([] ++ (cuts 159 (campoLongo.linha ++ [13]) ++ [])).length = 2
    rw [cuts_of_le (by decide) hlong, cuts_of_lt hshort]
    rfl
  have hchegam : Chegam semprePronto 1 (cabecaLonga.pedacos.length + 2) [1, 5, 9, 13] := by
    have hready : ∀ t, semprePronto.available (vez semprePronto t - 1) ≠ 0 := by
      intro t
      show (1 : Int) ≠ 0
      decide
    rw [hpedacos]
    exact .leitura (.inl rfl) (hready _) (.leitura (.inl rfl) (hready _)
      (.leitura (.inl rfl) (hready _) (.leitura (.inl rfl) (hready _) (.fim _))))
  intro hall
  obtain ⟨least, hleast⟩ := hall semprePronto {} { rest := cabecaLonga.bytes ++ ascii "ok" }
    cabecaLonga (ascii "ok") _ rfl (fun _ => le_refl 159) hchegam (by decide)
  obtain ⟨c', w', hread, hrest, -⟩ := hleast (3 + least) (by omega)
  have hcut : (lerCabecalhos semprePronto 3 {} { rest := cabecaLonga.bytes ++ ascii "ok" }).map
      (·.2.2.rest) = some (ascii "\r\nok") := by
    decide +kernel
  obtain ⟨saida, hsaida, hleft⟩ := Option.map_eq_some_iff.mp hcut
  rw [lerCabecalhos_eq] at hsaida hread
  cases (lerLinhas_mono hsaida).symm.trans hread
  exact absurd (hrest.symm.trans hleft) (by decide)

end GsmHttpClient

end FirmwareUpdater
