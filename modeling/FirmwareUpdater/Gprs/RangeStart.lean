import FirmwareUpdater.Core.ContentRange
import FirmwareUpdater.Gprs.Exchanges
import FirmwareUpdater.Gprs.HeadFields

/-!
# The start of a download

`beginDownload` takes the start of the body from the last read of the head that counts
as a Content-Range and gives a number (`usar_resumedAt`). Of a field that was read
whole this is the first position of its range (`inicioLido_linha`); a line that is
longer than the buffer is read in pieces, of which each may count.
-/

namespace FirmwareUpdater

open Library.LineCuts

namespace GsmHttpClient

/-- The digits of `strpbrk`. -/
theorem mem_digits (b : UInt8) : b ∈ ascii "0123456789" ↔ isdigit b = true := by
  have hall : ∀ n : Fin 256,
      UInt8.ofNat n ∈ ascii "0123456789" ↔ isdigit (UInt8.ofNat n) = true := by
    decide +kernel
  simpa using hall ⟨b.toNat, b.toNat_lt⟩

/-- The scan of a Content-Range line finds its first number behind a blank, as long as there is no
equals sign. -/
theorem scan_number {linha : CString} {antes digitos depois : List UInt8}
    (hlinha : linha.bytes = antes ++ (digitos ++ depois))
    (hblank : 32 ∈ antes) (hantes : ∀ b ∈ antes, b ≠ 61 ∧ isdigit b = false)
    (hne : digitos ≠ []) (hdigitos : ∀ b ∈ digitos, isdigit b)
    (hequals : 61 ∉ digitos ++ depois) (hend : ∀ b ∈ depois.head?, ¬isdigit b) :
    ∃ traco ini, linha.find [32] = some traco ∧ traco.find [61] = none ∧
      (traco.drop (traco.bytes.takeWhile (· = 32)).length).find (ascii "0123456789") = some ini ∧
      strtoul ini =
        if decimal digitos > ulongMax then UInt32.ofNat ulongMax
        else UInt32.ofNat (decimal digitos) := by
  obtain ⟨inicio, meio, rfl, hinicio⟩ := List.eq_append_cons_of_mem hblank
  obtain ⟨digito, digitos, rfl⟩ := List.exists_cons_of_ne_nil hne
  have hdigito := hdigitos digito List.mem_cons_self
  rw [List.append_assoc, List.cons_append] at hlinha
  have hbefore : ∀ b ∈ inicio, b ∉ [32] := by
    intro b hb hmem
    obtain rfl := List.mem_singleton.mp hmem
    exact hinicio hb
  obtain ⟨traco, hfind, htraco⟩ := CString.find_append hlinha hbefore (List.mem_singleton.mpr rfl)
  have hclean : ∀ b ∈ 32 :: meio, b ≠ 61 ∧ isdigit b = false := fun b hb =>
    hantes b (List.mem_append_right _ hb)
  have hnone : traco.find [61] = none := by
    refine CString.find_none fun b hb => ?_
    rw [htraco, ← List.cons_append] at hb
    rintro hmem
    obtain rfl := List.mem_singleton.mp hmem
    rcases List.mem_append.mp hb with hb | hb
    · exact (hclean 61 hb).1 rfl
    · exact hequals hb
  -- The blanks that are skipped are not the digits.
  have hskip : (traco.drop (traco.bytes.takeWhile (· = 32)).length).bytes =
      (32 :: meio).dropWhile (· = 32) ++ digito :: (digitos ++ depois) := by
    have hdrop : traco.bytes.drop (traco.bytes.takeWhile (· = 32)).length =
        traco.bytes.dropWhile (· = 32) := by
      have hleft : (traco.bytes.takeWhile (· = 32) ++ traco.bytes.dropWhile (· = 32)).drop
          (traco.bytes.takeWhile (· = 32)).length = traco.bytes.dropWhile (· = 32) :=
        List.drop_left
      rwa [List.takeWhile_append_dropWhile] at hleft
    have hstays : (digito :: (digitos ++ depois)).dropWhile (· = 32) =
        digito :: (digitos ++ depois) := by
      refine List.dropWhile_cons_of_neg ?_
      rw [decide_eq_true_eq]
      rintro rfl
      exact absurd hdigito (by decide)
    show traco.bytes.drop (traco.bytes.takeWhile (· = 32)).length = _
    rw [hdrop, htraco, ← List.cons_append, List.dropWhile_append, List.cons_append, hstays]
    split_ifs with hempty
    · rw [List.isEmpty_iff.mp hempty, List.nil_append]
    · rfl
  have hletters : ∀ b ∈ (32 :: meio).dropWhile (· = 32), b ∉ ascii "0123456789" := by
    intro b hb
    rw [mem_digits, (hclean b ((List.dropWhile_sublist _).subset hb)).2]
    exact Bool.false_ne_true
  obtain ⟨ini, hini, hbytes⟩ := CString.find_append hskip hletters ((mem_digits _).mpr hdigito)
  have hdigits : ini.bytes = [] ++ (digito :: digitos ++ depois) := hbytes
  exact ⟨traco, ini, hfind, hnone, hini, strtoul_digits hdigits (by simp) hne hdigitos hend⟩

/-- A blank is neither a digit nor an equals sign. -/
theorem branco_limpo {b : UInt8} (h : branco b) : b ≠ 61 ∧ isdigit b = false := by
  simp only [branco, Bool.or_eq_true, decide_eq_true_eq] at h
  rcases h with rfl | rfl <;> decide

/-- The line of a field counts as a Content-Range exactly if the field is one. -/
theorem comecaIntervalo_linha (campo : Campo) :
    comecaIntervalo (campo.linha ++ [13]) = campo.EhIntervalo :=
  startsNoCase_linha "Content-Range" (linhaLida_linha campo.linha_texto) (by decide)

/-- The line of a Content-Range field gives the first position of its range, as far as it fits
32 bits. -/
theorem inicioLido_linha {campo : Campo} {n : Nat} (hnome : campo.EhIntervalo)
    (h : campo.ComecaEm n) :
    inicioLido (campo.linha ++ [13]) =
      some (if n > ulongMax then UInt32.ofNat ulongMax else UInt32.ofNat n) := by
  obtain ⟨intervalo, hvalor, rfl⟩ := h
  have hlinha := linhaLida_linha campo.linha_texto
  have hbytes : (linhaLida (campo.linha ++ [13])).bytes =
      (campo.nome ++ 58 :: (campo.valor.takeWhile branco ++ intervalo.unidade ++ [32])) ++
        (intervalo.primeiro ++ (45 :: (intervalo.ultimo ++ 47 :: intervalo.total) ++
          (campo.valor.dropWhile branco).rtakeWhile branco)) := by
    have htrim : campo.valor.takeWhile branco ++ (intervalo.bytes ++
        (campo.valor.dropWhile branco).rtakeWhile branco) = campo.valor := by
      rw [← hvalor, aparar, List.rdropWhile_append_rtakeWhile, List.takeWhile_append_dropWhile]
    rw [hlinha, Campo.linha]
    conv_lhs => rw [← htrim]
    simp [Intervalo.bytes]
  have hblanks : ∀ b ∈ (campo.valor.dropWhile branco).rtakeWhile branco, branco b := fun b hb =>
    List.mem_rtakeWhile_imp hb
  have hantes : ∀ b ∈ campo.nome ++ 58 :: (campo.valor.takeWhile branco ++ intervalo.unidade ++
      [32]), b ≠ 61 ∧ isdigit b = false := by
    intro b hb
    simp only [List.mem_append, List.mem_cons, List.not_mem_nil, or_false] at hb
    rcases hb with hb | rfl | (hb | hb) | rfl
    · exact ehNome_limpo hnome (by decide +kernel) b hb
    · decide
    · exact branco_limpo (List.mem_takeWhile_imp hb)
    · exact intervalo.unidade_limpa b hb
    · decide
  have hequals : 61 ∉ intervalo.primeiro ++ (45 :: (intervalo.ultimo ++ 47 :: intervalo.total) ++
      (campo.valor.dropWhile branco).rtakeWhile branco) := by
    rw [← List.append_assoc, List.mem_append, not_or]
    exact ⟨intervalo.resto_limpo, fun hmem => (branco_limpo (hblanks 61 hmem)).1 rfl⟩
  have hend : ∀ b ∈ (45 :: (intervalo.ultimo ++ 47 :: intervalo.total) ++
      (campo.valor.dropWhile branco).rtakeWhile branco).head?, ¬isdigit b := by
    intro b hb
    obtain rfl := Option.some.inj hb
    decide
  obtain ⟨traco, ini, hfind, hnone, hini, hvalue⟩ := scan_number hbytes (by simp) hantes
    intervalo.primeiro_digitos.1 intervalo.primeiro_digitos.2 hequals hend
  rw [inicioLido, if_pos ((comecaIntervalo_linha campo).trans hnome), hfind, Option.bind_some]
  simp only [hnone, hini, Option.map_some, hvalue]
  rfl

section Reads

variable {a : Ambiente} {rounds : Nat} {c c' : GsmHttpClient} {w w' : Socket}

/-- Without a time-out, the loop uses the reads of the stream up to the first one that looks empty;
the status line comes before them. -/
theorem campos_reads (hdemora : SemDemora a) {primeira : Bool} {lidos todos : List (List UInt8)}
    {rest : List UInt8} (h : Campos a c' primeira c w lidos)
    (hreads : Reads 159 10 w.rest todos rest)
    (hend : ∃ lido ∈ if primeira then todos.tail else todos, (linhaLida lido).length = 0) :
    lidos = (if primeira then todos.tail else todos).takeWhile
      fun lido => (linhaLida lido).length ≠ 0 := by
  induction h generalizing todos with
  | espera _ hrest _ ih => exact ih (hrest ▸ hreads) hend
  | status asked _ hrest _ ih =>
      rw [← hrest] at hreads
      rw [readBytesUntil_eq hdemora] at ih
      cases hreads with
      | done =>
          obtain ⟨lido, hmem, -⟩ := hend
          cases hmem
      | read hmore => exact ih hmore hend
  | vazia asked hrest hempty =>
      rw [← hrest] at hreads
      rw [readBytesUntil_eq hdemora] at hempty
      cases hreads with
      | done =>
          obtain ⟨lido, hmem, -⟩ := hend
          cases hmem
      | read hmore =>
          rw [if_neg Bool.false_ne_true, List.takeWhile_cons_of_neg (by simpa using hempty)]
  | campo asked hrest hline _ ih =>
      rw [← hrest] at hreads
      rw [readBytesUntil_eq hdemora] at hline ih ⊢
      cases hreads with
      | done =>
          obtain ⟨lido, hmem, -⟩ := hend
          cases hmem
      | read hmore =>
          obtain ⟨lido, hmem, hlido⟩ := hend
          rw [if_neg Bool.false_ne_true] at hmem
          have hlater := (List.mem_cons.mp hmem).resolve_left fun heq => hline (heq ▸ hlido)
          rw [if_neg Bool.false_ne_true, List.takeWhile_cons_of_pos (by simpa using hline),
            ih hmore ⟨lido, hlater, hlido⟩, if_neg Bool.false_ne_true]

end Reads

end GsmHttpClient

open GsmHttpClient

namespace Cabeca

/-- The reads of a head that are used as header lines if none times out. -/
def usados (cabeca : Cabeca) : List (List UInt8) :=
  cabeca.pedacos.takeWhile fun lido => (linhaLida lido).length ≠ 0

/-- The last of some reads that gives a start. -/
def ultimoInicio (lidos : List (List UInt8)) : Option (List UInt8) :=
  (lidos.filter fun lido => (inicioLido lido).isSome).getLast?

/-- A read is the line of a Content-Range field of a partial response, whole. -/
def EhIntervaloInteiro (cabeca : Cabeca) (lido : List UInt8) : Prop :=
  cabeca.status = 206 ∧ ∃ campo ∈ cabeca.campos, campo.EhIntervalo ∧ lido = campo.linha ++ [13]

/-- The start `n` of the body is told: the last read that gives a start is such a line, and `n` fits
32 bits, or none gives one and the body starts at its first byte. -/
def Informa (cabeca : Cabeca) (n : Nat) (lidos : List (List UInt8)) : Prop :=
  match ultimoInicio lidos with
  | none => n = 0
  | some lido => cabeca.EhIntervaloInteiro lido ∧ n ≤ ulongMax

/-- The last read that gives a start is no such line, and gives `n` by accident. -/
def Coincide (cabeca : Cabeca) (n : Nat) (lidos : List (List UInt8)) : Prop :=
  ∃ lido ∈ ultimoInicio lidos, ¬ cabeca.EhIntervaloInteiro lido ∧
    (inicioLido lido).map UInt32.toNat = some n

/-- The reads of a head give `n` as the start of its body. -/
def DizInicio (cabeca : Cabeca) (n : Nat) (lidos : List (List UInt8)) : Prop :=
  cabeca.Informa n lidos ∨ cabeca.Coincide n lidos

end Cabeca

namespace GsmHttpClient

variable {a : Ambiente} {rounds : Nat} {c c' : GsmHttpClient} {w w' : Socket}

/-- The reads used of a head. -/
theorem camposDaCabeca_eq {cabeca : Cabeca} {corpo : List UInt8} (hdemora : SemDemora a)
    (hrest : w.rest = cabeca.bytes ++ corpo)
    (h : lerCabecalhos a rounds c w = some (.ok, c', w')) :
    camposDaCabeca a rounds w = cabeca.usados := by
  have hreads := cabeca.reads_bytes corpo
  rw [← hrest] at hreads
  have hend : ∃ lido ∈ if true then (cabeca.primeiro :: cabeca.pedacos ++ [[13]]).tail
      else cabeca.primeiro :: cabeca.pedacos ++ [[13]], (linhaLida lido).length = 0 :=
    ⟨[13], by simp, by decide⟩
  rw [lerCabecalhos_eq] at h
  have hall := campos_reads hdemora (lerLinhas_campos h) hreads hend
  rw [if_pos rfl, List.cons_append, List.tail_cons, List.takeWhile_append] at hall
  rw [camposDaCabeca, hall, Cabeca.usados]
  split_ifs with hfull
  · have hlast : [[13]].takeWhile (fun lido => decide ((linhaLida lido).length ≠ 0)) = [] := by
      decide
    rw [hlast, List.append_nil]
    exact ((List.takeWhile_prefix _).eq_of_length hfull).symm
  · rfl

/-- The start given last is that of the last read that gives one. -/
theorem getLast?_inicioLido (lidos : List (List UInt8)) :
    (lidos.filterMap inicioLido).getLast? =
      (Cabeca.ultimoInicio lidos).bind inicioLido := by
  unfold Cabeca.ultimoInicio
  induction lidos using List.reverseRecOn with
  | nil => rfl
  | append_singleton lidos lido ih =>
      rw [List.filterMap_append, List.filter_append]
      cases hstart : inicioLido lido <;> simp [hstart, ih]

/-- The line of a Content-Range gives the start of the body exactly as far as it fits 32 bits. -/
theorem inicio_intervalo {cabeca : Cabeca} {n : Nat} (hn : cabeca.PrimeiroByte n)
    {lido : List UInt8} (h : cabeca.EhIntervaloInteiro lido) {inicio : UInt32}
    (hinicio : inicioLido lido = some inicio) : inicio.toNat = n ↔ n ≤ ulongMax := by
  obtain ⟨hpart, campo, hcampo, hrange, rfl⟩ := h
  cases hn with
  | inteira hwhole =>
      rw [hwhole] at hpart
      cases hpart
  | parte _ _ htold =>
      rw [inicioLido_linha hrange (htold campo hcampo hrange)] at hinicio
      obtain rfl := Option.some.inj hinicio
      split
      · rename_i hbig
        have hmax : (UInt32.ofNat ulongMax).toNat = ulongMax := rfl
        rw [hmax]
        omega
      · rename_i hfits
        exact iff_of_true (UInt32.toNat_ofNat_of_lt' (Nat.lt_succ_of_le (Nat.not_lt.mp hfits)))
          (Nat.not_lt.mp hfits)

/-- The start that the reads of a head leave is that of the body exactly if the last read that
gives one gives that. -/
theorem dizInicio_iff {cabeca : Cabeca} {n : Nat} (hn : cabeca.PrimeiroByte n)
    (lidos : List (List UInt8)) :
    ((lidos.filterMap inicioLido).getLast?.getD 0).toNat = n ↔ cabeca.DizInicio n lidos := by
  rw [getLast?_inicioLido, Cabeca.DizInicio, Cabeca.Informa, Cabeca.Coincide]
  cases hlast : Cabeca.ultimoInicio lidos with
  | none =>
      show 0 = n ↔ n = 0 ∨ _
      simp [eq_comm]
  | some lido =>
      obtain ⟨inicio, hinicio⟩ := Option.isSome_iff_exists.mp
        (List.mem_filter.mp (List.mem_of_getLast? hlast)).2
      show ((inicioLido lido).getD 0).toNat = n ↔
        (cabeca.EhIntervaloInteiro lido ∧ n ≤ ulongMax) ∨ _
      simp only [hinicio, Option.getD_some, Option.mem_def, Option.some.injEq, exists_eq_left',
        Option.map_some]
      by_cases hwhole : cabeca.EhIntervaloInteiro lido
      · rw [inicio_intervalo hn hwhole hinicio]
        simp [hwhole]
      · simp [hwhole]

/-- Where every line fits into the buffer, the start of a range is right as far as it fits 32
bits. -/
theorem dizInicio_of_curta {cabeca : Cabeca} {n : Nat}
    (hcurta : ∀ linha ∈ cabeca.linhas, linha.length < 158) (hpart : cabeca.status = 206)
    (hn : cabeca.PrimeiroByte n) : cabeca.DizInicio n cabeca.usados ↔ n ≤ ulongMax := by
  cases hn with
  | inteira hwhole =>
      rw [hwhole] at hpart
      cases hpart
  | parte _ hsome htold =>
  have hpedacos := Cabeca.pedacos_of_curta hcurta
  have hfull : ∀ lido ∈ cabeca.pedacos, decide ((linhaLida lido).length ≠ 0) = true := by
    intro lido hlido
    rw [hpedacos] at hlido
    obtain ⟨campo, -, rfl⟩ := List.mem_map.mp hlido
    rw [decide_eq_true_eq, CString.length, linhaLida_linha campo.linha_texto]
    simp [Campo.linha]
  have hused : cabeca.usados = cabeca.campos.map fun campo => campo.linha ++ [13] := by
    rw [Cabeca.usados, List.takeWhile_eq_self_iff.mpr hfull, hpedacos]
  rw [Cabeca.DizInicio, Cabeca.Informa, Cabeca.Coincide]
  cases hlast : Cabeca.ultimoInicio cabeca.usados with
  | none =>
      -- The field gives one.
      obtain ⟨campo, hcampo, hrange⟩ := hsome
      rw [Cabeca.ultimoInicio, List.getLast?_eq_none_iff, List.filter_eq_nil_iff] at hlast
      refine absurd ?_ (hlast (campo.linha ++ [13]) ?_)
      · rw [inicioLido_linha hrange (htold campo hcampo hrange)]
        rfl
      · rw [hused]
        exact List.mem_map_of_mem hcampo
  | some lido =>
      obtain ⟨hmem, hgives⟩ := List.mem_filter.mp (List.mem_of_getLast? hlast)
      rw [hused] at hmem
      obtain ⟨campo, hcampo, rfl⟩ := List.mem_map.mp hmem
      have hrange : campo.EhIntervalo := by
        by_contra hnone
        rw [← comecaIntervalo_linha] at hnone
        rw [inicioLido, if_neg hnone] at hgives
        cases hgives
      have hwhole : cabeca.EhIntervaloInteiro (campo.linha ++ [13]) :=
        ⟨hpart, campo, hcampo, hrange, rfl⟩
      constructor
      · rintro (⟨-, hfits⟩ | ⟨lido, hlido, hnone, -⟩)
        · exact hfits
        · obtain rfl := Option.some.inj hlido
          exact absurd hwhole hnone
      · intro hfits
        exact .inl ⟨hwhole, hfits⟩

end GsmHttpClient

end FirmwareUpdater
