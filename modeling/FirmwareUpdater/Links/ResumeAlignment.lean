import FirmwareUpdater.Gprs.DownloadStream
import FirmwareUpdater.Gprs.RangeStart
import FirmwareUpdater.Esp32.Esp32HttpClient

/-!
# Where a resumed download starts

After a `beginDownload` that succeeds, `resumedAt` is to be the offset in the image of
the first byte of the body. The modem's client takes it from what it read as
Content-Range, whatever the status, and the ESP client from its own request.
`resume_alignment_iff` says when each of them is right.
-/

namespace FirmwareUpdater.Links

open GsmHttpClient

/-- The modem's socket once the request of a download is out. -/
def requested (a : Ambiente) (alvo : Alvo) (rangeOffset : UInt32) (w : Socket) : Socket :=
  let range :=
    if rangeOffset > 0 then [ascii ("Range: bytes=" ++ toString rangeOffset.toNat ++ "-\r\n")]
    else []
  Http.imprimirTodas a w (Http.pedido "GET" alvo
    ([ascii "Accept: application/octet-stream\r\n", ascii "Connection: close\r\n"] ++ range ++
      [ascii "\r\n"]))

/-- What the server of a download sends, and the reads of it that are used as header lines. -/
def answered {σ : Type} (a : Ambiente) (rounds : Nat) (s : Http σ) (url : Option CString)
    (rangeOffset : UInt32) : Option (List UInt8 × List (List UInt8)) :=
  (s.endDownload.begun a url).map fun (alvo, t) =>
    let w := requested a alvo rangeOffset t.socket
    (w.rest, camposDaCabeca a rounds w)

/-- A download of the modem's client starts where the last of these reads says that gives a
start. -/
theorem modem_start {σ : Type} {a : Ambiente} {rounds : Nat} {s t : Http σ}
    {url : Option CString} {rangeOffset : UInt32} {stream : List UInt8}
    {lidos : List (List UInt8)} (h : s.beginDownload a rounds url rangeOffset = some (.ok, t))
    (hanswered : answered a rounds s url rangeOffset = some (stream, lidos)) :
    t.cliente.resumedAt = (lidos.filterMap inicioLido).getLast?.getD 0 ∧
      ∀ (cabeca : Cabeca) (corpo : List UInt8), stream = cabeca.bytes ++ corpo →
        SemDemora a → lidos = cabeca.usados := by
  obtain ⟨⟨alvo, u⟩, hbegun, hreads⟩ := Option.map_eq_some_iff.mp hanswered
  obtain ⟨rfl, rfl⟩ := Prod.mk.inj hreads
  obtain ⟨hurl, hsplit, hopen⟩ := Http.begun_eq_some hbegun
  simp only [Http.beginDownload, hurl, hsplit, hopen, Bool.not_true, Bool.false_eq_true, if_false,
    bind, Option.bind_eq_some_iff] at h
  obtain ⟨⟨erro, cliente, socket⟩, hhead, h⟩ := h
  by_cases herro : erro = .ok
  · subst herro
    rw [if_neg (fun hne => hne rfl)] at h
    split at h
    · cases h
    cases h
    refine ⟨?_, fun cabeca corpo hstream hdemora => camposDaCabeca_eq hdemora hstream hhead⟩
    obtain ⟨status, rfl⟩ := lerCabecalhos_ok hhead
    exact usar_resumedAt _ _
  · rw [if_pos herro] at h
    cases h
    exact absurd rfl herro

/-- A download of the ESP client starts where it asked for, if the status is 206, and else at the
first byte. -/
theorem library_start {lib : EspHttp} {c c' : Esp32HttpClient} {url : Option CString}
    {rangeOffset : UInt32} (h : c.beginDownload lib url rangeOffset = (.ok, c')) :
    lib.statusCode = 206 ∧ c'.resumedAt = rangeOffset ∨
      lib.statusCode = 200 ∧ c'.resumedAt = 0 := by
  unfold Esp32HttpClient.beginDownload at h
  split at h
  · cases h
  split at h
  · cases h
  extract_lets _ _ _ _ len answered read whole at h
  have hstatus : read.status = lib.statusCode := by
    show (if len > 0 then _ else answered).status = _
    split <;> rfl
  rw [← hstatus]
  split at h
  · cases h
  split at h
  · cases h
  split at h
  · next hpart =>
      cases h
      exact .inl ⟨hpart, rfl⟩
  split at h
  · next hwhole =>
      split at h
      · cases h
      · obtain ⟨-, rfl⟩ := Prod.mk.inj h
        exact .inr ⟨hwhole, rfl⟩
  · cases h

/-- A download that begins with this head starts where its body does: the modem's exactly if the
last read of the head that gives a start gives that one, the ESP client's exactly if the image is
whole or the server starts where it was asked to. Without a time-out the reads are those of the
head. -/
theorem resume_alignment_iff {cabeca : Cabeca} {n : Nat} (hn : cabeca.PrimeiroByte n) :
    (∀ {σ : Type} {a : Ambiente} {rounds : Nat} {s t : Http σ} {url : Option CString}
      {rangeOffset : UInt32} {corpo : List UInt8} {lidos : List (List UInt8)},
      s.beginDownload a rounds url rangeOffset = some (.ok, t) →
      answered a rounds s url rangeOffset = some (cabeca.bytes ++ corpo, lidos) →
      (t.cliente.resumedAt.toNat = n ↔ cabeca.DizInicio n lidos) ∧
        (SemDemora a → lidos = cabeca.usados)) ∧
    (∀ {lib : EspHttp} {c c' : Esp32HttpClient} {url : Option CString} {rangeOffset : UInt32},
      lib.statusCode = cabeca.status → c.beginDownload lib url rangeOffset = (.ok, c') →
      (c'.resumedAt.toNat = n ↔ cabeca.status = 200 ∨ n = rangeOffset.toNat)) := by
  constructor
  · intro σ a rounds s t url rangeOffset corpo lidos hbegin hanswered
    obtain ⟨hstart, hreads⟩ := modem_start hbegin hanswered
    refine ⟨?_, hreads cabeca corpo rfl⟩
    rw [hstart]
    exact dizInicio_iff hn lidos
  · intro lib c c' url rangeOffset hstatus hbegin
    rcases library_start hbegin with ⟨hpart, hstart⟩ | ⟨hwhole, hstart⟩
    · rw [hstart]
      have hnotWhole : cabeca.status ≠ 200 := by
        intro hwhole
        rw [hstatus, hwhole] at hpart
        cases hpart
      constructor
      · intro hsame
        exact .inr hsame.symm
      · intro h
        exact (h.resolve_left hnotWhole).symm
    · have hwhole' : cabeca.status = 200 := Int.ofNat_inj.mp (hstatus.symm.trans hwhole)
      obtain rfl : n = 0 := by
        cases hn with
        | inteira => rfl
        | parte hpart =>
            rw [hwhole'] at hpart
            cases hpart
      rw [hstart]
      exact iff_of_true rfl (.inl hwhole')

/-- A field for the bytes five and six of seven. -/
def campoIntervalo : Campo :=
  ⟨ascii "Content-Range", ascii " bytes 5-6/7", by decide +kernel, by decide +kernel,
    by decide +kernel⟩

/-- The reason and the code of a success. -/
theorem motivo_ok : ∀ b ∈ ascii "OK", texto b := by decide +kernel

@[inherit_doc motivo_ok]
theorem codigo_200 : (ascii "200").length = 3 ∧ ∀ b ∈ ascii "200", isdigit b := by
  decide +kernel

/-- A head with this field. -/
def comIntervalo (codigo : List UInt8) (h : codigo.length = 3 ∧ ∀ b ∈ codigo, isdigit b) :
    Cabeca where
  codigo := codigo
  motivo := ascii "OK"
  campos := [campoIntervalo]
  tamanho := 0
  codigo_digitos := h
  motivo_texto := motivo_ok
  tamanho_dito := by
    intro campo hcampo hlength
    obtain rfl := List.mem_singleton.mp hcampo
    revert hlength
    decide
  tamanho_ausente _ := rfl

/-- A partial response. -/
def cabecaParcial : Cabeca := comIntervalo (ascii "206") (by decide +kernel)

/-- The same field with the whole image. -/
def cabecaInteira : Cabeca := comIntervalo (ascii "200") codigo_200

/-- A modem whose server sends this head and two bytes. -/
def servindo (cabeca : Cabeca) : Ambiente :=
  { semprePronto with conecta _ := some (cabeca.bytes ++ ascii "Hi") }

/-- The library's answers to a response with this status. -/
def espServindo (status : Int) : EspHttp where
  init := true
  opens := true
  taken _ := 64
  fetchHeaders := 2
  statusCode := status
  read n := some ((ascii "Hi").take n)

theorem primeiroByte_parcial : cabecaParcial.PrimeiroByte 5 := by
  refine .parte (by decide) ⟨campoIntervalo, List.mem_singleton.mpr rfl, by decide⟩ ?_
  intro campo hcampo _
  obtain rfl := List.mem_singleton.mp hcampo
  exact ⟨⟨ascii "bytes", ascii "5", ascii "6", ascii "7", by decide +kernel, by decide +kernel,
    by decide +kernel, .inr (by decide +kernel)⟩, by decide +kernel, by decide +kernel⟩

/-- Both clients resume at the fifth byte where they asked to. -/
theorem resume_alignment_parcial :
    ∃ (url : CString) (t : Http Unit) (c : Esp32HttpClient),
      Http.ocioso.beginDownload (servindo cabecaParcial) 3 (some url) 5 = some (.ok, t) ∧
      Esp32HttpClient.beginDownload (espServindo 206) {} (some url) 5 = (.ok, c) ∧
      t.cliente.resumedAt.toNat = 5 ∧ c.resumedAt.toNat = 5 := by
  have hok : (Http.ocioso.beginDownload (servindo cabecaParcial) 3
      (some (.ofBytes (ascii "http://h/"))) 5).map Prod.fst = some .ok := by
    decide +kernel
  have hanswered : (answered (servindo cabecaParcial) 3 Http.ocioso
      (some (.ofBytes (ascii "http://h/"))) 5).map Prod.fst =
        some (cabecaParcial.bytes ++ ascii "Hi") := by
    decide +kernel
  obtain ⟨⟨erro, t⟩, hbegin, rfl⟩ := Option.map_eq_some_iff.mp hok
  obtain ⟨⟨stream, lidos⟩, hstream, rfl⟩ := Option.map_eq_some_iff.mp hanswered
  obtain ⟨hmodem, hlibrary⟩ := resume_alignment_iff primeiroByte_parcial
  obtain ⟨hiff, hreads⟩ := hmodem hbegin hstream
  obtain rfl := hreads fun _ => Nat.le_refl 159
  obtain ⟨c, hlater⟩ : ∃ c, Esp32HttpClient.beginDownload (espServindo 206) {}
      (some (.ofBytes (ascii "http://h/"))) 5 = (.ok, c) := ⟨_, rfl⟩
  refine ⟨_, t, c, hbegin, hlater, hiff.mpr ?_, (hlibrary rfl hlater).mpr (.inr rfl)⟩
  exact (dizInicio_of_curta (by decide) (by decide) primeiroByte_parcial).mpr (by decide)

/-- A whole image with a Content-Range field is taken for its end, and a server that starts
elsewhere than asked is not noticed. -/
theorem not_resume_alignment :
    (∃ (url : CString) (t : Http Unit),
      Http.ocioso.beginDownload (servindo cabecaInteira) 3 (some url) 0 = some (.ok, t) ∧
      (∃ lidos, answered (servindo cabecaInteira) 3 Http.ocioso (some url) 0 =
        some (cabecaInteira.bytes ++ ascii "Hi", lidos)) ∧
      cabecaInteira.PrimeiroByte 0 ∧ t.cliente.resumedAt = 5) ∧
    ∃ (url : CString) (c : Esp32HttpClient),
      Esp32HttpClient.beginDownload (espServindo 206) {} (some url) 3 = (.ok, c) ∧
      cabecaParcial.status = 206 ∧ cabecaParcial.PrimeiroByte 5 ∧ c.resumedAt = 3 := by
  constructor
  · have hok : (Http.ocioso.beginDownload (servindo cabecaInteira) 3
        (some (.ofBytes (ascii "http://h/"))) 0).map
          (fun ended => (ended.1, ended.2.cliente.resumedAt)) = some (.ok, 5) := by
      decide +kernel
    have hanswered : (answered (servindo cabecaInteira) 3 Http.ocioso
        (some (.ofBytes (ascii "http://h/"))) 0).map Prod.fst =
          some (cabecaInteira.bytes ++ ascii "Hi") := by
      decide +kernel
    obtain ⟨⟨erro, t⟩, hbegin, hended⟩ := Option.map_eq_some_iff.mp hok
    obtain ⟨⟨stream, lidos⟩, hstream, rfl⟩ := Option.map_eq_some_iff.mp hanswered
    obtain ⟨rfl, hstart⟩ := Prod.mk.inj hended
    exact ⟨_, t, hbegin, ⟨lidos, hstream⟩, .inteira (by decide), hstart⟩
  · exact ⟨.ofBytes (ascii "http://h/"), _, rfl, by decide, primeiroByte_parcial, rfl⟩

end FirmwareUpdater.Links
