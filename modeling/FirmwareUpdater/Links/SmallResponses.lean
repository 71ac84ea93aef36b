import FirmwareUpdater.Gprs.CompleteBody
import FirmwareUpdater.Gprs.SmallBody
import FirmwareUpdater.Esp32.Esp32HttpClient

/-!
# Small responses on both links

For a response that both clients receive, `postJson` and `get` leave the same text in
the output and the same status. The lengths they report differ: one counts the body,
the other what the output holds. The two agree exactly if the whole body fits
(`small_responses_iff`).
-/

namespace FirmwareUpdater.Links

open GsmHttpClient

/-- A request both clients have. -/
inductive Question where
  | postJson (url body : CString)
  | get (url : CString)

namespace Question

def url : Question → CString
  | .postJson url _ => url
  | .get url => url

/-- The bytes of its own body. -/
def body : Question → List UInt8
  | .postJson _ body => body.bytes
  | .get _ => []

/-- The request of the modem's client. -/
def requisicao : Question → Http.Requisicao
  | .postJson url body => .postJson (some url) (some body)
  | .get url => .get (some url)

/-- The modem's socket once the request is out. -/
def sent (a : Ambiente) : Question → Alvo → Socket → Socket
  | .postJson _ body, alvo, w =>
      let w := Http.imprimirTodas a w (Http.pedido "POST" alvo
        [ascii "Content-Type: application/json\r\n", ascii "Connection: close\r\n",
          ascii ("Content-Length: " ++ toString body.bytes.length ++ "\r\n\r\n")])
      if body.bytes = [] then w else w.imprimir a body.bytes
  | .get _, alvo, w =>
      Http.imprimirTodas a w (Http.pedido "GET" alvo [ascii "Connection: close\r\n\r\n"])

/-- The call of the ESP client. -/
def ask (lib : EspHttp) (c : Esp32HttpClient) (out : Saida) (res : HttpResponse) :
    Question → HttpError × Saida × HttpResponse × Esp32HttpClient × EspHandle
  | .postJson url body => Esp32HttpClient.postJson lib c (some url) (some body) out res
  | .get url => Esp32HttpClient.get lib c (some url) out res

end Question

/-- How the body behind a head is delimited. -/
inductive Delimits (cabeca : Cabeca) : Option Framing → Prop where
  | chunked : cabeca.NomeiaChunked → Delimits cabeca (some .chunked)
  | contentLength : ¬cabeca.NomeiaChunked → 0 < cabeca.tamanho →
      Delimits cabeca (some (.contentLength cabeca.tamanho.toNat))
  | close : ¬cabeca.NomeiaChunked → cabeca.tamanho = 0 → Delimits cabeca none

/-- A head comes that `lerCabecalhos` can read, with `raw` behind it: it is legible, no read of it
times out, and its end is read before the deadline. -/
structure HeadArrives (a : Ambiente) (w : Socket) (cabeca : Cabeca) (raw : List UInt8) : Prop where
  rest : w.rest = cabeca.bytes ++ raw
  legivel : Legivel cabeca
  semDemora : SemDemora a
  chegam : ∃ voltas, Chegam a (w.tick + 1) (cabeca.pedacos.length + 2) voltas ∧
    ∀ volta ∈ voltas, a.millis volta < a.millis w.tick + headerTimeoutMs

/-- The modem's side of a response with that head and the body `b`: the connection opens, the head
comes, and from its end on the body is handed over before the deadline, in whatever pieces. -/
def ModemAnswers {σ : Type} (a : Ambiente) (s : Http σ) (question : Question) (cabeca : Cabeca)
    (b : List UInt8) : Prop :=
  ∃ alvo t framing raw, s.begun a (some question.url) = some (alvo, t) ∧
    Delimits cabeca framing ∧
    HeadArrives a (question.sent a alvo t.socket) cabeca raw ∧
    ∀ rounds c w,
      lerCabecalhos a rounds t.cliente (question.sent a alvo t.socket) = some (.ok, c, w) →
      Entregue a (a.millis w.tick + idleTimeoutMs) framing w.passo b

/-- The library's side: the request goes out, and a read gives as much of the body as it asks
for. -/
structure LibraryAnswers (lib : EspHttp) (question : Question) (cabeca : Cabeca)
    (b : List UInt8) : Prop where
  init : lib.init = true
  opens : lib.opens = true
  taken : question.body.length ≤ lib.taken 0
  headers : 0 ≤ lib.fetchHeaders
  status : lib.statusCode = cabeca.status
  read : ∀ n, lib.read n = some (b.take n)

/-- The framing of the head is the one the client uses. -/
theorem delimitacao_eq {cabeca : Cabeca} {framing : Option Framing} {c : GsmHttpClient}
    (h : Delimits cabeca framing) (hlength : c.length = cabeca.tamanho)
    (hchunked : c.chunked = true ↔ cabeca.NomeiaChunked) : c.delimitacao = framing := by
  unfold delimitacao GsmHttpClient.framing
  cases h with
  | chunked hnames => simp [hchunked.mpr hnames]
  | contentLength hsilent hpos =>
      have hplain : c.chunked = false := by
        simpa using fun hnames => hsilent (hchunked.mp hnames)
      simp [hplain, hlength, hpos]
  | close hsilent hzero =>
      have hplain : c.chunked = false := by
        simpa using fun hnames => hsilent (hchunked.mp hnames)
      simp [hplain, hlength, hzero]

/-- What the modem's client returns. -/
theorem modem_returns {σ : Type} {a : Ambiente} {s : Http σ} {question : Question}
    {cabeca : Cabeca} {b : List UInt8} {out : Saida} (hout : out.Inteira) (hpos : 1 ≤ out.cap)
    (res : HttpResponse) (h : ModemAnswers a s question cabeca b) :
    ∃ least, ∀ rounds, least ≤ rounds → ∃ t,
      s.fazer a rounds out res question.requisicao =
        some (.ok, out.comTexto b, ⟨cabeca.status, b.length⟩, t) := by
  obtain ⟨alvo, t, framing, raw, hbegun, hdelimits, harrives, hbody⟩ := h
  obtain ⟨voltas, hchegam, hclock⟩ := harrives.chegam
  obtain ⟨least, hleast⟩ := (entende_iff (c := t.cliente) harrives.rest harrives.semDemora
    hchegam).mpr ⟨harrives.legivel, hclock⟩
  obtain ⟨c, w, hhead, -, hstatus, hlength, hchunked⟩ := hleast least (Nat.le_refl _)
  have hsituado := situado_cabeca hhead
  rw [delimitacao_eq hdelimits hlength hchunked] at hsituado
  obtain ⟨more, hmore⟩ := lerResposta_entregue hout hpos hsituado (hbody least c w hhead)
  refine ⟨max least more, fun rounds hle => ?_⟩
  obtain ⟨extra, hextra⟩ := Nat.exists_eq_add_of_le ((Nat.le_max_left _ _).trans hle)
  obtain ⟨c', w', hread, hkept⟩ := hmore rounds ((Nat.le_max_right _ _).trans hle)
  have hheadMore : lerCabecalhos a rounds t.cliente (question.sent a alvo t.socket) =
      some (.ok, c, w) := by
    rw [lerCabecalhos_eq] at hhead ⊢
    rw [hextra]
    exact lerLinhas_mono hhead
  have hsent : question.requisicao.enviar a rounds alvo t.socket =
      some (true, question.sent a alvo t.socket) := by
    cases question <;> rfl
  have hcall : ∀ start : HttpResponse, Http.trocar a rounds s (some question.url)
      (question.requisicao.enviar a rounds) (out.terminar 0) start =
        some (.ok, out.comTexto b, ⟨c'.status, b.length⟩, _) :=
    fun _ => Http.trocar_answered hbegun hsent hheadMore hread
  rw [← hstatus, ← hkept]
  cases question with
  | postJson url body => exact ⟨_, hcall res⟩
  | get url => exact ⟨_, hcall {}⟩

/-- The one read of a small response leaves what fits of the body. -/
theorem lerPequena_texto {lib : EspHttp} {b : List UInt8} {out : Saida} (hout : out.Inteira)
    (hpos : 1 ≤ out.cap) (res : HttpResponse) (hread : ∀ n, lib.read n = some (b.take n))
    (hzero : res.bodyLen = 0) :
    Esp32HttpClient.lerPequena lib (out.terminar 0) res =
      (out.comTexto b, { res with bodyLen := min b.length (out.cap - 1) }) := by
  have hcap : (out.terminar 0).cap = out.cap := by
    unfold Saida.terminar
    split <;> rfl
  have hthere : (out.terminar 0).buf.isSome := by
    obtain ⟨buf, hbuf, -⟩ := hout
    rw [Saida.terminar, if_pos (show out.cap > 0 from hpos)]
    simp [Saida.copiar, hbuf]
  have htext := Saida.guardado_copiar hout hpos b
  rw [Saida.guardado, hcap] at htext
  unfold Esp32HttpClient.lerPequena
  by_cases hroom : 1 < out.cap
  · rw [if_pos ⟨hthere, by rw [hcap]; exact hroom⟩, hread, hcap]
    simp only [Option.getD_some, List.length_take, Nat.min_comm (out.cap - 1)]
    rw [htext]
  · -- With room for the terminator alone nothing is read.
    have hone : out.cap = 1 := by omega
    have hempty : out.terminar 0 = out.comTexto b := by
      obtain ⟨buf, hbuf, -⟩ := hout
      rw [Saida.terminar, if_pos (show out.cap > 0 from hpos)]
      simp [Saida.copiar, Saida.comTexto, hbuf, hone]
    have hres : ({ res with bodyLen := min b.length (out.cap - 1) } : HttpResponse) = res := by
      rw [hone, Nat.sub_self, Nat.min_zero, ← hzero]
    rw [if_neg (by rw [hcap]; omega), hempty, hres]

/-- What the ESP client returns. -/
theorem library_returns {lib : EspHttp} {question : Question} {cabeca : Cabeca}
    {b : List UInt8} {out : Saida} (hout : out.Inteira) (hpos : 1 ≤ out.cap)
    (c : Esp32HttpClient) (res : HttpResponse) (h : LibraryAnswers lib question cabeca b) :
    ∃ c' handle, question.ask lib c out res =
      (.ok, out.comTexto b, ⟨cabeca.status, min b.length (out.cap - 1)⟩, c', handle) := by
  have hstatus := h.status
  have hread := lerPequena_texto hout hpos { status := cabeca.status } h.read rfl
  have hheaders : ¬lib.fetchHeaders < 0 := Int.not_lt.mpr h.headers
  have hreceive : Esp32HttpClient.receber lib c (out.terminar 0) {} =
      (.ok, out.comTexto b, ⟨cabeca.status, min b.length (out.cap - 1)⟩,
        { c with status := cabeca.status }) := by
    rw [Esp32HttpClient.receber, if_neg hheaders]
    simp only [hstatus, hread]
  cases question with
  | postJson url body =>
      have htaken : body.bytes.take (lib.taken 0) = body.bytes := List.take_of_length_le h.taken
      have hlength : ¬body.bytes.length ≠ body.length := fun hne => hne rfl
      simp only [Question.ask, Esp32HttpClient.postJson, h.init, h.opens, hreceive, Bool.not_true,
        Bool.false_eq_true, if_false, EspHandle.write, EspHandle.open_, EspHandle.setHeader,
        htaken, if_neg hlength]
      exact ⟨_, _, rfl⟩
  | get url =>
      simp only [Question.ask, Esp32HttpClient.get, h.init, h.opens, hreceive, Bool.not_true,
        Bool.false_eq_true, if_false]
      exact ⟨_, _, rfl⟩

/-- Both clients return success with the same text in the output, the same status and the same
length, which is that of the text. -/
def Agree {σ : Type} (a : Ambiente) (s : Http σ) (lib : EspHttp) (c : Esp32HttpClient)
    (question : Question) (out : Saida) (res : HttpResponse) (cabeca : Cabeca)
    (b : List UInt8) : Prop :=
  ∃ least, ∀ rounds, least ≤ rounds → ∃ out' res' t c' handle,
    s.fazer a rounds out res question.requisicao = some (.ok, out', res', t) ∧
    question.ask lib c out res = (.ok, out', res', c', handle) ∧
    out' = out.comTexto b ∧ res' = ⟨cabeca.status, min b.length (out.cap - 1)⟩

/-- They agree exactly if the whole body fits the output, with its terminator. -/
theorem small_responses_iff {σ : Type} {a : Ambiente} {s : Http σ} {lib : EspHttp}
    (c : Esp32HttpClient) {question : Question} {out : Saida} (res : HttpResponse)
    {cabeca : Cabeca} {b : List UInt8} (hout : out.Inteira) (hpos : 1 ≤ out.cap)
    (hmodem : ModemAnswers a s question cabeca b)
    (hlibrary : LibraryAnswers lib question cabeca b) :
    Agree a s lib c question out res cabeca b ↔ b.length < out.cap := by
  obtain ⟨least, hleast⟩ := modem_returns hout hpos res hmodem
  obtain ⟨c', handle, hask⟩ := library_returns hout hpos c res hlibrary
  constructor
  · rintro ⟨other, hother⟩
    obtain ⟨t, hgsm⟩ := hleast (max least other) (Nat.le_max_left _ _)
    obtain ⟨out', res', t', -, -, hfazer, -, -, rfl⟩ :=
      hother (max least other) (Nat.le_max_right _ _)
    have hsame := congrArg (Option.map (·.2.2.1.bodyLen)) (hgsm.symm.trans hfazer)
    have hlength : b.length = min b.length (out.cap - 1) := by simpa using hsame
    omega
  · intro hfits
    have hlength : min b.length (out.cap - 1) = b.length := by omega
    rw [hlength] at hask
    refine ⟨least, fun rounds hle => ?_⟩
    obtain ⟨t, hgsm⟩ := hleast rounds hle
    exact ⟨_, _, t, c', handle, hgsm, hask, rfl, by rw [hlength]⟩

/-- A modem that always has two bytes and a server that sends two behind the head. -/
def doisBytes : Ambiente where
  millis _ := 0
  conecta _ := some (cabecaCurta.bytes ++ ascii "Hi")
  connected _ := true
  available _ := 2
  entrega _ := 159
  aceita _ := 64

/-- The address asked for. -/
def endereco : CString := .ofBytes (ascii "http://h/")

/-- The same response from the library. -/
def espDoisBytes : EspHttp where
  init := true
  opens := true
  taken _ := 64
  fetchHeaders := 2
  statusCode := 201
  read n := some ((ascii "Hi").take n)

/-- The modem's side of the sample. -/
theorem modemAnswers_doisBytes :
    ModemAnswers doisBytes Http.ocioso (.get endereco) cabecaCurta (ascii "Hi") := by
  have hrest : (Http.ocioso.begun doisBytes (some endereco)).map (fun begun =>
      ((Question.get endereco).sent doisBytes begun.1 begun.2.socket).rest) =
        some (cabecaCurta.bytes ++ ascii "Hi") := by
    decide +kernel
  obtain ⟨⟨alvo, t⟩, hbegun, hsent⟩ := Option.map_eq_some_iff.mp hrest
  have hpedacos : cabecaCurta.pedacos.length = 1 := by
    rw [Cabeca.pedacos_of_curta (by decide), List.length_map]
    rfl
  have hready : ∀ t, doisBytes.available (vez doisBytes t - 1) ≠ 0 := by
    intro t
    show (2 : Int) ≠ 0
    decide
  obtain ⟨voltas, hchegam⟩ : ∃ voltas, Chegam doisBytes
      (((Question.get endereco).sent doisBytes alvo t.socket).tick + 1)
      (cabecaCurta.pedacos.length + 2) voltas := by
    rw [hpedacos]
    exact ⟨_, .leitura (.inl rfl) (hready _) (.leitura (.inl rfl) (hready _)
      (.leitura (.inl rfl) (hready _) (.fim _)))⟩
  have hlegivel : Legivel cabecaCurta := (legivel_iff_of_curta (by decide)).mpr fun _ => by decide
  have hclock : ∀ volta ∈ voltas, (0 : UInt32) < 0 + headerTimeoutMs := fun _ _ => by decide
  have hsilent : ¬cabecaCurta.NomeiaChunked := by
    rintro ⟨campo, hcampo, hnames⟩
    obtain rfl := List.mem_singleton.mp hcampo
    revert hnames
    decide
  refine ⟨alvo, t, _, _, hbegun, .contentLength hsilent (by decide),
    ⟨hsent, hlegivel, fun _ => Nat.le_refl 159, voltas, hchegam, hclock⟩, ?_⟩
  intro rounds c w hhead
  -- The head leaves the two bytes in the socket.
  obtain ⟨least, hleast⟩ := (entende_iff (c := t.cliente) hsent (fun _ => Nat.le_refl 159)
    hchegam).mpr ⟨hlegivel, hclock⟩
  obtain ⟨c', w', hread, hrest, -⟩ := hleast (rounds + least) (Nat.le_add_left _ _)
  rw [lerCabecalhos_eq] at hhead hread
  cases (lerLinhas_mono hhead).symm.trans hread
  obtain ⟨rest, enviado, tick⟩ := w
  obtain rfl : rest = ascii "Hi" := hrest
  refine .inl ⟨ascii "Hi", ?_, rfl⟩
  exact chega_de_uma_vez (w := ⟨ascii "Hi", enviado, tick + 1⟩)
    (by decide : (0 : UInt32) < 0 + idleTimeoutMs) (by decide : ascii "Hi" ≠ [])
    (by decide : 2 < 128) (Int.le_refl 2) (by decide : 2 ≤ 159)

/-- The library's side of the sample. -/
theorem libraryAnswers_doisBytes :
    LibraryAnswers espDoisBytes (.get endereco) cabecaCurta (ascii "Hi") :=
  ⟨rfl, rfl, Nat.zero_le _, by decide, by decide, fun _ => rfl⟩

/-- Two bytes fit an output of four. -/
theorem small_responses_doisBytes :
    Agree doisBytes Http.ocioso espDoisBytes {} (.get endereco) ⟨some [1, 2, 3, 4], 4⟩ {}
      cabecaCurta (ascii "Hi") :=
  (small_responses_iff {} {} ⟨_, rfl, rfl⟩ (by decide) modemAnswers_doisBytes
    libraryAnswers_doisBytes).mpr (by decide)

/-- Of two bytes an output of two holds one: the modem's client reports both. -/
theorem not_agree_doisBytes :
    ModemAnswers doisBytes Http.ocioso (.get endereco) cabecaCurta (ascii "Hi") ∧
      LibraryAnswers espDoisBytes (.get endereco) cabecaCurta (ascii "Hi") ∧
      ¬Agree doisBytes Http.ocioso espDoisBytes {} (.get endereco) ⟨some [0, 0], 2⟩ {}
        cabecaCurta (ascii "Hi") := by
  refine ⟨modemAnswers_doisBytes, libraryAnswers_doisBytes, ?_⟩
  rintro ⟨other, hother⟩
  have hout : (⟨some [0, 0], 2⟩ : Saida).Inteira := ⟨_, rfl, rfl⟩
  obtain ⟨least, hleast⟩ := modem_returns hout (by decide) {} modemAnswers_doisBytes
  obtain ⟨t, hgsm⟩ := hleast (max least other) (Nat.le_max_left _ _)
  obtain ⟨out', res', t', -, -, hfazer, -, -, rfl⟩ :=
    hother (max least other) (Nat.le_max_right _ _)
  have hsame := congrArg (Option.map (·.2.2.1.bodyLen)) (hgsm.symm.trans hfazer)
  exact absurd (Option.some.inj hsame) (by decide : (2 : Nat) ≠ min 2 (2 - 1))

end FirmwareUpdater.Links
