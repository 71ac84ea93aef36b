import FirmwareUpdater.Core.ChunkedDecoder
import FirmwareUpdater.Core.Types
import FirmwareUpdater.Core.Url
import FirmwareUpdater.Gprs.GsmLink

/-!
# HTTP over the cellular link

`GsmHttpClient` speaks HTTP/1.1 into the modem's HTTP socket, under a lease of the
link. The socket holds what its connection will still deliver and what was written
to it; when and in which pieces bytes come and go, how the clock runs and whether a
connection opens is answered, query by query, by an `Ambiente`. A loop that only a
clock ends takes a bound on its rounds and has no result where that is too small.
-/

namespace FirmwareUpdater

/-- The answers of the clock and the modem to the successive queries of a run: `conecta` gives
the stream a new connection will deliver, `entrega` how many bytes a read hands over at most, and
`aceita` how many a write takes at most. -/
structure Ambiente where
  millis : Nat → UInt32
  conecta : Nat → Option (List UInt8)
  connected : Nat → Bool
  available : Nat → Int
  entrega : Nat → Nat
  aceita : Nat → Nat

/-- The HTTP socket: what its connection still delivers, what was written to it, and how many
queries were made so far. -/
structure Socket where
  rest : List UInt8 := []
  enviado : List UInt8 := []
  tick : Nat := 0
  deriving DecidableEq

namespace Socket

/-- One more query was answered. -/
def passo (w : Socket) : Socket := { w with tick := w.tick + 1 }

/-- What `read(buf, n)` hands over: the next bytes, in order. -/
def leitura (w : Socket) (a : Ambiente) (n : Nat) : List UInt8 :=
  w.rest.take (min n (a.entrega w.tick))

/-- The socket after `read(buf, n)`. -/
def depoisDeLer (w : Socket) (a : Ambiente) (n : Nat) : Socket :=
  { w with rest := w.rest.drop (min n (a.entrega w.tick)), tick := w.tick + 1 }

/-- `write`: how many bytes were taken, and the socket after them. -/
def escrever (w : Socket) (a : Ambiente) (bytes : List UInt8) : Nat × Socket :=
  let taken := bytes.take (a.aceita w.tick)
  (taken.length, { w with enviado := w.enviado ++ taken, tick := w.tick + 1 })

/-- `print` and `printf`, whose results the client does not look at. -/
def imprimir (w : Socket) (a : Ambiente) (bytes : List UInt8) : Socket := (w.escrever a bytes).2

/-- `readBytesUntil('\\n', linha, n)`: the bytes before the terminator, which is consumed too, or
as many as fit or came before the read timed out. -/
def readBytesUntil (w : Socket) (a : Ambiente) (n : Nat) : List UInt8 × Socket :=
  let vindos := w.rest.take (a.entrega w.tick)
  let linha := (vindos.take n).takeWhile (· ≠ 10)
  let lidos :=
    if linha.length < n ∧ linha.length < vindos.length then linha.length + 1 else linha.length
  (linha, { w with rest := w.rest.drop lidos, tick := w.tick + 1 })

/-- What is left is what was not handed over. -/
theorem leitura_append_rest (w : Socket) (a : Ambiente) (n : Nat) :
    w.leitura a n ++ (w.depoisDeLer a n).rest = w.rest :=
  List.take_append_drop _ _

/-- A read that hands something over leaves less. -/
theorem rest_lt_of_leitura {w : Socket} {a : Ambiente} {n : Nat} (h : w.leitura a n ≠ []) :
    (w.depoisDeLer a n).rest.length < w.rest.length := by
  have hlength := congrArg List.length (w.leitura_append_rest a n)
  have hpos := List.length_pos_iff.mpr h
  rw [List.length_append] at hlength
  omega

end Socket

/-- `HttpResponse`. -/
structure HttpResponse where
  status : Int := 0
  bodyLen : Nat := 0
  deriving DecidableEq

/-- The caller's `out` and `cap`: a null pointer, or that many bytes. -/
structure Saida where
  buf : Option (List UInt8)
  cap : Nat
  deriving DecidableEq

namespace Saida

/-- `memcpy(out + at, bytes, bytes.length)`. -/
def copiar (s : Saida) (at_ : Nat) (bytes : List UInt8) : Saida :=
  { s with
    buf := s.buf.map fun buf => buf.take at_ ++ bytes ++ buf.drop (at_ + bytes.length) }

/-- `if (out != nullptr && cap > 0) out[at] = '\\0'`. -/
def terminar (s : Saida) (at_ : Nat) : Saida := if s.cap > 0 then s.copiar at_ [0] else s

end Saida

/-- `GsmHttpClient::Alvo`. -/
structure Alvo where
  host : Field 96
  path : Field 192
  port : UInt16 := 80
  deriving DecidableEq

/-- The members of `GsmHttpClient`. -/
structure GsmHttpClient where
  status : Int := 0
  length : UInt32 := 0
  resumedAt : UInt32 := 0
  recebido : UInt32 := 0
  open_ : Bool := false
  ultimoByte : UInt32 := 0
  chunked : Bool := false
  chunks : ChunkedDecoder := {}

namespace GsmHttpClient

/-- `kHeaderTimeoutMs`. -/
def headerTimeoutMs : UInt32 := 20000

/-- `kIdleTimeoutMs`. -/
def idleTimeoutMs : UInt32 := 30000

/-- `supportsTls`. -/
def supportsTls : Bool := false

/-- `separar`: host, port and path of a URL this link can fetch. -/
def separar (url : Option CString) : Option Alvo := do
  let url ← url
  let p ← strstr url (ascii "://")
  guard ((ascii "http://").isPrefixOf url.bytes)
  let p := p.drop 3
  let barra := p.find (ascii "/")
  let fim := p.length - (barra.elim 0 CString.length)
  let host := (p.bytes.take fim).takeWhile (· ≠ 58)
  guard (host.length ≠ 0)
  if h : host.length < 96 then
    let port := if host.length < fim then UInt16.ofInt (atoi (p.drop (host.length + 1))) else 80
    guard (port ≠ 0)
    some
      { host := ⟨⟨host, fun hmem => p.noNul (List.mem_of_mem_take
          ((List.takeWhile_prefix _).mem hmem))⟩, h⟩
        path := .print (by decide) (barra.getD (.ofBytes [47]))
        port }
  else none

/-- A header line; `linha` is what comes before its line end. -/
def cabecalho (c : GsmHttpClient) (linha : CString) : GsmHttpClient :=
  if startsNoCase linha (ascii "Content-Length:") then
    { c with length := strtoul (linha.drop 15) }
  else if startsNoCase linha (ascii "Transfer-Encoding:") then
    let valor := linha.drop 18
    if (List.range valor.length).any fun i => startsNoCase (valor.drop i) (ascii "chunked") then
      { c with chunked := true }
    else c
  else if startsNoCase linha (ascii "Content-Range:") then
    match linha.find [32] with
    | none => c
    | some traco =>
        match traco.find [61] with
        | some ini => { c with resumedAt := strtoul ini }
        | none =>
            -- The form `bytes 1234-5678/9999`.
            let ini := traco.drop (traco.bytes.takeWhile (· = 32)).length
            match ini.find (ascii "0123456789") with
            | some ini => { c with resumedAt := strtoul ini }
            | none => c
  else c

/-- The line as `lerCabecalhos` looks at it: without the carriage return, up to its first NUL. -/
def linhaLida (bytes : List UInt8) : CString :=
  .ofBytes (if bytes.getLast? = some 13 then bytes.dropLast else bytes)

/-- The loop of `lerCabecalhos`. -/
def lerLinhas (a : Ambiente) (limite : UInt32) (primeira : Bool) (c : GsmHttpClient)
    (w : Socket) : Nat → Option (HttpError × GsmHttpClient × Socket)
  | 0 => none
  | rounds + 1 =>
      let agora := a.millis w.tick
      let w := w.passo
      if ¬agora < limite then some (.timeout, c, w)
      else
        let connected := a.connected w.tick
        let w := w.passo
        let vazio := !connected && a.available w.tick = 0
        let w := if connected then w else w.passo
        if vazio then some (.transport, c, w)
        else
          let disponivel := a.available w.tick
          let w := w.passo
          if disponivel = 0 then lerLinhas a limite primeira c w rounds
          else
            let (bytes, w) := w.readBytesUntil a 159
            let linha := linhaLida bytes
            if primeira then
              match linha.find [32] with
              | none => some (.badStatus, c, w)
              | some espaco =>
                  lerLinhas a limite false { c with status := atoi (espaco.drop 1) } w rounds
            else if linha.length = 0 then some (.ok, c, w)
            else lerLinhas a limite primeira (c.cabecalho linha) w rounds

/-- `lerCabecalhos`. -/
def lerCabecalhos (a : Ambiente) (rounds : Nat) (c : GsmHttpClient) (w : Socket) :
    Option (HttpError × GsmHttpClient × Socket) :=
  let c :=
    { c with
      status := 0
      length := 0
      resumedAt := 0
      recebido := 0
      chunked := false
      chunks := .reset }
  let limite := a.millis w.tick + headerTimeoutMs
  lerLinhas a limite true c w.passo rounds

/-- A header line leaves the decoder and the open flag alone. -/
theorem cabecalho_keeps (c : GsmHttpClient) (linha : CString) :
    (c.cabecalho linha).chunks = c.chunks ∧ (c.cabecalho linha).open_ = c.open_ := by
  unfold cabecalho
  dsimp only
  split
  · exact ⟨rfl, rfl⟩
  split
  · split <;> exact ⟨rfl, rfl⟩
  split
  · split
    · exact ⟨rfl, rfl⟩
    split
    · exact ⟨rfl, rfl⟩
    split <;> exact ⟨rfl, rfl⟩
  · exact ⟨rfl, rfl⟩

/-- Whether the protocol says that the body is over. -/
def corpoLido (c : GsmHttpClient) : Bool :=
  if c.chunked then c.chunks.done || c.chunks.invalid
  else c.length > 0 && c.recebido ≥ c.length

/-- How many bytes of body to ask the socket for. -/
def aPedir (c : GsmHttpClient) (room disponivel : Nat) : Nat :=
  let pedir := min room disponivel
  if c.chunked then min pedir c.chunks.remaining.toNat
  else if c.length > 0 then min pedir (c.length - c.recebido).toNat
  else pedir

/-- Body bytes were handed over. -/
def receber (c : GsmHttpClient) (n : Nat) : GsmHttpClient :=
  { c with
    recebido := c.recebido + UInt32.ofNat n
    chunks := if c.chunked then c.chunks.consumeData (UInt32.ofNat n) else c.chunks }

/-- `lerCorpo`, with `got` the bytes written to `out` so far: what was written, whether the body
ended by the protocol, and what is left. -/
def lerCorpo (a : Ambiente) (cap : Nat) (got : List UInt8) (c : GsmHttpClient) (w : Socket) :
    List UInt8 × Bool × GsmHttpClient × Socket :=
  if got.length < cap then
    if c.corpoLido then (got, true, c, w)
    else
      let disponivel := a.available w.tick
      let asked := w.passo
      if disponivel ≤ 0 then (got, false, c, asked)
      else if c.chunked && !c.chunks.inData then
        -- Size lines, line ends and the trailer: one byte at a time, and none of them is body.
        match _hbyte : asked.leitura a 1 with
        | [] => (got, false, c, asked.depoisDeLer a 1)
        | byte :: _ =>
            lerCorpo a cap got { c with chunks := c.chunks.feed byte } (asked.depoisDeLer a 1)
      else
        let pedir := c.aPedir (cap - got.length) disponivel.toNat
        if _hlido : asked.leitura a pedir = [] then (got, false, c, asked.depoisDeLer a pedir)
        else
          lerCorpo a cap (got ++ asked.leitura a pedir) (c.receber (asked.leitura a pedir).length)
            (asked.depoisDeLer a pedir)
  else (got, false, c, w)
termination_by w.rest.length
decreasing_by
  · exact Socket.rest_lt_of_leitura (w := asked) (by rw [_hbyte]; simp)
  · exact Socket.rest_lt_of_leitura (w := asked) _hlido

/-- The loop of `lerResposta`, with `total` bytes of body read so far. What does not fit is
dropped, and the body is read to its end all the same. -/
def lerBlocos (a : Ambiente) (limite : UInt32) (out : Saida) (total : Nat) (c : GsmHttpClient)
    (w : Socket) : Nat → Option (Nat × Saida × GsmHttpClient × Socket)
  | 0 => none
  | rounds + 1 =>
      let agora := a.millis w.tick
      let w := w.passo
      if ¬agora < limite then some (total, out, c, w)
      else
        let (bloco, fim, c, w) := lerCorpo a 128 [] c w
        let out :=
          if total + 1 < out.cap then out.copiar total (bloco.take (out.cap - 1 - total)) else out
        let total := total + bloco.length
        if fim then some (total, out, c, w)
        else if bloco ≠ [] then lerBlocos a limite out total c w rounds
        else
          let connected := a.connected w.tick
          let w := w.passo
          if connected then lerBlocos a limite out total c w rounds
          else if a.available w.tick = 0 then some (total, out, c, w.passo)
          else lerBlocos a limite out total c w.passo rounds

/-- `lerResposta`: the whole body of a small response, always terminated. -/
def lerResposta (a : Ambiente) (rounds : Nat) (out : Saida) (c : GsmHttpClient) (w : Socket) :
    Option (Nat × Saida × GsmHttpClient × Socket) := do
  let limite := a.millis w.tick + idleTimeoutMs
  let (total, out, c, w) ← lerBlocos a limite out 0 c w.passo rounds
  some (total, out.terminar (if total < out.cap then total else out.cap - 1), c, w)

end GsmHttpClient

/-- The client, the link it borrows and the HTTP socket. -/
structure Http (σ : Type) where
  rede : Rede σ
  cliente : GsmHttpClient
  socket : Socket

/-- What `postStream` hands to the connection: the reader's answers, one after the other, where
none is an error and nothing is the end. -/
abbrev BodyReader := Nat → Option (List UInt8)

namespace Http

open GsmHttpClient

variable {σ : Type}

/-- `GsmLink::releaseHttp`, with the stop of the HTTP socket. -/
def releaseHttp (s : Http σ) : Http σ :=
  if !s.rede.link.httpLeased then s
  else { s with rede := s.rede.releaseHttp, socket := { s.socket with rest := [] } }

/-- `GsmLink::httpClient`: the socket, as long as the lease is held. -/
def temCliente (s : Http σ) : Bool := s.rede.link.httpLeased

/-- `abrir`. -/
def abrir (a : Ambiente) (s : Http σ) : Bool × Http σ :=
  let (leased, rede) := s.rede.acquireForHttp
  let s := { s with rede }
  if !leased then (false, s)
  else if !s.temCliente then (false, s.releaseHttp)
  else
    match a.conecta s.socket.tick with
    | none => (false, { s with socket := s.socket.passo }.releaseHttp)
    | some rest => (true, { s with socket := { s.socket.passo with rest, enviado := [] } })

/-- What a request sends before its body. -/
def pedido (metodo : String) (alvo : Alvo) (cabecalhos : List (List UInt8)) : List (List UInt8) :=
  (ascii (metodo ++ " ") ++ alvo.path.text.bytes ++ ascii " HTTP/1.1\r\n") ::
    (ascii "Host: " ++ alvo.host.text.bytes ++ ascii "\r\n") :: cabecalhos

/-- Print one line after the other. -/
def imprimirTodas (a : Ambiente) (w : Socket) (linhas : List (List UInt8)) : Socket :=
  linhas.foldl (fun w linha => w.imprimir a linha) w

/-- An exchange with a small response, as `postJson`, `get` and `postStream` make it: the lease,
the request, the head and the body, and the lease given back. `enviar` writes the request and says
whether all of it went out. -/
def trocar (a : Ambiente) (rounds : Nat) (s : Http σ) (url : Option CString)
    (enviar : Alvo → Socket → Option (Bool × Socket)) (out : Saida) (res : HttpResponse) :
    Option (HttpError × Saida × HttpResponse × Http σ) :=
  if !Url.fetchable url supportsTls then some (.connectFailed, out, res, s)
  else
    match separar url with
    | none => some (.connectFailed, out, res, s)
    | some alvo =>
        match s.abrir a with
        | (false, s) => some (.connectFailed, out, res, s)
        | (true, s) => do
            let (enviou, socket) ← enviar alvo s.socket
            let s := { s with socket }
            if !enviou then some (.transport, out, res, s.releaseHttp)
            else
              let (erro, cliente, socket) ← lerCabecalhos a rounds s.cliente s.socket
              let s := { s with cliente, socket }
              if erro ≠ .ok then some (erro, out, res, s.releaseHttp)
              else
                let (escrito, out, cliente, socket) ← lerResposta a rounds out s.cliente s.socket
                let s := { s with cliente, socket }
                some (.ok, out, ⟨s.cliente.status, escrito⟩, s.releaseHttp)

/-- `postJson`. An earlier result stays in `res` where the exchange fails. -/
def postJson (a : Ambiente) (rounds : Nat) (s : Http σ) (url body : Option CString) (out : Saida)
    (res : HttpResponse) : Option (HttpError × Saida × HttpResponse × Http σ) :=
  let corpo := body.elim [] CString.bytes
  let enviar (alvo : Alvo) (w : Socket) :=
    let w := imprimirTodas a w (pedido "POST" alvo
      [ascii "Content-Type: application/json\r\n", ascii "Connection: close\r\n",
        ascii ("Content-Length: " ++ toString corpo.length ++ "\r\n\r\n")])
    some (true, if corpo = [] then w else w.imprimir a corpo)
  trocar a rounds s url enviar (out.terminar 0) res

/-- `get`. -/
def get (a : Ambiente) (rounds : Nat) (s : Http σ) (url : Option CString) (out : Saida) :
    Option (HttpError × Saida × HttpResponse × Http σ) :=
  let enviar (alvo : Alvo) (w : Socket) :=
    some (true, imprimirTodas a w (pedido "GET" alvo [ascii "Connection: close\r\n\r\n"]))
  trocar a rounds s url enviar (out.terminar 0) {}

/-- The loop of `postStream`: the body in the reader's pieces, of at most 256 bytes each. The
result is whether no piece failed, and how many bytes were sent. -/
def enviarCorpo (a : Ambiente) (reader : BodyReader) (totalLen enviados : UInt32) (call : Nat)
    (w : Socket) : Nat → Option (Bool × UInt32 × Socket)
  | 0 => none
  | rounds + 1 =>
      if ¬enviados < totalLen then some (true, enviados, w)
      else
        match reader call with
        | none => some (false, enviados, w)
        | some bytes =>
            let lido := bytes.take 256
            if lido = [] then some (true, enviados, w)
            else
              let (taken, w) := w.escrever a lido
              if taken ≠ lido.length then some (false, enviados, w)
              else
                enviarCorpo a reader totalLen (enviados + UInt32.ofNat lido.length) (call + 1) w
                  rounds

/-- `postStream`. -/
def postStream (a : Ambiente) (rounds : Nat) (s : Http σ)
    (url contentType extraHeaders : Option CString) (reader : Option BodyReader)
    (totalLen : UInt32) (out : Saida) : Option (HttpError × Saida × HttpResponse × Http σ) :=
  let out := out.terminar 0
  match reader with
  | none => some (.transport, out, {}, s)
  | some reader =>
      let enviar (alvo : Alvo) (w : Socket) := do
        let tipo := contentType.elim (ascii "application/octet-stream") CString.bytes
        let w := imprimirTodas a w (pedido "POST" alvo
          ([ascii "Connection: close\r\n", ascii "Content-Type: " ++ tipo ++ ascii "\r\n",
            ascii ("Content-Length: " ++ toString totalLen.toNat ++ "\r\n")] ++
            extraHeaders.toList.map CString.bytes ++ [ascii "\r\n"]))
        let (ok, enviados, w) ← enviarCorpo a reader totalLen 0 0 w rounds
        some (ok && enviados = totalLen, w)
      trocar a rounds s url enviar out {}

/-- `endDownload`. -/
def endDownload (s : Http σ) : Http σ :=
  if !s.cliente.open_ then s
  else { s with cliente := { s.cliente with open_ := false } }.releaseHttp

/-- `beginDownload`. -/
def beginDownload (a : Ambiente) (rounds : Nat) (s : Http σ) (url : Option CString)
    (rangeOffset : UInt32) : Option (HttpError × Http σ) :=
  let s := s.endDownload
  if !Url.fetchable url supportsTls then some (.connectFailed, s)
  else
    match separar url with
    | none => some (.connectFailed, s)
    | some alvo =>
        match s.abrir a with
        | (false, s) => some (.connectFailed, s)
        | (true, s) => do
            let range :=
              if rangeOffset > 0 then
                [ascii ("Range: bytes=" ++ toString rangeOffset.toNat ++ "-\r\n")]
              else []
            let socket := imprimirTodas a s.socket (pedido "GET" alvo
              ([ascii "Accept: application/octet-stream\r\n", ascii "Connection: close\r\n"] ++
                range ++ [ascii "\r\n"]))
            let (erro, cliente, socket) ← lerCabecalhos a rounds s.cliente socket
            let s : Http σ := { s with cliente, socket }
            if erro ≠ .ok then some (erro, s.releaseHttp)
            else if s.cliente.status ≠ 200 ∧ s.cliente.status ≠ 206 then
              some (.badStatus, s.releaseHttp)
            else
              let ultimoByte := a.millis s.socket.tick
              some (.ok,
                { s with
                  cliente := { s.cliente with open_ := true, recebido := 0, ultimoByte }
                  socket := s.socket.passo })

/-- `readChunk`, into a buffer that is there or not: the result, the bytes it returned and the
state it leaves. -/
def readChunk (a : Ambiente) (s : Http σ) (out : Bool) (cap : Nat) :
    HttpError × List UInt8 × Http σ :=
  if !s.cliente.open_ || !out || cap = 0 then (.transport, [], s)
  else if !s.temCliente then (.transport, [], s)
  else
    let (got, fim, cliente, socket) := lerCorpo a cap [] s.cliente s.socket
    let s := { s with cliente, socket }
    -- What follows a size that is no number must not pass for firmware.
    if cliente.chunked && cliente.chunks.invalid then (.transport, got, s)
    else if got ≠ [] then
      (.ok, got,
        { s with
          cliente := { cliente with ultimoByte := a.millis socket.tick }
          socket := socket.passo })
    else if fim then (.eof, got, s)
    else
      let connected := a.connected socket.tick
      let socket := socket.passo
      let fechado := !connected && a.available socket.tick = 0
      let socket := if connected then socket else socket.passo
      if fechado then
        (if !cliente.chunked && cliente.length = 0 then .eof else .transport, got,
          { s with socket })
      else
        let agora := a.millis socket.tick
        let s := { s with socket := socket.passo }
        if agora - cliente.ultimoByte > idleTimeoutMs then (.timeout, got, s)
        else (.wouldBlock, got, s)

/-- `GsmLink::loop`, between calls of the client. -/
def linkLoop (s : Http σ) (now : UInt32) (r : RespostaModem) : Http σ :=
  { s with rede := s.rede.loop now r }

end Http

end FirmwareUpdater
