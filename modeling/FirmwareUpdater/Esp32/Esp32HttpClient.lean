import FirmwareUpdater.Gprs.GsmHttpClient

/-!
# HTTP over `esp_http_client`

`Esp32HttpClient`. The library's answers to the calls on one handle are an
`EspHttp`; the handle keeps what was asked of it: the headers set, the length
announced and the bytes written. Its own reading of the response head and body is
the library's.
-/

namespace FirmwareUpdater

/-- The answers of `esp_http_client`: whether a handle is made and opens, how many bytes of each
write go out, what `fetch_headers` and `get_status_code` return, and what a read of so many bytes
hands over, where it is no error. -/
structure EspHttp where
  init : Bool
  opens : Bool
  taken : Nat → Nat
  fetchHeaders : Int
  statusCode : Int
  read : Nat → Option (List UInt8)

/-- A handle, by what was asked of it. -/
structure EspHandle where
  headers : List (List UInt8 × List UInt8) := []
  announced : Int := 0
  sent : List UInt8 := []
  writes : Nat := 0
  deriving DecidableEq

namespace EspHandle

/-- `esp_http_client_set_header`. -/
def setHeader (h : EspHandle) (key value : List UInt8) : EspHandle :=
  { h with headers := h.headers ++ [(key, value)] }

/-- `esp_http_client_open`. -/
def open_ (h : EspHandle) (writeLen : Int) : EspHandle := { h with announced := writeLen }

/-- `esp_http_client_write`: how many bytes went out, and the handle after them. -/
def write (h : EspHandle) (lib : EspHttp) (bytes : List UInt8) : Nat × EspHandle :=
  let taken := bytes.take (lib.taken h.writes)
  (taken.length, { h with sent := h.sent ++ taken, writes := h.writes + 1 })

end EspHandle

/-- The members of `Esp32HttpClient`. -/
structure Esp32HttpClient where
  dl : Option EspHandle := none
  status : Int := 0
  contentLength : UInt32 := 0
  resumedAt : UInt32 := 0
  deriving DecidableEq

namespace Esp32HttpClient

/-- A line in the buffer of `aplicarCabecalhos`: its header is set, where it has a colon. -/
def aplicarLinha (h : EspHandle) (buf : CString) : EspHandle :=
  match buf.find [58] with
  | none => h
  | some sep =>
      h.setHeader (buf.bytes.take (buf.length - sep.length))
        ((sep.drop 1).bytes.dropWhile (· = 32))

/-- The loop of `aplicarCabecalhos`, at `p`. A line of 256 bytes or more does not fit the
buffer. -/
def aplicarLinhas (h : EspHandle) (p : CString) : EspHandle :=
  if p.byteAt 0 = 0 then h
  else
    let n := p.length - (strstr p [13, 10]).elim 0 CString.length
    let h :=
      if n > 0 ∧ n < 256 then
        aplicarLinha h ⟨p.bytes.take n, fun hmem => p.noNul (List.mem_of_mem_take hmem)⟩
      else h
    match _hfim : strstr p [13, 10] with
    | none => h
    | some fim => aplicarLinhas h (fim.drop 2)
termination_by p.length
decreasing_by exact length_drop_strstr _hfim (by simp)

/-- `aplicarCabecalhos`. -/
def aplicarCabecalhos (h : EspHandle) (linhas : Option CString) : EspHandle :=
  linhas.elim h (aplicarLinhas h)

/-- The one read of a small response, with the terminator behind what came. -/
def lerPequena (lib : EspHttp) (out : Saida) (res : HttpResponse) : Saida × HttpResponse :=
  if out.buf.isSome ∧ out.cap > 1 then
    let lido := (lib.read (out.cap - 1)).getD []
    ((out.copiar 0 lido).copiar lido.length [0], { res with bodyLen := lido.length })
  else (out, res)

/-- The head and the body of a small response. -/
def receber (lib : EspHttp) (c : Esp32HttpClient) (out : Saida) (res : HttpResponse) :
    HttpError × Saida × HttpResponse × Esp32HttpClient :=
  if lib.fetchHeaders < 0 then (.transport, out, res, c)
  else
    let res := { res with status := lib.statusCode }
    let c := { c with status := res.status }
    let (out, res) := lerPequena lib out res
    (.ok, out, res, c)

/-- `postJson`. With a null argument `res` stays as it was. -/
def postJson (lib : EspHttp) (c : Esp32HttpClient) (url body : Option CString) (out : Saida)
    (res : HttpResponse) : HttpError × Saida × HttpResponse × Esp32HttpClient × EspHandle :=
  match url, body with
  | some _, some body =>
      let out := out.terminar 0
      if !lib.init then (.transport, out, {}, c, {})
      else
        let h := ({} : EspHandle).setHeader (ascii "Content-Type") (ascii "application/json")
        let h := h.open_ body.length
        if !lib.opens then (.connectFailed, out, {}, c, h)
        else
          let (taken, h) := h.write lib body.bytes
          if taken ≠ body.length then (.transport, out, {}, c, h)
          else
            let (erro, out, res, c) := receber lib c out {}
            (erro, out, res, c, h)
  | _, _ => (.transport, out, res, c, {})

/-- `get`. -/
def get (lib : EspHttp) (c : Esp32HttpClient) (url : Option CString) (out : Saida)
    (res : HttpResponse) : HttpError × Saida × HttpResponse × Esp32HttpClient × EspHandle :=
  match url with
  | none => (.transport, out, res, c, {})
  | some _ =>
      let out := out.terminar 0
      if !lib.init then (.transport, out, {}, c, {})
      else
        let h := ({} : EspHandle).open_ 0
        if !lib.opens then (.connectFailed, out, {}, c, h)
        else
          let (erro, out, res, c) := receber lib c out {}
          (erro, out, res, c, h)

/-- The loop of `postStream`: the body in the reader's pieces, of at most 512 bytes each. -/
def enviarCorpo (lib : EspHttp) (reader : BodyReader) (totalLen enviados : UInt32) (call : Nat)
    (h : EspHandle) : Nat → Option (Bool × UInt32 × EspHandle)
  | 0 => none
  | rounds + 1 =>
      if ¬enviados < totalLen then some (true, enviados, h)
      else
        match reader call with
        | none => some (false, enviados, h)
        | some bytes =>
            let lido := bytes.take 512
            if lido = [] then some (true, enviados, h)
            else
              let (taken, h) := h.write lib lido
              if taken ≠ lido.length then some (false, enviados, h)
              else
                enviarCorpo lib reader totalLen (enviados + UInt32.ofNat lido.length) (call + 1) h
                  rounds

/-- `postStream`. -/
def postStream (lib : EspHttp) (rounds : Nat) (c : Esp32HttpClient)
    (url contentType extraHeaders : Option CString) (reader : Option BodyReader)
    (totalLen : UInt32) (out : Saida) (res : HttpResponse) :
    Option (HttpError × Saida × HttpResponse × Esp32HttpClient × EspHandle) :=
  match url, reader with
  | some _, some reader => do
      let out := out.terminar 0
      if !lib.init then some (.transport, out, {}, c, {})
      else
        let tipo := contentType.elim (ascii "application/octet-stream") CString.bytes
        let h := ({} : EspHandle).setHeader (ascii "Content-Type") tipo
        let h := aplicarCabecalhos h extraHeaders
        let h := h.open_ totalLen.toNat
        if !lib.opens then some (.connectFailed, out, {}, c, h)
        else
          let (ok, enviados, h) ← enviarCorpo lib reader totalLen 0 0 h rounds
          if !ok || enviados ≠ totalLen then some (.transport, out, {}, c, h)
          else
            let (erro, out, res, c) := receber lib c out {}
            some (erro, out, res, c, h)
  | _, _ => some (.transport, out, res, c, {})

/-- `endDownload`. -/
def endDownload (c : Esp32HttpClient) : Esp32HttpClient := { c with dl := none }

/-- `beginDownload`. -/
def beginDownload (lib : EspHttp) (c : Esp32HttpClient) (url : Option CString)
    (rangeOffset : UInt32) : HttpError × Esp32HttpClient :=
  if c.dl.isSome then (.transport, c)
  else if url.isNone then (.transport, c)
  else
    let c := { c with status := 0, contentLength := 0, resumedAt := 0 }
    if !lib.init then (.transport, c)
    else
      let h : EspHandle := {}
      let h :=
        if rangeOffset > 0 then
          h.setHeader (ascii "Range") (ascii ("bytes=" ++ toString rangeOffset.toNat ++ "-"))
        else h
      let c := { c with dl := some h }
      if !lib.opens then (.connectFailed, c.endDownload)
      else
        let len := lib.fetchHeaders
        let c := { c with status := lib.statusCode }
        let c := if len > 0 then { c with contentLength := UInt32.ofInt len } else c
        if c.status = 206 then (.ok, { c with resumedAt := rangeOffset })
        else if c.status = 200 then
          let c := { c with resumedAt := 0 }
          if rangeOffset > 0 then (.rangeUnsupported, c.endDownload) else (.ok, c)
        else (.badStatus, c.endDownload)

end Esp32HttpClient
end FirmwareUpdater
