import FirmwareUpdater.Gprs.DownloadStream
import FirmwareUpdater.Gprs.Exchanges
import FirmwareUpdater.Library.Pump
import FirmwareUpdater.Links.ExtraHeaders

/-!
# The length of a streamed body

Both clients announce a length and then hand the reader's blocks to the connection
until as many bytes went out. Each asks the reader for a whole block, however little
is left, so that the last block can be longer than what was announced. The body keeps
to its length exactly if every block the loop comes to fits what is left of it
(`streamed_length_iff`).
-/

namespace FirmwareUpdater.Links

open Library Esp32HttpClient

/-! ## One loop for both clients -/

/-- What a connection does with a write: it takes the first bytes, and counts the write. -/
structure Sink (S : Type) where
  write : S → List UInt8 → Nat × S
  sent : S → List UInt8
  writes : S → Nat
  takes : Nat → Nat
  write_fst : ∀ w bytes, (write w bytes).1 = (bytes.take (takes (writes w))).length
  sent_write : ∀ w bytes, sent (write w bytes).2 = sent w ++ bytes.take (takes (writes w))
  writes_write : ∀ w bytes, writes (write w bytes).2 = writes w + 1

/-- The modem's socket. -/
def modem (a : Ambiente) : Sink Socket where
  write w := w.escrever a
  sent := Socket.enviado
  writes := Socket.tick
  takes := a.aceita
  write_fst _ _ := rfl
  sent_write _ _ := rfl
  writes_write _ _ := rfl

/-- A handle of the library. -/
def handle (lib : EspHttp) : Sink EspHandle where
  write h := h.write lib
  sent := EspHandle.sent
  writes := EspHandle.writes
  takes := lib.taken
  write_fst _ _ := rfl
  sent_write _ _ := rfl
  writes_write _ _ := rfl

/-- The reader's blocks, through a buffer of that size. -/
def pieces (reader : BodyReader) (size : Nat) (call : Nat) : Option (List UInt8) :=
  (reader call).map (List.take size)

/-- The loop of both clients. -/
def enviar {S : Type} (sink : Sink S) (source : Nat → Option (List UInt8))
    (totalLen enviados : UInt32) (call : Nat) (w : S) : Nat → Option (Bool × UInt32 × S)
  | 0 => none
  | rounds + 1 =>
      if ¬enviados < totalLen then some (true, enviados, w)
      else
        match source call with
        | none => some (false, enviados, w)
        | some lido =>
            if lido = [] then some (true, enviados, w)
            else if (sink.write w lido).1 ≠ lido.length then
              some (false, enviados, (sink.write w lido).2)
            else
              enviar sink source totalLen (enviados + UInt32.ofNat lido.length) (call + 1)
                (sink.write w lido).2 rounds

/-- On the modem, with blocks of 256 bytes. -/
theorem gsm_enviar (a : Ambiente) (reader : BodyReader) (totalLen enviados : UInt32) (call : Nat)
    (w : Socket) (rounds : Nat) :
    Http.enviarCorpo a reader totalLen enviados call w rounds =
      enviar (modem a) (pieces reader 256) totalLen enviados call w rounds := by
  induction rounds generalizing enviados call w with
  | zero => rfl
  | succ rounds ih =>
      rw [Http.enviarCorpo, enviar, pieces]
      cases reader call with
      | none => rfl
      | some bytes =>
          simp only [Option.map_some, ih]
          rfl

/-- With the library, with blocks of 512. -/
theorem esp_enviar (lib : EspHttp) (reader : BodyReader) (totalLen enviados : UInt32) (call : Nat)
    (h : EspHandle) (rounds : Nat) :
    Esp32HttpClient.enviarCorpo lib reader totalLen enviados call h rounds =
      enviar (handle lib) (pieces reader 512) totalLen enviados call h rounds := by
  induction rounds generalizing enviados call h with
  | zero => rfl
  | succ rounds ih =>
      rw [Esp32HttpClient.enviarCorpo, enviar, pieces]
      cases reader call with
      | none => rfl
      | some bytes =>
          simp only [Option.map_some, ih]
          rfl

section Loop

variable {S : Type} {source : Nat → Option (List UInt8)} {size : Nat}
  {totalLen : UInt32}

/-- The counter does not wrap within the announced length. -/
theorem toNat_enviados (hlen : totalLen.toNat < 2 ^ 31) (hsize : size < 2 ^ 31)
    {enviados : UInt32} (hroom : enviados < totalLen) {lido : List UInt8}
    (hlido : lido.length ≤ size) :
    (enviados + UInt32.ofNat lido.length).toNat = enviados.toNat + lido.length := by
  have hlt : enviados.toNat < totalLen.toNat := UInt32.lt_iff_toNat_lt.mp hroom
  rw [UInt32.toNat_add, UInt32.toNat_ofNat']
  omega

/-- The loop pumps the blocks into the announced length. -/
theorem enviar_pump (sink : Sink S) (hlen : totalLen.toNat < 2 ^ 31) (hsize : size < 2 ^ 31)
    (hsource : ∀ call lido, source call = some lido → lido.length ≤ size) (first rounds call : Nat)
    (enviados : UInt32) (w : S) (hwrites : sink.writes w = first + call) :
    (enviar sink source totalLen enviados call w rounds).map
        (fun (ok, n, w') => (ok, n.toNat, sink.sent w')) =
      (pump source (fun k => sink.takes (first + k)) totalLen.toNat call enviados.toNat rounds).map
        (fun (ok, n, written) => (ok, n, sink.sent w ++ written)) := by
  induction rounds generalizing call enviados w with
  | zero => rfl
  | succ rounds ih =>
      rw [enviar, pump]
      by_cases hroom : enviados < totalLen
      · rw [if_neg (not_not_intro hroom),
          if_neg (not_not_intro (UInt32.lt_iff_toNat_lt.mp hroom))]
        cases hblock : source call with
        | none => simp
        | some lido =>
            simp only
            by_cases hempty : lido = []
            · simp [hempty]
            rw [if_neg hempty, if_neg hempty]
            have hsent := sink.sent_write w lido
            rw [hwrites] at hsent
            rw [sink.write_fst, hwrites]
            by_cases hpart : (lido.take (sink.takes (first + call))).length ≠ lido.length
            · rw [if_pos hpart, if_pos hpart, Option.map_some, Option.map_some, hsent]
            · -- The whole block went out, and the rest is the same loop behind it.
              have hwhole : lido.take (sink.takes (first + call)) = lido := by
                rw [List.length_take] at hpart
                exact List.take_of_length_le (by omega)
              have hnext : sink.writes (sink.write w lido).2 = first + (call + 1) := by
                rw [sink.writes_write, hwrites]
                omega
              rw [hwhole] at hsent
              rw [if_neg hpart, if_neg hpart, ih _ _ _ hnext,
                toNat_enviados hlen hsize hroom (hsource _ _ hblock), hsent, Option.map_map]
              congr 1
              funext result
              obtain ⟨ok, n, written⟩ := result
              simp [List.append_assoc]
      · rw [if_pos hroom, if_pos (fun hlt => hroom (UInt32.lt_iff_toNat_lt.mpr hlt))]
        simp

end Loop

theorem length_pieces (reader : BodyReader) (size call : Nat) (lido : List UInt8)
    (h : pieces reader size call = some lido) : lido.length ≤ size := by
  obtain ⟨bytes, -, rfl⟩ := Option.map_eq_some_iff.mp h
  exact List.length_take_le _ _

/-! ## The body of a request -/

/-- A body that keeps to what was announced: it is not longer, it is the first part of what the
reader gives, and it has exactly that length where the request succeeds. -/
def LengthKept (reader : BodyReader) (size : Nat) (totalLen : UInt32) (erro : HttpError)
    (body : List UInt8) : Prop :=
  body.length ≤ totalLen.toNat ∧ (∃ calls, body <+: offered (pieces reader size) calls) ∧
    (erro = .ok → body.length = totalLen.toNat)

/-- A request that sends no body and fails. -/
theorem lengthKept_nil (reader : BodyReader) (size : Nat) (totalLen : UInt32) {erro : HttpError}
    (herro : erro ≠ .ok) : LengthKept reader size totalLen erro [] :=
  ⟨Nat.zero_le _, ⟨0, List.nil_prefix⟩, fun h => absurd h herro⟩

/-- What the loop sends keeps to the length exactly if the blocks fit. -/
theorem lengthKept_iff {S : Type} (sink : Sink S) {reader : BodyReader} {size : Nat}
    {totalLen : UInt32} (hlen : totalLen.toNat < 2 ^ 31) (hsize : size < 2 ^ 31) {rounds : Nat}
    {n : UInt32} {w w' : S} {ok : Bool} {erro : HttpError}
    (hrun : enviar sink (pieces reader size) totalLen 0 0 w rounds = some (ok, n, w'))
    (herro : erro = .ok → ok = true ∧ n = totalLen) :
    LengthKept reader size totalLen erro ((sink.sent w').drop (sink.sent w).length) ↔
      Fits (pieces reader size) (fun k => sink.takes (sink.writes w + k)) totalLen.toNat := by
  have hloop := enviar_pump sink hlen hsize (length_pieces reader size) (sink.writes w) rounds 0 0
    w rfl
  rw [hrun, Option.map_some] at hloop
  obtain ⟨⟨ok', n', written⟩, hpump, heq⟩ := Option.map_eq_some_iff.mp hloop.symm
  simp only [Prod.mk.injEq] at heq
  obtain ⟨rfl, rfl, hsent⟩ := heq
  obtain ⟨calls, hpumped⟩ := pump_start hpump
  rw [← hsent, List.drop_left]
  constructor
  · intro hkept
    exact hpumped.length_le_iff.mp hkept.1
  · intro hfits
    refine ⟨hpumped.length_le_iff.mpr hfits, hpumped.prefix_offered, ?_⟩
    intro hok
    obtain ⟨rfl, rfl⟩ := herro hok
    exact hpumped.length_of_ok

/-- The socket of the modem once a request's head is out, where there is a connection. -/
def bodyStart {σ : Type} (a : Ambiente) (s : Http σ) (url contentType extraHeaders : Option CString)
    (totalLen : UInt32) : Option Socket :=
  (s.begun a url).map fun (alvo, t) =>
    Http.imprimirTodas a t.socket (sentHead alvo contentType extraHeaders totalLen)

/-- The body among the bytes sent: what is behind the head. -/
def body (start : Option Socket) (sent : List UInt8) : List UInt8 :=
  start.elim [] fun w => sent.drop w.enviado.length

/-- The modem's request. -/
theorem gsm_length_iff {totalLen : UInt32} (hlen : totalLen.toNat < 2 ^ 31) (reader : BodyReader)
    {σ : Type} (a : Ambiente) (rounds : Nat) (s : Http σ)
    (url contentType extraHeaders : Option CString) {out out' : Saida} {res : HttpResponse}
    {erro : HttpError} {t : Http σ}
    (hrun : Http.postStream a rounds s url contentType extraHeaders (some reader) totalLen out =
      some (erro, out', res, t)) :
    LengthKept reader 256 totalLen erro
        (body (bodyStart a s url contentType extraHeaders totalLen) t.socket.enviado) ↔
      ∀ w, bodyStart a s url contentType extraHeaders totalLen = some w →
        Fits (pieces reader 256) (fun k => a.aceita (w.tick + k)) totalLen.toNat := by
  rw [postStream_head] at hrun
  rcases Http.trocar_cases hrun with ⟨hnone, rfl, -⟩ | ⟨alvo, u, hsome, hended⟩
  · have hstart : bodyStart a s url contentType extraHeaders totalLen = none := by
      rw [bodyStart, hnone]
      rfl
    rw [hstart]
    exact iff_of_true (lengthKept_nil _ _ _ nofun) nofun
  · obtain ⟨enviou, w', hsent, henviado, herro⟩ := hended.enviado
    have hstart : bodyStart a s url contentType extraHeaders totalLen =
        some (Http.imprimirTodas a u.socket (sentHead alvo contentType extraHeaders totalLen)) := by
      rw [bodyStart, hsome]
      rfl
    simp only [bind, Option.bind_eq_some_iff] at hsent
    obtain ⟨⟨ok, n, w''⟩, hloop, hsent⟩ := hsent
    cases hsent
    rw [gsm_enviar] at hloop
    have hall : erro = .ok → ok = true ∧ n = totalLen := by
      intro hok
      simpa using herro hok
    have hiff := lengthKept_iff (modem a) hlen (by decide) hloop hall
    rw [hstart, henviado]
    refine hiff.trans ⟨?_, fun h => h _ rfl⟩
    rintro hfits w hw
    cases hw
    exact hfits

/-- Setting headers writes nothing. -/
theorem aplicarLinhas_keeps (h : EspHandle) (p : CString) :
    (aplicarLinhas h p).sent = h.sent ∧ (aplicarLinhas h p).writes = h.writes := by
  have hline : ∀ (h : EspHandle) (buf : CString),
      (aplicarLinha h buf).sent = h.sent ∧ (aplicarLinha h buf).writes = h.writes := by
    intro h buf
    unfold aplicarLinha
    split <;> exact ⟨rfl, rfl⟩
  fun_induction aplicarLinhas h p with
  | case1 => exact ⟨rfl, rfl⟩
  | case2 h p _ n next =>
      subst next
      split
      · exact hline h _
      · exact ⟨rfl, rfl⟩
  | case3 h p _ n next fim _ ih =>
      have hnext : next.sent = h.sent ∧ next.writes = h.writes := by
        subst next
        split
        · exact hline h _
        · exact ⟨rfl, rfl⟩
      exact ⟨ih.1.trans hnext.1, ih.2.trans hnext.2⟩

/-- Nor does setting a block of them. -/
theorem aplicarCabecalhos_keeps (h : EspHandle) (linhas : Option CString) :
    (aplicarCabecalhos h linhas).sent = h.sent ∧
      (aplicarCabecalhos h linhas).writes = h.writes := by
  cases linhas with
  | none => exact ⟨rfl, rfl⟩
  | some p => exact aplicarLinhas_keeps h p

/-- The ESP client's request. -/
theorem esp_length_iff {totalLen : UInt32} (hlen : totalLen.toNat < 2 ^ 31) (reader : BodyReader)
    (lib : EspHttp) (rounds : Nat) (c : Esp32HttpClient)
    (url contentType extraHeaders : Option CString) {out out' : Saida} {res res' : HttpResponse}
    {erro : HttpError} {c' : Esp32HttpClient} {h : EspHandle}
    (hrun : Esp32HttpClient.postStream lib rounds c url contentType extraHeaders (some reader)
      totalLen out res = some (erro, out', res', c', h)) :
    LengthKept reader 512 totalLen erro h.sent ↔
      (url.isSome = true → lib.init = true → lib.opens = true →
        Fits (pieces reader 512) lib.taken totalLen.toNat) := by
  cases url with
  | none =>
      cases hrun
      exact iff_of_true (lengthKept_nil _ _ _ nofun) nofun
  | some url =>
      simp only [Esp32HttpClient.postStream] at hrun
      obtain ⟨hsent, hwrites⟩ := aplicarCabecalhos_keeps (({} : EspHandle).setHeader
        (ascii "Content-Type")
        (contentType.elim (ascii "application/octet-stream") CString.bytes)) extraHeaders
      generalize aplicarCabecalhos _ extraHeaders = opened at hrun hsent hwrites
      by_cases hinit : lib.init = true
      · rw [if_neg (by simp [hinit])] at hrun
        by_cases hopens : lib.opens = true
        · rw [if_neg (by simp [hopens])] at hrun
          simp only [bind, Option.bind_eq_some_iff] at hrun
          obtain ⟨⟨ok, n, sent⟩, hloop, hrun⟩ := hrun
          have hends : h = sent ∧ (erro = .ok → ok = true ∧ n = totalLen) := by
            split at hrun
            · cases hrun
              exact ⟨rfl, nofun⟩
            · rename_i hfull
              cases hrun
              exact ⟨rfl, fun _ => by simpa using hfull⟩
          obtain ⟨rfl, herro⟩ := hends
          rw [esp_enviar] at hloop
          have hiff := lengthKept_iff (handle lib) hlen (by decide) hloop herro
          have hfirst : (handle lib).writes (opened.open_ totalLen.toNat) = 0 := hwrites
          have hnothing : (handle lib).sent (opened.open_ totalLen.toNat) = [] := hsent
          rw [hfirst, hnothing] at hiff
          simp only [Nat.zero_add] at hiff
          exact hiff.trans ⟨fun hfits _ _ _ => hfits, fun hfits => hfits rfl hinit hopens⟩
        · rw [if_pos (by simp [hopens])] at hrun
          cases hrun
          refine iff_of_true ?_ (fun _ _ h => absurd h hopens)
          show LengthKept reader 512 totalLen _ opened.sent
          rw [hsent]
          exact lengthKept_nil _ _ _ nofun
      · rw [if_pos (by simp [hinit])] at hrun
        cases hrun
        exact iff_of_true (lengthKept_nil _ _ _ nofun) (fun _ h => absurd h hinit)

/-- The ESP client's loop ends, with more rounds than there are bytes to send. -/
theorem esp_postStream_ends (reader : BodyReader) (lib : EspHttp) {rounds : Nat}
    (c : Esp32HttpClient) (url contentType extraHeaders : Option CString) {totalLen : UInt32}
    (hlen : totalLen.toNat < 2 ^ 31) (out : Saida) (res : HttpResponse)
    (hrounds : totalLen.toNat < rounds) :
    (Esp32HttpClient.postStream lib rounds c url contentType extraHeaders (some reader) totalLen
      out res).isSome := by
  cases url with
  | none => rfl
  | some url =>
      simp only [Esp32HttpClient.postStream]
      split
      · rfl
      split
      · rfl
      have hloop := enviar_pump (handle lib) hlen (by decide) (length_pieces reader 512) 0
        rounds 0 0 ((aplicarCabecalhos (({} : EspHandle).setHeader (ascii "Content-Type")
          (contentType.elim (ascii "application/octet-stream") CString.bytes))
          extraHeaders).open_ totalLen.toNat) (aplicarCabecalhos_keeps _ _).2
      have hends := congrArg Option.isSome hloop
      rw [Option.isSome_map, Option.isSome_map, ← esp_enviar, pump_ends (by simpa using hrounds)]
        at hends
      obtain ⟨⟨ok, n, h⟩, hrun⟩ := Option.isSome_iff_exists.mp hends
      simp only [hrun, bind, Option.bind_some]
      split <;> rfl

/-- On both clients a streamed body keeps to its announced length exactly if the connection, where
there is one, takes no more of any block the loop comes to than what is left of that length. -/
theorem streamed_length_iff {totalLen : UInt32} (hlen : totalLen.toNat < 2 ^ 31)
    (reader : BodyReader) :
    (∀ {σ : Type} (a : Ambiente) (rounds : Nat) (s : Http σ)
        (url contentType extraHeaders : Option CString) (out out' : Saida) (res : HttpResponse)
        (erro : HttpError) (t : Http σ),
      Http.postStream a rounds s url contentType extraHeaders (some reader) totalLen out =
        some (erro, out', res, t) →
      (LengthKept reader 256 totalLen erro
          (body (bodyStart a s url contentType extraHeaders totalLen) t.socket.enviado) ↔
        ∀ w, bodyStart a s url contentType extraHeaders totalLen = some w →
          Fits (pieces reader 256) (fun k => a.aceita (w.tick + k)) totalLen.toNat)) ∧
    (∀ (lib : EspHttp) (rounds : Nat) (c : Esp32HttpClient)
        (url contentType extraHeaders : Option CString) (out out' : Saida)
        (res res' : HttpResponse) (erro : HttpError) (c' : Esp32HttpClient) (h : EspHandle),
      Esp32HttpClient.postStream lib rounds c url contentType extraHeaders (some reader) totalLen
        out res = some (erro, out', res', c', h) →
      (LengthKept reader 512 totalLen erro h.sent ↔
        (url.isSome = true → lib.init = true → lib.opens = true →
          Fits (pieces reader 512) lib.taken totalLen.toNat))) := by
  constructor
  · intro σ a rounds s url contentType extraHeaders out out' res erro t hrun
    exact gsm_length_iff hlen reader a rounds s url contentType extraHeaders hrun
  · intro lib rounds c url contentType extraHeaders out out' res res' erro c' h hrun
    exact esp_length_iff hlen reader lib rounds c url contentType extraHeaders hrun

/-- A source of two bytes. -/
def pair : BodyReader := fun call => some (if call = 0 then ascii "ab" else [])

/-- A library with everything at hand. -/
def prompt : EspHttp where
  init := true
  opens := true
  taken _ := 4096
  fetchHeaders := 0
  statusCode := 200
  read _ := some []

/-- Two bytes fit an announced length of two. -/
theorem fits_pair (size : Nat) (hsize : 2 ≤ size) (takes : Nat → Nat) :
    Fits (pieces pair size) takes 2 := by
  have hfirst : block (pieces pair size) 0 = ascii "ab" := by
    show List.take size (ascii "ab") = _
    exact List.take_of_length_le hsize
  have hone : (offered (pieces pair size) 1).length = 2 := by
    rw [length_offered_succ, hfirst]
    rfl
  intro call hcomes
  cases call with
  | zero =>
      rw [hfirst]
      exact (Nat.zero_add _).le.trans (Nat.min_le_right _ _)
  | succ call =>
      have hmono := (offered_isPrefix (pieces pair size) (Nat.le_add_left 1 call)).length_le
      have hroom := hcomes.2
      omega

/-- They are what both clients send of them, and both succeed. -/
theorem streamed_length_pair :
    ∃ url : CString,
      (∃ out res t, Http.postStream Http.pronto 8 Http.ocioso (some url) none none (some pair) 2
          ⟨none, 0⟩ = some (.ok, out, res, t) ∧
        LengthKept pair 256 2 .ok
          (body (bodyStart Http.pronto Http.ocioso (some url) none none 2) t.socket.enviado)) ∧
      ∃ out res c h, Esp32HttpClient.postStream prompt 2 {} (some url) none none (some pair) 2
          ⟨none, 0⟩ {} = some (.ok, out, res, c, h) ∧ LengthKept pair 512 2 .ok h.sent := by
  refine ⟨.ofBytes (ascii "http://h/"), ?_, ?_⟩
  · have hok : (Http.postStream Http.pronto 8 Http.ocioso (some (.ofBytes (ascii "http://h/")))
        none none (some pair) 2 ⟨none, 0⟩).map Prod.fst = some .ok := by
      decide +kernel
    obtain ⟨⟨erro, out, res, t⟩, hrun, rfl⟩ := Option.map_eq_some_iff.mp hok
    refine ⟨out, res, t, hrun, ?_⟩
    exact ((streamed_length_iff (by decide) pair).1 _ _ _ _ _ _ _ _ _ _ _ hrun).mpr
      fun w _ => fits_pair 256 (by decide) _
  · have hok : (Esp32HttpClient.postStream prompt 2 {} (some (.ofBytes (ascii "http://h/")))
        none none (some pair) 2 ⟨none, 0⟩ {}).map Prod.fst = some .ok := by
      decide
    obtain ⟨⟨erro, out, res, c, h⟩, hrun, rfl⟩ := Option.map_eq_some_iff.mp hok
    refine ⟨out, res, c, h, hrun, ?_⟩
    exact ((streamed_length_iff (by decide) pair).2 _ _ _ _ _ _ _ _ _ _ _ _ _ hrun).mpr
      fun _ _ _ => fits_pair 512 (by decide) _

/-- A source that has grown behind its announced length. -/
def grown : BodyReader := fun _ => some (ascii "ab")

/-- Of one announced byte, both clients send two. -/
theorem streamed_length_grown :
    ∃ (url : CString) (t : Http Unit) (h : EspHandle) (c : Esp32HttpClient),
      Http.postStream Http.pronto 2 Http.ocioso (some url) none none (some grown) 1 ⟨none, 0⟩ =
        some (.transport, ⟨none, 0⟩, {}, t) ∧
      body (bodyStart Http.pronto Http.ocioso (some url) none none 1) t.socket.enviado =
        ascii "ab" ∧
      Esp32HttpClient.postStream prompt 2 {} (some url) none none (some grown) 1 ⟨none, 0⟩ {} =
        some (.transport, ⟨none, 0⟩, {}, c, h) ∧
      h.sent = ascii "ab" ∧
      ¬LengthKept grown 256 1 .transport (ascii "ab") ∧
      ¬LengthKept grown 512 1 .transport (ascii "ab") := by
  refine ⟨.ofBytes (ascii "http://h/"), _, _, _, rfl, by decide, rfl, by decide, ?_, ?_⟩
  · intro hkept
    exact absurd hkept.1 (by decide)
  · intro hkept
    exact absurd hkept.1 (by decide)

end FirmwareUpdater.Links
