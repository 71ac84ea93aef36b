import FirmwareUpdater.Gprs.ReadingLoops

/-!
# The course of an exchange

`postJson`, `get` and `postStream` share their course: the lease and the connection,
the request, the head, the body, with an exit behind each of them. `trocar_cases`
says once which exits there are and what each returns. Reading never writes: what
the socket has sent is settled when the request is out.
-/

namespace FirmwareUpdater

namespace GsmHttpClient

/-- Reading the head sends nothing. -/
theorem lerCabecalhos_enviado {a : Ambiente} {rounds : Nat} {c c' : GsmHttpClient}
    {w w' : Socket} {erro : HttpError}
    (h : lerCabecalhos a rounds c w = some (erro, c', w')) : w'.enviado = w.enviado :=
  have hkept : MantidaNaCabeca a fun _ s => s.enviado = w.enviado :=
    ⟨id, fun _ => id, fun _ => id, fun _ => id⟩
  lerLinhas_keeps hkept h rfl

/-- Nor does reading the body. -/
theorem lerResposta_enviado {a : Ambiente} {rounds total : Nat} {out out' : Saida}
    {c c' : GsmHttpClient} {w w' : Socket}
    (h : lerResposta a rounds out c w = some (total, out', c', w')) : w'.enviado = w.enviado :=
  have hkept : MantidaNoCorpo a fun _ s => s.enviado = w.enviado :=
    ⟨id, fun _ => id, fun _ => id, fun _ => id⟩
  lerResposta_keeps hkept h rfl

end GsmHttpClient

namespace Http

open GsmHttpClient

variable {σ : Type} {a : Ambiente} {rounds : Nat} {s t : Http σ}

/-- Giving the lease back leaves alone what was sent. -/
@[simp]
theorem releaseHttp_enviado (s : Http σ) : s.releaseHttp.socket.enviado = s.socket.enviado := by
  unfold releaseHttp
  split <;> rfl

/-- Where the connection of an exchange is open: the target, and the state from which the request
is sent. -/
def begun (a : Ambiente) (s : Http σ) (url : Option CString) : Option (Alvo × Http σ) :=
  if !Url.fetchable url supportsTls then none
  else
    match separar url with
    | none => none
    | some alvo =>
        match s.abrir a with
        | (false, _) => none
        | (true, t) => some (alvo, t)

/-- It opens for an address that can be fetched and split, if the modem connects. -/
theorem begun_eq_some {url : Option CString} {alvo : Alvo}
    (h : s.begun a url = some (alvo, t)) :
    Url.fetchable url supportsTls = true ∧ separar url = some alvo ∧ s.abrir a = (true, t) := by
  unfold begun at h
  split at h
  · cases h
  rename_i hurl
  cases hsplit : separar url with
  | none =>
      rw [hsplit] at h
      cases h
  | some found =>
      rw [hsplit] at h
      cases hopen : s.abrir a with
      | mk opened u =>
          rw [hopen] at h
          cases opened with
          | false => cases h
          | true =>
              cases h
              exact ⟨by simpa using hurl, rfl, rfl⟩

/-- A connection that fails to open sends nothing. -/
theorem abrir_failed (h : s.abrir a = (false, t)) : t.socket.enviado = s.socket.enviado := by
  unfold abrir at h
  generalize s.rede.acquireForHttp = taken at h
  obtain ⟨leased, rede⟩ := taken
  dsimp only at h
  split at h
  · cases h
    rfl
  split at h
  · cases h
    rw [releaseHttp_enviado]
  split at h
  · cases h
    rw [releaseHttp_enviado]
    rfl
  · cases h

/-- How an exchange ends, once its connection is open in `t`. -/
inductive Ended (a : Ambiente) (rounds : Nat) (t : Http σ) (sent : Option (Bool × Socket))
    (out : Saida) (res : HttpResponse) : HttpError → Saida → HttpResponse → Http σ → Prop where
  | unsent {w : Socket} : sent = some (false, w) →
      Ended a rounds t sent out res .transport out res ({ t with socket := w } : Http σ).releaseHttp
  | headless {w w' : Socket} {c : GsmHttpClient} {erro : HttpError} : sent = some (true, w) →
      lerCabecalhos a rounds t.cliente w = some (erro, c, w') → erro ≠ .ok →
      Ended a rounds t sent out res erro out res
        ({ t with cliente := c, socket := w' } : Http σ).releaseHttp
  | answered {w w' w'' : Socket} {c c' : GsmHttpClient} {total : Nat} {out' : Saida} :
      sent = some (true, w) → lerCabecalhos a rounds t.cliente w = some (.ok, c, w') →
      lerResposta a rounds out c w' = some (total, out', c', w'') →
      Ended a rounds t sent out res .ok out' ⟨c'.status, total⟩
        ({ t with cliente := c', socket := w'' } : Http σ).releaseHttp

/-- An exchange ends without a connection, or in one of those ways. -/
theorem trocar_cases {url : Option CString} {enviar : Alvo → Socket → Option (Bool × Socket)}
    {out out' : Saida} {res res' : HttpResponse} {erro : HttpError} {u : Http σ}
    (h : s.trocar a rounds url enviar out res = some (erro, out', res', u)) :
    s.begun a url = none ∧ erro = .connectFailed ∧ out' = out ∧ res' = res ∧
        u.socket.enviado = s.socket.enviado ∨
      ∃ alvo t, s.begun a url = some (alvo, t) ∧
        Ended a rounds t (enviar alvo t.socket) out res erro out' res' u := by
  unfold trocar at h
  unfold begun
  split at h
  · rename_i hurl
    cases h
    exact .inl ⟨if_pos hurl, rfl, rfl, rfl, rfl⟩
  rename_i hurl
  rw [if_neg hurl]
  cases hsplit : separar url with
  | none =>
      simp only [hsplit] at h
      cases h
      exact .inl ⟨rfl, rfl, rfl, rfl, rfl⟩
  | some alvo =>
      simp only [hsplit] at h ⊢
      cases hopen : s.abrir a with
      | mk opened t =>
        cases opened with
        | false =>
            simp only [hopen] at h
            cases h
            exact .inl ⟨rfl, rfl, rfl, rfl, abrir_failed hopen⟩
        | true =>
            simp only [hopen, bind, Option.bind_eq_some_iff] at h
            refine .inr ⟨alvo, t, rfl, ?_⟩
            obtain ⟨⟨enviou, w⟩, hsent, h⟩ := h
            cases enviou with
            | false =>
                cases h
                exact .unsent hsent
            | true =>
                simp only [Bool.not_true, Bool.false_eq_true, if_false,
                  Option.bind_eq_some_iff] at h
                obtain ⟨⟨erroCabecalhos, c, w'⟩, hhead, h⟩ := h
                by_cases herro : erroCabecalhos = .ok
                · subst herro
                  simp only [ne_eq, not_true_eq_false, if_false, Option.bind_eq_some_iff] at h
                  obtain ⟨⟨total, saida, c', w''⟩, hbody, h⟩ := h
                  cases h
                  exact .answered hsent hhead hbody
                · rw [if_pos herro] at h
                  cases h
                  exact .headless hsent hhead herro

/-- An exchange whose connection opens, whose head is read and whose body is read ends well. -/
theorem trocar_answered {url : Option CString} {enviar : Alvo → Socket → Option (Bool × Socket)}
    {out out' : Saida} {res : HttpResponse} {alvo : Alvo} {w w' w'' : Socket}
    {c c' : GsmHttpClient} {total : Nat} (hbegun : s.begun a url = some (alvo, t))
    (hsent : enviar alvo t.socket = some (true, w))
    (hhead : lerCabecalhos a rounds t.cliente w = some (.ok, c, w'))
    (hbody : lerResposta a rounds out c w' = some (total, out', c', w'')) :
    s.trocar a rounds url enviar out res =
      some (.ok, out', ⟨c'.status, total⟩,
        ({ t with cliente := c', socket := w'' } : Http σ).releaseHttp) := by
  obtain ⟨hurl, hsplit, hopen⟩ := begun_eq_some hbegun
  unfold trocar
  simp only [hurl, hsplit, hopen, hsent, hhead, hbody, bind, Option.bind_some, Bool.not_true,
    Bool.false_eq_true, if_false, ne_eq, not_true_eq_false]

/-- What an exchange sent is what its request sent. -/
theorem Ended.enviado {sent : Option (Bool × Socket)} {out out' : Saida}
    {res res' : HttpResponse} {erro : HttpError} {u : Http σ}
    (h : Ended a rounds t sent out res erro out' res' u) :
    ∃ enviou w, sent = some (enviou, w) ∧ u.socket.enviado = w.enviado ∧
      (erro = .ok → enviou = true) := by
  cases h with
  | unsent hsent =>
      refine ⟨_, _, hsent, ?_, nofun⟩
      rw [releaseHttp_enviado]
  | headless hsent hhead _ =>
      refine ⟨_, _, hsent, ?_, fun _ => rfl⟩
      rw [releaseHttp_enviado]
      exact lerCabecalhos_enviado hhead
  | answered hsent hhead hbody =>
      refine ⟨_, _, hsent, ?_, fun _ => rfl⟩
      rw [releaseHttp_enviado]
      exact (lerResposta_enviado hbody).trans (lerCabecalhos_enviado hhead)

end Http

end FirmwareUpdater
