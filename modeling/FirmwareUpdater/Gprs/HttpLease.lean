import FirmwareUpdater.Gprs.DownloadStream
import FirmwareUpdater.Gprs.LinkSteps
import FirmwareUpdater.Library.Run

/-!
# The lease follows the download

Every exchange takes the lease of the link for itself and gives it back on each of
its exits; a download keeps it from the headers to `endDownload`. `Disciplina` is
what holds between calls, and `lease_segue_download` says it of every run of calls:
the lease is held exactly while a download is open, and until then every other
request is turned away without a trace.
-/

namespace FirmwareUpdater

open Library

namespace Http

open GsmHttpClient

variable {σ : Type} {a : Ambiente} {rounds : Nat} {s t : Http σ}

/-! ## Taking the lease and giving it back -/

/-- Nobody holds the lease, and no download is open. -/
structure Livre (s : Http σ) : Prop where
  lease : s.rede.link.httpLeased = false
  fechado : s.cliente.open_ = false

/-- The lease is held on a link that is up. -/
structure Tomado (s : Http σ) : Prop where
  lease : s.rede.link.httpLeased = true
  ready : s.rede.link.state = .ready

/-- Giving the lease back, held or not. -/
theorem releaseHttp_livre (hclosed : s.cliente.open_ = false) : s.releaseHttp.Livre := by
  unfold releaseHttp
  split
  · rename_i hfree
    exact ⟨by simpa using hfree, hclosed⟩
  · exact ⟨s.rede.releaseHttp_lease, hclosed⟩

/-- Under somebody's lease `abrir` fails and changes nothing. -/
theorem abrir_tomado (h : s.rede.link.httpLeased = true) : s.abrir a = (false, s) := by
  have hdenied : s.rede.acquireForHttp = (false, s.rede) := by
    rcases s.rede.acquireForHttp_cases with hdenied | ⟨_, hfree, _⟩
    · exact hdenied
    · rw [h] at hfree
      cases hfree
  simp [abrir, hdenied]

/-- On a free link `abrir` takes the lease if it succeeds, and leaves it free if it fails. -/
theorem abrir_livre (h : s.Livre) {aberto : Bool} (hcall : s.abrir a = (aberto, t)) :
    t.cliente.open_ = false ∧ (aberto = true → t.Tomado) ∧ (aberto = false → t.Livre) := by
  unfold abrir at hcall
  rcases s.rede.acquireForHttp_cases with hdenied | ⟨hready, _, rede, hgranted, hlink⟩
  · simp only [hdenied, Bool.not_false, if_true, Prod.mk.injEq] at hcall
    obtain ⟨rfl, rfl⟩ := hcall
    exact ⟨h.fechado, nofun, fun _ => h⟩
  have htomado : rede.link.httpLeased = true ∧ rede.link.state = .ready := by
    rw [hlink]
    exact ⟨rfl, hready⟩
  have hclient : ({ s with rede } : Http σ).temCliente = true := htomado.1
  simp only [hgranted, hclient, Bool.not_true, Bool.false_eq_true, if_false] at hcall
  split at hcall
  · cases hcall
    have hfree := releaseHttp_livre (s := { s with rede, socket := s.socket.passo }) h.fechado
    exact ⟨hfree.fechado, nofun, fun _ => hfree⟩
  · cases hcall
    exact ⟨h.fechado, fun _ => ⟨htomado.1, htomado.2⟩, nofun⟩

/-! ## The operations -/

/-- An exchange begun on a free link ends on one, whichever exit it takes. -/
theorem trocar_livre (h : s.Livre) {url : Option CString}
    {enviar : Alvo → Socket → Option (Bool × Socket)} {out out' : Saida} {res res' : HttpResponse}
    {erro : HttpError} (hcall : s.trocar a rounds url enviar out res = some (erro, out', res', t)) :
    t.Livre := by
  unfold trocar at hcall
  split at hcall
  · cases hcall
    exact h
  split at hcall
  · cases hcall
    exact h
  split at hcall
  · rename_i hopen
    cases hcall
    exact (abrir_livre h hopen).2.2 rfl
  rename_i aberto hopen
  have hclosed := (abrir_livre h hopen).1
  -- From here on the exchange holds the lease, and every exit gives it back.
  simp only [bind, Option.bind_eq_some_iff] at hcall
  obtain ⟨⟨enviou, socket⟩, _, hcall⟩ := hcall
  dsimp only at hcall
  split at hcall
  · cases hcall
    exact releaseHttp_livre hclosed
  simp only [Option.bind_eq_some_iff] at hcall
  obtain ⟨⟨erroCabecalhos, cliente, lido⟩, hheaders, hcall⟩ := hcall
  have hkept := (lerCabecalhos_keeps hheaders).2.trans hclosed
  dsimp only at hcall
  split at hcall
  · cases hcall
    exact releaseHttp_livre hkept
  simp only [Option.bind_eq_some_iff] at hcall
  obtain ⟨⟨escrito, saida, final, ultimo⟩, hbody, hcall⟩ := hcall
  cases hcall
  exact releaseHttp_livre (lerResposta_keeps (open_mantido a _) hbody hkept)

/-- An exchange under somebody's lease fails to connect and changes nothing. -/
theorem trocar_tomado (h : s.rede.link.httpLeased = true) (url : Option CString)
    (enviar : Alvo → Socket → Option (Bool × Socket)) (out : Saida) (res : HttpResponse) :
    s.trocar a rounds url enviar out res = some (.connectFailed, out, res, s) := by
  unfold trocar
  split
  · rfl
  split
  · rfl
  · rw [abrir_tomado h]

/-- What holds between calls: the lease goes with the open download, on a link that is up. -/
structure Disciplina (s : Http σ) : Prop where
  lease_iff : s.rede.link.httpLeased = true ↔ s.cliente.open_ = true
  ready : s.rede.link.httpLeased = true → s.rede.link.state = .ready

/-- A free link is in order. -/
theorem Livre.disciplina (h : s.Livre) : s.Disciplina :=
  ⟨by rw [h.lease, h.fechado], by simp [h.lease]⟩

/-- Without a download the link is free. -/
theorem Disciplina.livre (h : s.Disciplina) (hclosed : s.cliente.open_ = false) : s.Livre := by
  refine ⟨?_, hclosed⟩
  rw [← Bool.not_eq_true, h.lease_iff, hclosed]
  exact Bool.false_ne_true

/-- An exchange keeps the order. -/
theorem Disciplina.trocar (h : s.Disciplina) {url : Option CString}
    {enviar : Alvo → Socket → Option (Bool × Socket)} {out out' : Saida} {res res' : HttpResponse}
    {erro : HttpError}
    (hcall : s.trocar a rounds url enviar out res = some (erro, out', res', t)) :
    t.Disciplina := by
  cases hopen : s.cliente.open_ with
  | false => exact (trocar_livre (h.livre hopen) hcall).disciplina
  | true =>
      rw [trocar_tomado (h.lease_iff.mpr hopen)] at hcall
      cases hcall
      exact h

/-- `endDownload` leaves the link free. -/
theorem Disciplina.endDownload (h : s.Disciplina) : s.endDownload.Livre := by
  unfold Http.endDownload
  cases hopen : s.cliente.open_ with
  | false => exact h.livre hopen
  | true => exact releaseHttp_livre rfl

/-- `beginDownload` ends with a download under the lease, or with neither. -/
theorem Disciplina.beginDownload (h : s.Disciplina) {url : Option CString} {rangeOffset : UInt32}
    {erro : HttpError} (hcall : s.beginDownload a rounds url rangeOffset = some (erro, t)) :
    t.Disciplina := by
  have hfree := h.endDownload
  unfold Http.beginDownload at hcall
  dsimp only at hcall
  split at hcall
  · cases hcall
    exact hfree.disciplina
  split at hcall
  · cases hcall
    exact hfree.disciplina
  split at hcall
  · rename_i hopen
    cases hcall
    exact ((abrir_livre hfree hopen).2.2 rfl).disciplina
  rename_i hopen
  obtain ⟨hclosed, htomado, _⟩ := abrir_livre hfree hopen
  simp only [bind, Option.bind_eq_some_iff] at hcall
  obtain ⟨⟨erroCabecalhos, cliente, socket⟩, hheaders, hcall⟩ := hcall
  have hkept := (lerCabecalhos_keeps hheaders).2.trans hclosed
  dsimp only at hcall
  split at hcall
  · cases hcall
    exact (releaseHttp_livre hkept).disciplina
  split at hcall
  · cases hcall
    exact (releaseHttp_livre hkept).disciplina
  · cases hcall
    exact ⟨by simp [(htomado rfl).lease], fun _ => (htomado rfl).ready⟩

/-- `readChunk` touches neither the link nor the open flag. -/
theorem readChunk_keeps (out : Bool) (cap : Nat) :
    (s.readChunk a out cap).2.2.rede = s.rede ∧
      (s.readChunk a out cap).2.2.cliente.open_ = s.cliente.open_ := by
  have hcorpo := lerCorpo_keeps (open_mantido a s.cliente.open_) cap [] (w := s.socket) rfl
  unfold readChunk
  split
  · exact ⟨rfl, rfl⟩
  split
  · exact ⟨rfl, rfl⟩
  generalize lerCorpo a cap [] s.cliente s.socket = lida at hcorpo
  obtain ⟨got, fim, cliente, socket⟩ := lida
  dsimp only at hcorpo ⊢
  split
  · exact ⟨rfl, hcorpo⟩
  split
  · exact ⟨rfl, hcorpo⟩
  split
  · exact ⟨rfl, hcorpo⟩
  generalize (if a.connected socket.tick = true then socket.passo
    else socket.passo.passo) = asked
  split
  · exact ⟨rfl, hcorpo⟩
  split <;> exact ⟨rfl, hcorpo⟩

/-- So it keeps the order. -/
theorem Disciplina.readChunk (h : s.Disciplina) (out : Bool) (cap : Nat) :
    (s.readChunk a out cap).2.2.Disciplina := by
  obtain ⟨hrede, hopen⟩ := readChunk_keeps (a := a) (s := s) out cap
  exact ⟨by rw [hrede, hopen]; exact h.lease_iff, by rw [hrede]; exact h.ready⟩

/-- A loop of the link changes nothing under a lease, and takes none. -/
theorem Disciplina.linkLoop (h : s.Disciplina) (now : UInt32) (r : RespostaModem) :
    (s.linkLoop now r).Disciplina := by
  cases hopen : s.cliente.open_ with
  | true =>
      have hready := h.ready (h.lease_iff.mpr hopen)
      rw [Http.linkLoop, s.rede.loop_ready now r hready]
      exact h
  | false =>
      refine Livre.disciplina ⟨?_, hopen⟩
      rw [← Bool.not_eq_true]
      intro hleased
      have hbefore := s.rede.loop_lease now r hleased
      rw [(h.livre hopen).lease] at hbefore
      cases hbefore

/-! ## Runs of calls -/

/-- A call of the client's, or a loop of the link between two of them. -/
inductive Chamada where
  | postJson (url body : Option CString) (out : Saida) (res : HttpResponse)
  | get (url : Option CString) (out : Saida)
  | postStream (url contentType extraHeaders : Option CString) (reader : Option BodyReader)
      (totalLen : UInt32) (out : Saida)
  | beginDownload (url : Option CString) (rangeOffset : UInt32)
  | readChunk (out : Bool) (cap : Nat)
  | endDownload
  | linkLoop (now : UInt32) (r : RespostaModem)

/-- The calls that make an exchange of their own. -/
def Chamada.troca : Chamada → Bool
  | .postJson .. | .get .. | .postStream .. => true
  | .beginDownload .. | .readChunk .. | .endDownload | .linkLoop .. => false

/-- A call: its result, where it has one, and the state it leaves. -/
def chamar (a : Ambiente) (rounds : Nat) (s : Http σ) :
    Chamada → Option (Option HttpError × Http σ)
  | .postJson url body out res =>
      (s.postJson a rounds url body out res).map fun (erro, _, _, t) => (some erro, t)
  | .get url out => (s.get a rounds url out).map fun (erro, _, _, t) => (some erro, t)
  | .postStream url contentType extraHeaders reader totalLen out =>
      (s.postStream a rounds url contentType extraHeaders reader totalLen out).map
        fun (erro, _, _, t) => (some erro, t)
  | .beginDownload url rangeOffset =>
      (s.beginDownload a rounds url rangeOffset).map fun (erro, t) => (some erro, t)
  | .readChunk out cap =>
      let (erro, _, t) := s.readChunk a out cap
      some (some erro, t)
  | .endDownload => some (none, s.endDownload)
  | .linkLoop now r => some (none, s.linkLoop now r)

/-- A call that returns, in whatever surroundings. -/
def Passo (s : Http σ) (chamada : Chamada) (t : Http σ) : Prop :=
  ∃ a rounds erro, s.chamar a rounds chamada = some (erro, t)

/-- Every call keeps the order. -/
theorem Disciplina.passo (h : s.Disciplina) {chamada : Chamada} (hstep : s.Passo chamada t) :
    t.Disciplina := by
  obtain ⟨a, rounds, erro, hcall⟩ := hstep
  cases chamada with
  | postJson url body out res =>
      simp only [chamar, Option.map_eq_some_iff] at hcall
      obtain ⟨⟨erro, out', res', u⟩, hpost, hcall⟩ := hcall
      cases hcall
      rw [postJson] at hpost
      exact h.trocar hpost
  | get url out =>
      simp only [chamar, Option.map_eq_some_iff] at hcall
      obtain ⟨⟨erro, out', res', u⟩, hget, hcall⟩ := hcall
      cases hcall
      rw [Http.get] at hget
      exact h.trocar hget
  | postStream url contentType extraHeaders reader totalLen out =>
      simp only [chamar, Option.map_eq_some_iff] at hcall
      obtain ⟨⟨erro, out', res', u⟩, hpost, hcall⟩ := hcall
      cases hcall
      cases reader with
      | none =>
          cases hpost
          exact h
      | some reader =>
          rw [postStream] at hpost
          exact h.trocar hpost
  | beginDownload url rangeOffset =>
      simp only [chamar, Option.map_eq_some_iff] at hcall
      obtain ⟨⟨erro, u⟩, hbegin, hcall⟩ := hcall
      cases hcall
      exact h.beginDownload hbegin
  | readChunk out cap =>
      cases hcall
      exact h.readChunk out cap
  | endDownload =>
      cases hcall
      exact h.endDownload.disciplina
  | linkLoop now r =>
      cases hcall
      exact h.linkLoop now r

/-- While somebody holds the lease, an exchange fails and changes nothing. -/
theorem chamar_tomado (h : s.rede.link.httpLeased = true) {chamada : Chamada}
    (htroca : chamada.troca = true) (a : Ambiente) (rounds : Nat) :
    ∃ erro, erro ≠ HttpError.ok ∧ s.chamar a rounds chamada = some (some erro, s) := by
  cases chamada with
  | postJson url body out res =>
      refine ⟨.connectFailed, nofun, ?_⟩
      simp only [chamar, postJson, trocar_tomado h, Option.map_some]
  | get url out =>
      refine ⟨.connectFailed, nofun, ?_⟩
      simp only [chamar, get, trocar_tomado h, Option.map_some]
  | postStream url contentType extraHeaders reader totalLen out =>
      cases reader with
      | none => exact ⟨.transport, nofun, rfl⟩
      | some reader =>
          refine ⟨.connectFailed, nofun, ?_⟩
          simp only [chamar, postStream, trocar_tomado h, Option.map_some]
  | beginDownload | readChunk | endDownload | linkLoop => cases htroca

/-- Lease discipline. Start with no download open and nobody holding the lease. After any run of
calls, whatever the modem answers in each, the lease of the link is held exactly when a download
is open; and as long as one is, an exchange fails whatever it meets, and leaves the lease and the
whole state of the download as they were. -/
theorem lease_segue_download {chamadas : List Chamada}
    (hfree : s.rede.link.httpLeased = false) (hclosed : s.cliente.open_ = false)
    (hrun : Run Passo s chamadas t) :
    (t.rede.link.httpLeased = true ↔ t.cliente.open_ = true) ∧
      (t.cliente.open_ = true → ∀ chamada : Chamada, chamada.troca = true →
        ∀ a rounds, ∃ erro, erro ≠ HttpError.ok ∧
          t.chamar a rounds chamada = some (some erro, t)) := by
  have hstart : s.Disciplina := Livre.disciplina ⟨hfree, hclosed⟩
  have hordem : t.Disciplina :=
    hrun.invariant Disciplina (fun _ _ _ h hstep => h.passo hstep) hstart
  refine ⟨hordem.lease_iff, ?_⟩
  intro hopen chamada htroca a rounds
  exact chamar_tomado (hordem.lease_iff.mpr hopen) htroca a rounds

/-- A download under way, and a request turned away during it. -/
theorem lease_segue_download_sample :
    ∃ url : CString, Run Passo ocioso [.beginDownload (some url) 0, .get (some url) ⟨none, 0⟩]
        baixando ∧ baixando.rede.link.httpLeased = true ∧ baixando.cliente.open_ = true := by
  have hbegin : ocioso.Passo (.beginDownload (some (.ofBytes (ascii "http://h/"))) 0) baixando := by
    refine ⟨pronto, 4, some .ok, ?_⟩
    rw [chamar, beginDownload_ocioso, Option.map_some]
  obtain ⟨hlease, hrefused⟩ := lease_segue_download rfl rfl (.single hbegin)
  obtain ⟨erro, _, hget⟩ := hrefused rfl (.get (some (.ofBytes (ascii "http://h/"))) ⟨none, 0⟩) rfl
    pronto 0
  exact ⟨_, .cons hbegin (.single ⟨pronto, 0, some erro, hget⟩), hlease.mpr rfl, rfl⟩

end Http

end FirmwareUpdater
