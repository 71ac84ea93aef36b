import FirmwareUpdater.Gprs.ReadingLoops

/-!
# What a download delivers

`Framing` says, for the raw stream behind the headers, which body a byte-at-a-time
reader finds in it and whether that body is all there. `Segue` ties the client's
counters to the part of the stream that was read. Each iteration of `lerCorpo`
keeps it whatever the modem hands over, so whole calls and runs of calls keep it,
and `download_integro` reads the result off: what `readChunk` returns is the body
in order, and end of file is the end of the body.
-/

namespace FirmwareUpdater

open Library Library.Chunked ChunkedDecoder

/-- How a body with an end of its own is delimited. -/
inductive Framing where
  | chunked
  | contentLength (n : Nat)
  deriving DecidableEq, Repr

namespace Framing

/-- The body that reading `raw` byte by byte yields. -/
def body : Framing → List UInt8 → List UInt8
  | .chunked, raw => Reader.start.payload sizeLimit raw
  | .contentLength n, raw => raw.take n

/-- The whole body is in `raw`: with the terminating chunk and the trailer, or all its bytes. -/
def Complete : Framing → List UInt8 → Prop
  | .chunked, raw => Reader.start.after sizeLimit raw = .done
  | .contentLength n, raw => n ≤ raw.length

variable (f : Framing) {lidos raw : List UInt8}

/-- Less of the stream yields less of the body. -/
theorem body_prefix (h : lidos <+: raw) : f.body lidos <+: f.body raw := by
  cases f with
  | chunked => exact Reader.payload_prefix h
  | contentLength n => exact h.take n

/-- After a complete body nothing counts. -/
theorem complete_prefix (h : lidos <+: raw) (hcomplete : f.Complete lidos) :
    f.body raw = f.body lidos ∧ f.Complete raw := by
  cases f with
  | chunked => exact Reader.payload_of_prefix_done h hcomplete
  | contentLength n =>
      obtain ⟨rest, rfl⟩ := h
      simp only [Complete] at hcomplete
      refine ⟨?_, ?_⟩
      · simp only [body]
        rw [List.take_append_of_le_length hcomplete]
      · simp only [Complete, List.length_append]
        omega

end Framing

namespace GsmHttpClient

/-- How the body announced by the headers is delimited. With both headers, chunked wins. -/
def framing (c : GsmHttpClient) : Framing :=
  if c.chunked then .chunked else .contentLength c.length.toNat

/-- The framing of a download broke: nothing more is delivered. -/
def quebrado (c : GsmHttpClient) : Bool := c.chunked && c.chunks.invalid

/-- The client stands where reading `lidos` leads. -/
inductive Segue (c : GsmHttpClient) : Framing → List UInt8 → Prop where
  | chunked {lidos} : c.chunked = true → c.chunks.Wf →
      c.chunks.reader = Reader.start.after sizeLimit lidos → Segue c .chunked lidos
  | contentLength {lidos} : c.chunked = false → 0 < c.length →
      c.recebido.toNat = lidos.length → lidos.length ≤ c.length.toNat →
      Segue c (.contentLength c.length.toNat) lidos

variable {c : GsmHttpClient} {f : Framing} {lidos : List UInt8}

/-- A framing byte is followed, and is no part of the body. -/
theorem segue_feed (h : c.Segue f lidos) (hchunked : c.chunked = true)
    (hdata : c.chunks.inData = false) (byte : UInt8) :
    Segue { c with chunks := c.chunks.feed byte } f (lidos ++ [byte]) ∧
      f.body (lidos ++ [byte]) = f.body lidos := by
  cases h with
  | contentLength hplain => simp [hplain] at hchunked
  | chunked _ hwf hreader =>
      obtain ⟨hfed, hpayload, hfedWf⟩ := drive_step_reads hwf (.framing _ byte hdata)
      refine ⟨.chunked hchunked hfedWf ?_, ?_⟩
      · rw [Reader.after_append, ← hreader]
        exact hfed
      · simp only [Framing.body]
        rw [Reader.payload_append, ← hreader]
        show _ ++ c.chunks.reader.payload sizeLimit (Piece.framing byte).raw = _
        rw [hpayload, Piece.payload, List.append_nil]

/-- A block within what `lerCorpo` asks for is followed, and is the next part of the body. -/
theorem segue_receber (h : c.Segue f lidos) (hdata : c.chunked = true → c.chunks.inData = true)
    (hfim : c.corpoLido = false) {block : List UInt8} (hblock : block ≠ [])
    {room disponivel : Nat} (hle : block.length ≤ c.aPedir room disponivel) :
    Segue (c.receber block.length) f (lidos ++ block) ∧
      f.body (lidos ++ block) = f.body lidos ++ block := by
  have hpos : 1 ≤ block.length := List.length_pos_iff.mpr hblock
  cases h with
  | chunked hchunked hwf hreader =>
      simp only [aPedir, hchunked, if_true] at hle
      have hroom : block.length ≤ c.chunks.remaining.toNat := by omega
      obtain ⟨hmoved, hpayload, hmovedWf⟩ :=
        drive_step_reads hwf (.block _ block (hdata hchunked) hpos hroom)
      refine ⟨.chunked hchunked ?_ ?_, ?_⟩
      · simpa [receber, hchunked] using hmovedWf
      · rw [Reader.after_append, ← hreader]
        simpa [receber, hchunked, Piece.raw] using hmoved
      · simp only [Framing.body]
        rw [Reader.payload_append, ← hreader]
        exact congrArg _ hpayload
  | contentLength hplain hlength hrecebido hbound =>
      have hcounted : ¬ c.recebido ≥ c.length := by
        simpa [corpoLido, hplain, hlength] using hfim
      have hlt : c.recebido < c.length := UInt32.not_le.mp hcounted
      have hleft : (c.length - c.recebido).toNat = c.length.toNat - lidos.length := by
        rw [UInt32.toNat_sub_of_le _ _ (UInt32.le_of_lt hlt), hrecebido]
      have hroom : block.length ≤ c.length.toNat - lidos.length := by
        simp only [aPedir, hplain, gt_iff_lt, hlength, if_true, Bool.false_eq_true, if_false,
          hleft] at hle
        omega
      have hmax := c.length.toNat_lt
      have hsum : (c.recebido + UInt32.ofNat block.length).toNat = (lidos ++ block).length := by
        rw [UInt32.toNat_add, UInt32.toNat_ofNat', hrecebido, List.length_append]
        omega
      refine ⟨.contentLength hplain hlength hsum ?_, ?_⟩
      · rw [List.length_append]
        show _ ≤ c.length.toNat
        omega
      · simp only [Framing.body]
        rw [List.take_of_length_le (by rw [List.length_append]; omega),
          List.take_of_length_le hbound]

/-- The protocol says that the body is over when it is, or when its framing broke. -/
theorem complete_of_corpoLido (h : c.Segue f lidos) (hfim : c.corpoLido = true)
    (hsound : c.quebrado = false) : f.Complete lidos := by
  cases h with
  | chunked hchunked _ hreader =>
      have hdone : c.chunks.done = true := by
        simp only [quebrado, hchunked, Bool.true_and] at hsound
        simpa [corpoLido, hchunked, hsound] using hfim
      exact hreader.symm.trans ((done_iff _).mp hdone)
  | contentLength hplain hlength hrecebido =>
      have hcounted : c.length ≤ c.recebido := by
        simpa [corpoLido, hplain, hlength] using hfim
      rw [Framing.Complete, ← hrecebido]
      exact UInt32.le_iff_toNat_le.mp hcounted

/-- Broken framing stays broken. -/
theorem quebrado_mono {c' : GsmHttpClient} {novos : List UInt8} (h : c.Segue f lidos)
    (h' : c'.Segue f (lidos ++ novos)) (hsound : c'.quebrado = false) : c.quebrado = false := by
  cases h with
  | contentLength hplain => simp [quebrado, hplain]
  | chunked hchunked _ hreader =>
      cases h' with
      | chunked hchunked' _ hreader' =>
          rw [Reader.after_append, ← hreader] at hreader'
          by_contra hbroken
          simp only [quebrado, hchunked, Bool.true_and, Bool.not_eq_false, invalid_iff] at hbroken
          rw [hbroken, Reader.after_invalid, ← invalid_iff] at hreader'
          simp [quebrado, hchunked', hreader'] at hsound

/-- Reading went on in the stream, from where it was with `lidos` read, and found `entregue`. -/
def Leu (f : Framing) (lidos : List UInt8) (w : Socket) (entregue : List UInt8)
    (c' : GsmHttpClient) (w' : Socket) : Prop :=
  ∃ novos, novos ++ w'.rest = w.rest ∧ c'.Segue f (lidos ++ novos) ∧
    f.body (lidos ++ novos) = f.body lidos ++ entregue

/-- A query that hands nothing over reads nothing. -/
theorem leu_nada (h : c.Segue f lidos) {w w' : Socket} (hrest : w'.rest = w.rest) :
    Leu f lidos w [] c w' :=
  ⟨[], hrest, by rwa [List.append_nil], by simp⟩

/-- Reading on after a read. -/
theorem leu_depois {w w' w'' : Socket} {c'' : GsmHttpClient} {primeiros entregue mais : List UInt8}
    (hrest : primeiros ++ w'.rest = w.rest)
    (hbody : f.body (lidos ++ primeiros) = f.body lidos ++ entregue)
    (h : Leu f (lidos ++ primeiros) w' mais c'' w'') :
    Leu f lidos w (entregue ++ mais) c'' w'' := by
  obtain ⟨novos, hnovos, hsegue, hmais⟩ := h
  refine ⟨primeiros ++ novos, ?_, ?_, ?_⟩
  · rw [List.append_assoc, hnovos, hrest]
  · rwa [← List.append_assoc]
  · rw [← List.append_assoc, hmais, hbody, List.append_assoc]

/-- What a call of `lerCorpo` does: it reads on in the stream, puts the bytes of the body that
it finds behind those it had, and reports the end only where the protocol has it. -/
theorem lerCorpo_segue (a : Ambiente) (cap : Nat) (got : List UInt8) (w : Socket)
    (h : c.Segue f lidos) {got' : List UInt8} {fim : Bool} {c' : GsmHttpClient} {w' : Socket}
    (hcall : lerCorpo a cap got c w = (got', fim, c', w')) :
    ∃ entregue, got' = got ++ entregue ∧ Leu f lidos w entregue c' w' ∧
      (fim = true → c'.corpoLido = true) := by
  -- Iteration by iteration: `lidos` grows by what each of them read.
  fun_induction lerCorpo a cap got c w generalizing lidos with
  | case1 got c w _ hover =>
      cases hcall
      exact ⟨[], (List.append_nil _).symm, leu_nada h rfl, fun _ => hover⟩
  | case2 got c w =>
      simp only [Prod.mk.injEq] at hcall
      obtain ⟨rfl, rfl, rfl, rfl⟩ := hcall
      exact ⟨[], (List.append_nil _).symm, leu_nada h rfl, fun hend => by cases hend⟩
  | case3 got c w _ _ _ asked =>
      rename_i hread
      simp only [Prod.mk.injEq] at hcall
      obtain ⟨rfl, rfl, rfl, rfl⟩ := hcall
      have hrest := asked.leitura_append_rest a 1
      rw [hread] at hrest
      exact ⟨[], (List.append_nil _).symm, leu_nada h hrest, fun hend => by cases hend⟩
  | case4 got c w _ _ _ asked _ hframing byte tail hread =>
      rename_i ih
      obtain ⟨hchunked, hdata⟩ : c.chunked = true ∧ c.chunks.inData = false := by
        simpa using hframing
      have hone : asked.leitura a 1 = [byte] := by
        have hlength : (asked.leitura a 1).length ≤ 1 := by
          simp only [Socket.leitura, List.length_take]
          omega
        rw [hread, List.length_cons] at hlength
        rw [hread, List.eq_nil_of_length_eq_zero (by omega : tail.length = 0)]
      have hrest := asked.leitura_append_rest a 1
      rw [hone] at hrest
      obtain ⟨hsegue, hbody⟩ := segue_feed h hchunked hdata byte
      obtain ⟨entregue, hgot, hleu, hfim⟩ := ih hsegue hcall
      rw [← List.append_nil (f.body lidos)] at hbody
      exact ⟨entregue, hgot, leu_depois hrest hbody hleu, hfim⟩
  | case5 got c w _ _ _ asked _ _ pedir =>
      rename_i hread
      simp only [Prod.mk.injEq] at hcall
      obtain ⟨rfl, rfl, rfl, rfl⟩ := hcall
      have hrest := asked.leitura_append_rest a pedir
      rw [hread] at hrest
      exact ⟨[], (List.append_nil _).symm, leu_nada h hrest, fun hend => by cases hend⟩
  | case6 got c w _ hover disponivel asked _ hframing pedir hread =>
      rename_i ih
      have hdata : c.chunked = true → c.chunks.inData = true := by
        simpa using hframing
      have hle : (asked.leitura a pedir).length ≤
          c.aPedir (cap - got.length) disponivel.toNat := by
        simp only [Socket.leitura, List.length_take]
        omega
      obtain ⟨hsegue, hbody⟩ :=
        segue_receber h hdata (Bool.not_eq_true _ ▸ hover) hread hle
      obtain ⟨entregue, hgot, hleu, hfim⟩ := ih hsegue hcall
      refine ⟨asked.leitura a pedir ++ entregue, ?_, ?_, hfim⟩
      · rw [hgot, List.append_assoc]
      · exact leu_depois (asked.leitura_append_rest a pedir) hbody hleu
  | case7 got c w =>
      cases hcall
      exact ⟨[], (List.append_nil _).symm, leu_nada h rfl, fun hend => by cases hend⟩

/-- The clock of the last byte is no part of where the client stands. -/
theorem segue_relogio (h : c.Segue f lidos) (ultimoByte : UInt32) :
    Segue { c with ultimoByte } f lidos := by
  cases h with
  | chunked hchunked hwf hreader => exact .chunked hchunked hwf hreader
  | contentLength hplain hlength hrecebido hbound =>
      exact .contentLength hplain hlength hrecebido hbound

/-- Nor is it of what was read, no more than a query to the socket. -/
theorem leu_relogio {w w' w'' : Socket} {entregue : List UInt8} {c' : GsmHttpClient}
    (h : Leu f lidos w entregue c' w') (hrest : w''.rest = w'.rest) (ultimoByte : UInt32) :
    Leu f lidos w entregue { c' with ultimoByte } w'' := by
  obtain ⟨novos, hnovos, hsegue, hbody⟩ := h
  exact ⟨novos, hrest ▸ hnovos, segue_relogio hsegue ultimoByte, hbody⟩

/-- A framing has an end of its own: the connection's end is not the body's. -/
theorem segue_delimitado (h : c.Segue f lidos) :
    (!c.chunked && decide (c.length = 0)) = false := by
  cases h with
  | chunked hchunked => simp [hchunked]
  | contentLength _ hlength =>
      have hne : c.length ≠ 0 := (UInt32.pos_iff_ne_zero).mp hlength
      simp [hne]

end GsmHttpClient

namespace Http

open GsmHttpClient

variable {σ : Type}

/-- A download that began stands at the start of its body. -/
theorem beginDownload_ok {a : Ambiente} {rounds : Nat} {s s₀ : Http σ} {url : Option CString}
    {rangeOffset : UInt32} (h : s.beginDownload a rounds url rangeOffset = some (.ok, s₀)) :
    s₀.cliente.recebido = 0 ∧ s₀.cliente.chunks = .reset := by
  unfold beginDownload at h
  dsimp only at h
  split at h
  · cases h
  split at h
  · cases h
  split at h
  · cases h
  simp only [bind, Option.bind_eq_some_iff] at h
  obtain ⟨⟨erro, cliente, socket⟩, hheaders, h⟩ := h
  dsimp only at h
  split at h
  · cases h
    contradiction
  split at h
  · cases h
  · cases h
    exact ⟨rfl, (lerCabecalhos_keeps hheaders).1⟩

/-- What a call of `readChunk` does to the download. Bytes it returns with `ok` are the next of
the body; with any other result it found none, or the framing broke; and the end of file is
reported where the protocol has the end of the body. -/
theorem readChunk_segue {a : Ambiente} {s t : Http σ} {cap : Nat} {erro : HttpError}
    {got : List UInt8} {f : Framing} {lidos : List UInt8} (h : s.cliente.Segue f lidos)
    (hcall : s.readChunk a true cap = (erro, got, t)) :
    ∃ entregue, Leu f lidos s.socket entregue t.cliente t.socket ∧
      (erro = .ok ∧ got = entregue ∧ t.cliente.quebrado = false ∨
        erro ≠ .ok ∧ (entregue = [] ∨ t.cliente.quebrado = true)) ∧
      (erro = .eof → t.cliente.quebrado = false ∧ t.cliente.corpoLido = true) := by
  unfold readChunk at hcall
  split at hcall
  · cases hcall
    exact ⟨[], leu_nada h rfl, .inr ⟨nofun, .inl rfl⟩, nofun⟩
  split at hcall
  · cases hcall
    exact ⟨[], leu_nada h rfl, .inr ⟨nofun, .inl rfl⟩, nofun⟩
  generalize hread : lerCorpo a cap [] s.cliente s.socket = lida at hcall
  obtain ⟨lido, fim, cliente, socket⟩ := lida
  obtain ⟨entregue, hgot, hleu, hfim⟩ := lerCorpo_segue a cap [] s.socket h hread
  rw [List.nil_append] at hgot
  subst hgot
  refine ⟨lido, ?_⟩
  dsimp only at hcall
  split at hcall
  · rename_i hbroken
    cases hcall
    exact ⟨hleu, .inr ⟨nofun, .inr hbroken⟩, nofun⟩
  rename_i hsound
  have hwhole : cliente.quebrado = false := by simpa [quebrado] using hsound
  split at hcall
  · cases hcall
    exact ⟨leu_relogio hleu rfl _, .inl ⟨rfl, rfl, hwhole⟩, nofun⟩
  rename_i hnone
  have hempty : lido = [] := by simpa using hnone
  split at hcall
  · rename_i hended
    cases hcall
    exact ⟨hleu, .inr ⟨nofun, .inl hempty⟩, fun _ => ⟨hwhole, hfim hended⟩⟩
  -- From here on the body has an end that was not reached, so no result is the end of file.
  have hdelimited : (!cliente.chunked && decide (cliente.length = 0)) = false := by
    obtain ⟨_, _, hsegue, _⟩ := hleu
    exact segue_delimitado hsegue
  rw [hdelimited] at hcall
  have hpolled : ∀ w : Socket, w.rest = socket.rest → Leu f lidos s.socket lido cliente w :=
    fun w hrest => leu_relogio hleu hrest cliente.ultimoByte
  generalize hasked : (if a.connected socket.tick = true then socket.passo
    else socket.passo.passo) = asked at hcall
  have hrest : asked.rest = socket.rest := by
    subst hasked
    split <;> rfl
  split at hcall
  · cases hcall
    exact ⟨hpolled _ hrest, .inr ⟨nofun, .inl hempty⟩, nofun⟩
  split at hcall
  · cases hcall
    exact ⟨hpolled _ hrest, .inr ⟨nofun, .inl hempty⟩, nofun⟩
  · cases hcall
    exact ⟨hpolled _ hrest, .inr ⟨nofun, .inl hempty⟩, nofun⟩

/-! ## Runs of reads -/

/-- A call of `readChunk` with room for something: its result and the bytes it returned. -/
def Leitura (a : Ambiente) (s : Http σ) (lida : HttpError × List UInt8) (t : Http σ) : Prop :=
  ∃ cap, 1 ≤ cap ∧ s.readChunk a true cap = (lida.1, lida.2, t)

/-- The bytes returned with `ok`, in order. -/
def entregues (lidas : List (HttpError × List UInt8)) : List UInt8 :=
  (lidas.filter (·.1 = .ok)).flatMap Prod.snd

/-- What two runs of reads return. -/
theorem entregues_append (first second : List (HttpError × List UInt8)) :
    entregues (first ++ second) = entregues first ++ entregues second := by
  simp [entregues]

/-- The download stands somewhere in the stream `raw`, and what was returned is the part of the
body found so far, all of it as long as the framing holds. -/
structure Acompanha (f : Framing) (raw : List UInt8) (s : Http σ) (lidos got : List UInt8) :
    Prop where
  resto : lidos ++ s.socket.rest = raw
  segue : s.cliente.Segue f lidos
  parte : got <+: f.body lidos
  tudo : s.cliente.quebrado = false → got = f.body lidos

/-- A read keeps what is returned a part of the body, and reports the end of file only when all
of it was returned. -/
theorem acompanha_leitura {a : Ambiente} {s t : Http σ} {f : Framing} {raw lidos got : List UInt8}
    {lida : HttpError × List UInt8} (h : Acompanha f raw s lidos got) (hread : Leitura a s lida t) :
    ∃ novos, Acompanha f raw t (lidos ++ novos) (got ++ entregues [lida]) ∧
      (lida.1 = .eof → f.Complete (lidos ++ novos) ∧ got = f.body (lidos ++ novos)) := by
  obtain ⟨erro, bytes⟩ := lida
  obtain ⟨cap, _, hcall⟩ := hread
  obtain ⟨entregue, ⟨novos, hnovos, hsegue, hbody⟩, hresult, heof⟩ := readChunk_segue h.segue hcall
  have hresto : (lidos ++ novos) ++ t.socket.rest = raw := by
    rw [List.append_assoc, hnovos, h.resto]
  have hbefore := quebrado_mono h.segue hsegue
  -- Where the framing just broke, what this call read of the body is not returned with `ok`.
  rcases hresult with ⟨rfl, rfl, hsound⟩ | ⟨hnotOk, hnone⟩
  · have hall := h.tudo (hbefore hsound)
    have hgot : got ++ entregues [(.ok, bytes)] = f.body (lidos ++ novos) := by
      rw [hbody, hall]
      simp [entregues]
    exact ⟨novos, ⟨hresto, hsegue, hgot ▸ List.prefix_rfl, fun _ => hgot⟩, nofun⟩
  · have hskip : entregues [(erro, bytes)] = [] := by simp [entregues, hnotOk]
    have hall : t.cliente.quebrado = false → got = f.body (lidos ++ novos) := by
      intro hsound
      rcases hnone with rfl | hbroken
      · rw [hbody, List.append_nil]
        exact h.tudo (hbefore hsound)
      · rw [hbroken] at hsound
        cases hsound
    refine ⟨novos, ⟨hresto, hsegue, ?_, ?_⟩, ?_⟩
    · rw [hskip, List.append_nil, hbody]
      exact h.parte.trans (List.prefix_append _ _)
    · rwa [hskip, List.append_nil]
    · intro hended
      obtain ⟨hsound, hover⟩ := heof hended
      exact ⟨complete_of_corpoLido hsegue hover hsound, hall hsound⟩

/-- So does a run of reads. -/
theorem acompanha_run {a : Ambiente} {s t : Http σ} {f : Framing} {raw lidos got : List UInt8}
    {lidas : List (HttpError × List UInt8)} (h : Acompanha f raw s lidos got)
    (hrun : Run (Leitura a) s lidas t) :
    ∃ lidos', Acompanha f raw t lidos' (got ++ entregues lidas) := by
  induction hrun generalizing lidos got with
  | nil => exact ⟨lidos, by simpa [entregues] using h⟩
  | cons hread _ ih =>
      obtain ⟨novos, hnext, _⟩ := acompanha_leitura h hread
      obtain ⟨lidos', hlast⟩ := ih hnext
      refine ⟨lidos', ?_⟩
      rwa [List.append_assoc, ← entregues_append, List.singleton_append] at hlast

/-- A download that began with a delimited body stands at its start. -/
theorem acompanha_begin {a : Ambiente} {rounds : Nat} {s s₀ : Http σ} {url : Option CString}
    {rangeOffset : UInt32} (h : s.beginDownload a rounds url rangeOffset = some (.ok, s₀))
    (hframed : s₀.cliente.chunked = true ∨ 0 < s₀.cliente.length) :
    Acompanha s₀.cliente.framing s₀.socket.rest s₀ [] [] := by
  obtain ⟨hrecebido, hchunks⟩ := beginDownload_ok h
  cases hchunked : s₀.cliente.chunked with
  | true =>
      simp only [framing, hchunked, if_true]
      refine ⟨rfl, .chunked hchunked ?_ ?_, List.nil_prefix, fun _ => rfl⟩
      · rw [hchunks]
        exact wf_reset
      · rw [hchunks]
        rfl
  | false =>
      have hlength : 0 < s₀.cliente.length := by simpa [hchunked] using hframed
      simp only [framing, hchunked, Bool.false_eq_true, if_false]
      refine ⟨rfl, .contentLength hchunked hlength ?_ (Nat.zero_le _), List.nil_prefix, ?_⟩
      · rw [hrecebido]
        rfl
      · simp [Framing.body]

/-- Download integrity. Let a download begin with a body that is chunked or of a declared length,
and let `raw` be what its connection will deliver until it closes. Over every run of reads, the
bytes returned with `ok` are a prefix of the body that reading `raw` byte by byte yields. When a
read then reports the end of file, all of that body was returned, and the part of the stream that
was consumed has the whole of it. A stream that closes earlier or breaks the framing never has an
end of file. -/
theorem download_integro {a : Ambiente} {rounds : Nat} {s s₀ t : Http σ} {url : Option CString}
    {rangeOffset : UInt32} (hbegin : s.beginDownload a rounds url rangeOffset = some (.ok, s₀))
    (hframed : s₀.cliente.chunked = true ∨ 0 < s₀.cliente.length)
    {lidas : List (HttpError × List UInt8)} (hrun : Run (Leitura a) s₀ lidas t) :
    let f := s₀.cliente.framing
    let raw := s₀.socket.rest
    entregues lidas <+: f.body raw ∧
      (∀ bytes u, Leitura a t (.eof, bytes) u →
        entregues lidas = f.body raw ∧ f.Complete raw ∧
          ∃ lidos, lidos ++ u.socket.rest = raw ∧ f.Complete lidos) ∧
      (¬ f.Complete raw → ∀ bytes, (.eof, bytes) ∉ lidas) := by
  intro f raw
  have hstart := acompanha_begin hbegin hframed
  have hend : ∀ {before u v bytes}, Run (Leitura a) s₀ before u → Leitura a u (.eof, bytes) v →
      entregues before = f.body raw ∧ f.Complete raw ∧
        ∃ lidos, lidos ++ v.socket.rest = raw ∧ f.Complete lidos := by
    intro before u v bytes hbefore hread
    obtain ⟨lidos, hthere⟩ := acompanha_run hstart hbefore
    obtain ⟨novos, hnext, heof⟩ := acompanha_leitura hthere hread
    obtain ⟨hcomplete, hall⟩ := heof rfl
    obtain ⟨hbody, hraw⟩ := f.complete_prefix ⟨_, hnext.resto⟩ hcomplete
    exact ⟨hall.trans hbody.symm, hraw, _, hnext.resto, hcomplete⟩
  refine ⟨?_, ?_, ?_⟩
  · obtain ⟨lidos, hthere⟩ := acompanha_run hstart hrun
    exact hthere.parte.trans (f.body_prefix ⟨_, hthere.resto⟩)
  · intro bytes u hread
    exact hend hrun hread
  · intro hshort bytes hmem
    obtain ⟨before, after, rfl⟩ := List.append_of_mem hmem
    obtain ⟨u, v, hbefore, hread, _⟩ := hrun.split_cons
    exact hshort (hend hbefore hread).2.1

/-- A modem with everything at hand, a stopped clock and a server that sends two bytes. -/
def pronto : Ambiente where
  millis _ := 0
  conecta _ := some (ascii "HTTP/1.1 200 OK\r\nContent-Length: 2\r\n\r\nHi")
  connected _ := true
  available _ := 64
  entrega _ := 64
  aceita _ := 64

/-- A client on a link that is up. -/
def ocioso : Http Unit where
  rede := { link := { cfg := ⟨none, 0, 0, 0⟩, state := .ready }, gates := {}, sessao := () }
  cliente := {}
  socket := {}

/-- The client once the download of those two bytes began. -/
def baixando : Http Unit where
  rede := { ocioso.rede with link := { ocioso.rede.link with httpLeased := true } }
  cliente := { status := 200, length := 2, open_ := true }
  socket :=
    { rest := ascii "Hi"
      enviado := ascii ("GET / HTTP/1.1\r\nHost: h\r\nAccept: application/octet-stream\r\n" ++
        "Connection: close\r\n\r\n")
      tick := 20 }

theorem beginDownload_ocioso :
    ocioso.beginDownload pronto 4 (some (.ofBytes (ascii "http://h/"))) 0 =
      some (.ok, baixando) :=
  Eq.refl _

/-- The two bytes, read one by one up to the end of file. -/
theorem download_integro_sample :
    ∃ t u, Run (Leitura pronto) baixando [(.ok, ascii "H"), (.ok, ascii "i")] t ∧
      Leitura pronto t (.eof, []) u ∧ u.socket.rest = [] ∧
      entregues [(.ok, ascii "H"), (.ok, ascii "i")] =
        baixando.cliente.framing.body baixando.socket.rest := by
  let first := (baixando.readChunk pronto true 1).2.2
  let second := (first.readChunk pronto true 9).2.2
  let last := (second.readChunk pronto true 9).2.2
  have hfirst : Leitura pronto baixando (.ok, ascii "H") first :=
    ⟨1, by decide, Prod.ext (by decide +kernel) (Prod.ext (by decide +kernel) rfl)⟩
  have hsecond : Leitura pronto first (.ok, ascii "i") second :=
    ⟨9, by decide, Prod.ext (by decide +kernel) (Prod.ext (by decide +kernel) rfl)⟩
  have hlast : Leitura pronto second (.eof, []) last :=
    ⟨9, by decide, Prod.ext (by decide +kernel) (Prod.ext (by decide +kernel) rfl)⟩
  have hrun := Run.cons hfirst (.single hsecond)
  obtain ⟨_, heof, _⟩ := download_integro beginDownload_ocioso (.inr (by decide)) hrun
  exact ⟨second, last, hrun, hlast, by decide +kernel, (heof [] last hlast).1⟩

end Http

end FirmwareUpdater
