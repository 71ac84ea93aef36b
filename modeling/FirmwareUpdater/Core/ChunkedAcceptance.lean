import FirmwareUpdater.Core.ChunkedDecoder
import FirmwareUpdater.Library.ChunkedGrammar

/-!
# What the chunked decoder accepts

The other direction of `ChunkedDecoder.drive_undoes_encoding`: what a byte string that makes the
decoder `done` looks like. `done_iff_readable` gives it for the grammar the decoder follows,
`Chunked.RawBody.Readable`, in which blanks and carriage returns may stand anywhere in a size and
a line end may hold any number of carriage returns. `accepts_only_chunked_iff` says when the
decoder accepts chunked encoding only: when no body with such a line begins the stream.
-/

namespace FirmwareUpdater

open Library Library.Chunked

namespace ChunkedDecoder

/-! ## Bad framing is final -/

/-- The calls that change a decoder, other than `reset`. -/
inductive Call where
  | feed (c : UInt8)
  | consumeData (n : UInt32)

/-- A call on a decoder in any phase. -/
def exec (d : ChunkedDecoder) : Call → ChunkedDecoder
  | .feed c => d.feed c
  | .consumeData n => d.consumeData n

/-- Bad framing is ignored by every call. -/
theorem exec_of_invalid {d : ChunkedDecoder} (h : d.invalid = true) (call : Call) :
    d.exec call = d := by
  have hphase : d.phase = .invalid := by simpa [invalid] using h
  cases call with
  | feed c => simp [exec, feed, hphase]
  | consumeData n => simp [exec, consumeData, hphase]

/-- Bad framing stays bad framing until `reset`. -/
theorem invalid_sticky {d : ChunkedDecoder} (h : d.invalid = true) (calls : List Call) :
    (calls.foldl exec d).invalid = true := by
  induction calls with
  | nil => exact h
  | cons call calls ih =>
      rw [List.foldl_cons, exec_of_invalid h]
      exact ih

/-! ## The bodies the decoder takes -/

/-- The raw bytes consumed. -/
def consumed (pieces : List Piece) : List UInt8 := pieces.flatMap Piece.raw

/-- The payload delivered. -/
def delivered (pieces : List Piece) : List UInt8 := pieces.flatMap Piece.payload

/-- A body the decoder follows: readable, with sizes that fit its counter. -/
def Takes (body : RawBody) : Prop := body.Readable ∧ body.Below sizeLimit

variable {pieces : List Piece} {d : ChunkedDecoder}

/-- Consuming a body that the decoder follows makes it done, with the body's content delivered. -/
theorem done_of_takes (h : Run Drive reset pieces d) {body : RawBody} (hbody : Takes body)
    (hbegins : body.encode <+: consumed pieces) :
    d.done = true ∧ delivered pieces = body.content := by
  obtain ⟨hreader, hpayload, _⟩ := drive_reads wf_reset h
  obtain ⟨hread, hcontent⟩ := hbody.1.read hbody.2 (by decide)
  obtain ⟨hwhole, hdone⟩ := Reader.payload_of_prefix_done hbegins hread
  rw [reader_reset] at hreader hpayload
  exact ⟨(done_iff d).mpr (hreader.trans hdone), hpayload.symm.trans (hwhole.trans hcontent)⟩

/-- The decoder is done exactly when what it consumed begins with a body that it follows. -/
theorem done_iff_takes (h : Run Drive reset pieces d) :
    d.done = true ↔ ∃ body, Takes body ∧ body.encode <+: consumed pieces := by
  constructor
  · intro hdone
    obtain ⟨hreader, _⟩ := drive_reads wf_reset h
    rw [reader_reset, (done_iff d).mp hdone] at hreader
    obtain ⟨body, hreadable, hbelow, hbegins⟩ :=
      Reader.exists_readable hreader.symm (by decide)
    exact ⟨body, ⟨hreadable, hbelow⟩, hbegins⟩
  · rintro ⟨body, hbody, hbegins⟩
    exact (done_of_takes h hbody hbegins).1

/-- What was consumed begins with one readable body at most. -/
theorem takes_unique {body other : RawBody} {raw : List UInt8} (hbody : body.Readable)
    (hother : other.Readable) (hbegins : body.encode <+: raw)
    (hotherBegins : other.encode <+: raw) : body = other := by
  obtain ⟨rest, hrest⟩ := hbegins
  obtain ⟨otherRest, hotherRest⟩ := hotherBegins
  exact hbody.unique hother (hrest.trans hotherRest.symm)

/-- In the course of the calls, the decoder is done from the moment on that it has consumed
`encoded`, and not before. -/
def DoneWith (pieces : List Piece) (encoded : List UInt8) : Prop :=
  ∀ first e, first <+: pieces → Run Drive reset first e →
    (e.done = true ↔ encoded <+: consumed first)

/-- A body that the decoder follows is the one that makes it done. -/
theorem doneWith_of_takes {body : RawBody} (hbody : Takes body)
    (hbegins : body.encode <+: consumed pieces) : DoneWith pieces body.encode := by
  intro first e hfirst h
  constructor
  · intro hdone
    obtain ⟨other, hother, hotherBegins⟩ := (done_iff_takes h).mp hdone
    obtain ⟨more, hmore⟩ := hfirst
    have hpieces : consumed first <+: consumed pieces :=
      ⟨consumed more, by rw [← hmore, consumed, consumed, consumed, List.flatMap_append]⟩
    rw [takes_unique hbody.1 hother.1 hbegins (hotherBegins.trans hpieces)]
    exact hotherBegins
  · intro hconsumed
    exact (done_of_takes h hbody hconsumed).1

/-! ## Accepting chunked encoding only -/

/-- The decoder accepts only chunked encoding: if these calls make it done, what it consumed is
a body in chunked encoding, and its content was delivered. Bad framing is final. -/
structure AcceptsOnlyChunked (pieces : List Piece) (d : ChunkedDecoder) : Prop where
  accepted : d.done = true → ∃ body : RawBody, body.Conforms ∧
    body.encode <+: consumed pieces ∧ DoneWith pieces body.encode ∧
    delivered pieces = body.content
  sticky : d.invalid = true → ∀ calls : List Call, (calls.foldl exec d).invalid = true

/-- A decoder that accepts only chunked encoding has consumed no untidy body. -/
theorem AcceptsOnlyChunked.not_untidy (haccepts : AcceptsOnlyChunked pieces d)
    (h : Run Drive reset pieces d) {body : RawBody} (hbody : Takes body)
    (hbegins : body.encode <+: consumed pieces) : ¬ body.Untidy := by
  obtain ⟨hdone, _⟩ := done_of_takes h hbody hbegins
  obtain ⟨other, hconforms, hotherBegins, _⟩ := haccepts.accepted hdone
  obtain ⟨hreadable, htidy⟩ := RawBody.conforms_iff.mp hconforms
  rw [takes_unique hbody.1 hreadable hbegins hotherBegins]
  exact htidy

/-- The decoder accepts only chunked encoding unless a body with an untidy line begins what it
consumed: a size line whose digits are interrupted by blanks or carriage returns or that has a
carriage return before its last byte, or a line end with more than one carriage return. -/
theorem accepts_only_chunked_iff (h : Run Drive reset pieces d) :
    AcceptsOnlyChunked pieces d ↔
      ∀ body, Takes body → body.encode <+: consumed pieces → ¬ body.Untidy := by
  constructor
  · intro haccepts body hbody hbegins
    exact haccepts.not_untidy h hbody hbegins
  · intro htidy
    refine ⟨fun hdone => ?_, invalid_sticky⟩
    obtain ⟨body, hbody, hbegins⟩ := (done_iff_takes h).mp hdone
    exact ⟨body, RawBody.conforms_iff.mpr ⟨hbody.1, htidy body hbody hbegins⟩, hbegins,
      doneWith_of_takes hbody hbegins, (done_of_takes h hbody hbegins).2⟩

/-- The two bytes `hi` in chunked encoding. -/
def hiBody : RawBody := ⟨[⟨[50, 13], [104, 105], 1⟩], [48, 13], [], 1⟩

theorem hiBody_conforms : hiBody.Conforms where
  chunk_line := by
    simp only [hiBody, List.forall_mem_singleton]
    exact ⟨[], [50], [], [cr], rfl, by simp, by simp, by simp, by decide +kernel, rfl, by simp⟩
  chunk_data := by simp [hiBody]
  chunk_crs := by simp [hiBody]
  last_line := ⟨[], [48], [], [cr], rfl, by simp, by simp, by simp, by decide +kernel, rfl, by simp⟩
  trailer_line := by simp [hiBody]
  crs_le := le_refl 1

/-- Two bytes in chunked encoding, driven to the end, are accepted as such. -/
theorem accepts_only_chunked_hi :
    ∃ pieces d, Run Drive reset pieces d ∧ d.done = true ∧ AcceptsOnlyChunked pieces d := by
  have hline : Run Drive reset [.framing 50, .framing 13, .framing 10] _ :=
    .cons (.framing _ _ rfl) <| .cons (.framing _ _ rfl) <| .single (.framing _ _ rfl)
  have hdata := hline.append <| .single (.block _ [104, 105] (by decide) (by decide) (by decide))
  have hend := hdata.append <| .cons (.framing _ 13 (by decide)) <|
    .cons (.framing _ 10 (by decide)) <| .cons (.framing _ 48 (by decide)) <|
    .cons (.framing _ 13 (by decide)) <| .cons (.framing _ 10 (by decide)) <|
    .cons (.framing _ 13 (by decide)) <| .single (.framing _ 10 (by decide))
  refine ⟨_, _, hend, by decide, (accepts_only_chunked_iff hend).mpr ?_⟩
  intro body hbody hbodyBegins
  rw [takes_unique hbody.1 hiBody_conforms.readable hbodyBegins ⟨[], rfl⟩]
  exact hiBody_conforms.not_untidy

/-- Sixteen bytes behind the size line `1 0`. -/
def splitBody : RawBody := ⟨[⟨[49, 32, 48], List.replicate 16 65, 0⟩], [48], [], 0⟩

theorem splitBody_takes : Takes splitBody where
  left :=
    { chunk_line := by
        simp only [splitBody, List.forall_mem_singleton]
        exact ⟨by decide, ⟨by unfold IsSizeByte; decide +kernel, by decide +kernel⟩, rfl⟩
      chunk_data := by simp [splitBody]
      last_line := ⟨by decide, ⟨by unfold IsSizeByte; decide +kernel, by decide +kernel⟩, rfl⟩
      trailer_line := by simp [splitBody] }
  right := by simp [splitBody, RawBody.Below, sizeLimit]

/-- The size line `1 0` is read as sixteen. -/
theorem accepts_split_size :
    ¬ ∀ pieces d, Run Drive reset pieces d → AcceptsOnlyChunked pieces d := by
  intro hall
  have hline : Run Drive reset [.framing 49, .framing 32, .framing 48, .framing 10] _ :=
    .cons (.framing _ _ rfl) <| .cons (.framing _ _ rfl) <| .cons (.framing _ _ rfl) <|
      .single (.framing _ _ rfl)
  have hdata := hline.append <|
    .single (.block _ (List.replicate 16 65) (by decide) (by decide) (by decide))
  have hend := hdata.append <| .cons (.framing _ 10 (by decide)) <|
    .cons (.framing _ 48 (by decide)) <| .cons (.framing _ 10 (by decide)) <|
    .single (.framing _ 10 (by decide))
  have huntidy : splitBody.Untidy :=
    Or.inl ⟨_, List.mem_singleton_self _, Or.inl ⟨48, by decide, by decide⟩⟩
  exact (hall _ _ hend).not_untidy hend splitBody_takes ⟨[], rfl⟩ huntidy

end ChunkedDecoder

end FirmwareUpdater
