import Mathlib.Data.UInt
import FirmwareUpdater.Library.Chunked
import FirmwareUpdater.Library.Run

/-!
# The chunked decoder

`ChunkedDecoder` as the class computes it: `feed` takes framing bytes one at a
time, `consumeData` accounts for payload moved in bulk. `ChunkedDecoder.reader`
reads a decoder as a position of the byte-at-a-time `Chunked.Reader`, and
`drive_reads` says that any way of driving the decoder over a byte string follows
that reader. `drive_undoes_encoding` is the round trip through chunked form.
-/

namespace FirmwareUpdater

open Library Library.Chunked

/-- `ChunkedDecoder::Phase`. -/
inductive ChunkedDecoder.Phase where
  | size
  | extension
  | data
  | dataEnd
  | trailer
  | done
  | invalid
  deriving DecidableEq

/-- The decoder's members, with the values `reset` gives them. -/
structure ChunkedDecoder where
  phase : ChunkedDecoder.Phase := .size
  remaining : UInt32 := 0
  sizeDigit : Bool := false
  lineEmpty : Bool := true
  deriving DecidableEq

namespace ChunkedDecoder

/-- The value of a hexadecimal digit, or `-1`. -/
def hexValue (c : UInt8) : Int :=
  if 48 ≤ c.toNat ∧ c.toNat ≤ 57 then c.toNat - 48
  else if 97 ≤ c.toNat ∧ c.toNat ≤ 102 then c.toNat - 97 + 10
  else if 65 ≤ c.toNat ∧ c.toNat ≤ 70 then c.toNat - 65 + 10
  else -1

/-- `reset`. -/
def reset : ChunkedDecoder := {}

/-- `endSizeLine`. -/
def endSizeLine (d : ChunkedDecoder) : ChunkedDecoder :=
  if !d.sizeDigit then { d with phase := .invalid }
  else if d.remaining = 0 then { d with phase := .trailer, lineEmpty := true }
  else { d with phase := .data }

/-- `feed`: one framing byte. -/
def feed (d : ChunkedDecoder) (c : UInt8) : ChunkedDecoder :=
  match d.phase with
  | .size =>
      if c = cr ∨ c = space ∨ c = tab then d
      else if c = lf then d.endSizeLine
      else if c = semicolon then
        { d with phase := if d.sizeDigit then .extension else .invalid }
      else
        -- Four more bits must fit above the ones read so far.
        let v := hexValue c
        if v < 0 ∨ d.remaining > (0xFFFFFFFF : UInt32) >>> 4 then { d with phase := .invalid }
        else
          { d with
            remaining := (d.remaining <<< 4) ||| UInt32.ofNat v.toNat, sizeDigit := true }
  | .extension => if c = lf then d.endSizeLine else d
  | .dataEnd =>
      if c = cr then d
      else
        { d with
          phase := if c = lf then .size else .invalid, remaining := 0, sizeDigit := false }
  | .trailer =>
      if c = cr then d
      else if c = lf then
        { d with phase := if d.lineEmpty then .done else d.phase, lineEmpty := true }
      else { d with lineEmpty := false }
  | .data | .done | .invalid => d

/-- `inData`. -/
def inData (d : ChunkedDecoder) : Bool := d.phase = .data

/-- `done`. -/
def done (d : ChunkedDecoder) : Bool := d.phase = .done

/-- `invalid`. -/
def invalid (d : ChunkedDecoder) : Bool := d.phase = .invalid

/-- `consumeData`: `n` payload bytes were moved. -/
def consumeData (d : ChunkedDecoder) (n : UInt32) : ChunkedDecoder :=
  if d.phase ≠ .data then d
  else
    let remaining := if n < d.remaining then d.remaining - n else 0
    { d with remaining, phase := if remaining = 0 then .dataEnd else d.phase }

/-! ## The decoder as a reader -/

/-- Sizes from here on do not fit the decoder's counter. -/
def sizeLimit : Nat := 2 ^ 32

/-- The position a decoder stands at. -/
def reader (d : ChunkedDecoder) : Reader :=
  match d.phase with
  | .size => .size d.remaining.toNat d.sizeDigit
  | .extension => .extension d.remaining.toNat
  | .data => .data (d.remaining.toNat - 1)
  | .dataEnd => .dataEnd
  | .trailer => .trailer d.lineEmpty
  | .done => .done
  | .invalid => .invalid

/-- A chunk being read has payload left, and an extension follows a size. -/
structure Wf (d : ChunkedDecoder) : Prop where
  data_pos : d.phase = .data → 0 < d.remaining.toNat
  extension_digit : d.phase = .extension → d.sizeDigit = true

/-- A reset decoder stands at the start of a body. -/
@[simp] theorem reader_reset : reset.reader = .start := rfl

/-- A reset decoder is well formed. -/
theorem wf_reset : reset.Wf := ⟨by simp [reset], by simp [reset]⟩

/-- `done` is the reader's end of body. -/
theorem done_iff (d : ChunkedDecoder) : d.done = true ↔ d.reader = .done := by
  cases h : d.phase <;> simp [done, reader, h]

/-- `invalid` is the reader's bad framing. -/
theorem invalid_iff (d : ChunkedDecoder) : d.invalid = true ↔ d.reader = .invalid := by
  cases h : d.phase <;> simp [invalid, reader, h]

/-- While `inData`, the reader has `dataRemaining` payload bytes to go. -/
theorem reader_of_inData {d : ChunkedDecoder} (h : d.inData = true) :
    d.reader = .data (d.remaining.toNat - 1) := by
  have hphase : d.phase = .data := by simpa [inData] using h
  simp [reader, hphase]

/-- Outside a chunk's payload nothing is delivered. -/
theorem delivers_of_not_inData {d : ChunkedDecoder} (h : d.inData = false) (c : UInt8) :
    d.reader.delivers c = [] := by
  cases hphase : d.phase <;> simp [reader, hphase, Reader.delivers]
  simp [inData, hphase] at h

/-- `hexValue` is the digit's value where there is one and negative elsewhere. -/
theorem hexValue_eq (c : UInt8) :
    hexValue c = match hexDigit c with | some v => (v : Int) | none => -1 := by
  unfold hexValue hexDigit
  split
  · simp only
    omega
  split
  · simp only
    omega
  split
  · simp only
    omega
  · rfl

/-- Hexadecimal digits have values below sixteen. -/
theorem hexDigit_lt {c : UInt8} {v : Nat} (h : hexDigit c = some v) : v < 16 := by
  unfold hexDigit at h
  split at h
  · cases h
    omega
  split at h
  · cases h
    omega
  split at h <;> cases h
  omega

/-- Shifting a digit in is multiplying by sixteen and adding it, below the shift guard. -/
theorem shift_digit {remaining : UInt32} {v : Nat} (hv : v < 16)
    (hguard : remaining.toNat < 2 ^ 28) :
    ((remaining <<< 4) ||| UInt32.ofNat v).toNat = 16 * remaining.toNat + v := by
  have hshift : (remaining <<< 4).toNat = 2 ^ 4 * remaining.toNat := by
    rw [UInt32.toNat_shiftLeft]
    simp only [Nat.shiftLeft_eq]
    rw [show (UInt32.toNat 4) % 32 = 4 from rfl]
    omega
  have hdigit : (UInt32.ofNat v).toNat = v := by
    rw [UInt32.toNat_ofNat']
    omega
  rw [UInt32.toNat_or, hshift, hdigit, ← Nat.two_pow_add_eq_or_of_lt (by omega)]

/-- The guard of `feed` lets through exactly the sizes that stay below the limit. -/
theorem guard_iff {remaining : UInt32} {v : Nat} (hv : v < 16) :
    ¬ remaining > (0xFFFFFFFF : UInt32) >>> 4 ↔ 16 * remaining.toNat + v < sizeLimit := by
  have hmax : ((0xFFFFFFFF : UInt32) >>> 4).toNat = 2 ^ 28 - 1 := by decide
  rw [gt_iff_lt, UInt32.lt_iff_toNat_lt, hmax, sizeLimit]
  omega

/-- The end of a size line leads where the reader goes. -/
theorem endSizeLine_reader (d : ChunkedDecoder) :
    d.endSizeLine.reader = Reader.endSize d.remaining.toNat d.sizeDigit ∧ d.endSizeLine.Wf := by
  unfold endSizeLine
  cases hdigit : d.sizeDigit with
  | false => exact ⟨by simp [reader, Reader.endSize], ⟨by simp, by simp⟩⟩
  | true =>
      by_cases hzero : d.remaining = 0
      · exact ⟨by simp [reader, hzero, Reader.endSize], ⟨by simp [hzero], by simp [hzero]⟩⟩
      · have hpos : d.remaining.toNat ≠ 0 := fun h => hzero (UInt32.toNat_inj.mp h)
        obtain ⟨left, hleft⟩ := Nat.exists_eq_succ_of_ne_zero hpos
        refine ⟨by simp [reader, hzero, hleft, Reader.endSize], ⟨?_, ?_⟩⟩
        · intro _
          simp only [Bool.not_true, Bool.false_eq_true, if_false, if_neg hzero]
          omega
        · simp [hzero]

/-- In a size line, feeding a byte is the reader's step. -/
theorem feed_size_reader {d : ChunkedDecoder} (hwf : d.Wf) (hphase : d.phase = .size) (c : UInt8) :
    (d.feed c).reader = d.reader.step sizeLimit c ∧ (d.feed c).Wf := by
  have hend := d.endSizeLine_reader
  unfold feed
  simp only [reader, hphase, Reader.step]
  -- The bytes with a meaning of their own, in the order `feed` looks for them.
  by_cases hblank : c = cr ∨ c = space ∨ c = tab
  · simp only [if_pos hblank, hphase]
    exact ⟨trivial, hwf⟩
  by_cases hlf : c = lf
  · simp only [if_neg hblank, if_pos hlf]
    exact hend
  by_cases hsemi : c = semicolon
  · simp only [if_neg hblank, if_neg hlf, if_pos hsemi]
    cases hdigit : d.sizeDigit <;> exact ⟨rfl, ⟨by simp, by simp⟩⟩
  simp only [if_neg hblank, if_neg hlf, if_neg hsemi, hexValue_eq]
  cases hhex : hexDigit c with
  | none => exact ⟨by simp, ⟨by simp, by simp⟩⟩
  | some v =>
      have hv := hexDigit_lt hhex
      by_cases hguard : d.remaining > (0xFFFFFFFF : UInt32) >>> 4
      · have hlimit : ¬ 16 * d.remaining.toNat + v < sizeLimit := fun h =>
          (guard_iff hv).mpr h hguard
        simp only [hguard, or_true, if_true, if_neg hlimit]
        exact ⟨trivial, ⟨by simp, by simp⟩⟩
      · have hlimit := (guard_iff hv).mp hguard
        have hsmall : d.remaining.toNat < 2 ^ 28 := by
          rw [sizeLimit] at hlimit
          omega
        have hneg : ¬ ((v : Int) < 0 ∨ d.remaining > (0xFFFFFFFF : UInt32) >>> 4) := by
          rintro (hneg | hneg)
          · omega
          · exact hguard hneg
        simp only [if_neg hneg, if_pos hlimit, Int.toNat_natCast,
          shift_digit hv hsmall]
        exact ⟨trivial, ⟨by simp, by simp⟩⟩

/-- Feeding a framing byte is the reader's step. -/
theorem feed_reader {d : ChunkedDecoder} (hwf : d.Wf) (hdata : d.inData = false) (c : UInt8) :
    (d.feed c).reader = d.reader.step sizeLimit c ∧ (d.feed c).Wf := by
  have hend := d.endSizeLine_reader
  have hsize := fun hphase => feed_size_reader hwf hphase c
  unfold feed at hsize ⊢
  cases hphase : d.phase with
  | size => simpa only [hphase] using hsize hphase
  | extension =>
      simp only [reader, hphase, Reader.step]
      by_cases hlf : c = lf
      · simp only [if_pos hlf]
        rw [hwf.extension_digit hphase] at hend
        exact hend
      · simp only [if_neg hlf, hphase]
        exact ⟨trivial, hwf⟩
  | data => simp [inData, hphase] at hdata
  | dataEnd =>
      simp only [reader, hphase, Reader.step]
      by_cases hcr : c = cr
      · simp only [if_pos hcr, hphase]
        exact ⟨trivial, hwf⟩
      · by_cases hlf : c = lf
        · simp only [if_neg hcr, if_pos hlf]
          exact ⟨rfl, ⟨by simp, by simp⟩⟩
        · simp only [if_neg hcr, if_neg hlf]
          exact ⟨trivial, ⟨by simp, by simp⟩⟩
  | trailer =>
      simp only [reader, hphase, Reader.step]
      by_cases hcr : c = cr
      · simp only [if_pos hcr, hphase]
        exact ⟨trivial, hwf⟩
      · by_cases hlf : c = lf
        · simp only [if_neg hcr, if_pos hlf]
          cases hempty : d.lineEmpty <;> exact ⟨by simp, ⟨by simp, by simp⟩⟩
        · simp only [if_neg hcr, if_neg hlf]
          exact ⟨trivial, ⟨by simp, by simp⟩⟩
  | done | invalid =>
      simp only [reader, hphase, Reader.step]
      exact ⟨trivial, hwf⟩

/-- Accounting for a block of payload is reading its bytes. -/
theorem consumeData_reader {d : ChunkedDecoder} (hdata : d.inData = true)
    {block : List UInt8} {n : UInt32} (hn : n.toNat = block.length) (hpos : 0 < block.length)
    (hle : block.length ≤ d.remaining.toNat) :
    (d.consumeData n).reader = d.reader.after sizeLimit block ∧
      d.reader.payload sizeLimit block = block ∧ (d.consumeData n).Wf := by
  have hphase : d.phase = .data := by simpa [inData] using hdata
  rw [reader_of_inData hdata]
  by_cases hlt : n < d.remaining
  · have hless : block.length < d.remaining.toNat := hn ▸ UInt32.lt_iff_toNat_lt.mp hlt
    have hrest : (d.remaining - n).toNat = d.remaining.toNat - block.length := by
      rw [UInt32.toNat_sub_of_le _ _ (UInt32.le_of_lt hlt), hn]
    have hne : d.remaining - n ≠ 0 := fun h => by
      rw [h] at hrest
      simp at hrest
      omega
    obtain ⟨hafter, hpayload⟩ := Reader.data_block sizeLimit
      (by omega : block.length ≤ d.remaining.toNat - 1)
    refine ⟨?_, hpayload, ?_, ?_⟩
    · rw [hafter]
      simp only [consumeData, hphase, ne_eq, not_true, if_false, if_pos hlt, if_neg hne, reader,
        hrest]
      congr 1
      omega
    · intro _
      simp only [consumeData, hphase, ne_eq, not_true, if_false, if_pos hlt, hrest]
      omega
    · simp [consumeData, hphase, hlt, hne]
  · have hall : block.length = d.remaining.toNat := by
      have := UInt32.not_lt.mp hlt
      have := UInt32.le_iff_toNat_le.mp this
      omega
    obtain ⟨hafter, hpayload⟩ := Reader.data_complete sizeLimit
      (by omega : block.length = d.remaining.toNat - 1 + 1)
    refine ⟨?_, hpayload, ?_, ?_⟩
    · rw [hafter]
      simp [consumeData, hphase, hlt, reader]
    · simp [consumeData, hphase, hlt]
    · simp [consumeData, hphase, hlt]

/-! ## Driving the decoder -/

/-- One call of the caller's: a framing byte fed, or a block of payload moved and accounted
for. -/
inductive Piece where
  | framing (c : UInt8)
  | block (bytes : List UInt8)

/-- The raw bytes a call consumes. -/
def Piece.raw : Piece → List UInt8
  | .framing c => [c]
  | .block bytes => bytes

/-- The payload a call moves. -/
def Piece.payload : Piece → List UInt8
  | .framing _ => []
  | .block bytes => bytes

/-- The calls the class asks for: while `inData`, between one and `dataRemaining` bytes of
payload at once; otherwise one framing byte. -/
inductive Drive : ChunkedDecoder → Piece → ChunkedDecoder → Prop where
  | framing (d c) : d.inData = false → Drive d (.framing c) (d.feed c)
  | block (d : ChunkedDecoder) (bytes : List UInt8) :
      d.inData = true → 1 ≤ bytes.length → bytes.length ≤ d.remaining.toNat →
      Drive d (.block bytes) (d.consumeData (UInt32.ofNat bytes.length))

/-- One call follows the reader. -/
theorem drive_step_reads {d e : ChunkedDecoder} {piece : Piece} (hwf : d.Wf)
    (h : Drive d piece e) :
    e.reader = d.reader.after sizeLimit piece.raw ∧
      d.reader.payload sizeLimit piece.raw = piece.payload ∧ e.Wf := by
  cases h with
  | framing c hdata =>
      obtain ⟨hreader, hwf⟩ := feed_reader hwf hdata c
      refine ⟨hreader, ?_, hwf⟩
      simp [Piece.raw, Piece.payload, delivers_of_not_inData hdata]
  | block bytes hdata hpos hle =>
      have hbound := d.remaining.toNat_lt
      have hlength : (UInt32.ofNat bytes.length).toNat = bytes.length := by
        rw [UInt32.toNat_ofNat']
        omega
      exact consumeData_reader hdata hlength hpos hle

/-- Any way of driving the decoder follows the byte-at-a-time reader. -/
theorem drive_reads {d e : ChunkedDecoder} {pieces : List Piece} (hwf : d.Wf)
    (h : Run Drive d pieces e) :
    e.reader = d.reader.after sizeLimit (pieces.flatMap Piece.raw) ∧
      d.reader.payload sizeLimit (pieces.flatMap Piece.raw) = pieces.flatMap Piece.payload ∧
      e.Wf := by
  induction h with
  | nil => exact ⟨rfl, rfl, hwf⟩
  | cons hstep _ ih =>
      obtain ⟨hreader, hpayload, hwf⟩ := drive_step_reads hwf hstep
      obtain ⟨hrest, hrestPayload, hfinal⟩ := ih hwf
      rw [hreader] at hrest hrestPayload
      refine ⟨?_, ?_, hfinal⟩
      · rw [hrest, List.flatMap_cons, Reader.after_append]
      · rw [List.flatMap_cons, Reader.payload_append, hpayload, hrestPayload, List.flatMap_cons]

/-- A caller of a well-formed decoder always has a next call: whatever bytes are left, some
sequence of calls takes them all. -/
theorem drive_exists {d : ChunkedDecoder} (hwf : d.Wf) (rest : List UInt8) :
    ∃ pieces e, Run Drive d pieces e ∧ pieces.flatMap Piece.raw = rest := by
  induction rest generalizing d with
  | nil => exact ⟨[], d, .nil d, rfl⟩
  | cons c rest ih =>
      have hcall : ∃ piece e, Drive d piece e ∧ piece.raw = [c] := by
        cases hdata : d.inData with
        | false => exact ⟨_, _, .framing d c hdata, rfl⟩
        | true =>
            -- A chunk that is being read has payload to go, so one byte may be moved.
            have hpos := hwf.data_pos (by simpa [inData] using hdata)
            exact ⟨_, _, .block d [c] hdata le_rfl hpos, rfl⟩
      obtain ⟨piece, next, hstep, hbyte⟩ := hcall
      obtain ⟨_, _, hnext⟩ := drive_step_reads hwf hstep
      obtain ⟨pieces, e, hrun, hraw⟩ := ih hnext
      exact ⟨piece :: pieces, e, .cons hstep hrun, by simp [hbyte, hraw]⟩

/-- The decoder undoes chunked encoding. However a body is spelled and however the reads of its
payload are split, the payload moved by the time some part of it is consumed is that part's
share of the content; the decoder is done exactly when the last byte has been consumed, before
that it is neither done nor invalid, a chunk being read always has payload to go and never
announces more than the body still holds, and the rest of the body can always be driven
through. -/
theorem drive_undoes_encoding (body : Body sizeLimit) {pieces : List Piece}
    {d : ChunkedDecoder} (rest : List UInt8) (h : Run Drive reset pieces d)
    (hraw : pieces.flatMap Piece.raw ++ rest = body.encode) :
    (rest = [] → pieces.flatMap Piece.payload = body.content ∧ d.done = true) ∧
      (rest ≠ [] → d.done = false ∧ d.invalid = false) ∧
      pieces.flatMap Piece.payload <+: body.content ∧
      (d.inData = true → 0 < d.remaining.toNat ∧ d.remaining.toNat ≤ rest.length) ∧
      ∃ pieces' e, Run Drive d pieces' e ∧ pieces'.flatMap Piece.raw = rest := by
  obtain ⟨hreader, hpayload, hwf⟩ := drive_reads wf_reset h
  obtain ⟨hdone, hcontent, hproper⟩ := body.read_encode (by decide)
  rw [reader_reset] at hreader hpayload
  have hprefix : pieces.flatMap Piece.raw <+: body.encode := ⟨rest, hraw⟩
  refine ⟨?_, ?_, ?_, ?_, drive_exists hwf rest⟩
  · rintro rfl
    rw [List.append_nil] at hraw
    rw [hraw] at hreader hpayload
    exact ⟨hpayload.symm.trans hcontent, (done_iff d).mpr (hreader.trans hdone)⟩
  · intro hrest
    have hne : pieces.flatMap Piece.raw ≠ body.encode := by
      intro heq
      rw [heq] at hraw
      exact hrest (List.append_right_eq_self.mp hraw)
    obtain ⟨hnotDone, hnotInvalid⟩ := hproper _ hprefix hne
    rw [← hreader] at hnotDone hnotInvalid
    exact ⟨by rw [← Bool.not_eq_true, done_iff]; exact hnotDone,
      by rw [← Bool.not_eq_true, invalid_iff]; exact hnotInvalid⟩
  · rw [← hpayload, ← hcontent]
    exact Reader.payload_prefix hprefix
  · intro hdata
    have hpos := hwf.data_pos (by simpa [inData] using hdata)
    rw [← hraw, Reader.after_append, ← hreader, reader_of_inData hdata] at hdone
    have hleft := Reader.left_lt_of_done hdone
    exact ⟨hpos, by omega⟩

/-- One chunk of two bytes, spelled `02;x`, read in two pieces and followed by a trailer line. -/
def sampleBody : Body sizeLimit where
  chunks := [
    { line := ⟨[48, 50], some [120], by decide, by decide +kernel, by simp [lf]⟩
      data := [72, 105]
      data_ne := by decide
      data_lt := by decide
      value_eq := by decide }]
  last := ⟨[48], none, by decide, by decide +kernel, by simp⟩
  trailer := [⟨[88], by decide, ⟨88, by simp, by decide⟩⟩]
  last_zero := by decide

/-- The sample body, driven to its end. -/
theorem drive_undoes_encoding_sample :
    ∃ pieces d, Run Drive reset pieces d ∧ pieces.flatMap Piece.raw = sampleBody.encode ∧
      pieces.flatMap Piece.payload = sampleBody.content ∧ d.done = true := by
  have hsize : Run Drive reset
      [.framing 48, .framing 50, .framing 59, .framing 120, .framing 13, .framing 10] _ :=
    .cons (.framing _ _ rfl) <| .cons (.framing _ _ rfl) <| .cons (.framing _ _ rfl) <|
      .cons (.framing _ _ rfl) <| .cons (.framing _ _ rfl) <| .single (.framing _ _ rfl)
  have hdata := hsize.append <| .cons (.block _ [72] (by decide) (by decide) (by decide)) <|
    .single (.block _ [105] (by decide) (by decide) (by decide))
  have hlast := hdata.append <| .cons (.framing _ 13 (by decide)) <|
    .cons (.framing _ 10 (by decide)) <| .cons (.framing _ 48 (by decide)) <|
    .cons (.framing _ 13 (by decide)) <| .single (.framing _ 10 (by decide))
  have hend := hlast.append <| .cons (.framing _ 88 (by decide)) <|
    .cons (.framing _ 13 (by decide)) <| .cons (.framing _ 10 (by decide)) <|
    .cons (.framing _ 13 (by decide)) <| .single (.framing _ 10 (by decide))
  have hcontent := (drive_undoes_encoding sampleBody [] hend (by decide)).1 rfl
  exact ⟨_, _, hend, by decide, hcontent.1, hcontent.2⟩

end ChunkedDecoder

end FirmwareUpdater
