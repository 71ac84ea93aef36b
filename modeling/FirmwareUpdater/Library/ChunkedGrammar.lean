import Mathlib.Data.List.TakeWhile
import FirmwareUpdater.Library.Chunked

/-!
# What a chunked reader takes for a body

`RawBody` is a chunked body as it stands in a byte string, line by line and with every carriage
return that a line end carries. `RawBody.Conforms` is the grammar of chunked encoding and
`RawBody.Readable` the wider one that `Chunked.Reader` follows: `exists_readable` and
`Readable.read` say that the reader reaches `done` on exactly the readable bodies, and
`Readable.unique` that a byte string begins with at most one of them. `conforms_iff` compares
the two grammars: a readable body conforms unless it is untidy.
-/

namespace FirmwareUpdater.Library.Chunked

/-! ## Size lines -/

/-- The part of a size line that can hold its size: everything before an extension. -/
def sizeText (line : List UInt8) : List UInt8 := line.takeWhile (· ≠ semicolon)

/-- Whether a byte is a hexadecimal digit. -/
def isHex (c : UInt8) : Bool := (hexDigit c).isSome

/-- The bytes that a size line may hold outside its extension. -/
def IsSizeByte (c : UInt8) : Prop := c = cr ∨ c = space ∨ c = tab ∨ isHex c = true

/-- The digits of a size line, wherever they stand. -/
def sizeDigits (line : List UInt8) : List UInt8 := (sizeText line).filter isHex

/-- The text holds a size, in digits that anything a size line may hold can separate. -/
def HoldsSize (line : List UInt8) : Prop :=
  (∀ c ∈ sizeText line, IsSizeByte c) ∧ sizeDigits line ≠ []

/-- A line that a reader takes for the announcement of `n` bytes. -/
structure Spells (line : List UInt8) (n : Nat) : Prop where
  noLf : lf ∉ line
  holds : HoldsSize line
  value_eq : hexValue 0 (sizeDigits line) = n

/-- A size line of chunked encoding, up to its line feed: one run of digits between blanks, and
then nothing, a carriage return, or an extension. -/
def Announces (line : List UInt8) (n : Nat) : Prop :=
  ∃ before digits after ending,
    line = before ++ digits ++ after ++ ending ∧
    (∀ c ∈ before, c = space ∨ c = tab) ∧ (∀ c ∈ after, c = space ∨ c = tab) ∧
    digits ≠ [] ∧ (∀ c ∈ digits, isHex c = true) ∧ hexValue 0 digits = n ∧
    (ending = [] ∨ ending = [cr] ∨ ∃ text, lf ∉ text ∧ ending = semicolon :: text)

/-- A size whose digits are more than one run. -/
def Interrupted (line : List UInt8) : Prop :=
  ∃ c ∈ ((sizeText line).dropWhile (!isHex ·)).dropWhile isHex, isHex c = true

/-- A carriage return before the extension that is not the line's last byte. -/
def StrayCr (line : List UInt8) : Prop := cr ∈ sizeText line.dropLast

variable {line : List UInt8}

theorem isHex_ne {c : UInt8} (h : isHex c = true) :
    c ≠ cr ∧ c ≠ space ∧ c ≠ tab ∧ c ≠ lf ∧ c ≠ semicolon := Reader.hexDigit_framing h

@[simp] theorem isHex_cr : isHex cr = false := by decide
@[simp] theorem isHex_space : isHex space = false := by decide
@[simp] theorem isHex_tab : isHex tab = false := by decide
@[simp] theorem sizeText_nil : sizeText [] = [] := rfl
@[simp] theorem sizeDigits_nil : sizeDigits [] = [] := rfl

@[simp] theorem sizeText_semicolon : sizeText (semicolon :: line) = [] := by
  simp [sizeText]

@[simp] theorem sizeDigits_semicolon : sizeDigits (semicolon :: line) = [] := by
  simp [sizeDigits]

theorem sizeText_cons {c : UInt8} (h : c ≠ semicolon) :
    sizeText (c :: line) = c :: sizeText line := by
  simp [sizeText, h]

/-- The size stands before the extension. -/
theorem sizeText_append {text : List UInt8} (h : semicolon ∉ text) (rest : List UInt8) :
    sizeText (text ++ rest) = text ++ sizeText rest :=
  List.takeWhile_append_of_pos fun c hc => by
    have hne : c ≠ semicolon := fun heq => h (heq ▸ hc)
    simpa using hne

theorem sizeDigits_blank {c : UInt8} (h : c = cr ∨ c = space ∨ c = tab) :
    sizeDigits (c :: line) = sizeDigits line := by
  rcases h with rfl | rfl | rfl <;> rw [sizeDigits, sizeText_cons (by decide)] <;>
    simp [sizeDigits]

theorem sizeDigits_hex {c : UInt8} (h : isHex c = true) :
    sizeDigits (c :: line) = c :: sizeDigits line := by
  rw [sizeDigits, sizeText_cons (isHex_ne h).2.2.2.2, List.filter_cons_of_pos h, sizeDigits]

/-- A line announces one size. -/
theorem Spells.unique {n m : Nat} (hn : Spells line n) (hm : Spells line m) : n = m :=
  hn.value_eq.symm.trans hm.value_eq

/-! ## Reading a size line -/

namespace Reader

variable {limit : Nat}

/-- What a byte of a size line does to a reader in it. -/
theorem step_size_cases (limit value : Nat) (digit : Bool) {c : UInt8} (hlf : c ≠ lf) :
    ((c = cr ∨ c = space ∨ c = tab) ∧ (size value digit).step limit c = size value digit) ∨
      (c = semicolon ∧
        (size value digit).step limit c = if digit then extension value else invalid) ∨
      (∃ v, hexDigit c = some v ∧ 16 * value + v < limit ∧
        (size value digit).step limit c = size (16 * value + v) true) ∨
      (∃ v, hexDigit c = some v ∧ limit ≤ 16 * value + v ∧
        (size value digit).step limit c = invalid) ∨
      (¬ IsSizeByte c ∧ c ≠ semicolon ∧ (size value digit).step limit c = invalid) := by
  by_cases hblank : c = cr ∨ c = space ∨ c = tab
  · exact Or.inl ⟨hblank, by simp only [step, if_pos hblank]⟩
  by_cases hsemi : c = semicolon
  · exact Or.inr (Or.inl ⟨hsemi, by simp only [step, if_neg hblank, if_neg hlf, if_pos hsemi]⟩)
  cases hdigit : hexDigit c with
  | none =>
      refine Or.inr (Or.inr (Or.inr (Or.inr ⟨?_, hsemi, ?_⟩)))
      · intro hbyte
        rcases hbyte with h | h | h | h
        · exact hblank (Or.inl h)
        · exact hblank (Or.inr (Or.inl h))
        · exact hblank (Or.inr (Or.inr h))
        · rw [isHex, hdigit] at h
          exact Bool.noConfusion h
      · simp only [step, if_neg hblank, if_neg hlf, if_neg hsemi, hdigit]
  | some v =>
      by_cases hroom : 16 * value + v < limit
      · refine Or.inr (Or.inr (Or.inl ⟨v, rfl, hroom, ?_⟩))
        simp only [step, if_neg hblank, if_neg hlf, if_neg hsemi, hdigit, if_pos hroom]
      · refine Or.inr (Or.inr (Or.inr (Or.inl ⟨v, rfl, not_lt.mp hroom, ?_⟩)))
        simp only [step, if_neg hblank, if_neg hlf, if_neg hsemi, hdigit, if_neg hroom]

/-- Nothing in a size line is payload. -/
theorem payload_sizeLine (value : Nat) (digit : Bool) (h : lf ∉ line) :
    (size value digit).payload limit (line ++ [lf]) = [] := by
  induction line generalizing value digit with
  | nil => rfl
  | cons c line ih =>
      simp only [List.mem_cons, not_or] at h
      rw [List.cons_append, payload_cons]
      show ((size value digit).step limit c).payload limit (line ++ [lf]) = []
      rcases step_size_cases limit value digit (Ne.symm h.1) with
        ⟨_, hstep⟩ | ⟨_, hstep⟩ | ⟨v, _, _, hstep⟩ | ⟨v, _, _, hstep⟩ | ⟨_, _, hstep⟩
      · rw [hstep]
        exact ih _ _ h.2
      · rw [hstep]
        cases digit with
        | false => exact payload_invalid _
        | true =>
            have htext := read_extension limit value h.2
            rw [if_pos rfl, payload_append, htext.1, htext.2]
            rfl
      · rw [hstep]
        exact ih _ _ h.2
      · rw [hstep, payload_invalid]
      · rw [hstep, payload_invalid]

/-- A digit more of a size. -/
theorem hexValue_sizeDigits {c : UInt8} {v : Nat} (h : hexDigit c = some v) (value : Nat) :
    hexValue value (sizeDigits (c :: line)) = hexValue (16 * value + v) (sizeDigits line) := by
  rw [sizeDigits_hex (by rw [isHex, h]; rfl)]
  simp [hexValue, h]

/-- A size line that holds no size below the limit is bad framing. -/
theorem read_line_invalid (value : Nat) (digit : Bool) (h : lf ∉ line)
    (hbad : (digit = true ∨ sizeDigits line ≠ []) → (∀ c ∈ sizeText line, IsSizeByte c) →
      limit ≤ hexValue value (sizeDigits line)) (hvalue : value < limit) :
    (size value digit).after limit (line ++ [lf]) = invalid := by
  induction line generalizing value digit with
  | nil =>
      cases digit with
      | false => rfl
      | true =>
          have hover : limit ≤ value := hbad (Or.inl rfl) (by simp)
          omega
  | cons c line ih =>
      simp only [List.mem_cons, not_or] at h
      rw [List.cons_append, after_cons]
      rcases step_size_cases limit value digit (Ne.symm h.1) with
        ⟨hblank, hstep⟩ | ⟨rfl, hstep⟩ | ⟨v, hv, hroom, hstep⟩ | ⟨v, _, _, hstep⟩ | ⟨_, _, hstep⟩
      · have hsemi : c ≠ semicolon := by
          rcases hblank with rfl | rfl | rfl <;> decide
        rw [hstep]
        refine ih value digit h.2 (fun hsome hbytes => ?_) hvalue
        rw [← sizeDigits_blank hblank] at hsome ⊢
        refine hbad hsome ?_
        rw [sizeText_cons hsemi]
        exact List.forall_mem_cons.mpr
          ⟨by rcases hblank with h | h | h <;> simp [IsSizeByte, h], hbytes⟩
      · rw [hstep]
        cases digit with
        | false => exact after_invalid _
        | true =>
            have hover : limit ≤ value := hbad (Or.inl rfl) (by simp)
            omega
      · have hhex : isHex c = true := by rw [isHex, hv]; rfl
        rw [hstep]
        refine ih _ true h.2 (fun _ hbytes => ?_) hroom
        rw [← hexValue_sizeDigits hv]
        refine hbad (Or.inr (by simp [sizeDigits_hex hhex])) ?_
        rw [sizeText_cons (isHex_ne hhex).2.2.2.2]
        exact List.forall_mem_cons.mpr ⟨Or.inr (Or.inr (Or.inr hhex)), hbytes⟩
      · rw [hstep, after_invalid]
      · rw [hstep, after_invalid]

/-- A size line that holds a size below the limit leads to what that size announces. -/
theorem read_line_size (value : Nat) (digit : Bool) (h : lf ∉ line)
    (hsome : digit = true ∨ sizeDigits line ≠ []) (hbytes : ∀ c ∈ sizeText line, IsSizeByte c)
    (hlimit : hexValue value (sizeDigits line) < limit) :
    (size value digit).after limit (line ++ [lf]) =
      endSize (hexValue value (sizeDigits line)) true := by
  induction line generalizing value digit with
  | nil =>
      have hdigit : digit = true := by simpa using hsome
      subst hdigit
      rfl
  | cons c line ih =>
      simp only [List.mem_cons, not_or] at h
      rw [List.cons_append, after_cons]
      rcases step_size_cases limit value digit (Ne.symm h.1) with
        ⟨hblank, hstep⟩ | ⟨rfl, hstep⟩ | ⟨v, hv, _, hstep⟩ | ⟨v, hv, hover, _⟩ | ⟨hbyte, hsemi, _⟩
      · have hsemi : c ≠ semicolon := by
          rcases hblank with rfl | rfl | rfl <;> decide
        rw [sizeDigits_blank hblank] at hsome hlimit ⊢
        rw [sizeText_cons hsemi] at hbytes
        rw [hstep]
        exact ih value digit h.2 hsome (List.forall_mem_cons.mp hbytes).2 hlimit
      · have hdigit : digit = true := by simpa using hsome
        rw [hstep, hdigit, if_pos rfl, after_append, (read_extension limit value h.2).1]
        rfl
      · have hhex : isHex c = true := by rw [isHex, hv]; rfl
        rw [sizeText_cons (isHex_ne hhex).2.2.2.2] at hbytes
        rw [hexValue_sizeDigits hv] at hlimit ⊢
        rw [hstep]
        exact ih _ true h.2 (Or.inl rfl) (List.forall_mem_cons.mp hbytes).2 hlimit
      · -- The size only grows, and it is below the limit in the end.
        have hgrows := le_hexValue (16 * value + v) (sizeDigits line)
        rw [hexValue_sizeDigits hv] at hlimit
        omega
      · rw [sizeText_cons hsemi] at hbytes
        exact absurd (hbytes c List.mem_cons_self) hbyte

/-- A size line is either one that spells a size below the limit, and the reader goes where that
size leads, or bad framing. -/
theorem read_line (h : lf ∉ line) (hlimit : 0 < limit) :
    (∃ n, n < limit ∧ Spells line n ∧ start.after limit (line ++ [lf]) = endSize n true) ∨
      start.after limit (line ++ [lf]) = invalid := by
  by_cases hholds : HoldsSize line ∧ hexValue 0 (sizeDigits line) < limit
  · obtain ⟨hholds, hvalue⟩ := hholds
    exact Or.inl ⟨_, hvalue, ⟨h, hholds, rfl⟩,
      read_line_size 0 false h (Or.inr hholds.2) hholds.1 hvalue⟩
  · refine Or.inr (read_line_invalid 0 false h (fun hsome hbytes => ?_) hlimit)
    by_contra hsmall
    have hdigits : sizeDigits line ≠ [] := by simpa using hsome
    exact hholds ⟨⟨hbytes, hdigits⟩, by omega⟩

/-- A line that spells a size below the limit leads to what it announces. -/
theorem read_spelled {n : Nat} (h : Spells line n) (hn : n < limit) :
    start.after limit (line ++ [lf]) = endSize n true ∧
      start.payload limit (line ++ [lf]) = [] := by
  have hvalue := h.value_eq
  subst hvalue
  exact ⟨read_line_size 0 false h.noLf (Or.inr h.holds.2) h.holds.1 hn,
    payload_sizeLine 0 false h.noLf⟩

end Reader

/-! ## Bodies -/

/-- A chunk as it stands in a byte string: its size line up to the line feed, its data, and how
many carriage returns precede the line feed after the data. -/
@[ext] structure RawChunk where
  line : List UInt8
  data : List UInt8
  crs : Nat

/-- The bytes of a chunk. -/
def RawChunk.encode (chunk : RawChunk) : List UInt8 :=
  chunk.line ++ lf :: (chunk.data ++ (List.replicate chunk.crs cr ++ [lf]))

/-- A chunked body as it stands in a byte string: its chunks, the zero-size line, the trailer
lines and how many carriage returns the empty line holds. -/
structure RawBody where
  chunks : List RawChunk
  last : List UInt8
  trailer : List (List UInt8)
  crs : Nat

namespace RawBody

/-- The bytes after the chunks. -/
def encodeEnd (body : RawBody) : List UInt8 :=
  body.last ++ lf :: (body.trailer.flatMap (· ++ [lf]) ++ (List.replicate body.crs cr ++ [lf]))

/-- The bytes of a body. -/
def encode (body : RawBody) : List UInt8 :=
  body.chunks.flatMap RawChunk.encode ++ body.encodeEnd

/-- The payload a body carries. -/
def content (body : RawBody) : List UInt8 := body.chunks.flatMap RawChunk.data

/-- A trailer line up to its line feed: anything but carriage returns alone. -/
def IsTrailerLine (line : List UInt8) : Prop := lf ∉ line ∧ ∃ c ∈ line, c ≠ cr

/-- Chunked encoding: chunks whose size lines announce their data, each ended by one line end,
a zero-size line, the trailer and an empty line. -/
structure Conforms (body : RawBody) : Prop where
  chunk_line : ∀ chunk ∈ body.chunks, Announces chunk.line chunk.data.length
  chunk_data : ∀ chunk ∈ body.chunks, chunk.data ≠ []
  chunk_crs : ∀ chunk ∈ body.chunks, chunk.crs ≤ 1
  last_line : Announces body.last 0
  trailer_line : ∀ line ∈ body.trailer, IsTrailerLine line
  crs_le : body.crs ≤ 1

/-- What a reader follows: sizes spelled any way it reads them, and line ends with any number of
carriage returns. -/
structure Readable (body : RawBody) : Prop where
  chunk_line : ∀ chunk ∈ body.chunks, Spells chunk.line chunk.data.length
  chunk_data : ∀ chunk ∈ body.chunks, chunk.data ≠ []
  last_line : Spells body.last 0
  trailer_line : ∀ line ∈ body.trailer, IsTrailerLine line

/-- Every chunk is shorter than `limit` bytes. -/
def Below (limit : Nat) (body : RawBody) : Prop := ∀ chunk ∈ body.chunks, chunk.data.length < limit

/-- A size line whose digits are interrupted or that has a stray carriage return, or a line end
with more than one carriage return. -/
def Untidy (body : RawBody) : Prop :=
  (∃ chunk ∈ body.chunks, Interrupted chunk.line ∨ StrayCr chunk.line ∨ 1 < chunk.crs) ∨
    Interrupted body.last ∨ StrayCr body.last ∨ 1 < body.crs

end RawBody

/-- The text before the first line feed is one way to cut a byte string. -/
theorem line_unique {line other rest otherRest : List UInt8} (hline : lf ∉ line)
    (hother : lf ∉ other) (h : line ++ lf :: rest = other ++ lf :: otherRest) :
    line = other ∧ rest = otherRest := by
  induction line generalizing other with
  | nil =>
      cases other with
      | nil => simpa using h
      | cons c other =>
          simp only [List.nil_append, List.cons_append, List.cons.injEq] at h
          exact absurd (by simp [h.1]) hother
  | cons d line ih =>
      cases other with
      | nil =>
          simp only [List.nil_append, List.cons_append, List.cons.injEq] at h
          exact absurd (by simp [h.1]) hline
      | cons c other =>
          simp only [List.cons_append, List.cons.injEq] at h
          simp only [List.mem_cons, not_or] at hline hother
          obtain ⟨hlines, hrests⟩ := ih hline.2 hother.2 h.2
          exact ⟨by rw [h.1, hlines], hrests⟩

theorem lf_notMem_replicate (n : Nat) : lf ∉ List.replicate n cr := by
  simp [List.mem_replicate]

/-- The carriage returns before a line feed can be counted. -/
theorem crs_unique {n m : Nat} {rest otherRest : List UInt8}
    (h : List.replicate n cr ++ lf :: rest = List.replicate m cr ++ lf :: otherRest) :
    n = m ∧ rest = otherRest := by
  obtain ⟨hcrs, hrest⟩ := line_unique (lf_notMem_replicate n) (lf_notMem_replicate m) h
  exact ⟨by simpa using congrArg List.length hcrs, hrest⟩

/-- No trailer line is the empty line. -/
theorem RawBody.IsTrailerLine.ne_replicate {line : List UInt8} (h : IsTrailerLine line)
    (n : Nat) : line ≠ List.replicate n cr := by
  rintro rfl
  obtain ⟨c, hc, hne⟩ := h.2
  exact hne (List.eq_of_mem_replicate hc)

/-! ## Reading a readable body -/

namespace Reader

variable {limit : Nat}

/-- Before a line feed every carriage return is skipped. -/
theorem read_crs (limit : Nat) {r : Reader} (hcr : r.step limit cr = r)
    (hpayload : r.delivers cr = []) (n : Nat) :
    r.after limit (List.replicate n cr) = r ∧ r.payload limit (List.replicate n cr) = [] := by
  induction n with
  | zero => exact ⟨rfl, rfl⟩
  | succ n ih =>
      rw [List.replicate_succ, after_cons, payload_cons, hcr, hpayload]
      exact ih

/-- A readable chunk delivers its data and leads back to the start of a size line. -/
theorem read_rawChunk {chunk : RawChunk} (hline : Spells chunk.line chunk.data.length)
    (hne : chunk.data ≠ []) (hlt : chunk.data.length < limit) :
    start.after limit chunk.encode = start ∧
      start.payload limit chunk.encode = chunk.data := by
  obtain ⟨hsize, hsizePayload⟩ := read_spelled hline hlt
  obtain ⟨left, hleft⟩ : ∃ left, chunk.data.length = left + 1 :=
    ⟨chunk.data.length - 1, by have := List.length_pos_iff.mpr hne; omega⟩
  obtain ⟨hdata, hdataPayload⟩ := data_complete limit hleft
  obtain ⟨hcrs, hcrsPayload⟩ :=
    read_crs limit (r := dataEnd) (by simp [step]) rfl chunk.crs
  have hend : endSize chunk.data.length true = data left := by
    rw [hleft]
    rfl
  have hencode : chunk.encode =
      (chunk.line ++ [lf]) ++ (chunk.data ++ (List.replicate chunk.crs cr ++ [lf])) := by
    simp [RawChunk.encode]
  rw [hencode, after_append, payload_append, hsize, hsizePayload, hend, after_append,
    payload_append, hdata, hdataPayload, after_append, payload_append, hcrs, hcrsPayload]
  exact ⟨by simp [step, start], by simp [delivers]⟩

/-- Readable chunks deliver their data one after the other. -/
theorem read_rawChunks {chunks : List RawChunk}
    (hline : ∀ chunk ∈ chunks, Spells chunk.line chunk.data.length)
    (hne : ∀ chunk ∈ chunks, chunk.data ≠ []) (hlt : ∀ chunk ∈ chunks, chunk.data.length < limit) :
    start.after limit (chunks.flatMap RawChunk.encode) = start ∧
      start.payload limit (chunks.flatMap RawChunk.encode) = chunks.flatMap RawChunk.data := by
  induction chunks with
  | nil => exact ⟨rfl, rfl⟩
  | cons chunk chunks ih =>
      rw [List.forall_mem_cons] at hline hne hlt
      obtain ⟨hchunk, hpayload⟩ := read_rawChunk hline.1 hne.1 hlt.1
      obtain ⟨hrest, hrestPayload⟩ := ih hline.2 hne.2 hlt.2
      rw [List.flatMap_cons, List.flatMap_cons, after_append, payload_append, hchunk, hpayload,
        hrest, hrestPayload]
      exact ⟨rfl, rfl⟩

/-- The trailer is skipped line by line. -/
theorem read_trailerLines (limit : Nat) {lines : List (List UInt8)}
    (h : ∀ line ∈ lines, RawBody.IsTrailerLine line) :
    (trailer true).after limit (lines.flatMap (· ++ [lf])) = trailer true ∧
      (trailer true).payload limit (lines.flatMap (· ++ [lf])) = [] := by
  induction lines with
  | nil => exact ⟨rfl, rfl⟩
  | cons line lines ih =>
      obtain ⟨⟨hnoLf, c, hc, hne⟩, hrest⟩ := List.forall_mem_cons.mp h
      obtain ⟨htext, htextPayload⟩ := read_trailer_text limit true hnoLf
      have hall : line.all (· = cr) = false := by
        rw [List.all_eq_false]
        exact ⟨c, hc, by simpa using hne⟩
      rw [hall, Bool.and_false] at htext
      obtain ⟨hlines, hlinesPayload⟩ := ih hrest
      have hstep : (trailer false).step limit lf = trailer true := by simp [step]
      simp only [List.flatMap_cons, after_append, payload_append, htext, htextPayload, after_cons,
        payload_cons, after_nil, payload_nil, hstep, hlines, hlinesPayload]
      exact ⟨trivial, rfl⟩

end Reader

open Reader in
/-- A readable body below the limit is read to its end, and its payload is its content. -/
theorem RawBody.Readable.read {limit : Nat} {body : RawBody} (h : body.Readable)
    (hbelow : body.Below limit) (hlimit : 0 < limit) :
    start.after limit body.encode = done ∧ start.payload limit body.encode = body.content := by
  obtain ⟨hchunks, hchunksPayload⟩ := read_rawChunks h.chunk_line h.chunk_data hbelow
  obtain ⟨hlast, hlastPayload⟩ := read_spelled h.last_line hlimit
  obtain ⟨htrailer, htrailerPayload⟩ := read_trailerLines limit h.trailer_line
  obtain ⟨hcrs, hcrsPayload⟩ :=
    read_crs limit (r := Reader.trailer true) (by simp [step]) rfl body.crs
  have hend : endSize 0 true = Reader.trailer true := rfl
  have hencode : body.encode = body.chunks.flatMap RawChunk.encode ++ ((body.last ++ [lf]) ++
      (body.trailer.flatMap (· ++ [lf]) ++ (List.replicate body.crs cr ++ [lf]))) := by
    simp [encode, encodeEnd]
  simp only [hencode, after_append, payload_append, hchunks, hchunksPayload, hlast, hlastPayload,
    hend, htrailer, htrailerPayload, hcrs, hcrsPayload]
  exact ⟨by simp [step], by simp [delivers, content]⟩

/-! ## What was read is a readable body -/

namespace Reader

variable {limit : Nat} {raw : List UInt8}

/-- A chunk ends in a line feed, after which the next size line starts. -/
theorem crs_of_dataEnd_done (h : dataEnd.after limit raw = done) :
    ∃ crs rest, raw = List.replicate crs cr ++ lf :: rest ∧ start.after limit rest = done := by
  induction raw with
  | nil => exact Reader.noConfusion h
  | cons c raw ih =>
      rw [after_cons] at h
      by_cases hcr : c = cr
      · subst hcr
        have hstep : dataEnd.step limit cr = dataEnd := by simp [step]
        rw [hstep] at h
        obtain ⟨crs, rest, rfl, hrest⟩ := ih h
        exact ⟨crs + 1, rest, rfl, hrest⟩
      by_cases hlf : c = lf
      · subst hlf
        exact ⟨0, raw, rfl, h⟩
      · have hstep : dataEnd.step limit c = invalid := by simp [step, hcr, hlf]
        rw [hstep, after_invalid] at h
        exact Reader.noConfusion h

/-- The body ends with an empty line, after lines that are not empty. -/
theorem lines_of_trailer_done (h : (trailer true).after limit raw = done) :
    ∃ (lines : List (List UInt8)) (crs : Nat) (rest : List UInt8),
      (∀ line ∈ lines, RawBody.IsTrailerLine line) ∧ raw =
        lines.flatMap (· ++ [lf]) ++ (List.replicate crs cr ++ lf :: rest) := by
  -- On the number of bytes left: each line takes some of them.
  induction hlength : raw.length using Nat.strong_induction_on generalizing raw with
  | _ count ih =>
    have hlf : lf ∈ raw := by
      by_contra hlf
      rw [(read_trailer_text limit true hlf).1] at h
      exact Reader.noConfusion h
    obtain ⟨line, rest, rfl, hnoLf⟩ := List.eq_append_cons_of_mem hlf
    rw [after_append, (read_trailer_text limit true hnoLf).1, after_cons] at h
    cases hall : line.all (· = cr) with
    | true =>
        refine ⟨[], line.length, rest, by simp, ?_⟩
        have hcrs : line = List.replicate line.length cr :=
          List.eq_replicate_of_mem fun c hc => by simpa using List.all_eq_true.mp hall c hc
        rw [← hcrs]
        rfl
    | false =>
        have hstep : (trailer (true && false)).step limit lf = trailer true := by simp [step]
        rw [hall, hstep] at h
        obtain ⟨lines, crs, last, hlines, rfl⟩ := ih rest.length (by
          rw [← hlength, List.length_append, List.length_cons]
          omega) h rfl
        obtain ⟨c, hc, hne⟩ := List.all_eq_false.mp hall
        refine ⟨line :: lines, crs, last,
          List.forall_mem_cons.mpr ⟨⟨hnoLf, c, hc, by simpa using hne⟩, hlines⟩, ?_⟩
        simp

/-- A size line has to end before the body can. -/
theorem lf_mem_of_start_done (h : start.after limit raw = done) (hlimit : 0 < limit) :
    lf ∈ raw := by
  by_contra hlf
  have hafter : start.after limit (raw ++ [lf]) = done := by
    rw [after_append, h, after_done]
  rcases read_line hlf hlimit with ⟨n, _, _, hline⟩ | hline
  · rw [hafter] at hline
    cases n <;> exact Reader.noConfusion hline
  · rw [hafter] at hline
    exact Reader.noConfusion hline

/-- A byte string on which a reader reaches the end of a body begins with a readable one. -/
theorem exists_readable (h : start.after limit raw = done) (hlimit : 0 < limit) :
    ∃ body : RawBody, body.Readable ∧ body.Below limit ∧ body.encode <+: raw := by
  -- On the number of bytes left: each chunk takes some of them.
  induction hlength : raw.length using Nat.strong_induction_on generalizing raw with
  | _ count ih =>
    obtain ⟨line, rest, rfl, hnoLf⟩ :=
      List.eq_append_cons_of_mem (lf_mem_of_start_done h hlimit)
    rw [List.append_cons, after_append] at h
    rcases read_line hnoLf hlimit with ⟨n, hn, hspells, hline⟩ | hline
    swap
    · rw [hline, after_invalid] at h
      exact Reader.noConfusion h
    rw [hline] at h
    cases n with
    | zero =>
        obtain ⟨lines, crs, last, hlines, rfl⟩ := lines_of_trailer_done h
        refine ⟨⟨[], line, lines, crs⟩, ⟨by simp, by simp, hspells, hlines⟩, ?_, last, ?_⟩
        · intro chunk hchunk
          exact absurd hchunk (by simp)
        · simp [RawBody.encode, RawBody.encodeEnd]
    | succ left =>
        have hshort := left_lt_of_done h
        obtain ⟨data, rest, rfl, hdata⟩ :
            ∃ data after, rest = data ++ after ∧ data.length = left + 1 :=
          ⟨rest.take (left + 1), rest.drop (left + 1), (List.take_append_drop _ _).symm, by
            rw [List.length_take]
            omega⟩
        have hend : endSize (left + 1) true = Reader.data left := rfl
        rw [hend, after_append, (data_complete limit hdata).1] at h
        obtain ⟨crs, rest, rfl, hrest⟩ := crs_of_dataEnd_done h
        obtain ⟨body, hbody, hbelow, hbegins⟩ := ih rest.length (by
          simp only [← hlength, List.length_append, List.length_cons]
          omega) hrest rfl
        have hspells : Spells line data.length := hdata ▸ hspells
        refine ⟨{ body with chunks := ⟨line, data, crs⟩ :: body.chunks },
          ⟨List.forall_mem_cons.mpr ⟨hspells, hbody.chunk_line⟩,
            List.forall_mem_cons.mpr ⟨?_, hbody.chunk_data⟩, hbody.last_line,
            hbody.trailer_line⟩,
          List.forall_mem_cons.mpr ⟨hdata ▸ hn, hbelow⟩, ?_⟩
        · rintro rfl
          exact Nat.noConfusion hdata
        · obtain ⟨after, hafter⟩ := hbegins
          refine ⟨after, ?_⟩
          rw [← hafter]
          simp [RawBody.encode, RawBody.encodeEnd, RawChunk.encode]

end Reader

/-! ## A byte string begins with one readable body at most -/

/-- Trailers that begin a byte string are one trailer. -/
theorem trailer_unique {lines others : List (List UInt8)} {crs otherCrs : Nat}
    {rest otherRest : List UInt8} (hlines : ∀ line ∈ lines, RawBody.IsTrailerLine line)
    (hothers : ∀ line ∈ others, RawBody.IsTrailerLine line)
    (h : lines.flatMap (· ++ [lf]) ++ (List.replicate crs cr ++ lf :: rest) =
      others.flatMap (· ++ [lf]) ++ (List.replicate otherCrs cr ++ lf :: otherRest)) :
    lines = others ∧ crs = otherCrs := by
  induction lines generalizing others with
  | nil =>
      cases others with
      | nil => exact ⟨rfl, (crs_unique h).1⟩
      | cons other others =>
          have hother := hothers other (by simp)
          simp only [List.flatMap_nil, List.nil_append, List.flatMap_cons, List.append_assoc,
            List.cons_append] at h
          exact absurd (line_unique (lf_notMem_replicate crs) hother.1 h).1.symm
            (hother.ne_replicate crs)
  | cons line lines ih =>
      obtain ⟨hline, hlines⟩ := List.forall_mem_cons.mp hlines
      cases others with
      | nil =>
          simp only [List.flatMap_nil, List.nil_append, List.flatMap_cons, List.append_assoc,
            List.cons_append] at h
          exact absurd (line_unique hline.1 (lf_notMem_replicate otherCrs) h).1
            (hline.ne_replicate otherCrs)
      | cons other others =>
          obtain ⟨hother, hothers⟩ := List.forall_mem_cons.mp hothers
          simp only [List.flatMap_cons, List.append_assoc, List.cons_append] at h
          obtain ⟨hsame, hrest⟩ := line_unique hline.1 hother.1 h
          obtain ⟨hall, hcrs⟩ := ih hlines hothers hrest
          exact ⟨by rw [hsame, hall], hcrs⟩

namespace RawBody

/-- The bytes of a body whose first chunk is known. -/
theorem encode_cons (chunk : RawChunk) (chunks : List RawChunk) (last : List UInt8)
    (trailer : List (List UInt8)) (crs : Nat) (rest : List UInt8) :
    (RawBody.mk (chunk :: chunks) last trailer crs).encode ++ rest =
      chunk.line ++ lf :: (chunk.data ++ (List.replicate chunk.crs cr ++
        lf :: ((RawBody.mk chunks last trailer crs).encode ++ rest))) := by
  simp [encode, encodeEnd, RawChunk.encode]

/-- The bytes of a body without chunks. -/
theorem encode_nil (last : List UInt8) (trailer : List (List UInt8)) (crs : Nat)
    (rest : List UInt8) :
    (RawBody.mk [] last trailer crs).encode ++ rest =
      last ++ lf :: (trailer.flatMap (· ++ [lf]) ++ (List.replicate crs cr ++ lf :: rest)) := by
  simp [encode, encodeEnd]

/-- A size line that announces data is not the last one. -/
theorem last_ne_line {line : List UInt8} {n : Nat} (hlast : Spells line 0) (hn : n ≠ 0) :
    ¬ Spells line n :=
  fun hline => hn (hline.unique hlast)

/-- Readable bodies that begin one byte string are the same. -/
theorem Readable.unique {body other : RawBody} {rest otherRest : List UInt8} (hbody : body.Readable)
    (hother : other.Readable) (h : body.encode ++ rest = other.encode ++ otherRest) :
    body = other := by
  obtain ⟨chunks, last, trailer, crs⟩ := body
  obtain ⟨others, otherLast, otherTrailer, otherCrs⟩ := other
  obtain ⟨hline, hdata, hlast, htrailer⟩ := hbody
  obtain ⟨hotherLine, hotherData, hotherLast, hotherTrailer⟩ := hother
  -- Chunk by chunk: equal size lines announce equal data, and the line ends after them are
  -- counted.
  induction chunks generalizing others with
  | nil =>
      rw [encode_nil] at h
      cases others with
      | nil =>
          rw [encode_nil] at h
          obtain ⟨hsame, hrest⟩ := line_unique hlast.noLf hotherLast.noLf h
          obtain ⟨hlines, hcrs⟩ := trailer_unique htrailer hotherTrailer hrest
          rw [show last = otherLast from hsame, show trailer = otherTrailer from hlines,
            show crs = otherCrs from hcrs]
      | cons other others =>
          rw [encode_cons] at h
          have hspells := (List.forall_mem_cons.mp hotherLine).1
          have hsame := (line_unique hlast.noLf hspells.noLf h).1
          have hne := (List.forall_mem_cons.mp hotherData).1
          rw [← show last = other.line from hsame] at hspells
          exact absurd hspells (last_ne_line hlast (by simpa using hne))
  | cons chunk chunks ih =>
      obtain ⟨hspells, hline⟩ := List.forall_mem_cons.mp hline
      obtain ⟨hne, hdata⟩ := List.forall_mem_cons.mp hdata
      rw [encode_cons] at h
      cases others with
      | nil =>
          rw [encode_nil] at h
          have hsame := (line_unique hspells.noLf hotherLast.noLf h).1
          rw [show chunk.line = otherLast from hsame] at hspells
          exact absurd hspells (last_ne_line hotherLast (by simpa using hne))
      | cons other others =>
          rw [encode_cons] at h
          obtain ⟨hotherSpells, hotherLine⟩ := List.forall_mem_cons.mp hotherLine
          obtain ⟨_, hotherData⟩ := List.forall_mem_cons.mp hotherData
          obtain ⟨hsame, hrest⟩ := line_unique hspells.noLf hotherSpells.noLf h
          have hlength : chunk.data.length = other.data.length := by
            rw [hsame] at hspells
            exact hspells.unique hotherSpells
          obtain ⟨hbytes, hrest⟩ := List.append_inj hrest hlength
          obtain ⟨hcrs, hrest⟩ := crs_unique hrest
          have hchunk : chunk = other := RawChunk.ext hsame hbytes hcrs
          have hrec := ih others hrest hline hdata hlast htrailer hotherLine hotherData hotherLast
            hotherTrailer
          simp only [RawBody.mk.injEq] at hrec ⊢
          exact ⟨by rw [hchunk, hrec.1], hrec.2⟩

end RawBody

/-! ## Readable bodies that are not chunked encoding -/

section Lines

variable {line : List UInt8} {n : Nat}

theorem isSizeByte_cases {c : UInt8} (h : IsSizeByte c) (hhex : isHex c ≠ true) :
    c = cr ∨ c = space ∨ c = tab := by
  rcases h with h | h | h | h
  · exact Or.inl h
  · exact Or.inr (Or.inl h)
  · exact Or.inr (Or.inr h)
  · exact absurd h hhex

/-- Up to its ending an announcement holds digits and blanks only. -/
theorem notMem_announcement {before digits after : List UInt8} {c : UInt8}
    (hbefore : ∀ c ∈ before, c = space ∨ c = tab) (hhex : ∀ c ∈ digits, isHex c = true)
    (hafter : ∀ c ∈ after, c = space ∨ c = tab) (hspace : c ≠ space) (htab : c ≠ tab)
    (hc : isHex c = false) : c ∉ before ++ digits ++ after := by
  simp only [List.mem_append, not_or]
  refine ⟨⟨fun hmem => ?_, fun hmem => ?_⟩, fun hmem => ?_⟩
  · exact (hbefore c hmem).elim hspace htab
  · exact Bool.noConfusion ((hhex c hmem).symm.trans hc)
  · exact (hafter c hmem).elim hspace htab

/-- The size text of an announcement: blanks, the digits, and no more digits. -/
theorem Announces.sizeText_eq (h : Announces line n) :
    ∃ before digits after, sizeText line = before ++ (digits ++ after) ∧
      (∀ c ∈ before, c = space ∨ c = tab) ∧ digits ≠ [] ∧ (∀ c ∈ digits, isHex c = true) ∧
      (∀ c ∈ after, c = cr ∨ c = space ∨ c = tab) ∧ hexValue 0 digits = n := by
  obtain ⟨before, digits, after, ending, rfl, hbefore, hafter, hne, hhex, hvalue, hending⟩ := h
  have hnoSemi : semicolon ∉ before ++ digits ++ after :=
    notMem_announcement hbefore hhex hafter (by decide) (by decide) rfl
  rw [sizeText_append hnoSemi]
  rcases hending with rfl | rfl | ⟨text, _, rfl⟩
  · exact ⟨before, digits, after, by simp, hbefore, hne, hhex, fun c hc => Or.inr (hafter c hc),
      hvalue⟩
  · refine ⟨before, digits, after ++ [cr], ?_, hbefore, hne, hhex, ?_, hvalue⟩
    · rw [sizeText_cons (by decide), sizeText_nil, List.append_assoc, List.append_assoc]
    · intro c hc
      rcases List.mem_append.mp hc with hc | hc
      · exact Or.inr (hafter c hc)
      · exact Or.inl (List.mem_singleton.mp hc)
  · exact ⟨before, digits, after, by simp, hbefore, hne, hhex, fun c hc => Or.inr (hafter c hc),
      hvalue⟩

/-- Blanks are no digits. -/
theorem not_isHex_of_blank {c : UInt8} (h : c = cr ∨ c = space ∨ c = tab) : isHex c = false := by
  rcases h with rfl | rfl | rfl <;> rfl

/-- A reader takes an announcement for what it announces. -/
theorem Announces.spells (h : Announces line n) : Spells line n := by
  obtain ⟨before, digits, after, htext, hbefore, hne, hhex, hafter, hvalue⟩ := h.sizeText_eq
  have hdigits : sizeDigits line = digits := by
    have hbeforeNone : before.filter isHex = [] :=
      List.filter_eq_nil_iff.mpr fun c hc =>
        by simp [not_isHex_of_blank (Or.inr (hbefore c hc))]
    have hafterNone : after.filter isHex = [] :=
      List.filter_eq_nil_iff.mpr fun c hc => by simp [not_isHex_of_blank (hafter c hc)]
    rw [sizeDigits, htext, List.filter_append, List.filter_append, hbeforeNone, hafterNone,
      List.filter_eq_self.mpr hhex, List.nil_append, List.append_nil]
  refine ⟨?_, ⟨?_, hdigits ▸ hne⟩, hdigits ▸ hvalue⟩
  · obtain ⟨before, digits, after, ending, rfl, hbefore, hafter, _, hhex, _, hending⟩ := h
    rw [List.mem_append, not_or]
    refine ⟨notMem_announcement hbefore hhex hafter (by decide) (by decide) rfl, ?_⟩
    rcases hending with rfl | rfl | ⟨text, hnoLf, rfl⟩
    · simp
    · decide
    · simpa using ⟨semicolon_ne_lf.symm, hnoLf⟩
  · intro c hc
    rw [htext, List.mem_append, List.mem_append] at hc
    rcases hc with hc | hc | hc
    · exact Or.inr ((hbefore c hc).imp_right Or.inl)
    · exact Or.inr (Or.inr (Or.inr (hhex c hc)))
    · exact (hafter c hc).imp_right (Or.imp_right Or.inl)

/-- The digits of an announcement are one run. -/
theorem Announces.not_interrupted (h : Announces line n) : ¬ Interrupted line := by
  obtain ⟨before, digits, after, htext, hbefore, hne, hhex, hafter, _⟩ := h.sizeText_eq
  rintro ⟨c, hc, hcHex⟩
  obtain ⟨digit, more, rfl⟩ := List.exists_cons_of_ne_nil hne
  have hdigit : isHex digit = true := hhex digit (by simp)
  have hskip : (sizeText line).dropWhile (!isHex ·) = (digit :: more) ++ after := by
    rw [htext, List.dropWhile_append_of_pos fun d hd => by
      simp [not_isHex_of_blank (Or.inr (hbefore d hd))]]
    simp [hdigit]
  rw [hskip, List.dropWhile_append_of_pos hhex] at hc
  have hmem : c ∈ after := (List.dropWhile_suffix _).mem hc
  rw [not_isHex_of_blank (hafter c hmem)] at hcHex
  exact Bool.noConfusion hcHex

/-- A carriage return before the extension and before some other byte is a stray one. -/
theorem strayCr_of_mem {text rest : List UInt8} (hline : line = text ++ rest) (hrest : rest ≠ [])
    (hsemi : semicolon ∉ text) (hcr : cr ∈ text) : StrayCr line := by
  rw [StrayCr, hline, List.dropLast_append_of_ne_nil hrest, sizeText_append hsemi]
  exact List.mem_append_left _ hcr

/-- The only carriage return of an announcement is its last byte or in its extension. -/
theorem Announces.not_strayCr (h : Announces line n) : ¬ StrayCr line := by
  obtain ⟨before, digits, after, ending, rfl, hbefore, hafter, _, hhex, _, hending⟩ := h
  have hnoCr : cr ∉ before ++ digits ++ after :=
    notMem_announcement hbefore hhex hafter (by decide) (by decide) rfl
  intro hstray
  rw [StrayCr] at hstray
  rcases hending with rfl | rfl | ⟨text, _, rfl⟩
  · have hmem := (List.takeWhile_prefix _).mem hstray
    rw [List.append_nil] at hmem
    exact hnoCr ((List.dropLast_prefix _).mem hmem)
  · rw [List.dropLast_concat] at hstray
    exact hnoCr ((List.takeWhile_prefix _).mem hstray)
  · rw [List.dropLast_append_of_ne_nil (by simp)] at hstray
    have hnone : sizeText (before ++ digits ++ after ++ (semicolon :: text).dropLast) <+:
        before ++ digits ++ after := by
      rw [sizeText, List.takeWhile_append]
      split
      · rename_i hall
        cases text with
        | nil => simp
        | cons c text => simp [List.dropLast]
      · exact List.takeWhile_prefix _
    exact hnoCr (hnone.mem hstray)

/-- Blanks of which at most the last one is a carriage return. -/
theorem exists_ending {text : List UInt8} (h : ∀ c ∈ text, c = cr ∨ c = space ∨ c = tab)
    (hcr : cr ∉ text.dropLast) :
    ∃ blanks ending, text = blanks ++ ending ∧ (∀ c ∈ blanks, c = space ∨ c = tab) ∧
      (ending = [] ∨ ending = [cr]) := by
  rcases List.eq_nil_or_concat' text with rfl | ⟨init, last, rfl⟩
  · exact ⟨[], [], rfl, by simp, Or.inl rfl⟩
  rw [List.dropLast_concat] at hcr
  have hinit : ∀ c ∈ init, c = space ∨ c = tab := by
    intro c hc
    rcases h c (List.mem_append_left _ hc) with rfl | hblank
    · exact absurd hc hcr
    · exact hblank
  rcases h last (by simp) with rfl | hblank
  · exact ⟨init, [cr], rfl, hinit, Or.inr rfl⟩
  · refine ⟨init ++ [last], [], by simp, ?_, Or.inl rfl⟩
    simpa [or_imp, forall_and] using ⟨hinit, hblank⟩

/-- A size in one run stands between blanks. -/
theorem Spells.exists_run (h : Spells line n) (hrun : ¬ Interrupted line) :
    ∃ before digits after, sizeText line = before ++ (digits ++ after) ∧ digits ≠ [] ∧
      (∀ c ∈ digits, isHex c = true) ∧ hexValue 0 digits = n ∧
      (∀ c ∈ before, c = cr ∨ c = space ∨ c = tab) ∧
      (∀ c ∈ after, c = cr ∨ c = space ∨ c = tab) := by
  -- The size text is cut where its first run of digits starts and where it ends.
  let before := (sizeText line).takeWhile (!isHex ·)
  let run := (sizeText line).dropWhile (!isHex ·)
  let digits := run.takeWhile isHex
  let after := run.dropWhile isHex
  have htext : sizeText line = before ++ (digits ++ after) := by
    rw [List.takeWhile_append_dropWhile, List.takeWhile_append_dropWhile]
  have hbefore : ∀ c ∈ before, isHex c ≠ true := fun c hc => by
    simpa using List.mem_takeWhile_imp hc
  have hafter : ∀ c ∈ after, isHex c ≠ true := fun c hc hhex => hrun ⟨c, hc, hhex⟩
  have hhex : ∀ c ∈ digits, isHex c = true := fun c hc => List.mem_takeWhile_imp hc
  have hdigits : sizeDigits line = digits := by
    rw [sizeDigits, htext, List.filter_append, List.filter_append,
      List.filter_eq_nil_iff.mpr hbefore, List.filter_eq_nil_iff.mpr hafter,
      List.filter_eq_self.mpr hhex, List.nil_append, List.append_nil]
  have hblank : ∀ c ∈ sizeText line, isHex c ≠ true → c = cr ∨ c = space ∨ c = tab :=
    fun c hc hnot => isSizeByte_cases (h.holds.1 c hc) hnot
  rw [htext] at hblank
  exact ⟨before, digits, after, htext, hdigits ▸ h.holds.2, hhex, hdigits ▸ h.value_eq,
    fun c hc => hblank c (List.mem_append_left _ hc) (hbefore c hc),
    fun c hc => hblank c (by simp [hc]) (hafter c hc)⟩

/-- After the size text comes nothing or an extension. -/
theorem rest_of_sizeText (line : List UInt8) :
    line = sizeText line ∨ ∃ text, line = sizeText line ++ semicolon :: text := by
  have hline : line = sizeText line ++ line.dropWhile (· ≠ semicolon) :=
    List.takeWhile_append_dropWhile.symm
  cases hrest : line.dropWhile (· ≠ semicolon) with
  | nil =>
      rw [hrest, List.append_nil] at hline
      exact Or.inl hline
  | cons c text =>
      have hsome : line.dropWhile (· ≠ semicolon) ≠ [] := by
        rw [hrest]
        exact List.cons_ne_nil _ _
      have hhead := List.head_dropWhile_not (· ≠ semicolon) hsome
      simp only [hrest, List.head_cons] at hhead
      have hc : c = semicolon := by simpa using hhead
      rw [hrest, hc] at hline
      exact Or.inr ⟨text, hline⟩

/-- A size in one run, with no stray carriage return, is announced. -/
theorem Spells.announces (h : Spells line n) (hrun : ¬ Interrupted line) (hcr : ¬ StrayCr line) :
    Announces line n := by
  have hsemi : semicolon ∉ sizeText line := fun hmem => by
    simpa using List.mem_takeWhile_imp hmem
  obtain ⟨before, digits, after, htext, hne, hhex, hvalue, hbefore, hafter⟩ := h.exists_run hrun
  -- Text of the size with something after it in the line has no carriage return.
  have hnoCr : ∀ text rest, line = text ++ rest → rest ≠ [] → text ⊆ sizeText line → cr ∉ text :=
    fun text rest hline hrest hsub hmem =>
      hcr (strayCr_of_mem hline hrest (fun hsemiMem => hsemi (hsub hsemiMem)) hmem)
  have hblanks : ∀ text : List UInt8, (∀ c ∈ text, c = cr ∨ c = space ∨ c = tab) → cr ∉ text →
      ∀ c ∈ text, c = space ∨ c = tab := fun text htext hcr c hc =>
    (htext c hc).resolve_left fun heq => hcr (heq ▸ hc)
  rcases rest_of_sizeText line with hline | ⟨text, hline⟩
  · rw [htext] at hline hnoCr
    have hcrBefore : cr ∉ before :=
      hnoCr before _ hline (by simp [hne]) (List.subset_append_left _ _)
    have hcrAfter : cr ∉ after.dropLast := by
      intro hmem
      have hafterNe : after ≠ [] := by
        intro hnil
        rw [hnil] at hmem
        exact absurd hmem (by simp)
      have hcut : line = (before ++ (digits ++ after.dropLast)) ++ [after.getLast hafterNe] := by
        rw [List.append_assoc, List.append_assoc, List.dropLast_append_getLast hafterNe]
        exact hline
      refine hnoCr _ _ hcut (by simp) (fun c hc => ?_) (by simp [hmem])
      simp only [List.mem_append] at hc ⊢
      exact hc.imp_right (Or.imp_right fun hc => (List.dropLast_prefix _).mem hc)
    obtain ⟨blanks, ending, hsplit, hblank, hending⟩ := exists_ending hafter hcrAfter
    refine ⟨before, digits, blanks, ending, ?_, hblanks before hbefore hcrBefore, hblank, hne, hhex,
      hvalue, hending.imp_right Or.inl⟩
    rw [hline, hsplit]
    simp
  · have hcrText : cr ∉ sizeText line := hnoCr _ _ hline (by simp) (List.Subset.refl _)
    rw [htext, List.mem_append, List.mem_append, not_or, not_or] at hcrText
    refine ⟨before, digits, after, semicolon :: text, ?_, hblanks before hbefore hcrText.1,
      hblanks after hafter hcrText.2.2, hne, hhex, hvalue,
      Or.inr (Or.inr ⟨text, fun hmem => h.noLf ?_, rfl⟩)⟩
    · rw [List.append_assoc before, ← htext]
      exact hline
    · rw [hline]
      exact List.mem_append_right _ (List.mem_cons_of_mem _ hmem)

end Lines

namespace RawBody

variable {body : RawBody}

/-- A reader follows chunked encoding. -/
theorem Conforms.readable (h : body.Conforms) : body.Readable where
  chunk_line chunk hchunk := (h.chunk_line chunk hchunk).spells
  chunk_data := h.chunk_data
  last_line := h.last_line.spells
  trailer_line := h.trailer_line

/-- Chunked encoding is tidy. -/
theorem Conforms.not_untidy (h : body.Conforms) : ¬ body.Untidy := by
  rintro (⟨chunk, hchunk, hline | hline | hcrs⟩ | hline | hline | hcrs)
  · exact (h.chunk_line chunk hchunk).not_interrupted hline
  · exact (h.chunk_line chunk hchunk).not_strayCr hline
  · exact absurd (h.chunk_crs chunk hchunk) (not_le.mpr hcrs)
  · exact h.last_line.not_interrupted hline
  · exact h.last_line.not_strayCr hline
  · exact absurd h.crs_le (not_le.mpr hcrs)

/-- A readable body that is tidy is chunked encoding. -/
theorem Readable.conforms (h : body.Readable) (htidy : ¬ body.Untidy) : body.Conforms where
  chunk_line chunk hchunk :=
    (h.chunk_line chunk hchunk).announces
      (fun hline => htidy (Or.inl ⟨chunk, hchunk, Or.inl hline⟩))
      (fun hline => htidy (Or.inl ⟨chunk, hchunk, Or.inr (Or.inl hline)⟩))
  chunk_data := h.chunk_data
  chunk_crs chunk hchunk :=
    not_lt.mp fun hcrs => htidy (Or.inl ⟨chunk, hchunk, Or.inr (Or.inr hcrs)⟩)
  last_line := h.last_line.announces (fun hline => htidy (Or.inr (Or.inl hline)))
    (fun hline => htidy (Or.inr (Or.inr (Or.inl hline))))
  trailer_line := h.trailer_line
  crs_le := not_lt.mp fun hcrs => htidy (Or.inr (Or.inr (Or.inr hcrs)))

/-- Chunked encoding is what is readable and tidy. -/
theorem conforms_iff : body.Conforms ↔ body.Readable ∧ ¬ body.Untidy := by
  constructor
  · intro h
    exact ⟨h.readable, h.not_untidy⟩
  · intro h
    exact h.1.conforms h.2

end RawBody

end FirmwareUpdater.Library.Chunked
