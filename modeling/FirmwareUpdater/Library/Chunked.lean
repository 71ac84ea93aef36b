import Mathlib.Data.List.Basic
import Mathlib.Data.Nat.Basic

/-!
# Chunked transfer coding, byte by byte

A `Reader` is where a byte-at-a-time decoder stands in a chunked body: inside a
size line, with `left + 1` payload bytes to go, between a chunk and the next, in
the trailer. `Reader.after` and `Reader.payload` are the position reached over a
byte string and the payload found on the way. `Body.encode` writes a body in
chunked form, and `Body.read_encode` says that the reader undoes it, reaching
`done` on the last byte and not before.
-/

namespace FirmwareUpdater.Library.Chunked

/-- The bytes with a meaning of their own in the framing. -/
def tab : UInt8 := 9
def lf : UInt8 := 10
def cr : UInt8 := 13
def space : UInt8 := 32
def semicolon : UInt8 := 59

@[simp] theorem lf_ne_cr : lf ≠ cr := by decide
@[simp] theorem lf_ne_space : lf ≠ space := by decide
@[simp] theorem lf_ne_tab : lf ≠ tab := by decide
@[simp] theorem cr_ne_lf : cr ≠ lf := by decide
@[simp] theorem semicolon_ne_cr : semicolon ≠ cr := by decide
@[simp] theorem semicolon_ne_space : semicolon ≠ space := by decide
@[simp] theorem semicolon_ne_tab : semicolon ≠ tab := by decide
@[simp] theorem semicolon_ne_lf : semicolon ≠ lf := by decide

/-- The value of a hexadecimal digit in either case. -/
def hexDigit (c : UInt8) : Option Nat :=
  if 48 ≤ c.toNat ∧ c.toNat ≤ 57 then some (c.toNat - 48)
  else if 97 ≤ c.toNat ∧ c.toNat ≤ 102 then some (c.toNat - 97 + 10)
  else if 65 ≤ c.toNat ∧ c.toNat ≤ 70 then some (c.toNat - 65 + 10)
  else none

/-- Where a decoder stands. `size` holds the value read so far and whether it has a digit,
`data left` has `left + 1` payload bytes to go, and `trailer` knows whether the current line is
empty so far. -/
inductive Reader where
  | size (value : Nat) (digit : Bool)
  | extension (value : Nat)
  | data (left : Nat)
  | dataEnd
  | trailer (empty : Bool)
  | done
  | invalid
  deriving DecidableEq

namespace Reader

/-- The position at the start of a body. -/
def start : Reader := .size 0 false

/-- The position after the line feed of a size line. -/
def endSize : Nat → Bool → Reader
  | _, false => .invalid
  | 0, true => .trailer true
  | value + 1, true => .data value

/-- The position after one more byte. Sizes from `limit` on are refused. -/
def step (limit : Nat) : Reader → UInt8 → Reader
  | .size value digit, c =>
      if c = cr ∨ c = space ∨ c = tab then .size value digit
      else if c = lf then endSize value digit
      else if c = semicolon then if digit then .extension value else .invalid
      else match hexDigit c with
        | some v => if 16 * value + v < limit then .size (16 * value + v) true else .invalid
        | none => .invalid
  | .extension value, c => if c = lf then endSize value true else .extension value
  | .data 0, _ => .dataEnd
  | .data (left + 1), _ => .data left
  | .dataEnd, c =>
      if c = cr then .dataEnd else if c = lf then .size 0 false else .invalid
  | .trailer empty, c =>
      if c = cr then .trailer empty
      else if c = lf then if empty then .done else .trailer true
      else .trailer false
  | .done, _ => .done
  | .invalid, _ => .invalid

/-- What one more byte adds to the payload. -/
def delivers : Reader → UInt8 → List UInt8
  | .data _, c => [c]
  | _, _ => []

/-- The position reached over a byte string. -/
def after (limit : Nat) (r : Reader) (bytes : List UInt8) : Reader :=
  bytes.foldl (step limit) r

/-- The payload found in a byte string. -/
def payload (limit : Nat) : Reader → List UInt8 → List UInt8
  | _, [] => []
  | r, c :: bytes => r.delivers c ++ payload limit (r.step limit c) bytes

variable {limit : Nat} {r : Reader}

@[simp] theorem after_nil : r.after limit [] = r := rfl

@[simp] theorem after_cons (c : UInt8) (bytes : List UInt8) :
    r.after limit (c :: bytes) = (r.step limit c).after limit bytes := rfl

@[simp] theorem payload_nil : r.payload limit [] = [] := rfl

@[simp] theorem payload_cons (c : UInt8) (bytes : List UInt8) :
    r.payload limit (c :: bytes) = r.delivers c ++ (r.step limit c).payload limit bytes := rfl

/-- Reading two strings one after the other. -/
theorem after_append (first second : List UInt8) :
    r.after limit (first ++ second) = (r.after limit first).after limit second := by
  simp [after]

/-- The payload of two strings read one after the other. -/
theorem payload_append (first second : List UInt8) :
    r.payload limit (first ++ second) =
      r.payload limit first ++ (r.after limit first).payload limit second := by
  induction first generalizing r with
  | nil => rfl
  | cons c first ih => simp [ih]

/-- Nothing follows the end of a body. -/
@[simp] theorem after_done (bytes : List UInt8) : done.after limit bytes = done := by
  induction bytes with
  | nil => rfl
  | cons c bytes ih => simpa [step] using ih

/-- Bad framing is final. -/
@[simp] theorem after_invalid (bytes : List UInt8) : invalid.after limit bytes = invalid := by
  induction bytes with
  | nil => rfl
  | cons c bytes ih => simpa [step] using ih

/-- Past the end of a body there is no payload. -/
@[simp] theorem payload_done (bytes : List UInt8) : done.payload limit bytes = [] := by
  induction bytes with
  | nil => rfl
  | cons c bytes ih => simpa [step, delivers] using ih

/-- Past bad framing there is no payload. -/
@[simp] theorem payload_invalid (bytes : List UInt8) : invalid.payload limit bytes = [] := by
  induction bytes with
  | nil => rfl
  | cons c bytes ih => simpa [step, delivers] using ih

/-- The payload of a prefix is a prefix of the payload. -/
theorem payload_prefix {first whole : List UInt8} (h : first <+: whole) :
    r.payload limit first <+: r.payload limit whole := by
  obtain ⟨second, rfl⟩ := h
  exact ⟨_, (payload_append first second).symm⟩

/-- If a prefix reaches the end of the body, the whole string has the same payload. -/
theorem payload_of_prefix_done {first whole : List UInt8} (h : first <+: whole)
    (hdone : r.after limit first = done) :
    r.payload limit whole = r.payload limit first ∧ r.after limit whole = done := by
  obtain ⟨second, rfl⟩ := h
  rw [payload_append, after_append, hdone]
  simp

/-- A run of payload bytes that leaves some to go. -/
theorem data_block (limit : Nat) {left : Nat} {block : List UInt8} (h : block.length ≤ left) :
    (data left).after limit block = data (left - block.length) ∧
      (data left).payload limit block = block := by
  induction block generalizing left with
  | nil => simp
  | cons c block ih =>
      obtain ⟨more, rfl⟩ : ∃ more, left = more + 1 :=
        ⟨left - 1, by simp only [List.length_cons] at h; omega⟩
      simp only [List.length_cons, Nat.add_le_add_iff_right] at h
      obtain ⟨hafter, hpayload⟩ := ih h
      simp [step, delivers, hafter, hpayload]

/-- A run of payload bytes that completes the chunk. -/
theorem data_complete (limit : Nat) {left : Nat} {block : List UInt8}
    (h : block.length = left + 1) :
    (data left).after limit block = dataEnd ∧ (data left).payload limit block = block := by
  obtain ⟨init, last, rfl⟩ : ∃ init last, block = init ++ [last] :=
    ⟨_, _, (List.dropLast_append_getLast (by rintro rfl; simp at h : block ≠ [])).symm⟩
  have hinit : init.length = left := by simpa using h
  obtain ⟨hafter, hpayload⟩ := data_block limit (Nat.le_of_eq hinit)
  rw [after_append, payload_append, hafter, hpayload, hinit, Nat.sub_self]
  simp [step, delivers]

/-- A chunk's payload has to be there before the body can end. -/
theorem left_lt_of_done {left : Nat} {rest : List UInt8}
    (h : (data left).after limit rest = done) : left < rest.length := by
  by_contra hshort
  have hblock := (data_block limit (not_lt.mp hshort)).1
  rw [h] at hblock
  exact Reader.noConfusion hblock

end Reader

/-! ## Writing a body in chunked form -/

/-- The value of a string of hexadecimal digits read after `value`. -/
def hexValue (value : Nat) : List UInt8 → Nat
  | [] => value
  | c :: digits => hexValue (16 * value + (hexDigit c).getD 0) digits

/-- Reading digits never makes a value smaller. -/
theorem le_hexValue (value : Nat) (digits : List UInt8) : value ≤ hexValue value digits := by
  induction digits generalizing value with
  | nil => rfl
  | cons c digits ih => exact Nat.le_trans (by omega) (ih _)

/-- A size line without its line end: some spelling of a size, and possibly an extension. -/
structure SizeLine where
  digits : List UInt8
  extension : Option (List UInt8)
  digits_ne : digits ≠ []
  digits_hex : ∀ c ∈ digits, (hexDigit c).isSome
  extension_noLf : ∀ text, extension = some text → lf ∉ text

/-- The size that a line announces. -/
def SizeLine.value (line : SizeLine) : Nat := hexValue 0 line.digits

/-- A size line as sent. -/
def SizeLine.encode (line : SizeLine) : List UInt8 :=
  line.digits ++ (match line.extension with | some text => semicolon :: text | none => []) ++
    [cr, lf]

/-- A nonempty chunk shorter than `limit` bytes, with a size line that announces it. -/
structure Chunk (limit : Nat) where
  line : SizeLine
  data : List UInt8
  data_ne : data ≠ []
  data_lt : data.length < limit
  value_eq : line.value = data.length

/-- A chunk as sent. -/
def Chunk.encode {limit : Nat} (chunk : Chunk limit) : List UInt8 :=
  chunk.line.encode ++ chunk.data ++ [cr, lf]

/-- A trailer line: not blank, and on one line. -/
structure TrailerLine where
  text : List UInt8
  noLf : lf ∉ text
  notBlank : ∃ c ∈ text, c ≠ cr

/-- A trailer line as sent. -/
def TrailerLine.encode (line : TrailerLine) : List UInt8 := line.text ++ [cr, lf]

/-- A chunked body: its chunks, the zero-size line and the trailer. -/
structure Body (limit : Nat) where
  chunks : List (Chunk limit)
  last : SizeLine
  trailer : List TrailerLine
  last_zero : last.value = 0

/-- The payload a body carries. -/
def Body.content {limit : Nat} (body : Body limit) : List UInt8 :=
  body.chunks.flatMap Chunk.data

/-- A body as sent, without its very last byte. -/
def Body.encodeInit {limit : Nat} (body : Body limit) : List UInt8 :=
  body.chunks.flatMap Chunk.encode ++ body.last.encode ++
    body.trailer.flatMap TrailerLine.encode ++ [cr]

/-- A body as sent. -/
def Body.encode {limit : Nat} (body : Body limit) : List UInt8 := body.encodeInit ++ [lf]

namespace Reader

variable {limit : Nat}

/-- No hexadecimal digit is a byte with a meaning of its own in a size line. -/
theorem hexDigit_framing {c : UInt8} (h : (hexDigit c).isSome) :
    c ≠ cr ∧ c ≠ space ∧ c ≠ tab ∧ c ≠ lf ∧ c ≠ semicolon := by
  refine ⟨?_, ?_, ?_, ?_, ?_⟩ <;> rintro rfl <;> exact absurd h (by decide)

/-- A size below the limit is read digit by digit. -/
theorem read_digits (value : Nat) (digit : Bool) {digits : List UInt8}
    (hhex : ∀ c ∈ digits, (hexDigit c).isSome) (hlimit : hexValue value digits < limit) :
    (size value digit).after limit digits =
        size (hexValue value digits) (digit || !digits.isEmpty) ∧
      (size value digit).payload limit digits = [] := by
  induction digits generalizing value digit with
  | nil => simp [hexValue]
  | cons c digits ih =>
      obtain ⟨v, hv⟩ := Option.isSome_iff_exists.mp (hhex c (by simp))
      obtain ⟨hcr, hspace, htab, hlf, hsemi⟩ := hexDigit_framing (hhex c (by simp))
      have hvalue : hexValue value (c :: digits) = hexValue (16 * value + v) digits := by
        simp [hexValue, hv]
      have hroom : 16 * value + v < limit :=
        Nat.lt_of_le_of_lt (le_hexValue _ digits) (hvalue ▸ hlimit)
      have hstep : step limit (size value digit) c = size (16 * value + v) true := by
        simp [step, hcr, hspace, htab, hlf, hsemi, hv, hroom]
      obtain ⟨hafter, hpayload⟩ := ih (16 * value + v) true
        (fun d hd => hhex d (by simp [hd])) (hvalue ▸ hlimit)
      rw [after_cons, payload_cons, hstep, hafter, hpayload, hvalue]
      simp [delivers]

/-- Everything up to the line feed of an extension is skipped. -/
theorem read_extension (limit value : Nat) {text : List UInt8} (h : lf ∉ text) :
    (extension value).after limit text = extension value ∧
      (extension value).payload limit text = [] := by
  induction text with
  | nil => simp
  | cons c text ih =>
      simp only [List.mem_cons, not_or] at h
      obtain ⟨hafter, hpayload⟩ := ih h.2
      have hstep : step limit (extension value) c = extension value := by
        simp [step, Ne.symm h.1]
      rw [after_cons, payload_cons, hstep, hafter, hpayload]
      simp [delivers]

/-- A size line leads to what its size announces. -/
theorem read_sizeLine (line : SizeLine) (h : line.value < limit) :
    start.after limit line.encode = endSize line.value true ∧
      start.payload limit line.encode = [] := by
  obtain ⟨hafter, hpayload⟩ := read_digits 0 false line.digits_hex h
  have hdigit : (false || !line.digits.isEmpty) = true := by
    simpa using line.digits_ne
  rw [hdigit] at hafter
  have hcrlf : ∀ value, (size value true).after limit [cr, lf] = endSize value true := by
    intro value
    simp [step]
  cases hext : line.extension with
  | none =>
      simp only [SizeLine.encode, hext, List.append_nil, start, after_append, payload_append,
        hafter, hpayload, hcrlf]
      exact ⟨rfl, by simp [step, delivers]⟩
  | some text =>
      have hsemi : ∀ value, step limit (size value true) semicolon = extension value := by
        intro value
        simp [step]
      obtain ⟨htext, htextPayload⟩ :=
        read_extension limit (hexValue 0 line.digits) (line.extension_noLf text hext)
      simp only [SizeLine.encode, hext, start, after_append, payload_append, hafter, hpayload,
        after_cons, payload_cons, hsemi, htext, htextPayload]
      exact ⟨by simp [step, SizeLine.value], by simp [step, delivers]⟩

/-- A chunk delivers its data and leads back to the start of a size line. -/
theorem read_chunk (chunk : Chunk limit) :
    start.after limit chunk.encode = start ∧
      start.payload limit chunk.encode = chunk.data := by
  have hvalue : chunk.line.value < limit := chunk.value_eq ▸ chunk.data_lt
  obtain ⟨hline, hlinePayload⟩ := read_sizeLine chunk.line hvalue
  obtain ⟨left, hleft⟩ : ∃ left, chunk.data.length = left + 1 :=
    ⟨chunk.data.length - 1, by have := List.length_pos_iff.mpr chunk.data_ne; omega⟩
  obtain ⟨hdata, hdataPayload⟩ := data_complete limit hleft
  have hend : endSize chunk.line.value true = data left := by
    rw [chunk.value_eq, hleft]
    rfl
  simp only [Chunk.encode, after_append, payload_append, hline, hlinePayload, hend, hdata,
    hdataPayload]
  simp [step, delivers, start]

/-- Chunk after chunk, the payload is their data. -/
theorem read_chunks (chunks : List (Chunk limit)) :
    start.after limit (chunks.flatMap Chunk.encode) = start ∧
      start.payload limit (chunks.flatMap Chunk.encode) = chunks.flatMap Chunk.data := by
  induction chunks with
  | nil => exact ⟨rfl, rfl⟩
  | cons chunk chunks ih =>
      obtain ⟨hchunk, hpayload⟩ := read_chunk chunk
      simp only [List.flatMap_cons, after_append, payload_append, hchunk, hpayload, ih.1, ih.2]
      exact ⟨trivial, trivial⟩

/-- Inside a trailer line only a byte other than a carriage return makes it count. -/
theorem read_trailer_text (limit : Nat) (empty : Bool) {text : List UInt8} (h : lf ∉ text) :
    (trailer empty).after limit text = trailer (empty && text.all (· = cr)) ∧
      (trailer empty).payload limit text = [] := by
  induction text generalizing empty with
  | nil => simp
  | cons c text ih =>
      simp only [List.mem_cons, not_or] at h
      have hstep : step limit (trailer empty) c = trailer (empty && decide (c = cr)) := by
        by_cases hcr : c = cr
        · simp [step, hcr]
        · simp [step, hcr, Ne.symm h.1]
      obtain ⟨hafter, hpayload⟩ := ih (empty && decide (c = cr)) h.2
      rw [after_cons, payload_cons, hstep, hafter, hpayload]
      simp [delivers, Bool.and_assoc]

/-- A trailer line is skipped. -/
theorem read_trailer_line (limit : Nat) (line : TrailerLine) :
    (trailer true).after limit line.encode = trailer true ∧
      (trailer true).payload limit line.encode = [] := by
  obtain ⟨hafter, hpayload⟩ := read_trailer_text limit true line.noLf
  have hall : line.text.all (· = cr) = false := by
    obtain ⟨c, hc, hne⟩ := line.notBlank
    rw [List.all_eq_false]
    exact ⟨c, hc, by simpa using hne⟩
  rw [hall, Bool.and_false] at hafter
  simp only [TrailerLine.encode, after_append, payload_append, hafter, hpayload]
  simp [step, delivers]

/-- The whole trailer is skipped. -/
theorem read_trailer (limit : Nat) (lines : List TrailerLine) :
    (trailer true).after limit (lines.flatMap TrailerLine.encode) = trailer true ∧
      (trailer true).payload limit (lines.flatMap TrailerLine.encode) = [] := by
  induction lines with
  | nil => exact ⟨rfl, rfl⟩
  | cons line lines ih =>
      obtain ⟨hline, hpayload⟩ := read_trailer_line limit line
      simp only [List.flatMap_cons, after_append, payload_append, hline, hpayload, ih.1, ih.2]
      exact ⟨trivial, rfl⟩

/-- All but the last byte of a body leads to the end of its empty line. -/
theorem read_encodeInit (body : Body limit) (hlimit : 0 < limit) :
    start.after limit body.encodeInit = trailer true ∧
      start.payload limit body.encodeInit = body.content := by
  obtain ⟨hchunks, hchunksPayload⟩ := read_chunks body.chunks
  obtain ⟨hlast, hlastPayload⟩ := read_sizeLine body.last (body.last_zero ▸ hlimit)
  obtain ⟨htrailer, htrailerPayload⟩ := read_trailer limit body.trailer
  have hend : endSize body.last.value true = trailer true := by
    rw [body.last_zero]
    rfl
  simp only [Body.encodeInit, after_append, payload_append, hchunks, hchunksPayload, hlast,
    hlastPayload, hend, htrailer, htrailerPayload]
  exact ⟨by simp [step], by simp [delivers, Body.content]⟩

end Reader

open Reader in
/-- Reading undoes writing: the payload is the body's content, and the end of the body is
reached on the last byte, with no earlier position final. -/
theorem Body.read_encode {limit : Nat} (body : Body limit) (hlimit : 0 < limit) :
    start.after limit body.encode = done ∧
      start.payload limit body.encode = body.content ∧
      ∀ first, first <+: body.encode → first ≠ body.encode →
        start.after limit first ≠ done ∧ start.after limit first ≠ invalid := by
  obtain ⟨hinit, hpayload⟩ := read_encodeInit body hlimit
  refine ⟨?_, ?_, ?_⟩
  · rw [Body.encode, after_append, hinit]
    simp [step]
  · rw [Body.encode, payload_append, hinit, hpayload]
    simp [delivers]
  · intro first hfirst hne
    have hproper : first <+: body.encodeInit := by
      rcases List.prefix_concat_iff.mp hfirst with heq | hprefix
      · exact absurd heq hne
      · exact hprefix
    obtain ⟨second, hsecond⟩ := hproper
    rw [← hsecond, after_append] at hinit
    constructor <;> intro hfinal <;> simp [hfinal] at hinit

end FirmwareUpdater.Library.Chunked
