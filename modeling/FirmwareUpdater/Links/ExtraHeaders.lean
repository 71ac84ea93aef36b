import FirmwareUpdater.Core.ResponseHead
import FirmwareUpdater.Esp32.Esp32HttpClient

/-!
# Extra headers on both links

A block of header lines goes to the one client line by line, through a buffer of
256 bytes, and to the other as it stands, before the line end that ends the head.
The two send the same headers exactly if no line is longer than the buffer holds and
the last one has its line end.
-/

namespace FirmwareUpdater.Links

open Library.MaximalRuns

/-- A line `Name: value`. -/
structure HeaderLine where
  name : List UInt8
  value : List UInt8
  name_ne : name ≠ []
  name_text : ∀ b ∈ name, texto b ∧ b ≠ 58
  value_text : ∀ b ∈ value, texto b

namespace HeaderLine

/-- The line, without its line end. -/
def bytes (line : HeaderLine) : List UInt8 := line.name ++ 58 :: 32 :: line.value

/-- The header it names: its name, and the value without its leading spaces. -/
def header (line : HeaderLine) : List UInt8 × List UInt8 :=
  (line.name, line.value.dropWhile (· = 32))

/-- A line has no line end and no terminator in it. -/
theorem bytes_text (line : HeaderLine) : ∀ b ∈ line.bytes, texto b := by
  intro b hb
  rcases List.mem_append.mp hb with hb | hb
  · exact (line.name_text b hb).1
  · rcases List.mem_cons.mp hb with rfl | hb
    · decide
    rcases List.mem_cons.mp hb with rfl | hb
    · decide
    · exact line.value_text b hb

theorem bytes_ne (line : HeaderLine) : line.bytes ≠ [] := by
  unfold bytes
  simp

end HeaderLine

/-- The end of a line. -/
def crlf : List UInt8 := [13, 10]

/-- The lines with their line ends, but for the last one's where `ended` says so. -/
def joined (ended : Bool) : List HeaderLine → List UInt8
  | [] => []
  | [line] => line.bytes ++ if ended then crlf else []
  | line :: lines => line.bytes ++ (crlf ++ joined ended lines)

/-- A block of extra headers. -/
structure HeaderBlock where
  lines : List HeaderLine
  ended : Bool

namespace HeaderBlock

theorem zero_not_mem (ended : Bool) (lines : List HeaderLine) : 0 ∉ joined ended lines := by
  induction lines with
  | nil => simp [joined]
  | cons line lines ih =>
      have hline : 0 ∉ line.bytes := fun h => absurd (line.bytes_text 0 h) (by decide)
      cases lines with
      | nil => cases ended <;> simp [joined, hline, crlf]
      | cons next lines => simp [joined, hline, crlf] at ih ⊢; exact ih

/-- The block as the string the caller passes. -/
def text (block : HeaderBlock) : CString :=
  ⟨joined block.ended block.lines, zero_not_mem block.ended block.lines⟩

/-- Its headers. -/
def headers (block : HeaderBlock) : List (List UInt8 × List UInt8) :=
  block.lines.map HeaderLine.header

/-- Every line fits the buffer it is copied to. -/
def Short (block : HeaderBlock) : Prop := ∀ line ∈ block.lines, line.bytes.length ≤ 255

/-- There is no line, or the last one has its line end. -/
def Ended (block : HeaderBlock) : Prop := block.lines = [] ∨ block.ended = true

end HeaderBlock

/-! ## The headers set on the ESP client -/

open Esp32HttpClient

/-- The first line end of a text is behind its first line. -/
theorem strstr_crlf {p : CString} {line rest : List UInt8} (hp : p.bytes = line ++ (crlf ++ rest))
    (hline : ∀ b ∈ line, texto b) : strstr p [13, 10] = some (p.drop line.length) := by
  have hat : [13, 10].isPrefixOf (p.bytes.drop line.length) = true := by
    rw [hp, List.drop_left]
    rfl
  have hle : line.length ≤ p.length := by
    rw [CString.length, hp, List.length_append]
    omega
  rcases strstr_spec p [13, 10] with ⟨-, hnone⟩ | ⟨i, hsome, -, hfound, hbefore⟩
  · rw [hnone _ hle] at hat
    cases hat
  · rcases lt_trichotomy i line.length with hlt | rfl | hgt
    · -- A line end within the line would begin with a byte that is no text.
      obtain ⟨b, more, hmore⟩ : ∃ b more, line.drop i = b :: more :=
        List.exists_cons_of_ne_nil (by simpa using hlt)
      have htext := hline b (List.mem_of_mem_drop (i := i) (hmore ▸ List.mem_cons_self))
      rw [hp, List.drop_append_of_le_length hlt.le, hmore, List.cons_append] at hfound
      obtain ⟨after, hafter⟩ := List.isPrefixOf_iff_prefix.mp hfound
      have hbyte : 13 = b := (List.cons.inj hafter).1
      rw [← hbyte] at htext
      exact absurd htext (by decide)
    · exact hsome
    · rw [hbefore _ hgt] at hat
      cases hat

/-- A text of one line has none. -/
theorem strstr_none {p : CString} (hp : ∀ b ∈ p.bytes, texto b) : strstr p [13, 10] = none := by
  rcases strstr_spec p [13, 10] with ⟨hnone, -⟩ | ⟨i, -, -, hfound, -⟩
  · exact hnone
  · have hmem : 13 ∈ p.bytes :=
      List.mem_of_mem_drop ((List.isPrefixOf_iff_prefix.mp hfound).mem List.mem_cons_self)
    exact absurd (hp 13 hmem) (by decide)

/-- What the loop does with a line. -/
def setLine (h : EspHandle) (line : HeaderLine) : EspHandle :=
  if line.bytes.length ≤ 255 then h.setHeader line.header.1 line.header.2 else h

/-- A line in the buffer is cut at its first colon. -/
theorem aplicarLinha_line (h : EspHandle) {buf : CString} {line : HeaderLine}
    (hbuf : buf.bytes = line.bytes) :
    aplicarLinha h buf = h.setHeader line.header.1 line.header.2 := by
  have hspan : buf.bytes.dropWhile (· ≠ 58) = 58 :: 32 :: line.value := by
    rw [hbuf]
    refine (span_append (fun b hb => ?_) (by simp)).2
    rw [decide_eq_true_eq]
    exact (line.name_text b hb).2
  rcases buf.find_byte 58 with ⟨-, hempty⟩ | ⟨sep, hsome, hsep, -⟩
  · rw [hspan] at hempty
    cases hempty
  · rw [hspan] at hsep
    have hlength : buf.length - sep.length = line.name.length := by
      rw [CString.length, CString.length, hbuf, hsep, HeaderLine.bytes, List.length_append]
      exact Nat.add_sub_cancel _ _
    have hname : buf.bytes.take (buf.length - sep.length) = line.name := by
      rw [hlength, hbuf, HeaderLine.bytes, List.take_left]
    have hvalue : (sep.drop 1).bytes = 32 :: line.value := by
      show sep.bytes.drop 1 = _
      rw [hsep]
      rfl
    rw [aplicarLinha, hsome]
    simp only [hname, hvalue]
    rfl

/-- One round of the loop, at a line of the block. -/
theorem aplicarLinhas_line {h : EspHandle} {p : CString} {line : HeaderLine}
    (hlead : line.bytes <+: p.bytes)
    (hlength : p.length - (strstr p [13, 10]).elim 0 CString.length = line.bytes.length) :
    aplicarLinhas h p =
      match strstr p [13, 10] with
      | none => setLine h line
      | some fim => aplicarLinhas (setLine h line) (fim.drop 2) := by
  obtain ⟨rest, hp⟩ := hlead
  have hpos := List.length_pos_iff.mpr line.bytes_ne
  have hstart : p.byteAt 0 ≠ 0 := by
    intro hzero
    obtain ⟨b, more, hmore⟩ := List.exists_cons_of_ne_nil line.bytes_ne
    rw [CString.byteAt, ← hp, hmore] at hzero
    have hb : b = 0 := hzero
    exact absurd (line.bytes_text b (hmore ▸ List.mem_cons_self)) (by rw [hb]; decide)
  have htake : p.bytes.take line.bytes.length = line.bytes := by rw [← hp, List.take_left]
  have hset : ∀ hnul, (if line.bytes.length > 0 ∧ line.bytes.length < 256 then
      aplicarLinha h ⟨p.bytes.take line.bytes.length, hnul⟩ else h) = setLine h line := by
    intro hnul
    unfold setLine
    by_cases hshort : line.bytes.length ≤ 255
    · rw [if_pos ⟨hpos, by omega⟩, if_pos hshort]
      exact aplicarLinha_line h htake
    · rw [if_neg (by omega), if_neg hshort]
  rw [aplicarLinhas, if_neg hstart]
  simp only [hlength, hset]
  split
  · rename_i hfim
    simp only [hfim]
  · rename_i fim hfim
    simp only [hfim]

/-- The loop ends at the end of the text. -/
theorem aplicarLinhas_nil (h : EspHandle) {p : CString} (hp : p.bytes = []) :
    aplicarLinhas h p = h := by
  have hend : p.byteAt 0 = 0 := by
    rw [CString.byteAt, hp]
    rfl
  rw [aplicarLinhas, if_pos hend]

/-- The loop sets the header of every line that fits, in order. -/
theorem aplicarLinhas_joined (ended : Bool) (lines : List HeaderLine) (h : EspHandle)
    {p : CString} (hp : p.bytes = joined ended lines) :
    aplicarLinhas h p = lines.foldl setLine h := by
  induction lines generalizing h p with
  | nil => exact aplicarLinhas_nil h hp
  | cons line lines ih =>
      -- A line with its end is one round, and the rest follows.
      have hround : ∀ {rest : List UInt8}, p.bytes = line.bytes ++ (crlf ++ rest) →
          ∃ q : CString, q.bytes = rest ∧ aplicarLinhas h p = aplicarLinhas (setLine h line) q := by
        intro rest hrest
        have hfim := strstr_crlf hrest line.bytes_text
        refine ⟨(p.drop line.bytes.length).drop 2, ?_, ?_⟩
        · show (p.bytes.drop line.bytes.length).drop 2 = rest
          rw [hrest, List.drop_left]
          rfl
        · have hlength : p.length - (strstr p [13, 10]).elim 0 CString.length =
              line.bytes.length := by
            rw [hfim, Option.elim_some, CString.length_drop]
            unfold CString.length
            rw [hrest, List.length_append]
            omega
          rw [aplicarLinhas_line ⟨_, hrest.symm⟩ hlength, hfim]
      cases lines with
      | nil =>
          cases ended with
          | true =>
              have hlast : p.bytes = line.bytes ++ (crlf ++ []) := by simpa [joined] using hp
              obtain ⟨q, hq, hstep⟩ := hround hlast
              rw [hstep, aplicarLinhas_nil _ hq]
              rfl
          | false =>
              have hbytes : p.bytes = line.bytes := by simpa [joined] using hp
              have hfim := strstr_none (hbytes ▸ line.bytes_text)
              have hlength : p.length - (strstr p [13, 10]).elim 0 CString.length =
                  line.bytes.length := by
                rw [hfim, CString.length, hbytes]
                rfl
              rw [aplicarLinhas_line ⟨[], by rw [hbytes, List.append_nil]⟩ hlength, hfim]
              rfl
      | cons next lines =>
          obtain ⟨q, hq, hstep⟩ := hround hp
          rw [hstep, ih _ hq]
          rfl

/-- The headers set line by line. -/
theorem headers_foldl_setLine (lines : List HeaderLine) (h : EspHandle) :
    (lines.foldl setLine h).headers =
      h.headers ++ (lines.filter fun line => line.bytes.length ≤ 255).map HeaderLine.header := by
  induction lines generalizing h with
  | nil => simp
  | cons line lines ih =>
      rw [List.foldl_cons, ih, setLine]
      by_cases hshort : line.bytes.length ≤ 255
      · simp [hshort, EspHandle.setHeader, HeaderLine.header]
      · simp [hshort]

/-- The ESP client gets every header of the block, in order. -/
def SetsAll (block : HeaderBlock) : Prop :=
  ∀ h : EspHandle, (aplicarCabecalhos h (some block.text)).headers = h.headers ++ block.headers

/-- It does exactly if every line fits the buffer. -/
theorem setsAll_iff (block : HeaderBlock) : SetsAll block ↔ block.Short := by
  have hheaders : ∀ h : EspHandle, (aplicarCabecalhos h (some block.text)).headers =
      h.headers ++ (block.lines.filter fun line => line.bytes.length ≤ 255).map
        HeaderLine.header := by
    intro h
    rw [aplicarCabecalhos, Option.elim_some,
      aplicarLinhas_joined block.ended block.lines h (p := block.text) rfl,
      headers_foldl_setLine]
  constructor
  · intro hall
    have hsame := hall {}
    rw [hheaders] at hsame
    have hlength := congrArg List.length (List.append_cancel_left hsame)
    rw [List.length_map, HeaderBlock.headers, List.length_map] at hlength
    intro line hline
    simpa using List.length_filter_eq_length_iff.mp hlength line hline
  · intro hshort h
    rw [hheaders, List.filter_eq_self.mpr fun line hline => decide_eq_true (hshort line hline)]
    rfl

/-! ## The headers on the wire of the modem -/

/-- The lines of a head, which an empty line ends; `line` is what was read of the first one. -/
def headLines (line : List UInt8) : List UInt8 → Option (List (List UInt8))
  | 13 :: 10 :: bytes =>
      if line = [] then some [] else (headLines [] bytes).map fun lines => line :: lines
  | b :: bytes => headLines (line ++ [b]) bytes
  | [] => none

/-- The header a line of a head carries. -/
def field (line : List UInt8) : List UInt8 × List UInt8 :=
  (line.takeWhile (· ≠ 58), ((line.dropWhile (· ≠ 58)).drop 1).dropWhile (· = 32))

/-- A line of text is read to its end. -/
theorem headLines_line (start line : List UInt8) (hline : ∀ b ∈ line, texto b)
    (hne : start ++ line ≠ []) (rest : List UInt8) :
    headLines start (line ++ (crlf ++ rest)) =
      (headLines [] rest).map fun lines => (start ++ line) :: lines := by
  induction line generalizing start with
  | nil =>
      rw [List.append_nil] at hne ⊢
      show headLines start (13 :: 10 :: rest) = _
      rw [headLines, if_neg hne]
  | cons b line ih =>
      have hb : b ≠ 13 := by
        rintro rfl
        exact absurd (hline 13 List.mem_cons_self) (by decide)
      have hmore := ih (start ++ [b]) (fun c hc => hline c (List.mem_cons_of_mem _ hc)) (by simp)
      rw [List.append_assoc, List.singleton_append] at hmore
      rw [List.cons_append, ← hmore]
      exact headLines.eq_2 start b _ fun _ h => absurd h hb

/-- The lines `postStream` sends before the extra ones. -/
def ownLines (alvo : Alvo) (contentType : Option CString) (totalLen : UInt32) :
    List (List UInt8) :=
  Http.pedido "POST" alvo
    [ascii "Connection: close\r\n",
      ascii "Content-Type: " ++ contentType.elim (ascii "application/octet-stream") CString.bytes ++
        ascii "\r\n",
      ascii ("Content-Length: " ++ toString totalLen.toNat ++ "\r\n")]

/-- All it sends before the body. -/
def sentHead (alvo : Alvo) (contentType extraHeaders : Option CString) (totalLen : UInt32) :
    List (List UInt8) :=
  ownLines alvo contentType totalLen ++
    (extraHeaders.toList.map CString.bytes ++ [ascii "\r\n"])

/-- `postStream` sends that head, and then the body. -/
theorem postStream_head {σ : Type} (a : Ambiente) (rounds : Nat) (s : Http σ)
    (url contentType extraHeaders : Option CString) (reader : BodyReader) (totalLen : UInt32)
    (out : Saida) :
    Http.postStream a rounds s url contentType extraHeaders (some reader) totalLen out =
      Http.trocar a rounds s url
        (fun alvo w => do
          let w := Http.imprimirTodas a w (sentHead alvo contentType extraHeaders totalLen)
          let (ok, enviados, w) ← Http.enviarCorpo a reader totalLen 0 0 w rounds
          some (ok && enviados = totalLen, w))
        (out.terminar 0) {} :=
  rfl

/-- What the modem's head carries behind its own lines, as the server reads it, is the headers of
the block. -/
def WireCarries (block : HeaderBlock) : Prop :=
  ∀ (alvo : Alvo) (contentType : Option CString) (totalLen : UInt32), ∃ wire,
    (sentHead alvo contentType (some block.text) totalLen).flatten =
      (ownLines alvo contentType totalLen).flatten ++ wire ∧
    (headLines [] wire).map (List.map field) = some block.headers

/-- The header of a line is the one it was made of. -/
theorem field_bytes (line : HeaderLine) : field line.bytes = line.header := by
  have hname : ∀ b ∈ line.name, decide (b ≠ 58) = true := by
    intro b hb
    rw [decide_eq_true_eq]
    exact (line.name_text b hb).2
  have hend : ∀ b ∈ (58 :: 32 :: line.value).head?, ¬decide (b ≠ 58) = true := by simp
  have hspan := span_append hname hend
  rw [field, HeaderLine.bytes, hspan.1, hspan.2]
  rfl

/-- With its last line end the block is read line by line. -/
theorem headLines_ended (lines : List HeaderLine) :
    headLines [] (joined true lines ++ crlf) = some (lines.map HeaderLine.bytes) := by
  induction lines with
  | nil => rfl
  | cons line lines ih =>
      have hround := headLines_line [] line.bytes line.bytes_text (by simpa using line.bytes_ne)
        (joined true lines ++ crlf)
      rw [ih] at hround
      cases lines with
      | nil => simpa [joined, List.append_assoc] using hround
      | cons next lines => simpa [joined, List.append_assoc] using hround

/-- Without it the head is not over. -/
theorem headLines_not_ended (line : HeaderLine) (lines : List HeaderLine) :
    headLines [] (joined false (line :: lines) ++ crlf) = none := by
  induction lines generalizing line with
  | nil =>
      have hround := headLines_line [] line.bytes line.bytes_text (by simpa using line.bytes_ne) []
      simpa [joined, headLines] using hround
  | cons next lines ih =>
      have hround := headLines_line [] line.bytes line.bytes_text (by simpa using line.bytes_ne)
        (joined false (next :: lines) ++ crlf)
      rw [ih next] at hround
      simpa [joined, List.append_assoc] using hround

/-- The modem's head carries them exactly if the last line has its line end. -/
theorem wireCarries_iff (block : HeaderBlock) : WireCarries block ↔ block.Ended := by
  have hwire : ∀ (alvo : Alvo) (contentType : Option CString) (totalLen : UInt32),
      (sentHead alvo contentType (some block.text) totalLen).flatten =
        (ownLines alvo contentType totalLen).flatten ++
          (joined block.ended block.lines ++ crlf) := by
    intro alvo contentType totalLen
    rw [sentHead, List.flatten_append]
    rfl
  have hread : (headLines [] (joined block.ended block.lines ++ crlf)).map (List.map field) =
      some block.headers ↔ block.Ended := by
    obtain ⟨lines, ended⟩ := block
    have hfields : (lines.map HeaderLine.bytes).map field = lines.map HeaderLine.header := by
      rw [List.map_map]
      exact List.map_congr_left fun line _ => field_bytes line
    cases ended with
    | true => simp [headLines_ended, hfields, HeaderBlock.Ended, HeaderBlock.headers]
    | false =>
        cases lines with
        | nil => simp [joined, crlf, headLines, HeaderBlock.Ended, HeaderBlock.headers]
        | cons line lines => simp [headLines_not_ended, HeaderBlock.Ended]
  constructor
  · intro hcarries
    obtain ⟨wire, hsent, hheaders⟩ := hcarries
      ⟨.empty (by decide), .empty (by decide), 80⟩ none 0
    rw [hwire] at hsent
    rw [← List.append_cancel_left hsent] at hheaders
    exact hread.mp hheaders
  · intro hended alvo contentType totalLen
    exact ⟨_, hwire alvo contentType totalLen, hread.mpr hended⟩

/-! ## Both links -/

/-- The two clients send the same headers, those of the block, exactly if every line is at most
255 bytes long and the last one, if any, has its line end. -/
theorem extra_headers_iff (block : HeaderBlock) :
    (SetsAll block ∧ WireCarries block ↔ block.Short ∧ block.Ended) ∧
      (SetsAll block ↔ block.Short) ∧ (WireCarries block ↔ block.Ended) := by
  have hsets := setsAll_iff block
  have hwire := wireCarries_iff block
  exact ⟨and_congr hsets hwire, hsets, hwire⟩

/-- A bearer token of 240 bytes, in a line with its line end, is not set on the ESP client. -/
theorem extra_headers_bearer_token :
    ∃ block : HeaderBlock,
      block.text.bytes = ascii "Authorization: Bearer " ++ List.replicate 240 97 ++ crlf ∧
      (aplicarCabecalhos {} (some block.text)).headers = [] ∧
      ¬(SetsAll block ∧ WireCarries block) := by
  let line : HeaderLine :=
    ⟨ascii "Authorization", ascii "Bearer " ++ List.replicate 240 97, by decide, by decide +kernel,
      by decide +kernel⟩
  have hlong : ¬line.bytes.length ≤ 255 := by decide +kernel
  have hloop := aplicarLinhas_joined true [line] {} (p := (⟨[line], true⟩ : HeaderBlock).text) rfl
  refine ⟨⟨[line], true⟩, by decide +kernel, ?_, ?_⟩
  · rw [aplicarCabecalhos, Option.elim_some, hloop, headers_foldl_setLine]
    simp [hlong]
  · rintro ⟨hsets, -⟩
    exact hlong ((setsAll_iff _).mp hsets line List.mem_cons_self)

end FirmwareUpdater.Links
