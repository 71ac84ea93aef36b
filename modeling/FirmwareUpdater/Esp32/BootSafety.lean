import FirmwareUpdater.Esp32.OtaSink

/-!
# Boot safety of the OTA sink

Flash contents, streaming digest and byte counter advance in separate fallible
steps. `InSession` is what keeps them together while every accepted block also
reaches the digest (`Digested`) and the counter does not wrap (`Counted`). Under
that condition `boot_matches_digest` holds over every sequence of calls. A block
whose digest update fails after the flash took it breaks it for good:
`boot_of_undigested_block`.
-/

namespace FirmwareUpdater.OtaSink

variable {sha256 : List UInt8 → Digest}

/-! ## What each operation can do -/

/-- The write is one that `esp_ota_write` accepts. -/
def accepts (s : OtaSink) (block : Buffer) (o : WriteOutcome) : Bool :=
  s.isOpen && block.len ≠ 0 && block.data.isSome && s.fits block.len && o.otaWrite

/-- A write touches nothing, or the flash takes the block and the digest and the counter follow
if they can. -/
theorem write_cases (s : OtaSink) (block : Buffer) (o : WriteOutcome) :
    (s.accepts block o = false ∧ (s.write block o).2 = (s, [])) ∨
      s.accepts block o = true ∧ ∃ bytes, block.data = some bytes ∧
        (s.write block o).2 =
          (if (s.sha.update block o.shaUpdate).1 then
              { s with
                sha := (s.sha.update block o.shaUpdate).2
                written := s.written + UInt32.ofNat block.len }
            else { s with sha := (s.sha.update block o.shaUpdate).2 },
            [.accepted bytes]) := by
  unfold write accepts
  cases hopen : s.isOpen with
  | false => exact .inl (by simp)
  | true =>
      by_cases hlen : block.len = 0
      · exact .inl (by simp [hlen])
      cases hdata : block.data with
      | none => exact .inl (by simp [hlen])
      | some bytes =>
          cases hfits : s.fits block.len with
          | false => exact .inl (by simp [hlen])
          | true =>
              cases hwrite : o.otaWrite with
              | false => exact .inl (by simp [hlen])
              | true =>
                  refine .inr ⟨by simp [hlen], bytes, rfl, ?_⟩
                  cases hupdate : (s.sha.update block o.shaUpdate).1 <;> simp [hlen, hupdate]

/-- `finish` always leaves the sink closed. -/
theorem finish_closes (s : OtaSink) (digest : Option Digest) (o : FinishOutcome) :
    (s.finish sha256 digest o).2.1.isOpen = false := by
  have habort : ∀ t : OtaSink, t.abort.isOpen = false := by
    intro t
    cases h : t.isOpen <;> simp [abort, h]
  unfold finish
  cases hopen : s.isOpen with
  | false => simpa using hopen
  | true =>
      simp only [Bool.not_true, Bool.false_eq_true, if_false]
      split
      · exact habort _
      split
      · exact habort _
      split
      · exact habort _
      split
      · rfl
      split <;> rfl

/-- `abort` always leaves the sink closed. -/
theorem abort_closes (s : OtaSink) : s.abort.isOpen = false := by
  cases h : s.isOpen <;> simp [abort, h]

/-- A `begin` that does not succeed leaves the session as it was. -/
theorem begin_failed {s : OtaSink} {expectedSize : UInt32} {o : BeginOutcome}
    (h : (s.begin expectedSize o).1 ≠ .ok) :
    (s.begin expectedSize o).2.isOpen = s.isOpen ∧
      (s.isOpen = true → (s.begin expectedSize o).2 = s) := by
  unfold begin at h ⊢
  cases hopen : s.isOpen with
  | true => simp [hopen]
  | false =>
      simp only [hopen, Bool.false_eq_true, if_false] at h ⊢
      refine ⟨?_, by simp⟩
      cases hpartition : o.partition with
      | none => simp
      | some target =>
          simp only [hpartition] at h ⊢
          split
          · rfl
          · rename_i hfits
            simp only [hfits, if_false] at h
            cases hbegin : o.otaBegin with
            | none => simp
            | some handle =>
                simp only [hbegin] at h ⊢
                cases hstarts : o.shaStarts <;> simp [Sha256.begin, hstarts] at h ⊢

/-- Outside a successful `begin`, no operation opens a session. -/
theorem isOpen_of_exec {s : OtaSink} {call : Call} (hopens : s.opens call = false)
    (h : (s.exec sha256 call).isOpen = true) : s.isOpen = true := by
  cases call with
  | begin expectedSize o =>
      rwa [exec, (begin_failed (by simpa [opens] using hopens)).1] at h
  | write block o =>
      rcases s.write_cases block o with ⟨_, hwrite⟩ | ⟨haccepts, _⟩
      · rwa [exec, hwrite] at h
      · simp only [accepts, Bool.and_eq_true] at haccepts
        exact haccepts.1.1.1.1
  | finish digest o =>
      rw [exec, finish_closes] at h
      cases h
  | abort =>
      rw [exec, abort_closes] at h
      cases h

/-- A successful `begin` starts an empty session of the announced size. -/
theorem begin_ok {s opened : OtaSink} {expectedSize : UInt32} {o : BeginOutcome}
    (h : s.begin expectedSize o = (.ok, opened)) :
    opened.written = 0 ∧ opened.expected = expectedSize ∧
      opened.sha = { active := true, absorbed := [] } := by
  unfold begin at h
  split at h
  · cases h
  · cases hpartition : o.partition <;> simp only [hpartition] at h
    · cases h
    · split at h
      · cases h
      · cases hbegin : o.otaBegin <;> simp only [hbegin] at h
        · cases h
        · cases hstarts : o.shaStarts <;> simp only [Sha256.begin, hstarts] at h <;> cases h
          exact ⟨rfl, rfl, rfl⟩

/-- `finish` makes the image bootable only in an open session of the right length, with a digest
of what was fed that equals the expected one. -/
theorem finish_boots {s : OtaSink} {digest : Option Digest} {o : FinishOutcome}
    (h : Effect.setBootPartition ∈ s.effects sha256 (.finish digest o)) :
    s.isOpen = true ∧ (s.expected > 0 → s.written = s.expected) ∧ s.sha.active = true ∧
      ∀ d, digest = some d → sha256 s.sha.absorbed = d := by
  simp only [effects, finish] at h
  split at h
  · simp at h
  split at h
  · simp at h
  rename_i hopen hlength
  have hsize : s.expected > 0 → s.written = s.expected := by
    intro hpos
    by_contra hne
    exact hlength ⟨hpos, hne⟩
  cases hactive : s.sha.active with
  | false => simp [Sha256.finish, hactive] at h
  | true =>
      refine ⟨by simpa using hopen, hsize, rfl, ?_⟩
      rintro d rfl
      cases hfinish : o.shaFinish with
      | false => simp [Sha256.finish, hactive, hfinish] at h
      | true =>
          by_contra hne
          have hdiffers : Hex.equal (sha256 s.sha.absorbed) d = false := by
            rw [← Bool.not_eq_true, Hex.equal_iff]
            exact hne
          simp [Sha256.finish, hactive, hfinish, hdiffers] at h

/-! ## The session invariant -/

/-- A block the flash took also reached the digest. -/
def Digested (s : OtaSink) : Call → Prop
  | .write block o => s.accepts block o = true → o.shaUpdate = true
  | _ => True

/-- With an announced size, a block the flash took does not carry the byte counter past its
width. -/
def Counted (s : OtaSink) : Call → Prop
  | .write block o =>
      s.accepts block o = true → s.expected > 0 → s.written.toNat + block.len < 2 ^ 32
  | _ => True

/-- What holds in a session of announced size `size` after `bytes` were accepted. -/
structure InSession (size : UInt32) (bytes : List UInt8) (s : OtaSink) : Prop where
  active : s.sha.active = true
  absorbed_eq : s.sha.absorbed = bytes
  expected_eq : s.expected = size
  written_eq : size > 0 → s.written.toNat = bytes.length

/-- The bytes a single write adds to the flash. -/
theorem accepted_write (s : OtaSink) (block : Buffer) (o : WriteOutcome) :
    s.accepted sha256 [.write block o] =
      if s.accepts block o then block.data.getD [] else [] := by
  rcases s.write_cases block o with ⟨haccepts, hwrite⟩ | ⟨haccepts, bytes, hdata, hwrite⟩
  · simp [accepted, effects, hwrite, haccepts]
  · simp [accepted, effects, hwrite, haccepts, hdata]

/-- A write in a session. -/
theorem write_step {s : OtaSink} {size : UInt32} {bytes : List UInt8} {block : Buffer}
    {o : WriteOutcome} (hsession : InSession size bytes s)
    (hdigested : s.Digested (.write block o)) (hcounted : s.Counted (.write block o)) :
    InSession size (bytes ++ s.accepted sha256 [.write block o]) (s.write block o).2.1 := by
  rw [accepted_write]
  rcases s.write_cases block o with ⟨haccepts, hwrite⟩ | ⟨haccepts, data, hdata, hwrite⟩
  · simpa [hwrite, haccepts] using hsession
  · have hlen : block.len ≠ 0 := by
      simp only [accepts, Bool.and_eq_true, decide_eq_true_eq] at haccepts
      exact haccepts.1.1.1.2
    have hupdate : s.sha.update block o.shaUpdate =
        (true, { s.sha with absorbed := s.sha.absorbed ++ data }) := by
      simp [Sha256.update, hsession.active, hdata, hlen, hdigested haccepts]
    simp only [hwrite, hupdate, haccepts, if_true, hdata, Option.getD_some]
    refine ⟨hsession.active, by rw [hsession.absorbed_eq], hsession.expected_eq, ?_⟩
    intro hpos
    have hroom := hcounted haccepts (hsession.expected_eq ▸ hpos)
    have hcount := hsession.written_eq hpos
    rw [UInt32.toNat_add, UInt32.toNat_ofNat', List.length_append, block.sized data hdata]
    omega

/-- While a session stays open, every call keeps its invariant. -/
theorem exec_step {s : OtaSink} {size : UInt32} {bytes : List UInt8} {call : Call}
    (hsession : InSession size bytes s) (hopens : s.opens call = false)
    (hdigested : s.Digested call) (hcounted : s.Counted call)
    (hopen : (s.exec sha256 call).isOpen = true) :
    InSession size (bytes ++ s.accepted sha256 [call]) (s.exec sha256 call) := by
  cases call with
  | begin expectedSize o =>
      have hbefore := isOpen_of_exec hopens hopen
      have hsame := (begin_failed (by simpa [opens] using hopens)).2 hbefore
      simpa [exec, hsame, accepted, effects] using hsession
  | write block o => exact write_step hsession hdigested hcounted
  | finish digest o =>
      rw [exec, finish_closes] at hopen
      cases hopen
  | abort =>
      rw [exec, abort_closes] at hopen
      cases hopen

/-! ## Whole runs -/

/-- The calls of a session in which every accepted block is digested and counted. -/
def Sound (sha256 : List UInt8 → Digest) : OtaSink → List Call → Prop
  | _, [] => True
  | s, call :: calls =>
      s.Digested call ∧ s.Counted call ∧ Sound sha256 (s.exec sha256 call) calls

/-- The calls of a session up to its end: none of them opens another. -/
def NoOpening (sha256 : List UInt8 → Digest) : OtaSink → List Call → Prop
  | _, [] => True
  | s, call :: calls => s.opens call = false ∧ NoOpening sha256 (s.exec sha256 call) calls

/-- A sink that is still open after some calls was open before them, unless one of them opened
it. -/
theorem isOpen_of_execAll {s : OtaSink} {calls : List Call} (hopening : NoOpening sha256 s calls)
    (h : (s.execAll sha256 calls).isOpen = true) : s.isOpen = true := by
  induction calls generalizing s with
  | nil => exact h
  | cons call calls ih => exact isOpen_of_exec hopening.1 (ih hopening.2 h)

/-- The session invariant over the calls of a sound session. -/
theorem execAll_session {s : OtaSink} {size : UInt32} {bytes : List UInt8} {calls : List Call}
    (hsession : InSession size bytes s) (hopening : NoOpening sha256 s calls)
    (hsound : Sound sha256 s calls) (hopen : (s.execAll sha256 calls).isOpen = true) :
    InSession size (bytes ++ s.accepted sha256 calls) (s.execAll sha256 calls) := by
  induction calls generalizing s bytes with
  | nil => simpa [accepted, execAll] using hsession
  | cons call calls ih =>
      -- Nothing reopens the sink, so this call left it open.
      have hmiddle := isOpen_of_execAll hopening.2 hopen
      have hstep := exec_step hsession hopening.1 hsound.1 hsound.2.1 hmiddle
      have hrest := ih hstep hopening.2 hsound.2.2 hopen
      simpa [accepted, execAll, List.append_assoc] using hrest

/-- One more call that opens nothing. -/
theorem noOpening_append {s : OtaSink} {calls : List Call} {call : Call}
    (hopening : NoOpening sha256 s calls)
    (hopens : (s.execAll sha256 calls).opens call = false) :
    NoOpening sha256 s (calls ++ [call]) := by
  induction calls generalizing s with
  | nil => exact ⟨hopens, trivial⟩
  | cons first calls ih => exact ⟨hopening.1, ih hopening.2 hopens⟩

/-- The sink after a session's calls. -/
theorem execAll_begin {s opened : OtaSink} {before during : List Call} {size : UInt32}
    {b : BeginOutcome} (h : (s.execAll sha256 before).begin size b = (.ok, opened)) :
    s.execAll sha256 (before ++ .begin size b :: during) = opened.execAll sha256 during := by
  have hopened : (s.execAll sha256 before).exec sha256 (.begin size b) = opened :=
    congrArg Prod.snd h
  simp only [execAll] at hopened ⊢
  rw [List.foldl_append, List.foldl_cons, hopened]

/-- An open sink has a last successful `begin`. -/
theorem last_begin {s : OtaSink} {calls : List Call} (hclosed : s.isOpen = false)
    (h : (s.execAll sha256 calls).isOpen = true) :
    ∃ before size b opened during, calls = before ++ .begin size b :: during ∧
      (s.execAll sha256 before).begin size b = (.ok, opened) ∧
      NoOpening sha256 opened during := by
  -- From the end: the last call opened the sink, or it was open before.
  induction calls using List.reverseRecOn with
  | nil => simp [execAll, hclosed] at h
  | append_singleton calls call ih =>
      have hsplit : s.execAll sha256 (calls ++ [call]) =
          (s.execAll sha256 calls).exec sha256 call := by
        simp [execAll]
      rw [hsplit] at h
      cases hopens : (s.execAll sha256 calls).opens call with
      | true =>
          cases call with
          | begin size b =>
              refine ⟨calls, size, b, _, [], rfl, Prod.ext ?_ rfl, trivial⟩
              simpa [opens] using hopens
          | write | finish | abort => simp [opens] at hopens
      | false =>
          obtain ⟨before, size, b, opened, during, rfl, hbegin, hduring⟩ :=
            ih (isOpen_of_exec hopens h)
          refine ⟨before, size, b, opened, during ++ [call], by simp, hbegin, ?_⟩
          rw [execAll_begin hbegin] at hopens
          exact noOpening_append hduring hopens

/-- Whenever `finish` makes an image bootable against an expected digest, a matching `begin`
opened the session, and if every block the flash took since was also digested and counted, the
flash holds exactly the bytes with that digest, as many as `begin` announced. -/
theorem boot_matches_digest (calls : List Call) (d : Digest) (o : FinishOutcome)
    (hboots : .setBootPartition ∈
      (OtaSink.execAll sha256 {} calls).effects sha256 (.finish (some d) o)) :
    ∃ before size b opened during, calls = before ++ .begin size b :: during ∧
      (OtaSink.execAll sha256 {} before).begin size b = (.ok, opened) ∧
      NoOpening sha256 opened during ∧
      (Sound sha256 opened during →
        sha256 (opened.accepted sha256 during) = d ∧
          (size > 0 → (opened.accepted sha256 during).length = size.toNat)) := by
  obtain ⟨hopen, hlength, _, hdigest⟩ := finish_boots hboots
  obtain ⟨before, size, b, opened, during, rfl, hbegin, hduring⟩ := last_begin rfl hopen
  refine ⟨before, size, b, opened, during, rfl, hbegin, hduring, ?_⟩
  intro hsound
  obtain ⟨hwritten, hexpected, hsha⟩ := begin_ok hbegin
  have hstart : InSession size [] opened :=
    ⟨by rw [hsha], by rw [hsha], hexpected, by simp [hwritten]⟩
  rw [execAll_begin hbegin] at hopen hlength hdigest
  have hend := execAll_session hstart hduring hsound hopen
  rw [List.nil_append] at hend
  refine ⟨hend.absorbed_eq ▸ hdigest d rfl, ?_⟩
  intro hpos
  have hcount := hlength (by rwa [hend.expected_eq])
  rw [← hend.written_eq hpos, hcount, hend.expected_eq]

/-! ## A block the flash took and the digest missed -/

/-- SHA-256 on the two images of the runs below, as `mbedtls_sha256` computes it. -/
def sampleSha256 (bytes : List UInt8) : Digest :=
  if bytes = [0xAA] then
    #v[188, 238, 246, 85, 181, 160, 52, 145, 31, 28, 55, 24, 206, 5, 101, 49,
      180, 94, 240, 59, 76, 123, 31, 21, 98, 158, 134, 114, 148, 1, 26, 125]
  else if bytes = [0xAA, 0xAA] then
    #v[79, 55, 124, 233, 6, 198, 244, 113, 61, 150, 143, 242, 216, 183, 185, 181,
      255, 208, 131, 55, 81, 200, 3, 14, 143, 99, 104, 253, 50, 42, 77, 233]
  else Vector.replicate sha256Bytes 0

/-- A block of one byte. -/
def sampleBlock : Buffer := ⟨some [0xAA], 1, by simp⟩

/-- A `begin` whose library calls all succeed. -/
def sampleBegin : Call := .begin 1 ⟨some ⟨4096⟩, some 1, true⟩

/-- One good write of the announced byte, then `finish`. -/
theorem boot_matches_digest_sample :
    ∃ before size b opened during,
      [sampleBegin, .write sampleBlock ⟨true, true⟩] = before ++ .begin size b :: during ∧
      (OtaSink.execAll sampleSha256 {} before).begin size b = (.ok, opened) ∧
      NoOpening sampleSha256 opened during ∧
      (Sound sampleSha256 opened during →
        sampleSha256 (opened.accepted sampleSha256 during) = sampleSha256 [0xAA] ∧
          (size > 0 → (opened.accepted sampleSha256 during).length = size.toNat)) :=
  boot_matches_digest [sampleBegin, .write sampleBlock ⟨true, true⟩] (sampleSha256 [0xAA])
    ⟨true, true, true⟩ (by decide +kernel)

/-- The flash takes the block, the digest update fails, and the caller retries. The digest and
the counter have seen the block once, so `finish` boots an image that holds it twice. -/
theorem boot_of_undigested_block :
    let calls := [sampleBegin, .write sampleBlock ⟨true, false⟩, .write sampleBlock ⟨true, true⟩]
    let image := OtaSink.accepted sampleSha256 {} calls
    (OtaSink.opens {} sampleBegin = true ∧ NoOpening sampleSha256
        (OtaSink.exec sampleSha256 {} sampleBegin) calls.tail) ∧
      .setBootPartition ∈ (OtaSink.execAll sampleSha256 {} calls).effects sampleSha256
        (.finish (some (sampleSha256 [0xAA])) ⟨true, true, true⟩) ∧
      ¬(sampleSha256 image = sampleSha256 [0xAA]) ∧ ¬(image.length = 1) := by
  refine ⟨⟨by decide +kernel, by decide +kernel, by decide +kernel, trivial⟩, ?_, ?_, ?_⟩ <;>
    decide +kernel

end FirmwareUpdater.OtaSink
