import FirmwareUpdater.Updater.PassMoves

/-!
# What the device boots

The sink alone can make an image bootable that its digest never saw: the block whose write
fails stays in the flash. The device never does, because any failed write gives the update
up. `Intact` is the invariant, and `booted_image_matches` says for every run what lies in the
update partition when it becomes the boot partition.
-/

namespace FirmwareUpdater

/-! ## One block -/

namespace OtaSink

variable {sha256 : List UInt8 → Digest}

/-- The bytes a write left in the flash. -/
theorem accepted_eq_flashed (s : OtaSink) (block : Buffer) (o : WriteOutcome) :
    s.accepted sha256 [.write block o] = Impl.flashed (s.write block o).2.2 := by
  simp only [accepted, effects, List.append_nil]
  rfl

/-- A write that succeeds kept the digest in step with the flash. -/
theorem digested_of_ok {s : OtaSink} {block : Buffer} {o : WriteOutcome}
    (hactive : s.sha.active = true) (hok : (s.write block o).1 = .ok) :
    s.Digested (.write block o) := by
  intro haccepts
  simp only [accepts, Bool.and_eq_true, decide_eq_true_eq] at haccepts
  obtain ⟨⟨⟨⟨hopen, hlen⟩, hsome⟩, hfits⟩, hwrite⟩ := haccepts
  obtain ⟨bytes, hdata⟩ := Option.isSome_iff_exists.mp hsome
  by_contra hupdate
  have hupdate : o.shaUpdate = false := by simpa using hupdate
  simp [write, hopen, hlen, hdata, hfits, hwrite, Sha256.update, hactive, hupdate] at hok

/-- A session goes on behind a write that succeeds and keeps the counter in its width. -/
theorem write_session {s : OtaSink} {size : UInt32} {bytes : List UInt8} {block : Buffer}
    {o : WriteOutcome} (hsession : InSession size bytes s) (hok : (s.write block o).1 = .ok)
    (hcounted : s.Counted (.write block o)) :
    InSession size (bytes ++ Impl.flashed (s.write block o).2.2) (s.write block o).2.1 := by
  have hstep : InSession size
      (bytes ++ s.accepted (fun _ => Vector.replicate sha256Bytes 0) [.write block o])
      (s.write block o).2.1 :=
    write_step hsession (digested_of_ok hsession.active hok) hcounted
  rwa [accepted_eq_flashed] at hstep

end OtaSink

namespace Order

/-- The digest does not touch the size. -/
theorem parseDigest_sizeBytes (doc : JsonDocument) (out : UpdateOrder) :
    (parseDigest doc out).2.sizeBytes = out.sizeBytes := by
  unfold parseDigest
  split
  · rfl
  · split <;> rfl

/-- A parsed order announces a size. -/
theorem parse_size {deserializeJson : CString → Option JsonDocument} {json : Option CString}
    {out order : UpdateOrder} (h : parse deserializeJson json out = (.ok, order)) :
    0 < order.sizeBytes := by
  unfold parse at h
  split at h
  · cases h
  dsimp only at h
  split at h
  · cases h
  split at h
  · cases h
  split at h
  · cases h
  split at h
  · cases h
  rename_i doc _ _ _ _ hsize
  split at h
  · cases h
  rw [not_or, not_le, not_lt] at hsize
  obtain rfl := (Prod.mk.inj h).2
  show 0 < (parseDigest doc _).2.sizeBytes
  rw [parseDigest_sizeBytes, UInt32.lt_iff_toNat_lt]
  show 0 < (UInt32.ofNat (doc.integerOr "size_bytes" 0).toNat).toNat
  rw [UInt32.toNat_ofNat']
  omega

end Order

namespace Impl

open Library

variable (v : Vendor)

/-! ## The session of a download -/

/-- What the sink has counted and digested is what the slot holds, there is room for the rest, and
the counter is far from its width. -/
structure Streaming (size : UInt32) (ota : OtaSink) (slot : List UInt8) : Prop where
  session : OtaSink.InSession size slot ota
  target : ∃ target, ota.target = some target ∧ size ≤ target.size ∧
    ota.written.toNat ≤ target.size.toNat ∧ target.size.toNat + kOtaChunkBuffer < 2 ^ 32

/-- A partition that leaves room for one more chunk below 4 GiB. -/
def saneFlash : Event → Prop
  | .pass i => ∀ target, i.ota.start.sink.partition = some target →
      target.size.toNat + kOtaChunkBuffer < 2 ^ 32
  | _ => True

/-- A sink that was opened streams nothing yet. -/
theorem begun_streaming {ota opened : OtaSink} {size : UInt32} {o : OtaSink.BeginOutcome}
    (hbegin : ota.begin size o = (.ok, opened))
    (hflash : ∀ target, o.partition = some target → target.size.toNat + kOtaChunkBuffer < 2 ^ 32) :
    Streaming size opened [] := by
  obtain ⟨hwritten, hexpected, hsha⟩ := OtaSink.begin_ok hbegin
  have htarget : ∃ target, o.partition = some target ∧ opened.target = some target ∧
      size ≤ target.size := by
    unfold OtaSink.begin at hbegin
    split at hbegin
    · cases hbegin
    · cases hpartition : o.partition <;> simp only [hpartition] at hbegin
      · cases hbegin
      · rename_i target
        split at hbegin
        · cases hbegin
        · rename_i hfits
          cases hota : o.otaBegin <;> simp only [hota] at hbegin
          · cases hbegin
          · split at hbegin <;> cases hbegin
            refine ⟨target, rfl, rfl, UInt32.not_lt.mp fun hlarge => hfits ⟨?_, hlarge⟩⟩
            rw [UInt32.lt_iff_toNat_lt] at hlarge
            exact UInt32.lt_iff_toNat_lt.mpr (Nat.zero_lt_of_lt hlarge)
  obtain ⟨target, hpartition, htarget, hsize⟩ := htarget
  refine ⟨⟨by rw [hsha], by rw [hsha], hexpected, by simp [hwritten]⟩, target, htarget, hsize, ?_,
    hflash target hpartition⟩
  simp [hwritten]

/-- A chunk that the sink took. -/
theorem chunk_streaming {size : UInt32} {ota : OtaSink} {slot bytes : List UInt8}
    {o : OtaSink.WriteOutcome} (h : Streaming size ota slot)
    (hfits : bytes.length ≤ kOtaChunkBuffer) (hok : (ota.write (chunk bytes) o).1 = .ok) :
    Streaming size (ota.write (chunk bytes) o).2.1
      (slot ++ flashed (ota.write (chunk bytes) o).2.2) := by
  obtain ⟨target, htarget, hsize, hwritten, hroom⟩ := h.target
  have hcounted : ota.Counted (.write (chunk bytes) o) := by
    intro _ _
    have hlen : (chunk bytes).len = bytes.length := rfl
    omega
  refine ⟨OtaSink.write_session h.session hok hcounted, target, ?_⟩
  rcases ota.write_cases (chunk bytes) o with ⟨-, hwrite⟩ | ⟨haccepts, data, -, hwrite⟩
  · rw [hwrite]
    exact ⟨htarget, hsize, hwritten, hroom⟩
  · rw [hwrite]
    dsimp only
    split
    · simp only [OtaSink.accepts, Bool.and_eq_true, OtaSink.fits, htarget,
        decide_eq_true_eq] at haccepts
      exact ⟨htarget, hsize, haccepts.1.2, hroom⟩
    · exact ⟨htarget, hsize, hwritten, hroom⟩

/-- All the chunks that it took. -/
theorem fed_streaming {size : UInt32} {ota ota' : OtaSink} {slot slot' : List UInt8}
    (hfed : Fed ota slot ota' slot') (h : Streaming size ota slot) : Streaming size ota' slot' := by
  induction hfed with
  | done => exact h
  | more hfits hok _ ih => exact ih (chunk_streaming h hfits hok)

/-! ## The invariant -/

/-- What an order that was accepted announces. -/
structure Announced (order : UpdateOrder) : Prop where
  hasSha256 : order.hasSha256 = true
  sizeBytes : 0 < order.sizeBytes
  updateId : order.updateId.text.byteAt 0 ≠ 0
  targetVersion : order.targetVersion.text.byteAt 0 ≠ 0

/-- What holds of the image in every state of a device. -/
structure Intact (d : Impl) : Prop where
  announced : d.updating = true → Announced d.order
  streaming : d.restarting = false → d.state = .downloading ∨ d.state = .verifying →
    Streaming d.order.sizeBytes d.ota d.slot
  booted : .bootPartitionSet ∈ d.emitted → d.order.hasSha256 = true ∧
    v.sha256 d.slot = d.order.sha256 ∧ d.slot.length = d.order.sizeBytes.toNat

/-- An accepted order announces everything. -/
theorem judge_announced {d : Impl} {order : UpdateOrder} (h : d.judge order = .none)
    (hsize : 0 < order.sizeBytes) : Announced order := by
  unfold judge Order.validate at h
  split at h
  · cases h
  rename_i hnamed
  rw [not_or, not_or] at hnamed
  split at h
  · cases h
  split at h
  · cases h
  split at h
  · split at h
    · cases h
    split at h
    · cases h
    · rename_i hdigest
      exact ⟨by simpa using hdigest, hsize, hnamed.1, hnamed.2.2⟩
  · rename_i hversion
    exact absurd h hversion

/-- What an order that is not carried out any more leaves to show. -/
theorem Intact.at_rest {d : Impl} (hstate : d.updating = false)
    (hbooted : .bootPartitionSet ∈ d.emitted → d.order.hasSha256 = true ∧
      v.sha256 d.slot = d.order.sha256 ∧ d.slot.length = d.order.sizeBytes.toNat) :
    Intact v d where
  announced h := absurd h (by rw [hstate]; simp)
  streaming _ h := by
    unfold updating at hstate
    rcases h with h | h <;> rw [h] at hstate <;> cases hstate
  booted := hbooted

/-- No image was made bootable where nothing but other effects came after a fresh start. -/
theorem not_booted {d : Impl} (hfresh : d.Fresh) {kinds : List Effect.Kind} {es : List Effect}
    (hes : Only kinds es) (hkinds : Effect.Kind.image ∉ kinds) :
    .bootPartitionSet ∉ d.emitted ++ es :=
  fun hmem => avoids_append hfresh.quiet hes hkinds _ hmem rfl

/-- What `finish` makes bootable is the image that was ordered. -/
theorem finished_boots {d : Impl} {o : OtaSink.FinishOutcome} (h : Intact v d) (hfresh : d.Fresh)
    (hstate : d.state = .verifying) (hboots : .setBootPartition ∈ (finished v d o).2.2) :
    d.order.hasSha256 = true ∧ v.sha256 d.slot = d.order.sha256 ∧
      d.slot.length = d.order.sizeBytes.toNat := by
  have hannounced := h.announced (by rw [updating, hstate])
  have hdigest := hannounced.hasSha256
  have hstreaming := h.streaming hfresh.running (.inr hstate)
  obtain ⟨-, hlength, -, hmatches⟩ := OtaSink.finish_boots hboots
  rw [hdigest] at hmatches
  have habsorbed := hmatches _ rfl
  rw [hstreaming.session.absorbed_eq] at habsorbed
  refine ⟨hdigest, habsorbed, ?_⟩
  have hexpected : 0 < d.ota.expected := by
    rw [hstreaming.session.expected_eq]
    exact hannounced.sizeBytes
  rw [← hstreaming.session.written_eq hannounced.sizeBytes, hlength hexpected,
    hstreaming.session.expected_eq]

/-- A boot starts without an order. -/
theorem boot_intact {nvs : Nvs} {cfg : Config} {o : BootAnswers} {d' : Impl}
    (hmove : BootMove nvs cfg o d') : Intact v d' := by
  cases hmove with
  | refused => exact .at_rest v rfl fun hmem => absurd hmem List.not_mem_nil
  | unopened => exact .at_rest v rfl fun hmem => absurd hmem List.not_mem_nil
  | booted _ _ hrestored =>
      refine .at_rest v ?_ fun hmem => absurd hmem List.not_mem_nil
      cases hrestored <;> rfl

/-- A message either leaves the update alone or brings an order that is complete. -/
theorem ingest_intact {d : Impl} (hfresh : d.Fresh) (m : Polled) (h : Intact v d) :
    Intact v (ingest v d m) := by
  rcases ingest_cases v d m with
    ⟨_, _, _, _, es, heq, -, hes⟩ | ⟨order, -, -, hparse, hjudge, heq⟩ <;> rw [heq]
  · exact ⟨h.announced, h.streaming, fun hmem => absurd hmem (not_booted hfresh hes (by decide))⟩
  · refine ⟨fun _ => judge_announced hjudge (Order.parse_size hparse), ?_, ?_⟩
    · intro _ hstate
      rcases hstate with hstate | hstate <;> cases hstate
    · intro hmem
      exact absurd rfl (hfresh.quiet _ hmem)

/-- A step of the update keeps the image intact. -/
theorem ota_intact {d d' : Impl} {i : Pass} (hflash : saneFlash (.pass i)) (hfresh : d.Fresh)
    (hmove : OtaMove v d i.now i.ota d') (h : Intact v d) : Intact v d' := by
  cases hmove with
  | idle => exact h
  | refused _ _ hes =>
      exact .at_rest v rfl fun hmem => absurd hmem (not_booted hfresh hes (by decide))
  | waits hstate _ _ hes =>
      refine ⟨fun _ => h.announced (by rw [updating, hstate]), fun _ hstate => ?_, fun hmem => ?_⟩
      · rcases hstate with hstate | hstate <;> cases hstate
      · exact absurd hmem (not_booted hfresh hes (by decide))
  | begun hready hbegun =>
      obtain ⟨_, _, _, _, ota, _, es, rfl, hbegin, -, -, -, hes, -⟩ := hbegun
      refine ⟨fun _ => h.announced ?_, fun _ _ => begun_streaming hbegin hflash, fun hmem => ?_⟩
      · rcases hready with ⟨hstate, -⟩ | ⟨hstate, -⟩ <;> rw [updating, hstate]
      · exact absurd hmem (not_booted hfresh hes (by decide))
  | fed hstate hfed =>
      refine ⟨h.announced, fun hrun _ => fed_streaming hfed (h.streaming hrun (.inl hstate)), ?_⟩
      exact fun hmem => absurd rfl (hfresh.quiet _ hmem)
  | complete hstate hfed _ hes =>
      refine ⟨fun _ => h.announced (by rw [updating, hstate]),
        fun hrun _ => fed_streaming hfed (h.streaming hrun (.inl hstate)), fun hmem => ?_⟩
      exact absurd hmem (not_booted hfresh hes (by decide))
  | givenUp _ hgiven hes hnoted =>
      obtain ⟨_, _, _, _, _, _, _, _, _, es', rfl, -, -, hes', -⟩ := hgiven
      refine .at_rest v rfl fun hmem => ?_
      rcases List.mem_append.mp hmem with hmem | hmem
      · rcases List.mem_append.mp hmem with hmem | hmem
        · exact absurd rfl (hfresh.quiet _ hmem)
        · obtain ⟨hstate, hslot, hnoted⟩ := hnoted hmem
          rw [hslot]
          exact finished_boots v h hfresh hstate (hnoted hmem)
      · exact absurd (hes' _ hmem) (by decide)
  | applied hstate happlied =>
      obtain ⟨nvs, es, rfl, -, -, hnoted, -⟩ := happlied
      refine ⟨fun _ => h.announced (by rw [updating, hstate]), fun hrun => ?_, fun hmem => ?_⟩
      · cases hrun
      · rcases List.mem_append.mp hmem with hmem | hmem
        · exact absurd rfl (hfresh.quiet _ hmem)
        · have hmatches := finished_boots v h hfresh hstate (hnoted hmem)
          exact hmatches

/-- A step of the confirmation leaves no order. -/
theorem confirm_intact {d d' : Impl} {now : UInt32} {i : ConfirmInput} (hfresh : d.Fresh)
    (hstate : d.state = .confirming) (hmove : ConfirmMove d now i d') (h : Intact v d) :
    Intact v d' := by
  have hquiet : Effect.bootPartitionSet ∉ d.emitted := fun hmem => hfresh.quiet _ hmem rfl
  have hrest : d.updating = false := by rw [updating, hstate]
  cases hmove with
  | waits => exact h
  | forgotten => exact .at_rest v rfl fun hmem => absurd hmem hquiet
  | reverted =>
      refine .at_rest v hrest fun hmem => ?_
      rcases List.mem_append.mp hmem with hmem | hmem
      · exact absurd hmem hquiet
      · cases List.mem_singleton.mp hmem
  | refused =>
      refine .at_rest v hrest fun hmem => ?_
      rcases List.mem_append.mp hmem with hmem | hmem
      · exact absurd hmem hquiet
      · cases List.mem_singleton.mp hmem
  | committed _ _ _ hes =>
      refine .at_rest v rfl fun hmem => ?_
      rcases List.mem_append.mp hmem with hmem | hmem
      · exact absurd hmem hquiet
      rcases List.mem_cons.mp hmem with hmem | hmem
      · cases hmem
      rcases List.mem_cons.mp hmem with hmem | hmem
      · cases hmem
      · exact absurd (hes _ hmem) (by decide)

/-- Neither does a step of the provisioning begin one. -/
theorem provision_intact {d d' : Impl} {now : UInt32} {i : ProvisionInput} (hfresh : d.Fresh)
    (hmove : ProvisionMove v d now i d') (h : Intact v d) : Intact v d' := by
  have hasked : ∀ url body, Effect.bootPartitionSet ∉ d.emitted ++ [.posted url body] := by
    intro url body
    have hes : Only [.request] [.posted url body] := .single (List.mem_singleton_self _)
    exact not_booted hfresh hes (by decide)
  cases hmove with
  | waits => exact ⟨h.announced, h.streaming, h.booted⟩
  | denied => exact .at_rest v rfl fun hmem => absurd hmem (hasked _ _)
  | granted => exact .at_rest v rfl fun hmem => absurd hmem (hasked _ _)

/-- Every event that answers with a sane flash keeps it. -/
theorem intact_kept : Kept v saneFlash (Intact v) where
  facing d flash h := ⟨h.announced, h.streaming, fun hmem => absurd hmem List.not_mem_nil⟩
  aside d d' haside h := by
    obtain ⟨_, _, _, _, _, _, _, _, _, _, es, rfl, hes⟩ := haside
    refine ⟨h.announced, h.streaming, fun hmem => ?_⟩
    rcases List.mem_append.mp hmem with hmem | hmem
    · exact h.booted hmem
    · exact absurd (hes _ hmem) (by decide)
  boot d cfg o d' _ hmove _ := boot_intact v hmove
  confirm d i d' _ hfresh hstate hmove h := confirm_intact v hfresh hstate hmove h
  provision d i d' _ hfresh _ _ hmove h := provision_intact v hfresh hmove h
  ingest d i m _ hfresh _ _ h := ingest_intact v hfresh m h
  ota d i d' hflash hfresh _ hmove h := ota_intact v hflash hfresh hmove h
  seed d nvs _ h := ⟨h.announced, h.streaming, h.booted⟩
  reset d flash _ h := ⟨h.announced, h.streaming, h.booted⟩

/-- Whenever the update partition becomes the boot partition, it holds exactly as many bytes as the
order in hand announced, with the digest of that order, whatever the links, the server, the flash
and the sink answered before: every failed write has given its download up. -/
theorem booted_image_matches {nvs : Nvs} {events : List Event} {d : Impl}
    (hrun : Run (Step v) { nvs } events d) (hflash : ∀ e ∈ events, saneFlash e)
    (hboots : .bootPartitionSet ∈ d.emitted) :
    d.order.hasSha256 = true ∧ v.sha256 d.slot = d.order.sha256 ∧
      d.slot.length = d.order.sizeBytes.toNat := by
  have hstart : Intact v { nvs } := .at_rest v rfl fun hmem => absurd hmem List.not_mem_nil
  exact ((intact_kept v).run hrun hflash hstart).booted hboots

/-- The sample device boots the one byte it was told to. -/
theorem booted_image_matches_sample :
    (after sampleVendor {} (sampleStart ++ sampleUpdate)).slot.length = 1 := by
  have hflash : ∀ e ∈ sampleStart ++ sampleUpdate, saneFlash e := by
    simp [sampleStart, sampleUpdate, saneFlash, samplePass, sampleProvisioning, kOtaChunkBuffer]
  have hmatches := booted_image_matches sampleVendor
    (run_after sampleVendor {} (sampleStart ++ sampleUpdate)) hflash (by decide +kernel)
  exact hmatches.2.2.trans (by decide +kernel)

end Impl

end FirmwareUpdater
