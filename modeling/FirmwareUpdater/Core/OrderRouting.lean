import FirmwareUpdater.Core.OrderCodec

/-!
# Orders for another project

The guard against another project's firmware spans two functions and a buffer.
`parse` copies the repo only where it fits and drops it otherwise, and `validate`
skips the check where nothing was copied. `misrouted_refused_iff` says which repo
strings the guard covers.
-/

namespace FirmwareUpdater.Order

/-- A repo string that survives the copy and still differs from the device's own. -/
def Guarded (r : List UInt8) (c : CString) : Prop :=
  0 < (CString.ofBytes r).length ∧ (CString.ofBytes r).length < maxRepoLen ∧ CString.ofBytes r ≠ c

/-- The order that `json` holds is parsed and accepted. -/
def parsedAndAccepted (deserializeJson : CString → Option JsonDocument) (json : CString)
    (out : UpdateOrder) (currentVersion currentRepo : Option CString) (slotBytes : UInt32)
    (lastUpdateId : Option CString) (allowDowngrade : Bool) : Prop :=
  (parse deserializeJson (some json) out).1 = .ok ∧
    validate (parse deserializeJson (some json) out).2 currentVersion currentRepo slotBytes
      lastUpdateId allowDowngrade = .none

/-- A string that fits is copied. -/
theorem copyField_fits {cap : Nat} {src : CString} (dst : Field cap) (hpos : 0 < src.length)
    (hfits : src.length < cap) : (copyField (some src) dst).2 = ⟨src, hfits⟩ := by
  simp [copyField, hpos.ne', hfits]

/-- A string that does not fit leaves the field as it was. -/
theorem copyField_dropped {cap : Nat} {src : CString} (dst : Field cap)
    (h : src.length = 0 ∨ cap ≤ src.length) : (copyField (some src) dst).2 = dst := by
  rcases h with hzero | hlarge
  · simp [copyField, hzero]
  · have hnot : ¬src.length < cap := not_lt.mpr hlarge
    simp only [copyField, hnot, dite_false]
    split <;> rfl

/-- The digest does not touch the repo. -/
theorem parseDigest_repo (doc : JsonDocument) (out : UpdateOrder) :
    (parseDigest doc out).2.repo = out.repo := by
  unfold parseDigest
  split
  · rfl
  · split <;> rfl

/-- The repo of a parsed order is what was copied into the empty field. -/
theorem parse_repo {deserializeJson : CString → Option JsonDocument} {json : CString}
    {doc : JsonDocument} {out : UpdateOrder} (hdoc : deserializeJson json = some doc)
    (hok : (parse deserializeJson (some json) out).1 = .ok) :
    (parse deserializeJson (some json) out).2.repo =
      (copyField (doc.text "repo") ({} : UpdateOrder).repo).2 := by
  unfold parse at hok ⊢
  simp only [Option.bind_some, hdoc] at hok ⊢
  split at hok
  · cases hok
  split at hok
  · cases hok
  split at hok
  · cases hok
  split at hok
  · cases hok
  split at hok
  · cases hok
  simp only [*, if_false, parseFlags, parseDigest_repo]
  simp

/-- An order that carries another repo is refused. -/
theorem validate_wrongRepo {o : UpdateOrder} {currentVersion lastUpdateId : Option CString}
    {c : CString} {slotBytes : UInt32} {allowDowngrade : Bool} (hc : c ≠ .empty)
    (hrepo : o.repo.text ≠ .empty) (hne : o.repo.text ≠ c) :
    validate o currentVersion (some c) slotBytes lastUpdateId allowDowngrade ≠ .none := by
  have hstarts : ∀ text : CString, text ≠ .empty → text.byteAt 0 ≠ 0 := by
    intro text hne
    rw [Ne, CString.byteAt_zero_eq_zero]
    intro hlength
    apply hne
    cases text
    simpa [CString.length, CString.empty] using hlength
  unfold validate
  split
  · simp
  split
  · simp
  rw [if_pos ⟨hstarts _ hrepo, by simp [hstarts _ hc, hne]⟩]
  simp

/-- A document that is complete but for its repo, which is `r`. -/
def orderFor (r : List UInt8) : JsonDocument where
  member key :=
    match key with
    | "update_id" | "url" => .string [97]
    | "target_version" => .string [49]
    | "repo" => .string r
    | "size_bytes" => .integer 1
    | "sha256" => .string (List.replicate 64 48)
    | _ => .null

/-- The digest of that document. -/
theorem parseDigest_orderFor (r : List UInt8) (out : UpdateOrder)
    (hout : out.sha256 = Vector.replicate sha256Bytes 0) :
    parseDigest (orderFor r) out = (true, { out with hasSha256 := true }) := by
  have hdecode : Hex.decode (CString.ofBytes (List.replicate 64 48))
      (Vector.replicate sha256Bytes 0) = (true, Vector.replicate sha256Bytes 0) := by
    decide +kernel
  have hstarts : (CString.ofBytes (List.replicate 64 48)).byteAt 0 ≠ 0 := by decide +kernel
  have htext : (orderFor r).text "sha256" = some (CString.ofBytes (List.replicate 64 48)) := rfl
  simp only [parseDigest, htext, if_neg hstarts, hout, hdecode]

/-- What `parse` makes of that document. -/
theorem parse_orderFor {deserializeJson : CString → Option JsonDocument} {json : CString}
    {r : List UInt8} (hdoc : deserializeJson json = some (orderFor r)) (out : UpdateOrder) :
    parse deserializeJson (some json) out =
      (.ok,
        { updateId := ⟨.ofBytes [97], by decide⟩
          targetVersion := ⟨.ofBytes [49], by decide⟩
          url := ⟨.ofBytes [97], by decide⟩
          repo := (copyField (some (CString.ofBytes r)) ({} : UpdateOrder).repo).2
          sizeBytes := 1
          hasSha256 := true }) := by
  have htext : (orderFor r).text "update_id" = some (CString.ofBytes [97]) ∧
      (orderFor r).text "target_version" = some (CString.ofBytes [49]) ∧
      (orderFor r).text "url" = some (CString.ofBytes [97]) ∧
      (orderFor r).text "repo" = some (CString.ofBytes r) ∧
      (orderFor r).integerOr "size_bytes" 0 = 1 := ⟨rfl, rfl, rfl, rfl, rfl⟩
  obtain ⟨hid, hversion, hurl, hrepo, hsize⟩ := htext
  have hcopy : ∀ (cap : Nat) (c : UInt8) (dst : Field cap) (hc : c ≠ 0) (hcap : 1 < cap),
      copyField (some (CString.ofBytes [c])) dst =
        (true, ⟨.ofBytes [c], by simpa [CString.ofBytes, CString.length, hc] using hcap⟩) := by
    intro cap c dst hc hcap
    simp [copyField, CString.ofBytes, CString.length, hc, hcap]
  simp only [parse, Option.bind_some, hdoc, hid, hversion, hurl, hrepo, hsize,
    hcopy maxIdLen 97 _ (by decide) (by decide), hcopy maxVersionLen 49 _ (by decide) (by decide),
    hcopy maxUrlLen 97 _ (by decide) (by decide), Bool.not_true, Bool.false_eq_true, if_false]
  rw [parseDigest_orderFor r _ rfl]
  rfl

/-- The document is accepted once its repo is dropped or reads as the device's own. -/
theorem orderFor_accepted {deserializeJson : CString → Option JsonDocument} {json : CString}
    {r : List UInt8} {c : CString} (hdoc : deserializeJson json = some (orderFor r))
    (h : ¬Guarded r c) :
    parsedAndAccepted deserializeJson json {} none (some c) 0 none true := by
  rw [parsedAndAccepted, parse_orderFor hdoc]
  refine ⟨rfl, ?_⟩
  have hid : (CString.ofBytes [97]).byteAt 0 ≠ 0 := by decide
  have hversion : (CString.ofBytes [49]).byteAt 0 ≠ 0 := by decide
  have hempty : CString.empty.byteAt 0 = 0 := rfl
  by_cases hdropped : (CString.ofBytes r).length = 0 ∨ maxRepoLen ≤ (CString.ofBytes r).length
  · rw [copyField_dropped _ hdropped]
    simp [validate, validateVersion, hid, hversion, hempty]
  · rw [not_or, not_le] at hdropped
    have hpos := Nat.pos_of_ne_zero hdropped.1
    have hsame : CString.ofBytes r = c := by
      by_contra hne
      exact h ⟨hpos, hdropped.2, hne⟩
    rw [copyField_fits _ hpos hdropped.2]
    simp [validate, validateVersion, hid, hversion, hsame]

/-- A guarded repo is refused whatever else the order and the device say. -/
theorem guarded_refused {r : List UInt8} {c : CString} (hc : c ≠ .empty) (h : Guarded r c)
    {deserializeJson : CString → Option JsonDocument} {json : CString} {doc : JsonDocument}
    (hdoc : deserializeJson json = some doc) (hrepo : doc.member "repo" = .string r)
    {out : UpdateOrder} {currentVersion lastUpdateId : Option CString} {slotBytes : UInt32}
    {allowDowngrade : Bool} :
    ¬parsedAndAccepted deserializeJson json out currentVersion (some c) slotBytes lastUpdateId
      allowDowngrade := by
  rintro ⟨hok, hnone⟩
  obtain ⟨hpos, hfits, hne⟩ := h
  have htext : doc.text "repo" = some (CString.ofBytes r) := by simp [JsonDocument.text, hrepo]
  have hfield := parse_repo hdoc hok
  rw [htext, copyField_fits _ hpos hfits] at hfield
  refine validate_wrongRepo hc ?_ ?_ hnone
  · rw [hfield]
    intro hempty
    have hempty : CString.ofBytes r = .empty := hempty
    simp [hempty, CString.length, CString.empty] at hpos
  · rwa [hfield]

/-- An order for the repo `r` is refused by a device of the repo `c`, whatever else the two say,
exactly when `r` fits its field and reads as something else than `c` there. -/
theorem misrouted_refused_iff (r : List UInt8) (c : CString) (hc : c ≠ .empty) :
    (∀ (deserializeJson : CString → Option JsonDocument) (json : CString) (doc : JsonDocument)
      (out : UpdateOrder) (currentVersion lastUpdateId : Option CString) (slotBytes : UInt32)
      (allowDowngrade : Bool),
      deserializeJson json = some doc → doc.member "repo" = .string r →
      ¬parsedAndAccepted deserializeJson json out currentVersion (some c) slotBytes lastUpdateId
        allowDowngrade) ↔
    0 < (CString.ofBytes r).length ∧ (CString.ofBytes r).length < maxRepoLen ∧
      CString.ofBytes r ≠ c := by
  constructor
  · intro hrefused
    by_contra hnot
    exact hrefused (fun _ => some (orderFor r)) .empty (orderFor r) _ _ _ _ _ rfl rfl
      (orderFor_accepted rfl hnot)
  · intro hguarded _ _ _ _ _ _ _ _ hdoc hrepo
    exact guarded_refused hc hguarded hdoc hrepo

/-- A repo of 64 bytes, one more than the field holds. -/
def longRepo : List UInt8 := List.replicate maxRepoLen 97

/-- An order for that repo, as it arrives. -/
def longRepoText : CString :=
  .ofBytes (String.toUTF8
    ("\x7b\"update_id\":\"a\",\"target_version\":\"1\",\"url\":\"a\",\"repo\":\"" ++
      String.ofList (List.replicate maxRepoLen 'a') ++
      "\",\"size_bytes\":1,\"sha256\":\"" ++ String.ofList (List.replicate 64 '0') ++
      "\"\x7d")).toList

/-- The library's parser on that text. -/
def longRepoDeserialize (json : CString) : Option JsonDocument :=
  if json = longRepoText then some (orderFor longRepo) else none

/-- A repo that fits is guarded, one that is a byte too long is not. -/
theorem misrouted_refused_iff_sample :
    (∀ (deserializeJson : CString → Option JsonDocument) (json : CString) (doc : JsonDocument)
      (out : UpdateOrder) (currentVersion lastUpdateId : Option CString) (slotBytes : UInt32)
      (allowDowngrade : Bool),
      deserializeJson json = some doc → doc.member "repo" = .string [97] →
      ¬parsedAndAccepted deserializeJson json out currentVersion (some (.ofBytes [98])) slotBytes
        lastUpdateId allowDowngrade) ∧
    ¬∀ (deserializeJson : CString → Option JsonDocument) (json : CString) (doc : JsonDocument)
      (out : UpdateOrder) (currentVersion lastUpdateId : Option CString) (slotBytes : UInt32)
      (allowDowngrade : Bool),
      deserializeJson json = some doc → doc.member "repo" = .string longRepo →
      ¬parsedAndAccepted deserializeJson json out currentVersion (some (.ofBytes [98])) slotBytes
        lastUpdateId allowDowngrade :=
  ⟨(misrouted_refused_iff [97] (.ofBytes [98]) (by decide)).mpr (by decide),
    fun hrefused =>
      absurd ((misrouted_refused_iff longRepo (.ofBytes [98]) (by decide)).mp hrefused)
        (by decide)⟩

/-- The 64-byte repo of another project is accepted. -/
theorem misrouted_accepted :
    longRepo ≠ [] ∧ (CString.ofBytes [98]).bytes ≠ longRepo ∧
      (∃ doc, longRepoDeserialize longRepoText = some doc ∧
        doc.member "repo" = .string longRepo) ∧
      parsedAndAccepted longRepoDeserialize longRepoText {} none (some (.ofBytes [98])) 0 none
        true := by
  have hdoc : longRepoDeserialize longRepoText = some (orderFor longRepo) := if_pos rfl
  exact ⟨by decide, by decide, ⟨orderFor longRepo, hdoc, rfl⟩,
    orderFor_accepted hdoc (by unfold Guarded; decide)⟩

end FirmwareUpdater.Order
