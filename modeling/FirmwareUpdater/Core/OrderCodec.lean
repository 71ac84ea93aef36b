import FirmwareUpdater.Core.Hex
import FirmwareUpdater.Core.Iso8601
import FirmwareUpdater.Core.Json
import FirmwareUpdater.Core.Types

/-!
# Update orders

`order::parse`, `order::compareVersions` and `order::validate`. A `const char*`
that may be null is an `Option CString`, and a `const char*&` that walks a string
is the part of it still ahead.
-/

namespace FirmwareUpdater

/-- `OrderRejection`. -/
inductive OrderRejection where
  | none
  | malformed
  | missingField
  | wrongRepo
  | sameVersion
  | downgrade
  | tooLarge
  | noSha256
  | duplicate
  deriving DecidableEq, Repr

namespace Order

/-- `copyField`: an absent, empty or oversized string leaves the field as it was. -/
def copyField {cap : Nat} (src : Option CString) (dst : Field cap) : Bool × Field cap :=
  match src with
  | .none => (false, dst)
  | some src =>
      if src.length = 0 then (false, dst)
      else if h : src.length < cap then (true, ⟨src, h⟩)
      else (false, dst)

/-- The part of `parse` from `sha256` on: an empty digest counts as absent. -/
def parseDigest (doc : JsonDocument) (out : UpdateOrder) : Bool × UpdateOrder :=
  match doc.text "sha256" with
  | .none => (true, out)
  | some sha =>
      if sha.byteAt 0 = 0 then (true, out)
      else
        let (decoded, sha256) := Hex.decode sha out.sha256
        (decoded, { out with sha256, hasSha256 := decoded })

/-- The part of `parse` after the digest. An issue time that does not parse stays absent. -/
def parseFlags (doc : JsonDocument) (out : UpdateOrder) : UpdateOrder :=
  { out with
    mandatory := doc.boolOr "mandatory" false
    requiresButton := doc.boolOr "requires_button" true
    issuedAt := ((doc.text "issued_at").bind Iso8601.parse).getD out.issuedAt }

/-- `parse`, where `deserializeJson` is the library's parser. A failing call leaves in `out` what
was read so far. -/
def parse (deserializeJson : CString → Option JsonDocument) (json : Option CString)
    (out : UpdateOrder) : CodecError × UpdateOrder :=
  match json.bind deserializeJson with
  | .none => (.malformedJson, out)
  | some doc =>
      let out : UpdateOrder := {}
      let (copied, updateId) := copyField (doc.text "update_id") out.updateId
      let out := { out with updateId }
      if !copied then (.missingField, out)
      else
        let (copied, targetVersion) := copyField (doc.text "target_version") out.targetVersion
        let out := { out with targetVersion }
        if !copied then (.missingField, out)
        else
          let (copied, url) := copyField (doc.text "url") out.url
          let out := { out with url }
          if !copied then (.missingField, out)
          else
            -- The result of this copy is not looked at.
            let out := { out with repo := (copyField (doc.text "repo") out.repo).2 }
            let size := doc.integerOr "size_bytes" 0
            if size ≤ 0 ∨ size > 0x7FFFFFFF then (.badValue, out)
            else
              let out := { out with sizeBytes := UInt32.ofNat size.toNat }
              let (decoded, out) := parseDigest doc out
              if !decoded then (.badValue, out) else (.ok, parseFlags doc out)

/-- `nextComponent`: one dotted component and what is left after its separator, or `-1` where
there is no number. -/
def nextComponent (p : CString) : Int × CString :=
  if p.byteAt 0 = 0 then (-1, p)
  else
    let (v, consumed) := strtol p
    if consumed = 0 then (-1, p)
    else
      let rest := p.drop consumed
      (v, if rest.byteAt 0 = 46 then rest.drop 1 else rest)

/-- A component never gives text back, and a number takes some. -/
theorem nextComponent_length (p : CString) :
    (nextComponent p).2.length ≤ p.length ∧
      (0 ≤ (nextComponent p).1 → (nextComponent p).2.length < p.length) := by
  unfold nextComponent
  split
  · simp
  · rename_i hstart
    rw [CString.byteAt_zero_eq_zero] at hstart
    dsimp only
    split
    · simp
    · split
      · simp only [CString.length_drop]
        omega
      · simp only [CString.length_drop]
        omega

/-- The loop of `compareVersions`. -/
def compareFrom (a b : CString) : Int :=
  if a.byteAt 0 ≠ 0 ∨ b.byteAt 0 ≠ 0 then
    let va := (nextComponent a).1
    let vb := (nextComponent b).1
    if hboth : va < 0 ∧ vb < 0 then 0
    else
      let la := if va < 0 then 0 else va
      let lb := if vb < 0 then 0 else vb
      if la ≠ lb then if la < lb then -1 else 1
      else compareFrom (nextComponent a).2 (nextComponent b).2
  else 0
termination_by a.length + b.length
decreasing_by
  have ha := nextComponent_length a
  have hb := nextComponent_length b
  rcases not_and_or.mp hboth with hva | hvb
  · have := ha.2 (not_lt.mp hva)
    omega
  · have := hb.2 (not_lt.mp hvb)
    omega

/-- `compareVersions`. -/
def compareVersions (a b : Option CString) : Int :=
  match a, b with
  | some a, some b => compareFrom a b
  | _, _ => 0

/-- The version check of `validate`. -/
def validateVersion (o : UpdateOrder) (currentVersion : Option CString) (allowDowngrade : Bool) :
    OrderRejection :=
  if currentVersion.any fun version => version.byteAt 0 ≠ 0 then
    let cmp := compareVersions (some o.targetVersion.text) currentVersion
    if cmp = 0 then .sameVersion
    else if cmp < 0 ∧ !allowDowngrade then .downgrade
    else .none
  else .none

/-- `validate`. -/
def validate (o : UpdateOrder) (currentVersion currentRepo : Option CString) (slotBytes : UInt32)
    (lastUpdateId : Option CString) (allowDowngrade : Bool) : OrderRejection :=
  if o.updateId.text.byteAt 0 = 0 ∨ o.url.text.byteAt 0 = 0 ∨ o.targetVersion.text.byteAt 0 = 0 then
    .missingField
  else if lastUpdateId.any fun last => last.byteAt 0 ≠ 0 ∧ o.updateId.text = last then .duplicate
  else if o.repo.text.byteAt 0 ≠ 0 ∧
      currentRepo.any fun repo => repo.byteAt 0 ≠ 0 ∧ o.repo.text ≠ repo then
    .wrongRepo
  else
    match validateVersion o currentVersion allowDowngrade with
    | .none =>
        if slotBytes > 0 ∧ o.sizeBytes > slotBytes then .tooLarge
        else if !o.hasSha256 then .noSha256
        else .none
    | rejection => rejection

end Order

end FirmwareUpdater
