import Mathlib.Data.List.TakeDrop
import FirmwareUpdater.Core.CLib
import FirmwareUpdater.Core.Types

/-!
# The topics of a device

`TopicResolver`: the three topic strings, from provisioning, from the overrides
of the configuration or from the scheme. No string is as long as `INT_MAX`, so
`snprintf` returns the length of what it was asked to print.

`refused_grants_nothing_iff` says when a `build` that fails leaves nothing
behind, `built_exact_iff` when one that succeeds follows the precedence of the
three sources.
-/

namespace FirmwareUpdater

/-- `MqttTopicScheme`. -/
inductive MqttTopicScheme where
  | pdf
  | slugEnvRet
  deriving DecidableEq

/-- `TopicConfig`; none is a null pointer. -/
structure TopicConfig where
  scheme : MqttTopicScheme := .pdf
  projectSlug : Option CString := none
  tPing : Option CString := none
  tUpdate : Option CString := none
  tConfig : Option CString := none

/-- A topic buffer, empty. -/
def noTopic : Field maxTopicLen := .empty (by decide)

/-- The fields of a `TopicResolver`. -/
structure TopicResolver where
  ping : Field maxTopicLen := noTopic
  update : Field maxTopicLen := noTopic
  config : Field maxTopicLen := noTopic

/-- `setTopic`. -/
def setTopic {cap : Nat} (dst : Field cap) : Option CString → Bool × Field cap
  | none => (false, dst)
  | some value =>
      if value.byteAt 0 = 0 then (false, dst)
      else if h : value.length < cap then (true, ⟨value, h⟩)
      else (false, dst)

/-- `formatTopic`: whatever fits is written, also when not everything does. -/
def formatTopic (before id : CString) : Bool × Field maxTopicLen :=
  let n := (before.append id).length
  (0 < n ∧ n < maxTopicLen, .print (by decide) (before.append id))

/-- A literal of the source as a string. -/
def literal (text : String) (h : 0 ∉ ascii text := by decide +kernel) : CString := ⟨ascii text, h⟩

namespace TopicResolver

/-- `kPdfPing`. -/
def kPdfPing : CString := literal "/ping/"

/-- `kPdfUpdate`. -/
def kPdfUpdate : CString := literal "/update/"

/-- `kPdfConfig`. -/
def kPdfConfig : CString := literal "/config/"

/-- The overrides, up to the first one that is not taken. -/
def setOverrides (r : TopicResolver) (cfg : TopicConfig) : Bool × TopicResolver :=
  let (ok, ping) := setTopic r.ping cfg.tPing
  let r := { r with ping := ping }
  if !ok then (false, r)
  else
    let (ok, update) := setTopic r.update cfg.tUpdate
    let r := { r with update := update }
    if !ok then (false, r)
    else
      let (ok, config) := setTopic r.config cfg.tConfig
      (ok, { r with config := config })

/-- The `prefix` of `SlugEnvRet`: what its 64 bytes hold of the slug and what goes behind it. -/
def slugBefore (slug after : CString) : Field 64 := .print (by decide) (slug.append after)

/-- `build` with `SlugEnvRet` and a slug. -/
def buildSlugEnvRet (r : TopicResolver) (slug id : CString) : Bool × TopicResolver :=
  let (ok, ping) := formatTopic (slugBefore slug (literal "/ret/")).text id
  let r := { r with ping := ping }
  if !ok then (false, r)
  else
    let (ok, base) := formatTopic (slugBefore slug (literal "/env/")).text id
    if !ok then (false, r)
    else
      (true, { r with
        update := .print (by decide) (base.text.append (literal "/update"))
        config := .print (by decide) (base.text.append (literal "/config")) })

/-- `build` with `Pdf`. -/
def buildPdf (r : TopicResolver) (id : CString) : Bool × TopicResolver :=
  let (ok, ping) := formatTopic kPdfPing id
  let r := { r with ping := ping }
  if !ok then (false, r)
  else
    let (ok, update) := formatTopic kPdfUpdate id
    let r := { r with update := update }
    if !ok then (false, r)
    else
      let (ok, config) := formatTopic kPdfConfig id
      (ok, { r with config := config })

/-- `build`. -/
def build (r : TopicResolver) (cfg : TopicConfig) (deviceId : Option CString) :
    Bool × TopicResolver :=
  let r := { r with ping := noTopic, update := noTopic, config := noTopic }
  let (hasOverrides, r) := r.setOverrides cfg
  if hasOverrides then (true, r)
  else
    match deviceId with
    | none => (false, r)
    | some id =>
        if id.byteAt 0 = 0 then (false, r)
        else
          match cfg.scheme with
          | .slugEnvRet =>
              match cfg.projectSlug with
              | none => (false, r)
              | some slug =>
                  if slug.byteAt 0 = 0 then (false, r) else r.buildSlugEnvRet slug id
          | .pdf => r.buildPdf id

/-- `applyProvisioned`. -/
def applyProvisioned (r : TopicResolver) (p : Provisioning) : TopicResolver where
  ping := (setTopic r.ping (some p.topicPing.text)).2
  update := (setTopic r.update (some p.topicUpdate.text)).2
  config := (setTopic r.config (some p.topicConfig.text)).2

/-- `ready`. -/
def ready (r : TopicResolver) : Bool := r.ping.text.byteAt 0 ≠ 0

/-- `mayPublish`. -/
def mayPublish (r : TopicResolver) : Option CString → Bool
  | none => false
  | some topic => if r.ping.text.byteAt 0 = 0 then false else topic = r.ping.text

end TopicResolver

/-- A text that is there and not empty. -/
def Given (text : Option CString) : Prop := ∃ value, text = some value ∧ value.length ≠ 0

/-- An override that `setTopic` takes: given, and short enough for the buffer. -/
def Taken (text : Option CString) : Prop :=
  ∃ value, text = some value ∧ value.length ≠ 0 ∧ value.length < maxTopicLen

namespace TopicConfig

/-- All three topics are overridden. -/
def Overridden (cfg : TopicConfig) : Prop :=
  Taken cfg.tPing ∧ Taken cfg.tUpdate ∧ Taken cfg.tConfig

/-- The scheme needs a slug, and there is none. -/
def SlugMissing (cfg : TopicConfig) : Prop := cfg.scheme = .slugEnvRet ∧ ¬Given cfg.projectSlug

/-- The scheme's strings fit their buffers as `build` checks them: the slug is cut to the 63 bytes
of its own buffer first. -/
def Fits (cfg : TopicConfig) (id : CString) : Prop :=
  match cfg.scheme with
  | .pdf => id.length + 8 < maxTopicLen
  | .slugEnvRet =>
      ∃ slug, cfg.projectSlug = some slug ∧ slug.length ≠ 0 ∧
        min (slug.length + 5) 63 + id.length < maxTopicLen

end TopicConfig

/-- `setTopic` stores the text or leaves the buffer alone. -/
theorem setTopic_cases (dst : Field maxTopicLen) (text : Option CString) :
    (Taken text ∧ (setTopic dst text).1 = true ∧ text = some (setTopic dst text).2.text) ∨
      (¬Taken text ∧ setTopic dst text = (false, dst)) := by
  cases text with
  | none =>
      refine .inr ⟨?_, rfl⟩
      rintro ⟨value, hvalue, -⟩
      cases hvalue
  | some value =>
      have hset : setTopic dst (some value) = if value.byteAt 0 = 0 then (false, dst)
          else if h : value.length < maxTopicLen then (true, ⟨value, h⟩) else (false, dst) := rfl
      rw [hset]
      by_cases hempty : value.byteAt 0 = 0
      · refine .inr ⟨?_, if_pos hempty⟩
        rintro ⟨value', hvalue, hne, -⟩
        cases hvalue
        exact hne ((CString.byteAt_zero_eq_zero value).mp hempty)
      · rw [if_neg hempty]
        by_cases hfits : value.length < maxTopicLen
        · rw [dif_pos hfits]
          refine .inl ⟨⟨value, rfl, ?_, hfits⟩, rfl, rfl⟩
          exact fun h => hempty ((CString.byteAt_zero_eq_zero value).mpr h)
        · rw [dif_neg hfits]
          refine .inr ⟨?_, rfl⟩
          rintro ⟨value', hvalue, -, hlt⟩
          cases hvalue
          exact hfits hlt

namespace TopicResolver

/-- The overrides are all stored, or the ping topic shows whether the first one was. -/
theorem setOverrides_cases (cfg : TopicConfig) :
    (cfg.Overridden ∧ (setOverrides {} cfg).1 = true ∧
        cfg.tPing = some (setOverrides {} cfg).2.ping.text ∧
        cfg.tUpdate = some (setOverrides {} cfg).2.update.text ∧
        cfg.tConfig = some (setOverrides {} cfg).2.config.text) ∨
      (¬cfg.Overridden ∧ (setOverrides {} cfg).1 = false ∧
        (Taken cfg.tPing → cfg.tPing = some (setOverrides {} cfg).2.ping.text) ∧
        (¬Taken cfg.tPing → (setOverrides {} cfg).2 = {})) := by
  rw [setOverrides]
  rcases setTopic_cases noTopic cfg.tPing with ⟨hping, hok, heq⟩ | ⟨hping, hrefused⟩
  · rcases setTopic_cases noTopic cfg.tUpdate with ⟨hupdate, hok', heq'⟩ | ⟨hupdate, hrefused⟩
    · rcases setTopic_cases noTopic cfg.tConfig with ⟨hconfig, hok'', heq''⟩ | ⟨hconfig, hrefused⟩
      · refine .inl ⟨⟨hping, hupdate, hconfig⟩, ?_⟩
        simp only [hok, hok', hok'', Bool.not_true, Bool.false_eq_true, if_false]
        exact ⟨trivial, heq, heq', heq''⟩
      · refine .inr ⟨fun h => hconfig h.2.2, ?_⟩
        simp only [hok, hok', hrefused, Bool.not_true, Bool.false_eq_true, if_false]
        exact ⟨trivial, fun _ => heq, fun h => absurd hping h⟩
    · refine .inr ⟨fun h => hupdate h.2.1, ?_⟩
      simp only [hok, hrefused, Bool.not_true, Bool.not_false, Bool.false_eq_true, if_false,
        if_true]
      exact ⟨trivial, fun _ => heq, fun h => absurd hping h⟩
  · refine .inr ⟨fun h => hping h.1, ?_⟩
    simp only [hrefused, Bool.not_false, if_true]
    exact ⟨trivial, fun h => absurd h hping, fun _ => trivial⟩

/-- `formatTopic` writes what fits, and says whether that was everything. -/
theorem formatTopic_spec (before : CString) {id : CString} (hid : id.length ≠ 0) :
    ((formatTopic before id).1 = true ↔ before.length + id.length < maxTopicLen) ∧
      (formatTopic before id).2.text.bytes =
        (before.bytes ++ id.bytes).take (maxTopicLen - 1) := by
  refine ⟨?_, rfl⟩
  have hlength : (before.append id).length = before.length + id.length := List.length_append
  show decide _ = true ↔ _
  rw [decide_eq_true_eq, hlength]
  omega

/-- What `formatTopic` writes is not empty. -/
theorem formatTopic_nonempty (before : CString) {id : CString} (hid : id.length ≠ 0) :
    (formatTopic before id).2.text.length ≠ 0 := by
  have hid' : id.bytes.length ≠ 0 := hid
  rw [CString.length, (formatTopic_spec before hid).2, List.length_take, List.length_append,
    maxTopicLen]
  omega

/-- What the scheme `Pdf` leaves. -/
theorem buildPdf_spec (r : TopicResolver) {id : CString} (hid : id.length ≠ 0) :
    ((r.buildPdf id).1 = true ↔ id.length + 8 < maxTopicLen) ∧
      (r.buildPdf id).2.ping.text.length ≠ 0 := by
  have hping : (formatTopic kPdfPing id).1 = true ↔ 6 + id.length < maxTopicLen :=
    (formatTopic_spec _ hid).1
  have hupdate : (formatTopic kPdfUpdate id).1 = true ↔ 8 + id.length < maxTopicLen :=
    (formatTopic_spec _ hid).1
  have hconfig : (formatTopic kPdfConfig id).1 = true ↔ 8 + id.length < maxTopicLen :=
    (formatTopic_spec _ hid).1
  have hne := formatTopic_nonempty kPdfPing hid
  simp only [buildPdf]
  cases hok : (formatTopic kPdfPing id).1 with
  | false =>
      rw [hok] at hping
      simp only [Bool.not_false, if_true]
      refine ⟨⟨fun h => absurd h Bool.false_ne_true, fun h => ?_⟩, hne⟩
      exact hping.mpr (by omega)
  | true =>
      cases hok' : (formatTopic kPdfUpdate id).1 with
      | false =>
          rw [hok'] at hupdate
          simp only [Bool.not_true, Bool.not_false, Bool.false_eq_true, if_true, if_false]
          refine ⟨⟨fun h => h.elim, fun h => ?_⟩, hne⟩
          exact absurd (hupdate.mpr (by omega)) Bool.false_ne_true
      | true =>
          simp only [Bool.not_true, Bool.false_eq_true, if_false]
          refine ⟨?_, hne⟩
          rw [hconfig, Nat.add_comm]

/-- With room for the longest of them, `Pdf` leaves its three strings. -/
theorem buildPdf_text (r : TopicResolver) {id : CString} (hid : id.length ≠ 0)
    (hroom : id.length + 8 < maxTopicLen) :
    (r.buildPdf id).2.ping.text.bytes = kPdfPing.bytes ++ id.bytes ∧
      (r.buildPdf id).2.update.text.bytes = kPdfUpdate.bytes ++ id.bytes ∧
      (r.buildPdf id).2.config.text.bytes = kPdfConfig.bytes ++ id.bytes := by
  have hok (before : CString) (h : before.length ≤ 8) :
      (formatTopic before id).1 = true ∧
        (formatTopic before id).2.text.bytes = before.bytes ++ id.bytes := by
    obtain ⟨hiff, hbytes⟩ := formatTopic_spec before hid
    have hlt : before.length + id.length < maxTopicLen := by omega
    refine ⟨hiff.mpr hlt, ?_⟩
    rw [hbytes, List.take_of_length_le]
    rw [List.length_append]
    exact Nat.le_pred_of_lt hlt
  obtain ⟨hping, hpingBytes⟩ := hok kPdfPing (by decide)
  obtain ⟨hupdate, hupdateBytes⟩ := hok kPdfUpdate (by decide)
  obtain ⟨-, hconfigBytes⟩ := hok kPdfConfig (by decide)
  simp only [buildPdf, hping, hupdate, Bool.not_true, Bool.false_eq_true, if_false]
  exact ⟨hpingBytes, hupdateBytes, hconfigBytes⟩

/-- The slug and the five bytes behind it, as far as their buffer holds them. -/
theorem length_slugBefore (slug : CString) {after : CString} (hafter : after.length = 5) :
    (slugBefore slug after).text.length = min (slug.length + 5) 63 := by
  show (List.take 63 (slug.bytes ++ after.bytes)).length = _
  rw [List.length_take, List.length_append, Nat.min_comm]
  exact congrArg (min · 63) (congrArg (slug.bytes.length + ·) hafter)

/-- What the scheme `SlugEnvRet` leaves. Its second check cannot fail where its first one did
not. -/
theorem buildSlugEnvRet_spec (r : TopicResolver) (slug : CString) {id : CString}
    (hid : id.length ≠ 0) :
    ((r.buildSlugEnvRet slug id).1 = true ↔ min (slug.length + 5) 63 + id.length < maxTopicLen) ∧
      (r.buildSlugEnvRet slug id).2.ping.text.length ≠ 0 := by
  have hok (after : CString) (hafter : after.length = 5) :
      (formatTopic (slugBefore slug after).text id).1 = true ↔
        min (slug.length + 5) 63 + id.length < maxTopicLen := by
    rw [(formatTopic_spec _ hid).1, length_slugBefore slug hafter]
  have hret := hok (literal "/ret/") rfl
  have henv := hok (literal "/env/") rfl
  simp only [buildSlugEnvRet]
  by_cases hfits : min (slug.length + 5) 63 + id.length < maxTopicLen
  · simp only [hret.mpr hfits, henv.mpr hfits, Bool.not_true, Bool.false_eq_true, if_false]
    exact ⟨iff_of_true trivial hfits, formatTopic_nonempty _ hid⟩
  · have hrefused := eq_false_of_ne_true fun h => hfits (hret.mp h)
    simp only [hrefused, Bool.not_false, if_true]
    exact ⟨iff_of_false Bool.false_ne_true hfits, formatTopic_nonempty _ hid⟩

/-- With room for the longest of them, `SlugEnvRet` leaves its three strings, behind what its buffer
holds of the slug. -/
theorem buildSlugEnvRet_text (r : TopicResolver) (slug : CString) {id : CString}
    (hid : id.length ≠ 0) (hroom : min (slug.length + 5) 63 + id.length + 7 < maxTopicLen) :
    (r.buildSlugEnvRet slug id).2.ping.text.bytes =
        (slug.bytes ++ ascii "/ret/").take 63 ++ id.bytes ∧
      (r.buildSlugEnvRet slug id).2.update.text.bytes =
        (slug.bytes ++ ascii "/env/").take 63 ++ id.bytes ++ ascii "/update" ∧
      (r.buildSlugEnvRet slug id).2.config.text.bytes =
        (slug.bytes ++ ascii "/env/").take 63 ++ id.bytes ++ ascii "/config" := by
  have hok (after : CString) (hafter : after.length = 5) :
      (formatTopic (slugBefore slug after).text id).1 = true ∧
        (formatTopic (slugBefore slug after).text id).2.text.bytes
          = (slug.bytes ++ after.bytes).take 63 ++ id.bytes := by
    obtain ⟨hiff, hbytes⟩ := formatTopic_spec (slugBefore slug after).text hid
    have hlength := length_slugBefore slug hafter
    refine ⟨hiff.mpr (by omega), ?_⟩
    rw [hbytes, List.take_of_length_le]
    · rfl
    · rw [List.length_append]
      show CString.length _ + id.length ≤ _
      omega
  obtain ⟨hret, hretBytes⟩ := hok (literal "/ret/") rfl
  obtain ⟨henv, henvBytes⟩ := hok (literal "/env/") rfl
  simp only [buildSlugEnvRet, hret, henv, Bool.not_true, Bool.false_eq_true, if_false]
  have hprint (base tail : CString) (h : base.length + tail.length < maxTopicLen) :
      (Field.print (by decide) (base.append tail) : Field maxTopicLen).text.bytes =
        base.bytes ++ tail.bytes := by
    show List.take (maxTopicLen - 1) (base.bytes ++ tail.bytes) = _
    rw [List.take_of_length_le]
    rw [List.length_append]
    exact Nat.le_pred_of_lt h
  have hbase : (formatTopic (slugBefore slug (literal "/env/")).text id).2.text.length =
      min (slug.length + 5) 63 + id.length := by
    rw [CString.length, henvBytes, List.length_append]
    exact congrArg (· + id.length) (length_slugBefore slug rfl)
  refine ⟨hretBytes, ?_, ?_⟩
  · rw [hprint _ _ (by rw [hbase]; exact hroom), henvBytes]
    rfl
  · rw [hprint _ _ (by rw [hbase]; exact hroom), henvBytes]
    rfl

/-- The exits of `build`: the overrides, a missing id or slug, or one of the two schemes. -/
theorem build_cases (r : TopicResolver) (cfg : TopicConfig) (deviceId : Option CString) :
    (cfg.Overridden ∧ r.build cfg deviceId = (true, (setOverrides {} cfg).2)) ∨
      (¬cfg.Overridden ∧ (¬Given deviceId ∨ cfg.SlugMissing) ∧
        r.build cfg deviceId = (false, (setOverrides {} cfg).2)) ∨
      (¬cfg.Overridden ∧ ∃ id, deviceId = some id ∧ id.length ≠ 0 ∧
        ((cfg.scheme = .pdf ∧ r.build cfg deviceId = (setOverrides {} cfg).2.buildPdf id) ∨
          ∃ slug, cfg.scheme = .slugEnvRet ∧ cfg.projectSlug = some slug ∧ slug.length ≠ 0 ∧
            r.build cfg deviceId = (setOverrides {} cfg).2.buildSlugEnvRet slug id)) := by
  have hbuild : r.build cfg deviceId =
      if (setOverrides {} cfg).1 then (true, (setOverrides {} cfg).2)
      else
        match deviceId with
        | none => (false, (setOverrides {} cfg).2)
        | some id =>
            if id.byteAt 0 = 0 then (false, (setOverrides {} cfg).2)
            else
              match cfg.scheme with
              | .slugEnvRet =>
                  match cfg.projectSlug with
                  | none => (false, (setOverrides {} cfg).2)
                  | some slug =>
                      if slug.byteAt 0 = 0 then (false, (setOverrides {} cfg).2)
                      else (setOverrides {} cfg).2.buildSlugEnvRet slug id
              | .pdf => (setOverrides {} cfg).2.buildPdf id := rfl
  have hmissing {text : CString} (h : text.byteAt 0 = 0) : ¬Given (some text) := by
    rintro ⟨value, hvalue, hne⟩
    cases hvalue
    exact hne ((CString.byteAt_zero_eq_zero text).mp h)
  have hthere {text : CString} (h : ¬text.byteAt 0 = 0) : text.length ≠ 0 :=
    fun hzero => h ((CString.byteAt_zero_eq_zero text).mpr hzero)
  rw [hbuild]
  rcases setOverrides_cases cfg with ⟨hall, hok, -⟩ | ⟨hnot, hok, -⟩
  · rw [if_pos hok]
    exact .inl ⟨hall, rfl⟩
  · rw [if_neg (by rw [hok]; exact Bool.false_ne_true)]
    refine .inr ?_
    cases deviceId with
    | none =>
        refine .inl ⟨hnot, .inl ?_, rfl⟩
        rintro ⟨value, hvalue, -⟩
        cases hvalue
    | some id =>
        by_cases hid : id.byteAt 0 = 0
        · exact .inl ⟨hnot, .inl (hmissing hid), if_pos hid⟩
        · simp only [if_neg hid]
          cases hscheme : cfg.scheme with
          | pdf => exact .inr ⟨hnot, id, rfl, hthere hid, .inl ⟨rfl, rfl⟩⟩
          | slugEnvRet =>
              cases hslug : cfg.projectSlug with
              | none =>
                  refine .inl ⟨hnot, .inr ⟨hscheme, ?_⟩, rfl⟩
                  rintro ⟨value, hvalue, -⟩
                  rw [hslug] at hvalue
                  cases hvalue
              | some slug =>
                  by_cases hempty : slug.byteAt 0 = 0
                  · refine .inl ⟨hnot, .inr ⟨hscheme, ?_⟩, if_pos hempty⟩
                    rw [hslug]
                    exact hmissing hempty
                  · simp only [if_neg hempty]
                    exact .inr ⟨hnot, id, rfl, hthere hid,
                      .inr ⟨slug, trivial, rfl, hthere hempty, rfl⟩⟩

/-- None of the three topics is there. -/
def Blank (r : TopicResolver) : Prop :=
  r.ping.text.length = 0 ∧ r.update.text.length = 0 ∧ r.config.text.length = 0

/-- A resolver without a ping topic is not ready, and lets nothing be published. -/
theorem grants_nothing {r : TopicResolver} (h : r.ping.text.length = 0) :
    r.ready = false ∧ ∀ topic, r.mayPublish topic = false := by
  have hnul : r.ping.text.byteAt 0 = 0 := (CString.byteAt_zero_eq_zero _).mpr h
  refine ⟨decide_eq_false fun hne => hne hnul, ?_⟩
  intro topic
  cases topic with
  | none => rfl
  | some topic => exact if_pos hnul

/-- A build that fails leaves no topic and grants nothing, for every input on which it does not
fail, or fails before the first buffer is filled: for want of an id or of a slug, and with no
override of the ping topic to take. -/
theorem refused_grants_nothing_iff (r : TopicResolver) (cfg : TopicConfig)
    (deviceId : Option CString) :
    ((r.build cfg deviceId).1 = false →
        (r.build cfg deviceId).2.Blank ∧ (r.build cfg deviceId).2.ready = false ∧
          ∀ topic, (r.build cfg deviceId).2.mayPublish topic = false) ↔
      cfg.Overridden ∨
        (∃ id, deviceId = some id ∧ id.length ≠ 0 ∧ cfg.Fits id) ∨
        ((¬Given deviceId ∨ cfg.SlugMissing) ∧ ¬Taken cfg.tPing) := by
  rcases build_cases r cfg deviceId with
    ⟨hall, hbuild⟩ | ⟨hnot, hmissing, hbuild⟩ | ⟨hnot, id, hid, hne, hscheme⟩
  · rw [hbuild]
    exact iff_of_true (fun h => absurd h.symm Bool.false_ne_true) (.inl hall)
  · have hunfit : ¬∃ id, deviceId = some id ∧ id.length ≠ 0 ∧ cfg.Fits id := by
      rintro ⟨id, hid, hne, hfits⟩
      rcases hmissing with hnoid | ⟨hslug, hnoslug⟩
      · exact hnoid ⟨id, hid, hne⟩
      · rw [TopicConfig.Fits, hslug] at hfits
        obtain ⟨slug, hslug', hne', -⟩ := hfits
        exact hnoslug ⟨slug, hslug', hne'⟩
    rw [hbuild]
    rcases setOverrides_cases cfg with ⟨hall, -⟩ | ⟨-, -, htaken, hnone⟩
    · exact absurd hall hnot
    · constructor
      · intro h
        refine .inr (.inr ⟨hmissing, ?_⟩)
        rintro ⟨value, hvalue, hne, hlt⟩
        have hping := htaken ⟨value, hvalue, hne, hlt⟩
        rw [hvalue, Option.some_inj] at hping
        exact hne (hping ▸ (h rfl).1.1)
      · rintro (h | h | ⟨-, hfree⟩) -
        · exact absurd h hnot
        · exact absurd h hunfit
        · rw [hnone hfree]
          exact ⟨⟨rfl, rfl, rfl⟩, grants_nothing rfl⟩
  · -- Here a failure has written the ping topic, so the condition is that there is none.
    have hiff : ((r.build cfg deviceId).1 = true ↔ cfg.Fits id) ∧
        (r.build cfg deviceId).2.ping.text.length ≠ 0 := by
      rcases hscheme with ⟨hpdf, hbuild⟩ | ⟨slug, hslug, hslug', hne', hbuild⟩
      · rw [hbuild, TopicConfig.Fits, hpdf]
        exact buildPdf_spec _ hne
      · rw [hbuild, TopicConfig.Fits, hslug]
        obtain ⟨hok, hping⟩ := buildSlugEnvRet_spec (setOverrides {} cfg).2 slug hne
        refine ⟨hok.trans ⟨fun h => ⟨slug, hslug', hne', h⟩, ?_⟩, hping⟩
        rintro ⟨slug', hsome, -, h⟩
        rw [hslug', Option.some_inj] at hsome
        exact hsome ▸ h
    have hnoslug : ¬cfg.SlugMissing := by
      rintro ⟨hslug, hmissing⟩
      rcases hscheme with ⟨hpdf, -⟩ | ⟨slug, -, hslug', hne', -⟩
      · rw [hpdf] at hslug
        cases hslug
      · exact hmissing ⟨slug, hslug', hne'⟩
    constructor
    · intro h
      by_cases hok : (r.build cfg deviceId).1 = true
      · exact .inr (.inl ⟨id, hid, hne, hiff.1.mp hok⟩)
      · exact absurd (h (eq_false_of_ne_true hok)).1.1 hiff.2
    · rintro (h | ⟨id', hid', -, hfits⟩ | ⟨hnoid | hslug, -⟩) hrefused
      · exact absurd h hnot
      · rw [hid, Option.some_inj] at hid'
        rw [hiff.1.mpr (hid' ▸ hfits)] at hrefused
        cases hrefused
      · exact absurd ⟨id, hid, hne⟩ hnoid
      · exact absurd hslug hnoslug

/-- With an override of the ping topic alone, a device without an id may publish. -/
theorem refused_grants_publish :
    ¬(((build {} { tPing := some (literal "p") } none).1 = false →
      (build {} { tPing := some (literal "p") } none).2.Blank ∧
        (build {} { tPing := some (literal "p") } none).2.ready = false ∧
        ∀ topic, (build {} { tPing := some (literal "p") } none).2.mayPublish topic = false)) := by
  intro h
  exact absurd (h rfl).2.1 (by decide +kernel)

/-- The three topics. -/
inductive Topic where
  | ping
  | update
  | config

/-- One of the topics. -/
def topic (r : TopicResolver) : Topic → CString
  | .ping => r.ping.text
  | .update => r.update.text
  | .config => r.config.text

end TopicResolver

open TopicResolver (Topic)

/-- What a provisioning says of a topic. -/
def Provisioning.topic (p : Provisioning) : Topic → CString
  | .ping => p.topicPing.text
  | .update => p.topicUpdate.text
  | .config => p.topicConfig.text

namespace TopicConfig

/-- What the configuration says of a topic. -/
def override (cfg : TopicConfig) : Topic → Option CString
  | .ping => cfg.tPing
  | .update => cfg.tUpdate
  | .config => cfg.tConfig

/-- The slug, when there is one. -/
def slug (cfg : TopicConfig) : List UInt8 := (cfg.projectSlug.getD .empty).bytes

/-- The string of the scheme, when `cut` is done to the slug and what stands right behind it. -/
def schemeText (cfg : TopicConfig) (cut : List UInt8 → List UInt8) (id : CString)
    (topic : Topic) : List UInt8 :=
  match cfg.scheme, topic with
  | .pdf, .ping => ascii "/ping/" ++ id.bytes
  | .pdf, .update => ascii "/update/" ++ id.bytes
  | .pdf, .config => ascii "/config/" ++ id.bytes
  | .slugEnvRet, .ping => cut (cfg.slug ++ ascii "/ret/") ++ id.bytes
  | .slugEnvRet, .update => cut (cfg.slug ++ ascii "/env/") ++ id.bytes ++ ascii "/update"
  | .slugEnvRet, .config => cut (cfg.slug ++ ascii "/env/") ++ id.bytes ++ ascii "/config"

/-- The full string of the scheme. -/
def fullText (cfg : TopicConfig) : CString → Topic → List UInt8 := cfg.schemeText id

/-- The string of the scheme with the slug cut to its buffer of 64 bytes. -/
def cutText (cfg : TopicConfig) : CString → Topic → List UInt8 := cfg.schemeText (·.take 63)

/-- A topic by the precedence of its three sources. -/
def Chosen (cfg : TopicConfig) (p : Provisioning) (id : CString) (topic : Topic)
    (text : List UInt8) : Prop :=
  ((p.topic topic).length ≠ 0 → text = (p.topic topic).bytes) ∧
    ((p.topic topic).length = 0 →
      (∀ value, cfg.override topic = some value → value.length ≠ 0 → text = value.bytes) ∧
        (¬Given (cfg.override topic) → text = cfg.fullText id topic))

/-- A topic that `build` gets right when not all three overrides are taken: provisioning has it,
or it is not overridden and the slug fits its buffer, or the override says what `build` makes of
the scheme anyway. -/
def Settled (cfg : TopicConfig) (p : Provisioning) (id : CString) (topic : Topic) : Prop :=
  (p.topic topic).length ≠ 0 ∨
    (¬Given (cfg.override topic) ∧ (cfg.scheme = .slugEnvRet → cfg.slug.length ≤ 58)) ∨
    ∃ value, cfg.override topic = some value ∧ value.length ≠ 0 ∧
      value.bytes = cfg.cutText id topic

/-- The cut string is the full one exactly when the slug fits. -/
theorem cutText_eq_iff (cfg : TopicConfig) (id : CString) (topic : Topic) :
    cfg.cutText id topic = cfg.fullText id topic ↔
      (cfg.scheme = .slugEnvRet → cfg.slug.length ≤ 58) := by
  have hcut (after : List UInt8) (hafter : after.length = 5) :
      (cfg.slug ++ after).take 63 = cfg.slug ++ after ↔ cfg.slug.length ≤ 58 := by
    rw [List.take_eq_self_iff, List.length_append, hafter]
    omega
  unfold cutText fullText schemeText
  cases cfg.scheme with
  | pdf => cases topic <;> exact iff_of_true rfl fun h => nomatch h
  | slugEnvRet =>
      have himp : (MqttTopicScheme.slugEnvRet = .slugEnvRet → cfg.slug.length ≤ 58) ↔
          cfg.slug.length ≤ 58 := ⟨fun h => h rfl, fun h _ => h⟩
      rw [himp]
      cases topic with
      | ping => exact List.append_left_inj _ |>.trans (hcut _ rfl)
      | update =>
          exact List.append_left_inj _ |>.trans (List.append_left_inj _ |>.trans (hcut _ rfl))
      | config =>
          exact List.append_left_inj _ |>.trans (List.append_left_inj _ |>.trans (hcut _ rfl))

end TopicConfig

namespace TopicResolver

/-- What is provisioned replaces the topic, an empty string does not. -/
theorem applyProvisioned_topic (r : TopicResolver) (p : Provisioning) (topic : Topic) :
    ((p.topic topic).length ≠ 0 → (r.applyProvisioned p).topic topic = p.topic topic) ∧
      ((p.topic topic).length = 0 → (r.applyProvisioned p).topic topic = r.topic topic) := by
  have hset (dst field : Field maxTopicLen) :
      (field.text.length ≠ 0 → (setTopic dst (some field.text)).2.text = field.text) ∧
        (field.text.length = 0 → (setTopic dst (some field.text)).2.text = dst.text) := by
    rcases setTopic_cases dst (some field.text) with ⟨⟨value, hvalue, hne, -⟩, -, heq⟩ | ⟨hnot, heq⟩
    · cases hvalue
      exact ⟨fun _ => (Option.some_inj.mp heq).symm, fun h => absurd h hne⟩
    · rw [heq]
      exact ⟨fun hne => absurd ⟨_, rfl, hne, field.fits⟩ hnot, fun _ => rfl⟩
  cases topic with
  | ping => exact hset r.ping p.topicPing
  | update => exact hset r.update p.topicUpdate
  | config => exact hset r.config p.topicConfig

/-- With an id that fits, a build that is not refused leaves the overrides, when they are all
taken, and otherwise the strings of the scheme with the slug cut. -/
theorem build_topics (r : TopicResolver) (cfg : TopicConfig) {id : CString}
    (hsome : 1 ≤ id.length) (hmax : id.length ≤ 39) :
    (cfg.Overridden ∧ (r.build cfg (some id)).1 = true ∧
        ∀ topic, cfg.override topic = some ((r.build cfg (some id)).2.topic topic)) ∨
      (¬cfg.Overridden ∧ cfg.SlugMissing ∧ (r.build cfg (some id)).1 = false) ∨
      (¬cfg.Overridden ∧ ¬cfg.SlugMissing ∧ (r.build cfg (some id)).1 = true ∧
        ∀ topic, ((r.build cfg (some id)).2.topic topic).bytes = cfg.cutText id topic) := by
  have hne : id.length ≠ 0 := by omega
  rcases build_cases r cfg (some id) with
    ⟨hall, hbuild⟩ | ⟨hnot, hmissing, hbuild⟩ | ⟨hnot, id', hid', -, hscheme⟩
  · rcases setOverrides_cases cfg with ⟨-, -, hping, hupdate, hconfig⟩ | ⟨hnot, -⟩
    · rw [hbuild]
      refine .inl ⟨hall, rfl, ?_⟩
      intro topic
      cases topic with
      | ping => exact hping
      | update => exact hupdate
      | config => exact hconfig
    · exact absurd hall hnot
  · rw [hbuild]
    rcases hmissing with hnoid | hslug
    · exact absurd ⟨id, rfl, hne⟩ hnoid
    · exact .inr (.inl ⟨hnot, hslug, rfl⟩)
  · rw [Option.some_inj] at hid'
    subst hid'
    refine .inr (.inr ⟨hnot, ?_⟩)
    unfold TopicConfig.cutText TopicConfig.schemeText TopicConfig.SlugMissing
    rcases hscheme with ⟨hpdf, hbuild⟩ | ⟨slug, hslug, hslug', hne', hbuild⟩
    · have hroom : id.length + 8 < maxTopicLen := by
        rw [maxTopicLen]
        omega
      obtain ⟨hping, hupdate, hconfig⟩ := buildPdf_text (setOverrides {} cfg).2 hne hroom
      rw [hbuild, hpdf]
      refine ⟨fun h => (nomatch h.1), (buildPdf_spec _ hne).1.mpr hroom, ?_⟩
      intro topic
      cases topic with
      | ping => exact hping
      | update => exact hupdate
      | config => exact hconfig
    · have hroom : min (slug.length + 5) 63 + id.length + 7 < maxTopicLen := by
        rw [maxTopicLen]
        omega
      obtain ⟨hping, hupdate, hconfig⟩ :=
        buildSlugEnvRet_text (setOverrides {} cfg).2 slug hne hroom
      have hbytes : cfg.slug = slug.bytes := by
        rw [TopicConfig.slug, hslug']
        rfl
      rw [hbuild, hslug, hbytes]
      refine ⟨fun h => h.2 ⟨slug, hslug', hne'⟩,
        (buildSlugEnvRet_spec _ slug hne).1.mpr (by omega), ?_⟩
      intro topic
      cases topic with
      | ping => exact hping
      | update => exact hupdate
      | config => exact hconfig

/-- Every topic follows the precedence of its sources exactly when all three overrides are taken,
when the slug the scheme needs is missing (the build fails then), or when each topic is settled on
its own. -/
theorem built_exact_iff (r : TopicResolver) (cfg : TopicConfig) (p : Provisioning) {id : CString}
    (hsome : 1 ≤ id.length) (hmax : id.length ≤ 39) :
    ((r.build cfg (some id)).1 = true → ∀ topic, cfg.Chosen p id topic
        (((r.build cfg (some id)).2.applyProvisioned p).topic topic).bytes) ↔
      cfg.Overridden ∨ cfg.SlugMissing ∨ ∀ topic, cfg.Settled p id topic := by
  have happly := (r.build cfg (some id)).2.applyProvisioned_topic p
  rcases build_topics r cfg hsome hmax with
    ⟨hall, -, htopics⟩ | ⟨-, hslug, hfalse⟩ | ⟨hnot, hslug, htrue, htopics⟩
  · refine iff_of_true (fun _ topic => ⟨fun hp => ?_, fun hp => ⟨?_, ?_⟩⟩) (.inl hall)
    · rw [(happly topic).1 hp]
    · intro value hvalue _
      rw [(happly topic).2 hp]
      rw [htopics topic, Option.some_inj] at hvalue
      rw [hvalue]
    · intro hnone
      have hgiven : Given (cfg.override topic) := by
        cases topic with
        | ping => exact hall.1.elim fun value h => ⟨value, h.1, h.2.1⟩
        | update => exact hall.2.1.elim fun value h => ⟨value, h.1, h.2.1⟩
        | config => exact hall.2.2.elim fun value h => ⟨value, h.1, h.2.1⟩
      exact absurd hgiven hnone
  · refine iff_of_true (fun h => ?_) (.inr (.inl hslug))
    rw [hfalse] at h
    cases h
  · have heach : (∀ topic, cfg.Chosen p id topic
        (((r.build cfg (some id)).2.applyProvisioned p).topic topic).bytes) ↔
        ∀ topic, cfg.Settled p id topic := by
      refine forall_congr' fun topic => ?_
      by_cases hp : (p.topic topic).length = 0
      · rw [(happly topic).2 hp]
        by_cases hgiven : Given (cfg.override topic)
        · obtain ⟨value, hvalue, hne⟩ := hgiven
          constructor
          · intro h
            refine .inr (.inr ⟨value, hvalue, hne, ?_⟩)
            rw [← htopics topic]
            exact ((h.2 hp).1 value hvalue hne).symm
          · rintro (h | ⟨hnone, -⟩ | ⟨value', hvalue', -, heq⟩)
            · exact absurd hp h
            · exact absurd ⟨value, hvalue, hne⟩ hnone
            · refine ⟨fun h => absurd hp h, fun _ => ⟨fun other hother _ => ?_, fun hnone => ?_⟩⟩
              · rw [hvalue', Option.some_inj] at hother
                rw [htopics topic, ← hother, heq]
              · exact absurd ⟨value, hvalue, hne⟩ hnone
        · constructor
          · intro h
            refine .inr (.inl ⟨hgiven, ?_⟩)
            rw [← TopicConfig.cutText_eq_iff cfg id topic, ← htopics topic]
            exact (h.2 hp).2 hgiven
          · rintro (h | ⟨-, hfits⟩ | ⟨value, hvalue, hne, -⟩)
            · exact absurd hp h
            · refine ⟨fun h => absurd hp h, fun _ => ⟨fun value hvalue hne => ?_, fun _ => ?_⟩⟩
              · exact absurd ⟨value, hvalue, hne⟩ hgiven
              · rw [htopics topic]
                exact (TopicConfig.cutText_eq_iff cfg id topic).mpr hfits
            · exact absurd ⟨value, hvalue, hne⟩ hgiven
      · refine iff_of_true ⟨fun _ => ?_, fun h => absurd h hp⟩ (.inl hp)
        rw [(happly topic).1 hp]
    constructor
    · intro h
      exact .inr (.inr (heach.mp (h htrue)))
    · rintro (h | h | h) -
      · exact absurd h hnot
      · exact absurd h hslug
      · exact heach.mpr h

/-- A project with a slug and a topic of its own for updates. -/
def sampleTopics : TopicConfig :=
  { scheme := .slugEnvRet, projectSlug := some (literal "gate"), tUpdate := some (literal "g/up") }

/-- A provisioning that has another one. -/
def sampleProvisioned (p : Provisioning) : Provisioning :=
  { p with topicUpdate := .print maxTopicLen_pos (literal "site/up") }

/-- Each of its topics comes from the right source. -/
theorem sampleTopics_settled (topic : Topic) :
    sampleTopics.Settled (sampleProvisioned {}) (literal "abc") topic := by
  cases topic with
  | update => exact .inl (by decide +kernel)
  | ping => exact .inr (.inl ⟨by simp [sampleTopics, TopicConfig.override, Given], by decide⟩)
  | config => exact .inr (.inl ⟨by simp [sampleTopics, TopicConfig.override, Given], by decide⟩)

/-- The strings of its device `abc`. -/
theorem built_exact_slug :
    (build {} sampleTopics (some (literal "abc"))).1 = true ∧
      ∀ topic, sampleTopics.Chosen (sampleProvisioned {}) (literal "abc") topic
        (((build {} sampleTopics (some (literal "abc"))).2.applyProvisioned
          (sampleProvisioned {})).topic topic).bytes := by
  have hbuilt : (build {} sampleTopics (some (literal "abc"))).1 = true := by decide +kernel
  have hiff := @built_exact_iff {} sampleTopics (sampleProvisioned {}) (literal "abc")
    (by decide +kernel) (by decide +kernel)
  exact ⟨hbuilt, hiff.mpr (.inr (.inr sampleTopics_settled)) hbuilt⟩

/-- An override of the ping topic alone gives way to the scheme. -/
theorem lone_override_is_lost :
    ¬((build {} { tPing := some (literal "p") } (some (literal "a"))).1 = true → ∀ topic,
      TopicConfig.Chosen { tPing := some (literal "p") } {} (literal "a") topic
        (((build {} { tPing := some (literal "p") } (some (literal "a"))).2.applyProvisioned
          {}).topic topic).bytes) := by
  intro h
  have hping := ((h (by decide +kernel) .ping).2 rfl).1 (literal "p") rfl (by decide +kernel)
  exact absurd hping (by decide +kernel)

end TopicResolver

end FirmwareUpdater
