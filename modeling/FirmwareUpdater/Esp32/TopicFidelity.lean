import FirmwareUpdater.Core.CLib
import FirmwareUpdater.Esp32.MessageAssembly

/-!
# The topic a consumer sees

A topic is read up to the first NUL, wherever in the packet or behind it, and passes
buffers of 96 bytes on its way through the assembly and the ring. `faithful_iff` says
which messages are seen under their own topic and go where it belongs.
-/

namespace FirmwareUpdater

namespace Inbound

/-- Nothing is read behind the topic: a NUL stands there. -/
def Terminated (m : Inbound) : Prop := m.behind.headD 0 = 0

instance (m : Inbound) : Decidable m.Terminated := inferInstanceAs (Decidable (_ = _))

/-- The text read is the topic and what stands behind it up to a NUL. -/
theorem read_bytes (m : Inbound) :
    m.read.bytes = m.topic.bytes ++ (CString.ofBytes m.behind).bytes := by
  have hall : ∀ b ∈ m.topic.bytes, decide (b ≠ 0) = true := by
    intro b hb
    exact decide_eq_true fun heq => m.topic.noNul (heq ▸ hb)
  exact List.takeWhile_append_of_pos hall

theorem terminated_iff (m : Inbound) : m.Terminated ↔ m.read = m.topic := by
  rw [CString.eq_iff, read_bytes, List.append_right_eq_self, Terminated, CString.ofBytes]
  cases m.behind with
  | nil => simp
  | cons b behind => by_cases hnul : b = 0 <;> simp [hnul]

/-- What is kept of the text in 96 bytes is the topic only if it fills them, or ends there. -/
theorem cut_read_iff (m : Inbound) :
    m.read.cut = m.topic ↔
      m.topic.length = 95 ∨ m.topic.length < 95 ∧ m.Terminated := by
  rw [terminated_iff, CString.eq_iff, CString.eq_iff, CString.length]
  show m.read.bytes.take 95 = m.topic.bytes ↔ _
  rw [read_bytes, List.append_right_eq_self]
  generalize (CString.ofBytes m.behind).bytes = behind
  constructor
  · intro h
    have hlength := congrArg List.length h
    rw [List.length_take, List.length_append] at hlength
    by_cases hshort : m.topic.bytes.length < 95
    · exact .inr ⟨hshort, List.eq_nil_of_length_eq_zero (by omega)⟩
    · exact .inl (by omega)
  · rintro (hfull | ⟨hshort, rfl⟩)
    · rw [← hfull, List.take_left]
    · rw [List.append_nil, List.take_of_length_le (by omega)]

end Inbound

/-- The message goes into the ring. -/
def Delivery.Pushed : Delivery → Prop
  | .direct _ _ => False
  | .push _ _ => True

namespace EspMqttClient

variable {c : EspMqttClient} {m : Inbound}

/-- The consumer sees a delivery under a topic: as the argument of the callback, or in the buffer of
any `poll` that has room for the topic and the payload and pops what a push stored. -/
def SeenAs (topic : CString) : Delivery → Prop
  | .direct read _ => read = topic
  | .push read payload => ∀ slot, SpscRing.Stored read (block payload) slot →
      ∀ (call : PollCall) buffer, call.topic = some buffer → topic.length < call.topicCap →
        payload.length ≤ call.payloadCap →
        (pollPopped call slot).ok = true ∧
          (pollPopped call slot).topic.map CString.ofBytes = some topic

/-- `handle` does not drop the message, nor does `push` because of its size. -/
def Kept (c : EspMqttClient) (m : Inbound) : Prop :=
  ∃ delivery, (c.handleAll m.events).2 = [delivery] ∧
    (delivery.Pushed → m.payload.length ≤ ringSlotBytes)

/-- The message is seen under its topic, and goes into the ring exactly if the topic is reserved or
no direct callback is installed. -/
def Faithful (c : EspMqttClient) (m : Inbound) : Prop :=
  ∃ delivery, (c.handleAll m.events).2 = [delivery] ∧ SeenAs m.topic delivery ∧
    (delivery.Pushed ↔ c.isReserved m.topic = true ∨ c.direct = false)

/-- The topic of an unfragmented message ends in the packet, and fits where it goes; or it fills
the topic of a slot, and goes there whatever follows it. -/
def SafeWhole (c : EspMqttClient) (m : Inbound) : Prop :=
  if m.Terminated then
    m.topic.length ≤ 95 ∨ (c.direct = true ∧ c.isReserved m.topic = false)
  else
    m.topic.length = 95 ∧
      (c.direct = false ∨ (c.isReserved m.topic = true ∧ c.isReserved m.read = true))

/-- The topic of a fragmented message is not forgotten, and fills the assembly's topic or ends in
the packet before. -/
def SafeAssembled (m : Inbound) : Prop :=
  ¬(m.first = [] ∧ 2 ≤ m.others.length) ∧
    (m.topic.length = 95 ∨ (m.topic.length < 95 ∧ m.Terminated))

instance (c : EspMqttClient) (m : Inbound) : Decidable (SafeWhole c m) := by
  unfold SafeWhole
  infer_instance

/-- A push is seen under the topic that is left of the text in a slot. -/
theorem seenAs_push_iff {topic read : CString} {payload : List UInt8}
    (hlt : topic.length < maxTopicLen) :
    SeenAs topic (.push read payload) ↔ read.cut = topic := by
  have hcut : ∀ slot, SpscRing.Stored read (block payload) slot →
      CString.ofBytes slot.topic = read.cut := fun slot h => CString.eq_iff.mpr h.topic_eq
  have hpoll : ∀ slot, SpscRing.Stored read (block payload) slot → ∀ call : PollCall,
      payload.length ≤ call.payloadCap →
      (pollPopped call slot).ok = true ∧ (pollPopped call slot).topic =
        call.topic.map fun buffer => snprintf buffer call.topicCap read.cut := by
    intro slot h call hroom
    have hlen : ¬slot.length > call.payloadCap := by
      rw [h.length_eq]
      exact Nat.not_lt.mpr hroom
    rw [pollPopped, if_neg hlen, ← hcut slot h]
    exact ⟨rfl, rfl⟩
  have hbuffer : ∀ (buffer : List UInt8) (cap : Nat) (text : CString), text.length < cap →
      CString.ofBytes (snprintf buffer cap text) = text := by
    intro buffer cap text hfits
    have hlength : text.bytes.length < cap := hfits
    rw [CString.eq_iff, CString.ofBytes_snprintf (by omega), List.take_of_length_le (by omega)]
  constructor
  · intro h
    let slot : SpscRing.Message :=
      ⟨snprintf (List.replicate 96 0) SpscRing.topicBytes read, payload, payload.length⟩
    have hstored : SpscRing.Stored read (block payload) slot :=
      ⟨CString.ofBytes_snprintf (by decide : 0 < SpscRing.topicBytes) _ _,
        fun bytes hbytes => by cases hbytes; exact List.take_length, rfl⟩
    let call : PollCall := ⟨some [], maxTopicLen, none, payload.length⟩
    have hseen := (h slot hstored call [] rfl hlt le_rfl).2
    have hcutlt : read.cut.length < maxTopicLen := by
      have hle := read.cut_length
      unfold maxTopicLen
      omega
    rw [(hpoll slot hstored call le_rfl).2] at hseen
    exact (hbuffer [] maxTopicLen read.cut hcutlt).symm.trans (Option.some.inj hseen)
  · rintro rfl slot h call buffer htopic hroom hsize
    obtain ⟨hok, hwritten⟩ := hpoll slot h call hsize
    refine ⟨hok, ?_⟩
    rw [hwritten, htopic, Option.map_some, Option.map_some, hbuffer _ _ _ hroom]

/-- Of a message that is kept one delivery is seen, under `seen`. -/
theorem faithful_iff_deliver (hkept : Kept c m) :
    Faithful c m ↔ if c.direct && !c.isReserved m.seen then
        m.seen = m.topic ∧ ¬(c.isReserved m.topic = true ∨ c.direct = false)
      else m.seen.cut = m.topic ∧ (c.isReserved m.topic = true ∨ c.direct = false) := by
  obtain ⟨delivery, hdelivery, -⟩ := hkept
  have hall := handleAll_events c m
  have hfits : m.Fits := by
    by_contra hnot
    rw [if_neg hnot, hdelivery] at hall
    cases hall
  rw [if_pos hfits] at hall
  have hone : Faithful c m ↔ SeenAs m.topic (c.deliver m.seen m.payload) ∧
      ((c.deliver m.seen m.payload).Pushed ↔ c.isReserved m.topic = true ∨ c.direct = false) := by
    unfold Faithful
    rw [hall]
    simp
  rw [hone, deliver]
  split_ifs with hdirect
  · simp only [SeenAs, Delivery.Pushed, false_iff]
  · rw [seenAs_push_iff m.topic_lt]
    simp only [Delivery.Pushed, true_iff]

/-- An unfragmented message is delivered under the text as it was read. -/
theorem faithful_whole (hkept : Kept c m) (hwhole : m.others = []) :
    Faithful c m ↔ SafeWhole c m := by
  have hseen : m.seen = m.read := by rw [Inbound.seen, hwhole]
  rw [faithful_iff_deliver hkept, hseen, SafeWhole, m.cut_read_iff]
  by_cases hnul : m.Terminated
  · rw [m.terminated_iff.mp hnul, if_pos hnul]
    cases hdirect : c.direct <;> cases hreserved : c.isReserved m.topic <;>
      simp [hnul, Nat.le_iff_lt_or_eq, or_comm]
  · have hne : m.read ≠ m.topic := fun h => hnul (m.terminated_iff.mpr h)
    rw [if_neg hnul]
    cases hdirect : c.direct <;> cases hreserved : c.isReserved m.topic <;>
      cases hread : c.isReserved m.read <;> simp [hnul, hne]

/-- A fragmented one is delivered under what the assembly kept of it, if anything. -/
theorem faithful_assembled (hkept : Kept c m) (hfragmented : m.others ≠ []) :
    Faithful c m ↔ SafeAssembled m := by
  rw [faithful_iff_deliver hkept, SafeAssembled, ← m.cut_read_iff]
  by_cases hlost : m.first = [] ∧ 2 ≤ m.others.length
  · have hseen : m.seen = .empty := by
      obtain ⟨hfirst, hmany⟩ := hlost
      rw [Inbound.seen]
      rcases hothers : m.others with _ | ⟨_, _ | ⟨_, _⟩⟩
      · exact absurd hothers hfragmented
      · rw [hothers] at hmany
        exact absurd hmany (by simp)
      · rw [Inbound.assembledTopic, if_pos hfirst]
    have hne : CString.empty ≠ m.topic := fun h => m.topic_ne (h ▸ rfl)
    have hcut : CString.empty.cut ≠ m.topic := hne
    rw [hseen]
    simp [hlost, hne, hcut]
  · have hseen : m.seen = m.read.cut := by
      rw [Inbound.seen]
      rcases hothers : m.others with _ | ⟨_, _ | ⟨_, _⟩⟩
      · exact absurd hothers hfragmented
      · rfl
      · rw [Inbound.assembledTopic, if_neg fun h => hlost ⟨h, by simp [hothers]⟩]
    have hcut : m.read.cut.cut = m.read.cut := by
      have hle := m.read.cut_length
      exact CString.eq_iff.mpr (List.take_of_length_le hle)
    rw [hseen, hcut]
    by_cases htopic : m.read.cut = m.topic
    · rw [htopic]
      cases hdirect : c.direct <;> cases hreserved : c.isReserved m.topic <;> simp [hlost]
    · simp [htopic]

/-- A message that is kept is seen under its own topic, and goes where the topic belongs, exactly
if its topic is safe. -/
theorem faithful_iff (hkept : Kept c m) :
    Faithful c m ↔ if m.others = [] then SafeWhole c m else SafeAssembled m := by
  split_ifs with hwhole
  · exact faithful_whole hkept hwhole
  · exact faithful_assembled hkept hwhole

/-- A message that a slot has room for is kept. -/
theorem kept_of_length_le (c : EspMqttClient) (h : m.payload.length ≤ ringSlotBytes) :
    Kept c m := by
  have hfits : m.Fits := .inr (.inr h)
  exact ⟨_, (handleAll_events c m).trans (if_pos hfits), fun _ => h⟩

/-- The topic of an order. -/
def sampleTopic : CString := ⟨ascii "fwup/7/update", by decide⟩

/-- A message at QoS 1 with this topic. -/
def sampleMessage (id : UInt16) : Inbound where
  topic := sampleTopic
  id := some id
  first := ascii "\x7b\x7d"
  others := []
  memory := [0]
  topic_ne := by decide
  topic_lt := by decide
  others_ne := by simp

/-- A client with a direct callback and this topic reserved. -/
def sampleClient : EspMqttClient where
  direct := true
  reserved := [⟨sampleTopic, by decide⟩]

theorem faithful_sample : Faithful sampleClient (sampleMessage 5) :=
  (faithful_iff (kept_of_length_le _ (by decide))).mpr
    (by decide : SafeWhole sampleClient (sampleMessage 5))

/-- With another message id the order goes to the direct callback, under a topic that is not its
own. -/
theorem not_faithful_sample :
    Kept sampleClient (sampleMessage 300) ∧ ¬Faithful sampleClient (sampleMessage 300) := by
  have hkept : Kept sampleClient (sampleMessage 300) := kept_of_length_le _ (by decide)
  refine ⟨hkept, fun h => ?_⟩
  have hsafe := (faithful_whole hkept rfl).mp h
  revert hsafe
  decide

end EspMqttClient

end FirmwareUpdater
