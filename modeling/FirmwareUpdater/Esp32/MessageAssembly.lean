import FirmwareUpdater.Esp32.EspMqttClient

/-!
# Messages put together from their fragments

An `Inbound` is a message as esp-mqtt hands it over: the topic inside the received
packet, followed by the rest of the packet and whatever memory holds behind it, and
the payload in one or more fragments, of which only the first comes with the topic.
`handleAll_events` says what `handle` makes of its events, whatever state they meet:
one delivery, under `seen`, or none where the assembly overflows.
-/

namespace FirmwareUpdater

/-- What fits of a text into `_assembly_topic`, or into the topic of a slot. -/
def CString.cut (text : CString) : CString := (Field.print (by decide : 0 < 96) text).text

theorem CString.cut_length (text : CString) : text.cut.length ≤ 95 :=
  List.length_take_le _ _

/-- A message on its way in. `id` is the message id, which a packet has above QoS 0; the fragments
after the first are reads of at least a byte. -/
structure Inbound where
  topic : CString
  id : Option UInt16
  first : List UInt8
  others : List (List UInt8)
  memory : List UInt8
  topic_ne : topic.length ≠ 0
  topic_lt : topic.length < maxTopicLen
  others_ne : ∀ piece ∈ others, piece ≠ []

namespace Inbound

/-- The bytes of the message id in the packet. -/
def idBytes (m : Inbound) : List UInt8 :=
  m.id.elim [] fun id => [UInt8.ofNat (id.toNat / 256), UInt8.ofNat id.toNat]

/-- What stands behind the topic. -/
def behind (m : Inbound) : List UInt8 := m.idBytes ++ m.first ++ m.memory

/-- The whole payload. -/
def payload (m : Inbound) : List UInt8 := m.first ++ m.others.flatten

/-- The events of the fragments after the first, from an offset on. -/
def laterEvents (m : Inbound) : Nat → List (List UInt8) → List MqttEvent
  | _, [] => []
  | offset, piece :: pieces =>
      .data none piece m.payload.length offset :: m.laterEvents (offset + piece.length) pieces

/-- The event of the first fragment. -/
def firstEvent (m : Inbound) : MqttEvent :=
  .data (some (m.topic.bytes ++ m.behind)) m.first m.payload.length 0

/-- The events of the message. -/
def events (m : Inbound) : List MqttEvent := m.firstEvent :: m.laterEvents m.first.length m.others

/-- The text at the event's topic. -/
def read (m : Inbound) : CString := .ofBytes (m.topic.bytes ++ m.behind)

/-- The topic of an assembly that is past its first byte. -/
def assembledTopic (m : Inbound) : CString := if m.first = [] then .empty else m.read.cut

/-- The topic the message is delivered under. -/
def seen (m : Inbound) : CString :=
  match m.others with
  | [] => m.read
  -- After an empty first fragment the second one brings the whole payload.
  | [_] => m.read.cut
  | _ :: _ :: _ => m.assembledTopic

/-- No assembly overflows on the message. -/
def Fits (m : Inbound) : Prop :=
  m.others = [] ∨ (m.first = [] ∧ m.others.length = 1) ∨
    m.payload.length ≤ EspMqttClient.assemblyBytes

instance (m : Inbound) : Decidable m.Fits := by
  unfold Fits
  infer_instance

end Inbound

namespace EspMqttClient

variable {c : EspMqttClient} {m : Inbound} {before rest : List (List UInt8)} {piece : List UInt8}

/-- The client holds the fragments `before` of a message, of which `rest` are still to come. -/
structure Assembling (c : EspMqttClient) (m : Inbound) (before rest : List (List UInt8)) :
    Prop where
  pieces : m.first :: m.others = before ++ rest
  before_ne : before ≠ []
  assembling : c.assembling = true
  assembly : c.assembly.take c.assemblyLen = before.flatten
  len : c.assemblyLen = before.flatten.length
  topic : .ofBytes c.assemblyTopic =
    if before.flatten = [] then m.read.cut else m.assembledTopic

/-- What was stored of a topic reads back cut to the room there is. -/
theorem ofBytes_snprintf_cut (block : List UInt8) (text : CString) :
    CString.ofBytes (snprintf block assemblyTopicBytes text) = text.cut := by
  have hbytes := CString.ofBytes_snprintf (by decide : 0 < assemblyTopicBytes) block text
  generalize CString.ofBytes _ = read at hbytes
  obtain ⟨bytes, hnul⟩ := read
  cases hbytes
  rfl

/-- The first fragment is among those held. -/
theorem eq_first_cons (h : m.first :: m.others = before ++ rest) (hne : before ≠ []) :
    ∃ tail, before = m.first :: tail ∧ m.others = tail ++ rest := by
  obtain ⟨head, tail, rfl⟩ := List.exists_cons_of_ne_nil hne
  rw [List.cons_append, List.cons.injEq] at h
  exact ⟨tail, by rw [h.1], h.2⟩

/-- The fragments make up the payload. -/
theorem flatten_eq_payload (h : m.first :: m.others = before ++ rest) :
    before.flatten ++ rest.flatten = m.payload := by
  rw [Inbound.payload, ← List.flatten_append, ← h, List.flatten_cons]

/-- Nothing was held before the first fragment only, if that was empty. -/
theorem eq_first_of_flatten_eq_nil (h : m.first :: m.others = before ++ rest) (hne : before ≠ [])
    (hnil : before.flatten = []) : m.first = [] ∧ before = [[]] ∧ rest = m.others := by
  obtain ⟨tail, rfl, hothers⟩ := eq_first_cons h hne
  rw [List.flatten_cons, List.append_eq_nil_iff] at hnil
  obtain ⟨hfirst, htail⟩ := hnil
  cases tail with
  | nil => exact ⟨hfirst, by rw [hfirst], by simpa using hothers.symm⟩
  | cons other tail =>
      rw [List.flatten_cons, List.append_eq_nil_iff] at htail
      exact absurd htail.1 (m.others_ne other (by simp [hothers]))

/-- A fragment after the first one has a byte. -/
theorem length_pos_of_rest (h : m.first :: m.others = before ++ piece :: rest) (hne : before ≠ []) :
    0 < piece.length := by
  obtain ⟨tail, rfl, hothers⟩ := eq_first_cons h hne
  exact List.length_pos_iff.mpr (m.others_ne piece (by simp [hothers]))

/-- Several fragments bring more than the first one. -/
theorem first_lt_payload (hothers : m.others ≠ []) : m.first.length < m.payload.length := by
  obtain ⟨other, others, heq⟩ := List.exists_cons_of_ne_nil hothers
  have hpos := List.length_pos_iff.mpr (m.others_ne other (by simp [heq]))
  rw [Inbound.payload, heq, List.length_append, List.flatten_cons, List.length_append]
  omega

/-- A fragment is added behind what is held. -/
theorem append_spec (hroom : c.assemblyLen + piece.length ≤ assemblyBytes) :
    (c.append piece hroom).assembly.take (c.append piece hroom).assemblyLen =
      c.assembly.take c.assemblyLen ++ piece := by
  have hheld : (c.assembly.take c.assemblyLen ++ piece).length =
      (c.append piece hroom).assemblyLen := by
    have hlength := c.assembly_length
    have hle := c.assemblyLen_le
    show (c.assembly.take c.assemblyLen ++ piece).length = c.assemblyLen + piece.length
    rw [List.length_append, List.length_take]
    omega
  rw [← hheld, append, List.take_left]

section Assemble

variable {total : Nat} (hassembling : c.assembling = true)

include hassembling

theorem assemble_middle (hroom : c.assemblyLen + piece.length ≤ assemblyBytes)
    (hmore : c.assemblyLen + piece.length < total) :
    c.assemble piece total = (c.append piece hroom, none) := by
  have hlen : ¬(c.append piece hroom).assemblyLen ≥ total := Nat.not_le.mpr hmore
  rw [assemble, hassembling, if_neg (by decide), dif_neg (by omega)]
  exact if_neg hlen

theorem assemble_last (hroom : c.assemblyLen + piece.length ≤ assemblyBytes)
    (hlast : total ≤ c.assemblyLen + piece.length) :
    (c.assemble piece total).2 =
      some (c.deliver (.ofBytes c.assemblyTopic) (c.assembly.take c.assemblyLen ++ piece)) := by
  have hlen : (c.append piece hroom).assemblyLen ≥ total := hlast
  rw [assemble, hassembling, if_neg (by decide), dif_neg (by omega)]
  dsimp only
  rw [if_pos hlen, append_spec]
  rfl

theorem assemble_overflow (hroom : assemblyBytes < c.assemblyLen + piece.length) :
    (c.assemble piece total).2 = none ∧ (c.assemble piece total).1.assembling = false := by
  rw [assemble, hassembling, if_neg (by decide), dif_pos hroom]
  exact ⟨rfl, rfl⟩

end Assemble

/-- The first of several fragments is not delivered yet. -/
theorem handle_first (c : EspMqttClient) (hothers : m.others ≠ []) :
    (c.handle m.firstEvent).2 = none ∧
      (m.first.length ≤ assemblyBytes →
        Assembling (c.handle m.firstEvent).1 m [m.first] m.others) ∧
      (assemblyBytes < m.first.length → (c.handle m.firstEvent).1.assembling = false) := by
  have hmore := first_lt_payload hothers
  have hhandle : c.handle m.firstEvent =
      (c.startAssembly m.read).assemble m.first m.payload.length := by
    rw [Inbound.firstEvent, handle, handleData, if_neg (not_not.mpr hmore), if_pos rfl]
    rfl
  have hlen : (c.startAssembly m.read).assemblyLen = 0 := rfl
  rw [hhandle]
  by_cases hroom : m.first.length ≤ assemblyBytes
  · have hfits : (c.startAssembly m.read).assemblyLen + m.first.length ≤ assemblyBytes := by
      omega
    rw [assemble_middle rfl hfits (by omega)]
    refine ⟨rfl, fun _ => ⟨rfl, by simp, rfl, ?_, ?_, ?_⟩, fun hover => by omega⟩
    · rw [append_spec, hlen, List.take_zero, List.nil_append, List.flatten_singleton]
    · simp [append, hlen]
    · rw [Inbound.assembledTopic, List.flatten_singleton]
      refine (ofBytes_snprintf_cut c.assemblyTopic m.read).trans ?_
      split_ifs <;> rfl
  · have hover : assemblyBytes < (c.startAssembly m.read).assemblyLen + m.first.length := by
      omega
    obtain ⟨hnone, hoff⟩ := assemble_overflow rfl hover
    exact ⟨hnone, fun hfits => absurd hfits hroom, fun _ => hoff⟩

/-- What a later fragment meets: the assembly as it stands, or a fresh one without a topic where
nothing was held. -/
theorem Assembling.handle_eq (h : Assembling c m before (piece :: rest))
    (hwhole : before.flatten = [] → rest ≠ []) :
    ∃ d : EspMqttClient, c.handle (.data none piece m.payload.length before.flatten.length) =
        d.assemble piece m.payload.length ∧
      d.assembling = true ∧ d.assembly.take d.assemblyLen = before.flatten ∧
      d.assemblyLen = before.flatten.length ∧ .ofBytes d.assemblyTopic = m.assembledTopic ∧
      d.direct = c.direct ∧ d.reserved = c.reserved := by
  have hpayload := congrArg List.length (flatten_eq_payload h.pieces)
  have hpieces := length_pos_of_rest h.pieces h.before_ne
  rw [List.length_append, List.flatten_cons, List.length_append] at hpayload
  by_cases hnil : before.flatten = []
  · obtain ⟨hfirst, -, hrest⟩ := eq_first_of_flatten_eq_nil h.pieces h.before_ne hnil
    obtain ⟨next, more, rfl⟩ := List.exists_cons_of_ne_nil (hwhole hnil)
    have hmore : m.payload.length > piece.length := by
      have hpos := List.length_pos_iff.mpr (m.others_ne next (by simp [← hrest]))
      rw [List.flatten_cons, List.length_append] at hpayload
      omega
    refine ⟨c.startAssembly .empty, ?_, rfl, ?_, ?_, ?_, rfl, rfl⟩
    · rw [handle, handleData, if_neg (not_not.mpr hmore), hnil, if_pos List.length_nil]
      rfl
    · rw [hnil]
      rfl
    · rw [hnil]
      rfl
    · rw [Inbound.assembledTopic, if_pos hfirst]
      exact ofBytes_snprintf_cut c.assemblyTopic .empty
  · have hpos := List.length_pos_iff.mpr hnil
    refine ⟨c, ?_, h.assembling, h.assembly, h.len, ?_, rfl, rfl⟩
    · rw [handle, handleData, if_neg (not_not.mpr (by omega)), if_neg (by omega)]
    · rw [h.topic, if_neg hnil]

/-- A fragment in the middle is held, too, where it fits. -/
theorem Assembling.handle_middle {next : List UInt8}
    (h : Assembling c m before (piece :: next :: rest))
    (hroom : before.flatten.length + piece.length ≤ assemblyBytes) :
    (c.handle (.data none piece m.payload.length before.flatten.length)).2 = none ∧
      Assembling (c.handle (.data none piece m.payload.length before.flatten.length)).1 m
        (before ++ [piece]) (next :: rest) := by
  have hpieces : m.first :: m.others = (before ++ [piece]) ++ next :: rest := by
    rw [h.pieces, List.append_assoc, List.singleton_append]
  have hpayload := congrArg List.length (flatten_eq_payload hpieces)
  have hnext := length_pos_of_rest hpieces (by simp)
  have hpiece := length_pos_of_rest h.pieces h.before_ne
  obtain ⟨d, hhandle, hassembling, hheld, hlen, htopic, -⟩ := h.handle_eq fun _ => by simp
  simp only [List.flatten_append, List.flatten_cons, List.flatten_nil, List.append_nil,
    List.length_append] at hpayload
  rw [hhandle, assemble_middle hassembling (by omega) (by omega)]
  refine ⟨rfl, hpieces, by simp, hassembling, ?_, ?_, ?_⟩
  · rw [append_spec, hheld, List.flatten_append, List.flatten_singleton]
  · rw [List.flatten_append, List.flatten_singleton, List.length_append, ← hlen]
    rfl
  · have hne : (before ++ [piece]).flatten ≠ [] := by
      rw [List.flatten_append, List.flatten_singleton]
      exact List.append_ne_nil_of_right_ne_nil _ (List.length_pos_iff.mp hpiece)
    rw [if_neg hne]
    exact htopic

/-- Then the message does not fit. -/
theorem Assembling.not_fits (h : Assembling c m before (piece :: rest))
    (hroom : assemblyBytes < before.flatten.length + piece.length)
    (hwhole : before.flatten = [] → rest ≠ []) : ¬m.Fits := by
  have hpayload := congrArg List.length (flatten_eq_payload h.pieces)
  rw [List.length_append, List.flatten_cons, List.length_append] at hpayload
  obtain ⟨tail, rfl, hothers⟩ := eq_first_cons h.pieces h.before_ne
  rintro (hnone | ⟨hfirst, hone⟩ | hfits)
  · rw [hothers] at hnone
    simp at hnone
  · rw [hothers, List.length_append, List.length_cons] at hone
    obtain rfl : tail = [] := List.eq_nil_of_length_eq_zero (by omega)
    obtain rfl : rest = [] := List.eq_nil_of_length_eq_zero (by omega)
    exact hwhole (by rw [hfirst, List.flatten_singleton]) rfl
  · omega

/-- A last fragment that does not overflow the assembly is that of a message that fits. -/
theorem Assembling.fits_of_last (h : Assembling c m before [piece])
    (hover : ¬(assemblyBytes < before.flatten.length + piece.length ∧
      (before.flatten = [] → [] ≠ ([] : List (List UInt8))))) : m.Fits := by
  have hpayload := congrArg List.length (flatten_eq_payload h.pieces)
  rw [List.length_append, List.flatten_singleton] at hpayload
  by_cases hnil : before.flatten = []
  · obtain ⟨hfirst, -, hothers⟩ := eq_first_of_flatten_eq_nil h.pieces h.before_ne hnil
    exact .inr (.inl ⟨hfirst, by rw [← hothers]; rfl⟩)
  · refine .inr (.inr ?_)
    by_contra hlt
    exact hover ⟨by omega, fun h => absurd h hnil⟩

/-- Where something was held before the last fragment, the message went through the assembly. -/
theorem fits_of_held (h : m.first :: m.others = before ++ [piece]) (hne : before ≠ [])
    (hheld : before.flatten ≠ []) (hfits : m.Fits) : m.payload.length ≤ assemblyBytes := by
  obtain ⟨tail, rfl, hothers⟩ := eq_first_cons h hne
  obtain hnone | ⟨hfirst, hone⟩ | hroom := hfits
  · rw [hothers] at hnone
    simp at hnone
  · rw [hothers, List.length_append, List.length_singleton] at hone
    obtain rfl : tail = [] := List.eq_nil_of_length_eq_zero (by omega)
    exact absurd (by rw [hfirst, List.flatten_singleton]) hheld
  · exact hroom

theorem seen_of_held (h : m.first :: m.others = before ++ [piece]) (hne : before ≠ [])
    (hheld : before.flatten ≠ []) : m.seen = m.assembledTopic := by
  obtain ⟨tail, rfl, hothers⟩ := eq_first_cons h hne
  rw [Inbound.seen, hothers]
  cases tail with
  | nil =>
      rw [List.flatten_singleton] at hheld
      rw [Inbound.assembledTopic, if_neg hheld]
      rfl
  | cons other tail => cases tail <;> rfl

/-- The last one has the message delivered. -/
theorem Assembling.handle_last (h : Assembling c m before [piece]) (hfits : m.Fits) :
    (c.handle (.data none piece m.payload.length before.flatten.length)).2 =
      some (c.deliver m.seen m.payload) := by
  have hpayload := flatten_eq_payload h.pieces
  rw [List.flatten_singleton] at hpayload
  by_cases hnil : before.flatten = []
  · obtain ⟨-, -, hothers⟩ := eq_first_of_flatten_eq_nil h.pieces h.before_ne hnil
    have hwhole : piece = m.payload := by rw [← hpayload, hnil, List.nil_append]
    have hseen : m.seen = m.read.cut := by rw [Inbound.seen, ← hothers]
    have htopic := h.topic
    rw [if_pos hnil] at htopic
    rw [handle, handleData, hwhole, if_pos (lt_irrefl _), hseen, ← htopic]
    rfl
  · have hroom := fits_of_held h.pieces h.before_ne hnil hfits
    have htotal := congrArg List.length hpayload
    rw [List.length_append] at htotal
    obtain ⟨d, hhandle, hassembling, hheld, hlen, htopic, hdirect, hreserved⟩ :=
      h.handle_eq fun h => absurd h hnil
    rw [hhandle, assemble_last hassembling (by omega) (by omega), htopic, hheld, hpayload,
      seen_of_held h.pieces h.before_ne hnil, deliver_congr hdirect hreserved]

/-- One that does not fit ends the assembly. -/
theorem Assembling.handle_overflow (h : Assembling c m before (piece :: rest))
    (hroom : assemblyBytes < before.flatten.length + piece.length)
    (hwhole : before.flatten = [] → rest ≠ []) :
    (c.handle (.data none piece m.payload.length before.flatten.length)).2 = none ∧
      (c.handle
        (.data none piece m.payload.length before.flatten.length)).1.assembling = false := by
  obtain ⟨d, hhandle, hassembling, -, hlen, -⟩ := h.handle_eq hwhole
  rw [hhandle]
  exact assemble_overflow hassembling (by omega)

/-- Without an assembly a later fragment is dropped. -/
theorem handle_dropped (hassembling : c.assembling = false) {total offset : Nat}
    (hoffset : offset ≠ 0) (htotal : piece.length < total) :
    c.handle (.data none piece total offset) = (c, none) := by
  rw [handle, handleData, if_neg (not_not.mpr htotal), if_neg hoffset, assemble, hassembling]
  rfl

/-- The fragments `before` of a message came, and `rest` are still to come: it is being assembled,
or it does not fit and was given up. -/
def Progress (c : EspMqttClient) (m : Inbound) (before rest : List (List UInt8)) : Prop :=
  Assembling c m before rest ∨
    (m.first :: m.others = before ++ rest ∧ before.flatten ≠ [] ∧ c.assembling = false ∧ ¬m.Fits)

/-- Only what is assembled counts. -/
theorem Progress.congr {d : EspMqttClient} (h : Progress c m before rest)
    (hassembling : d.assembling = c.assembling) (hassembly : d.assembly = c.assembly)
    (hlen : d.assemblyLen = c.assemblyLen) (htopic : d.assemblyTopic = c.assemblyTopic) :
    Progress d m before rest := by
  obtain h | ⟨hpieces, hne, hoff, hfits⟩ := h
  · refine .inl ⟨h.pieces, h.before_ne, hassembling.trans h.assembling, ?_, hlen.trans h.len, ?_⟩
    · rw [hassembly, hlen, h.assembly]
    · rw [htopic, h.topic]
  · exact .inr ⟨hpieces, hne, hassembling.trans hoff, hfits⟩

theorem Progress.reserveTopic (h : Progress c m before rest) (topic : Option CString) :
    Progress (c.reserveTopic topic) m before rest := by
  unfold EspMqttClient.reserveTopic
  split
  · exact h
  split_ifs
  · exact h
  · exact h
  · exact h
  · exact h.congr rfl rfl rfl rfl

/-- A message given up stays so. -/
theorem handle_given_up (h : m.first :: m.others = before ++ piece :: rest)
    (hheld : before.flatten ≠ []) (hassembling : c.assembling = false) :
    c.handle (.data none piece m.payload.length before.flatten.length) = (c, none) := by
  have hpayload := congrArg List.length (flatten_eq_payload h)
  have hpos := List.length_pos_iff.mpr hheld
  rw [List.length_append, List.flatten_cons, List.length_append] at hpayload
  exact handle_dropped hassembling (by omega) (by omega)

/-- An unfragmented message is delivered at once. -/
theorem handle_whole (c : EspMqttClient) (hothers : m.others = []) :
    c.handle m.firstEvent = (c, some (c.deliver m.seen m.payload)) := by
  have hpayload : m.payload = m.first := by
    rw [Inbound.payload, hothers, List.flatten_nil, List.append_nil]
  have hseen : m.seen = m.read := by rw [Inbound.seen, hothers]
  rw [Inbound.firstEvent, handle, handleData, hpayload, if_pos (lt_irrefl _), hseen]
  rfl

/-- The first of several fragments starts the progress of its message. -/
theorem progress_first (c : EspMqttClient) (hothers : m.others ≠ []) :
    (c.handle m.firstEvent).2 = none ∧
      Progress (c.handle m.firstEvent).1 m [m.first] m.others := by
  obtain ⟨hnone, hheld, hover⟩ := handle_first c hothers
  refine ⟨hnone, ?_⟩
  by_cases hroom : m.first.length ≤ assemblyBytes
  · exact .inl (hheld hroom)
  · have hmore := first_lt_payload hothers
    refine .inr ⟨rfl, ?_, hover (by omega), ?_⟩
    · rw [List.flatten_singleton]
      rintro hnil
      rw [hnil] at hroom
      exact hroom (Nat.zero_le _)
    · rintro (hnone | ⟨hfirst, -⟩ | hfits)
      · exact hothers hnone
      · rw [hfirst] at hroom
        exact hroom (Nat.zero_le _)
      · omega

/-- One in the middle continues it. -/
theorem Progress.middle {next : List UInt8} (h : Progress c m before (piece :: next :: rest)) :
    (c.handle (.data none piece m.payload.length before.flatten.length)).2 = none ∧
      Progress (c.handle (.data none piece m.payload.length before.flatten.length)).1 m
        (before ++ [piece]) (next :: rest) := by
  have hheld : before.flatten ≠ [] ∨ piece ≠ [] → (before ++ [piece]).flatten ≠ [] := by
    rw [List.flatten_append, List.flatten_singleton]
    rintro (hne | hne)
    · exact List.append_ne_nil_of_left_ne_nil hne _
    · exact List.append_ne_nil_of_right_ne_nil _ hne
  obtain h | ⟨hpieces, hne, hoff, hfits⟩ := h
  · have hpieces : m.first :: m.others = (before ++ [piece]) ++ next :: rest := by
      rw [h.pieces, List.append_assoc, List.singleton_append]
    by_cases hroom : before.flatten.length + piece.length ≤ assemblyBytes
    · obtain ⟨hnone, hnext⟩ := h.handle_middle hroom
      exact ⟨hnone, .inl hnext⟩
    · have hover : assemblyBytes < before.flatten.length + piece.length := by omega
      obtain ⟨hnone, hoff⟩ := h.handle_overflow hover fun _ => by simp
      have hpiece := List.length_pos_iff.mp (length_pos_of_rest h.pieces h.before_ne)
      exact ⟨hnone, .inr ⟨hpieces, hheld (.inr hpiece), hoff,
        h.not_fits hover fun _ => by simp⟩⟩
  · rw [handle_given_up hpieces hne hoff]
    refine ⟨rfl, .inr ⟨?_, hheld (.inl hne), hoff, hfits⟩⟩
    rw [hpieces, List.append_assoc, List.singleton_append]

/-- The last one has the message delivered, if it fits. -/
theorem Progress.last (h : Progress c m before [piece]) :
    (c.handle (.data none piece m.payload.length before.flatten.length)).2 =
      if m.Fits then some (c.deliver m.seen m.payload) else none := by
  obtain h | ⟨hpieces, hne, hoff, hfits⟩ := h
  · by_cases hover : assemblyBytes < before.flatten.length + piece.length ∧
        (before.flatten = [] → [] ≠ ([] : List (List UInt8)))
    · rw [(h.handle_overflow hover.1 hover.2).1, if_neg (h.not_fits hover.1 hover.2)]
    · have hfits := h.fits_of_last hover
      rw [h.handle_last hfits, if_pos hfits]
  · rw [handle_given_up hpieces hne hoff, if_neg hfits]

/-- Events one after the other. -/
def handleAll (c : EspMqttClient) : List MqttEvent → EspMqttClient × List Delivery
  | [] => (c, [])
  | e :: events =>
      let (next, delivery) := c.handle e
      let (last, deliveries) := next.handleAll events
      (last, delivery.toList ++ deliveries)

/-- What the fragments still to come have delivered. -/
theorem Progress.handleAll (h : Progress c m before rest) (hrest : rest ≠ []) :
    (c.handleAll (m.laterEvents before.flatten.length rest)).2 =
      if m.Fits then [c.deliver m.seen m.payload] else [] := by
  induction rest generalizing c before with
  | nil => exact absurd rfl hrest
  | cons piece rest ih =>
      rw [Inbound.laterEvents, EspMqttClient.handleAll]
      cases rest with
      | nil =>
          simp only [h.last, Inbound.laterEvents, EspMqttClient.handleAll, List.append_nil]
          split_ifs <;> rfl
      | cons next rest =>
          obtain ⟨hnone, hnext⟩ := h.middle
          have hmore := ih hnext (by simp)
          rw [List.flatten_append, List.flatten_singleton, List.length_append,
            deliver_congr (c.handle_keeps _).1 (c.handle_keeps _).2] at hmore
          simp only [hnone, hmore, Option.toList_none, List.nil_append]

/-- What the events of a message have delivered. -/
theorem handleAll_events (c : EspMqttClient) (m : Inbound) :
    (c.handleAll m.events).2 = if m.Fits then [c.deliver m.seen m.payload] else [] := by
  rw [Inbound.events, handleAll]
  by_cases hothers : m.others = []
  · have hfits : m.Fits := .inl hothers
    simp only [handle_whole c hothers, hothers, Inbound.laterEvents, handleAll, if_pos hfits,
      Option.toList_some, List.append_nil]
  · obtain ⟨hnone, hprogress⟩ := progress_first c hothers
    have hlater := hprogress.handleAll hothers
    rw [List.flatten_singleton, deliver_congr (c.handle_keeps _).1 (c.handle_keeps _).2] at hlater
    simp only [hnone, hlater, Option.toList_none, List.nil_append]

end EspMqttClient

end FirmwareUpdater
