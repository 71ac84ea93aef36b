import FirmwareUpdater.Esp32.EspMqttClient
import FirmwareUpdater.Gprs.SessionDelivery
import FirmwareUpdater.Library.BoundedTable

/-!
# Reserved topics

Both MQTT clients keep a table of four topics that never go to the application's
callback, over all the sessions that begin and end. `EspMqttClient` inserts into
it, `GsmMqttClient` pushes onto it: the one is the set of the topics it was
given, the other only while these are all among its first four calls
(`reserved_as_set`).
-/

namespace FirmwareUpdater

open Library.BoundedTable

/-- Topics a client is asked to reserve: at most four different ones, none empty and each shorter
than a buffer. -/
structure Reservable (topics : List CString) : Prop where
  few : topics.dedup.length ≤ 4
  nonempty : ∀ topic ∈ topics, topic.length ≠ 0
  short : ∀ topic ∈ topics, topic.length < maxTopicLen

namespace EspMqttClient

/-- The topics that these calls name. -/
def namedBy (calls : List Call) : List CString :=
  calls.filterMap fun
    | .reserveTopic topic => topic
    | _ => none

/-- The texts of the table. -/
def reservedTexts (c : EspMqttClient) : List CString := c.reserved.map Field.text

/-- A topic is reserved when its text is in the table. -/
theorem isReserved_iff (c : EspMqttClient) (topic : CString) :
    c.isReserved topic = true ↔ topic ∈ c.reservedTexts := by
  rw [isReserved, List.any_eq_true, reservedTexts, List.mem_map]
  simp only [decide_eq_true_eq]

/-- `reserveTopic` inserts into the table. -/
theorem reserveTopic_texts (c : EspMqttClient) {topic : CString} (hne : topic.length ≠ 0)
    (hlt : topic.length < maxTopicLen) :
    (c.reserveTopic (some topic)).reservedTexts = insertNew 4 c.reservedTexts topic := by
  have hlength : c.reservedTexts.length = c.reserved.length := List.length_map _
  simp only [reserveTopic, if_neg hne, insertNew, hlength]
  by_cases hfull : c.reserved.length ≥ maxReserved
  · rw [dif_pos hfull, if_pos (.inl hfull)]
  · rw [dif_neg hfull]
    by_cases hthere : c.isReserved topic = true
    · rw [if_pos hthere, if_pos (.inr ((c.isReserved_iff topic).mp hthere))]
    · have hfree : ¬(4 ≤ c.reserved.length ∨ topic ∈ c.reservedTexts) := by
        rintro (h | h)
        · exact hfull h
        · exact hthere ((c.isReserved_iff topic).mpr h)
      rw [if_neg hthere, if_neg hfree, reservedTexts, List.map_append, List.map_singleton,
        Field.text_print _ hlt]
      rfl

/-- Over any calls, the table is filled with the topics they name. -/
theorem reservedTexts_run {calls : List Call} (hnonempty : ∀ t ∈ namedBy calls, t.length ≠ 0)
    (hshort : ∀ t ∈ namedBy calls, t.length < maxTopicLen) :
    (calls.foldl Session.exec {}).client.reservedTexts = insertAll 4 (namedBy calls) := by
  refine table_run Session.exec (·.client.reservedTexts) _ (insertNew 4)
    (fun t => t.length ≠ 0 ∧ t.length < maxTopicLen) ?_ ?_
    (fun t ht => ⟨hnonempty t ht, hshort t ht⟩) {}
  · intro s call topic hcall hfits
    cases call with
    | reserveTopic =>
        obtain rfl := hcall
        exact reserveTopic_texts _ hfits.1 hfits.2
    | _ => cases hcall
  · intro s call hcall
    cases call with
    | reserveTopic =>
        obtain rfl := hcall
        rfl
    | _ =>
        refine congrArg (·.map Field.text) (Session.exec_reserved s fun topic hreserve => ?_)
        cases hreserve

/-- The client treats the topics it was given as a set: it reports exactly these as reserved, and
takes no message of theirs to the callback. -/
def AsSet (topics : List CString) (c : EspMqttClient) : Prop :=
  (∀ topic, c.isReserved topic = true ↔ topic ∈ topics) ∧
    ∀ topic ∈ topics, ∀ payload, c.deliver topic payload = .push topic payload

/-- It does when that is what its table holds. -/
theorem asSet_iff {topics : List CString} {c : EspMqttClient} :
    AsSet topics c ↔ ∀ topic, topic ∈ c.reservedTexts ↔ topic ∈ topics := by
  simp only [AsSet, isReserved_iff]
  refine and_iff_left_of_imp fun h topic htopic payload => ?_
  have hreserved := (c.isReserved_iff topic).mpr ((h topic).mpr htopic)
  rw [deliver, hreserved, Bool.not_true, Bool.and_false]
  rfl

end EspMqttClient

namespace Recepcao

/-- The texts of the table. -/
def textosReservados (c : Recepcao) : List CString := c.reservados.map Field.text

/-- A topic is reserved when its text is in the table. -/
theorem reservado_iff (c : Recepcao) (topico : CString) :
    c.reservado topico = true ↔ topico ∈ c.textosReservados := by
  rw [reservado, List.any_eq_true, textosReservados, List.mem_map]
  simp only [decide_eq_true_eq]

/-- `reserveTopic` pushes onto the table. -/
theorem reserveTopic_textos (c : Recepcao) {topic : CString} (hlt : topic.length < topicoMax) :
    (c.reserveTopic (some topic)).textosReservados = push 4 c.textosReservados topic := by
  have hlength : c.textosReservados.length = c.reservados.length := List.length_map _
  simp only [reserveTopic, push, hlength]
  by_cases hfull : c.reservados.length ≥ reservadosMax
  · rw [if_pos hfull, if_pos (show 4 ≤ c.reservados.length from hfull)]
  · rw [if_neg hfull, if_neg (show ¬4 ≤ c.reservados.length from hfull), textosReservados,
      List.map_append, List.map_singleton, Field.text_print _ hlt]
    rfl

/-- The client treats the topics it was given as a set. -/
def AsSet (topics : List CString) (c : Recepcao) : Prop :=
  (∀ topic, c.reservado topic = true ↔ topic ∈ topics) ∧
    ∀ r : Recebida, r.topico ∈ topics → (c.entregar r).1 ≠ .direto

/-- It does when that is what its table holds. -/
theorem asSet_iff {topics : List CString} {c : Recepcao} :
    AsSet topics c ↔ ∀ topic, topic ∈ c.textosReservados ↔ topic ∈ topics := by
  simp only [AsSet, reservado_iff]
  refine and_iff_left_of_imp fun h r htopic => ?_
  have hreserved := (c.reservado_iff r.topico).mpr ((h r.topico).mpr htopic)
  rw [entregar, hreserved, Bool.not_true, Bool.and_false, if_neg Bool.false_ne_true]
  dsimp only
  split <;> exact fun hdirect => by cases hdirect

end Recepcao

namespace Cliente

/-- The topics that these calls name. -/
def namedBy (chamadas : List ChamadaCliente) : List CString :=
  chamadas.filterMap fun
    | .reserveTopic topic => topic
    | _ => none

/-- Only `reserveTopic` changes the reserved topics: sessions begin and end around them. -/
theorem exec_reservados (s : Cliente) {chamada : ChamadaCliente}
    (hcall : ∀ topic, chamada ≠ .reserveTopic topic) :
    (s.exec chamada).recepcao.reservados = s.recepcao.reservados := by
  cases chamada with
  | reserveTopic topic => exact absurd rfl (hcall topic)
  | poll topic payload =>
      show (s.recepcao.poll topic payload).2.reservados = _
      unfold Recepcao.poll
      split <;> rfl
  | aoReceber r =>
      show (s.aoReceber r).2.recepcao.reservados = _
      unfold aoReceber Recepcao.entregar
      dsimp only
      repeat' split
      all_goals rfl
  | _ => rfl

/-- Over any calls, the table is filled with the topics they name. -/
theorem textosReservados_run (cfg : GprsConfig) (millis : UInt32) {chamadas : List ChamadaCliente}
    (hshort : ∀ t ∈ namedBy chamadas, t.length < maxTopicLen) :
    ((ligado cfg millis).execAll chamadas).recepcao.textosReservados =
      pushAll 4 (namedBy chamadas) := by
  refine table_run exec (·.recepcao.textosReservados) _ (push 4) (·.length < maxTopicLen) ?_ ?_
    hshort (ligado cfg millis)
  · intro s chamada topic hcall hfits
    cases chamada with
    | reserveTopic =>
        obtain rfl := hcall
        exact Recepcao.reserveTopic_textos _ hfits
    | _ => cases hcall
  · intro s chamada hcall
    cases chamada with
    | reserveTopic =>
        obtain rfl := hcall
        rfl
    | _ =>
        refine congrArg (·.map Field.text) (exec_reservados s fun topic hreserve => ?_)
        cases hreserve

end Cliente

/-- Over any calls that name at most four topics, sessions beginning and ending among them,
`EspMqttClient` treats these as a set, and `GsmMqttClient` exactly if each of them is named in the
first four calls that name one. -/
theorem reserved_as_set (calls : List EspMqttClient.Call) (cfg : GprsConfig) (millis : UInt32)
    (chamadas : List ChamadaCliente) (hesp : Reservable (EspMqttClient.namedBy calls))
    (hgsm : Reservable (Cliente.namedBy chamadas)) :
    EspMqttClient.AsSet (EspMqttClient.namedBy calls)
        (calls.foldl EspMqttClient.Session.exec {}).client ∧
      (Recepcao.AsSet (Cliente.namedBy chamadas)
          ((Cliente.ligado cfg millis).execAll chamadas).recepcao ↔
        ∀ topic ∈ Cliente.namedBy chamadas, topic ∈ (Cliente.namedBy chamadas).take 4) := by
  constructor
  · rw [EspMqttClient.asSet_iff, EspMqttClient.reservedTexts_run hesp.nonempty hesp.short]
    exact mem_insertAll_iff hesp.few
  · rw [Recepcao.asSet_iff, Cliente.textosReservados_run cfg millis hgsm.short, pushAll_eq_take]
    constructor
    · intro h topic htopic
      exact (h topic).mpr htopic
    · intro h topic
      exact ⟨fun htaken => List.mem_of_mem_take htaken, h topic⟩

/-- Two topics, reserved again by a second session. -/
theorem reserved_as_set_sample :
    let topics : List CString := [.ofBytes [97], .ofBytes [98], .ofBytes [97], .ofBytes [98]]
    let calls := topics.map fun topic => EspMqttClient.Call.reserveTopic (some topic)
    let chamadas := topics.map fun topic => ChamadaCliente.reserveTopic (some topic)
    EspMqttClient.AsSet (EspMqttClient.namedBy calls)
        (calls.foldl EspMqttClient.Session.exec {}).client ∧
      (Recepcao.AsSet (Cliente.namedBy chamadas)
          ((Cliente.ligado { apn := some .empty, pinTx := 1, pinRx := 2 } 0).execAll
            chamadas).recepcao ↔
        ∀ topic ∈ Cliente.namedBy chamadas, topic ∈ (Cliente.namedBy chamadas).take 4) :=
  reserved_as_set _ _ 0 _ ⟨by decide +kernel, by decide +kernel, by decide +kernel⟩
    ⟨by decide +kernel, by decide +kernel, by decide +kernel⟩

/-- A topic registered by each of four sessions leaves no room for a second one. -/
theorem reserved_topic_is_lost :
    let chamadas := [97, 97, 97, 97, 98].map fun byte =>
      ChamadaCliente.reserveTopic (some (.ofBytes [byte]))
    Reservable (Cliente.namedBy chamadas) ∧
      ¬Recepcao.AsSet (Cliente.namedBy chamadas)
        ((Cliente.ligado { apn := some .empty, pinTx := 1, pinRx := 2 } 0).execAll
          chamadas).recepcao := by
  refine ⟨⟨by decide +kernel, by decide +kernel, by decide +kernel⟩, ?_⟩
  intro h
  exact absurd ((h.1 (.ofBytes [98])).mpr (by decide +kernel)) (by decide +kernel)

end FirmwareUpdater
