import FirmwareUpdater.Gprs.GsmMqttClient
import FirmwareUpdater.Library.Channel
import FirmwareUpdater.Library.Circular

/-!
# Messages on their way in

What `GsmMqttClient` receives goes to the direct callback or into a queue of six
slots, one of them always free, that `poll` empties. The queue refines a bounded
channel (`Recepcao.refina`), but what it stores of a payload is at most the 512
bytes of a slot, and the rest is neither refused nor counted: `fila_fiel_iff` says
for which runs the messages that come out are the ones that went in.
-/

namespace FirmwareUpdater

open Library Channel

/-- `kFila`. -/
def filaMax : Nat := 6

/-- `kCargaMax`. -/
def cargaMax : Nat := 512

/-- `kReservados`. -/
def reservadosMax : Nat := 4

/-- `GsmMqttClient::Mensagem`. -/
structure Mensagem where
  topico : Field topicoMax
  carga : List UInt8
  len : Nat
  carga_length : carga.length = cargaMax
  len_le : len ≤ cargaMax

/-- A message as the MQTT library hands it over, or as `poll` gives it back. -/
structure Recebida where
  topico : CString
  carga : List UInt8
  deriving DecidableEq

namespace Mensagem

/-- A slot nothing was written to yet. -/
def vazia : Mensagem where
  topico := .empty topicoMax_pos
  carga := List.replicate cargaMax 0
  len := 0
  carga_length := List.length_replicate
  len_le := Nat.zero_le _

/-- What `entregar` copies of a payload. -/
def copiada (carga : List UInt8) : Nat := if carga.length < cargaMax then carga.length else cargaMax

/-- It fits the slot, and there is as much to copy. -/
theorem copiada_le (carga : List UInt8) :
    copiada carga ≤ cargaMax ∧ copiada carga ≤ carga.length := by
  unfold copiada
  split <;> omega

/-- The bytes `entregar` copies. -/
theorem length_take_copiada (carga : List UInt8) :
    (carga.take (copiada carga)).length = copiada carga := by
  rw [List.length_take, Nat.min_eq_left (copiada_le carga).2]

/-- The slot is as long as before. -/
theorem length_overwrite (m : Mensagem) (carga : List UInt8) :
    (overwrite m.carga (carga.take (copiada carga))).length = cargaMax := by
  have hroom := copiada_le carga
  rw [overwrite, List.length_append, List.length_drop, length_take_copiada, m.carga_length]
  omega

/-- What `entregar` writes to a slot. -/
def escrever (m : Mensagem) (r : Recebida) : Mensagem where
  topico := .print topicoMax_pos r.topico
  carga := overwrite m.carga (r.carga.take (copiada r.carga))
  len := copiada r.carga
  carga_length := m.length_overwrite r.carga
  len_le := (copiada_le r.carga).1

/-- The message a slot holds. -/
def conteudo (m : Mensagem) : Recebida := ⟨m.topico.text, m.carga.take m.len⟩

end Mensagem

/-- What a slot can hold of a message. -/
def Recebida.cortada (r : Recebida) : Recebida :=
  ⟨(Field.print topicoMax_pos r.topico).text, r.carga.take cargaMax⟩

/-- What was written to a slot is what it can hold of the message. -/
theorem Mensagem.conteudo_escrever (m : Mensagem) (r : Recebida) :
    (m.escrever r).conteudo = r.cortada := by
  have hcopied : r.carga.take (copiada r.carga) = r.carga.take cargaMax := by
    unfold copiada
    split
    · rename_i hshort
      rw [List.take_length, List.take_of_length_le hshort.le]
    · rfl
  have hread := take_overwrite m.carga (r.carga.take (copiada r.carga))
  rw [length_take_copiada] at hread
  simp only [conteudo, escrever, Recebida.cortada]
  rw [hread, hcopied]

/-- A message that fits a slot is stored as it is. -/
theorem Recebida.cortada_eq_iff {r : Recebida} (htopico : r.topico.length < topicoMax) :
    r.cortada = r ↔ r.carga.length ≤ cargaMax := by
  obtain ⟨⟨bytes, hnul⟩, carga⟩ := r
  have hfits : bytes.take (topicoMax - 1) = bytes := by
    have hlt : bytes.length < topicoMax := htopico
    exact List.take_of_length_le (by omega)
  simp [Recebida.cortada, Field.print, hfits, List.take_eq_self_iff]

/-- The members of `GsmMqttClient` that messages go through. `direto` says whether a direct callback
is installed. -/
structure Recepcao where
  fila : Nat → Mensagem := fun _ => .vazia
  inicio : Nat := 0
  fim : Nat := 0
  dropped : UInt32 := 0
  direto : Bool := false
  reservados : List (Field topicoMax) := []
  inicio_lt : inicio < filaMax := by decide
  fim_lt : fim < filaMax := by decide

/-- Where `entregar` took a message. -/
inductive Destino where
  | direto
  | descartada
  | enfileirada
  deriving DecidableEq, Repr

/-- What `poll` wrote to the caller's buffers. -/
structure Lida where
  topico : Option (List UInt8)
  carga : Option (List UInt8)
  len : Nat

/-- The message a caller of `poll` has, if it gave both buffers. -/
def Lida.mensagem (l : Lida) : Option Recebida :=
  match l.topico, l.carga with
  | some topico, some carga => some ⟨.ofBytes topico, carga.take l.len⟩
  | _, _ => none

namespace Recepcao

/-- `reservado`. -/
def reservado (c : Recepcao) (topico : CString) : Bool :=
  c.reservados.any fun reservado => reservado.text = topico

/-- `entregar`. -/
def entregar (c : Recepcao) (r : Recebida) : Destino × Recepcao :=
  if c.direto && !c.reservado r.topico then (.direto, c)
  else
    let proximo := (c.fim + 1) % filaMax
    if proximo = c.inicio then (.descartada, { c with dropped := c.dropped + 1 })
    else
      (.enfileirada,
        { c with
          fila := Function.update c.fila c.fim ((c.fila c.fim).escrever r)
          fim := proximo
          fim_lt := Nat.mod_lt _ (by decide) })

/-- `poll`. -/
def poll (c : Recepcao) (topic payload : Buffer) : Option Lida × Recepcao :=
  if c.inicio = c.fim then (none, c)
  else
    let m := c.fila c.inicio
    let len := if m.len < payload.len then m.len else payload.len
    (some
      { topico := topic.data.map fun block => snprintf block topic.len m.topico.text
        carga := payload.data.map fun block => overwrite block (m.carga.take len)
        len },
      { c with inicio := (c.inicio + 1) % filaMax, inicio_lt := Nat.mod_lt _ (by decide) })

/-- `setDirectCallback`. -/
def setDirectCallback (c : Recepcao) (cb : Bool) : Recepcao := { c with direto := cb }

/-- `reserveTopic`. -/
def reserveTopic (c : Recepcao) (topic : Option CString) : Recepcao :=
  match topic with
  | none => c
  | some topic =>
      if c.reservados.length ≥ reservadosMax then c
      else { c with reservados := c.reservados ++ [.print topicoMax_pos topic] }

/-- The messages in the queue, oldest first. -/
def conteudo (c : Recepcao) : List Recebida :=
  (Circular.contents filaMax c.fila c.inicio c.fim).map Mensagem.conteudo

/-- The buffers of a `poll` take the oldest message in the queue. -/
def Basta (c : Recepcao) (topic payload : Buffer) : Prop :=
  topic.data.isSome ∧ payload.data.isSome ∧
    ∀ r ∈ c.conteudo.head?, r.topico.length < topic.len ∧ r.carga.length ≤ payload.len

/-- What the two sides see of one call. -/
def visto (r : Recebida) : Destino → List (Observation Recebida)
  | .direto => []
  | .descartada => [.refused]
  | .enfileirada => [.pushed r]

/-- A message comes in on a topic a slot can hold, `poll` is called with buffers that suffice, or
the routing changes. -/
inductive Passo : Recepcao → List (Observation Recebida) → Recepcao → Prop where
  | entregar {c} (r) : r.topico.length < topicoMax →
      Passo c (visto r (c.entregar r).1) (c.entregar r).2
  | poll {c lida r} (topic payload) : c.Basta topic payload →
      (c.poll topic payload).1 = some lida → lida.mensagem = some r →
      Passo c [.popped r] (c.poll topic payload).2
  | vazia {c} (topic payload) : (c.poll topic payload).1 = none →
      Passo c [.empty] (c.poll topic payload).2
  | setDirectCallback {c} (cb) : Passo c [] (c.setDirectCallback cb)
  | reserveTopic {c} (topic) : Passo c [] (c.reserveTopic topic)

/-! ## One call -/

/-- Nothing is queued where the queue starts where it stops. -/
theorem conteudo_vazia {c : Recepcao} (h : c.inicio = c.fim) : c.conteudo = [] := by
  rw [conteudo, h, Circular.contents_self, List.map_nil]

/-- The oldest message and the rest. -/
theorem conteudo_poll {c : Recepcao} (h : c.inicio ≠ c.fim) (topic payload : Buffer) :
    c.conteudo = (c.fila c.inicio).conteudo :: (c.poll topic payload).2.conteudo := by
  rw [conteudo, Circular.contents_pop c.inicio_lt c.fim_lt h, List.map_cons, poll, if_neg h]
  rfl

/-- A message that is queued goes behind the others, cut to a slot. -/
theorem conteudo_entregar {c : Recepcao} {r : Recebida} (h : (c.entregar r).1 = .enfileirada) :
    (c.entregar r).2.conteudo = c.conteudo ++ [r.cortada] ∧ c.conteudo.length < filaMax - 1 := by
  unfold entregar at h ⊢
  split at h
  · cases h
  rename_i hqueued
  dsimp only at h
  split at h
  · cases h
  rename_i hroom
  rw [if_neg hqueued]
  dsimp only
  rw [if_neg hroom]
  refine ⟨?_, ?_⟩
  · simp only [conteudo]
    rw [Circular.contents_push c.inicio_lt c.fim_lt hroom, List.map_append, List.map_singleton,
      Mensagem.conteudo_escrever]
  · rw [conteudo, List.length_map]
    exact Circular.length_contents_lt c.inicio_lt c.fim_lt hroom

/-- A message that is not queued leaves the queue as it was. -/
theorem conteudo_entregar_fora {c : Recepcao} {r : Recebida} (h : (c.entregar r).1 ≠ .enfileirada) :
    (c.entregar r).2.conteudo = c.conteudo := by
  unfold entregar at h ⊢
  split
  · rfl
  · rename_i hqueued
    rw [if_neg hqueued] at h
    dsimp only at h ⊢
    split
    · rfl
    · rename_i hroom
      rw [if_neg hroom] at h
      exact absurd rfl h

/-- What `poll` gives is the oldest message, with buffers that suffice. -/
theorem poll_mensagem {c : Recepcao} {topic payload : Buffer} {lida : Lida} {r : Recebida}
    (hbasta : c.Basta topic payload) (hlida : (c.poll topic payload).1 = some lida)
    (hr : lida.mensagem = some r) :
    c.conteudo = r :: (c.poll topic payload).2.conteudo := by
  by_cases hempty : c.inicio = c.fim
  · rw [poll, if_pos hempty] at hlida
    cases hlida
  have hfront := conteudo_poll hempty topic payload
  rw [hfront]
  congr 1
  obtain ⟨htopic, hpayload, hroom⟩ := hbasta
  rw [hfront] at hroom
  obtain ⟨hcap, hlen⟩ := hroom _ rfl
  obtain ⟨block, hblock⟩ := Option.isSome_iff_exists.mp htopic
  obtain ⟨bytes, hbytes⟩ := Option.isSome_iff_exists.mp hpayload
  rw [poll, if_neg hempty] at hlida
  generalize c.fila c.inicio = m at *
  -- All of the slot's payload is copied, so the length handed back is the slot's.
  have hstored : (m.carga.take m.len).length = m.len := by
    rw [List.length_take, m.carga_length, Nat.min_eq_left m.len_le]
  have hall : (if m.len < payload.len then m.len else payload.len) = m.len := by
    have hle : m.len ≤ payload.len := hstored ▸ hlen
    split <;> omega
  dsimp only at hlida
  rw [hall, hblock, hbytes] at hlida
  cases hlida
  simp only [Option.map_some, Lida.mensagem, Option.some.injEq] at hr
  rw [← hr]
  have htext : CString.ofBytes (snprintf block topic.len m.topico.text) = m.topico.text := by
    have hread := CString.ofBytes_snprintf (Nat.zero_lt_of_lt hcap) block m.topico.text
    have hfits : m.topico.text.bytes.length ≤ topic.len - 1 := Nat.le_sub_one_of_lt hcap
    rw [List.take_of_length_le hfits] at hread
    rw [CString.mk.injEq] at *
    exact hread
  rw [Mensagem.conteudo, htext]
  have hread := take_overwrite bytes (m.carga.take m.len)
  rw [hstored] at hread
  rw [hread]

/-! ## Whole runs -/

/-- What was pushed, as a slot holds it. -/
def guardado : Observation Recebida → Observation Recebida
  | .pushed r => .pushed r.cortada
  | visto => visto

/-- The queue is a channel of five messages, for what its slots hold of the messages. -/
theorem refina {vistos : List (List (Observation Recebida))} {c d : Recepcao}
    (hrun : Run Passo c vistos d) :
    ∃ history, Run (Channel.Step (filaMax - 1)) c.conteudo history d.conteudo ∧
      history.map Event.observe = vistos.flatten.map guardado := by
  have hstep : ∀ (c : Recepcao) vistos d queue, c.conteudo = queue → Passo c vistos d →
      ∃ events next, Run (Channel.Step (filaMax - 1)) queue events next ∧
        events.map Event.observe = vistos.map guardado ∧ d.conteudo = next := by
    rintro c _ _ queue rfl hpasso
    cases hpasso with
    | entregar r =>
        cases hdestino : (c.entregar r).1 with
        | direto => exact ⟨[], _, .nil _, rfl, conteudo_entregar_fora (by simp [hdestino])⟩
        | descartada =>
            exact ⟨[.refused], _, .single (.refused _), rfl,
              conteudo_entregar_fora (by simp [hdestino])⟩
        | enfileirada =>
            obtain ⟨hnext, hroom⟩ := conteudo_entregar hdestino
            exact ⟨[.pushed r.cortada], _, .single (.pushed _ _ hroom), rfl, hnext⟩
    | @poll lida r topic payload hbasta hlida hr =>
        rw [poll_mensagem hbasta hlida hr]
        exact ⟨[.popped r], _, .single (.popped _ _), rfl, rfl⟩
    | vazia topic payload hnone =>
        have hempty : c.inicio = c.fim := by
          by_contra hne
          rw [poll, if_neg hne] at hnone
          cases hnone
        have hsame : (c.poll topic payload).2 = c := by rw [poll, if_pos hempty]
        rw [hsame, conteudo_vazia hempty]
        exact ⟨[.empty], _, .single .empty, rfl, rfl⟩
    | setDirectCallback cb => exact ⟨[], _, .nil _, rfl, rfl⟩
    | reserveTopic topic =>
        refine ⟨[], _, .nil _, rfl, ?_⟩
        unfold Recepcao.reserveTopic
        split
        · rfl
        · split <;> rfl
  obtain ⟨history, next, habs, hshown, rfl⟩ :=
    hrun.simulation (fun c queue => c.conteudo = queue) Event.observe hstep rfl
  refine ⟨history, habs, ?_⟩
  rw [hshown, List.map_flatten, List.flatMap_def]

/-- A call counts the refusal it shows, and shows no clear. -/
theorem Passo.dropped {vistos : List (Observation Recebida)} {c d : Recepcao}
    (hpasso : Passo c vistos d) :
    d.dropped = c.dropped + .ofNat (refusals vistos) ∧ .cleared ∉ vistos := by
  have hkeep : c.dropped = c.dropped + .ofNat 0 := by simp
  cases hpasso with
  | entregar r =>
      unfold Recepcao.entregar
      split
      · exact ⟨hkeep, by simp [visto]⟩
      dsimp only
      split
      · exact ⟨rfl, by simp [visto]⟩
      · exact ⟨hkeep, by simp [visto]⟩
  | poll topic payload | vazia topic payload =>
      unfold Recepcao.poll
      split
      · exact ⟨hkeep, by simp⟩
      · exact ⟨hkeep, by simp⟩
  | setDirectCallback cb => exact ⟨hkeep, by simp⟩
  | reserveTopic topic =>
      refine ⟨?_, by simp⟩
      unfold Recepcao.reserveTopic
      split
      · exact hkeep
      · split <;> exact hkeep

/-- The counter is the number of refusals, modulo its width, and nothing is ever cleared. -/
theorem run_dropped {vistos : List (List (Observation Recebida))} {c d : Recepcao}
    (hrun : Run Passo c vistos d) :
    d.dropped = c.dropped + .ofNat (refusals vistos.flatten) ∧ .cleared ∉ vistos.flatten := by
  induction hrun with
  | nil => simp [refusals]
  | cons hstep _ ih =>
      obtain ⟨hfirst, hnone⟩ := hstep.dropped
      obtain ⟨hrest, hnever⟩ := ih
      rw [List.flatten_cons, refusals_append, hrest, hfirst, UInt32.ofNat_add,
        UInt32.add_assoc]
      exact ⟨rfl, by simp [hnone, hnever]⟩

/-- What was pushed, as the slots hold it. -/
theorem pushes_guardado (vistos : List (Observation Recebida)) :
    pushes (vistos.map guardado) = (pushes vistos).map Recebida.cortada ∧
      pops (vistos.map guardado) = pops vistos := by
  induction vistos with
  | nil => exact ⟨rfl, rfl⟩
  | cons visto vistos ih => cases visto <;> simp [guardado, pushes, pops, ih.1, ih.2]

/-- The topics that were let in fit a slot. -/
theorem run_topico {vistos : List (List (Observation Recebida))} {c d : Recepcao}
    (hrun : Run Passo c vistos d) :
    ∀ r ∈ pushes vistos.flatten, r.topico.length < topicoMax := by
  induction hrun with
  | nil => simp [pushes]
  | @cons c _ _ vistos _ hstep _ ih =>
      have hfirst : ∀ r ∈ pushes vistos, r.topico.length < topicoMax := by
        cases hstep with
        | entregar r htopico => cases (c.entregar r).1 <;> simp [visto, pushes, htopico]
        | poll | vazia | setDirectCallback | reserveTopic => simp [pushes]
      rw [List.flatten_cons, pushes_append]
      intro r hr
      rcases List.mem_append.mp hr with hnow | hlater
      · exact hfirst r hnow
      · exact ih r hlater

/-- The messages that came out and those still queued are, in order and byte for byte, the ones
that were let in, and the others are counted. -/
def Fiel (vistos : List (Observation Recebida)) (c : Recepcao) : Prop :=
  pushes vistos = pops vistos ++ c.conteudo ∧ c.dropped = .ofNat (refusals vistos)

/-- Over every sequence of messages and polls the queue is faithful exactly when no message that
finds room has more bytes than a slot. -/
theorem fila_fiel_iff {vistos : List (List (Observation Recebida))} {c : Recepcao}
    (hrun : Run Passo {} vistos c) :
    Fiel vistos.flatten c ↔ ∀ r ∈ pushes vistos.flatten, r.carga.length ≤ cargaMax := by
  obtain ⟨history, habs, hshown⟩ := refina hrun
  obtain ⟨hdropped, hclear⟩ := run_dropped hrun
  have hcounted : c.dropped = .ofNat (refusals vistos.flatten) := by
    rw [hdropped]
    exact UInt32.zero_add _
  have hstored : (pushes vistos.flatten).map Recebida.cortada =
      pops vistos.flatten ++ c.conteudo := by
    have hnone : .cleared ∉ history.map Event.observe := by
      rw [hshown, List.mem_map]
      rintro ⟨visto, hmem, hcut⟩
      cases visto <;> first | exact hclear hmem | cases hcut
    have hdelivers := channel_delivers habs hnone
    rw [hshown, (pushes_guardado _).1, (pushes_guardado _).2] at hdelivers
    exact hdelivers
  -- Faithful means that no message was cut on its way into a slot.
  have huncut : Fiel vistos.flatten c ↔
      (pushes vistos.flatten).map Recebida.cortada = (pushes vistos.flatten).map id := by
    rw [Fiel, hstored, List.map_id, eq_comm]
    exact and_iff_left hcounted
  rw [huncut, List.map_inj_left]
  exact forall₂_congr fun r hr => Recebida.cortada_eq_iff (run_topico hrun r hr)

/-- A buffer of zeros. -/
def bufferDe (cap : Nat) : Buffer where
  data := some (List.replicate cap 0)
  len := cap
  sized := by
    rintro _ ⟨⟩
    exact List.length_replicate

/-- One message of three bytes in and out. -/
theorem fila_fiel_tres_bytes :
    ∃ (vistos : List (List (Observation Recebida))) (c : Recepcao),
      Run Passo {} vistos c ∧ pops vistos.flatten = [⟨.ofBytes [116], [1, 2, 3]⟩] ∧
      (Fiel vistos.flatten c ↔ ∀ r ∈ pushes vistos.flatten, r.carga.length ≤ cargaMax) := by
  have hin : Passo {} _ _ := .entregar ⟨.ofBytes [116], [1, 2, 3]⟩ (by decide)
  have hout : Passo (Recepcao.entregar {} ⟨.ofBytes [116], [1, 2, 3]⟩).2 [.popped _] _ :=
    .poll (bufferDe 128) (bufferDe 512) ⟨rfl, rfl, by decide +kernel⟩ rfl rfl
  have hrun := Run.cons hin (.single hout)
  exact ⟨_, _, hrun, by decide +kernel, fila_fiel_iff hrun⟩

/-- A message of 513 bytes comes out with 512, and is not counted. -/
theorem poll_devolve_cortada :
    ∃ (vistos : List (List (Observation Recebida))) (c : Recepcao),
      Run Passo {} vistos c ∧
      pushes vistos.flatten = [⟨.ofBytes [116], List.replicate 513 1⟩] ∧
      pops vistos.flatten = [⟨.ofBytes [116], List.replicate 512 1⟩] ∧
      c.dropped = 0 ∧ ¬ Fiel vistos.flatten c := by
  have hin : Passo {} _ _ := .entregar ⟨.ofBytes [116], List.replicate 513 1⟩ (by decide)
  have hout : Passo (Recepcao.entregar {} ⟨.ofBytes [116], List.replicate 513 1⟩).2 [.popped _] _ :=
    .poll (bufferDe 128) (bufferDe 1024) ⟨rfl, rfl, by decide +kernel⟩ rfl rfl
  refine ⟨_, _, .cons hin (.single hout), by decide +kernel, by decide +kernel,
    by decide +kernel, ?_⟩
  rintro ⟨hwhole, _⟩
  revert hwhole
  decide +kernel

end Recepcao

end FirmwareUpdater
