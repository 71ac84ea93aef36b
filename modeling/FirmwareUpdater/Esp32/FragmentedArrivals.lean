import FirmwareUpdater.Esp32.MessageAssembly

/-!
# What arrives of messages cut in any way

`Arrives` is every sequence of events in which the fragments of a message come in
order from offset 0: cut in any way, empty pieces included, with other events in
between, and broken off by a disconnect wherever it comes. `delivered_of_arrives`
says which payloads are delivered then.
-/

namespace FirmwareUpdater

/-- The payload that was handed to `deliver`. -/
def Delivery.payload : Delivery → List UInt8
  | .direct _ payload => payload
  | .push _ payload => payload

/-- An event that is neither data nor the end of the connection. -/
def MqttEvent.Quiet : MqttEvent → Prop
  | .connected | .error | .other => True
  | .disconnected | .data .. => False

/-- These events carry the pieces of a message of `total` bytes, from an offset on, each with
whatever topic, and quiet events among them. -/
inductive Pieces (total : Nat) : Nat → List (List UInt8) → List MqttEvent → Prop where
  | nil (offset) : Pieces total offset [] []
  | piece {offset pieces events} (topic data) :
      Pieces total (offset + data.length) pieces events →
      Pieces total offset (data :: pieces) (.data topic data total offset :: events)
  | quiet {offset pieces events} (e : MqttEvent) : e.Quiet → Pieces total offset pieces events →
      Pieces total offset pieces (e :: events)

/-- These events carry complete messages, given by their pieces, in this order; others are broken
off by a disconnect, or unfinished at the end. -/
inductive Arrives : List (List (List UInt8)) → List MqttEvent → Prop where
  | nil : Arrives [] []
  | quiet {arrivals events} (e : MqttEvent) : e.Quiet ∨ e = .disconnected →
      Arrives arrivals events → Arrives arrivals (e :: events)
  | message {pieces arrivals here events} : pieces ≠ [] →
      Pieces pieces.flatten.length 0 pieces here → Arrives arrivals events →
      Arrives (pieces :: arrivals) (here ++ events)
  | brokenOff {total pieces arrivals here events} : pieces.flatten.length < total →
      Pieces total 0 pieces here → Arrives arrivals events →
      Arrives arrivals (here ++ .disconnected :: events)
  | unfinished {total pieces here} : pieces.flatten.length < total → Pieces total 0 pieces here →
      Arrives [] here

namespace EspMqttClient

/-- A message that is delivered: it fits the assembly, or a single event has all of it. -/
def Complete (pieces : List (List UInt8)) : Prop :=
  pieces.flatten.length ≤ assemblyBytes ∨ pieces.flatten ∈ pieces

instance (pieces : List (List UInt8)) : Decidable (Complete pieces) :=
  inferInstanceAs (Decidable (_ ∨ _))

/-- Nothing of an earlier message is held. -/
def Idle (c : EspMqttClient) : Prop := c.assembling = true → c.assemblyLen = 0

/-- How far the client is with a message of `total` bytes when the pieces `done` of it came, and
what it has delivered of it: nothing came yet; it holds what came; it gave the message up; or it
delivered it, and only empty pieces can follow. -/
inductive Stage (total : Nat) (done : List (List UInt8)) (c : EspMqttClient) :
    List (List UInt8) → Prop where
  | fresh : done.flatten = [] → c.Idle → Stage total done c []
  | held : c.assembling = true → c.assemblyLen = done.flatten.length →
      c.assembly.take c.assemblyLen = done.flatten → done.flatten ≠ [] →
      done.flatten.length < total → Stage total done c []
  | dropped : c.assembling = false → assemblyBytes < done.flatten.length →
      (∀ piece ∈ done, piece.length < total) → Stage total done c []
  | delivered : c.Idle → done.flatten.length = total → Complete done →
      Stage total done c [done.flatten]

variable {c : EspMqttClient} {total : Nat} {done : List (List UInt8)} {out : List (List UInt8)}

@[simp]
theorem deliver_payload (c : EspMqttClient) (topic : CString) (payload : List UInt8) :
    (c.deliver topic payload).payload = payload := by
  unfold deliver
  split <;> rfl

/-- What an event delivers. -/
def payloads (delivery : Option Delivery) : List (List UInt8) :=
  delivery.toList.map Delivery.payload

/-- A quiet event changes nothing of that. -/
theorem Stage.quiet (h : Stage total done c out) {e : MqttEvent} (he : e.Quiet) :
    Stage total done (c.handle e).1 out ∧ payloads (c.handle e).2 = [] := by
  have hkept : (c.handle e).1.assembling = c.assembling ∧
      (c.handle e).1.assemblyLen = c.assemblyLen ∧ (c.handle e).1.assembly = c.assembly ∧
      (c.handle e).2 = none := by
    cases e with
    | connected | error | other => exact ⟨rfl, rfl, rfl, rfl⟩
    | disconnected | data => exact he.elim
  obtain ⟨hassembling, hlen, hassembly, hnone⟩ := hkept
  refine ⟨?_, by rw [hnone]; rfl⟩
  cases h with
  | fresh hdone hidle =>
      refine .fresh hdone ?_
      rw [Idle, hassembling, hlen]
      exact hidle
  | held hon hlength hheld hne hlt =>
      rw [← hassembling] at hon
      rw [← hlen] at hlength
      rw [← hlen, ← hassembly] at hheld
      exact .held hon hlength hheld hne hlt
  | dropped hoff hlong hparts => exact .dropped (hassembling.trans hoff) hlong hparts
  | delivered hidle hall hcomplete =>
      refine .delivered ?_ hall hcomplete
      rw [Idle, hassembling, hlen]
      exact hidle

/-- A piece while a message is assembled: it completes the message, is held too, or the message is
given up. -/
theorem assemble_cases (total : Nat) (hassembling : c.assembling = true) (piece : List UInt8)
    {before : List UInt8} (hlen : c.assemblyLen = before.length)
    (hheld : c.assembly.take c.assemblyLen = before) :
    (assemblyBytes < before.length + piece.length ∧ (c.assemble piece total).2 = none ∧
        (c.assemble piece total).1.assembling = false) ∨
      (before.length + piece.length ≤ assemblyBytes ∧ before.length + piece.length < total ∧
        (c.assemble piece total).2 = none ∧ (c.assemble piece total).1.assembling = true ∧
        (c.assemble piece total).1.assemblyLen = (before ++ piece).length ∧
        (c.assemble piece total).1.assembly.take (c.assemble piece total).1.assemblyLen =
          before ++ piece) ∨
      (before.length + piece.length ≤ assemblyBytes ∧ total ≤ before.length + piece.length ∧
        payloads (c.assemble piece total).2 = [before ++ piece] ∧
        (c.assemble piece total).1.assembling = false) := by
  rw [← hlen]
  by_cases hroom : c.assemblyLen + piece.length ≤ assemblyBytes
  · refine .inr ?_
    by_cases hmore : c.assemblyLen + piece.length < total
    · refine .inl ⟨hroom, hmore, ?_⟩
      rw [assemble_middle hassembling hroom hmore]
      refine ⟨rfl, hassembling, ?_, ?_⟩
      · rw [List.length_append, ← hlen]
        rfl
      · rw [append_spec hroom, hheld]
    · refine .inr ⟨hroom, Nat.not_lt.mp hmore, ?_, ?_⟩
      · rw [payloads, assemble_last hassembling hroom (Nat.not_lt.mp hmore), Option.toList_some,
          List.map_singleton, deliver_payload, hheld]
      · have hlast : (c.append piece hroom).assemblyLen ≥ total := Nat.not_lt.mp hmore
        rw [assemble, hassembling, if_neg (by decide), dif_neg (by omega)]
        dsimp only
        rw [if_pos hlast]
  · refine .inl ⟨Nat.not_le.mp hroom, ?_⟩
    exact assemble_overflow hassembling (Nat.not_le.mp hroom)

/-- A piece is no longer than all of them. -/
theorem length_le_flatten {piece : List UInt8} (h : piece ∈ done) :
    piece.length ≤ done.flatten.length := by
  obtain ⟨before, after, rfl⟩ := List.append_of_mem h
  rw [List.flatten_append, List.flatten_cons, List.length_append, List.length_append]
  omega

/-- One more piece. -/
theorem Stage.piece (h : Stage total done c out) (htotal : 0 < total)
    (topic : Option (List UInt8)) (data : List UInt8)
    (hle : done.flatten.length + data.length ≤ total) :
    Stage total (done ++ [data]) (c.handle (.data topic data total done.flatten.length)).1
      (out ++ payloads (c.handle (.data topic data total done.flatten.length)).2) := by
  have hflatten : (done ++ [data]).flatten = done.flatten ++ data := by
    rw [List.flatten_append, List.flatten_singleton]
  have hparts (hbefore : done.flatten.length < total) (hdata : data.length < total) :
      ∀ piece ∈ done ++ [data], piece.length < total := by
    intro piece hpiece
    rcases List.mem_append.mp hpiece with hold | hnew
    · exact Nat.lt_of_le_of_lt (length_le_flatten hold) hbefore
    · rw [List.mem_singleton.mp hnew]
      exact hdata
  rw [handle, handleData]
  cases h with
  | fresh hdone hidle =>
      rw [hdone, List.length_nil] at hle hparts ⊢
      rw [List.nil_append]
      by_cases hwhole : total > data.length
      · rw [if_neg (not_not.mpr hwhole), if_pos rfl]
        obtain ⟨d, hd⟩ : ∃ d, d = c.startAssembly (topic.elim .empty .ofBytes) := ⟨_, rfl⟩
        rw [← hd]
        have hon : d.assembling = true := by rw [hd]; rfl
        have hlen : d.assemblyLen = ([] : List UInt8).length := by rw [hd]; rfl
        have hheld : d.assembly.take d.assemblyLen = [] := by rw [hlen]; rfl
        rcases assemble_cases total hon data hlen hheld with
          ⟨hlong, hnone, hoff⟩ | ⟨-, -, hnone, hstill, hlen', hheld'⟩ | ⟨-, hover, -⟩
        · rw [hnone]
          refine .dropped hoff ?_ (hparts htotal hwhole)
          rw [hflatten, hdone]
          simpa using hlong
        · rw [hnone]
          by_cases hdata : data = []
          · refine .fresh ?_ fun _ => ?_
            · rw [hflatten, hdone, hdata]
              rfl
            · rw [hlen', hdata]
              rfl
          · refine .held hstill ?_ ?_ ?_ ?_
            · rw [hlen', hflatten, hdone]
            · rw [hheld', hflatten, hdone]
            · rw [hflatten, hdone]
              exact hdata
            · rw [hflatten, hdone]
              exact hwhole
        · rw [List.length_nil] at hover
          omega
      · -- The event has the whole payload, whatever pieces without a byte came before.
        have hall : data.length = total := by omega
        have hkept : (done ++ [data]).flatten = data := by
          rw [hflatten, hdone, List.nil_append]
        have hcomplete : Complete (done ++ [data]) := by
          refine .inr ?_
          rw [hkept]
          exact List.mem_append_right _ (List.mem_singleton.mpr rfl)
        have hdelivered : Stage total (done ++ [data]) c [(done ++ [data]).flatten] :=
          .delivered hidle (by rw [hkept]; exact hall) hcomplete
        rw [hkept] at hdelivered
        rw [if_pos hwhole, payloads, Option.toList_some, List.map_singleton, deliver_payload]
        exact hdelivered
  | held hon hlength hheld hne hlt =>
      have hpos := List.length_pos_iff.mpr hne
      rw [if_neg (by omega), if_neg (by omega), List.nil_append]
      rcases assemble_cases total hon data hlength hheld with
        ⟨hlong, hnone, hoff⟩ | ⟨-, hmore, hnone, hstill, hlen', hheld'⟩ | ⟨hroom, hlast, hout, hoff⟩
      · rw [hnone]
        refine .dropped hoff ?_ (hparts hlt (by omega))
        rw [hflatten, List.length_append]
        exact hlong
      · rw [hnone]
        refine .held hstill ?_ ?_ ?_ ?_
        · rw [hlen', hflatten]
        · rw [hheld', hflatten]
        · rw [hflatten]
          exact List.append_ne_nil_of_left_ne_nil hne data
        · rw [hflatten, List.length_append]
          exact hmore
      · rw [hout, ← hflatten]
        refine .delivered (fun hstill => ?_) ?_ (.inl ?_)
        · rw [hoff] at hstill
          cases hstill
        · rw [hflatten, List.length_append]
          omega
        · rw [hflatten, List.length_append]
          exact hroom
  | dropped hoff hlong hold =>
      have hmore : total > data.length := by
        have hpos : 0 < done.flatten.length := by omega
        omega
      rw [if_neg (not_not.mpr hmore), if_neg (by omega), assemble, hoff, if_pos (by rfl)]
      refine .dropped hoff ?_ ?_
      · rw [hflatten, List.length_append]
        omega
      · intro piece hpiece
        rcases List.mem_append.mp hpiece with hin | hnew
        · exact hold piece hin
        · rw [List.mem_singleton.mp hnew]
          exact hmore
  | delivered hidle hall hcomplete =>
      have hnil : data = [] := List.eq_nil_of_length_eq_zero (by omega)
      rw [hnil, List.append_nil] at hflatten
      subst hnil
      -- Nothing is held, so the empty piece completes nothing.
      have hquiet : (c.assemble [] total).1.Idle ∧ (c.assemble [] total).2 = none := by
        cases hon : c.assembling with
        | false =>
            rw [assemble, hon, if_pos (by rfl)]
            exact ⟨hidle, rfl⟩
        | true =>
            have hlen : c.assemblyLen = ([] : List UInt8).length := hidle hon
            have hheld : c.assembly.take c.assemblyLen = [] := by rw [hlen]; rfl
            rcases assemble_cases total hon [] hlen hheld with
              ⟨hlong, -⟩ | ⟨-, -, hnone, -, hlen', -⟩ | ⟨-, hover, -⟩
            · exact absurd hlong (by decide)
            · exact ⟨fun _ => hlen', hnone⟩
            · exact absurd htotal (Nat.not_lt.mpr hover)
      have hmore : total > ([] : List UInt8).length := htotal
      rw [if_neg (not_not.mpr hmore), if_neg (by omega), hquiet.2]
      have hcomplete' : Complete (done ++ [[]]) := by
        rw [Complete, hflatten]
        exact hcomplete.imp_right fun hmem => List.mem_append_left _ hmem
      have hdelivered : Stage total (done ++ [[]]) (c.assemble [] total).1
          [(done ++ [[]]).flatten] := .delivered hquiet.1 (hflatten ▸ hall) hcomplete'
      rw [hflatten] at hdelivered
      exact hdelivered

/-- The events of a message, from wherever the client is with it. -/
theorem Stage.run (h : Stage total done c out) (htotal : 0 < total) {offset : Nat}
    {pieces : List (List UInt8)} {events : List MqttEvent}
    (hoffset : offset = done.flatten.length)
    (hle : done.flatten.length + pieces.flatten.length ≤ total)
    (hpieces : Pieces total offset pieces events) :
    Stage total (done ++ pieces) (c.handleAll events).1
      (out ++ (c.handleAll events).2.map Delivery.payload) := by
  induction hpieces generalizing c done out with
  | nil offset =>
      rw [handleAll, List.map_nil, List.append_nil, List.append_nil]
      exact h
  | @piece offset pieces events topic data hrest ih =>
      rw [List.flatten_cons, List.length_append] at hle
      have hnext := h.piece htotal topic data (by omega)
      rw [← hoffset] at hnext
      have hflatten : (done ++ [data]).flatten.length = done.flatten.length + data.length := by
        rw [List.flatten_append, List.flatten_singleton, List.length_append]
      have hrun := ih hnext (by omega) (by omega)
      rw [handleAll]
      simp only [List.map_append]
      rw [List.append_assoc, List.singleton_append, List.append_assoc] at hrun
      exact hrun
  | @quiet offset pieces events e he hrest ih =>
      obtain ⟨hnext, hnone⟩ := h.quiet he
      have hrun := ih hnext hoffset hle
      rw [handleAll]
      simp only [List.map_append]
      rw [show (c.handle e).2.toList.map Delivery.payload = [] from hnone, List.nil_append]
      exact hrun

/-- The events of a message, from its first one. -/
theorem Idle.run {c : EspMqttClient} (hidle : c.Idle) {total : Nat} (htotal : 0 < total)
    {pieces : List (List UInt8)} {events : List MqttEvent} (hle : pieces.flatten.length ≤ total)
    (h : Pieces total 0 pieces events) :
    Stage total pieces (c.handleAll events).1
      ((c.handleAll events).2.map Delivery.payload) := by
  have hfresh : Stage total [] c [] := .fresh rfl hidle
  have hzero : ([] : List (List UInt8)).flatten.length + pieces.flatten.length ≤ total := by
    rw [List.flatten_nil, List.length_nil, Nat.zero_add]
    exact hle
  exact hfresh.run htotal rfl hzero h

/-- A message that came in full was delivered if it is `Complete`, and otherwise not at all. -/
theorem Stage.finished (h : Stage total done c out) (htotal : 0 < total)
    (hall : done.flatten.length = total) :
    c.Idle ∧ out = if Complete done then [done.flatten] else [] := by
  cases h with
  | fresh hnil =>
      rw [hnil, List.length_nil] at hall
      omega
  | held _ _ _ _ hlt => omega
  | dropped hoff hlong hparts =>
      have hnot : ¬Complete done := by
        rintro (hshort | hwhole)
        · omega
        · have hlt := hparts _ hwhole
          omega
      rw [if_neg hnot]
      exact ⟨fun hon => absurd (hoff.symm.trans hon) Bool.false_ne_true, rfl⟩
  | delivered hidle _ hcomplete =>
      rw [if_pos hcomplete]
      exact ⟨hidle, rfl⟩

/-- Nothing was delivered of a message that is not there in full. -/
theorem Stage.missing (h : Stage total done c out) (hmissing : done.flatten.length < total) :
    out = [] := by
  cases h with
  | fresh | held | dropped => rfl
  | delivered _ hall => omega

/-- One sequence of events after another. -/
theorem handleAll_append (c : EspMqttClient) (first second : List MqttEvent) :
    c.handleAll (first ++ second) =
      (((c.handleAll first).1.handleAll second).1,
        (c.handleAll first).2 ++ ((c.handleAll first).1.handleAll second).2) := by
  induction first generalizing c with
  | nil => rfl
  | cons e first ih =>
      simp only [List.cons_append, handleAll, ih, List.append_assoc]

/-- Between two messages, an event without data changes nothing. -/
theorem Idle.event {c : EspMqttClient} (hidle : c.Idle) {e : MqttEvent}
    (he : e.Quiet ∨ e = .disconnected) : (c.handle e).1.Idle ∧ (c.handle e).2 = none := by
  rcases he with hquiet | rfl
  · cases e with
    | connected | error | other => exact ⟨hidle, rfl⟩
    | disconnected | data => exact hquiet.elim
  · exact ⟨fun hon => absurd hon Bool.false_ne_true, rfl⟩

/-- An empty message in a single event is delivered at once. -/
theorem empty_message {c : EspMqttClient} (hidle : c.Idle) {offset : Nat}
    {pieces : List (List UInt8)} {events : List MqttEvent} (h : Pieces 0 offset pieces events)
    (hpieces : pieces = [] ∨ pieces = [[]]) :
    (c.handleAll events).1.Idle ∧ (c.handleAll events).2.map Delivery.payload = pieces := by
  induction h generalizing c with
  | nil => exact ⟨hidle, rfl⟩
  | @piece offset pieces events topic data hrest ih =>
      have hdata : data = [] ∧ pieces = [] := by
        rcases hpieces with h | h
        · cases h
        · exact List.cons.inj h
      obtain ⟨rfl, rfl⟩ := hdata
      obtain ⟨hidle', hnone⟩ := ih hidle (.inl rfl)
      have hhandle : c.handle (.data topic [] 0 offset) =
          (c, some (c.deliver (.ofBytes (topic.getD c.assemblyTopic)) [])) := rfl
      rw [handleAll, hhandle]
      refine ⟨hidle', ?_⟩
      show [(c.deliver _ []).payload] ++ (c.handleAll events).2.map Delivery.payload = _
      rw [hnone, deliver_payload]
      rfl
  | @quiet offset pieces events e he hrest ih =>
      obtain ⟨hnext, hnone⟩ := hidle.event (.inl he)
      rw [handleAll]
      simp only [hnone, Option.toList_none, List.nil_append]
      exact ih hnext hpieces

/-- The events of a message that comes in full. -/
theorem message_run {c : EspMqttClient} (hidle : c.Idle) {pieces : List (List UInt8)}
    {events : List MqttEvent} (h : Pieces pieces.flatten.length 0 pieces events)
    (hempty : pieces.flatten = [] → pieces.length = 1) :
    (c.handleAll events).1.Idle ∧ (c.handleAll events).2.map Delivery.payload =
      if Complete pieces then [pieces.flatten] else [] := by
  by_cases hnil : pieces.flatten = []
  · obtain ⟨piece, rfl⟩ := List.length_eq_one_iff.mp (hempty hnil)
    rw [List.flatten_singleton] at hnil
    subst hnil
    have hcomplete : Complete [[]] := .inl (Nat.zero_le _)
    rw [if_pos hcomplete]
    exact empty_message hidle h (.inr rfl)
  · have hpos := List.length_pos_iff.mpr hnil
    exact (hidle.run hpos (Nat.le_refl _) h).finished hpos rfl

/-- What is delivered, where messages come in pieces cut in any way and may be broken off by a
disconnect anywhere: the payloads of the complete messages, each once and in their order, apart
from those of more than 1024 bytes that no single event has all of. -/
theorem delivered_of_arrives {c : EspMqttClient} (hidle : c.Idle)
    {arrivals : List (List (List UInt8))} {events : List MqttEvent} (h : Arrives arrivals events)
    (hempty : ∀ pieces ∈ arrivals, pieces.flatten = [] → pieces.length = 1) :
    (c.handleAll events).2.map Delivery.payload =
      (arrivals.filter fun pieces => Complete pieces).map List.flatten := by
  induction h generalizing c with
  | nil => rfl
  | @quiet arrivals events e he hrest ih =>
      have hnext := hidle.event he
      rw [handleAll]
      simp only [hnext.2, Option.toList_none, List.nil_append]
      exact ih hnext.1 hempty
  | @message pieces arrivals here events hne hpieces hrest ih =>
      obtain ⟨hidle', hpayloads⟩ := message_run hidle hpieces (hempty pieces List.mem_cons_self)
      have hmore := ih hidle' fun p hp => hempty p (List.mem_cons_of_mem _ hp)
      rw [handleAll_append, List.map_append, hpayloads, hmore, List.filter_cons]
      by_cases hcomplete : Complete pieces
      · rw [if_pos hcomplete, if_pos (decide_eq_true hcomplete)]
        rfl
      · rw [if_neg hcomplete, if_neg (by rw [decide_eq_true_eq]; exact hcomplete)]
        rfl
  | @brokenOff total pieces arrivals here events hmissing hpieces hrest ih =>
      have hnone := (hidle.run (by omega) (Nat.le_of_lt hmissing) hpieces).missing hmissing
      have hover : ((c.handleAll here).1.handle .disconnected).1.Idle :=
        fun hon => absurd hon Bool.false_ne_true
      have hmore := ih hover hempty
      rw [handleAll_append, List.map_append, hnone, List.nil_append, handleAll]
      exact hmore
  | @unfinished total pieces here hmissing hpieces =>
      exact (hidle.run (by omega) (Nat.le_of_lt hmissing) hpieces).missing hmissing

/-- A message of two bytes is broken off behind the first one and comes again in two pieces. -/
def redelivered : List MqttEvent :=
  [.connected, .data (some [116]) [1] 2 0, .disconnected, .connected, .data (some [116]) [1] 2 0,
    .data none [2] 2 1]

/-- Its events arrive so. -/
theorem arrives_redelivered : Arrives [[[1], [2]]] redelivered := by
  have hfirst : Pieces 2 0 [[1]] [.data (some [116]) [1] 2 0] := .piece _ _ (.nil _)
  have hboth : Pieces 2 0 [[1], [2]] [.data (some [116]) [1] 2 0, .data none [2] 2 1] :=
    .piece _ _ (.piece _ _ (.nil _))
  have hagain : Arrives [[[1], [2]]]
      [.connected, .data (some [116]) [1] 2 0, .data none [2] 2 1] :=
    .quiet _ (.inl trivial) (@Arrives.message [[1], [2]] _ _ _ (by decide) hboth .nil)
  exact .quiet _ (.inl trivial) (.brokenOff (by decide) hfirst hagain)

/-- It is delivered once, and whole. -/
theorem delivered_redelivered :
    (handleAll {} redelivered).2.map Delivery.payload =
      ([[[1], [2]]].filter fun pieces => Complete pieces).map List.flatten :=
  delivered_of_arrives (fun hon => absurd hon Bool.false_ne_true) arrives_redelivered (by decide)

/-- What would be delivered if it did not matter how a message is cut: each once, apart from those
over 1024 bytes that come in fragments. -/
def uncut (arrivals : List (List (List UInt8))) : List (List UInt8) :=
  (arrivals.filter fun pieces =>
    pieces.flatten.length ≤ assemblyBytes ∨ pieces.length = 1).map List.flatten

/-- An empty fragment in front, and a message of 1025 bytes behind it. -/
def oversize : List MqttEvent :=
  [.data (some [116]) [] 1025 0, .data none (List.replicate 1025 0) 1025 0]

/-- It is delivered. -/
theorem oversize_delivered :
    Arrives [[[], List.replicate 1025 0]] oversize ∧
      (handleAll {} oversize).2.map Delivery.payload ≠ uncut [[[], List.replicate 1025 0]] := by
  unfold oversize uncut
  have hlength : (List.replicate 1025 (0 : UInt8)).length = 1025 := List.length_replicate
  generalize List.replicate 1025 (0 : UInt8) = big at hlength
  have hflatten : [[], big].flatten = big := List.append_nil big
  have hpieces : Pieces [[], big].flatten.length 0 [[], big]
      [.data (some [116]) [] 1025 0, .data none big 1025 0] := by
    rw [hflatten, hlength]
    exact .piece _ _ (.piece _ _ (.nil _))
  refine ⟨.message (List.cons_ne_nil _ _) hpieces .nil, ?_⟩
  have hidle : Idle {} := fun hon => absurd hon Bool.false_ne_true
  have hwhole : Complete [[], big] := by
    refine .inr ?_
    rw [hflatten]
    exact List.mem_cons_of_mem _ List.mem_cons_self
  have hnil : [[], big].flatten ≠ [] := by
    rw [hflatten]
    exact List.ne_nil_of_length_pos (by omega)
  have hlong : ¬([[], big].flatten.length ≤ assemblyBytes ∨ [[], big].length = 1) := by
    rw [hflatten, hlength]
    show ¬(1025 ≤ 1024 ∨ 2 = 1)
    decide
  rw [(message_run hidle hpieces fun h => absurd h hnil).2, if_pos hwhole, List.filter_cons,
    if_neg (by rw [decide_eq_true_eq]; exact hlong)]
  exact List.cons_ne_nil _ _

/-- Two fragments of a message without a byte. -/
def emptyTwice : List MqttEvent := [.data (some [116]) [] 0 0, .data (some [116]) [] 0 0]

/-- Each of them is delivered. -/
theorem empty_delivered_twice :
    Arrives [[[], []]] emptyTwice ∧
      (handleAll {} emptyTwice).2.map Delivery.payload ≠ uncut [[[], []]] := by
  have hpieces : Pieces 0 0 [[], []] emptyTwice := .piece _ _ (.piece _ _ (.nil _))
  exact ⟨@Arrives.message [[], []] _ _ _ (List.cons_ne_nil _ _) hpieces .nil, by decide⟩

/-- So the cuts do matter, to a message that is too long and to one that is empty. -/
theorem cuts_matter :
    (Arrives [[[], List.replicate 1025 0]] oversize ∧
      (handleAll {} oversize).2.map Delivery.payload ≠ uncut [[[], List.replicate 1025 0]]) ∧
    Arrives [[[], []]] emptyTwice ∧
      (handleAll {} emptyTwice).2.map Delivery.payload ≠ uncut [[[], []]] :=
  ⟨oversize_delivered, empty_delivered_twice⟩

end EspMqttClient

end FirmwareUpdater
