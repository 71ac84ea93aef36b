import Mathlib.Data.List.Induction
import Mathlib.Data.Nat.Basic

/-!
# Absolute deadlines on a clock that wraps

Real time is a natural number, and the clock shows it modulo `wrap`. A system
that waits for a deadline keeps the deadline's reading and, whenever it is
polled, compares it with the reading of that moment. `Judged` says for which
moments this comparison tells what real time tells, `Legible` where these lie
between the turns of the clock, and `onTime_iff` that a system acts on the first
poll that is due, and on none before it, exactly when the polls up to that one
are judged right. A `loop` that a deadline ends asks the clock at `asked`, and
`loop_judged` says that it does not depend on the clock where these are judged
right.
-/

namespace FirmwareUpdater.Library.Deadline

variable {wrap deadline time : Nat}

/-- The readings compare as the times they are readings of. -/
def Judged (wrap deadline time : Nat) : Prop := time % wrap < deadline % wrap ↔ time < deadline

/-- A time before the deadline lies in the same turn of the clock, and one after it shows no less
than the deadline. -/
def Legible (wrap deadline time : Nat) : Prop :=
  (time < deadline → time / wrap = deadline / wrap) ∧
    (deadline ≤ time → deadline % wrap ≤ time % wrap)

/-- For a deadline less than one turn ahead, these are the times that are judged right. -/
theorem judged_iff (hnear : deadline < time + wrap) :
    Judged wrap deadline time ↔ Legible wrap deadline time := by
  have htime := Nat.div_add_mod time wrap
  have hdeadline := Nat.div_add_mod deadline wrap
  unfold Judged Legible
  by_cases hearly : time < deadline
  · have hle : time / wrap ≤ deadline / wrap := Nat.div_le_div_right (Nat.le_of_lt hearly)
    rw [iff_true_right hearly]
    refine ⟨fun hlt => ⟨fun _ => ?_, fun hlate => absurd hearly (by omega)⟩, fun h => ?_⟩
    · by_contra hne
      -- In the next turn the deadline would be a whole turn ahead.
      have hnext : wrap * (time / wrap + 1) ≤ wrap * (deadline / wrap) :=
        Nat.mul_le_mul_left wrap (by omega)
      rw [Nat.mul_succ] at hnext
      omega
    · have hturn := h.1 hearly
      rw [hturn] at htime
      omega
  · rw [iff_false_right hearly, not_lt]
    exact ⟨fun h => ⟨fun hlt => absurd hlt hearly, fun _ => h⟩, fun h => h.2 (not_lt.mp hearly)⟩

/-- In the first turn of the clock every time is judged right. -/
theorem judged_of_lt (hdeadline : deadline < wrap) (htime : time < wrap) :
    Judged wrap deadline time := by
  rw [Judged, Nat.mod_eq_of_lt hdeadline, Nat.mod_eq_of_lt htime]

section Schedule

variable {State Call : Type*} (exec : State → Call → State) (poll : Call → Prop)
  (fires : State → Call → Prop)

/-- The state after timed calls. -/
def runAll (start : State) (calls : List (Nat × Call)) : State :=
  calls.foldl (fun s x => exec s x.2) start

/-- No poll among these calls was due. -/
def NoneDue (deadline : Nat) (calls : List (Nat × Call)) : Prop :=
  ∀ x ∈ calls, poll x.2 → x.1 < deadline

/-- Up to the first poll that is due, a poll makes the system act exactly when it is due. -/
def OnTime (deadline : Nat) (start : State) (schedule : List (Nat × Call)) : Prop :=
  ∀ before time call after, schedule = before ++ (time, call) :: after → poll call →
    NoneDue poll deadline before → (fires (runAll exec start before) call ↔ deadline ≤ time)

/-- Up to the first poll that is due, the times of the polls are as `Good` says. -/
def UpToDue (Good : Nat → Prop) (deadline : Nat) (schedule : List (Nat × Call)) : Prop :=
  ∀ before time call after, schedule = before ++ (time, call) :: after → poll call →
    NoneDue poll deadline before → Good time

/-- Up to the first poll that is due, every call is one that may be made. -/
def AllAllowed (Allowed : State → Nat × Call → Prop) (deadline : Nat) (start : State)
    (schedule : List (Nat × Call)) : Prop :=
  ∀ before x after, schedule = before ++ x :: after → NoneDue poll deadline before →
    Allowed (runAll exec start before) x

variable {exec poll fires} (Waiting : State → Prop) (Allowed : State → Nat × Call → Prop)
  {start : State} {schedule : List (Nat × Call)}
  (hkeep : ∀ s time call, Waiting s → Allowed s (time, call) → (poll call → ¬ fires s call) →
    Waiting (exec s call))
  (hstart : Waiting start) (hallowed : AllAllowed exec poll Allowed deadline start schedule)

include hkeep hstart hallowed

/-- A system that does not act on polls that are not due goes on waiting. -/
theorem waiting_runAll
    (hquiet : ∀ before time call after, schedule = before ++ (time, call) :: after → poll call →
      NoneDue poll deadline before → Waiting (runAll exec start before) → time < deadline →
      ¬ fires (runAll exec start before) call)
    {before after : List (Nat × Call)} (hsplit : schedule = before ++ after)
    (hnone : NoneDue poll deadline before) : Waiting (runAll exec start before) := by
  induction before using List.reverseRecOn generalizing after with
  | nil => exact hstart
  | append_singleton before x ih =>
      have hearlier : NoneDue poll deadline before := fun y hy => hnone y (by simp [hy])
      have hsplit' : schedule = before ++ x :: after := by simpa using hsplit
      have hwaiting := ih hsplit' hearlier
      have hnext := hkeep _ x.1 x.2 hwaiting (hallowed _ _ _ hsplit' hearlier) fun hpoll =>
        hquiet _ _ _ _ hsplit' hpoll hearlier hwaiting (hnone x (by simp) hpoll)
      simpa [runAll] using hnext

/-- Where a poll of a waiting system is a comparison of readings, the system is on time exactly
when the comparisons are right. -/
theorem onTime_iff_judged
    (hfires : ∀ s time call, Waiting s → Allowed s (time, call) → poll call →
      (fires s call ↔ ¬ time % wrap < deadline % wrap)) :
    OnTime exec poll fires deadline start schedule ↔
      UpToDue poll (Judged wrap deadline) deadline schedule := by
  constructor
  · intro h before time call after hsplit hpoll hnone
    have hwaiting := waiting_runAll Waiting Allowed hkeep hstart hallowed
      (fun _ _ _ _ hs hp hn _ hlt => (h _ _ _ _ hs hp hn).not.mpr (not_le.mpr hlt)) hsplit hnone
    have hact := h _ _ _ _ hsplit hpoll hnone
    rw [hfires _ _ _ hwaiting (hallowed _ _ _ hsplit hnone) hpoll, ← not_lt] at hact
    exact not_iff_not.mp hact
  · intro h before time call after hsplit hpoll hnone
    have hwaiting := waiting_runAll Waiting Allowed hkeep hstart hallowed
      (fun _ _ _ _ hs hp hn hw hlt => by
        rw [hfires _ _ _ hw (hallowed _ _ _ hs hn) hp, not_not]
        exact (h _ _ _ _ hs hp hn).mpr hlt) hsplit hnone
    rw [hfires _ _ _ hwaiting (hallowed _ _ _ hsplit hnone) hpoll, ← not_lt]
    exact not_congr (h _ _ _ _ hsplit hpoll hnone)

/-- With a deadline less than one turn ahead, that depends on where the polls lie between the
turns of the clock alone. -/
theorem onTime_iff
    (hfires : ∀ s time call, Waiting s → Allowed s (time, call) → poll call →
      (fires s call ↔ ¬ time % wrap < deadline % wrap))
    (hnear : ∀ x ∈ schedule, deadline < x.1 + wrap) :
    OnTime exec poll fires deadline start schedule ↔
      UpToDue poll (Legible wrap deadline) deadline schedule := by
  rw [onTime_iff_judged Waiting Allowed hkeep hstart hallowed hfires]
  have hnear : ∀ before time call after, schedule = before ++ (time, call) :: after →
      deadline < time + wrap := fun before time call after hsplit =>
    hnear (time, call) (by simp [hsplit])
  exact ⟨fun h _ _ _ _ hs hp hn => (judged_iff (hnear _ _ _ _ hs)).mp (h _ _ _ _ hs hp hn),
    fun h _ _ _ _ hs hp hn => (judged_iff (hnear _ _ _ _ hs)).mpr (h _ _ _ _ hs hp hn)⟩

end Schedule

section Loop

variable {State Result : Type*} (round : State → Result ⊕ State) (moment : State → Nat)
  (expired : State → Result) (before other : Nat → Bool)

/-- A loop that goes on as long as the moment of its round is `before` the deadline. -/
def loop : Nat → State → Option Result
  | 0, _ => none
  | rounds + 1, s =>
      if before (moment s) then
        match round s with
        | .inl result => some result
        | .inr next => loop rounds next
      else some (expired s)

/-- The state in which it ends. -/
def stop : Nat → State → Option State
  | 0, _ => none
  | rounds + 1, s =>
      if before (moment s) then
        match round s with
        | .inl _ => some s
        | .inr next => stop rounds next
      else some s

/-- The moments at which it compares the clock with the deadline. -/
def asked : Nat → State → List Nat
  | 0, _ => []
  | rounds + 1, s =>
      moment s :: if before (moment s) then
        match round s with
        | .inl _ => []
        | .inr next => asked rounds next
      else []

variable {round moment expired before other}

/-- A round before the deadline that goes on. -/
theorem loop_next {rounds : Nat} {s next : State} (hbefore : before (moment s) = true)
    (hround : round s = .inr next) :
    loop round moment expired before (rounds + 1) s = loop round moment expired before rounds next ∧
      stop round moment before (rounds + 1) s = stop round moment before rounds next := by
  rw [loop, stop, if_pos hbefore, if_pos hbefore, hround]
  exact ⟨rfl, rfl⟩

/-- A round before the deadline that ends the loop. -/
theorem loop_result {rounds : Nat} {s : State} {result : Result}
    (hbefore : before (moment s) = true) (hround : round s = .inl result) :
    loop round moment expired before (rounds + 1) s = some result ∧
      stop round moment before (rounds + 1) s = some s := by
  rw [loop, stop, if_pos hbefore, if_pos hbefore, hround]
  exact ⟨rfl, rfl⟩

/-- A round at the deadline. -/
theorem loop_expired {rounds : Nat} {s : State} (hbefore : ¬before (moment s) = true) :
    loop round moment expired before (rounds + 1) s = some (expired s) ∧
      stop round moment before (rounds + 1) s = some s := by
  rw [loop, stop, if_neg hbefore, if_neg hbefore]
  exact ⟨rfl, rfl⟩

/-- A larger bound on the rounds changes nothing. -/
theorem loop_mono {rounds : Nat} {s : State} {result : Result}
    (h : loop round moment expired before rounds s = some result) (more : Nat) :
    loop round moment expired before (rounds + more) s = some result ∧
      stop round moment before (rounds + more) s = stop round moment before rounds s := by
  induction rounds generalizing s with
  | zero => cases h
  | succ rounds ih =>
      rw [Nat.succ_add]
      by_cases hbefore : before (moment s) = true
      · cases hround : round s with
        | inl other =>
            have hends : ∀ n, loop round moment expired before (n + 1) s = some other ∧
                stop round moment before (n + 1) s = some s := fun _ => loop_result hbefore hround
            rw [(hends _).1] at h ⊢
            rw [(hends _).2, (hends _).2]
            exact ⟨h, rfl⟩
        | inr next =>
            have hgoes : ∀ n, loop round moment expired before (n + 1) s =
                  loop round moment expired before n next ∧
                stop round moment before (n + 1) s = stop round moment before n next :=
              fun _ => loop_next hbefore hround
            rw [(hgoes _).1] at h ⊢
            rw [(hgoes _).2, (hgoes _).2]
            exact ih h
      · have hends : ∀ n, loop round moment expired before (n + 1) s = some (expired s) ∧
            stop round moment before (n + 1) s = some s := fun _ => loop_expired hbefore
        rw [(hends _).1] at h ⊢
        rw [(hends _).2, (hends _).2]
        exact ⟨h, rfl⟩

/-- What every round keeps and every end turns into a result holds of what the loop returns. -/
theorem loop_induction (Holds : State → Prop) (Good : Result → Prop)
    (hnext : ∀ s next, Holds s → round s = .inr next → Holds next)
    (hresult : ∀ s result, Holds s → round s = .inl result → Good result)
    (hexpired : ∀ s, Holds s → Good (expired s)) {rounds : Nat} {s : State} {result : Result}
    (hs : Holds s) (hrun : loop round moment expired before rounds s = some result) :
    Good result := by
  induction rounds generalizing s with
  | zero => cases hrun
  | succ rounds ih =>
      by_cases hbefore : before (moment s) = true
      · cases hround : round s with
        | inl other =>
            rw [(loop_result hbefore hround).1] at hrun
            cases hrun
            exact hresult s _ hs hround
        | inr next =>
            rw [(loop_next hbefore hround).1] at hrun
            exact ih (hnext s next hs hround) hrun
      · rw [(loop_expired hbefore).1] at hrun
        cases hrun
        exact hexpired s hs

/-- Comparisons that agree where the loop makes them give the same result. -/
theorem loop_congr {rounds : Nat} {s : State}
    (h : ∀ t ∈ asked round moment before rounds s, other t = before t) :
    loop round moment expired other rounds s = loop round moment expired before rounds s := by
  induction rounds generalizing s with
  | zero => rfl
  | succ rounds ih =>
      have hnow : other (moment s) = before (moment s) := h _ (by simp [asked])
      rw [loop, loop, hnow]
      by_cases hbefore : before (moment s) = true
      · rw [if_pos hbefore, if_pos hbefore]
        cases hround : round s with
        | inl result => rfl
        | inr next =>
            refine ih fun t ht => h t ?_
            simp only [asked, hbefore, hround, if_true]
            exact List.mem_cons_of_mem _ ht
      · rw [if_neg hbefore, if_neg hbefore]

/-- Where each of its readings is judged right, a loop on a clock that wraps is the loop on real
time. -/
theorem loop_judged {time : Nat → Nat} {rounds : Nat} {s : State}
    (h : ∀ t ∈ asked round moment (fun t => time t < deadline) rounds s,
      Judged wrap deadline (time t)) :
    loop round moment expired (fun t => time t % wrap < deadline % wrap) rounds s =
      loop round moment expired (fun t => time t < deadline) rounds s :=
  loop_congr fun t ht => decide_eq_decide.mpr (h t ht)

end Loop

end FirmwareUpdater.Library.Deadline
