import Mathlib.Algebra.GroupWithZero.Nat
import Mathlib.Data.List.TakeWhile
import Mathlib.Tactic.SplitIfs

/-!
# Lines read through a fixed buffer

A reader that stops at a delimiter or when its buffer is full hands a line over in
pieces. `cuts size line` are these pieces, `Reads` says what a sequence of reads
returns and leaves, and `reads_lines` that a stream of delimited lines is read as the
cuts of its lines. A piece is as long as the buffer or what is left at the end of its
line, whose length `mem_cuts` gives.
-/

namespace FirmwareUpdater.Library.LineCuts

variable {α : Type*} {size : Nat} {line : List α}

/-- The pieces of a line in a buffer of `size`. -/
def cuts (size : Nat) (line : List α) : List (List α) :=
  if 0 < size ∧ size ≤ line.length then line.take size :: cuts size (line.drop size) else [line]
termination_by line.length
decreasing_by
  rw [List.length_drop]
  omega

theorem cuts_of_lt (h : line.length < size) : cuts size line = [line] := by
  rw [cuts, if_neg (by omega)]

theorem cuts_of_le (hsize : 0 < size) (h : size ≤ line.length) :
    cuts size line = line.take size :: cuts size (line.drop size) := by
  rw [cuts, if_pos ⟨hsize, h⟩]

/-- The first piece is the start of the line. -/
theorem cuts_eq_cons (hsize : 0 < size) (line : List α) :
    cuts size line = line.take size :: (cuts size line).tail := by
  by_cases h : size ≤ line.length
  · rw [cuts_of_le hsize h, List.tail_cons]
  · rw [cuts_of_lt (by omega), List.take_of_length_le (by omega), List.tail_cons]

/-- A piece fills the buffer, or it is the end of the line. -/
theorem mem_cuts (hsize : 0 < size) {piece : List α} (h : piece ∈ cuts size line) :
    piece.length = size ∨ piece.length = line.length % size ∧ piece <:+ line := by
  induction line using cuts.induct size with
  | case1 line hlong ih =>
      rw [cuts_of_le hsize hlong.2, List.mem_cons] at h
      obtain rfl | h := h
      · exact .inl (List.length_take_of_le hlong.2)
      · refine (ih h).imp_right fun ⟨hlength, hsuffix⟩ => ⟨?_, ?_⟩
        · rw [hlength, List.length_drop, ← Nat.mod_eq_sub_mod hlong.2]
        · exact hsuffix.trans (List.drop_suffix size line)
  | case2 line hshort =>
      have hlt : line.length < size := by omega
      rw [cuts_of_lt hlt, List.mem_singleton] at h
      rw [h, Nat.mod_eq_of_lt hlt]
      exact .inr ⟨rfl, List.suffix_refl line⟩

/-- The end of the line is one of its pieces. -/
theorem end_mem_cuts (hsize : 0 < size) (line : List α) :
    line.drop (line.length - line.length % size) ∈ cuts size line := by
  induction line using cuts.induct size with
  | case1 line hlong ih =>
      have hmod : line.length % size = (line.length - size) % size := Nat.mod_eq_sub_mod hlong.2
      have hle : (line.length - size) % size ≤ line.length - size := Nat.mod_le _ _
      rw [List.length_drop, ← hmod, List.drop_drop] at ih
      rw [cuts_of_le hsize hlong.2]
      refine List.mem_cons_of_mem _ ?_
      rwa [show line.length - line.length % size =
        size + (line.length - size - line.length % size) by omega]
  | case2 line hshort =>
      have hlt : line.length < size := by omega
      rw [cuts_of_lt hlt, Nat.mod_eq_of_lt hlt, Nat.sub_self, List.drop_zero]
      exact List.mem_singleton.mpr rfl

/-- The pieces come from the line. -/
theorem infix_of_mem_cuts {piece : List α} (h : piece ∈ cuts size line) : piece <:+: line := by
  induction line using cuts.induct size with
  | case1 line hlong ih =>
      rw [cuts_of_le hlong.1 hlong.2, List.mem_cons] at h
      obtain rfl | h := h
      · exact (List.take_prefix size line).isInfix
      · exact (ih h).trans (List.drop_suffix size line).isInfix
  | case2 line hshort =>
      rw [cuts, if_neg hshort, List.mem_singleton] at h
      exact h ▸ List.infix_rfl

section Reading

variable [DecidableEq α] {stop : α} {stream rest middle : List α} {pieces more : List (List α)}

/-- One read: what comes before the delimiter, which is taken too, or as much as fits, and what
is left. -/
def readUntil (size : Nat) (stop : α) (stream : List α) : List α × List α :=
  let read := (stream.take size).takeWhile (· ≠ stop)
  let taken := if read.length < size ∧ read.length < stream.length then read.length + 1
    else read.length
  (read, stream.drop taken)

/-- A line that fits is read with its delimiter. -/
theorem readUntil_line (hline : stop ∉ line) (hfits : line.length < size) (rest : List α) :
    readUntil size stop (line ++ stop :: rest) = (line, rest) := by
  have hread : ((line ++ stop :: rest).take size).takeWhile (· ≠ stop) = line := by
    have hall : ∀ x ∈ line, decide (x ≠ stop) = true := by
      intro x hx
      exact decide_eq_true fun heq => hline (heq ▸ hx)
    have hpos : size - line.length = (size - line.length - 1) + 1 := by omega
    rw [List.take_append, List.take_of_length_le (Nat.le_of_lt hfits), hpos, List.take_succ_cons,
      List.takeWhile_append_of_pos hall, List.takeWhile_cons_of_neg (by simp), List.append_nil]
  have hlength : line.length < (line ++ stop :: rest).length := by simp
  simp only [readUntil]
  rw [hread, if_pos ⟨hfits, hlength⟩, List.drop_append, List.drop_of_length_le (by omega),
    show line.length + 1 - line.length = 1 by omega, List.nil_append, List.drop_succ_cons,
    List.drop_zero]

/-- A line that does not fit is read up to the size of the buffer. -/
theorem readUntil_full (hline : stop ∉ line) (hlong : size ≤ line.length) (rest : List α) :
    readUntil size stop (line ++ rest) = (line.take size, line.drop size ++ rest) := by
  have hread : ((line ++ rest).take size).takeWhile (· ≠ stop) = line.take size := by
    rw [List.take_append_of_le_length hlong, List.takeWhile_eq_self_iff]
    intro x hx
    exact decide_eq_true fun heq => hline (heq ▸ List.mem_of_mem_take hx)
  simp only [readUntil]
  rw [hread, List.length_take_of_le hlong, if_neg (by omega), List.drop_append_of_le_length hlong]

/-- Reads, one after the other, return `pieces` and leave `rest`. -/
inductive Reads (size : Nat) (stop : α) : List α → List (List α) → List α → Prop where
  | done (stream : List α) : Reads size stop stream [] stream
  | read {stream rest : List α} {pieces : List (List α)} :
      Reads size stop (readUntil size stop stream).2 pieces rest →
      Reads size stop stream ((readUntil size stop stream).1 :: pieces) rest

theorem Reads.of_read {piece : List α} (hread : readUntil size stop stream = (piece, middle))
    (hmore : Reads size stop middle pieces rest) :
    Reads size stop stream (piece :: pieces) rest := by
  have h : Reads size stop (readUntil size stop stream).2 pieces rest := by rwa [hread]
  have hfirst := Reads.read h
  rwa [hread] at hfirst

theorem Reads.append (h : Reads size stop stream pieces middle)
    (hmore : Reads size stop middle more rest) : Reads size stop stream (pieces ++ more) rest := by
  induction h with
  | done => exact hmore
  | read _ ih => exact .read (ih hmore)

/-- Reads can be cut in two. -/
theorem Reads.split (h : Reads size stop stream (pieces ++ more) rest) :
    ∃ middle, Reads size stop stream pieces middle ∧ Reads size stop middle more rest := by
  induction pieces generalizing stream with
  | nil => exact ⟨stream, .done stream, h⟩
  | cons piece pieces ih =>
      cases h with
      | read h =>
          obtain ⟨middle, hbefore, hafter⟩ := ih h
          exact ⟨middle, .read hbefore, hafter⟩

/-- What was read is no longer there. -/
theorem Reads.length_le (h : Reads size stop stream pieces rest) :
    (pieces.map List.length).sum + rest.length ≤ stream.length := by
  induction h with
  | done => simp
  | @read stream _ _ _ ih =>
      have hread : (readUntil size stop stream).1.length + (readUntil size stop stream).2.length ≤
          stream.length := by
        have hprefix := (List.takeWhile_prefix (fun x => decide (x ≠ stop))
          (l := stream.take size)).length_le
        rw [List.length_take] at hprefix
        simp only [readUntil, List.length_drop]
        split <;> omega
      rw [List.map_cons, List.sum_cons]
      omega

/-- A delimited line is read as its cuts. -/
theorem reads_cuts (hsize : 0 < size) (hline : stop ∉ line) (rest : List α) :
    Reads size stop (line ++ stop :: rest) (cuts size line) rest := by
  induction line using cuts.induct size with
  | case1 line hlong ih =>
      have hdrop : stop ∉ line.drop size := fun hmem => hline (List.mem_of_mem_drop hmem)
      rw [cuts_of_le hsize hlong.2]
      exact .of_read (readUntil_full hline hlong.2 (stop :: rest)) (ih hdrop)
  | case2 line hshort =>
      rw [cuts, if_neg hshort]
      exact .of_read (readUntil_line hline (by omega) rest) (.done rest)

/-- A stream of delimited lines is read as the cuts of its lines. -/
theorem reads_lines (hsize : 0 < size) {lines : List (List α)}
    (hlines : ∀ line ∈ lines, stop ∉ line) (rest : List α) :
    Reads size stop (lines.flatMap (· ++ [stop]) ++ rest) (lines.flatMap (cuts size)) rest := by
  induction lines with
  | nil => exact .done rest
  | cons line lines ih =>
      have hmore := ih fun other hother => hlines other (List.mem_cons_of_mem _ hother)
      have hfirst := reads_cuts hsize (hlines line List.mem_cons_self)
        (lines.flatMap (· ++ [stop]) ++ rest)
      rw [List.flatMap_cons, List.flatMap_cons, List.append_assoc, List.append_assoc,
        List.singleton_append]
      exact hfirst.append hmore

end Reading

end FirmwareUpdater.Library.LineCuts
