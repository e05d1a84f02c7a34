import Mathlib.Data.List.Basic
import Mathlib.Tactic.SplitIfs

/-!
# Data on its way through a bounded buffer

Data that a sender has still to hand over, that is in a buffer between the two, and that its
receiver has taken out of it, in order. Both move any number of items at a time. Nothing is
lost or comes in another order (`transmit_spec`, `drain_spec`), and while there is room for
anything at all in the buffer, one of the two can move (`exists_moves`).
-/

namespace NetBabbler

/-- Data on its way, in three parts. -/
structure Transfer (β : Type) where
  outbox : List β
  pipe : List β
  inbox : List β

namespace Transfer

variable {β : Type} {capacity n : Nat} {t t' : Transfer β}

/-- No data at all. -/
def empty : Transfer β where
  outbox := []
  pipe := []
  inbox := []

/-- The data, wherever they are. -/
def whole (t : Transfer β) : List β :=
  t.inbox ++ t.pipe ++ t.outbox

/-- The sender hands over `n` items. -/
def transmit (capacity n : Nat) (t : Transfer β) : Option (Transfer β) :=
  if 0 < n ∧ n ≤ t.outbox.length ∧ t.pipe.length + n ≤ capacity then
    some { t with outbox := t.outbox.drop n, pipe := t.pipe ++ t.outbox.take n }
  else none

/-- The receiver takes `n` items. -/
def drain (n : Nat) (t : Transfer β) : Option (Transfer β) :=
  if 0 < n ∧ n ≤ t.pipe.length then
    some { t with pipe := t.pipe.drop n, inbox := t.inbox ++ t.pipe.take n }
  else none

/-- How far the data are from the receiver. -/
def work (t : Transfer β) : Nat :=
  2 * t.outbox.length + t.pipe.length

theorem transmit_spec (h : t.transmit capacity n = some t') :
    t'.whole = t.whole ∧ t'.work < t.work ∧ t'.inbox = t.inbox := by
  rw [transmit] at h
  split_ifs at h with hn
  obtain rfl := Option.some.inj h
  refine ⟨?_, ?_, rfl⟩
  · simp only [whole, List.append_assoc, List.take_append_drop]
  · simp only [work, List.length_drop, List.length_append, List.length_take]
    omega

theorem drain_spec (h : t.drain n = some t') :
    t'.whole = t.whole ∧ t'.work < t.work ∧ t'.outbox = t.outbox := by
  rw [drain] at h
  split_ifs at h with hn
  obtain rfl := Option.some.inj h
  refine ⟨?_, ?_, rfl⟩
  · simp only [whole, List.append_assoc]
    rw [← List.append_assoc (t.pipe.take n), List.take_append_drop]
  · simp only [work, List.length_drop]
    omega

/-- Until all is with the receiver, the sender or the receiver can move. -/
theorem exists_moves (hcapacity : 0 < capacity) (h : t.inbox ≠ t.whole) :
    (∃ t', t.transmit capacity 1 = some t') ∨ t.pipe ≠ [] ∧ ∃ t', t.drain 1 = some t' := by
  by_cases hpipe : t.pipe = []
  · have houtbox : t.outbox ≠ [] := fun hnil => h (by rw [whole, hpipe, hnil]; simp)
    have hpos := List.length_pos_of_ne_nil houtbox
    refine .inl ⟨_, if_pos ⟨Nat.one_pos, hpos, ?_⟩⟩
    rw [hpipe]
    exact hcapacity
  · exact .inr ⟨hpipe, _, if_pos ⟨Nat.one_pos, List.length_pos_of_ne_nil hpipe⟩⟩

/-- All is with the receiver if what it has is as long. -/
theorem eq_nil_of_inbox_eq (h : t.inbox = t.whole) : t.pipe = [] ∧ t.outbox = [] := by
  rw [whole, List.append_assoc] at h
  exact List.append_eq_nil_iff.mp (List.append_right_eq_self.mp h.symm)

theorem whole_eq_nil_iff : t.whole = [] ↔ t.inbox = [] ∧ t.pipe = [] ∧ t.outbox = [] := by
  rw [whole, List.append_eq_nil_iff, List.append_eq_nil_iff, and_assoc]

theorem inbox_isPrefix (t : Transfer β) : t.inbox <+: t.whole := by
  rw [whole, List.append_assoc]
  exact List.prefix_append _ _

end Transfer

end NetBabbler
