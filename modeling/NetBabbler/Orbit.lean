import Mathlib.Dynamics.PeriodicPts.Defs

/-!
# Orbits with a reset

A value that moves by `f` and starts over at `bot` whenever it would pass `top`. What it
ever reaches is what the plain iterates of `f` from `bot` reach before the first of them
passes `top` (`forall_resetOrbit_iff`). If the iterates pass it after `p` steps, the orbit
has period `p` and its values are known (`resetStep_iterate_mod`).
-/

namespace Function

variable {α : Type*} [LT α] [DecidableLT α] (f : α → α) (bot top : α)

/-- The next value : `f x`, or `bot` if that is above `top`. -/
def resetStep (x : α) : α :=
  if f x > top then bot else f x

/-- Before an iterate passes the top, the orbit follows the iterates. -/
theorem resetStep_iterate_eq {k : ℕ} (h : ∀ j ≤ k, ¬top < f^[j] bot) :
    (resetStep f bot top)^[k] bot = f^[k] bot := by
  induction k with
  | zero => rfl
  | succ k ih =>
    have hk := h (k + 1) (Nat.le_refl _)
    rw [iterate_succ_apply', ih fun j hj => h j (Nat.le_succ_of_le hj), resetStep,
      ← iterate_succ_apply' f, if_neg hk]

/-- An orbit whose plain iterates first pass the top after `p` steps repeats them. -/
theorem resetStep_iterate_mod {p : ℕ} (hp : 0 < p) (hbefore : ∀ j < p, ¬top < f^[j] bot)
    (htop : top < f^[p] bot) (k : ℕ) : (resetStep f bot top)^[k] bot = f^[k % p] bot := by
  have hperiod : IsPeriodicPt (resetStep f bot top) p bot := by
    obtain ⟨q, rfl⟩ := Nat.exists_eq_add_of_lt hp
    rw [Nat.zero_add] at htop hbefore ⊢
    rw [IsPeriodicPt, IsFixedPt, iterate_succ_apply',
      resetStep_iterate_eq f bot top fun j hj => hbefore j (Nat.lt_succ_of_le hj), resetStep,
      ← iterate_succ_apply' f, if_pos htop]
  have hlt := Nat.mod_lt k hp
  rw [← hperiod.iterate_mod_apply,
    resetStep_iterate_eq f bot top fun j hj => hbefore j (Nat.lt_of_le_of_lt hj hlt)]

/-- Every value of the orbit is an iterate that came before the first one above the top. -/
theorem exists_iterate_eq (h : ¬top < bot) (k : ℕ) :
    ∃ j, (resetStep f bot top)^[k] bot = f^[j] bot ∧ ∀ i ≤ j, ¬top < f^[i] bot := by
  induction k with
  | zero =>
    refine ⟨0, rfl, fun i hi => ?_⟩
    rw [Nat.le_zero.mp hi]
    exact h
  | succ k ih =>
    obtain ⟨j, hj, hbefore⟩ := ih
    rw [iterate_succ_apply', hj, resetStep]
    by_cases htop : f (f^[j] bot) > top
    · refine ⟨0, if_pos htop, fun i hi => ?_⟩
      rw [Nat.le_zero.mp hi]
      exact h
    · refine ⟨j + 1, ?_, fun i hi => ?_⟩
      · rw [if_neg htop, iterate_succ_apply']
      · rcases Nat.lt_or_eq_of_le hi with hlt | rfl
        · exact hbefore i (Nat.le_of_lt_succ hlt)
        · rwa [iterate_succ_apply']

/-- The orbit keeps `P` if and only if every iterate does that comes before the top is passed. -/
theorem forall_resetOrbit_iff (h : ¬top < bot) (P : α → Prop) :
    (∀ k, P ((resetStep f bot top)^[k] bot)) ↔
      ∀ k, (∀ j ≤ k, ¬top < f^[j] bot) → P (f^[k] bot) := by
  constructor
  · intro hall k hbefore
    rw [← resetStep_iterate_eq f bot top hbefore]
    exact hall k
  · intro hall k
    obtain ⟨j, hj, hbefore⟩ := exists_iterate_eq f bot top h k
    rw [hj]
    exact hall j hbefore

end Function
