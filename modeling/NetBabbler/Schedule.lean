import NetBabbler.Orbit
import NetBabbler.Settings
import Mathlib.Tactic

/-!
# The sizes of a round

How `cRequestor::doJob` moves from the sizes of one round to those of the next : the same
again, a random draw, or a sweep that starts over above the maximum. The three rules are
the same for requests and responses, so `nextSize` is one of the two directions.

`forall_sizeAt_iff` : the sizes of all rounds stay between their bounds and keep a further
condition exactly where the plain steps do, before they first pass the maximum.
-/

namespace NetBabbler

/-- A draw from the uniform distribution on `0 .. b`, for the generator's output `x`. -/
def uniform (b : UInt32) (x : Nat) : UInt32 :=
  UInt32.ofNat (x % (b.toNat + 1))

theorem uniform_le (b : UInt32) (x : Nat) : (uniform b x).toNat ≤ b.toNat := by
  have hlt := Nat.mod_lt x (by omega : 0 < b.toNat + 1)
  have hb := b.toNat_lt
  rw [uniform, UInt32.toNat_ofNat', Nat.mod_eq_of_lt (by omega)]
  omega

theorem uniform_of_le {b : UInt32} {x : Nat} (h : x ≤ b.toNat) : (uniform b x).toNat = x := by
  have hb := b.toNat_lt
  rw [uniform, Nat.mod_eq_of_lt (by omega), UInt32.toNat_ofNat', Nat.mod_eq_of_lt (by omega)]

namespace ComSettings

/-- One direction of the scheduling in `doJob`, with its bounds. -/
def nextSize (c : ComSettings) (min max size : UInt32) (x : Nat) : UInt32 :=
  if c.isRand then min + uniform (max - min) x
  else if c.isSweep then if size + c.stepWidth > max then min else size + c.stepWidth
  else min

/-- The size of the `k`-th round, with what the generator yields after each round. -/
def sizeAt (c : ComSettings) (min max : UInt32) (draws : Nat → Nat) : Nat → UInt32
  | 0 => min
  | k + 1 => c.nextSize min max (c.sizeAt min max draws k) (draws k)

/-- The `k`-th step of a sweep that never starts over. -/
def step (c : ComSettings) (min : UInt32) (k : Nat) : UInt32 :=
  min + UInt32.ofNat k * c.stepWidth

/-- What the settings must satisfy in one direction for every size to be one of its range that
is also `Ok`. -/
def Stays (c : ComSettings) (min max : UInt32) (Ok : UInt32 → Prop) : Prop :=
  min ≤ max ∧
    if c.isRand then ∀ size, min ≤ size → size ≤ max → Ok size
    else if c.isSweep then
      ∀ k, (∀ j ≤ k, c.step min j ≤ max) → min ≤ c.step min k ∧ Ok (c.step min k)
    else Ok min

variable {c : ComSettings} {min max : UInt32}

theorem iterate_add (c : ComSettings) (min : UInt32) (k : Nat) :
    (fun x => x + c.stepWidth)^[k] min = c.step min k := by
  induction k with
  | zero => simp [step]
  | succ k ih =>
    rw [Function.iterate_succ_apply', ih, step, step, UInt32.ofNat_add, UInt32.add_mul,
      UInt32.add_assoc]
    simp

/-- In a sweep the sizes are an orbit with a reset. -/
theorem sizeAt_sweep (hrand : c.isRand = false) (hsweep : c.isSweep = true)
    (draws : Nat → Nat) (k : Nat) :
    c.sizeAt min max draws k =
      (Function.resetStep (fun x => x + c.stepWidth) min max)^[k] min := by
  induction k with
  | zero => rfl
  | succ k ih =>
    rw [sizeAt, ih, nextSize, hrand, hsweep, Function.iterate_succ_apply']
    simp [Function.resetStep]

/-- A draw added to the minimum stays in the range. -/
theorem add_uniform (h : min ≤ max) (x : Nat) :
    min ≤ min + uniform (max - min) x ∧ min + uniform (max - min) x ≤ max := by
  have hle : min.toNat ≤ max.toNat := h
  have hdraw := uniform_le (max - min) x
  rw [UInt32.toNat_sub_of_le _ _ h] at hdraw
  have hmax := max.toNat_lt
  have hsum : (min + uniform (max - min) x).toNat =
      min.toNat + (uniform (max - min) x).toNat := by
    rw [UInt32.toNat_add, Nat.mod_eq_of_lt (by omega)]
  refine ⟨?_, ?_⟩
  · rw [UInt32.le_iff_toNat_le, hsum]
    omega
  · rw [UInt32.le_iff_toNat_le, hsum]
    omega

/-- Every size of the range can be drawn. -/
theorem exists_add_uniform {size : UInt32} (hmin : min ≤ size) (hmax : size ≤ max) :
    ∃ x, min + uniform (max - min) x = size := by
  have hle : min.toNat ≤ size.toNat := hmin
  have hle' : size.toNat ≤ max.toNat := hmax
  have hlt := max.toNat_lt
  refine ⟨size.toNat - min.toNat, ?_⟩
  have hb : size.toNat - min.toNat ≤ (max - min).toNat := by
    rw [UInt32.toNat_sub_of_le _ _ (UInt32.le_trans hmin hmax)]
    omega
  rw [← UInt32.toNat_inj, UInt32.toNat_add, uniform_of_le hb]
  omega

/-- The sizes of all rounds, for all draws. -/
theorem forall_sizeAt_iff (Ok : UInt32 → Prop) :
    (∀ draws k, min ≤ c.sizeAt min max draws k ∧ c.sizeAt min max draws k ≤ max ∧
      Ok (c.sizeAt min max draws k)) ↔ c.Stays min max Ok := by
  constructor
  · intro hall
    obtain ⟨-, hle, hok⟩ := hall (fun _ => 0) 0
    refine ⟨hle, ?_⟩
    split_ifs with hrand hsweep
    · intro size hmin hmax
      obtain ⟨x, rfl⟩ := exists_add_uniform hmin hmax
      have hdrawn := (hall (fun _ => x) 1).2.2
      rwa [sizeAt, nextSize, if_pos hrand] at hdrawn
    · intro k hbefore
      have horbit := (Function.forall_resetOrbit_iff (fun x => x + c.stepWidth) min max
        (UInt32.not_lt.mpr hle) (fun x => min ≤ x ∧ Ok x)).mp fun k => by
          rw [← sizeAt_sweep (Bool.eq_false_iff.mpr hrand) hsweep fun _ => 0]
          exact ⟨(hall _ k).1, (hall _ k).2.2⟩
      rw [← iterate_add]
      refine horbit k fun j hj => ?_
      rw [iterate_add]
      exact UInt32.not_lt.mpr (hbefore j hj)
    · exact hok
  · rintro ⟨hle, hstays⟩ draws k
    split_ifs at hstays with hrand hsweep
    · have hrange : ∀ k, min ≤ c.sizeAt min max draws k ∧ c.sizeAt min max draws k ≤ max := by
        intro k
        cases k with
        | zero => exact ⟨UInt32.le_refl _, hle⟩
        | succ k =>
          rw [sizeAt, nextSize, if_pos hrand]
          exact add_uniform hle _
      exact ⟨(hrange k).1, (hrange k).2, hstays _ (hrange k).1 (hrange k).2⟩
    · rw [sizeAt_sweep (Bool.eq_false_iff.mpr hrand) hsweep]
      refine (Function.forall_resetOrbit_iff (fun x => x + c.stepWidth) min max
        (UInt32.not_lt.mpr hle) (fun x => min ≤ x ∧ x ≤ max ∧ Ok x)).mpr (fun k hbefore => ?_) k
      have hsteps : ∀ j ≤ k, c.step min j ≤ max := fun j hj =>
        UInt32.not_lt.mp (iterate_add c min j ▸ hbefore j hj)
      rw [iterate_add]
      exact ⟨(hstays k hsteps).1, hsteps k le_rfl, (hstays k hsteps).2⟩
    · have hfixed : c.sizeAt min max draws k = min := by
        cases k with
        | zero => rfl
        | succ k => rw [sizeAt, nextSize, if_neg hrand, if_neg hsweep]
      rw [hfixed]
      exact ⟨UInt32.le_refl _, hle, hstays⟩

end ComSettings

end NetBabbler
