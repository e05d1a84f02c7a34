import NetBabbler.Sizes

/-!
# Sweeps

The sizes that a sweep without byte limits goes through, in closed form. Each direction
counts up from its minimum in steps of the width and starts over where the next step
would pass its maximum, with a period of its own (`sizeAt_eq_sweepSize`).

`sweep_rounds` : these are the sizes that the rounds of `doJob` use, and in every period
each step value between minimum and maximum comes up exactly once.
-/

namespace NetBabbler

open EStateM Requestor

/-- The number of step values between `min` and `max`. -/
def sweepPeriod (min max w : Nat) : Nat :=
  (max - min) / w + 1

/-- The size of the `k`-th round. -/
def sweepSize (min max w k : Nat) : Nat :=
  min + w * (k % sweepPeriod min max w)

/-- In every period each step value from `min` to `max` comes up exactly once. -/
def VisitsOnce (min max w : Nat) : Prop :=
  ∀ period v, (∃ i, v = min + w * i) → v ≤ max →
    ∃! k, period * sweepPeriod min max w ≤ k ∧ k < (period + 1) * sweepPeriod min max w ∧
      sweepSize min max w k = v

theorem sweep_visitsOnce (min max : Nat) {w : Nat} (hw : 0 < w) : VisitsOnce min max w := by
  rintro period v ⟨i, rfl⟩ hle
  unfold sweepSize
  have hi : i < sweepPeriod min max w := by
    rw [sweepPeriod, Nat.lt_succ_iff, Nat.le_div_iff_mul_le hw, Nat.mul_comm]
    omega
  generalize sweepPeriod min max w = p at hi
  rw [Nat.succ_mul]
  refine ⟨period * p + i, ⟨Nat.le_add_right _ _, by omega, ?_⟩, ?_⟩
  · rw [Nat.add_comm (period * p), Nat.add_mul_mod_self_right, Nat.mod_eq_of_lt hi]
  · rintro k ⟨hlo, hhi, hk⟩
    have hmod : k % p = i := Nat.eq_of_mul_eq_mul_left hw (Nat.add_left_cancel hk)
    obtain ⟨j, rfl⟩ := Nat.exists_eq_add_of_le hlo
    rw [Nat.add_comm, Nat.add_mul_mod_self_right, Nat.mod_eq_of_lt (by omega)] at hmod
    rw [hmod]

namespace ComSettings

variable {c : ComSettings} {min max : UInt32}

/-- A sweep moves and is not random. -/
theorem sweep_moves (hsweep : c.isSweep = true) : c.isRand = false ∧ 0 < c.stepWidth.toNat := by
  obtain ⟨-, hwidth⟩ : ¬c.isFixed = true ∧ c.stepWidth ≠ 0 := by
    simpa [isSweep] using hsweep
  exact ⟨by simp [isRand, hwidth], Nat.pos_of_ne_zero fun h0 => hwidth (UInt32.toNat_inj.mp h0)⟩

/-- The steps up to the first one past the maximum do not wrap. -/
theorem toNat_step {j : Nat} (hw : 0 < c.stepWidth.toNat)
    (hfits : min.toNat + c.stepWidth.toNat * j < 2 ^ 32) :
    (c.step min j).toNat = min.toNat + c.stepWidth.toNat * j := by
  have hj : j ≤ c.stepWidth.toNat * j := Nat.le_mul_of_pos_left j hw
  have hofNat : (UInt32.ofNat j).toNat = j := by
    rw [UInt32.toNat_ofNat', Nat.mod_eq_of_lt (by omega)]
  rw [step, UInt32.toNat_add, UInt32.toNat_mul, hofNat, Nat.mul_comm j,
    Nat.mod_eq_of_lt (by omega : c.stepWidth.toNat * j < 2 ^ 32), Nat.mod_eq_of_lt hfits]

theorem sizeAt_eq_sweepSize (hle : min ≤ max) (hsweep : c.isSweep = true)
    (hfits : max.toNat + c.stepWidth.toNat < 2 ^ 32) (draws : Nat → Nat) (k : Nat) :
    (c.sizeAt min max draws k).toNat =
      sweepSize min.toNat max.toNat c.stepWidth.toNat k := by
  have hmin : min.toNat ≤ max.toNat := hle
  obtain ⟨hrand, hw⟩ := sweep_moves hsweep
  obtain ⟨p, hp⟩ : ∃ p, p = sweepPeriod min.toNat max.toNat c.stepWidth.toNat := ⟨_, rfl⟩
  have hdiv : ∀ j, c.stepWidth.toNat * j ≤ max.toNat - min.toNat ↔ j < p := fun j => by
    rw [hp, sweepPeriod, Nat.lt_succ_iff, Nat.le_div_iff_mul_le hw, Nat.mul_comm]
  have hppos : 0 < p := (hdiv 0).mp (by omega)
  have hlast : c.stepWidth.toNat * p ≤ max.toNat - min.toNat + c.stepWidth.toNat := by
    obtain ⟨q, rfl⟩ := Nat.exists_eq_add_of_lt hppos
    rw [Nat.zero_add] at hdiv ⊢
    have := (hdiv q).mpr (Nat.lt_succ_self q)
    rw [Nat.mul_succ]
    omega
  have hstep : ∀ j ≤ p, (c.step min j).toNat = min.toNat + c.stepWidth.toNat * j := fun j hj =>
    toNat_step hw (by
      have := Nat.mul_le_mul_left c.stepWidth.toNat hj
      omega)
  have htop : max < c.step min p := by
    rw [UInt32.lt_iff_toNat_lt, hstep p le_rfl]
    have := mt (hdiv p).mp (Nat.lt_irrefl p)
    omega
  have hbefore : ∀ j < p, ¬max < c.step min j := fun j hj => by
    rw [UInt32.lt_iff_toNat_lt, hstep j hj.le]
    have := (hdiv j).mpr hj
    omega
  have hlt := Nat.mod_lt k hppos
  rw [sizeAt_sweep hrand hsweep, Function.resetStep_iterate_mod _ _ _ hppos
    (fun j hj => by rw [iterate_add]; exact hbefore j hj) (by rw [iterate_add]; exact htop),
    iterate_add, hstep _ hlt.le, sweepSize, hp]

end ComSettings

/-- The sizes that the rounds of a sweep use without byte limits, and how often. -/
theorem sweep_rounds {c : ComSettings} (hreq : c.requestSizeMin ≤ c.requestSizeMax)
    (hresp : c.responseSizeMin ≤ c.responseSizeMax) (hsweep : c.isSweep = true)
    (hreqFits : c.requestSizeMax.toNat + c.stepWidth.toNat < 2 ^ 32)
    (hrespFits : c.responseSizeMax.toNat + c.stepWidth.toNat < 2 ^ 32)
    (socket : Socket) (buf : List UInt8) {sendLimit recvLimit : Int64}
    (hsend : sendLimit.toInt ≤ 0) (hrecv : recvLimit.toInt ≤ 0) (rng : Nat → Nat) :
    (∀ k, Ends (times doJob k)
      (fun _ r => Ends checkLimits
        (fun _ r' =>
          r'.currReqSize.toNat = sweepSize c.requestSizeMin.toNat c.requestSizeMax.toNat
            c.stepWidth.toNat k ∧
          r'.currRespSize.toNat = sweepSize c.responseSizeMin.toNat c.responseSizeMax.toNat
            c.stepWidth.toNat k)
        (fun _ _ => False) r)
      (fun _ _ => True) (.init socket buf c sendLimit recvLimit rng)) ∧
    VisitsOnce c.requestSizeMin.toNat c.requestSizeMax.toNat c.stepWidth.toNat ∧
    VisitsOnce c.responseSizeMin.toNat c.responseSizeMax.toNat c.stepWidth.toNat := by
  have hw := (ComSettings.sweep_moves hsweep).2
  refine ⟨fun k => ?_, sweep_visitsOnce _ _ hw, sweep_visitsOnce _ _ hw⟩
  obtain ⟨r₀, hr₀⟩ : ∃ r₀, r₀ = Requestor.init socket buf c sendLimit recvLimit rng := ⟨_, rfl⟩
  have hc : r₀.comSettings = c := by rw [hr₀]; rfl
  have hstart : SameSchedule r₀ r₀ := by
    refine ⟨rfl, rfl, rfl, rfl, fun d => ?_⟩
    rw [hr₀]
    cases d with
    | send => exact hsend
    | recv => exact hrecv
  rw [← hr₀]
  refine (times_doJob_schedule k hstart).mono (fun _ r hsame => ?_) fun _ _ _ => trivial
  obtain ⟨-, -, hreqSize, hrespSize⟩ :=
    schedule_iterate r₀ (by rw [hr₀]; rfl) (by rw [hr₀]; rfl) k
  have hcheck : ∀ d, r.check d = (false, r.size d) := fun d =>
    isLimitReached_unlimited _ _ (hsame.unlimited d)
  refine (checkLimits_spec r).mono ?_ ?_
  · rintro _ r' ⟨-, rfl⟩
    rw [hc] at hreqSize hrespSize
    constructor
    · show (r.check .send).2.toNat = _
      rw [hcheck, size, hsame.currReqSize, hreqSize]
      exact ComSettings.sizeAt_eq_sweepSize hreq hsweep hreqFits _ k
    · show (r.check .recv).2.toNat = _
      rw [hcheck, size, hsame.currRespSize, hrespSize]
      exact ComSettings.sizeAt_eq_sweepSize hresp hsweep hrespFits _ k
  · rintro f r' ⟨-, -, -, d, hd⟩
    rw [hcheck] at hd
    cases hd

/-- A client in a sweep, whose server answers two rounds. -/
def sevens : Requestor :=
  .init (.serving ((Message.response 1 26).encode ++ (Message.response 2 26).encode) 25 9 9)
    (List.replicate 64 0) ⟨100, 200, 50, 50, 7, false⟩ (-1) (-1) fun _ => 0

theorem sweep_rounds_seven :
    Ends (times doJob 2) (fun _ _ => True) (fun _ _ => False) sevens ∧
    (∀ k, Ends (times doJob k)
      (fun _ r => Ends checkLimits
        (fun _ r' => r'.currReqSize.toNat = sweepSize 100 200 7 k ∧
          r'.currRespSize.toNat = sweepSize 50 50 7 k)
        (fun _ _ => False) r)
      (fun _ _ => True) sevens) ∧
    VisitsOnce 100 200 7 ∧ VisitsOnce 50 50 7 := by
  have hreturns : Ends (times doJob 2) (fun _ _ => True) (fun _ _ => False) sevens := by
    decide +kernel
  have hlimit : (-1 : Int64).toInt ≤ 0 := by decide
  exact ⟨hreturns, sweep_rounds (c := ⟨100, 200, 50, 50, 7, false⟩) (by decide) (by decide)
    (by decide) (by decide) (by decide) _ (List.replicate 64 0) hlimit hlimit fun _ => 0⟩

end NetBabbler
