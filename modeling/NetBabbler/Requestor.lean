import NetBabbler.Limit
import NetBabbler.Schedule
import NetBabbler.Supplied

/-!
# The requestor

`cRequestor` of `requestor.hpp` : `doJob` cuts the scheduled sizes to what the byte limits
leave, sends a request, waits for the response it asked for, and schedules the sizes of the
next round. The delay between two rounds and the console output are left out.

`exact_iff` : rounds under a byte limit end after exactly that many bytes, if and only if
none of them finds a rest below `2 * MIN_LEN` that is more than the scheduled size.
-/

namespace NetBabbler

open EStateM BabblerProtocol

/-- `cRequestor`. -/
structure Requestor where
  protocol : BabblerProtocol
  comSettings : ComSettings
  currReqSize : UInt32
  currRespSize : UInt32
  sendLimitOctets : Int64
  recvLimitOctets : Int64
  seq : UInt64
  /-- The numbers that `m_rng` is going to give. -/
  rng : Nat → Nat

namespace Requestor

/-- The constructor. -/
def init (socket : Socket) (buf : List UInt8) (comSettings : ComSettings)
    (sendLimit recvLimit : Int64) (rng : Nat → Nat) : Requestor where
  protocol := .init socket buf
  comSettings := comSettings
  currReqSize := comSettings.requestSizeMin
  currRespSize := comSettings.responseSizeMin
  sendLimitOctets := sendLimit
  recvLimitOctets := recvLimit
  seq := 0
  rng := rng

/-- A call on the protocol object. -/
def onProtocol {α : Type} : EStateM Fault BabblerProtocol α → EStateM Fault Requestor α :=
  zoom protocol fun s r => { r with protocol := s }

/-- The part of `doJob` before the round trip. -/
def checkLimits : EStateM Fault Requestor Unit := do
  let r ← get
  let send := isLimitReached r.sendLimitOctets r.protocol.stats.sentOctets r.currReqSize
  modify fun r => { r with currReqSize := send.2 }
  throwIf (send.1 = true) .eventException
  let recv := isLimitReached r.recvLimitOctets r.protocol.stats.receivedOctets r.currRespSize
  modify fun r => { r with currRespSize := recv.2 }
  throwIf (recv.1 = true) .eventException

/-- The request of a round, and its response if it wants one. -/
def roundTrip : EStateM Fault Requestor Unit := do
  modify fun r => { r with seq := r.seq + 1 }
  let r ← get
  onProtocol (sendRequest r.seq r.currReqSize r.currRespSize)
  if r.currRespSize ≠ 0 then onProtocol (recvResponse r.seq)
  else pure ()

/-- The sizes of the next round. -/
def schedule (r : Requestor) : Requestor :=
  let c := r.comSettings
  { r with
    currReqSize := c.nextSize c.requestSizeMin c.requestSizeMax r.currReqSize (r.rng 0)
    currRespSize := c.nextSize c.responseSizeMin c.responseSizeMax r.currRespSize (r.rng 1)
    rng := if c.isRand then fun n => r.rng (n + 2) else r.rng }

/-- `cRequestor::doJob`. -/
def doJob : EStateM Fault Requestor Unit := do
  checkLimits
  roundTrip
  modify schedule

/-! ## Byte limits -/

/-- The byte limits are two of a kind. -/
inductive Direction where
  | send
  | recv

/-- The byte limit of a direction. -/
def limit (r : Requestor) : Direction → Int64
  | .send => r.sendLimitOctets
  | .recv => r.recvLimitOctets

/-- The bytes counted in a direction. -/
def octets (r : Requestor) : Direction → Int64
  | .send => r.protocol.stats.sentOctets
  | .recv => r.protocol.stats.receivedOctets

/-- The size scheduled for the round. -/
def size (r : Requestor) : Direction → UInt32
  | .send => r.currReqSize
  | .recv => r.currRespSize

/-- What `doJob` finds out about the limit. -/
def check (r : Requestor) (d : Direction) : Bool × UInt32 :=
  isLimitReached (r.limit d) (r.octets d) (r.size d)

/-- The branch of `isLimitReached` that should never happen. -/
def BelowMinLen (r : Requestor) (d : Direction) : Prop :=
  clip (r.limit d - r.octets d) (r.size d) < MIN_LEN

/-- What is left of the limit. -/
def rest (r : Requestor) (d : Direction) : Int :=
  (r.limit d).toInt - (r.octets d).toInt

variable {r : Requestor} {d : Direction}

@[simp] theorem schedule_limit (r : Requestor) (d : Direction) :
    r.schedule.limit d = r.limit d := by
  cases d <;> rfl

@[simp] theorem schedule_octets (r : Requestor) (d : Direction) :
    r.schedule.octets d = r.octets d := by
  cases d <;> rfl

/-- `checkLimits` passes below both limits and does nothing but cut the sizes. -/
theorem checkLimits_spec (r : Requestor) :
    Ends checkLimits
      (fun _ r' => (∀ d, (r.check d).1 = false) ∧
        r' = { r with currReqSize := (r.check .send).2, currRespSize := (r.check .recv).2 })
      (fun f r' => f = .eventException ∧ r'.protocol = r.protocol ∧ r'.seq = r.seq ∧
        ∃ d, (r.check d).1 = true) r := by
  simp only [checkLimits, ends_bind, ends_get, ends_modify, ends_throwIf]
  split_ifs with hsend hrecv
  · exact ⟨trivial, trivial, trivial, .send, hsend⟩
  · exact ⟨trivial, trivial, trivial, .recv, hrecv⟩
  · refine ⟨fun d => ?_, rfl⟩
    cases d with
    | send => exact Bool.eq_false_iff.mpr hsend
    | recv => exact Bool.eq_false_iff.mpr hrecv

/-- `r` with its sizes cut, in a round that left the protocol object `s`. -/
def after (r : Requestor) (s : BabblerProtocol) : Requestor :=
  { r with
    protocol := s
    currReqSize := (r.check .send).2
    currRespSize := (r.check .recv).2
    seq := r.seq + 1 }

/-- A round, from what becomes of it under a limit that is reached, and of its two messages. -/
theorem ends_doJob {Q : Unit → Requestor → Prop} {E : Fault → Requestor → Prop}
    (hreached : ∀ r' : Requestor, r'.protocol = r.protocol → r'.seq = r.seq →
      (∃ d, (r.check d).1 = true) → E .eventException r')
    (hround : (∀ d, (r.check d).1 = false) →
      Ends (sendRequest (r.seq + 1) (r.check .send).2 (r.check .recv).2)
        (fun _ s₁ => if (r.check .recv).2 ≠ 0 then
            Ends (recvResponse (r.seq + 1)) (fun _ s₂ => Q () (r.after s₂).schedule)
              (fun f s₂ => E f (r.after s₂)) s₁
          else Q () (r.after s₁).schedule)
        (fun f s₁ => E f (r.after s₁)) r.protocol) :
    Ends doJob Q E r := by
  simp only [doJob, ends_bind, ends_modify]
  refine (checkLimits_spec r).mono ?_ ?_
  · rintro _ r₁ ⟨hopen, rfl⟩
    simp only [roundTrip, onProtocol, ends_bind, ends_modify, ends_get, ends_zoom]
    refine (hround hopen).mono (fun _ s₁ hs₁ => ?_) fun _ _ he => he
    split_ifs at hs₁ ⊢
    · rw [ends_zoom]
      exact hs₁
    · rw [ends_pure]
      exact hs₁
  · rintro f r' ⟨rfl, hprotocol, hseq, hd⟩
    exact hreached r' hprotocol hseq hd

/-- All that a round does to the requestor but for the protocol object. -/
theorem doJob_spec (r : Requestor) :
    Ends doJob (fun _ r' => (∀ d, (r.check d).1 = false) ∧ ∃ s, r' = (r.after s).schedule)
      (fun f r' => f = .eventException ∧ r'.protocol = r.protocol ∧ r'.seq = r.seq ∧
          (∃ d, (r.check d).1 = true) ∨
        (∀ d, (r.check d).1 = false) ∧ ∃ s, r' = r.after s) r := by
  refine ends_doJob (fun r' hprotocol hseq hd => .inl ⟨rfl, hprotocol, hseq, hd⟩) fun hopen => ?_
  refine ends_of_forall (fun _ s₁ => ?_) fun _ s₁ => .inr ⟨hopen, s₁, rfl⟩
  split_ifs
  · exact ends_of_forall (fun _ s₂ => ⟨hopen, s₂, rfl⟩) fun _ s₂ => .inr ⟨hopen, s₂, rfl⟩
  · exact ⟨hopen, s₁, rfl⟩

/-- A round keeps the limits. -/
theorem doJob_limit (r : Requestor) :
    Ends doJob (fun _ r' => ∀ d, r'.limit d = r.limit d) (fun _ _ => True) r := by
  refine (doJob_spec r).mono ?_ fun _ _ _ => trivial
  rintro _ r' ⟨-, s, rfl⟩ d
  rw [schedule_limit]
  cases d <;> rfl

/-- A round under a limit that is reached does not start. -/
theorem doJob_reached (h : (r.check d).1 = true) :
    Ends doJob (fun _ _ => False) (fun f r' => f = .eventException ∧ r'.protocol = r.protocol ∧
      r'.seq = r.seq) r := by
  have hopen : ¬∀ d, (r.check d).1 = false := fun hopen => by
    rw [hopen d] at h
    cases h
  refine (doJob_spec r).mono (fun _ _ hr => hopen hr.1) fun f r' hr => ?_
  obtain ⟨hf, hprotocol, hseq, -⟩ := hr.resolve_right fun hr => hopen hr.1
  exact ⟨hf, hprotocol, hseq⟩

/-! ## Rounds under one limit -/

/-- Rounds of `doJob` under a byte limit, each of which adds its message to the octets counted
and returns, until the limit is reached. So no round finds the other limit reached. -/
structure Rounds (d : Direction) (r : Nat → Requestor) : Prop where
  start : ((r 0).octets d).toInt = 0
  limit : 32 ≤ ((r 0).limit d).toInt
  scheduled : ∀ k, 32 ≤ ((r k).size d).toNat
  round : ∀ k, ((r k).check d).1 = false → doJob (r k) = .ok () (r (k + 1))
  counted : ∀ k, ((r k).check d).1 = false →
    (r (k + 1)).octets d = (r k).octets d + toFast ((r k).check d).2

/-- The rounds stop with exactly the limit's octets, and never take the branch that should
never happen. -/
def Exact (d : Direction) (r : Nat → Requestor) : Prop :=
  ∃ n, (∀ k < n, ((r k).check d).1 = false ∧ ¬(r k).BelowMinLen d) ∧
    Ends doJob (fun _ _ => False) (fun f r' => f = .eventException ∧ r'.seq = (r n).seq) (r n) ∧
    (r n).octets d = (r 0).limit d

/-- A scheduled message leaves less than another one behind, with too little to cut off. -/
def Narrow (r : Requestor) (d : Direction) : Prop :=
  (r.size d).toNat < r.rest d ∧ r.rest d < 64

instance (r : Requestor) (d : Direction) : Decidable (r.BelowMinLen d) :=
  inferInstanceAs (Decidable (_ < _))

instance (r : Requestor) (d : Direction) : Decidable (r.Narrow d) :=
  inferInstanceAs (Decidable (_ ∧ _))

theorem Rounds.limit_eq {r : Nat → Requestor} (h : Rounds d r) :
    ∀ (n : Nat), (∀ k < n, ((r k).check d).1 = false) → ∀ d', (r n).limit d' = (r 0).limit d'
  | 0, _, _ => rfl
  | n + 1, hopen, d' => by
    have hkeep := (doJob_limit (r n)).ok (h.round n (hopen n (Nat.lt_succ_self n)))
    rw [hkeep d', h.limit_eq n (fun k hk => hopen k (Nat.lt_succ_of_lt hk))]

/-- Below the limit, with room for a message, the branch is taken by narrow rounds. -/
theorem belowMinLen_iff {r : Requestor} (hsize : 32 ≤ (r.size d).toNat)
    (hoctets : 0 ≤ (r.octets d).toInt) (hrest : 32 ≤ r.rest d) :
    r.BelowMinLen d ↔ r.Narrow d := by
  unfold rest at hrest
  have hsub : (r.limit d - r.octets d).toInt = r.rest d :=
    toInt_sub_of_le hoctets (by omega)
  rw [BelowMinLen, clip_lt_iff (by rw [hsub]; unfold rest; omega) hsize, hsub, Narrow, rest]
  omega

/-- One round takes its message off the rest, and leaves nothing or room for a message. -/
theorem rest_round {r : Requestor} (r' : Requestor) (hsize : 32 ≤ (r.size d).toNat)
    (hoctets : 0 ≤ (r.octets d).toInt) (hrest : 32 ≤ r.rest d) (hnarrow : ¬r.Narrow d)
    (hlimit : r'.limit d = r.limit d)
    (hcounted : r'.octets d = r.octets d + toFast (r.check d).2) :
    0 ≤ (r'.octets d).toInt ∧ (r'.rest d = 0 ∨ 32 ≤ r'.rest d) ∧ r'.rest d + 32 ≤ r.rest d := by
  have hbelow : ¬clip (r.limit d - r.octets d) (r.size d) < MIN_LEN :=
    mt (belowMinLen_iff hsize hoctets hrest).mp hnarrow
  unfold rest at hrest
  have hsub : (r.limit d - r.octets d).toInt = r.rest d := toInt_sub_of_le hoctets (by omega)
  have htaken : ((r.check d).2.toNat : Int) =
      if (r.size d).toNat < r.rest d ∧ r.rest d < (r.size d).toNat + 32 then r.rest d - 32
      else min ((r.size d).toNat : Int) (r.rest d) := by
    rw [check, isLimitReached_open _ (by omega) (by omega), if_neg hbelow,
      toNat_clip (by rw [hsub, rest]; omega) hsize, hsub]
  have hle := (r.limit d).toInt_lt
  unfold Narrow at hnarrow
  unfold rest at htaken hnarrow ⊢
  have hadd : (r'.octets d).toInt = (r.octets d).toInt + (r.check d).2.toNat := by
    rw [hcounted, toInt_add_of_lt hoctets, toInt_toFast]
    · rw [toInt_toFast]
      omega
    · rw [toInt_toFast]
      split_ifs at htaken <;> omega
  rw [hlimit, hadd]
  split_ifs at htaken <;> omega

/-- Rounds that are not narrow keep to the limit. -/
theorem Rounds.rest_spec {r : Nat → Requestor} (h : Rounds d r) :
    ∀ (n : Nat), (∀ k < n, ((r k).check d).1 = false ∧ ¬(r k).Narrow d) →
      0 ≤ ((r n).octets d).toInt ∧ ((r n).rest d = 0 ∨ 32 ≤ (r n).rest d) ∧
        (r n).rest d + 32 * n ≤ ((r 0).limit d).toInt
  | 0, _ => by
    have hstart := h.start
    have hlimit := h.limit
    unfold rest
    omega
  | n + 1, hrounds => by
    have hn := hrounds n (Nat.lt_succ_self n)
    obtain ⟨hoctets, hrest, hsum⟩ := h.rest_spec n fun k hk => hrounds k (Nat.lt_succ_of_lt hk)
    have hrest' : 32 ≤ (r n).rest d := by
      refine hrest.resolve_left fun h0 => ?_
      have hlimit : (r n).limit d = (r 0).limit d :=
        h.limit_eq n (fun k hk => (hrounds k (Nat.lt_succ_of_lt hk)).1) d
      have hreached : ((r n).check d).1 = true := by
        have := h.limit
        rw [check, isLimitReached_iff _ (by rw [hlimit]; omega)]
        unfold rest at h0
        omega
      rw [hn.1] at hreached
      cases hreached
    have hstep := rest_round (r (n + 1)) (h.scheduled n) hoctets hrest' hn.2
      ((doJob_limit (r n)).ok (h.round n hn.1) d) (h.counted n hn.1)
    refine ⟨hstep.1, hstep.2.1, ?_⟩
    push_cast
    omega

/-- Where a round starts, there is room for a message. -/
theorem Rounds.rest_open {r : Nat → Requestor} (h : Rounds d r) {n : Nat}
    (hrounds : ∀ k < n, ((r k).check d).1 = false ∧ ¬(r k).Narrow d) :
    ((r n).check d).1 = false ↔ 32 ≤ (r n).rest d := by
  obtain ⟨-, hrest, -⟩ := h.rest_spec n hrounds
  have hlimit : (r n).limit d = (r 0).limit d :=
    h.limit_eq n (fun k hk => (hrounds k hk).1) d
  have hpos := h.limit
  rw [← Bool.not_eq_true, check, isLimitReached_iff _ (by rw [hlimit]; omega)]
  unfold rest at hrest ⊢
  omega

/-- The rounds are exact if and only if none that starts is narrow. -/
theorem exact_iff {r : Nat → Requestor} (h : Rounds d r) :
    Exact d r ↔ ∀ n, (∀ k ≤ n, ((r k).check d).1 = false) → ¬(r n).Narrow d := by
  constructor
  · rintro ⟨n, hrounds, hstop, -⟩ m hopen hnarrow
    have hmn : m < n := by
      by_contra hle
      exact hstop.ok (h.round n (hopen n (not_lt.mp hle)))
    have hall : ∀ j ≤ m, ∀ k < j, ((r k).check d).1 = false ∧ ¬(r k).Narrow d := by
      intro j
      induction j with
      | zero => exact fun _ k hk => absurd hk (Nat.not_lt_zero k)
      | succ j ih =>
        intro hj k hk
        have hbefore := ih (Nat.le_of_succ_le hj)
        rcases Nat.lt_succ_iff_lt_or_eq.mp hk with hlt | rfl
        · exact hbefore k hlt
        · have hk' := hrounds k (by omega)
          refine ⟨hk'.1, fun hnar => hk'.2 ?_⟩
          exact (belowMinLen_iff (h.scheduled k) (h.rest_spec k hbefore).1
            ((h.rest_open hbefore).mp hk'.1)).mpr hnar
    have hbefore := hall m le_rfl
    exact (hrounds m hmn).2 ((belowMinLen_iff (h.scheduled m) (h.rest_spec m hbefore).1
      ((h.rest_open hbefore).mp (hopen m le_rfl))).mpr hnarrow)
  · intro hwide
    have hends : ∃ n, ((r n).check d).1 = true := by
      by_contra hnever
      have hopen : ∀ k, ((r k).check d).1 = false := fun k =>
        Bool.eq_false_iff.mpr fun hk => hnever ⟨k, hk⟩
      have hsum := (h.rest_spec (((r 0).limit d).toInt.toNat + 1) fun k _ =>
        ⟨hopen k, hwide k fun j _ => hopen j⟩)
      have hlimit := h.limit
      push_cast at hsum
      omega
    obtain ⟨n, hn, hfirst⟩ : ∃ n, ((r n).check d).1 = true ∧
        ∀ k < n, ((r k).check d).1 = false := by
      classical
      exact ⟨Nat.find hends, Nat.find_spec hends, fun k hk =>
        Bool.eq_false_iff.mpr (Nat.find_min hends hk)⟩
    have hrounds : ∀ k < n, ((r k).check d).1 = false ∧ ¬(r k).Narrow d := fun k hk =>
      ⟨hfirst k hk, hwide k fun j hj => hfirst j (lt_of_le_of_lt hj hk)⟩
    refine ⟨n, fun k hk => ⟨hfirst k hk, ?_⟩, ?_, ?_⟩
    · have hbefore : ∀ j < k, ((r j).check d).1 = false ∧ ¬(r j).Narrow d := fun j hj =>
        hrounds j (hj.trans hk)
      exact mt (belowMinLen_iff (h.scheduled k) (h.rest_spec k hbefore).1
        ((h.rest_open hbefore).mp (hfirst k hk))).mp (hrounds k hk).2
    · exact (doJob_reached hn).mono (fun _ _ he => he) fun _ _ he => ⟨he.1, he.2.2⟩
    · have hlimit : (r n).limit d = (r 0).limit d := h.limit_eq n hfirst d
      have hzero : (r n).rest d = 0 := by
        refine (h.rest_spec n hrounds).2.1.resolve_right fun h32 => ?_
        rw [(h.rest_open hrounds).mpr h32] at hn
        cases hn
      rw [← hlimit, ← Int64.toInt_inj]
      unfold rest at hzero
      omega

/-- The state after a round, or before it where it fails. -/
def next (r : Requestor) : Requestor :=
  match doJob r with
  | .ok _ r' => r'
  | .error _ _ => r

/-- Two rounds that return, and a third that finds the limit reached. -/
theorem rounds_two {r : Requestor} (hstart : (r.octets d).toInt = 0)
    (hlimit : 32 ≤ (r.limit d).toInt)
    (hsize : ∀ k < 3, 32 ≤ ((next^[k] r).size d).toNat)
    (hround : ∀ k < 2, Ends doJob
      (fun _ r' => r'.octets d = (next^[k] r).octets d + toFast ((next^[k] r).check d).2)
      (fun _ _ => False) (next^[k] r))
    (hstop : ((next^[2] r).check d).1 = true) : Rounds d fun k => next^[k] r := by
  have hlast : ∀ k, next^[k + 2] r = next^[2] r := by
    intro k
    induction k with
    | zero => rfl
    | succ k ih =>
      rw [Nat.add_right_comm, Function.iterate_succ_apply', ih, next]
      cases hrun : doJob (next^[2] r) with
      | ok a r' => exact ((doJob_reached hstop).ok hrun).elim
      | error f r' => rfl
  have hopen : ∀ k, ((next^[k] r).check d).1 = false → k < 2 := by
    intro k hk
    by_contra hge
    obtain ⟨j, rfl⟩ := Nat.exists_eq_add_of_le' (not_lt.mp hge)
    rw [hlast, hstop] at hk
    cases hk
  have hsucc : ∀ k < 2, doJob (next^[k] r) = .ok () (next^[k + 1] r) := by
    intro k hk
    obtain ⟨a, r', hrun, -⟩ := (hround k hk).exists_ok
    rw [Function.iterate_succ_apply', next, hrun]
  refine ⟨hstart, hlimit, fun k => ?_, fun k hk => hsucc k (hopen k hk),
    fun k hk => (hround k (hopen k hk)).ok (hsucc k (hopen k hk))⟩
  rcases Nat.lt_or_ge k 2 with hlt | hge
  · exact hsize k (by omega)
  · obtain ⟨j, rfl⟩ := Nat.exists_eq_add_of_le' hge
    rw [hlast]
    exact hsize 2 (by omega)

/-- A requestor of messages of one size, without responses, under a send limit. -/
def limited (size : UInt32) (sendLimit : Int64) : Requestor :=
  .init (.serving [] 1 0 4) (List.replicate 64 0) ⟨size, size, 0, 0, 0, false⟩ sendLimit 0 fun _ => 0

theorem exact_limited : Exact .send fun k => next^[k] (limited 40 80) := by
  refine (exact_iff (rounds_two (by decide +kernel) (by decide +kernel) (by decide +kernel)
    (by decide +kernel) (by decide +kernel))).mpr fun n hopen => ?_
  have hfew : n < 2 := by
    by_contra hge
    exact absurd (hopen 2 (not_lt.mp hge)) (by decide +kernel)
  have hwide : ∀ k < 2, ¬(next^[k] (limited 40 80)).Narrow .send := by decide +kernel
  exact hwide n hfew

/-- Messages of 50 octets under a limit of 60 end up as 64 octets. -/
theorem not_exact_limited :
    ¬∀ (d : Direction) (r : Nat → Requestor), Rounds d r → Exact d r := by
  intro h
  obtain ⟨n, hrounds, -, heq⟩ := h .send (fun k => next^[k] (limited 50 60))
    (rounds_two (by decide +kernel) (by decide +kernel) (by decide +kernel) (by decide +kernel)
      (by decide +kernel))
  cases n with
  | zero => exact absurd heq (by decide +kernel)
  | succ n => exact (hrounds 0 (Nat.succ_pos n)).2 (by decide +kernel)

end Requestor

end NetBabbler
