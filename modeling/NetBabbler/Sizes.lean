import NetBabbler.Requestor

/-!
# Accepted settings and the sizes of a run

`RoundOk` is what the sizes of a round must satisfy for the round to make sense : they lie
in their ranges, `sendRequest` asserts nothing against them, and a response that is waited
for is one that the responder transmits. `ofString_roundOk_iff` : for settings that the
parser accepts, all rounds under all draws are of this kind exactly where both directions
`Stay`. `times_doJob_schedule` ties the sizes to the rounds of `doJob`.
-/

namespace NetBabbler

open EStateM BabblerProtocol

/-- A round of these sizes makes sense. -/
structure RoundOk (c : ComSettings) (reqSize respSize : UInt32) : Prop where
  request : c.requestSizeMin ≤ reqSize ∧ reqSize ≤ c.requestSizeMax
  response : c.responseSizeMin ≤ respSize ∧ respSize ≤ c.responseSizeMax
  /-- No assertion of `sendRequest` fires. -/
  noBug : ∀ (s : BabblerProtocol) (seq : UInt64), s.Sound →
    Ends (sendRequest seq reqSize respSize) (fun _ _ => True) (fun f _ => f ≠ .bug) s
  /-- A response that is waited for is transmitted, for the options that the request carries. -/
  answered : respSize ≠ 0 → ∀ (s : BabblerProtocol) (seq : UInt64) (dest : Option SockAddr),
    s.Sound → Ends (sendResponse seq (Message.request seq reqSize respSize).options dest)
      (fun _ s' => s'.socket.sent ≠ s.socket.sent) (fun _ _ => True) s

/-- A size that the requestor may ask for. -/
def Answerable (respSize : UInt32) : Prop :=
  respSize = 0 ∨ 25 ≤ respSize

instance (respSize : UInt32) : Decidable (Answerable respSize) :=
  inferInstanceAs (Decidable (_ ∨ _))

/-- A response of a header alone is not transmitted. -/
theorem wire_response_ne_nil (seq : UInt64) {respSize : UInt32} (h : 25 ≤ respSize) :
    (Message.response seq (respSize - 24)).wire ≠ [] := by
  have h25 : 25 ≤ respSize.toNat := h
  have hpos : 0 < (Message.response seq (respSize - 24)).payloadLen := by
    rw [Message.response_payloadLen]
    omega
  rw [Message.wire_of_pos hpos, ← List.length_pos_iff, Message.length_encode]
  omega

/-- A fresh protocol object before a kernel that takes `k` writes. -/
theorem sound_serving (k : Nat) :
    (BabblerProtocol.init (.serving [] 1 0 k) (List.replicate 64 0)).Sound :=
  sound_init (by simp) (by simp)

theorem roundOk_iff {c : ComSettings} (hmin : 32 ≤ c.requestSizeMin) {reqSize respSize : UInt32} :
    RoundOk c reqSize respSize ↔
      (c.requestSizeMin ≤ reqSize ∧ reqSize ≤ c.requestSizeMax) ∧
      c.responseSizeMin ≤ respSize ∧ respSize ≤ c.responseSizeMax ∧ Answerable respSize := by
  constructor
  · intro h
    obtain ⟨s, hs⟩ : ∃ s : BabblerProtocol, s.Sound := ⟨_, sound_serving 0⟩
    refine ⟨h.request, h.response.1, h.response.2, ?_⟩
    by_contra hnot
    obtain ⟨h0, h25⟩ := not_or.mp hnot
    have hlt : respSize.toNat < 25 := UInt32.not_le.mp h25
    by_cases h24 : 24 ≤ respSize
    · -- the responder is asked for a header without payload
      have heq : respSize = 24 := by
        rw [← UInt32.toNat_inj]
        exact Nat.le_antisymm (Nat.lt_succ_iff.mp hlt) h24
      subst heq
      have hans := h.answered h0 s 0 none hs
      rw [Message.request_options 0 reqSize h0] at hans
      have hsent := (sendResponse_spec hs.length hs.room 0 (24 - 24) none rfl).mono
        (fun _ _ he => he.1) fun _ _ he => he.2.1 rfl
      obtain ⟨_, s', hrun, hsame⟩ := hsent.exists_ok
      refine hans.ok hrun ?_
      rw [hsame.writes.sent]
      exact List.append_nil _
    · have hbug := sendRequest_bug s 0 fun hpre : 24 ≤ reqSize ∧ _ => hpre.2.elim h0 h24
      have hnone := (hbug.and (h.noBug s 0 hs)).mono (fun _ _ he => he.1)
        fun _ _ he => he.2 he.1.1
      obtain ⟨_, _, -, hfalse⟩ := hnone.exists_ok
      exact hfalse
  · rintro ⟨hreq, hlo, hhi, hans⟩
    have h24 : 24 ≤ reqSize := UInt32.le_trans (by decide) (UInt32.le_trans hmin hreq.1)
    have hresp : respSize = 0 ∨ 24 ≤ respSize := hans.imp_right (UInt32.le_trans (by decide))
    refine ⟨hreq, ⟨hlo, hhi⟩, fun s seq hs => ?_, fun h0 s seq dest hs => ?_⟩
    · refine (sendRequest_spec hs.length hs.room seq h24 hresp rfl).mono
        (fun _ _ _ => trivial) ?_
      rintro f s' ⟨hf, -⟩ rfl
      exact hf
    · rw [Message.request_options seq reqSize h0]
      refine (sendResponse_spec hs.length hs.room seq (respSize - 24) dest rfl).mono ?_
        fun _ _ _ => trivial
      rintro _ s' ⟨hsent, -⟩ hsame
      rw [hsent.writes.sent, List.append_right_eq_self] at hsame
      exact wire_response_ne_nil seq (hans.resolve_left h0) hsame

/-! ## The rounds of a requestor -/

namespace Requestor

/-- The sizes of the `k`-th round are those of the schedule. -/
theorem schedule_iterate (r : Requestor)
    (hreq : r.currReqSize = r.comSettings.requestSizeMin)
    (hresp : r.currRespSize = r.comSettings.responseSizeMin) (k : Nat) :
    (schedule^[k] r).comSettings = r.comSettings ∧
      (schedule^[k] r).rng =
        (if r.comSettings.isRand then fun n => r.rng (n + 2 * k) else r.rng) ∧
      (schedule^[k] r).currReqSize = r.comSettings.sizeAt r.comSettings.requestSizeMin
        r.comSettings.requestSizeMax (fun k => r.rng (2 * k)) k ∧
      (schedule^[k] r).currRespSize = r.comSettings.sizeAt r.comSettings.responseSizeMin
        r.comSettings.responseSizeMax (fun k => r.rng (2 * k + 1)) k := by
  induction k with
  | zero =>
    refine ⟨rfl, ?_, hreq, hresp⟩
    split_ifs <;> rfl
  | succ k ih =>
    obtain ⟨hc, hrng, hq, hp⟩ := ih
    rw [Function.iterate_succ_apply']
    refine ⟨hc, ?_, ?_, ?_⟩
    · simp only [schedule, hc, hrng]
      split_ifs
      · funext n
        show r.rng (n + 2 + 2 * k) = r.rng (n + 2 * (k + 1))
        rw [Nat.mul_succ, Nat.add_assoc, Nat.add_comm 2]
      · rfl
    · simp only [schedule, hc, hq, hrng, ComSettings.sizeAt, ComSettings.nextSize]
      split_ifs
      · show _ + uniform _ (r.rng (0 + 2 * k)) = _
        rw [Nat.zero_add]
      · rfl
      · rfl
      · rfl
    · simp only [schedule, hc, hp, hrng, ComSettings.sizeAt, ComSettings.nextSize]
      split_ifs
      · show _ + uniform _ (r.rng (1 + 2 * k)) = _
        rw [Nat.add_comm 1]
      · rfl
      · rfl
      · rfl

/-- Two requestors at the same point of the same schedule, without byte limits. -/
structure SameSchedule (r r' : Requestor) : Prop where
  comSettings : r'.comSettings = r.comSettings
  currReqSize : r'.currReqSize = r.currReqSize
  currRespSize : r'.currRespSize = r.currRespSize
  rng : r'.rng = r.rng
  unlimited : ∀ d, (r'.limit d).toInt ≤ 0

theorem doJob_schedule {r r' : Requestor} (h : SameSchedule r r') :
    Ends doJob (fun _ r'' => SameSchedule r.schedule r'') (fun _ _ => True) r' := by
  have hcheck : ∀ d, r'.check d = (false, r'.size d) := fun d =>
    isLimitReached_unlimited _ _ (h.unlimited d)
  refine (doJob_spec r').mono ?_ fun _ _ _ => trivial
  rintro _ r'' ⟨-, s, rfl⟩
  refine ⟨h.comSettings, ?_, ?_, ?_, fun d => ?_⟩
  · simp only [schedule, after, hcheck, size, h.comSettings, h.currReqSize, h.rng]
  · simp only [schedule, after, hcheck, size, h.comSettings, h.currRespSize, h.rng]
  · simp only [schedule, after, h.comSettings, h.rng]
  · rw [schedule_limit]
    cases d with
    | send => exact h.unlimited .send
    | recv => exact h.unlimited .recv

/-- Without byte limits, `k` rounds of `doJob` lead to the sizes of the schedule. -/
theorem times_doJob_schedule :
    ∀ (k : Nat) {r r' : Requestor}, SameSchedule r r' →
      Ends (times doJob k) (fun _ r'' => SameSchedule (schedule^[k] r) r'') (fun _ _ => True) r'
  | 0, r, r', h => by
    rw [times, ends_pure]
    exact h
  | k + 1, r, r', h => by
    simp only [times, ends_bind, ends_pure]
    refine (doJob_schedule h).mono (fun _ r₁ h₁ => ?_) fun _ _ he => he
    exact (times_doJob_schedule k h₁).mono (fun _ _ hs => hs) fun _ _ he => he

end Requestor

/-- The sizes of the `k`-th round without byte limits. -/
def roundSizes (c : ComSettings) (rng : Nat → Nat) (k : Nat) : UInt32 × UInt32 :=
  let r := Requestor.schedule^[k] (.init (.serving [] 1 0 0) [] c 0 0 rng)
  (r.currReqSize, r.currRespSize)

/-- For accepted settings all rounds make sense under all draws, if and only if both directions
stay in their ranges and no response is asked for that is not transmitted. -/
theorem ofString_roundOk_iff {s : String} {c : ComSettings}
    (h : ComSettings.ofString s = .ok c) :
    (∀ rng k, RoundOk c (roundSizes c rng k).1 (roundSizes c rng k).2) ↔
      c.Stays c.requestSizeMin c.requestSizeMax (fun _ => True) ∧
      c.Stays c.responseSizeMin c.responseSizeMax Answerable := by
  have hmin := (ComSettings.ofString_requestSize h).1
  have hsizes : ∀ rng k, roundSizes c rng k =
      (c.sizeAt c.requestSizeMin c.requestSizeMax (fun k => rng (2 * k)) k,
        c.sizeAt c.responseSizeMin c.responseSizeMax (fun k => rng (2 * k + 1)) k) := by
    intro rng k
    obtain ⟨-, -, hq, hp⟩ := Requestor.schedule_iterate
      (.init (.serving [] 1 0 0) [] c 0 0 rng) rfl rfl k
    exact Prod.ext hq hp
  rw [← ComSettings.forall_sizeAt_iff, ← ComSettings.forall_sizeAt_iff]
  constructor
  · intro hall
    have hpair : ∀ (draws : Nat → Nat) k,
        RoundOk c (c.sizeAt c.requestSizeMin c.requestSizeMax draws k)
          (c.sizeAt c.responseSizeMin c.responseSizeMax draws k) := by
      intro draws k
      have hround := hall (fun n => draws (n / 2)) k
      rw [hsizes] at hround
      have heven : ∀ k, 2 * k / 2 = k := by omega
      have hodd : ∀ k, (2 * k + 1) / 2 = k := by omega
      simpa only [heven, hodd] using hround
    refine ⟨fun draws k => ?_, fun draws k => ?_⟩
    · have hround := (roundOk_iff hmin).mp (hpair draws k)
      exact ⟨hround.1.1, hround.1.2, trivial⟩
    · exact ((roundOk_iff hmin).mp (hpair draws k)).2
  · rintro ⟨hreq, hresp⟩ rng k
    rw [hsizes, roundOk_iff hmin]
    exact ⟨⟨(hreq _ k).1, (hreq _ k).2.1⟩, hresp _ k⟩

theorem ofString_roundOk_rand :
    RoundOk ⟨100, 200, 50, 60, 0, false⟩
      (roundSizes ⟨100, 200, 50, 60, 0, false⟩ (fun n => 7 * n) 5).1
      (roundSizes ⟨100, 200, 50, 60, 0, false⟩ (fun n => 7 * n) 5).2 := by
  have haccepted : ComSettings.ofString "100,200,50,60" = .ok ⟨100, 200, 50, 60, 0, false⟩ := by
    decide +kernel
  refine (ofString_roundOk_iff haccepted).mpr ⟨⟨by decide, ?_⟩, by decide, ?_⟩ _ 5
  · rw [if_pos (by decide)]
    exact fun _ _ _ => trivial
  · rw [if_pos (by decide)]
    exact fun size hmin _ => .inr (UInt32.le_trans (by decide) hmin)

/-- A response of 24 bytes is accepted, waited for and never transmitted. -/
theorem ofString_not_roundOk :
    ¬∀ (s : String) (c : ComSettings), ComSettings.ofString s = .ok c →
      ∀ rng k, RoundOk c (roundSizes c rng k).1 (roundSizes c rng k).2 := by
  intro h
  have hround := h "100,100,24,24" ⟨100, 100, 24, 24, 0, false⟩ (by decide +kernel) (fun _ => 0) 0
  exact absurd ((roundOk_iff (by decide)).mp hround).2.2.2 (by decide)

end NetBabbler
