import NetBabbler.Conversation

/-!
# A session

All of `cClient::threadFunc` behind `connect`, over a stream to a thread of the server : rounds
until `--m_count == 0`. The link is the one of `NetBabbler.Streaming`, with its buffers and its
kernels.

`run_total` : a session in which no kernel call fails takes no more steps than its sizes allow,
can always be brought to its end, and there both sides have counted all rounds.
-/

namespace NetBabbler

open Interleaving StreamLink

/-- A client in its loop, connected to a thread of the server. -/
structure Session where
  link : StreamLink
  /-- `m_terminate`. -/
  terminate : Bool
  /-- `m_count`. -/
  count : UInt32

namespace Session

/-- The end of a round. -/
def countDown (infinite : Bool) (s : Session) : Session :=
  let c := ClientLoop.countDown infinite ⟨s.link.client.requestor, s.terminate, s.count⟩
  { s with terminate := c.terminate, count := c.count }

/-- A round starts while `m_terminate` is not set, and counts down at its end. -/
def step (capacity : Nat) (infinite : Bool) (s : Session) (e : Event) : Option Session :=
  if e.asks = 1 ∧ s.terminate = true then none
  else do
    let link ← s.link.step capacity e
    let s' := { s with link := link }
    some (if s.link.client.phase = .awaiting ∧ link.client.phase = .between then
      s'.countDown infinite else s')

/-- Before the first round of `count`. -/
def start (r : Requestor) (thread : BabblerProtocol) (count : UInt32) : Session :=
  ⟨StreamLink.start r thread, false, count⟩

/-! ## The rounds that are left -/

variable {capacity N k : Nat} {s s' : Session} {e : Event} {r : Requestor}

/-- The rounds of a session that is to do `N` of them, in its `k`-th one or behind it. -/
structure Going (r : Requestor) (N k : Nat) (s : Session) : Prop where
  fits : s.link.Fits
  played : Played r k s.link.client
  terminate : s.terminate = true ↔ s.count = 0
  between : s.link.client.phase = .between → s.count.toNat + k = N
  awaiting : s.link.client.phase = .awaiting → s.count.toNat + k = N + 1 ∧ s.terminate = false

/-- What the events of a round are worth. -/
def price (r : Requestor) (k : Nat) : Nat :=
  2 * ((Requestor.schedule^[k] r).currReqSize.toNat +
    (Requestor.schedule^[k] r).currRespSize.toNat) + 3

/-- How far the session is from its end. -/
def potential (r : Requestor) (N k : Nat) (s : Session) : Nat :=
  s.link.work + ((List.range' k (N - k)).map (price r)).sum

theorem step_cases (h : s.step capacity false e = some s') :
    (e.asks = 1 → s.terminate = false) ∧
    ∃ link, s.link.step capacity e = some link ∧ s'.link = link ∧
      (s.link.client.phase = .awaiting ∧ link.client.phase = .between ∧
        s'.count = s.count - 1 ∧ s'.terminate = (s.terminate || s.count - 1 == 0) ∨
      ¬(s.link.client.phase = .awaiting ∧ link.client.phase = .between) ∧
        s'.count = s.count ∧ s'.terminate = s.terminate) := by
  rw [step] at h
  split_ifs at h with hask
  refine ⟨fun he => by simpa [he] using hask, ?_⟩
  obtain ⟨link, hlink, heq⟩ := Option.bind_eq_some_iff.mp h
  obtain rfl := Option.some.inj heq
  refine ⟨link, hlink, ?_⟩
  split_ifs with hend
  · exact ⟨rfl, .inl ⟨hend.1, hend.2, rfl, rfl⟩⟩
  · exact ⟨rfl, .inr ⟨hend, rfl, rfl⟩⟩

/-- Where an event takes the client. -/
theorem phase_cases {l l' : StreamLink} (h : l.Fits) (hstep : l.step capacity e = some l') :
    (l.client.phase = .between ∧ e.asks = 1 ∧
      (l'.client.phase = .awaiting ∨ ∃ f, l'.client.phase = .ended f)) ∨
    (l.client.phase = .awaiting ∧ e.asks = 0 ∧
      (l'.client.phase = .between ∨ ∃ f, l'.client.phase = .ended f)) ∨
    l'.client = l.client ∧ e.asks = 0 := by
  cases step_spec hstep with
  | ask sendtos sent c hphase hask =>
    have hasked := (StreamClient.ask_spec h.conversing (h.client (by simp [hphase])) hphase
      sendtos).1 _ _ hask
    refine .inl ⟨hphase, rfl, ?_⟩
    rcases hasked.outcome with ⟨hphase', -⟩ | ⟨f, hphase', -⟩
    · exact .inl hphase'
    · exact .inr ⟨f, hphase'⟩
  | await polls inbox c hphase houtbox hawait =>
    have hpre := h.turn.reply_isPrefix hphase
    have hawaited := (StreamClient.await_spec h.conversing (h.client (by simp [hphase])) hphase
      (l.back.inbox_isPrefix.trans hpre) polls).1 _ _ hawait
    refine .inr (.inl ⟨hphase, rfl, ?_⟩)
    rcases hawaited.outcome with ⟨hphase', -⟩ | ⟨f, hphase', -⟩
    · exact .inl hphase'
    · exact .inr ⟨f, hphase'⟩
  | answer => exact .inr (.inr ⟨rfl, rfl⟩)
  | forth _ t hask => exact .inr (.inr ⟨rfl, hask⟩)
  | back _ t hask => exact .inr (.inr ⟨rfl, hask⟩)

theorem Going.step (h : Going r N k s) (hstep : s.step capacity false e = some s') :
    Going r N (k + e.asks) s' := by
  obtain ⟨hask, link, hlink, rfl, hcount⟩ := step_cases hstep
  have hfits := h.fits.step hlink
  have hplayed := h.fits.played h.played hlink
  rcases phase_cases h.fits hlink with ⟨hphase, he, hphase'⟩ | ⟨hphase, he, hphase'⟩ | ⟨heq, he⟩
  · -- a round starts
    obtain ⟨-, hcount, hterminate⟩ := hcount.resolve_left (by simp [hphase])
    have hleft := h.between hphase
    refine ⟨hfits, hplayed, by rw [hterminate, hcount, h.terminate], fun hbetween => ?_,
      fun _ => ⟨by rw [hcount, he]; omega, by rw [hterminate, hask he]⟩⟩
    rcases hphase' with hphase' | ⟨f, hphase'⟩ <;> rw [hphase'] at hbetween <;> cases hbetween
  · obtain ⟨hleft, hgoing⟩ := h.awaiting hphase
    rcases hphase' with hphase' | ⟨f, hphase'⟩
    · -- a round ends
      obtain ⟨-, -, hcount, hterminate⟩ := hcount.resolve_right (by simp [hphase, hphase'])
      have hne : s.count ≠ 0 := fun hzero => by
        rw [h.terminate.mpr hzero] at hgoing
        cases hgoing
      have hle : 1 ≤ s.count := by
        rw [UInt32.le_iff_toNat_le]
        exact Nat.pos_of_ne_zero fun h0 => hne (UInt32.toNat_inj.mp h0)
      have hsub : (s.count - 1).toNat = s.count.toNat - 1 := UInt32.toNat_sub_of_le _ _ hle
      have hpos : 1 ≤ s.count.toNat := UInt32.le_iff_toNat_le.mp hle
      refine ⟨hfits, hplayed, ?_, fun _ => by rw [hcount, hsub, he]; omega, fun hawaiting => ?_⟩
      · rw [hterminate, hcount, hgoing, Bool.false_or, beq_iff_eq]
      · rw [hphase'] at hawaiting
        cases hawaiting
    · obtain ⟨-, hcount, hterminate⟩ := hcount.resolve_left (by simp [hphase'])
      refine ⟨hfits, hplayed, by rw [hterminate, hcount, h.terminate], fun hbetween => ?_,
        fun hawaiting => ?_⟩
      · rw [hphase'] at hbetween
        cases hbetween
      · rw [hphase'] at hawaiting
        cases hawaiting
  · have hsame : ¬(s.link.client.phase = .awaiting ∧ s'.link.client.phase = .between) := by
      rw [heq]
      rintro ⟨hawaiting, hbetween⟩
      rw [hawaiting] at hbetween
      cases hbetween
    obtain ⟨-, hcount, hterminate⟩ := hcount.resolve_left fun hend => hsame ⟨hend.1, hend.2.1⟩
    refine ⟨hfits, hplayed, by rw [hterminate, hcount, h.terminate], ?_, ?_⟩
    · rw [heq, hcount, he]
      exact h.between
    · rw [heq, hcount, hterminate, he]
      exact h.awaiting

/-- A request that was just sent is a round of work. -/
theorem work_ask {l l' : StreamLink} (h : l.Fits) (hplayed : Played r (k + 1) l'.client)
    (he : e.asks = 1) (hstep : l.step capacity e = some l') (halive : l'.Alive) :
    l'.work + 1 = price r k := by
  cases step_spec hstep with
  | ask sendtos sent c hphase hask =>
    have hasked := (StreamClient.ask_spec h.conversing (h.client (by simp [hphase])) hphase
      sendtos).1 _ _ hask
    obtain ⟨hforth, hback⟩ : l.forth.whole = [] ∧ l.back.whole = [] := by
      cases h.turn with
      | quiet _ hforth hback => exact ⟨hforth, hback⟩
      | asking hne => exact absurd hphase hne
      | answering hne => exact absurd hphase hne
    obtain ⟨-, hpipe, houtbox⟩ := Transfer.whole_eq_nil_iff.mp hforth
    rcases hasked.outcome with ⟨hphase', -, hsent, -⟩ | ⟨f, hended, -⟩
    · obtain ⟨-, -, hreq, -, -, -, hresp⟩ := hasked.conversing.currRequest
      rw [Played, hphase'] at hplayed
      obtain ⟨j, hj, hsame, -⟩ := hplayed
      obtain rfl := Nat.succ.inj hj
      have hne : { l.forth with outbox := l.forth.outbox ++ sent }.whole ≠ [] := by
        rw [whole_concat hforth, hsent]
        exact encode_ne_nil _
      have hwork : { l.forth with outbox := l.forth.outbox ++ sent }.work =
          2 * c.requestor.currReqSize.toNat := by
        rw [Transfer.work, hpipe, houtbox, List.nil_append, hsent, hreq]
        rfl
      have hround : ∀ l' : StreamLink, l'.client = c → l'.back = l.back →
          l'.forth = { l.forth with outbox := l.forth.outbox ++ sent } →
          l'.work + 1 = price r k := by
        intro l' hc hb hf
        have hreply : l'.request.reply.encode.length = c.requestor.currRespSize.toNat := by
          rw [request, hc]
          exact hresp
        rw [work, hf, hb, hc, hwork, work_empty hback, if_neg hne, if_pos hphase', hreply,
          hsame.currReqSize, hsame.currRespSize, price]
        omega
      exact hround _ rfl rfl rfl
    · exact absurd hended (halive.1 f)
  | await => cases he
  | answer => cases he
  | forth _ t hask => rw [he] at hask; cases hask
  | back _ t hask => rw [he] at hask; cases hask

/-- Each event of a session that goes on brings it nearer to its end. -/
theorem Going.potential_lt (h : Going r N k s) (hstep : s.step capacity false e = some s')
    (halive : s'.link.Alive) : potential r N (k + e.asks) s' < potential r N k s := by
  have hgoing := h.step hstep
  obtain ⟨-, link, hlink, rfl, -⟩ := step_cases hstep
  rcases phase_cases h.fits hlink with ⟨hphase, he, hphase'⟩ | ⟨-, he, -⟩ | ⟨-, he⟩
  · have hawaiting : s'.link.client.phase = .awaiting :=
      hphase'.resolve_right fun ⟨f, hended⟩ => halive.1 f hended
    obtain ⟨hleft, hterminate⟩ := hgoing.awaiting hawaiting
    have hpos : 0 < s'.count.toNat := by
      refine Nat.pos_of_ne_zero fun h0 => ?_
      rw [hgoing.terminate.mpr (UInt32.toNat_inj.mp h0)] at hterminate
      cases hterminate
    rw [he] at hleft hgoing ⊢
    have hwork := work_ask h.fits hgoing.played he hlink halive
    have hrange : List.range' k (N - k) = k :: List.range' (k + 1) (N - (k + 1)) := by
      rw [← Nat.succ_pred_eq_of_pos (show 0 < N - k by omega), List.range'_succ]
      rfl
    rw [potential, potential, hrange, List.map_cons, List.sum_cons, ← hwork]
    omega
  · rw [he, Nat.add_zero]
    exact Nat.add_lt_add_right (h.fits.work_lt he hlink halive) _
  · rw [he, Nat.add_zero]
    exact Nat.add_lt_add_right (h.fits.work_lt he hlink halive) _

/-! ## Whole runs -/

theorem alive_of_step (h : s.step capacity false e = some s') (halive : s'.link.Alive) :
    s.link.Alive := by
  obtain ⟨-, link, hlink, rfl, -⟩ := step_cases h
  exact (step_spec hlink).alive halive

theorem Going.run : ∀ (events : List Event) {s : Session} {k : Nat}, Going r N k s →
    events.foldlM (Session.step capacity false) s = some s' → s'.link.Alive →
    ∃ k', Going r N k' s' ∧ s.link.Alive ∧
      events.length + potential r N k' s' ≤ potential r N k s
  | [], s, k, h, hrun, halive => by
    obtain rfl := Option.some.inj hrun
    exact ⟨k, h, halive, (Nat.zero_add _).le⟩
  | e :: events, s, k, h, hrun, halive => by
    rw [List.foldlM_cons] at hrun
    obtain ⟨s₁, hstep, hrest⟩ := Option.bind_eq_some_iff.mp hrun
    obtain ⟨k', hgoing, halive₁, hle⟩ := Going.run events (h.step hstep) hrest halive
    have hlt := h.potential_lt hstep halive₁
    refine ⟨k', hgoing, alive_of_step hstep halive₁, ?_⟩
    rw [List.length_cons]
    omega

/-- A session that is not at its end can go on. -/
theorem Going.exists_step (h : Going r N k s) (halive : s.link.Alive) (hcapacity : 0 < capacity)
    (hterminate : s.terminate = false) :
    ∃ e s', s.step capacity false e = some s' ∧ s'.link.Alive := by
  obtain ⟨e, link, hlink, halive'⟩ : ∃ e link, s.link.step capacity e = some link ∧ link.Alive := by
    rcases hphase : s.link.client.phase with _ | _ | f
    · obtain ⟨sent, c, hask, hphase'⟩ := (StreamClient.ask_spec h.fits.conversing
        (h.fits.client halive.1) hphase
        (accepting s.link.client.requestor.currReqSize.toNat)).2 (accepts_accepting _ _ _ _)
      refine ⟨.ask (accepting s.link.client.requestor.currReqSize.toNat),
        { s.link with
          client := c
          forth := { s.link.forth with outbox := s.link.forth.outbox ++ sent } }, ?_,
        ⟨by simp [hphase'], halive.2⟩⟩
      simp only [StreamLink.step, hask]
      rfl
    · obtain ⟨e, link, -, hlink, halive'⟩ := h.fits.exists_step halive hphase hcapacity
      exact ⟨e, link, hlink, halive'⟩
    · exact absurd hphase (halive.1 f)
  obtain ⟨s', hs'⟩ : ∃ s', s.step capacity false e = some s' := by
    rw [Session.step, if_neg (by simp [hterminate]), hlink]
    exact ⟨_, rfl⟩
  obtain ⟨-, link', hlink', hs'', -⟩ := step_cases hs'
  obtain rfl := Option.some.inj (hlink.symm.trans hlink')
  exact ⟨e, s', hs', hs'' ▸ halive'⟩

theorem Going.exists_run (h : Going r N k s) (halive : s.link.Alive) (hcapacity : 0 < capacity) :
    ∃ (events : List Event) (s' : Session),
      events.foldlM (Session.step capacity false) s = some s' ∧ s'.link.Alive ∧
      s'.terminate = true := by
  have hgo : ∀ n s, (∃ k, Going r N k s ∧ s.link.Alive ∧ potential r N k s = n) →
      ¬(s.link.Alive ∧ s.terminate = true) → ∃ e s', True ∧ s.step capacity false e = some s' ∧
        ((s'.link.Alive ∧ s'.terminate = true) ∨ ∃ m < n, ∃ k, Going r N k s' ∧
          s'.link.Alive ∧ potential r N k s' = m) := by
    rintro n s ⟨k, h, halive, rfl⟩ hnot
    cases hterminate : s.terminate with
    | true => exact absurd ⟨halive, hterminate⟩ hnot
    | false =>
      obtain ⟨e, s₁, hstep, halive₁⟩ := h.exists_step halive hcapacity hterminate
      have hlt := h.potential_lt hstep halive₁
      exact ⟨e, s₁, trivial, hstep, .inr ⟨_, hlt, _, h.step hstep, halive₁, rfl⟩⟩
  obtain ⟨events, s', -, hrun, hend⟩ := exists_foldlM_of_lt hgo _ ⟨k, h, halive, rfl⟩
  exact ⟨events, s', hrun, hend⟩

theorem going_start {thread : BabblerProtocol} (h : Connected r thread) {count : UInt32}
    (hcount : count ≠ 0) : Going r count.toNat 0 (start r thread count) := by
  refine ⟨h.fits, ?_, ?_, fun _ => rfl, fun hawaiting => by cases hawaiting⟩
  · refine ⟨⟨rfl, rfl, rfl, rfl, h.conversing.unlimited⟩, (UInt64.add_zero _).symm, ?_⟩
    simp [start, StreamLink.start, StreamLink.played]
  · simp [start, hcount]

theorem potential_start {thread : BabblerProtocol} (count : UInt32) :
    potential r count.toNat 0 (start r thread count) =
      ((List.range count.toNat).map (price r)).sum := by
  have hwork : (StreamLink.start r thread).work = 0 := rfl
  rw [potential, start, hwork, Nat.zero_add, Nat.sub_zero, ← List.range_eq_range']

/-- Where no kernel call fails a session of `count` rounds takes no more steps than its sizes
allow, it can always be brought to its end, and there both sides have counted all of it. -/
theorem run_total {thread : BabblerProtocol} (h : Connected r thread) (hcapacity : 0 < capacity)
    {count : UInt32} (hcount : count ≠ 0) {events : List Event}
    (hrun : events.foldlM (step capacity (count == 0)) (start r thread count) = some s)
    (halive : s.link.Alive) :
    events.length ≤ ((List.range count.toNat).map (price r)).sum ∧
    (∃ (more : List Event) (s' : Session),
      more.foldlM (step capacity (count == 0)) s = some s' ∧ s'.link.Alive ∧
      s'.terminate = true) ∧
    (s.terminate = true → s.link.client.requestor.seq = r.seq + UInt64.ofNat count.toNat ∧
      s.link.clientStats = played r count.toNat ∧
      s.link.threadStats = mirror (played r count.toNat) ∧
      s.link.forth.whole = [] ∧ s.link.back.whole = []) := by
  rw [beq_false_of_ne hcount] at hrun ⊢
  obtain ⟨k, hgoing, -, hle⟩ := Going.run events (going_start h hcount) hrun halive
  rw [potential_start] at hle
  refine ⟨by omega, hgoing.exists_run halive hcapacity, fun hterminate => ?_⟩
  have hphase : s.link.client.phase = .between := by
    rcases hphase : s.link.client.phase with _ | _ | f
    · rfl
    · have hnot := (hgoing.awaiting hphase).2
      rw [hterminate] at hnot
      cases hnot
    · exact absurd hphase (halive.1 f)
  have hk := hgoing.between hphase
  rw [hgoing.terminate.mp hterminate, UInt32.toNat_zero, Nat.zero_add] at hk
  obtain ⟨-, hseq, hstats⟩ : Requestor.SameSchedule (Requestor.schedule^[k] r)
      s.link.client.requestor ∧ _ ∧ _ := by
    have hplayed := hgoing.played
    rw [Played, hphase] at hplayed
    exact hplayed
  subst hk
  cases hgoing.fits.turn with
  | quiet _ hforth hback hmirror =>
    refine ⟨hseq, hstats, ?_, hforth, hback⟩
    rw [hmirror halive.2, StreamLink.clientStats, hstats]
  | asking hne => exact absurd hphase hne
  | answering hne => exact absurd hphase hne

theorem run_total_small : ∃ s, smallRound.foldlM (step 16 ((1 : UInt32) == 0))
      (start smallClient smallThread 1) = some s ∧ s.terminate = true ∧
    smallRound.length ≤ ((List.range (1 : UInt32).toNat).map (price smallClient)).sum ∧
    (∃ (more : List Event) (s' : Session),
      more.foldlM (step 16 ((1 : UInt32) == 0)) s = some s' ∧ s'.link.Alive ∧
      s'.terminate = true) ∧
    (s.terminate = true →
      s.link.client.requestor.seq = smallClient.seq + UInt64.ofNat (1 : UInt32).toNat ∧
      s.link.clientStats = played smallClient (1 : UInt32).toNat ∧
      s.link.threadStats = mirror (played smallClient (1 : UInt32).toNat) ∧
      s.link.forth.whole = [] ∧ s.link.back.whole = []) := by
  have hrun : (smallRound.foldlM (step 16 ((1 : UInt32) == 0))
      (start smallClient smallThread 1)).map
      (fun s => (s.link.client.phase, s.link.thread.ended, s.terminate)) =
      some (.between, none, true) := by decide +kernel
  obtain ⟨s, hrun, hs⟩ := Option.map_eq_some_iff.mp hrun
  obtain ⟨hphase, hs⟩ := Prod.mk.inj hs
  obtain ⟨hended, hterminate⟩ := Prod.mk.inj hs
  have halive : s.link.Alive := ⟨fun f => by rw [hphase]; nofun, hended⟩
  exact ⟨s, hrun, hterminate, run_total connected_small (by decide) (by decide) hrun halive⟩

end Session

end NetBabbler
