import NetBabbler.Keeping

/-!
# Shutdown and would-block

`cSocket::recv` tells a `recvfrom` that would have blocked from an orderly shutdown by
`errno`, which a `recvfrom` that returns 0 leaves as it was. `Heads` are the iterations that
a call reaches, with what it has received and the state before its `poll`.

`classifies_iff` : the shutdown is told from would-block, where neither the caller nor an
iteration before left EAGAIN behind.
-/

namespace NetBabbler

namespace Socket

open EStateM

/-! ## Iterations -/

/-- The loop of `recv`, once. -/
def recvOnce (len : Nat) (received : List UInt8) : Poll → EStateM Fault Socket (List UInt8)
  | .error err => do
    modify fun s => { s with errno := err }
    throw (.errorException (.errno err))
  | .timeout => throw (.errorException .receiveTimeout)
  | .ready revents => do
    throwIf (revents.hangup = true) (.errorException (.errno ECONNRESET))
    let received ← recvReady len received revents.input
    throwIf (revents.cancel = true) .eventException
    pure received

theorem recvLoop_cons (len atleast : Nat) (received : List UInt8) (poll : Poll)
    (polls : List Poll) : recvLoop len atleast received (poll :: polls) = (do
      modify fun s => { s with polls := polls }
      let received ← recvOnce len received poll
      if received.length < atleast then recvLoop len atleast received polls
      else pure received) := by
  cases poll with
  | error err => rfl
  | timeout => rfl
  | ready revents => simp only [recvLoop, recvOnce, bind_assoc, pure_bind]

/-- A call from `s` reaches the head of its loop with `received` and the socket as given. -/
inductive Heads (len atleast : Nat) (s : Socket) : List UInt8 → Socket → Prop where
  | start : Heads len atleast s [] s
  | next {received received' : List UInt8} {s₁ s₂ : Socket} {poll : Poll} {polls : List Poll} :
      Heads len atleast s received s₁ → s₁.polls = poll :: polls →
      recvOnce len received poll { s₁ with polls := polls } = .ok received' s₂ →
      received'.length < atleast → Heads len atleast s received' s₂

/-- The channel hands over bytes, one `recvfrom` after the other. -/
inductive Hands : Channel → List UInt8 → Channel → Prop where
  | nil (c : Channel) : Hands c [] c
  | snoc {c c₁ c₂ : Channel} {bs new : List UInt8} {asked n : Nat} {src : Option SockAddr} :
      Hands c bs c₁ → c₁.take asked n = some (new, src, c₂) → Hands c (bs ++ new) c₂

/-- Each `recvfrom` of a call asks for a byte at least, and for no more than still fits. -/
def Asked (len : Nat) (reads : List (Nat × Nat)) : Prop :=
  ∀ pre r post, reads = pre ++ r :: post → 1 ≤ r.1 ∧ r.1 ≤ len - (pre.map Prod.snd).sum

/-- `recv` classifies what happens. -/
structure Classifies (len atleast : Nat) (s : Socket) : Prop where
  asks : Ends (recv len atleast)
    (fun _ s' => ∃ reads, s'.reads = s.reads ++ reads ∧ Asked len reads)
    (fun _ s' => ∃ reads, s'.reads = s.reads ++ reads ∧ Asked len reads) s
  returns : Ends (recv len atleast)
    (fun out s' => atleast ≤ out.length ∧ out.length ≤ len ∧ Hands s.input out s'.input)
    (fun _ _ => True) s
  /-- The iteration whose `recvfrom` returns 0 is the last one. -/
  reset : s.IsStream → ∀ received s₁ revents polls, Heads len atleast s received s₁ →
    s₁.polls = .ready revents :: polls → revents.hangup = false →
    revents.input = some .shutdown →
    Ends (recv len atleast) (fun _ _ => False)
      (fun f s' => f = .errorException (.errno ECONNRESET) ∧ s'.polls = polls) s

/-- No `recvfrom` of a stream that returns 0 finds EAGAIN, neither from before the call nor of
a `recvfrom` of the call that would have blocked. -/
def Told (len atleast : Nat) (s : Socket) : Prop :=
  s.IsStream → ∀ received s₁ revents polls, Heads len atleast s received s₁ →
    s₁.polls = .ready revents :: polls → revents.hangup = false →
    revents.input = some .shutdown →
    s.errno ≠ EAGAIN ∧ ∀ r ∈ s₁.reads.drop s.reads.length, r.2 ≠ 0

variable {len atleast : Nat} {s s₁ s' : Socket} {received : List UInt8} {reads : List (Nat × Nat)}

theorem Hands.trans {c c₁ c₂ : Channel} {as bs : List UInt8} (h₁ : Hands c as c₁)
    (h₂ : Hands c₁ bs c₂) : Hands c (as ++ bs) c₂ := by
  induction h₂ with
  | nil => rwa [List.append_nil]
  | snoc _ htake ih =>
    rw [← List.append_assoc]
    exact .snoc ih htake

theorem asked_nil (len : Nat) : Asked len [] := by
  intro pre r post h
  simp at h

/-- The next `recvfrom` asks for what still fits. -/
theorem Asked.concat (h : Asked len reads) (hlt : (reads.map Prod.snd).sum < len) (n : Nat) :
    Asked len (reads ++ [(len - (reads.map Prod.snd).sum, n)]) := by
  intro pre r post heq
  rcases List.eq_nil_or_concat post with rfl | ⟨post, y, rfl⟩
  · obtain ⟨rfl, hlast⟩ := List.append_inj' heq rfl
    obtain rfl := List.singleton_inj.mp hlast
    exact ⟨Nat.sub_pos_of_lt hlt, le_rfl⟩
  · rw [List.concat_eq_append, ← List.cons_append, ← List.append_assoc] at heq
    obtain ⟨rfl, -⟩ := List.append_inj' heq rfl
    exact h pre r post rfl

/-- What an iteration of a call on `s` does to the log and to `errno`, as it gets `new`. -/
structure Logs (len : Nat) (received : List UInt8) (s : Socket) (new : List UInt8) (s' : Socket) :
    Prop where
  hands : Hands s.input new s'.input
  reads : s'.reads = s.reads ∧ new = [] ∨
    s'.reads = s.reads ++ [(len - received.length, new.length)]
  errno : s'.errno = if ∃ r ∈ s'.reads.drop s.reads.length, r.2 = 0 then EAGAIN else s.errno
  polls : s'.polls = s.polls

theorem recvfrom_reads (asked : Nat) (answer : Recvfrom) (s : Socket) :
    (recvfrom asked answer s).2.reads =
      s.reads ++ [(asked, ((recvfrom asked answer s).1.getD []).length)] := by
  cases answer with
  | data n =>
    rw [recvfrom]
    cases s.input.take asked n <;> rfl
  | wouldBlock => rfl
  | shutdown => rfl
  | error err => rfl

theorem recvfrom_hands (asked : Nat) (answer : Recvfrom) (s : Socket) :
    Hands s.input ((recvfrom asked answer s).1.getD []) (recvfrom asked answer s).2.input := by
  cases answer with
  | data n =>
    rw [recvfrom]
    cases htake : s.input.take asked n with
    | none => exact .nil _
    | some r => exact .snoc (.nil _) htake
  | wouldBlock => exact .nil _
  | shutdown => exact .nil _
  | error err => exact .nil _

theorem recvfrom_errno {asked : Nat} {answer : Recvfrom}
    (h : (recvfrom asked answer s).1.getD [] ≠ []) :
    (recvfrom asked answer s).2.errno = s.errno := by
  cases answer with
  | data n =>
    rw [recvfrom] at h ⊢
    cases htake : s.input.take asked n with
    | none => simp [htake] at h
    | some r => rfl
  | wouldBlock => exact absurd rfl h
  | shutdown => rfl
  | error err => exact absurd rfl h

theorem recvReady_logs (hlen : received.length ≤ len) (answer : Option Recvfrom) :
    Ends (recvReady len received answer)
      (fun out s' => ∃ new, out = received ++ new ∧ out.length ≤ len ∧ Logs len received s new s')
      (fun _ s' => s'.polls = s.polls ∧
        ∃ n, s'.reads = s.reads ++ [(len - received.length, n)]) s := by
  cases answer with
  | none =>
    rw [recvReady, ends_pure]
    exact ⟨[], by simp, hlen, .nil _, .inl ⟨rfl, rfl⟩, by simp, rfl⟩
  | some answer =>
    have hreads := recvfrom_reads (len - received.length) answer s
    have hhands := recvfrom_hands (len - received.length) answer s
    obtain ⟨hpolls, -, hret⟩ := recvfrom_frame (len - received.length) answer s
    simp only [ends_recvReady]
    split
    · exact ⟨hpolls, _, hreads⟩
    · next hthrow =>
      refine ⟨_, rfl, ?_, hhands, .inr hreads, ?_, hpolls⟩
      · rw [List.length_append]
        omega
      · rw [hreads, List.drop_left]
        by_cases hnone : (recvfrom (len - received.length) answer s).1.getD [] = []
        · -- without bytes only would-block does not throw
          rw [if_pos ⟨_, List.mem_singleton.mpr rfl, List.length_eq_zero_iff.mpr hnone⟩]
          by_contra herrno
          exact hthrow ⟨hnone, herrno, herrno⟩
        · rw [if_neg (by simpa using hnone)]
          exact recvfrom_errno hnone

/-- All that an iteration does. -/
theorem recvOnce_spec (hlen : received.length ≤ len) (poll : Poll) (s : Socket) :
    Ends (recvOnce len received poll)
      (fun out s' => ∃ new, out = received ++ new ∧ out.length ≤ len ∧ Logs len received s new s')
      (fun _ s' => s'.polls = s.polls ∧
        (s'.reads = s.reads ∨ ∃ n, s'.reads = s.reads ++ [(len - received.length, n)])) s := by
  cases poll with
  | error err => simp [recvOnce]
  | timeout => simp [recvOnce]
  | ready revents =>
    simp only [recvOnce, ends_bind, ends_throwIf, ends_pure]
    by_cases hup : revents.hangup = true
    · simp [hup]
    rw [if_neg hup]
    refine (recvReady_logs hlen revents.input).mono ?_ fun _ _ h => ⟨h.1, .inr h.2⟩
    rintro out s' ⟨new, rfl, hout, hlogs⟩
    split_ifs with hcancel
    · exact ⟨hlogs.polls, hlogs.reads.imp And.left fun h => ⟨_, h⟩⟩
    · exact ⟨new, rfl, hout, hlogs⟩

/-! ## Runs -/

/-- What holds at the head of the loop. -/
structure AtHead (len : Nat) (s : Socket) (received : List UInt8) (s₁ : Socket) : Prop where
  hands : Hands s.input received s₁.input
  room : received.length < len
  log : ∃ reads, s₁.reads = s.reads ++ reads ∧ Asked len reads ∧
    (reads.map Prod.snd).sum = received.length ∧
    s₁.errno = if ∃ r ∈ reads, r.2 = 0 then EAGAIN else s.errno

theorem atHead_start (hlen : 0 < len) (s : Socket) : AtHead len s [] s where
  hands := .nil _
  room := hlen
  log := ⟨[], by simp, asked_nil len, rfl, by simp⟩

theorem exists_mem_append {α : Type} {p : α → Prop} {l l' : List α} :
    (∃ a ∈ l ++ l', p a) ↔ (∃ a ∈ l, p a) ∨ ∃ a ∈ l', p a := by
  simp only [List.mem_append, or_and_right, exists_or]

/-- The log and `errno` behind an iteration that goes on or returns. -/
theorem AtHead.log_next {poll : Poll} {polls : List Poll} {out : List UInt8} {s₂ : Socket}
    (h : AtHead len s received s₁)
    (hrun : recvOnce len received poll { s₁ with polls := polls } = .ok out s₂) :
    ∃ reads, s₂.reads = s.reads ++ reads ∧ Asked len reads ∧
      (reads.map Prod.snd).sum = out.length ∧
      s₂.errno = if ∃ r ∈ reads, r.2 = 0 then EAGAIN else s.errno := by
  obtain ⟨new, rfl, -, hlogs⟩ := (recvOnce_spec h.room.le poll _).ok hrun
  obtain ⟨reads, hlog, hasked, hsum, herrno⟩ := h.log
  have herrno' := hlogs.errno
  rcases hlogs.reads with ⟨hsame, rfl⟩ | hread
  · refine ⟨reads, hsame.trans hlog, hasked, by simpa using hsum, ?_⟩
    rw [herrno', hsame]
    simpa using herrno
  · refine ⟨reads ++ [(len - received.length, new.length)], ?_, ?_, ?_, ?_⟩
    · rw [hread, ← List.append_assoc]
      exact congrArg (· ++ _) hlog
    · rw [← hsum]
      exact hasked.concat (hsum ▸ h.room) _
    · rw [List.map_append, List.sum_append, hsum, List.length_append]
      rfl
    · rw [herrno', hread, List.drop_left]
      by_cases hzero : ∃ r ∈ [(len - received.length, new.length)], r.2 = 0
      · rw [if_pos hzero, if_pos (exists_mem_append.mpr (.inr hzero))]
      · rw [if_neg hzero]
        refine herrno.trans (if_congr ?_ rfl rfl)
        rw [exists_mem_append, or_iff_left hzero]

/-- The bytes behind an iteration that goes on or returns. -/
theorem AtHead.hands_next {poll : Poll} {polls : List Poll} {out : List UInt8} {s₂ : Socket}
    (h : AtHead len s received s₁)
    (hrun : recvOnce len received poll { s₁ with polls := polls } = .ok out s₂) :
    Hands s.input out s₂.input ∧ out.length ≤ len := by
  obtain ⟨new, rfl, hout, hlogs⟩ := (recvOnce_spec h.room.le poll _).ok hrun
  exact ⟨h.hands.trans hlogs.hands, hout⟩

/-- An iteration that goes on leads from head to head. -/
theorem AtHead.next {poll : Poll} {polls : List Poll} {out : List UInt8} {s₂ : Socket}
    (h : AtHead len s received s₁)
    (hrun : recvOnce len received poll { s₁ with polls := polls } = .ok out s₂)
    (hlt : out.length < len) : AtHead len s out s₂ ∧ s₂.polls = polls := by
  obtain ⟨_, -, -, hlogs⟩ := (recvOnce_spec h.room.le poll _).ok hrun
  exact ⟨⟨(h.hands_next hrun).1, hlt, h.log_next hrun⟩, hlogs.polls⟩

theorem Heads.atHead (hle : atleast ≤ len) (hlen : 0 < len)
    (h : Heads len atleast s received s₁) : AtHead len s received s₁ := by
  induction h with
  | start => exact atHead_start hlen s
  | next _ _ hrun hmore ih => exact (ih.next hrun (hmore.trans_le hle)).1

/-- From each head the call goes on as its loop does. -/
theorem Heads.recv_eq (hle : atleast ≤ len) (hlen : 0 < len)
    (h : Heads len atleast s received s₁) :
    recv len atleast s = recvLoop len atleast received s₁.polls s₁ := by
  induction h with
  | start =>
    rw [recv, bugOn, if_neg (Nat.not_lt.mpr hle)]
    rfl
  | @next received received' s₁ s₂ poll polls hhead hpolls hrun hmore ih =>
    obtain ⟨-, hrest⟩ := (hhead.atHead hle hlen).next hrun (hmore.trans_le hle)
    have hmodify : (modify fun s => { s with polls := polls } : EStateM Fault Socket PUnit) s₁ =
        .ok ⟨⟩ { s₁ with polls := polls } := rfl
    rw [ih, hpolls, recvLoop_cons, hrest, bind_apply_of_ok hmodify, bind_apply_of_ok hrun,
      if_pos hmore]

/-- What a call asks for and returns, from the head of its loop on. -/
theorem AtHead.recvLoop_spec (hle : atleast ≤ len) :
    ∀ (polls : List Poll) {received : List UInt8} {s₁ : Socket}, AtHead len s received s₁ →
      Ends (recvLoop len atleast received polls)
        (fun out s' => (∃ reads, s'.reads = s.reads ++ reads ∧ Asked len reads) ∧
          atleast ≤ out.length ∧ out.length ≤ len ∧ Hands s.input out s'.input)
        (fun _ s' => ∃ reads, s'.reads = s.reads ++ reads ∧ Asked len reads) s₁
  | [], received, s₁, h => by
    obtain ⟨reads, hlog, hasked, -⟩ := h.log
    rw [recvLoop, ends_throw]
    exact ⟨reads, hlog, hasked⟩
  | poll :: polls, received, s₁, h => by
    rw [recvLoop_cons]
    simp only [ends_bind, ends_modify, ends_ite, ends_pure]
    cases hrun : recvOnce len received poll { s₁ with polls := polls } with
    | ok out s₂ =>
      refine ends_of_eq hrun ?_
      split_ifs with hmore
      · exact (h.next hrun (hmore.trans_le hle)).1.recvLoop_spec hle polls
      · obtain ⟨reads, hlog, hasked, -⟩ := h.log_next hrun
        obtain ⟨hhands, hout⟩ := h.hands_next hrun
        exact ⟨⟨reads, hlog, hasked⟩, Nat.not_lt.mp hmore, hout, hhands⟩
    | error f s₂ =>
      refine ends_of_error hrun ?_
      obtain ⟨reads, hlog, hasked, hsum, -⟩ := h.log
      rcases ((recvOnce_spec h.room.le poll _).error hrun).2 with hsame | ⟨n, hread⟩
      · exact ⟨reads, hsame.trans hlog, hasked⟩
      · refine ⟨reads ++ [(len - received.length, n)], ?_, ?_⟩
        · rw [hread, ← List.append_assoc]
          exact congrArg (· ++ _) hlog
        · rw [← hsum]
          exact hasked.concat (hsum ▸ h.room) n

/-- The iterations before have used up their answers. -/
theorem Heads.eq_or_lt (hle : atleast ≤ len) (hlen : 0 < len)
    (h : Heads len atleast s received s₁) : s₁ = s ∨ s₁.polls.length < s.polls.length := by
  induction h with
  | start => exact .inl rfl
  | @next received _ s₁ s₂ poll polls hhead hpolls hrun hmore ih =>
    have hlt : s₂.polls.length < s₁.polls.length := by
      rw [((hhead.atHead hle hlen).next hrun (hmore.trans_le hle)).2, hpolls]
      exact Nat.lt_succ_self _
    rcases ih with rfl | hless
    · exact .inr hlt
    · exact .inr (hlt.trans hless)

/-- A call that fails has used up an answer, or waits for one. -/
theorem recvLoop_polls (len atleast : Nat) :
    ∀ (polls : List Poll) {received : List UInt8} {s : Socket}, received.length ≤ len →
      s.polls = polls → Ends (recvLoop len atleast received polls) (fun _ _ => True)
        (fun f s' => f = .blocked ∨ s'.polls.length < polls.length) s
  | [], _, _, _, _ => by simp [recvLoop]
  | poll :: polls, received, s, hlen, hpolls => by
    rw [recvLoop_cons]
    simp only [ends_bind, ends_modify, ends_ite, ends_pure]
    refine (recvOnce_spec hlen poll { s with polls := polls }).mono ?_ ?_
    · rintro out s' ⟨_, -, hout, hlogs⟩
      split_ifs
      refine (recvLoop_polls len atleast polls hout hlogs.polls).mono (fun _ _ h => h) ?_
      exact fun f s'' h => h.imp_right fun hlt => hlt.trans (Nat.lt_succ_self _)
    · rintro f s' ⟨hkeep, -⟩
      rw [hkeep]
      exact .inr (Nat.lt_succ_self _)

/-- An iteration whose `recvfrom` returns 0 looks at an `errno` that is not its own. -/
theorem ends_shutdown {revents : Revents} {polls : List Poll}
    {Q : List UInt8 → Socket → Prop} {E : Fault → Socket → Prop} (hup : revents.hangup = false)
    (hinput : revents.input = some .shutdown) (s : Socket) :
    Ends (recvLoop len atleast received (.ready revents :: polls)) Q E s ↔
      let s' := { s with polls := polls, reads := s.reads ++ [(len - received.length, 0)] }
      if s.errno ≠ EWOULDBLOCK ∧ s.errno ≠ EAGAIN then
        E (.errorException (.errno ECONNRESET)) s'
      else if revents.cancel = true then E .eventException s'
      else if received.length < atleast then Ends (recvLoop len atleast received polls) Q E s'
      else Q received s' := by
  simp only [recvLoop, recvReady, hup, hinput, ends_bind, ends_modify, ends_throwIf, ends_modifyGet,
    recvfrom, ends_get, ends_pure, ends_ite, Bool.false_eq_true, if_false, if_true]

/-- The connection reset is thrown exactly if `errno` is not EAGAIN. -/
theorem reset_iff {revents : Revents} {polls : List Poll} (hlen : received.length ≤ len)
    (hup : revents.hangup = false) (hinput : revents.input = some .shutdown)
    (hpolls : s.polls = .ready revents :: polls) :
    Ends (recvLoop len atleast received s.polls) (fun _ _ => False)
      (fun f s' => f = .errorException (.errno ECONNRESET) ∧ s'.polls = polls) s ↔
      s.errno ≠ EAGAIN := by
  rw [hpolls, ends_shutdown hup hinput]
  constructor
  · intro h herrno
    dsimp only at h
    rw [if_neg fun hne => hne.2 herrno] at h
    split_ifs at h with hcancel hmore
    · cases h.1
    · have hused : Ends (recvLoop len atleast received polls) (fun _ _ => True)
          (fun f s' => f = .blocked ∨ s'.polls.length < polls.length)
          { s with polls := polls, reads := s.reads ++ [(len - received.length, 0)] } :=
        recvLoop_polls len atleast polls hlen rfl
      -- a call that goes on does not end at this `poll`
      obtain ⟨_, _, -, hfalse⟩ := ((h.and hused).mono (fun _ _ h => h.1) fun f s' hE => by
        obtain ⟨⟨rfl, hkeep⟩, hblocked | hlt⟩ := hE
        · cases hblocked
        · rw [hkeep] at hlt
          exact absurd hlt (Nat.lt_irrefl _)).exists_ok
      exact hfalse
  · intro herrno
    exact (if_pos ⟨herrno, herrno⟩).mpr ⟨rfl, rfl⟩

theorem AtHead.errno_ne_iff (h : AtHead len s received s₁) : s₁.errno ≠ EAGAIN ↔
    s.errno ≠ EAGAIN ∧ ∀ r ∈ s₁.reads.drop s.reads.length, r.2 ≠ 0 := by
  obtain ⟨reads, hlog, -, -, herrno⟩ := h.log
  rw [hlog, List.drop_left, herrno]
  by_cases hzero : ∃ r ∈ reads, r.2 = 0
  · obtain ⟨r, hr, hnone⟩ := hzero
    rw [if_pos ⟨r, hr, hnone⟩]
    exact iff_of_false (fun h => h rfl) fun h => h.2 r hr hnone
  · rw [if_neg hzero, iff_self_and]
    exact fun _ r hr hnone => hzero ⟨r, hr, hnone⟩

/-- A call classifies all outcomes if it is told shutdown from would-block. -/
theorem classifies_iff (s : Socket) (hle : atleast ≤ len) (hlen : 0 < len) :
    Classifies len atleast s ↔ Told len atleast s := by
  have hreset : ∀ {received s₁ revents polls}, Heads len atleast s received s₁ →
      s₁.polls = .ready revents :: polls → revents.hangup = false →
      revents.input = some .shutdown →
      (Ends (recv len atleast) (fun _ _ => False)
        (fun f s' => f = .errorException (.errno ECONNRESET) ∧ s'.polls = polls) s ↔
      s.errno ≠ EAGAIN ∧ ∀ r ∈ s₁.reads.drop s.reads.length, r.2 ≠ 0) := by
    intro received s₁ revents polls hhead hpolls hup hinput
    have hat := hhead.atHead hle hlen
    rw [ends_congr (hhead.recv_eq hle hlen), reset_iff hat.room.le hup hinput hpolls,
      hat.errno_ne_iff]
  constructor
  · intro h hs received s₁ revents polls hhead hpolls hup hinput
    exact (hreset hhead hpolls hup hinput).mp
      (h.reset hs received s₁ revents polls hhead hpolls hup hinput)
  · intro h
    have hcall := (atHead_start hlen s).recvLoop_spec hle s.polls
    rw [← ends_congr (Heads.start.recv_eq hle hlen)] at hcall
    refine ⟨hcall.mono (fun _ _ h => h.1) fun _ _ h => h, ?_, ?_⟩
    · exact hcall.mono (fun _ _ h => h.2) fun _ _ _ => trivial
    · intro hs received s₁ revents polls hhead hpolls hup hinput
      exact (hreset hhead hpolls hup hinput).mpr
        (h hs received s₁ revents polls hhead hpolls hup hinput)

/-- A peer that shuts down at once. -/
def quitting (errno : Nat) : Socket where
  input := .stream []
  peer := none
  output := []
  polls := [.ready ⟨false, some .shutdown, false⟩]
  sendtos := []
  errno := errno
  reads := []

theorem classifies_quitting : Classifies 4 1 (quitting 0) := by
  refine (classifies_iff (quitting 0) (by decide) (by decide)).mpr ?_
  intro _ received s₁ revents polls hhead hpolls hup hinput
  rcases hhead.eq_or_lt (by decide) (by decide) with rfl | hlt
  · exact ⟨by decide, nofun⟩
  · rw [hpolls] at hlt
    exact absurd hlt (Nat.not_lt.mpr (Nat.succ_le_succ (Nat.zero_le _)))

/-- With EAGAIN left from a call before, the call does not see that the peer is gone. -/
theorem not_classifies : ¬∀ (len atleast : Nat) (s : Socket), atleast ≤ len → 0 < len →
    Classifies len atleast s := by
  intro h
  have hreset := (h 4 1 (quitting EAGAIN) (by decide) (by decide)).reset rfl [] _ _ [] .start
    rfl rfl rfl
  rw [ends_congr (Heads.start.recv_eq (by decide) (by decide))] at hreset
  exact (reset_iff (Nat.zero_le _) rfl rfl rfl).mp hreset rfl

end Socket

end NetBabbler
