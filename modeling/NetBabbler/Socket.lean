import NetBabbler.Outcome
import Mathlib.Tactic

/-!
# Sockets

`cSocket::recv` and `cSocket::send` of `socket.cpp` over a kernel that is free to do what
the system calls allow. A `Socket` holds the bytes still to come from the peer, the bytes
the kernel took from us, and the answers that the coming calls of `poll`, `recvfrom` and
`sendto` get. A claim about every kernel is a claim about every list of answers. A list
that runs out leaves the thread waiting in the call (`Fault.blocked`).

`recv_spec` says all that `recv` does on a stream : it hands over the next bytes in order,
at least `atleast` and at most `len` of them, or fails with one of the socket's own
exceptions, and a kernel that keeps serving bytes never makes it fail. `send_spec` is the
same for `send`. `recv_cancelled` is the effect of the cancel event.
-/

namespace NetBabbler

open EStateM

/-! ## Faults -/

/-- What a `cSocket::errorException` reports. -/
inductive SocketError where
  | errno (err : Nat)
  | receiveTimeout
  deriving DecidableEq, Repr

/-- How a run can stop short of its result. -/
inductive Fault where
  | errorException (what : SocketError)
  | eventException
  | protocolException (what : String)
  /-- `BUG_ON` fired. -/
  | bug
  /-- A read outside the bytes received. The source does not test for it. -/
  | outOfBounds
  /-- Waiting in a system call that has no further answer. -/
  | blocked
  /-- A loop that makes no progress. -/
  | hang
  deriving DecidableEq, Repr

/-- The faults of a socket call : an exception of `cSocket`, or waiting. -/
def Fault.OfSocket : Fault → Prop
  | .errorException _ | .eventException | .blocked => True
  | .protocolException _ | .bug | .outOfBounds | .hang => False

/-- `BUG_ON (c)`. -/
def bugOn {σ : Type} (c : Prop) [Decidable c] : EStateM Fault σ Unit :=
  if c then throw .bug else pure ()

/-- `if (c) throw f`. -/
def throwIf {σ : Type} (c : Prop) [Decidable c] (f : Fault) : EStateM Fault σ Unit :=
  if c then throw f else pure ()

section

variable {σ : Type} {Q : Unit → σ → Prop} {E : Fault → σ → Prop} {s : σ}

@[simp] theorem ends_bugOn (c : Prop) [Decidable c] :
    Ends (bugOn c) Q E s ↔ if c then E .bug s else Q () s := by
  simp [bugOn]

@[simp] theorem ends_throwIf (c : Prop) [Decidable c] (f : Fault) :
    Ends (throwIf c f) Q E s ↔ if c then E f s else Q () s := by
  simp [throwIf]

end

/-! ## The kernel -/

/-- A peer's address, up to equality. -/
abbrev SockAddr := Nat

/-- `errno` where a call would have to wait. -/
def EAGAIN : Nat := 11

/-- The same under its other name. -/
def EWOULDBLOCK : Nat := 11

/-- `errno` where the peer has reset the connection. -/
def ECONNRESET : Nat := 104

/-- What is on its way to a socket. -/
inductive Channel where
  | stream (bytes : List UInt8)
  | datagrams (queue : List (SockAddr × List UInt8))

/-- Take from the channel for a `recvfrom` of length `asked`. A stream hands over at most
`n` bytes; a datagram comes whole and loses what does not fit. -/
def Channel.take (asked n : Nat) : Channel → Option (List UInt8 × Option SockAddr × Channel)
  | .stream bs =>
    let k := min n (min asked bs.length)
    if k = 0 then none else some (bs.take k, none, .stream (bs.drop k))
  | .datagrams [] => none
  | .datagrams ((src, d) :: queue) => some (d.take asked, some src, .datagrams queue)

/-- The answer to a `recvfrom`. -/
inductive Recvfrom where
  | data (n : Nat)
  | wouldBlock
  /-- Returns 0 and leaves `errno` alone. -/
  | shutdown
  | error (err : Nat)

/-- The `revents` of the socket and of the cancel event. -/
structure Revents where
  /-- `POLLERR | POLLHUP` on the socket. -/
  hangup : Bool
  /-- `POLLIN` on the socket, with what `recvfrom` then answers. -/
  input : Option Recvfrom
  /-- `POLLIN` on the cancel event. -/
  cancel : Bool

/-- The answer to a `poll`. -/
inductive Poll where
  | error (err : Nat)
  | timeout
  | ready (revents : Revents)

/-- The answer to a `sendto`. -/
inductive Sendto where
  | accepted (n : Nat)
  | error (err : Nat)

/-- A socket, with what its kernel is going to answer. -/
structure Socket where
  input : Channel
  /-- The address `recvfrom` stored last. -/
  peer : Option SockAddr
  /-- The bytes each `sendto` accepted, with their destination. -/
  output : List (Option SockAddr × List UInt8)
  polls : List Poll
  sendtos : List Sendto
  errno : Nat
  /-- The length asked and the length returned of each `recvfrom` so far. -/
  reads : List (Nat × Nat)

namespace Socket

/-- The bytes still to be read. -/
def incoming (s : Socket) : List UInt8 :=
  match s.input with
  | .stream bs => bs
  | .datagrams queue => queue.flatMap Prod.snd

/-- The bytes handed to the kernel so far. -/
def sent (s : Socket) : List UInt8 :=
  s.output.flatMap Prod.snd

/-- The input is a stream of bytes. -/
def IsStream (s : Socket) : Prop :=
  s.input = .stream s.incoming

/-- `::recvfrom (m_fd, p, asked, MSG_DONTWAIT, ..)`. `none` is -1. -/
def recvfrom (asked : Nat) : Recvfrom → Socket → Option (List UInt8) × Socket
  | .data n, s =>
    match s.input.take asked n with
    | some (bs, src, rest) =>
      (some bs, { s with
        input := rest
        peer := src.or s.peer
        reads := s.reads ++ [(asked, bs.length)] })
    | none => (none, { s with errno := EWOULDBLOCK, reads := s.reads ++ [(asked, 0)] })
  | .wouldBlock, s => (none, { s with errno := EWOULDBLOCK, reads := s.reads ++ [(asked, 0)] })
  | .shutdown, s => (some [], { s with reads := s.reads ++ [(asked, 0)] })
  | .error err, s => (none, { s with errno := err, reads := s.reads ++ [(asked, 0)] })

/-! ## `cSocket::recv` and `cSocket::send` -/

/-- `if (m_pollfd[0].revents & POLLIN)`, with the answer `recvfrom` then gets. -/
def recvReady (len : Nat) (received : List UInt8) :
    Option Recvfrom → EStateM Fault Socket (List UInt8)
  | none => pure received
  | some answer => do
    let ret ← modifyGet (recvfrom (len - received.length) answer)
    match ret with
    | some (b :: bs) => pure (received ++ b :: bs)
    | some [] | none =>
      let s ← get
      -- in case recvfrom would block we ignore it and continue
      throwIf (s.errno ≠ EWOULDBLOCK ∧ s.errno ≠ EAGAIN)
        (.errorException (.errno (if ret = some [] then ECONNRESET else s.errno)))
      pure received

/-- The loop of `recv`, one `poll` after the other. -/
def recvLoop (len atleast : Nat) (received : List UInt8) :
    List Poll → EStateM Fault Socket (List UInt8)
  | [] => throw .blocked
  | poll :: polls => do
    modify fun s => { s with polls := polls }
    match poll with
    | .error err =>
      modify fun s => { s with errno := err }
      throw (.errorException (.errno err))
    | .timeout => throw (.errorException .receiveTimeout)
    | .ready revents =>
      throwIf (revents.hangup = true) (.errorException (.errno ECONNRESET))
      let received ← recvReady len received revents.input
      throwIf (revents.cancel = true) .eventException
      if received.length < atleast then recvLoop len atleast received polls
      else pure received

/-- `cSocket::recv`. -/
def recv (len atleast : Nat) : EStateM Fault Socket (List UInt8) := do
  bugOn (atleast > len)
  let s ← get
  recvLoop len atleast [] s.polls

/-- The loop of `send`, one `sendto` after the other. -/
def sendtoLoop (dest : Option SockAddr) (data : List UInt8) :
    List Sendto → EStateM Fault Socket Unit
  | [] => throw .blocked
  | answer :: answers => do
    modify fun s => { s with sendtos := answers }
    match answer with
    | .error err =>
      modify fun s => { s with errno := err }
      throw (.errorException (.errno err))
    | .accepted n =>
      let ret := min n data.length
      modify fun s => { s with output := s.output ++ [(dest, data.take ret)] }
      if ret < data.length then sendtoLoop dest (data.drop ret) answers else pure ()

/-- `cSocket::send`. -/
def send (data : List UInt8) (dest : Option SockAddr) : EStateM Fault Socket Nat := do
  let s ← get
  sendtoLoop dest data s.sendtos
  pure data.length

/-! ## What a read leaves behind -/

/-- From `s` the kernel handed over `bs` and left `s'`. -/
structure Reads (s : Socket) (bs : List UInt8) (s' : Socket) : Prop where
  incoming : s.incoming = bs ++ s'.incoming
  stream : s'.IsStream
  output : s'.output = s.output
  sendtos : s'.sendtos = s.sendtos
  peer : s'.peer = s.peer
  polls : s'.polls <:+ s.polls

/-- Every coming `poll` finds the socket readable and nothing else, and there are answers
for `k` bytes. -/
structure Serves (s : Socket) (k : Nat) : Prop where
  data : ∀ p ∈ s.polls, ∃ n, 0 < n ∧ p = .ready ⟨false, some (.data n), false⟩
  enough : k ≤ s.polls.length

theorem Reads.refl {s : Socket} (h : s.IsStream) : s.Reads [] s :=
  ⟨rfl, h, rfl, rfl, rfl, List.suffix_refl _⟩

theorem Reads.trans {s₁ s₂ s₃ : Socket} {as bs : List UInt8} (h₁ : s₁.Reads as s₂)
    (h₂ : s₂.Reads bs s₃) : s₁.Reads (as ++ bs) s₃ where
  incoming := by rw [h₁.incoming, h₂.incoming, List.append_assoc]
  stream := h₂.stream
  output := h₂.output.trans h₁.output
  sendtos := h₂.sendtos.trans h₁.sendtos
  peer := h₂.peer.trans h₁.peer
  polls := h₂.polls.trans h₁.polls

/-! ## Specification of `recv` -/

/-- Whatever `recvfrom` answers on a stream, it takes the next bytes from it. -/
theorem recvfrom_spec {s : Socket} (hs : s.IsStream) (asked : Nat) (answer : Recvfrom) :
    s.Reads ((recvfrom asked answer s).1.getD []) (recvfrom asked answer s).2 ∧
      ((recvfrom asked answer s).1.getD []).length ≤ asked ∧
      (recvfrom asked answer s).2.polls = s.polls := by
  have same : ∀ {s' : Socket}, s'.input = s.input → s'.output = s.output →
      s'.sendtos = s.sendtos → s'.peer = s.peer → s'.polls = s.polls → s.Reads [] s' := by
    intro s' hin hout hsend hpeer hpolls
    have hinc : s'.incoming = s.incoming := by simp only [incoming, hin]
    refine ⟨by rw [hinc]; rfl, ?_, hout, hsend, hpeer, by rw [hpolls]⟩
    rw [IsStream, hin, hinc]
    exact hs
  cases answer with
  | data n =>
    rw [recvfrom, hs, Channel.take]
    by_cases h : min n (min asked s.incoming.length) = 0
    · simp only [h, if_true]
      exact ⟨same hs.symm rfl rfl rfl rfl, by simp⟩
    · simp only [h, if_false]
      refine ⟨⟨(List.take_append_drop _ _).symm, rfl, rfl, rfl, by simp, List.suffix_refl _⟩, ?_⟩
      refine ⟨?_, trivial⟩
      rw [Option.getD_some, List.length_take]
      omega
  | wouldBlock => exact ⟨same rfl rfl rfl rfl rfl, by simp [recvfrom], rfl⟩
  | shutdown => exact ⟨same rfl rfl rfl rfl rfl, by simp [recvfrom], rfl⟩
  | error err => exact ⟨same rfl rfl rfl rfl rfl, by simp [recvfrom], rfl⟩

/-- A `recvfrom` that finds data in a stream returns some. -/
theorem recvfrom_data {s : Socket} (hs : s.IsStream) {asked n : Nat} (hasked : 0 < asked)
    (hn : 0 < n) (hne : 0 < s.incoming.length) :
    ∃ b bs, (recvfrom asked (.data n) s).1 = some (b :: bs) := by
  have hk : min n (min asked s.incoming.length) ≠ 0 := by omega
  obtain ⟨b, bs, hbs⟩ : ∃ b bs, s.incoming.take (min n (min asked s.incoming.length)) = b :: bs :=
    List.exists_cons_of_length_pos (by rw [List.length_take]; omega)
  refine ⟨b, bs, ?_⟩
  rw [recvfrom, hs, Channel.take]
  simp only [hk, if_false, hbs]

/-- The branch of `recv` for `POLLIN` throws if it gets nothing, unless it would have blocked. -/
theorem ends_recvReady {len : Nat} {received : List UInt8} {answer : Recvfrom}
    {Q : List UInt8 → Socket → Prop} {E : Fault → Socket → Prop} {s : Socket} :
    Ends (recvReady len received (some answer)) Q E s ↔
      let r := recvfrom (len - received.length) answer s
      if r.1.getD [] = [] ∧ r.2.errno ≠ EWOULDBLOCK ∧ r.2.errno ≠ EAGAIN then
        E (.errorException (.errno (if r.1 = some [] then ECONNRESET else r.2.errno))) r.2
      else Q (received ++ r.1.getD []) r.2 := by
  simp only [recvReady, ends_bind, ends_modifyGet]
  generalize recvfrom (len - received.length) answer s = r
  obtain ⟨_ | _ | ⟨b, bs⟩, s'⟩ := r
  · simp [-bind_pure_comp]
  · simp [-bind_pure_comp]
  · simp

/-- The branch of `recv` for `POLLIN`, on a stream. -/
theorem recvReady_spec {s : Socket} (hs : s.IsStream) {len : Nat} {received : List UInt8}
    (hlen : received.length ≤ len) (answer : Option Recvfrom) :
    Ends (recvReady len received answer)
      (fun out s' => ∃ new, out = received ++ new ∧ s.Reads new s' ∧ out.length ≤ len ∧
        s'.polls = s.polls)
      (fun f _ => f.OfSocket) s := by
  cases answer with
  | none =>
    rw [recvReady, ends_pure]
    exact ⟨[], by simp, Reads.refl hs, hlen, rfl⟩
  | some answer =>
    obtain ⟨hreads, hle, hpolls⟩ := recvfrom_spec hs (len - received.length) answer
    simp only [ends_recvReady]
    split
    · trivial
    · refine ⟨_, rfl, hreads, ?_, hpolls⟩
      rw [List.length_append]
      omega

/-- `recv` in its loop with `received` so far : it goes on reading where it was. -/
theorem recvLoop_spec {len atleast : Nat} (hle : atleast ≤ len) :
    ∀ (polls : List Poll) {s : Socket} {received : List UInt8}, s.polls = polls → s.IsStream →
      received.length ≤ len →
      Ends (recvLoop len atleast received polls)
        (fun out s' => ∃ new, out = received ++ new ∧ s.Reads new s' ∧ out.length ≤ len ∧
          atleast ≤ out.length ∧ s'.polls.length < s.polls.length)
        (fun f _ => f.OfSocket) s
  | [], s, received, _, _, _ => by simp [recvLoop, Fault.OfSocket]
  | poll :: polls, s, received, hpolls, hs, hlen => by
    have hsuf : polls <:+ s.polls := hpolls ▸ List.suffix_cons _ _
    have hnext : s.Reads [] { s with polls := polls } := ⟨rfl, hs, rfl, rfl, rfl, hsuf⟩
    simp only [recvLoop, ends_bind, ends_modify]
    rcases poll with err | _ | revents
    · simp [Fault.OfSocket]
    · simp [Fault.OfSocket]
    · simp only [ends_bind, ends_throwIf]
      by_cases hup : revents.hangup = true
      · simp [hup, Fault.OfSocket]
      rw [if_neg hup]
      refine (recvReady_spec hnext.stream hlen revents.input).mono ?_ fun _ _ h => h
      rintro out s' ⟨new, rfl, hreads, hout, hp⟩
      by_cases hcancel : revents.cancel = true
      · simp [hcancel, Fault.OfSocket]
      have hp' : s'.polls.length < s.polls.length := by
        rw [show s'.polls = polls from hp, hpolls]
        exact Nat.lt_succ_self _
      rw [if_neg hcancel, ends_ite]
      split_ifs with hmore
      · refine (recvLoop_spec hle polls hp hreads.stream hout).mono ?_ fun _ _ h => h
        rintro out s'' ⟨new', rfl, hreads', hout', hat, hlt⟩
        exact ⟨new ++ new', by simp, (hnext.trans hreads).trans hreads', hout', hat, by omega⟩
      · rw [ends_pure]
        exact ⟨new, rfl, hnext.trans hreads, hout, by omega, hp'⟩

/-- `recv` hands over the next bytes of the stream, as many as it was asked for, and polls
at least once. -/
theorem recv_spec {s : Socket} (hs : s.IsStream) {len atleast : Nat} (hle : atleast ≤ len) :
    Ends (recv len atleast)
      (fun out s' => s.Reads out s' ∧ out.length ≤ len ∧ atleast ≤ out.length ∧
        s'.polls.length < s.polls.length)
      (fun f _ => f.OfSocket) s := by
  simp only [recv, ends_bind, ends_bugOn, ends_get]
  rw [if_neg (by omega)]
  refine (recvLoop_spec hle s.polls rfl hs (Nat.zero_le _)).mono ?_ fun _ _ h => h
  rintro out s' ⟨new, rfl, hreads, hout⟩
  exact ⟨hreads, hout⟩

/-- A kernel that serves bytes gives the loop of `recv` what it waits for. -/
theorem recvLoop_serves {len atleast : Nat} (hle : atleast ≤ len) :
    ∀ (polls : List Poll) {s : Socket} {received : List UInt8} {k : Nat}, s.polls = polls →
      s.IsStream → s.Serves k → received.length < len → 0 < s.incoming.length →
      s.incoming.length ≤ k → atleast ≤ received.length + s.incoming.length →
      Ends (recvLoop len atleast received polls)
        (fun out s' => ∃ new, out = received ++ new ∧ 0 < new.length ∧ s'.Serves (k - new.length))
        (fun _ _ => False) s
  | [], s, received, k, hpolls, _, hserves, _, hne, hk, _ => by
    have := hserves.enough
    simp only [hpolls, List.length_nil] at this
    omega
  | poll :: polls, s, received, k, hpolls, hs, hserves, hlen, hne, hk, hat => by
    obtain ⟨n, hn, hpoll⟩ := hserves.data poll (by simp [hpolls])
    subst hpoll
    have hs' : ({ s with polls := polls } : Socket).IsStream := hs
    obtain ⟨b, bs, hret⟩ := recvfrom_data hs' (Nat.sub_pos_of_lt hlen) hn hne
    obtain ⟨hreads, hasked, hp⟩ := recvfrom_spec hs' (len - received.length) (.data n)
    simp only [recvLoop, recvReady, ends_bind, ends_modify, ends_throwIf, ends_modifyGet, hret]
    generalize recvfrom (len - received.length) (.data n) _ = r at hret hreads hasked hp
    obtain ⟨ret, s'⟩ := r
    subst hret
    simp only [Option.getD_some] at hreads hasked hp
    have hinc : s.incoming.length = (b :: bs).length + s'.incoming.length := by
      rw [← List.length_append]
      exact congrArg List.length hreads.incoming
    have hserves' : s'.Serves (k - (b :: bs).length) := by
      refine ⟨fun p hmem => hserves.data p ?_, ?_⟩
      · rw [hpolls]
        exact List.mem_cons_of_mem _ (hp ▸ hmem)
      · have := hserves.enough
        rw [hpolls] at this
        rw [hp]
        simp only [List.length_cons] at this ⊢
        omega
    simp only [Bool.false_eq_true, if_false, ends_pure, ends_ite]
    split_ifs with hmore
    · rw [List.length_append] at hmore
      refine (recvLoop_serves hle polls hp hreads.stream hserves' ?_ ?_ ?_ ?_).mono ?_
        fun _ _ h => h
      · rw [List.length_append]
        omega
      · omega
      · omega
      · rw [List.length_append]
        omega
      rintro out s'' ⟨new, rfl, hnew, hserves''⟩
      refine ⟨b :: bs ++ new, by simp, by simp, ?_⟩
      rwa [List.length_append, ← Nat.sub_sub]
    · exact ⟨b :: bs, rfl, by simp, hserves'⟩

/-- A kernel that serves bytes never makes `recv` fail. -/
theorem recv_serves {s : Socket} (hs : s.IsStream) {len atleast k : Nat} (hle : atleast ≤ len)
    (hlen : 0 < len) (hserves : s.Serves k) (hk : s.incoming.length ≤ k)
    (hne : 0 < s.incoming.length) (hat : atleast ≤ s.incoming.length) :
    Ends (recv len atleast) (fun out s' => 0 < out.length ∧ s'.Serves (k - out.length))
      (fun _ _ => False) s := by
  simp only [recv, ends_bind, ends_bugOn, ends_get]
  rw [if_neg (by omega)]
  refine (recvLoop_serves hle s.polls rfl hs hserves (by simpa using hlen) hne hk
    (by simpa using hat)).mono ?_ fun _ _ h => h
  rintro out s' ⟨new, rfl, hnew, hserves'⟩
  exact ⟨by simpa using hnew, by simpa using hserves'⟩

/-- The cancel event is level-triggered : every `poll` that returns finds it. -/
def Cancelled (s : Socket) : Prop :=
  ∀ revents, .ready revents ∈ s.polls → revents.cancel = true

/-- Once the cancel event is signalled, no `recv` returns. -/
theorem recv_cancelled {s : Socket} (hc : s.Cancelled) (len atleast : Nat) :
    Ends (recv len atleast) (fun _ _ => False) (fun _ _ => True) s := by
  simp only [recv, ends_bind, ends_bugOn, ends_get]
  split_ifs
  rcases hpolls : s.polls with _ | ⟨poll, polls⟩
  · simp [recvLoop]
  · simp only [recvLoop, ends_bind, ends_modify]
    rcases poll with err | _ | revents
    · simp
    · simp
    · have hcancel := hc revents (by simp [hpolls])
      simp only [ends_bind, ends_throwIf, hcancel, if_true]
      split_ifs
      exact ends_iff.mpr ⟨fun _ _ _ => trivial, fun _ _ _ => trivial⟩

/-! ## Specification of `send` -/

/-- From `s` the kernel took `bs`, all of it bound for `dest`, and left `s'`. -/
structure Writes (s : Socket) (dest : Option SockAddr) (bs : List UInt8) (s' : Socket) :
    Prop where
  output : ∃ pieces, s'.output = s.output ++ pieces ∧ pieces.flatMap Prod.snd = bs ∧
    ∀ piece ∈ pieces, piece.1 = dest
  input : s'.input = s.input
  peer : s'.peer = s.peer
  polls : s'.polls = s.polls
  sendtos : s'.sendtos <:+ s.sendtos

/-- Every coming `sendto` takes at least one byte, and there are answers for `k` bytes. -/
structure Accepts (s : Socket) (k : Nat) : Prop where
  some : ∀ r ∈ s.sendtos, ∃ n, 0 < n ∧ r = .accepted n
  enough : k ≤ s.sendtos.length

theorem Writes.refl (s : Socket) (dest : Option SockAddr) : s.Writes dest [] s :=
  ⟨⟨[], by simp, rfl, by simp⟩, rfl, rfl, rfl, List.suffix_refl _⟩

theorem Writes.trans {s₁ s₂ s₃ : Socket} {dest : Option SockAddr} {as bs : List UInt8}
    (h₁ : s₁.Writes dest as s₂) (h₂ : s₂.Writes dest bs s₃) : s₁.Writes dest (as ++ bs) s₃ := by
  obtain ⟨p₁, ho₁, hb₁, hd₁⟩ := h₁.output
  obtain ⟨p₂, ho₂, hb₂, hd₂⟩ := h₂.output
  refine ⟨⟨p₁ ++ p₂, by rw [ho₂, ho₁, List.append_assoc], by rw [List.flatMap_append, hb₁, hb₂],
    ?_⟩, h₂.input.trans h₁.input, h₂.peer.trans h₁.peer, h₂.polls.trans h₁.polls,
    h₂.sendtos.trans h₁.sendtos⟩
  intro piece hp
  rcases List.mem_append.mp hp with hp | hp
  · exact hd₁ piece hp
  · exact hd₂ piece hp

theorem Writes.sent {s s' : Socket} {dest : Option SockAddr} {bs : List UInt8}
    (h : s.Writes dest bs s') : s'.sent = s.sent ++ bs := by
  obtain ⟨pieces, ho, hb, -⟩ := h.output
  rw [Socket.sent, ho, List.flatMap_append, hb, Socket.sent]

theorem Writes.incoming {s s' : Socket} {dest : Option SockAddr} {bs : List UInt8}
    (h : s.Writes dest bs s') : s'.incoming = s.incoming := by
  simp only [Socket.incoming, h.input]

/-- The loop of `send` hands over all bytes, or fails as a socket call does. A kernel
that accepts bytes never makes it fail. -/
theorem sendtoLoop_spec (dest : Option SockAddr) :
    ∀ (answers : List Sendto) {s : Socket} {data : List UInt8}, s.sendtos = answers →
      Ends (sendtoLoop dest data answers)
        (fun _ s' => s.Writes dest data s' ∧
          ∀ k, s.Accepts k → data.length ≤ k → 0 < data.length → s'.Accepts (k - data.length))
        (fun f _ => f.OfSocket ∧ ¬(0 < data.length ∧ s.Accepts data.length)) s
  | [], s, data, hans => by
    rw [sendtoLoop, ends_throw]
    refine ⟨trivial, fun ⟨hpos, hacc⟩ => ?_⟩
    have := hacc.enough
    simp only [hans, List.length_nil] at this
    omega
  | answer :: answers, s, data, hans => by
    simp only [sendtoLoop, ends_bind, ends_modify]
    rcases answer with n | err
    · simp only [ends_bind, ends_modify, ends_ite, ends_pure]
      have hwrites : s.Writes dest (data.take (min n data.length)) { s with
          sendtos := answers, output := s.output ++ [(dest, data.take (min n data.length))] } :=
        ⟨⟨_, rfl, by simp, by simp⟩, rfl, rfl, rfl, hans ▸ List.suffix_cons _ _⟩
      have hacc : ∀ k, s.Accepts k → 0 < n ∧ ∀ j, 0 < j → Accepts { s with
          sendtos := answers, output := s.output ++ [(dest, data.take (min n data.length))] }
          (k - j) := by
        intro k hk
        obtain ⟨m, hm, heq⟩ := hk.some (.accepted n) (by simp [hans])
        cases heq
        refine ⟨hm, fun j hj => ⟨fun r hr => hk.some r (by simp [hans, hr]), ?_⟩⟩
        have := hk.enough
        simp only [hans, List.length_cons] at this
        show k - j ≤ answers.length
        omega
      split_ifs with hmore
      · refine (sendtoLoop_spec dest answers rfl).mono ?_ ?_
        · rintro _ s' ⟨hw, ha⟩
          refine ⟨by simpa using hwrites.trans hw, fun k hk hle hpos => ?_⟩
          obtain ⟨hn, hk'⟩ := hacc k hk
          have := ha (k - min n data.length) (hk' _ (by omega))
            (by rw [List.length_drop]; omega) (by rw [List.length_drop]; omega)
          rwa [List.length_drop, Nat.sub_sub, Nat.add_sub_cancel' (by omega)] at this
        · rintro f s' ⟨hf, hnot⟩
          refine ⟨hf, fun ⟨hpos, hk⟩ => hnot ⟨by rw [List.length_drop]; omega, ?_⟩⟩
          obtain ⟨hn, hk'⟩ := hacc _ hk
          rw [List.length_drop]
          exact hk' _ (by omega)
      · have hall : data.take (min n data.length) = data :=
          List.take_of_length_le (by omega)
        rw [hall] at hwrites hacc ⊢
        exact ⟨hwrites, fun k hk hle hpos => (hacc k hk).2 _ hpos⟩
    · simp only [ends_bind, ends_modify, ends_throw]
      refine ⟨trivial, fun ⟨_, hk⟩ => ?_⟩
      obtain ⟨m, -, heq⟩ := hk.some (.error err) (by simp [hans])
      cases heq

/-- `send` hands over all bytes and returns their number. -/
theorem send_spec (dest : Option SockAddr) (data : List UInt8) (s : Socket) :
    Ends (send data dest)
      (fun n s' => n = data.length ∧ s.Writes dest data s' ∧
        ∀ k, s.Accepts k → data.length ≤ k → 0 < data.length → s'.Accepts (k - data.length))
      (fun f _ => f.OfSocket ∧ ¬(0 < data.length ∧ s.Accepts data.length)) s := by
  simp only [send, ends_bind, ends_get, ends_pure]
  exact (sendtoLoop_spec dest s.sendtos rfl).mono (fun _ _ h => ⟨trivial, h⟩) fun _ _ h => h

end Socket

end NetBabbler
