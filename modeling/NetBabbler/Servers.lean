import NetBabbler.Interleaving
import NetBabbler.Ports

/-!
# The servers of a process

All servers of `cApplication::execute` share one semaphore, initially 1000. A
`cStatefulServer` takes a permit before it accepts a connection, and the thread of the
connection gives it back at its end. The threads of a `cStatelessServer` come from its
constructor, take no permit, and give one back at their end all the same. A listener whose
`accept` throws ends with its permit. The events of all threads come in any order.

`balanced_iff` : no permit is lost or made up if and only if as many listeners ended with a
permit as connectionless threads ended without one. `notStarved_iff` : idle listeners leave
each other a permit if and only if there are at most 1000 of them.
-/

namespace NetBabbler

open Interleaving

/-! ## The threads -/

/-- Where a thread of `connectionThreadFunc` is. -/
inductive ThreadPhase where
  | serving
  /-- `m_finished` is set and `threadLimit.post ()` is to come. -/
  | finished
  | ended
  deriving DecidableEq

/-- What a connection's thread does next. -/
inductive ThreadEvent where
  | finish
  | post
  deriving DecidableEq

namespace ThreadPhase

/-- The step of a thread, with the value of the semaphore. -/
def step : ThreadEvent → Nat → ThreadPhase → Option (Nat × ThreadPhase)
  | .finish, n, .serving => some (n, .finished)
  | .post, n, .finished => some (n + 1, .ended)
  | _, _, _ => none

/-- Whether `m_thread` is still there to be joined, as a number. -/
def live : ThreadPhase → Nat
  | .serving | .finished => 1
  | .ended => 0

end ThreadPhase

/-- Where `listenerThreadFunc` is. -/
inductive ListenerPhase where
  /-- Before `cSocket::listen` returns. -/
  | starting
  /-- At `m_threadLimit.wait ()`. -/
  | waiting
  /-- Between `wait` and the construction of the connection's thread. -/
  | accepting
  /-- In the cleanup loop, at the thread of this index. -/
  | cleaning (it : Nat)
  | terminated
  deriving DecidableEq

/-- What the listener's thread does next. -/
inductive ListenerEvent where
  | listen
  | listenThrows
  | wait
  | accept
  | acceptThrows
  | cleanup
  deriving DecidableEq

/-- `cStatefulServer`. -/
structure StatefulServer where
  protocol : Protocol
  localPort : UInt16
  phase : ListenerPhase
  connThreads : List ThreadPhase
  deriving DecidableEq

namespace StatefulServer

/-- The constructor, which starts the listener. -/
def init (protocol : Protocol) (localPort : UInt16) : StatefulServer :=
  ⟨protocol, localPort, .starting, []⟩

/-- The step of the listener thread, with the value of the semaphore. -/
def listenerThreadFunc (e : ListenerEvent) (n : Nat) (s : StatefulServer) :
    Option (Nat × StatefulServer) :=
  match e, s.phase with
  | .listen, .starting => some (n, { s with phase := .waiting })
  | .listenThrows, .starting => some (n, { s with phase := .terminated })
  | .wait, .waiting =>
    match n with
    | 0 => none
    | n + 1 => some (n, { s with phase := .accepting })
  | .accept, .accepting =>
    some (n, { s with phase := .cleaning 0, connThreads := s.connThreads ++ [.serving] })
  | .acceptThrows, .accepting => some (n, { s with phase := .terminated })
  | .cleanup, .cleaning it =>
    match s.connThreads[it]? with
    | none => some (n, { s with phase := .waiting })
    | some .serving => some (n, { s with phase := .cleaning (it + 1) })
    -- the destructor joins the thread
    | some .finished => none
    | some .ended => some (n, { s with connThreads := s.connThreads.eraseIdx it })
  | _, _ => none

/-- The step of the connection's thread of this index. -/
def connectionThread (k : Nat) (e : ThreadEvent) (n : Nat) (s : StatefulServer) :
    Option (Nat × StatefulServer) :=
  (stepAt (ThreadPhase.step e) k n s.connThreads).map fun (n, threads) =>
    (n, { s with connThreads := threads })

/-- The connection threads that are alive. -/
def live (s : StatefulServer) : Nat :=
  (s.connThreads.map ThreadPhase.live).sum

/-- Whether the listener is between `wait` and handing the connection over, as a number. -/
def between (s : StatefulServer) : Nat :=
  if s.phase = .accepting then 1 else 0

/-- Whether the listener is at its end, as a number. -/
def ended (s : StatefulServer) : Nat :=
  if s.phase = .terminated then 1 else 0

end StatefulServer

/-- What the constructor of a UDP server does next. -/
inductive PoolEvent where
  | listenThrows
  | construct
  deriving DecidableEq

/-- `cStatelessServer`. -/
structure StatelessServer where
  protocol : Protocol
  localPort : UInt16
  /-- The threads that the constructor is still going to make. -/
  n : Nat
  connThreads : List ThreadPhase
  deriving DecidableEq

namespace StatelessServer

/-- The start of the constructor. -/
def init (numberOfCPUs : Nat) (protocol : Protocol) (localPort : UInt16) : StatelessServer :=
  ⟨protocol, localPort, max numberOfCPUs 4, []⟩

/-- The step of the constructor. -/
def constructor (e : PoolEvent) (n : Nat) (s : StatelessServer) : Option (Nat × StatelessServer) :=
  match e, s.connThreads, s.n with
  | .listenThrows, [], _ + 1 => some (n, { s with n := 0 })
  | .construct, threads, k + 1 => some (n, { s with n := k, connThreads := threads ++ [.serving] })
  | _, _, _ => none

/-- The step of the thread of this index. -/
def connectionThread (k : Nat) (e : ThreadEvent) (n : Nat) (s : StatelessServer) :
    Option (Nat × StatelessServer) :=
  (stepAt (ThreadPhase.step e) k n s.connThreads).map fun (n, threads) =>
    (n, { s with connThreads := threads })

end StatelessServer

/-! ## The process -/

/-- The servers, and the semaphore that they share. -/
structure Servers where
  /-- The value of `maxConnThreadCount`. -/
  threadLimit : Nat
  servers : List StatefulServer
  udpServers : List StatelessServer
  deriving DecidableEq

namespace Servers

/-- What a thread does next. -/
inductive Event where
  | listener (i : Nat) (e : ListenerEvent)
  | connection (i k : Nat) (e : ThreadEvent)
  | pool (i : Nat) (e : PoolEvent)
  | responder (i k : Nat) (e : ThreadEvent)
  deriving DecidableEq

/-- A step of one of the servers. -/
def onServers (s : Servers) (r : Option (Nat × List StatefulServer)) : Option Servers :=
  r.map fun (n, servers) => { s with threadLimit := n, servers := servers }

/-- A step of one of the UDP servers. -/
def onUdpServers (s : Servers) (r : Option (Nat × List StatelessServer)) : Option Servers :=
  r.map fun (n, servers) => { s with threadLimit := n, udpServers := servers }

/-- A step of a thread. -/
def step (s : Servers) : Event → Option Servers
  | .listener i e =>
    s.onServers (stepAt (StatefulServer.listenerThreadFunc e) i s.threadLimit s.servers)
  | .connection i k e =>
    s.onServers (stepAt (StatefulServer.connectionThread k e) i s.threadLimit s.servers)
  | .pool i e =>
    s.onUdpServers (stepAt (StatelessServer.constructor e) i s.threadLimit s.udpServers)
  | .responder i k e =>
    s.onUdpServers (stepAt (StatelessServer.connectionThread k e) i s.threadLimit s.udpServers)

/-- `maxConnThreadCount (1000)` and the servers at their start. -/
def start (numberOfCPUs : Nat) (servers udpServers : List (Protocol × UInt16)) : Servers where
  threadLimit := 1000
  servers := servers.map fun p => .init p.1 p.2
  udpServers := udpServers.map fun p => .init numberOfCPUs p.1 p.2

/-- The ports of a list of ranges. -/
def ports (portList : List (Nat × Nat)) : List Nat :=
  portList.flatMap fun range => List.range' range.1 (range.2 + 1 - range.1)

/-- The stateful servers on these ports. -/
def listeners (portList : List (Nat × Nat)) : List (Protocol × UInt16) :=
  (ports portList).flatMap fun port =>
    [(.tcp, .ofNat port), (.sctp, .ofNat port), (.dccp, .ofNat port)]

/-- The server branch of `cApplication::execute`. -/
def execute (numberOfCPUs : Nat) (portList : List (Nat × Nat)) : Servers :=
  start numberOfCPUs (listeners portList) ((ports portList).map fun port => (.udp, .ofNat port))

/-- The live connection threads of the stateful servers. -/
def live (s : Servers) : Nat :=
  (s.servers.map StatefulServer.live).sum

/-- The listeners between `wait` and handing the connection over. -/
def between (s : Servers) : Nat :=
  (s.servers.map StatefulServer.between).sum

/-- Every permit is in the semaphore, with a connection's thread, or with a listener. -/
def Balanced (s : Servers) : Prop :=
  s.threadLimit + s.live + s.between = 1000

/-- Some listener is blocked in `wait`. -/
def Blocked (s : Servers) : Prop :=
  s.threadLimit = 0 ∧ ∃ server ∈ s.servers, server.phase = .waiting

/-! ## The account of the permits -/

end Servers

/-- What an event of a listener adds to the permits that are accounted for, where a listener
at its end counts for `t` of them. -/
def ListenerEvent.weight (t : Int) : ListenerEvent → Int
  | .listenThrows => t
  | .acceptThrows => t - 1
  | .listen | .wait | .accept | .cleanup => 0

/-- What a thread's event adds to the semaphore. -/
def ThreadEvent.weight : ThreadEvent → Int
  | .finish => 0
  | .post => 1

theorem ThreadPhase.step_value {e : ThreadEvent} {n n' : Nat} {p p' : ThreadPhase}
    (h : step e n p = some (n', p')) : (n' : Int) = n + e.weight := by
  cases e <;> cases p <;> simp only [step, Option.some.injEq, Prod.mk.injEq, reduceCtorEq] at h
  · obtain ⟨rfl, rfl⟩ := h
    simp [ThreadEvent.weight]
  · obtain ⟨rfl, rfl⟩ := h
    simp [ThreadEvent.weight]

/-- A thread that ends holds on to its permit until it posts. -/
theorem ThreadPhase.step_drift {e : ThreadEvent} {n n' : Nat} {p p' : ThreadPhase}
    (h : step e n p = some (n', p')) :
    (n' + p'.live : Int) = n + p.live := by
  cases e <;> cases p <;> simp only [step, Option.some.injEq, Prod.mk.injEq, reduceCtorEq] at h
  · obtain ⟨rfl, rfl⟩ := h
    rfl
  · obtain ⟨rfl, rfl⟩ := h
    simp [live]

/-- The permits that a server has, where a listener at its end counts for `t` of them. -/
def StatefulServer.permits (t : Nat) (s : StatefulServer) : Nat :=
  s.live + s.between + t * s.ended

namespace StatefulServer

variable {t n n' : Nat} {s s' : StatefulServer}

theorem listenerThreadFunc_drift {e : ListenerEvent}
    (h : listenerThreadFunc e n s = some (n', s')) :
    (n' + s'.permits t : Int) = n + s.permits t + e.weight t := by
  obtain ⟨protocol, localPort, phase, threads⟩ := s
  cases e <;> cases phase <;>
    simp only [listenerThreadFunc, Option.some.injEq, Prod.mk.injEq, reduceCtorEq] at h
  case listen.starting =>
    obtain ⟨rfl, rfl⟩ := h
    simp [permits, live, between, ended, ListenerEvent.weight]
  case listenThrows.starting =>
    obtain ⟨rfl, rfl⟩ := h
    simp [permits, live, between, ended, ListenerEvent.weight, add_assoc]
  case wait.waiting =>
    cases n with
    | zero => cases h
    | succ n =>
      obtain ⟨rfl, rfl⟩ : n = n' ∧ _ = s' := by simpa using h
      simp [permits, live, between, ended, ListenerEvent.weight]
      omega
  case accept.accepting =>
    obtain ⟨rfl, rfl⟩ := h
    simp [permits, live, between, ended, ListenerEvent.weight, ThreadPhase.live]
  case acceptThrows.accepting =>
    obtain ⟨rfl, rfl⟩ := h
    simp [permits, live, between, ended, ListenerEvent.weight]
    omega
  case cleanup.cleaning it =>
    split at h
    · obtain ⟨rfl, rfl⟩ : n = n' ∧ _ = s' := by simpa using h
      simp [permits, live, between, ended, ListenerEvent.weight]
    · obtain ⟨rfl, rfl⟩ : n = n' ∧ _ = s' := by simpa using h
      simp [permits, live, between, ended, ListenerEvent.weight]
    · cases h
    · have hsum := sum_map_eraseIdx ThreadPhase.live ‹_›
      obtain ⟨rfl, rfl⟩ : n = n' ∧ _ = s' := by simpa using h
      simp only [ThreadPhase.live] at hsum
      simp only [permits, live, between, ended, ListenerEvent.weight]
      omega

theorem connectionThread_drift {k : Nat} {e : ThreadEvent}
    (h : connectionThread k e n s = some (n', s')) :
    (n' + s'.permits t : Int) = n + s.permits t := by
  obtain ⟨⟨n₁, threads⟩, hstep, heq⟩ := Option.map_eq_some_iff.mp h
  obtain ⟨rfl, rfl⟩ : n₁ = n' ∧ _ = s' := by simpa using heq
  have hsum := stepAt_drift (m := ThreadPhase.live) (w := 0)
    (fun p n p' hp => by rw [ThreadPhase.step_drift hp, add_zero]) hstep
  simp only [permits, live, between, ended]
  omega

end StatefulServer

namespace StatelessServer

variable {n n' : Nat} {s s' : StatelessServer}

/-- The constructor does not wait. -/
theorem constructor_value {e : PoolEvent} (h : constructor e n s = some (n', s')) : n' = n := by
  unfold constructor at h
  split at h
  · exact ((Prod.mk.inj (Option.some.inj h)).1).symm
  · exact ((Prod.mk.inj (Option.some.inj h)).1).symm
  · cases h

theorem connectionThread_value {k : Nat} {e : ThreadEvent}
    (h : connectionThread k e n s = some (n', s')) : (n' : Int) = n + e.weight := by
  obtain ⟨⟨n₁, threads⟩, hstep, heq⟩ := Option.map_eq_some_iff.mp h
  obtain ⟨rfl, rfl⟩ : n₁ = n' ∧ _ = s' := by simpa using heq
  obtain ⟨p, p', -, hp, -⟩ := stepAt_eq_some_iff.mp hstep
  exact ThreadPhase.step_value hp

end StatelessServer

namespace Servers

variable {t : Nat} {s s' : Servers}

/-- What an event adds to the permits that are accounted for. -/
def Event.weight (t : Int) : Event → Int
  | .listener _ e => e.weight t
  | .responder _ _ e => e.weight
  | .connection .. | .pool .. => 0

/-- The permits in the semaphore and with the servers. -/
def account (t : Nat) (s : Servers) : Int :=
  s.threadLimit + (s.servers.map (StatefulServer.permits t)).sum

theorem onServers_drift {f : Nat → StatefulServer → Option (Nat × StatefulServer)} {i : Nat} {w : Int}
    (hf : ∀ server n' server', f s.threadLimit server = some (n', server') →
      (n' + server'.permits t : Int) = s.threadLimit + server.permits t + w)
    (h : s.onServers (stepAt f i s.threadLimit s.servers) = some s') :
    s'.account t = s.account t + w := by
  obtain ⟨⟨n, servers⟩, hstep, rfl⟩ := Option.map_eq_some_iff.mp h
  exact stepAt_drift hf hstep

theorem onUdpServers_drift {f : Nat → StatelessServer → Option (Nat × StatelessServer)} {i : Nat}
    {w : Int} (hf : ∀ server n' server', f s.threadLimit server = some (n', server') →
      (n' : Int) = s.threadLimit + w)
    (h : s.onUdpServers (stepAt f i s.threadLimit s.udpServers) = some s') :
    s'.account t = s.account t + w := by
  obtain ⟨⟨n, servers⟩, hstep, rfl⟩ := Option.map_eq_some_iff.mp h
  obtain ⟨server, server', -, hserver, -⟩ := stepAt_eq_some_iff.mp hstep
  have hn := hf server n server' hserver
  simp only [account]
  omega

/-- Every event moves the account by its weight. -/
theorem step_drift (s : Servers) (e : Event) (s' : Servers) (h : s.step e = some s') :
    s'.account t = s.account t + e.weight t := by
  cases e with
  | listener i e => exact onServers_drift (fun _ _ _ => StatefulServer.listenerThreadFunc_drift) h
  | connection i k e =>
    refine onServers_drift (fun _ _ _ hserver => ?_) h
    rw [StatefulServer.connectionThread_drift hserver]
    simp [Event.weight]
  | pool i e =>
    refine onUdpServers_drift (fun _ _ _ hserver => ?_) h
    rw [StatelessServer.constructor_value hserver]
    simp [Event.weight]
  | responder i k e =>
    exact onUdpServers_drift (fun _ _ _ => StatelessServer.connectionThread_value) h

/-- The servers start without a permit. -/
theorem account_start (t numberOfCPUs : Nat) (servers udpServers : List (Protocol × UInt16)) :
    (start numberOfCPUs servers udpServers).account t = 1000 := by
  have hzero : ∀ p : Protocol × UInt16, (StatefulServer.init p.1 p.2).permits t = 0 := fun p => by
    simp [StatefulServer.permits, StatefulServer.live, StatefulServer.between,
      StatefulServer.ended, StatefulServer.init]
  simp only [account, start, List.map_map, Function.comp_def, hzero]
  simp

theorem account_run {numberOfCPUs : Nat} {servers udpServers : List (Protocol × UInt16)}
    {events : List Event}
    (h : events.foldlM step (start numberOfCPUs servers udpServers) = some s) :
    s.account t = 1000 + (events.map (Event.weight t)).sum := by
  rw [foldlM_drift step_drift events h, account_start]

/-! ## Conservation -/

/-- The account of permits where a listener at its end has none. -/
theorem account_zero (s : Servers) : s.account 0 = s.threadLimit + s.live + s.between := by
  have hpermits : StatefulServer.permits 0 = fun server => server.live + server.between := by
    funext server
    simp [StatefulServer.permits]
  rw [account, hpermits, List.sum_map_add, live, between]
  push_cast
  ring

/-- A listener ends with a permit. -/
def Event.loses : Event → Bool
  | .listener _ .acceptThrows => true
  | _ => false

/-- A thread ends that has taken no permit. -/
def Event.unpaid : Event → Bool
  | .responder _ _ .post => true
  | _ => false

theorem sum_weight (events : List Event) :
    (events.map (Event.weight 0)).sum = events.countP Event.unpaid - events.countP Event.loses := by
  induction events with
  | nil => rfl
  | cons e events ih =>
    rw [List.map_cons, List.sum_cons, ih, List.countP_cons, List.countP_cons]
    have hweight : e.weight 0 = (if e.unpaid then 1 else 0) - if e.loses then 1 else 0 := by
      rcases e with ⟨i, e⟩ | ⟨i, k, e⟩ | ⟨i, e⟩ | ⟨i, k, e⟩ <;> cases e <;> rfl
    rw [hweight]
    push_cast
    ring

/-- The permits balance, and the connection threads keep to the limit, if and only if as many
listeners ended with a permit as threads ended without one. -/
theorem balanced_iff {numberOfCPUs : Nat} {servers udpServers : List (Protocol × UInt16)}
    {events : List Event}
    (h : events.foldlM step (start numberOfCPUs servers udpServers) = some s) :
    (s.Balanced ∧ s.live ≤ 1000) ↔ events.countP Event.loses = events.countP Event.unpaid := by
  have haccount := account_run (t := 0) h
  rw [account_zero, Nat.cast_zero, sum_weight] at haccount
  unfold Balanced
  omega

/-- One connection is being served, one listener and one thread of a UDP server have ended. -/
theorem balanced_one_each :
    (Servers.mk 999 [⟨.tcp, 80, .waiting, [.serving]⟩, ⟨.sctp, 80, .terminated, []⟩]
      [⟨.udp, 80, 3, [.ended]⟩]).Balanced ∧
    (Servers.mk 999 [⟨.tcp, 80, .waiting, [.serving]⟩, ⟨.sctp, 80, .terminated, []⟩]
      [⟨.udp, 80, 3, [.ended]⟩]).live ≤ 1000 :=
  (balanced_iff (by decide : [Event.listener 0 .listen, .listener 1 .listen, .listener 0 .wait,
    .listener 1 .wait, .listener 0 .accept, .pool 0 .construct, .listener 1 .acceptThrows,
    .listener 0 .cleanup, .listener 0 .cleanup, .responder 0 0 .finish,
    .responder 0 0 .post].foldlM step (start 4 [(.tcp, 80), (.sctp, 80)] [(.udp, 80)]) =
      some _)).mpr (by decide)

/-- A thread of a UDP server that ends adds a permit. -/
theorem not_balanced :
    ¬∀ (numberOfCPUs : Nat) (servers udpServers : List (Protocol × UInt16)) (events : List Event)
      (s : Servers), events.foldlM step (start numberOfCPUs servers udpServers) = some s →
      s.Balanced ∧ s.live ≤ 1000 := by
  intro h
  have hbalanced := h 4 [] [(.udp, 80)] [.pool 0 .construct, .responder 0 0 .finish,
    .responder 0 0 .post] _ rfl
  exact absurd hbalanced.1 (by unfold Balanced; decide)

/-! ## Idle listeners -/

theorem weight_nonneg (e : Event) : 0 ≤ e.weight 1 := by
  cases e with
  | listener i e => cases e <;> simp [Event.weight, ListenerEvent.weight]
  | connection i k e => exact le_rfl
  | pool i e => exact le_rfl
  | responder i k e => cases e <;> simp [Event.weight, ThreadEvent.weight]

/-- Where a listener keeps the permit it ends with, none is lost. -/
theorem le_account_one {numberOfCPUs : Nat} {servers udpServers : List (Protocol × UInt16)}
    {events : List Event}
    (h : events.foldlM step (start numberOfCPUs servers udpServers) = some s) :
    1000 ≤ s.account 1 := by
  rw [account_run h]
  refine le_add_of_nonneg_right (List.sum_nonneg fun w hw => ?_)
  obtain ⟨e, -, rfl⟩ := List.mem_map.mp hw
  exact weight_nonneg e

theorem length_servers {numberOfCPUs : Nat} {servers udpServers : List (Protocol × UInt16)}
    {events : List Event}
    (h : events.foldlM step (start numberOfCPUs servers udpServers) = some s) :
    s.servers.length = servers.length := by
  refine foldlM_invariant (I := fun s => s.servers.length = servers.length) ?_ events h
    (by simp [start])
  intro s e s' hstep hlen
  cases e with
  | listener i e =>
    obtain ⟨⟨n, l⟩, hat, rfl⟩ := Option.map_eq_some_iff.mp hstep
    exact (stepAt_length hat).trans hlen
  | connection i k e =>
    obtain ⟨⟨n, l⟩, hat, rfl⟩ := Option.map_eq_some_iff.mp hstep
    exact (stepAt_length hat).trans hlen
  | pool i e =>
    obtain ⟨⟨n, l⟩, -, rfl⟩ := Option.map_eq_some_iff.mp hstep
    exact hlen
  | responder i k e =>
    obtain ⟨⟨n, l⟩, -, rfl⟩ := Option.map_eq_some_iff.mp hstep
    exact hlen

/-- A listener that waits has no permit, any other has one at most. -/
theorem account_one_lt (hlive : s.live = 0) (hblocked : s.Blocked) :
    s.account 1 < s.servers.length := by
  obtain ⟨hzero, server, hmem, hwaiting⟩ := hblocked
  have hpermits : StatefulServer.permits 1 = fun server =>
      server.live + (server.between + server.ended) := by
    funext server
    simp [StatefulServer.permits, Nat.add_assoc]
  have hlt : (s.servers.map fun server => server.between + server.ended).sum <
      (s.servers.map fun _ => 1).sum := by
    refine List.sum_lt_sum _ _ (fun server _ => ?_) ⟨server, hmem, ?_⟩
    · unfold StatefulServer.between StatefulServer.ended
      cases server.phase <;> simp
    · simp [StatefulServer.between, StatefulServer.ended, hwaiting]
  rw [List.map_const', List.sum_replicate, smul_eq_mul, mul_one] at hlt
  rw [account, hzero, hpermits, List.sum_map_add]
  unfold live at hlive
  omega

/-- The listeners from the `i`-th on, `k` of them, reach `accept`. -/
def reachAccept : Nat → Nat → List Event
  | _, 0 => []
  | i, k + 1 => [.listener i .listen, .listener i .wait] ++ reachAccept (i + 1) k

theorem step_listener {n n' : Nat} {l₁ l₂ : List StatefulServer} {b b' : StatefulServer}
    {udp : List StatelessServer} {e : ListenerEvent}
    (h : StatefulServer.listenerThreadFunc e n b = some (n', b')) :
    step ⟨n, l₁ ++ b :: l₂, udp⟩ (.listener l₁.length e) = some ⟨n', l₁ ++ b' :: l₂, udp⟩ := by
  rw [step, stepAt_append_cons h]
  rfl

/-- A listener at its start reaches `accept` with one permit. -/
theorem step_reachAccept (q : Protocol × UInt16) (n : Nat) (l₁ l₂ : List StatefulServer)
    (udp : List StatelessServer) :
    [Event.listener l₁.length .listen, .listener l₁.length .wait].foldlM step
        ⟨n + 1, l₁ ++ .init q.1 q.2 :: l₂, udp⟩ =
      some ⟨n, l₁ ++ ⟨q.1, q.2, .accepting, []⟩ :: l₂, udp⟩ := by
  have hlisten : step ⟨n + 1, l₁ ++ .init q.1 q.2 :: l₂, udp⟩ (.listener l₁.length .listen) =
      some ⟨n + 1, l₁ ++ ⟨q.1, q.2, .waiting, []⟩ :: l₂, udp⟩ := step_listener rfl
  have hwait : step ⟨n + 1, l₁ ++ ⟨q.1, q.2, .waiting, []⟩ :: l₂, udp⟩
      (.listener l₁.length .wait) =
      some ⟨n, l₁ ++ ⟨q.1, q.2, .accepting, []⟩ :: l₂, udp⟩ := step_listener rfl
  rw [List.foldlM_cons, hlisten, Option.bind_eq_bind, Option.bind_some, List.foldlM_cons, hwait]
  rfl

theorem reachAccept_run (rest : List StatefulServer) (udp : List StatelessServer) :
    ∀ (qs : List (Protocol × UInt16)) (ps : List StatefulServer) (n : Nat),
      (reachAccept ps.length qs.length).foldlM step
        ⟨n + qs.length, ps ++ (qs.map (fun q => .init q.1 q.2) ++ rest), udp⟩ =
      some ⟨n, ps ++ (qs.map (fun q => ⟨q.1, q.2, .accepting, []⟩) ++ rest), udp⟩
  | [], _, _ => rfl
  | q :: qs, ps, n => by
    have hrest := reachAccept_run rest udp qs (ps ++ [⟨q.1, q.2, .accepting, []⟩]) n
    rw [List.length_append, List.length_singleton, List.append_assoc, List.append_assoc] at hrest
    rw [List.length_cons, reachAccept, List.foldlM_append, ← Nat.add_assoc,
      List.map_cons, List.cons_append, step_reachAccept]
    exact hrest

theorem not_mem_reachAccept (i : Nat) : ∀ (k j : Nat),
    .listener i .listenThrows ∉ reachAccept j k
  | 0, _ => List.not_mem_nil
  | k + 1, j => by
    simp [reachAccept, not_mem_reachAccept i k]

/-- With more than 1000 listeners, the first 1000 leave no permit to the next. -/
theorem exists_blocked (numberOfCPUs : Nat) {servers : List (Protocol × UInt16)}
    (udpServers : List (Protocol × UInt16)) (h : 1000 < servers.length) :
    ∃ (events : List Event) (s : Servers), (∀ i, .listener i .listenThrows ∉ events) ∧
      events.foldlM step (start numberOfCPUs servers udpServers) = some s ∧
      s.live = 0 ∧ s.Blocked := by
  obtain ⟨qs, b, rest, rfl, hqs⟩ : ∃ qs b rest, servers = qs ++ b :: rest ∧ qs.length = 1000 := by
    refine ⟨servers.take 1000, servers[1000], servers.drop 1001, ?_, by simp; omega⟩
    rw [← List.drop_eq_getElem_cons h, List.take_append_drop]
  obtain ⟨l, hl⟩ : ∃ l : List StatefulServer, l = qs.map fun q => ⟨q.1, q.2, .accepting, []⟩ :=
    ⟨_, rfl⟩
  obtain ⟨rest', hrest⟩ : ∃ l : List StatefulServer, l = rest.map fun q => .init q.1 q.2 :=
    ⟨_, rfl⟩
  obtain ⟨udp, hudp⟩ : ∃ l : List StatelessServer,
    l = udpServers.map fun q => .init numberOfCPUs q.1 q.2 := ⟨_, rfl⟩
  have hrun := reachAccept_run (.init b.1 b.2 :: rest') udp qs [] 0
  rw [List.length_nil, Nat.zero_add, hqs, List.nil_append, List.nil_append, ← hl] at hrun
  have hlast : step ⟨0, l ++ .init b.1 b.2 :: rest', udp⟩ (.listener l.length .listen) =
      some ⟨0, l ++ ⟨b.1, b.2, .waiting, []⟩ :: rest', udp⟩ := step_listener rfl
  rw [show l.length = 1000 by rw [hl, List.length_map, hqs]] at hlast
  refine ⟨reachAccept 0 1000 ++ [.listener 1000 .listen],
    ⟨0, l ++ ⟨b.1, b.2, .waiting, []⟩ :: rest', udp⟩, fun i hmem => ?_, ?_, ?_, ?_⟩
  · rcases List.mem_append.mp hmem with hmem | hmem
    · exact not_mem_reachAccept i 1000 0 hmem
    · simp at hmem
  · rw [List.foldlM_append, start, List.map_append, List.map_cons, ← hrest, ← hudp, hrun]
    rw [Option.bind_eq_bind, Option.bind_some, List.foldlM_cons, hlast]
    rfl
  · simp [live, hl, hrest, StatefulServer.live, StatefulServer.init, Function.comp_def]
  · exact ⟨rfl, _, List.mem_append_right _ List.mem_cons_self, rfl⟩

/-- The ranges as they were parsed, in numbers. -/
def rangesOf (portList : List (UInt64 × UInt64)) : List (Nat × Nat) :=
  portList.map fun range => (range.1.toNat, range.2.toNat)

theorem ports_rangesOf (portList : List (UInt64 × UInt64)) :
    ports (rangesOf portList) = Application.denoted portList := by
  rw [ports, rangesOf, List.flatMap_map, Application.denoted]

/-- The loops of `cApplication::execute` end and make these servers, as long as no range goes up
to the last number of 64 bits. -/
theorem listeners_of_loops {portList : List (UInt64 × UInt64)}
    (h : ∀ r ∈ portList, r.2.toNat + 1 < 2 ^ 64) :
    ∃ rounds left, Application.servers rounds portList = some left ∧
      left.filter (·.1 ≠ .udp) = listeners (rangesOf portList) ∧
      left.filter (·.1 = .udp) =
        (ports (rangesOf portList)).map fun port => (.udp, .ofNat port) := by
  refine ⟨2 ^ 64, _, Application.rangeLoop_eq h h, ?_, ?_⟩
  · rw [List.filter_flatMap, listeners, ports_rangesOf]
    rfl
  · rw [List.filter_flatMap, ports_rangesOf, List.map_eq_flatMap]
    rfl

theorem length_listeners (portList : List (Nat × Nat)) :
    (listeners portList).length = 3 * (ports portList).length := by
  simp [listeners, List.length_flatMap, Nat.mul_comm]

/-- The listeners of all ports leave each other a permit if and only if there are at most 1000
of them. -/
theorem notStarved_iff (numberOfCPUs : Nat) (portList : List (Nat × Nat)) :
    (∀ (events : List Event) (s : Servers), (∀ i, .listener i .listenThrows ∉ events) →
      events.foldlM step (execute numberOfCPUs portList) = some s → s.live = 0 → ¬s.Blocked) ↔
      3 * (ports portList).length ≤ 1000 := by
  constructor
  · intro hfree
    by_contra hmany
    obtain ⟨events, s, hlistening, hrun, hlive, hblocked⟩ :=
      exists_blocked numberOfCPUs ((ports portList).map fun port => (.udp, .ofNat port))
        (show 1000 < (listeners portList).length by rw [length_listeners]; omega)
    exact hfree events s hlistening hrun hlive hblocked
  · intro hfew events s _ hrun hlive hblocked
    have hlt := account_one_lt hlive hblocked
    have hle := le_account_one hrun
    rw [length_servers hrun, length_listeners] at hlt
    omega

/-- The TCP, SCTP and DCCP listeners of 334 ports take all permits, with one more to come. -/
theorem starved :
    ¬∀ (numberOfCPUs : Nat) (portList : List (Nat × Nat)) (events : List Event) (s : Servers),
      (∀ i, .listener i .listenThrows ∉ events) →
      events.foldlM step (execute numberOfCPUs portList) = some s → s.live = 0 → ¬s.Blocked := by
  intro h
  have hmany : 1000 < (listeners [(1, 334)]).length := by
    rw [length_listeners, ports, List.flatMap_singleton, List.length_range']
    decide
  obtain ⟨events, s, hlistening, hrun, hlive, hblocked⟩ :=
    exists_blocked 4 ((ports [(1, 334)]).map fun port => (.udp, .ofNat port)) hmany
  exact h 4 [(1, 334)] events s hlistening hrun hlive hblocked

end Servers

end NetBabbler
