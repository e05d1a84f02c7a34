import NetBabbler.Descriptors
import NetBabbler.Servers

/-!
# The sockets of the servers

The servers of a process with the objects of their sockets. A listener has a socket until its
`accept` throws, and the thread of a connection has one until its function returns, which is
after `threadLimit.post ()`. The threads of a `cStatelessServer` have clones of the socket of
its constructor. The kernel answers `socket` and `accept` with any descriptor that is not open.

`run_divided` : the descriptors that are open are those of running listeners, of connection
threads that did not return and of UDP servers with a thread, and each is its owner's alone.
`run_bounded` : how many that are, where the semaphore leaves a descriptor out that is still
open behind the `post` of its thread.
-/

namespace NetBabbler

open Interleaving Process Sharing

/-- What all threads of the process share. -/
structure Common where
  process : Process
  threadLimit : Nat

namespace Common

/-- The next object. -/
def next (c : Common) : Nat :=
  c.process.handles.length

/-- The operations of a call on the sockets of the process. -/
def perform (c : Common) (ops : List Op) : Option Common :=
  (ops.foldlM Process.step c.process).map fun p => { c with process := p }

end Common

/-! ## The threads -/

/-- Where a thread of `connectionThreadFunc` is. -/
inductive ConnectionPhase where
  | serving
  /-- `m_finished` is set and `threadLimit.post ()` is to come. -/
  | finished
  /-- The parameter `s` is still there. -/
  | posted
  | ended
  deriving DecidableEq

/-- What a connection's thread does next. -/
inductive ConnectionEvent where
  | finish
  | post
  | destroy
  deriving DecidableEq

/-- A thread of `cResponderThread`, and its socket. -/
structure ConnectionThread where
  phase : ConnectionPhase
  /-- The object of the parameter `s`. -/
  s : Nat
  deriving DecidableEq

namespace ConnectionThread

/-- The end of `connectionThreadFunc`, in its three steps. -/
def step (e : ConnectionEvent) (c : Common) (t : ConnectionThread) :
    Option (Common × ConnectionThread) :=
  match e, t.phase with
  | .finish, .serving => some (c, { t with phase := .finished })
  | .post, .finished =>
    some ({ c with threadLimit := c.threadLimit + 1 }, { t with phase := .posted })
  | .destroy, .posted => (c.perform [.destroy t.s]).map (·, { t with phase := .ended })
  | _, _ => none

/-- The objects with the descriptor of the thread. -/
def group (t : ConnectionThread) : Multiset Nat :=
  if t.phase = .ended then 0 else {t.s}

/-- Whether the socket of the thread is still there, as a number. -/
def opened (t : ConnectionThread) : Nat :=
  if t.phase = .ended then 0 else 1

/-- Whether it is there without a permit. -/
def posted (t : ConnectionThread) : Nat :=
  if t.phase = .posted then 1 else 0

end ConnectionThread

/-- What the listener's thread does next. -/
inductive ListenerCall where
  /-- `socket` returns `fd`. -/
  | listen (fd : Nat)
  /-- `cSocket::listen` throws, after `socket` returned this. -/
  | listenThrows (socket : Option Nat)
  | wait
  | accept (fd : Nat)
  | acceptThrows
  | cleanup
  deriving DecidableEq

/-- A `cStatefulServer` and the object of its local `sListener`. -/
structure ListenerThread where
  protocol : Protocol
  localPort : UInt16
  phase : ListenerPhase
  sListener : Nat
  connThreads : List ConnectionThread
  deriving DecidableEq

namespace ListenerThread

/-- The constructor, which starts the listener. -/
def init (protocol : Protocol) (localPort : UInt16) : ListenerThread :=
  ⟨protocol, localPort, .starting, 0, []⟩

/-- `listenerThreadFunc`. -/
def step (e : ListenerCall) (c : Common) (l : ListenerThread) : Option (Common × ListenerThread) :=
  match e, l.phase with
  | .listen fd, .starting =>
    (c.perform (listenOps c.next fd)).map
      (·, { l with phase := .waiting, sListener := c.next + 2 })
  | .listenThrows socket, .starting =>
    (c.perform (listenThrowsOps c.next socket)).map (·, { l with phase := .terminated })
  | .wait, .waiting =>
    match c.threadLimit with
    | 0 => none
    | n + 1 => some ({ c with threadLimit := n }, { l with phase := .accepting })
  | .accept fd, .accepting =>
    (c.perform (acceptOps c.next fd)).map
      (·, { l with
        phase := .cleaning 0
        connThreads := l.connThreads ++ [⟨.serving, c.next + 3⟩] })
  | .acceptThrows, .accepting =>
    (c.perform [.destroy l.sListener]).map (·, { l with phase := .terminated })
  | .cleanup, .cleaning it =>
    match l.connThreads[it]? with
    | none => some (c, { l with phase := .waiting })
    | some t =>
      match t.phase with
      | .serving => some (c, { l with phase := .cleaning (it + 1) })
      -- the destructor joins the thread
      | .finished | .posted => none
      | .ended => some (c, { l with connThreads := l.connThreads.eraseIdx it })
  | _, _ => none

/-- The listener has its socket. -/
def listening (l : ListenerThread) : Bool :=
  match l.phase with
  | .starting | .terminated => false
  | .waiting | .accepting | .cleaning _ => true

/-- The objects with each descriptor of the server. -/
def groups (l : ListenerThread) : Multiset (Multiset Nat) :=
  (if l.listening then {l.sListener} else 0) ::ₘ
    (l.connThreads.map fun t => {t.group}).sum

end ListenerThread

/-- What the constructor of a UDP server does next. -/
inductive PoolCall where
  | listen (fd : Nat)
  | listenThrows (socket : Option Nat)
  | construct
  | leave
  deriving DecidableEq

/-- Where the constructor of a `cStatelessServer` is. -/
inductive PoolPhase where
  | starting
  /-- In the loop, with the object of its local `sListener`. -/
  | constructing (sListener : Nat)
  | constructed
  deriving DecidableEq

/-- A `cStatelessServer`. -/
structure ResponderPool where
  protocol : Protocol
  localPort : UInt16
  /-- The threads that the constructor is still going to make. -/
  n : Nat
  phase : PoolPhase
  connThreads : List ConnectionThread
  deriving DecidableEq

namespace ResponderPool

/-- The start of the constructor. -/
def init (numberOfCPUs : Int32) (protocol : Protocol) (localPort : UInt16) : ResponderPool :=
  ⟨protocol, localPort, max numberOfCPUs.toInt.toNat 4, .starting, []⟩

/-- The constructor. -/
def step (e : PoolCall) (c : Common) (u : ResponderPool) : Option (Common × ResponderPool) :=
  match e, u.phase, u.n with
  | .listen fd, .starting, _ =>
    (c.perform (listenOps c.next fd)).map (·, { u with phase := .constructing (c.next + 2) })
  | .listenThrows socket, .starting, _ =>
    (c.perform (listenThrowsOps c.next socket)).map (·, { u with phase := .constructed, n := 0 })
  | .construct, .constructing sListener, n + 1 =>
    (c.perform (cloneOps sListener c.next)).map
      (·, { u with n := n, connThreads := u.connThreads ++ [⟨.serving, c.next + 4⟩] })
  | .leave, .constructing sListener, 0 =>
    (c.perform [.destroy sListener]).map (·, { u with phase := .constructed })
  | _, _, _ => none

/-- The objects with the descriptor of the server. -/
def group (u : ResponderPool) : Multiset Nat :=
  (match u.phase with
    | .constructing sListener => {sListener}
    | .starting | .constructed => 0) + (u.connThreads.map ConnectionThread.group).sum

end ResponderPool

/-! ## The process -/

/-- The servers, and what they have in common. -/
structure ServerProcess where
  common : Common
  servers : List ListenerThread
  udpServers : List ResponderPool

namespace ServerProcess

/-- What a thread does next. -/
inductive Event where
  | listener (i : Nat) (e : ListenerCall)
  | connection (i k : Nat) (e : ConnectionEvent)
  | pool (i : Nat) (e : PoolCall)
  | responder (i k : Nat) (e : ConnectionEvent)
  deriving DecidableEq

/-- A step of a thread. -/
def step (s : ServerProcess) : Event → Option ServerProcess
  | .listener i e => do
    let l ← s.servers[i]?
    let (c, l') ← l.step e s.common
    some { s with common := c, servers := s.servers.set i l' }
  | .connection i k e => do
    let l ← s.servers[i]?
    let t ← l.connThreads[k]?
    let (c, t') ← t.step e s.common
    some { s with
      common := c
      servers := s.servers.set i { l with connThreads := l.connThreads.set k t' } }
  | .pool i e => do
    let u ← s.udpServers[i]?
    let (c, u') ← u.step e s.common
    some { s with common := c, udpServers := s.udpServers.set i u' }
  | .responder i k e => do
    let u ← s.udpServers[i]?
    let t ← u.connThreads[k]?
    let (c, t') ← t.step e s.common
    some { s with
      common := c
      udpServers := s.udpServers.set i { u with connThreads := u.connThreads.set k t' } }

/-- `maxConnThreadCount (1000)` and the servers at their start. -/
def start (numberOfCPUs : Int32) (servers udpServers : List (Protocol × UInt16)) :
    ServerProcess where
  common := ⟨{}, 1000⟩
  servers := servers.map fun p => .init p.1 p.2
  udpServers := udpServers.map fun p => .init numberOfCPUs p.1 p.2

/-- The listeners with a socket. -/
def listening (s : ServerProcess) : Nat :=
  (s.servers.map fun l => l.listening.toNat).sum

/-- The connection threads with a socket. -/
def connections (s : ServerProcess) : Nat :=
  (s.servers.map fun l => (l.connThreads.map ConnectionThread.opened).sum).sum

/-- Those of them that gave their permits back. -/
def posted (s : ServerProcess) : Nat :=
  (s.servers.map fun l => (l.connThreads.map ConnectionThread.posted).sum).sum

/-- The UDP servers with a socket. -/
def pools (s : ServerProcess) : Nat :=
  (s.udpServers.map fun u => if u.group = 0 then 0 else 1).sum

/-- A thread ends that has taken no permit. -/
def Event.unpaid : Event → Bool
  | .responder _ _ .post => true
  | _ => false

/-- The objects with each descriptor of the process. -/
def groups (s : ServerProcess) : Multiset (Multiset Nat) :=
  (s.servers.map ListenerThread.groups).sum + (s.udpServers.map fun u => {u.group}).sum

end ServerProcess

/-! ## Which descriptors are open -/

section Divided

variable {c c' : Common} {g : Multiset Nat} {rest : Multiset (Multiset Nat)}

/-- What a call did that consists of operations on sockets. -/
theorem Common.performed {β : Type*} {ops : List Op} {b b' : β}
    (h : (c.perform ops).map (·, b) = some (c', b')) :
    ops.foldlM Process.step c.process = some c'.process ∧ c'.threadLimit = c.threadLimit ∧
      b' = b := by
  obtain ⟨c₁, hc, heq⟩ := Option.map_eq_some_iff.mp h
  obtain ⟨rfl, rfl⟩ := Prod.mk.inj heq
  obtain ⟨p, hp, rfl⟩ := Option.map_eq_some_iff.mp hc
  exact ⟨hp, rfl, rfl⟩

/-- A thread that goes on is alone with its descriptor, or shares it with the same threads. -/
theorem ConnectionThread.step_divided {e : ConnectionEvent} {t t' : ConnectionThread}
    (h : c.process.Divided ((t.group + g) ::ₘ rest)) (hstep : t.step e c = some (c', t')) :
    c'.process.Divided ((t'.group + g) ::ₘ rest) := by
  obtain ⟨phase, s⟩ := t
  cases e <;> cases phase <;>
    simp only [step, Option.some.injEq, Prod.mk.injEq, reduceCtorEq] at hstep
  case finish.serving =>
    obtain ⟨rfl, rfl⟩ := hstep
    exact h
  case post.finished =>
    obtain ⟨rfl, rfl⟩ := hstep
    exact h
  case destroy.posted =>
    obtain ⟨hrun, -, rfl⟩ := Common.performed hstep
    have hdestroy : c.process.step (.destroy s) = some c'.process := by simpa using hrun
    have h' : c.process.Divided ((s ::ₘ g) ::ₘ rest) := h
    simpa [group] using (h'.destroy hdestroy).1

namespace ListenerThread

variable {l l' : ListenerThread}

theorem step_divided {e : ListenerCall} (h : c.process.Divided (l.groups + rest))
    (hstep : l.step e c = some (c', l')) : c'.process.Divided (l'.groups + rest) := by
  obtain ⟨protocol, localPort, phase, sListener, threads⟩ := l
  cases e <;> cases phase <;> simp only [step, reduceCtorEq] at hstep
  case listen.starting fd =>
    obtain ⟨hrun, -, rfl⟩ := Common.performed hstep
    simp only [groups, listening, Multiset.cons_add, Bool.false_eq_true, if_false, if_true] at h ⊢
    exact (divided_zero_cons.mp h).listen hrun
  case listenThrows.starting socket =>
    obtain ⟨hrun, -, rfl⟩ := Common.performed hstep
    exact h.listenThrows hrun
  case wait.waiting =>
    cases hlimit : c.threadLimit with
    | zero =>
      rw [hlimit] at hstep
      cases hstep
    | succ n =>
      rw [hlimit] at hstep
      obtain ⟨rfl, rfl⟩ := Prod.mk.inj (Option.some.inj hstep)
      exact h
  case accept.accepting fd =>
    obtain ⟨hrun, -, rfl⟩ := Common.performed hstep
    have haccept : c'.process.Divided ({c.next + 3} ::ₘ _) := h.accept hrun
    convert haccept using 1
    have hnew : (⟨.serving, c.next + 3⟩ : ConnectionThread).group = {c.next + 3} := rfl
    simp only [groups, listening, if_true, List.map_append, List.sum_append, List.map_singleton,
      List.sum_singleton, hnew, ← Multiset.singleton_add]
    abel
  case acceptThrows.accepting =>
    obtain ⟨hrun, -, rfl⟩ := Common.performed hstep
    have hdestroy : c.process.step (.destroy sListener) = some c'.process := by simpa using hrun
    simp only [groups, listening, Multiset.cons_add, Bool.false_eq_true, if_false, if_true] at h ⊢
    exact (Divided.destroy (g := 0) h hdestroy).1
  case cleanup.cleaning it =>
    cases hit : threads[it]? with
    | none =>
      simp only [hit, Option.some.injEq, Prod.mk.injEq] at hstep
      obtain ⟨rfl, rfl⟩ := hstep
      exact h
    | some t =>
      obtain ⟨phase, s⟩ := t
      cases phase <;> simp only [hit, Option.some.injEq, Prod.mk.injEq, reduceCtorEq] at hstep
      case serving =>
        obtain ⟨rfl, rfl⟩ := hstep
        exact h
      case ended =>
        obtain ⟨rfl, rfl⟩ := hstep
        have hsum := sum_map_eraseIdx (fun t : ConnectionThread => ({t.group} : Multiset _)) hit
        have hzero : (⟨.ended, s⟩ : ConnectionThread).group = 0 := rfl
        rw [hzero] at hsum
        simp only [groups, listening, if_true, ← hsum] at h ⊢
        refine divided_zero_cons.mp ?_
        convert h using 1
        simp only [← Multiset.singleton_add]
        abel

/-- The threads of a listener are in groups of their own. -/
theorem connection_divided {e : ConnectionEvent} {k : Nat} {t t' : ConnectionThread}
    (h : c.process.Divided (l.groups + rest)) (ht : l.connThreads[k]? = some t)
    (hstep : t.step e c = some (c', t')) :
    c'.process.Divided ({ l with connThreads := l.connThreads.set k t' }.groups + rest) := by
  obtain ⟨others, hsum, -, hset⟩ :=
    exists_sum_map (fun t : ConnectionThread => ({t.group} : Multiset _)) ht
  obtain ⟨own, hown⟩ : ∃ own : Multiset (Multiset Nat),
      own = (if l.listening then {l.sListener} else 0) ::ₘ others + rest := ⟨_, rfl⟩
  have hbefore : l.groups + rest = (t.group + 0) ::ₘ own := by
    rw [groups, hsum, hown, add_zero]
    simp only [← Multiset.singleton_add]
    abel
  have hafter : { l with connThreads := l.connThreads.set k t' }.groups + rest =
      (t'.group + 0) ::ₘ own := by
    rw [groups, hset t', hown, add_zero]
    simp only [← Multiset.singleton_add]
    show ({if l.listening then {l.sListener} else 0} : Multiset (Multiset Nat)) + _ + _ = _
    abel
  rw [hbefore] at h
  rw [hafter]
  exact t.step_divided h hstep

end ListenerThread

namespace ResponderPool

variable {u u' : ResponderPool} {numberOfCPUs : Int32}

/-- Where the constructor is, and how many objects can be on the descriptor. -/
structure Kept (numberOfCPUs : Int32) (u : ResponderPool) : Prop where
  starting : u.phase = .starting → u.connThreads = [] ∧ 0 < u.n
  length : u.connThreads.length + u.n ≤ max numberOfCPUs.toInt.toNat 4

theorem card_group_le (u : ResponderPool) : u.group.card ≤ u.connThreads.length + 1 := by
  have hthreads : (u.connThreads.map ConnectionThread.group).sum.card ≤ u.connThreads.length := by
    induction u.connThreads with
    | nil => rfl
    | cons t threads ih =>
      have ht : t.group.card ≤ 1 := by
        rw [ConnectionThread.group]
        split_ifs <;> simp
      rw [List.map_cons, List.sum_cons, Multiset.card_add, List.length_cons]
      omega
  rw [group, Multiset.card_add]
  split
  · rw [Multiset.card_singleton]
    omega
  · rw [Multiset.card_zero]
    omega
  · rw [Multiset.card_zero]
    omega

/-- What the constructor does. -/
theorem step_cases {e : PoolCall} (h : u.step e c = some (c', u')) :
    c'.threadLimit = c.threadLimit ∧
    ((∃ fd, e = .listen fd ∧ u.phase = .starting ∧
      (listenOps c.next fd).foldlM Process.step c.process = some c'.process ∧
      u' = { u with phase := .constructing (c.next + 2) }) ∨
    (∃ socket, e = .listenThrows socket ∧ u.phase = .starting ∧
      (listenThrowsOps c.next socket).foldlM Process.step c.process = some c'.process ∧
      u' = { u with phase := .constructed, n := 0 }) ∨
    (∃ sListener n, e = .construct ∧ u.phase = .constructing sListener ∧ u.n = n + 1 ∧
      (cloneOps sListener c.next).foldlM Process.step c.process = some c'.process ∧
      u' = { u with n := n, connThreads := u.connThreads ++ [⟨.serving, c.next + 4⟩] }) ∨
    ∃ sListener, e = .leave ∧ u.phase = .constructing sListener ∧ u.n = 0 ∧
      c.process.step (.destroy sListener) = some c'.process ∧
      u' = { u with phase := .constructed }) := by
  obtain ⟨protocol, localPort, n, phase, threads⟩ := u
  unfold step at h
  split at h
  · next _ _ fd hphase =>
    obtain ⟨hrun, hlimit, rfl⟩ := Common.performed h
    exact ⟨hlimit, .inl ⟨fd, rfl, hphase, hrun, rfl⟩⟩
  · next _ _ socket hphase =>
    obtain ⟨hrun, hlimit, rfl⟩ := Common.performed h
    exact ⟨hlimit, .inr (.inl ⟨socket, rfl, hphase, hrun, rfl⟩)⟩
  · next _ _ sListener n hphase hn =>
    obtain ⟨hrun, hlimit, rfl⟩ := Common.performed h
    exact ⟨hlimit, .inr (.inr (.inl ⟨sListener, n, rfl, hphase, hn, hrun, rfl⟩))⟩
  · next _ _ sListener hphase hn =>
    obtain ⟨hrun, hlimit, rfl⟩ := Common.performed h
    exact ⟨hlimit, .inr (.inr (.inr ⟨sListener, rfl, hphase, hn, by simpa using hrun, rfl⟩))⟩
  · cases h

theorem Kept.step {e : PoolCall} (h : u.Kept numberOfCPUs) (hstep : u.step e c = some (c', u')) :
    u'.Kept numberOfCPUs := by
  have hlength := h.length
  rcases (step_cases hstep).2 with ⟨fd, -, hphase, -, rfl⟩ | ⟨socket, -, hphase, -, rfl⟩ |
    ⟨sListener, n, -, hphase, hn, -, rfl⟩ | ⟨sListener, -, hphase, hn, -, rfl⟩
  · exact ⟨nofun, hlength⟩
  · exact ⟨nofun, (Nat.add_le_add_left (Nat.zero_le _) _).trans hlength⟩
  · refine ⟨fun hstarting => ?_, ?_⟩
    · rw [hphase] at hstarting
      cases hstarting
    · rw [hn] at hlength
      simp only [List.length_append, List.length_singleton]
      omega
  · exact ⟨nofun, hlength⟩

theorem step_divided {e : PoolCall} (hkept : u.Kept numberOfCPUs)
    (h : c.process.Divided (u.group ::ₘ rest)) (hstep : u.step e c = some (c', u')) :
    c'.process.Divided (u'.group ::ₘ rest) := by
  rcases (step_cases hstep).2 with ⟨fd, -, hphase, hrun, rfl⟩ | ⟨socket, -, hphase, hrun, rfl⟩ |
    ⟨sListener, n, -, hphase, hn, hrun, rfl⟩ | ⟨sListener, -, hphase, hn, hrun, rfl⟩
  · obtain ⟨hthreads, -⟩ := hkept.starting hphase
    simp only [group, hphase, hthreads, List.map_nil, List.sum_nil, add_zero] at h ⊢
    exact (divided_zero_cons.mp h).listen hrun
  · obtain ⟨hthreads, -⟩ := hkept.starting hphase
    simp only [group, hphase] at h ⊢
    exact h.listenThrows hrun
  · have hcard := u.card_group_le
    have hlength := hkept.length
    have hcpus := Int32.toInt_lt numberOfCPUs
    have hmem : sListener ∈ u.group := by simp [group, hphase]
    have hcloned : c'.process.Divided (((c.next + 4) ::ₘ u.group) ::ₘ rest) :=
      h.cloned hmem (by omega) hrun
    convert hcloned using 2
    have hnew : (⟨.serving, c.next + 4⟩ : ConnectionThread).group = {c.next + 4} := rfl
    simp only [group, hphase, List.map_append, List.sum_append, List.map_singleton,
      List.sum_singleton, hnew, ← Multiset.singleton_add]
    abel
  · simp only [group, hphase, Multiset.singleton_add, zero_add] at h ⊢
    exact (h.destroy hrun).1

variable {t t' : ConnectionThread} {e : ConnectionEvent} {k : Nat}

/-- The threads of a pool and its constructor are in one group. -/
theorem responder_divided (h : c.process.Divided (u.group ::ₘ rest))
    (ht : u.connThreads[k]? = some t) (hstep : t.step e c = some (c', t')) :
    c'.process.Divided ({ u with connThreads := u.connThreads.set k t' }.group ::ₘ rest) := by
  obtain ⟨others, hsum, -, hset⟩ := exists_sum_map ConnectionThread.group ht
  rw [group, hsum, add_left_comm] at h
  rw [group, hset t', add_left_comm]
  exact t.step_divided h hstep

theorem Kept.responder (h : u.Kept numberOfCPUs) (ht : u.connThreads[k]? = some t) :
    { u with connThreads := u.connThreads.set k t' }.Kept numberOfCPUs := by
  refine ⟨fun hstarting => ?_, ?_⟩
  · rw [(h.starting hstarting).1] at ht
    cases ht
  · simpa using h.length

end ResponderPool

end Divided

namespace ServerProcess

variable {s s' : ServerProcess} {e : Event} {numberOfCPUs : Int32}

/-- What one event does. -/
inductive Moves (s : ServerProcess) : Event → ServerProcess → Prop
  | listener {i l l' e c} (hl : s.servers[i]? = some l) (hstep : l.step e s.common = some (c, l')) :
    Moves s (.listener i e) { s with common := c, servers := s.servers.set i l' }
  | connection {i k l t t' e c} (hl : s.servers[i]? = some l) (ht : l.connThreads[k]? = some t)
    (hstep : t.step e s.common = some (c, t')) :
    Moves s (.connection i k e) { s with
      common := c
      servers := s.servers.set i { l with connThreads := l.connThreads.set k t' } }
  | pool {i u u' e c} (hu : s.udpServers[i]? = some u)
    (hstep : u.step e s.common = some (c, u')) :
    Moves s (.pool i e) { s with common := c, udpServers := s.udpServers.set i u' }
  | responder {i k u t t' e c} (hu : s.udpServers[i]? = some u)
    (ht : u.connThreads[k]? = some t) (hstep : t.step e s.common = some (c, t')) :
    Moves s (.responder i k e) { s with
      common := c
      udpServers := s.udpServers.set i { u with connThreads := u.connThreads.set k t' } }

theorem step_spec (h : s.step e = some s') : Moves s e s' := by
  cases e <;>
    simp only [step, Option.bind_eq_bind, Option.bind_eq_some_iff, Option.some.injEq,
      Prod.exists] at h
  case listener i e =>
    obtain ⟨l, hl, c, l', hstep, rfl⟩ := h
    exact .listener hl hstep
  case connection i k e =>
    obtain ⟨l, hl, t, ht, c, t', hstep, rfl⟩ := h
    exact .connection hl ht hstep
  case pool i e =>
    obtain ⟨u, hu, c, u', hstep, rfl⟩ := h
    exact .pool hu hstep
  case responder i k e =>
    obtain ⟨u, hu, t, ht, c, t', hstep, rfl⟩ := h
    exact .responder hu ht hstep

/-- The descriptors are divided among their owners, and each UDP server is sound. -/
structure Kept (numberOfCPUs : Int32) (s : ServerProcess) : Prop where
  divided : s.common.process.Divided s.groups
  pools : ∀ u ∈ s.udpServers, u.Kept numberOfCPUs

/-- The groups of one listener, and the others. -/
theorem exists_servers {i : Nat} {l : ListenerThread} (hl : s.servers[i]? = some l) :
    ∃ rest, s.groups = l.groups + rest ∧ ∀ c l',
      { s with common := c, servers := s.servers.set i l' }.groups = l'.groups + rest := by
  obtain ⟨rest, hsum, -, hset⟩ := exists_sum_map ListenerThread.groups hl
  exact ⟨rest + (s.udpServers.map fun u => {u.group}).sum, by rw [groups, hsum, add_assoc],
    fun c l' => by rw [groups, hset l', add_assoc]⟩

theorem exists_udpServers {i : Nat} {u : ResponderPool} (hu : s.udpServers[i]? = some u) :
    ∃ rest, s.groups = u.group ::ₘ rest ∧ ∀ c u',
      { s with common := c, udpServers := s.udpServers.set i u' }.groups = u'.group ::ₘ rest := by
  obtain ⟨rest, hsum, -, hset⟩ :=
    exists_sum_map (fun u : ResponderPool => ({u.group} : Multiset _)) hu
  refine ⟨(s.servers.map ListenerThread.groups).sum + rest, ?_, fun c u' => ?_⟩
  · rw [groups, hsum, add_left_comm, Multiset.singleton_add]
  · rw [groups, hset u', add_left_comm, Multiset.singleton_add]

theorem Kept.step (h : s.Kept numberOfCPUs) (hstep : s.step e = some s') :
    s'.Kept numberOfCPUs := by
  obtain ⟨hdivided, hpools⟩ := h
  cases step_spec hstep with
  | listener hl hl' =>
    obtain ⟨rest, hgroups, hset⟩ := exists_servers hl
    refine ⟨?_, hpools⟩
    rw [hset]
    exact ListenerThread.step_divided (hgroups ▸ hdivided) hl'
  | connection hl ht ht' =>
    obtain ⟨rest, hgroups, hset⟩ := exists_servers hl
    refine ⟨?_, hpools⟩
    rw [hset]
    exact ListenerThread.connection_divided (hgroups ▸ hdivided) ht ht'
  | pool hu hu' =>
    have hkept := hpools _ (List.mem_of_getElem? hu)
    obtain ⟨rest, hgroups, hset⟩ := exists_udpServers hu
    refine ⟨?_, forall_mem_set hpools (hkept.step hu')⟩
    rw [hset]
    exact ResponderPool.step_divided hkept (hgroups ▸ hdivided) hu'
  | responder hu ht ht' =>
    have hkept := hpools _ (List.mem_of_getElem? hu)
    obtain ⟨rest, hgroups, hset⟩ := exists_udpServers hu
    refine ⟨?_, forall_mem_set hpools (hkept.responder ht)⟩
    rw [hset]
    exact ResponderPool.responder_divided (hgroups ▸ hdivided) ht ht'

theorem divided_start (p : Process) (ps : List (Protocol × UInt16))
    {m : Protocol × UInt16 → Multiset (Multiset Nat)} (hm : ∀ p, m p = {0})
    {rest : Multiset (Multiset Nat)} (h : p.Divided rest) : p.Divided ((ps.map m).sum + rest) := by
  induction ps with
  | nil => simpa using h
  | cons q ps ih =>
    rw [List.map_cons, List.sum_cons, hm, add_assoc, Multiset.singleton_add]
    exact divided_zero_cons.mpr ih

theorem kept_start (numberOfCPUs : Int32) (servers udpServers : List (Protocol × UInt16)) :
    (start numberOfCPUs servers udpServers).Kept numberOfCPUs := by
  refine ⟨?_, fun u hu => ?_⟩
  · rw [groups, start, List.map_map, List.map_map]
    refine divided_start {} servers (fun p => rfl) ?_
    rw [← add_zero (List.sum _)]
    exact divided_start {} udpServers (fun p => rfl) divided_init
  · obtain ⟨p, -, rfl⟩ := List.mem_map.mp hu
    exact ⟨fun _ => ⟨rfl, by simp [ResponderPool.init]⟩, (Nat.zero_add _).le⟩

end ServerProcess

/-! ## The threads and the semaphore -/

/-- The thread as the semaphore knows it. -/
def ConnectionPhase.abs : ConnectionPhase → ThreadPhase
  | .serving => .serving
  | .finished => .finished
  | .posted | .ended => .ended

/-- The step on the permits, where it is one. -/
def ConnectionEvent.abs : ConnectionEvent → List ThreadEvent
  | .finish => [.finish]
  | .post => [.post]
  | .destroy => []

/-- The call without its descriptor. -/
def ListenerCall.abs : ListenerCall → ListenerEvent
  | .listen _ => .listen
  | .listenThrows _ => .listenThrows
  | .wait => .wait
  | .accept _ => .accept
  | .acceptThrows => .acceptThrows
  | .cleanup => .cleanup

/-- The call without its descriptor, where threads depend on it. -/
def PoolCall.abs : PoolCall → List PoolEvent
  | .listenThrows _ => [.listenThrows]
  | .construct => [.construct]
  | .listen _ | .leave => []

/-- The server without its sockets. -/
def ListenerThread.abs (l : ListenerThread) : StatefulServer :=
  ⟨l.protocol, l.localPort, l.phase, l.connThreads.map (·.phase.abs)⟩

/-- The UDP server without its sockets. -/
def ResponderPool.abs (u : ResponderPool) : StatelessServer :=
  ⟨u.protocol, u.localPort, u.n, u.connThreads.map (·.phase.abs)⟩

/-- A component of a list that is seen through `f`. -/
theorem stepAt_map {β β' : Type*} {f : β → β'} {step : Nat → β' → Option (Nat × β')} {n n' i : Nat}
    {l : List β} {b b' : β} (hb : l[i]? = some b) (hstep : step n (f b) = some (n', f b')) :
    stepAt step i n (l.map f) = some (n', (l.set i b').map f) :=
  stepAt_eq_some_iff.mpr ⟨f b, f b', by rw [List.getElem?_map, hb]; rfl, hstep, List.map_set⟩

/-- One that looks as before. -/
theorem map_set_of_eq {β β' : Type*} {f : β → β'} {i : Nat} {l : List β} {b b' : β}
    (hb : l[i]? = some b) (heq : f b' = f b) : (l.set i b').map f = l.map f := by
  obtain ⟨hi, -⟩ := List.getElem?_eq_some_iff.mp hb
  refine List.ext_getElem? fun j => ?_
  rw [List.getElem?_map, List.getElem?_map]
  rcases eq_or_ne i j with rfl | hne
  · rw [hb, List.getElem?_set_self hi, Option.map_some, heq, Option.map_some]
  · rw [List.getElem?_set_ne hne]

section Abs

variable {c c' : Common} {t t' : ConnectionThread} {k n n' : Nat}

/-- A thread moves the semaphore as it does without its socket. -/
theorem ConnectionThread.step_abs {e : ConnectionEvent} (h : t.step e c = some (c', t')) :
    (e.abs = [] ∧ c'.threadLimit = c.threadLimit ∧ t'.phase.abs = t.phase.abs) ∨
    ∃ e', e.abs = [e'] ∧
      ThreadPhase.step e' c.threadLimit t.phase.abs = some (c'.threadLimit, t'.phase.abs) := by
  obtain ⟨phase, s⟩ := t
  cases e <;> cases phase <;> simp only [step, Option.some.injEq, Prod.mk.injEq, reduceCtorEq] at h
  case finish.serving =>
    obtain ⟨rfl, rfl⟩ := h
    exact .inr ⟨.finish, rfl, rfl⟩
  case post.finished =>
    obtain ⟨rfl, rfl⟩ := h
    exact .inr ⟨.post, rfl, rfl⟩
  case destroy.posted =>
    obtain ⟨-, hlimit, rfl⟩ := Common.performed h
    exact .inl ⟨rfl, hlimit, rfl⟩

theorem ListenerThread.step_abs {e : ListenerCall} {l l' : ListenerThread}
    (h : l.step e c = some (c', l')) :
    StatefulServer.listenerThreadFunc e.abs c.threadLimit l.abs =
      some (c'.threadLimit, l'.abs) := by
  obtain ⟨protocol, localPort, phase, sListener, threads⟩ := l
  cases e <;> cases phase <;> simp only [step, reduceCtorEq] at h
  case listen.starting fd =>
    obtain ⟨-, hlimit, rfl⟩ := Common.performed h
    exact hlimit ▸ rfl
  case listenThrows.starting socket =>
    obtain ⟨-, hlimit, rfl⟩ := Common.performed h
    exact hlimit ▸ rfl
  case wait.waiting =>
    cases hlimit : c.threadLimit with
    | zero =>
      rw [hlimit] at h
      cases h
    | succ n =>
      rw [hlimit] at h
      obtain ⟨rfl, rfl⟩ := Prod.mk.inj (Option.some.inj h)
      rfl
  case accept.accepting fd =>
    obtain ⟨-, hlimit, rfl⟩ := Common.performed h
    simp [StatefulServer.listenerThreadFunc, ListenerCall.abs, ListenerThread.abs, hlimit,
      ConnectionPhase.abs]
  case acceptThrows.accepting =>
    obtain ⟨-, hlimit, rfl⟩ := Common.performed h
    exact hlimit ▸ rfl
  case cleanup.cleaning it =>
    have hget : (threads.map (·.phase.abs))[it]? = threads[it]?.map (·.phase.abs) :=
      List.getElem?_map
    simp only [StatefulServer.listenerThreadFunc, ListenerCall.abs, ListenerThread.abs, hget]
    cases hit : threads[it]? with
    | none =>
      simp only [hit, Option.some.injEq, Prod.mk.injEq] at h
      obtain ⟨rfl, rfl⟩ := h
      rfl
    | some t =>
      obtain ⟨phase, s⟩ := t
      cases phase <;> simp only [hit, Option.some.injEq, Prod.mk.injEq, reduceCtorEq] at h
      case serving =>
        obtain ⟨rfl, rfl⟩ := h
        rfl
      case ended =>
        obtain ⟨rfl, rfl⟩ := h
        simp [ConnectionPhase.abs, List.eraseIdx_map]

theorem ResponderPool.step_abs {numberOfCPUs : Int32} {e : PoolCall} {u u' : ResponderPool}
    (hkept : u.Kept numberOfCPUs) (h : u.step e c = some (c', u')) :
    c'.threadLimit = c.threadLimit ∧ ((e.abs = [] ∧ u'.abs = u.abs) ∨
    ∃ e', e.abs = [e'] ∧
      StatelessServer.constructor e' c.threadLimit u.abs = some (c.threadLimit, u'.abs)) := by
  obtain ⟨hlimit, hcases⟩ := step_cases h
  refine ⟨hlimit, ?_⟩
  rcases hcases with ⟨fd, rfl, hphase, -, rfl⟩ | ⟨socket, rfl, hphase, -, rfl⟩ |
    ⟨sListener, n, rfl, hphase, hn, -, rfl⟩ | ⟨sListener, rfl, hphase, hn, -, rfl⟩
  · exact .inl ⟨rfl, rfl⟩
  · obtain ⟨hthreads, hpos⟩ := hkept.starting hphase
    obtain ⟨n, hn⟩ := Nat.exists_eq_succ_of_ne_zero hpos.ne'
    refine .inr ⟨.listenThrows, rfl, ?_⟩
    simp [StatelessServer.constructor, abs, hthreads, hn]
  · refine .inr ⟨.construct, rfl, ?_⟩
    simp [StatelessServer.constructor, abs, hn, ConnectionPhase.abs]
  · exact .inl ⟨rfl, rfl⟩

theorem ListenerThread.connection_abs {e : ThreadEvent} {l : ListenerThread}
    (ht : l.connThreads[k]? = some t)
    (hstep : ThreadPhase.step e n t.phase.abs = some (n', t'.phase.abs)) :
    StatefulServer.connectionThread k e n l.abs =
      some (n', { l with connThreads := l.connThreads.set k t' }.abs) := by
  have hat : stepAt (ThreadPhase.step e) k n (l.connThreads.map (·.phase.abs)) =
      some (n', (l.connThreads.set k t').map (·.phase.abs)) := stepAt_map ht hstep
  rw [StatefulServer.connectionThread, abs, hat]
  rfl

theorem ResponderPool.responder_abs {e : ThreadEvent} {u : ResponderPool}
    (ht : u.connThreads[k]? = some t)
    (hstep : ThreadPhase.step e n t.phase.abs = some (n', t'.phase.abs)) :
    StatelessServer.connectionThread k e n u.abs =
      some (n', { u with connThreads := u.connThreads.set k t' }.abs) := by
  have hat : stepAt (ThreadPhase.step e) k n (u.connThreads.map (·.phase.abs)) =
      some (n', (u.connThreads.set k t').map (·.phase.abs)) := stepAt_map ht hstep
  rw [StatelessServer.connectionThread, abs, hat]
  rfl

/-- The last step of a thread is none of its server's. -/
theorem ListenerThread.abs_set {l : ListenerThread} (ht : l.connThreads[k]? = some t)
    (hphase : t'.phase.abs = t.phase.abs) :
    { l with connThreads := l.connThreads.set k t' }.abs = l.abs :=
  congrArg (StatefulServer.mk _ _ _) (map_set_of_eq ht hphase)

theorem ResponderPool.abs_set {u : ResponderPool} (ht : u.connThreads[k]? = some t)
    (hphase : t'.phase.abs = t.phase.abs) :
    { u with connThreads := u.connThreads.set k t' }.abs = u.abs :=
  congrArg (StatelessServer.mk _ _ _) (map_set_of_eq ht hphase)

end Abs

namespace ServerProcess

/-- The process without its sockets. -/
def abs (s : ServerProcess) : Servers :=
  ⟨s.common.threadLimit, s.servers.map ListenerThread.abs, s.udpServers.map ResponderPool.abs⟩

/-- The step on the permits, where it is one. -/
def Event.abs : Event → List Servers.Event
  | .listener i e => [.listener i e.abs]
  | .connection i k e => e.abs.map (.connection i k)
  | .pool i e => e.abs.map (.pool i)
  | .responder i k e => e.abs.map (.responder i k)

variable {s s' : ServerProcess} {e : Event} {numberOfCPUs : Int32}

/-- An event of the process is the same one without the sockets, or none. -/
theorem step_abs (hkept : s.Kept numberOfCPUs) (h : s.step e = some s') :
    e.abs.foldlM Servers.step s.abs = some s'.abs := by
  cases step_spec h with
  | listener hl hstep =>
    simp [Event.abs, Servers.step, Servers.onServers, abs,
      stepAt_map hl (ListenerThread.step_abs hstep)]
  | connection hl ht hstep =>
    rcases ConnectionThread.step_abs hstep with ⟨hnone, hlimit, hphase⟩ | ⟨e', hsome, hstep'⟩
    · simp [Event.abs, hnone, abs, map_set_of_eq hl (ListenerThread.abs_set ht hphase), hlimit]
    · simp [Event.abs, hsome, Servers.step, Servers.onServers, abs,
        stepAt_map hl (ListenerThread.connection_abs ht hstep')]
  | pool hu hstep =>
    obtain ⟨hlimit, ⟨hnone, habs⟩ | ⟨e', hsome, hstep'⟩⟩ :=
      ResponderPool.step_abs (hkept.pools _ (List.mem_of_getElem? hu)) hstep
    · simp [Event.abs, hnone, abs, map_set_of_eq hu habs, hlimit]
    · simp [Event.abs, hsome, Servers.step, Servers.onUdpServers, abs, stepAt_map hu hstep',
        hlimit]
  | responder hu ht hstep =>
    rcases ConnectionThread.step_abs hstep with ⟨hnone, hlimit, hphase⟩ | ⟨e', hsome, hstep'⟩
    · simp [Event.abs, hnone, abs, map_set_of_eq hu (ResponderPool.abs_set ht hphase), hlimit]
    · simp [Event.abs, hsome, Servers.step, Servers.onUdpServers, abs,
        stepAt_map hu (ResponderPool.responder_abs ht hstep')]

/-! ## Whole runs -/

variable {servers udpServers : List (Protocol × UInt16)} {events : List Event}

theorem run_kept (hrun : events.foldlM step (start numberOfCPUs servers udpServers) = some s) :
    s.Kept numberOfCPUs :=
  foldlM_invariant (fun _ _ _ hstep h => h.step hstep) events hrun (kept_start ..)

/-- The process without its sockets runs as one of `Servers`. -/
theorem run_abs (hrun : events.foldlM step (start numberOfCPUs servers udpServers) = some s) :
    (events.flatMap Event.abs).foldlM Servers.step
      (Servers.start numberOfCPUs.toInt.toNat servers udpServers) = some s.abs := by
  have hstart : (start numberOfCPUs servers udpServers).abs =
      Servers.start numberOfCPUs.toInt.toNat servers udpServers := by
    simp only [abs, start, Servers.start, List.map_map]
    rfl
  rw [← hstart]
  have hkept : ∀ s e s', step s e = some s' → s.Kept numberOfCPUs → s'.Kept numberOfCPUs :=
    fun _ _ _ hstep h => h.step hstep
  exact foldlM_simulation hkept (fun _ _ _ => step_abs) events hrun (kept_start ..)

theorem countP_sum {α β : Type*} (p : α → Prop) [DecidablePred p] (m : β → Multiset α)
    (l : List β) : ((l.map m).sum).countP p = (l.map fun b => (m b).countP p).sum := by
  induction l with
  | nil => rfl
  | cons b l ih => rw [List.map_cons, List.sum_cons, Multiset.countP_add, ih, List.map_cons,
      List.sum_cons]

theorem countP_singleton {g : Multiset Nat} :
    ({g} : Multiset (Multiset Nat)).countP (· ≠ 0) = if g = 0 then 0 else 1 := by
  rw [← Multiset.cons_zero]
  split_ifs with h
  · rw [Multiset.countP_cons_of_neg _ (by simpa using h), Multiset.countP_zero]
  · rw [Multiset.countP_cons_of_pos _ (by simpa using h), Multiset.countP_zero]

/-- The descriptors in use, by their users. -/
theorem countP_groups (s : ServerProcess) :
    s.groups.countP (· ≠ 0) = s.listening + s.connections + s.pools := by
  have hthread : ∀ t : ConnectionThread,
      ({t.group} : Multiset (Multiset Nat)).countP (· ≠ 0) = t.opened := by
    intro t
    rw [countP_singleton, ConnectionThread.opened, ConnectionThread.group]
    by_cases hphase : t.phase = .ended <;> simp [hphase]
  have hlistener : ∀ l : ListenerThread, l.groups.countP (· ≠ 0) =
      l.listening.toNat + (l.connThreads.map ConnectionThread.opened).sum := by
    intro l
    rw [ListenerThread.groups, ← Multiset.singleton_add, Multiset.countP_add, countP_singleton,
      countP_sum]
    simp only [hthread]
    cases l.listening <;> simp
  rw [groups, Multiset.countP_add, countP_sum, countP_sum]
  simp only [hlistener, countP_singleton, List.sum_map_add]
  rfl

/-- A connection thread has its permit, or has just given it back. -/
theorem connections_eq (s : ServerProcess) : s.connections = s.abs.live + s.posted := by
  have hthread : ConnectionThread.opened = fun t => t.phase.abs.live + t.posted := by
    funext ⟨phase, s⟩
    cases phase <;> rfl
  have hlive : s.abs.live =
      (s.servers.map fun l => (l.connThreads.map fun t => t.phase.abs.live).sum).sum := by
    simp only [Servers.live, abs, List.map_map]
    congr 1
    refine List.map_congr_left fun l _ => ?_
    simp only [Function.comp_apply, StatefulServer.live, ListenerThread.abs, List.map_map]
    rfl
  rw [hlive, connections, hthread]
  simp only [List.sum_map_add]
  rfl

theorem countP_unpaid (events : List Event) :
    (events.flatMap Event.abs).countP Servers.Event.unpaid = events.countP Event.unpaid := by
  induction events with
  | nil => rfl
  | cons e events ih =>
    rw [List.flatMap_cons, List.countP_append, ih, List.countP_cons, add_comm]
    congr 1
    rcases e with ⟨i, e⟩ | ⟨i, k, e⟩ | ⟨i, e⟩ | ⟨i, k, e⟩ <;> cases e <;> rfl

/-- A descriptor is open as long as an object has it. -/
theorem isOpen_iff (h : s.common.process.Counted) {fd : Int} (hfd : 0 ≤ fd) :
    s.common.process.IsOpen fd ↔ ∃ i, s.common.process.handle i = some fd := by
  have hclosed := h.closed fd hfd
  have hlive : 0 < s.common.process.live fd ↔ ∃ i, s.common.process.handle i = some fd := by
    rw [live, List.count_pos_iff, List.mem_iff_getElem?]
    exact exists_congr fun i => handle_eq_some.symm
  rw [← hlive]
  show s.common.process.closed.count fd < s.common.process.opened.count fd ↔ _
  split_ifs at hclosed with hpos
  · exact iff_of_true (by omega) hpos
  · exact iff_of_false (by omega) hpos

/-- A server with two connections, of which the first one is at its end. -/
def smallRun : List Event :=
  [.listener 0 (.listen 3), .pool 0 (.listen 4), .pool 0 .construct, .pool 0 .construct,
    .listener 0 .wait, .listener 0 (.accept 5), .listener 0 .cleanup, .pool 0 .construct,
    .pool 0 .construct, .pool 0 .leave, .connection 0 0 .finish, .connection 0 0 .post,
    .listener 0 .cleanup, .listener 0 .wait, .listener 0 (.accept 6), .connection 0 0 .destroy]

theorem exists_smallRun : ∃ s, smallRun.foldlM step (start 4 [(.tcp, 80)] [(.udp, 80)]) = some s ∧
    s.common.process.opened = [3, 4, 5, 6] ∧ s.common.process.closed = [5] := by
  have hrun : (smallRun.foldlM step (start 4 [(.tcp, 80)] [(.udp, 80)])).map
      (fun s => (s.common.process.opened, s.common.process.closed)) =
      some ([3, 4, 5, 6], [5]) := by decide +kernel
  obtain ⟨s, hs, heq⟩ := Option.map_eq_some_iff.mp hrun
  exact ⟨s, hs, Prod.mk.inj heq⟩

/-- Each open descriptor has one owner, which shares no object with another, is counted by its
objects and closed behind the last of them. -/
theorem run_divided (hrun : events.foldlM step (start numberOfCPUs servers udpServers) = some s) :
    s.common.process.Counted ∧ s.groups.join.Nodup ∧
    (∀ g ∈ s.groups, ∀ i ∈ g, ∃ fd, 0 ≤ fd ∧ s.common.process.IsOpen fd ∧
      (s.common.process.fdRefs fd).toNat = g.card ∧
      ∀ j, j ∈ g ↔ s.common.process.handle j = some fd) ∧
    ∀ fd, 0 ≤ fd → s.common.process.IsOpen fd →
      ∃ g ∈ s.groups, ∃ i ∈ g, s.common.process.handle i = some fd := by
  obtain ⟨hdivided, -⟩ := run_kept hrun
  refine ⟨hdivided.counted, hdivided.groups.nodup, fun g hg i hi => ?_, fun fd hfd hopen => ?_⟩
  · obtain ⟨fd, hheld⟩ := hdivided.groups.mem_join hg hi
    obtain ⟨hhandle, hfd⟩ := held_eq_some.mp hheld
    refine ⟨fd, hfd, (isOpen_iff hdivided.counted hfd).mpr ⟨i, hhandle⟩, ?_, fun j => ?_⟩
    · rw [hdivided.counted.refs fd hfd, hdivided.card_eq hg hi hhandle]
    · rw [hdivided.groups.same g hg i hi, hheld, held_eq_some]
      exact and_iff_left hfd
  · obtain ⟨i, hhandle⟩ := (isOpen_iff hdivided.counted hfd).mp hopen
    obtain ⟨g, hg, hall⟩ := hdivided.groups.exists_group (held_eq_some.mpr ⟨hhandle, hfd⟩)
    exact ⟨g, hg, i, (hall i).mpr (held_eq_some.mpr ⟨hhandle, hfd⟩), hhandle⟩

theorem run_divided_small :
    ∃ s, smallRun.foldlM step (start 4 [(.tcp, 80)] [(.udp, 80)]) = some s ∧
      s.common.process.Counted ∧ s.groups.join.Nodup ∧
      (∀ g ∈ s.groups, ∀ i ∈ g, ∃ fd, 0 ≤ fd ∧ s.common.process.IsOpen fd ∧
        (s.common.process.fdRefs fd).toNat = g.card ∧
        ∀ j, j ∈ g ↔ s.common.process.handle j = some fd) ∧
      ∀ fd, 0 ≤ fd → s.common.process.IsOpen fd →
        ∃ g ∈ s.groups, ∃ i ∈ g, s.common.process.handle i = some fd := by
  obtain ⟨s, hrun, -⟩ := exists_smallRun
  exact ⟨s, hrun, run_divided hrun⟩

/-- The descriptors that are open, and how many of them the semaphore lets connections have. -/
theorem run_bounded (hrun : events.foldlM step (start numberOfCPUs servers udpServers) = some s)
    {fds : List Int} (hnodup : fds.Nodup)
    (hfds : ∀ fd, fd ∈ fds ↔ 0 ≤ fd ∧ s.common.process.IsOpen fd) :
    fds.length = s.listening + s.connections + s.pools ∧
      s.connections + s.common.threadLimit ≤ 1000 + s.posted + events.countP Event.unpaid := by
  obtain ⟨hdivided, -⟩ := run_kept hrun
  refine ⟨?_, ?_⟩
  · rw [← countP_groups]
    refine hdivided.groups.length_eq hnodup fun fd => ?_
    rw [hfds]
    constructor
    · rintro ⟨hfd, hopen⟩
      obtain ⟨i, hhandle⟩ := (isOpen_iff hdivided.counted hfd).mp hopen
      exact ⟨i, held_eq_some.mpr ⟨hhandle, hfd⟩⟩
    · rintro ⟨i, hheld⟩
      obtain ⟨hhandle, hfd⟩ := held_eq_some.mp hheld
      exact ⟨hfd, (isOpen_iff hdivided.counted hfd).mpr ⟨i, hhandle⟩⟩
  · have haccount := Servers.account_run (t := 0) (run_abs hrun)
    rw [Servers.account_zero, Nat.cast_zero, Servers.sum_weight, countP_unpaid] at haccount
    have hconnections := connections_eq s
    have hlimit : s.abs.threadLimit = s.common.threadLimit := rfl
    omega

theorem run_bounded_small :
    ∃ s, smallRun.foldlM step (start 4 [(.tcp, 80)] [(.udp, 80)]) = some s ∧
      [(3 : Int), 4, 6].length = s.listening + s.connections + s.pools ∧
        s.connections + s.common.threadLimit ≤
          1000 + s.posted + smallRun.countP Event.unpaid := by
  obtain ⟨s, hrun, hopened, hclosed⟩ := exists_smallRun
  refine ⟨s, hrun, run_bounded hrun (by decide) fun fd => ?_⟩
  show fd ∈ [3, 4, 6] ↔ 0 ≤ fd ∧ s.common.process.closed.count fd < s.common.process.opened.count fd
  rw [hopened, hclosed]
  simp only [List.count_cons, List.count_nil, List.mem_cons, List.not_mem_nil, beq_iff_eq, or_false]
  split_ifs <;> omega

end ServerProcess

end NetBabbler
