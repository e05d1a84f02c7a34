import NetBabbler.ServerProcess

/-!
# Listening

`cSocket::listen` and the families of its socket and of the address that the socket is bound
to. Without an option that is one socket for IPv4 and IPv6, and with `-4` one for IPv4. With
`-6` the socket is one for IPv4 all the same, and such a socket takes no option of IPv6.

`listen_spec` : a call makes a bound socket, or throws and leaves no descriptor behind.
`exists_listening_iff` : servers come to listen if and only if `-6` is not given.
-/

namespace NetBabbler

open Interleaving Process

/-! ## `cSocket::listen` -/

/-- What the system calls of `listen` return : a descriptor, or `errno` where they fail. -/
structure ListenCalls where
  socket : Except Nat Nat
  reuseAddr : Option Nat
  v6Only : Option Nat
  bind : Option Nat
  listen : Option Nat

namespace Host

/-- The family of the socket. -/
def domain (prop : Properties) : Nat :=
  if prop.family = AF_UNSPEC then AF_INET6 else AF_INET

/-- The family of the address. -/
def addressFamily (prop : Properties) : Nat :=
  if prop.family = AF_INET then AF_INET else AF_INET6

/-- The first call on the socket that fails. -/
def throws (prop : Properties) (calls : ListenCalls) : Option Nat :=
  calls.reuseAddr <|> (if prop.family = AF_INET6 then calls.v6Only else none) <|>
    calls.bind <|> if prop.isConnectionless then none else calls.listen

/-- The result is an object, or what is thrown. -/
def listen (prop : Properties) (port : UInt16) (calls : ListenCalls) (h : Host) :
    Option (Except SocketError Nat × Host) := do
  let s := h.process.handles.length
  match calls.socket with
  | .error err =>
    let h ← h.perform (socketOps s (-1))
    some (.error (.errno err), h)
  | .ok fd =>
    let h ← h.perform (socketOps s fd)
    match throws prop calls with
    | some err =>
      let h ← h.perform [.destroy s]
      some (.error (.errno err), h)
    | none =>
      let h ← h.perform (passOps s)
      some (.ok (s + 2), h.setEndpoint fd
        { kind := ⟨domain prop, prop.type, prop.protocol⟩
          name := some (addressFamily prop, port) })

/-- A socket for IPv4 takes no option of IPv6, and a socket no address of another family. -/
structure Respects (prop : Properties) (calls : ListenCalls) : Prop where
  v6Only : domain prop = AF_INET → calls.v6Only ≠ none
  bind : addressFamily prop ≠ domain prop → calls.bind ≠ none

variable {prop : Properties} {port : UInt16} {calls : ListenCalls} {h h' : Host}
  {r : Except SocketError Nat}

theorem perform_eq_some {ops : List Op} : h.perform ops = some h' ↔
    ops.foldlM Process.step h.process = some h'.process ∧ h'.endpoints = h.endpoints := by
  rw [perform, Option.map_eq_some_iff]
  constructor
  · rintro ⟨p, hp, rfl⟩
    exact ⟨hp, rfl⟩
  · rintro ⟨hp, hendpoints⟩
    exact ⟨_, hp, by rw [← hendpoints]⟩

/-- A call makes a socket that is bound, or it throws, in the way of the events of a server. -/
theorem listen_spec (hrun : listen prop port calls h = some (r, h')) :
    (∃ fd : Nat, calls.socket = .ok fd ∧ throws prop calls = none ∧
      r = .ok (h.process.handles.length + 2) ∧
      (listenOps h.process.handles.length fd).foldlM Process.step h.process = some h'.process ∧
      h'.endpoints fd = some { kind := ⟨domain prop, prop.type, prop.protocol⟩,
                               name := some (addressFamily prop, port) }) ∨
    ∃ socket err, r = .error (.errno err) ∧
      (listenThrowsOps h.process.handles.length socket).foldlM Process.step h.process =
        some h'.process ∧ h'.endpoints = h.endpoints := by
  unfold listen at hrun
  cases hsocket : calls.socket with
  | error err =>
    simp only [hsocket, Option.bind_eq_bind, Option.bind_eq_some_iff, Option.some.injEq,
      Prod.mk.injEq] at hrun
    obtain ⟨h₁, hperform, rfl, rfl⟩ := hrun
    obtain ⟨hops, hendpoints⟩ := perform_eq_some.mp hperform
    exact .inr ⟨none, err, rfl, hops, hendpoints⟩
  | ok fd =>
    simp only [hsocket, Option.bind_eq_bind, Option.bind_eq_some_iff] at hrun
    obtain ⟨h₁, hperform, hrest⟩ := hrun
    obtain ⟨hops, hendpoints⟩ := perform_eq_some.mp hperform
    cases hthrows : throws prop calls with
    | some err =>
      simp only [hthrows, Option.bind_eq_some_iff, Option.some.injEq, Prod.mk.injEq] at hrest
      obtain ⟨h₂, hperform₂, rfl, rfl⟩ := hrest
      obtain ⟨hops₂, hendpoints₂⟩ := perform_eq_some.mp hperform₂
      refine .inr ⟨some fd, err, rfl, ?_, hendpoints₂.trans hendpoints⟩
      rw [listenThrowsOps, List.foldlM_append, hops]
      exact hops₂
    | none =>
      simp only [hthrows, Option.bind_eq_some_iff, Option.some.injEq, Prod.mk.injEq] at hrest
      obtain ⟨h₂, hperform₂, rfl, rfl⟩ := hrest
      obtain ⟨hops₂, -⟩ := perform_eq_some.mp hperform₂
      refine .inl ⟨fd, rfl, rfl, rfl, ?_, Function.update_self ..⟩
      rw [listenOps, List.foldlM_append, hops]
      exact hops₂

/-- With `-6` one of the calls fails. -/
theorem throws_ne_none (hrespects : Respects prop calls) (hfamily : prop.family = AF_INET6) :
    throws prop calls ≠ none := by
  have hdomain : domain prop = AF_INET := by
    rw [domain, hfamily]
    decide
  have hv6Only := hrespects.v6Only hdomain
  obtain ⟨err, herr⟩ := Option.ne_none_iff_exists'.mp hv6Only
  rw [throws, if_pos hfamily, herr]
  cases calls.reuseAddr <;> simp

end Host

/-! ## The servers -/

namespace ServerProcess

/-- In a call of `listen` that makes a socket, `socket` returns `fd`. -/
def Listens (family : Nat) (s : ServerProcess) (protocol : Protocol) (port : UInt16) (fd : Nat) :
    Prop :=
  ∃ calls endpoints result h', Host.Respects (protocol.properties family) calls ∧
    calls.socket = .ok fd ∧ Host.listen (protocol.properties family) port calls
      ⟨s.common.process, endpoints⟩ = some (.ok result, h')

/-- A listener comes to listen by a call of `listen`. -/
def Answered (family : Nat) (s : ServerProcess) : Event → Prop
  | .listener i (.listen fd) =>
    ∃ l, s.servers[i]? = some l ∧ s.Listens family l.protocol l.localPort fd
  | .pool i (.listen fd) =>
    ∃ u, s.udpServers[i]? = some u ∧ s.Listens family u.protocol u.localPort fd
  | _ => True

/-- All listeners do, from `s` on. -/
def AnsweredRun (family : Nat) (s : ServerProcess) (events : List Event) : Prop :=
  ∀ pre e s₁, pre ++ [e] <+: events → pre.foldlM step s = some s₁ → s₁.Answered family e

/-- Nothing listens. -/
structure Idle (s : ServerProcess) : Prop where
  servers : ∀ l ∈ s.servers, l.listening = false ∧ l.connThreads = []
  udpServers : ∀ u ∈ s.udpServers,
    (u.phase = .starting ∨ u.phase = .constructed) ∧ u.connThreads = []

/-- A `cSocket::listen` returns. -/
def Event.isListen : Event → Bool
  | .listener _ (.listen _) | .pool _ (.listen _) => true
  | _ => false

variable {s s' : ServerProcess} {e : Event} {events : List Event} {family : Nat}

theorem not_listens (s : ServerProcess) (protocol : Protocol) (port : UInt16) (fd : Nat) :
    ¬s.Listens AF_INET6 protocol port fd := by
  rintro ⟨calls, endpoints, result, h', hrespects, -, hrun⟩
  rcases Host.listen_spec hrun with ⟨fd, -, hnone, -⟩ | ⟨socket, err, heq, -⟩
  · exact Host.throws_ne_none hrespects (protocol.family_properties AF_INET6) hnone
  · cases heq

theorem Answered.not_isListen (h : s.Answered AF_INET6 e) : e.isListen = false := by
  rcases e with ⟨i, e⟩ | ⟨i, k, e⟩ | ⟨i, e⟩ | ⟨i, k, e⟩
  · cases e with
    | listen fd =>
      obtain ⟨l, -, hlistens⟩ := h
      exact absurd hlistens (not_listens s _ _ _)
    | _ => rfl
  · rfl
  · cases e with
    | listen fd =>
      obtain ⟨u, -, hlistens⟩ := h
      exact absurd hlistens (not_listens s _ _ _)
    | _ => rfl
  · rfl

theorem listener_idle {c c' : Common} {l l' : ListenerThread} {call : ListenerCall}
    (hl : l.listening = false) (hstep : l.step call c = some (c', l'))
    {i : Nat} (hcall : (Event.listener i call).isListen = false) :
    l'.listening = false ∧ l'.connThreads = l.connThreads := by
  obtain ⟨protocol, localPort, phase, sListener, threads⟩ := l
  cases phase with
  | starting =>
    cases call with
    | listen fd => cases hcall
    | listenThrows socket =>
      obtain ⟨-, -, rfl⟩ := Common.performed hstep
      exact ⟨rfl, rfl⟩
    | _ => cases hstep
  | terminated => cases call <;> cases hstep
  | _ => cases hl

/-- Without a call of `listen` that makes a socket nothing ever listens. -/
theorem Idle.step (h : s.Idle) (hstep : s.step e = some s') (he : e.isListen = false) :
    s'.Idle := by
  obtain ⟨hservers, hudp⟩ := h
  cases step_spec hstep with
  | @listener i l l' e c hl hl' =>
    obtain ⟨hlistening, hthreads⟩ := hservers l (List.mem_of_getElem? hl)
    obtain ⟨hlistening', hthreads'⟩ := listener_idle hlistening hl' he
    exact ⟨forall_mem_set hservers ⟨hlistening', hthreads'.trans hthreads⟩, hudp⟩
  | connection hl ht ht' =>
    rw [(hservers _ (List.mem_of_getElem? hl)).2] at ht
    cases ht
  | @pool i u u' e c hu hu' =>
    obtain ⟨hphase, hthreads⟩ := hudp u (List.mem_of_getElem? hu)
    refine ⟨hservers, forall_mem_set hudp ?_⟩
    rcases (ResponderPool.step_cases hu').2 with ⟨fd, rfl, -⟩ | ⟨socket, rfl, -, -, rfl⟩ |
      ⟨sListener, n, -, hconstructing, -⟩ | ⟨sListener, -, hconstructing, -⟩
    · cases he
    · exact ⟨.inr rfl, hthreads⟩
    · simp [hconstructing] at hphase
    · simp [hconstructing] at hphase
  | responder hu ht ht' =>
    rw [(hudp _ (List.mem_of_getElem? hu)).2] at ht
    cases ht

theorem idle_start (numberOfCPUs : Int32) (servers udpServers : List (Protocol × UInt16)) :
    (start numberOfCPUs servers udpServers).Idle := by
  refine ⟨fun l hl => ?_, fun u hu => ?_⟩
  · obtain ⟨p, -, rfl⟩ := List.mem_map.mp hl
    exact ⟨rfl, rfl⟩
  · obtain ⟨p, -, rfl⟩ := List.mem_map.mp hu
    exact ⟨.inl rfl, rfl⟩

theorem Idle.unused (h : s.Idle) : s.listening + s.connections + s.pools = 0 := by
  have hlistening : s.listening = 0 := List.sum_eq_zero fun n hn => by
    obtain ⟨l, hl, rfl⟩ := List.mem_map.mp hn
    rw [(h.servers l hl).1, Bool.toNat_false]
  have hconnections : s.connections = 0 := List.sum_eq_zero fun n hn => by
    obtain ⟨l, hl, rfl⟩ := List.mem_map.mp hn
    rw [(h.servers l hl).2, List.map_nil, List.sum_nil]
  have hpools : s.pools = 0 := List.sum_eq_zero fun n hn => by
    obtain ⟨u, hu, rfl⟩ := List.mem_map.mp hn
    obtain ⟨hphase, hthreads⟩ := h.udpServers u hu
    have hgroup : u.group = 0 := by
      rw [ResponderPool.group, hthreads]
      rcases hphase with hphase | hphase <;> rw [hphase] <;> rfl
    rw [if_pos hgroup]
  omega

/-- The calls of `listen` where nothing that can work fails. -/
def smoothCalls (fd : Nat) : ListenCalls :=
  ⟨.ok fd, none, some 92, none, none⟩

theorem respects_smoothCalls (fd : Nat) {prop : Properties} (h : prop.family ≠ AF_INET6)
    (hfamily : prop.family = AF_UNSPEC ∨ prop.family = AF_INET) :
    Host.Respects prop (smoothCalls fd) ∧ Host.throws prop (smoothCalls fd) = none := by
  have hthrows : Host.throws prop (smoothCalls fd) = none := by
    rw [Host.throws, if_neg h]
    cases prop.isConnectionless <;> rfl
  refine ⟨⟨fun _ => nofun, fun hne => absurd ?_ hne⟩, hthrows⟩
  rw [Host.addressFamily, Host.domain]
  rcases hfamily with hfamily | hfamily <;> rw [hfamily] <;> decide

theorem exists_listen (port : UInt16) {prop : Properties}
    (hthrows : Host.throws prop (smoothCalls 3) = none) :
    ∃ h', Host.listen prop port (smoothCalls 3) ⟨{}, fun _ => none⟩ = some (.ok 2, h') := by
  refine Exists.intro ?_ ?_
  rotate_left
  · unfold Host.listen
    rw [hthrows]
    rfl

/-- With `-6` nothing listens in any run. -/
theorem AnsweredRun.idle {numberOfCPUs : Int32} {servers udpServers : List (Protocol × UInt16)}
    (hrun : events.foldlM step (start numberOfCPUs servers udpServers) = some s)
    (hanswered : AnsweredRun AF_INET6 (start numberOfCPUs servers udpServers) events) :
    s.Idle := by
  refine foldlM_invariant_of (P := fun e => e.isListen = false)
    (fun _ _ _ hstep he h => h.step hstep he) events (fun e he => ?_) hrun (idle_start ..)
  obtain ⟨pre, post, rfl⟩ := List.append_of_mem he
  rw [List.foldlM_append] at hrun
  obtain ⟨s₁, hpre, -⟩ := Option.bind_eq_some_iff.mp hrun
  exact (hanswered pre e s₁ ⟨post, by simp⟩ hpre).not_isListen

/-- Servers come to listen if and only if `-6` is not given. -/
theorem exists_listening_iff {ipv4Only ipv6Only : Bool}
    (hfamily : Properties.toFamily (!ipv6Only) (!ipv4Only) = some family) (numberOfCPUs : Int32)
    {servers : List (Protocol × UInt16)} (hservers : servers ≠ [])
    (udpServers : List (Protocol × UInt16)) :
    (∃ events s, events.foldlM step (start numberOfCPUs servers udpServers) = some s ∧
      AnsweredRun family (start numberOfCPUs servers udpServers) events ∧
      0 < s.listening + s.connections + s.pools) ↔ ipv6Only = false := by
  constructor
  · rintro ⟨events, s, hrun, hanswered, hpos⟩
    by_contra honly
    have hAF : family = AF_INET6 := by
      rw [Bool.not_eq_false] at honly
      subst honly
      cases ipv4Only with
      | true => cases hfamily
      | false => exact (Option.some.inj hfamily).symm
    subst hAF
    rw [(hanswered.idle hrun).unused] at hpos
    exact absurd hpos (Nat.lt_irrefl 0)
  · rintro rfl
    have hcases : family = AF_UNSPEC ∨ family = AF_INET := by
      cases ipv4Only with
      | true => exact .inr (Option.some.inj hfamily).symm
      | false => exact .inl (Option.some.inj hfamily).symm
    obtain ⟨p, ps, rfl⟩ := List.exists_cons_of_ne_nil hservers
    obtain ⟨s, hrun, hlistening⟩ : ∃ s, [Event.listener 0 (.listen 3)].foldlM step
        (start numberOfCPUs (p :: ps) udpServers) = some s ∧ 0 < s.listening :=
      ⟨_, rfl, by simp [start, listening, ListenerThread.listening]⟩
    refine ⟨_, s, hrun, fun pre e s₁ hpre hs₁ => ?_, by omega⟩
    obtain ⟨rfl, rfl⟩ : pre = [] ∧ e = .listener 0 (.listen 3) := by
      have hlen := hpre.length_le
      have hnil : pre = [] := List.length_eq_zero_iff.mp (by simpa using hlen)
      subst hnil
      exact ⟨rfl, by simpa using hpre⟩
    obtain rfl := Option.some.inj hs₁
    have hprop : (p.1.properties family).family = AF_UNSPEC ∨
        (p.1.properties family).family = AF_INET := by
      rw [Protocol.family_properties]
      exact hcases
    have hne : (p.1.properties family).family ≠ AF_INET6 := by
      rcases hprop with h | h <;> rw [h] <;> decide
    obtain ⟨hrespects, hthrows⟩ := respects_smoothCalls 3 hne hprop
    obtain ⟨h', hlisten⟩ := exists_listen p.2 hthrows
    exact ⟨_, rfl, smoothCalls 3, _, _, h', hrespects, rfl, hlisten⟩

theorem exists_listening_iff_six :
    (∃ events s, events.foldlM step (start 4 [(.tcp, 80)] [(.udp, 80)]) = some s ∧
      AnsweredRun AF_INET6 (start 4 [(.tcp, 80)] [(.udp, 80)]) events ∧
      0 < s.listening + s.connections + s.pools) ↔ true = false :=
  exists_listening_iff (show Properties.toFamily (!true) (!false) = some AF_INET6 from rfl) 4
    (by decide) [(.udp, 80)]

end ServerProcess

end NetBabbler
