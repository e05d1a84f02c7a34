import NetBabbler.ServerProgram

/-!
# The end of the server's program

Whether `execute` can return. The main thread can do it alone where only UDP servers are left to
be made, none of which has its socket already and threads still to make, and all other threads
ended (`run_returns_iff`). A listener ends if its `accept` throws, for which it has to get past
`m_threadLimit.wait ()`, and it keeps the permit. The kernel lets any call fail, so that the
threads can go to their ends as long as there is a permit for each listener.

`always_returns_iff` : in every state `execute` can still be brought to return if and only if
there are at most 1000 listeners.
-/

namespace NetBabbler

open Interleaving Process Sharing

namespace ServerProgram

open ServerProcess (Kept)

variable {numberOfCPUs : Int32} {s : ServerProcess} {p p' : ServerProgram}
  {portList : List (Nat × Nat)} {events : List Event}

/-! ## The permits -/

/-- With further servers. -/
def extend (s : ServerProcess) (servers : List ListenerThread) (udpServers : List ResponderPool) :
    ServerProcess :=
  { s with servers := s.servers ++ servers, udpServers := s.udpServers ++ udpServers }

/-- The servers that are still to be made, at their start. -/
def listenersOf (left : List (Protocol × UInt16)) : List (Protocol × UInt16) :=
  left.filter (·.1 ≠ .udp)

/-- The UDP servers that are still to be made, at their start. -/
def udpServersOf (left : List (Protocol × UInt16)) : List (Protocol × UInt16) :=
  left.filter (·.1 = .udp)

/-- The process with all its servers, as if they were made at once. -/
def whole (numberOfCPUs : Int32) (p : ServerProgram) : ServerProcess :=
  match p.main with
  | .constructing left => left.foldl (construct numberOfCPUs) p.process
  | _ => p.process

theorem construct_eq (s : ServerProcess) (server : Protocol × UInt16) :
    construct numberOfCPUs s server =
      extend s ((listenersOf [server]).map fun p => .init p.1 p.2)
        ((udpServersOf [server]).map fun p => .init numberOfCPUs p.1 p.2) := by
  obtain ⟨protocol, port⟩ := server
  cases protocol <;> simp [construct, extend, listenersOf, udpServersOf]

theorem foldl_construct (left : List (Protocol × UInt16)) (s : ServerProcess) :
    left.foldl (construct numberOfCPUs) s =
      extend s ((listenersOf left).map fun p => .init p.1 p.2)
        ((udpServersOf left).map fun p => .init numberOfCPUs p.1 p.2) := by
  induction left generalizing s with
  | nil => simp [extend, listenersOf, udpServersOf]
  | cons server left ih =>
    have hlisteners : listenersOf (server :: left) = listenersOf [server] ++ listenersOf left :=
      List.filter_append [server] left
    have hudp : udpServersOf (server :: left) = udpServersOf [server] ++ udpServersOf left :=
      List.filter_append [server] left
    rw [List.foldl_cons, ih, construct_eq, hlisteners, hudp]
    simp only [extend, List.map_append, List.append_assoc]

theorem step_extend {e : ServerProcess.Event} {s' : ServerProcess} (h : s.step e = some s')
    (servers : List ListenerThread) (udpServers : List ResponderPool) :
    (extend s servers udpServers).step e = some (extend s' servers udpServers) := by
  cases ServerProcess.step_spec h with
  | @listener i l l' e c hl hstep =>
    have hi := (List.getElem?_eq_some_iff.mp hl).1
    have hl' : (s.servers ++ servers)[i]? = some l := by rw [List.getElem?_append_left hi, hl]
    simp [ServerProcess.step, extend, hl', hstep, List.set_append_left _ _ hi]
  | @connection i k l t t' e c hl ht hstep =>
    have hi := (List.getElem?_eq_some_iff.mp hl).1
    have hl' : (s.servers ++ servers)[i]? = some l := by rw [List.getElem?_append_left hi, hl]
    simp [ServerProcess.step, extend, hl', ht, hstep, List.set_append_left _ _ hi]
  | @pool i u u' e c hu hstep =>
    have hi := (List.getElem?_eq_some_iff.mp hu).1
    have hu' : (s.udpServers ++ udpServers)[i]? = some u := by
      rw [List.getElem?_append_left hi, hu]
    simp [ServerProcess.step, extend, hu', hstep, List.set_append_left _ _ hi]
  | @responder i k u t t' e c hu ht hstep =>
    have hi := (List.getElem?_eq_some_iff.mp hu).1
    have hu' : (s.udpServers ++ udpServers)[i]? = some u := by
      rw [List.getElem?_append_left hi, hu]
    simp [ServerProcess.step, extend, hu', ht, hstep, List.set_append_left _ _ hi]

/-- What the threads do. -/
def Event.abs : Event → List ServerProcess.Event
  | .main => []
  | .thread e => [e]

/-- What the main thread does is not seen on the servers that it has still to make. -/
theorem whole_eq (hmove : MainMoves numberOfCPUs p p') :
    p'.whole numberOfCPUs = p.whole numberOfCPUs := by
  cases hmove with
  | construct server left hmain | constructed hmain | deleteUdp _ _ _ _ hmain
  | nextUdp _ _ _ hmain | lastUdp _ _ hmain | join _ _ hmain | last _ hmain
  | delete _ _ _ _ hmain | next _ _ _ hmain =>
    simp only [whole, hmain, List.foldl_cons, List.foldl_nil]

theorem step_whole {e : Event} (hstep : p.step numberOfCPUs e = some p') :
    e.abs.foldlM ServerProcess.step (p.whole numberOfCPUs) = some (p'.whole numberOfCPUs) := by
  cases e with
  | main => exact congrArg some (whole_eq (mainStep_iff.mp hstep)).symm
  | thread e =>
    obtain ⟨s, hs, rfl⟩ := Option.map_eq_some_iff.mp hstep
    have hwhole : (p.whole numberOfCPUs).step e =
        some (whole numberOfCPUs { p with process := s }) := by
      obtain ⟨main, process⟩ := p
      cases main with
      | constructing left =>
        simp only [whole, foldl_construct]
        exact step_extend hs _ _
      | _ => exact hs
    rw [Event.abs, List.foldlM_cons, hwhole]
    rfl

/-- The threads of all servers run as if the servers were there from the start. -/
theorem run_whole {left : List (Protocol × UInt16)}
    (hrun : events.foldlM (step numberOfCPUs) (start left) = some p) :
    (events.flatMap Event.abs).foldlM ServerProcess.step
      (ServerProcess.start numberOfCPUs (listenersOf left) (udpServersOf left)) =
      some (p.whole numberOfCPUs) := by
  have hstart : whole numberOfCPUs (start left) =
      ServerProcess.start numberOfCPUs (listenersOf left) (udpServersOf left) := by
    simp only [whole, start, foldl_construct, extend, List.nil_append]
    rfl
  rw [← hstart]
  exact foldlM_simulation (I := fun _ => True) (fun _ _ _ _ h => h)
    (fun _ _ _ _ hstep => step_whole hstep) events hrun trivial

/-- With at most 1000 listeners one of them that waits finds a permit, where no connection is
served. -/
theorem threadLimit_pos {left : List (Protocol × UInt16)}
    (hrun : events.foldlM (step numberOfCPUs) (start left) = some p)
    (hfew : (listenersOf left).length ≤ 1000)
    (hended : ∀ l ∈ p.process.servers, ∀ t ∈ l.connThreads, t.phase = .ended)
    {l : ListenerThread} (hl : l ∈ p.process.servers) (hwaiting : l.phase = .waiting) :
    0 < p.process.common.threadLimit := by
  by_contra hzero
  have habs := ServerProcess.run_abs (run_whole hrun)
  obtain ⟨servers, udpServers, hwhole, hnew⟩ : ∃ servers udpServers,
      p.whole numberOfCPUs = extend p.process servers udpServers ∧
        ∀ l ∈ servers, l.connThreads = [] := by
    obtain ⟨main, process⟩ := p
    cases main with
    | constructing left =>
      refine ⟨_, _, foldl_construct left process, fun l hl => ?_⟩
      obtain ⟨q, -, rfl⟩ := List.mem_map.mp hl
      rfl
    | _ => exact ⟨[], [], by simp [whole, extend], by simp⟩
  have hlive : (p.whole numberOfCPUs).abs.live = 0 := by
    refine List.sum_eq_zero fun n hn => ?_
    obtain ⟨server, hserver, rfl⟩ := List.mem_map.mp hn
    obtain ⟨l, hl, rfl⟩ := List.mem_map.mp hserver
    have hthreads : ∀ t ∈ l.connThreads, t.phase = .ended := by
      rw [hwhole] at hl
      rcases List.mem_append.mp hl with hl | hl
      · exact hended l hl
      · simp [hnew l hl]
    refine List.sum_eq_zero fun n hn => ?_
    obtain ⟨phase, hphase, rfl⟩ := List.mem_map.mp hn
    obtain ⟨t, ht, rfl⟩ := List.mem_map.mp hphase
    rw [hthreads t ht]
    rfl
  have hblocked : (p.whole numberOfCPUs).abs.Blocked := by
    refine ⟨?_, l.abs, List.mem_map_of_mem ?_, hwaiting⟩
    · rw [hwhole]
      exact Nat.eq_zero_of_not_pos hzero
    · rw [hwhole]
      exact List.mem_append_left _ hl
  have hlt := Servers.account_one_lt hlive hblocked
  have hle := Servers.le_account_one habs
  rw [Servers.length_servers habs] at hlt
  omega

end ServerProgram

/-! ## What is left to do -/

namespace Process

variable {p : Process} {i : Nat} {fd : Int}

theorem exists_destroy (h : p.handle i = some fd) :
    ∃ p', [Op.destroy i].foldlM step p = some p' :=
  ⟨p.destroy i fd, by simp [step, h]⟩

theorem exists_passOps (h : p.handle i = some fd) :
    ∃ p', (passOps i).foldlM step p = some p' ∧ p'.handle p.handles.length = some fd ∧
      p'.handles.length = p.handles.length + 1 := by
  have hi : i < p.handles.length := (List.getElem?_eq_some_iff.mp (handle_eq_some.mp h)).1
  have hmoved : (p.moveConstruct i fd).handle i = some (-1) := by
    rw [handle_append _ _ _ rfl, if_neg (by simpa using hi.ne), handle_set _ _ _ hi, if_pos rfl]
  have hhandles : ((p.moveConstruct i fd).destroy i (-1)).handles =
      p.handles.set i none ++ [some fd] := by
    simp [Process.destroy, moveConstruct, List.set_append_left, hi]
  refine ⟨(p.moveConstruct i fd).destroy i (-1), ?_, ?_, by rw [hhandles]; simp⟩
  · simp [passOps, step, h, hmoved]
  · rw [handle_append _ _ _ hhandles, if_pos (by simp)]

theorem exists_threadOps (h : p.handle i = some fd) :
    ∃ p', (threadOps i p.handles.length).foldlM step p = some p' := by
  obtain ⟨p₁, hrun₁, hhandle₁, hlen₁⟩ := exists_passOps h
  obtain ⟨p₂, hrun₂, hhandle₂, hlen₂⟩ := exists_passOps hhandle₁
  rw [hlen₁] at hhandle₂
  obtain ⟨p₃, hrun₃, -⟩ := exists_passOps hhandle₂
  refine ⟨p₃, ?_⟩
  rw [threadOps, List.append_assoc, List.foldlM_append, hrun₁, Option.bind_eq_bind,
    Option.bind_some, List.foldlM_append, hrun₂, Option.bind_eq_bind, Option.bind_some]
  exact hrun₃

theorem exists_cloneOps (h : p.handle i = some fd) :
    ∃ p', (cloneOps i p.handles.length).foldlM step p = some p' := by
  have hclone : p.step (.clone i) = some (p.construct fd) := by rw [step, h, Option.map_some]
  have hlen : (p.construct fd).handles.length = p.handles.length + 1 := by simp [construct]
  have hnew : (p.construct fd).handle p.handles.length = some fd := by
    rw [handle_append _ _ _ rfl, if_pos rfl]
  obtain ⟨p₁, hrun₁, hhandle₁, hlen₁⟩ := exists_passOps hnew
  rw [hlen] at hhandle₁ hlen₁
  obtain ⟨p₂, hrun₂⟩ := exists_threadOps hhandle₁
  rw [hlen₁] at hrun₂
  refine ⟨p₂, ?_⟩
  rw [cloneOps, List.cons_append, List.foldlM_cons, hclone, Option.bind_eq_bind, Option.bind_some,
    List.foldlM_append, hrun₁, Option.bind_eq_bind, Option.bind_some]
  exact hrun₂

end Process

/-- The steps of its own that a thread takes until its end. -/
def ConnectionThread.work (t : ConnectionThread) : Nat :=
  match t.phase with
  | .serving => 3
  | .finished => 2
  | .posted => 1
  | .ended => 0

/-- The same for a listener whose next calls fail, and its threads. -/
def ListenerThread.work (l : ListenerThread) : Nat :=
  (match l.phase with
    | .starting | .accepting => 1
    | .waiting => 2
    | .cleaning it => 3 + (l.connThreads.length - it)
    | .terminated => 0) + (l.connThreads.map ConnectionThread.work).sum

/-- The same for a UDP server and its threads. -/
def ResponderPool.work (u : ResponderPool) : Nat :=
  (match u.phase with
    | .starting => 1
    | .constructing _ => 4 * u.n + 1
    | .constructed => 0) + (u.connThreads.map ConnectionThread.work).sum

section Progress

variable {c : Common} {numberOfCPUs : Int32}

theorem Common.perform_of_run {ops : List Op} {p : Process}
    (h : ops.foldlM Process.step c.process = some p) :
    c.perform ops = some { c with process := p } := by
  rw [perform, h, Option.map_some]

theorem ConnectionThread.exists_step {t : ConnectionThread} (hphase : t.phase ≠ .ended)
    (hs : ∃ fd, c.process.handle t.s = some fd) :
    ∃ e c' t', t.step e c = some (c', t') ∧ t'.work < t.work := by
  obtain ⟨phase, s⟩ := t
  cases phase with
  | serving => exact ⟨.finish, c, ⟨.finished, s⟩, rfl, by simp [work]⟩
  | finished =>
    exact ⟨.post, { c with threadLimit := c.threadLimit + 1 }, ⟨.posted, s⟩, rfl, by simp [work]⟩
  | posted =>
    obtain ⟨fd, hfd⟩ := hs
    obtain ⟨p, hp⟩ := exists_destroy hfd
    have hperform := Common.perform_of_run hp
    refine ⟨.destroy, { c with process := p }, ⟨.ended, s⟩, ?_, by simp [work]⟩
    simp only [step, hperform, Option.map_some]
  | ended => exact absurd rfl hphase

/-- A listener without live threads gets on where it finds a permit. -/
theorem ListenerThread.exists_step {l : ListenerThread} (hphase : l.phase ≠ .terminated)
    (hthreads : ∀ t ∈ l.connThreads, t.phase = .ended)
    (hs : l.listening = true → ∃ fd, c.process.handle l.sListener = some fd)
    (hpermit : l.phase = .waiting → 0 < c.threadLimit) :
    ∃ e c' l', l.step e c = some (c', l') ∧ l'.work < l.work := by
  obtain ⟨protocol, localPort, phase, sListener, threads⟩ := l
  cases phase with
  | starting =>
    have hperform : c.perform (listenThrowsOps c.next none) =
        some { c with process := c.process.gone [] } :=
      Common.perform_of_run (socketOps_error _)
    refine ⟨.listenThrows none, { c with process := c.process.gone [] },
      ⟨protocol, localPort, .terminated, sListener, threads⟩, ?_, by simp [work]⟩
    simp only [step, hperform, Option.map_some]
  | waiting =>
    obtain ⟨n, hn⟩ := Nat.exists_eq_succ_of_ne_zero (hpermit rfl).ne'
    refine ⟨.wait, { c with threadLimit := n },
      ⟨protocol, localPort, .accepting, sListener, threads⟩, ?_, by simp [work]⟩
    simp only [step, hn]
  | accepting =>
    obtain ⟨fd, hfd⟩ := hs rfl
    obtain ⟨p, hp⟩ := exists_destroy hfd
    have hperform := Common.perform_of_run hp
    refine ⟨.acceptThrows, { c with process := p },
      ⟨protocol, localPort, .terminated, sListener, threads⟩, ?_, by simp [work]⟩
    simp only [step, hperform, Option.map_some]
  | cleaning it =>
    cases ht : threads[it]? with
    | none =>
      refine ⟨.cleanup, c, ⟨protocol, localPort, .waiting, sListener, threads⟩, ?_, ?_⟩
      · simp only [step, ht]
      · simp only [work]
        omega
    | some t =>
      have hended := hthreads t (List.mem_of_getElem? ht)
      refine ⟨.cleanup, c,
        ⟨protocol, localPort, .cleaning it, sListener, threads.eraseIdx it⟩, ?_, ?_⟩
      · simp only [step, ht, hended]
      · have hsum := sum_map_eraseIdx ConnectionThread.work ht
        obtain ⟨hit, -⟩ := List.getElem?_eq_some_iff.mp ht
        simp only [work, List.length_eraseIdx_of_lt hit]
        omega
  | terminated => exact absurd rfl hphase

/-- The constructor can end at once where it has no more threads to make. -/
theorem ResponderPool.exists_constructed {u : ResponderPool} (hphase : u.phase ≠ .constructed)
    (hs : ∀ sListener, u.phase = .constructing sListener →
      u.n = 0 ∧ ∃ fd, c.process.handle sListener = some fd) :
    ∃ e c' u', u.step e c = some (c', u') ∧ u'.phase = .constructed ∧
      u'.connThreads = u.connThreads := by
  obtain ⟨protocol, localPort, n, phase, threads⟩ := u
  cases phase with
  | starting =>
    have hperform : c.perform (listenThrowsOps c.next none) =
        some { c with process := c.process.gone [] } :=
      Common.perform_of_run (socketOps_error _)
    refine ⟨.listenThrows none, { c with process := c.process.gone [] },
      ⟨protocol, localPort, 0, .constructed, threads⟩, ?_, rfl, rfl⟩
    simp only [step, hperform, Option.map_some]
  | constructing sListener =>
    obtain ⟨rfl, fd, hfd⟩ := hs sListener rfl
    obtain ⟨p, hp⟩ := exists_destroy hfd
    have hperform := Common.perform_of_run hp
    refine ⟨.leave, { c with process := p }, ⟨protocol, localPort, 0, .constructed, threads⟩,
      ?_, rfl, rfl⟩
    simp only [step, hperform, Option.map_some]
  | constructed => exact absurd rfl hphase

theorem ResponderPool.work_constructed {u u' : ResponderPool} (hphase : u.phase ≠ .constructed)
    (hphase' : u'.phase = .constructed) (hthreads : u'.connThreads = u.connThreads) :
    u'.work < u.work := by
  obtain ⟨protocol, localPort, n, phase, threads⟩ := u
  cases phase with
  | starting | constructing _ =>
    simp only [work, hphase', hthreads]
    omega
  | constructed => exact absurd rfl hphase

theorem ResponderPool.exists_step {u : ResponderPool} (hphase : u.phase ≠ .constructed)
    (hs : ∀ sListener, u.phase = .constructing sListener →
      ∃ fd, c.process.handle sListener = some fd) :
    ∃ e c' u', u.step e c = some (c', u') ∧ u'.work < u.work := by
  by_cases hmore : ∃ sListener n, u.phase = .constructing sListener ∧ u.n = n + 1
  · obtain ⟨protocol, localPort, n, phase, threads⟩ := u
    obtain ⟨sListener, n, rfl, rfl⟩ := hmore
    obtain ⟨fd, hfd⟩ := hs sListener rfl
    obtain ⟨p, hp⟩ := exists_cloneOps hfd
    have hperform : c.perform (cloneOps sListener c.next) = some { c with process := p } :=
      Common.perform_of_run hp
    refine ⟨.construct, { c with process := p }, ⟨protocol, localPort, n, .constructing sListener,
      threads ++ [⟨.serving, c.next + 4⟩]⟩, ?_, ?_⟩
    · simp only [step, hperform, Option.map_some]
    · simp only [work, ConnectionThread.work, List.map_append, List.sum_append,
        List.map_singleton, List.sum_singleton]
      omega
  · have hzero : ∀ sListener, u.phase = .constructing sListener → u.n = 0 := by
      intro sListener hconstructing
      by_contra hn
      obtain ⟨n, hn⟩ := Nat.exists_eq_succ_of_ne_zero hn
      exact hmore ⟨sListener, n, hconstructing, hn⟩
    obtain ⟨e, c', u', hstep, hphase', hthreads⟩ := exists_constructed hphase
      fun sListener hconstructing => ⟨hzero sListener hconstructing, hs sListener hconstructing⟩
    exact ⟨e, c', u', hstep, work_constructed hphase hphase' hthreads⟩

/-- A step of a thread is one of its listener. -/
theorem ListenerThread.work_set {l : ListenerThread} {k : Nat} {t : ConnectionThread}
    (ht : l.connThreads[k]? = some t) (t' : ConnectionThread) :
    { l with connThreads := l.connThreads.set k t' }.work + t.work = l.work + t'.work := by
  have hsum := sum_map_set ConnectionThread.work t' ht
  simp only [work, List.length_set]
  omega

theorem ResponderPool.work_set {u : ResponderPool} {k : Nat} {t : ConnectionThread}
    (ht : u.connThreads[k]? = some t) (t' : ConnectionThread) :
    { u with connThreads := u.connThreads.set k t' }.work + t.work = u.work + t'.work := by
  have hsum := sum_map_set ConnectionThread.work t' ht
  simp only [work]
  omega

end Progress

namespace ServerProgram

/-- What is left to do, where no call makes a new thread but for the UDP server in its
constructor. -/
def work (p : ServerProgram) : Nat :=
  (match p.main with
    | .constructing left => 2 * left.length
    | _ => 0) + (p.process.servers.map ListenerThread.work).sum +
    (p.process.udpServers.map ResponderPool.work).sum

variable {numberOfCPUs : Int32} {s : ServerProcess} {p p' : ServerProgram}
  {portList : List (Nat × Nat)} {events : List Event}

/-! ## Objects of the threads -/

theorem Joins.exists_handle (h : p.Joins numberOfCPUs) {g : Multiset Nat} {i : Nat}
    (hg : g ∈ p.process.groups) (hi : i ∈ g) :
    ∃ fd, p.process.common.process.handle i = some fd := by
  obtain ⟨fd, hfd⟩ := h.process.divided.groups.mem_join hg hi
  exact ⟨fd, (held_eq_some.mp hfd).1⟩

theorem Joins.connection_handle (h : p.Joins numberOfCPUs) {i k : Nat} {l : ListenerThread}
    {t : ConnectionThread} (hl : p.process.servers[i]? = some l)
    (ht : l.connThreads[k]? = some t) (hphase : t.phase ≠ .ended) :
    ∃ fd, p.process.common.process.handle t.s = some fd := by
  obtain ⟨rest, hgroups, -⟩ := ServerProcess.exists_servers hl
  obtain ⟨others, hsum, -⟩ :=
    exists_sum_map (fun t : ConnectionThread => ({t.group} : Multiset _)) ht
  refine h.exists_handle (g := t.group) ?_ ?_
  · rw [hgroups, ListenerThread.groups, hsum]
    simp
  · rw [ConnectionThread.group, if_neg hphase]
    exact Multiset.mem_singleton_self _

theorem Joins.responder_handle (h : p.Joins numberOfCPUs) {i k : Nat} {u : ResponderPool}
    {t : ConnectionThread} (hu : p.process.udpServers[i]? = some u)
    (ht : u.connThreads[k]? = some t) (hphase : t.phase ≠ .ended) :
    ∃ fd, p.process.common.process.handle t.s = some fd := by
  obtain ⟨rest, hgroups, -⟩ := ServerProcess.exists_udpServers hu
  obtain ⟨others, hsum, -⟩ := exists_sum_map ConnectionThread.group ht
  refine h.exists_handle (g := u.group) (hgroups ▸ Multiset.mem_cons_self _ _) ?_
  rw [ResponderPool.group, hsum, ConnectionThread.group, if_neg hphase]
  simp

theorem Joins.pool_handle (h : p.Joins numberOfCPUs) {i sListener : Nat} {u : ResponderPool}
    (hu : p.process.udpServers[i]? = some u) (hphase : u.phase = .constructing sListener) :
    ∃ fd, p.process.common.process.handle sListener = some fd := by
  obtain ⟨rest, hgroups, -⟩ := ServerProcess.exists_udpServers hu
  refine h.exists_handle (g := u.group) (hgroups ▸ Multiset.mem_cons_self _ _) ?_
  simp [ResponderPool.group, hphase]

/-! ## A step that leaves less -/

/-- A thread can take a step that leaves less to do. -/
theorem exists_step_thread {e : ServerProcess.Event} (hstep : p.process.step e = some s)
    (hlt : (s.servers.map ListenerThread.work).sum + (s.udpServers.map ResponderPool.work).sum <
      (p.process.servers.map ListenerThread.work).sum +
        (p.process.udpServers.map ResponderPool.work).sum) :
    ∃ e p', p.step numberOfCPUs e = some p' ∧ p'.work < p.work := by
  refine ⟨.thread e, { p with process := s }, by rw [step, hstep, Option.map_some], ?_⟩
  simp only [work]
  omega

/-- A UDP server in its constructor. -/
theorem exists_step_pool (h : p.Joins numberOfCPUs) {i : Nat} {u : ResponderPool}
    (hu : p.process.udpServers[i]? = some u) (hphase : u.phase ≠ .constructed) :
    ∃ e p', p.step numberOfCPUs e = some p' ∧ p'.work < p.work := by
  obtain ⟨e, c, u', hstep, hlt⟩ := ResponderPool.exists_step (c := p.process.common) hphase
    fun _ hconstructing => h.pool_handle hu hconstructing
  have hsum := sum_map_set ResponderPool.work u' hu
  refine exists_step_thread (e := .pool i e) (s := { p.process with
    common := c, udpServers := p.process.udpServers.set i u' }) ?_ (by dsimp only; omega)
  simp [ServerProcess.step, hu, hstep]

theorem exists_step_responder (h : p.Joins numberOfCPUs) {i k : Nat} {u : ResponderPool}
    {t : ConnectionThread} (hu : p.process.udpServers[i]? = some u)
    (ht : u.connThreads[k]? = some t) (hphase : t.phase ≠ .ended) :
    ∃ e p', p.step numberOfCPUs e = some p' ∧ p'.work < p.work := by
  obtain ⟨e, c, t', hstep, hlt⟩ :=
    ConnectionThread.exists_step hphase (h.responder_handle hu ht hphase)
  have hwork := ResponderPool.work_set ht t'
  have hsum := sum_map_set ResponderPool.work { u with connThreads := u.connThreads.set k t' } hu
  refine exists_step_thread (e := .responder i k e) (s := { p.process with
    common := c, udpServers := p.process.udpServers.set i
      { u with connThreads := u.connThreads.set k t' } }) ?_ (by dsimp only; omega)
  simp [ServerProcess.step, hu, ht, hstep]

theorem exists_step_connection (h : p.Joins numberOfCPUs) {i k : Nat} {l : ListenerThread}
    {t : ConnectionThread} (hl : p.process.servers[i]? = some l)
    (ht : l.connThreads[k]? = some t) (hphase : t.phase ≠ .ended) :
    ∃ e p', p.step numberOfCPUs e = some p' ∧ p'.work < p.work := by
  obtain ⟨e, c, t', hstep, hlt⟩ :=
    ConnectionThread.exists_step hphase (h.connection_handle hl ht hphase)
  have hwork := ListenerThread.work_set ht t'
  have hsum := sum_map_set ListenerThread.work { l with connThreads := l.connThreads.set k t' } hl
  refine exists_step_thread (e := .connection i k e) (s := { p.process with
    common := c, servers := p.process.servers.set i
      { l with connThreads := l.connThreads.set k t' } }) ?_ (by dsimp only; omega)
  simp [ServerProcess.step, hl, ht, hstep]

/-- A listener whose threads ended. -/
theorem exists_step_listener (h : p.Joins numberOfCPUs) {i : Nat} {l : ListenerThread}
    (hl : p.process.servers[i]? = some l) (hphase : l.phase ≠ .terminated)
    (hthreads : ∀ t ∈ l.connThreads, t.phase = .ended)
    (hpermit : l.phase = .waiting → 0 < p.process.common.threadLimit) :
    ∃ e p', p.step numberOfCPUs e = some p' ∧ p'.work < p.work := by
  obtain ⟨rest, hgroups, -⟩ := ServerProcess.exists_servers hl
  have hhandle : l.listening = true → ∃ fd, p.process.common.process.handle l.sListener = some fd :=
    fun hlistening => h.exists_handle (g := {l.sListener})
      (by simp [hgroups, ListenerThread.groups, hlistening]) (Multiset.mem_singleton_self _)
  obtain ⟨e, c, l', hstep, hlt⟩ := ListenerThread.exists_step hphase hthreads hhandle hpermit
  have hsum := sum_map_set ListenerThread.work l' hl
  refine exists_step_thread (e := .listener i e) (s := { p.process with
    common := c, servers := p.process.servers.set i l' }) ?_ (by dsimp only; omega)
  simp [ServerProcess.step, hl, hstep]

/-- Where all threads ended and something is left to do, a server is left to be made. -/
theorem exists_left (hended : p.process.Ended) (hcomplete : ¬p.Complete) :
    ∃ server left, p.main = .constructing (server :: left) := by
  by_contra hnone
  refine hcomplete ⟨hended, fun left hleft => ?_⟩
  cases left with
  | nil => rfl
  | cons server left => exact absurd ⟨server, left, hleft⟩ hnone

/-- The main thread makes the next server. -/
theorem work_construct {server : Protocol × UInt16} {left : List (Protocol × UInt16)}
    (hmain : p.main = .constructing (server :: left)) :
    work ⟨.constructing left, construct numberOfCPUs p.process server⟩ < p.work := by
  obtain ⟨protocol, port⟩ := server
  cases protocol <;>
    simp [work, hmain, construct, ListenerThread.work, ListenerThread.init, ResponderPool.work,
      ResponderPool.init] <;> omega

/-- The main thread, where all threads ended. -/
theorem exists_step_main (hended : p.process.Ended) (hcomplete : ¬p.Complete) :
    ∃ e p', p.step numberOfCPUs e = some p' ∧ p'.work < p.work := by
  obtain ⟨server, left, hmain⟩ := exists_left hended hcomplete
  exact ⟨.main, _, mainStep_iff.mpr (.construct server left hmain fun u hu =>
    (hended.udpServers u hu).1), work_construct hmain⟩

/-- As long as something is left to do, some step leaves less. -/
theorem exists_step (h : p.Joins numberOfCPUs) (hpermit :
      (∀ l ∈ p.process.servers, ∀ t ∈ l.connThreads, t.phase = .ended) →
        ∀ l ∈ p.process.servers, l.phase = .waiting → 0 < p.process.common.threadLimit)
    (hcomplete : ¬p.Complete) :
    ∃ e p', p.step numberOfCPUs e = some p' ∧ p'.work < p.work := by
  by_contra hnone
  -- otherwise each thread ended, the listeners last
  have hudpServers : ∀ u ∈ p.process.udpServers,
      u.phase = .constructed ∧ ∀ t ∈ u.connThreads, t.phase = .ended := by
    intro u hu
    obtain ⟨i, hi⟩ := List.getElem?_of_mem hu
    refine ⟨?_, fun t ht => ?_⟩
    · by_contra hphase
      exact hnone (exists_step_pool h hi hphase)
    · obtain ⟨k, hk⟩ := List.getElem?_of_mem ht
      by_contra hphase
      exact hnone (exists_step_responder h hi hk hphase)
  have hthreads : ∀ l ∈ p.process.servers, ∀ t ∈ l.connThreads, t.phase = .ended := by
    intro l hl t ht
    obtain ⟨i, hi⟩ := List.getElem?_of_mem hl
    obtain ⟨k, hk⟩ := List.getElem?_of_mem ht
    by_contra hphase
    exact hnone (exists_step_connection h hi hk hphase)
  have hlisteners : ∀ l ∈ p.process.servers, l.phase = .terminated := by
    intro l hl
    obtain ⟨i, hi⟩ := List.getElem?_of_mem hl
    by_contra hphase
    exact hnone (exists_step_listener h hi hphase (hthreads l hl) (hpermit hthreads l hl))
  exact hnone (exists_step_main ⟨fun l hl => ⟨hlisteners l hl, hthreads l hl⟩, hudpServers⟩
    hcomplete)

/-- Where a permit is left for each listener that waits, all threads can be brought to their
ends. -/
theorem exists_run_complete {left : List (Protocol × UInt16)}
    (hfew : (listenersOf left).length ≤ 1000)
    (hrun : events.foldlM (step numberOfCPUs) (start left) = some p) :
    ∃ (more : List Event) (p' : ServerProgram),
      more.foldlM (step numberOfCPUs) p = some p' ∧ p'.Complete := by
  have hgo : ∀ n p, (∃ events : List Event,
      events.foldlM (step numberOfCPUs) (start left) = some p ∧ p.work = n) → ¬p.Complete →
      ∃ e p', True ∧ p.step numberOfCPUs e = some p' ∧ (p'.Complete ∨ ∃ m < n,
        ∃ events : List Event, events.foldlM (step numberOfCPUs) (start left) = some p' ∧
          p'.work = m) := by
    rintro n p ⟨events, hrun, rfl⟩ hcomplete
    obtain ⟨e, p₁, hstep, hlt⟩ := exists_step (run_joins hrun)
      (fun hended l hl hwaiting => threadLimit_pos hrun hfew hended hl hwaiting) hcomplete
    have hrun₁ : (events ++ [e]).foldlM (step numberOfCPUs) (start left) = some p₁ := by
      rw [List.foldlM_append, hrun]
      simpa using hstep
    exact ⟨e, p₁, trivial, hstep, .inr ⟨_, hlt, _, hrun₁, rfl⟩⟩
  obtain ⟨more, p', -, hmore, hend⟩ := exists_foldlM_of_lt hgo _ ⟨events, hrun, rfl⟩
  exact ⟨more, p', hmore, hend⟩

/-! ## What is left to the main thread -/

/-- No listener is left to be made, no UDP server with a socket has threads to make, and all
threads ended. -/
structure Alone (p : ServerProgram) : Prop where
  left : ∀ left, p.main = .constructing left → ∀ server ∈ left, server.1 = .udp
  servers : ∀ l ∈ p.process.servers, l.phase = .terminated ∧
    ∀ t ∈ l.connThreads, t.phase = .ended
  udpServers : ∀ u ∈ p.process.udpServers,
    (∀ sListener, u.phase = .constructing sListener → u.n = 0) ∧
      ∀ t ∈ u.connThreads, t.phase = .ended

theorem Complete.alone (h : p.Complete) : p.Alone := by
  obtain ⟨hended, hleft⟩ := h
  refine ⟨fun left hmain server hserver => ?_, hended.servers, fun u hu => ⟨fun _ hphase => ?_,
    (hended.udpServers u hu).2⟩⟩
  · rw [hleft left hmain] at hserver
    cases hserver
  · rw [(hended.udpServers u hu).1] at hphase
    cases hphase

/-- The main thread ends no other thread. -/
theorem Alone.of_main (h : p'.Alone) (hmove : MainMoves numberOfCPUs p p') : p.Alone := by
  cases hmove with
  | construct server left hmain hpools =>
    obtain ⟨protocol, port⟩ := server
    cases protocol with
    | udp =>
      refine ⟨fun left' hleft => ?_, h.servers, fun u hu => h.udpServers u
        (List.mem_append_left _ hu)⟩
      rw [hmain] at hleft
      cases hleft
      exact List.forall_mem_cons.mpr ⟨rfl, h.left left rfl⟩
    | tcp | sctp | dccp =>
      -- the listener that was just made has not ended
      obtain ⟨hphase, -⟩ := h.servers (.init _ port)
        (List.mem_append_right _ (List.mem_singleton_self _))
      cases hphase
  | constructed hmain hpools =>
    refine ⟨fun left hleft => ?_, h.servers, h.udpServers⟩
    rw [hmain] at hleft
    cases hleft
    simp
  | deleteUdp _ _ _ _ hmain | nextUdp _ _ _ hmain | lastUdp _ _ hmain | join _ _ hmain
  | last _ hmain | delete _ _ _ _ hmain | next _ _ _ hmain =>
    refine ⟨fun left hleft => ?_, h.servers, h.udpServers⟩
    rw [hmain] at hleft
    cases hleft

/-- The constructor of a UDP server that makes threads has them run. -/
theorem pool_of_step {c c' : Common} {u u' : ResponderPool} {e : PoolCall}
    (hkept : u.Kept numberOfCPUs) (hstep : u.step e c = some (c', u'))
    (h : (∀ sListener, u'.phase = .constructing sListener → u'.n = 0) ∧
      ∀ t ∈ u'.connThreads, t.phase = .ended) :
    (∀ sListener, u.phase = .constructing sListener → u.n = 0) ∧
      ∀ t ∈ u.connThreads, t.phase = .ended := by
  obtain ⟨hzero, hended⟩ := h
  obtain ⟨protocol, localPort, n, phase, threads⟩ := u
  cases e <;> cases phase <;> simp only [ResponderPool.step, reduceCtorEq] at hstep
  case listen.starting fd =>
    obtain ⟨-, -, rfl⟩ := Common.performed hstep
    exact absurd (hzero _ rfl) (hkept.starting rfl).2.ne'
  case listenThrows.starting socket =>
    obtain ⟨-, -, rfl⟩ := Common.performed hstep
    refine ⟨fun sListener hconstructing => ?_, hended⟩
    cases hconstructing
  case construct.constructing sListener =>
    cases n with
    | zero => cases hstep
    | succ n =>
      obtain ⟨-, -, rfl⟩ := Common.performed hstep
      -- the thread that was just made has not ended
      have hserving := hended _ (List.mem_append_right _ (List.mem_singleton_self _))
      cases hserving
  case leave.constructing sListener =>
    cases n with
    | zero =>
      obtain ⟨-, -, rfl⟩ := Common.performed hstep
      exact ⟨fun _ _ => rfl, hended⟩
    | succ n => cases hstep

theorem Alone.of_step {e : Event} (hjoins : p.Joins numberOfCPUs) (hown : e.Own)
    (hstep : p.step numberOfCPUs e = some p') (h : p'.Alone) : p.Alone := by
  cases e with
  | main => exact h.of_main (mainStep_iff.mp hstep)
  | thread e =>
    obtain ⟨s, hs, rfl⟩ := Option.map_eq_some_iff.mp hstep
    cases ServerProcess.step_spec hs with
    | listener | connection | responder => exact hown.elim
    | @pool i u u' e c hu hu' =>
      have hi := (List.getElem?_eq_some_iff.mp hu).1
      refine ⟨h.left, h.servers, fun u₁ hu₁ => ?_⟩
      obtain ⟨j, hj⟩ := List.getElem?_of_mem hu₁
      by_cases hji : i = j
      · subst hji
        obtain rfl := Option.some.inj (hu.symm.trans hj)
        exact pool_of_step (hjoins.process.pools u hu₁) hu'
          (h.udpServers u' (List.mem_of_getElem? (List.getElem?_set_self hi)))
      · refine h.udpServers u₁ (List.mem_of_getElem? (i := j) ?_)
        rw [List.getElem?_set_ne hji]
        exact hj

theorem Returns.alone (hjoins : p.Joins numberOfCPUs) (h : p.Returns numberOfCPUs) :
    p.Alone := by
  obtain ⟨events, p', hown, hrun, hmain⟩ := h
  induction events generalizing p with
  | nil =>
    obtain rfl := Option.some.inj hrun
    refine Complete.alone ⟨hjoins.ended hmain, fun left hleft => ?_⟩
    rw [hmain] at hleft
    cases hleft
  | cons e events ih =>
    obtain ⟨hown, howns⟩ := List.forall_mem_cons.mp hown
    rw [List.foldlM_cons] at hrun
    obtain ⟨p₁, hstep, hrest⟩ := Option.bind_eq_some_iff.mp hrun
    exact .of_step hjoins hown hstep (ih (hjoins.step hstep) howns hrest)

/-- The `cSocket::listen` of a UDP server throws, and where it makes no thread any more its
constructor ends. -/
theorem Alone.exists_pool (hjoins : p.Joins numberOfCPUs) (h : p.Alone) {u : ResponderPool}
    (hu : u ∈ p.process.udpServers) (hphase : u.phase ≠ .constructed) :
    ∃ e p', e.Own ∧ p.step numberOfCPUs e = some p' ∧ p'.Alone ∧ p'.work < p.work := by
  obtain ⟨i, hi⟩ := List.getElem?_of_mem hu
  obtain ⟨hzero, hended⟩ := h.udpServers u hu
  obtain ⟨e, c, u', hstep, hphase', hthreads⟩ := ResponderPool.exists_constructed hphase
    (c := p.process.common) fun sListener hconstructing =>
      ⟨hzero sListener hconstructing, hjoins.pool_handle hi hconstructing⟩
  have hlt := ResponderPool.work_constructed hphase hphase' hthreads
  have hsum := sum_map_set ResponderPool.work u' hi
  refine ⟨.thread (.pool i e), { p with process := { p.process with
    common := c, udpServers := p.process.udpServers.set i u' } }, trivial, ?_,
    ⟨h.left, h.servers, ?_⟩, ?_⟩
  · simp [step, ServerProcess.step, hi, hstep]
  · refine forall_mem_set h.udpServers ⟨fun sListener hconstructing => ?_, ?_⟩
    · rw [hphase'] at hconstructing
      cases hconstructing
    · rw [hthreads]
      exact hended
  · simp only [work]
    omega

/-- The main thread gets on alone. -/
theorem Alone.exists_step (hjoins : p.Joins numberOfCPUs) (h : p.Alone) (hcomplete : ¬p.Complete) :
    ∃ e p', e.Own ∧ p.step numberOfCPUs e = some p' ∧ p'.Alone ∧ p'.work < p.work := by
  by_cases hpools : ∀ u ∈ p.process.udpServers, u.phase = .constructed
  · have hended : p.process.Ended := ⟨h.servers, fun u hu => ⟨hpools u hu, (h.udpServers u hu).2⟩⟩
    obtain ⟨server, left, hmain⟩ := exists_left hended hcomplete
    obtain ⟨protocol, port⟩ := server
    obtain rfl : protocol = .udp := h.left _ hmain _ List.mem_cons_self
    refine ⟨.main, _, trivial, mainStep_iff.mpr (.construct _ left hmain hpools), ?_, ?_⟩
    · refine ⟨?_, h.servers, ?_⟩
      · rintro _ ⟨⟩ server hserver
        exact h.left _ hmain server (List.mem_cons_of_mem _ hserver)
      · refine List.forall_mem_append.mpr ⟨h.udpServers, List.forall_mem_singleton.mpr ⟨?_, ?_⟩⟩
        · exact nofun
        · simp [ResponderPool.init]
    · exact work_construct hmain
  · simp only [not_forall] at hpools
    obtain ⟨u, hu, hphase⟩ := hpools
    exact h.exists_pool hjoins hu hphase

theorem Alone.returns (hjoins : p.Joins numberOfCPUs) (h : p.Alone) : p.Returns numberOfCPUs := by
  have hgo : ∀ n (p : ServerProgram), (p.Joins numberOfCPUs ∧ p.Alone ∧ p.work = n) →
      ¬(p.Joins numberOfCPUs ∧ p.Complete) →
      ∃ (e : Event) (p' : ServerProgram), e.Own ∧ p.step numberOfCPUs e = some p' ∧
        ((p'.Joins numberOfCPUs ∧ p'.Complete) ∨ ∃ m < n,
          p'.Joins numberOfCPUs ∧ p'.Alone ∧ p'.work = m) := by
    rintro n p ⟨hjoins, halone, rfl⟩ hcomplete
    obtain ⟨e, p₁, hown, hstep, halone₁, hlt⟩ :=
      halone.exists_step hjoins fun h => hcomplete ⟨hjoins, h⟩
    exact ⟨e, p₁, hown, hstep, .inr ⟨_, hlt, hjoins.step hstep, halone₁, rfl⟩⟩
  obtain ⟨events, p₁, hown, hrun, hjoins₁, hcomplete⟩ :=
    exists_foldlM_of_lt hgo _ ⟨hjoins, h, rfl⟩
  obtain ⟨more, p', howns, hmore, hmain⟩ := hcomplete.returns hjoins₁
  refine ⟨events ++ more, p', List.forall_mem_append.mpr ⟨hown, howns⟩, ?_, hmain⟩
  rw [List.foldlM_append, hrun]
  exact hmore

/-- The main thread gets to its end by its own steps if and only if it has no listener left to
make and no UDP server with threads to make, and all others ended. -/
theorem run_returns_iff (hrun : events.foldlM (step numberOfCPUs) (execute portList) = some p) :
    p.Returns numberOfCPUs ↔ p.Alone :=
  ⟨Returns.alone (run_joins hrun), Alone.returns (run_joins hrun)⟩

theorem run_returns_iff_small :
    ∃ p, (smallRun.take 42).foldlM (step 1) (execute [(80, 80)]) = some p ∧
      (p.Returns 1 ↔ p.Alone) := by
  obtain ⟨p, hrun, -⟩ := exists_smallRun 42 (.deleting 0 0) (by decide +kernel)
  exact ⟨p, hrun, run_returns_iff hrun⟩

/-! ## More listeners than permits -/

/-- No permit is left, none comes back, and a listener waits for one. -/
structure Stuck (p : ServerProgram) : Prop where
  made : ∀ left, p.main = .constructing left → left = []
  threadLimit : p.process.common.threadLimit = 0
  waiting : ∃ (i : Nat) (l : ListenerThread), p.process.servers[i]? = some l ∧ l.phase = .waiting
  servers : ∀ l ∈ p.process.servers, l.connThreads = [] ∧
    (l.phase = .starting ∨ l.phase = .waiting ∨ l.phase = .terminated)
  udpServers : ∀ u ∈ p.process.udpServers, u.phase = .constructed ∧ u.connThreads = []

/-- Without a permit a listener does nothing but call `cSocket::listen`. -/
theorem listener_stuck {c c' : Common} {l l' : ListenerThread} {e : ListenerCall}
    (hzero : c.threadLimit = 0) (hl : l.connThreads = [] ∧
      (l.phase = .starting ∨ l.phase = .waiting ∨ l.phase = .terminated))
    (hstep : l.step e c = some (c', l')) :
    l.phase = .starting ∧ c'.threadLimit = 0 ∧ l'.connThreads = [] ∧
      (l'.phase = .starting ∨ l'.phase = .waiting ∨ l'.phase = .terminated) := by
  obtain ⟨protocol, localPort, phase, sListener, threads⟩ := l
  obtain ⟨hthreads, hphase⟩ := hl
  cases e <;> cases phase <;> simp only [ListenerThread.step, reduceCtorEq] at hstep
  case listen.starting fd =>
    obtain ⟨-, hlimit, rfl⟩ := Common.performed hstep
    exact ⟨rfl, hlimit.trans hzero, hthreads, .inr (.inl rfl)⟩
  case listenThrows.starting socket =>
    obtain ⟨-, hlimit, rfl⟩ := Common.performed hstep
    exact ⟨rfl, hlimit.trans hzero, hthreads, .inr (.inr rfl)⟩
  case wait.waiting => simp [hzero] at hstep
  all_goals simp at hphase

theorem Stuck.step {e : Event} (h : p.Stuck) (hstep : p.step numberOfCPUs e = some p') :
    p'.Stuck := by
  obtain ⟨hmade, hzero, ⟨j, l₁, hl₁, hwaiting⟩, hservers, hudp⟩ := h
  cases e with
  | main =>
    cases mainStep_iff.mp hstep with
    | construct server left hmain => cases hmade _ hmain
    | _ => exact ⟨nofun, hzero, ⟨j, l₁, hl₁, hwaiting⟩, hservers, hudp⟩
  | thread e =>
    obtain ⟨s, hs, rfl⟩ := Option.map_eq_some_iff.mp hstep
    cases ServerProcess.step_spec hs with
    | @listener i l l' e c hl hl' =>
      obtain ⟨hstarting, hzero', hl''⟩ :=
        listener_stuck hzero (hservers l (List.mem_of_getElem? hl)) hl'
      have hne : i ≠ j := by
        rintro rfl
        obtain rfl := Option.some.inj (hl.symm.trans hl₁)
        rw [hstarting] at hwaiting
        cases hwaiting
      exact ⟨hmade, hzero', ⟨j, l₁, by simpa [List.getElem?_set_ne hne] using hl₁, hwaiting⟩,
        forall_mem_set hservers hl'', hudp⟩
    | connection hl ht =>
      rw [(hservers _ (List.mem_of_getElem? hl)).1] at ht
      cases ht
    | pool hu hu' =>
      rw [ResponderPool.step_constructed (hudp _ (List.mem_of_getElem? hu)).1] at hu'
      cases hu'
    | responder hu ht =>
      rw [(hudp _ (List.mem_of_getElem? hu)).2] at ht
      cases ht

/-- Such a process does not end any more. -/
theorem Stuck.run_ne (h : p.Stuck) (hjoins : p.Joins numberOfCPUs)
    (hrun : events.foldlM (ServerProgram.step numberOfCPUs) p = some p') :
    p'.main ≠ .returned := by
  intro hmain
  obtain ⟨i, l, hl, hwaiting⟩ :=
    (foldlM_invariant (fun _ _ _ hstep h => h.step hstep) events hrun h).waiting
  have hended : p'.process.Ended :=
    (foldlM_invariant (fun _ _ _ hstep h => h.step hstep) events hrun hjoins).ended hmain
  rw [(hended.servers l (List.mem_of_getElem? hl)).1] at hwaiting
  cases hwaiting

/-- The main thread can make all servers, where no UDP server gets to listen. -/
def Makes (numberOfCPUs : Int32) (left : List (Protocol × UInt16)) (s : ServerProcess) : Prop :=
  ∃ (events : List Event) (s' : ServerProcess),
    events.foldlM (step numberOfCPUs) ⟨.constructing left, s⟩ = some ⟨.constructing [], s'⟩ ∧
    s'.common.threadLimit = s.common.threadLimit ∧
    s'.servers = s.servers ++ (listenersOf left).map (fun p => .init p.1 p.2) ∧
    ∀ u ∈ s'.udpServers, u.phase = .constructed ∧ u.connThreads = []

theorem step_construct {server : Protocol × UInt16} {left : List (Protocol × UInt16)}
    (hudp : ∀ u ∈ s.udpServers, u.phase = .constructed) :
    step numberOfCPUs ⟨.constructing (server :: left), s⟩ .main =
      some ⟨.constructing left, construct numberOfCPUs s server⟩ :=
  mainStep_iff.mpr (.construct (p := ⟨.constructing (server :: left), s⟩) server left rfl hudp)

theorem Makes.listener {server : Protocol × UInt16} {left : List (Protocol × UInt16)}
    (hof : listenersOf [server] = [server])
    (hconstruct : construct numberOfCPUs s server =
      { s with servers := s.servers ++ [.init server.1 server.2] })
    (hudp : ∀ u ∈ s.udpServers, u.phase = .constructed)
    (h : Makes numberOfCPUs left { s with servers := s.servers ++ [.init server.1 server.2] }) :
    Makes numberOfCPUs (server :: left) s := by
  obtain ⟨events, s', hrun, hlimit, hservers, hudp'⟩ := h
  refine ⟨.main :: events, s', ?_, hlimit, ?_, hudp'⟩
  · rw [List.foldlM_cons, step_construct hudp, hconstruct]
    exact hrun
  · have hlisteners : listenersOf (server :: left) = server :: listenersOf left :=
      (List.filter_append [server] left).trans (congrArg (· ++ listenersOf left) hof)
    rw [hservers, hlisteners]
    simp

/-- The `cSocket::listen` of a UDP server throws. -/
theorem Makes.udp {port : UInt16} {left : List (Protocol × UInt16)}
    (hudp : ∀ u ∈ s.udpServers, u.phase = .constructed)
    (h : Makes numberOfCPUs left { s with
      common := { s.common with process := s.common.process.gone [] }
      udpServers := s.udpServers ++ [⟨.udp, port, 0, .constructed, []⟩] }) :
    Makes numberOfCPUs ((.udp, port) :: left) s := by
  obtain ⟨events, s', hrun, hlimit, hservers, hudp'⟩ := h
  have hperform : s.common.perform (listenThrowsOps s.common.next none) =
      some { s.common with process := s.common.process.gone [] } :=
    Common.perform_of_run (socketOps_error _)
  have hthrows : step numberOfCPUs ⟨.constructing left, construct numberOfCPUs s (.udp, port)⟩
      (.thread (.pool s.udpServers.length (.listenThrows none))) =
      some ⟨.constructing left, { s with
        common := { s.common with process := s.common.process.gone [] }
        udpServers := s.udpServers ++ [⟨.udp, port, 0, .constructed, []⟩] }⟩ := by
    simp [step, construct, ServerProcess.step, ResponderPool.step, ResponderPool.init, hperform]
  refine ⟨.main :: .thread (.pool s.udpServers.length (.listenThrows none)) :: events, s', ?_,
    hlimit, hservers, hudp'⟩
  rw [List.foldlM_cons, step_construct hudp, Option.bind_eq_bind, Option.bind_some,
    List.foldlM_cons, hthrows]
  exact hrun

theorem makes (numberOfCPUs : Int32) (left : List (Protocol × UInt16)) {s : ServerProcess}
    (hudp : ∀ u ∈ s.udpServers, u.phase = .constructed ∧ u.connThreads = []) :
    Makes numberOfCPUs left s := by
  induction left generalizing s with
  | nil => exact ⟨[], s, rfl, rfl, by simp [listenersOf], hudp⟩
  | cons server left ih =>
    have hpools : ∀ u ∈ s.udpServers, u.phase = .constructed := fun u hu => (hudp u hu).1
    obtain ⟨protocol, port⟩ := server
    cases protocol with
    | udp =>
      refine .udp hpools (ih fun u hu => ?_)
      rcases List.mem_append.mp hu with hu | hu
      · exact hudp u hu
      · obtain rfl := List.mem_singleton.mp hu
        exact ⟨rfl, rfl⟩
    | tcp | sctp | dccp => exact .listener rfl rfl hpools (ih hudp)

/-- The first listener waits, and the `k` behind it ended with a permit. -/
structure Failed (numberOfCPUs : Int32) (k : Nat) (s : ServerProcess) : Prop where
  kept : s.Kept numberOfCPUs
  threadLimit : s.common.threadLimit + k = 1000
  waiting : ∃ l, s.servers[0]? = some l ∧ l.phase = .waiting
  servers : ∀ l ∈ s.servers, l.connThreads = [] ∧
    (l.phase = .starting ∨ l.phase = .waiting ∨ l.phase = .terminated)
  starting : ∀ i l, k < i → s.servers[i]? = some l → l.phase = .starting
  udpServers : ∀ u ∈ s.udpServers, u.phase = .constructed ∧ u.connThreads = []

/-- A listener that starts can come to listen. -/
theorem exists_listen {c : Common} (hkept : c.process.Tidy) {l : ListenerThread}
    (hstarting : l.phase = .starting) :
    ∃ fd c' l', l.step (.listen fd) c = some (c', l') ∧ c'.threadLimit = c.threadLimit ∧
      l'.phase = .waiting ∧ l'.connThreads = l.connThreads ∧
      ∃ fd, c'.process.handle l'.sListener = some fd := by
  obtain ⟨fd, hfd⟩ := Infinite.exists_notMem_finset (c.process.opened.map Int.toNat).toFinset
  have hopen : ¬c.process.IsOpen fd := by
    have hcount : c.process.opened.count (fd : Int) = 0 := by
      rw [List.count_eq_zero]
      intro hmem
      exact hfd (List.mem_toFinset.mpr (List.mem_map.mpr ⟨_, hmem, Int.toNat_natCast fd⟩))
    rw [Process.IsOpen, hcount]
    exact Nat.not_lt_zero _
  have hrun : (listenOps c.next fd).foldlM Process.step c.process =
      some (c.process.returning fd) := by
    rw [listenOps, List.foldlM_append]
    have hsocket := socketOps_ok (Int.natCast_nonneg fd) hkept
    rw [if_neg hopen] at hsocket
    rw [Common.next, hsocket]
    exact opening_return _ _
  have hperform := Common.perform_of_run hrun
  refine ⟨fd, { c with process := c.process.returning fd },
    { l with phase := .waiting, sListener := c.next + 2 }, ?_, rfl, rfl, rfl, fd,
    handle_returning _ _⟩
  simp only [ListenerThread.step, hstarting, hperform, Option.map_some]

/-- With a permit it can end with it. -/
theorem exists_fail {c : Common} (hkept : c.process.Tidy) {l : ListenerThread}
    (hstarting : l.phase = .starting) {n : Nat} (hlimit : c.threadLimit = n + 1) :
    ∃ fd c₁ c₂ c₃ l₁ l₂ l₃, l.step (.listen fd) c = some (c₁, l₁) ∧
      l₁.step .wait c₁ = some (c₂, l₂) ∧ l₂.step .acceptThrows c₂ = some (c₃, l₃) ∧
      c₃.threadLimit = n ∧ l₃.phase = .terminated ∧ l₃.connThreads = l.connThreads := by
  obtain ⟨fd, c₁, l₁, hlisten, hlimit₁, hphase₁, hthreads₁, fd', hfd'⟩ :=
    exists_listen hkept hstarting
  have hwait : l₁.step .wait c₁ =
      some ({ c₁ with threadLimit := n }, { l₁ with phase := .accepting }) := by
    simp only [ListenerThread.step, hphase₁, hlimit₁, hlimit]
  obtain ⟨p, hp⟩ := exists_destroy hfd'
  have hperform := Common.perform_of_run (c := { c₁ with threadLimit := n }) hp
  have haccept : { l₁ with phase := .accepting }.step .acceptThrows { c₁ with threadLimit := n } =
      some (⟨p, n⟩, { l₁ with phase := .terminated }) := by
    simp only [ListenerThread.step, hperform, Option.map_some]
  exact ⟨fd, c₁, _, _, l₁, _, _, hlisten, hwait, haccept, rfl, rfl, hthreads₁⟩

/-- The listener behind those that ended can end too. -/
theorem Failed.next {k : Nat} (h : Failed numberOfCPUs k s) (hk : k < 1000)
    (hlength : k + 1 < s.servers.length) :
    ∃ (events : List ServerProcess.Event) (s' : ServerProcess),
      events.foldlM ServerProcess.step s = some s' ∧ Failed numberOfCPUs (k + 1) s' ∧
      s'.servers.length = s.servers.length := by
  obtain ⟨hkept, hlimit, ⟨l₀, hl₀, hwaiting⟩, hservers, hstarting, hudp⟩ := h
  obtain ⟨l, hl⟩ : ∃ l, s.servers[k + 1]? = some l := ⟨_, List.getElem?_eq_getElem hlength⟩
  obtain ⟨fd, c₁, c₂, c₃, l₁, l₂, l₃, h₁, h₂, h₃, hlimit₃, hphase₃, hthreads₃⟩ :=
    exists_fail hkept.divided.counted.tidy (hstarting (k + 1) l k.lt_succ_self hl)
      (show s.common.threadLimit = (999 - k) + 1 by omega)
  have hrun : [ServerProcess.Event.listener (k + 1) (.listen fd), .listener (k + 1) .wait,
      .listener (k + 1) .acceptThrows].foldlM ServerProcess.step s =
      some { s with common := c₃, servers := s.servers.set (k + 1) l₃ } := by
    have hself : ∀ l', (s.servers.set (k + 1) l')[k + 1]? = some l' := fun l' =>
      List.getElem?_set_self hlength
    simp only [List.foldlM_cons, List.foldlM_nil, ServerProcess.step, hl, h₁, h₂, h₃, hself,
      List.set_set, Option.bind_eq_bind, Option.bind_some, Option.pure_def]
  refine ⟨_, _, hrun, ⟨?_, ?_, ⟨l₀, ?_, hwaiting⟩, ?_, ?_, hudp⟩, List.length_set⟩
  · exact foldlM_invariant (fun _ _ _ hstep h => h.step hstep) _ hrun hkept
  · show c₃.threadLimit + (k + 1) = 1000
    omega
  · rw [List.getElem?_set_ne (Nat.succ_ne_zero k)]
    exact hl₀
  · refine forall_mem_set hservers ⟨?_, .inr (.inr hphase₃)⟩
    exact hthreads₃.trans (hservers l (List.mem_of_getElem? hl)).1
  · intro i l' hi hl'
    rw [List.getElem?_set_ne (by omega)] at hl'
    exact hstarting i l' (by omega) hl'

theorem exists_failed : ∀ (k : Nat) {s : ServerProcess}, Failed numberOfCPUs 0 s → k ≤ 1000 →
    k < s.servers.length → ∃ (events : List ServerProcess.Event) (s' : ServerProcess),
      events.foldlM ServerProcess.step s = some s' ∧ Failed numberOfCPUs k s' ∧
      s'.servers.length = s.servers.length
  | 0, s, h, _, _ => ⟨[], s, rfl, h, rfl⟩
  | k + 1, s, h, hk, hlength => by
    obtain ⟨events, s₁, hrun, h₁, hlength₁⟩ := exists_failed k h (by omega) (by omega)
    obtain ⟨more, s₂, hmore, h₂, hlength₂⟩ := h₁.next (by omega) (by omega)
    refine ⟨events ++ more, s₂, ?_, h₂, hlength₂.trans hlength₁⟩
    rw [List.foldlM_append, hrun]
    exact hmore

theorem run_thread (numberOfCPUs : Int32) (main : ServerMain) :
    ∀ (events : List ServerProcess.Event) {s s' : ServerProcess},
      events.foldlM ServerProcess.step s = some s' →
      (events.map Event.thread).foldlM (step numberOfCPUs) ⟨main, s⟩ = some ⟨main, s'⟩
  | [], s, s', hrun => by
    obtain rfl := Option.some.inj hrun
    rfl
  | e :: events, s, s', hrun => by
    rw [List.foldlM_cons] at hrun
    obtain ⟨s₁, hstep, hrest⟩ := Option.bind_eq_some_iff.mp hrun
    have hthread : step numberOfCPUs ⟨main, s⟩ (.thread e) = some ⟨main, s₁⟩ := by
      rw [step, hstep, Option.map_some]
    rw [List.map_cons, List.foldlM_cons, hthread]
    exact run_thread numberOfCPUs main events hrest

/-- The first one of listeners that start comes to wait. -/
theorem exists_failed_zero (hkept : s.Kept numberOfCPUs) (hlimit : s.common.threadLimit = 1000)
    (hnew : ∀ l ∈ s.servers, l.connThreads = [] ∧ l.phase = .starting)
    (hlength : 0 < s.servers.length)
    (hudp : ∀ u ∈ s.udpServers, u.phase = .constructed ∧ u.connThreads = []) :
    ∃ (e : ServerProcess.Event) (s' : ServerProcess), s.step e = some s' ∧
      Failed numberOfCPUs 0 s' ∧ s'.servers.length = s.servers.length := by
  obtain ⟨l, hl⟩ : ∃ l, s.servers[0]? = some l := ⟨_, List.getElem?_eq_getElem hlength⟩
  obtain ⟨hthreads, hstarting⟩ := hnew l (List.mem_of_getElem? hl)
  obtain ⟨fd, c, l', hlisten, hlimit', hwaiting, hthreads', -⟩ :=
    exists_listen hkept.divided.counted.tidy hstarting
  have hstep : s.step (.listener 0 (.listen fd)) =
      some { s with common := c, servers := s.servers.set 0 l' } := by
    simp only [ServerProcess.step, hl, hlisten, Option.bind_eq_bind, Option.bind_some]
  refine ⟨_, _, hstep, ⟨hkept.step hstep, hlimit'.trans hlimit, ⟨l', ?_, hwaiting⟩, ?_, ?_, hudp⟩,
    List.length_set⟩
  · exact List.getElem?_set_self hlength
  · exact forall_mem_set (fun l hl => ⟨(hnew l hl).1, .inl (hnew l hl).2⟩)
      ⟨hthreads'.trans hthreads, .inr (.inl hwaiting)⟩
  · intro i l₁ hi hl₁
    rw [List.getElem?_set_ne hi.ne] at hl₁
    exact (hnew l₁ (List.mem_of_getElem? hl₁)).2

/-- More than 1000 listeners can take the permits away from each other for good. -/
theorem exists_stuck (numberOfCPUs : Int32) {left : List (Protocol × UInt16)}
    (hmany : 1000 < (listenersOf left).length) : ∃ (events : List Event) (p : ServerProgram),
      events.foldlM (step numberOfCPUs) (start left) = some p ∧ p.Stuck := by
  obtain ⟨events, s, hrun, hlimit, hservers, hudp⟩ :=
    makes numberOfCPUs left (s := (start left).process) (by simp [start])
  have hmade : events.foldlM (step numberOfCPUs) (start left) = some ⟨.constructing [], s⟩ := hrun
  have hkept : s.Kept numberOfCPUs := (run_joins hmade).process
  have hnew : ∀ l ∈ s.servers, l.connThreads = [] ∧ l.phase = .starting := by
    rw [hservers]
    intro l hl
    obtain ⟨q, -, rfl⟩ := List.mem_map.mp hl
    exact ⟨rfl, rfl⟩
  have hlength : 1000 < s.servers.length := by
    rw [hservers]
    simpa [start] using hmany
  obtain ⟨e, s₁, hstep, hfailed, hlength₁⟩ :=
    exists_failed_zero hkept hlimit hnew (Nat.zero_lt_of_lt hlength) hudp
  obtain ⟨more, s', hmore, hend, -⟩ := exists_failed 1000 hfailed le_rfl (hlength₁ ▸ hlength)
  have hthread : (e :: more).foldlM ServerProcess.step s = some s' := by
    rw [List.foldlM_cons, hstep]
    exact hmore
  have hrun' := run_thread numberOfCPUs (.constructing []) _ hthread
  refine ⟨events ++ (e :: more).map .thread, ⟨.constructing [], s'⟩, ?_, ?_⟩
  · rw [List.foldlM_append, hmade]
    exact hrun'
  · obtain ⟨l₀, hl₀, hwaiting₀⟩ := hend.waiting
    have hzero := hend.threadLimit
    refine ⟨fun left hleft => ?_, ?_, ⟨0, l₀, hl₀, hwaiting₀⟩, hend.servers, hend.udpServers⟩
    · cases hleft
      rfl
    · show s'.common.threadLimit = 0
      omega

theorem length_listenersOf (ports : List Nat) :
    (listenersOf (ports.flatMap fun port => [(.tcp, .ofNat port), (.sctp, .ofNat port),
      (.dccp, .ofNat port), (.udp, .ofNat port)])).length = 3 * ports.length := by
  induction ports with
  | nil => rfl
  | cons port ports ih =>
    rw [List.flatMap_cons, listenersOf, List.filter_append, List.length_append]
    rw [listenersOf] at ih
    rw [ih, List.length_cons]
    simp
    omega

/-- In every state `execute` can still be brought to return if and only if there is a permit for
each listener. -/
theorem always_returns_iff (numberOfCPUs : Int32) (portList : List (Nat × Nat)) :
    (∀ (events : List Event) (p : ServerProgram),
      events.foldlM (step numberOfCPUs) (execute portList) = some p →
      ∃ (more : List Event) (p' : ServerProgram),
        more.foldlM (step numberOfCPUs) p = some p' ∧ p'.main = .returned) ↔
      3 * (Servers.ports portList).length ≤ 1000 := by
  rw [← length_listenersOf]
  constructor
  · intro hall
    by_contra hmany
    obtain ⟨events, p, hrun, hstuck⟩ := exists_stuck numberOfCPUs (Nat.lt_of_not_le hmany)
    obtain ⟨more, p', hmore, hmain⟩ := hall events p hrun
    exact hstuck.run_ne (run_joins hrun) hmore hmain
  · intro hfew events p hrun
    obtain ⟨more, p', hmore, hcomplete⟩ := exists_run_complete hfew hrun
    have hrun' : (events ++ more).foldlM (step numberOfCPUs) (execute portList) = some p' := by
      rw [List.foldlM_append, hrun]
      exact hmore
    obtain ⟨own, p₁, -, hown, hreturned⟩ := hcomplete.returns (run_joins hrun')
    refine ⟨more ++ own, p₁, ?_, hreturned⟩
    rw [List.foldlM_append, hmore]
    exact hown

end ServerProgram

end NetBabbler
