import NetBabbler.ServerProcess

/-!
# The server's program

`cApplication::execute` on the server's side as a whole. The main thread makes the servers of
all ports and destroys them again, as they go out of scope : the UDP servers, the others, and
then the semaphore. A destructor joins the threads of its server, which are meanwhile in any
state and make threads of their own.

`run_joined` : all that a thread uses outlives it, and nothing is open as `execute` returns.
`Complete.returns` : the main thread gets to its end alone where nothing is left to be made and
all threads ended.
-/

namespace NetBabbler

open Interleaving Process Sharing

/-- Where the main thread is. -/
inductive ServerMain where
  /-- In the loops over `portList`, with the servers to come. -/
  | constructing (left : List (Protocol × UInt16))
  /-- In the destructor of this UDP server, at the thread of the second index. -/
  | deletingUdp (i k : Nat)
  /-- In the destructor of this server, at the `join` of its listener. -/
  | joining (i : Nat)
  /-- Behind it, at the thread of the second index. -/
  | deleting (i k : Nat)
  /-- Behind the destructor of the semaphore. -/
  | returned
  deriving DecidableEq

namespace ServerMain

/-- A thread of a UDP server is deleted. -/
def deletedUdp : ServerMain → Nat → Nat → Prop
  | .constructing _, _, _ => False
  | .deletingUdp i n, j, k => j < i ∨ j = i ∧ k < n
  | .joining _, _, _ | .deleting _ _, _, _ | .returned, _, _ => True

/-- The listener of a server is joined. -/
def joined : ServerMain → Nat → Prop
  | .constructing _, _ | .deletingUdp _ _, _ => False
  | .joining i, j => j < i
  | .deleting i _, j => j ≤ i
  | .returned, _ => True

/-- A thread that a server has left is deleted. -/
def deleted : ServerMain → Nat → Nat → Prop
  | .constructing _, _, _ | .deletingUdp _ _, _, _ => False
  | .joining i, j, _ => j < i
  | .deleting i n, j, k => j < i ∨ j = i ∧ k < n
  | .returned, _, _ => True

theorem deleted.joined {m : ServerMain} {i k : Nat} (h : m.deleted i k) : m.joined i := by
  cases m with
  | deleting j n =>
    rcases h with hlt | ⟨rfl, -⟩
    · exact hlt.le
    · exact le_rfl
  | _ => exact h

end ServerMain

/-- The main thread, and the process that it shares with the threads of its servers. -/
structure ServerProgram where
  main : ServerMain
  process : ServerProcess

namespace ServerProgram

/-- The constructor of a server, which for a UDP server is still to call `cSocket::listen`. -/
def construct (numberOfCPUs : Int32) (s : ServerProcess) : Protocol × UInt16 → ServerProcess
  | (.udp, port) => { s with udpServers := s.udpServers ++ [.init numberOfCPUs .udp port] }
  | (protocol, port) => { s with servers := s.servers ++ [.init protocol port] }

/-- The step of the main thread. -/
def mainStep (numberOfCPUs : Int32) (p : ServerProgram) : Option ServerProgram :=
  match p.main with
  | .constructing left =>
    -- the main thread is in the constructor of the last UDP server until it is constructed
    if ∀ u ∈ p.process.udpServers, u.phase = .constructed then
      match left with
      | [] => some { p with main := .deletingUdp 0 0 }
      | server :: left => some ⟨.constructing left, construct numberOfCPUs p.process server⟩
    else none
  | .deletingUdp i k =>
    match p.process.udpServers[i]? with
    | none => some { p with main := .joining 0 }
    | some u =>
      match u.connThreads[k]? with
      | none => some { p with main := .deletingUdp (i + 1) 0 }
      | some t => if t.phase = .ended then some { p with main := .deletingUdp i (k + 1) } else none
  | .joining i =>
    match p.process.servers[i]? with
    | none => some { p with main := .returned }
    | some l => if l.phase = .terminated then some { p with main := .deleting i 0 } else none
  | .deleting i k =>
    match p.process.servers[i]? with
    | none => none
    | some l =>
      match l.connThreads[k]? with
      | none => some { p with main := .joining (i + 1) }
      | some t => if t.phase = .ended then some { p with main := .deleting i (k + 1) } else none
  | .returned => none

/-- The main thread gets on, or another one does. -/
inductive Event where
  | main
  | thread (e : ServerProcess.Event)
  deriving DecidableEq

/-- A step of the main thread, which is also the one in the constructors of the UDP servers. -/
def Event.Own : Event → Prop
  | .main | .thread (.pool _ _) => True
  | .thread _ => False

/-- A step of a thread. -/
def step (numberOfCPUs : Int32) (p : ServerProgram) : Event → Option ServerProgram
  | .main => p.mainStep numberOfCPUs
  | .thread e => (p.process.step e).map fun s => { p with process := s }

/-- Before the loops over `portList`. -/
def start (left : List (Protocol × UInt16)) : ServerProgram :=
  ⟨.constructing left, ⟨⟨{}, 1000⟩, [], []⟩⟩

/-- The server branch of `cApplication::execute`. -/
def execute (portList : List (Nat × Nat)) : ServerProgram :=
  start ((Servers.ports portList).flatMap fun port =>
    [(.tcp, .ofNat port), (.sctp, .ofNat port), (.dccp, .ofNat port), (.udp, .ofNat port)])

/-- The main thread starts with the servers that the loops make, as long as no range goes up to the
last number of 64 bits. -/
theorem execute_of_loops {portList : List (UInt64 × UInt64)}
    (h : ∀ r ∈ portList, r.2.toNat + 1 < 2 ^ 64) :
    ∃ rounds left, Application.servers rounds portList = some left ∧
      execute (Servers.rangesOf portList) = start left := by
  refine ⟨2 ^ 64, _, Application.rangeLoop_eq h h, ?_⟩
  rw [execute, Servers.ports_rangesOf]

end ServerProgram

/-- All threads of the servers ended. -/
structure ServerProcess.Ended (s : ServerProcess) : Prop where
  servers : ∀ l ∈ s.servers, l.phase = .terminated ∧ ∀ t ∈ l.connThreads, t.phase = .ended
  udpServers : ∀ u ∈ s.udpServers,
    u.phase = .constructed ∧ ∀ t ∈ u.connThreads, t.phase = .ended

/-! ## What is at its end -/

section Settled

variable {c : Common}

theorem ConnectionThread.step_ended {t : ConnectionThread} (h : t.phase = .ended)
    (e : ConnectionEvent) : t.step e c = none := by
  cases e <;> simp [step, h]

theorem ListenerThread.step_terminated {l : ListenerThread} (h : l.phase = .terminated)
    (e : ListenerCall) : l.step e c = none := by
  cases e <;> simp [step, h]

theorem ResponderPool.step_constructed {u : ResponderPool} (h : u.phase = .constructed)
    (e : PoolCall) : u.step e c = none := by
  cases e <;> simp [step, h]

end Settled

namespace ServerProcess

variable {s s' : ServerProcess} {e : Event} {numberOfCPUs : Int32}

theorem Ended.unused (h : s.Ended) : s.listening + s.connections + s.pools = 0 := by
  have hlistening : s.listening = 0 := List.sum_eq_zero fun n hn => by
    obtain ⟨l, hl, rfl⟩ := List.mem_map.mp hn
    rw [ListenerThread.listening, (h.servers l hl).1]
    rfl
  have hconnections : s.connections = 0 := List.sum_eq_zero fun n hn => by
    obtain ⟨l, hl, rfl⟩ := List.mem_map.mp hn
    refine List.sum_eq_zero fun n hn => ?_
    obtain ⟨t, ht, rfl⟩ := List.mem_map.mp hn
    rw [ConnectionThread.opened, if_pos ((h.servers l hl).2 t ht)]
  have hpools : s.pools = 0 := List.sum_eq_zero fun n hn => by
    obtain ⟨u, hu, rfl⟩ := List.mem_map.mp hn
    obtain ⟨hphase, hthreads⟩ := h.udpServers u hu
    have hgroup : u.group = 0 := by
      rw [ResponderPool.group, hphase, zero_add]
      refine List.sum_eq_zero fun g hg => ?_
      obtain ⟨t, ht, rfl⟩ := List.mem_map.mp hg
      rw [ConnectionThread.group, if_pos (hthreads t ht)]
    rw [if_pos hgroup]
  omega

/-- Where all threads ended, each descriptor was closed as often as it was opened. -/
theorem Ended.count_eq (h : s.Ended) (hkept : s.Kept numberOfCPUs) {fd : Int} (hfd : 0 ≤ fd) :
    s.common.process.opened.count fd = s.common.process.closed.count fd := by
  have hzero : ∀ g ∈ s.groups, ¬g ≠ 0 := by
    rw [← Multiset.countP_eq_zero, countP_groups, h.unused]
  have hnot : ¬0 < s.common.process.live fd := by
    intro hpos
    obtain ⟨i, hi⟩ := List.mem_iff_getElem?.mp (List.count_pos_iff.mp hpos)
    have hheld := held_eq_some.mpr ⟨handle_eq_some.mpr hi, hfd⟩
    obtain ⟨g, hg, hall⟩ := hkept.divided.groups.exists_group hheld
    have hmem := (hall i).mpr hheld
    rw [not_not.mp (hzero g hg)] at hmem
    exact Multiset.notMem_zero i hmem
  have hclosed := hkept.divided.counted.closed fd hfd
  rw [if_neg hnot, add_zero] at hclosed
  exact hclosed.symm

end ServerProcess

/-! ## What the main thread has joined -/

namespace ServerProgram

open ServerProcess (Kept)

variable {numberOfCPUs : Int32} {s : ServerProcess} {p p' : ServerProgram}

/-- The process keeps its invariant, and all that was joined is at its end. -/
structure Joins (numberOfCPUs : Int32) (p : ServerProgram) : Prop where
  process : p.process.Kept numberOfCPUs
  constructed : (∀ left, p.main ≠ .constructing left) →
    ∀ u ∈ p.process.udpServers, u.phase = .constructed
  deletedUdp : ∀ i k u t, p.main.deletedUdp i k → p.process.udpServers[i]? = some u →
    u.connThreads[k]? = some t → t.phase = .ended
  joined : ∀ i l, p.main.joined i → p.process.servers[i]? = some l → l.phase = .terminated
  deleted : ∀ i k l t, p.main.deleted i k → p.process.servers[i]? = some l →
    l.connThreads[k]? = some t → t.phase = .ended
  inside : ∀ i k, p.main = .deleting i k → i < p.process.servers.length

theorem kept_construct (h : s.Kept numberOfCPUs) (server : Protocol × UInt16) :
    (construct numberOfCPUs s server).Kept numberOfCPUs := by
  have hservers : ∀ protocol port, Kept numberOfCPUs
      { s with servers := s.servers ++ [.init protocol port] } := fun protocol port => by
    refine ⟨?_, h.pools⟩
    have hgroups : ServerProcess.groups { s with servers := s.servers ++ [.init protocol port] } =
        0 ::ₘ s.groups := by
      simp only [ServerProcess.groups, List.map_append, List.map_singleton, List.sum_append,
        List.sum_singleton, ← Multiset.singleton_add]
      show _ + {0} + _ = _
      abel
    rw [hgroups]
    exact divided_zero_cons.mpr h.divided
  obtain ⟨protocol, port⟩ := server
  cases protocol with
  | udp =>
    refine ⟨?_, fun u hu => ?_⟩
    · have hgroups : (construct numberOfCPUs s (.udp, port)).groups = 0 ::ₘ s.groups := by
        simp only [construct, ServerProcess.groups, List.map_append, List.map_singleton,
          List.sum_append, List.sum_singleton, ← Multiset.singleton_add]
        show _ + (_ + {0}) = _
        abel
      rw [hgroups]
      exact divided_zero_cons.mpr h.divided
    · rcases List.mem_append.mp hu with hu | hu
      · exact h.pools u hu
      · obtain rfl := List.mem_singleton.mp hu
        exact ⟨fun _ => ⟨rfl, by simp [ResponderPool.init]⟩, (Nat.zero_add _).le⟩
  | _ => exact hservers _ _

/-- What the main thread does. -/
inductive MainMoves (numberOfCPUs : Int32) (p : ServerProgram) : ServerProgram → Prop
  | construct (server : Protocol × UInt16) (left : List (Protocol × UInt16))
      (hmain : p.main = .constructing (server :: left))
      (hpools : ∀ u ∈ p.process.udpServers, u.phase = .constructed) :
    MainMoves numberOfCPUs p ⟨.constructing left, construct numberOfCPUs p.process server⟩
  | constructed (hmain : p.main = .constructing [])
      (hpools : ∀ u ∈ p.process.udpServers, u.phase = .constructed) :
    MainMoves numberOfCPUs p { p with main := .deletingUdp 0 0 }
  | deleteUdp (i k : Nat) (u : ResponderPool) (t : ConnectionThread)
      (hmain : p.main = .deletingUdp i k) (hu : p.process.udpServers[i]? = some u)
      (ht : u.connThreads[k]? = some t) (hended : t.phase = .ended) :
    MainMoves numberOfCPUs p { p with main := .deletingUdp i (k + 1) }
  | nextUdp (i k : Nat) (u : ResponderPool) (hmain : p.main = .deletingUdp i k)
      (hu : p.process.udpServers[i]? = some u) (ht : u.connThreads[k]? = none) :
    MainMoves numberOfCPUs p { p with main := .deletingUdp (i + 1) 0 }
  | lastUdp (i k : Nat) (hmain : p.main = .deletingUdp i k)
      (hu : p.process.udpServers[i]? = none) :
    MainMoves numberOfCPUs p { p with main := .joining 0 }
  | join (i : Nat) (l : ListenerThread) (hmain : p.main = .joining i)
      (hl : p.process.servers[i]? = some l) (hended : l.phase = .terminated) :
    MainMoves numberOfCPUs p { p with main := .deleting i 0 }
  | last (i : Nat) (hmain : p.main = .joining i) (hl : p.process.servers[i]? = none) :
    MainMoves numberOfCPUs p { p with main := .returned }
  | delete (i k : Nat) (l : ListenerThread) (t : ConnectionThread)
      (hmain : p.main = .deleting i k) (hl : p.process.servers[i]? = some l)
      (ht : l.connThreads[k]? = some t) (hended : t.phase = .ended) :
    MainMoves numberOfCPUs p { p with main := .deleting i (k + 1) }
  | next (i k : Nat) (l : ListenerThread) (hmain : p.main = .deleting i k)
      (hl : p.process.servers[i]? = some l) (ht : l.connThreads[k]? = none) :
    MainMoves numberOfCPUs p { p with main := .joining (i + 1) }

theorem mainStep_iff : p.mainStep numberOfCPUs = some p' ↔ MainMoves numberOfCPUs p p' := by
  constructor
  · intro h
    obtain ⟨main, process⟩ := p
    cases main <;> simp only [mainStep, reduceCtorEq] at h
    case constructing left =>
      split_ifs at h with hpools
      cases left with
      | nil =>
        obtain rfl := Option.some.inj h
        exact .constructed rfl hpools
      | cons server left =>
        obtain rfl := Option.some.inj h
        exact .construct server left rfl hpools
    case deletingUdp i k =>
      cases hu : process.udpServers[i]? with
      | none =>
        obtain rfl := Option.some.inj (hu ▸ h)
        exact .lastUdp i k rfl hu
      | some u =>
        simp only [hu] at h
        cases ht : u.connThreads[k]? with
        | none =>
          obtain rfl := Option.some.inj (ht ▸ h)
          exact .nextUdp i k u rfl hu ht
        | some t =>
          simp only [ht] at h
          split_ifs at h with hended
          obtain rfl := Option.some.inj h
          exact .deleteUdp i k u t rfl hu ht hended
    case joining i =>
      cases hl : process.servers[i]? with
      | none =>
        obtain rfl := Option.some.inj (hl ▸ h)
        exact .last i rfl hl
      | some l =>
        simp only [hl] at h
        split_ifs at h with hended
        obtain rfl := Option.some.inj h
        exact .join i l rfl hl hended
    case deleting i k =>
      cases hl : process.servers[i]? with
      | none => simp [hl] at h
      | some l =>
        simp only [hl] at h
        cases ht : l.connThreads[k]? with
        | none =>
          obtain rfl := Option.some.inj (ht ▸ h)
          exact .next i k l rfl hl ht
        | some t =>
          simp only [ht] at h
          split_ifs at h with hended
          obtain rfl := Option.some.inj h
          exact .delete i k l t rfl hl ht hended
  · intro h
    obtain ⟨main, process⟩ := p
    cases h with
    | construct server left hmain hpools | constructed hmain hpools =>
      obtain rfl : main = _ := hmain
      exact if_pos hpools
    | deleteUdp i k u t hmain hu ht hended =>
      obtain rfl : main = _ := hmain
      simp only [mainStep, hu, ht, if_pos hended]
    | nextUdp i k u hmain hu ht =>
      obtain rfl : main = _ := hmain
      simp only [mainStep, hu, ht]
    | lastUdp i k hmain hu =>
      obtain rfl : main = _ := hmain
      simp only [mainStep, hu]
    | join i l hmain hl hended =>
      obtain rfl : main = _ := hmain
      simp only [mainStep, hl, if_pos hended]
    | last i hmain hl =>
      obtain rfl : main = _ := hmain
      simp only [mainStep, hl]
    | delete i k l t hmain hl ht hended =>
      obtain rfl : main = _ := hmain
      simp only [mainStep, hl, ht, if_pos hended]
    | next i k l hmain hl ht =>
      obtain rfl : main = _ := hmain
      simp only [mainStep, hl, ht]

/-- A step of a thread leaves those alone that ended. -/
theorem Joins.thread {e : ServerProcess.Event} (h : p.Joins numberOfCPUs)
    (hstep : p.process.step e = some s) : Joins numberOfCPUs { p with process := s } := by
  obtain ⟨hprocess, hconstructed, hdeletedUdp, hjoined, hdeleted, hinside⟩ := h
  have hkept := hprocess.step hstep
  cases ServerProcess.step_spec hstep with
  | @listener i l l' e c hl hl' =>
    have hbusy : ¬p.main.joined i := fun hmain => by
      rw [ListenerThread.step_terminated (hjoined i l hmain hl)] at hl'
      cases hl'
    refine ⟨hkept, hconstructed, hdeletedUdp, fun j l₁ hmain hl₁ => ?_,
      fun j k l₁ t hmain hl₁ => ?_, by simpa using hinside⟩
    · rcases getElem?_set_eq_some hl₁ with ⟨rfl, -⟩ | ⟨-, hl₁⟩
      · exact absurd hmain hbusy
      · exact hjoined j l₁ hmain hl₁
    · rcases getElem?_set_eq_some hl₁ with ⟨rfl, -⟩ | ⟨-, hl₁⟩
      · exact absurd hmain.joined hbusy
      · exact hdeleted j k l₁ t hmain hl₁
  | @connection i k l t t' e c hl ht ht' =>
    have hbusy : ¬p.main.deleted i k := fun hmain => by
      rw [ConnectionThread.step_ended (hdeleted i k l t hmain hl ht)] at ht'
      cases ht'
    refine ⟨hkept, hconstructed, hdeletedUdp, fun j l₁ hmain hl₁ => ?_,
      fun j n l₁ t₁ hmain hl₁ ht₁ => ?_, by simpa using hinside⟩
    · rcases getElem?_set_eq_some hl₁ with ⟨rfl, rfl⟩ | ⟨-, hl₁⟩
      · exact hjoined j l hmain hl
      · exact hjoined j l₁ hmain hl₁
    · rcases getElem?_set_eq_some hl₁ with ⟨rfl, rfl⟩ | ⟨-, hl₁⟩
      · rcases getElem?_set_eq_some ht₁ with ⟨rfl, -⟩ | ⟨-, ht₁⟩
        · exact absurd hmain hbusy
        · exact hdeleted j n l t₁ hmain hl ht₁
      · exact hdeleted j n l₁ t₁ hmain hl₁ ht₁
  | @pool i u u' e c hu hu' =>
    by_cases hmain : ∀ left, p.main ≠ .constructing left
    · have hphase := hconstructed hmain u (List.mem_of_getElem? hu)
      rw [ResponderPool.step_constructed hphase] at hu'
      cases hu'
    · obtain ⟨left, hmain⟩ := not_forall_not.mp hmain
      exact ⟨hkept, fun hne => absurd hmain (hne left), hmain ▸ nofun, hmain ▸ nofun,
        hmain ▸ nofun, hinside⟩
  | @responder i k u t t' e c hu ht ht' =>
    have hbusy : ¬p.main.deletedUdp i k := fun hmain => by
      rw [ConnectionThread.step_ended (hdeletedUdp i k u t hmain hu ht)] at ht'
      cases ht'
    refine ⟨hkept, fun hne => ?_, fun j n u₁ t₁ hmain hu₁ ht₁ => ?_, hjoined, hdeleted,
      hinside⟩
    · have hphase := hconstructed hne
      exact forall_mem_set hphase (hphase u (List.mem_of_getElem? hu))
    · rcases getElem?_set_eq_some hu₁ with ⟨rfl, rfl⟩ | ⟨-, hu₁⟩
      · rcases getElem?_set_eq_some ht₁ with ⟨rfl, -⟩ | ⟨-, ht₁⟩
        · exact absurd hmain hbusy
        · exact hdeletedUdp j n u t₁ hmain hu ht₁
      · exact hdeletedUdp j n u₁ t₁ hmain hu₁ ht₁

section Deleted

variable {β : Type*} {servers : List β} (connThreads : β → List ConnectionThread) {i k : Nat}
  {b : β} (h : ∀ j n b t, j < i ∨ j = i ∧ n < k → servers[j]? = some b →
    (connThreads b)[n]? = some t → t.phase = .ended)
include h

/-- One more thread of the `i`-th server is at its end. -/
theorem ended_succ (hb : servers[i]? = some b) {t : ConnectionThread}
    (ht : (connThreads b)[k]? = some t) (hended : t.phase = .ended) (j n : Nat) (b' : β)
    (t' : ConnectionThread) (hlt : j < i ∨ j = i ∧ n < k + 1) (hb' : servers[j]? = some b')
    (ht' : (connThreads b')[n]? = some t') : t'.phase = .ended := by
  rcases hlt with hlt | ⟨rfl, hlt⟩
  · exact h j n b' t' (.inl hlt) hb' ht'
  · rcases Nat.lt_succ_iff_lt_or_eq.mp hlt with hlt | rfl
    · exact h j n b' t' (.inr ⟨rfl, hlt⟩) hb' ht'
    · obtain rfl := Option.some.inj (hb.symm.trans hb')
      obtain rfl := Option.some.inj (ht.symm.trans ht')
      exact hended

/-- The `i`-th server has no more threads. -/
theorem ended_next (hb : servers[i]? = some b) (ht : (connThreads b)[k]? = none) (j n : Nat)
    (b' : β) (t' : ConnectionThread) (hlt : j < i + 1) (hb' : servers[j]? = some b')
    (ht' : (connThreads b')[n]? = some t') : t'.phase = .ended := by
  rcases Nat.lt_succ_iff_lt_or_eq.mp hlt with hlt | rfl
  · exact h j n b' t' (.inl hlt) hb' ht'
  · obtain rfl := Option.some.inj (hb.symm.trans hb')
    have hn := (List.getElem?_eq_some_iff.mp ht').1
    exact h j n b t' (.inr ⟨rfl, hn.trans_le (List.getElem?_eq_none_iff.mp ht)⟩) hb ht'

end Deleted

/-- What the main thread joins is at its end. -/
theorem Joins.main (h : p.Joins numberOfCPUs) (hstep : p.mainStep numberOfCPUs = some p') :
    p'.Joins numberOfCPUs := by
  obtain ⟨hprocess, hconstructed, hdeletedUdp, hjoined, hdeleted, hinside⟩ := h
  cases mainStep_iff.mp hstep with
  | construct server left hmain hpools =>
    exact ⟨kept_construct hprocess server, fun hne => absurd rfl (hne left), nofun, nofun, nofun,
      nofun⟩
  | constructed hmain hpools =>
    refine ⟨hprocess, fun _ => hpools, fun i k u t hmain' => ?_, nofun, nofun, nofun⟩
    rcases hmain' with hlt | ⟨-, hlt⟩ <;> exact absurd hlt (Nat.not_lt_zero _)
  | deleteUdp i k u t hmain hu ht hended =>
    rw [hmain] at hconstructed hdeletedUdp
    exact ⟨hprocess, fun _ => hconstructed nofun,
      ended_succ ResponderPool.connThreads hdeletedUdp hu ht hended, nofun, nofun, nofun⟩
  | nextUdp i k u hmain hu ht =>
    rw [hmain] at hconstructed hdeletedUdp
    refine ⟨hprocess, fun _ => hconstructed nofun, fun j n u' t' hmain' hu' ht' => ?_, nofun,
      nofun, nofun⟩
    rcases hmain' with hlt | ⟨-, hlt⟩
    · exact ended_next ResponderPool.connThreads hdeletedUdp hu ht j n u' t' hlt hu' ht'
    · exact absurd hlt (Nat.not_lt_zero _)
  | lastUdp i k hmain hu =>
    rw [hmain] at hconstructed hdeletedUdp
    refine ⟨hprocess, fun _ => hconstructed nofun, fun j n u' t' _ hu' ht' => ?_, nofun, nofun,
      nofun⟩
    refine hdeletedUdp j n u' t' (.inl ?_) hu' ht'
    have hlen := List.getElem?_eq_none_iff.mp hu
    exact (List.getElem?_eq_some_iff.mp hu').1.trans_le hlen
  | join i l hmain hl hended =>
    rw [hmain] at hconstructed hdeletedUdp hjoined hdeleted
    refine ⟨hprocess, fun _ => hconstructed nofun, fun j n u t _ => hdeletedUdp j n u t trivial,
      fun j l' hle hl' => ?_, fun j n l' t hmain' hl' ht' => ?_, fun i' k' heq => ?_⟩
    · rcases Nat.lt_or_eq_of_le hle with hlt | rfl
      · exact hjoined j l' hlt hl'
      · obtain rfl := Option.some.inj (hl.symm.trans hl')
        exact hended
    · rcases hmain' with hlt | ⟨-, hlt⟩
      · exact hdeleted j n l' t hlt hl' ht'
      · exact absurd hlt (Nat.not_lt_zero _)
    · cases heq
      exact (List.getElem?_eq_some_iff.mp hl).1
  | last i hmain hl =>
    rw [hmain] at hconstructed hdeletedUdp hjoined hdeleted
    have hall : ∀ {j l'}, p.process.servers[j]? = some l' → j < i := fun hl' =>
      (List.getElem?_eq_some_iff.mp hl').1.trans_le (List.getElem?_eq_none_iff.mp hl)
    exact ⟨hprocess, fun _ => hconstructed nofun, fun j n u t _ => hdeletedUdp j n u t trivial,
      fun j l' _ hl' => hjoined j l' (hall hl') hl',
      fun j n l' t _ hl' => hdeleted j n l' t (hall hl') hl', nofun⟩
  | delete i k l t hmain hl ht hended =>
    rw [hmain] at hconstructed hdeletedUdp hjoined hdeleted
    refine ⟨hprocess, fun _ => hconstructed nofun, fun j n u t _ => hdeletedUdp j n u t trivial,
      hjoined, ended_succ ListenerThread.connThreads hdeleted hl ht hended, fun i' k' heq => ?_⟩
    cases heq
    exact (List.getElem?_eq_some_iff.mp hl).1
  | next i k l hmain hl ht =>
    rw [hmain] at hconstructed hdeletedUdp hjoined hdeleted
    exact ⟨hprocess, fun _ => hconstructed nofun, fun j n u t _ => hdeletedUdp j n u t trivial,
      fun j l' hlt hl' => hjoined j l' (Nat.lt_succ_iff.mp hlt) hl',
      ended_next ListenerThread.connThreads hdeleted hl ht, nofun⟩

theorem Joins.step {e : Event} (h : p.Joins numberOfCPUs)
    (hstep : p.step numberOfCPUs e = some p') : p'.Joins numberOfCPUs := by
  cases e with
  | main => exact h.main hstep
  | thread e =>
    obtain ⟨s, hs, rfl⟩ := Option.map_eq_some_iff.mp hstep
    exact h.thread hs

theorem joins_start (numberOfCPUs : Int32) (left : List (Protocol × UInt16)) :
    (start left).Joins numberOfCPUs := by
  refine ⟨⟨?_, by simp [start]⟩, fun hne => absurd rfl (hne left), nofun, nofun, nofun,
    nofun⟩
  exact divided_init

theorem Joins.ended (h : p.Joins numberOfCPUs) (hmain : p.main = .returned) :
    p.process.Ended := by
  obtain ⟨hprocess, hconstructed, hdeletedUdp, hjoined, hdeleted, -⟩ := h
  rw [hmain] at hconstructed hdeletedUdp hjoined hdeleted
  refine ⟨fun l hl => ?_, fun u hu => ⟨hconstructed nofun u hu, fun t ht => ?_⟩⟩
  · obtain ⟨i, hi⟩ := List.getElem?_of_mem hl
    refine ⟨hjoined i l trivial hi, fun t ht => ?_⟩
    obtain ⟨k, hk⟩ := List.getElem?_of_mem ht
    exact hdeleted i k l t trivial hi hk
  · obtain ⟨i, hi⟩ := List.getElem?_of_mem hu
    obtain ⟨k, hk⟩ := List.getElem?_of_mem ht
    exact hdeletedUdp i k u t trivial hi hk

/-! ## What the main thread can do alone -/

/-- The main thread gets to the end of `execute` alone. -/
def Returns (numberOfCPUs : Int32) (p : ServerProgram) : Prop :=
  ∃ (events : List Event) (p' : ServerProgram), (∀ e ∈ events, e.Own) ∧
    events.foldlM (step numberOfCPUs) p = some p' ∧ p'.main = .returned

theorem returns_returned (hmain : p.main = .returned) : p.Returns numberOfCPUs :=
  ⟨[], p, by simp, rfl, hmain⟩

theorem Returns.of_step (h : p'.Returns numberOfCPUs) (hmove : MainMoves numberOfCPUs p p') :
    p.Returns numberOfCPUs := by
  obtain ⟨events, p₁, hown, hrun, hmain⟩ := h
  refine ⟨.main :: events, p₁, List.forall_mem_cons.mpr ⟨trivial, hown⟩, ?_, hmain⟩
  rw [List.foldlM_cons, step, mainStep_iff.mpr hmove]
  exact hrun

theorem returns_deleting {i : Nat} {l : ListenerThread} (hl : s.servers[i]? = some l)
    (hended : ∀ t ∈ l.connThreads, t.phase = .ended)
    (hnext : Returns numberOfCPUs ⟨.joining (i + 1), s⟩) (n k : Nat)
    (hn : l.connThreads.length ≤ k + n) : Returns numberOfCPUs ⟨.deleting i k, s⟩ := by
  induction n generalizing k with
  | zero => exact hnext.of_step (.next i k l rfl hl (List.getElem?_eq_none hn))
  | succ n ih =>
    cases ht : l.connThreads[k]? with
    | none => exact hnext.of_step (.next i k l rfl hl ht)
    | some t =>
      have hrest := ih (k + 1) (by omega)
      exact hrest.of_step (.delete i k l t rfl hl ht (hended t (List.mem_of_getElem? ht)))

theorem returns_joining (h : s.Ended) (n i : Nat) (hn : s.servers.length ≤ i + n) :
    Returns numberOfCPUs ⟨.joining i, s⟩ := by
  have hlast : ∀ {i}, s.servers[i]? = none → Returns numberOfCPUs ⟨.joining i, s⟩ :=
    fun {i} hl => (returns_returned rfl).of_step (.last i rfl hl)
  induction n generalizing i with
  | zero => exact hlast (List.getElem?_eq_none hn)
  | succ n ih =>
    cases hl : s.servers[i]? with
    | none => exact hlast hl
    | some l =>
      obtain ⟨hphase, hended⟩ := h.servers l (List.mem_of_getElem? hl)
      have hrest := ih (i + 1) (by omega)
      have hdeleting := returns_deleting hl hended hrest _ 0 (Nat.le_add_left _ _)
      exact hdeleting.of_step (.join i l rfl hl hphase)

theorem returns_deletingUdp {i : Nat} {u : ResponderPool} (hu : s.udpServers[i]? = some u)
    (hended : ∀ t ∈ u.connThreads, t.phase = .ended)
    (hnext : Returns numberOfCPUs ⟨.deletingUdp (i + 1) 0, s⟩) (n k : Nat)
    (hn : u.connThreads.length ≤ k + n) : Returns numberOfCPUs ⟨.deletingUdp i k, s⟩ := by
  induction n generalizing k with
  | zero => exact hnext.of_step (.nextUdp i k u rfl hu (List.getElem?_eq_none hn))
  | succ n ih =>
    cases ht : u.connThreads[k]? with
    | none => exact hnext.of_step (.nextUdp i k u rfl hu ht)
    | some t =>
      have hrest := ih (k + 1) (by omega)
      exact hrest.of_step (.deleteUdp i k u t rfl hu ht (hended t (List.mem_of_getElem? ht)))

theorem returns_udpServers (h : s.Ended) (n i k : Nat) (hn : s.udpServers.length ≤ i + n) :
    Returns numberOfCPUs ⟨.deletingUdp i k, s⟩ := by
  have hlast : ∀ {i k}, s.udpServers[i]? = none → Returns numberOfCPUs ⟨.deletingUdp i k, s⟩ :=
    fun {i k} hu => (returns_joining h _ 0 (Nat.le_add_left _ _)).of_step (.lastUdp i k rfl hu)
  induction n generalizing i k with
  | zero => exact hlast (List.getElem?_eq_none hn)
  | succ n ih =>
    cases hu : s.udpServers[i]? with
    | none => exact hlast hu
    | some u =>
      have hrest := ih (i + 1) 0 (by omega)
      obtain ⟨-, hended⟩ := h.udpServers u (List.mem_of_getElem? hu)
      exact returns_deletingUdp hu hended hrest _ k (Nat.le_add_left _ _)

/-- Nothing is left to be made, and all threads ended. -/
def Complete (p : ServerProgram) : Prop :=
  p.process.Ended ∧ ∀ left, p.main = .constructing left → left = []

theorem Complete.returns (h : p.Complete) (hjoins : p.Joins numberOfCPUs) :
    p.Returns numberOfCPUs := by
  obtain ⟨main, s⟩ := p
  obtain ⟨hended, hleft⟩ := h
  cases main with
  | constructing left =>
    obtain rfl := hleft left rfl
    have hudp : Returns numberOfCPUs ⟨.deletingUdp 0 0, s⟩ :=
      returns_udpServers hended _ 0 0 (Nat.le_add_left _ _)
    exact hudp.of_step (.constructed rfl fun u hu => (hended.udpServers u hu).1)
  | deletingUdp i k => exact returns_udpServers hended _ i k (Nat.le_add_left _ _)
  | joining i => exact returns_joining hended _ i (Nat.le_add_left _ _)
  | deleting i k =>
    have hi := hjoins.inside i k rfl
    have hl : s.servers[i]? = some s.servers[i] := List.getElem?_eq_getElem hi
    obtain ⟨-, hthreads⟩ := hended.servers s.servers[i] (List.getElem_mem hi)
    exact returns_deleting hl hthreads (returns_joining hended _ (i + 1) (Nat.le_add_left _ _)) _ k
      (Nat.le_add_left _ _)
  | returned => exact returns_returned rfl

/-! ## Whole runs -/

variable {portList : List (Nat × Nat)} {events : List Event}

theorem run_joins {left : List (Protocol × UInt16)}
    (hrun : events.foldlM (step numberOfCPUs) (start left) = some p) : p.Joins numberOfCPUs :=
  foldlM_invariant (fun _ _ _ hstep h => h.step hstep) events hrun (joins_start numberOfCPUs left)

/-- A server on one port : its UDP threads end, one listener serves a connection until `accept`
throws, and the other two never listen. -/
def smallRun : List Event :=
  List.replicate 4 .main ++
    [.thread (.pool 0 (.listen 3)), .thread (.listener 1 (.listenThrows none)),
      .thread (.pool 0 .construct), .thread (.listener 0 (.listen 4)),
      .thread (.pool 0 .construct), .thread (.listener 0 .wait), .thread (.pool 0 .construct),
      .thread (.listener 2 (.listenThrows none)), .thread (.pool 0 .construct),
      .thread (.pool 0 .leave), .main, .thread (.listener 0 (.accept 5)),
      .thread (.listener 0 .cleanup), .thread (.listener 0 .cleanup)] ++
    ([0, 1, 2, 3].flatMap fun k => [.thread (.responder 0 k .finish),
      .thread (.responder 0 k .post), .thread (.responder 0 k .destroy), .main]) ++
    [.main, .main, .thread (.connection 0 0 .finish), .thread (.listener 0 .wait),
      .thread (.listener 0 .acceptThrows), .main, .thread (.connection 0 0 .post),
      .thread (.connection 0 0 .destroy)] ++ List.replicate 7 .main

theorem exists_smallRun (n : Nat) (main : ServerMain)
    (h : ((smallRun.take n).foldlM (step 1) (execute [(80, 80)])).map ServerProgram.main =
      some main) :
    ∃ p, (smallRun.take n).foldlM (step 1) (execute [(80, 80)]) = some p ∧ p.main = main :=
  Option.map_eq_some_iff.mp h

/-- No object is destroyed before the threads that use it ended. -/
theorem run_joined (hrun : events.foldlM (step numberOfCPUs) (execute portList) = some p) :
    (∀ i k u t, p.main.deletedUdp i k → p.process.udpServers[i]? = some u →
      u.connThreads[k]? = some t → t.phase = .ended) ∧
    (∀ i l, p.main.joined i → p.process.servers[i]? = some l → l.phase = .terminated) ∧
    (∀ i k l t, p.main.deleted i k → p.process.servers[i]? = some l →
      l.connThreads[k]? = some t → t.phase = .ended) ∧
    (p.main = .returned → p.process.Ended ∧ ∀ fd, 0 ≤ fd →
      p.process.common.process.opened.count fd = p.process.common.process.closed.count fd) := by
  have h := run_joins hrun
  exact ⟨h.deletedUdp, h.joined, h.deleted, fun hmain =>
    ⟨h.ended hmain, fun fd hfd => (h.ended hmain).count_eq h.process hfd⟩⟩

theorem run_joined_small :
    ∃ p, (smallRun.take 49).foldlM (step 1) (execute [(80, 80)]) = some p ∧
      (∀ i k u t, p.main.deletedUdp i k → p.process.udpServers[i]? = some u →
        u.connThreads[k]? = some t → t.phase = .ended) ∧
      (∀ i l, p.main.joined i → p.process.servers[i]? = some l → l.phase = .terminated) ∧
      (∀ i k l t, p.main.deleted i k → p.process.servers[i]? = some l →
        l.connThreads[k]? = some t → t.phase = .ended) ∧
      (p.main = .returned → p.process.Ended ∧ ∀ fd, 0 ≤ fd →
        p.process.common.process.opened.count fd =
          p.process.common.process.closed.count fd) := by
  obtain ⟨p, hrun, -⟩ := exists_smallRun 49 .returned (by decide +kernel)
  exact ⟨p, hrun, run_joined hrun⟩

end ServerProgram

end NetBabbler
