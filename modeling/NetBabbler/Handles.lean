import NetBabbler.Interleaving

/-!
# Descriptors and their handles

`cSocket::cHandle` of `socket.hpp` : a descriptor that closes itself when the last handle
on it is destroyed, counted in the map `m_fdRefs`. A `cSocket` is one handle and some data
that does not matter here. `Process` holds all handles of the process, the map, and the
kernel's side, the descriptors it opened and was told to close.

`counted_iff` : along any run of operations the map counts the handles and every
descriptor is closed once, when the last handle on it goes, if and only if no move
assignment overwrites a handle that holds a descriptor.
-/

namespace NetBabbler

open Interleaving

/-- The socket objects of a process and the descriptors that they share. -/
structure Process where
  /-- `m_handle` of each object in the order of construction. `none` is destroyed. -/
  handles : List (Option Int) := []
  fdRefs : Int → UInt32 := fun _ => 0
  /-- What `socket` and `accept` returned. -/
  opened : List Int := []
  /-- The calls of `close`. -/
  closed : List Int := []

namespace Process

/-! ## The special member functions -/

/-- `cHandle (int handle)`. -/
def construct (p : Process) (handle : Int) : Process :=
  { p with
    handles := p.handles ++ [some handle]
    fdRefs := if 0 ≤ handle then Function.update p.fdRefs handle (p.fdRefs handle + 1)
      else p.fdRefs }

/-- `cHandle (cHandle&& obj)`, where `obj` is the `i`-th object and holds `handle`. -/
def moveConstruct (p : Process) (i : Nat) (handle : Int) : Process :=
  { p with handles := p.handles.set i (some (-1)) ++ [some handle] }

/-- `operator= (cHandle&& obj)` of the `i`-th object, where `obj` is the `j`-th and holds
`handle`. -/
def moveAssign (p : Process) (i j : Nat) (handle : Int) : Process :=
  { p with handles := (p.handles.set i (some handle)).set j (some (-1)) }

/-- `~cHandle` of the `i`-th object, which holds `handle`. -/
def destroy (p : Process) (i : Nat) (handle : Int) : Process :=
  if 0 ≤ handle then
    let refs := p.fdRefs handle - 1
    { p with
      handles := p.handles.set i none
      fdRefs := Function.update p.fdRefs handle refs
      closed := if refs = 0 then p.closed ++ [handle] else p.closed }
  else { p with handles := p.handles.set i none }

/-! ## Runs -/

/-- What the program does with a socket object. -/
inductive Op where
  /-- An object for what `socket` or `accept` returned, or for -1. -/
  | create (fd : Int)
  /-- An object for the descriptor of the `i`-th one. -/
  | clone (i : Nat)
  | moveConstruct (i : Nat)
  | moveAssign (i j : Nat)
  | destroy (i : Nat)

/-- The `i`-th object, if it lives. -/
def handle (p : Process) (i : Nat) : Option Int :=
  p.handles[i]?.join

/-- The kernel has `fd` open. -/
def IsOpen (p : Process) (fd : Int) : Prop :=
  p.closed.count fd < p.opened.count fd

instance (p : Process) (fd : Int) : Decidable (p.IsOpen fd) :=
  inferInstanceAs (Decidable (_ < _))

/-- One operation on objects that live. The kernel opens no descriptor that is open. -/
def step (p : Process) : Op → Option Process
  | .create fd =>
    if fd < 0 then some (p.construct fd)
    else if p.IsOpen fd then none
    else some { p.construct fd with opened := p.opened ++ [fd] }
  | .clone i => (p.handle i).map p.construct
  | .moveConstruct i => (p.handle i).map (p.moveConstruct i)
  | .moveAssign i j =>
    match p.handle i, p.handle j with
    | some _, some handle => some (p.moveAssign i j handle)
    | _, _ => none
  | .destroy i => (p.handle i).map (p.destroy i)

/-- The operations from the start of the process. -/
def run (ops : List Op) : Option Process :=
  ops.foldlM step {}

/-- The number of live handles on `fd`. -/
def live (p : Process) (fd : Int) : Nat :=
  p.handles.count (some fd)

/-- The map counts the live handles, and each opened descriptor was closed once, unless a handle
on it lives. -/
structure Counted (p : Process) : Prop where
  refs : ∀ fd, 0 ≤ fd → (p.fdRefs fd).toNat = p.live fd
  closed : ∀ fd, 0 ≤ fd →
    p.closed.count fd + (if 0 < p.live fd then 1 else 0) = p.opened.count fd

/-- The operation overwrites no handle on a descriptor, and makes no more handles on one than an
`unsigned` counts. -/
def Fine (p : Process) : Op → Prop
  | .create _ | .moveConstruct _ | .destroy _ => True
  | .clone i => ∀ handle, p.handle i = some handle → 0 ≤ handle → p.live handle + 1 < 2 ^ 32
  | .moveAssign i _ => ∀ handle, p.handle i = some handle → handle < 0

/-! ## One operation -/

variable {p p' : Process} {i j : Nat} {handle fd : Int}

theorem handle_eq_some : p.handle i = some handle ↔ p.handles[i]? = some (some handle) :=
  Option.join_eq_some_iff

/-- Replacing an element moves the two counts. -/
theorem count_set_add {l : List (Option Int)} {a b : Option Int} (h : l[i]? = some a)
    (c : Option Int) : (l.set i b).count c + (if a = c then 1 else 0) =
      l.count c + if b = c then 1 else 0 := by
  obtain ⟨hi, hget⟩ := List.getElem?_eq_some_iff.mp h
  have hpos : a = c → 0 < l.count c := fun hac =>
    List.count_pos_iff.mpr (hac ▸ hget ▸ List.getElem_mem hi)
  rw [List.count_set hi, hget]
  simp only [beq_iff_eq]
  rcases eq_or_ne a c with hac | hac
  · have hone := hpos hac
    simp only [if_pos hac]
    omega
  · simp only [if_neg hac]
    omega

/-- A new object is one handle more. -/
theorem live_construct (p : Process) (handle fd : Int) :
    (p.construct handle).live fd = p.live fd + if handle = fd then 1 else 0 := by
  simp only [live, construct, List.count_append, List.count_singleton, beq_iff_eq,
    Option.some.injEq]

/-- A moved object leaves the number of handles alone. -/
theorem live_moveConstruct (h : p.handle i = some handle) (hfd : 0 ≤ fd) :
    (p.moveConstruct i handle).live fd = p.live fd := by
  have hset := count_set_add (b := some (-1)) (handle_eq_some.mp h) (some fd)
  simp only [Option.some.injEq] at hset
  rw [if_neg (by omega : ¬(-1 : Int) = fd)] at hset
  simp only [live, moveConstruct, List.count_append, List.count_singleton, beq_iff_eq,
    Option.some.injEq]
  omega

/-- A move assignment takes the handle that it overwrites. -/
theorem live_moveAssign {old : Int} (hi : p.handle i = some old) (hj : p.handle j = some handle)
    (hfd : 0 ≤ fd) :
    (p.moveAssign i j handle).live fd + (if old = fd then 1 else 0) = p.live fd := by
  have hfirst := count_set_add (b := some handle) (handle_eq_some.mp hi) (some fd)
  have hget : (p.handles.set i (some handle))[j]? = some (some handle) := by
    have hlt := (List.getElem?_eq_some_iff.mp (handle_eq_some.mp hi)).1
    rcases eq_or_ne i j with rfl | hne
    · rw [List.getElem?_set_self hlt]
    · rw [List.getElem?_set_ne hne, handle_eq_some.mp hj]
  have hsecond := count_set_add (b := some (-1)) hget (some fd)
  simp only [Option.some.injEq] at hfirst hsecond
  rw [if_neg (by omega : ¬(-1 : Int) = fd)] at hsecond
  simp only [live, moveAssign]
  omega

theorem live_destroy (h : p.handle i = some handle) (fd : Int) :
    (p.destroy i handle).live fd + (if handle = fd then 1 else 0) = p.live fd := by
  have hset := count_set_add (b := none) (handle_eq_some.mp h) (some fd)
  have hhandles : (p.destroy i handle).handles = p.handles.set i none := by
    unfold destroy
    split_ifs <;> rfl
  simp only [Option.some.injEq, reduceCtorEq, if_false, Nat.add_zero] at hset
  rw [live, hhandles]
  exact hset

/-- A handle that lives is counted. -/
theorem live_pos (h : p.handle i = some handle) : 0 < p.live handle :=
  List.count_pos_iff.mpr (List.mem_of_getElem? (handle_eq_some.mp h))

/-! ### The map -/

theorem fdRefs_construct (p : Process) (handle fd : Int) :
    (p.construct handle).fdRefs fd =
      if 0 ≤ handle ∧ handle = fd then p.fdRefs fd + 1 else p.fdRefs fd := by
  show (if 0 ≤ handle then Function.update p.fdRefs handle (p.fdRefs handle + 1) else p.fdRefs) fd = _
  by_cases hhandle : 0 ≤ handle
  · rcases eq_or_ne handle fd with rfl | hne
    · rw [if_pos hhandle, if_pos ⟨hhandle, rfl⟩, Function.update_self]
    · have hnot : ¬(0 ≤ handle ∧ handle = fd) := fun h => hne h.2
      rw [if_pos hhandle, if_neg hnot, Function.update_of_ne hne.symm]
  · have hnot : ¬(0 ≤ handle ∧ handle = fd) := fun h => hhandle h.1
    rw [if_neg hhandle, if_neg hnot]

theorem fdRefs_destroy (p : Process) (i : Nat) (handle fd : Int) :
    (p.destroy i handle).fdRefs fd =
      if 0 ≤ handle ∧ handle = fd then p.fdRefs fd - 1 else p.fdRefs fd := by
  by_cases hhandle : 0 ≤ handle
  · rw [destroy, if_pos hhandle]
    show Function.update p.fdRefs handle (p.fdRefs handle - 1) fd = _
    rcases eq_or_ne handle fd with rfl | hne
    · rw [if_pos ⟨hhandle, rfl⟩, Function.update_self]
    · have hnot : ¬(0 ≤ handle ∧ handle = fd) := fun h => hne h.2
      rw [if_neg hnot, Function.update_of_ne hne.symm]
  · have hnot : ¬(0 ≤ handle ∧ handle = fd) := fun h => hhandle h.1
    rw [destroy, if_neg hhandle, if_neg hnot]

theorem count_closed_destroy (p : Process) (i : Nat) (handle fd : Int) :
    (p.destroy i handle).closed.count fd = p.closed.count fd +
      if (0 ≤ handle ∧ handle = fd) ∧ p.fdRefs fd - 1 = 0 then 1 else 0 := by
  by_cases hhandle : 0 ≤ handle
  · rw [destroy, if_pos hhandle]
    show (if p.fdRefs handle - 1 = 0 then p.closed ++ [handle] else p.closed).count fd = _
    rcases eq_or_ne handle fd with rfl | hne
    · split_ifs with h0 hboth hboth
      · rw [List.count_append, List.count_singleton_self]
      · exact absurd ⟨⟨hhandle, rfl⟩, h0⟩ hboth
      · exact absurd hboth.2 h0
      · rfl
    · have hnot : ¬((0 ≤ handle ∧ handle = fd) ∧ p.fdRefs fd - 1 = 0) := fun h => hne h.1.2
      have hother : [handle].count fd = 0 := List.count_eq_zero_of_not_mem (by simpa using hne.symm)
      rw [if_neg hnot]
      split_ifs
      · rw [List.count_append, hother]
      · rfl
  · have hnot : ¬((0 ≤ handle ∧ handle = fd) ∧ p.fdRefs fd - 1 = 0) := fun h => hhandle h.1.1
    rw [destroy, if_neg hhandle, if_neg hnot]
    rfl

theorem opened_destroy (p : Process) (i : Nat) (handle : Int) :
    (p.destroy i handle).opened = p.opened := by
  rw [destroy]
  split_ifs <;> rfl

theorem toNat_refs_add_one {x : UInt32} (h : x.toNat + 1 < 2 ^ 32) :
    (x + 1).toNat = x.toNat + 1 := by
  rw [UInt32.toNat_add]
  exact Nat.mod_eq_of_lt h

theorem toNat_refs_sub_one {x : UInt32} (h : 0 < x.toNat) : (x - 1).toNat = x.toNat - 1 :=
  UInt32.toNat_sub_of_le _ _ (UInt32.le_iff_toNat_le.mpr h)

/-! ## What each operation keeps -/

theorem Counted.create (h : Counted p) (hstep : p.step (.create fd) = some p') : Counted p' := by
  rw [step] at hstep
  split_ifs at hstep with hneg hopen
  · obtain rfl := Option.some.inj hstep
    refine ⟨fun fd' hfd' => ?_, fun fd' hfd' => ?_⟩
    · rw [fdRefs_construct, live_construct, if_neg (by omega), if_neg (by omega)]
      exact h.refs fd' hfd'
    · rw [live_construct, if_neg (by omega : ¬fd = fd')]
      exact h.closed fd' hfd'
  · obtain rfl := Option.some.inj hstep
    have hfd : 0 ≤ fd := by omega
    -- the kernel has closed `fd`, so no handle on it is left
    have hnone : p.live fd = 0 := by
      have hclosed := h.closed fd hfd
      unfold IsOpen at hopen
      split_ifs at hclosed <;> omega
    refine ⟨fun fd' hfd' => ?_, fun fd' hfd' => ?_⟩
    · show ((p.construct fd).fdRefs fd').toNat = (p.construct fd).live fd'
      have hrefs := h.refs fd' hfd'
      rw [fdRefs_construct, live_construct]
      rcases eq_or_ne fd fd' with rfl | hne
      · rw [if_pos ⟨hfd, rfl⟩, if_pos rfl, toNat_refs_add_one (by omega), hrefs]
      · rw [if_neg fun h => hne h.2, if_neg hne]
        exact hrefs
    · show p.closed.count fd' + (if 0 < (p.construct fd).live fd' then 1 else 0) =
        (p.opened ++ [fd]).count fd'
      have hclosed := h.closed fd' hfd'
      rw [live_construct, List.count_append, List.count_singleton]
      rcases eq_or_ne fd fd' with rfl | hne
      · rw [hnone] at hclosed ⊢
        simpa using hclosed
      · simpa [hne] using hclosed

/-- A clone is counted as long as the count does not wrap. -/
theorem Counted.clone_iff (h : Counted p) (hi : p.handle i = some handle) :
    Counted (p.construct handle) ↔ (0 ≤ handle → p.live handle + 1 < 2 ^ 32) := by
  have hpos := live_pos hi
  refine ⟨fun hcounted hfd => ?_, fun hfits => ⟨fun fd hfd => ?_, fun fd hfd => ?_⟩⟩
  · have hrefs := hcounted.refs handle hfd
    rw [live_construct, if_pos rfl] at hrefs
    rw [← hrefs]
    exact UInt32.toNat_lt _
  · have hrefs := h.refs fd hfd
    rw [fdRefs_construct, live_construct]
    rcases eq_or_ne handle fd with rfl | hne
    · have hlt := hfits hfd
      rw [if_pos ⟨hfd, rfl⟩, if_pos rfl, toNat_refs_add_one (by omega), hrefs]
    · rw [if_neg fun h => hne h.2, if_neg hne]
      exact hrefs
  · have hclosed := h.closed fd hfd
    show p.closed.count fd + (if 0 < (p.construct handle).live fd then 1 else 0) = _
    rw [live_construct]
    rcases eq_or_ne handle fd with rfl | hne
    · rw [if_pos hpos] at hclosed
      rw [if_pos rfl, if_pos (Nat.succ_pos _)]
      exact hclosed
    · rw [if_neg hne, Nat.add_zero]
      exact hclosed

theorem Counted.moveConstruct (h : Counted p) (hi : p.handle i = some handle) :
    Counted (p.moveConstruct i handle) := by
  refine ⟨fun fd hfd => ?_, fun fd hfd => ?_⟩
  · rw [live_moveConstruct hi hfd]
    exact h.refs fd hfd
  · rw [live_moveConstruct hi hfd]
    exact h.closed fd hfd

/-- A move assignment forgets the descriptor that it overwrites. -/
theorem Counted.moveAssign_iff (h : Counted p) {old : Int} (hi : p.handle i = some old)
    (hj : p.handle j = some handle) : Counted (p.moveAssign i j handle) ↔ old < 0 := by
  refine ⟨fun hcounted => ?_, fun hneg => ⟨fun fd hfd => ?_, fun fd hfd => ?_⟩⟩
  · by_contra hge
    have hold : 0 ≤ old := by omega
    have hlive := live_moveAssign hi hj hold
    have hrefs : (p.fdRefs old).toNat = (p.moveAssign i j handle).live old := hcounted.refs old hold
    rw [h.refs old hold, ← hlive, if_pos rfl] at hrefs
    omega
  · have hlive := live_moveAssign hi hj hfd
    rw [if_neg (by omega), Nat.add_zero] at hlive
    rw [hlive]
    exact h.refs fd hfd
  · have hlive := live_moveAssign hi hj hfd
    rw [if_neg (by omega), Nat.add_zero] at hlive
    rw [hlive]
    exact h.closed fd hfd

theorem Counted.destroy (h : Counted p) (hi : p.handle i = some handle) :
    Counted (p.destroy i handle) := by
  have hpos := live_pos hi
  have hrest : ∀ fd, 0 ≤ fd → handle = fd → (p.fdRefs fd - 1).toNat = p.live fd - 1 := by
    rintro fd hfd rfl
    rw [toNat_refs_sub_one (by rw [h.refs handle hfd]; exact hpos), h.refs handle hfd]
  refine ⟨fun fd hfd => ?_, fun fd hfd => ?_⟩
  · have hlive := live_destroy hi fd
    have hrefs := h.refs fd hfd
    rw [fdRefs_destroy]
    rcases eq_or_ne handle fd with rfl | hne
    · rw [if_pos ⟨hfd, rfl⟩, hrest handle hfd rfl]
      rw [if_pos rfl] at hlive
      omega
    · rw [if_neg hne, Nat.add_zero] at hlive
      rw [if_neg fun h => hne h.2, hrefs, hlive]
  · have hlive := live_destroy hi fd
    have hclosed := h.closed fd hfd
    rw [count_closed_destroy, opened_destroy]
    rcases eq_or_ne handle fd with rfl | hne
    · have hlast : p.fdRefs handle - 1 = 0 ↔ p.live handle - 1 = 0 := by
        rw [← UInt32.toNat_inj, hrest handle hfd rfl]
        rfl
      rw [if_pos rfl] at hlive
      rw [if_pos hpos] at hclosed
      simp only [hfd, hlast, and_self, true_and]
      split_ifs <;> omega
    · rw [if_neg hne, Nat.add_zero] at hlive
      rw [if_neg fun h => hne h.1.2, Nat.add_zero, hlive]
      exact hclosed

/-- One operation, from a state in which the handles are counted. -/
theorem Counted.step_iff {op : Op} (h : Counted p) (hstep : p.step op = some p') :
    Counted p' ↔ p.Fine op := by
  cases op with
  | create fd => exact iff_of_true (h.create hstep) trivial
  | clone i =>
    obtain ⟨handle, hi, rfl⟩ := Option.map_eq_some_iff.mp hstep
    rw [h.clone_iff hi]
    refine ⟨fun hfits handle' hi' => ?_, fun hfine => hfine handle hi⟩
    obtain rfl := Option.some.inj (hi.symm.trans hi')
    exact hfits
  | moveConstruct i =>
    obtain ⟨handle, hi, rfl⟩ := Option.map_eq_some_iff.mp hstep
    exact iff_of_true (h.moveConstruct hi) trivial
  | moveAssign i j =>
    rw [step] at hstep
    split at hstep
    · next old handle hi hj =>
      obtain rfl := Option.some.inj hstep
      rw [h.moveAssign_iff hi hj]
      refine ⟨fun hneg handle' hi' => ?_, fun hfine => hfine old hi⟩
      obtain rfl := Option.some.inj (hi.symm.trans hi')
      exact hneg
    · cases hstep
  | destroy i =>
    obtain ⟨handle, hi, rfl⟩ := Option.map_eq_some_iff.mp hstep
    exact iff_of_true (h.destroy hi) trivial

theorem counted_init : Counted {} :=
  ⟨fun _ _ => rfl, fun _ _ => rfl⟩

/-- Along a run the handles are counted after each operation, if and only if every operation is
fine. -/
theorem counted_iff (ops : List Op) :
    (∀ pre p, pre <+: ops → run pre = some p → Counted p) ↔
      ∀ pre op p p', pre ++ [op] <+: ops → run pre = some p → p.step op = some p' → p.Fine op :=
  foldlM_prefix_iff (fun _ _ _ hstep h => h.step_iff hstep) ops counted_init

/-- Assigning to a socket that holds one already leaves the descriptor open for good. -/
theorem not_counted : ¬∀ (ops : List Op) (p : Process), run ops = some p → Counted p := by
  intro h
  obtain ⟨p, hrun, hrefs, hlive⟩ : ∃ p, run [.create 3, .create 4, .moveAssign 0 1] = some p ∧
      p.fdRefs 3 = 1 ∧ p.live 3 = 0 := ⟨_, rfl, rfl, rfl⟩
  have hcounted := (h _ p hrun).refs 3 (by decide)
  rw [hrefs, hlive] at hcounted
  cases hcounted

/-! ## Sockets -/

/-- `cSocket (int domain, int type, int protocol, int timeout)` as the `n`-th object, where
`socket` returns `fd`. `m_fd` starts as -1 and is assigned from a temporary; without a descriptor
the constructor throws. -/
def socketOps (n : Nat) (fd : Int) : List Op :=
  [.create (-1), .create fd, .moveAssign n (n + 1), .destroy (n + 1)] ++
    if fd < 0 then [.destroy n] else []

theorem handles_create (hstep : p.step (.create fd) = some p') :
    p'.handles = p.handles ++ [some fd] := by
  rw [step] at hstep
  split_ifs at hstep <;> (obtain rfl := Option.some.inj hstep; rfl)

/-- The move assignment in the constructor overwrites nothing. -/
theorem Counted.socketOps (h : Counted p)
    (hrun : (socketOps p.handles.length fd).foldlM step p = some p') : Counted p' := by
  simp only [Process.socketOps, List.foldlM_append, List.foldlM_cons, Option.bind_eq_bind,
    Option.bind_eq_some_iff] at hrun
  obtain ⟨p₄, ⟨p₁, h₁, p₂, h₂, p₃, h₃, p₄', h₄, heq⟩, hlast⟩ := hrun
  obtain rfl := Option.some.inj heq
  have hcounted₂ := (h.create h₁).create h₂
  have hfirst : p₂.handle p.handles.length = some (-1) := by
    rw [handle_eq_some, handles_create h₂, handles_create h₁]
    simp
  have hcounted₃ := (hcounted₂.step_iff h₃).mpr fun handle hhandle => by
    obtain rfl := Option.some.inj (hfirst.symm.trans hhandle)
    decide
  have hcounted₄ := (hcounted₃.step_iff h₄).mpr trivial
  split_ifs at hlast
  · obtain ⟨p₅, h₅, heq⟩ := Option.bind_eq_some_iff.mp hlast
    obtain rfl := Option.some.inj heq
    exact (hcounted₄.step_iff h₅).mpr trivial
  · obtain rfl := Option.some.inj hlast
    exact hcounted₄

end Process

end NetBabbler
