import NetBabbler.Connecting
import NetBabbler.Sharing

/-!
# The objects on each descriptor

Which objects of the process share a descriptor, through all that the program does with them :
a socket is made, cloned, handed on and destroyed. `Divided` is an invariant of these
operations, with one group of objects for each open descriptor.
-/

namespace NetBabbler

namespace Process

open Sharing

/-- The descriptor that the `i`-th object holds. -/
def held (p : Process) (i : Nat) : Option Int :=
  (p.handle i).filter (0 ≤ ·)

/-- The objects are counted, and those on one descriptor are one of the groups. -/
structure Divided (p : Process) (groups : Multiset (Multiset Nat)) : Prop where
  counted : p.Counted
  groups : Groups p.held groups

/-- `return` of a local socket, or a move of it into a parameter. The local one is destroyed
without a descriptor, and it does not matter when. -/
def passOps (i : Nat) : List Op :=
  [.moveConstruct i, .destroy i]

/-- A socket on its way to the function of a thread : by the parameter of the constructor of
`cResponderThread` and by the copy that `std::thread` keeps. -/
def threadOps (i n : Nat) : List Op :=
  passOps i ++ passOps n ++ passOps (n + 1)

/-- `cSocket::listen` with the first new object `n`. The result is the object `n + 2`. -/
def listenOps (n fd : Nat) : List Op :=
  socketOps n fd ++ passOps n

/-- The same where it throws : `socket` does not work, or a call on the socket behind it. -/
def listenThrowsOps (n : Nat) : Option Nat → List Op
  | none => socketOps n (-1)
  | some fd => socketOps n fd ++ [.destroy n]

/-- `accept` into the object `n`, which is handed to a thread. -/
def acceptOps (n fd : Nat) : List Op :=
  .create fd :: threadOps n (n + 1)

/-- `clone` of the `i`-th object, whose local `theClone` is the object `n`. What it returns is
handed to a thread. -/
def cloneOps (i n : Nat) : List Op :=
  .clone i :: passOps n ++ threadOps (n + 1) (n + 2)

variable {p p' : Process} {i : Nat} {fd : Int} {g : Multiset Nat}
  {rest groups : Multiset (Multiset Nat)}

theorem held_eq_some : p.held i = some fd ↔ p.handle i = some fd ∧ 0 ≤ fd := by
  rw [held, Option.filter_eq_some_iff, decide_eq_true_iff]

theorem held_length (p : Process) : p.held p.handles.length = none := by
  simp [held, handle]

theorem held_eq_update {j : Nat} {h : Option Int}
    (hj : ∀ k, p'.handle k = if k = j then h else p.handle k) :
    p'.held = Function.update p.held j (h.filter (0 ≤ ·)) := by
  funext k
  rw [held, hj k]
  rcases eq_or_ne k j with rfl | hne
  · rw [if_pos rfl, Function.update_self]
  · rw [if_neg hne, Function.update_of_ne hne, held]

theorem handle_append (l : List (Option Int)) (h : Int) (k : Nat)
    (hl : p.handles = l ++ [some h]) :
    p.handle k = if k = l.length then some h else l[k]?.join := by
  rw [handle, hl]
  rcases lt_trichotomy k l.length with hlt | rfl | hgt
  · rw [List.getElem?_append_left hlt, if_neg hlt.ne]
  · simp
  · rw [if_neg hgt.ne', List.getElem?_eq_none (by simp; omega), List.getElem?_eq_none hgt.le]

theorem handle_set (l : List (Option Int)) (h : Option Int) (k : Nat) (hi : i < l.length) :
    (l.set i h)[k]?.join = if k = i then h else l[k]?.join := by
  rcases eq_or_ne k i with rfl | hne
  · rw [if_pos rfl, List.getElem?_set_self hi, Option.join_some]
  · rw [if_neg hne, List.getElem?_set_ne hne.symm]

theorem count_eq_card_filter {α : Type*} [BEq α] [LawfulBEq α] [DecidableEq α] (l : List α) (a : α) :
    l.count a = ((Multiset.range l.length).filter fun k => l[k]? = some a).card := by
  induction l using List.reverseRecOn with
  | nil => rfl
  | append_singleton l b ih =>
    have hfilter : (Multiset.range l.length).filter (fun k => (l ++ [b])[k]? = some a) =
        (Multiset.range l.length).filter fun k => l[k]? = some a := by
      refine Multiset.filter_congr fun k hk => ?_
      rw [List.getElem?_append_left (Multiset.mem_range.mp hk)]
    rw [List.count_append, List.length_append, List.length_singleton, Multiset.range_succ,
      Multiset.filter_cons, hfilter, ih, List.getElem?_concat_length, List.count_singleton]
    by_cases hab : b = a <;> simp [hab, add_comm]

/-! ## Single operations -/

theorem divided_init : Divided {} 0 :=
  ⟨counted_init, groups_none⟩

/-- No object is left on a descriptor that is not open. -/
theorem Divided.not_held (h : p.Divided groups) (hfd : 0 ≤ fd) (hopen : ¬p.IsOpen fd) (k : Nat) :
    p.held k ≠ some fd := by
  intro hk
  have hpos := live_pos (held_eq_some.mp hk).1
  have hclosed := h.counted.closed fd hfd
  rw [if_pos hpos] at hclosed
  rw [IsOpen] at hopen
  omega

/-- A group is as many objects as there are on its descriptor. -/
theorem Divided.card_eq (h : p.Divided groups) (hg : g ∈ groups) (hi : i ∈ g)
    (hhandle : p.handle i = some fd) : g.card = p.live fd := by
  have hfd : p.held i = some fd := by
    obtain ⟨v, hv⟩ := h.groups.mem_join hg hi
    obtain rfl := Option.some.inj (hhandle.symm.trans (held_eq_some.mp hv).1)
    exact hv
  have hnodup := h.groups.nodup_of_mem hg
  have hall : g = (Multiset.range p.handles.length).filter
      fun k => p.handles[k]? = some (some fd) := by
    refine (Multiset.Nodup.ext hnodup ((Multiset.nodup_range _).filter _)).mpr fun k => ?_
    rw [h.groups.same g hg i hi, hfd, held_eq_some, handle_eq_some, Multiset.mem_filter,
      Multiset.mem_range]
    refine ⟨fun hk => ⟨(List.getElem?_eq_some_iff.mp hk.1).1, hk.1⟩, fun hk => ⟨hk.2, ?_⟩⟩
    exact (held_eq_some.mp hfd).2
  rw [hall, ← count_eq_card_filter, live]

theorem step_create (hfd : 0 ≤ fd) (hstep : p.step (.create fd) = some p') :
    ¬p.IsOpen fd ∧ p'.handles = p.handles ++ [some fd] := by
  rw [step, if_neg (by omega)] at hstep
  split_ifs at hstep with hopen
  obtain rfl := Option.some.inj hstep
  exact ⟨hopen, rfl⟩

theorem Divided.create (h : p.Divided rest) (hfd : 0 ≤ fd)
    (hstep : p.step (.create fd) = some p') :
    p'.Divided ({p.handles.length} ::ₘ rest) ∧ p'.handles.length = p.handles.length + 1 := by
  obtain ⟨hopen, hhandles⟩ := step_create hfd hstep
  have hheld := held_eq_update (handle_append _ _ · hhandles)
  refine ⟨⟨h.counted.create hstep, ?_⟩, by simp [hhandles]⟩
  rw [hheld, Option.filter_some_pos (by simpa using hfd)]
  exact h.groups.open p.held_length fun l => h.not_held hfd hopen l

/-- A clone joins the objects on its descriptor. -/
theorem Divided.clone (h : p.Divided (g ::ₘ rest)) (hi : i ∈ g) (hcard : g.card + 1 < 2 ^ 32)
    (hstep : p.step (.clone i) = some p') :
    p'.Divided ((p.handles.length ::ₘ g) ::ₘ rest) ∧
      p'.handles.length = p.handles.length + 1 := by
  obtain ⟨handle, hhandle, rfl⟩ := Option.map_eq_some_iff.mp hstep
  have hlive := h.card_eq (Multiset.mem_cons_self _ _) hi hhandle
  have hcounted := (h.counted.clone_iff hhandle).mpr fun _ => by omega
  have hheld := held_eq_update (handle_append (p := p.construct handle) _ handle · rfl)
  refine ⟨⟨hcounted, ?_⟩, by simp [construct]⟩
  rw [hheld, ← hhandle]
  exact h.groups.share hi p.held_length

/-- A socket that is passed on takes the place of the one it comes from. -/
theorem Divided.pass (h : p.Divided ((i ::ₘ g) ::ₘ rest))
    (hrun : (passOps i).foldlM step p = some p') :
    p'.Divided ((p.handles.length ::ₘ g) ::ₘ rest) ∧
      p'.handles.length = p.handles.length + 1 := by
  simp only [passOps, List.foldlM_cons, List.foldlM_nil, Option.bind_eq_bind,
    Option.bind_eq_some_iff, Option.pure_def, Option.some.injEq, exists_eq_right] at hrun
  obtain ⟨p₁, h₁, h₂⟩ := hrun
  have hcounted := (((h.counted.step_iff h₁).mpr trivial).step_iff h₂).mpr trivial
  obtain ⟨handle, hhandle, rfl⟩ := Option.map_eq_some_iff.mp h₁
  have hi : i < p.handles.length := (List.getElem?_eq_some_iff.mp (handle_eq_some.mp hhandle)).1
  have hmoved : (p.moveConstruct i handle).handle i = some (-1) := by
    rw [handle_append _ _ _ rfl, if_neg (by simpa using hi.ne), handle_set _ _ _ hi, if_pos rfl]
  obtain ⟨_, heq, rfl⟩ := Option.map_eq_some_iff.mp h₂
  obtain rfl := Option.some.inj (hmoved.symm.trans heq)
  obtain ⟨q, hq⟩ : ∃ q, q = { p with handles := p.handles.set i none } := ⟨_, rfl⟩
  have hlen : q.handles.length = p.handles.length := by rw [hq, List.length_set]
  have hq' : q.held = Function.update p.held i none := by
    refine held_eq_update (h := none) fun k => ?_
    rw [Process.handle, hq, handle_set _ _ _ hi, Process.handle]
  have hhandles : ((p.moveConstruct i handle).destroy i (-1)).handles =
      q.handles ++ [some handle] := by
    simp [Process.destroy, moveConstruct, hq, List.set_append_left, hi]
  refine ⟨⟨hcounted, ?_⟩, by rw [hhandles, List.length_append, hlen, List.length_singleton]⟩
  have hheld := held_eq_update (handle_append (p := (p.moveConstruct i handle).destroy i (-1))
    _ handle · hhandles)
  rw [hheld, hlen, hq', ← hhandle]
  exact h.groups.move p.held_length

theorem Divided.destroy (h : p.Divided ((i ::ₘ g) ::ₘ rest))
    (hstep : p.step (.destroy i) = some p') :
    p'.Divided (g ::ₘ rest) ∧ p'.handles.length = p.handles.length := by
  have hcounted := (h.counted.step_iff hstep).mpr trivial
  obtain ⟨handle, hhandle, rfl⟩ := Option.map_eq_some_iff.mp hstep
  have hi : i < p.handles.length := (List.getElem?_eq_some_iff.mp (handle_eq_some.mp hhandle)).1
  have hhandles : (p.destroy i handle).handles = p.handles.set i none := by
    unfold Process.destroy
    split_ifs <;> rfl
  refine ⟨⟨hcounted, ?_⟩, by rw [hhandles, List.length_set]⟩
  have hheld : (p.destroy i handle).held = Function.update p.held i none := by
    refine held_eq_update (h := none) fun k => ?_
    rw [Process.handle, hhandles, handle_set _ _ _ hi, Process.handle]
  rw [hheld]
  exact h.groups.leave

/-! ## What the program does with a socket -/

theorem divided_zero_cons : p.Divided (0 ::ₘ groups) ↔ p.Divided groups :=
  ⟨fun h => ⟨h.counted, groups_zero_cons.mp h.groups⟩,
    fun h => ⟨h.counted, groups_zero_cons.mpr h.groups⟩⟩

theorem Divided.of_held (h : p.Divided groups) (hcounted : p'.Counted) (hheld : p'.held = p.held) :
    p'.Divided groups :=
  ⟨hcounted, hheld ▸ h.groups⟩

/-- `cSocket (int domain, int type, int protocol, int timeout)` where `socket` works. -/
theorem Divided.socket (h : p.Divided rest) (hfd : 0 ≤ fd)
    (hrun : (socketOps p.handles.length fd).foldlM step p = some p') :
    p'.Divided ({p.handles.length} ::ₘ rest) ∧ p'.handles.length = p.handles.length + 2 := by
  have hcounted := h.counted.socketOps hrun
  rw [socketOps_ok hfd h.counted.tidy] at hrun
  split_ifs at hrun with hopen
  obtain rfl := Option.some.inj hrun
  have hheld : (p.opening fd).held = Function.update p.held p.handles.length (some fd) := by
    rw [← Option.filter_some_pos (p := (0 ≤ ·)) (by simpa using hfd)]
    refine held_eq_update fun k => ?_
    have hhandles : (p.opening fd).handles = (p.handles ++ [some fd]) ++ [none] := by
      simp [opening]
    rw [Process.handle, hhandles]
    rcases lt_trichotomy k p.handles.length with hlt | rfl | hgt
    · rw [List.getElem?_append_left (by simp; omega), List.getElem?_append_left hlt,
        if_neg hlt.ne, Process.handle]
    · simp
    · rw [if_neg hgt.ne', Process.handle, List.getElem?_eq_none hgt.le]
      rcases eq_or_ne k (p.handles.length + 1) with rfl | hne
      · simp
      · rw [List.getElem?_eq_none (by simp; omega)]
  refine ⟨⟨hcounted, ?_⟩, by simp [opening]⟩
  rw [hheld]
  exact h.groups.open p.held_length fun l => h.not_held hfd hopen l

/-- The same where `socket` fails. -/
theorem Divided.socket_fails (h : p.Divided groups)
    (hrun : (socketOps p.handles.length (-1)).foldlM step p = some p') : p'.Divided groups := by
  have hcounted := h.counted.socketOps hrun
  rw [socketOps_error] at hrun
  obtain rfl := Option.some.inj hrun
  refine h.of_held hcounted (funext fun k => ?_)
  simp only [held, Process.handle, gone]
  rcases lt_or_ge k p.handles.length with hlt | hge
  · rw [List.getElem?_append_left hlt]
  · rw [List.getElem?_append_right hge, List.getElem?_eq_none hge]
    rcases hk : k - p.handles.length with _ | _ | _ <;> simp

theorem Divided.listen {fd : Nat} (h : p.Divided rest)
    (hrun : (listenOps p.handles.length fd).foldlM step p = some p') :
    p'.Divided ({p.handles.length + 2} ::ₘ rest) := by
  rw [listenOps, List.foldlM_append] at hrun
  obtain ⟨p₁, hsocket, hpass⟩ := Option.bind_eq_some_iff.mp hrun
  obtain ⟨h₁, hlen⟩ := h.socket (Int.natCast_nonneg fd) hsocket
  exact hlen ▸ (Divided.pass (g := 0) h₁ hpass).1

theorem Divided.listenThrows {socket : Option Nat} (h : p.Divided groups)
    (hrun : (listenThrowsOps p.handles.length socket).foldlM step p = some p') :
    p'.Divided groups := by
  cases socket with
  | none => exact h.socket_fails hrun
  | some fd =>
    rw [listenThrowsOps, List.foldlM_append] at hrun
    obtain ⟨p₁, hsocket, hdestroy⟩ := Option.bind_eq_some_iff.mp hrun
    obtain ⟨h₁, -⟩ := h.socket (Int.natCast_nonneg fd) hsocket
    have hstep : p₁.step (.destroy p.handles.length) = some p' := by simpa using hdestroy
    exact divided_zero_cons.mp (Divided.destroy (g := 0) h₁ hstep).1

/-- A socket that is handed to a thread. -/
theorem Divided.thread (h : p.Divided ((i ::ₘ g) ::ₘ rest))
    (hrun : (threadOps i p.handles.length).foldlM step p = some p') :
    p'.Divided (((p.handles.length + 2) ::ₘ g) ::ₘ rest) ∧
      p'.handles.length = p.handles.length + 3 := by
  rw [threadOps, List.append_assoc, List.foldlM_append] at hrun
  obtain ⟨p₁, hrun₁, hrest⟩ := Option.bind_eq_some_iff.mp hrun
  rw [List.foldlM_append] at hrest
  obtain ⟨p₂, hrun₂, hrun₃⟩ := Option.bind_eq_some_iff.mp hrest
  obtain ⟨h₁, hlen₁⟩ := h.pass hrun₁
  obtain ⟨h₂, hlen₂⟩ := h₁.pass hrun₂
  rw [hlen₁] at h₂ hlen₂
  obtain ⟨h₃, hlen₃⟩ := h₂.pass hrun₃
  rw [hlen₂] at h₃ hlen₃
  exact ⟨h₃, hlen₃⟩

theorem Divided.accept {fd : Nat} (h : p.Divided rest)
    (hrun : (acceptOps p.handles.length fd).foldlM step p = some p') :
    p'.Divided ({p.handles.length + 3} ::ₘ rest) := by
  rw [acceptOps, List.foldlM_cons] at hrun
  obtain ⟨p₁, hcreate, hthread⟩ := Option.bind_eq_some_iff.mp hrun
  obtain ⟨h₁, hlen⟩ := h.create (Int.natCast_nonneg fd) hcreate
  rw [← hlen] at hthread
  have h₂ := (Divided.thread (g := 0) h₁ hthread).1
  rw [hlen] at h₂
  exact h₂

theorem Divided.cloned (h : p.Divided (g ::ₘ rest)) (hi : i ∈ g) (hcard : g.card + 1 < 2 ^ 32)
    (hrun : (cloneOps i p.handles.length).foldlM step p = some p') :
    p'.Divided (((p.handles.length + 4) ::ₘ g) ::ₘ rest) := by
  rw [cloneOps, List.cons_append, List.foldlM_cons] at hrun
  obtain ⟨p₁, hclone, hrest⟩ := Option.bind_eq_some_iff.mp hrun
  rw [List.foldlM_append] at hrest
  obtain ⟨p₂, hpass, hthread⟩ := Option.bind_eq_some_iff.mp hrest
  obtain ⟨h₁, hlen₁⟩ := h.clone hi hcard hclone
  obtain ⟨h₂, hlen₂⟩ := h₁.pass hpass
  rw [hlen₁] at h₂ hlen₂
  rw [← hlen₂] at hthread
  have h₃ := (h₂.thread hthread).1
  rw [hlen₂] at h₃
  exact h₃

end Process

end NetBabbler
