import Mathlib.Tactic

/-!
# Components around a shared counter

Components that take steps in any order and share one counter, such as the threads of a
process around a semaphore. An event may be impossible, so a step is partial, and a run is
`List.foldlM` of the steps.

`foldlM_invariant` and `foldlM_drift` are the induction over a run : what every step keeps,
every run keeps, and where an event moves a quantity by its weight, a run moves it by the
sum of the weights. `foldlM_prefix_iff` is the same for a property that only some events
keep. `exists_foldlM_of_lt` makes a run, along a measure. `stepAt_drift` brings such an account
from one component to the list of all of them.
-/

namespace Interleaving

variable {σ α β : Type*}

/-! ## Runs -/

theorem foldlM_invariant {step : σ → α → Option σ} {I : σ → Prop}
    (h : ∀ s a s', step s a = some s' → I s → I s') :
    ∀ (as : List α) {s s' : σ}, as.foldlM step s = some s' → I s → I s'
  | [], s, s', hrun, hs => by
    obtain rfl := Option.some.inj hrun
    exact hs
  | a :: as, s, s', hrun, hs => by
    rw [List.foldlM_cons] at hrun
    obtain ⟨s₁, hstep, hrest⟩ := Option.bind_eq_some_iff.mp hrun
    exact foldlM_invariant h as hrest (h s a s₁ hstep hs)

/-- The same for the events of one kind. -/
theorem foldlM_invariant_of {step : σ → α → Option σ} {I : σ → Prop} {P : α → Prop}
    (h : ∀ s a s', step s a = some s' → P a → I s → I s') :
    ∀ (as : List α) {s s' : σ}, (∀ a ∈ as, P a) → as.foldlM step s = some s' → I s → I s'
  | [], s, s', _, hrun, hs => by
    obtain rfl := Option.some.inj hrun
    exact hs
  | a :: as, s, s', hP, hrun, hs => by
    rw [List.foldlM_cons] at hrun
    obtain ⟨s₁, hstep, hrest⟩ := Option.bind_eq_some_iff.mp hrun
    obtain ⟨ha, has⟩ := List.forall_mem_cons.mp hP
    exact foldlM_invariant_of h as has hrest (h s a s₁ hstep ha hs)

theorem foldlM_drift {step : σ → α → Option σ} {m : σ → ℤ} {w : α → ℤ}
    (h : ∀ s a s', step s a = some s' → m s' = m s + w a) :
    ∀ (as : List α) {s s' : σ}, as.foldlM step s = some s' → m s' = m s + (as.map w).sum
  | [], s, s', hrun => by
    obtain rfl := Option.some.inj hrun
    simp
  | a :: as, s, s', hrun => by
    rw [List.foldlM_cons] at hrun
    obtain ⟨s₁, hstep, hrest⟩ := Option.bind_eq_some_iff.mp hrun
    rw [foldlM_drift h as hrest, h s a s₁ hstep, List.map_cons, List.sum_cons, add_assoc]

/-- Where a step from a good state ends in a good one exactly if the event was fine, a run stays
good exactly if all its events were fine. -/
theorem foldlM_prefix_iff {step : σ → α → Option σ} {Good : σ → Prop} {Fine : σ → α → Prop}
    (h : ∀ s a s', step s a = some s' → Good s → (Good s' ↔ Fine s a)) (as : List α) {s : σ}
    (hs : Good s) :
    (∀ pre s', pre <+: as → pre.foldlM step s = some s' → Good s') ↔
      ∀ pre a s₁ s₂, pre ++ [a] <+: as → pre.foldlM step s = some s₁ → step s₁ a = some s₂ →
        Fine s₁ a := by
  refine ⟨fun hgood pre a s₁ s₂ hpre hrun hstep => ?_, fun hfine pre => ?_⟩
  · have hrun' : (pre ++ [a]).foldlM step s = some s₂ := by
      rw [List.foldlM_append, hrun]
      simpa using hstep
    exact (h s₁ a s₂ hstep (hgood pre s₁ ((List.prefix_append _ _).trans hpre) hrun)).mp
      (hgood _ s₂ hpre hrun')
  · induction pre using List.reverseRecOn with
    | nil =>
      intro s' _ hrun
      obtain rfl := Option.some.inj hrun
      exact hs
    | append_singleton pre a ih =>
      intro s' hpre hrun
      rw [List.foldlM_append] at hrun
      obtain ⟨s₁, hrun₁, hstep⟩ := Option.bind_eq_some_iff.mp hrun
      have hstep' : step s₁ a = some s' := by simpa using hstep
      have hgood := ih s₁ ((List.prefix_append _ _).trans hpre) hrun₁
      exact (h s₁ a s' hstep' hgood).mpr (hfine pre a s₁ s' hpre hrun₁ hstep')

/-- A simulation in which an event of one system is some events of another one. -/
theorem foldlM_simulation {τ : Type*} {step : σ → α → Option σ} {step' : τ → β → Option τ}
    {I : σ → Prop} {f : σ → τ} {g : α → List β}
    (hI : ∀ s a s', step s a = some s' → I s → I s')
    (h : ∀ s a s', I s → step s a = some s' → (g a).foldlM step' (f s) = some (f s')) :
    ∀ (as : List α) {s s' : σ}, as.foldlM step s = some s' → I s →
      (as.flatMap g).foldlM step' (f s) = some (f s')
  | [], s, s', hrun, _ => by
    obtain rfl := Option.some.inj hrun
    rfl
  | a :: as, s, s', hrun, hs => by
    rw [List.foldlM_cons] at hrun
    obtain ⟨s₁, hstep, hrest⟩ := Option.bind_eq_some_iff.mp hrun
    rw [List.flatMap_cons, List.foldlM_append, h s a s₁ hs hstep]
    exact foldlM_simulation hI h as hrest (hI s a s₁ hstep hs)

/-- From a state that is not good, with `n` left, an event leads to a good one or to one with
less left. Then a run leads to a good one. -/
theorem exists_foldlM_of_lt {step : σ → α → Option σ} {I : ℕ → σ → Prop} {Good : σ → Prop}
    {P : α → Prop}
    (h : ∀ n s, I n s → ¬Good s → ∃ a s', P a ∧ step s a = some s' ∧
      (Good s' ∨ ∃ m < n, I m s')) (n : ℕ) :
    ∀ {s : σ}, I n s → ∃ (as : List α) (s' : σ), (∀ a ∈ as, P a) ∧
      as.foldlM step s = some s' ∧ Good s' := by
  induction n using Nat.strong_induction_on with
  | _ n ih =>
    intro s hs
    by_cases hgood : Good s
    · exact ⟨[], s, by simp, rfl, hgood⟩
    obtain ⟨a, s₁, ha, hstep, hgood₁ | ⟨m, hm, hs₁⟩⟩ := h n s hs hgood
    · exact ⟨[a], s₁, by simpa using ha, by simpa using hstep, hgood₁⟩
    · obtain ⟨as, s', has, hrun, hgood'⟩ := ih m hm hs₁
      refine ⟨a :: as, s', List.forall_mem_cons.mpr ⟨ha, has⟩, ?_, hgood'⟩
      rw [List.foldlM_cons, hstep]
      exact hrun

/-! ## A step of one component -/

/-- The `i`-th component steps by `f`, which also moves the counter. -/
def stepAt (f : ℕ → β → Option (ℕ × β)) (i : ℕ) (c : ℕ) (l : List β) : Option (ℕ × List β) := do
  let b ← l[i]?
  let (c', b') ← f c b
  pure (c', l.set i b')

variable {f : ℕ → β → Option (ℕ × β)} {i c c' : ℕ} {l l' : List β}

theorem stepAt_eq_some_iff : stepAt f i c l = some (c', l') ↔
    ∃ b b', l[i]? = some b ∧ f c b = some (c', b') ∧ l' = l.set i b' := by
  simp only [stepAt, Option.bind_eq_bind, Option.bind_eq_some_iff, Option.pure_def,
    Option.some.injEq, Prod.mk.injEq]
  constructor
  · rintro ⟨b, hb, ⟨c₁, b'⟩, hf, rfl, rfl⟩
    exact ⟨b, b', hb, hf, rfl⟩
  · rintro ⟨b, b', hb, hf, rfl⟩
    exact ⟨b, hb, (c', b'), hf, rfl, rfl⟩

theorem stepAt_length (h : stepAt f i c l = some (c', l')) : l'.length = l.length := by
  obtain ⟨b, b', -, -, rfl⟩ := stepAt_eq_some_iff.mp h
  exact List.length_set

/-- A component in its place, among others. -/
theorem stepAt_append_cons {l₁ l₂ : List β} {b b' : β} (h : f c b = some (c', b')) :
    stepAt f l₁.length c (l₁ ++ b :: l₂) = some (c', l₁ ++ b' :: l₂) := by
  refine stepAt_eq_some_iff.mpr ⟨b, b', by simp, h, by simp⟩

/-- What all components have, they have after a step of one of them that leaves it that. -/
theorem forall_mem_set {P : β → Prop} {b : β} (h : ∀ a ∈ l, P a) (hb : P b) :
    ∀ a ∈ l.set i b, P a := fun a ha =>
  (List.mem_or_eq_of_mem_set ha).elim (h a) fun heq => heq ▸ hb

/-- A component after a step of one of them. -/
theorem getElem?_set_eq_some {j : ℕ} {b b' : β} (h : (l.set i b)[j]? = some b') :
    j = i ∧ b' = b ∨ j ≠ i ∧ l[j]? = some b' := by
  rcases eq_or_ne j i with rfl | hne
  · have hj : j < l.length := by
      obtain ⟨hj, -⟩ := List.getElem?_eq_some_iff.mp h
      rwa [List.length_set] at hj
    rw [List.getElem?_set_self hj] at h
    exact .inl ⟨rfl, (Option.some.inj h).symm⟩
  · rw [List.getElem?_set_ne hne.symm] at h
    exact .inr ⟨hne, h⟩

theorem sum_map_set {M : Type*} [AddCommMonoid M] (m : β → M) {b : β} (b' : β)
    (h : l[i]? = some b) : ((l.set i b').map m).sum + m b = (l.map m).sum + m b' := by
  induction l generalizing i with
  | nil => simp at h
  | cons a l ih =>
    cases i with
    | zero =>
      obtain rfl : a = b := by simpa using h
      simp only [List.set_cons_zero, List.map_cons, List.sum_cons]
      abel
    | succ i =>
      have hrest := ih (by simpa using h)
      simp only [List.set_cons_succ, List.map_cons, List.sum_cons]
      rw [add_assoc, hrest, add_assoc]

theorem sum_map_eraseIdx {M : Type*} [AddCommMonoid M] (m : β → M) {b : β}
    (h : l[i]? = some b) : ((l.eraseIdx i).map m).sum + m b = (l.map m).sum := by
  induction l generalizing i with
  | nil => simp at h
  | cons a l ih =>
    cases i with
    | zero =>
      obtain rfl : a = b := by simpa using h
      rw [List.eraseIdx_cons_zero, List.map_cons, List.sum_cons, add_comm]
    | succ i =>
      have hrest := ih (by simpa using h)
      rw [List.eraseIdx_cons_succ, List.map_cons, List.sum_cons, List.map_cons, List.sum_cons,
        add_assoc, hrest]

/-- A sum over the components is one summand and the rest. -/
theorem exists_sum_map {M : Type*} [AddCommMonoid M] (m : β → M) {b : β} (h : l[i]? = some b) :
    ∃ rest, (l.map m).sum = m b + rest ∧ ((l.eraseIdx i).map m).sum = rest ∧
      ∀ b', ((l.set i b').map m).sum = m b' + rest := by
  refine ⟨_, ?_, rfl, fun b' => ?_⟩
  · rw [← sum_map_eraseIdx m h, add_comm]
  · obtain ⟨hi, -⟩ := List.getElem?_eq_some_iff.mp h
    rw [← sum_map_eraseIdx m (List.getElem?_set_self (a := b') hi), List.eraseIdx_set_eq, add_comm]

/-- What a step of a component moves, a step of the list moves. -/
theorem stepAt_drift {m : β → ℕ} {w : ℤ}
    (hf : ∀ b c' b', f c b = some (c', b') → (c' + m b' : ℤ) = c + m b + w)
    (h : stepAt f i c l = some (c', l')) :
    (c' + (l'.map m).sum : ℤ) = c + (l.map m).sum + w := by
  obtain ⟨b, b', hb, hstep, rfl⟩ := stepAt_eq_some_iff.mp h
  have hmove := hf b c' b' hstep
  have hsum := sum_map_set m b' hb
  omega

end Interleaving
