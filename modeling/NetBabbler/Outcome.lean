import Mathlib.Order.Basic

/-!
# Outcomes of stateful programs that may fail

`EStateM.Ends m Q E s` : run from `s`, the program `m` ends normally in a result and a
state of `Q`, or fails with an error and a state of `E`. The rules compute it along
`do` blocks, so that a program is verified by rewriting with them down to the calls it
makes, whose own specifications then apply by `Ends.mono`.

`EStateM.times m n` runs `m` again and again and collects the results. What every run
of `m` keeps, `times` keeps (`ends_times`), and `Along` says of each run which states it
may assume to start in. `Keeps` is the invariant of a program that is put together from
parts, each of which keeps it.
-/

namespace EStateM

variable {ε σ τ α β : Type}

/-- Run from `s`, `m` ends in `Q` or fails in `E`. -/
def Ends (m : EStateM ε σ α) (Q : α → σ → Prop) (E : ε → σ → Prop) (s : σ) : Prop :=
  match m s with
  | .ok a s' => Q a s'
  | .error e s' => E e s'

instance (m : EStateM ε σ α) (Q : α → σ → Prop) (E : ε → σ → Prop) (s : σ)
    [∀ a s', Decidable (Q a s')] [∀ e s', Decidable (E e s')] : Decidable (Ends m Q E s) :=
  match h : m s with
  | .ok a s' => decidable_of_iff (Q a s') (by rw [Ends, h])
  | .error e s' => decidable_of_iff (E e s') (by rw [Ends, h])

/-! ## Rules -/

section Rules

variable {Q : β → σ → Prop} {E : ε → σ → Prop} {s : σ}

@[simp] theorem ends_pure (b : β) : Ends (pure b) Q E s ↔ Q b s := Iff.rfl

@[simp] theorem ends_throw (e : ε) : Ends (throw e : EStateM ε σ β) Q E s ↔ E e s := Iff.rfl

@[simp] theorem ends_bind (m : EStateM ε σ α) (k : α → EStateM ε σ β) :
    Ends (m >>= k) Q E s ↔ Ends m (fun a s' => Ends (k a) Q E s') E s := by
  simp only [Ends, bind, EStateM.bind]
  cases m s <;> rfl

@[simp] theorem ends_ite (c : Prop) [Decidable c] (m n : EStateM ε σ β) :
    Ends (if c then m else n) Q E s ↔ if c then Ends m Q E s else Ends n Q E s := by
  split_ifs <;> rfl

end Rules

@[simp] theorem ends_get {Q : σ → σ → Prop} {E : ε → σ → Prop} {s : σ} :
    Ends (get : EStateM ε σ σ) Q E s ↔ Q s s := Iff.rfl

@[simp] theorem ends_modify {Q : PUnit → σ → Prop} {E : ε → σ → Prop} {s : σ} (f : σ → σ) :
    Ends (modify f : EStateM ε σ PUnit) Q E s ↔ Q ⟨⟩ (f s) := Iff.rfl

@[simp] theorem ends_modifyGet {Q : α → σ → Prop} {E : ε → σ → Prop} {s : σ} (f : σ → α × σ) :
    Ends (modifyGet f : EStateM ε σ α) Q E s ↔ Q (f s).1 (f s).2 := Iff.rfl

/-! ## Consequence -/

section Consequence

variable {m : EStateM ε σ α} {Q Q' : α → σ → Prop} {E E' : ε → σ → Prop} {s s' : σ} {a : α} {e : ε}

theorem Ends.mono (h : Ends m Q E s) (hQ : ∀ a s', Q a s' → Q' a s')
    (hE : ∀ e s', E e s' → E' e s') : Ends m Q' E' s := by
  unfold Ends at h ⊢
  cases hm : m s with
  | ok a s' => exact hQ _ _ (by simpa [hm] using h)
  | error e s' => exact hE _ _ (by simpa [hm] using h)

theorem ends_trivial (m : EStateM ε σ α) (s : σ) : Ends m (fun _ _ => True) (fun _ _ => True) s := by
  unfold Ends
  cases m s <;> trivial

theorem ends_of_forall (hQ : ∀ a s', Q a s') (hE : ∀ e s', E e s') : Ends m Q E s :=
  (ends_trivial m s).mono (fun a s' _ => hQ a s') fun e s' _ => hE e s'

theorem Ends.and (h : Ends m Q E s) (h' : Ends m Q' E' s) :
    Ends m (fun a s' => Q a s' ∧ Q' a s') (fun e s' => E e s' ∧ E' e s') s := by
  unfold Ends at h h' ⊢
  cases hm : m s <;> rw [hm] at h h' <;> exact ⟨h, h'⟩

theorem Ends.ok (h : Ends m Q E s) (hm : m s = .ok a s') : Q a s' := by
  simpa [Ends, hm] using h

theorem Ends.error (h : Ends m Q E s) (hm : m s = .error e s') : E e s' := by
  simpa [Ends, hm] using h

/-- A program that cannot fail ends in a result. -/
theorem Ends.exists_ok (h : Ends m Q (fun _ _ => False) s) : ∃ a s', m s = .ok a s' ∧ Q a s' := by
  unfold Ends at h
  cases hm : m s with
  | ok a s' => exact ⟨a, s', rfl, by simpa [hm] using h⟩
  | error e s' => simp [hm] at h

/-- What cannot fail ends in one result of which all that is known holds. -/
theorem Ends.exists_ok_and (h : Ends m Q (fun _ _ => False) s) (h' : Ends m Q' E' s) :
    ∃ a s', m s = .ok a s' ∧ Q a s' ∧ Q' a s' :=
  ((h.and h').mono (fun _ _ hQ => hQ) fun _ _ hE => hE.1).exists_ok

theorem ends_iff : Ends m Q E s ↔
    (∀ a s', m s = .ok a s' → Q a s') ∧ ∀ e s', m s = .error e s' → E e s' := by
  constructor
  · exact fun h => ⟨fun _ _ => h.ok, fun _ _ => h.error⟩
  · rintro ⟨hok, herr⟩
    unfold Ends
    cases hm : m s with
    | ok a s' => exact hok _ _ hm
    | error e s' => exact herr _ _ hm

theorem ends_congr {m' : EStateM ε σ α} {t : σ} (h : m s = m' t) :
    Ends m Q E s ↔ Ends m' Q E t := by
  rw [ends_iff, ends_iff, h]

/-- Only a result can stand against `Q`. -/
theorem exists_ok_of_not_ends (h : ¬Ends m Q (fun _ _ => True) s) :
    ∃ a s', m s = .ok a s' ∧ ¬Q a s' := by
  by_contra hnone
  refine h (ends_iff.mpr ⟨fun a s' hm => ?_, fun _ _ _ => trivial⟩)
  by_contra hQ
  exact hnone ⟨a, s', hm, hQ⟩

theorem bind_apply_of_ok (hm : m s = .ok a s') (k : α → EStateM ε σ β) : (m >>= k) s = k a s' := by
  simp only [bind, EStateM.bind, hm]

theorem ends_of_eq (hm : m s = .ok a s') (hQ : Q a s') : Ends m Q E s := by
  refine ends_iff.mpr ⟨fun b s'' hb => ?_, fun e s'' hb => ?_⟩
  · rw [hm] at hb
    cases hb
    exact hQ
  · rw [hm] at hb
    cases hb

theorem ends_of_error (hm : m s = .error e s') (hE : E e s') : Ends m Q E s := by
  refine ends_iff.mpr ⟨fun b s'' hb => ?_, fun e s'' hb => ?_⟩
  · rw [hm] at hb
    cases hb
  · rw [hm] at hb
    cases hb
    exact hE

/-- Programs of which the same holds are the same. -/
theorem eq_of_ends {m m' : EStateM ε σ α} (h : ∀ Q E s, Ends m Q E s → Ends m' Q E s) :
    m = m' := by
  funext s
  cases hm : m s with
  | ok a s' =>
    have hends := h (fun b t => b = a ∧ t = s') (fun _ _ => False) s (ends_of_eq hm ⟨rfl, rfl⟩)
    obtain ⟨_, _, hrun, rfl, rfl⟩ := hends.exists_ok
    exact hrun.symm
  | error e s' =>
    have hends := h (fun _ _ => False) (fun f t => f = e ∧ t = s') s
      (ends_of_error hm ⟨rfl, rfl⟩)
    cases hm' : m' s with
    | ok a t => exact (hends.ok hm').elim
    | error f t =>
      obtain ⟨rfl, rfl⟩ := hends.error hm'
      rfl

/-- What a result of `m` shows, a result of a longer program shows. -/
theorem Ends.bind_of_left {P : Prop} (h : Ends m (fun _ _ => P) (fun _ _ => True) s)
    (k : α → EStateM ε σ β) : Ends (m >>= k) (fun _ _ => P) (fun _ _ => True) s := by
  rw [ends_bind]
  refine h.mono (fun a s' hP => ?_) fun _ _ he => he
  exact ends_of_forall (fun _ _ => hP) fun _ _ => trivial

end Consequence

/-! ## A program on a part of the state -/

/-- `m` run on the part `get t` of the state, written back with `put`. -/
def zoom (get : τ → σ) (put : σ → τ → τ) (m : EStateM ε σ α) : EStateM ε τ α := fun t =>
  match m (get t) with
  | .ok a s => .ok a (put s t)
  | .error e s => .error e (put s t)

@[simp] theorem ends_zoom {get : τ → σ} {put : σ → τ → τ} {m : EStateM ε σ α}
    {Q : α → τ → Prop} {E : ε → τ → Prop} {t : τ} :
    Ends (zoom get put m) Q E t ↔
      Ends m (fun a s => Q a (put s t)) (fun e s => E e (put s t)) (get t) := by
  simp only [Ends, zoom]
  cases m (get t) <;> rfl

/-! ## Repetition -/

/-- The results of `n` runs of `m`, one after the other. -/
def times (m : EStateM ε σ α) : Nat → EStateM ε σ (List α)
  | 0 => pure []
  | n + 1 => do
    let a ← m
    let as ← times m n
    pure (a :: as)

/-- Each of the first `n` runs of `m` that is reached starts in `P`. -/
def Along (m : EStateM ε σ α) (P : σ → Prop) : Nat → σ → Prop
  | 0, _ => True
  | n + 1, s => P s ∧ Ends m (fun _ => Along m P n) (fun _ _ => True) s

instance decidableAlong (m : EStateM ε σ α) (P : σ → Prop) [DecidablePred P] :
    ∀ (n : Nat) (s : σ), Decidable (Along m P n s)
  | 0, _ => inferInstanceAs (Decidable True)
  | n + 1, s =>
    have := decidableAlong m P n
    inferInstanceAs (Decidable (P s ∧ Ends m (fun _ => Along m P n) (fun _ _ => True) s))

/-- Runs of `m` that do one thing after the other of a list, with the results `f`. -/
theorem ends_times {m : EStateM ε σ α} {P : σ → Prop} {I : List β → σ → Prop}
    {f : β → α} {E : ε → σ → Prop}
    (step : ∀ b bs s, I (b :: bs) s → P s → Ends m (fun a s' => a = f b ∧ I bs s') E s) :
    ∀ (bs : List β) {s : σ}, I bs s → Along m P bs.length s →
      Ends (times m bs.length) (fun as s' => as = bs.map f ∧ I [] s') E s
  | [], s, hI, _ => ⟨rfl, hI⟩
  | b :: bs, s, hI, hP => by
    simp only [List.length_cons, times, ends_bind, ends_pure]
    refine ((step b bs s hI hP.1).and hP.2).mono ?_ fun _ _ he => he.1
    rintro a s' ⟨⟨rfl, hI'⟩, hP'⟩
    refine (ends_times step bs hI' hP').mono ?_ fun _ _ he => he
    rintro as s'' ⟨rfl, hnil⟩
    exact ⟨rfl, hnil⟩

/-- Runs of `m` that each bring a count further. -/
theorem ends_times_count {m : EStateM ε σ α} {P : σ → Prop} {I : Nat → σ → Prop} {E : ε → Prop}
    (step : ∀ k s, I k s → P s → Ends m (fun _ => I (k + 1)) (fun e _ => E e) s) :
    ∀ (n : Nat) {k : Nat} {s : σ}, I k s → Along m P n s →
      Ends (times m n) (fun _ => I (k + n)) (fun e _ => E e) s
  | 0, _, _, hI, _ => hI
  | n + 1, k, s, hI, hP => by
    simp only [times, ends_bind, ends_pure]
    refine ((step k s hI hP.1).and hP.2).mono ?_ fun _ _ he => he.1
    rintro _ s' ⟨hI', hP'⟩
    refine (ends_times_count step n hI' hP').mono ?_ fun _ _ he => he
    intro _ s'' hI''
    rwa [Nat.add_assoc, Nat.add_comm 1] at hI''

/-- Runs of `m` with an invariant that depends on the results so far. A failure comes after
some of the runs. -/
theorem ends_times_results {m : EStateM ε σ α} {I : List α → σ → Prop}
    {E : List α → ε → σ → Prop}
    (step : ∀ as s, I as s → Ends m (fun a s' => I (as ++ [a]) s') (E as) s) :
    ∀ (n : Nat) {as : List α} {s : σ}, I as s →
      Ends (times m n) (fun bs s' => bs.length = n ∧ I (as ++ bs) s')
        (fun e s' => ∃ bs t, bs.length < n ∧ times m bs.length s = .ok bs t ∧
          E (as ++ bs) e s') s
  | 0, as, s, hI => by
    rw [times, ends_pure, List.append_nil]
    exact ⟨rfl, hI⟩
  | n + 1, as, s, hI => by
    cases hm : m s with
    | ok a s₁ =>
      have hI₁ := (step as s hI).ok hm
      have hcons : ∀ {bs : List α} {t : σ}, times m bs.length s₁ = .ok bs t →
          times m (a :: bs).length s = .ok (a :: bs) t := fun hbs => by
        rw [List.length_cons, times, bind_apply_of_ok hm, bind_apply_of_ok hbs]
        rfl
      simp only [times, ends_bind, ends_pure]
      refine ends_of_eq hm ((ends_times_results step n hI₁).mono ?_ ?_)
      · rintro bs s' ⟨rfl, hI'⟩
        exact ⟨rfl, by simpa using hI'⟩
      · rintro e s' ⟨bs, t, hlt, hbs, hE⟩
        exact ⟨a :: bs, t, Nat.succ_lt_succ hlt, hcons hbs, by simpa using hE⟩
    | error e s' =>
      simp only [times, ends_bind, ends_pure]
      exact ends_of_error hm ⟨[], s, Nat.succ_pos n, rfl, by
        rw [List.append_nil]
        exact (step as s hI).error hm⟩

/-- Where a run that ends well, or fails in `F`, shows that it started in `P`, a row of runs
that does shows that it ran along `P`. -/
theorem ends_times_along {m : EStateM ε σ α} {P I : σ → Prop} {F : ε → Prop}
    (step : ∀ s, I s → Ends m (fun _ s' => I s' ∧ P s) (fun e _ => F e → P s) s) :
    ∀ (n : Nat) {s : σ}, I s →
      Ends (times m n) (fun _ _ => Along m P n s) (fun e _ => F e → Along m P n s) s
  | 0, _, _ => trivial
  | n + 1, s, hI => by
    simp only [times, ends_bind, ends_pure]
    cases hm : m s with
    | ok a s' =>
      obtain ⟨hI', hP⟩ := (step s hI).ok hm
      refine ends_of_eq hm ((ends_times_along step n hI').mono ?_ ?_)
      · exact fun _ _ hrest => ⟨hP, ends_of_eq hm hrest⟩
      · exact fun _ _ hrest hF => ⟨hP, ends_of_eq hm (hrest hF)⟩
    | error e s' =>
      exact ends_of_error hm fun hF => ⟨(step s hI).error hm hF, ends_of_error hm trivial⟩

theorem Along.and {m : EStateM ε σ α} {P Q : σ → Prop} :
    ∀ (n : Nat) {s : σ}, Along m P n s → Along m Q n s → Along m (fun s => P s ∧ Q s) n s
  | 0, _, _, _ => trivial
  | n + 1, _, hP, hQ =>
    ⟨⟨hP.1, hQ.1⟩, (hP.2.and hQ.2).mono (fun _ _ h => Along.and n h.1 h.2) fun _ _ _ => trivial⟩

/-- Along a run, what every step keeps may be assumed. -/
theorem Along.mono {m : EStateM ε σ α} {P Q I : σ → Prop}
    (keep : ∀ s, I s → P s → Ends m (fun _ => I) (fun _ _ => True) s)
    (h : ∀ s, I s → P s → Q s) :
    ∀ (n : Nat) {s : σ}, I s → Along m P n s → Along m Q n s
  | 0, _, _, _ => trivial
  | n + 1, s, hI, hP =>
    ⟨h s hI hP.1, ((keep s hI hP.1).and hP.2).mono
      (fun _ _ hs' => Along.mono keep h n hs'.1 hs'.2) fun _ _ _ => trivial⟩

/-- What an invariant implies holds along every run. -/
theorem along_of_invariant {m : EStateM ε σ α} {P I : σ → Prop}
    (keep : ∀ s, I s → Ends m (fun _ => I) (fun _ _ => True) s) (h : ∀ s, I s → P s) :
    ∀ (n : Nat) {s : σ}, I s → Along m P n s
  | 0, _, _ => trivial
  | n + 1, s, hI =>
    ⟨h s hI, (keep s hI).mono (fun _ _ hs' => along_of_invariant keep h n hs') fun _ _ he => he⟩

/-- Where every run that succeeds started in `P`, a row of successes ran along `P`. -/
theorem along_of_times {m : EStateM ε σ α} {P : σ → Prop}
    (h : ∀ s, ¬P s → Ends m (fun _ _ => False) (fun _ _ => True) s) :
    ∀ (n : Nat) {s : σ}, Ends (times m n) (fun _ _ => True) (fun _ _ => False) s → Along m P n s
  | 0, _, _ => trivial
  | n + 1, s, hrun => by
    simp only [times, ends_bind, ends_pure] at hrun
    refine ⟨?_, hrun.mono (fun _ _ hrest => along_of_times h n hrest) fun _ _ he => he.elim⟩
    by_contra hP
    obtain ⟨a, s', hok, -⟩ := hrun.exists_ok
    exact (h s hP).ok hok

/-! ## Invariants -/

/-- `m` keeps `I` and fails in `F` only. -/
def Keeps (I : σ → Prop) (F : ε → Prop) (m : EStateM ε σ α) : Prop :=
  ∀ s, I s → Ends m (fun _ => I) (fun e _ => F e) s

section Keeps

variable {I : σ → Prop} {F : ε → Prop}

theorem Keeps.congr {J : σ → Prop} {m : EStateM ε σ α} (hm : Keeps I F m) (h : ∀ s, I s ↔ J s) :
    Keeps J F m :=
  fun s hs => (hm s ((h s).mpr hs)).mono (fun _ s' => (h s').mp) fun _ _ he => he

theorem keeps_pure (a : α) : Keeps I F (pure a : EStateM ε σ α) :=
  fun _ hs => hs

theorem keeps_throw {e : ε} (h : F e) : Keeps I F (throw e : EStateM ε σ α) :=
  fun _ _ => h

theorem keeps_get : Keeps I F (get : EStateM ε σ σ) :=
  fun _ hs => hs

theorem keeps_modify {f : σ → σ} (h : ∀ s, I s → I (f s)) :
    Keeps I F (modify f : EStateM ε σ PUnit) :=
  fun s hs => h s hs

theorem Keeps.bind {m : EStateM ε σ α} {k : α → EStateM ε σ β} (hm : Keeps I F m)
    (hk : ∀ a, Keeps I F (k a)) : Keeps I F (m >>= k) := by
  intro s hs
  rw [ends_bind]
  exact (hm s hs).mono (fun a s' => hk a s') fun _ _ he => he

theorem Keeps.ite {c : Prop} [Decidable c] {m n : EStateM ε σ α} (hm : c → Keeps I F m)
    (hn : ¬c → Keeps I F n) : Keeps I F (if c then m else n) := by
  split_ifs with hc
  · exact hm hc
  · exact hn hc

/-- A part of the state that a program on it keeps. -/
theorem Keeps.zoom {get : τ → σ} {put : σ → τ → τ} (hput : ∀ s t, get (put s t) = s)
    {m : EStateM ε σ α} (hm : Keeps I F m) : Keeps (fun t => I (get t)) F (zoom get put m) := by
  intro t ht
  rw [ends_zoom]
  refine (hm (get t) ht).mono (fun _ s hs => ?_) fun _ _ he => he
  rwa [hput]

theorem Keeps.times {m : EStateM ε σ α} (hm : Keeps I F m) : ∀ n, Keeps I F (times m n)
  | 0 => keeps_pure []
  | n + 1 => .bind hm fun _ => .bind (Keeps.times hm n) fun _ => keeps_pure _

end Keeps

/-! ## What a program does however it ends -/

/-- However it ends, `m` goes from a state to one that `R` relates to it. -/
def Advances (R : σ → σ → Prop) (m : EStateM ε σ α) : Prop :=
  ∀ s, Ends m (fun _ s' => R s s') (fun _ s' => R s s') s

section Advances

variable {R : σ → σ → Prop}

theorem advances_pure (hrefl : ∀ s, R s s) (a : α) : Advances R (pure a : EStateM ε σ α) :=
  hrefl

theorem advances_throw (hrefl : ∀ s, R s s) (e : ε) : Advances R (throw e : EStateM ε σ α) :=
  hrefl

theorem advances_get (hrefl : ∀ s, R s s) : Advances R (get : EStateM ε σ σ) :=
  hrefl

theorem advances_modify {f : σ → σ} (h : ∀ s, R s (f s)) :
    Advances R (modify f : EStateM ε σ PUnit) :=
  h

theorem Advances.bind (htrans : ∀ s₁ s₂ s₃, R s₁ s₂ → R s₂ s₃ → R s₁ s₃)
    {m : EStateM ε σ α} {k : α → EStateM ε σ β} (hm : Advances R m)
    (hk : ∀ a, Advances R (k a)) : Advances R (m >>= k) := by
  intro s
  rw [ends_bind]
  refine (hm s).mono (fun a s' h => ?_) fun _ _ he => he
  exact (hk a s').mono (fun _ _ h' => htrans _ _ _ h h') fun _ _ h' => htrans _ _ _ h h'

theorem Advances.ite {c : Prop} [Decidable c] {m n : EStateM ε σ α} (hm : c → Advances R m)
    (hn : ¬c → Advances R n) : Advances R (if c then m else n) := by
  split_ifs with hc
  · exact hm hc
  · exact hn hc

theorem Advances.zoom {get : τ → σ} {put : σ → τ → τ} {R' : τ → τ → Prop} {m : EStateM ε σ α}
    (hm : Advances R m) (h : ∀ t s, R (get t) s → R' t (put s t)) :
    Advances R' (zoom get put m) := by
  intro t
  rw [ends_zoom]
  exact (hm (get t)).mono (fun _ s hs => h t s hs) fun _ s hs => h t s hs

theorem Advances.times (hrefl : ∀ s, R s s)
    (htrans : ∀ s₁ s₂ s₃, R s₁ s₂ → R s₂ s₃ → R s₁ s₃) {m : EStateM ε σ α}
    (hm : Advances R m) : ∀ n, Advances R (times m n)
  | 0 => advances_pure hrefl []
  | n + 1 => .bind htrans hm fun _ => .bind htrans (Advances.times hrefl htrans hm n) fun _ =>
      advances_pure hrefl _

end Advances

/-! ## Results without the state -/

/-- The result or the error of a run. -/
def outcome (m : EStateM ε σ α) (s : σ) : Except ε α :=
  match m s with
  | .ok a _ => .ok a
  | .error e _ => .error e

theorem outcome_eq_iff {m : EStateM ε σ α} {s : σ} {a : α} :
    outcome m s = .ok a ↔ Ends m (fun a' _ => a' = a) (fun _ _ => False) s := by
  unfold outcome Ends
  cases m s with
  | ok a' s' => simp
  | error e s' => simp

attribute [irreducible] Ends

end EStateM
