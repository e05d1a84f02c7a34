import Mathlib.Data.Finset.Card
import Mathlib.Data.Multiset.Bind

/-!
# Keys that share a value

A partial function from keys to values and a division of its keys into groups, one for each
value : the users of a number of resources, where some have many users. A group may be
empty, and is then the group of no value.

The rules say what one change of the function does to the groups : a key with a value of its
own, a key that joins a group, a key that takes the place of another one, a key that leaves.
The other groups are a parameter of each rule. `Groups.length_eq` : there are as many values
as groups with a key.
-/

namespace Sharing

variable {κ ν : Type*}

/-- The keys that have a value are in one group each, with those of the same value. -/
structure Groups (f : κ → Option ν) (groups : Multiset (Multiset κ)) : Prop where
  nodup : groups.join.Nodup
  mem : ∀ k, k ∈ groups.join ↔ ∃ v, f k = some v
  same : ∀ g ∈ groups, ∀ k ∈ g, ∀ l, l ∈ g ↔ f l = f k

variable {f : κ → Option ν} {groups rest : Multiset (Multiset κ)} {g : Multiset κ} {k l : κ}
  {v : ν}

theorem groups_none : Groups (fun _ : κ => (none : Option ν)) 0 :=
  ⟨Multiset.nodup_zero, by simp, by simp⟩

/-- A group without keys says nothing. -/
theorem groups_zero_cons : Groups f (0 ::ₘ rest) ↔ Groups f rest := by
  have hjoin : (0 ::ₘ rest).join = rest.join := by rw [Multiset.join_cons, zero_add]
  constructor
  · rintro ⟨hnodup, hmem, hsame⟩
    rw [hjoin] at hnodup hmem
    exact ⟨hnodup, hmem, fun g hg => hsame g (Multiset.mem_cons_of_mem hg)⟩
  · rintro ⟨hnodup, hmem, hsame⟩
    refine ⟨hjoin ▸ hnodup, hjoin ▸ hmem, fun g hg k hk => ?_⟩
    rcases Multiset.mem_cons.mp hg with rfl | hg
    · simp at hk
    · exact hsame g hg k hk

theorem Groups.mem_join (h : Groups f groups) (hg : g ∈ groups) (hk : k ∈ g) :
    ∃ v, f k = some v :=
  (h.mem k).mp (Multiset.mem_join.mpr ⟨g, hg, hk⟩)

theorem Groups.not_mem (h : Groups f groups) (hk : f k = none) : k ∉ groups.join := by
  intro hmem
  obtain ⟨v, hv⟩ := (h.mem k).mp hmem
  rw [hk] at hv
  cases hv

/-- All keys of a value are in one group. -/
theorem Groups.exists_group (h : Groups f groups) (hk : f k = some v) :
    ∃ g ∈ groups, ∀ l, l ∈ g ↔ f l = some v := by
  obtain ⟨g, hg, hkg⟩ := Multiset.mem_join.mp ((h.mem k).mpr ⟨v, hk⟩)
  exact ⟨g, hg, fun l => by rw [h.same g hg k hkg, hk]⟩

section Rules

variable [DecidableEq κ]

/-- A value that no key had. -/
theorem Groups.open (h : Groups f rest) (hk : f k = none) (hv : ∀ l, f l ≠ some v) :
    Groups (Function.update f k (some v)) ({k} ::ₘ rest) := by
  have hnot := h.not_mem hk
  have hother : ∀ {g l}, g ∈ rest → l ∈ g → l ≠ k := fun hg hl heq =>
    hnot (Multiset.mem_join.mpr ⟨_, hg, heq ▸ hl⟩)
  refine ⟨?_, fun l => ?_, fun g hg l hl m => ?_⟩
  · rw [Multiset.join_cons, Multiset.singleton_add]
    exact Multiset.nodup_cons.mpr ⟨hnot, h.nodup⟩
  · rw [Multiset.join_cons, Multiset.singleton_add, Multiset.mem_cons]
    rcases eq_or_ne l k with rfl | hne
    · simp
    · rw [Function.update_of_ne hne, ← h.mem]
      exact or_iff_right hne
  · rcases Multiset.mem_cons.mp hg with rfl | hg
    · obtain rfl := Multiset.mem_singleton.mp hl
      rw [Multiset.mem_singleton, Function.update_self]
      rcases eq_or_ne m l with rfl | hne
      · simp
      · rw [Function.update_of_ne hne]
        exact iff_of_false hne (hv m)
    · obtain ⟨w, hw⟩ := h.mem_join hg hl
      rw [Function.update_of_ne (hother hg hl), h.same g hg l hl]
      rcases eq_or_ne m k with rfl | hne
      · rw [Function.update_self, hk, hw]
        exact iff_of_false nofun fun heq => hv l (hw.trans heq.symm)
      · rw [Function.update_of_ne hne]

/-- One user more. -/
theorem Groups.share (h : Groups f (g ::ₘ rest)) (hl : l ∈ g) (hk : f k = none) :
    Groups (Function.update f k (f l)) ((k ::ₘ g) ::ₘ rest) := by
  have hnot := h.not_mem hk
  have hother : ∀ {g' m}, g' ∈ g ::ₘ rest → m ∈ g' → m ≠ k := fun hg' hm heq =>
    hnot (Multiset.mem_join.mpr ⟨_, hg', heq ▸ hm⟩)
  obtain ⟨v, hv⟩ := h.mem_join (Multiset.mem_cons_self _ _) hl
  have hgroup := h.same g (Multiset.mem_cons_self _ _) l hl
  refine ⟨?_, fun m => ?_, fun g' hg' m hm m' => ?_⟩
  · rw [Multiset.join_cons, Multiset.cons_add, ← Multiset.join_cons]
    exact Multiset.nodup_cons.mpr ⟨hnot, h.nodup⟩
  · rw [Multiset.join_cons, Multiset.cons_add, ← Multiset.join_cons, Multiset.mem_cons]
    rcases eq_or_ne m k with rfl | hne
    · simp [hv]
    · rw [Function.update_of_ne hne, ← h.mem]
      exact or_iff_right hne
  · have hvalue : ∀ m ∈ k ::ₘ g, Function.update f k (f l) m = f l := by
      intro m hm
      rcases eq_or_ne m k with rfl | hne
      · exact Function.update_self ..
      · rw [Function.update_of_ne hne]
        exact (hgroup m).mp ((Multiset.mem_cons.mp hm).resolve_left hne)
    rcases Multiset.mem_cons.mp hg' with rfl | hrest
    · rw [hvalue m hm]
      refine ⟨hvalue m', fun heq => Multiset.mem_cons.mpr ?_⟩
      rcases eq_or_ne m' k with rfl | hne
      · exact .inl rfl
      · rw [Function.update_of_ne hne] at heq
        exact .inr ((hgroup m').mpr heq)
    · have hmem : g' ∈ g ::ₘ rest := Multiset.mem_cons_of_mem hrest
      rw [Function.update_of_ne (hother hmem hm), h.same g' hmem m hm]
      rcases eq_or_ne m' k with rfl | hne
      · rw [Function.update_self, hk]
        obtain ⟨w, hw⟩ := h.mem_join hmem hm
        refine iff_of_false (by simp [hw]) fun heq => ?_
        -- `m` would be in both groups
        have hboth : m ∈ g := (hgroup m).mpr heq.symm
        have hnodup := h.nodup
        rw [Multiset.join_cons] at hnodup
        exact Multiset.disjoint_left.mp (Multiset.nodup_add.mp hnodup).2.2 hboth
          (Multiset.mem_join.mpr ⟨g', hrest, hm⟩)
      · rw [Function.update_of_ne hne]

/-- One user less. -/
theorem Groups.leave (h : Groups f ((k ::ₘ g) ::ₘ rest)) :
    Groups (Function.update f k none) (g ::ₘ rest) := by
  have hnodup := h.nodup
  rw [Multiset.join_cons, Multiset.cons_add, ← Multiset.join_cons] at hnodup
  obtain ⟨hnot, hnodup'⟩ := Multiset.nodup_cons.mp hnodup
  have hother : ∀ {g' m}, g' ∈ g ::ₘ rest → m ∈ g' → m ≠ k := fun hg' hm heq =>
    hnot (Multiset.mem_join.mpr ⟨_, hg', heq ▸ hm⟩)
  have hgroup : ∀ g' ∈ g ::ₘ rest, ∀ m ∈ g', ∀ m', m' ≠ k → (m' ∈ g' ↔ f m' = f m) := by
    intro g' hg' m hm m' hne
    rcases Multiset.mem_cons.mp hg' with rfl | hrest
    · have hsame := h.same _ (Multiset.mem_cons_self _ _) m (Multiset.mem_cons_of_mem hm) m'
      rw [← hsame, Multiset.mem_cons]
      exact (or_iff_right hne).symm
    · exact h.same g' (Multiset.mem_cons_of_mem hrest) m hm m'
  refine ⟨hnodup', fun m => ?_, fun g' hg' m hm m' => ?_⟩
  · rcases eq_or_ne m k with rfl | hne
    · exact iff_of_false hnot (by simp)
    · rw [Function.update_of_ne hne, ← h.mem, Multiset.join_cons, Multiset.join_cons,
        Multiset.cons_add, Multiset.mem_cons]
      exact (or_iff_right hne).symm
  · rw [Function.update_of_ne (hother hg' hm)]
    rcases eq_or_ne m' k with rfl | hne
    · rw [Function.update_self]
      obtain ⟨w, hw⟩ : ∃ w, f m = some w := by
        rcases Multiset.mem_cons.mp hg' with rfl | hrest
        · exact h.mem_join (Multiset.mem_cons_self _ _) (Multiset.mem_cons_of_mem hm)
        · exact h.mem_join (Multiset.mem_cons_of_mem hrest) hm
      exact iff_of_false (fun hmem => hother hg' hmem rfl) (by simp [hw])
    · rw [Function.update_of_ne hne]
      exact hgroup g' hg' m hm m' hne

/-- One user in the place of another one. -/
theorem Groups.move (h : Groups f ((k ::ₘ g) ::ₘ rest)) (hl : f l = none) :
    Groups (Function.update (Function.update f k none) l (f k)) ((l ::ₘ g) ::ₘ rest) := by
  have hk : k ∈ k ::ₘ g := Multiset.mem_cons_self _ _
  obtain ⟨v, hv⟩ := h.mem_join (Multiset.mem_cons_self _ _) hk
  have hne : l ≠ k := by
    rintro rfl
    rw [hl] at hv
    cases hv
  have hshare := h.share hk hl
  rw [Multiset.cons_swap] at hshare
  rw [Function.update_comm hne.symm]
  exact hshare.leave

end Rules

/-- A group is its keys, and there are no two groups of one value. -/
theorem Groups.nodup_of_mem (h : Groups f groups) (hg : g ∈ groups) : g.Nodup := by
  obtain ⟨rest, rfl⟩ := Multiset.exists_cons_of_mem hg
  have hjoin := h.nodup
  rw [Multiset.join_cons] at hjoin
  exact (Multiset.nodup_add.mp hjoin).1

theorem Groups.nodup_filter [DecidableEq κ] (h : Groups f groups) :
    (groups.filter (· ≠ 0)).Nodup := by
  refine Multiset.nodup_iff_le.mpr fun g hle => ?_
  have hne : g ≠ 0 := (Multiset.mem_filter.mp (Multiset.mem_of_le hle (by simp))).2
  obtain ⟨k, hk⟩ := Multiset.exists_mem_of_ne_zero hne
  obtain ⟨rest, rfl⟩ := Multiset.le_iff_exists_add.mp (hle.trans (Multiset.filter_le _ _))
  have hjoin := h.nodup
  simp only [Multiset.cons_add, Multiset.join_cons, ← add_assoc] at hjoin
  exact Multiset.disjoint_left.mp (Multiset.nodup_add.mp (Multiset.nodup_add.mp hjoin).1).2.2 hk hk

/-- The values that keys have are as many as the groups with a key. -/
theorem Groups.length_eq [DecidableEq κ] [DecidableEq ν] (h : Groups f groups) {vs : List ν}
    (hnodup : vs.Nodup) (hvs : ∀ v, v ∈ vs ↔ ∃ k, f k = some v) :
    vs.length = groups.countP (· ≠ 0) := by
  have hgroup : ∀ v ∈ vs.toFinset, ∃ g, g ∈ (groups.filter (· ≠ 0)).toFinset ∧
      ∀ l, l ∈ g ↔ f l = some v := by
    intro v hv
    obtain ⟨k, hk⟩ := (hvs v).mp (List.mem_toFinset.mp hv)
    obtain ⟨g, hg, hall⟩ := h.exists_group hk
    have hne : g ≠ 0 := by
      rintro rfl
      exact Multiset.notMem_zero k ((hall k).mpr hk)
    exact ⟨g, Multiset.mem_toFinset.mpr (Multiset.mem_filter.mpr ⟨hg, hne⟩), hall⟩
  choose! group hmem hall using hgroup
  rw [Multiset.countP_eq_card_filter, ← Multiset.toFinset_card_of_nodup h.nodup_filter,
    ← List.toFinset_card_of_nodup hnodup]
  refine Finset.card_nbij group (fun v hv => hmem v hv) (fun v hv w hw heq => ?_) fun g hg => ?_
  · obtain ⟨k, hk⟩ := (hvs v).mp (List.mem_toFinset.mp hv)
    have hkw := (hall w hw k).mp (heq ▸ (hall v hv k).mpr hk)
    exact Option.some.inj (hk.symm.trans hkw)
  · obtain ⟨hg, hne⟩ := Multiset.mem_filter.mp (Multiset.mem_toFinset.mp hg)
    obtain ⟨k, hk⟩ := Multiset.exists_mem_of_ne_zero hne
    obtain ⟨v, hv⟩ := h.mem_join hg hk
    have hvmem := List.mem_toFinset.mpr ((hvs v).mpr ⟨k, hv⟩)
    have hgroup := Multiset.mem_of_mem_filter (Multiset.mem_toFinset.mp (hmem v hvmem))
    refine ⟨v, hvmem, ?_⟩
    refine (Multiset.Nodup.ext (h.nodup_of_mem hgroup) (h.nodup_of_mem hg)).mpr fun l => ?_
    rw [hall v hvmem, h.same g hg k hk, hv]

end Sharing
