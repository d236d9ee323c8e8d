import Mathlib.Data.Finmap
import Mathlib.Data.Finset.Max

/-!
# Sweeping over a container that changes

A container with ordered keys is swept in their order by a cursor that is a key and not a place: the next entry is
the first above the cursor, wherever entries were added or taken away since. The sweep is over when no key is left
up to the bound it was given. What it has ahead is a finite set of keys, which a visit makes smaller by its least
one and which everything else may only make smaller.
-/

set_option autoImplicit false

namespace SyncRtc

section Container

variable {κ α : Type} [LinearOrder κ] {keys : Finset κ} {after through k : κ}

/-- The least of the keys above `after`. -/
def leastAbove (keys : Finset κ) (after : κ) : Option κ :=
  if h : (keys.filter (after < ·)).Nonempty then some ((keys.filter (after < ·)).min' h) else none

theorem leastAbove_eq_some : leastAbove keys after = some k ↔ IsLeast {j | j ∈ keys ∧ after < j} k := by
  have hset : {j | j ∈ keys ∧ after < j} = ((keys.filter (after < ·) : Finset κ) : Set κ) := by
    ext j
    simp only [Finset.coe_filter, Set.mem_ofPred_eq]
  rw [hset]
  unfold leastAbove
  split
  next h =>
    rw [Option.some.injEq]
    constructor
    · rintro rfl
      exact Finset.isLeast_min' _ h
    · exact fun hk => (Finset.isLeast_min' _ h).unique hk
  next h =>
    refine ⟨nofun, fun hk => ?_⟩
    exact absurd ⟨k, hk.1⟩ h

theorem leastAbove_eq_none : leastAbove keys after = none ↔ ∀ j ∈ keys, j ≤ after := by
  unfold leastAbove
  split
  next h =>
    refine ⟨nofun, fun hall => ?_⟩
    obtain ⟨j, hj⟩ := h
    obtain ⟨hmem, hlt⟩ := Finset.mem_filter.mp hj
    exact absurd (hall j hmem) (not_le.mpr hlt)
  next h =>
    refine ⟨fun _ j hj => not_lt.mp fun hlt => ?_, fun _ => rfl⟩
    exact h ⟨j, Finset.mem_filter.mpr ⟨hj, hlt⟩⟩

/-- `std::map::upper_bound`: the first entry above `after`. -/
def upperBound (m : Finmap fun _ : κ => α) (after : κ) : Option (κ × α) :=
  (leastAbove m.keys after).bind fun k => (m.lookup k).map fun v => (k, v)

theorem upperBound_eq_some {m : Finmap fun _ : κ => α} {v : α} :
    upperBound m after = some (k, v) ↔ IsLeast {j | j ∈ m.keys ∧ after < j} k ∧ m.lookup k = some v := by
  unfold upperBound
  rw [Option.bind_eq_some_iff]
  constructor
  · rintro ⟨j, hj, hv⟩
    obtain ⟨w, hw, heq⟩ := Option.map_eq_some_iff.mp hv
    cases heq
    exact ⟨leastAbove_eq_some.mp hj, hw⟩
  · rintro ⟨hk, hv⟩
    exact ⟨k, leastAbove_eq_some.mpr hk, by rw [hv]; rfl⟩

theorem upperBound_eq_none {m : Finmap fun _ : κ => α} :
    upperBound m after = none ↔ ∀ j ∈ m.keys, j ≤ after := by
  rw [← leastAbove_eq_none]
  unfold upperBound
  cases hk : leastAbove m.keys after with
  | none => exact ⟨fun _ => rfl, fun _ => rfl⟩
  | some k =>
    have hmem : k ∈ m := Finmap.mem_keys.mp (leastAbove_eq_some.mp hk).1.1
    obtain ⟨v, hv⟩ := Finmap.mem_iff.mp hmem
    rw [Option.bind_some, hv]
    exact ⟨nofun, nofun⟩

/-- The keys a sweep has ahead, with its cursor at `after` and its bound at `through`. -/
def ahead (keys : Finset κ) (after through : κ) : Finset κ := keys.filter fun k => after < k ∧ k ≤ through

theorem mem_ahead : k ∈ ahead keys after through ↔ k ∈ keys ∧ after < k ∧ k ≤ through := Finset.mem_filter

/-- The first key above the cursor is the least ahead, unless it is beyond the bound. -/
theorem isLeast_ahead (h : IsLeast {j | j ∈ keys ∧ after < j} k) (hle : k ≤ through) :
    IsLeast (ahead keys after through : Set κ) k := by
  refine ⟨mem_ahead.mpr ⟨h.1.1, h.1.2, hle⟩, fun j hj => ?_⟩
  obtain ⟨hmem, hlt, -⟩ := mem_ahead.mp hj
  exact h.2 ⟨hmem, hlt⟩

theorem ahead_eq_empty (h : ∀ j ∈ keys, after < j → through < j) : ahead keys after through = ∅ := by
  refine Finset.eq_empty_of_forall_notMem fun j hj => ?_
  obtain ⟨hmem, hlt, hle⟩ := mem_ahead.mp hj
  exact absurd hle (not_le.mpr (h j hmem hlt))

/-- The cursor goes to the least key ahead, and that key is behind it. -/
theorem ahead_of_isLeast {keys' : Finset κ} (h : IsLeast (ahead keys after through : Set κ) k)
    (hkeys : ∀ j, k < j → (j ∈ keys' ↔ j ∈ keys)) : ahead keys' k through = (ahead keys after through).erase k := by
  ext j
  rw [Finset.mem_erase, mem_ahead, mem_ahead]
  constructor
  · rintro ⟨hmem, hlt, hle⟩
    exact ⟨ne_of_gt hlt, (hkeys j hlt).mp hmem, (mem_ahead.mp h.1).2.1.trans hlt, hle⟩
  · rintro ⟨hne, hmem, hlt, hle⟩
    have hgt : k < j := lt_of_le_of_ne (h.2 (mem_ahead.mpr ⟨hmem, hlt, hle⟩)) (Ne.symm hne)
    exact ⟨(hkeys j hgt).mpr hmem, hgt, hle⟩

end Container

/-! ## What a sweep does -/

section Swept

variable {κ : Type} [LinearOrder κ] {A B C : Finset κ} {ks js : List κ} {k : κ}

/-- A sweep that had the keys `A` ahead has visited `ks` and has `B` ahead. -/
structure Swept (A : Finset κ) (ks : List κ) (B : Finset κ) : Prop where
  ascending : ks.Pairwise (· < ·)
  visited : ∀ k ∈ ks, k ∈ A
  left : B ⊆ A
  passed : ∀ k ∈ ks, ∀ j ∈ B, k < j

namespace Swept

/-- Nothing is visited, and keys may have gone. -/
theorem lose (h : B ⊆ A) : Swept A [] B := ⟨.nil, nofun, h, nofun⟩

theorem refl (A : Finset κ) : Swept A [] A := lose (Finset.Subset.refl A)

/-- The least key is visited. -/
theorem visit (h : IsLeast (A : Set κ) k) : Swept A [k] (A.erase k) := by
  refine ⟨List.pairwise_singleton _ _, fun j hj => ?_, Finset.erase_subset _ _, fun j hj i hi => ?_⟩
  · rw [List.mem_singleton.mp hj]
    exact h.1
  · obtain ⟨hne, hmem⟩ := Finset.mem_erase.mp hi
    rw [List.mem_singleton.mp hj]
    exact lt_of_le_of_ne (h.2 hmem) (Ne.symm hne)

theorem trans (h : Swept A ks B) (h' : Swept B js C) : Swept A (ks ++ js) C := by
  refine ⟨List.pairwise_append.mpr ⟨h.ascending, h'.ascending, fun k hk j hj => h.passed k hk j (h'.visited j hj)⟩,
    fun k hk => ?_, h'.left.trans h.left, fun k hk j hj => ?_⟩
  · rcases List.mem_append.mp hk with hk | hk
    · exact h.visited k hk
    · exact h.left (h'.visited k hk)
  · rcases List.mem_append.mp hk with hk | hk
    · exact h.passed k hk j (h'.left hj)
    · exact h'.passed k hk j hj

/-- No key is visited twice. -/
theorem nodup (h : Swept A ks B) : ks.Nodup := h.ascending.imp fun hlt => ne_of_lt hlt

/-- A visited key is not ahead any more. -/
theorem notMem (h : Swept A ks B) (hk : k ∈ ks) : k ∉ B := fun hB => lt_irrefl k (h.passed k hk k hB)

/-- Every visit is paid for by a key that was ahead. -/
theorem card_le (h : Swept A ks B) : ks.length + B.card ≤ A.card := by
  have hdisjoint : Disjoint ks.toFinset B :=
    Finset.disjoint_left.mpr fun k hk hB => h.notMem (List.mem_toFinset.mp hk) hB
  have hsub : ks.toFinset ∪ B ⊆ A :=
    Finset.union_subset (fun k hk => h.visited k (List.mem_toFinset.mp hk)) h.left
  calc ks.length + B.card = (ks.toFinset ∪ B).card := by
        rw [Finset.card_union_of_disjoint hdisjoint, List.toFinset_card_of_nodup h.nodup]
    _ ≤ A.card := Finset.card_le_card hsub

end Swept

end Swept

end SyncRtc
