import Mathlib.Data.List.Nodup
import Mathlib.Data.List.Perm.Basic

/-!
# Putting elements into a list by a key

An element takes the place of the first one with its key, or a place at the end. Seen class by class (the elements of one
key, in list order) a run of such rounds is simple: the last element put in heads its class, the old head is gone, and
the others are as they were (`filter_upserts`). Two lists are permutations of each other when their classes are
(`perm_of_classes`), and equal when their keys also stand in the same order (`eq_of_classes`).
-/

set_option autoImplicit false

namespace SyncRtc

variable {α κ : Type} [DecidableEq κ] (f : α → κ)

/-- The elements of one key. -/
def classOf (x : κ) (l : List α) : List α := l.filter fun a => f a = x

/-- The element takes the place of the first one with its key, or one at the end. -/
def upsert : List α → α → List α
  | [], a => [a]
  | b :: l, a => if f b = f a then a :: l else b :: upsert l a

variable {f}

theorem mem_classOf {x : κ} {l : List α} {a : α} : a ∈ classOf f x l ↔ a ∈ l ∧ f a = x := by
  rw [classOf, List.mem_filter, decide_eq_true_eq]

theorem classOf_cons_self {l : List α} (a : α) : classOf f (f a) (a :: l) = a :: classOf f (f a) l := by
  rw [classOf, List.filter_cons_of_pos (by simp)]
  rfl

theorem classOf_cons_of_ne {x : κ} {l : List α} {a : α} (h : f a ≠ x) : classOf f x (a :: l) = classOf f x l := by
  rw [classOf, List.filter_cons_of_neg (by simpa using h)]
  rfl

theorem classOf_append (x : κ) (l l' : List α) : classOf f x (l ++ l') = classOf f x l ++ classOf f x l' :=
  List.filter_append ..

theorem classOf_eq_nil {x : κ} {l : List α} : classOf f x l = [] ↔ ∀ a ∈ l, f a ≠ x := by
  simp only [classOf, List.filter_eq_nil_iff, decide_eq_true_eq, ne_eq]

/-! ## One round -/

theorem classOf_upsert (l : List α) (a : α) (x : κ) :
    classOf f x (upsert f l a) = if f a = x then a :: (classOf f x l).tail else classOf f x l := by
  induction l with
  | nil =>
    simp only [upsert]
    split
    · next h =>
      subst h
      rw [classOf_cons_self]
      rfl
    · next h => rw [classOf_cons_of_ne h]
  | cons b l ih =>
    simp only [upsert]
    by_cases hb : f b = f a
    · rw [if_pos hb]
      split
      · next h =>
        subst h
        rw [classOf_cons_self, ← hb, classOf_cons_self, List.tail_cons]
      · next h => rw [classOf_cons_of_ne h, classOf_cons_of_ne (hb ▸ h)]
    · rw [if_neg hb]
      by_cases hx : f b = x
      · subst hx
        rw [classOf_cons_self, ih, if_neg (Ne.symm hb), if_neg (Ne.symm hb), classOf_cons_self]
      · rw [classOf_cons_of_ne hx, ih, classOf_cons_of_ne hx]

/-- The keys stay where they are when the key is there. -/
theorem map_upsert_of_mem {l : List α} {a : α} (h : f a ∈ l.map f) : (upsert f l a).map f = l.map f := by
  induction l with
  | nil => cases h
  | cons b l ih =>
    simp only [upsert]
    split
    · next hb => rw [List.map_cons, List.map_cons, hb]
    · next hb =>
      rw [List.map_cons, List.mem_cons] at h
      rw [List.map_cons, List.map_cons, ih (h.resolve_left (Ne.symm hb))]

theorem upsert_of_notMem {l : List α} {a : α} (h : f a ∉ l.map f) : upsert f l a = l ++ [a] := by
  induction l with
  | nil => rfl
  | cons b l ih =>
    rw [List.map_cons, List.mem_cons, not_or] at h
    rw [upsert, if_neg (Ne.symm h.1), ih h.2, List.cons_append]

theorem mem_upsert {l : List α} {a b : α} (h : b ∈ upsert f l a) : b = a ∨ b ∈ l := by
  induction l with
  | nil => exact .inl (List.mem_singleton.mp h)
  | cons c l ih =>
    simp only [upsert] at h
    split at h
    · exact (List.mem_cons.mp h).imp id (List.mem_cons_of_mem c)
    · rcases List.mem_cons.mp h with rfl | h
      · exact .inr List.mem_cons_self
      · exact (ih h).imp id (List.mem_cons_of_mem c)

/-- What was in the list and is none of the new ones stays in its order. -/
theorem filter_upsert_sublist (p : α → Bool) (l : List α) {a : α} (h : p a = false) :
    ((upsert f l a).filter p).Sublist (l.filter p) := by
  induction l with
  | nil =>
    rw [upsert, List.filter_cons_of_neg (by simp [h])]
  | cons b l ih =>
    simp only [upsert]
    split
    · rw [List.filter_cons_of_neg (by simp [h])]
      exact (List.sublist_cons_self b l).filter p
    · cases hb : p b with
      | true =>
        rw [List.filter_cons_of_pos hb, List.filter_cons_of_pos hb]
        exact ih.cons_cons b
      | false => rwa [List.filter_cons_of_neg (by simp [hb]), List.filter_cons_of_neg (by simp [hb])]

/-! ## Many rounds -/

/-- The last of the new ones heads its class; the old head is gone, and the rest is as it was. -/
theorem classOf_upserts (page : List α) (x : κ) :
    ∀ l : List α, classOf f x (page.foldl (upsert f) l) = match (classOf f x page).getLast? with
      | none => classOf f x l
      | some a => a :: (classOf f x l).tail := by
  induction page with
  | nil => exact fun l => rfl
  | cons a page ih =>
    intro l
    rw [List.foldl_cons, ih, classOf_upsert]
    by_cases ha : f a = x
    · subst ha
      rw [classOf_cons_self, List.getLast?_cons, if_pos rfl]
      cases (classOf f (f a) page).getLast? with
      | none => rfl
      | some b => rfl
    · rw [classOf_cons_of_ne ha, if_neg ha]

theorem mem_upserts {page : List α} {b : α} : ∀ {l : List α}, b ∈ page.foldl (upsert f) l → b ∈ page ∨ b ∈ l := by
  induction page with
  | nil => exact .inr
  | cons a page ih =>
    intro l h
    rcases ih h with h | h
    · exact .inl (List.mem_cons_of_mem a h)
    · rcases mem_upsert h with rfl | h
      · exact .inl List.mem_cons_self
      · exact .inr h

theorem map_upserts_of_mem {page : List α} :
    ∀ {l : List α}, (∀ a ∈ page, f a ∈ l.map f) → (page.foldl (upsert f) l).map f = l.map f := by
  induction page with
  | nil => exact fun _ => rfl
  | cons a page ih =>
    intro l h
    have hmap := map_upsert_of_mem (h a List.mem_cons_self)
    rw [List.foldl_cons, ih, hmap]
    intro b hb
    rw [hmap]
    exact h b (List.mem_cons_of_mem a hb)

theorem filter_upserts_sublist (p : α → Bool) {page : List α} :
    ∀ (l : List α), (∀ a ∈ page, p a = false) → ((page.foldl (upsert f) l).filter p).Sublist (l.filter p) := by
  induction page with
  | nil => exact fun _ _ => List.Sublist.refl _
  | cons a page ih =>
    intro l h
    exact (ih _ fun b hb => h b (List.mem_cons_of_mem a hb)).trans
      (filter_upsert_sublist p l (h a List.mem_cons_self))

/-! ## Classes and the list -/

theorem perm_of_classes [DecidableEq α] {l l' : List α} (h : ∀ x, (classOf f x l).Perm (classOf f x l')) : l.Perm l' := by
  rw [List.perm_iff_count]
  intro a
  have hcount := (h (f a)).count_eq a
  rwa [classOf, classOf, List.count_filter (by simp), List.count_filter (by simp)] at hcount

theorem eq_of_classes {l : List α} :
    ∀ {l' : List α}, l.map f = l'.map f → (∀ x, classOf f x l = classOf f x l') → l = l' := by
  induction l with
  | nil => exact fun hmap _ => (List.map_eq_nil_iff.mp hmap.symm).symm
  | cons a l ih =>
    intro l' hmap hclass
    cases l' with
    | nil => cases hmap
    | cons b l' =>
      rw [List.map_cons, List.map_cons, List.cons.injEq] at hmap
      have hhead := hclass (f a)
      rw [classOf_cons_self, hmap.1, classOf_cons_self, List.cons.injEq] at hhead
      obtain ⟨rfl, -⟩ := hhead
      refine congrArg (a :: ·) (ih hmap.2 fun x => ?_)
      have hx := hclass x
      by_cases ha : f a = x
      · subst ha
        rw [classOf_cons_self, classOf_cons_self, List.cons.injEq] at hx
        exact hx.2
      · rwa [classOf_cons_of_ne ha, classOf_cons_of_ne ha] at hx

/-- A sublist of a list without duplicates is what the list has of its elements. -/
theorem filter_mem_of_sublist [DecidableEq α] {l l₁ : List α} (h : l.Nodup) (h₁ : l₁.Sublist l) :
    l.filter (· ∈ l₁) = l₁ := by
  induction h₁ with
  | slnil => rfl
  | @cons l₁ l a h₁ ih =>
    have hnot : a ∉ l₁ := fun ha => (List.nodup_cons.mp h).1 (h₁.subset ha)
    rw [List.filter_cons_of_neg (by simpa using hnot), ih h.of_cons]
  | @cons_cons l₁ l a h₁ ih =>
    have hnot := (List.nodup_cons.mp h).1
    have hrest : l.filter (· ∈ a :: l₁) = l.filter (· ∈ l₁) := by
      refine List.filter_congr fun b hb => ?_
      have hne : b ≠ a := fun he => hnot (he ▸ hb)
      simp only [List.mem_cons, hne, false_or]
    rw [List.filter_cons_of_pos (by simp), hrest, ih h.of_cons]

/-- So two of them with the same elements are equal. -/
theorem eq_of_sublist_of_mem [DecidableEq α] {l l₁ l₂ : List α} (h : l.Nodup) (h₁ : l₁.Sublist l) (h₂ : l₂.Sublist l)
    (hmem : ∀ a, a ∈ l₁ ↔ a ∈ l₂) : l₁ = l₂ := by
  rw [← filter_mem_of_sublist h h₁, ← filter_mem_of_sublist h h₂]
  exact List.filter_congr fun a _ => by simp only [hmem a]

end SyncRtc
