import Mathlib.Data.List.Nodup
import Mathlib.Logic.Function.Basic

/-!
# Sets and sorted sets of a key-value store

A **set** is a duplicate-free list, in insertion order: the store promises no order, so nothing may
depend on it. A **sorted set** pairs each of its keys with one score. Both carry their uniqueness as
a field, and both are executable.
-/

set_option autoImplicit false

namespace SyncRtc

/-! ## Sets -/

/-- A duplicate-free list of elements. -/
structure KeySet (α : Type) where
  elems : List α
  nodup : elems.Nodup

namespace KeySet

variable {α : Type}

instance : Membership α (KeySet α) := ⟨fun s a => a ∈ s.elems⟩

theorem mem_def {s : KeySet α} {a : α} : a ∈ s ↔ a ∈ s.elems := Iff.rfl

/-- Two sets with the same list are the same set. -/
theorem ext' {s t : KeySet α} (h : s.elems = t.elems) : s = t := by
  cases s; cases t; cases h; rfl

/-- The set with no element: what a deleted key reads as. -/
def empty : KeySet α := ⟨[], List.nodup_nil⟩

variable [DecidableEq α]

instance (s : KeySet α) (a : α) : Decidable (a ∈ s) := inferInstanceAs (Decidable (a ∈ s.elems))

/-- SADD: an element already present is left where it is. -/
def add (s : KeySet α) (a : α) : KeySet α :=
  if h : a ∈ s.elems then s
  else ⟨s.elems ++ [a], List.nodup_append.mpr ⟨s.nodup, List.nodup_singleton a,
    fun x hx y hy => by rw [List.mem_singleton.mp hy]; exact fun e => h (e ▸ hx)⟩⟩

/-- SREM. -/
def remove (s : KeySet α) (a : α) : KeySet α :=
  ⟨s.elems.filter (fun x => decide (x ≠ a)), s.nodup.filter _⟩

/-- SCARD. -/
def card (s : KeySet α) : Nat := s.elems.length

@[simp] theorem mem_add {s : KeySet α} {a b : α} : b ∈ s.add a ↔ b = a ∨ b ∈ s := by
  unfold add
  split
  · next h => exact ⟨.inr, fun h' => h'.elim (fun e => e ▸ h) id⟩
  · simp only [mem_def, List.mem_append, List.mem_singleton, or_comm]

@[simp] theorem mem_remove {s : KeySet α} {a b : α} : b ∈ s.remove a ↔ b ∈ s ∧ b ≠ a := by
  simp only [remove, mem_def, List.mem_filter, decide_eq_true_eq]

theorem add_of_mem {s : KeySet α} {a : α} (h : a ∈ s) : s.add a = s := dif_pos h

theorem remove_of_notMem {s : KeySet α} {a : α} (h : a ∉ s) : s.remove a = s :=
  ext' (List.filter_eq_self.mpr fun _ hx => decide_eq_true fun e => h (e ▸ hx))

/-- A new element makes the set larger by one. -/
theorem card_add_of_notMem {s : KeySet α} {a : α} (h : a ∉ s) : (s.add a).card = s.card + 1 := by
  simp only [card, add, dif_neg (show a ∉ s.elems from h), List.length_append, List.length_singleton]

theorem card_remove_le (s : KeySet α) (a : α) : (s.remove a).card ≤ s.card :=
  List.length_filter_le _ _

end KeySet

/-! ## Sorted sets -/

/-- Keys with one score each. -/
structure SortedSet (κ : Type) where
  entries : List (κ × Nat)
  nodup : (entries.map Prod.fst).Nodup

namespace SortedSet

variable {κ : Type}

/-- The sorted set with no entry. -/
def empty : SortedSet κ := ⟨[], List.nodup_nil⟩

/-- ZRANGEBYSCORE from 0 to `bound`: the keys whose score is in the interval. -/
def upTo (z : SortedSet κ) (bound : Nat) : List κ :=
  (z.entries.filter fun e => decide (e.2 ≤ bound)).map Prod.fst

variable [DecidableEq κ]

/-- The score of a key, if the set has it. -/
def score (z : SortedSet κ) (k : κ) : Option Nat := (z.entries.find? fun e => e.1 = k).map Prod.snd

omit [DecidableEq κ] in
private theorem map_fst_filter_nodup {l : List (κ × Nat)} (h : (l.map Prod.fst).Nodup)
    (p : κ × Nat → Bool) : ((l.filter p).map Prod.fst).Nodup :=
  h.sublist (List.filter_sublist.map _)

/-- ZREM. -/
def remove (z : SortedSet κ) (k : κ) : SortedSet κ :=
  ⟨z.entries.filter fun e => decide (e.1 ≠ k), map_fst_filter_nodup z.nodup _⟩

/-- ZADD: the key's old score, if any, is replaced. -/
def add (z : SortedSet κ) (k : κ) (score : Nat) : SortedSet κ where
  entries := (z.remove k).entries ++ [(k, score)]
  nodup := by
    rw [List.map_append, List.nodup_append]
    refine ⟨(z.remove k).nodup, List.nodup_singleton _, fun x hx y hy => ?_⟩
    obtain ⟨e, he, rfl⟩ := List.mem_map.mp hx
    have hne : e.1 ≠ k := of_decide_eq_true (List.mem_filter.mp he).2
    simpa only [List.map_cons, List.map_nil, List.mem_singleton.mp hy] using hne

@[simp] theorem score_empty (k : κ) : (empty : SortedSet κ).score k = none := rfl

theorem score_remove (z : SortedSet κ) (k j : κ) :
    (z.remove k).score j = if j = k then none else z.score j := by
  unfold score remove
  rw [List.find?_filter]
  by_cases h : j = k
  · subst h
    rw [if_pos rfl, Option.map_eq_none_iff, List.find?_eq_none]
    simp
  · rw [if_neg h]
    congr 2
    funext e
    by_cases he : e.1 = j
    · simp [he, h]
    · simp [he]

theorem score_add (z : SortedSet κ) (k j : κ) (n : Nat) :
    (z.add k n).score j = if j = k then some n else z.score j := by
  have happ : (z.add k n).score j = ((z.remove k).score j).or (if j = k then some n else none) := by
    unfold score add
    rw [List.find?_append, Option.map_or]
    by_cases h : j = k
    · simp [h]
    · simp [h, Ne.symm h]
  rw [happ, score_remove]
  by_cases h : j = k <;> simp [h]

end SortedSet

end SyncRtc
