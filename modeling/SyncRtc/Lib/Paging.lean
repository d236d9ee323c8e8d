import Mathlib.Data.List.Basic

/-!
# Reading a growing table from its end

A table in the order of its keys is read in pages: the newest items below a bound, then those below the first
key of the page before, until a page is short. Meanwhile items may be added at the end. The pages are the
items the table had when the first page was read.
-/

set_option autoImplicit false

namespace SyncRtc.Paging

variable {α : Type}

/-- The last `n` items. -/
def newest (n : Nat) (xs : List α) : List α := xs.drop (xs.length - n)

/-- The items whose key is below the bound; zero is no bound. -/
def below (key : α → Nat) (before : Nat) (xs : List α) : List α := xs.filter fun x => before == 0 || decide (key x < before)

/-- Keys in order, none of them zero. -/
structure Keyed (key : α → Nat) (xs : List α) : Prop where
  ascending : xs.Pairwise fun x y => key x < key y
  positive : ∀ x ∈ xs, 0 < key x

/-- Pages read from a table that has these items, below this bound. -/
inductive Pages (key : α → Nat) : List α → Nat → List (List α) → Prop where
  | last {xs : List α} {before n : Nat} (hshort : (newest n (below key before xs)).length < n) :
      Pages key xs before [newest n (below key before xs)]
  | older {xs xs' : List α} {before n : Nat} {x : α} {rest : List α} {pages : List (List α)}
      (hpage : newest n (below key before xs) = x :: rest) (hgrows : xs <+: xs') (hkeyed : Keyed key xs')
      (hpages : Pages key xs' (key x) pages) : Pages key xs before (pages ++ [x :: rest])

variable {key : α → Nat} {xs xs' : List α} {before n : Nat} {x : α} {rest : List α} {pages : List (List α)}

theorem length_newest (n : Nat) (xs : List α) : (newest n xs).length = min n xs.length := by
  rw [newest, List.length_drop]
  omega

theorem newest_of_short (h : (newest n xs).length < n) : newest n xs = xs := by
  rw [length_newest] at h
  rw [newest, Nat.sub_eq_zero_of_le (by omega), List.drop_zero]

theorem mem_below {y : α} : y ∈ below key before xs ↔ y ∈ xs ∧ (before = 0 ∨ key y < before) := by
  simp only [below, List.mem_filter, Bool.or_eq_true, beq_iff_eq, decide_eq_true_eq]

/-- What is below a page is what the page left out. -/
theorem below_newest (hk : Keyed key xs) (hpage : newest n (below key before xs) = x :: rest) :
    below key before xs = below key (key x) xs ++ (x :: rest) := by
  have hx : x ∈ below key before xs := List.mem_of_mem_drop (hpage ▸ List.mem_cons_self)
  obtain ⟨hmem, hbefore⟩ := mem_below.mp hx
  have hpos := hk.positive x hmem
  have hcut := (List.take_append_drop ((below key before xs).length - n) (below key before xs)).symm
  change _ = _ ++ newest n (below key before xs) at hcut
  rw [hpage] at hcut
  have hordered : (below key before xs).Pairwise fun x y => key x < key y := hk.ascending.filter _
  rw [hcut] at hordered
  obtain ⟨-, hright, hcross⟩ := List.pairwise_append.mp hordered
  have hagain : below key (key x) xs = (below key before xs).filter fun y => decide (key y < key x) := by
    rw [below, below, List.filter_filter]
    refine List.filter_congr fun y _ => ?_
    rw [Bool.eq_iff_iff]
    simp only [Bool.or_eq_true, Bool.and_eq_true, beq_iff_eq, decide_eq_true_eq]
    omega
  rw [hagain, hcut, List.filter_append]
  have hleft : ((below key before xs).take ((below key before xs).length - n)).filter (fun y => decide (key y < key x)) =
      (below key before xs).take ((below key before xs).length - n) :=
    List.filter_eq_self.mpr fun y hy => decide_eq_true (hcross y hy x List.mem_cons_self)
  have hnone : (x :: rest).filter (fun y => decide (key y < key x)) = [] := by
    refine List.filter_eq_nil_iff.mpr fun y hy => ?_
    rw [decide_eq_true_eq, Nat.not_lt]
    rcases List.mem_cons.mp hy with rfl | hy
    · exact Nat.le_refl _
    · exact Nat.le_of_lt ((List.pairwise_cons.mp hright).1 y hy)
  rw [hleft, hnone, List.append_nil]

/-- What is added at the end is not below anything that was there. -/
theorem below_grows (hk : Keyed key xs') (hgrows : xs <+: xs') (hx : x ∈ xs) : below key (key x) xs' = below key (key x) xs := by
  obtain ⟨new, rfl⟩ := hgrows
  have hpos := hk.positive x (List.mem_append_left _ hx)
  have hcross := (List.pairwise_append.mp hk.ascending).2.2
  have hnone : new.filter (fun y => key x == 0 || decide (key y < key x)) = [] := by
    refine List.filter_eq_nil_iff.mpr fun y hy => ?_
    have hlt := hcross x hx y hy
    simp only [Bool.or_eq_true, beq_iff_eq, decide_eq_true_eq]
    omega
  rw [below, List.filter_append, hnone, List.append_nil, below]

/-- **The pages are the table.** -/
theorem flatten_of_pages (h : Pages key xs before pages) (hk : Keyed key xs) : pages.flatten = below key before xs := by
  induction h with
  | last hshort => rw [List.flatten_singleton, newest_of_short hshort]
  | @older xs xs' before n x rest pages hpage hgrows hkeyed _ ih =>
    have hx : x ∈ below key before xs := List.mem_of_mem_drop (hpage ▸ List.mem_cons_self)
    rw [List.flatten_append, List.flatten_singleton, ih hkeyed, below_grows hkeyed hgrows (mem_below.mp hx).1,
      below_newest hk hpage]

theorem pairwise_of_pages (h : Pages key xs before pages) (hk : Keyed key xs) :
    ∀ page ∈ pages, page.Pairwise fun x y => key x < key y := by
  have hall : pages.flatten.Pairwise fun x y => key x < key y := by
    rw [flatten_of_pages h hk]
    exact hk.ascending.filter _
  exact (List.pairwise_flatten.mp hall).1

/-- With every page less is left to read. -/
theorem below_shrinks (hk : Keyed key xs) (hpage : newest n (below key before xs) = x :: rest) :
    (below key (key x) xs).length < (below key before xs).length := by
  rw [below_newest hk hpage, List.length_append, List.length_cons]
  omega

end SyncRtc.Paging
