import Mathlib.Algebra.BigOperators.Group.Finset.Basic
import Mathlib.Logic.Hydra
import SyncRtc.Lib.Prog

/-!
# Runs that come to an end

Work that is split into pieces, each of which is replaced by any number of smaller ones, ends: the multiset of pieces
descends along `Relation.CutExpand`. Here is what such an argument needs besides: the order of programs by what is
left of them, the exchange of one summand, and the rule that turns a descent into a promise about infinite runs. A run
may be interrupted by steps that do no work; the only assumption is that somebody who can work does so in the end.
-/

set_option autoImplicit false

namespace SyncRtc

/-! ## What is left of a program -/

namespace Prog

variable {S : Signature} {α : Type}

/-- `p` is what is left of `q` after one call. -/
inductive Child : Prog S α → Prog S α → Prop where
  | mk (c : S.Call) (k : S.Res c → Prog S α) (r : S.Res c) : Child (k r) (.call c k)

theorem child_wellFounded : WellFounded (Child (S := S) (α := α)) := by
  refine ⟨fun p => ?_⟩
  induction p with
  | pure a => exact ⟨_, fun _ h => nomatch h⟩
  | call c k ih =>
    refine ⟨_, ?_⟩
    rintro _ ⟨_, _, r⟩
    exact ih r

theorem Makes.child {P : S.Call → Prop} {p q : Prog S α} (h : Child p q) (hq : q.Makes P) : p.Makes P := by
  obtain ⟨c, k, r⟩ := h
  exact hq.2 r

end Prog

/-! ## Sums -/

/-- One summand is exchanged for another. -/
theorem sum_exchange {ι α M : Type} [DecidableEq ι] [AddCommMonoid M] {s : Finset ι} {f : ι → α} (g : ι → α → M)
    {i : ι} (hi : i ∈ s) :
    ∃ rest, ∑ j ∈ s, g j (f j) = g i (f i) + rest ∧
      ∀ a, ∑ j ∈ s, g j (Function.update f i a j) = g i a + rest := by
  refine ⟨∑ j ∈ s.erase i, g j (f j), (Finset.add_sum_erase s _ hi).symm, fun a => ?_⟩
  rw [← Finset.add_sum_erase s _ hi, Function.update_self]
  congr 1
  refine Finset.sum_congr rfl fun j hj => ?_
  rw [Function.update_of_ne (Finset.ne_of_mem_erase hj)]

/-! ## Infinite runs -/

section Runs

variable {σ μ : Type} {r : μ → μ → Prop} {measure : σ → μ} {run : Nat → σ} {works : Nat → Prop} {done : σ → Prop}

theorem measure_stays (hidle : ∀ n, ¬ done (run n) → ¬ works n → measure (run (n + 1)) = measure (run n))
    (hdone : ∀ n, ¬ done (run n)) {n m : Nat} (hm : n ≤ m) (hno : ∀ k, n ≤ k → k < m → ¬ works k) :
    measure (run m) = measure (run n) := by
  induction m, hm using Nat.le_induction with
  | base => rfl
  | succ m hm ih =>
    rw [hidle m (hdone m) (hno m hm (Nat.lt_succ_self m))]
    exact ih fun k hk hlt => hno k hk (Nat.lt_succ_of_lt hlt)

/-- Steps that work descend, the others stay where they are; as long as the run is not done somebody works in the end.
Then the run gets done. -/
theorem done_of_descent (hwf : WellFounded r)
    (hdown : ∀ n, ¬ done (run n) → works n → r (measure (run (n + 1))) (measure (run n)))
    (hidle : ∀ n, ¬ done (run n) → ¬ works n → measure (run (n + 1)) = measure (run n))
    (hlive : ∀ n, ¬ done (run n) → ∃ m, n ≤ m ∧ works m) : ∃ n, done (run n) := by
  classical
  by_contra hnone
  have hdone : ∀ n, ¬ done (run n) := fun n h => hnone ⟨n, h⟩
  have hloop : ∀ a n, measure (run n) ≠ a := by
    intro a
    induction a using hwf.induction with
    | _ a ih =>
      rintro n rfl
      have hsome := hlive n (hdone n)
      have hfirst := Nat.find_spec hsome
      have hstay : measure (run (Nat.find hsome)) = measure (run n) := by
        refine measure_stays hidle hdone hfirst.1 fun k hk hlt hworks => ?_
        exact Nat.find_min hsome hlt ⟨hk, hworks⟩
      have hless := hdown _ (hdone _) hfirst.2
      rw [hstay] at hless
      exact ih _ hless _ rfl
  exact hloop _ 0 rfl

end Runs

end SyncRtc
