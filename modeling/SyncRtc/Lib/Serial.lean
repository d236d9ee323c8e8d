import Mathlib.Data.List.Chain
import Mathlib.Data.List.Range
import Mathlib.Data.Int.ModEq
import Mathlib.Tactic.Ring
import Mathlib.Data.List.Forall2
import Mathlib.Tactic.Linarith

/-!
# Counters read modulo a number

A counter that only its residue is known of. A reader who sees every value close enough to the one before it can
tell the counter itself, up to where it started; a reader who keeps one base and subtracts it can only while the
counter has not gone once around.
-/

set_option autoImplicit false

namespace SyncRtc

variable {m : Int}

/-- The values of a counter, whose residues are what is seen of it: each is less than half way around from the one
before. -/
structure Unwraps (m : Int) (values residues : List Int) : Prop where
  residue : residues = values.map (· % m)
  close : values.IsChain fun v w => 2 * |w - v| < m

namespace Unwraps

theorem tail {v : Int} {vs rs : List Int} {r : Int} (h : Unwraps m (v :: vs) (r :: rs)) : Unwraps m vs rs := by
  have hr := h.residue
  rw [List.map_cons, List.cons.injEq] at hr
  exact ⟨hr.2, h.close.of_cons⟩

/-- Two counters that show the same residues and start alike are the same. -/
theorem unique {rs : List Int} :
    ∀ {v : Int} {vs ws : List Int}, Unwraps m (v :: vs) rs → Unwraps m (v :: ws) rs → vs = ws := by
  intro v vs
  induction vs generalizing v rs with
  | nil =>
    intro ws hv hw
    have hlen := congrArg List.length (hv.residue.symm.trans hw.residue)
    simp only [List.map_cons, List.map_nil, List.length_cons, List.length_nil, List.length_map] at hlen
    exact (List.length_eq_zero_iff.mp (by omega)).symm
  | cons a vs ih =>
    intro ws hv hw
    have hres := hv.residue.symm.trans hw.residue
    cases ws with
    | nil => simp only [List.map_cons, List.map_nil, List.cons.injEq, reduceCtorEq, and_false] at hres
    | cons b ws =>
      simp only [List.map_cons, List.cons.injEq] at hres
      have ha := List.isChain_cons_cons.mp hv.close
      have hb := List.isChain_cons_cons.mp hw.close
      -- both are within half a turn of `v`, so they are less than a turn apart
      have hab : a = b := by
        have hdvd : m ∣ a - b := Int.dvd_of_emod_eq_zero (Int.emod_eq_emod_iff_emod_sub_eq_zero.mp hres.2.1)
        have hlt : |a - b| < m := by
          have := abs_sub_le a v b
          rw [abs_sub_comm v b] at this
          linarith [ha.1, hb.1]
        have := Int.eq_zero_of_abs_lt_dvd hdvd hlt
        omega
      subst hab
      have h₁ : Unwraps m (a :: vs) ((a :: vs).map (· % m)) := ⟨rfl, ha.2⟩
      have h₂ : Unwraps m (a :: ws) ((a :: vs).map (· % m)) :=
        ⟨by simp only [List.map_cons, hres.2.2], hb.2⟩
      rw [ih h₁ h₂]

/-- The counter that goes up by `d` each time, from `start`. -/
def steady (start d : Int) (n : Nat) : List Int := (List.range n).map fun i : Nat => start + d * i

theorem steady_getElem? {start d : Int} {n i : Nat} {v : Int} (h : (steady start d n)[i]? = some v) :
    v = start + d * i := by
  simp only [steady, List.getElem?_map, Option.map_eq_some_iff] at h
  obtain ⟨j, hj, rfl⟩ := h
  rw [(List.getElem?_eq_some_iff.mp hj).2.symm, List.getElem_range]

/-- A steady counter is known by its residues, if its steps are less than half way around. -/
theorem of_steady {d : Int} (hd : 2 * |d| < m) (start : Int) (n : Nat) :
    Unwraps m (steady start d n) ((steady start d n).map (· % m)) where
  residue := rfl
  close := by
    rw [steady, List.isChain_map]
    refine (List.isChain_range _ n).mpr ?_
    intro i _
    have step : start + d * ((i + 1 : Nat) : Int) - (start + d * i) = d := by
      push_cast
      ring
    rw [step]
    exact hd

/-- So a counter that shows the residues of a steady one is steady. -/
theorem eq_steady {d start : Int} (hd : 2 * |d| < m) {n : Nat} {vs : List Int}
    (h : Unwraps m vs ((steady start d n).map (· % m))) : ∃ start', vs = steady start' d n := by
  cases n with
  | zero =>
    refine ⟨0, List.map_eq_nil_iff.mp h.residue.symm⟩
  | succ n =>
    have hres := h.residue
    cases vs with
    | nil =>
      have := congrArg List.length hres
      simp only [steady, List.length_map, List.length_range, List.length_nil] at this
      omega
    | cons v vs =>
      have hv : start % m = v % m := by
        simp only [steady, List.range_succ_eq_map, List.map_cons, List.cons.injEq, Nat.cast_zero, mul_zero,
          add_zero] at hres
        exact hres.1
      have hhead : steady v d (n + 1) = v :: (steady v d (n + 1)).tail := by
        simp only [steady, List.range_succ_eq_map, List.map_cons, List.tail_cons, Nat.cast_zero, mul_zero, add_zero]
      have hsame : (steady start d (n + 1)).map (· % m) = (steady v d (n + 1)).map (· % m) := by
        simp only [steady, List.map_map]
        refine List.map_congr_left fun i _ => ?_
        exact Int.ModEq.add_right _ hv
      refine ⟨v, ?_⟩
      rw [hsame] at h
      have h' := of_steady hd v (n + 1)
      rw [hhead] at h h' ⊢
      rw [unique h h']

end Unwraps

/-- What a base and a residue tell of a counter is right as long as the counter is at the base or past it, by less
than one turn. -/
theorem turn_iff {m : Int} (hm : 0 < m) (base v : Int) : (v - base) % m = v - base ↔ base ≤ v ∧ v < base + m := by
  constructor
  · intro h
    have h₀ := Int.emod_nonneg (v - base) hm.ne'
    have h₁ := Int.emod_lt_of_pos (v - base) hm
    omega
  · rintro ⟨h₀, h₁⟩
    exact Int.emod_eq_of_lt (by omega) (by omega)

end SyncRtc
