import Mathlib.Logic.Basic

/-!
# Runs of a transition system

A system is a partial step function over events. A run takes steps whose events satisfy a side
condition `ok`, which may look at the state: an assumption about the environment is a side condition
of the steps, not of the states.
-/

set_option autoImplicit false

namespace SyncRtc

variable {σ ε : Type}

/-- The states a run from `s₀` can reach by steps that satisfy `ok`. -/
inductive Reach (step : σ → ε → Option σ) (ok : σ → ε → Prop) (s₀ : σ) : σ → Prop where
  | start : Reach step ok s₀ s₀
  | next {s s' : σ} {e : ε} (h : Reach step ok s₀ s) (hok : ok s e) (hstep : step s e = some s') :
      Reach step ok s₀ s'

namespace Reach

variable {step : σ → ε → Option σ} {ok ok' : σ → ε → Prop} {s₀ s s' : σ}

/-- What holds at the start and is kept by every step of a run holds wherever a run leads. -/
theorem invariant {I : σ → Prop} (h₀ : I s₀)
    (hstep : ∀ s e s', I s → ok s e → step s e = some s' → I s') (h : Reach step ok s₀ s) : I s := by
  induction h with
  | start => exact h₀
  | next _ hok hs ih => exact hstep _ _ _ ih hok hs

/-- An invariant of the runs under `ok`, with another one at hand for its steps. -/
theorem invariant_of {I J : σ → Prop} (hJ : ∀ s, Reach step ok s₀ s → J s) (h₀ : I s₀)
    (hstep : ∀ s e s', J s → I s → ok s e → step s e = some s' → I s') (h : Reach step ok s₀ s) :
    I s := by
  induction h with
  | start => exact h₀
  | next hr hok hs ih => exact hstep _ _ _ (hJ _ hr) ih hok hs

theorem trans (h : Reach step ok s₀ s) (h' : Reach step ok s s') : Reach step ok s₀ s' := by
  induction h' with
  | start => exact h
  | next _ hok hs ih => exact .next ih hok hs

/-- Runs under a stronger side condition are runs under a weaker one. -/
theorem mono (hok : ∀ s e, ok s e → ok' s e) (h : Reach step ok s₀ s) : Reach step ok' s₀ s := by
  induction h with
  | start => exact .start
  | next _ h hs ih => exact .next ih (hok _ _ h) hs

/-- Where each step of one system is followed by some steps of another, or none, so is a run. -/
theorem simulated {τ ι : Type} {step' : τ → ι → Option τ} {ok'' : τ → ι → Prop} {t₀ : τ} {R : σ → τ → Prop} (h₀ : R s₀ t₀)
    (hstep : ∀ s s' t e, Reach step ok s₀ s → Reach step' ok'' t₀ t → R s t → ok s e → step s e = some s' →
      ∃ t', Reach step' ok'' t t' ∧ R s' t')
    (h : Reach step ok s₀ s) : ∃ t, Reach step' ok'' t₀ t ∧ R s t := by
  induction h with
  | start => exact ⟨t₀, .start, h₀⟩
  | next hr hok hs ih =>
    obtain ⟨t, ht, hR⟩ := ih
    obtain ⟨t', ht', hR'⟩ := hstep _ _ t _ hr ht hR hok hs
    exact ⟨t', ht.trans ht', hR'⟩

end Reach

/-- Take those of the given events that are enabled, in turn, as long as `ok` permits them. -/
def play (step : σ → ε → Option σ) (ok : σ → ε → Bool) : List ε → σ → Option σ
  | [], s => some s
  | e :: es, s =>
    match step s e with
    | none => play step ok es s
    | some s' => if ok s e then play step ok es s' else none

/-- What was played is a run. -/
theorem reach_play {step : σ → ε → Option σ} {check : σ → ε → Bool} {ok : σ → ε → Prop}
    (hok : ∀ s e, check s e = true → ok s e) {es : List ε} {s s' : σ} (h : play step check es s = some s') :
    Reach step ok s s' := by
  induction es generalizing s with
  | nil =>
    cases h
    exact .start
  | cons e es ih =>
    simp only [play] at h
    split at h
    · exact ih h
    · next s₁ hs =>
      split at h
      · next hc => exact (Reach.start.next (hok s e hc) hs).trans (ih h)
      · cases h

end SyncRtc
