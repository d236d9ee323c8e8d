import Mathlib.Data.List.Basic
import SyncRtc.Lib.Prog
import SyncRtc.Lib.Transition

/-!
# Programs side by side

Requests come in at any time. Each is served by a program of its own, and the calls of all the programs take turns on one
store, which the outside may change as well. A **trace** keeps every call with its answer and the store that answered.

A program is verified by itself: what it may rely on when it makes a call is what its own calls have been answered so
far, since anything else may have changed meanwhile (`own`). `wp_of_reachable` carries such a verification into every
state of every run. From it every call of a trace was permitted (`permitted_of_reachable`), and a request that has been
answered meets its postcondition. What the store has to do with the trace is an invariant over the calls
(`invariant_of_calls`).
-/

set_option autoImplicit false

namespace SyncRtc

/-- What a store does when it is called, and what the outside does to it. -/
structure Host (S : Signature) (σ ω ε : Type) where
  exec : (c : S.Call) → ω → σ → S.Res c × σ
  outside : ε → σ → σ

namespace Hosting

/-- A call that was made for a request, its answer, and the store before it. -/
structure Entry (S : Signature) (σ : Type) where
  id : Nat
  call : S.Call
  res : S.Res call
  before : σ

inductive Event (ρ ω ε : Type) where
  | arrive (request : ρ)
  /-- The program of a request makes its next call. -/
  | proceed (i : Nat) (o : ω)
  | outside (e : ε)

end Hosting

open Hosting

/-- The store, the requests so far with what is left of their programs, and the trace. -/
structure Hosting (S : Signature) (ρ α σ : Type) where
  store : σ
  served : List (ρ × Prog S α) := []
  trace : List (Entry S σ) := []

namespace Hosting

variable {S : Signature} {ρ α σ ω ε : Type}

/-- The calls of one request. -/
def past (s : Hosting S ρ α σ) (i : Nat) : List (Entry S σ) := s.trace.filter fun e => e.id = i

/-- The program has called, and been answered. -/
def answered (s : Hosting S ρ α σ) (i : Nat) (r : ρ) (c : S.Call) (k : S.Res c → Prog S α) (answer : S.Res c × σ) :
    Hosting S ρ α σ where
  store := answer.2
  served := s.served.set i (r, k answer.1)
  trace := s.trace ++ [⟨i, c, answer.1, s.store⟩]

def step (host : Host S σ ω ε) (handler : ρ → Prog S α) (s : Hosting S ρ α σ) : Event ρ ω ε → Option (Hosting S ρ α σ)
  | .arrive r => some { s with served := s.served ++ [(r, handler r)] }
  | .proceed i o =>
    match s.served[i]? with
    | some (r, .call c k) => some (s.answered i r c k (host.exec c o s.store))
    | _ => none
  | .outside e => some { s with store := host.outside e s.store }

/-- What a program knows when it runs beside others: its calls so far. -/
def own (host : Host S σ ω ε) (permits : S.Call → List (Entry S σ) → Prop) : Prog.Machine S (List (Entry S σ)) where
  pre c known := permits c known
  rel c known r known' := ∃ i o s, (host.exec c o s).1 = r ∧ known' = known ++ [⟨i, c, r, s⟩]

/-- What the request has been answered, if it has been. -/
def Responded (s : Hosting S ρ α σ) (i : Nat) (r : ρ) (a : α) : Prop := s.served[i]? = some (r, .pure a)

/-- Among the calls there is this one, with this answer. -/
def Told (known : List (Entry S σ)) (c : S.Call) (r : S.Res c) : Prop := ∃ i st, ⟨i, c, r, st⟩ ∈ known

/-- Such a call has been made, and none that undoes it since. -/
def Last (does undoes : Entry S σ → Prop) (trace : List (Entry S σ)) : Prop :=
  ∃ l e l', trace = l ++ e :: l' ∧ does e ∧ ∀ x ∈ l', ¬ undoes x

section Last

variable {does undoes : Entry S σ → Prop} {trace : List (Entry S σ)} {e : Entry S σ}

theorem none_concat (h : ∀ x ∈ trace, ¬ undoes x) (he : ¬ undoes e) : ∀ x ∈ trace ++ [e], ¬ undoes x := by
  intro x hx
  rcases List.mem_append.mp hx with hx | hx
  · exact h x hx
  · exact List.mem_singleton.mp hx ▸ he

theorem Last.concat (h : Last does undoes trace) (he : ¬ undoes e) : Last does undoes (trace ++ [e]) := by
  obtain ⟨l, x, l', rfl, hx, hl'⟩ := h
  exact ⟨l, x, l' ++ [e], by rw [List.append_assoc, List.cons_append], hx, none_concat hl' he⟩

end Last

section Rules

variable {host : Host S σ ω ε} {permits : S.Call → List (Entry S σ) → Prop} {known known' : List (Entry S σ)}

theorem Told.mono {c : S.Call} {r : S.Res c} (h : Told known c r) (hle : known <+: known') : Told known' c r := by
  obtain ⟨i, st, hmem⟩ := h
  exact ⟨i, st, hle.subset hmem⟩

/-- The rule for a call: afterwards its answer is known. -/
theorem wp_tell {c : S.Call} {k : S.Res c → Prog S α} {Q : α → List (Entry S σ) → Prop} (hpermits : permits c known)
    (hk : ∀ r known', known <+: known' → Told known' c r → (k r).wp (own host permits) Q known') :
    (Prog.call c k).wp (own host permits) Q known := by
  refine ⟨hpermits, ?_⟩
  rintro r known' ⟨i, o, st, -, rfl⟩
  exact hk r _ (List.prefix_append _ _) ⟨i, st, List.mem_append_right _ List.mem_cons_self⟩

end Rules

section Steps

variable {host : Host S σ ω ε} {handler : ρ → Prog S α} {s s' : Hosting S ρ α σ}

/-- What a step does. -/
theorem step_cases {e : Event ρ ω ε} (h : s.step host handler e = some s') :
    (∃ r, s' = { s with served := s.served ++ [(r, handler r)] }) ∨
      (∃ i o r c k, s.served[i]? = some (r, .call c k) ∧ s' = s.answered i r c k (host.exec c o s.store)) ∨
      ∃ e, s' = { s with store := host.outside e s.store } := by
  cases e with
  | arrive r =>
    cases h
    exact .inl ⟨r, rfl⟩
  | outside e =>
    cases h
    exact .inr (.inr ⟨e, rfl⟩)
  | proceed i o =>
    refine .inr (.inl ?_)
    simp only [step] at h
    split at h
    · next r c k hserved =>
      cases h
      exact ⟨i, o, r, c, k, hserved, rfl⟩
    · cases h

theorem past_answered (i j : Nat) (r : ρ) (c : S.Call) (k : S.Res c → Prog S α) (answer : S.Res c × σ) :
    (s.answered i r c k answer).past j = s.past j ++ if j = i then [⟨i, c, answer.1, s.store⟩] else [] := by
  let e : Entry S σ := ⟨i, c, answer.1, s.store⟩
  have hlast : [e].filter (fun e => e.id = j) = if j = i then [e] else [] := by
    by_cases h : j = i
    · rw [if_pos h, List.filter_cons_of_pos (by simpa using h.symm), List.filter_nil]
    · rw [if_neg h, List.filter_cons_of_neg (by simpa using Ne.symm h), List.filter_nil]
  rw [past, answered, List.filter_append, hlast, past]

theorem served_answered {i j : Nat} {r r' : ρ} {c : S.Call} {k : S.Res c → Prog S α} {answer : S.Res c × σ}
    {p : Prog S α} (hserved : s.served[i]? = some (r, .call c k))
    (h : (s.answered i r c k answer).served[j]? = some (r', p)) :
    (j = i ∧ r' = r ∧ p = k answer.1) ∨ (j ≠ i ∧ s.served[j]? = some (r', p)) := by
  by_cases hji : j = i
  · subst hji
    rw [answered, List.getElem?_set_self (List.getElem?_eq_some_iff.mp hserved).1] at h
    cases h
    exact .inl ⟨rfl, rfl, rfl⟩
  · rw [answered, List.getElem?_set_ne (Ne.symm hji)] at h
    exact .inr ⟨hji, h⟩

/-- A call of the trace was made before, or it is the one that has just been made. -/
theorem mem_answered {i j : Nat} {o : ω} {r : ρ} {c c' : S.Call} {k : S.Res c → Prog S α} {a : S.Res c'} {st : σ}
    (h : ⟨j, c', a, st⟩ ∈ (s.answered i r c k (host.exec c o s.store)).trace) :
    ⟨j, c', a, st⟩ ∈ s.trace ∨ (j = i ∧ c' = c ∧ st = s.store ∧ (host.exec c' o st).1 = a) := by
  rcases List.mem_append.mp h with h | h
  · exact .inl h
  · obtain ⟨rfl, rfl, ha, rfl⟩ := Entry.mk.inj (List.mem_singleton.mp h)
    exact .inr ⟨rfl, rfl, rfl, (eq_of_heq ha).symm⟩

theorem served_arrived {i : Nat} {r r' : ρ} {p : Prog S α}
    (h : (s.served ++ [(r, handler r)])[i]? = some (r', p)) :
    s.served[i]? = some (r', p) ∨ (i = s.served.length ∧ r' = r ∧ p = handler r) := by
  rcases Nat.lt_trichotomy i s.served.length with hlt | heq | hgt
  · rw [List.getElem?_append_left hlt] at h
    exact .inl h
  · subst heq
    rw [List.getElem?_concat_length] at h
    cases h
    exact .inr ⟨rfl, rfl, rfl⟩
  · rw [List.getElem?_eq_none (by simp; omega)] at h
    cases h

end Steps

/-! ## Every run -/

section Runs

variable {host : Host S σ ω ε} {handler : ρ → Prog S α} {ok : Hosting S ρ α σ → Event ρ ω ε → Prop}
  {s₀ : σ} {s : Hosting S ρ α σ}

/-- The states that serving can reach from a store. -/
abbrev Run (host : Host S σ ω ε) (handler : ρ → Prog S α) (ok : Hosting S ρ α σ → Event ρ ω ε → Prop) (s₀ : σ)
    (s : Hosting S ρ α σ) : Prop :=
  Reach (step host handler) ok { store := s₀ } s

/-- A call is always one of a request that has come in. -/
theorem known_of_reachable (h : Run host handler ok s₀ s) : ∀ e ∈ s.trace, e.id < s.served.length := by
  refine h.invariant (I := fun s => ∀ e ∈ s.trace, e.id < s.served.length) (fun e he => absurd he List.not_mem_nil) ?_
  intro s e s' ih _ hstep x hx
  rcases step_cases hstep with ⟨r, rfl⟩ | ⟨i, o, r, c, k, hserved, rfl⟩ | ⟨e, rfl⟩
  · exact Nat.lt_of_lt_of_le (ih x hx) (by simp)
  · rw [answered, List.length_set]
    rcases List.mem_append.mp hx with hx | hx
    · exact ih x hx
    · cases List.mem_singleton.mp hx
      exact (List.getElem?_eq_some_iff.mp hserved).1
  · exact ih x hx

/-- What is left of a program is still verified, against what it has been answered so far. -/
theorem wp_of_reachable {permits : ρ → S.Call → List (Entry S σ) → Prop} {post : ρ → α → List (Entry S σ) → Prop}
    (hverified : ∀ r, (handler r).wp (own host (permits r)) (post r) []) (h : Run host handler ok s₀ s) :
    ∀ i r (p : Prog S α), s.served[i]? = some (r, p) → p.wp (own host (permits r)) (post r) (s.past i) := by
  have hknown (s : Hosting S ρ α σ) (hs : Run host handler ok s₀ s) := known_of_reachable hs
  let I (s : Hosting S ρ α σ) : Prop :=
    ∀ i r (p : Prog S α), s.served[i]? = some (r, p) → p.wp (own host (permits r)) (post r) (s.past i)
  refine h.invariant_of (I := I) hknown (fun i r p hp => by cases hp) ?_
  intro s e s' hk ih _ hstep i r p hp
  rcases step_cases hstep with ⟨r', rfl⟩ | ⟨j, o, r', c, k, hserved, rfl⟩ | ⟨e, rfl⟩
  · rcases served_arrived hp with hp | ⟨rfl, rfl, rfl⟩
    · exact ih i r p hp
    · have hpast : s.past s.served.length = [] :=
        List.filter_eq_nil_iff.mpr fun e he => by simpa using Nat.ne_of_lt (hk e he)
      exact hpast ▸ hverified r
  · rw [past_answered]
    rcases served_answered hserved hp with ⟨rfl, rfl, rfl⟩ | ⟨hne, hp⟩
    · rw [if_pos rfl]
      exact (ih i r _ hserved).2 _ _ ⟨i, o, s.store, rfl, rfl⟩
    · rw [if_neg hne, List.append_nil]
      exact ih i r p hp
  · exact ih i r p hp

/-- The requests of a trace stay the ones they were. -/
def Asks (s : Hosting S ρ α σ) (i : Nat) (r : ρ) : Prop := ∃ p, s.served[i]? = some (r, p)

theorem Asks.unique {i : Nat} {r r' : ρ} (h : s.Asks i r) (h' : s.Asks i r') : r = r' := by
  obtain ⟨p, hp⟩ := h
  obtain ⟨p', hp'⟩ := h'
  cases hp.symm.trans hp'
  rfl

theorem Responded.asks {i : Nat} {r : ρ} {a : α} (h : s.Responded i r a) : s.Asks i r := ⟨_, h⟩

theorem asks_step {s' : Hosting S ρ α σ} {e : Event ρ ω ε} (hstep : s.step host handler e = some s') {i : Nat} {r : ρ}
    (h : s.Asks i r) : s'.Asks i r := by
  obtain ⟨p, hp⟩ := h
  have hlt := (List.getElem?_eq_some_iff.mp hp).1
  rcases step_cases hstep with ⟨r', rfl⟩ | ⟨j, o, r', c, k, hserved, rfl⟩ | ⟨e, rfl⟩
  · exact ⟨p, (List.getElem?_append_left hlt).trans hp⟩
  · by_cases hij : i = j
    · subst hij
      cases hserved.symm.trans hp
      exact ⟨_, List.getElem?_set_self hlt⟩
    · exact ⟨p, (List.getElem?_set_ne (Ne.symm hij)).trans hp⟩
  · exact ⟨p, hp⟩

/-- The trace only grows. -/
theorem trace_step {s' : Hosting S ρ α σ} {e : Event ρ ω ε} (hstep : s.step host handler e = some s') :
    s.trace <+: s'.trace := by
  rcases step_cases hstep with ⟨r', rfl⟩ | ⟨j, o, r', c, k, hserved, rfl⟩ | ⟨e, rfl⟩
  · exact List.prefix_rfl
  · exact List.prefix_append _ _
  · exact List.prefix_rfl

/-- So do the calls of one request. -/
theorem past_step {s' : Hosting S ρ α σ} {e : Event ρ ω ε} (hstep : s.step host handler e = some s') (i : Nat) :
    s.past i <+: s'.past i := (trace_step hstep).filter _

/-- The rule for an invariant of the store and the trace: only a call that is permitted must keep it. -/
theorem invariant_of_calls {permits : ρ → S.Call → List (Entry S σ) → Prop} {post : ρ → α → List (Entry S σ) → Prop}
    (hverified : ∀ r, (handler r).wp (own host (permits r)) (post r) []) {I : Hosting S ρ α σ → Prop}
    (h₀ : I { store := s₀ })
    (harrive : ∀ s r, I s → I { s with served := s.served ++ [(r, handler r)] })
    (hcall : ∀ s s' i o r c k, Run host handler ok s₀ s → ok s (.proceed i o) → s.Asks i r → permits r c (s.past i) → I s →
      s.step host handler (.proceed i o) = some s' → s' = s.answered i r c k (host.exec c o s.store) → I s')
    (houtside : ∀ s e, ok s (.outside e) → I s → I { s with store := host.outside e s.store })
    (h : Run host handler ok s₀ s) : I s := by
  refine h.invariant_of (J := Run host handler ok s₀) (fun _ hs => hs) h₀ fun s e s' hs hI hok hstep => ?_
  cases e with
  | arrive r =>
    cases hstep
    exact harrive s r hI
  | outside e =>
    cases hstep
    exact houtside s e hok hI
  | proceed i o =>
    have hproceed := hstep
    simp only [step] at hstep
    split at hstep
    · next r c k hserved =>
      cases hstep
      exact hcall s _ i o r c k hs hok ⟨_, hserved⟩ (wp_of_reachable hverified hs i r _ hserved).1 hI hproceed rfl
    · cases hstep

/-- Where the run stood when a call was made. -/
theorem cut (h : Run host handler ok s₀ s) : ∀ l e l', s.trace = l ++ e :: l' →
    ∃ s', Run host handler ok s₀ s' ∧ s'.trace = l ∧ s'.store = e.before ∧
      ∃ r k, s'.served[e.id]? = some (r, .call e.call k) ∧ s.Asks e.id r := by
  let I (s : Hosting S ρ α σ) : Prop := ∀ l e l', s.trace = l ++ e :: l' →
    ∃ s', Run host handler ok s₀ s' ∧ s'.trace = l ∧ s'.store = e.before ∧
      ∃ r k, s'.served[e.id]? = some (r, .call e.call k) ∧ s.Asks e.id r
  refine h.invariant_of (I := I) (J := Run host handler ok s₀) (fun _ hs => hs) ?_
    fun s e s' hs ih _ hstep l x l' htrace => ?_
  · intro l e l' h
    exact absurd h (by simp)
  · have hkeep (hold : ∃ l'', s.trace = l ++ x :: l'') : ∃ s₁, Run host handler ok s₀ s₁ ∧ s₁.trace = l ∧
        s₁.store = x.before ∧ ∃ r k, s₁.served[x.id]? = some (r, .call x.call k) ∧ s'.Asks x.id r := by
      obtain ⟨l'', h⟩ := hold
      obtain ⟨s₁, hs₁, hl, hstore, r, k, hserved, hr⟩ := ih l x l'' h
      exact ⟨s₁, hs₁, hl, hstore, r, k, hserved, asks_step hstep hr⟩
    rcases step_cases hstep with ⟨r', rfl⟩ | ⟨j, o, r', c, k, hserved, rfl⟩ | ⟨e, rfl⟩
    · exact hkeep ⟨l', htrace⟩
    · rcases List.eq_nil_or_concat l' with rfl | ⟨l'', y, rfl⟩
      · obtain ⟨rfl, hx⟩ := List.append_inj' htrace rfl
        cases hx
        exact ⟨s, hs, rfl, rfl, r', k, hserved, asks_step hstep ⟨_, hserved⟩⟩
      · rw [List.concat_eq_append, ← List.cons_append, ← List.append_assoc] at htrace
        exact hkeep ⟨l'', (List.append_inj' htrace rfl).1⟩
    · exact hkeep ⟨l', htrace⟩

/-- The call has been answered as the store answers, and the store it left has changed along the relation since. -/
def After (host : Host S σ ω ε) (R : σ → σ → Prop) (e : Entry S σ) (st : σ) : Prop :=
  ∃ o, (host.exec e.call o e.before).1 = e.res ∧ R (host.exec e.call o e.before).2 st

/-- Where every change of the store goes along a preorder, the stores of a trace stand in its order. -/
theorem ordered_of_reachable {R : σ → σ → Prop} (hrefl : ∀ a, R a a) (htrans : ∀ a b c, R a b → R b c → R a c)
    (hexec : ∀ c o a, R a (host.exec c o a).2) (houtside : ∀ e a, R a (host.outside e a))
    (h : Run host handler ok s₀ s) :
    (∀ e ∈ s.trace, After host R e s.store) ∧ s.trace.Pairwise fun e e' => After host R e e'.before := by
  have hon {e : Entry S σ} {a b : σ} (h : After host R e a) (hab : R a b) : After host R e b := by
    obtain ⟨o, hres, hR⟩ := h
    exact ⟨o, hres, htrans _ _ _ hR hab⟩
  refine h.invariant (I := fun s => (∀ e ∈ s.trace, After host R e s.store) ∧
    s.trace.Pairwise fun e e' => After host R e e'.before) ⟨fun e he => absurd he List.not_mem_nil, .nil⟩ ?_
  rintro s e s' ⟨hlast, hpairs⟩ - hstep
  rcases step_cases hstep with ⟨r', rfl⟩ | ⟨j, o, r', c, k, hserved, rfl⟩ | ⟨e, rfl⟩
  · exact ⟨hlast, hpairs⟩
  · refine ⟨fun x hx => ?_, List.pairwise_append.mpr ⟨hpairs, List.pairwise_singleton _ _, fun x hx y hy => ?_⟩⟩
    · rcases List.mem_append.mp hx with hx | hx
      · exact hon (hlast x hx) (hexec c o s.store)
      · cases List.mem_singleton.mp hx
        exact ⟨o, rfl, hrefl _⟩
    · cases List.mem_singleton.mp hy
      exact hlast x hx
  · exact ⟨fun x hx => hon (hlast x hx) (houtside e s.store), hpairs⟩

end Runs

end Hosting

end SyncRtc
