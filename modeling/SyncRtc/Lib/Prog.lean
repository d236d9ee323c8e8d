import Mathlib.Logic.Basic

/-!
# Programs that suspend at every shared access

A **program** is a tree of calls: a `pure` leaf carries the answer, a `call` node names one
access to shared state and continues with its result. Nothing happens between two calls, so a
scheduler that interleaves several programs may switch at every call and nowhere else: the tree is
the unit an interleaving semantics steps through.

A program means nothing until its calls do. Two readings are given here, both over an arbitrary
state type:

* `Prog.run`, the **solo run**: an interpretation answers every call, nobody interferes;
* `Prog.wp`, the **weakest precondition** over a machine whose calls are relations. A machine that
  describes only a part of a larger state is a relation even where the code is a function, because
  a result may depend on the part that is not described.

`Prog.wp` is closed under `bind` (`wp_bind`), monotone (`wp_mono`) and carries an obligation at
every call (`Machine.pre`), so that one derivation proves both what a program ends with and what
each of its steps keeps.

**What it does not establish.** A program tree is finite; the module says nothing about programs
that never end, and nothing about fairness.
-/

set_option autoImplicit false

namespace SyncRtc

/-- The calls a program may make, and the type of each call's result. -/
structure Signature where
  Call : Type
  Res : Call → Type

/-- A program over the calls of `S`: an answer, or one call and what to do with its result. -/
inductive Prog (S : Signature) (α : Type) : Type where
  | pure (a : α)
  | call (c : S.Call) (k : S.Res c → Prog S α)

namespace Prog

variable {S : Signature} {α β γ : Type}

/-- Run `p`, then `f` on its answer. -/
def bind : Prog S α → (α → Prog S β) → Prog S β
  | .pure a, f => f a
  | .call c k, f => .call c fun r => (k r).bind f

instance : Monad (Prog S) where
  pure := Prog.pure
  bind := Prog.bind

/-- The program that makes one call and answers its result. -/
def perform (c : S.Call) : Prog S (S.Res c) := .call c .pure

@[simp] theorem bind_eq (p : Prog S α) (f : α → Prog S β) : p >>= f = p.bind f := rfl

@[simp] theorem pure_eq (a : α) : (Pure.pure a : Prog S α) = .pure a := rfl

@[simp] theorem bind_pure_left (a : α) (f : α → Prog S β) : (Prog.pure a).bind f = f a := rfl

@[simp] theorem bind_call (c : S.Call) (k : S.Res c → Prog S α) (f : α → Prog S β) :
    (Prog.call c k).bind f = .call c fun r => (k r).bind f := rfl

@[simp] theorem bind_assoc (p : Prog S α) (f : α → Prog S β) (g : β → Prog S γ) :
    (p.bind f).bind g = p.bind fun a => (f a).bind g := by
  induction p with
  | pure a => rfl
  | call c k ih =>
    simp only [bind_call]
    congr 1
    funext r
    exact ih r

/-! ## Loops over a list -/

section Loops

variable {ι : Type}

/-- Run `body` on each item in turn. -/
def each (body : ι → Prog S Unit) : List ι → Prog S Unit
  | [] => .pure ()
  | x :: xs => (body x).bind fun _ => each body xs

/-- Run `body` on each item in turn and collect the answers. -/
def collect (body : ι → Prog S α) : List ι → Prog S (List α)
  | [] => .pure []
  | x :: xs => (body x).bind fun a => (collect body xs).bind fun as => .pure (a :: as)

/-- Ask `keep` about each item in turn and keep those it says yes to. -/
def select (keep : ι → Prog S Bool) : List ι → Prog S (List ι)
  | [] => .pure []
  | x :: xs =>
    (keep x).bind fun b => (select keep xs).bind fun ys => .pure (if b then x :: ys else ys)

end Loops

/-! ## The solo run -/

/-- The solo run: `interp` answers every call. -/
def run {σ : Type} (interp : (c : S.Call) → σ → S.Res c × σ) : Prog S α → σ → α × σ
  | .pure a, s => (a, s)
  | .call c k, s => (k (interp c s).1).run interp (interp c s).2

section Run

variable {σ : Type} {interp : (c : S.Call) → σ → S.Res c × σ}

@[simp] theorem run_pure (a : α) (s : σ) : (Prog.pure a : Prog S α).run interp s = (a, s) := rfl

@[simp] theorem run_call (c : S.Call) (k : S.Res c → Prog S α) (s : σ) :
    (Prog.call c k).run interp s = (k (interp c s).1).run interp (interp c s).2 := rfl

@[simp] theorem run_perform (c : S.Call) (s : σ) : (perform c).run interp s = interp c s := rfl

/-- A run of a sequence runs the first program, then the second from where the first ended. -/
theorem run_bind (p : Prog S α) (f : α → Prog S β) (s : σ) :
    (p.bind f).run interp s = (f (p.run interp s).1).run interp (p.run interp s).2 := by
  induction p generalizing s with
  | pure a => rfl
  | call c k ih => exact ih (interp c s).1 (interp c s).2

end Run

/-! ## Programs over a relational machine -/

/-- A machine over states `σ`: what each call requires of the state it is made in, and which
results and states it may lead to. -/
structure Machine (S : Signature) (σ : Type) where
  pre : S.Call → σ → Prop
  rel : (c : S.Call) → σ → S.Res c → σ → Prop

/-- Every call of `p` is made where the machine permits it, and every run of `p` from `s` ends in
`Q`. -/
def wp {σ : Type} (m : Machine S σ) : Prog S α → (α → σ → Prop) → σ → Prop
  | .pure a, Q, s => Q a s
  | .call c k, Q, s => m.pre c s ∧ ∀ r s', m.rel c s r s' → (k r).wp m Q s'

section Wp

variable {σ : Type} {m : Machine S σ}

@[simp] theorem wp_pure (a : α) (Q : α → σ → Prop) (s : σ) : (Prog.pure a).wp m Q s ↔ Q a s := Iff.rfl

@[simp] theorem wp_call (c : S.Call) (k : S.Res c → Prog S α) (Q : α → σ → Prop) (s : σ) :
    (Prog.call c k).wp m Q s ↔ m.pre c s ∧ ∀ r s', m.rel c s r s' → (k r).wp m Q s' := Iff.rfl

/-- A weaker postcondition is met wherever a stronger one is. -/
theorem wp_mono {p : Prog S α} {Q Q' : α → σ → Prop} (h : ∀ a s, Q a s → Q' a s) :
    ∀ {s : σ}, p.wp m Q s → p.wp m Q' s := by
  induction p with
  | pure a => exact h a _
  | call c k ih => exact fun hp => ⟨hp.1, fun r s' hr => ih r (hp.2 r s' hr)⟩

/-- A sequence is verified piece by piece. -/
theorem wp_bind {p : Prog S α} {f : α → Prog S β} {Q : β → σ → Prop} {s : σ} :
    (p.bind f).wp m Q s ↔ p.wp m (fun a s' => (f a).wp m Q s') s := by
  induction p generalizing s with
  | pure a => exact Iff.rfl
  | call c k ih =>
    simp only [bind_call, wp_call]
    exact and_congr Iff.rfl (forall_congr' fun r => forall_congr' fun s' => imp_congr Iff.rfl (ih r))

/-- The rule for a sequence whose first part has a specification of its own. -/
theorem wp_seq {p : Prog S α} {f : α → Prog S β} {P : α → σ → Prop} {Q : β → σ → Prop} {s : σ}
    (hp : p.wp m P s) (hf : ∀ a s', P a s' → (f a).wp m Q s') : (p.bind f).wp m Q s :=
  wp_bind.mpr (wp_mono hf hp)

/-- The rule for a sequence that starts with a call. -/
theorem wp_step {c : S.Call} {f : S.Res c → Prog S β} {Q : β → σ → Prop} {s : σ} (hpre : m.pre c s)
    (hk : ∀ r s', m.rel c s r s' → (f r).wp m Q s') : ((perform c).bind f).wp m Q s := ⟨hpre, hk⟩

/-- The rule for a branch. -/
theorem wp_ite {c : Prop} [Decidable c] {p q : Prog S α} {Q : α → σ → Prop} {s : σ} (hp : c → p.wp m Q s)
    (hq : ¬ c → q.wp m Q s) : (if c then p else q).wp m Q s := by
  by_cases hc : c
  · rw [if_pos hc]
    exact hp hc
  · rw [if_neg hc]
    exact hq hc

/-- The machine of a solo run: every call may be made, and is answered as the interpretation has it. -/
def Machine.ofInterp (interp : (c : S.Call) → σ → S.Res c × σ) : Machine S σ where
  pre _ _ := True
  rel c s r s' := interp c s = (r, s')

/-- Over the machine of a solo run, a weakest precondition speaks of the one run there is. -/
theorem wp_ofInterp {interp : (c : S.Call) → σ → S.Res c × σ} {p : Prog S α} {Q : α → σ → Prop} {s : σ} :
    p.wp (.ofInterp interp) Q s ↔ Q (p.run interp s).1 (p.run interp s).2 := by
  induction p generalizing s with
  | pure a => exact Iff.rfl
  | call c k ih =>
    constructor
    · intro h
      exact (ih _).mp (h.2 _ _ rfl)
    · intro h
      refine ⟨trivial, fun r s' hr => (ih r).mpr ?_⟩
      rw [run_call, hr] at h
      exact h

/-! ### Loops keep an invariant -/

section Loops

variable {ι : Type} {I : σ → Prop}

theorem wp_each {body : ι → Prog S Unit} {xs : List ι}
    (h : ∀ x ∈ xs, ∀ s, I s → (body x).wp m (fun _ => I) s) {s : σ} (hs : I s) :
    (each body xs).wp m (fun _ => I) s := by
  induction xs generalizing s with
  | nil => exact hs
  | cons x xs ih =>
    refine wp_seq (h x List.mem_cons_self s hs) fun _ s' hs' => ?_
    exact ih (fun y hy => h y (List.mem_cons_of_mem x hy)) hs'

/-- A loop whose invariant says what is still to be done. -/
theorem wp_each_rest {body : ι → Prog S Unit} {J : List ι → σ → Prop} {xs : List ι}
    (h : ∀ x rest s, x :: rest <:+ xs → J (x :: rest) s → (body x).wp m (fun _ => J rest) s) {s : σ} (hs : J xs s) :
    (each body xs).wp m (fun _ => J []) s := by
  induction xs generalizing s with
  | nil => exact hs
  | cons x xs ih =>
    refine wp_seq (h x xs s List.suffix_rfl hs) fun _ s' hs' => ?_
    exact ih (fun y rest s hy => h y rest s (hy.trans (List.suffix_cons x xs))) hs'

theorem wp_collect {body : ι → Prog S α} {xs : List ι}
    (h : ∀ x ∈ xs, ∀ s, I s → (body x).wp m (fun _ => I) s) {s : σ} (hs : I s) :
    (collect body xs).wp m (fun _ => I) s := by
  induction xs generalizing s with
  | nil => exact hs
  | cons x xs ih =>
    refine wp_seq (h x List.mem_cons_self s hs) fun a s' hs' => ?_
    exact wp_seq (ih (fun y hy => h y (List.mem_cons_of_mem x hy)) hs') fun as s'' hs'' => hs''

/-- What a selection by `keep` has kept and dropped, in terms of what an answer of `keep` means. -/
structure Selected (P : ι → Bool → Prop) (xs ys : List ι) : Prop where
  sublist : ys.Sublist xs
  kept : ∀ x ∈ ys, P x true
  dropped : ∀ x ∈ xs, x ∉ ys → P x false

theorem Selected.cons {P : ι → Bool → Prop} {x : ι} {xs ys : List ι} {b : Bool}
    (hx : P x b) (h : Selected P xs ys) : Selected P (x :: xs) (if b then x :: ys else ys) := by
  cases b with
  | true =>
    refine ⟨h.sublist.cons_cons x, ?_, ?_⟩
    · intro y hy
      rcases List.mem_cons.mp hy with rfl | hy
      · exact hx
      · exact h.kept y hy
    · intro y hy hn
      rcases List.mem_cons.mp hy with rfl | hy
      · exact absurd List.mem_cons_self hn
      · exact h.dropped y hy fun h' => hn (List.mem_cons_of_mem x h')
  | false =>
    refine ⟨h.sublist.cons x, h.kept, ?_⟩
    intro y hy hn
    rcases List.mem_cons.mp hy with rfl | hy
    · exact hx
    · exact h.dropped y hy hn

theorem wp_select {P : ι → Bool → Prop} {keep : ι → Prog S Bool} {xs : List ι}
    (h : ∀ x ∈ xs, ∀ s, I s → (keep x).wp m (fun b s' => I s' ∧ P x b) s) {s : σ} (hs : I s) :
    (select keep xs).wp m (fun ys s' => I s' ∧ Selected P xs ys) s := by
  induction xs generalizing s with
  | nil => exact ⟨hs, List.Sublist.refl _, by simp, by simp⟩
  | cons x xs ih =>
    refine wp_seq (h x List.mem_cons_self s hs) fun b s' hb => ?_
    refine wp_seq (ih (fun y hy => h y (List.mem_cons_of_mem x hy)) hb.1) fun ys s'' hys => ?_
    exact ⟨hys.1, hys.2.cons hb.2⟩

end Loops

end Wp

/-! ## Programs by the calls they make -/

/-- Every call `p` can make, whatever its calls answer, satisfies `P`. -/
def Makes (P : S.Call → Prop) : Prog S α → Prop
  | .pure _ => True
  | .call c k => P c ∧ ∀ r, (k r).Makes P

section Makes

variable {P P' : S.Call → Prop}

@[simp] theorem makes_pure (a : α) : (Prog.pure a : Prog S α).Makes P := trivial

@[simp] theorem makes_perform (c : S.Call) : (perform c).Makes P ↔ P c :=
  ⟨fun h => h.1, fun h => ⟨h, fun _ => trivial⟩⟩

theorem Makes.bind {p : Prog S α} {f : α → Prog S β} (hp : p.Makes P) (hf : ∀ a, (f a).Makes P) :
    (p.bind f).Makes P := by
  induction p with
  | pure a => exact hf a
  | call c k ih => exact ⟨hp.1, fun r => ih r (hp.2 r)⟩

/-- The rule for a sequence that starts with a call. -/
theorem Makes.step {c : S.Call} {f : S.Res c → Prog S β} (hc : P c) (hf : ∀ r, (f r).Makes P) :
    ((perform c).bind f).Makes P := ⟨hc, hf⟩

/-- The rule for a branch. -/
theorem Makes.ite {c : Prop} [Decidable c] {p q : Prog S α} (hp : p.Makes P) (hq : q.Makes P) :
    (if c then p else q).Makes P := by
  split
  · exact hp
  · exact hq

theorem makes_of_forall (h : ∀ c, P c) (p : Prog S α) : p.Makes P := by
  induction p with
  | pure a => trivial
  | call c k ih => exact ⟨h c, ih⟩

theorem Makes.mono (h : ∀ c, P c → P' c) {p : Prog S α} (hp : p.Makes P) : p.Makes P' := by
  induction p with
  | pure a => trivial
  | call c k ih => exact ⟨h c hp.1, fun r => ih r (hp.2 r)⟩

variable {ι : Type}

theorem Makes.each {body : ι → Prog S Unit} {xs : List ι} (h : ∀ x ∈ xs, (body x).Makes P) :
    (each body xs).Makes P := by
  induction xs with
  | nil => trivial
  | cons x xs ih =>
    exact (h x List.mem_cons_self).bind fun _ => ih fun y hy => h y (List.mem_cons_of_mem x hy)

theorem Makes.collect {body : ι → Prog S α} {xs : List ι} (h : ∀ x ∈ xs, (body x).Makes P) :
    (collect body xs).Makes P := by
  induction xs with
  | nil => trivial
  | cons x xs ih =>
    refine (h x List.mem_cons_self).bind fun a => ?_
    exact (ih fun y hy => h y (List.mem_cons_of_mem x hy)).bind fun _ => trivial

theorem Makes.select {keep : ι → Prog S Bool} {xs : List ι} (h : ∀ x ∈ xs, (keep x).Makes P) :
    (select keep xs).Makes P := by
  induction xs with
  | nil => trivial
  | cons x xs ih =>
    refine (h x List.mem_cons_self).bind fun b => ?_
    exact (ih fun y hy => h y (List.mem_cons_of_mem x hy)).bind fun _ => trivial

/-- A program whose calls all keep `I` keeps it. -/
theorem Makes.wp {σ : Type} {m : Machine S σ} {I : σ → Prop} {p : Prog S α} (hp : p.Makes P)
    (hpre : ∀ c s, P c → I s → m.pre c s)
    (hrel : ∀ c s r s', P c → I s → m.rel c s r s' → I s') {s : σ} (hs : I s) :
    p.wp m (fun _ => I) s := by
  induction p generalizing s with
  | pure a => exact hs
  | call c k ih =>
    exact ⟨hpre c s hp.1 hs, fun r s' hr => ih r (hp.2 r) (hrel c s r s' hp.1 hs hr)⟩

end Makes

end Prog

end SyncRtc
