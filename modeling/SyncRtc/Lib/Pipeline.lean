import Mathlib.Data.Set.Insert

/-!
# Two stages with a gate each

Items come in through a gate to an upstream stage and go from it to a downstream one, which they leave through a
second gate. The stages work at any time: they hand on, drop, and make new things of what they have. A desk opens and
closes the gates by calls, one after another. Items are brought to the first gate at any time too, but not in an
opening that does not work.

Items are known by the number they came in under, and what is made of them bears their numbers.

**The law.** What leaves after the desk has answered to a close was asked for after it, and is made of items that came
in after it (`Silent`). It needs each closing call to wait for the stage it closes, and the calls of a close to go from
the upstream stage to the downstream one.
-/

set_option autoImplicit false

namespace SyncRtc

structure Pipeline where
  /-- The gate of the upstream stage. -/
  accepting : Bool
  upstream : Set Nat
  /-- The gate behind the downstream stage. -/
  enabled : Bool
  downstream : Set Nat

namespace Pipeline

/-- The stages work. -/
structure Works (p p' : Pipeline) : Prop where
  accepting : p'.accepting = p.accepting
  upstream : p'.upstream ⊆ p.upstream
  enabled : p'.enabled = p.enabled
  downstream : p'.downstream ⊆ p.upstream ∪ p.downstream

theorem Works.refl (p : Pipeline) : p.Works p := ⟨rfl, subset_rfl, rfl, Set.subset_union_right⟩

/-- The item `n` is brought to the gate. -/
structure Enters (n : Nat) (p p' : Pipeline) : Prop where
  accepting : p'.accepting = p.accepting
  refused : p.accepting = false → p'.upstream ⊆ p.upstream
  upstream : p'.upstream ⊆ insert n p.upstream
  enabled : p'.enabled = p.enabled
  downstream : p'.downstream ⊆ p.downstream

/-- Nothing comes in, and nothing is upstream. -/
structure Quiet (p : Pipeline) : Prop where
  accepting : p.accepting = false
  upstream : p.upstream = ∅

/-- Nothing is in it, and nothing leaves. -/
structure Dry (p : Pipeline) : Prop where
  upstream : p.upstream = ∅
  enabled : p.enabled = false
  downstream : p.downstream = ∅

/-- Nothing comes in, is in it, or leaves. -/
structure Closed (p : Pipeline) : Prop where
  quiet : p.Quiet
  dry : p.Dry

/-! ## Calls -/

inductive Call where
  | start
  | stop
  | enable
  | disable
  deriving DecidableEq

/-- What a call may do. A `stop` has waited for the upstream stage, and a `disable` for the downstream one. -/
def Call.Does (p p' : Pipeline) : Call → Prop
  | .start => p'.upstream ⊆ p.upstream ∧ p'.enabled = p.enabled ∧ p'.downstream ⊆ p.downstream
  | .stop => p'.Quiet ∧ p'.enabled = p.enabled ∧ p'.downstream ⊆ p.downstream
  | .enable => p'.accepting = p.accepting ∧ p'.upstream ⊆ p.upstream ∧ p'.downstream ⊆ p.downstream
  | .disable => p'.accepting = p.accepting ∧ p'.upstream ⊆ p.upstream ∧ p'.enabled = false ∧ p'.downstream = ∅

/-- The calls are made in turn, while the stages work; `fed` is whether items are brought meanwhile. -/
inductive Runs (fed : Bool) : List Call → Pipeline → Pipeline → Prop where
  | done {p : Pipeline} : Runs fed [] p p
  | work {calls : List Call} {p p' q : Pipeline} (h : p.Works p') (hruns : Runs fed calls p' q) : Runs fed calls p q
  | enter {calls : List Call} {p p' q : Pipeline} {n : Nat} (hfed : fed = true) (h : p.Enters n p')
    (hruns : Runs fed calls p' q) : Runs fed calls p q
  | call {c : Call} {calls : List Call} {p p' q : Pipeline} (h : c.Does p p') (hruns : Runs fed calls p' q) :
    Runs fed (c :: calls) p q

theorem Runs.one {fed : Bool} {c : Call} {p q : Pipeline} (h : c.Does p q) : Runs fed [c] p q := .call h .done

theorem Runs.trans {fed : Bool} {calls calls' : List Call} {p q r : Pipeline} (h : Runs fed calls p q)
    (h' : Runs fed calls' q r) : Runs fed (calls ++ calls') p r := by
  induction h with
  | done => exact h'
  | work hw _ ih => exact .work hw (ih h')
  | enter hfed hn _ ih => exact .enter hfed hn (ih h')
  | call hdoes _ ih => exact .call hdoes (ih h')

/-- It does not end by itself. -/
structure Stable (fed : Bool) (P : Pipeline → Prop) : Prop where
  work : ∀ p p', P p → p.Works p' → P p'
  enter : fed = true → ∀ n p p', P p → p.Enters n p' → P p'

/-- Where the calls lead from `P`. -/
def Leads (fed : Bool) (calls : List Call) (P Q : Pipeline → Prop) : Prop := ∀ p q, P p → Runs fed calls p q → Q q

section

variable {fed : Bool} {P Q R : Pipeline → Prop} {c : Call} {calls : List Call}

theorem leads_nil (hP : Stable fed P) : Leads fed [] P P := by
  intro p q hp hruns
  generalize hnil : ([] : List Call) = calls at hruns
  induction hruns with
  | done => exact hp
  | work h _ ih => exact ih (hP.work _ _ hp h) hnil
  | enter hfed h _ ih => exact ih (hP.enter hfed _ _ _ hp h) hnil
  | call _ _ _ => cases hnil

theorem leads_cons (hP : Stable fed P) (hc : ∀ p p', P p → c.Does p p' → Q p') (h : Leads fed calls Q R) :
    Leads fed (c :: calls) P R := by
  intro p q hp hruns
  generalize hcons : c :: calls = all at hruns
  induction hruns with
  | done => cases hcons
  | work hw _ ih => exact ih (hP.work _ _ hp hw) hcons
  | enter hfed hn _ ih => exact ih (hP.enter hfed _ _ _ hp hn) hcons
  | call hdoes hruns _ =>
    cases hcons
    exact h _ _ (hc _ _ hp hdoes) hruns

theorem stable_true : Stable fed fun _ => True := ⟨fun _ _ _ _ => trivial, fun _ _ _ _ _ _ => trivial⟩

theorem stable_quiet : Stable fed Quiet := by
  constructor
  case work => exact fun p p' hp hw => ⟨hw.accepting.trans hp.accepting, Set.subset_empty_iff.mp (hp.upstream ▸ hw.upstream)⟩
  case enter =>
    exact fun _ n p p' hp hn =>
      ⟨hn.accepting.trans hp.accepting, Set.subset_empty_iff.mp (hp.upstream ▸ hn.refused hp.accepting)⟩

end

/-- While nothing is brought. -/
theorem stable_dry : Stable false Dry := by
  refine ⟨fun p p' hp hw => ?_, nofun⟩
  have hnone : p'.downstream ⊆ ∅ ∪ ∅ := by
    have := hw.downstream
    rwa [hp.upstream, hp.downstream] at this
  refine ⟨Set.subset_empty_iff.mp (hp.upstream ▸ hw.upstream), hw.enabled.trans hp.enabled, ?_⟩
  rwa [Set.union_empty, Set.subset_empty_iff] at hnone

theorem stable_closed {fed : Bool} : Stable fed Closed := by
  constructor
  case work => exact fun p p' hp hw => ⟨(@stable_quiet fed).work p p' hp.quiet hw, stable_dry.work p p' hp.dry hw⟩
  case enter =>
    intro hfed n p p' hp hn
    have hquiet := stable_quiet.enter hfed n p p' hp.quiet hn
    exact ⟨hquiet, hquiet.upstream, hn.enabled.trans hp.dry.enabled, Set.subset_empty_iff.mp (hp.dry.downstream ▸ hn.downstream)⟩

/-- A close, from the upstream stage to the downstream one. -/
theorem leads_close {fed : Bool} : Leads fed [.stop, .disable] (fun _ => True) Closed := by
  refine leads_cons (Q := Quiet) stable_true (fun _ _ _ h => h.1) ?_
  refine leads_cons stable_quiet (fun p p' hp h => ?_) (leads_nil stable_closed)
  obtain ⟨haccepting, hup, henabled, hdown⟩ := h
  have hnone : p'.upstream = ∅ := Set.subset_empty_iff.mp (hp.upstream ▸ hup)
  exact ⟨⟨haccepting.trans hp.accepting, hnone⟩, hnone, henabled, hdown⟩

/-- An opening that is given up. -/
theorem leads_giveUp : Leads false [.start, .stop] Closed Closed := by
  refine leads_cons (Q := Dry) stable_closed (fun p p' hp h => ?_) ?_
  · obtain ⟨hup, henabled, hdown⟩ := h
    exact ⟨Set.subset_empty_iff.mp (hp.dry.upstream ▸ hup), henabled.trans hp.dry.enabled,
      Set.subset_empty_iff.mp (hp.dry.downstream ▸ hdown)⟩
  · refine leads_cons stable_dry (fun p p' hp h => ?_) (leads_nil stable_closed)
    obtain ⟨hquiet, henabled, hdown⟩ := h
    exact ⟨hquiet, hquiet.upstream, henabled.trans hp.enabled, Set.subset_empty_iff.mp (hp.downstream ▸ hdown)⟩

end Pipeline

/-! ## The desk -/

/-- What the desk is asked for. An opening may turn out not to work. -/
inductive Ask where
  | opening (works : Bool)
  | closing

def Ask.calls : Ask → List Pipeline.Call
  | .opening true => [.start, .enable]
  | .opening false => [.start, .stop]
  | .closing => [.stop, .disable]

/-- Whether items are brought to the gate meanwhile: not in an opening that does not work. -/
def Ask.fed : Ask → Bool
  | .opening works => works
  | .closing => true

structure Desk where
  pipe : Pipeline
  opened : Bool
  /-- What it is at, with the calls it has still to make. -/
  request : Option (Ask × List Pipeline.Call)
  /-- The number of the next item. -/
  count : Nat

namespace Desk

/-- What is seen from outside. -/
inductive Entry where
  | entered (n : Nat)
  | asked
  /-- The desk has answered to a close. -/
  | closed
  | left (items : Set Nat)

/-- What can happen, with what is seen of it. An opening of what is open, and a close of what is not, are answered at
once; a close may be worked off nevertheless. -/
inductive Step : Desk → List Entry → Desk → Prop where
  | enter {d : Desk} {p : Pipeline} (hfed : ∀ a calls, d.request = some (a, calls) → a.fed = true) (h : d.pipe.Enters d.count p) :
    Step d [.entered d.count] { d with pipe := p, count := d.count + 1 }
  | work {d : Desk} {p : Pipeline} (h : d.pipe.Works p) : Step d [] { d with pipe := p }
  | leave {d : Desk} {p : Pipeline} {items : Set Nat} (henabled : d.pipe.enabled = true) (hitems : items ⊆ d.pipe.downstream)
    (h : d.pipe.Works p) : Step d [.left items] { d with pipe := p }
  | openAtOnce {d : Desk} (hfree : d.request = none) (hopened : d.opened = true) : Step d [.asked] d
  | closeAtOnce {d : Desk} (hfree : d.request = none) (hopened : d.opened = false) : Step d [.closed] d
  | opening {d : Desk} {works : Bool} (hfree : d.request = none) (hopened : d.opened = false) :
    Step d [.asked] { d with request := some (.opening works, (Ask.opening works).calls) }
  | closing {d : Desk} (hfree : d.request = none) : Step d [] { d with request := some (.closing, Ask.closing.calls) }
  | call {d : Desk} {p : Pipeline} {a : Ask} {c : Pipeline.Call} {calls : List Pipeline.Call}
    (hrequest : d.request = some (a, c :: calls)) (h : c.Does d.pipe p) :
    Step d [] { d with pipe := p, request := some (a, calls) }
  | openReturns {d : Desk} {works : Bool} (hrequest : d.request = some (.opening works, [])) :
    Step d [] { d with opened := works, request := none }
  | closeReturns {d : Desk} (hrequest : d.request = some (.closing, [])) :
    Step d [.closed] { d with opened := false, request := none }

/-- A run, from where it is closed, with all that was seen. -/
inductive Trace : List Entry → Desk → Prop where
  | start {d : Desk} (hpipe : d.pipe.Closed) (hopened : d.opened = false) (hrequest : d.request = none) : Trace [] d
  | next {log entries : List Entry} {d d' : Desk} (h : Trace log d) (hstep : Step d entries d') : Trace (log ++ entries) d'

/-- **The law**: what leaves after a close was asked for after it, and came in after it. -/
def Silent (log : List Entry) : Prop :=
  ∀ before between items after, log = before ++ .closed :: (between ++ .left items :: after) →
    .asked ∈ between ∧ ∀ n ∈ items, .entered n ∉ before

/-! ### What was seen -/

/-- An opening was asked for after the last close. -/
def Asked (log : List Entry) : Prop := ∃ before between, log = before ++ .asked :: between ∧ .closed ∉ between

/-- The item did not come in before the last close. -/
def Fresh (log : List Entry) (n : Nat) : Prop := ∀ before after, log = before ++ .closed :: after → .entered n ∉ before

section

variable {log before after : List Entry} {e e' : Entry} {n : Nat} {items : Set Nat}

/-- The last entry is the one that is looked at, or it comes after it. -/
theorem snoc_split (h : log ++ [e] = before ++ e' :: after) :
    (log = before ∧ e = e') ∨ ∃ rest, log = before ++ e' :: rest ∧ after = rest ++ [e] := by
  rcases List.eq_nil_or_concat after with rfl | ⟨rest, last, rfl⟩
  · obtain ⟨hlog, he⟩ := List.append_inj' h rfl
    exact .inl ⟨hlog, List.head_eq_of_cons_eq he⟩
  · rw [List.concat_eq_append, ← List.cons_append, ← List.append_assoc] at h
    obtain ⟨hlog, he⟩ := List.append_inj' h rfl
    cases he
    exact .inr ⟨rest, hlog, List.concat_eq_append⟩

theorem asked_snoc (log : List Entry) : Asked (log ++ [.asked]) := ⟨log, [], rfl, List.not_mem_nil⟩

theorem Asked.snoc (h : Asked log) (he : e ≠ .closed) : Asked (log ++ [e]) := by
  obtain ⟨before, between, rfl, hbetween⟩ := h
  refine ⟨before, between ++ [e], by simp, fun hmem => ?_⟩
  rcases List.mem_append.mp hmem with hmem | hmem
  · exact hbetween hmem
  · exact he (List.mem_singleton.mp hmem).symm

theorem Asked.mem_between (h : Asked (before ++ .closed :: after)) : .asked ∈ after := by
  obtain ⟨front, rest, heq, hrest⟩ := h
  rcases List.append_eq_append_iff.mp heq with ⟨more, hfront, hafter⟩ | ⟨more, hbefore, hrest'⟩
  · cases more with
    | nil => cases hafter
    | cons m more =>
      cases hafter
      exact List.mem_append_right _ List.mem_cons_self
  · cases more with
    | nil => cases hrest'
    | cons m more =>
      cases hrest'
      exact absurd (List.mem_append_right _ List.mem_cons_self) hrest

theorem Fresh.snoc (h : Fresh log n) (he : e ≠ .closed) : Fresh (log ++ [e]) n := by
  intro before after heq
  rcases snoc_split heq with ⟨-, hlast⟩ | ⟨rest, hlog, -⟩
  · exact absurd hlast he
  · exact h before rest hlog

/-- What comes in is fresh, if nothing came in under its number. -/
theorem fresh_entered (h : .entered n ∉ log) : Fresh (log ++ [.entered n]) n := by
  intro before after heq hmem
  rcases snoc_split heq with ⟨-, hlast⟩ | ⟨rest, hlog, -⟩
  · cases hlast
  · exact h (hlog ▸ List.mem_append_left _ hmem)

theorem silent_nil : Silent [] := by
  intro before between items after h
  exact absurd h (List.ne_nil_of_mem (List.mem_append_right _ List.mem_cons_self)).symm

theorem Silent.snoc (h : Silent log) (he : ∀ items, e = .left items → Asked log ∧ ∀ n ∈ items, Fresh log n) :
    Silent (log ++ [e]) := by
  intro before between items after heq
  rw [← List.cons_append, ← List.append_assoc] at heq
  rcases snoc_split heq with ⟨hlog, hlast⟩ | ⟨rest, hlog, -⟩
  · obtain ⟨hasked, hfresh⟩ := he items hlast
    rw [hlog] at hasked
    exact ⟨hasked.mem_between, fun n hn => hfresh n hn before between hlog⟩
  · exact h before between items rest (by rw [hlog, List.append_assoc, List.cons_append])

end

/-! ### The invariant -/

/-- Where the calls that are left end, it is closed if it is not to be open. -/
def Closes (d : Desk) : Prop :=
  match d.request with
  | none => d.opened = false → d.pipe.Closed
  | some (.opening true, _) => True
  | some (a, calls) => ∀ q, Pipeline.Runs a.fed calls d.pipe q → q.Closed

structure Safe (log : List Entry) (d : Desk) : Prop where
  within : ∀ n ∈ d.pipe.upstream ∪ d.pipe.downstream, Fresh log n ∧ n < d.count
  counted : ∀ n, .entered n ∈ log → n < d.count
  enabled : d.pipe.enabled = true → Asked log
  /-- The gate behind the stages is opened only for an opening. -/
  asking : ∀ a calls, d.request = some (a, calls) → .enable ∈ calls → Asked log
  closes : d.Closes
  silent : Silent log

section

variable {log : List Entry} {d d' : Desk} {p : Pipeline} {e : Entry}

/-- What the stages have after a while they had before. -/
theorem works_within (h : d.pipe.Works p) {n : Nat} (hn : n ∈ p.upstream ∪ p.downstream) :
    n ∈ d.pipe.upstream ∪ d.pipe.downstream := by
  rcases hn with hn | hn
  · exact .inl (h.upstream hn)
  · exact h.downstream hn

theorem Closes.work (hd : d.Closes) (h : d.pipe.Works p) : Closes { d with pipe := p } := by
  obtain ⟨pipe, opened, request, count⟩ := d
  match request, hd with
  | none, hd => exact fun hopened => (@Pipeline.stable_closed true).work _ _ (hd hopened) h
  | some (.opening true, _), _ => trivial
  | some (.opening false, calls), hd => exact fun q hq => hd q (.work h hq)
  | some (.closing, calls), hd => exact fun q hq => hd q (.work h hq)

theorem Closes.enter (hd : d.Closes) (hfed : ∀ a calls, d.request = some (a, calls) → a.fed = true) {n count : Nat}
    (h : d.pipe.Enters n p) : Closes { d with pipe := p, count := count } := by
  obtain ⟨pipe, opened, request, _⟩ := d
  match request, hd with
  | none, hd => exact fun hopened => Pipeline.stable_closed.enter rfl n _ _ (hd hopened) h
  | some (.opening true, _), _ => trivial
  | some (.opening false, calls), _ => exact nomatch hfed _ calls rfl
  | some (.closing, calls), hd => exact fun q hq => hd q (.enter rfl h hq)

theorem Closes.call {a : Ask} {c : Pipeline.Call} {calls : List Pipeline.Call} (hd : d.Closes)
    (hrequest : d.request = some (a, c :: calls)) (h : c.Does d.pipe p) :
    Closes { d with pipe := p, request := some (a, calls) } := by
  obtain ⟨pipe, opened, request, count⟩ := d
  cases hrequest
  match a, hd with
  | .opening true, _ => trivial
  | .opening false, hd => exact fun q hq => hd q (.call h hq)
  | .closing, hd => exact fun q hq => hd q (.call h hq)

/-- An entry that closes nothing and lets nothing out: what holds of what was seen goes on. -/
theorem Safe.note (h : Safe log d) (hclosed : e ≠ .closed) (hleft : ∀ items, e ≠ .left items)
    (hentered : ∀ n, e ≠ .entered n) : Safe (log ++ [e]) d := by
  refine ⟨fun n hn => ⟨(h.within n hn).1.snoc hclosed, (h.within n hn).2⟩, fun n hn => ?_, fun ha => (h.enabled ha).snoc hclosed,
    fun a calls hr hmem => (h.asking a calls hr hmem).snoc hclosed, h.closes, h.silent.snoc fun items he => absurd he (hleft items)⟩
  rcases List.mem_append.mp hn with hn | hn
  · exact h.counted n hn
  · exact absurd (List.mem_singleton.mp hn).symm (hentered n)

theorem Safe.work (h : Safe log d) (hw : d.pipe.Works p) : Safe log { d with pipe := p } :=
  ⟨fun n hn => h.within n (works_within hw hn), h.counted, fun ha => h.enabled (hw.enabled.symm.trans ha), h.asking,
    h.closes.work hw, h.silent⟩

theorem Safe.leave {items : Set Nat} (h : Safe log d) (henabled : d.pipe.enabled = true) (hitems : items ⊆ d.pipe.downstream) :
    Safe (log ++ [.left items]) d := by
  refine ⟨fun n hn => ⟨(h.within n hn).1.snoc nofun, (h.within n hn).2⟩, fun n hn => ?_, fun ha => (h.enabled ha).snoc nofun,
    fun a calls hr hmem => (h.asking a calls hr hmem).snoc nofun, h.closes, h.silent.snoc fun items' he => ?_⟩
  · rcases List.mem_append.mp hn with hn | hn
    · exact h.counted n hn
    · exact nomatch List.mem_singleton.mp hn
  · cases he
    exact ⟨h.enabled henabled, fun n hn => (h.within n (.inr (hitems hn))).1⟩

theorem Safe.enter (h : Safe log d) (hfed : ∀ a calls, d.request = some (a, calls) → a.fed = true) (hp : d.pipe.Enters d.count p) :
    Safe (log ++ [.entered d.count]) { d with pipe := p, count := d.count + 1 } := by
  have hnew : Fresh (log ++ [.entered d.count]) d.count := fresh_entered fun hmem => Nat.lt_irrefl _ (h.counted _ hmem)
  have hold : ∀ n ∈ d.pipe.upstream ∪ d.pipe.downstream, Fresh (log ++ [.entered d.count]) n ∧ n < d.count + 1 := fun n hn =>
    ⟨(h.within n hn).1.snoc nofun, Nat.lt_succ_of_lt (h.within n hn).2⟩
  refine ⟨fun n hn => ?_, fun n hn => ?_, fun ha => (h.enabled (hp.enabled.symm.trans ha)).snoc nofun,
    fun a calls hr hmem => (h.asking a calls hr hmem).snoc nofun, h.closes.enter hfed hp, h.silent.snoc fun _ he => nomatch he⟩
  · rcases hn with hn | hn
    · rcases hp.upstream hn with rfl | hn
      · exact ⟨hnew, Nat.lt_succ_self _⟩
      · exact hold n (.inl hn)
    · exact hold n (.inr (hp.downstream hn))
  · rcases List.mem_append.mp hn with hn | hn
    · exact Nat.lt_succ_of_lt (h.counted n hn)
    · cases List.mem_singleton.mp hn
      exact Nat.lt_succ_self _

/-- A call may clear the stages and the gates; it may open the gate behind them in an opening. -/
theorem Safe.call {a : Ask} {c : Pipeline.Call} {calls : List Pipeline.Call} (h : Safe log d)
    (hrequest : d.request = some (a, c :: calls)) (hdoes : c.Does d.pipe p) :
    Safe log { d with pipe := p, request := some (a, calls) } := by
  have hless : p.upstream ⊆ d.pipe.upstream ∧ p.downstream ⊆ d.pipe.downstream := by
    cases c with
    | start => exact ⟨hdoes.1, hdoes.2.2⟩
    | stop => exact ⟨hdoes.1.upstream ▸ Set.empty_subset _, hdoes.2.2⟩
    | enable => exact hdoes.2
    | disable => exact ⟨hdoes.2.1, hdoes.2.2.2 ▸ Set.empty_subset _⟩
  refine ⟨fun n hn => h.within n (Set.union_subset_union hless.1 hless.2 hn), h.counted, fun ha => ?_, fun a' calls' hr hmem => ?_,
    h.closes.call hrequest hdoes, h.silent⟩
  · cases c with
    | start => exact h.enabled (hdoes.2.1.symm.trans ha)
    | stop => exact h.enabled (hdoes.2.1.symm.trans ha)
    | enable => exact h.asking a _ hrequest List.mem_cons_self
    | disable => exact absurd (hdoes.2.2.1.symm.trans ha) Bool.false_ne_true
  · cases hr
    exact h.asking a _ hrequest (List.mem_cons_of_mem c hmem)

/-- The desk answers to a close: nothing is left behind it. -/
theorem Safe.close (h : Safe log d) (hfree : d.request = none) (hclosed : d.pipe.Closed) : Safe (log ++ [.closed]) d := by
  refine ⟨fun n hn => ?_, fun n hn => ?_, fun ha => absurd (hclosed.dry.enabled.symm.trans ha) Bool.false_ne_true,
    fun a calls hr => ?_, ?_, h.silent.snoc fun _ he => nomatch he⟩
  · rw [hclosed.dry.upstream, hclosed.dry.downstream, Set.union_empty] at hn
    exact absurd hn (Set.notMem_empty n)
  · rcases List.mem_append.mp hn with hn | hn
    · exact h.counted n hn
    · exact nomatch List.mem_singleton.mp hn
  · rw [hfree] at hr
    cases hr
  · unfold Closes
    rw [hfree]
    exact fun _ => hclosed

theorem safe_start (hpipe : d.pipe.Closed) (hrequest : d.request = none) : Safe [] d := by
  refine ⟨fun n hn => ?_, fun n hn => absurd hn List.not_mem_nil,
    fun ha => absurd (hpipe.dry.enabled.symm.trans ha) Bool.false_ne_true, fun a calls hr => ?_, ?_, silent_nil⟩
  · rw [hpipe.dry.upstream, hpipe.dry.downstream, Set.union_empty] at hn
    exact absurd hn (Set.notMem_empty n)
  · rw [hrequest] at hr
    cases hr
  · unfold Closes
    rw [hrequest]
    exact fun _ => hpipe

theorem Safe.step {entries : List Entry} (h : Safe log d) (hstep : Step d entries d') : Safe (log ++ entries) d' := by
  have hcloses := h.closes
  unfold Closes at hcloses
  cases hstep with
  | enter hfed hp => exact h.enter hfed hp
  | work hw => exact (List.append_nil log).symm ▸ h.work hw
  | leave henabled hitems hw => exact (h.leave henabled hitems).work hw
  | openAtOnce hfree hopened => exact h.note nofun nofun nofun
  | closeAtOnce hfree hopened =>
    rw [hfree] at hcloses
    exact h.close hfree (hcloses hopened)
  | opening hfree hopened =>
    rename_i works
    have hnote := h.note (e := .asked) nofun nofun nofun
    refine ⟨hnote.within, hnote.counted, hnote.enabled, fun _ _ _ _ => asked_snoc log, ?_, hnote.silent⟩
    rw [hfree] at hcloses
    cases works with
    | true => trivial
    | false => exact fun q hq => Pipeline.leads_giveUp _ q (hcloses hopened) hq
  | closing hfree =>
    rw [List.append_nil]
    refine ⟨h.within, h.counted, h.enabled, fun a calls hr hmem => ?_, fun q hq => Pipeline.leads_close _ q trivial hq, h.silent⟩
    cases hr
    exact absurd hmem (by decide)
  | call hrequest hdoes => exact (List.append_nil log).symm ▸ h.call hrequest hdoes
  | openReturns hrequest =>
    rename_i works
    rw [List.append_nil]
    refine ⟨h.within, h.counted, h.enabled, nofun, ?_, h.silent⟩
    rw [hrequest] at hcloses
    cases works with
    | true => exact fun hopened => nomatch hopened
    | false => exact fun _ => hcloses _ .done
  | closeReturns hrequest =>
    rw [hrequest] at hcloses
    have hclosed : d.pipe.Closed := hcloses _ .done
    have hrested : Safe log { d with opened := false, request := none } :=
      ⟨h.within, h.counted, h.enabled, nofun, fun _ => hclosed, h.silent⟩
    exact hrested.close rfl hclosed

theorem Trace.safe (h : Trace log d) : Safe log d := by
  induction h with
  | start hpipe hopened hrequest => exact safe_start hpipe hrequest
  | next _ hstep ih => exact ih.step hstep

/-- What leaves is what the law says. -/
theorem Trace.silent (h : Trace log d) : Silent log := h.safe.silent

/-! ### Several steps -/

theorem Trace.unseen (h : Trace log d) (hstep : Step d [] d') : Trace log d' := by
  have := h.next hstep
  rwa [List.append_nil] at this

/-- The stages work for a while. -/
theorem Trace.works {fed : Bool} (h : Trace log d) (hfed : fed = false) (hruns : Pipeline.Runs fed [] d.pipe p) :
    Trace log { d with pipe := p } := by
  generalize hpipe : d.pipe = q at hruns
  generalize hnil : ([] : List Pipeline.Call) = calls at hruns
  induction hruns generalizing d with
  | done =>
    subst hpipe
    exact h
  | work hw _ ih =>
    subst hpipe
    have hnext := ih (h.unseen (Step.work hw)) rfl hnil
    exact hnext
  | enter hyes _ _ _ => exact absurd (hfed.symm.trans hyes) Bool.false_ne_true
  | call _ _ _ => cases hnil

/-- Some of the calls are made. -/
theorem Trace.calls {fed : Bool} {a : Ask} {calls rest : List Pipeline.Call} (h : Trace log d) (hfed : fed = false)
    (hrequest : d.request = some (a, calls ++ rest)) (hruns : Pipeline.Runs fed calls d.pipe p) :
    Trace log { d with pipe := p, request := some (a, rest) } := by
  generalize hpipe : d.pipe = q at hruns
  induction hruns generalizing d with
  | done =>
    subst hpipe
    obtain ⟨pipe, opened, request, count⟩ := d
    obtain rfl : request = some (a, rest) := hrequest
    exact h
  | work hw _ ih =>
    subst hpipe
    have hnext := ih (h.unseen (Step.work hw)) hrequest rfl
    exact hnext
  | enter hyes _ _ _ => exact absurd (hfed.symm.trans hyes) Bool.false_ne_true
  | call hdoes _ ih =>
    subst hpipe
    have hnext := ih (h.unseen (Step.call hrequest hdoes)) rfl rfl
    exact hnext

end

end Desk

end SyncRtc
