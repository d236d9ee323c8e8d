import SyncRtc.Laws.Deadlock

/-!
# Shutdown drains the business layer

While anything is pending `Shutdown` waits, and the layer can go on. When nothing is pending the books are empty, and
stay so: the entries accept nothing any more, and only an operation could hand something on. Every step on the way
makes the work smaller, or leaves it and brings `Shutdown` or a thread of a pool further.
-/

set_option autoImplicit false

namespace SyncRtc.LogicSystem

open SerialCommandQueue

variable [PoolSizes] {σ σ' : LogicSystem} {i : Nat} {p : PoolName}

/-! ## The call of Shutdown -/

/-- `m_stopping`, and where `Shutdown` is. -/
def halt (σ : LogicSystem) : Bool × Option Shutdown := (σ.stopping, σ.shutdown)

section Halt

omit [PoolSizes]

theorem halt_submit {job : Job} {done : Option Completion} {bytes : Nat} (h : σ.submit i job done bytes = some σ') :
    σ'.halt = σ.halt := by
  unfold submit at h
  split at h
  swap
  · cases h
  split at h
  · cases h
  · cases h
    rfl

theorem halt_submitRoom {m : MeetingId} {task : Task} {done : Option Completion} {bytes : Nat}
    (h : σ.submitRoom m task done bytes = some σ') : σ'.halt = σ.halt := by
  unfold submitRoom at h
  split at h
  · exact halt_submit h
  · exact (halt_submit h).trans rfl

theorem halt_submitConnection (s : SessionId) (command : Command) (bytes : Nat) :
    (σ.submitConnection s command bytes).halt = σ.halt := by
  unfold submitConnection
  dsimp only
  split
  · split
    · next hsubmit => exact halt_submit hsubmit
    · split <;> rfl
  · split
    · next hsubmit => exact (halt_submit hsubmit).trans rfl
    · rfl

theorem halt_onIdle (vacant : Bool) : (σ.onIdle i vacant).halt = σ.halt := by
  unfold onIdle
  repeat' split
  all_goals rfl

theorem halt_runHandler {vacant : Bool} (h : σ.runHandler i vacant = some σ') : σ'.halt = σ.halt := by
  unfold runHandler at h
  dsimp only at h
  split at h
  swap
  · cases h
  split at h
  · cases h
  · cases h
    rfl
  · cases h
    rfl
  · cases h
    exact halt_onIdle vacant

theorem halt_runThread {n : Nat} {o : Oracle} (h : σ.runThread p n o = some σ') : σ'.halt = σ.halt := by
  unfold runThread at h
  dsimp only at h
  split at h <;> cases h <;> rfl

theorem halt_callSubmitRoom (op : Operation) (m : MeetingId) (task : Task) (k : Bool → Op Unit) :
    (σ.callSubmitRoom i op m task k).halt = σ.halt := by
  unfold callSubmitRoom
  split
  · split
    · rfl
    · unfold handOver
      split
      · next σ' hsubmit =>
        have hrooms : σ'.halt = σ.halt := halt_submitRoom hsubmit
        exact hrooms
      · rfl
  · split
    · next σ' hsubmit =>
      have hrooms : σ'.halt = σ.halt := halt_submitRoom hsubmit
      exact hrooms
    · rfl

end Halt

theorem halt_run (op : Operation) (o : Oracle) (chosen : Nat) (body : Op Unit) :
    (σ.run i op o chosen body).halt = σ.halt := by
  unfold run
  split
  · unfold finish
    split
    · rfl
    · split <;> rfl
  · split
    · split
      · unfold enter await
        split
        · rfl
        · split <;> rfl
      · unfold reserve
        split
        · rfl
        · split <;> rfl
    · unfold proceed
      split
      · exact halt_callSubmitRoom op _ _ _
      · rfl

theorem halt_stepOp {o : Oracle} {chosen : Nat} (h : σ.stepOp i o chosen = some σ') : σ'.halt = σ.halt := by
  unfold stepOp at h
  split at h
  · cases h
  next op _ =>
  split at h
  · cases h
    exact halt_run op o chosen _
  · split at h
    · unfold retry at h
      split at h <;> cases h
      rfl
    · cases h
  · cases h
  · cases h
    rfl
  · cases h
    rfl

/-- Once `Shutdown` has been called `m_stopping` stays set, and the call is under way or has returned. -/
theorem called_step {e : Event} (hstep : σ.step e = some σ') :
    (σ.stopping = true → σ'.stopping = true) ∧ (σ.shutdown ≠ none → σ'.shutdown ≠ none) := by
  have hsame (h : σ'.halt = σ.halt) :
      (σ.stopping = true → σ'.stopping = true) ∧ (σ.shutdown ≠ none → σ'.shutdown ≠ none) := by
    obtain ⟨hstopping, hshutdown⟩ := Prod.mk.inj h
    rw [hstopping, hshutdown]
    exact ⟨id, id⟩
  cases e with
  | frame s r bytes =>
    cases hstep
    refine hsame ?_
    unfold postMsgToQue
    split
    · rfl
    · exact halt_submitConnection s _ bytes
  | disconnected s =>
    cases hstep
    refine hsame ?_
    unfold postMsgToQue
    split
    · rfl
    · exact halt_submitConnection s _ 0
  | timer =>
    cases hstep
    refine hsame ?_
    unfold postReconnectTimeoutCheck
    split
    · rfl
    · cases hsubmit : σ.submit 1 .timer none 0 with
      | none => rfl
      | some σ' => exact halt_submit hsubmit
  | media event epoch message bytes =>
    cases hstep
    refine hsame ?_
    unfold postMediaEvent
    split
    · rfl
    · split
      · next hsubmit => exact halt_submit hsubmit
      · rfl
  | outside server =>
    cases hstep
    exact hsame rfl
  | shutdown =>
    have hcall : σ.callShutdown = some σ' := hstep
    unfold callShutdown at hcall
    split at hcall <;> cases hcall <;> exact ⟨fun _ => rfl, fun _ => Option.some_ne_none _⟩
  | handler i vacant =>
    simp only [step] at hstep
    split at hstep
    · exact hsame (halt_runHandler hstep)
    · cases hstep
  | step i o chosen =>
    simp only [step] at hstep
    split at hstep
    · exact hsame (halt_stepOp hstep)
    · cases hstep
  | release i =>
    simp only [step, release] at hstep
    split at hstep
    · split at hstep
      · cases hstep
      · cases hstep
        refine ⟨id, fun hcalled => ?_⟩
        dsimp only
        split
        · rcases wakeIdle_cases σ.shutdown with ⟨hwake, -⟩ | ⟨-, hwake⟩
          · rwa [hwake]
          · simp [hwake]
        · exact hcalled
    · cases hstep
  | thread p n o =>
    simp only [step] at hstep
    split at hstep
    · exact hsame (halt_runThread hstep)
    · cases hstep
  | join =>
    have hjoin : σ.join = some σ' := hstep
    unfold join at hjoin
    split at hjoin
    · split at hjoin <;> cases hjoin <;> exact ⟨id, fun _ => Option.some_ne_none _⟩
    · split at hjoin <;> cases hjoin
      exact ⟨id, fun _ => Option.some_ne_none _⟩
    · split at hjoin <;> cases hjoin
      exact ⟨id, fun _ => Option.some_ne_none _⟩
    · cases hjoin

/-! ## Nothing is left when nothing is pending -/

/-- No handler and no operation is on a strand, no command waits, and no slow step is in a pool. -/
structure Quiet (σ : LogicSystem) : Prop where
  strand : ∀ i < σ.nextQueue, (σ.queues i).strand = []
  commands : ∀ i < σ.nextQueue, (σ.queues i).commands = []
  active : ∀ i < σ.nextQueue, (σ.queues i).active = none
  releasing : ∀ i < σ.nextQueue, (σ.queues i).releasing = none
  tasks : ∀ p, (σ.pools p).tasks = []
  working : ∀ p, ∀ n < p.threads, ∀ t, (σ.pools p).threads n ≠ .working t
  finished : (σ.finished : Multiset Job) = σ.accepted

/-- What is not counted itself resumes an operation, which is. -/
theorem items_of_pending (h : σ.Kept) (hpending : σ.scheduler.pending = 0) : σ.items = 0 := by
  have hcounted (x : Item) (hx : x ∈ σ.items) : x.counted ≠ 1 := fun hone => pending_of_item h.sound hx hone hpending
  refine Multiset.eq_zero_of_forall_notMem fun x hx => ?_
  have hwake (w : Suspension) (hw : w ∈ x.wakes) : False := by
    obtain ⟨hi, op, hop, -⟩ := suspended_of_wake h.sound hx hw
    exact hcounted _ (mem_operation.mpr ⟨hi, hop⟩) rfl
  cases x with
  | entry e queued => exact hcounted _ hx rfl
  | operation i op => exact hcounted _ hx rfl
  | promised c => exact hwake c.wait (Multiset.mem_singleton_self _)
  | slow t taken => exact hwake t.wait (Multiset.mem_singleton_self _)
  | ready c left => exact hwake c.wait (Multiset.mem_singleton_self _)
  | closing begun => exact hcounted _ hx rfl

omit [PoolSizes] in
theorem refused_of_stopping (hstopping : σ.stopping = true) (s : SessionId) (command : Command) (bytes : Nat) :
    σ.postMsgToQue s command bytes = σ := if_pos hstopping

/-- After the call of `Shutdown` the entries accept nothing. -/
theorem entry_of_stopping (hstopping : σ.stopping = true) {e : Event} (he : e.isEntry = true)
    (hstep : σ.step e = some σ') : σ' = σ := by
  cases e with
  | frame s r bytes => exact (Option.some.inj hstep).symm.trans (refused_of_stopping hstopping s _ bytes)
  | disconnected s => exact (Option.some.inj hstep).symm.trans (refused_of_stopping hstopping s _ 0)
  | timer => exact (Option.some.inj hstep).symm.trans (if_pos (.inl hstopping))
  | media event epoch message bytes => exact (Option.some.inj hstep).symm.trans (if_pos hstopping)
  | _ => cases he

omit [PoolSizes] in
theorem not_step_of_nothing {b b' : Books} (hnone : b.items = 0) : ¬ b.Step b' := by
  intro h
  cases h <;> exact Multiset.cons_ne_zero hnone

/-- When nothing is pending after the call, nothing will be. -/
theorem pending_step (h : σ.Kept) (hstopping : σ.stopping = true) (hpending : σ.scheduler.pending = 0) {e : Event}
    (hstep : σ.step e = some σ') : σ'.scheduler.pending = 0 := by
  have hbooks : σ'.books = σ.books := by
    cases he : e.isInner with
    | true =>
      rcases inner_books h.sound h.orderly.addressed he hstep with hmove | ⟨hsame, -⟩
      · obtain ⟨b, hfirst, -⟩ := Relation.TransGen.head'_iff.mp hmove
        exact (not_step_of_nothing (items_of_pending h hpending) hfirst).elim
      · exact hsame
    | false =>
      have hentry (hisEntry : e.isEntry = true) : σ'.books = σ.books := by
        rw [entry_of_stopping hstopping hisEntry hstep]
      cases e with
      | outside server =>
        cases hstep
        rfl
      | shutdown =>
        have hcall : σ.callShutdown = some σ' := hstep
        unfold callShutdown at hcall
        split at hcall <;> cases hcall <;> rfl
      | frame s r bytes => exact hentry rfl
      | disconnected s => exact hentry rfl
      | timer => exact hentry rfl
      | media event epoch message bytes => exact hentry rfl
      | _ => cases he
  exact (congrArg Books.pending hbooks).trans hpending

/-! ## What has been accepted -/

omit [PoolSizes] in
theorem accepted_of_step {b b' : Books} (h : b.Step b') : b.accepted ≤ b'.accepted := by
  cases h with
  | hand i op m task k bytes => exact Multiset.le_cons_self _ _
  | spawn i op m task k bytes => exact Multiset.le_cons_self _ _
  | _ => exact le_refl _

omit [PoolSizes] in
theorem accepted_of_steps {b b' : Books} (h : Relation.TransGen Books.Step b b') : b.accepted ≤ b'.accepted := by
  induction h with
  | single h => exact accepted_of_step h
  | tail _ h ih => exact ih.trans (accepted_of_step h)

omit [PoolSizes] in
theorem accepted_of_admit {b b' : Books} (h : Books.Admit b b') : b.accepted ≤ b'.accepted := by
  cases h
  exact Multiset.le_cons_self _ _

theorem accepted_step (h : σ.Kept) {e : Event} (hstep : σ.step e = some σ') :
    (σ.accepted : Multiset Job) ≤ σ'.accepted := by
  have hsame (hbooks : σ'.books = σ.books) : (σ.accepted : Multiset Job) ≤ σ'.accepted :=
    (congrArg Books.accepted hbooks).ge
  cases he : e.isInner with
  | true =>
    rcases inner_books h.sound h.orderly.addressed he hstep with hmove | ⟨hbooks, -⟩
    · exact accepted_of_steps hmove
    · exact hsame hbooks
  | false =>
    rcases outer_books h.orderly.addressed he hstep with hbooks | hadmit
    · exact hsame hbooks
    · exact accepted_of_admit hadmit

/-! ## What is outstanding -/

/-- How far `Shutdown` is from its return. -/
def remaining : Option Shutdown → Nat
  | some .looking => 4
  | some .blocked => 3
  | some (.joining .storage) => 2
  | some (.joining .ai) => 1
  | _ => 0

/-- The work of the books, the way of `Shutdown`, and the threads that look for a slow step. -/
noncomputable def outstanding (σ : LogicSystem) : Multiset Token × Nat × Nat :=
  (σ.items.bind Books.tokens, remaining σ.shutdown, ∑ p ∈ PoolName.all, (σ.pools p).looking p)

/-- Less work, or as much and the end is nearer. -/
def Nearer : Multiset Token × Nat × Nat → Multiset Token × Nat × Nat → Prop :=
  Prod.Lex (Relation.TransGen (Relation.CutExpand Token.Less)) (Prod.Lex (· < ·) (· < ·))

omit [PoolSizes] in
theorem nearer_wellFounded : WellFounded Nearer :=
  WellFounded.prod_lex Token.less_wellFounded.cutExpand.transGen
    (WellFounded.prod_lex Nat.lt_wfRel.wf Nat.lt_wfRel.wf)

omit [PoolSizes] in
theorem steps_descend {b b' : Books} (h : Relation.TransGen Books.Step b b') :
    Relation.TransGen (Relation.CutExpand Token.Less) (b'.items.bind Books.tokens) (b.items.bind Books.tokens) := by
  induction h with
  | single h => exact .single (Books.step_descends h)
  | tail _ h ih => exact .head (Books.step_descends h) ih

theorem remaining_join (hstep : σ.join = some σ') : remaining σ'.shutdown < remaining σ.shutdown := by
  unfold join at hstep
  split at hstep
  · next hstage =>
    rw [hstage]
    split at hstep <;> cases hstep <;> simp [remaining]
  · next hstage =>
    rw [hstage]
    split at hstep <;> cases hstep
    simp [remaining]
  · next hstage =>
    rw [hstage]
    split at hstep <;> cases hstep
    simp [remaining]
  · cases hstep

/-- A thread that finds nothing to do looks no longer. -/
theorem looking_look {pool : SlowPool} {n : Nat} (hn : n < p.threads) (hthread : pool.threads n = .looking)
    (htasks : pool.tasks = []) : (pool.look n).looking p < pool.looking p := by
  obtain ⟨rest, hbefore, hset⟩ := looking_setThread pool hn
  rw [hthread] at hbefore
  unfold SlowPool.look
  simp only [htasks]
  rw [hset, hbefore]
  split <;> simp [PoolThread.looks]

theorem nearer_inner (h : σ.Kept) {e : Event} (he : e.isInner = true) (hstep : σ.step e = some σ') :
    Nearer σ'.outstanding σ.outstanding := by
  rcases inner_books h.sound h.orderly.addressed he hstep with hbooks | ⟨hbooks, hidle⟩
  · exact .left _ _ (steps_descend hbooks)
  have hitems : σ'.items = σ.items := congrArg Books.items hbooks
  unfold outstanding
  rw [hitems]
  refine .right _ ?_
  rcases hidle with hjoin | ⟨p, n, hn, hthread, htasks, rfl⟩
  · exact .left _ _ (remaining_join hjoin)
  · refine .right _ ?_
    obtain ⟨rest, hbefore, hset⟩ := sum_exchange (f := σ.pools) (fun q pool => pool.looking q) p.mem_all
    have hafter : ∑ q ∈ PoolName.all, ((σ.setPool p ((σ.pools p).look n)).pools q).looking q =
        ((σ.pools p).look n).looking p + rest := hset _
    rw [hafter, hbefore]
    exact Nat.add_lt_add_right (looking_look hn hthread htasks) rest

/-- `Shutdown` has been called and has not returned. -/
def Halts (σ : LogicSystem) : Prop := σ.shutdown ≠ none ∧ σ.shutdown ≠ some .returned

/-- Meanwhile nobody outside changes what is outstanding. -/
theorem outstanding_outer (h : σ.Kept) (hhalts : σ.Halts) {e : Event} (he : e.isInner = false)
    (hstep : σ.step e = some σ') : σ'.outstanding = σ.outstanding := by
  have hstopping := h.orderly.halting.called hhalts.1
  have hentry (hisEntry : e.isEntry = true) : σ'.outstanding = σ.outstanding := by
    rw [entry_of_stopping hstopping hisEntry hstep]
  cases e with
  | outside server =>
    cases hstep
    rfl
  | shutdown =>
    have hcall : σ.callShutdown = some σ' := hstep
    unfold callShutdown at hcall
    split at hcall
    · next hnone => exact absurd hnone hhalts.1
    · next hreturned => exact absurd hreturned hhalts.2
    · cases hcall
  | frame s r bytes => exact hentry rfl
  | disconnected s => exact hentry rfl
  | timer => exact hentry rfl
  | media event epoch message bytes => exact hentry rfl
  | _ => cases he

/-- And somebody inside can go on. -/
theorem enabled_of_halts (h : σ.Kept) (hhalts : σ.Halts) : ∃ e σ', e.isInner = true ∧ σ.step e = some σ' := by
  have hhalting := h.orderly.halting
  have hthread {p : PoolName} (hstopping : (σ.pools p).stopping = true) (hjoined : ¬ (σ.pools p).isJoined p = true) :
      ∃ e σ', e.isInner = true ∧ σ.step e = some σ' := by
    have hleft : ∃ n < p.threads, (σ.pools p).threads n ≠ .returned := by
      by_contra hnone
      push Not at hnone
      exact hjoined (isJoined_iff.mpr hnone)
    obtain ⟨n, hn, hleft⟩ := hleft
    have hsome : ∃ σ', σ.runThread p n {} = some σ' := by
      unfold runThread
      dsimp only
      cases hcase : (σ.pools p).threads n with
      | returned => exact absurd hcase hleft
      | blocked => exact absurd (((h.orderly.pools p).blocked n hn hcase).1.symm.trans hstopping) (by simp)
      | _ => exact ⟨_, rfl⟩
    obtain ⟨σ', hstep⟩ := hsome
    refine ⟨.thread p n {}, σ', rfl, ?_⟩
    simp only [step, if_pos hn, hstep]
  have hjoin (hsome : σ.join.isSome = true) : ∃ e σ', e.isInner = true ∧ σ.step e = some σ' := by
    obtain ⟨σ', hstep⟩ := Option.isSome_iff_exists.mp hsome
    exact ⟨.join, σ', rfl, hstep⟩
  cases hstage : σ.shutdown with
  | none => exact absurd hstage hhalts.1
  | some stage =>
    cases stage with
    | looking =>
      refine hjoin ?_
      unfold join
      simp only [hstage]
      split <;> rfl
    | blocked =>
      obtain ⟨e, σ', hinner, hstep, -⟩ := moves_of_pending h (hhalting.blocked hstage)
      exact ⟨e, σ', hinner, hstep⟩
    | joining p =>
      by_cases hjoined : (σ.pools p).isJoined p = true
      · refine hjoin ?_
        unfold join
        cases p <;> simp [hstage, hjoined]
      · exact hthread (hhalting.joining p hstage) hjoined
    | returned => exact absurd hstage hhalts.2

/-! ## Runs -/

/-- A run of the business layer. It never ends, since the outside may leave everything as it is. -/
structure Run where
  state : Nat → LogicSystem
  event : Nat → Event
  first : ∃ server aiStub, state 0 = start server aiStub
  next : ∀ n, (state n).step (event n) = some (state (n + 1))

namespace Run

/-- Whenever somebody inside can go on, somebody does in the end. That a slow step returns is part of it. -/
def Fair (run : Run) : Prop :=
  ∀ n, (∃ e σ', e.isInner = true ∧ (run.state n).step e = some σ') → ∃ m, n ≤ m ∧ (run.event m).isInner = true

/-- Every reachable state is on a run. -/
theorem through (h : σ.Reachable) : ∃ (run : Run) (n : Nat), run.state n = σ := by
  obtain ⟨server, aiStub, hreach⟩ := h
  induction hreach with
  | start => exact ⟨⟨fun _ => start server aiStub, fun _ => .outside server, ⟨server, aiStub, rfl⟩, fun _ => rfl⟩, 0, rfl⟩
  | @next σ σ' e _ _ hstep ih =>
    obtain ⟨run, n, hn⟩ := ih
    let state : Nat → LogicSystem := fun k => if k ≤ n then run.state k else σ'
    let event : Nat → Event := fun k => if k < n then run.event k else if k = n then e else .outside σ'.server
    have hnext (k : Nat) : (state k).step (event k) = some (state (k + 1)) := by
      rcases Nat.lt_trichotomy k n with hlt | rfl | hgt
      · simp only [state, event, if_pos hlt.le, if_pos hlt, if_pos (Nat.succ_le_of_lt hlt)]
        exact run.next k
      · simp only [state, event, le_refl, if_true, lt_irrefl, if_false, Nat.not_succ_le_self]
        rw [hn]
        exact hstep
      · simp only [state, event, if_neg hgt.not_ge, if_neg hgt.not_gt, if_neg hgt.ne', if_neg (Nat.lt_succ_of_lt hgt).not_ge]
        rfl
    exact ⟨⟨state, event, run.first, hnext⟩, n + 1, if_neg (Nat.not_succ_le_self n)⟩

variable (run : Run)

theorem kept (n : Nat) : (run.state n).Kept := by
  induction n with
  | zero =>
    obtain ⟨server, aiStub, hfirst⟩ := run.first
    rw [hfirst]
    exact ⟨sound_start server aiStub, orderly_start server aiStub⟩
  | succ n ih => exact ih.step (run.next n)

theorem called {n m : Nat} (hle : n ≤ m) :
    ((run.state n).stopping = true → (run.state m).stopping = true) ∧
      ((run.state n).shutdown ≠ none → (run.state m).shutdown ≠ none) := by
  induction m, hle using Nat.le_induction with
  | base => exact ⟨id, id⟩
  | succ m _ ih =>
    have hstep := called_step (run.next m)
    exact ⟨hstep.1 ∘ ih.1, hstep.2 ∘ ih.2⟩

theorem pending {n m : Nat} (hle : n ≤ m) (hstopping : (run.state n).stopping = true)
    (hpending : (run.state n).scheduler.pending = 0) : (run.state m).scheduler.pending = 0 := by
  induction m, hle using Nat.le_induction with
  | base => exact hpending
  | succ m hle ih => exact pending_step (run.kept m) ((run.called hle).1 hstopping) ih (run.next m)

theorem accepted {n m : Nat} (hle : n ≤ m) : ((run.state n).accepted : Multiset Job) ≤ (run.state m).accepted := by
  induction m, hle using Nat.le_induction with
  | base => exact le_refl _
  | succ m _ ih => exact ih.trans (accepted_step (run.kept m) (run.next m))

/-- A call of `Shutdown` returns. -/
theorem returned (hfair : run.Fair) {n : Nat} (hcalled : (run.state n).shutdown ≠ none) :
    ∃ m, n ≤ m ∧ (run.state m).shutdown = some .returned := by
  have hhalts (k : Nat) (hleft : (run.state (n + k)).shutdown ≠ some .returned) : (run.state (n + k)).Halts :=
    ⟨(run.called (Nat.le_add_right n k)).2 hcalled, hleft⟩
  have hreturns : ∃ k, (run.state (n + k)).shutdown = some .returned := by
    let works : Nat → Prop := fun k => (run.event (n + k)).isInner = true
    let done : LogicSystem → Prop := fun σ => σ.shutdown = some .returned
    refine @done_of_descent _ _ Nearer outstanding (fun k => run.state (n + k)) works done nearer_wellFounded ?_ ?_ ?_
    · intro k _ hworks
      exact nearer_inner (run.kept _) hworks (run.next (n + k))
    · intro k hleft hidle
      exact outstanding_outer (run.kept _) (hhalts k hleft) (Bool.eq_false_of_not_eq_true hidle) (run.next (n + k))
    · intro k hleft
      obtain ⟨m, hle, hworks⟩ := hfair (n + k) (enabled_of_halts (run.kept _) (hhalts k hleft))
      have hm : n + (m - n) = m := by omega
      exact ⟨m - n, by omega, show (run.event (n + (m - n))).isInner = true by rwa [hm]⟩
  obtain ⟨k, hk⟩ := hreturns
  exact ⟨n + k, Nat.le_add_right n k, hk⟩

end Run

end SyncRtc.LogicSystem

namespace SyncRtc.LogicSystem.Run

/-- `Shutdown` at the start: the six threads of the pools return, and then `Shutdown` does. -/
def closes : List Event :=
  .shutdown :: .join :: (List.range 4).map (fun n => .thread .storage n {}) ++
    .join :: (List.range 2).map (fun n => .thread .ai n {}) ++ [.join]

end SyncRtc.LogicSystem.Run
