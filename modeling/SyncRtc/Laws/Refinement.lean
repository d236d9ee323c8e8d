import SyncRtc.Laws.Showing

/-!
# The business layer refines the serial server

Every step of the business layer is no step of the serial server, or one: a queue that starts its next command, an
answered call, a slow step that returns, a task that a room takes. The rest is how the scheduler gets there, and shows
nothing (`follows_inner`). With the I/O thread around it (`Process`) the two have the same runs, as far as the data
goes: sessions, rooms, stores, and what has been sent.
-/

set_option autoImplicit false

namespace SyncRtc

open SerialCommandQueue

namespace LogicSystem

variable [PoolSizes] {σ τ σ' : LogicSystem} {S S' : Server} {i : Nat} {p : PoolName} {owed : Thread → List Job}
  {op op' : Operation}

/-! ## Items of a changed state -/

section Mem

variable {x : Item}

theorem mem_setQueue {queue : SerialCommandQueue} (hx : x ∈ (σ.setQueue i queue).items) :
    x ∈ queue.items i ∨ x ∈ σ.items := by
  rcases mem_items.mp hx with ⟨j, hj, hqueue⟩ | hpool
  · rw [queues_setQueue] at hqueue
    split at hqueue
    · next heq => exact .inl (heq ▸ hqueue)
    · exact .inr (mem_items.mpr (.inl ⟨j, hj, hqueue⟩))
  · exact .inr (mem_items.mpr (.inr hpool))

theorem mem_setPool {pool : SlowPool} (hx : x ∈ (σ.setPool p pool).items) : x ∈ pool.items p ∨ x ∈ σ.items := by
  rcases mem_items.mp hx with hqueue | ⟨q, hq⟩
  · exact .inr (mem_items.mpr (.inl hqueue))
  · simp only [setPool, Function.update_apply] at hq
    split at hq
    · next heq => exact .inl (heq ▸ hq)
    · exact .inr (mem_items.mpr (.inr ⟨q, hq⟩))

theorem mem_samePool {pool : SlowPool} (hpool : pool.items p = (σ.pools p).items p)
    (hx : x ∈ (σ.setPool p pool).items) : x ∈ σ.items := by
  rcases mem_setPool hx with hx | hx
  · rw [hpool] at hx
    exact mem_items.mpr (.inr ⟨p, hx⟩)
  · exact hx

/-- What stands in a queue that has one more handler. -/
theorem mem_post {h : Posted} (hx : x ∈ ((σ.queues i).post h).items i) (hi : i < σ.nextQueue) :
    x ∈ h.items ∨ x ∈ σ.items := by
  have hold : x ∈ (σ.queues i).items i → x ∈ σ.items := fun hmem => mem_items.mpr (.inl ⟨i, hi, hmem⟩)
  rcases mem_queue.mp hx with ⟨y, hy, hxy⟩ | hrest
  · rcases List.mem_append.mp hy with hy | hy
    · exact .inr (hold (mem_queue.mpr (.inl ⟨y, hy, hxy⟩)))
    · obtain rfl := List.mem_singleton.mp hy
      exact .inl hxy
  · exact .inr (hold (mem_queue.mpr (.inr hrest)))

theorem mem_complete {c : Completion} (hc : c.wait.queue < σ.nextQueue) (hx : x ∈ (σ.complete c).items) :
    x = .ready c 0 ∨ x ∈ σ.items := by
  rcases mem_setQueue hx with hx | hx
  · exact (mem_post hx hc).imp_left Multiset.mem_singleton.mp
  · exact .inr hx

/-- An operation goes on with the same entry, or without its `done`. -/
theorem mem_setOp (hi : i < σ.nextQueue) (hop : (σ.queues i).active = some op)
    (hdone : op'.entry.done = op.entry.done ∨ op'.entry.done = none) (hx : x ∈ (σ.setOp i op').items) :
    x = .operation i op' ∨ x ∈ σ.items := by
  have hold : x ∈ (σ.queues i).items i → x ∈ σ.items := fun hmem => mem_items.mpr (.inl ⟨i, hi, hmem⟩)
  rcases mem_setQueue hx with hx | hx
  swap
  · exact .inr hx
  rcases mem_queue.mp hx with hstrand | hcommands | ⟨op'', hop'', hx⟩ | hreleasing
  · exact .inr (hold (mem_queue.mpr (.inl hstrand)))
  · exact .inr (hold (mem_queue.mpr (.inr (.inl hcommands))))
  · cases hop''
    rcases Multiset.mem_cons.mp hx with rfl | hpromise
    · exact .inl rfl
    · refine .inr (hold (mem_queue.mpr (.inr (.inr (.inl ⟨op, hop, Multiset.mem_cons_of_mem ?_⟩)))))
      rcases hdone with hdone | hdone
      · rwa [Entry.promise, ← hdone]
      · rw [Entry.promise, hdone] at hpromise
        exact absurd hpromise (Multiset.notMem_zero x)
  · exact .inr (hold (mem_queue.mpr (.inr (.inr (.inr hreleasing)))))

end Mem

/-! ## The same commands -/

/-- The same commands wait and are carried out. -/
structure Keeps (σ σ' : LogicSystem) : Prop where
  owners : σ'.owners = σ.owners
  nextQueue : σ'.nextQueue = σ.nextQueue
  current : ∀ j, (σ'.queues j).current = (σ.queues j).current
  waiting : ∀ j, (σ'.queues j).waiting = (σ.queues j).waiting

section Keeps

omit [PoolSizes]

theorem Keeps.trans (h : Keeps σ τ) (h' : Keeps τ σ') : Keeps σ σ' where
  owners := h'.owners.trans h.owners
  nextQueue := h'.nextQueue.trans h.nextQueue
  current j := (h'.current j).trans (h.current j)
  waiting j := (h'.waiting j).trans (h.waiting j)

theorem keeps_queues (howners : σ'.owners = σ.owners) (hnext : σ'.nextQueue = σ.nextQueue)
    (hqueues : σ'.queues = σ.queues) : Keeps σ σ' :=
  ⟨howners, hnext, fun j => by rw [hqueues], fun j => by rw [hqueues]⟩

theorem keeps_setQueue {queue : SerialCommandQueue} (hcurrent : queue.current = (σ.queues i).current)
    (hwaiting : queue.waiting = (σ.queues i).waiting) : Keeps σ (σ.setQueue i queue) := by
  refine ⟨rfl, rfl, fun j => ?_, fun j => ?_⟩
  · rw [queues_setQueue]
    split
    · next heq => rw [heq, hcurrent]
    · rfl
  · rw [queues_setQueue]
    split
    · next heq => rw [heq, hwaiting]
    · rfl

theorem keeps_setOp (hop : (σ.queues i).active = some op) (hentry : op'.entry = op.entry) (hover : op.isOver = false)
    (hover' : op'.isOver = false) : Keeps σ (σ.setOp i op') := by
  have hsame := same_setActive hop hentry hover hover'
  exact keeps_setQueue hsame.current hsame.waiting

theorem keeps_complete (σ : LogicSystem) (c : Completion) : Keeps σ (σ.complete c) :=
  keeps_setQueue (same_post _ c).current (same_post _ c).waiting

theorem keeps_setPool (σ : LogicSystem) (p : PoolName) (pool : SlowPool) : Keeps σ (σ.setPool p pool) :=
  keeps_queues rfl rfl rfl

theorem Keeps.before (h : Keeps σ σ') : σ'.before = σ.before :=
  funext fun _ => before_congr h.nextQueue h.owners fun j _ => h.waiting j

theorem Keeps.unended (h : Keeps σ σ') (j : Nat) : (σ'.queues j).unended = (σ.queues j).unended := by
  rw [SerialCommandQueue.unended, h.current, h.waiting, SerialCommandQueue.unended]

end Keeps

/-- One queue changes, and what no queue or pool holds. -/
structure Alters (σ σ' : LogicSystem) (i : Nat) (queue : SerialCommandQueue) : Prop where
  queues : σ'.queues = Function.update σ.queues i queue
  owners : σ'.owners = σ.owners
  nextQueue : σ'.nextQueue = σ.nextQueue
  pools : σ'.pools = σ.pools
  server : σ'.server = σ.server

section Alters

variable {queue : SerialCommandQueue}

omit [PoolSizes] in
theorem Alters.self (h : Alters σ σ' i queue) : σ'.queues i = queue := by
  rw [h.queues, Function.update_self]

omit [PoolSizes] in
theorem Alters.other (h : Alters σ σ' i queue) {j : Nat} (hj : j ≠ i) : σ'.queues j = σ.queues j := by
  rw [h.queues, Function.update_of_ne hj]

theorem Alters.mem (h : Alters σ σ' i queue) {x : Item} (hx : x ∈ σ'.items) : x ∈ queue.items i ∨ x ∈ σ.items := by
  have hitems : σ'.items = (σ.setQueue i queue).items := by
    unfold items
    rw [h.queues, h.nextQueue, h.pools]
    rfl
  rw [hitems] at hx
  exact mem_setQueue hx

omit [PoolSizes] in
theorem Alters.keeps (h : Alters σ σ' i queue) (hcurrent : queue.current = (σ.queues i).current)
    (hwaiting : queue.waiting = (σ.queues i).waiting) : Keeps σ σ' :=
  (keeps_setQueue hcurrent hwaiting).trans (keeps_queues h.owners h.nextQueue h.queues)

end Alters

/-- A step of the scheduler that keeps the commands and moves no thread. -/
theorem Shows.keeps (hσ : σ.Kept) (hσ' : σ'.Kept) (hr : σ.Registry) (h : σ.Shows owed S) (hkeeps : Keeps σ σ')
    (hserver : σ'.server = σ.server)
    (hitem : ∀ x ∈ σ'.items, x ∈ σ.items ∨ x.Shown S σ.owners) : σ'.Shows owed S := by
  refine h.still hσ hσ' hr ⟨rfl, rfl⟩ (fun j _ => congrFun hkeeps.owners j) (fun j => .inl (hkeeps.current j)) ?_
    (h.data.trans hserver.symm) (fun t ht => ?_) fun j e he => ?_
  · intro x hx j _
    rw [hkeeps.owners]
    exact hitem x hx
  · rw [hkeeps.before]
    exact h.line t ht
  · rw [hkeeps.owners]
    rw [hkeeps.unended] at he
    exact h.filed j e he

/-- A step that keeps the commands, and moves the thread of the operation on queue `i`. -/
theorem Shows.keepsMove (hσ : σ.Kept) (hr : σ.Registry) (h : σ.Shows owed S) (hkeeps : Keeps σ σ')
    (hop : (σ.queues i).active = some op) (hover : op.isOver = false)
    (hfree : ∀ c, .promised c ∈ σ.items → c.wait.queue ≠ i) {body : Option (Op Unit)}
    (hmoved : Moved S S' (σ.owners i) op.entry.job body)
    (hitem : ∀ x ∈ σ'.items, ∀ j ≠ i, x.queue? = some j → x ∈ σ.items)
    (hshown : ∀ x ∈ σ'.items, x.queue? = some i → x.Shown S' σ.owners) (hdata : S'.bare = σ'.server)
    (hline : S'.line = S.line) : σ'.Shows owed S' := by
  have hcurrent := current_of_active hop hover
  have he : op.entry ∈ (σ.queues i).unended := by
    rw [SerialCommandQueue.unended, hcurrent]
    exact List.mem_cons_self
  refine h.move hσ hr he hfree hmoved (fun j _ => congrFun hkeeps.owners j) (fun j _ => hkeeps.current j)
    ((hkeeps.current i).trans hcurrent) hitem ?_ hdata (fun t ht => ?_) fun j e he => ?_
  · rw [hkeeps.owners]
    exact hshown
  · rw [hline, hkeeps.before]
    exact h.line t ht
  · rw [hkeeps.owners]
    rw [hkeeps.unended] at he
    exact h.filed j e he

/-! ## A step of an operation -/

/-- A state of each of the two, and all that is known of them. -/
structure Paired (σ : LogicSystem) (owed : Thread → List Job) (S : Server) : Prop where
  kept : σ.Kept
  registry : σ.Registry
  prompt : Prompt S
  wired : Wired False none S
  shows : σ.Shows owed S
  /-- The I/O thread submits nothing to a room. -/
  owed : ∀ m, owed (.room m) = []

/-- The serial server goes along. -/
def Follows (S : Server) (owed : Thread → List Job) (σ' : LogicSystem) : Prop :=
  ∃ S', Reach Server.step (fun _ _ => True) S S' ∧ σ'.Shows owed S'

theorem follows_still (h : σ'.Shows owed S) : Follows S owed σ' := ⟨S, .start, h⟩

theorem follows_step {e : SyncRtc.Event} (hstep : S.step e = some S') (h : σ'.Shows owed S') : Follows S owed σ' :=
  ⟨S', .next .start trivial hstep, h⟩

section Running

variable {body : Op Unit} {c : Call} {k : c.Res → Op Unit}

omit [PoolSizes] in
theorem running_over (hstage : op.stage = .running body) : op.isOver = false := by
  rw [Operation.isOver, hstage]

omit [PoolSizes] in
theorem running_awake (hstage : op.stage = .running body) : op.isSuspended = false := by
  rw [Operation.isSuspended, hstage]

theorem Paired.thread (h : Paired σ owed S) (hop : (σ.queues i).active = some op) :
    op.entry.job.thread = σ.owners i := (h.kept.orderly.queues i).active op hop

theorem Paired.filed (h : Paired σ owed S) (hop : (σ.queues i).active = some op) (hover : op.isOver = false) :
    op.entry.Filed σ.owners :=
  h.shows.filed i _ (List.mem_append_left _ (mem_current.mpr ⟨op, hop, hover, rfl⟩))

theorem Paired.doing (h : Paired σ owed S) (hi : i < σ.nextQueue) (hop : (σ.queues i).active = some op)
    (hbody : op.body? = some body) : S.doing op.entry.job.thread = some body := by
  rw [h.thread hop]
  exact (h.shows.busy i).item _ (mem_operation.mpr ⟨hi, hop⟩) rfl body hbody

theorem Paired.carries (h : Paired σ owed S) (hop : (σ.queues i).active = some op) (hover : op.isOver = false) :
    ∀ job, S.carries op.entry.job.thread = some job → job = op.entry.job := by
  rw [h.thread hop]
  exact (h.shows.busy i).carries _ (mem_current.mpr ⟨op, hop, hover, rfl⟩)

theorem Paired.free (h : Paired σ owed S) (hop : (σ.queues i).active = some op) (hawake : op.isSuspended = false)
    (c : Completion) (hc : .promised c ∈ σ.items) : c.wait.queue ≠ i := by
  intro heq
  cases item_awake h.kept.sound hop hawake hc (congrArg some heq)

/-- The operation goes on after a call, of which the serial server makes as much. -/
theorem follows_run (h : Paired σ owed S) (hi : i < σ.nextQueue) (hop : (σ.queues i).active = some op)
    (hstage : op.stage = .running (.call c k)) (hmoved : Moved S S' op.entry.job.thread op.entry.job (some body))
    {e : SyncRtc.Event} (hstep : S.step e = some S') (hline : S'.line = S.line)
    (hkept : LogicSystem.Kept { σ.setOp i (op.run body) with server := S'.bare }) :
    Follows S owed { σ.setOp i (op.run body) with server := S'.bare } := by
  rw [h.thread hop] at hmoved
  have hactive : ((σ.setOp i (op.run body)).queues i).active = some (op.run body) := by
    simp only [setOp, queues_setQueue, if_true, setActive]
  refine follows_step hstep (h.shows.keepsMove h.kept h.registry ?_ hop (running_over hstage)
    (h.free hop (running_awake hstage)) hmoved ?_ ?_ rfl hline)
  · have hset : Keeps σ (σ.setOp i (op.run body)) := keeps_setOp hop rfl (running_over hstage) rfl
    exact hset.trans (keeps_queues rfl rfl rfl)
  · intro x hx j hne hxj
    have hset : x = .operation i (op.run body) ∨ x ∈ σ.items := by
      refine mem_setOp hi hop ?_ hx
      exact .inl rfl
    rcases hset with rfl | hold
    · exact absurd (Option.some.inj hxj).symm hne
    · exact hold
  · intro x hx hxi
    obtain rfl := item_awake hkept.sound hactive rfl hx hxi
    intro body' hbody'
    cases hbody'
    exact hmoved.self

theorem follows_call (h : Paired σ owed S) (hi : i < σ.nextQueue) (hop : (σ.queues i).active = some op)
    (hstage : op.stage = .running (.call c k)) (hc : NoHandOver c) (o : Oracle)
    (hkept : LogicSystem.Kept
      { σ.setOp i (op.run (k (exec c o σ.server).1)) with server := (exec c o σ.server).2 }) :
    Follows S owed { σ.setOp i (op.run (k (exec c o σ.server).1)) with server := (exec c o σ.server).2 } := by
  have hover := running_over hstage
  have hbody : op.body? = some (.call c k) := by rw [Operation.body?, hstage]
  obtain ⟨S', hstep, hbare, hline, hmoved⟩ := Server.advance h.prompt (h.carries hop hover) (h.doing hi hop hbody) hc o
  rw [h.shows.data] at hbare hmoved
  rw [← hbare] at hkept ⊢
  exact follows_run h hi hop hstage hmoved hstep hline hkept

/-- A `Wait` whose closure is called at once. -/
theorem follows_refuse (h : Paired σ owed S) (hi : i < σ.nextQueue) (hop : (σ.queues i).active = some op)
    (hstage : op.stage = .running (.call c k)) (hmoved : Moved S S' op.entry.job.thread op.entry.job (some body))
    {e : SyncRtc.Event} (hstep : S.step e = some S') (hline : S'.line = S.line) (hdata : S'.bare = σ.server)
    (handed : Bool) : Follows S owed ((σ.setOp i (op.suspend handed)).complete ⟨op.wait i handed, body⟩) := by
  rw [h.thread hop] at hmoved
  have hover := running_over hstage
  have hawake := running_awake hstage
  have hactive : (((σ.setOp i (op.suspend handed)).complete ⟨op.wait i handed, body⟩).queues i).active =
      some (op.suspend handed) := by
    simp only [complete, setOp, queues_setQueue, Operation.wait, if_true, setActive, post]
  have hmem (x : Item) (hx : x ∈ ((σ.setOp i (op.suspend handed)).complete ⟨op.wait i handed, body⟩).items) :
      x = .ready ⟨op.wait i handed, body⟩ 0 ∨ x = .operation i (op.suspend handed) ∨ x ∈ σ.items := by
    refine (mem_complete hi hx).imp_right fun hset => mem_setOp hi hop ?_ hset
    exact .inl rfl
  refine follows_step hstep (h.shows.keepsMove h.kept h.registry ?_ hop hover (h.free hop hawake) hmoved ?_ ?_ hdata
    hline)
  · have hset : Keeps σ (σ.setOp i (op.suspend handed)) := keeps_setOp hop rfl hover rfl
    exact hset.trans (keeps_complete _ _)
  · intro x hx j hne hxj
    rcases hmem x hx with rfl | rfl | hold
    · exact absurd (Option.some.inj hxj).symm hne
    · exact absurd (Option.some.inj hxj).symm hne
    · exact hold
  · intro x hx hxi
    rcases hmem x hx with rfl | rfl | hold
    · exact hmoved.self
    · intro body' hbody'
      cases hbody'
    · obtain rfl := item_awake h.kept.sound hop hawake hold hxi
      have hsame : op.suspend handed = op := Option.some.inj (hactive.symm.trans (mem_operation.mp hx).2)
      rw [← hsame] at hawake
      cases hawake

/-- An operation stays where it is, and a pool changes. -/
theorem follows_place (h : Paired σ owed S) (hi : i < σ.nextQueue) (hop : (σ.queues i).active = some op)
    (hover : op.isOver = false) (op' : Operation) (hentry : op'.entry = op.entry) (hover' : op'.isOver = false)
    (hshown : (Item.operation i op').Shown S σ.owners) {pool : SlowPool}
    (hpool : ∀ x ∈ pool.items p, x ∈ (σ.pools p).items p ∨ x.Shown S σ.owners)
    (hkept : ((σ.setPool p pool).setOp i op').Kept) : Follows S owed ((σ.setPool p pool).setOp i op') := by
  refine follows_still (h.shows.keeps h.kept hkept h.registry ?_ rfl fun x hx => ?_)
  · exact (keeps_setPool σ p pool).trans (keeps_setOp hop hentry hover hover')
  · have hset : x = .operation i op' ∨ x ∈ (σ.setPool p pool).items := by
      refine mem_setOp (σ := σ.setPool p pool) hi hop (.inl ?_) hx
      rw [hentry]
    rcases hset with rfl | hx
    · exact .inr hshown
    · rcases mem_setPool hx with hx | hx
      · exact (hpool x hx).imp_left fun hold => mem_items.mpr (.inr ⟨p, hold⟩)
      · exact .inl hx

theorem follows_op (h : Paired σ owed S) (hi : i < σ.nextQueue) (hop : (σ.queues i).active = some op)
    (hover : op.isOver = false) (op' : Operation) (hentry : op'.entry = op.entry) (hover' : op'.isOver = false)
    (hshown : (Item.operation i op').Shown S σ.owners) (hkept : (σ.setOp i op').Kept) :
    Follows S owed (σ.setOp i op') := by
  have hpool : σ.setPool .ai (σ.pools .ai) = σ := by
    simp only [setPool, Function.update_eq_self]
  have hfollows := follows_place (p := .ai) h hi hop hover op' hentry hover' hshown (fun x hx => .inl hx)
    (by rw [hpool]; exact hkept)
  rwa [hpool] at hfollows

/-- What is shown of an operation that has the same left to do. -/
theorem Paired.same (h : Paired σ owed S) (hi : i < σ.nextQueue) (hop : (σ.queues i).active = some op)
    (hbody : op'.body? = op.body?) : (Item.operation i op').Shown S σ.owners := by
  intro body hbody'
  exact (h.shows.busy i).item _ (mem_operation.mpr ⟨hi, hop⟩) rfl body (hbody ▸ hbody')

/-- A turn of `ReleaseCapacity`. -/
theorem follows_releaseCapacity (h : Paired σ owed S) (hi : i < σ.nextQueue) (hop : (σ.queues i).active = some op)
    (hover : op.isOver = false) (rest : List PoolName) (hkept : (σ.releaseCapacity i op p rest).Kept) :
    Follows S owed (σ.releaseCapacity i op p rest) := by
  unfold releaseCapacity at hkept ⊢
  refine follows_place h hi hop hover { op with reserved := rest } rfl hover (h.same hi hop rfl) (fun x hx => ?_) hkept
  exact .inl hx

omit [PoolSizes] in
/-- A refusal changes nothing. -/
theorem refusal_keeps (hpool : c.pool = some p) (server : Server) :
    (exec c { fail := true, refuse := true } server).2 = server := by
  cases c with
  | reservePool terminal => rfl
  | query site q => simp only [exec, Query.run, if_true]
  | askAi question => rfl
  | _ => cases hpool

omit [PoolSizes] in
theorem noHandOver_of_pool (hpool : c.pool = some p) : NoHandOver c := by
  rintro m task rfl
  cases hpool

theorem follows_refused (h : Paired σ owed S) (hi : i < σ.nextQueue) (hop : (σ.queues i).active = some op)
    (hstage : op.stage = .running (.call c k)) (hpool : c.pool = some p)
    (hkept : (σ.setOp i (op.run (k (σ.refusal c)))).Kept) : Follows S owed (σ.setOp i (op.run (k (σ.refusal c)))) := by
  have hfollows := follows_call h hi hop hstage (noHandOver_of_pool hpool) { fail := true, refuse := true }
  rw [refusal_keeps hpool] at hfollows
  exact hfollows hkept

theorem follows_reserve (h : Paired σ owed S) (hi : i < σ.nextQueue) (hop : (σ.queues i).active = some op)
    (hstage : op.stage = .running (.call c k)) (hpool : c.pool = some p) (hkept : (σ.reserve i op p c k).Kept) :
    Follows S owed (σ.reserve i op p c k) := by
  have hover := running_over hstage
  cases hres : (σ.pools p).reserve p with
  | some pool =>
    simp only [reserve, hres] at hkept ⊢
    refine follows_place h hi hop hover { op with reserved := op.reserved ++ [p] } rfl hover (h.same hi hop rfl)
      (fun x hx => .inl ?_) hkept
    rwa [(items_reserve hres).1] at hx
  | none =>
    simp only [reserve, hres] at hkept ⊢
    by_cases hterm : op.entry.terminal = true
    · rw [if_pos hterm] at hkept ⊢
      refine follows_op h hi hop hover { op with stage := .retrying p (.call c k) } rfl rfl (h.same hi hop ?_) hkept
      simp only [Operation.body?, hstage]
    · rw [if_neg hterm] at hkept ⊢
      exact follows_refused h hi hop hstage hpool hkept

theorem follows_await (h : Paired σ owed S) (hi : i < σ.nextQueue) (hop : (σ.queues i).active = some op)
    (hstage : op.stage = .running (.call c k)) (hpool : c.pool = some p) (chosen : Nat)
    (hkept : (σ.await i op p chosen c k).Kept) : Follows S owed (σ.await i op p chosen c k) := by
  have hover := running_over hstage
  have hbody : op.body? = some (.call c k) := by rw [Operation.body?, hstage]
  cases hsubmit : (σ.pools p).submit p { wait := op.wait i false, work := c, next := k } chosen with
  | some pool =>
    simp only [await, hsubmit] at hkept ⊢
    refine follows_place h hi hop hover (op.suspend false) rfl rfl (fun body hbody' => ?_) (fun x hx => ?_) hkept
    · cases hbody'
    · rw [(items_submit hsubmit).1, Multiset.mem_cons] at hx
      refine hx.symm.imp_right ?_
      rintro rfl
      have hdoing := h.doing hi hop hbody
      rw [h.thread hop] at hdoing
      exact ⟨hdoing, noHandOver_of_pool hpool⟩
  | none =>
    simp only [await, hsubmit] at hkept ⊢
    obtain ⟨S', hstep, hbare, hline, hmoved⟩ := Server.advance h.prompt (h.carries hop hover) (h.doing hi hop hbody)
      (noHandOver_of_pool hpool) { fail := true, refuse := true }
    rw [h.shows.data] at hbare hmoved
    rw [refusal_keeps hpool] at hbare
    exact follows_refuse h hi hop hstage hmoved hstep hline hbare false

theorem follows_enter (h : Paired σ owed S) (hi : i < σ.nextQueue) (hop : (σ.queues i).active = some op)
    (hstage : op.stage = .running (.call c k)) (hpool : c.pool = some p) (chosen : Nat)
    (hkept : (σ.enter i op p chosen c k).Kept) : Follows S owed (σ.enter i op p chosen c k) := by
  cases c with
  | reservePool terminal =>
    have hfollows := follows_call h hi hop hstage (noHandOver_of_pool hpool) {}
    have hexec : exec (.reservePool terminal) {} σ.server = (true, σ.server) := by
      simp only [exec, Bool.not_false, Bool.or_true]
    rw [hexec] at hfollows
    exact hfollows hkept
  | query site q => exact follows_await h hi hop hstage hpool chosen hkept
  | askAi question => exact follows_await h hi hop hstage hpool chosen hkept
  | _ => cases hpool

/-! ### A task for a room -/

omit [PoolSizes] in
/-- A line that one more command joins. -/
theorem line_accepted {e : Entry} (hbefore : ∀ t, τ.before t = σ.before t ++ if t = e.job.thread then [e] else [])
    (hline : S'.line = S.lineUp e.job) (howed : owed e.job.thread = []) {t : Thread}
    (h : S.line t = (σ.before t).map Entry.job ++ owed t) : S'.line t = (τ.before t).map Entry.job ++ owed t := by
  rw [hline, hbefore, List.map_append]
  by_cases ht : t = e.job.thread
  · subst ht
    rw [howed, List.append_nil] at h
    rw [Server.lineUp, Function.update_self, h, if_pos rfl, howed, List.append_nil]
    rfl
  · rw [Server.lineUp, Function.update_of_ne ht, if_neg ht, h, List.map_nil, List.append_nil]

/-- The room has taken the task, and the operation goes on, or into `Wait`. -/
theorem follows_submitted (h : Paired σ owed S) (hi : i < σ.nextQueue) (hop : (σ.queues i).active = some op)
    (hstage : op.stage = .running body) {m : MeetingId} {task : Task} {done : Option Completion} {bytes : Nat}
    (haccepts : Accepts σ τ ⟨.room m task, done, (Job.room m task).terminal, bytes⟩) (op' : Operation)
    (hentry : op'.entry = op.entry) (hover' : op'.isOver = false) {body' : Option (Op Unit)}
    (hmoved : Moved S S' op.entry.job.thread op.entry.job body') (hshown : (Item.operation i op').Shown S' σ.owners)
    (hdone : ∀ c, done = some c → c.wait.queue = i)
    (hfiled : Entry.Filed ⟨.room m task, done, (Job.room m task).terminal, bytes⟩ σ.owners) {e : SyncRtc.Event}
    (hstep : S.step e = some S') (hdata : S'.bare = S.bare) (hline : S'.line = S.lineUp (.room m task)) :
    Follows S owed (τ.setOp i op') := by
  rw [h.thread hop] at hmoved
  have hover := running_over hstage
  have hawake := running_awake hstage
  have hopτ : (τ.queues i).active = some op := (haccepts.active i hi).trans hop
  have hkeeps : Keeps τ (τ.setOp i op') := keeps_setOp hopτ hentry hover hover'
  have hcurrent := current_of_active hop hover
  have he : op.entry ∈ (σ.queues i).unended := by
    rw [SerialCommandQueue.unended, hcurrent]
    exact List.mem_cons_self
  have howner : τ.owners i = σ.owners i := haccepts.owners i hi
  have hmem (x : Item) (hx : x ∈ (τ.setOp i op').items) (j : Nat) (hxj : x.queue? = some j) :
      x = .operation i op' ∨ (∃ c, x = .promised c ∧ j = i) ∨ x ∈ σ.items := by
    refine (mem_setOp (hi.trans_le haccepts.nextQueue) hopτ (.inl (by rw [hentry])) hx).imp_right fun hold => ?_
    have hitems : τ.items = Entry.items ⟨.room m task, done, (Job.room m task).terminal, bytes⟩ false + σ.items :=
      congrArg Books.items haccepts.books
    rw [hitems] at hold
    rcases Multiset.mem_add.mp hold with hnew | hold
    · rcases Multiset.mem_cons.mp hnew with rfl | hpromise
      · cases hxj
      · cases hc : done with
        | none =>
          rw [hc] at hpromise
          exact absurd hpromise (Multiset.notMem_zero x)
        | some c =>
          rw [hc] at hpromise
          obtain rfl := Multiset.mem_singleton.mp hpromise
          exact .inl ⟨c, rfl, (Option.some.inj hxj).symm.trans (hdone c hc)⟩
    · exact .inr hold
  refine follows_step hstep (h.shows.move h.kept h.registry he (h.free hop hawake) hmoved haccepts.owners
    (fun j _ => (hkeeps.current j).trans (haccepts.current j)) ?_ ?_ ?_ ?_ ?_ ?_)
  · rw [hkeeps.current, haccepts.current, hcurrent]
  · intro x hx j hne hxj
    rcases hmem x hx j hxj with rfl | ⟨c, rfl, hji⟩ | hold
    · exact absurd (Option.some.inj hxj).symm hne
    · exact absurd hji hne
    · exact hold
  · intro x hx hxi
    rcases hmem x hx i hxi with rfl | ⟨c, rfl, -⟩ | hold
    · exact hshown.congr fun j hj => by rw [← Option.some.inj hj]; exact congrArg S'.doing howner
    · trivial
    · obtain rfl := item_awake h.kept.sound hop hawake hold hxi
      have hactive : ((τ.setOp i op').queues i).active = some op' := by
        simp only [setOp, queues_setQueue, if_true, setActive]
      obtain rfl : op' = op := Option.some.inj (hactive.symm.trans (mem_operation.mp hx).2)
      exact hshown.congr fun j hj => by rw [← Option.some.inj hj]; exact congrArg S'.doing howner
  · exact (hdata.trans h.shows.data).trans haccepts.server.symm
  · intro t ht
    rw [hkeeps.before]
    exact line_accepted haccepts.before hline (h.owed m) (h.shows.line t ht)
  · intro j e' he'
    rw [hkeeps.unended] at he'
    rcases haccepts.unended j e' he' with rfl | hold
    · refine hfiled.congr fun c hc => ?_
      rw [hdone c hc]
      exact howner
    · exact (h.shows.filed j e' hold).congr fun c hc => haccepts.owners _ (done_lt h.kept.sound h.registry hold hc)

omit [PoolSizes] in
/-- The end of a connection is never refused. -/
theorem submitRoom_terminal {m : MeetingId} {task : Task} {done : Option Completion} {bytes : Nat}
    (hterminal : (Job.room m task).terminal = true) (hbytes : bytes = 0) : σ.submitRoom m task done bytes ≠ none := by
  have hsubmit (τ : LogicSystem) (j : Nat) : τ.submit j (.room m task) done bytes ≠ none := by
    subst hbytes
    simp [submit, hterminal, admits, BusinessScheduler.reserve]
  unfold submitRoom
  split <;> exact hsubmit _ _

theorem follows_handOver (h : Paired σ owed S) (hi : i < σ.nextQueue) (hop : (σ.queues i).active = some op)
    {m : MeetingId} {task : Task} {k : Bool → Op Unit} (hstage : op.stage = .running (.call (.submitRoom m task) k))
    (hwaits : op.entry.job.waits = true) : Follows S owed (σ.handOver i op m task k) := by
  have hover := running_over hstage
  have hbody : op.body? = some (.call (.submitRoom m task) k) := by rw [Operation.body?, hstage]
  have hcarries := h.carries hop hover
  have hdoing := h.doing hi hop hbody
  have hthread := h.thread hop
  have hentry := h.filed hop hover
  obtain ⟨s, command, hjob⟩ : ∃ s command, op.entry.job = .connection s command := by
    cases hjob : op.entry.job with
    | connection s command => exact ⟨s, command, rfl⟩
    | _ =>
      rw [hjob] at hwaits
      cases hwaits
  have hconn := hcarries
  have hat := hdoing
  rw [hjob] at hconn hat
  obtain ⟨htask, hnext, S', hstep, hdata, hline, hmoved⟩ := Server.hand h.prompt hconn hat
  have hterminal : (Job.room m task).terminal = op.entry.terminal := by
    rw [hentry.terminal, hjob, htask]
    rfl
  cases hsubmit : σ.submitRoom m task (some { wait := op.wait i true, next := k true }) op.entry.bytes with
  | some τ =>
    simp only [handOver, hsubmit]
    refine follows_submitted h hi hop hstage (accepts_submitRoom h.registry hsubmit) (op.suspend true) rfl rfl
      (by rw [hjob]; exact hmoved) (fun body hb => ?_) ?_ ?_ hstep hdata hline
    · cases hb
    · rintro c ⟨⟩
      rfl
    · refine ⟨rfl, fun hterm => hentry.bytes (hterminal ▸ hterm), ?_, fun s hs => ⟨_, rfl⟩⟩
      rintro c ⟨⟩
      refine ⟨s, by rw [htask]; rfl, ?_, hnext⟩
      rw [hjob] at hthread
      exact hthread.symm
  | none =>
    simp only [handOver, hsubmit]
    have hordinary : (Job.room m task).terminal = false := by
      by_contra hterm
      rw [Bool.not_eq_false] at hterm
      exact submitRoom_terminal hterm (hentry.bytes (hterminal ▸ hterm)) hsubmit
    obtain ⟨S', hstep, hdata, hline, hmoved⟩ := Server.refuse h.prompt hcarries hdoing hordinary
    exact follows_refuse h hi hop hstage hmoved hstep hline (hdata.trans h.shows.data) true

theorem follows_callSubmitRoom (h : Paired σ owed S) (hi : i < σ.nextQueue) (hop : (σ.queues i).active = some op)
    {m : MeetingId} {task : Task} {k : Bool → Op Unit} (hstage : op.stage = .running (.call (.submitRoom m task) k))
    (hkept : (σ.callSubmitRoom i op m task k).Kept) : Follows S owed (σ.callSubmitRoom i op m task k) := by
  have hover := running_over hstage
  have hbody : op.body? = some (.call (.submitRoom m task) k) := by rw [Operation.body?, hstage]
  have hcarries := h.carries hop hover
  have hdoing := h.doing hi hop hbody
  cases hwaits : op.entry.job.waits with
  | true =>
    simp only [callSubmitRoom, hwaits, if_true] at hkept ⊢
    cases hres : op.reserved with
    | cons p rest =>
      simp only [hres] at hkept ⊢
      exact follows_releaseCapacity h hi hop hover rest hkept
    | nil => exact follows_handOver h hi hop hstage hwaits
  | false =>
    have hsession := Server.session?_of_doing h.wired hcarries hdoing hwaits
    have hordinary : (Job.room m task).terminal = false := by
      cases task with
      | dispatch s command => cases hsession
      | _ => rfl
    cases hsubmit : σ.submitRoom m task none op.entry.bytes with
    | some τ =>
      simp only [callSubmitRoom, hwaits, Bool.false_eq_true, if_false, hsubmit]
      obtain ⟨S', hstep, hdata, hline, hmoved⟩ := Server.spawn hcarries hdoing hwaits
      refine follows_submitted h hi hop hstage (accepts_submitRoom h.registry hsubmit) (op.run (k true)) rfl rfl hmoved
        (fun body hb => ?_) (fun c hc => ?_) ?_ hstep hdata hline
      · cases hb
        rw [← h.thread hop]
        exact hmoved.self
      · cases hc
      · refine ⟨rfl, fun hterm => ?_, fun c hc => ?_, fun s hs => ?_⟩
        · rw [hordinary] at hterm
          cases hterm
        · cases hc
        · cases hsession.symm.trans hs
    | none =>
      simp only [callSubmitRoom, hwaits, Bool.false_eq_true, if_false, hsubmit] at hkept ⊢
      obtain ⟨S', hstep, hdata, hline, hmoved⟩ := Server.refuse h.prompt hcarries hdoing hordinary
      have hfollows := follows_run h hi hop hstage hmoved hstep hline
      rw [hdata.trans h.shows.data] at hfollows
      exact hfollows hkept

/-! ### The other steps -/

theorem follows_proceed (h : Paired σ owed S) (hi : i < σ.nextQueue) (hop : (σ.queues i).active = some op)
    (hstage : op.stage = .running (.call c k)) (o : Oracle) (hkept : (σ.proceed i op o c k).Kept) :
    Follows S owed (σ.proceed i op o c k) := by
  by_cases hc : NoHandOver c
  · obtain ⟨o', hanswer⟩ : ∃ o', σ.answer c o = exec c o' σ.server := by
      cases c with
      | askAi question => exact ⟨{ ai := .failed }, rfl⟩
      | _ => exact ⟨o, rfl⟩
    have hproceed : σ.proceed i op o c k =
        { σ.setOp i (op.run (k (exec c o' σ.server).1)) with server := (exec c o' σ.server).2 } := by
      rw [← hanswer]
      cases c with
      | submitRoom m task => exact absurd rfl (hc m task)
      | _ => rfl
    rw [hproceed] at hkept ⊢
    exact follows_call h hi hop hstage hc o' hkept
  · simp only [NoHandOver, not_forall, not_not] at hc
    obtain ⟨m, task, rfl⟩ := hc
    exact follows_callSubmitRoom h hi hop hstage hkept

/-- `done`: the business layer lets the connection go on, which the serial server has done already. -/
theorem follows_ended (h : Paired σ owed S) (hi : i < σ.nextQueue) (hop : (σ.queues i).active = some op)
    (hstage : op.stage = .running (.pure ())) (hkeeps : Keeps ((σ.record op.entry.job).setOp i op.ended) σ')
    (hserver : σ'.server = σ.server)
    (hitem : ∀ x ∈ σ'.items, (∃ c, op.entry.done = some c ∧ x = .ready c 0) ∨
      x ∈ ((σ.record op.entry.job).setOp i op.ended).items) (hkept : σ'.Kept) : Follows S owed σ' := by
  have hover := running_over hstage
  have hpure : S.doing (σ.owners i) = some (.pure ()) := by
    rw [← h.thread hop]
    exact h.doing hi hop (by rw [Operation.body?, hstage])
  have hown : op.entry ∈ (σ.queues i).current := mem_current.mpr ⟨op, hop, hover, rfl⟩
  have hcurrent (j : Nat) : (σ'.queues j).current = if j = i then [] else (σ.queues j).current := by
    rw [hkeeps.current, setOp, queues_setQueue]
    split <;> rfl
  have hwaiting (j : Nat) : (σ'.queues j).waiting = (σ.queues j).waiting := by
    rw [hkeeps.waiting, setOp, queues_setQueue]
    split
    · next heq =>
      rw [heq]
      rfl
    · rfl
  refine follows_still (h.shows.still h.kept hkept h.registry ⟨rfl, rfl⟩ (fun j _ => congrFun hkeeps.owners j)
    (fun j => ?_) (fun x hx j hxj => ?_) (h.shows.data.trans hserver.symm) (fun t ht => ?_) fun j e he => ?_)
  · rw [hcurrent]
    split
    · next heq => exact .inr ⟨rfl, heq ▸ hpure⟩
    · exact .inl rfl
  · rw [hkeeps.owners]
    rcases hitem x hx with ⟨c, hc, rfl⟩ | hx
    · obtain ⟨-, -, -, hnext⟩ := (h.filed hop hover).done c hc
      have hreleased := (h.shows.busy i).released _ hown c hc hpure
      exact .inr (hreleased.trans (congrArg some hnext.symm))
    · rcases mem_setOp (σ := σ.record op.entry.job) hi hop (.inr rfl) hx with rfl | hold
      · refine .inr fun body hbody => ?_
        cases hbody
      · exact .inl hold
  · have hbefore : σ'.before t = σ.before t :=
      before_congr (σ := σ) hkeeps.nextQueue hkeeps.owners fun j _ => hwaiting j
    rw [hbefore]
    exact h.shows.line t ht
  · rw [hkeeps.owners]
    refine h.shows.filed j e ?_
    rw [SerialCommandQueue.unended, hcurrent, hwaiting] at he
    split at he
    · exact List.mem_append_right _ he
    · exact he

theorem follows_finish (h : Paired σ owed S) (hi : i < σ.nextQueue) (hop : (σ.queues i).active = some op)
    (hstage : op.stage = .running (.pure ())) (hkept : (σ.finish i op).Kept) : Follows S owed (σ.finish i op) := by
  cases hres : op.reserved with
  | cons p rest =>
    simp only [finish, hres] at hkept ⊢
    exact follows_releaseCapacity h hi hop (running_over hstage) rest hkept
  | nil =>
    cases hdone : op.entry.done with
    | none =>
      simp only [finish, hres, hdone] at hkept ⊢
      exact follows_ended h hi hop hstage (keeps_queues rfl rfl rfl) rfl (fun x hx => .inr hx) hkept
    | some c =>
      have hlt : c.wait.queue < σ.nextQueue := queue_of_promise h.kept.sound hi hop hdone
      simp only [finish, hres, hdone] at hkept ⊢
      refine follows_ended h hi hop hstage (keeps_complete _ c) rfl (fun x hx => ?_) hkept
      refine (mem_complete ?_ hx).imp_left fun heq => ⟨c, hdone, heq⟩
      exact hlt

theorem follows_running (h : Paired σ owed S) (hi : i < σ.nextQueue) (hop : (σ.queues i).active = some op)
    (hstage : op.stage = .running body) (o : Oracle) (chosen : Nat) (hkept : (σ.run i op o chosen body).Kept) :
    Follows S owed (σ.run i op o chosen body) := by
  cases body with
  | pure u => exact follows_finish h hi hop hstage hkept
  | call c k =>
    cases hpool : σ.poolOf c with
    | none =>
      simp only [run, hpool] at hkept ⊢
      exact follows_proceed h hi hop hstage o hkept
    | some p =>
      simp only [run, hpool] at hkept ⊢
      by_cases hheld : p ∈ op.reserved
      · rw [if_pos hheld] at hkept ⊢
        exact follows_enter h hi hop hstage (poolOf_some hpool) chosen hkept
      · rw [if_neg hheld] at hkept ⊢
        exact follows_reserve h hi hop hstage (poolOf_some hpool) hkept

/-- A step that changes queue `i` alone, and neither its commands nor what its operation has left to do. -/
theorem follows_alters (h : Paired σ owed S) (hi : i < σ.nextQueue) {queue : SerialCommandQueue}
    (halters : Alters σ σ' i queue) (hcurrent : queue.current = (σ.queues i).current)
    (hwaiting : queue.waiting = (σ.queues i).waiting)
    (hitem : ∀ x ∈ queue.items i, x ∈ (σ.queues i).items i ∨ x.Shown S σ.owners) (hkept : σ'.Kept) :
    Follows S owed σ' := by
  refine follows_still (h.shows.keeps h.kept hkept h.registry (halters.keeps hcurrent hwaiting) halters.server
    fun x hx => ?_)
  rcases halters.mem hx with hx | hx
  · exact (hitem x hx).imp_left fun hold => mem_items.mpr (.inl ⟨i, hi, hold⟩)
  · exact .inl hx

theorem follows_stepOp (h : Paired σ owed S) (hi : i < σ.nextQueue) {o : Oracle} {chosen : Nat}
    (hstep : σ.stepOp i o chosen = some σ') (hkept : σ'.Kept) : Follows S owed σ' := by
  cases hop : (σ.queues i).active with
  | none =>
    simp only [stepOp, hop] at hstep
    cases hstep
  | some op =>
    cases hstage : op.stage with
    | running body =>
      simp only [stepOp, hop, hstage] at hstep
      cases hstep
      exact follows_running h hi hop hstage o chosen hkept
    | retrying p body =>
      simp only [stepOp, hop, hstage, retry] at hstep
      split at hstep
      swap
      · cases hstep
      cases hres : (σ.pools p).reserve p with
      | none =>
        rw [hres] at hstep
        cases hstep
      | some pool =>
        rw [hres] at hstep
        cases hstep
        have hover : op.isOver = false := by rw [Operation.isOver, hstage]
        refine follows_place h hi hop hover { op with reserved := op.reserved ++ [p], stage := .running body } rfl rfl
          (h.same hi hop ?_) (fun x hx => .inl ?_) hkept
        · simp only [Operation.body?, hstage]
        · rwa [(items_reserve hres).1] at hx
    | suspended handed =>
      simp only [stepOp, hop, hstage] at hstep
      cases hstep
    | finishing =>
      simp only [stepOp, hop, hstage] at hstep
      cases hstep
      have hcurrent : (σ.queues i).current = [] := by
        simp only [current, hop, Option.elim_some, Operation.current, Operation.isOver, hstage, if_true]
      refine follows_alters h hi ⟨rfl, rfl, rfl, rfl, rfl⟩ (hcurrent.symm ▸ rfl) rfl (fun x hx => ?_) hkept
      rcases mem_queue.mp hx with hold | hold | ⟨op', hop', hx⟩ | hold
      · exact .inl (mem_queue.mpr (.inl hold))
      · exact .inl (mem_queue.mpr (.inr (.inl hold)))
      · cases hop'
        rcases Multiset.mem_cons.mp hx with rfl | hpromise
        · refine .inr fun body hbody => ?_
          cases hbody
        · exact .inl (mem_queue.mpr (.inr (.inr (.inl ⟨op, hop, Multiset.mem_cons_of_mem hpromise⟩))))
      · exact .inl (mem_queue.mpr (.inr (.inr (.inr hold))))
    | leaving =>
      simp only [stepOp, hop, hstage] at hstep
      cases hstep
      have hsame := same_leave hop hstage
      refine follows_alters h hi ⟨rfl, rfl, rfl, rfl, rfl⟩ hsame.current hsame.waiting (fun x hx => ?_) hkept
      rcases mem_queue.mp hx with ⟨y, hy, hxy⟩ | hold | ⟨op', hop', -⟩ | hold
      · rcases List.mem_append.mp hy with hy | hy
        · exact .inl (mem_queue.mpr (.inl ⟨y, hy, hxy⟩))
        · obtain rfl := List.mem_singleton.mp hy
          obtain rfl := Multiset.mem_singleton.mp hxy
          exact .inr trivial
      · exact .inl (mem_queue.mpr (.inr (.inl hold)))
      · cases hop'
      · exact .inl (mem_queue.mpr (.inr (.inr (.inr hold))))

end Running

/-! ## A strand runs a handler -/

section Handler

variable {queue : SerialCommandQueue} {e : Entry} {rest : List Entry} {x : Item}

omit [PoolSizes] in
theorem mem_pump (hactive : queue.active = none) (hcommands : queue.commands = e :: rest) (hx : x ∈ queue.pump.items i) :
    x = .operation i (.start (queue.nextOp + 1) e) ∨ x ∈ queue.items i := by
  rw [pump_of_none hactive hcommands] at hx
  rcases mem_queue.mp hx with hold | ⟨e', he', hxe⟩ | ⟨op, hop, hx⟩ | hold
  · exact .inr (mem_queue.mpr (.inl hold))
  · refine .inr (mem_queue.mpr (.inr (.inl ⟨e', ?_, hxe⟩)))
    rw [hcommands]
    exact List.mem_cons_of_mem e he'
  · cases hop
    rcases Multiset.mem_cons.mp hx with rfl | hpromise
    · exact .inl rfl
    · refine .inr (mem_queue.mpr (.inr (.inl ⟨e, ?_, Multiset.mem_cons_of_mem hpromise⟩)))
      rw [hcommands]
      exact List.mem_cons_self
  · exact .inr (mem_queue.mpr (.inr (.inr (.inr hold))))

omit [PoolSizes] in
theorem thread_of_waiting {owner : Thread} (h : queue.Owned i owner) (he : e ∈ queue.waiting) : e.job.thread = owner := by
  rcases List.mem_append.mp he with he | he
  · exact h.queued e he
  · obtain ⟨y, hy, haccepted⟩ := List.mem_filterMap.mp he
    cases y with
    | command e' =>
      cases haccepted
      exact h.posted e hy
    | _ => cases haccepted

/-- A command is begun. -/
theorem follows_begin (h : Paired σ owed S) (hi : i < σ.nextQueue) (halters : Alters σ σ' i queue.pump) (hactive : (σ.queues i).active = none)
    (hnone : queue.active = none) (hcommands : queue.commands = e :: rest)
    (hwaiting : queue.waiting = (σ.queues i).waiting)
    (hitem : ∀ x ∈ queue.items i, ∀ j, x.queue? = some j → x ∈ (σ.queues i).items i)
    (hkept : σ'.Kept) (hr' : σ'.Registry) : Follows S owed σ' := by
  have hsound := h.kept.sound
  have hpump := pump_of_none hnone hcommands
  have hlined : (σ.queues i).waiting = e :: queue.pump.waiting := by
    rw [← hwaiting, hpump]
    simp [waiting, hcommands]
  have hfirst : e ∈ (σ.queues i).waiting := by
    rw [hlined]
    exact List.mem_cons_self
  have he : e ∈ (σ.queues i).unended := List.mem_append_right _ hfirst
  have hload := load_of_unended he
  have hthread : e.job.thread = σ.owners i := thread_of_waiting (h.kept.orderly.queues i).toOwned hfirst
  have hfree (c : Completion) (hc : .promised c ∈ σ.items) : c.wait.queue ≠ i := by
    intro heq
    obtain ⟨-, op, hop, -⟩ := suspended_of_wake hsound hc (Multiset.mem_singleton_self _)
    rw [heq, hactive] at hop
    cases hop
  have hidle : S.doing e.job.thread = some (.pure ()) := by
    refine h.shows.idle _ fun j hj => ?_
    by_contra hbusy
    obtain ⟨e', he'⟩ := List.exists_mem_of_ne_nil _ hbusy
    have hji := h.registry.unique (hj.trans hthread) (load_of_unended (List.mem_append_left _ he')) hload
    rw [hji, current, hactive] at he'
    cases he'
  have hline : e.job ≠ .timer → S.line e.job.thread = e.job :: (queue.pump.waiting.map Entry.job ++ owed e.job.thread) := by
    intro htimer
    have hne : e.job.thread ≠ .timer := by
      cases hjob : e.job with
      | timer => exact absurd hjob htimer
      | _ => exact Thread.noConfusion
    rw [h.shows.line _ hne, hthread, before_busy h.registry hload, hlined]
    rfl
  obtain ⟨event, S', hstep, hdata, hmoved, hothers, hown⟩ := Server.begins h.prompt hidle hline
  rw [hthread] at hmoved
  have hself := halters.self
  have hother (j : Nat) (hj : j ≠ i) := halters.other hj
  have hstarted : queue.pump.active = some (.start (queue.nextOp + 1) e) := by rw [hpump]
  have hcurrent : queue.pump.current = [e] := current_of_active hstarted rfl
  refine follows_step hstep (h.shows.move h.kept h.registry he hfree hmoved
    (fun j _ => congrFun halters.owners j) (fun j hj => ?_) ?_ (fun x hx j hj hxj => ?_) (fun x hx hxi => ?_)
    ((hdata.trans h.shows.data).trans halters.server.symm) (fun t ht => ?_) fun j e' he' => ?_)
  · rw [hother j hj]
  · rw [hself, hcurrent]
  · rcases halters.mem hx with hx | hx
    · rcases mem_pump hnone hcommands hx with rfl | hold
      · exact absurd (Option.some.inj hxj).symm hj
      · exact mem_items.mpr (.inl ⟨i, hi, hitem x hold j hxj⟩)
    · exact hx
  · obtain rfl := item_awake hkept.sound ((congrArg _ hself).trans hstarted) rfl hx hxi
    intro body hbody
    cases hbody
    rw [halters.owners]
    exact hmoved.self
  · by_cases hti : t = e.job.thread
    · subst hti
      have hload' : (σ'.queues i).load ≠ [] := by
        refine load_of_unended (e := e) (List.mem_append_left _ ?_)
        rw [hself, hcurrent]
        exact List.mem_singleton_self e
      have hbefore := before_busy hr' hload'
      rw [halters.owners, hself] at hbefore
      rw [hown fun htimer => ht (by rw [htimer]; rfl), hthread, hbefore]
    · have hbefore : σ'.before t = σ.before t := by
        refine before_congr halters.nextQueue halters.owners fun j hj => ?_
        rw [hother j fun heq => hti (by rw [hthread, ← heq, hj])]
      rw [hothers t hti, h.shows.line t ht, hbefore]
  · rw [halters.owners]
    by_cases hji : j = i
    · subst hji
      rw [hself, SerialCommandQueue.unended, hcurrent] at he'
      refine h.shows.filed j e' (List.mem_append_right _ ?_)
      rw [hlined]
      exact he'
    · rw [hother j hji] at he'
      exact h.shows.filed j e' he'

/-- `Pump`, after a handler that shows nothing. -/
theorem follows_pump (h : Paired σ owed S) (hi : i < σ.nextQueue) (halters : Alters σ σ' i queue.pump) (hactive : queue.active = (σ.queues i).active)
    (hwaiting : queue.waiting = (σ.queues i).waiting)
    (hitem : ∀ x ∈ queue.items i, ∀ j, x.queue? = some j → x ∈ (σ.queues i).items i)
    (hkept : σ'.Kept) (hr' : σ'.Registry) : Follows S owed σ' := by
  by_cases hstart : ∃ e rest, queue.active = none ∧ queue.commands = e :: rest
  · obtain ⟨e, rest, hnone, hcommands⟩ := hstart
    exact follows_begin h hi halters (hactive.symm.trans hnone) hnone hcommands hwaiting hitem hkept hr'
  · have hpump : queue.pump = queue := by
      unfold SerialCommandQueue.pump
      split
      · next e rest hnone hcommands => exact absurd ⟨e, rest, hnone, hcommands⟩ hstart
      · rfl
    rw [hpump] at halters
    have hcurrent : queue.current = (σ.queues i).current := by rw [current, hactive, current]
    refine follows_alters h hi halters hcurrent hwaiting (fun x hx => ?_) hkept
    cases hqueue : x.queue? with
    | none =>
      cases x with
      | entry e queued => exact .inr trivial
      | closing begun => exact .inr trivial
      | _ => cases hqueue
    | some j => exact .inl (hitem x hx j hqueue)

omit [PoolSizes] in
theorem same_run (hop : queue.active = some op) (body : Op Unit) (hover : op.isOver = false) :
    Same queue (queue.setActive (op.run body)) := same_setActive hop rfl hover rfl

theorem follows_resume (h : Paired σ owed S) (hi : i < σ.nextQueue) {c : Completion} {strand : List Posted}
    (hstrand : (σ.queues i).strand = .resume c :: strand)
    (haway : ∀ op, (σ.queues i).active = some op → op.isAway = true)
    (hkept : Kept (σ.setQueue i (({ σ.queues i with strand := strand } : SerialCommandQueue).resume c))) :
    Follows S owed (σ.setQueue i (({ σ.queues i with strand := strand } : SerialCommandQueue).resume c)) := by
  have hsame := same_resumed hstrand
  have hmem : .resume c ∈ (σ.queues i).strand := by
    rw [hstrand]
    exact List.mem_cons_self
  have hready : S.doing (σ.owners i) = some c.next := by
    have hitem : .ready c 0 ∈ σ.items := mem_strand hi hmem (Multiset.mem_singleton_self _)
    have hqueue := h.kept.orderly.addressed.resume i c hmem
    exact hqueue ▸ (h.shows.busy c.wait.queue).item _ hitem rfl
  have hpopped (x : Item) (hx : x ∈ ({ σ.queues i with strand := strand } : SerialCommandQueue).items i) :
      x ∈ (σ.queues i).items i := by
    rcases mem_queue.mp hx with ⟨y, hy, hxy⟩ | hold
    · refine mem_queue.mpr (.inl ⟨y, ?_, hxy⟩)
      rw [hstrand]
      exact List.mem_cons_of_mem _ hy
    · exact mem_queue.mpr (.inr hold)
  cases hop : (σ.queues i).active with
  | none =>
    have hresume : ({ σ.queues i with strand := strand } : SerialCommandQueue).resume c =
        { σ.queues i with strand := strand } := by
      simp only [SerialCommandQueue.resume, hop]
    rw [hresume] at hkept ⊢
    exact follows_alters h hi ⟨rfl, rfl, rfl, rfl, rfl⟩ hsame.current hsame.waiting (fun x hx => .inl (hpopped x hx)) hkept
  | some op =>
    by_cases hmatch : op.id = c.wait.op ∧ op.phase = c.wait.phase
    · have hresume : ({ σ.queues i with strand := strand } : SerialCommandQueue).resume c =
          ({ σ.queues i with strand := strand } : SerialCommandQueue).setActive (op.run c.next) := by
        simp only [SerialCommandQueue.resume, hop, if_pos hmatch]
      have hover : op.isOver = false := by
        have hgone := haway op hop
        unfold Operation.isAway at hgone
        unfold Operation.isOver
        cases hstage : op.stage <;> simp [hstage] at hgone ⊢
      have hrun : Same (σ.queues i) (({ σ.queues i with strand := strand } : SerialCommandQueue).setActive (op.run c.next)) := by
        refine hsame.trans (same_run ?_ c.next hover)
        exact hop
      rw [hresume] at hkept ⊢
      refine follows_alters h hi ⟨rfl, rfl, rfl, rfl, rfl⟩ hrun.current hrun.waiting (fun x hx => ?_) hkept
      rcases mem_queue.mp hx with hold | hold | ⟨op', hop', hx⟩ | hold
      · exact .inl (hpopped x (mem_queue.mpr (.inl hold)))
      · exact .inl (mem_queue.mpr (.inr (.inl hold)))
      · cases hop'
        rcases Multiset.mem_cons.mp hx with rfl | hpromise
        · refine .inr fun body hbody => ?_
          cases hbody
          exact hready
        · exact .inl (mem_queue.mpr (.inr (.inr (.inl ⟨op, hop, Multiset.mem_cons_of_mem hpromise⟩))))
      · exact .inl (mem_queue.mpr (.inr (.inr (.inr hold))))
    · have hresume : ({ σ.queues i with strand := strand } : SerialCommandQueue).resume c =
          { σ.queues i with strand := strand } := by
        simp only [SerialCommandQueue.resume, hop, if_neg hmatch]
      rw [hresume] at hkept ⊢
      exact follows_alters h hi ⟨rfl, rfl, rfl, rfl, rfl⟩ hsame.current hsame.waiting (fun x hx => .inl (hpopped x hx)) hkept

omit [PoolSizes] in
theorem onIdle_alters (i : Nat) (vacant : Bool) (queue : SerialCommandQueue) :
    Alters σ ((σ.onIdle i vacant).setQueue i queue) i queue := by
  unfold onIdle
  split
  · exact ⟨rfl, rfl, rfl, rfl, rfl⟩
  · split
    · split <;> exact ⟨rfl, rfl, rfl, rfl, rfl⟩
    · split <;> exact ⟨rfl, rfl, rfl, rfl, rfl⟩
    · exact ⟨rfl, rfl, rfl, rfl, rfl⟩

theorem follows_runHandler (h : Paired σ owed S) (hi : i < σ.nextQueue) {vacant : Bool}
    (hstep : σ.runHandler i vacant = some σ') (hkept : σ'.Kept) (hr' : σ'.Registry) : Follows S owed σ' := by
  unfold runHandler at hstep
  dsimp only at hstep
  split at hstep
  swap
  · cases hstep
  next hfree =>
  obtain ⟨hreleasing, haway⟩ := Bool.and_eq_true_iff.mp hfree
  split at hstep
  · cases hstep
  · next e strand hstrand =>
    cases hstep
    have hsame := same_command hstrand
    refine follows_pump h hi ⟨rfl, rfl, rfl, rfl, rfl⟩ rfl hsame.waiting (fun x hx j hxj => ?_) hkept hr'
    rcases mem_queue.mp hx with ⟨y, hy, hxy⟩ | ⟨e', he', hxe⟩ | hold
    · refine mem_queue.mpr (.inl ⟨y, ?_, hxy⟩)
      rw [hstrand]
      exact List.mem_cons_of_mem _ hy
    · rcases List.mem_append.mp he' with he' | he'
      · exact mem_queue.mpr (.inr (.inl ⟨e', he', hxe⟩))
      · obtain rfl := List.mem_singleton.mp he'
        rcases Multiset.mem_cons.mp hxe with rfl | hpromise
        · cases hxj
        · refine mem_queue.mpr (.inl ⟨.command e', ?_, Multiset.mem_cons_of_mem hpromise⟩)
          rw [hstrand]
          exact List.mem_cons_self
    · exact mem_queue.mpr (.inr (.inr hold))
  · next c strand hstrand =>
    cases hstep
    refine follows_resume h hi hstrand (fun op hop => ?_) hkept
    rw [hop] at haway
    exact haway
  · next bytes strand hstrand =>
    cases hstep
    have hsame := same_closing hstrand (Option.isNone_iff_eq_none.mp hreleasing)
    refine follows_pump h hi (onIdle_alters i vacant _) rfl hsame.waiting (fun x hx j hxj => ?_) hkept hr'
    rcases mem_queue.mp hx with ⟨y, hy, hxy⟩ | hold | hold | ⟨-, rfl⟩
    · refine mem_queue.mpr (.inl ⟨y, ?_, hxy⟩)
      rw [hstrand]
      exact List.mem_cons_of_mem _ hy
    · exact mem_queue.mpr (.inr (.inl hold))
    · exact mem_queue.mpr (.inr (.inr (.inl hold)))
    · cases hxj

theorem follows_release (h : Paired σ owed S) (hi : i < σ.nextQueue) (hstep : σ.release i = some σ') (hkept : σ'.Kept) :
    Follows S owed σ' := by
  unfold release at hstep
  split at hstep
  · cases hstep
  · next bytes hreleasing =>
    cases hstep
    refine follows_alters h hi ⟨rfl, rfl, rfl, rfl, rfl⟩ rfl rfl (fun x hx => .inl ?_) hkept
    rcases mem_queue.mp hx with hold | hold | hold | ⟨hnone, -⟩
    · exact mem_queue.mpr (.inl hold)
    · exact mem_queue.mpr (.inr (.inl hold))
    · exact mem_queue.mpr (.inr (.inr (.inl hold)))
    · cases hnone

end Handler

/-! ## A thread of a pool -/

section Thread

variable {n : Nat} {o : Oracle} {pool : SlowPool} {thread : PoolThread} {x : Item}

/-- One thread goes on, and the line of slow steps gets shorter at most. -/
theorem mem_setThread {tasks : List SlowTask} (htasks : ∀ t ∈ tasks, t ∈ pool.tasks) (pending : Nat)
    (hx : x ∈ (({ pool with tasks, pending } : SlowPool).setThread n thread).items p) :
    x ∈ thread.items ∨ x ∈ pool.items p := by
  rcases mem_pool.mp hx with ⟨t, ht, rfl⟩ | ⟨m, hm, hx⟩
  · exact .inr (mem_pool.mpr (.inl ⟨t, htasks t ht, rfl⟩))
  · by_cases hmn : m = n
    · subst hmn
      rw [SlowPool.setThread_self] at hx
      exact .inl hx
    · rw [SlowPool.setThread_of_ne hmn] at hx
      exact .inr (mem_pool.mpr (.inr ⟨m, hm, hx⟩))

theorem mem_thread (hn : n < p.threads) (hx : x ∈ ((σ.pools p).threads n).items) : x ∈ σ.items :=
  mem_items.mpr (.inr ⟨p, mem_pool.mpr (.inr ⟨n, hn, hx⟩)⟩)

/-- A pool changes, and shows what it did. -/
theorem follows_setPool (h : Paired σ owed S)
    (hitem : ∀ x ∈ pool.items p, x ∈ (σ.pools p).items p ∨ x.Shown S σ.owners) (hkept : (σ.setPool p pool).Kept) :
    Follows S owed (σ.setPool p pool) := by
  refine follows_still (h.shows.keeps h.kept hkept h.registry (keeps_setPool σ p pool) rfl fun x hx => ?_)
  rcases mem_setPool hx with hx | hx
  · exact (hitem x hx).imp_left fun hold => mem_items.mpr (.inr ⟨p, hold⟩)
  · exact .inl hx

/-- A slow step returns: the serial server makes the call. -/
theorem follows_work (h : Paired σ owed S) (hn : n < p.threads) {t : SlowTask}
    (hthread : (σ.pools p).threads n = .working t)
    (hkept : Kept { σ.setPool p ((σ.pools p).setThread n
      (.worked { wait := t.wait, next := t.next (exec t.work o σ.server).1 })) with
        server := (exec t.work o σ.server).2 }) :
    Follows S owed { σ.setPool p ((σ.pools p).setThread n
      (.worked { wait := t.wait, next := t.next (exec t.work o σ.server).1 })) with
        server := (exec t.work o σ.server).2 } := by
  have hsound := h.kept.sound
  have hslow : .slow t true ∈ σ.items := by
    refine mem_thread hn ?_
    rw [hthread]
    exact Multiset.mem_singleton_self _
  have hwake : t.wait ∈ (Item.slow t true).wakes := Multiset.mem_singleton_self _
  obtain ⟨-, op, hop, hstage, -⟩ := suspended_of_wake hsound hslow hwake
  have hover : op.isOver = false := by rw [Operation.isOver, hstage]
  obtain ⟨hdoing, hcall⟩ := (h.shows.busy t.wait.queue).item _ hslow rfl
  rw [← h.thread hop] at hdoing
  obtain ⟨S', hstep, hbare, hline, hmoved⟩ := Server.advance h.prompt (h.carries hop hover) hdoing hcall o
  rw [h.shows.data] at hbare hmoved
  rw [h.thread hop] at hmoved
  have hfree (c : Completion) (hc : .promised c ∈ σ.items) : c.wait.queue ≠ t.wait.queue := by
    intro heq
    cases wake_unique hsound hc hslow (Multiset.mem_singleton_self _) hwake heq
  let c : Completion := { wait := t.wait, next := t.next (exec t.work o σ.server).1 }
  let pool := (σ.pools p).setThread n (.worked c)
  have hmem (x : Item) (hx : x ∈ (σ.setPool p pool).items) : x = .ready c 2 ∨ x ∈ σ.items := by
    rcases mem_setPool hx with hx | hx
    · refine (mem_setThread (fun _ ht => ht) (σ.pools p).pending hx).imp Multiset.mem_singleton.mp
        fun hold => ?_
      exact mem_items.mpr (.inr ⟨p, hold⟩)
    · exact .inr hx
  have hready : .ready c 2 ∈ (σ.setPool p pool).items := by
    refine mem_thread hn ?_
    rw [show (σ.setPool p pool).pools p = pool from Function.update_self _ _ _, SlowPool.setThread_self]
    exact Multiset.mem_singleton_self _
  refine follows_step hstep (h.shows.keepsMove h.kept h.registry (keeps_queues rfl rfl rfl) hop hover hfree hmoved
    (fun x hx j hne hxj => ?_) (fun x hx hxi => ?_) hbare hline)
  · rcases hmem x hx with rfl | hold
    · exact absurd (Option.some.inj hxj).symm hne
    · exact hold
  · rcases item_asleep hkept.sound hop hready (Multiset.mem_singleton_self _) rfl hx hxi with rfl | rfl
    · intro body hbody
      rw [Operation.body?, hstage] at hbody
      cases hbody
    · exact hmoved.self

theorem follows_runThread (h : Paired σ owed S) (hn : n < p.threads) (hstep : σ.runThread p n o = some σ')
    (hkept : σ'.Kept) : Follows S owed σ' := by
  have hown (x : Item) (hx : x ∈ ((σ.pools p).threads n).items) (i : Nat) (hi : x.queue? = some i) :
      x.Shown S σ.owners := (h.shows.busy i).item x (mem_thread hn hx) hi
  cases hthread : (σ.pools p).threads n with
  | looking =>
    simp only [runThread, hthread] at hstep
    cases hstep
    cases htasks : (σ.pools p).tasks with
    | nil =>
      refine follows_setPool h (fun x hx => ?_) hkept
      simp only [SlowPool.look, htasks] at hx
      refine .inl ((mem_setThread (fun _ ht => ht) (σ.pools p).pending hx).resolve_left fun hnew => ?_)
      split at hnew <;> exact absurd hnew (Multiset.notMem_zero x)
    | cons t tasks =>
      refine follows_setPool h (fun x hx => ?_) hkept
      simp only [SlowPool.look, htasks] at hx
      have hline : .slow t false ∈ σ.items := by
        refine mem_items.mpr (.inr ⟨p, mem_pool.mpr (.inl ⟨t, ?_, rfl⟩)⟩)
        rw [htasks]
        exact List.mem_cons_self
      have hset := mem_setThread 
        (fun t' ht' => by rw [htasks]; exact List.mem_cons_of_mem _ ht') (σ.pools p).pending hx
      rcases hset with hnew | hold
      · obtain rfl := Multiset.mem_singleton.mp hnew
        exact .inr (show (Item.slow t false).Shown S σ.owners from (h.shows.busy t.wait.queue).item _ hline rfl)
      · exact .inl hold
  | blocked =>
    simp only [runThread, hthread] at hstep
    cases hstep
  | working t =>
    simp only [runThread, hthread] at hstep
    cases hstep
    exact follows_work h hn hthread hkept
  | worked c =>
    simp only [runThread, hthread] at hstep
    cases hstep
    refine follows_setPool h (fun x hx => ?_) hkept
    refine (mem_setThread (fun _ ht => ht) ((σ.pools p).pending - 1) hx).symm.imp_right fun hnew => ?_
    obtain rfl := Multiset.mem_singleton.mp hnew
    rw [hthread] at hown
    exact hown (.ready c 2) (Multiset.mem_singleton_self _) c.wait.queue rfl
  | completing c =>
    simp only [runThread, hthread] at hstep
    cases hstep
    rw [hthread] at hown
    have hready : .ready c 1 ∈ σ.items := by
      refine mem_thread hn ?_
      rw [hthread]
      exact Multiset.mem_singleton_self _
    have hlt : c.wait.queue < σ.nextQueue := queue_lt h.kept.sound hready rfl
    refine follows_still (h.shows.keeps h.kept hkept h.registry
      ((keeps_setPool σ p _).trans (keeps_complete _ c)) rfl fun x hx => ?_)
    have hset : x = .ready c 0 ∨ x ∈ (σ.setPool p ((σ.pools p).setThread n .looking)).items := mem_complete hlt hx
    rcases hset with rfl | hx
    · exact .inr (hown (.ready c 1) (Multiset.mem_singleton_self _) c.wait.queue rfl)
    · rcases mem_setPool hx with hx | hx
      · rcases mem_setThread (fun _ ht => ht) (σ.pools p).pending hx with hnew | hold
        · exact absurd hnew (Multiset.notMem_zero x)
        · exact .inl (mem_items.mpr (.inr ⟨p, hold⟩))
      · exact .inl hx
  | returned =>
    simp only [runThread, hthread] at hstep
    cases hstep

end Thread

/-- Whatever a thread of the business layer does next, the serial server goes along. -/
theorem follows_inner (h : Paired σ owed S) (hrunning : σ.shutdown = none) {e : Event} (he : e.isInner = true)
    (hstep : σ.step e = some σ') (hkept : σ'.Kept) (hr' : σ'.Registry) : Follows S owed σ' := by
  cases e with
  | handler i vacant =>
    simp only [step] at hstep
    split at hstep
    · next hi => exact follows_runHandler h hi hstep hkept hr'
    · cases hstep
  | step i o chosen =>
    simp only [step] at hstep
    split at hstep
    · next hi => exact follows_stepOp h hi hstep hkept
    · cases hstep
  | release i =>
    simp only [step] at hstep
    split at hstep
    · next hi => exact follows_release h hi hstep hkept
    · cases hstep
  | thread p n o =>
    simp only [step] at hstep
    split at hstep
    · next hn => exact follows_runThread h hn hstep hkept
    · cases hstep
  | join =>
    simp only [step, join, hrunning] at hstep
    cases hstep
  | _ => cases he

end LogicSystem

end SyncRtc
