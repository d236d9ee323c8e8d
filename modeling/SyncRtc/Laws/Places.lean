import SyncRtc.Laws.Registry

/-!
# Places in the slow pools

An operation takes a place in a pool before its first slow step there, keeps it as long as it runs, and gives it back
before it waits for a room and when it ends. The pool counts the places; a slow step that is submitted is counted
besides, until it has been carried out. A step is submitted by an operation that holds a place and has no other step
under way, so a pool never holds more steps than places, and an operation with a place is never refused.
-/

set_option autoImplicit false

namespace SyncRtc

open SerialCommandQueue

/-! ## The steps under way in a pool -/

/-- Which operation waits for what the thread carries out. -/
def PoolThread.steps : PoolThread → Multiset Suspension
  | .working t => {t.wait}
  | .worked c => {c.wait}
  | _ => 0

namespace SlowPool

variable [PoolSizes] {p : PoolName}

/-- Which operations wait for the steps the pool counts. -/
def steps (pool : SlowPool) (p : PoolName) : Multiset Suspension :=
  (pool.tasks.map SlowTask.wait : List Suspension) + ∑ n ∈ Finset.range p.threads, (pool.threads n).steps

theorem steps_setThread (pool : SlowPool) {n : Nat} (hn : n < p.threads) :
    ∃ rest, pool.steps p = (pool.threads n).steps + rest ∧
      ∀ thread, (pool.setThread n thread).steps p = thread.steps + rest := by
  obtain ⟨rest, h, hset⟩ := sum_exchange (f := pool.threads) (fun _ t => t.steps) (Finset.mem_range.mpr hn)
  refine ⟨(pool.tasks.map SlowTask.wait : List Suspension) + rest, ?_, fun thread => ?_⟩
  · rw [add_left_comm, ← h]
    rfl
  · rw [add_left_comm, ← hset]
    rfl

theorem steps_notifyOne (pool : SlowPool) (p : PoolName) (chosen : Nat) :
    (pool.notifyOne p chosen).steps p = pool.steps p ∧ (pool.notifyOne p chosen).pending = pool.pending := by
  rcases pool.notifyOne_cases p chosen with ⟨n, hn, hblocked, hnotify⟩ | ⟨-, hnotify⟩
  · obtain ⟨rest, hpool, hset⟩ := steps_setThread pool hn
    rw [hnotify, hpool, hset, hblocked]
    exact ⟨rfl, rfl⟩
  · rw [hnotify]
    exact ⟨rfl, rfl⟩

/-- A submitted step is counted. -/
theorem steps_submit {pool pool' : SlowPool} {t : SlowTask} {chosen : Nat} (h : pool.submit p t chosen = some pool') :
    pool'.steps p = t.wait ::ₘ pool.steps p ∧ pool'.pending = pool.pending + 1 ∧ pool'.reserved = pool.reserved := by
  have hreserved := (LogicSystem.items_submit h).2
  unfold SlowPool.submit at h
  split at h
  · cases h
  cases h
  obtain ⟨hsteps, hpending⟩ := steps_notifyOne { pool with tasks := pool.tasks ++ [t], pending := pool.pending + 1 } p chosen
  refine ⟨hsteps.trans ?_, hpending, hreserved⟩
  simp only [steps, List.map_append, List.map_cons, List.map_nil, ← Multiset.coe_add, Multiset.coe_singleton]
  rw [add_right_comm, ← Multiset.singleton_add, add_comm ({t.wait} : Multiset Suspension)]

theorem steps_stop (pool : SlowPool) : pool.stop.steps p = pool.steps p := by
  simp only [steps, stop]
  congr 1
  refine Finset.sum_congr rfl fun n _ => ?_
  split
  · next hblocked =>
    rw [SlowPool.isBlocked_iff.mp hblocked]
    rfl
  · rfl

end SlowPool

namespace LogicSystem

variable [PoolSizes] {σ σ' : LogicSystem} {i : Nat} {p : PoolName}

/-- The places and the steps of each pool are what the operations hold and have submitted. -/
structure Places (σ : LogicSystem) : Prop where
  /-- An operation holds one place in a pool at most. -/
  once : ∀ i op, (σ.queues i).active = some op → op.reserved.Nodup
  capacity : ∀ p : PoolName, (σ.pools p).reserved ≤ p.capacity
  pending : ∀ p, (σ.pools p).pending = ((σ.pools p).steps p).card
  /-- Who waits for a step in a pool holds a place there. -/
  held : ∀ p, ∀ w ∈ (σ.pools p).steps p, ∀ op, (σ.queues w.queue).active = some op → p ∈ op.reserved

/-- A step that is under way is for an operation that is suspended for it. -/
theorem suspended_of_step (hσ : σ.books.Sound) {w : Suspension} (hw : w ∈ (σ.pools p).steps p) :
    w.queue < σ.nextQueue ∧ ∃ op, (σ.queues w.queue).active = some op ∧ op.stage = .suspended w.handed := by
  have hitem : ∃ x ∈ σ.items, w ∈ x.wakes := by
    rcases Multiset.mem_add.mp hw with hline | hthread
    · obtain ⟨t, ht, rfl⟩ := List.mem_map.mp (Multiset.mem_coe.mp hline)
      exact ⟨_, mem_items.mpr (.inr ⟨p, mem_pool.mpr (.inl ⟨t, ht, rfl⟩)⟩), Multiset.mem_singleton_self _⟩
    · obtain ⟨n, hn, hmem⟩ := Multiset.mem_sum.mp hthread
      have hn' := Finset.mem_range.mp hn
      have hitems {x : Item} (hx : x ∈ ((σ.pools p).threads n).items) : x ∈ σ.items :=
        mem_items.mpr (.inr ⟨p, mem_pool.mpr (.inr ⟨n, hn', hx⟩)⟩)
      cases hstage : (σ.pools p).threads n with
      | working t =>
        rw [hstage] at hmem hitems
        cases Multiset.mem_singleton.mp hmem
        exact ⟨_, hitems (Multiset.mem_singleton_self _), Multiset.mem_singleton_self _⟩
      | worked c =>
        rw [hstage] at hmem hitems
        cases Multiset.mem_singleton.mp hmem
        exact ⟨_, hitems (Multiset.mem_singleton_self _), Multiset.mem_singleton_self _⟩
      | _ =>
        rw [hstage] at hmem
        exact absurd hmem (Multiset.notMem_zero _)
  obtain ⟨x, hx, hwake⟩ := hitem
  obtain ⟨hlt, op, hop, hstage, -⟩ := suspended_of_wake hσ hx hwake
  exact ⟨hlt, op, hop, hstage⟩

/-- No step of the operation on queue `i` is under way. -/
def Stepless (σ : LogicSystem) (i : Nat) : Prop := ∀ p, ∀ w ∈ (σ.pools p).steps p, w.queue ≠ i

theorem stepless_of_awake (hσ : σ.books.Sound) {op : Operation} (hop : (σ.queues i).active = some op)
    (hawake : ∀ handed, op.stage ≠ .suspended handed) : σ.Stepless i := by
  rintro p w hw rfl
  obtain ⟨-, op', hop', hstage⟩ := suspended_of_step hσ hw
  rw [hop] at hop'
  cases hop'
  exact hawake _ hstage

theorem stepless_of_idle (hσ : σ.books.Sound) (hidle : (σ.queues i).active = none) : σ.Stepless i := by
  rintro p w hw rfl
  obtain ⟨-, op, hop, -⟩ := suspended_of_step hσ hw
  rw [hidle] at hop
  cases hop

/-! ## Queues change, the pools do not -/

/-- The pools are the same, and so are the operations, or there are fewer. -/
theorem Places.same (h : σ.Places) (hpools : σ'.pools = σ.pools)
    (hactive : ∀ j op, (σ'.queues j).active = some op → (σ.queues j).active = some op) : σ'.Places := by
  refine ⟨fun j op hop => h.once j op (hactive j op hop), ?_, ?_, fun q w hw op hop => ?_⟩
  · rw [hpools]
    exact h.capacity
  · rw [hpools]
    exact h.pending
  · rw [hpools] at hw
    exact h.held q w hw op (hactive _ op hop)

theorem Places.setQueue (h : σ.Places) {queue : SerialCommandQueue}
    (hqueue : ∀ op, queue.active = some op → op.reserved.Nodup ∧
      ∀ p, ∀ w ∈ (σ.pools p).steps p, w.queue = i → p ∈ op.reserved) : (σ.setQueue i queue).Places := by
  refine ⟨fun j op hop => ?_, h.capacity, h.pending, fun q w hw op hop => ?_⟩
  · rw [queues_setQueue] at hop
    split at hop
    · exact (hqueue op hop).1
    · exact h.once j op hop
  · rw [queues_setQueue] at hop
    split at hop
    · next heq => exact (hqueue op hop).2 q w hw heq
    · exact h.held q w hw op hop

/-- An operation without a step under way goes on. -/
theorem Places.setOp (h : σ.Places) (hstepless : σ.Stepless i) (op : Operation) (hnodup : op.reserved.Nodup) :
    (σ.setOp i op).Places := by
  refine h.setQueue fun op' hop => ?_
  cases hop
  exact ⟨hnodup, fun p w hw heq => absurd heq (hstepless p w hw)⟩

theorem Places.complete (h : σ.Places) (c : Completion) : (σ.complete c).Places := by
  refine h.same rfl fun j op hop => ?_
  simp only [LogicSystem.complete, queues_setQueue] at hop
  split at hop
  · next heq => exact heq ▸ hop
  · exact hop

/-! ## A pool changes -/

theorem Places.setPool (h : σ.Places) {pool : SlowPool} (hcapacity : pool.reserved ≤ p.capacity)
    (hpending : pool.pending = (pool.steps p).card)
    (hheld : ∀ w ∈ pool.steps p, w ∈ (σ.pools p).steps p ∨
      ∀ op, (σ.queues w.queue).active = some op → p ∈ op.reserved) : (σ.setPool p pool).Places := by
  have hpools (q : PoolName) : (σ.setPool p pool).pools q = if q = p then pool else σ.pools q := by
    simp only [LogicSystem.setPool, Function.update_apply]
  refine ⟨h.once, fun q => ?_, fun q => ?_, fun q w hw op hop => ?_⟩
  · rw [hpools]
    split
    · next heq => exact heq ▸ hcapacity
    · exact h.capacity q
  · rw [hpools]
    split
    · next heq => exact heq ▸ hpending
    · exact h.pending q
  · rw [hpools] at hw
    split at hw
    · next heq =>
      subst heq
      exact (hheld w hw).elim (fun hold => h.held q w hold op hop) fun hnew => hnew op hop
    · exact h.held q w hw op hop

/-- The steps under way are the same. -/
theorem Places.setPlaces (h : σ.Places) {n : Nat} (hcapacity : n ≤ p.capacity) :
    (σ.setPool p { σ.pools p with reserved := n }).Places :=
  h.setPool hcapacity (h.pending p) fun _ hw => .inl hw

/-- Some of the steps are over. -/
theorem Places.fewer (h : σ.Places) {pool : SlowPool} (hreserved : pool.reserved = (σ.pools p).reserved)
    (hpending : pool.pending = (pool.steps p).card) (hsteps : pool.steps p ≤ (σ.pools p).steps p) :
    (σ.setPool p pool).Places :=
  h.setPool (hreserved ▸ h.capacity p) hpending fun _ hw => .inl (Multiset.mem_of_le hsteps hw)

/-! ## A coroutine goes on -/

section Coroutine

variable {op : Operation} {c : Call} {k : c.Res → Op Unit}

/-- A place is given back. -/
theorem places_releaseCapacity (h : σ.Places) (hstepless : σ.Stepless i) (hop : (σ.queues i).active = some op)
    {rest : List PoolName} (hres : op.reserved = p :: rest) : (σ.releaseCapacity i op p rest).Places := by
  have hnodup : (p :: rest).Nodup := hres ▸ h.once i op hop
  refine (h.setOp hstepless { op with reserved := rest } (List.nodup_cons.mp hnodup).2).setPlaces (p := p) ?_
  exact (Nat.sub_le _ _).trans (h.capacity p)

/-- A place is taken. -/
theorem places_taken (h : σ.Places) (hstepless : σ.Stepless i) {op' : Operation} (hnodup : op'.reserved.Nodup)
    {pool : SlowPool} (hreserve : (σ.pools p).reserve p = some pool) : ((σ.setPool p pool).setOp i op').Places := by
  unfold SlowPool.reserve at hreserve
  split at hreserve
  · cases hreserve
  · next hroom =>
    cases hreserve
    refine (h.setOp hstepless op' hnodup).setPlaces (p := p) ?_
    omega

omit [PoolSizes] in
theorem nodup_taken (hnodup : op.reserved.Nodup) (hnot : p ∉ op.reserved) : (op.reserved ++ [p]).Nodup :=
  List.nodup_append.mpr ⟨hnodup, List.nodup_singleton p, fun _ ha _ hb heq => hnot (List.mem_singleton.mp hb ▸ heq ▸ ha)⟩

theorem places_reserve (h : σ.Places) (hstepless : σ.Stepless i) (hop : (σ.queues i).active = some op)
    (hnot : p ∉ op.reserved) : (σ.reserve i op p c k).Places := by
  have hnodup := h.once i op hop
  unfold reserve
  split
  · next pool hreserve => exact places_taken h hstepless (nodup_taken hnodup hnot) hreserve
  · split
    · exact h.setOp hstepless _ hnodup
    · exact h.setOp hstepless _ hnodup

/-- A step is submitted, for an operation with a place. -/
theorem places_await (h : σ.Places) (hstepless : σ.Stepless i) (hop : (σ.queues i).active = some op)
    (hheld : p ∈ op.reserved) (chosen : Nat) : (σ.await i op p chosen c k).Places := by
  have hsuspended := h.setOp hstepless (op.suspend false) (h.once i op hop)
  unfold await
  split
  · next pool hsubmit =>
    obtain ⟨hsteps, hpending, hreserved⟩ := SlowPool.steps_submit hsubmit
    refine hsuspended.setPool (p := p) ?_ ?_ fun w hw => ?_
    · exact hreserved ▸ h.capacity p
    · rw [hpending, hsteps, Multiset.card_cons, h.pending]
    · rw [hsteps] at hw
      rcases Multiset.mem_cons.mp hw with rfl | hold
      · right
        intro op' hop'
        have hactive : ((σ.setOp i (op.suspend false)).queues i).active = some (op.suspend false) := by
          rw [LogicSystem.setOp, queues_setQueue, if_pos rfl]
          rfl
        cases hactive.symm.trans hop'
        exact hheld
      · exact .inl hold
  · exact hsuspended.complete _

theorem places_enter (h : σ.Places) (hstepless : σ.Stepless i) (hop : (σ.queues i).active = some op)
    (hheld : p ∈ op.reserved) (chosen : Nat) : (σ.enter i op p chosen c k).Places := by
  unfold enter
  split
  · exact h.setOp hstepless _ (h.once i op hop)
  · exact places_await h hstepless hop hheld chosen

end Coroutine

/-! ## A command is accepted -/

omit [PoolSizes] in
theorem active_submit {job : Job} {done : Option Completion} {bytes : Nat} (h : σ.submit i job done bytes = some σ') :
    σ'.pools = σ.pools ∧ ∀ j, (σ'.queues j).active = (σ.queues j).active := by
  obtain ⟨-, scheduler, -, rfl⟩ := submit_some h
  refine ⟨rfl, fun j => ?_⟩
  dsimp only
  rw [queues_setQueue]
  split
  · next heq => exact heq ▸ rfl
  · rfl

omit [PoolSizes] in
theorem active_create (owner : Thread) {j : Nat} {op : Operation} (h : ((σ.create owner).queues j).active = some op) :
    (σ.queues j).active = some op := by
  simp only [LogicSystem.create, Function.update_apply] at h
  split at h
  · cases h
  · exact h

theorem Places.submit (h : σ.Places) {job : Job} {done : Option Completion} {bytes : Nat}
    (hsubmit : σ.submit i job done bytes = some σ') : σ'.Places := by
  obtain ⟨hpools, hactive⟩ := active_submit hsubmit
  exact h.same hpools fun j op hop => (hactive j).symm.trans hop

/-- A queue is created and accepts. -/
theorem Places.created (h : σ.Places) {owner : Thread} {rooms : MeetingId → Option Nat}
    {connections : SessionId → Option Nat} {job : Job} {done : Option Completion} {bytes : Nat}
    (hsubmit : ({ σ.create owner with rooms, connections } : LogicSystem).submit σ.nextQueue job done bytes = some σ') :
    σ'.Places := by
  have hcreated : ({ σ.create owner with rooms, connections } : LogicSystem).Places :=
    h.same rfl fun j op hop => active_create owner hop
  exact hcreated.submit hsubmit

theorem Places.submitRoom (h : σ.Places) {m : MeetingId} {task : Task} {done : Option Completion} {bytes : Nat}
    (hsubmit : σ.submitRoom m task done bytes = some σ') : σ'.Places := by
  unfold LogicSystem.submitRoom at hsubmit
  split at hsubmit
  · exact h.submit hsubmit
  · exact h.created hsubmit

theorem Places.submitConnection (h : σ.Places) (s : SessionId) (command : Command) (bytes : Nat) :
    (σ.submitConnection s command bytes).Places := by
  unfold LogicSystem.submitConnection
  dsimp only
  split
  · split
    · next σ' hsubmit => exact h.submit hsubmit
    · split
      · exact h.same rfl fun _ _ hop => hop
      · exact h.same rfl fun _ _ hop => hop
  · split
    · next σ' hsubmit => exact h.created hsubmit
    · exact h.same rfl fun _ _ hop => hop

omit [PoolSizes] in
theorem pools_submitRoom {m : MeetingId} {task : Task} {done : Option Completion} {bytes : Nat}
    (hsubmit : σ.submitRoom m task done bytes = some σ') : σ'.pools = σ.pools := by
  unfold LogicSystem.submitRoom at hsubmit
  split at hsubmit
  · exact (active_submit hsubmit).1
  · exact (active_submit hsubmit).1

/-! ## Every step -/

section Coroutine

variable {op : Operation}

theorem places_callSubmitRoom (h : σ.Places) (hstepless : σ.Stepless i) (hop : (σ.queues i).active = some op)
    (m : MeetingId) (task : Task) (k : Bool → Op Unit) : (σ.callSubmitRoom i op m task k).Places := by
  have hnodup := h.once i op hop
  have haccepted {σ' : LogicSystem} {done : Option Completion} {bytes : Nat}
      (hsubmit : σ.submitRoom m task done bytes = some σ') (op' : Operation) (hsame : op'.reserved = op.reserved) :
      (σ'.setOp i op').Places := by
    have hstepless' : σ'.Stepless i := by
      unfold Stepless
      rw [pools_submitRoom hsubmit]
      exact hstepless
    exact (h.submitRoom hsubmit).setOp hstepless' op' (hsame ▸ hnodup)
  unfold callSubmitRoom
  split
  · split
    · next p rest hres => exact places_releaseCapacity h hstepless hop hres
    · unfold handOver
      split
      · next σ' hsubmit => exact haccepted hsubmit (op.suspend true) rfl
      · exact (h.setOp hstepless (op.suspend true) hnodup).complete _
  · split
    · next σ' hsubmit => exact haccepted hsubmit (op.run (k true)) rfl
    · exact h.setOp hstepless (op.run (k false)) hnodup

theorem places_finish (h : σ.Places) (hstepless : σ.Stepless i) (hop : (σ.queues i).active = some op) :
    (σ.finish i op).Places := by
  have hended : ((σ.record op.entry.job).setOp i op.ended).Places := by
    have hrecord : (σ.record op.entry.job).Places := h.same rfl fun _ _ hop => hop
    exact hrecord.setOp hstepless op.ended (h.once i op hop)
  unfold finish
  split
  · next p rest hres => exact places_releaseCapacity h hstepless hop hres
  · split
    · exact hended.complete _
    · exact hended

theorem places_run (h : σ.Places) (hstepless : σ.Stepless i) (hop : (σ.queues i).active = some op) (o : Oracle)
    (chosen : Nat) (body : Op Unit) : (σ.run i op o chosen body).Places := by
  unfold run
  split
  · exact places_finish h hstepless hop
  · split
    · split
      · next hheld => exact places_enter h hstepless hop hheld chosen
      · next hnot => exact places_reserve h hstepless hop hnot
    · unfold proceed
      split
      · exact places_callSubmitRoom h hstepless hop _ _ _
      · exact Places.same (h.setOp hstepless (op.run _) (h.once i op hop)) rfl fun _ _ hop => hop

theorem places_stepOp (h : σ.Places) (hσ : σ.books.Sound) (hi : i < σ.nextQueue) {o : Oracle} {chosen : Nat}
    (hstep : σ.stepOp i o chosen = some σ') : σ'.Places := by
  unfold stepOp at hstep
  split at hstep
  · cases hstep
  next op hop =>
  split at hstep
  · next body hstage =>
    cases hstep
    exact places_run h (stepless_of_awake hσ hop fun _ heq => by rw [hstage] at heq; cases heq) hop o chosen body
  · next p body hstage =>
    have hstepless : σ.Stepless i := stepless_of_awake hσ hop fun _ heq => by rw [hstage] at heq; cases heq
    have hgood : op.StageGood := (hσ.good _ (mem_operation.mpr ⟨hi, hop⟩)).2
    simp only [Operation.StageGood, hstage] at hgood
    split at hstep
    · unfold retry at hstep
      split at hstep
      · next pool hreserve =>
        cases hstep
        exact places_taken h hstepless (nodup_taken (h.once i op hop) hgood.2.1) hreserve
      · cases hstep
    · cases hstep
  · cases hstep
  · next hstage =>
    cases hstep
    have hstepless : σ.Stepless i := stepless_of_awake hσ hop fun _ heq => by rw [hstage] at heq; cases heq
    refine h.setQueue fun op' hop' => ?_
    cases hop'
    exact ⟨h.once i op hop, fun p w hw heq => absurd heq (hstepless p w hw)⟩
  · next hstage =>
    cases hstep
    refine h.setQueue fun op' hop' => ?_
    cases hop'

end Coroutine

omit [PoolSizes] in
/-- `Pump` starts an operation that holds no place. -/
theorem pump_reserved (queue : SerialCommandQueue) {op : Operation} (hop : queue.pump.active = some op) :
    queue.active = some op ∨ queue.active = none ∧ op.reserved = [] := by
  unfold pump at hop
  split at hop
  · next hactive _ =>
    cases hop
    exact .inr ⟨hactive, rfl⟩
  · exact .inl hop

theorem Places.pump (h : σ.Places) (hσ : σ.books.Sound) {queue : SerialCommandQueue}
    (hactive : queue.active = (σ.queues i).active) : (σ.setQueue i queue.pump).Places := by
  refine h.setQueue fun op hop => ?_
  rcases pump_reserved queue hop with hsame | ⟨hidle, hnone⟩
  · rw [hactive] at hsame
    exact ⟨h.once i op hsame, fun p w hw heq => h.held p w hw op (heq ▸ hsame)⟩
  · rw [hactive] at hidle
    exact ⟨hnone ▸ List.nodup_nil, fun p w hw heq => absurd heq (stepless_of_idle hσ hidle p w hw)⟩

theorem places_runHandler (h : σ.Places) (hσ : σ.books.Sound) {vacant : Bool}
    (hstep : σ.runHandler i vacant = some σ') : σ'.Places := by
  unfold runHandler at hstep
  dsimp only at hstep
  split at hstep
  swap
  · cases hstep
  split at hstep
  · cases hstep
  · cases hstep
    exact h.pump hσ rfl
  · next c rest hstrand =>
    cases hstep
    refine h.setQueue fun op' hop' => ?_
    unfold SerialCommandQueue.resume at hop'
    split at hop'
    · next op hop =>
      split at hop'
      · cases hop'
        exact ⟨h.once i op hop, fun p w hw heq => h.held p w hw op (heq ▸ hop)⟩
      · exact ⟨h.once i op' hop', fun p w hw heq => h.held p w hw op' (heq ▸ hop')⟩
    · next hnone => exact nomatch hnone.symm.trans hop'
  · cases hstep
    have hidle : (σ.onIdle i vacant).Places ∧ (σ.onIdle i vacant).queues = σ.queues ∧
        (σ.onIdle i vacant).books = σ.books := by
      unfold onIdle
      repeat' split
      all_goals exact ⟨h.same rfl fun _ _ hop => hop, rfl, rfl⟩
    obtain ⟨hplaces, hqueues, hbooks⟩ := hidle
    exact hplaces.pump (hbooks ▸ hσ) (congrFun hqueues i ▸ rfl)

theorem places_release (h : σ.Places) (hstep : σ.release i = some σ') : σ'.Places := by
  unfold release at hstep
  split at hstep
  · cases hstep
  · cases hstep
    refine h.same rfl fun j op hop => ?_
    dsimp only at hop
    rw [queues_setQueue] at hop
    split at hop
    · next heq => exact heq ▸ hop
    · exact hop

theorem places_runThread (h : σ.Places) {n : Nat} (hn : n < p.threads) {o : Oracle}
    (hstep : σ.runThread p n o = some σ') : σ'.Places := by
  obtain ⟨rest, hpool, hset⟩ := SlowPool.steps_setThread (σ.pools p) hn
  have hpending := h.pending p
  unfold runThread at hstep
  dsimp only at hstep
  split at hstep
  · next hthread =>
    cases hstep
    rw [hthread] at hpool
    unfold SlowPool.look
    split
    · next t tasks htasks =>
      obtain ⟨rest, hshorter, hset⟩ := SlowPool.steps_setThread ({ σ.pools p with tasks } : SlowPool) hn
      have hsame : (({ σ.pools p with tasks } : SlowPool).setThread n (.working t)).steps p = (σ.pools p).steps p := by
        have hold : (σ.pools p).steps p = {t.wait} + ({ σ.pools p with tasks } : SlowPool).steps p := by
          simp only [SlowPool.steps, htasks, List.map_cons, ← Multiset.cons_coe, ← Multiset.singleton_add, add_assoc]
        rw [hset, hold, hshorter, show ({ σ.pools p with tasks } : SlowPool).threads n = .looking from hthread]
        exact congrArg _ (zero_add rest).symm
      exact h.fewer rfl (hsame ▸ hpending) hsame.le
    · have hsame (thread : PoolThread) (hnone : thread.steps = 0) :
          ((σ.pools p).setThread n thread).steps p = (σ.pools p).steps p := by
        rw [hset, hpool, hnone]
        rfl
      split
      · exact h.fewer rfl (hsame .returned rfl ▸ hpending) (hsame .returned rfl).le
      · exact h.fewer rfl (hsame .blocked rfl ▸ hpending) (hsame .blocked rfl).le
  · cases hstep
  · next t hthread =>
    cases hstep
    let pool := (σ.pools p).setThread n (.worked ⟨t.wait, t.next (exec t.work o σ.server).1⟩)
    have hsame : pool.steps p = (σ.pools p).steps p := by
      rw [hset, hpool, hthread]
      rfl
    have hworked : (σ.setPool p pool).Places := h.fewer rfl (hsame ▸ hpending) hsame.le
    exact hworked.same rfl fun _ _ hop => hop
  · next c hthread =>
    cases hstep
    rw [hthread] at hpool
    have hleft : (({ σ.pools p with pending := (σ.pools p).pending - 1 } : SlowPool).setThread n
        (.completing c)).steps p = rest := (hset (.completing c)).trans (zero_add rest)
    refine h.fewer rfl ?_ ?_
    · have hcount : (σ.pools p).pending = 1 + rest.card := by
        rw [hpending, hpool, Multiset.card_add]
        rfl
      rw [hleft]
      show (σ.pools p).pending - 1 = rest.card
      omega
    · rw [hleft, hpool]
      exact Multiset.le_add_left _ _
  · next c hthread =>
    cases hstep
    have hsame : ((σ.pools p).setThread n .looking).steps p = (σ.pools p).steps p := by
      rw [hset, hpool, hthread]
      rfl
    have hlooking : (σ.setPool p ((σ.pools p).setThread n .looking)).Places :=
      h.fewer rfl (hsame ▸ hpending) hsame.le
    exact hlooking.complete c
  · cases hstep

theorem places_join (h : σ.Places) (hstep : σ.join = some σ') : σ'.Places := by
  have hstop (p : PoolName) : (σ.setPool p (σ.pools p).stop).Places := by
    refine h.fewer rfl ?_ (SlowPool.steps_stop _).le
    rw [SlowPool.steps_stop]
    exact h.pending p
  unfold join at hstep
  split at hstep
  · split at hstep
    · cases hstep
      exact (hstop .storage).same rfl fun _ _ hop => hop
    · cases hstep
      exact h.same rfl fun _ _ hop => hop
  · split at hstep
    · cases hstep
      exact (hstop .ai).same rfl fun _ _ hop => hop
    · cases hstep
  · split at hstep
    · cases hstep
      exact h.same rfl fun _ _ hop => hop
    · cases hstep
  · cases hstep

theorem places_outer (h : σ.Places) {e : Event} (he : e.isInner = false) (hstep : σ.step e = some σ') : σ'.Places := by
  have hpost (s : SessionId) (command : Command) (bytes : Nat) : (σ.postMsgToQue s command bytes).Places := by
    unfold postMsgToQue
    split
    · exact h
    · exact h.submitConnection s command bytes
  cases e with
  | frame s r bytes =>
    cases hstep
    exact hpost s _ bytes
  | disconnected s =>
    cases hstep
    exact hpost s _ 0
  | timer =>
    cases hstep
    unfold postReconnectTimeoutCheck
    split
    · exact h
    · cases hsubmit : σ.submit 1 .timer none 0 with
      | none => exact h
      | some σ' => exact h.submit hsubmit
  | media event epoch message bytes =>
    cases hstep
    unfold postMediaEvent
    split
    · exact h
    · split
      · next σ' hsubmit => exact h.submit hsubmit
      · exact h.same rfl fun _ _ hop => hop
  | outside server =>
    cases hstep
    exact h.same rfl fun _ _ hop => hop
  | shutdown =>
    have hshutdown : σ.callShutdown = some σ' := hstep
    unfold callShutdown at hshutdown
    split at hshutdown <;> cases hshutdown <;> exact h.same rfl fun _ _ hop => hop
  | _ => cases he

theorem Places.step (h : σ.Places) (hσ : σ.books.Sound) {e : Event} (hstep : σ.step e = some σ') : σ'.Places := by
  cases he : e.isInner with
  | false => exact places_outer h he hstep
  | true =>
    cases e with
    | handler i vacant =>
      simp only [LogicSystem.step] at hstep
      split at hstep
      · exact places_runHandler h hσ hstep
      · cases hstep
    | step i o chosen =>
      simp only [LogicSystem.step] at hstep
      split at hstep
      · next hi => exact places_stepOp h hσ hi hstep
      · cases hstep
    | release i =>
      simp only [LogicSystem.step] at hstep
      split at hstep
      · exact places_release h hstep
      · cases hstep
    | thread p n o =>
      simp only [LogicSystem.step] at hstep
      split at hstep
      · next hn => exact places_runThread h hn hstep
      · cases hstep
    | join => exact places_join h hstep
    | _ => cases he

theorem places_start (server : Server) (aiStub : Bool) : (start server aiStub).Places := by
  have hnone (p : PoolName) : SlowPool.steps {} p = 0 := by
    simp only [SlowPool.steps, List.map_nil, Multiset.coe_nil, zero_add]
    exact Finset.sum_eq_zero fun _ _ => rfl
  refine ⟨fun _ _ hop => (nomatch hop), fun p => Nat.zero_le _, fun p => ?_, fun p w hw => ?_⟩
  · show 0 = (SlowPool.steps {} p).card
    rw [hnone]
    rfl
  · rw [show (start server aiStub).pools p = {} from rfl, hnone] at hw
    exact absurd hw (Multiset.notMem_zero w)

theorem places_of_reachable (h : σ.Reachable) : σ.Places := by
  obtain ⟨server, aiStub, hreach⟩ := h
  have hkept (τ : LogicSystem) (hτ : Reach LogicSystem.step (fun _ _ => True) (start server aiStub) τ) : τ.Kept :=
    kept_of_reachable ⟨server, aiStub, hτ⟩
  refine hreach.invariant_of hkept (places_start server aiStub) ?_
  intro τ e τ' hτ hplaces _ hstep
  exact hplaces.step hτ.sound hstep

/-! ## Steps and places, queue by queue -/

omit [PoolSizes] in
theorem waits_elsewhere {s : Multiset Item} (h : ∀ op, .operation i op ∉ s) :
    (s.bind Item.waits).filter (fun w => w.queue = i) = 0 := by
  refine Multiset.filter_eq_nil.mpr fun w hw heq => ?_
  obtain ⟨x, hx, hwait⟩ := Multiset.mem_bind.mp hw
  cases x with
  | operation j op =>
    simp only [Item.waits] at hwait
    split at hwait
    · cases Multiset.mem_singleton.mp hwait
      exact h op (heq ▸ hx)
    · exact absurd hwait (Multiset.notMem_zero w)
  | _ => exact absurd hwait (Multiset.notMem_zero w)

omit [PoolSizes] in
/-- The only operation of a queue is the active one. -/
theorem operation_queue {queue : SerialCommandQueue} {j : Nat} {op : Operation} (h : .operation j op ∈ queue.items i) :
    queue.active = some op := by
  rcases mem_queue.mp h with ⟨x, -, hx⟩ | ⟨e, -, he⟩ | ⟨op', hop, hx⟩ | ⟨-, hx⟩
  · cases x with
    | command e => exact absurd hx operation_not_entry
    | resume c => exact nomatch Multiset.mem_singleton.mp hx
    | closing bytes => exact nomatch Multiset.mem_singleton.mp hx
  · exact absurd he operation_not_entry
  · rcases Multiset.mem_cons.mp hx with heq | hpromise
    · cases heq
      exact hop
    · exact absurd hpromise operation_not_promise
  · cases hx

omit [PoolSizes] in
theorem items_active {queue : SerialCommandQueue} {op : Operation} (hop : queue.active = some op) :
    queue.items i = .operation i op ::ₘ (op.entry.promise + ({ queue with active := none } : SerialCommandQueue).items i) := by
  simp only [SerialCommandQueue.items, hop, Option.elim_some, Option.elim_none, Operation.items, ← Multiset.singleton_add]
  abel

/-- An operation waits for one thing at a time. -/
theorem waits_of_queue (hi : i < σ.nextQueue) : ((σ.items.bind Item.waits).filter fun w => w.queue = i).card ≤ 1 := by
  cases hop : (σ.queues i).active with
  | none =>
    have hnone (op : Operation) : .operation i op ∉ σ.items := by
      intro hmem
      rw [mem_operation, hop] at hmem
      exact nomatch hmem.2
    rw [waits_elsewhere hnone]
    exact Nat.zero_le 1
  | some op =>
    obtain ⟨rest, hσ, hset⟩ := items_setQueue hi
    have hnone (op' : Operation) : .operation i op' ∉
        op.entry.promise + ({ σ.queues i with active := none } : SerialCommandQueue).items i + rest := by
      intro hmem
      rcases Multiset.mem_add.mp hmem with hmem | hmem
      · exact (Multiset.mem_add.mp hmem).elim operation_not_promise fun hmem => nomatch operation_queue hmem
      · have hidle : .operation i op' ∈ (σ.setQueue i {}).items := by
          rw [hset]
          exact Multiset.mem_add.mpr (.inr hmem)
        rw [mem_operation, queues_setQueue, if_pos rfl] at hidle
        exact nomatch hidle.2
    rw [hσ, items_active hop, Multiset.cons_add, Multiset.cons_bind, Multiset.filter_add, waits_elsewhere hnone, add_zero]
    refine (Multiset.card_le_card (Multiset.filter_le _ _)).trans ?_
    simp only [Item.waits]
    split
    · exact le_of_eq (Multiset.card_singleton _)
    · exact Nat.zero_le 1

omit [PoolSizes] in
theorem sum_bind {α : Type} (f : α → Multiset Item) (s : Finset α) (g : Item → Multiset Suspension) :
    (∑ x ∈ s, f x).bind g = ∑ x ∈ s, (f x).bind g := by
  classical
  induction s using Finset.induction_on with
  | empty => rfl
  | insert x s hx ih => rw [Finset.sum_insert hx, Finset.sum_insert hx, Multiset.add_bind, ih]

/-- Each step of a pool will wake an operation. -/
theorem steps_wake (σ : LogicSystem) (p : PoolName) : (σ.pools p).steps p ≤ σ.items.bind Item.wakes := by
  have hthread (thread : PoolThread) : thread.steps ≤ thread.items.bind Item.wakes := by
    cases thread <;> first | exact Multiset.zero_le _ | exact le_of_eq (Multiset.singleton_bind _ _).symm
  have hline (tasks : List SlowTask) : (tasks.map SlowTask.wait : List Suspension) =
      (tasks.map fun t => ({.slow t false} : Multiset Item)).sum.bind Item.wakes := by
    induction tasks with
    | nil => rfl
    | cons t tasks ih =>
      rw [List.map_cons, List.map_cons, List.sum_cons, Multiset.add_bind, ← ih, Multiset.singleton_bind,
        ← Multiset.cons_coe, ← Multiset.singleton_add]
      rfl
  obtain ⟨rest, hσ, -⟩ := items_setPool (σ := σ) p
  rw [hσ, Multiset.add_bind]
  refine le_trans ?_ (Multiset.le_add_right _ _)
  rw [SlowPool.items, Multiset.add_bind, ← hline, sum_bind]
  exact add_le_add_right (Finset.sum_le_sum fun n _ => hthread _) _

/-- How many places in `p` the operation on queue `i` holds. -/
def placesOf (σ : LogicSystem) (p : PoolName) (i : Nat) : Nat :=
  (σ.queues i).active.elim 0 fun op => op.reserved.count p

/-- The steps in `p` of the operation on queue `i`. -/
def stepsOf (σ : LogicSystem) (p : PoolName) (i : Nat) : Multiset Suspension :=
  ((σ.pools p).steps p).filter fun w => w.queue = i

theorem stepsOf_le (hσ : σ.books.Sound) (h : σ.Places) (hi : i < σ.nextQueue) :
    (σ.stepsOf p i).card ≤ σ.placesOf p i := by
  rcases Multiset.empty_or_exists_mem (σ.stepsOf p i) with hnone | ⟨w, hw⟩
  · rw [hnone]
    exact Nat.zero_le _
  have hone : (σ.stepsOf p i).card ≤ 1 := by
    have hwaits : σ.items.bind Item.waits = σ.items.bind Item.wakes := hσ.waits
    refine le_trans (Multiset.card_le_card ?_) (waits_of_queue hi)
    rw [hwaits]
    exact Multiset.filter_le_filter _ (steps_wake σ p)
  obtain ⟨hmem, rfl⟩ := Multiset.mem_filter.mp hw
  obtain ⟨-, op, hop, -⟩ := suspended_of_step hσ hmem
  refine hone.trans ?_
  rw [placesOf, hop]
  exact List.one_le_count_iff.mpr (h.held p w hmem op hop)

theorem card_steps (hσ : σ.books.Sound) (p : PoolName) :
    ((σ.pools p).steps p).card = ∑ i ∈ Finset.range σ.nextQueue, (σ.stepsOf p i).card := by
  have hqueue : ∀ j ∈ ((σ.pools p).steps p).map Suspension.queue, j ∈ Finset.range σ.nextQueue := by
    intro j hj
    obtain ⟨w, hw, rfl⟩ := Multiset.mem_map.mp hj
    exact Finset.mem_range.mpr (suspended_of_step hσ hw).1
  rw [← Multiset.card_map Suspension.queue, ← Multiset.sum_count_eq_card hqueue]
  refine Finset.sum_congr rfl fun j _ => ?_
  rw [Multiset.count_map]
  simp only [stepsOf, eq_comm]

theorem reserved_places (hσ : σ.books.Sound) (p : PoolName) :
    (σ.pools p).reserved = ∑ i ∈ Finset.range σ.nextQueue, σ.placesOf p i := by
  have hsum {α : Type} (f : α → Multiset Item) (s : Finset α) :
      ((∑ x ∈ s, f x).map (Item.holds p)).sum = ∑ x ∈ s, ((f x).map (Item.holds p)).sum :=
    map_sum (Multiset.sumAddMonoidHom.comp (Multiset.mapAddMonoidHom (Item.holds p))) f s
  have hnone {s : Multiset Item} (h : ∀ i op, .operation i op ∉ s) : (s.map (Item.holds p)).sum = 0 := by
    refine Multiset.sum_eq_zero fun n hn => ?_
    obtain ⟨x, hx, rfl⟩ := Multiset.mem_map.mp hn
    cases x with
    | operation i op => exact absurd hx (h i op)
    | _ => rfl
  have hqueue (i : Nat) : (((σ.queues i).items i).map (Item.holds p)).sum = σ.placesOf p i := by
    cases hop : (σ.queues i).active with
    | none =>
      rw [placesOf, hop]
      exact hnone fun j op hmem => nomatch hop.symm.trans (operation_queue hmem)
    | some op =>
      have hothers (j : Nat) (op' : Operation) :
          .operation j op' ∉ op.entry.promise + ({ σ.queues i with active := none } : SerialCommandQueue).items i :=
        fun hmem => (Multiset.mem_add.mp hmem).elim operation_not_promise fun hmem => nomatch operation_queue hmem
      rw [items_active hop, Multiset.map_cons, Multiset.sum_cons, hnone hothers, placesOf, hop]
      rfl
  have hpool (q : PoolName) : (((σ.pools q).items q).map (Item.holds p)).sum = 0 := by
    refine hnone fun i op hmem => ?_
    rcases mem_pool.mp hmem with ⟨t, -, ht⟩ | ⟨n, -, hn⟩
    · exact nomatch ht
    · unfold PoolThread.items at hn
      split at hn <;> simp at hn
  have hreserved : (σ.pools p).reserved = (σ.items.map (Item.holds p)).sum := hσ.reserved p
  rw [hreserved, items, Multiset.map_add, Multiset.sum_add, hsum, hsum, Finset.sum_congr rfl fun i _ => hqueue i,
    Finset.sum_congr rfl fun q _ => hpool q, Finset.sum_const_zero, add_zero]

/-! ## No operation with a place is refused -/

/-- What the slow pools promise. -/
structure Provided (σ : LogicSystem) : Prop where
  /-- `m_reserved` counts the places that the operations hold, and is within the pool's capacity. -/
  reserved : ∀ p, (σ.pools p).reserved = ∑ i ∈ Finset.range σ.nextQueue, σ.placesOf p i
  capacity : ∀ p : PoolName, (σ.pools p).reserved ≤ p.capacity
  once : ∀ p i, σ.placesOf p i ≤ 1
  /-- `m_pending` counts the steps in the line and with the threads. -/
  pending : ∀ p, (σ.pools p).pending = ((σ.pools p).steps p).card
  /-- Each of them is the one step of an operation that waits for it and holds a place. -/
  step : ∀ p, ∀ w ∈ (σ.pools p).steps p, ∃ op, (σ.queues w.queue).active = some op ∧ op.stage = .suspended w.handed ∧
    p ∈ op.reserved
  single : ∀ p, ∀ i < σ.nextQueue, (σ.stepsOf p i).card ≤ 1
  covered : ∀ p, (σ.pools p).pending ≤ (σ.pools p).reserved
  /-- Who waits for a room, or has ended, holds no place. -/
  freed : ∀ i < σ.nextQueue, ∀ op, (σ.queues i).active = some op →
    op.stage = .suspended true ∨ op.stage = .finishing ∨ op.stage = .leaving → op.reserved = []
  /-- Who holds a place and runs has its step accepted. -/
  accepted : ∀ i < σ.nextQueue, ∀ op, (σ.queues i).active = some op → (∀ handed, op.stage ≠ .suspended handed) →
    ∀ p ∈ op.reserved, ∀ task chosen, ((σ.pools p).submit p task chosen).isSome

/-- In every reachable state, a pool has as many places as the operations hold and at least as many as it has steps;
an operation that holds one and goes on to `Await` is not refused. -/
theorem places_suffice (h : σ.Reachable) : σ.Provided := by
  have hkept := kept_of_reachable h
  have hσ := hkept.sound
  have hplaces := places_of_reachable h
  have hle (p : PoolName) (i : Nat) (hi : i ∈ Finset.range σ.nextQueue) : (σ.stepsOf p i).card ≤ σ.placesOf p i :=
    stepsOf_le hσ hplaces (Finset.mem_range.mp hi)
  have honce (p : PoolName) (i : Nat) : σ.placesOf p i ≤ 1 := by
    unfold placesOf
    cases hop : (σ.queues i).active with
    | none => exact Nat.zero_le 1
    | some op => exact List.nodup_iff_count_le_one.mp (hplaces.once i op hop) p
  refine ⟨reserved_places hσ, hplaces.capacity, honce, hplaces.pending, fun p w hw => ?_, fun p i hi => ?_, fun p => ?_,
    fun i hi op hop hstage => ?_, fun i hi op hop hawake p hheld task chosen => ?_⟩
  · obtain ⟨-, op, hop, hstage⟩ := suspended_of_step hσ hw
    exact ⟨op, hop, hstage, hplaces.held p w hw op hop⟩
  · exact (hle p i (Finset.mem_range.mpr hi)).trans (honce p i)
  · rw [hplaces.pending, card_steps hσ, reserved_places hσ]
    exact Finset.sum_le_sum (hle p)
  · have hgood : op.StageGood := (hσ.good _ (mem_operation.mpr ⟨hi, hop⟩)).2
    rcases hstage with hstage | hstage | hstage
    · simp only [Operation.StageGood, hstage] at hgood
      exact (hgood trivial).1
    · simp only [Operation.StageGood, hstage] at hgood
      exact hgood.1
    · simp only [Operation.StageGood, hstage] at hgood
      exact hgood.1
  · have hopen := open_of_item hσ hkept.orderly (mem_operation.mpr ⟨hi, hop⟩) rfl p
    have hown : (σ.stepsOf p i).card < σ.placesOf p i := by
      have hnone : σ.stepsOf p i = 0 := Multiset.filter_eq_nil.mpr (stepless_of_awake hσ hop hawake p)
      rw [hnone, placesOf, hop]
      exact List.count_pos_iff.mpr hheld
    have hroom : (σ.pools p).pending < (σ.pools p).reserved := by
      rw [hplaces.pending, card_steps hσ, reserved_places hσ]
      exact Finset.sum_lt_sum (hle p) ⟨i, Finset.mem_range.mpr hi, hown⟩
    have hcapacity := hplaces.capacity p
    unfold SlowPool.submit
    rw [if_neg]
    · rfl
    · rintro (hstopping | hfull)
      · rw [hopen] at hstopping
        cases hstopping
      · omega

omit [PoolSizes] in
/-- A login waits for its first query: one place of 128 is taken, and one step is under way. -/
theorem places_suffice_login : ∃ σ : LogicSystem, (σ.pools .storage).pending = 1 ∧ (σ.pools .storage).reserved = 1 ∧
    @Provided .source σ := by
  let _ : PoolSizes := .source
  let events : List Event := .frame 0 (Scenario.login 1 "1") 40 :: .handler 2 false :: List.replicate 6 (.step 2 {} 0)
  have hplay : ((play step (fun _ _ => true) events (start Scenario.server false)).any fun σ =>
      decide ((σ.pools .storage).pending = 1 ∧ (σ.pools .storage).reserved = 1)) = true := by decide +kernel
  obtain ⟨σ, hplay, hcounts⟩ := (Option.any_eq_true _ _).mp hplay
  have hreach : σ.Reachable := ⟨_, _, reach_play (fun _ _ _ => trivial) hplay⟩
  exact ⟨σ, (of_decide_eq_true hcounts).1, (of_decide_eq_true hcounts).2, places_suffice hreach⟩

end LogicSystem

end SyncRtc
