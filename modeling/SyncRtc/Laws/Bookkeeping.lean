import SyncRtc.Laws.Books

/-!
# The business layer keeps its books

The items of a state are what stands on its strands and in its lines, what its coroutines have left and what the
threads of its pools hold. Every step of the scheduler is one or two rules of the books, or leaves them as they are
(`inner_books`); every event of the outside leaves them or adds one command (`outer_books`). The counters of the code
are the counters of the books by definition, so that what `Books.Sound` says of them holds in every reachable state.
-/

set_option autoImplicit false

namespace SyncRtc

open SerialCommandQueue

/-! ## Items -/

namespace SerialCommandQueue

/-- What the entry's `done` will resume. -/
def Entry.promise (e : Entry) : Multiset Item :=
  match e.done with
  | some c => {.promised c}
  | none => 0

def Entry.items (e : Entry) (queued : Bool) : Multiset Item := .entry e queued ::ₘ e.promise

def Operation.items (op : Operation) (i : Nat) : Multiset Item := .operation i op ::ₘ op.entry.promise

def Posted.items : Posted → Multiset Item
  | .command e => e.items false
  | .resume c => {.ready c 0}
  | .closing _ => {.closing false}

/-- The items of queue `i`. -/
def items (queue : SerialCommandQueue) (i : Nat) : Multiset Item :=
  (queue.strand.map Posted.items).sum + (queue.commands.map fun e => e.items true).sum +
    queue.active.elim 0 (fun op => op.items i) + queue.releasing.elim 0 fun _ => {.closing true}

end SerialCommandQueue

def PoolThread.items : PoolThread → Multiset Item
  | .working t => {.slow t true}
  | .worked c => {.ready c 2}
  | .completing c => {.ready c 1}
  | _ => 0

@[simp] theorem PoolThread.items_looking : PoolThread.looking.items = 0 := rfl

namespace SlowPool

variable {pool : SlowPool} {n : Nat}

theorem setThread_self (pool : SlowPool) (n : Nat) (thread : PoolThread) : (pool.setThread n thread).threads n = thread :=
  Function.update_self _ _ _

theorem setThread_of_ne {m : Nat} (h : m ≠ n) (thread : PoolThread) :
    (pool.setThread n thread).threads m = pool.threads m := Function.update_of_ne h _ _

theorem isBlocked_iff : pool.isBlocked n = true ↔ pool.threads n = .blocked := by
  unfold isBlocked
  split
  · next h => simp only [h]
  · next h => simpa using h

/-- `notify_one` wakes a waiting thread, or nobody waits. -/
theorem notifyOne_cases [PoolSizes] (pool : SlowPool) (p : PoolName) (chosen : Nat) :
    (∃ n < p.threads, pool.threads n = .blocked ∧ pool.notifyOne p chosen = pool.setThread n .looking) ∨
      (∀ n < p.threads, pool.threads n ≠ .blocked) ∧ pool.notifyOne p chosen = pool := by
  unfold notifyOne
  split
  · next n hn =>
    have hfound : (decide (n < p.threads) && pool.isBlocked n) = true := by simpa using List.find?_some hn
    obtain ⟨hlt, hblocked⟩ := Bool.and_eq_true_iff.mp hfound
    exact .inl ⟨n, of_decide_eq_true hlt, isBlocked_iff.mp hblocked, rfl⟩
  · next hnone =>
    refine .inr ⟨fun n hn hblocked => ?_, rfl⟩
    have hno := List.find?_eq_none.mp hnone n (List.mem_cons_of_mem _ (List.mem_range.mpr hn))
    exact hno (Bool.and_eq_true_iff.mpr ⟨decide_eq_true hn, isBlocked_iff.mpr hblocked⟩)

end SlowPool

def PoolName.all : Finset PoolName := {.storage, .ai}

theorem PoolName.mem_all (p : PoolName) : p ∈ PoolName.all := by cases p <;> decide

variable [PoolSizes]

def SlowPool.items (pool : SlowPool) (p : PoolName) : Multiset Item :=
  (pool.tasks.map fun t => ({.slow t false} : Multiset Item)).sum +
    ∑ n ∈ Finset.range p.threads, (pool.threads n).items

namespace LogicSystem

def items (σ : LogicSystem) : Multiset Item :=
  ∑ i ∈ Finset.range σ.nextQueue, (σ.queues i).items i + ∑ p ∈ PoolName.all, (σ.pools p).items p

def books (σ : LogicSystem) : Books where
  items := σ.items
  pending := σ.scheduler.pending
  reserved p := (σ.pools p).reserved
  accepted := σ.accepted
  finished := σ.finished

variable {σ σ' : LogicSystem} {i : Nat} {p : PoolName}

/-! ## One queue, one pool, one thread -/

theorem items_setQueue (hi : i < σ.nextQueue) :
    ∃ rest, σ.items = (σ.queues i).items i + rest ∧ ∀ queue, (σ.setQueue i queue).items = queue.items i + rest := by
  obtain ⟨rest, h, hset⟩ := sum_exchange (f := σ.queues) (fun j q => q.items j) (Finset.mem_range.mpr hi)
  refine ⟨rest + ∑ p ∈ PoolName.all, (σ.pools p).items p, ?_, fun queue => ?_⟩
  · rw [← add_assoc, ← h]
    rfl
  · rw [← add_assoc, ← hset]
    rfl

theorem items_setPool (p : PoolName) :
    ∃ rest, σ.items = (σ.pools p).items p + rest ∧ ∀ pool, (σ.setPool p pool).items = pool.items p + rest := by
  obtain ⟨rest, h, hset⟩ := sum_exchange (f := σ.pools) (fun q pool => pool.items q) p.mem_all
  refine ⟨∑ i ∈ Finset.range σ.nextQueue, (σ.queues i).items i + rest, ?_, fun pool => ?_⟩
  · rw [add_left_comm, ← h]
    rfl
  · rw [add_left_comm, ← hset]
    rfl

theorem items_setThread (pool : SlowPool) {n : Nat} (hn : n < p.threads) :
    ∃ rest, pool.items p = (pool.threads n).items + rest ∧
      ∀ thread, (pool.setThread n thread).items p = thread.items + rest := by
  obtain ⟨rest, h, hset⟩ := sum_exchange (f := pool.threads) (fun _ t => t.items) (Finset.mem_range.mpr hn)
  refine ⟨(pool.tasks.map fun t => ({.slow t false} : Multiset Item)).sum + rest, ?_, fun thread => ?_⟩
  · rw [add_left_comm, ← h]
    rfl
  · rw [add_left_comm, ← hset]
    rfl

/-- A pool that keeps its items. -/
theorem items_samePool {pool : SlowPool} (h : pool.items p = (σ.pools p).items p) :
    (σ.setPool p pool).items = σ.items := by
  obtain ⟨rest, hσ, hset⟩ := items_setPool (σ := σ) p
  rw [hset, h, ← hσ]

theorem items_post (hi : i < σ.nextQueue) (x : Posted) :
    (σ.setQueue i ((σ.queues i).post x)).items = x.items + σ.items := by
  obtain ⟨rest, hσ, hset⟩ := items_setQueue hi
  rw [hset, hσ]
  simp only [SerialCommandQueue.items, SerialCommandQueue.post, List.map_append, List.sum_append, List.map_cons,
    List.map_nil, List.sum_cons, List.sum_nil, add_zero]
  abel

theorem items_complete {c : Completion} (hi : c.wait.queue < σ.nextQueue) :
    (σ.complete c).items = .ready c 0 ::ₘ σ.items := by
  rw [complete, items_post hi, Posted.items, Multiset.singleton_add]

/-- The operation on a queue goes on as another one. -/
theorem items_setOp (hi : i < σ.nextQueue) {op : Operation} (hop : (σ.queues i).active = some op) :
    ∃ s, σ.items = .operation i op ::ₘ (op.entry.promise + s) ∧
      ∀ op', (σ.setOp i op').items = .operation i op' ::ₘ (op'.entry.promise + s) := by
  obtain ⟨rest, hσ, hset⟩ := items_setQueue hi
  let queue := σ.queues i
  refine ⟨(queue.strand.map Posted.items).sum + (queue.commands.map fun e => e.items true).sum +
    queue.releasing.elim 0 (fun _ => {.closing true}) + rest, ?_, fun op' => ?_⟩
  · rw [hσ]
    simp only [SerialCommandQueue.items, hop, Option.elim_some, Operation.items, ← Multiset.singleton_add, queue]
    abel
  · rw [setOp, hset]
    simp only [SerialCommandQueue.items, SerialCommandQueue.setActive, Option.elim_some, Operation.items,
      ← Multiset.singleton_add, queue]
    abel

theorem items_create (owner : Thread) : (σ.create owner).items = σ.items := by
  simp only [items, create, Finset.sum_range_succ, Function.update_self]
  congr 1
  rw [add_eq_left.mpr]
  · refine Finset.sum_congr rfl fun j hj => ?_
    rw [Function.update_of_ne (Finset.mem_range.mp hj).ne]
  · rfl

/-! ## The books of a step -/

/-- The books of a state that differs in its items at most. -/
theorem books_put {s : Multiset Item} (hitems : σ'.items = s)
    (hrest : σ'.scheduler.pending = σ.scheduler.pending ∧ (∀ p, (σ'.pools p).reserved = (σ.pools p).reserved) ∧
      σ'.accepted = σ.accepted ∧ σ'.finished = σ.finished) : σ'.books = σ.books.put s := by
  obtain ⟨hpending, hreserved, haccepted, hfinished⟩ := hrest
  simp only [books, Books.put, hitems, hpending, hreserved, haccepted, hfinished]

theorem books_self {s : Multiset Item} (h : σ.items = s) : σ.books = σ.books.put s :=
  books_put h ⟨rfl, fun _ => rfl, rfl, rfl⟩

/-- One operation becomes another. -/
theorem books_setOp (hi : i < σ.nextQueue) {op op' : Operation} (hop : (σ.queues i).active = some op)
    (hdone : op'.entry.done = op.entry.done)
    (hstep : ∀ s, Books.Step (σ.books.put (.operation i op ::ₘ s)) (σ.books.put (.operation i op' ::ₘ s)))
    (hitems : σ'.items = (σ.setOp i op').items)
    (hrest : σ'.scheduler.pending = σ.scheduler.pending ∧ (∀ p, (σ'.pools p).reserved = (σ.pools p).reserved) ∧
      σ'.accepted = σ.accepted ∧ σ'.finished = σ.finished) :
    Books.Step σ.books σ'.books := by
  obtain ⟨s, hσ, hset⟩ := items_setOp hi hop
  have hpromise : op'.entry.promise = op.entry.promise := by simp only [Entry.promise, hdone]
  rw [books_self hσ, books_put (hitems.trans (hset op')) hrest, hpromise]
  exact hstep _

/-- One operation becomes another, and a pool's `m_reserved` changes. -/
theorem books_setPlaces (hi : i < σ.nextQueue) {op op' : Operation} (hop : (σ.queues i).active = some op)
    (hdone : op'.entry.done = op.entry.done) {pool : SlowPool} (hpool : pool.items p = (σ.pools p).items p)
    (hstep : ∀ s, Books.Step (σ.books.put (.operation i op ::ₘ s))
      ((σ.books.put (.operation i op' ::ₘ s)).setReserved p pool.reserved)) :
    Books.Step σ.books ((σ.setPool p pool).setOp i op').books := by
  obtain ⟨s, hσ, hset⟩ := items_setOp (σ := σ.setPool p pool) hi hop
  have hpromise : op'.entry.promise = op.entry.promise := by simp only [Entry.promise, hdone]
  have hbooks : ((σ.setPool p pool).setOp i op').books =
      (σ.books.put (.operation i op' ::ₘ (op.entry.promise + s))).setReserved p pool.reserved := by
    simp only [books, Books.put, Books.setReserved, hset, hpromise]
    congr 1
    funext q
    rcases eq_or_ne q p with rfl | hne
    · simp only [setOp, setQueue, setPool, Function.update_self]
    · simp only [setOp, setQueue, setPool, Function.update_of_ne hne]
  rw [items_samePool hpool] at hσ
  rw [books_self hσ, hbooks]
  exact hstep _

/-- An operation is suspended, and what resumes it is on its way at once. -/
theorem books_refuse (hi : i < σ.nextQueue) {op : Operation} (hop : (σ.queues i).active = some op) {c : Call}
    {k : c.Res → Op Unit} (hstage : op.stage = .running (.call c k)) (r : c.Res) {handed : Bool}
    (hfree : handed = true → op.reserved = [] ∧ op.entry.job.waits = true) :
    Books.Step σ.books
      ((σ.setOp i (op.suspend handed)).complete { wait := op.wait i handed, next := k r }).books := by
  obtain ⟨s, hσ, hset⟩ := items_setOp hi hop
  have hitems : ((σ.setOp i (op.suspend handed)).complete { wait := op.wait i handed, next := k r }).items =
      .operation i (op.suspend handed) ::ₘ .ready ⟨op.wait i handed, k r⟩ 0 ::ₘ (op.entry.promise + s) := by
    rw [items_complete hi, hset, Multiset.cons_swap]
    rfl
  rw [books_self hσ, books_put (σ := σ) hitems ⟨rfl, fun _ => rfl, rfl, rfl⟩]
  exact .refuse i op c k r handed hstage hfree

section Coroutine

variable {op : Operation} {c : Call} {k : c.Res → Op Unit}

theorem books_releaseCapacity (hi : i < σ.nextQueue) (hop : (σ.queues i).active = some op) {body : Op Unit}
    (hstage : op.stage = .running body) (hpool : body.next?.bind Call.pool = none) {rest : List PoolName}
    (hres : op.reserved = p :: rest) : Books.Step σ.books (σ.releaseCapacity i op p rest).books := by
  refine books_setPlaces hi hop ?_ ?_ fun _ => ?_
  · rfl
  · rfl
  · exact .release i op p rest body hstage hpool hres

omit [PoolSizes] in
theorem poolOf_some (h : σ.poolOf c = some p) : c.pool = some p := by
  unfold poolOf at h
  split at h
  · split at h
    · exact h
    · cases h
  · exact h

theorem items_reserve {pool pool' : SlowPool} (h : pool.reserve p = some pool') :
    pool'.items p = pool.items p ∧ pool'.reserved = pool.reserved + 1 := by
  unfold SlowPool.reserve at h
  split at h
  · cases h
  · cases h
    exact ⟨rfl, rfl⟩

theorem books_reserve (hi : i < σ.nextQueue) (hop : (σ.queues i).active = some op)
    (hstage : op.stage = .running (.call c k)) (hpool : c.pool = some p) (hnot : p ∉ op.reserved) :
    Books.Step σ.books (σ.reserve i op p c k).books := by
  unfold reserve
  split
  · next pool hres =>
    obtain ⟨hitems, hreserved⟩ := items_reserve hres
    refine books_setPlaces hi hop ?_ hitems fun s => ?_
    · rfl
    · rw [hreserved]
      have hstep := Books.Step.reserve (b := σ.books) (s := s) i op p (.call c k) (.inl hstage) hpool hnot
      rwa [← hstage] at hstep
  · split
    · next hterm =>
      refine books_setOp hi hop ?_ (fun _ => ?_) rfl ⟨rfl, fun _ => rfl, rfl, rfl⟩
      · rfl
      · exact .retry i op p _ hstage hpool hnot hterm
    · refine books_setOp hi hop ?_ (fun _ => ?_) rfl ⟨rfl, fun _ => rfl, rfl, rfl⟩
      · rfl
      · exact .call i op c k _ hstage

theorem items_notifyOne (pool : SlowPool) (p : PoolName) (chosen : Nat) :
    (pool.notifyOne p chosen).items p = pool.items p ∧ (pool.notifyOne p chosen).reserved = pool.reserved := by
  rcases pool.notifyOne_cases p chosen with ⟨n, hn, hblocked, hnotify⟩ | ⟨-, hnotify⟩
  · obtain ⟨rest, hpool, hset⟩ := items_setThread pool hn
    rw [hnotify, hpool, hset, hblocked]
    exact ⟨rfl, rfl⟩
  · rw [hnotify]
    exact ⟨rfl, rfl⟩

/-- A submitted slow step stands in the line. -/
theorem items_submit {pool pool' : SlowPool} {t : SlowTask} {chosen : Nat} (h : pool.submit p t chosen = some pool') :
    pool'.items p = .slow t false ::ₘ pool.items p ∧ pool'.reserved = pool.reserved := by
  unfold SlowPool.submit at h
  split at h
  · cases h
  cases h
  obtain ⟨hitems, hreserved⟩ := items_notifyOne { pool with tasks := pool.tasks ++ [t], pending := pool.pending + 1 } p
    chosen
  refine ⟨hitems.trans ?_, hreserved⟩
  simp only [SlowPool.items, List.map_append, List.sum_append, List.map_cons, List.map_nil, List.sum_cons,
    List.sum_nil, ← Multiset.singleton_add]
  abel

theorem books_await (hi : i < σ.nextQueue) (hop : (σ.queues i).active = some op)
    (hstage : op.stage = .running (.call c k)) (chosen : Nat) :
    Books.Step σ.books (σ.await i op p chosen c k).books := by
  unfold await
  split
  · next pool hsubmit =>
    obtain ⟨hitems, hreserved⟩ := items_submit hsubmit
    obtain ⟨rest, hσ, hset⟩ := items_setPool (σ := σ) p
    have hpool : (σ.setPool p pool).items = .slow ⟨op.wait i false, c, k⟩ false ::ₘ σ.items := by
      rw [hset, hitems, hσ, Multiset.cons_add]
    obtain ⟨s, hs, hsuspend⟩ := items_setOp (σ := σ) hi hop
    obtain ⟨s', hs', hsuspend'⟩ := items_setOp (σ := σ.setPool p pool) hi hop
    have hrest : op.entry.promise + s' = .slow ⟨op.wait i false, c, k⟩ false ::ₘ (op.entry.promise + s) := by
      rw [hs', hs, Multiset.cons_swap] at hpool
      exact (Multiset.cons_inj_right _).mp hpool
    have hbooks : ((σ.setPool p pool).setOp i (op.suspend false)).books =
        σ.books.put (.operation i (op.suspend false) ::ₘ .slow ⟨op.wait i false, c, k⟩ false ::ₘ
          (op.entry.promise + s)) := by
      refine books_put (σ := σ) ?_ ⟨rfl, fun q => ?_, rfl, rfl⟩
      · rw [hsuspend', ← hrest]
        rfl
      · rcases eq_or_ne q p with rfl | hne
        · simp only [setOp, setQueue, setPool, Function.update_self, hreserved]
        · simp only [setOp, setQueue, setPool, Function.update_of_ne hne]
    rw [books_self hs, hbooks]
    exact .await i op c k hstage
  · exact books_refuse hi hop hstage _ nofun

theorem books_enter (hi : i < σ.nextQueue) (hop : (σ.queues i).active = some op)
    (hstage : op.stage = .running (.call c k)) (chosen : Nat) :
    Books.Step σ.books (σ.enter i op p chosen c k).books := by
  unfold enter
  split
  · refine books_setOp hi hop ?_ (fun _ => ?_) rfl ⟨rfl, fun _ => rfl, rfl, rfl⟩
    · rfl
    · exact .call i op _ _ _ hstage
  · exact books_await hi hop hstage chosen

end Coroutine

/-! ## A command is accepted -/

/-- What is left by an accepted `Submit`, here or in `SubmitRoom`. -/
structure Submitted (σ σ' : LogicSystem) (e : Entry) : Prop where
  books : σ'.books = (σ.books.put (e.items false + σ.items)).accept e.job
  active : ∀ j < σ.nextQueue, (σ'.queues j).active = (σ.queues j).active
  nextQueue : σ.nextQueue ≤ σ'.nextQueue

theorem submit_spec {job : Job} {done : Option Completion} {bytes : Nat} (hi : i < σ.nextQueue)
    (h : σ.submit i job done bytes = some σ') : Submitted σ σ' ⟨job, done, job.terminal, bytes⟩ := by
  unfold submit at h
  split at h
  swap
  · cases h
  split at h
  · cases h
  next scheduler hscheduler =>
  cases h
  let e : Entry := ⟨job, done, job.terminal, bytes⟩
  have hitems : (σ.setQueue i ((σ.queues i).push e)).items = e.items false + σ.items := by
    obtain ⟨rest, hσ, hset⟩ := items_setQueue hi
    rw [hset, hσ]
    simp only [SerialCommandQueue.items, SerialCommandQueue.push, List.map_append, List.sum_append, List.map_cons,
      List.map_nil, List.sum_cons, List.sum_nil, add_zero, Posted.items]
    abel
  refine ⟨?_, fun j _ => ?_, le_rfl⟩
  · have hpending : scheduler.pending = σ.scheduler.pending + 1 := by
      unfold BusinessScheduler.reserve at hscheduler
      split at hscheduler
      · cases hscheduler
      · cases hscheduler
        rfl
    have hjobs : ((σ.accepted ++ [job] : List Job) : Multiset Job) = job ::ₘ (σ.accepted : Multiset Job) := by
      rw [← Multiset.coe_add, Multiset.coe_singleton, add_comm, Multiset.singleton_add]
    unfold LogicSystem.books Books.put Books.accept
    congr 1
  · simp only [setQueue]
    rcases eq_or_ne j i with rfl | hne
    · rw [Function.update_self]
      rfl
    · rw [Function.update_of_ne hne]

/-- A new queue accepts. -/
theorem submit_created {owner : Thread} {rooms : MeetingId → Option Nat} {connections : SessionId → Option Nat}
    {job : Job} {done : Option Completion} {bytes : Nat}
    (h : ({ σ.create owner with rooms, connections } : LogicSystem).submit σ.nextQueue job done bytes = some σ') :
    Submitted σ σ' ⟨job, done, job.terminal, bytes⟩ := by
  have hspec := submit_spec (Nat.lt_succ_self _) h
  refine ⟨?_, fun j hj => ?_, (Nat.le_succ _).trans hspec.nextQueue⟩
  · have hitems := items_create (σ := σ) owner
    have hbooks : (σ.create owner).books = σ.books := by
      rw [books_put (σ := σ) hitems ⟨rfl, fun _ => rfl, rfl, rfl⟩, ← books_self rfl]
    refine hspec.books.trans ?_
    rw [← hbooks, ← hitems]
    rfl
  · rw [hspec.active j (Nat.lt_succ_of_lt hj)]
    simp only [create, Function.update_of_ne hj.ne]

theorem submitRoom_spec {m : MeetingId} {task : Task} {done : Option Completion} {bytes : Nat}
    (hrooms : ∀ i, σ.rooms m = some i → i < σ.nextQueue) (h : σ.submitRoom m task done bytes = some σ') :
    Submitted σ σ' ⟨.room m task, done, (Job.room m task).terminal, bytes⟩ := by
  unfold submitRoom at h
  split at h
  · next i hi => exact submit_spec (hrooms i hi) h
  · exact submit_created h

/-! ## A coroutine goes on -/

section Coroutine

variable {op : Operation} {c : Call} {k : c.Res → Op Unit}

/-- The operation whose `SubmitRoom` has been accepted. -/
theorem items_submitted {e : Entry} (hi : i < σ.nextQueue) (hop : (σ.queues i).active = some op)
    (h : Submitted σ σ' e) :
    ∃ s, σ.items = .operation i op ::ₘ s ∧ ∀ op', op'.entry.done = op.entry.done →
      (σ'.setOp i op').items = .operation i op' ::ₘ (e.items false + s) := by
  obtain ⟨s, hσ, -⟩ := items_setOp hi hop
  obtain ⟨s', hσ', hset⟩ := items_setOp (σ := σ') (hi.trans_le h.nextQueue) ((h.active i hi).trans hop)
  refine ⟨op.entry.promise + s, hσ, fun op' hdone => ?_⟩
  have hpromise : op'.entry.promise = op.entry.promise := by simp only [Entry.promise, hdone]
  have hitems : σ'.items = e.items false + σ.items := congrArg Books.items h.books
  have hrest : op.entry.promise + s' = e.items false + (op.entry.promise + s) := by
    rw [hσ', hσ, Multiset.add_cons] at hitems
    exact (Multiset.cons_inj_right _).mp hitems
  rw [hset, hpromise, hrest]

theorem books_submitted {e : Entry} (h : Submitted σ σ' e) {op' : Operation} {s : Multiset Item}
    (hitems : (σ'.setOp i op').items = s) : (σ'.setOp i op').books = (σ.books.put s).accept e.job := by
  have hbooks := h.books
  simp only [books, Books.put, Books.accept, Books.mk.injEq] at hbooks ⊢
  exact ⟨hitems, hbooks.2⟩

theorem books_callSubmitRoom (hi : i < σ.nextQueue) (hop : (σ.queues i).active = some op) {m : MeetingId}
    {task : Task} {k : Bool → Op Unit} (hstage : op.stage = .running (.call (.submitRoom m task) k))
    (hrooms : ∀ i, σ.rooms m = some i → i < σ.nextQueue) :
    Books.Step σ.books (σ.callSubmitRoom i op m task k).books := by
  unfold callSubmitRoom
  split
  · next hwaits =>
    split
    · next p rest hres => exact books_releaseCapacity hi hop hstage rfl hres
    · next hres =>
      unfold handOver
      split
      · next σ' hsubmit =>
        have hspec := submitRoom_spec hrooms hsubmit
        obtain ⟨s, hσ, hset⟩ := items_submitted hi hop hspec
        rw [books_self hσ, books_submitted hspec (hset (op.suspend true) rfl)]
        have hstep := Books.Step.hand (b := σ.books) (s := s) i op m task k op.entry.bytes hstage hres hwaits
        simpa only [Entry.items, Entry.promise, Multiset.cons_add, Multiset.singleton_add, Multiset.cons_swap] using hstep
      · exact books_refuse hi hop hstage false fun _ => ⟨hres, hwaits⟩
  · split
    · next σ' hsubmit =>
      have hspec := submitRoom_spec hrooms hsubmit
      obtain ⟨s, hσ, hset⟩ := items_submitted hi hop hspec
      rw [books_self hσ, books_submitted hspec (hset (op.run (k true)) rfl)]
      have hstep := Books.Step.spawn (b := σ.books) (s := s) i op m task k op.entry.bytes hstage
      simpa only [Entry.items, Entry.promise, add_zero, Multiset.cons_add, zero_add] using hstep
    · refine books_setOp hi hop ?_ (fun _ => ?_) rfl ⟨rfl, fun _ => rfl, rfl, rfl⟩
      · rfl
      · exact .call i op _ _ _ hstage

theorem books_proceed (hi : i < σ.nextQueue) (hop : (σ.queues i).active = some op)
    (hstage : op.stage = .running (.call c k)) (hrooms : ∀ m i, σ.rooms m = some i → i < σ.nextQueue) (o : Oracle) :
    Books.Step σ.books (σ.proceed i op o c k).books := by
  unfold proceed
  split
  · next m task k => exact books_callSubmitRoom hi hop hstage (hrooms m)
  · refine books_setOp hi hop ?_ (fun _ => ?_) rfl ⟨rfl, fun _ => rfl, rfl, rfl⟩
    · rfl
    · exact .call i op _ _ _ hstage

theorem books_complete {c : Completion} (hc : c.wait.queue < σ.nextQueue) :
    (σ.complete c).books = σ.books.put (.ready c 0 ::ₘ σ.books.items) :=
  books_put (items_complete hc) ⟨rfl, fun _ => rfl, rfl, rfl⟩

/-- The operation after its command, and the books then. -/
theorem books_ended (hi : i < σ.nextQueue) (hop : (σ.queues i).active = some op) :
    ∃ s, σ.items = .operation i op ::ₘ (op.entry.promise + s) ∧ ∀ job,
      ((σ.record job).setOp i op.ended).books = (σ.books.put (.operation i op.ended ::ₘ s)).record job := by
  obtain ⟨s, hσ, hset⟩ := items_setOp hi hop
  refine ⟨s, hσ, fun job => ?_⟩
  have hitems : ((σ.record job).setOp i op.ended).items = .operation i op.ended ::ₘ s := by
    have hended : (σ.setOp i op.ended).items = .operation i op.ended ::ₘ (0 + s) := hset op.ended
    rw [zero_add] at hended
    exact hended
  have hjobs : ((σ.finished ++ [job] : List Job) : Multiset Job) = job ::ₘ (σ.finished : Multiset Job) := by
    rw [← Multiset.coe_add, Multiset.coe_singleton, add_comm, Multiset.singleton_add]
  unfold books Books.put Books.record
  congr 1

/-- The closure has ended: the operation gives up its places, or calls `done`. -/
theorem books_finish (hi : i < σ.nextQueue) (hop : (σ.queues i).active = some op) (hstage : op.stage = .running (.pure ()))
    (hdone : ∀ c, op.entry.done = some c → c.wait.queue < σ.nextQueue) :
    Relation.TransGen Books.Step σ.books (σ.finish i op).books := by
  unfold finish
  split
  · next p rest hres => exact .single (books_releaseCapacity hi hop hstage rfl hres)
  next hres =>
  obtain ⟨s, hσ, hended⟩ := books_ended hi hop
  split
  · next c hc =>
    have hpromise : op.entry.promise = {.promised c} := by simp only [Entry.promise, hc]
    rw [hpromise, Multiset.singleton_add] at hσ
    have hkeep := Books.Step.keep (b := σ.books.record op.entry.job) (s := .operation i op.ended ::ₘ s) c
    rw [Multiset.cons_swap] at hkeep
    have hdelivered := books_complete (σ := (σ.record op.entry.job).setOp i op.ended) (hdone c hc)
    rw [books_self hσ, hdelivered, hended]
    exact .tail (.single (.finish i op hstage hres)) hkeep
  · next hc =>
    have hpromise : op.entry.promise = 0 := by simp only [Entry.promise, hc]
    rw [hpromise, zero_add] at hσ
    rw [books_self hσ, hended]
    exact .single (.finish i op hstage hres)

omit [PoolSizes] in
theorem poolOf_none (h : σ.poolOf c = none) : c.pool = none ∨ ∃ question, c = .askAi question := by
  unfold poolOf at h
  split at h
  · exact .inr ⟨_, rfl⟩
  · exact .inl h

theorem books_run (hi : i < σ.nextQueue) (hop : (σ.queues i).active = some op) {body : Op Unit}
    (hstage : op.stage = .running body) (hrooms : ∀ m i, σ.rooms m = some i → i < σ.nextQueue)
    (hdone : ∀ c, op.entry.done = some c → c.wait.queue < σ.nextQueue) (o : Oracle) (chosen : Nat) :
    Relation.TransGen Books.Step σ.books (σ.run i op o chosen body).books := by
  unfold run
  split
  · exact books_finish hi hop hstage hdone
  · next c k =>
    split
    · next p hpool =>
      split
      · exact .single (books_enter hi hop hstage chosen)
      · next hnot => exact .single (books_reserve hi hop hstage (poolOf_some hpool) hnot)
    · exact .single (books_proceed hi hop hstage hrooms o)

theorem books_retry (hi : i < σ.nextQueue) (hop : (σ.queues i).active = some op) {body : Op Unit}
    (hstage : op.stage = .retrying p body) (hgood : op.StageGood) (h : σ.retry i op p body = some σ') :
    Books.Step σ.books σ'.books := by
  simp only [Operation.StageGood, hstage] at hgood
  unfold retry at h
  split at h
  · next pool hres =>
    cases h
    obtain ⟨hitems, hreserved⟩ := items_reserve hres
    refine books_setPlaces hi hop ?_ hitems fun s => ?_
    · rfl
    · rw [hreserved]
      exact .reserve i op p body (.inr hstage) hgood.2.2.2 hgood.2.1
  · cases h

theorem books_settle (hi : i < σ.nextQueue) (hop : (σ.queues i).active = some op) (hstage : op.stage = .finishing) :
    Books.Step σ.books (σ.settle i op).books := by
  have hitems : (σ.settle i op).items = (σ.setOp i { op with stage := .leaving }).items := by
    obtain ⟨rest, -, hset⟩ := items_setQueue hi
    rw [settle, setOp, hset, hset]
    rfl
  refine books_setOp hi hop ?_ ?_ hitems ⟨rfl, fun _ => rfl, rfl, rfl⟩
  · rfl
  · exact fun _ => .settle i op hstage

theorem books_leave (hi : i < σ.nextQueue) (hop : (σ.queues i).active = some op) (hstage : op.stage = .leaving)
    (hdone : op.entry.done = none) : Books.Step σ.books (σ.leave i op).books := by
  obtain ⟨rest, hσ, hset⟩ := items_setQueue hi
  let queue := σ.queues i
  let s := (queue.strand.map Posted.items).sum + (queue.commands.map fun e => e.items true).sum +
    queue.releasing.elim 0 (fun _ => {.closing true}) + rest
  have hpromise : op.entry.promise = 0 := by simp only [Entry.promise, hdone]
  have hbefore : σ.items = .operation i op ::ₘ s := by
    rw [hσ]
    simp only [SerialCommandQueue.items, hop, Option.elim_some, Operation.items, hpromise, ← Multiset.singleton_add, s,
      queue]
    abel
  have hafter : (σ.leave i op).items = .closing false ::ₘ s := by
    rw [leave, hset]
    simp only [SerialCommandQueue.items, SerialCommandQueue.leave, SerialCommandQueue.post, Option.elim_none,
      List.map_append, List.sum_append, List.map_cons, List.map_nil, List.sum_cons, List.sum_nil, Posted.items,
      ← Multiset.singleton_add, s, queue]
    abel
  rw [books_self hbefore, books_put (σ := σ) hafter ⟨rfl, fun _ => rfl, rfl, rfl⟩]
  exact .leave i op hstage

end Coroutine

/-! ## Where an item is -/

omit [PoolSizes] in
theorem mem_listSum {α : Type} {f : α → Multiset Item} {x : Item} {l : List α} :
    x ∈ (l.map f).sum ↔ ∃ y ∈ l, x ∈ f y := by
  induction l with
  | nil => simp
  | cons y l ih => simp [ih]

omit [PoolSizes] in
theorem mem_elim {α : Type} {f : α → Multiset Item} {x : Item} {o : Option α} :
    x ∈ o.elim 0 f ↔ ∃ y, o = some y ∧ x ∈ f y := by
  cases o with
  | none => exact iff_of_false (Multiset.notMem_zero x) nofun
  | some y => exact ⟨fun h => ⟨y, rfl, h⟩, fun ⟨_, rfl, h⟩ => h⟩

omit [PoolSizes] in
theorem mem_queue {queue : SerialCommandQueue} {x : Item} :
    x ∈ queue.items i ↔ (∃ h ∈ queue.strand, x ∈ h.items) ∨ (∃ e ∈ queue.commands, x ∈ e.items true) ∨
      (∃ op, queue.active = some op ∧ x ∈ op.items i) ∨ (queue.releasing.isSome ∧ x = .closing true) := by
  unfold SerialCommandQueue.items
  rw [Multiset.mem_add, Multiset.mem_add, Multiset.mem_add, mem_listSum, mem_listSum, mem_elim, mem_elim, or_assoc,
    or_assoc]
  simp only [Multiset.mem_singleton, exists_and_right, Option.isSome_iff_exists]

theorem mem_pool {pool : SlowPool} {x : Item} :
    x ∈ pool.items p ↔ (∃ t ∈ pool.tasks, x = .slow t false) ∨ ∃ n < p.threads, x ∈ (pool.threads n).items := by
  unfold SlowPool.items
  rw [Multiset.mem_add, mem_listSum, Multiset.mem_sum]
  simp only [Multiset.mem_singleton, Finset.mem_range]

theorem mem_items {x : Item} :
    x ∈ σ.items ↔ (∃ i < σ.nextQueue, x ∈ (σ.queues i).items i) ∨ ∃ p, x ∈ (σ.pools p).items p := by
  unfold items
  rw [Multiset.mem_add, Multiset.mem_sum, Multiset.mem_sum]
  simp only [Finset.mem_range, PoolName.mem_all, true_and]

omit [PoolSizes] in
theorem operation_not_promise {e : Entry} {op : Operation} : .operation i op ∉ e.promise := by
  unfold Entry.promise
  split <;> simp

omit [PoolSizes] in
theorem operation_not_entry {e : Entry} {queued : Bool} {op : Operation} : .operation i op ∉ e.items queued := by
  rw [Entry.items, Multiset.mem_cons]
  exact fun h => h.elim nofun operation_not_promise

theorem mem_operation {op : Operation} :
    .operation i op ∈ σ.items ↔ i < σ.nextQueue ∧ (σ.queues i).active = some op := by
  constructor
  · intro h
    rcases mem_items.mp h with ⟨j, hj, hqueue⟩ | ⟨p, hpool⟩
    · rcases mem_queue.mp hqueue with ⟨x, -, hx⟩ | ⟨e, -, he⟩ | ⟨op', hop, hx⟩ | ⟨-, hx⟩
      · cases x with
        | command e => exact absurd hx operation_not_entry
        | resume c => exact absurd (Multiset.mem_singleton.mp hx) nofun
        | closing bytes => exact absurd (Multiset.mem_singleton.mp hx) nofun
      · exact absurd he operation_not_entry
      · rcases Multiset.mem_cons.mp hx with heq | hpromise
        · cases heq
          exact ⟨hj, hop⟩
        · exact absurd hpromise operation_not_promise
      · cases hx
    · rcases mem_pool.mp hpool with ⟨t, -, ht⟩ | ⟨n, -, hn⟩
      · cases ht
      · unfold PoolThread.items at hn
        split at hn <;> simp at hn
  · rintro ⟨hi, hop⟩
    refine mem_items.mpr (.inl ⟨i, hi, mem_queue.mpr (.inr (.inr (.inl ⟨op, hop, ?_⟩)))⟩)
    exact Multiset.mem_cons_self _ _

/-- The operation that a wake-up is for is there, suspended. -/
theorem suspended_of_wake (hσ : σ.books.Sound) {x : Item} (hx : x ∈ σ.items) {w : Suspension} (hw : w ∈ x.wakes) :
    w.queue < σ.nextQueue ∧ ∃ op, (σ.queues w.queue).active = some op ∧ op.stage = .suspended w.handed ∧
      w = { queue := w.queue, op := op.id, phase := op.phase, handed := w.handed, terminal := op.entry.terminal } := by
  have hwake : w ∈ σ.items.bind Item.wakes := Multiset.mem_bind.mpr ⟨x, hx, hw⟩
  rw [← show σ.items.bind Item.waits = σ.items.bind Item.wakes from hσ.waits] at hwake
  obtain ⟨y, hy, hwait⟩ := Multiset.mem_bind.mp hwake
  cases y with
  | operation i op =>
    obtain ⟨hi, hop⟩ := mem_operation.mp hy
    simp only [Item.waits] at hwait
    split at hwait
    · next handed hstage =>
      obtain rfl := Multiset.mem_singleton.mp hwait
      exact ⟨hi, op, hop, hstage, rfl⟩
    · exact absurd hwait (Multiset.notMem_zero _)
  | _ => exact absurd hwait (Multiset.notMem_zero _)

/-- Nothing wakes what is not suspended; what is suspended is woken. -/
theorem wake_of_suspended (hσ : σ.books.Sound) (hi : i < σ.nextQueue) {op : Operation}
    (hop : (σ.queues i).active = some op) {handed : Bool} (hstage : op.stage = .suspended handed) :
    ∃ x ∈ σ.items, { queue := i, op := op.id, phase := op.phase, handed, terminal := op.entry.terminal } ∈ x.wakes := by
  have hwait : { queue := i, op := op.id, phase := op.phase, handed, terminal := op.entry.terminal } ∈
      σ.items.bind Item.waits := by
    refine Multiset.mem_bind.mpr ⟨.operation i op, mem_operation.mpr ⟨hi, hop⟩, ?_⟩
    simp only [Item.waits, hstage, Multiset.mem_singleton]
  rw [show σ.items.bind Item.waits = σ.items.bind Item.wakes from hσ.waits] at hwait
  exact Multiset.mem_bind.mp hwait

theorem queue_of_promise (hσ : σ.books.Sound) (hi : i < σ.nextQueue) {op : Operation}
    (hop : (σ.queues i).active = some op) {c : Completion} (hc : op.entry.done = some c) :
    c.wait.queue < σ.nextQueue := by
  refine (suspended_of_wake hσ (x := .promised c) ?_ (Multiset.mem_singleton_self _)).1
  refine mem_items.mpr (.inl ⟨i, hi, mem_queue.mpr (.inr (.inr (.inl ⟨op, hop, ?_⟩)))⟩)
  refine Multiset.mem_cons_of_mem ?_
  simp only [Entry.promise, hc, Multiset.mem_singleton]

/-! ## Every step keeps the books -/

theorem books_stepOp (hσ : σ.books.Sound) (hrooms : ∀ m i, σ.rooms m = some i → i < σ.nextQueue)
    (hi : i < σ.nextQueue) {o : Oracle} {chosen : Nat} (h : σ.stepOp i o chosen = some σ') :
    Relation.TransGen Books.Step σ.books σ'.books := by
  unfold stepOp at h
  split at h
  · cases h
  next op hop =>
  have hgood : op.entry.Good ∧ op.StageGood := hσ.good _ (mem_operation.mpr ⟨hi, hop⟩)
  split at h
  · next body hstage =>
    cases h
    exact books_run hi hop hstage hrooms (fun c hc => queue_of_promise hσ hi hop hc) o chosen
  · next p body hstage =>
    split at h
    · exact .single (books_retry hi hop hstage hgood.2 h)
    · cases h
  · cases h
  · next hstage =>
    cases h
    exact .single (books_settle hi hop hstage)
  · next hstage =>
    cases h
    have hend := hgood.2
    simp only [Operation.StageGood, hstage] at hend
    exact .single (books_leave hi hop hstage hend.2)

omit [PoolSizes] in
theorem books_pump (b : Books) (queue : SerialCommandQueue) (i : Nat) (s : Multiset Item) :
    Relation.ReflTransGen Books.Step (b.put (queue.items i + s)) (b.put (queue.pump.items i + s)) := by
  unfold pump
  split
  · next e rest hactive hcommands =>
    let others := (queue.strand.map Posted.items).sum + (rest.map fun e => e.items true).sum +
      queue.releasing.elim 0 (fun _ => {.closing true}) + e.promise + s
    have hbefore : queue.items i + s = .entry e true ::ₘ others := by
      simp only [SerialCommandQueue.items, hactive, hcommands, Option.elim_none, List.map_cons, List.sum_cons,
        Entry.items, ← Multiset.singleton_add, others]
      abel
    rw [hbefore]
    refine .single ?_
    have hstep := Books.Step.start (b := b) (s := others) e i (queue.nextOp + 1)
    have hafter : .operation i (.start (queue.nextOp + 1) e) ::ₘ others =
        ({ queue with commands := rest, nextOp := queue.nextOp + 1, active := some (.start (queue.nextOp + 1) e) } :
          SerialCommandQueue).items i + s := by
      simp only [SerialCommandQueue.items, Option.elim_some, Operation.items, Operation.start, ← Multiset.singleton_add,
        others]
      abel
    rwa [hafter] at hstep
  · exact .refl

/-- A queue is exchanged for another one by one rule, and pumped. -/
theorem books_handler (hi : i < σ.nextQueue) {queue : SerialCommandQueue} {x y : Item} {s : Multiset Item}
    (hbefore : (σ.queues i).items i = x ::ₘ s) (hafter : queue.items i = y ::ₘ s)
    (hstep : ∀ s, Books.Step (σ.books.put (x ::ₘ s)) (σ.books.put (y ::ₘ s))) :
    ∃ s, Relation.TransGen Books.Step σ.books (σ.books.put (queue.items i + s)) ∧
      ∀ queue, (σ.setQueue i queue).items = queue.items i + s := by
  obtain ⟨rest, hσ, hset⟩ := items_setQueue hi
  refine ⟨rest, ?_, hset⟩
  rw [hbefore, Multiset.cons_add] at hσ
  rw [hafter, Multiset.cons_add, books_self hσ]
  exact .single (hstep _)

theorem mem_strand (hi : i < σ.nextQueue) {x : Posted} (hx : x ∈ (σ.queues i).strand) {y : Item} (hy : y ∈ x.items) :
    y ∈ σ.items := mem_items.mpr (.inl ⟨i, hi, mem_queue.mpr (.inl ⟨x, hx, hy⟩)⟩)

section Handler

variable {queue : SerialCommandQueue}

/-- A command comes to its queue. -/
theorem books_command (hi : i < σ.nextQueue) {e : Entry} {rest : List Posted}
    (hstrand : (σ.queues i).strand = .command e :: rest) :
    Relation.TransGen Books.Step σ.books (σ.setQueue i
      { σ.queues i with strand := rest, commands := (σ.queues i).commands ++ [e] }.pump).books := by
  let queue : SerialCommandQueue := { σ.queues i with strand := rest, commands := (σ.queues i).commands ++ [e] }
  let others := e.promise + (rest.map Posted.items).sum + ((σ.queues i).commands.map fun e => e.items true).sum +
    (σ.queues i).active.elim 0 (fun op => op.items i) + (σ.queues i).releasing.elim 0 fun _ => {.closing true}
  have hbefore : (σ.queues i).items i = .entry e false ::ₘ others := by
    simp only [SerialCommandQueue.items, hstrand, List.map_cons, List.sum_cons, Posted.items, Entry.items,
      ← Multiset.singleton_add, others]
    abel
  have hafter : queue.items i = .entry e true ::ₘ others := by
    simp only [SerialCommandQueue.items, List.map_append, List.sum_append, List.map_cons, List.map_nil, List.sum_cons,
      List.sum_nil, Entry.items, ← Multiset.singleton_add, others, queue]
    abel
  obtain ⟨s, hqueue, hset⟩ := books_handler hi hbefore hafter fun _ => .queue e
  rw [books_put (σ := σ) (hset queue.pump) ⟨rfl, fun _ => rfl, rfl, rfl⟩]
  exact hqueue.trans_left (books_pump σ.books queue i s)

/-- A closure of `Wait` finds its operation waiting. -/
theorem books_resume (hσ : σ.books.Sound) (hi : i < σ.nextQueue) {c : Completion} {rest : List Posted}
    (hstrand : (σ.queues i).strand = .resume c :: rest) (hqueue : c.wait.queue = i) :
    Relation.TransGen Books.Step σ.books
      (σ.setQueue i (({ σ.queues i with strand := rest } : SerialCommandQueue).resume c)).books := by
  have hready : .ready c 0 ∈ σ.items :=
    mem_strand hi (x := .resume c) (hstrand ▸ List.mem_cons_self) (Multiset.mem_singleton_self _)
  obtain ⟨-, op, hop, hstage, hwait⟩ := suspended_of_wake hσ hready (Multiset.mem_singleton_self _)
  rw [hqueue] at hop hwait
  obtain ⟨others, hσs, hset⟩ := items_setQueue hi
  let s := (rest.map Posted.items).sum + ((σ.queues i).commands.map fun e => e.items true).sum + op.entry.promise +
    (σ.queues i).releasing.elim 0 (fun _ => {.closing true}) + others
  have hbefore : σ.items = .ready c 0 ::ₘ .operation i op ::ₘ s := by
    rw [hσs]
    simp only [SerialCommandQueue.items, hstrand, hop, Option.elim_some, List.map_cons, List.sum_cons, Posted.items,
      Operation.items, ← Multiset.singleton_add, s]
    abel
  have hresume : ({ σ.queues i with strand := rest } : SerialCommandQueue).resume c =
      { σ.queues i with strand := rest, active := some (op.run c.next) } := by
    have hid : op.id = c.wait.op ∧ op.phase = c.wait.phase := by
      rw [hwait]
      exact ⟨rfl, rfl⟩
    simp only [SerialCommandQueue.resume, hop, if_pos hid, SerialCommandQueue.setActive]
  have hafter : (σ.setQueue i (({ σ.queues i with strand := rest } : SerialCommandQueue).resume c)).items =
      .operation i (op.run c.next) ::ₘ s := by
    rw [hset, hresume]
    simp only [SerialCommandQueue.items, Option.elim_some, Operation.items, Operation.run, ← Multiset.singleton_add, s]
    abel
  rw [books_self hbefore, books_put (σ := σ) hafter ⟨rfl, fun _ => rfl, rfl, rfl⟩]
  exact .single (.resume i op c c.wait.handed hstage hwait)

theorem onIdle_books (i j : Nat) (vacant : Bool) (queue : SerialCommandQueue) :
    ((σ.onIdle j vacant).setQueue i queue).books = (σ.setQueue i queue).books := by
  unfold onIdle
  repeat' split
  all_goals rfl

/-- The handler at the end of an operation begins. -/
theorem books_closing (hi : i < σ.nextQueue) {bytes : Nat} {rest : List Posted} {vacant : Bool}
    (hstrand : (σ.queues i).strand = .closing bytes :: rest) (hreleasing : (σ.queues i).releasing = none) :
    Relation.TransGen Books.Step σ.books ((σ.onIdle i vacant).setQueue i
      { σ.queues i with strand := rest, releasing := some bytes }.pump).books := by
  let queue : SerialCommandQueue := { σ.queues i with strand := rest, releasing := some bytes }
  let others := (rest.map Posted.items).sum + ((σ.queues i).commands.map fun e => e.items true).sum +
    (σ.queues i).active.elim 0 (fun op => op.items i)
  have hbefore : (σ.queues i).items i = .closing false ::ₘ others := by
    simp only [SerialCommandQueue.items, hstrand, hreleasing, Option.elim_none, List.map_cons, List.sum_cons,
      Posted.items, ← Multiset.singleton_add, others]
    abel
  have hafter : queue.items i = .closing true ::ₘ others := by
    simp only [SerialCommandQueue.items, Option.elim_some, ← Multiset.singleton_add, others, queue]
    abel
  obtain ⟨s, hqueue, hset⟩ := books_handler hi hbefore hafter fun _ => .close
  rw [onIdle_books, books_put (σ := σ) (hset queue.pump) ⟨rfl, fun _ => rfl, rfl, rfl⟩]
  exact hqueue.trans_left (books_pump σ.books queue i s)

theorem books_runHandler (hσ : σ.books.Sound) (haddressed : ∀ c, .resume c ∈ (σ.queues i).strand → c.wait.queue = i)
    (hi : i < σ.nextQueue) {vacant : Bool} (h : σ.runHandler i vacant = some σ') :
    Relation.TransGen Books.Step σ.books σ'.books := by
  unfold runHandler at h
  dsimp only at h
  split at h
  swap
  · cases h
  next hfree =>
  split at h
  · cases h
  · next e rest hstrand =>
    cases h
    exact books_command hi hstrand
  · next c rest hstrand =>
    cases h
    exact books_resume hσ hi hstrand (haddressed c (hstrand ▸ List.mem_cons_self))
  · next bytes rest hstrand =>
    cases h
    obtain ⟨hreleasing, -⟩ := Bool.and_eq_true_iff.mp hfree
    exact books_closing hi hstrand (Option.isNone_iff_eq_none.mp hreleasing)

end Handler

theorem books_release (hi : i < σ.nextQueue) (h : σ.release i = some σ') : Books.Step σ.books σ'.books := by
  unfold release at h
  split at h
  · cases h
  next bytes hreleasing =>
  cases h
  obtain ⟨others, hσ, hset⟩ := items_setQueue hi
  let queue := σ.queues i
  let s := (queue.strand.map Posted.items).sum + (queue.commands.map fun e => e.items true).sum +
    queue.active.elim 0 (fun op => op.items i) + others
  have hbefore : σ.items = .closing true ::ₘ s := by
    rw [hσ]
    simp only [SerialCommandQueue.items, hreleasing, Option.elim_some, ← Multiset.singleton_add, s, queue]
    abel
  have hafter : (σ.setQueue i { queue with releasing := none }).items = s := by
    rw [hset]
    simp only [SerialCommandQueue.items, Option.elim_none, s, queue]
    abel
  have hstep := Books.Step.free (b := σ.books) (s := s)
  rw [books_self hbefore]
  rwa [← hafter] at hstep ⊢

omit [PoolSizes] in
theorem reserved_setPool {pool : SlowPool} (h : pool.reserved = (σ.pools p).reserved) (q : PoolName) :
    ((σ.setPool p pool).pools q).reserved = (σ.pools q).reserved := by
  rcases eq_or_ne q p with rfl | hne
  · simp only [setPool, Function.update_self, h]
  · simp only [setPool, Function.update_of_ne hne]

/-- One item of a pool becomes another. -/
theorem books_setPool {pool : SlowPool} {x y : Item} {s : Multiset Item} (hbefore : (σ.pools p).items p = x ::ₘ s)
    (hafter : pool.items p = y ::ₘ s) (hreserved : pool.reserved = (σ.pools p).reserved)
    (hstep : ∀ s, Books.Step (σ.books.put (x ::ₘ s)) (σ.books.put (y ::ₘ s))) :
    ∃ s, σ.books = σ.books.put (x ::ₘ s) ∧ (σ.setPool p pool).books = σ.books.put (y ::ₘ s) ∧
      Books.Step σ.books (σ.setPool p pool).books := by
  obtain ⟨rest, hσ, hset⟩ := items_setPool (σ := σ) p
  have hitems := hset pool
  rw [hbefore, Multiset.cons_add] at hσ
  rw [hafter, Multiset.cons_add] at hitems
  have hbooks := books_put (σ := σ) hitems ⟨rfl, reserved_setPool hreserved, rfl, rfl⟩
  refine ⟨s + rest, books_self hσ, hbooks, ?_⟩
  rw [books_self hσ, hbooks]
  exact hstep _

/-- A thread of a pool goes on: the books move, or it finds nothing to do. -/
theorem books_runThread (hσ : σ.books.Sound) {n : Nat} (hn : n < p.threads) {o : Oracle}
    (h : σ.runThread p n o = some σ') :
    Relation.TransGen Books.Step σ.books σ'.books ∨
      (σ.pools p).threads n = .looking ∧ (σ.pools p).tasks = [] ∧ σ' = σ.setPool p ((σ.pools p).look n) ∧
        σ'.books = σ.books := by
  obtain ⟨rest, hpool, hset⟩ := items_setThread (σ.pools p) hn
  unfold runThread at h
  dsimp only at h
  split at h
  · next hthread =>
    cases h
    cases htasks : (σ.pools p).tasks with
    | nil =>
      refine .inr ⟨hthread, rfl, rfl, ?_⟩
      have hlook : ((σ.pools p).look n).items p = (σ.pools p).items p := by
        simp only [SlowPool.look, htasks]
        rw [hset, hpool, hthread]
        split <;> rfl
      have hreserved : ((σ.pools p).look n).reserved = (σ.pools p).reserved := by
        simp only [SlowPool.look, htasks]
        rfl
      rw [books_put (σ := σ) (items_samePool hlook) ⟨rfl, reserved_setPool hreserved, rfl, rfl⟩]
      rfl
    | cons t tasks =>
      refine .inl (.single ?_)
      let shorter : SlowPool := { σ.pools p with tasks }
      obtain ⟨rest, hshorter, hset⟩ := items_setThread shorter hn
      have hbefore : (σ.pools p).items p = .slow t false ::ₘ shorter.items p := by
        simp only [SlowPool.items, htasks, List.map_cons, List.sum_cons, ← Multiset.singleton_add, add_assoc, shorter]
      have hnone : (shorter.threads n).items = 0 := congrArg PoolThread.items hthread
      have hafter : ((σ.pools p).look n).items p = .slow t true ::ₘ shorter.items p := by
        simp only [SlowPool.look, htasks]
        rw [hshorter, hnone, zero_add, ← Multiset.singleton_add]
        exact hset (.working t)
      have hreserved : ((σ.pools p).look n).reserved = (σ.pools p).reserved := by
        simp only [SlowPool.look, htasks]
        rfl
      obtain ⟨-, -, -, hstep⟩ := books_setPool hbefore hafter hreserved fun _ => .take t
      exact hstep
  · cases h
  · next t hthread =>
    cases h
    rw [hthread] at hpool
    have hafter := hset (.worked { wait := t.wait, next := t.next (exec t.work o σ.server).1 })
    obtain ⟨-, -, -, hstep⟩ := books_setPool hpool hafter rfl fun _ => .work t (exec t.work o σ.server).1
    exact .inl (.single hstep)
  · next c hthread =>
    cases h
    rw [hthread] at hpool
    have hafter : (({ σ.pools p with pending := (σ.pools p).pending - 1 } : SlowPool).setThread n
        (.completing c)).items p = .ready c 1 ::ₘ rest := hset (.completing c)
    obtain ⟨-, -, -, hstep⟩ := books_setPool hpool hafter rfl fun _ => .pass c 1
    exact .inl (.single hstep)
  · next c hthread =>
    cases h
    rw [hthread] at hpool
    have hready : .ready c 1 ∈ σ.items := by
      refine mem_items.mpr (.inr ⟨p, ?_⟩)
      rw [hpool]
      exact Multiset.mem_cons_self _ _
    have hqueue := (suspended_of_wake hσ hready (Multiset.mem_singleton_self _)).1
    obtain ⟨others, hσs, hsetPool⟩ := items_setPool (σ := σ) p
    rw [hpool, PoolThread.items, add_assoc, Multiset.singleton_add] at hσs
    have hfree : (σ.setPool p ((σ.pools p).setThread n .looking)).items = rest + others := by
      rw [hsetPool, hset, PoolThread.items_looking, zero_add]
    have hitems := items_complete (σ := σ.setPool p ((σ.pools p).setThread n .looking)) hqueue
    rw [hfree] at hitems
    have hreserved : ((σ.pools p).setThread n .looking).reserved = (σ.pools p).reserved := rfl
    rw [books_self hσs, books_put (σ := σ) hitems ⟨rfl, reserved_setPool hreserved, rfl, rfl⟩]
    exact .inl (.single (.pass c 0))
  · cases h

theorem books_stop (p : PoolName) : (σ.setPool p (σ.pools p).stop).books = σ.books := by
  have hitems : (σ.pools p).stop.items p = (σ.pools p).items p := by
    simp only [SlowPool.items, SlowPool.stop]
    congr 1
    refine Finset.sum_congr rfl fun n _ => ?_
    split
    · next hblocked =>
      rw [SlowPool.isBlocked_iff.mp hblocked]
      rfl
    · rfl
  have hreserved : (σ.pools p).stop.reserved = (σ.pools p).reserved := rfl
  rw [books_put (σ := σ) (items_samePool hitems) ⟨rfl, reserved_setPool hreserved, rfl, rfl⟩]
  rfl

/-- How far `Shutdown` has come is not in the books. -/
theorem books_shutdown (σ : LogicSystem) (stage : Option Shutdown) : books { σ with shutdown := stage } = σ.books := rfl

theorem books_join (h : σ.join = some σ') : σ'.books = σ.books := by
  unfold join at h
  split at h
  · split at h
    · cases h
      exact (books_shutdown _ _).trans (books_stop .storage)
    · cases h
      rfl
  · split at h
    · cases h
      exact (books_shutdown _ _).trans (books_stop .ai)
    · cases h
  · split at h
    · cases h
      rfl
    · cases h
  · cases h

/-! ## The outside -/

theorem books_admitted {job : Job} {bytes : Nat} (h : Submitted σ σ' ⟨job, none, job.terminal, bytes⟩) :
    Books.Admit σ.books σ'.books := by
  rw [h.books]
  exact .mk (b := σ.books) (s := σ.items) job bytes

theorem books_submitConnection (hconns : ∀ s i, σ.connections s = some i → i < σ.nextQueue) (s : SessionId)
    (command : Command) (bytes : Nat) :
    (σ.submitConnection s command bytes).books = σ.books ∨
      Books.Admit σ.books (σ.submitConnection s command bytes).books := by
  unfold submitConnection
  dsimp only
  split
  · next i hi =>
    split
    · next σ' hsubmit => exact .inr (books_admitted (submit_spec (hconns s i hi) hsubmit))
    · split <;> exact .inl rfl
  · split
    · next σ' hsubmit => exact .inr (books_admitted (submit_created hsubmit))
    · exact .inl rfl

theorem books_postMsgToQue (hconns : ∀ s i, σ.connections s = some i → i < σ.nextQueue) (s : SessionId)
    (command : Command) (bytes : Nat) :
    (σ.postMsgToQue s command bytes).books = σ.books ∨ Books.Admit σ.books (σ.postMsgToQue s command bytes).books := by
  unfold postMsgToQue
  split
  · exact .inl rfl
  · exact books_submitConnection hconns s command bytes

/-- What the steps need of the registry and of the strands. -/
structure Addressed (σ : LogicSystem) : Prop where
  rooms : ∀ m i, σ.rooms m = some i → i < σ.nextQueue
  connections : ∀ s i, σ.connections s = some i → i < σ.nextQueue
  fixed : 1 < σ.nextQueue
  resume : ∀ i c, .resume c ∈ (σ.queues i).strand → c.wait.queue = i

/-- A step of the outside leaves the books as they are, or a command is accepted. -/
theorem outer_books (ha : σ.Addressed) {e : Event} (he : e.isInner = false) (h : σ.step e = some σ') :
    σ'.books = σ.books ∨ Books.Admit σ.books σ'.books := by
  cases e with
  | frame s r bytes =>
    cases h
    exact books_postMsgToQue ha.connections s _ bytes
  | disconnected s =>
    cases h
    exact books_postMsgToQue ha.connections s _ 0
  | timer =>
    cases h
    unfold postReconnectTimeoutCheck
    split
    · exact .inl rfl
    · cases hsubmit : σ.submit 1 .timer none 0 with
      | none => exact .inl rfl
      | some σ' => exact .inr (books_admitted (submit_spec ha.fixed hsubmit))
  | media event epoch message bytes =>
    cases h
    unfold postMediaEvent
    split
    · exact .inl rfl
    · split
      · next σ' hsubmit => exact .inr (books_admitted (submit_spec (Nat.zero_lt_of_lt ha.fixed) hsubmit))
      · exact .inl rfl
  | outside server =>
    cases h
    exact .inl rfl
  | shutdown =>
    have hshutdown : σ.callShutdown = some σ' := h
    unfold callShutdown at hshutdown
    split at hshutdown <;> cases hshutdown <;> exact .inl rfl
  | _ => cases he

/-- The two steps of the inside that the books do not see: a thread of a pool finds nothing to do, or `Shutdown` goes
on. -/
def Idle (σ σ' : LogicSystem) : Prop :=
  σ.join = some σ' ∨ ∃ p n, n < p.threads ∧ (σ.pools p).threads n = .looking ∧ (σ.pools p).tasks = [] ∧
    σ' = σ.setPool p ((σ.pools p).look n)

theorem inner_books (hσ : σ.books.Sound) (ha : σ.Addressed) {e : Event} (he : e.isInner = true)
    (h : σ.step e = some σ') :
    Relation.TransGen Books.Step σ.books σ'.books ∨ σ'.books = σ.books ∧ Idle σ σ' := by
  cases e with
  | handler i vacant =>
    simp only [step] at h
    split at h
    · next hi => exact .inl (books_runHandler hσ (ha.resume i) hi h)
    · cases h
  | step i o chosen =>
    simp only [step] at h
    split at h
    · next hi => exact .inl (books_stepOp hσ ha.rooms hi h)
    · cases h
  | release i =>
    simp only [step] at h
    split at h
    · next hi => exact .inl (.single (books_release hi h))
    · cases h
  | thread p n o =>
    simp only [step] at h
    split at h
    · next hn =>
      rcases books_runThread hσ hn h with hbooks | ⟨hlooking, htasks, hlook, hbooks⟩
      · exact .inl hbooks
      · exact .inr ⟨hbooks, .inr ⟨p, n, hn, hlooking, htasks, hlook⟩⟩
    · cases h
  | join => exact .inr ⟨books_join h, .inl h⟩
  | _ => cases he

omit [PoolSizes] in
theorem sound_steps {b b' : Books} (hb : b.Sound) (h : Relation.TransGen Books.Step b b') : b'.Sound := by
  induction h with
  | single h => exact hb.step h
  | tail _ h ih => exact ih.step h

/-- The books stay sound. -/
theorem sound_step (hσ : σ.books.Sound) (ha : σ.Addressed) {e : Event} (h : σ.step e = some σ') : σ'.books.Sound := by
  cases he : e.isInner with
  | false =>
    rcases outer_books ha he h with hbooks | hadmit
    · rwa [hbooks]
    · exact hσ.admit hadmit
  | true =>
    rcases inner_books hσ ha he h with hbooks | ⟨hbooks, -⟩
    · exact sound_steps hσ hbooks
    · rwa [hbooks]

theorem sound_start (server : Server) (aiStub : Bool) : (start server aiStub).books.Sound := by
  have hitems : (start server aiStub).items = 0 := by
    have hpool (p : PoolName) : SlowPool.items {} p = 0 := by
      simp only [SlowPool.items, List.map_nil, List.sum_nil, PoolThread.items_looking, Finset.sum_const_zero, add_zero]
    have hqueue (i : Nat) : SerialCommandQueue.items {} i = 0 := rfl
    simp only [items, start, hqueue, hpool, Finset.sum_const_zero, add_zero]
  have hnone : (start server aiStub).books.items = 0 := hitems
  refine ⟨?_, fun p => ?_, ?_, ?_, ?_⟩
  · rw [hnone]
    rfl
  · rw [hnone]
    rfl
  · rw [hnone]
    rfl
  · rw [hnone]
    rfl
  · rw [hnone]
    exact fun x hx => absurd hx (Multiset.notMem_zero x)

end LogicSystem

end SyncRtc
