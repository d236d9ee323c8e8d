import SyncRtc.Laws.Bookkeeping

/-!
# Strands, pools and the registry in order

What the books do not see: a command that stands in a queue without an operation has a handler on the strand that will
start it; a queue holds its owner's commands only; a thread that waits for a slow step leaves no step in the line that
an awake thread will not take; and `Shutdown` stops the pools when nothing is pending, one after the other.
-/

set_option autoImplicit false

namespace SyncRtc

open SerialCommandQueue

/-! ## What is in order -/

/-- Queue `i` holds its owner's commands, and its strand its own completions. -/
structure SerialCommandQueue.Owned (queue : SerialCommandQueue) (i : Nat) (owner : Thread) : Prop where
  addressed : ∀ c, .resume c ∈ queue.strand → c.wait.queue = i
  posted : ∀ e, .command e ∈ queue.strand → e.job.thread = owner
  queued : ∀ e ∈ queue.commands, e.job.thread = owner
  active : ∀ op, queue.active = some op → op.entry.job.thread = owner

/-- A command that stands in the queue is carried out, or a handler will start it. -/
structure SerialCommandQueue.Sane (queue : SerialCommandQueue) (i : Nat) (owner : Thread) : Prop extends
    queue.Owned i owner where
  pumped : queue.active = none → queue.commands ≠ [] → ∃ bytes, .closing bytes ∈ queue.strand

/-- 1 for a thread that is about to look for a slow step. -/
def PoolThread.looks : PoolThread → Nat
  | .looking => 1
  | _ => 0

/-- The threads that look for a slow step. -/
def SlowPool.looking [PoolSizes] (pool : SlowPool) (p : PoolName) : Nat := ∑ n ∈ Finset.range p.threads, (pool.threads n).looks

/-- If a thread waits, others are awake for every slow step in the line; a thread returns from a stopping pool only. -/
structure SlowPool.Awake [PoolSizes] (pool : SlowPool) (p : PoolName) : Prop where
  blocked : ∀ n < p.threads, pool.threads n = .blocked → pool.stopping = false ∧ pool.tasks.length ≤ pool.looking p
  returned : ∀ n, pool.threads n = .returned → pool.stopping = true

/-- The registry names queues that are there, and their owners. -/
structure Registered (rooms : MeetingId → Option Nat) (connections : SessionId → Option Nat) (owners : Nat → Thread)
    (nextQueue : Nat) : Prop where
  rooms : ∀ m i, rooms m = some i → i < nextQueue ∧ owners i = .room m
  connections : ∀ s i, connections s = some i → i < nextQueue ∧ owners i = .conn s
  fixed : 1 < nextQueue ∧ owners 0 = .control ∧ owners 1 = .timer

/-- How far `Shutdown` has come. -/
structure Halting [PoolSizes] (shutdown : Option Shutdown) (stopping : Bool) (pending : Nat) (pools : PoolName → SlowPool) :
    Prop where
  called : shutdown ≠ none → stopping = true
  blocked : shutdown = some .blocked → pending ≠ 0
  quiet : ∀ p, (pools p).stopping = true → stopping = true ∧ pending = 0
  joining : ∀ p, shutdown = some (.joining p) → (pools p).stopping = true
  joined : shutdown = some (.joining .ai) → (pools .storage).isJoined .storage = true
  returned : shutdown = some .returned → ∀ p, (pools p).isJoined p = true

namespace Registered

variable {rooms : MeetingId → Option Nat} {connections : SessionId → Option Nat} {owners : Nat → Thread} {n : Nat}

theorem dropRoom (h : Registered rooms connections owners n) (m : MeetingId) :
    Registered (Function.update rooms m none) connections owners n := by
  refine ⟨fun m' i hi => ?_, h.connections, h.fixed⟩
  rw [Function.update_apply] at hi
  split at hi
  · cases hi
  · exact h.rooms m' i hi

theorem dropConnection (h : Registered rooms connections owners n) (s : SessionId) :
    Registered rooms (Function.update connections s none) owners n := by
  refine ⟨h.rooms, fun s' i hi => ?_, h.fixed⟩
  rw [Function.update_apply] at hi
  split at hi
  · cases hi
  · exact h.connections s' i hi

end Registered

namespace LogicSystem

variable {σ σ' : LogicSystem} {i : Nat} {p : PoolName}

/-! ## A queue by itself -/

theorem sane_new {owner : Thread} : SerialCommandQueue.Sane {} i owner where
  addressed _ h := absurd h List.not_mem_nil
  posted _ h := absurd h List.not_mem_nil
  queued _ h := absurd h List.not_mem_nil
  active op h := absurd h.symm (Option.some_ne_none op)
  pumped _ h := absurd rfl h

theorem owned_post {queue : SerialCommandQueue} {owner : Thread} (h : queue.Owned i owner) {x : Posted}
    (hresume : ∀ c, x = .resume c → c.wait.queue = i) (hcommand : ∀ e, x = .command e → e.job.thread = owner) :
    (queue.post x).Owned i owner where
  addressed c hc := (List.mem_append.mp hc).elim (h.addressed c) fun hx => hresume c (List.mem_singleton.mp hx).symm
  posted e he := (List.mem_append.mp he).elim (h.posted e) fun hx => hcommand e (List.mem_singleton.mp hx).symm
  queued := h.queued
  active := h.active

theorem sane_post {queue : SerialCommandQueue} {owner : Thread} (h : queue.Sane i owner) {x : Posted}
    (hresume : ∀ c, x = .resume c → c.wait.queue = i) (hcommand : ∀ e, x = .command e → e.job.thread = owner) :
    (queue.post x).Sane i owner := by
  refine ⟨owned_post h.toOwned hresume hcommand, fun hactive hcommands => ?_⟩
  obtain ⟨bytes, hbytes⟩ := h.pumped hactive hcommands
  exact ⟨bytes, List.mem_append_left _ hbytes⟩

/-- After `Pump` no command stands in a queue without an operation. -/
theorem sane_pump {queue : SerialCommandQueue} {owner : Thread} (h : queue.Owned i owner) : queue.pump.Sane i owner := by
  unfold pump
  split
  · next e rest hactive hcommands =>
    refine ⟨⟨h.addressed, h.posted, fun e' he => ?_, fun op hop => ?_⟩, nofun⟩
    · exact h.queued e' (hcommands ▸ List.mem_cons_of_mem e he)
    · cases hop
      exact h.queued e (hcommands ▸ List.mem_cons_self)
  · next hno =>
    refine ⟨h, fun hactive hcommands => ?_⟩
    obtain ⟨e, rest, hcons⟩ := List.exists_cons_of_ne_nil hcommands
    exact (hno e rest hactive hcons).elim

/-- The strand without its first handler. -/
theorem owned_tail {queue : SerialCommandQueue} {owner : Thread} (h : queue.Owned i owner) {x : Posted}
    {rest : List Posted} (hstrand : queue.strand = x :: rest) :
    ({ queue with strand := rest } : SerialCommandQueue).Owned i owner where
  addressed c hc := h.addressed c (hstrand ▸ List.mem_cons_of_mem x hc)
  posted e he := h.posted e (hstrand ▸ List.mem_cons_of_mem x he)
  queued := h.queued
  active := h.active

/-- What `notify_all` does to the thread in `Shutdown`. -/
theorem wakeIdle_cases (stage : Option Shutdown) :
    wakeIdle stage = stage ∧ stage ≠ some .blocked ∨ stage = some .blocked ∧ wakeIdle stage = some .looking := by
  unfold wakeIdle
  split
  · exact .inr ⟨rfl, rfl⟩
  · next hno => exact .inl ⟨rfl, hno⟩

/-! ## The whole -/

variable [PoolSizes]

structure Orderly (σ : LogicSystem) : Prop where
  queues : ∀ i, (σ.queues i).Sane i (σ.owners i)
  pools : ∀ p, (σ.pools p).Awake p
  registry : Registered σ.rooms σ.connections σ.owners σ.nextQueue
  halting : Halting σ.shutdown σ.stopping σ.scheduler.pending σ.pools

theorem Orderly.addressed (h : σ.Orderly) : σ.Addressed where
  rooms m i hi := (h.registry.rooms m i hi).1
  connections s i hi := (h.registry.connections s i hi).1
  fixed := h.registry.fixed.1
  resume i := (h.queues i).addressed

/-! ## A queue changes -/

theorem Orderly.setQueue (h : σ.Orderly) {queue : SerialCommandQueue} (hqueue : queue.Sane i (σ.owners i)) :
    (σ.setQueue i queue).Orderly := by
  refine ⟨fun j => ?_, h.pools, h.registry, h.halting⟩
  simp only [LogicSystem.setQueue]
  rcases eq_or_ne j i with rfl | hne
  · rw [Function.update_self]
    exact hqueue
  · rw [Function.update_of_ne hne]
    exact h.queues j

theorem Orderly.setOp (h : σ.Orderly) {op op' : Operation} (hop : (σ.queues i).active = some op)
    (hjob : op'.entry.job = op.entry.job) : (σ.setOp i op').Orderly := by
  have hqueue := h.queues i
  refine h.setQueue ⟨⟨hqueue.addressed, hqueue.posted, hqueue.queued, ?_⟩, fun hnone => absurd hnone (Option.some_ne_none _)⟩
  intro op'' heq
  cases heq
  rw [hjob]
  exact hqueue.active op hop

theorem Orderly.complete (h : σ.Orderly) (c : Completion) : (σ.complete c).Orderly := by
  refine h.setQueue (sane_post (h.queues _) ?_ fun _ => nofun)
  intro c' hc
  cases hc
  rfl

/-! ## A pool changes -/

/-- The pool is as it was, as far as its end is concerned. -/
structure SteadyPool (pool pool' : SlowPool) (p : PoolName) : Prop where
  awake : pool.Awake p → pool'.Awake p
  stopping : pool'.stopping = pool.stopping
  joined : pool.isJoined p = true → pool'.isJoined p = true

theorem Orderly.setPool (h : σ.Orderly) {pool : SlowPool} (hpool : SteadyPool (σ.pools p) pool p) :
    (σ.setPool p pool).Orderly := by
  refine ⟨h.queues, fun q => ?_, h.registry, ?_⟩
  · simp only [LogicSystem.setPool]
    rcases eq_or_ne q p with rfl | hne
    · rw [Function.update_self]
      exact hpool.awake (h.pools q)
    · rw [Function.update_of_ne hne]
      exact h.pools q
  · have hstopping (q : PoolName) : ((σ.setPool p pool).pools q).stopping = (σ.pools q).stopping := by
      simp only [LogicSystem.setPool]
      rcases eq_or_ne q p with rfl | hne
      · rw [Function.update_self, hpool.stopping]
      · rw [Function.update_of_ne hne]
    have hjoined (q : PoolName) (hq : (σ.pools q).isJoined q = true) :
        ((σ.setPool p pool).pools q).isJoined q = true := by
      simp only [LogicSystem.setPool]
      rcases eq_or_ne q p with rfl | hne
      · rw [Function.update_self]
        exact hpool.joined hq
      · rwa [Function.update_of_ne hne]
    refine ⟨h.halting.called, h.halting.blocked, fun q hq => ?_, fun q hq => ?_, fun hq => ?_, fun hq q => ?_⟩
    · exact h.halting.quiet q ((hstopping q).symm.trans hq)
    · exact (hstopping q).trans (h.halting.joining q hq)
    · exact hjoined .storage (h.halting.joined hq)
    · exact hjoined q (h.halting.returned hq q)

/-- Places taken or given up. -/
theorem steady_places (pool : SlowPool) (n : Nat) : SteadyPool pool { pool with reserved := n } p :=
  ⟨fun h => ⟨h.blocked, h.returned⟩, rfl, id⟩

theorem steady_reserve {pool pool' : SlowPool} (h : pool.reserve p = some pool') : SteadyPool pool pool' p := by
  unfold SlowPool.reserve at h
  split at h
  · cases h
  · cases h
    exact steady_places pool _

theorem isJoined_iff {pool : SlowPool} : pool.isJoined p = true ↔ ∀ n < p.threads, pool.threads n = .returned := by
  unfold SlowPool.isJoined
  rw [List.all_eq_true]
  constructor
  · intro h n hn
    have hthread := h n (List.mem_range.mpr hn)
    split at hthread
    · assumption
    · cases hthread
  · intro h n hn
    rw [h n (List.mem_range.mp hn)]

theorem looking_setThread (pool : SlowPool) {n : Nat} (hn : n < p.threads) :
    ∃ rest, pool.looking p = (pool.threads n).looks + rest ∧
      ∀ thread, (pool.setThread n thread).looking p = thread.looks + rest :=
  sum_exchange (f := pool.threads) (fun _ t => t.looks) (Finset.mem_range.mpr hn)

/-- A thread that has not returned goes on. -/
theorem steady_thread {pool : SlowPool} {n : Nat} (hn : n < p.threads) {tasks : List SlowTask} {pending : Nat}
    {thread : PoolThread} (hold : pool.threads n ≠ .returned) (hreturned : thread = .returned → pool.stopping = true)
    (hblocked : thread = .blocked → pool.stopping = false ∧ tasks = [])
    (htasks : tasks = [] ∨ tasks.length + (pool.threads n).looks ≤ pool.tasks.length + thread.looks) :
    SteadyPool pool (({ pool with tasks, pending } : SlowPool).setThread n thread) p := by
  obtain ⟨rest, hlooking, hset⟩ := looking_setThread { pool with tasks, pending } hn
  have hbefore : pool.looking p = (pool.threads n).looks + rest := hlooking
  have hafter := hset thread
  refine ⟨fun h => ⟨fun m hm hthread => ?_, fun m hthread => ?_⟩, rfl, fun h => ?_⟩
  · rcases eq_or_ne m n with rfl | hne
    · rw [SlowPool.setThread_self] at hthread
      obtain ⟨hstopping, hnil⟩ := hblocked hthread
      exact ⟨hstopping, hnil ▸ Nat.zero_le _⟩
    · rw [SlowPool.setThread_of_ne hne] at hthread
      obtain ⟨hstopping, hle⟩ := h.blocked m hm hthread
      refine ⟨hstopping, ?_⟩
      rw [hafter]
      rcases htasks with hnil | htasks
      · exact hnil ▸ Nat.zero_le _
      · have hlen : tasks.length ≤ thread.looks + rest := by omega
        exact hlen
  · rcases eq_or_ne m n with rfl | hne
    · rw [SlowPool.setThread_self] at hthread
      exact hreturned hthread
    · rw [SlowPool.setThread_of_ne hne] at hthread
      exact h.returned m hthread
  · exact absurd (isJoined_iff.mp h n hn) hold

theorem steady_submit {pool pool' : SlowPool} {t : SlowTask} {chosen : Nat} (h : pool.submit p t chosen = some pool') :
    SteadyPool pool pool' p := by
  unfold SlowPool.submit at h
  split at h
  · cases h
  cases h
  let longer : SlowPool := { pool with tasks := pool.tasks ++ [t], pending := pool.pending + 1 }
  rcases longer.notifyOne_cases p chosen with ⟨n, hn, hblocked, hnotify⟩ | ⟨hnone, hnotify⟩
  · rw [hnotify]
    have hold : pool.threads n = .blocked := hblocked
    refine steady_thread hn (by rw [hold]; nofun) nofun nofun (.inr ?_)
    rw [hold, List.length_append, List.length_singleton]
    rfl
  · rw [hnotify]
    exact ⟨fun hpool => ⟨fun m hm hm' => absurd hm' (hnone m hm), hpool.returned⟩, rfl, id⟩

theorem steady_look {pool : SlowPool} {n : Nat} (hn : n < p.threads) (hthread : pool.threads n = .looking) :
    SteadyPool pool (pool.look n) p := by
  have hold : pool.threads n ≠ .returned := by rw [hthread]; nofun
  unfold SlowPool.look
  split
  · next t tasks htasks =>
    refine steady_thread hn hold nofun nofun (.inr ?_)
    rw [hthread, htasks, List.length_cons]
    rfl
  · next htasks =>
    have hsame : pool = { pool with tasks := [], pending := pool.pending } := by rw [← htasks]
    have hsteady : SteadyPool pool (({ pool with tasks := [], pending := pool.pending } : SlowPool).setThread n
        (if pool.stopping then .returned else .blocked)) p := by
      refine steady_thread hn hold ?_ ?_ (.inl rfl)
      · intro h
        split at h
        · assumption
        · cases h
      · intro h
        split at h
        · cases h
        · next hstopping => exact ⟨by simpa using hstopping, rfl⟩
    rwa [← hsame] at hsteady

/-! ## A command is accepted -/

/-- The registry, changed so that it names the new queue. -/
theorem orderly_created (h : σ.Orderly) {owner : Thread} {rooms : MeetingId → Option Nat}
    {connections : SessionId → Option Nat}
    (hrooms : ∀ m i, rooms m = some i → σ.rooms m = some i ∨ i = σ.nextQueue ∧ owner = .room m)
    (hconnections : ∀ s i, connections s = some i → σ.connections s = some i ∨ i = σ.nextQueue ∧ owner = .conn s) :
    ({ σ.create owner with rooms, connections } : LogicSystem).Orderly := by
  have hold {i : Nat} (hi : i < σ.nextQueue) : Function.update σ.owners σ.nextQueue owner i = σ.owners i :=
    Function.update_of_ne hi.ne _ _
  have hnew : Function.update σ.owners σ.nextQueue owner σ.nextQueue = owner := Function.update_self _ _ _
  have hregistry : Registered rooms connections (Function.update σ.owners σ.nextQueue owner) (σ.nextQueue + 1) := by
    refine ⟨fun m i hi => ?_, fun s i hi => ?_, ?_⟩
    · rcases hrooms m i hi with hi | ⟨rfl, howner⟩
      · obtain ⟨hlt, howner⟩ := h.registry.rooms m i hi
        exact ⟨Nat.lt_succ_of_lt hlt, (hold hlt).trans howner⟩
      · exact ⟨Nat.lt_succ_self _, hnew.trans howner⟩
    · rcases hconnections s i hi with hi | ⟨rfl, howner⟩
      · obtain ⟨hlt, howner⟩ := h.registry.connections s i hi
        exact ⟨Nat.lt_succ_of_lt hlt, (hold hlt).trans howner⟩
      · exact ⟨Nat.lt_succ_self _, hnew.trans howner⟩
    · obtain ⟨hlt, hcontrol, htimer⟩ := h.registry.fixed
      exact ⟨Nat.lt_succ_of_lt hlt, (hold (Nat.zero_lt_of_lt hlt)).trans hcontrol, (hold hlt).trans htimer⟩
  unfold create
  refine ⟨fun i => ?_, h.pools, hregistry, h.halting⟩
  dsimp only
  rcases eq_or_ne i σ.nextQueue with rfl | hne
  · rw [Function.update_self, Function.update_self]
    exact sane_new
  · rw [Function.update_of_ne hne, Function.update_of_ne hne]
    exact h.queues i

/-- An accepted command, while no pool has been stopped. -/
theorem orderly_submit (h : σ.Orderly) (hopen : ∀ p, (σ.pools p).stopping = false) {job : Job}
    (howner : job.thread = σ.owners i) {done : Option Completion} {bytes : Nat}
    (hsubmit : σ.submit i job done bytes = some σ') : σ'.Orderly := by
  unfold submit at hsubmit
  split at hsubmit
  swap
  · cases hsubmit
  split at hsubmit
  · cases hsubmit
  next scheduler hscheduler =>
  cases hsubmit
  have hpending : scheduler.pending ≠ 0 := by
    unfold BusinessScheduler.reserve at hscheduler
    split at hscheduler
    · cases hscheduler
    · cases hscheduler
      exact Nat.succ_ne_zero _
  have hqueue : ((σ.queues i).push ⟨job, done, job.terminal, bytes⟩).Sane i (σ.owners i) := by
    have hposted := sane_post (h.queues i) (x := .command ⟨job, done, job.terminal, bytes⟩) nofun fun e he => by
      cases he
      exact howner
    exact ⟨⟨hposted.addressed, hposted.posted, hposted.queued, hposted.active⟩, hposted.pumped⟩
  obtain ⟨hqueues, hpools, hregistry, hhalting⟩ := h.setQueue hqueue
  refine ⟨hqueues, hpools, hregistry, h.halting.called, fun _ => hpending, fun p hp => ?_, h.halting.joining,
    h.halting.joined, h.halting.returned⟩
  exact absurd ((hopen p).symm.trans hp) nofun

theorem orderly_submitRoom (h : σ.Orderly) (hopen : ∀ p, (σ.pools p).stopping = false) {m : MeetingId} {task : Task}
    {done : Option Completion} {bytes : Nat} (hsubmit : σ.submitRoom m task done bytes = some σ') : σ'.Orderly := by
  unfold submitRoom at hsubmit
  split at hsubmit
  · next i hi =>
    have howner : (Job.room m task).thread = σ.owners i := (h.registry.rooms m i hi).2.symm
    exact orderly_submit h hopen howner hsubmit
  · refine orderly_submit (orderly_created h (fun n i hi => ?_) fun s i hi => .inl hi) hopen ?_ hsubmit
    · rcases eq_or_ne n m with rfl | hne
      · rw [Function.update_self] at hi
        exact .inr ⟨(Option.some.inj hi).symm, rfl⟩
      · rw [Function.update_of_ne hne] at hi
        exact .inl hi
    · simp only [create, Function.update_self, Job.thread]

theorem orderly_submitConnection (h : σ.Orderly) (hopen : ∀ p, (σ.pools p).stopping = false) (s : SessionId)
    (command : Command) (bytes : Nat) : (σ.submitConnection s command bytes).Orderly := by
  unfold submitConnection
  dsimp only
  have hserver (server : Server) : ({ σ with server } : LogicSystem).Orderly :=
    ⟨h.queues, h.pools, h.registry, h.halting⟩
  split
  · next i hi =>
    split
    · next σ' hsubmit =>
      have howner : (Job.connection s command).thread = σ.owners i := (h.registry.connections s i hi).2.symm
      exact orderly_submit h hopen howner hsubmit
    · split
      · exact ⟨h.queues, h.pools, h.registry.dropConnection s, h.halting⟩
      · exact hserver _
  · split
    · next σ' hsubmit =>
      refine orderly_submit (orderly_created h (fun m i hi => .inl hi) fun t i hi => ?_) hopen ?_ hsubmit
      · rcases eq_or_ne t s with rfl | hne
        · rw [Function.update_self] at hi
          exact .inr ⟨(Option.some.inj hi).symm, rfl⟩
        · rw [Function.update_of_ne hne] at hi
          exact .inl hi
      · simp only [create, Function.update_self, Job.thread]
    · exact hserver _

/-! ## A coroutine goes on -/

theorem pending_of_item (hσ : σ.books.Sound) {x : Item} (hx : x ∈ σ.items) (hcounted : x.counted = 1) :
    σ.scheduler.pending ≠ 0 := by
  have hpending : σ.scheduler.pending = (σ.items.map Item.counted).sum := hσ.pending
  have hle := Multiset.single_le_sum (fun _ _ => Nat.zero_le _) _ (Multiset.mem_map_of_mem Item.counted hx)
  omega

theorem open_of_item (hσ : σ.books.Sound) (h : σ.Orderly) {x : Item} (hx : x ∈ σ.items) (hcounted : x.counted = 1)
    (p : PoolName) : (σ.pools p).stopping = false := by
  by_contra hstopping
  exact pending_of_item hσ hx hcounted (h.halting.quiet p (by simpa using hstopping)).2

section Coroutine

variable {op : Operation} {c : Call} {k : c.Res → Op Unit}

theorem orderly_releaseCapacity (h : σ.Orderly) (hop : (σ.queues i).active = some op) (rest : List PoolName) :
    (σ.releaseCapacity i op p rest).Orderly := (h.setPool (steady_places _ _)).setOp hop rfl

theorem orderly_reserve (h : σ.Orderly) (hop : (σ.queues i).active = some op) : (σ.reserve i op p c k).Orderly := by
  unfold reserve
  split
  · next pool hreserve => exact (h.setPool (steady_reserve hreserve)).setOp hop rfl
  · split <;> exact h.setOp hop rfl

theorem orderly_await (h : σ.Orderly) (hop : (σ.queues i).active = some op) (chosen : Nat) :
    (σ.await i op p chosen c k).Orderly := by
  unfold await
  split
  · next pool hsubmit => exact (h.setPool (steady_submit hsubmit)).setOp hop rfl
  · refine (h.setOp hop ?_).complete _
    rfl

theorem orderly_enter (h : σ.Orderly) (hop : (σ.queues i).active = some op) (chosen : Nat) :
    (σ.enter i op p chosen c k).Orderly := by
  unfold enter
  split
  · exact h.setOp hop rfl
  · exact orderly_await h hop chosen

theorem orderly_callSubmitRoom (hσ : σ.books.Sound) (h : σ.Orderly) (hi : i < σ.nextQueue)
    (hop : (σ.queues i).active = some op) (m : MeetingId) (task : Task) (k : Bool → Op Unit) :
    (σ.callSubmitRoom i op m task k).Orderly := by
  have hopen := open_of_item hσ h (mem_operation.mpr ⟨hi, hop⟩) rfl
  have hactive {σ' : LogicSystem} {e : Entry} (hsubmit : Submitted σ σ' e) : (σ'.queues i).active = some op :=
    (hsubmit.active i hi).trans hop
  have hrooms := h.addressed.rooms m
  unfold callSubmitRoom
  split
  · split
    · exact orderly_releaseCapacity h hop _
    · unfold handOver
      split
      · next σ' hsubmit => exact (orderly_submitRoom h hopen hsubmit).setOp (hactive (submitRoom_spec hrooms hsubmit)) rfl
      · refine (h.setOp hop ?_).complete _
        rfl
  · split
    · next σ' hsubmit => exact (orderly_submitRoom h hopen hsubmit).setOp (hactive (submitRoom_spec hrooms hsubmit)) rfl
    · exact h.setOp hop rfl

theorem Orderly.withServer (h : σ.Orderly) (server : Server) : ({ σ with server } : LogicSystem).Orderly :=
  ⟨h.queues, h.pools, h.registry, h.halting⟩

theorem orderly_run (hσ : σ.books.Sound) (h : σ.Orderly) (hi : i < σ.nextQueue) (hop : (σ.queues i).active = some op)
    (o : Oracle) (chosen : Nat) (body : Op Unit) : (σ.run i op o chosen body).Orderly := by
  unfold run
  split
  · have hrecord : (σ.record op.entry.job).Orderly := ⟨h.queues, h.pools, h.registry, h.halting⟩
    unfold finish
    split
    · exact orderly_releaseCapacity h hop _
    · split
      · refine (hrecord.setOp hop ?_).complete _
        rfl
      · exact hrecord.setOp hop rfl
  · split
    · split
      · exact orderly_enter h hop chosen
      · exact orderly_reserve h hop
    · unfold proceed
      split
      · exact orderly_callSubmitRoom hσ h hi hop _ _ _
      · refine (h.setOp hop ?_).withServer _
        rfl

theorem orderly_stepOp (hσ : σ.books.Sound) (h : σ.Orderly) (hi : i < σ.nextQueue) {o : Oracle} {chosen : Nat}
    (hstep : σ.stepOp i o chosen = some σ') : σ'.Orderly := by
  unfold stepOp at hstep
  split at hstep
  · cases hstep
  next op hop =>
  have hqueue := h.queues i
  split at hstep
  · cases hstep
    exact orderly_run hσ h hi hop o chosen _
  · split at hstep
    · unfold retry at hstep
      split at hstep
      · next pool hreserve =>
        cases hstep
        exact (h.setPool (steady_reserve hreserve)).setOp hop rfl
      · cases hstep
    · cases hstep
  · cases hstep
  · cases hstep
    refine h.setQueue ⟨⟨hqueue.addressed, hqueue.posted, hqueue.queued, ?_⟩, fun hnone => absurd hnone (Option.some_ne_none _)⟩
    intro op' heq
    cases heq
    exact hqueue.active op hop
  · cases hstep
    have hposted := owned_post hqueue.toOwned (x := .closing op.entry.bytes) (fun _ => nofun) fun _ => nofun
    refine h.setQueue ⟨⟨hposted.addressed, hposted.posted, hposted.queued, fun op heq => ?_⟩, fun _ _ => ?_⟩
    · exact absurd heq.symm (Option.some_ne_none op)
    exact ⟨op.entry.bytes, List.mem_append_right _ (List.mem_singleton_self _)⟩

end Coroutine

/-! ## A strand, a thread, `Shutdown` -/

theorem orderly_runHandler (h : σ.Orderly) {vacant : Bool} (hstep : σ.runHandler i vacant = some σ') : σ'.Orderly := by
  have hqueue := h.queues i
  unfold runHandler at hstep
  dsimp only at hstep
  split at hstep
  swap
  · cases hstep
  split at hstep
  · cases hstep
  · next e rest hstrand =>
    cases hstep
    have htail := owned_tail hqueue.toOwned hstrand
    refine h.setQueue (sane_pump ⟨htail.addressed, htail.posted, fun e' he => ?_, htail.active⟩)
    rcases List.mem_append.mp he with he | he
    · exact htail.queued e' he
    · cases List.mem_singleton.mp he
      exact hqueue.posted e (hstrand ▸ List.mem_cons_self)
  · next c rest hstrand =>
    cases hstep
    have htail := owned_tail hqueue.toOwned hstrand
    have hpumped : (σ.queues i).active = none → (σ.queues i).commands ≠ [] → ∃ bytes, .closing bytes ∈ rest := by
      intro hnone hcommands
      obtain ⟨bytes, hbytes⟩ := hqueue.pumped hnone hcommands
      rw [hstrand] at hbytes
      rcases List.mem_cons.mp hbytes with hhead | hrest
      · cases hhead
      · exact ⟨bytes, hrest⟩
    refine h.setQueue ?_
    unfold SerialCommandQueue.resume
    split
    · next op hop =>
      split
      · refine ⟨⟨htail.addressed, htail.posted, htail.queued, fun op' heq => ?_⟩, fun hnone => ?_⟩
        · cases heq
          exact htail.active op hop
        · exact absurd hnone (Option.some_ne_none _)
      · exact ⟨htail, hpumped⟩
    · exact ⟨htail, hpumped⟩
  · next bytes rest hstrand =>
    cases hstep
    have htail := owned_tail hqueue.toOwned hstrand
    have hidle : (σ.onIdle i vacant).Orderly ∧ (σ.onIdle i vacant).owners = σ.owners := by
      unfold onIdle
      split
      · exact ⟨h, rfl⟩
      · split
        · next s _ =>
          split
          · exact ⟨⟨h.queues, h.pools, h.registry.dropConnection s, h.halting⟩, rfl⟩
          · exact ⟨h, rfl⟩
        · next m _ =>
          split
          · exact ⟨⟨h.queues, h.pools, h.registry.dropRoom m, h.halting⟩, rfl⟩
          · exact ⟨h, rfl⟩
        · exact ⟨h, rfl⟩
    refine hidle.1.setQueue ?_
    rw [hidle.2]
    exact sane_pump ⟨htail.addressed, htail.posted, htail.queued, htail.active⟩

theorem halting_release {shutdown : Option Shutdown} {stopping : Bool} {pending : Nat} {pools : PoolName → SlowPool}
    (h : Halting shutdown stopping pending pools) (hopen : ∀ p, (pools p).stopping = false) (pending' : Nat) :
    Halting (if pending' = 0 then wakeIdle shutdown else shutdown) stopping pending' pools := by
  have hquiet : ∀ p, (pools p).stopping = true → stopping = true ∧ pending' = 0 := fun p hp =>
    absurd ((hopen p).symm.trans hp) nofun
  split
  · rcases wakeIdle_cases shutdown with ⟨hsame, hno⟩ | ⟨hblocked, hwoken⟩
    · rw [hsame]
      exact ⟨h.called, fun hb => absurd hb hno, hquiet, h.joining, h.joined, h.returned⟩
    · rw [hwoken]
      exact ⟨fun _ => h.called (by rw [hblocked]; nofun), nofun, hquiet, nofun, nofun, nofun⟩
  · next hpending => exact ⟨h.called, fun _ => hpending, hquiet, h.joining, h.joined, h.returned⟩

theorem orderly_release (hσ : σ.books.Sound) (h : σ.Orderly) (hi : i < σ.nextQueue) (hstep : σ.release i = some σ') :
    σ'.Orderly := by
  unfold release at hstep
  split at hstep
  · cases hstep
  next bytes hreleasing =>
  cases hstep
  have hqueue := h.queues i
  have hitem : .closing true ∈ σ.items := by
    refine mem_items.mpr (.inl ⟨i, hi, mem_queue.mpr (.inr (.inr (.inr ⟨?_, rfl⟩)))⟩)
    rw [hreleasing]
    rfl
  have hopen := open_of_item hσ h hitem rfl
  have hset : (σ.setQueue i { σ.queues i with releasing := none }).Orderly := by
    exact h.setQueue ⟨⟨hqueue.addressed, hqueue.posted, hqueue.queued, hqueue.active⟩, hqueue.pumped⟩
  refine ⟨hset.queues, hset.pools, hset.registry, halting_release h.halting hopen _⟩

theorem awake_stop (pool : SlowPool) : pool.stop.Awake p := by
  refine ⟨fun n _ hn => ?_, fun _ _ => rfl⟩
  simp only [SlowPool.stop] at hn
  split at hn
  · cases hn
  · next hblocked => exact absurd (SlowPool.isBlocked_iff.mpr hn) hblocked

theorem pools_stop (h : σ.Orderly) (q p : PoolName) : ((σ.setPool q (σ.pools q).stop).pools p).Awake p := by
  simp only [LogicSystem.setPool]
  rcases eq_or_ne p q with rfl | hne
  · rw [Function.update_self]
    exact awake_stop _
  · rw [Function.update_of_ne hne]
    exact h.pools p

theorem orderly_join (h : σ.Orderly) (hstep : σ.join = some σ') : σ'.Orderly := by
  unfold join at hstep
  split at hstep
  · next hstage =>
    have hstopping := h.halting.called (by simp [hstage])
    split at hstep
    · next hpending =>
      cases hstep
      refine ⟨h.queues, pools_stop h .storage, h.registry, fun _ => hstopping, by simp, fun _ _ => ⟨hstopping, hpending⟩,
        fun p hp => ?_, by simp, by simp⟩
      cases hp
      simp only [LogicSystem.setPool, Function.update_self, SlowPool.stop]
    · next hpending =>
      cases hstep
      exact ⟨h.queues, h.pools, h.registry, fun _ => hstopping, fun _ => hpending, h.halting.quiet, by simp, by simp, by simp⟩
  · next hstage =>
    have hquiet := h.halting.quiet .storage (h.halting.joining .storage hstage)
    split at hstep
    · next hjoined =>
      cases hstep
      refine ⟨h.queues, pools_stop h .ai, h.registry, fun _ => hquiet.1, by simp, fun _ _ => hquiet, fun p hp => ?_,
        fun _ => hjoined, by simp⟩
      cases hp
      simp only [LogicSystem.setPool, Function.update_self, SlowPool.stop]
    · cases hstep
  · next hstage =>
    have hstopping := h.halting.called (by simp [hstage])
    have hstorage := h.halting.joined hstage
    split at hstep
    · next hjoined =>
      cases hstep
      refine ⟨h.queues, h.pools, h.registry, fun _ => hstopping, by simp, h.halting.quiet, by simp, by simp, fun _ p => ?_⟩
      cases p
      · exact hstorage
      · exact hjoined
    · cases hstep
  · cases hstep

theorem orderly_runThread (h : σ.Orderly) {n : Nat} (hn : n < p.threads) {o : Oracle}
    (hstep : σ.runThread p n o = some σ') : σ'.Orderly := by
  let pool := σ.pools p
  have hgoes {pending : Nat} {thread : PoolThread} (hold : pool.threads n ≠ .returned) (hnew : thread ≠ .returned)
      (hblocked : thread ≠ .blocked) (hlooks : (pool.threads n).looks ≤ thread.looks) :
      SteadyPool pool (({ pool with pending } : SlowPool).setThread n thread) p := by
    refine steady_thread hn hold (fun h => absurd h hnew) (fun h => absurd h hblocked) (.inr ?_)
    omega
  unfold runThread at hstep
  dsimp only at hstep
  split at hstep
  · next hthread =>
    cases hstep
    exact h.setPool (steady_look hn hthread)
  · cases hstep
  · next t hthread =>
    have hthread' : pool.threads n = .working t := hthread
    cases hstep
    refine (h.setPool (hgoes ?_ ?_ ?_ ?_)).withServer _
    · simp [hthread']
    · simp
    · simp
    · simp [hthread', PoolThread.looks]
  · next c hthread =>
    have hthread' : pool.threads n = .worked c := hthread
    cases hstep
    refine h.setPool (hgoes ?_ ?_ ?_ ?_)
    · simp [hthread']
    · simp
    · simp
    · simp [hthread', PoolThread.looks]
  · next c hthread =>
    have hthread' : pool.threads n = .completing c := hthread
    cases hstep
    refine (h.setPool (hgoes ?_ ?_ ?_ ?_)).complete c
    · simp [hthread']
    · simp
    · simp
    · simp [hthread', PoolThread.looks]
  · cases hstep

/-! ## The outside -/

/-- No pool is stopped before `Shutdown` is called. -/
theorem open_of_running (h : σ.Orderly) (hrunning : ¬ σ.stopping = true) (p : PoolName) : (σ.pools p).stopping = false := by
  by_contra hstopping
  exact hrunning (h.halting.quiet p (by simpa using hstopping)).1

theorem orderly_postMsgToQue (h : σ.Orderly) (s : SessionId) (command : Command) (bytes : Nat) :
    (σ.postMsgToQue s command bytes).Orderly := by
  unfold postMsgToQue
  split
  · exact h
  · next hrunning => exact orderly_submitConnection h (open_of_running h hrunning) s command bytes

theorem orderly_postReconnectTimeoutCheck (h : σ.Orderly) : σ.postReconnectTimeoutCheck.Orderly := by
  unfold postReconnectTimeoutCheck
  split
  · exact h
  · next hidle =>
    cases hsubmit : σ.submit 1 .timer none 0 with
    | none => exact h
    | some σ' =>
      have howner : Job.timer.thread = σ.owners 1 := h.registry.fixed.2.2.symm
      exact orderly_submit h (open_of_running h fun hstopping => hidle (.inl hstopping)) howner hsubmit

theorem orderly_postMediaEvent (h : σ.Orderly) (event : MediaEvent) (epoch : Nat) (message : Payload) (bytes : Nat) :
    (σ.postMediaEvent event epoch message bytes).Orderly := by
  unfold postMediaEvent
  split
  · exact h
  · next hrunning =>
    split
    · next σ' hsubmit =>
      have howner : (Job.control event epoch message).thread = σ.owners 0 := h.registry.fixed.2.1.symm
      exact orderly_submit h (open_of_running h hrunning) howner hsubmit
    · exact h.withServer _

theorem orderly_callShutdown (h : σ.Orderly) (hstep : σ.callShutdown = some σ') : σ'.Orderly := by
  have hcalled : ({ σ with stopping := true, shutdown := some .looking } : LogicSystem).Orderly := by
    refine ⟨h.queues, h.pools, h.registry, fun _ => rfl, by simp, fun p hp => ⟨rfl, ?_⟩, by simp, by simp, by simp⟩
    exact (h.halting.quiet p hp).2
  unfold callShutdown at hstep
  split at hstep
  · cases hstep
    exact hcalled
  · cases hstep
    exact hcalled
  · cases hstep

theorem orderly_step (hσ : σ.books.Sound) (h : σ.Orderly) {e : Event} (hstep : σ.step e = some σ') : σ'.Orderly := by
  cases e with
  | frame s r bytes =>
    cases hstep
    exact orderly_postMsgToQue h s _ bytes
  | disconnected s =>
    cases hstep
    exact orderly_postMsgToQue h s _ 0
  | timer =>
    cases hstep
    exact orderly_postReconnectTimeoutCheck h
  | media event epoch message bytes =>
    cases hstep
    exact orderly_postMediaEvent h event epoch message bytes
  | outside server =>
    cases hstep
    exact h.withServer server
  | shutdown => exact orderly_callShutdown h hstep
  | handler i vacant =>
    simp only [step] at hstep
    split at hstep
    · exact orderly_runHandler h hstep
    · cases hstep
  | step i o chosen =>
    simp only [step] at hstep
    split at hstep
    · next hi => exact orderly_stepOp hσ h hi hstep
    · cases hstep
  | release i =>
    simp only [step] at hstep
    split at hstep
    · next hi => exact orderly_release hσ h hi hstep
    · cases hstep
  | thread p n o =>
    simp only [step] at hstep
    split at hstep
    · next hn => exact orderly_runThread h hn hstep
    · cases hstep
  | join => exact orderly_join h hstep

theorem orderly_start (server : Server) (aiStub : Bool) : (start server aiStub).Orderly := by
  refine ⟨fun i => sane_new, fun p => ⟨?_, ?_⟩, ⟨?_, ?_, ?_⟩, ⟨?_, ?_, ?_, ?_, ?_, ?_⟩⟩ <;> simp [start]

/-! ## Every reachable state -/

/-- What holds in every reachable state. -/
structure Kept (σ : LogicSystem) : Prop where
  sound : σ.books.Sound
  orderly : σ.Orderly

theorem Kept.step (h : σ.Kept) {e : Event} (hstep : σ.step e = some σ') : σ'.Kept :=
  ⟨sound_step h.sound h.orderly.addressed hstep, orderly_step h.sound h.orderly hstep⟩

theorem kept_of_reachable (h : σ.Reachable) : σ.Kept := by
  obtain ⟨server, aiStub, hreach⟩ := h
  refine hreach.invariant ⟨sound_start server aiStub, orderly_start server aiStub⟩ ?_
  intro σ e σ' hσ _ hstep
  exact hσ.step hstep

end LogicSystem

end SyncRtc
