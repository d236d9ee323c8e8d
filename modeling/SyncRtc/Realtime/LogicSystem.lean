import SyncRtc.Realtime.BusinessScheduler

/-!
# The business layer as it runs, and its end

`LogicSystem`: the registry of queues under `m_registry_mutex`, the entries that accept commands, the steps of the
strands, of the coroutines on them, of the threads of the two pools, and of the thread in `Shutdown`. A step is one
section under a lock, or what a thread does between two of them; any enabled step may come next.

Queue 0 is `m_control`, queue 1 is `m_timer_queue`. The queues inside `Server` are those of `System.lean` and stay
empty here; the rest of it is the data the operations work on, and anything else that changes it, the I/O thread and
the clocks among them, is the event `outside`.
-/

set_option autoImplicit false

namespace SyncRtc

open SerialCommandQueue

/-- Where `Shutdown` is. -/
inductive Shutdown where
  /-- Before the predicate of `m_idle.wait`. -/
  | looking
  /-- Inside `m_idle.wait`. -/
  | blocked
  /-- In `Join`, past its lock. -/
  | joining (pool : PoolName)
  | returned
  deriving DecidableEq

/-- `accepted` and `finished` are ghosts: the jobs accepted, and those whose closure has ended. -/
structure LogicSystem where
  server : Server
  /-- `m_ai_stub` is set. -/
  aiStub : Bool
  scheduler : BusinessScheduler := {}
  pools : PoolName → SlowPool := fun _ => {}
  queues : Nat → SerialCommandQueue := fun _ => {}
  /-- Whose queue each one is, as `on_idle` has it. -/
  owners : Nat → Thread := fun i => if i = 0 then .control else .timer
  nextQueue : Nat := 2
  connections : SessionId → Option Nat := fun _ => none
  rooms : MeetingId → Option Nat := fun _ => none
  stopping : Bool := false
  /-- The call of `Shutdown`, if there has been one. -/
  shutdown : Option Shutdown := none
  accepted : List Job := []
  finished : List Job := []

namespace LogicSystem

def setQueue (σ : LogicSystem) (i : Nat) (queue : SerialCommandQueue) : LogicSystem :=
  { σ with queues := Function.update σ.queues i queue }

def setPool (σ : LogicSystem) (p : PoolName) (pool : SlowPool) : LogicSystem :=
  { σ with pools := Function.update σ.pools p pool }

/-- The operation on queue `i` goes on as `op`. -/
def setOp (σ : LogicSystem) (i : Nat) (op : Operation) : LogicSystem := σ.setQueue i ((σ.queues i).setActive op)

/-- `complete()`: the closure of a `Wait` goes to its operation's strand. -/
def complete (σ : LogicSystem) (c : Completion) : LogicSystem :=
  σ.setQueue c.wait.queue ((σ.queues c.wait.queue).post (.resume c))

/-! ## Acceptance -/

/-- `SerialCommandQueue::Submit` on queue `i`. -/
def submit (σ : LogicSystem) (i : Nat) (job : Job) (done : Option Completion) (bytes : Nat) : Option LogicSystem :=
  if (σ.queues i).admits (σ.owners i).capacity job.terminal bytes then
    match σ.scheduler.reserve job.terminal bytes with
    | none => none
    | some scheduler =>
      some { σ.setQueue i ((σ.queues i).push { job, done, terminal := job.terminal, bytes }) with
        scheduler
        accepted := σ.accepted ++ [job] }
  else none

/-- A new queue. -/
def create (σ : LogicSystem) (owner : Thread) : LogicSystem :=
  { σ with
    queues := Function.update σ.queues σ.nextQueue {}
    owners := Function.update σ.owners σ.nextQueue owner
    nextQueue := σ.nextQueue + 1 }

/-- `SubmitRoom`. A queue it has created and that refuses is dropped again. -/
def submitRoom (σ : LogicSystem) (m : MeetingId) (task : Task) (done : Option Completion) (bytes : Nat) :
    Option LogicSystem :=
  match σ.rooms m with
  | some i => σ.submit i (.room m task) done bytes
  | none =>
    ({ σ.create (.room m) with rooms := Function.update σ.rooms m (some σ.nextQueue) } : LogicSystem).submit
      σ.nextQueue (.room m task) done bytes

/-- The section of `PostMsgToQue`, past the check of `m_stopping`. A refusal closes the connection and drops its queue
from the registry if nothing is pending. -/
def submitConnection (σ : LogicSystem) (s : SessionId) (command : Command) (bytes : Nat) : LogicSystem :=
  let closed := { σ with server := σ.server.setSession s { σ.server.sessions s with closed := true } }
  match σ.connections s with
  | some i =>
    match σ.submit i (.connection s command) none bytes with
    | some σ' => σ'
    | none =>
      if (σ.queues i).pending = 0 then { closed with connections := Function.update σ.connections s none } else closed
  | none =>
    match ({ σ.create (.conn s) with
        connections := Function.update σ.connections s (some σ.nextQueue) } : LogicSystem).submit
      σ.nextQueue (.connection s command) none bytes with
    | some σ' => σ'
    | none => closed

/-- `PostMsgToQue`, and `PostSessionDisconnected`. -/
def postMsgToQue (σ : LogicSystem) (s : SessionId) (command : Command) (bytes : Nat) : LogicSystem :=
  if σ.stopping then σ else σ.submitConnection s command bytes

/-- `PostReconnectTimeoutCheck`. -/
def postReconnectTimeoutCheck (σ : LogicSystem) : LogicSystem :=
  if σ.stopping ∨ (σ.queues 1).pending ≠ 0 then σ else (σ.submit 1 .timer none 0).getD σ

/-- `PostMediaEvent`. -/
def postMediaEvent (σ : LogicSystem) (event : MediaEvent) (epoch : Nat) (message : Payload) (bytes : Nat) :
    LogicSystem :=
  if σ.stopping then σ
  else
    match σ.submit 0 (.control event epoch message) none bytes with
    | some σ' => σ'
    | none => { σ with server := { σ.server with link := σ.server.link.invalidate epoch } }

/-! ## A coroutine -/

/-- `SlowPoolBusy`, as the call that meets it answers. -/
def refusal (σ : LogicSystem) (c : Call) : c.Res := (exec c { fail := true, refuse := true } σ.server).1

/-- The pool in which the call needs a place. Without the stub an AI request makes no slow step. -/
def poolOf (σ : LogicSystem) : Call → Option PoolName
  | .askAi _ => if σ.aiStub then some .ai else none
  | c => c.pool

/-- A call that takes no slow step. -/
def answer (σ : LogicSystem) : (c : Call) → Oracle → c.Res × Server
  | .askAi _, _ => (.done .failed, σ.server)
  | c, o => exec c o σ.server

/-- One turn of `ReleaseCapacity`. -/
def releaseCapacity (σ : LogicSystem) (i : Nat) (op : Operation) (p : PoolName) (rest : List PoolName) :
    LogicSystem :=
  (σ.setPool p (σ.pools p).release).setOp i { op with reserved := rest }

/-- `Reserve` of a pool the operation holds no place in. Only the end of something tries again. -/
def reserve [PoolSizes] (σ : LogicSystem) (i : Nat) (op : Operation) (p : PoolName) (c : Call) (k : c.Res → Op Unit) :
    LogicSystem :=
  match (σ.pools p).reserve p with
  | some pool => (σ.setPool p pool).setOp i { op with reserved := op.reserved ++ [p] }
  | none =>
    if op.entry.terminal then σ.setOp i { op with stage := .retrying p (.call c k) }
    else σ.setOp i (op.run (k (σ.refusal c)))

/-- `Await`, past `Reserve`. -/
def await [PoolSizes] (σ : LogicSystem) (i : Nat) (op : Operation) (p : PoolName) (chosen : Nat) (c : Call)
    (k : c.Res → Op Unit) : LogicSystem :=
  match (σ.pools p).submit p { wait := op.wait i false, work := c, next := k } chosen with
  | some pool => (σ.setPool p pool).setOp i (op.suspend false)
  | none => (σ.setOp i (op.suspend false)).complete { wait := op.wait i false, next := k (σ.refusal c) }

/-- A call for which the operation holds a place in `p`. -/
def enter [PoolSizes] (σ : LogicSystem) (i : Nat) (op : Operation) (p : PoolName) (chosen : Nat) :
    (c : Call) → (c.Res → Op Unit) → LogicSystem
  | .reservePool _, k => σ.setOp i (op.run (k true))
  | c, k => σ.await i op p chosen c k

/-- `Wait` in `Route`: the room's `done` resumes the operation, or the refusal does. -/
def handOver (σ : LogicSystem) (i : Nat) (op : Operation) (m : MeetingId) (task : Task) (k : Bool → Op Unit) :
    LogicSystem :=
  match σ.submitRoom m task (some { wait := op.wait i true, next := k true }) op.entry.bytes with
  | some σ' => σ'.setOp i (op.suspend true)
  | none => (σ.setOp i (op.suspend true)).complete { wait := op.wait i true, next := k false }

/-- `SubmitRoom`, from `Route`, which first gives up its places in the pools, or from the other two. -/
def callSubmitRoom (σ : LogicSystem) (i : Nat) (op : Operation) (m : MeetingId) (task : Task)
    (k : Bool → Op Unit) : LogicSystem :=
  if op.entry.job.waits then
    match op.reserved with
    | p :: rest => σ.releaseCapacity i op p rest
    | [] => σ.handOver i op m task k
  else
    match σ.submitRoom m task none op.entry.bytes with
    | some σ' => σ'.setOp i (op.run (k true))
    | none => σ.setOp i (op.run (k false))

/-- A call that needs no place in a pool. -/
def proceed (σ : LogicSystem) (i : Nat) (op : Operation) (o : Oracle) :
    (c : Call) → (c.Res → Op Unit) → LogicSystem
  | .submitRoom m task, k => σ.callSubmitRoom i op m task k
  | c, k => { σ.setOp i (op.run (k (σ.answer c o).1)) with server := (σ.answer c o).2 }

def record (σ : LogicSystem) (job : Job) : LogicSystem := { σ with finished := σ.finished ++ [job] }

/-- The command has returned: `ReleaseCapacity`, then `done`. -/
def finish (σ : LogicSystem) (i : Nat) (op : Operation) : LogicSystem :=
  match op.reserved with
  | p :: rest => σ.releaseCapacity i op p rest
  | [] =>
    match op.entry.done with
    | some c => ((σ.record op.entry.job).setOp i op.ended).complete c
    | none => (σ.record op.entry.job).setOp i op.ended

/-- What a running operation does next. -/
def run [PoolSizes] (σ : LogicSystem) (i : Nat) (op : Operation) (o : Oracle) (chosen : Nat) : Op Unit → LogicSystem
  | .pure _ => σ.finish i op
  | .call c k =>
    match σ.poolOf c with
    | some p => if p ∈ op.reserved then σ.enter i op p chosen c k else σ.reserve i op p c k
    | none => σ.proceed i op o c k

/-- `Reserve` tries again. -/
def retry [PoolSizes] (σ : LogicSystem) (i : Nat) (op : Operation) (p : PoolName) (body : Op Unit) : Option LogicSystem :=
  match (σ.pools p).reserve p with
  | some pool => some ((σ.setPool p pool).setOp i { op with reserved := op.reserved ++ [p], stage := .running body })
  | none => none

def settle (σ : LogicSystem) (i : Nat) (op : Operation) : LogicSystem := σ.setQueue i ((σ.queues i).settle op)

def leave (σ : LogicSystem) (i : Nat) (op : Operation) : LogicSystem := σ.setQueue i ((σ.queues i).leave op)

/-- The coroutine on queue `i` goes on. -/
def stepOp [PoolSizes] (σ : LogicSystem) (i : Nat) (o : Oracle) (chosen : Nat) : Option LogicSystem :=
  match (σ.queues i).active with
  | none => none
  | some op =>
    match op.stage with
    | .running body => some (σ.run i op o chosen body)
    | .retrying p body => if (σ.queues i).releasing.isNone then σ.retry i op p body else none
    | .suspended _ => none
    | .finishing => some (σ.settle i op)
    | .leaving => some (σ.leave i op)

/-! ## A strand -/

/-- `on_idle` of queue `i`. Whether a room has members is the outside's to say (`vacant`). -/
def onIdle (σ : LogicSystem) (i : Nat) (vacant : Bool) : LogicSystem :=
  if (σ.queues i).pending ≠ 0 then σ
  else
    match σ.owners i with
    | .conn s =>
      if σ.connections s = some i then { σ with connections := Function.update σ.connections s none } else σ
    | .room m =>
      if (vacant && (σ.server.rooms m).data.sessions.isEmpty) ∧ σ.rooms m = some i then
        { σ with rooms := Function.update σ.rooms m none }
      else σ
    | _ => σ

/-- The strand of queue `i` runs its next handler, the last one of an operation as far as `m_scheduler.Release`. -/
def runHandler (σ : LogicSystem) (i : Nat) (vacant : Bool) : Option LogicSystem :=
  let queue := σ.queues i
  if queue.isFree then
    match queue.strand with
    | [] => none
    | .command entry :: rest =>
      some (σ.setQueue i { queue with strand := rest, commands := queue.commands ++ [entry] }.pump)
    | .resume c :: rest => some (σ.setQueue i ({ queue with strand := rest }.resume c))
    | .closing bytes :: rest =>
      some ((σ.onIdle i vacant).setQueue i { queue with strand := rest, releasing := some bytes }.pump)
  else none

/-- `notify_all` of `m_idle`. -/
def wakeIdle : Option Shutdown → Option Shutdown
  | some .blocked => some .looking
  | stage => stage

/-- `m_scheduler.Release`. `spawn` may or may not have run the next operation before. -/
def release (σ : LogicSystem) (i : Nat) : Option LogicSystem :=
  match (σ.queues i).releasing with
  | none => none
  | some bytes =>
    let scheduler := σ.scheduler.release bytes
    some { σ.setQueue i { σ.queues i with releasing := none } with
      scheduler
      shutdown := if scheduler.pending = 0 then wakeIdle σ.shutdown else σ.shutdown }

/-! ## A thread of a pool, and `Shutdown` -/

/-- Thread `n` of a pool goes on. -/
def runThread (σ : LogicSystem) (p : PoolName) (n : Nat) (o : Oracle) : Option LogicSystem :=
  let pool := σ.pools p
  match pool.threads n with
  | .looking => some (σ.setPool p (pool.look n))
  | .blocked => none
  | .working task =>
    let (result, server) := exec task.work o σ.server
    some { σ.setPool p (pool.setThread n (.worked { wait := task.wait, next := task.next result })) with server }
  | .worked c => some (σ.setPool p ({ pool with pending := pool.pending - 1 }.setThread n (.completing c)))
  | .completing c => some ((σ.setPool p (pool.setThread n .looking)).complete c)
  | .returned => none

/-- The thread in `Shutdown` goes on. -/
def join [PoolSizes] (σ : LogicSystem) : Option LogicSystem :=
  match σ.shutdown with
  | some .looking =>
    if σ.scheduler.pending = 0 then
      some { σ.setPool .storage (σ.pools .storage).stop with shutdown := some (.joining .storage) }
    else some { σ with shutdown := some .blocked }
  | some (.joining .storage) =>
    if (σ.pools .storage).isJoined .storage then
      some { σ.setPool .ai (σ.pools .ai).stop with shutdown := some (.joining .ai) }
    else none
  | some (.joining .ai) =>
    if (σ.pools .ai).isJoined .ai then some { σ with shutdown := some .returned } else none
  | _ => none

/-- `Shutdown` is called: before it, or again once it has returned. -/
def callShutdown (σ : LogicSystem) : Option LogicSystem :=
  match σ.shutdown with
  | none | some .returned => some { σ with stopping := true, shutdown := some .looking }
  | _ => none

/-! ## Steps -/

inductive Event where
  /-- A frame has arrived: `PostMsgToQue`. -/
  | frame (session : SessionId) (r : Request) (bytes : Nat)
  /-- `PostSessionDisconnected`. -/
  | disconnected (session : SessionId)
  /-- `PostReconnectTimeoutCheck`. -/
  | timer
  /-- `PostMediaEvent`. -/
  | media (event : MediaEvent) (epoch : Nat) (message : Payload) (bytes : Nat)
  /-- Anything else that changes the data. -/
  | outside (server : Server)
  | shutdown
  /-- A strand runs a handler. -/
  | handler (queue : Nat) (vacant : Bool)
  /-- A coroutine goes on; `chosen` is the pool thread that `notify_one` wakes. -/
  | step (queue : Nat) (o : Oracle) (chosen : Nat)
  | release (queue : Nat)
  | thread (pool : PoolName) (n : Nat) (o : Oracle)
  | join

/-- The steps of the business threads, the pools' threads and `Shutdown` itself. -/
def Event.isInner : Event → Bool
  | .handler _ _ | .step _ _ _ | .release _ | .thread _ _ _ | .join => true
  | _ => false

/-- The four events that bring in a command. -/
def Event.isEntry : Event → Bool
  | .frame _ _ _ | .disconnected _ | .timer | .media _ _ _ _ => true
  | _ => false

def step [PoolSizes] (σ : LogicSystem) : Event → Option LogicSystem
  | .frame s r bytes => some (σ.postMsgToQue s (.request r) bytes)
  | .disconnected s => some (σ.postMsgToQue s .disconnected 0)
  | .timer => some σ.postReconnectTimeoutCheck
  | .media event epoch message bytes => some (σ.postMediaEvent event epoch message bytes)
  | .outside server => some { σ with server }
  | .shutdown => σ.callShutdown
  | .handler i vacant => if i < σ.nextQueue then σ.runHandler i vacant else none
  | .step i o chosen => if i < σ.nextQueue then σ.stepOp i o chosen else none
  | .release i => if i < σ.nextQueue then σ.release i else none
  | .thread p n o => if n < p.threads then σ.runThread p n o else none
  | .join => σ.join

/-- The business layer over the data, before its first command. -/
def start (server : Server) (aiStub : Bool) : LogicSystem := { server, aiStub }

/-- The states that any run leads to. -/
def Reachable [PoolSizes] (σ : LogicSystem) : Prop :=
  ∃ server aiStub, Reach step (fun _ _ => True) (start server aiStub) σ

end LogicSystem

end SyncRtc
