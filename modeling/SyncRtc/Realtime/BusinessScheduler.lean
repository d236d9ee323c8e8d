import Mathlib.Logic.Function.Basic
import SyncRtc.Realtime.System

/-!
# The scheduler of the business layer

`BusinessScheduler.h`: the two pools of threads for slow steps, the counter of all accepted commands, and the serial
queues with their strands. `System.lean` takes a queue for granted (commands in order, one operation at a time); here
it is what the code builds it from: admission under a lock, handlers posted to a strand, a coroutine that is suspended
in `Wait` and resumed by a closure, and the handler that starts the next command.

What a coroutine still has to do is a program. A suspended one has none: the closure that resumes it (`Completion`)
carries it, since only the result of the wait decides what comes next.
-/

set_option autoImplicit false

namespace SyncRtc

/-! ## Jobs -/

/-- What a queue accepts: a command of a connection, a task of a room, the timer's scan, an event of the MediaServer
link. -/
inductive Job where
  | connection (session : SessionId) (command : Command)
  | room (meeting : MeetingId) (task : Task)
  | timer
  | control (event : MediaEvent) (epoch : Nat) (message : Payload)

def Command.isTerminal : Command → Bool
  | .request _ => false
  | .disconnected => true

namespace Job

/-- Whose queue accepts the job. -/
def thread : Job → Thread
  | .connection s _ => .conn s
  | .room m _ => .room m
  | .timer => .timer
  | .control _ _ _ => .control

/-- What the accepted closure runs. -/
def body : Job → Op Unit
  | .connection s command => (route s command).bind fun _ => .pure ()
  | .room m task => task.op m
  | .timer => reconnectTimeoutCheckHandler
  | .control event epoch message => controlOp event epoch message

/-- `terminal`, as each caller of `Submit` passes it. -/
def terminal : Job → Bool
  | .connection _ command => command.isTerminal
  | .room _ (.dispatch _ command) => command.isTerminal
  | .room _ _ => false
  | .timer => false
  | .control event _ _ => decide (event ≠ .message)

/-- `Route` waits for the room it hands its command to; the other callers of `SubmitRoom` do not. -/
def waits : Job → Bool
  | .connection _ _ => true
  | _ => false

end Job

/-! ## Suspended operations -/

/-- A suspended operation, by what the closure that resumes it compares (`id` and `phase`). The code needs neither
`handed` (it is suspended in `Route`, not in `Await`) nor `terminal`. -/
structure Suspension where
  queue : Nat
  op : Nat
  phase : Nat
  handed : Bool
  terminal : Bool
  deriving DecidableEq

/-- `resume`: the operation it resumes, and what that one goes on with. -/
structure Completion where
  wait : Suspension
  next : Op Unit

/-- A slow step that `Await` has submitted, and what the operation makes of its result. -/
structure SlowTask where
  wait : Suspension
  work : Call
  next : work.Res → Op Unit

/-! ## `SlowPool` -/

inductive PoolName where
  | storage
  | ai
  deriving DecidableEq

/-- What the two pools are built with. The constructor throws where one of these is 0. -/
class PoolSizes where
  threads : PoolName → Nat
  /-- `m_capacity`. -/
  capacity : PoolName → Nat
  threads_pos : ∀ p, 0 < threads p
  capacity_pos : ∀ p, 0 < capacity p

/-- `m_storage_pool{4, 128}` and `m_ai_pool{2, 32}`. -/
@[reducible] def PoolSizes.source : PoolSizes where
  threads
    | .storage => 4
    | .ai => 2
  capacity
    | .storage => 128
    | .ai => 32
  threads_pos p := by cases p <;> decide
  capacity_pos p := by cases p <;> decide

def PoolName.threads [PoolSizes] (p : PoolName) : Nat := PoolSizes.threads p

def PoolName.capacity [PoolSizes] (p : PoolName) : Nat := PoolSizes.capacity p

/-- The pool in which the call needs a place, if the AI stub is there: `Reserve` itself, or the one in `Await`. -/
def Call.pool : Call → Option PoolName
  | .reservePool _ | .query _ _ => some .storage
  | .askAi _ => some .ai
  | _ => none

/-- Where a thread of a pool is in `Run`. -/
inductive PoolThread where
  /-- Before the predicate of `m_ready.wait`. -/
  | looking
  /-- Inside `m_ready.wait`. -/
  | blocked
  /-- In `task()`. -/
  | working (task : SlowTask)
  /-- `task()` has returned; `m_pending` counts it still. -/
  | worked (complete : Completion)
  /-- Before `complete()`. -/
  | completing (complete : Completion)
  | returned

structure SlowPool where
  threads : Nat → PoolThread := fun _ => .looking
  tasks : List SlowTask := []
  pending : Nat := 0
  reserved : Nat := 0
  stopping : Bool := false

namespace SlowPool

def setThread (pool : SlowPool) (n : Nat) (thread : PoolThread) : SlowPool :=
  { pool with threads := Function.update pool.threads n thread }

/-- `Reserve`. -/
def reserve [PoolSizes] (pool : SlowPool) (p : PoolName) : Option SlowPool :=
  if pool.stopping ∨ p.capacity ≤ pool.reserved then none else some { pool with reserved := pool.reserved + 1 }

/-- `Release`. -/
def release (pool : SlowPool) : SlowPool := { pool with reserved := pool.reserved - 1 }

def isBlocked (pool : SlowPool) (n : Nat) : Bool :=
  match pool.threads n with
  | .blocked => true
  | _ => false

/-- `notify_one`: a waiting thread, `chosen` if that is one. -/
def notifyOne [PoolSizes] (pool : SlowPool) (p : PoolName) (chosen : Nat) : SlowPool :=
  match (chosen :: List.range p.threads).find? fun n => decide (n < p.threads) && pool.isBlocked n with
  | some n => pool.setThread n .looking
  | none => pool

/-- `Submit`. -/
def submit [PoolSizes] (pool : SlowPool) (p : PoolName) (task : SlowTask) (chosen : Nat) : Option SlowPool :=
  if pool.stopping ∨ p.capacity ≤ pool.pending then none
  else some (({ pool with tasks := pool.tasks ++ [task], pending := pool.pending + 1 } : SlowPool).notifyOne p chosen)

/-- `Join`, as far as its lock and `notify_all`. -/
def stop (pool : SlowPool) : SlowPool :=
  { pool with
    stopping := true
    threads := fun n => if pool.isBlocked n then .looking else pool.threads n }

/-- A thread in the section of `m_ready.wait`. -/
def look (pool : SlowPool) (n : Nat) : SlowPool :=
  match pool.tasks with
  | task :: rest => { pool with tasks := rest }.setThread n (.working task)
  | [] => pool.setThread n (if pool.stopping then .returned else .blocked)

/-- `Join` has joined every thread. -/
def isJoined [PoolSizes] (pool : SlowPool) (p : PoolName) : Bool :=
  (List.range p.threads).all fun n => match pool.threads n with
    | .returned => true
    | _ => false

end SlowPool

/-! ## `BusinessScheduler` -/

structure BusinessScheduler where
  pending : Nat := 0
  bytes : Nat := 0

namespace BusinessScheduler

/-- `Reserve`, with `m_capacity` 2048. -/
def reserve (scheduler : BusinessScheduler) (terminal : Bool) (bytes : Nat) : Option BusinessScheduler :=
  if (!terminal && decide (2048 ≤ scheduler.pending)) || decide (64 * 1024 * 1024 - scheduler.bytes < bytes) then none
  else some { pending := scheduler.pending + 1, bytes := scheduler.bytes + bytes }

/-- `Release`. -/
def release (scheduler : BusinessScheduler) (bytes : Nat) : BusinessScheduler :=
  { pending := scheduler.pending - 1, bytes := scheduler.bytes - bytes }

end BusinessScheduler

/-! ## `SerialCommandQueue` -/

/-- `m_capacity`, as the constructor of `LogicSystem` and the default give it. -/
def Thread.capacity : Thread → Nat
  | .control => 16
  | .timer => 1
  | _ => 128

namespace SerialCommandQueue

structure Entry where
  job : Job
  done : Option Completion
  terminal : Bool
  bytes : Nat

/-- Where the coroutine of an operation is. -/
inductive Stage where
  /-- On the strand, with this left of the command. -/
  | running (body : Op Unit)
  /-- In `Reserve`, between two tries: the timer of 10 ms runs. -/
  | retrying (pool : PoolName) (body : Op Unit)
  /-- In `Wait`, of `Route` or of `Await`. -/
  | suspended (handed : Bool)
  /-- After `done`: `m_active_op` is 0, the strand still busy. -/
  | finishing
  /-- The queue's `m_pending` is decremented; the next handler is not posted yet. -/
  | leaving

/-- `Operation`, with the entry it carries out. `m_phase` is the queue's as well as the operation's, always alike. -/
structure Operation where
  id : Nat
  phase : Nat := 0
  entry : Entry
  reserved : List PoolName := []
  stage : Stage

namespace Operation

def start (id : Nat) (entry : Entry) : Operation := { id, entry, stage := .running entry.job.body }

/-- The suspension that the next `Wait` of the operation makes. -/
def wait (op : Operation) (queue : Nat) (handed : Bool) : Suspension :=
  { queue, op := op.id, phase := op.phase + 1, handed, terminal := op.entry.terminal }

/-- The operation in that `Wait`. -/
def suspend (op : Operation) (handed : Bool) : Operation :=
  { op with phase := op.phase + 1, stage := .suspended handed }

def run (op : Operation) (body : Op Unit) : Operation := { op with stage := .running body }

/-- The operation after `done`, which is called once. -/
def ended (op : Operation) : Operation := { op with entry := { op.entry with done := none }, stage := .finishing }

/-- The coroutine has left its thread. -/
def isAway (op : Operation) : Bool :=
  match op.stage with
  | .suspended _ | .retrying _ _ => true
  | _ => false

end Operation

/-- A handler on a strand. -/
inductive Posted where
  | command (entry : Entry)
  /-- The closure of `Wait`. -/
  | resume (complete : Completion)
  /-- The closure at the end of `Pump`'s coroutine. -/
  | closing (bytes : Nat)

end SerialCommandQueue

open SerialCommandQueue

/-- A queue. `releasing` holds what the handler at the end of an operation has left to do: `m_scheduler.Release`. -/
structure SerialCommandQueue where
  pending : Nat := 0
  bytes : Nat := 0
  strand : List Posted := []
  commands : List Entry := []
  nextOp : Nat := 0
  active : Option Operation := none
  releasing : Option Nat := none

namespace SerialCommandQueue

/-- The checks of `Submit` before the scheduler's. -/
def admits (queue : SerialCommandQueue) (capacity : Nat) (terminal : Bool) (bytes : Nat) : Bool :=
  !((!terminal && decide (capacity ≤ queue.pending)) || decide (4 * 1024 * 1024 - queue.bytes < bytes))

/-- `Submit`, once admitted. -/
def push (queue : SerialCommandQueue) (entry : Entry) : SerialCommandQueue :=
  { queue with
    pending := queue.pending + 1
    bytes := queue.bytes + entry.bytes
    strand := queue.strand ++ [.command entry] }

def post (queue : SerialCommandQueue) (handler : Posted) : SerialCommandQueue :=
  { queue with strand := queue.strand ++ [handler] }

def setActive (queue : SerialCommandQueue) (op : Operation) : SerialCommandQueue := { queue with active := some op }

/-- `Pump`. -/
def pump (queue : SerialCommandQueue) : SerialCommandQueue :=
  match queue.active, queue.commands with
  | none, entry :: rest =>
    { queue with
      commands := rest
      nextOp := queue.nextOp + 1
      active := some (.start (queue.nextOp + 1) entry) }
  | _, _ => queue

/-- No handler and no coroutine is on the strand. -/
def isFree (queue : SerialCommandQueue) : Bool :=
  queue.releasing.isNone && queue.active.all fun op => op.isAway

/-- The queue's `m_pending` and `m_bytes`, at the end of an operation. -/
def settle (queue : SerialCommandQueue) (op : Operation) : SerialCommandQueue :=
  { queue with
    pending := queue.pending - 1
    bytes := queue.bytes - op.entry.bytes
    active := some { op with stage := .leaving } }

/-- The coroutine ends and leaves a handler behind. -/
def leave (queue : SerialCommandQueue) (op : Operation) : SerialCommandQueue :=
  { queue.post (.closing op.entry.bytes) with active := none }

/-- What the closure of `Wait` does on the strand: an operation of another id or phase is left alone. -/
def resume (queue : SerialCommandQueue) (complete : Completion) : SerialCommandQueue :=
  match queue.active with
  | some op =>
    if op.id = complete.wait.op ∧ op.phase = complete.wait.phase then queue.setActive (op.run complete.next)
    else queue
  | none => queue

end SerialCommandQueue

end SyncRtc
