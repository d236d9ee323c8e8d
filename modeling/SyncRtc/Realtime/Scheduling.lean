import SyncRtc.Realtime.BusinessScheduler

/-!
# The scheduler under any commands

`LogicSystem.lean` runs the commands of this program. The classes of `BusinessScheduler.h` promise something of any
commands: who submits, what a command does before it returns, how often it waits, and who calls the closure of a `Wait`,
when, and how often, is left open here. What a queue has accepted and what has been seen of its commands is kept in a
diary, which nothing reads.
-/

set_option autoImplicit false

namespace SyncRtc

open SerialCommandQueue

/-- What is seen of a command. -/
inductive Mark where
  | began (entry : Entry)
  | ended (entry : Entry)
  /-- Its `done` has been called. -/
  | done (entry : Entry)

structure Diary where
  accepted : List Entry := []
  marks : List Mark := []
  /-- The commands that the queue counts no more. -/
  settled : Nat := 0
  /-- The commands that the scheduler counts no more. -/
  released : Nat := 0

/-- A closure is named by what it has captured: the queue, the operation and the phase. -/
structure Scheduling where
  scheduler : BusinessScheduler := {}
  queues : Nat → SerialCommandQueue := fun _ => {}
  /-- `m_capacity` of each queue. -/
  capacities : Nat → Nat := fun _ => 128
  nextQueue : Nat := 0
  /-- `delivered` of the closures that there are. -/
  closures : Nat → Nat → Nat → Option Bool := fun _ _ _ => none
  diaries : Nat → Diary := fun _ => {}

namespace Scheduling

def setQueue (σ : Scheduling) (i : Nat) (queue : SerialCommandQueue) : Scheduling :=
  { σ with queues := Function.update σ.queues i queue }

def setDiary (σ : Scheduling) (i : Nat) (diary : Diary) : Scheduling :=
  { σ with diaries := Function.update σ.diaries i diary }

def note (σ : Scheduling) (i : Nat) (mark : Mark) : Scheduling :=
  σ.setDiary i { σ.diaries i with marks := (σ.diaries i).marks ++ [mark] }

def setClosure (σ : Scheduling) (i id phase : Nat) (delivered : Bool) : Scheduling :=
  { σ with
    closures := fun j id' phase' =>
      if j = i ∧ id' = id ∧ phase' = phase then some delivered else σ.closures j id' phase' }

/-- The constructor. -/
def create (σ : Scheduling) (capacity : Nat) : Scheduling :=
  { σ with
    queues := Function.update σ.queues σ.nextQueue {}
    capacities := Function.update σ.capacities σ.nextQueue capacity
    nextQueue := σ.nextQueue + 1 }

/-- `Submit`. -/
def submit (σ : Scheduling) (i : Nat) (entry : Entry) : Option Scheduling :=
  if (σ.queues i).admits (σ.capacities i) entry.terminal entry.bytes then
    match σ.scheduler.reserve entry.terminal entry.bytes with
    | none => none
    | some scheduler =>
      let σ' := σ.setDiary i { σ.diaries i with accepted := (σ.diaries i).accepted ++ [entry] }
      some { σ'.setQueue i ((σ.queues i).push entry) with scheduler }
  else none

/-- `Pump`. -/
def pump (σ : Scheduling) (i : Nat) (queue : SerialCommandQueue) : Scheduling :=
  match queue.active, queue.commands with
  | none, entry :: _ => (σ.note i (.began entry)).setQueue i queue.pump
  | _, _ => σ.setQueue i queue.pump

/-- The strand runs its next handler. -/
def runHandler (σ : Scheduling) (i : Nat) : Option Scheduling :=
  let queue := σ.queues i
  if queue.isFree then
    match queue.strand with
    | [] => none
    | .command entry :: rest =>
      some (σ.pump i { queue with strand := rest, commands := queue.commands ++ [entry] })
    | .resume c :: rest => some (σ.setQueue i ({ queue with strand := rest }.resume c))
    | .closing bytes :: rest => some (σ.pump i { queue with strand := rest, releasing := some bytes })
  else none

/-- `Wait`: a closure is handed to `initiate`. -/
def wait (σ : Scheduling) (i : Nat) (op : Operation) : Scheduling :=
  (σ.setQueue i ((σ.queues i).setActive (op.suspend false))).setClosure i op.id (op.phase + 1) false

/-- The closure of a `Wait` is called, by anybody: the first time it goes to the strand. -/
def call (σ : Scheduling) (i id phase : Nat) (next : Op Unit) : Option Scheduling :=
  match σ.closures i id phase with
  | none => none
  | some true => some σ
  | some false =>
    let wait : Suspension := { queue := i, op := id, phase, handed := false, terminal := false }
    some ((σ.setQueue i ((σ.queues i).post (.resume { wait, next }))).setClosure i id phase true)

/-- The command has returned or thrown: `done`. -/
def finish (σ : Scheduling) (i : Nat) (op : Operation) : Scheduling :=
  let σ' := σ.note i (.ended op.entry)
  (if op.entry.done.isSome then σ'.note i (.done op.entry) else σ').setQueue i ((σ.queues i).setActive op.ended)

/-- What a coroutine does next. -/
inductive Turn where
  | wait
  /-- Into the timer of `Reserve`. -/
  | sleep (pool : PoolName) (body : Op Unit)
  | finish

def turn (σ : Scheduling) (i : Nat) (op : Operation) : Turn → Scheduling
  | .wait => σ.wait i op
  | .sleep pool body => σ.setQueue i ((σ.queues i).setActive { op with stage := .retrying pool body })
  | .finish => σ.finish i op

/-- The lock of `m_admission`, after `done`. -/
def settle (σ : Scheduling) (i : Nat) (op : Operation) : Scheduling :=
  (σ.setDiary i { σ.diaries i with settled := (σ.diaries i).settled + 1 }).setQueue i ((σ.queues i).settle op)

/-- The coroutine on queue `i` goes on. Out of the timer it needs the strand. -/
def stepOp (σ : Scheduling) (i : Nat) (next : Turn) : Option Scheduling :=
  match (σ.queues i).active with
  | none => none
  | some op =>
    match op.stage with
    | .running _ => some (σ.turn i op next)
    | .retrying _ body =>
      if (σ.queues i).releasing.isNone then some (σ.setQueue i ((σ.queues i).setActive (op.run body))) else none
    | .suspended _ => none
    | .finishing => some (σ.settle i op)
    | .leaving => some (σ.setQueue i ((σ.queues i).leave op))

/-- `m_scheduler.Release`. -/
def release (σ : Scheduling) (i : Nat) : Option Scheduling :=
  match (σ.queues i).releasing with
  | none => none
  | some bytes =>
    let σ' := σ.setDiary i { σ.diaries i with released := (σ.diaries i).released + 1 }
    some { σ'.setQueue i { σ.queues i with releasing := none } with scheduler := σ.scheduler.release bytes }

inductive Event where
  | create (capacity : Nat)
  | submit (queue : Nat) (entry : Entry)
  | handler (queue : Nat)
  | step (queue : Nat) (next : Turn)
  | release (queue : Nat)
  | call (queue id phase : Nat) (next : Op Unit)

def step (σ : Scheduling) : Event → Option Scheduling
  | .create capacity => some (σ.create capacity)
  | .submit i entry => if i < σ.nextQueue then σ.submit i entry else none
  | .handler i => if i < σ.nextQueue then σ.runHandler i else none
  | .step i next => if i < σ.nextQueue then σ.stepOp i next else none
  | .release i => if i < σ.nextQueue then σ.release i else none
  | .call i id phase next => σ.call i id phase next

def Reachable (σ : Scheduling) : Prop := Reach step (fun _ _ => True) {} σ

end Scheduling

end SyncRtc
