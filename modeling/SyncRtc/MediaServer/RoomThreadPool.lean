import Mathlib.Algebra.GroupWithZero.Nat
import Mathlib.Logic.Function.Basic
import Mathlib.Data.Fin.Basic
import SyncRtc.Lib.Transition

/-!
# The room workers

`RoomThreadPool.h`: every room belongs to one worker, by the hash of its id; a worker runs one task at a time and takes
the rooms that have tasks in turn. The sections under `worker.mutex` are the steps of the model; the handler of a task
runs outside them, and so do the calls of `notify_one`.

`front()`, `at()` and an iterator of a room that is not there end the thread (`crashed`): the model says so instead of
choosing a value.
-/

set_option autoImplicit false

namespace SyncRtc.MediaServer

variable {Task : Type} {workerCount : Nat}

/-- `scheduled`: the room is in `ready_rooms` or has a task running. -/
structure RoomQueue (Task : Type) where
  tasks : List Task := []
  scheduled : Bool := false

/-- Where a worker's thread is in `RunWorker`. -/
inductive WorkerThread (Task : Type) where
  /-- Before the predicate of `condition.wait`. -/
  | looking
  /-- Inside `condition.wait`. -/
  | blocked
  | running (meetingId : UInt64) (task : Task)
  /-- The handler has returned; the room is not put back yet. -/
  | ran (meetingId : UInt64)
  | exited
  | crashed

structure RoomWorker (Task : Type) where
  roomQueues : UInt64 → Option (RoomQueue Task) := fun _ => none
  readyRooms : List UInt64 := []
  stopping : Bool := false
  thread : WorkerThread Task := .looking
  /-- The calls of `Post` that have left the section and not called `notify_one` yet. -/
  notifying : Nat := 0

namespace RoomWorker

/-- The section of `Post`, unless the worker is stopping. -/
def push (worker : RoomWorker Task) (meetingId : UInt64) (task : Task) : RoomWorker Task :=
  let roomQueue := (worker.roomQueues meetingId).getD {}
  let pushed := { roomQueue with tasks := roomQueue.tasks ++ [task], scheduled := true }
  { worker with
    roomQueues := Function.update worker.roomQueues meetingId (some pushed)
    readyRooms := if !roomQueue.scheduled then worker.readyRooms ++ [meetingId] else worker.readyRooms
    notifying := worker.notifying + 1 }

/-- `notify_one`: at most the worker's own thread waits. A wakeup without a call does the same. -/
def wake (worker : RoomWorker Task) : RoomWorker Task :=
  match worker.thread with
  | .blocked => { worker with thread := .looking }
  | _ => worker

/-- The first room's first task leaves its queue. -/
def take (worker : RoomWorker Task) : Option (UInt64 × Task × RoomWorker Task) :=
  match worker.readyRooms with
  | [] => none
  | meetingId :: rest =>
    match worker.roomQueues meetingId with
    | none => none
    | some roomQueue =>
      match roomQueue.tasks with
      | [] => none
      | task :: tasks =>
        some (meetingId, task,
          { worker with
            roomQueues := Function.update worker.roomQueues meetingId (some { roomQueue with tasks })
            readyRooms := rest
            thread := .running meetingId task })

/-- A room with tasks left goes to the end of the line; one without is erased. -/
def putBack (worker : RoomWorker Task) (meetingId : UInt64) : Option (RoomWorker Task) :=
  match worker.roomQueues meetingId with
  | none => none
  | some roomQueue =>
    if roomQueue.tasks ≠ [] then
      some { worker with readyRooms := worker.readyRooms ++ [meetingId], thread := .looking }
    else
      some { worker with roomQueues := Function.update worker.roomQueues meetingId none, thread := .looking }

/-- The tasks of a room that wait. -/
def waiting (worker : RoomWorker Task) (meetingId : UInt64) : List Task :=
  ((worker.roomQueues meetingId).map RoomQueue.tasks).getD []

/-- The room whose task has been taken and which is not put back yet. -/
def current (worker : RoomWorker Task) : Option UInt64 :=
  match worker.thread with
  | .running meetingId _ => some meetingId
  | .ran meetingId => some meetingId
  | _ => none

end RoomWorker

/-- What has happened to a task. -/
inductive TaskEvent (Task : Type) where
  | posted (meetingId : UInt64) (task : Task)
  | began (meetingId : UInt64) (task : Task)
  | ended (meetingId : UInt64) (task : Task)

/-- Where the destructor is. -/
inductive Destructor where
  | alive
  /-- Before the section that stops this worker. -/
  | stopping (worker : Nat)
  /-- Between that section and its `notify_one`. -/
  | notifying (worker : Nat)
  | joining (worker : Nat)
  | returned
  deriving DecidableEq

/-- The pool; `log` is what has happened in it. -/
structure RoomThreadPool (Task : Type) (workerCount : Nat) where
  workers : Fin workerCount → RoomWorker Task := fun _ => {}
  destructor : Destructor := .alive
  log : List (TaskEvent Task) := []

inductive PoolEvent (Task : Type) (workerCount : Nat) where
  /-- Some thread posts. -/
  | post (meetingId : UInt64) (task : Task)
  /-- A thread that has posted notifies. -/
  | notify (worker : Fin workerCount)
  /-- A wakeup that no call has caused. -/
  | spurious (worker : Fin workerCount)
  /-- The worker's thread goes on: to the end of its section, or of the handler. -/
  | work (worker : Fin workerCount)
  /-- The destructor is called, or goes on. -/
  | destroy

namespace RoomThreadPool

/-- `WorkerIndex`; `hash` is `std::hash`. -/
def workerIndex (hash : UInt64 → Nat) (workerCount : Nat) [NeZero workerCount] (meetingId : UInt64) : Fin workerCount :=
  Fin.ofNat workerCount (hash meetingId)

def setWorker (pool : RoomThreadPool Task workerCount) (i : Fin workerCount) (worker : RoomWorker Task) :
    RoomThreadPool Task workerCount :=
  { pool with workers := Function.update pool.workers i worker }

def note (pool : RoomThreadPool Task workerCount) (event : TaskEvent Task) : RoomThreadPool Task workerCount :=
  { pool with log := pool.log ++ [event] }

variable (hash : UInt64 → Nat) [NeZero workerCount]

/-- `Post` up to its `notify_one`, and whether it will return true. -/
def post (pool : RoomThreadPool Task workerCount) (meetingId : UInt64) (task : Task) :
    RoomThreadPool Task workerCount × Bool :=
  let i := workerIndex hash workerCount meetingId
  let worker := pool.workers i
  if worker.stopping then (pool, false)
  else ((pool.setWorker i (worker.push meetingId task)).note (.posted meetingId task), true)

omit [NeZero workerCount] in
/-- One turn of `RunWorker`. -/
def runWorker (pool : RoomThreadPool Task workerCount) (i : Fin workerCount) : Option (RoomThreadPool Task workerCount) :=
  let worker := pool.workers i
  match worker.thread with
  | .looking =>
    if !worker.stopping && worker.readyRooms.isEmpty then some (pool.setWorker i { worker with thread := .blocked })
    else if worker.stopping && worker.readyRooms.isEmpty then some (pool.setWorker i { worker with thread := .exited })
    else
      match worker.take with
      | none => some (pool.setWorker i { worker with thread := .crashed })
      | some (meetingId, task, worker') => some ((pool.setWorker i worker').note (.began meetingId task))
  | .running meetingId task =>
    some ((pool.setWorker i { worker with thread := .ran meetingId }).note (.ended meetingId task))
  | .ran meetingId =>
    match worker.putBack meetingId with
    | none => some (pool.setWorker i { worker with thread := .crashed })
    | some worker' => some (pool.setWorker i worker')
  | .blocked => none
  | .exited => none
  | .crashed => none

omit [NeZero workerCount] in
/-- The destructor: every worker is stopped and notified, then every thread joined. -/
def destroy (pool : RoomThreadPool Task workerCount) : Option (RoomThreadPool Task workerCount) :=
  match pool.destructor with
  | .alive => some { pool with destructor := .stopping 0 }
  | .stopping k =>
    if h : k < workerCount then
      some { pool.setWorker ⟨k, h⟩ { pool.workers ⟨k, h⟩ with stopping := true } with destructor := .notifying k }
    else some { pool with destructor := .joining 0 }
  | .notifying k =>
    if h : k < workerCount then
      some { pool.setWorker ⟨k, h⟩ (pool.workers ⟨k, h⟩).wake with destructor := .stopping (k + 1) }
    else none
  | .joining k =>
    if h : k < workerCount then
      match (pool.workers ⟨k, h⟩).thread with
      | .exited => some { pool with destructor := .joining (k + 1) }
      | _ => none
    else some { pool with destructor := .returned }
  | .returned => none

/-- What can happen at a pool. Nobody posts to a pool that is gone. -/
def step (pool : RoomThreadPool Task workerCount) : PoolEvent Task workerCount → Option (RoomThreadPool Task workerCount)
  | .post meetingId task => if pool.destructor = .returned then none else some (pool.post hash meetingId task).1
  | .notify i =>
    let worker := pool.workers i
    if worker.notifying = 0 then none
    else some (pool.setWorker i { worker with notifying := worker.notifying - 1 }.wake)
  | .spurious i =>
    match (pool.workers i).thread with
    | .blocked => some (pool.setWorker i (pool.workers i).wake)
    | _ => none
  | .work i => pool.runWorker i
  | .destroy => pool.destroy

/-! ## What the log says of a room -/

/-- The tasks that have been accepted for a room, in order. -/
def accepted (log : List (TaskEvent Task)) (meetingId : UInt64) : List Task :=
  log.filterMap fun event =>
    match event with
    | .posted m task => if m = meetingId then some task else none
    | _ => none

/-- The tasks of a room that have been taken, in order. -/
def begun (log : List (TaskEvent Task)) (meetingId : UInt64) : List Task :=
  log.filterMap fun event =>
    match event with
    | .began m task => if m = meetingId then some task else none
    | _ => none

/-- The tasks of a room whose handler has returned, in order. -/
def finished (log : List (TaskEvent Task)) (meetingId : UInt64) : List Task :=
  log.filterMap fun event =>
    match event with
    | .ended m task => if m = meetingId then some task else none
    | _ => none

end RoomThreadPool

end SyncRtc.MediaServer
