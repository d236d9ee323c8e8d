import Mathlib.Data.List.Nodup
import Mathlib.Data.List.Count
import SyncRtc.MediaServer.RoomThreadPool

/-!
# The order of the room workers

Each worker has two structures: the queue of every room it has, and the line of rooms whose turn comes. **A worker is
in line** (`Lined`) when a room has a queue exactly when it is in the line or its task is being run, never both, and
a room in the line has a task.

What one worker does is one of five moves (`Moves`), and each of them keeps the line and moves tasks from one place to
the next: what is accepted is begun or waits (`Moves.waiting`), what is begun has ended or runs (`Moves.running`). So

* the tasks of a room are run in the order they were accepted, each once, one at a time;
* a room that was in the line when another one was taken is served before that one is taken again;
* when the destructor returns nothing waits.
-/

set_option autoImplicit false

namespace SyncRtc.MediaServer

variable {Task : Type} {workerCount : Nat}

namespace RoomWorker

variable {w w' : RoomWorker Task}

/-- The task of a room that is being run. -/
def runningTasks (w : RoomWorker Task) (meetingId : UInt64) : List Task :=
  match w.thread with
  | .running m task => if m = meetingId then [task] else []
  | _ => []

/-- The queues and the line agree. -/
structure Lined (w : RoomWorker Task) : Prop where
  nodup : w.readyRooms.Nodup
  queued : ∀ m, (w.roomQueues m).isSome ↔ m ∈ w.readyRooms ∨ w.current = some m
  once : ∀ m, m ∈ w.readyRooms → w.current ≠ some m
  scheduled : ∀ m roomQueue, w.roomQueues m = some roomQueue → roomQueue.scheduled = true
  nonempty : ∀ m, m ∈ w.readyRooms → w.waiting m ≠ []

theorem Lined.start : Lined ({} : RoomWorker Task) :=
  ⟨List.nodup_nil, by simp [current], nofun, nofun, nofun⟩

/-- What a worker with the given rooms does in one step, and what is noted of it. -/
inductive Moves (mine : UInt64 → Prop) : RoomWorker Task → List (TaskEvent Task) → RoomWorker Task → Prop
  /-- Nothing moves: the thread sleeps, wakes, stops or exits, or somebody notifies. -/
  | rested {w w' : RoomWorker Task} (hqueues : w'.roomQueues = w.roomQueues) (hready : w'.readyRooms = w.readyRooms)
      (hthread : w'.thread = w.thread ∨ w.current = none ∧ w'.current = none) : Moves mine w [] w'
  | pushed {w : RoomWorker Task} {m : UInt64} {task : Task} (hmine : mine m) :
      Moves mine w [.posted m task] (w.push m task)
  | took {w : RoomWorker Task} {m : UInt64} {task : Task} {rest : List UInt64} {roomQueue : RoomQueue Task}
      {tasks : List Task} (hthread : w.thread = .looking) (hready : w.readyRooms = m :: rest)
      (hqueue : w.roomQueues m = some roomQueue) (htasks : roomQueue.tasks = task :: tasks) :
      Moves mine w [.began m task]
        { w with
          roomQueues := Function.update w.roomQueues m (some { roomQueue with tasks })
          readyRooms := rest
          thread := .running m task }
  | handled {w : RoomWorker Task} {m : UInt64} {task : Task} (hthread : w.thread = .running m task) :
      Moves mine w [.ended m task] { w with thread := .ran m }
  | putBack {w w' : RoomWorker Task} (m : UInt64) (hthread : w.thread = .ran m) (hput : w.putBack m = some w') :
      Moves mine w [] w'

variable {mine : UInt64 → Prop} {added : List (TaskEvent Task)}

/-! ## The line -/

theorem nodup_snoc {ms : List UInt64} {m : UInt64} (h : ms.Nodup) (hm : m ∉ ms) : (ms ++ [m]).Nodup :=
  List.concat_eq_append ▸ h.concat hm

@[simp] theorem push_current (w : RoomWorker Task) (m : UInt64) (task : Task) : (w.push m task).current = w.current := rfl

theorem push_readyRooms (w : RoomWorker Task) (m : UInt64) (task : Task) :
    (w.push m task).readyRooms =
      if ((w.roomQueues m).getD {}).scheduled then w.readyRooms else w.readyRooms ++ [m] := by
  cases h : ((w.roomQueues m).getD {}).scheduled <;> simp [push, h]

theorem push_roomQueues (w : RoomWorker Task) (m : UInt64) (task : Task) :
    (w.push m task).roomQueues =
      Function.update w.roomQueues m (some { tasks := w.waiting m ++ [task], scheduled := true }) := by
  simp only [push, waiting]
  cases w.roomQueues m <;> rfl

theorem waiting_update (w : RoomWorker Task) (queues : UInt64 → Option (RoomQueue Task)) (m : UInt64)
    (q : Option (RoomQueue Task)) (hqueues : w.roomQueues = Function.update queues m q) (m' : UInt64) :
    w.waiting m' = if m' = m then (q.map RoomQueue.tasks).getD [] else ((queues m').map RoomQueue.tasks).getD [] := by
  rw [waiting, hqueues]
  rcases eq_or_ne m' m with rfl | hne
  · rw [Function.update_self, if_pos rfl]
  · rw [Function.update_of_ne hne, if_neg hne]

theorem push_waiting (w : RoomWorker Task) (m : UInt64) (task : Task) (m' : UInt64) :
    (w.push m task).waiting m' = if m' = m then w.waiting m ++ [task] else w.waiting m' := by
  rw [waiting_update _ _ _ _ (push_roomQueues w m task)]
  rfl

/-- A room is put in the line by the first task it gets, and only then. -/
theorem Lined.push (h : Lined w) (m : UInt64) (task : Task) : Lined (w.push m task) := by
  cases hq : w.roomQueues m with
  | some roomQueue =>
    have hready : (w.push m task).readyRooms = w.readyRooms := by
      rw [push_readyRooms, hq, Option.getD_some, h.scheduled m roomQueue hq, if_pos rfl]
    refine ⟨hready ▸ h.nodup, ?_, ?_, ?_, ?_⟩
    · intro m'
      rw [hready, push_current, push_roomQueues, ← h.queued m']
      rcases eq_or_ne m' m with rfl | hne
      · simp [hq]
      · rw [Function.update_of_ne hne]
    · rw [hready]
      exact h.once
    · intro m' roomQueue' hq'
      rw [push_roomQueues] at hq'
      rcases eq_or_ne m' m with rfl | hne
      · rw [Function.update_self] at hq'
        cases hq'
        rfl
      · rw [Function.update_of_ne hne] at hq'
        exact h.scheduled m' roomQueue' hq'
    · intro m' hm'
      rw [hready] at hm'
      rw [push_waiting]
      split
      · exact List.append_ne_nil_of_right_ne_nil _ (List.cons_ne_nil _ _)
      · exact h.nonempty m' hm'
  | none =>
    have hready : (w.push m task).readyRooms = w.readyRooms ++ [m] := by
      rw [push_readyRooms, hq]
      rfl
    have habsent : ¬ (m ∈ w.readyRooms ∨ w.current = some m) := by
      rw [← h.queued m, hq]
      exact Bool.false_ne_true
    refine ⟨?_, ?_, ?_, ?_, ?_⟩
    · rw [hready]
      exact nodup_snoc h.nodup fun hm => habsent (.inl hm)
    · intro m'
      rw [hready, push_current, push_roomQueues, List.mem_append, List.mem_singleton]
      rcases eq_or_ne m' m with rfl | hne
      · simp
      · rw [Function.update_of_ne hne, h.queued m']
        simp only [hne, or_false]
    · intro m' hm'
      rw [hready, List.mem_append, List.mem_singleton] at hm'
      rw [push_current]
      rcases hm' with hm' | rfl
      · exact h.once m' hm'
      · exact fun hc => habsent (.inr hc)
    · intro m' roomQueue' hq'
      rw [push_roomQueues] at hq'
      rcases eq_or_ne m' m with rfl | hne
      · rw [Function.update_self] at hq'
        cases hq'
        rfl
      · rw [Function.update_of_ne hne] at hq'
        exact h.scheduled m' roomQueue' hq'
    · intro m' hm'
      rw [hready, List.mem_append, List.mem_singleton] at hm'
      rw [push_waiting]
      split
      · exact List.append_ne_nil_of_right_ne_nil _ (List.cons_ne_nil _ _)
      · next hne => exact h.nonempty m' (hm'.resolve_right hne)

/-- What `front()`, `at()` and the second `front()` of `RunWorker` look at is there. -/
theorem Lined.take (h : Lined w) (hready : w.readyRooms ≠ []) :
    ∃ m task rest roomQueue tasks, w.readyRooms = m :: rest ∧ w.roomQueues m = some roomQueue ∧
      roomQueue.tasks = task :: tasks ∧ w.take = some (m, task,
        { w with
          roomQueues := Function.update w.roomQueues m (some { roomQueue with tasks })
          readyRooms := rest
          thread := .running m task }) := by
  obtain ⟨m, rest, hcons⟩ := List.exists_cons_of_ne_nil hready
  have hm : m ∈ w.readyRooms := hcons ▸ List.mem_cons_self
  obtain ⟨roomQueue, hq⟩ := Option.isSome_iff_exists.mp ((h.queued m).mpr (.inl hm))
  have hne := h.nonempty m hm
  rw [waiting, hq] at hne
  obtain ⟨task, tasks, htasks⟩ := List.exists_cons_of_ne_nil hne
  exact ⟨m, task, rest, roomQueue, tasks, hcons, hq, htasks, by
    simp only [Option.map_some, Option.getD_some] at htasks
    simp only [RoomWorker.take, hcons, hq, htasks]⟩

/-- The room whose task has been run is there to be put back. -/
theorem Lined.putBack (h : Lined w) {m : UInt64} (hthread : w.thread = .ran m) : ∃ w', w.putBack m = some w' := by
  have hcurrent : w.current = some m := by
    rw [current, hthread]
  obtain ⟨roomQueue, hq⟩ := Option.isSome_iff_exists.mp ((h.queued m).mpr (.inr hcurrent))
  rw [RoomWorker.putBack, hq]
  dsimp only
  split
  · exact ⟨_, rfl⟩
  · exact ⟨_, rfl⟩

/-- What putting a room back comes to. -/
theorem putBack_cases {m : UInt64} (h : w.putBack m = some w') :
    (w.waiting m ≠ [] ∧ w' = { w with readyRooms := w.readyRooms ++ [m], thread := .looking }) ∨
      (w.waiting m = [] ∧
        w' = { w with roomQueues := Function.update w.roomQueues m none, thread := .looking }) := by
  rw [RoomWorker.putBack] at h
  cases hq : w.roomQueues m with
  | none =>
    rw [hq] at h
    cases h
  | some roomQueue =>
    rw [hq] at h
    dsimp only at h
    have hwaiting : w.waiting m = roomQueue.tasks := by
      rw [waiting, hq]
      rfl
    split at h
    · next hne =>
      cases h
      exact .inl ⟨hwaiting ▸ hne, rfl⟩
    · next hnil =>
      cases h
      exact .inr ⟨hwaiting ▸ not_not.mp hnil, rfl⟩

theorem Lined.moves (h : Lined w) (hmoves : Moves mine w added w') : Lined w' := by
  cases hmoves with
  | rested hqueues hready hthread =>
    have hcurrent : w'.current = w.current := by
      rcases hthread with hthread | ⟨hnone, hnone'⟩
      · rw [current, current, hthread]
      · rw [hnone, hnone']
    have hwaiting : ∀ m, w'.waiting m = w.waiting m := by
      intro m
      rw [waiting, waiting, hqueues]
    refine ⟨hready ▸ h.nodup, ?_, ?_, hqueues ▸ h.scheduled, ?_⟩
    · rw [hqueues, hready, hcurrent]
      exact h.queued
    · rw [hready, hcurrent]
      exact h.once
    · intro m hm
      rw [hwaiting]
      exact h.nonempty m (hready ▸ hm)
  | pushed _ => exact h.push _ _
  | @took m task rest roomQueue tasks hthread hready hqueue htasks =>
    have hnodup := h.nodup
    rw [hready, List.nodup_cons] at hnodup
    have hcurrent : w.current = none := by
      rw [current, hthread]
    refine ⟨hnodup.2, ?_, ?_, ?_, ?_⟩
    · intro m'
      rcases eq_or_ne m' m with rfl | hne
      · simp [current]
      · have hold := h.queued m'
        rw [hready, hcurrent, List.mem_cons] at hold
        simp only [current, Function.update_of_ne hne, hold, Option.some.injEq, hne, hne.symm, false_or,
          reduceCtorEq, or_false]
    · intro m' hm'
      simp only [current, ne_eq, Option.some.injEq]
      rintro rfl
      exact hnodup.1 hm'
    · intro m' roomQueue' hq'
      rcases eq_or_ne m' m with rfl | hne
      · simp only [Function.update_self, Option.some.injEq] at hq'
        rw [← hq']
        exact h.scheduled m' roomQueue hqueue
      · simp only [Function.update_of_ne hne] at hq'
        exact h.scheduled m' roomQueue' hq'
    · intro m' hm'
      have hne : m' ≠ m := by
        rintro rfl
        exact hnodup.1 hm'
      rw [waiting_update _ _ _ _ rfl, if_neg hne]
      exact h.nonempty m' (hready ▸ List.mem_cons_of_mem _ hm')
  | @handled m task hthread =>
    have hcurrent : w.current = some m := by
      rw [current, hthread]
    refine ⟨h.nodup, ?_, ?_, h.scheduled, h.nonempty⟩
    · intro m'
      rw [h.queued m', hcurrent]
      rfl
    · intro m' hm'
      have := h.once m' hm'
      rw [hcurrent] at this
      exact this
  | putBack m hthread hput =>
    have hcurrent : w.current = some m := by
      rw [current, hthread]
    have hout : m ∉ w.readyRooms := fun hm => h.once m hm hcurrent
    rcases putBack_cases hput with ⟨hne, rfl⟩ | ⟨hnil, rfl⟩
    · refine ⟨nodup_snoc h.nodup hout, ?_, nofun, h.scheduled, ?_⟩
      · intro m'
        rw [h.queued m', hcurrent]
        simp only [current, List.mem_append, List.mem_singleton, Option.some.injEq, reduceCtorEq, or_false]
        exact or_congr_right eq_comm
      · intro m' hm'
        rcases List.mem_append.mp hm' with hm' | hm'
        · exact h.nonempty m' hm'
        · rw [List.mem_singleton.mp hm']
          exact hne
    · refine ⟨h.nodup, ?_, nofun, ?_, ?_⟩
      · intro m'
        rcases eq_or_ne m' m with rfl | hne
        · simp [current, hout]
        · have hold := h.queued m'
          rw [hcurrent] at hold
          simp only [current, Function.update_of_ne hne, hold, Option.some.injEq, hne.symm, reduceCtorEq]
      · intro m' roomQueue' hq'
        rcases eq_or_ne m' m with rfl | hne
        · simp only [Function.update_self, reduceCtorEq] at hq'
        · simp only [Function.update_of_ne hne] at hq'
          exact h.scheduled m' roomQueue' hq'
      · intro m' hm'
        have hne : m' ≠ m := by
          rintro rfl
          exact hout hm'
        rw [waiting_update _ _ _ _ rfl, if_neg hne]
        exact h.nonempty m' hm'

/-! ## The tasks -/

open RoomThreadPool (accepted begun finished)

/-- What is accepted is begun or waits. -/
theorem Moves.waiting (hmoves : Moves mine w added w') (m : UInt64) :
    w.waiting m ++ accepted added m = begun added m ++ w'.waiting m := by
  cases hmoves with
  | rested hqueues _ _ => simp [RoomWorker.waiting, hqueues, accepted, begun]
  | @pushed m' task _ =>
    rw [push_waiting]
    rcases eq_or_ne m' m with rfl | hne
    · simp [accepted, begun]
    · simp [accepted, begun, hne, hne.symm]
  | @took m' task rest roomQueue tasks _ _ hqueue htasks =>
    rcases eq_or_ne m' m with rfl | hne
    · simp [accepted, begun, RoomWorker.waiting, hqueue, htasks]
    · simp [accepted, begun, RoomWorker.waiting, hne, hne.symm]
  | handled _ => simp [accepted, begun, RoomWorker.waiting]
  | putBack m' _ hput =>
    rcases putBack_cases hput with ⟨_, rfl⟩ | ⟨hnil, rfl⟩
    · simp [accepted, begun, RoomWorker.waiting]
    · rcases eq_or_ne m m' with rfl | hne
      · rw [hnil]
        simp [accepted, begun, RoomWorker.waiting]
      · simp [accepted, begun, RoomWorker.waiting, hne]

/-- What is begun has ended or runs. -/
theorem Moves.running (hmoves : Moves mine w added w') (m : UInt64) :
    w.runningTasks m ++ begun added m = finished added m ++ w'.runningTasks m := by
  have idle : ∀ {v : RoomWorker Task}, v.current = none → v.runningTasks m = [] := by
    intro v hv
    rw [current] at hv
    rw [runningTasks]
    split at hv <;> simp_all
  cases hmoves with
  | rested _ _ hthread =>
    rcases hthread with hthread | ⟨hnone, hnone'⟩
    · simp [runningTasks, hthread, begun, finished]
    · simp [idle hnone, idle hnone', begun, finished]
  | pushed _ => simp [runningTasks, push, begun, finished]
  | @took m' task _ _ _ hthread _ _ _ =>
    rcases eq_or_ne m' m with rfl | hne
    · simp [runningTasks, hthread, begun, finished]
    · simp [runningTasks, hthread, begun, finished, hne]
  | @handled m' task hthread =>
    rcases eq_or_ne m' m with rfl | hne
    · simp [runningTasks, hthread, begun, finished]
    · simp [runningTasks, hthread, begun, finished, hne]
  | putBack m' hthread hput =>
    rcases putBack_cases hput with ⟨_, rfl⟩ | ⟨_, rfl⟩ <;> simp [runningTasks, hthread, begun, finished]

/-- A worker has no queue for another worker's room, gets none, and does nothing with its tasks. -/
theorem Moves.elsewhere (hmoves : Moves mine w added w') (h : Lined w) {m : UInt64} (hm : ¬ mine m)
    (hnone : w.roomQueues m = none) :
    w'.roomQueues m = none ∧ accepted added m = [] ∧ begun added m = [] ∧ finished added m = [] := by
  have hnot : ∀ m', (w.roomQueues m').isSome → m' ≠ m := by
    rintro m' hsome rfl
    rw [hnone] at hsome
    cases hsome
  cases hmoves with
  | rested hqueues _ _ => exact ⟨hqueues ▸ hnone, rfl, rfl, rfl⟩
  | @pushed m' task hmine =>
    have hne : m' ≠ m := fun heq => hm (heq ▸ hmine)
    rw [push_roomQueues, Function.update_of_ne hne.symm]
    simp [hnone, accepted, begun, finished, hne]
  | @took m' task _ _ _ _ _ hqueue _ =>
    have hne := hnot m' (by rw [hqueue]; rfl)
    simp only [Function.update_of_ne hne.symm]
    simp [hnone, accepted, begun, finished, hne]
  | @handled m' task hthread =>
    have hne := hnot m' ((h.queued m').mpr (.inr (by rw [current, hthread])))
    simp [hnone, accepted, begun, finished, hne]
  | putBack m' _ hput =>
    rcases putBack_cases hput with ⟨_, rfl⟩ | ⟨_, rfl⟩
    · exact ⟨hnone, rfl, rfl, rfl⟩
    · refine ⟨?_, rfl, rfl, rfl⟩
      rcases eq_or_ne m m' with rfl | hne
      · exact Function.update_self ..
      · rw [← hnone]
        exact Function.update_of_ne hne ..

end RoomWorker

namespace Destructor

/-- The destructor has stopped this worker. -/
def hasStopped : Destructor → Nat → Prop
  | .alive, _ => False
  | .stopping k, i => i < k
  | .notifying k, i => i ≤ k
  | .joining _, _ => True
  | .returned, _ => True

/-- The destructor has joined this worker's thread. -/
def hasJoined : Destructor → Nat → Prop
  | .joining k, i => i < k
  | .returned, _ => True
  | _, _ => False

end Destructor

namespace RoomThreadPool

open RoomWorker

variable {hash : UInt64 → Nat} [NeZero workerCount] {pool pool' : RoomThreadPool Task workerCount}

@[simp] theorem accepted_append (log added : List (TaskEvent Task)) (m : UInt64) :
    accepted (log ++ added) m = accepted log m ++ accepted added m := List.filterMap_append

@[simp] theorem begun_append (log added : List (TaskEvent Task)) (m : UInt64) :
    begun (log ++ added) m = begun log m ++ begun added m := List.filterMap_append

@[simp] theorem finished_append (log added : List (TaskEvent Task)) (m : UInt64) :
    finished (log ++ added) m = finished log m ++ finished added m := List.filterMap_append

/-- The rooms of a worker. -/
def Mine (hash : UInt64 → Nat) (i : Fin workerCount) (meetingId : UInt64) : Prop :=
  workerIndex hash workerCount meetingId = i

/-- A step moves at most one worker, and adds to the log what it did. -/
structure Moved (hash : UInt64 → Nat) (pool : RoomThreadPool Task workerCount) (i : Fin workerCount)
    (w' : RoomWorker Task) (added : List (TaskEvent Task)) (pool' : RoomThreadPool Task workerCount) : Prop where
  moves : Moves (Mine hash i) (pool.workers i) added w'
  workers : pool'.workers = Function.update pool.workers i w'
  log : pool'.log = pool.log ++ added

theorem wake_moves (w : RoomWorker Task) (i : Fin workerCount) :
    Moves (Mine hash i) w [] w.wake := by
  rw [wake]
  split
  · next hthread => exact .rested rfl rfl (.inr ⟨by rw [current, hthread], rfl⟩)
  · exact .rested rfl rfl (.inl rfl)

/-- What a turn of a worker's thread comes to. -/
inductive Turn (pool : RoomThreadPool Task workerCount) (i : Fin workerCount) : RoomThreadPool Task workerCount → Prop
  | blocks (hthread : (pool.workers i).thread = .looking) (hstopping : (pool.workers i).stopping = false)
      (hready : (pool.workers i).readyRooms = []) :
      Turn pool i (pool.setWorker i { pool.workers i with thread := .blocked })
  | exits (hthread : (pool.workers i).thread = .looking) (hstopping : (pool.workers i).stopping = true)
      (hready : (pool.workers i).readyRooms = []) :
      Turn pool i (pool.setWorker i { pool.workers i with thread := .exited })
  | takes {m : UInt64} {task : Task} {rest : List UInt64} {roomQueue : RoomQueue Task} {tasks : List Task}
      (hthread : (pool.workers i).thread = .looking) (hready : (pool.workers i).readyRooms = m :: rest)
      (hqueue : (pool.workers i).roomQueues m = some roomQueue) (htasks : roomQueue.tasks = task :: tasks) :
      Turn pool i ((pool.setWorker i
        { pool.workers i with
          roomQueues := Function.update (pool.workers i).roomQueues m (some { roomQueue with tasks })
          readyRooms := rest
          thread := .running m task }).note (.began m task))
  | handles {m : UInt64} {task : Task} (hthread : (pool.workers i).thread = .running m task) :
      Turn pool i ((pool.setWorker i { pool.workers i with thread := .ran m }).note (.ended m task))
  | putsBack (m : UInt64) {w' : RoomWorker Task} (hthread : (pool.workers i).thread = .ran m)
      (hput : (pool.workers i).putBack m = some w') : Turn pool i (pool.setWorker i w')

omit [NeZero workerCount] in
theorem runWorker_turn {i : Fin workerCount} (h : Lined (pool.workers i)) (hstep : pool.runWorker i = some pool') :
    Turn pool i pool' := by
  rw [runWorker] at hstep
  split at hstep
  · next hthread =>
    cases hready : (pool.workers i).readyRooms with
    | nil =>
      rw [hready] at hstep
      cases hstopping : (pool.workers i).stopping with
      | false =>
        simp only [hstopping, List.isEmpty_nil, Bool.not_false, Bool.and_self, if_true, Option.some.injEq] at hstep
        subst hstep
        rw [← hstopping, ← hready]
        exact .blocks hthread hstopping hready
      | true =>
        simp only [hstopping, List.isEmpty_nil, Bool.not_true, Bool.and_self, Bool.false_and, Bool.false_eq_true,
          if_false, if_true, Option.some.injEq] at hstep
        subst hstep
        rw [← hstopping, ← hready]
        exact .exits hthread hstopping hready
    | cons m rest =>
      obtain ⟨m, task, rest, roomQueue, tasks, hcons, hqueue, htasks, htake⟩ :=
        h.take (List.ne_nil_of_mem (hready ▸ List.mem_cons_self))
      simp only [hready, List.isEmpty_cons, Bool.and_false, Bool.false_eq_true, if_false, htake,
        Option.some.injEq] at hstep
      subst hstep
      exact .takes hthread hcons hqueue htasks
  · next hthread =>
    cases hstep
    exact .handles hthread
  · next hthread =>
    obtain ⟨w', hput⟩ := h.putBack hthread
    rw [hput] at hstep
    cases hstep
    exact .putsBack _ hthread hput
  · cases hstep
  · cases hstep
  · cases hstep

theorem Turn.moved {i : Fin workerCount} (h : Turn pool i pool') :
    ∃ w' added, Moved hash pool i w' added pool' := by
  cases h with
  | blocks hthread _ _ =>
    refine ⟨_, [], ?_, rfl, (List.append_nil _).symm⟩
    exact .rested rfl rfl (.inr ⟨by rw [current, hthread], rfl⟩)
  | exits hthread _ _ =>
    refine ⟨_, [], ?_, rfl, (List.append_nil _).symm⟩
    exact .rested rfl rfl (.inr ⟨by rw [current, hthread], rfl⟩)
  | takes hthread hready hqueue htasks => exact ⟨_, _, .took hthread hready hqueue htasks, rfl, rfl⟩
  | handles hthread => exact ⟨_, _, .handled hthread, rfl, rfl⟩
  | putsBack m hthread hput => exact ⟨_, [], .putBack m hthread hput, rfl, (List.append_nil _).symm⟩

omit [NeZero workerCount] in
/-- What a step of the destructor comes to. -/
theorem destroy_cases (hstep : pool.destroy = some pool') :
    (∃ k, ∃ h : k < workerCount, pool.destructor = .stopping k ∧
      pool' = { pool.setWorker ⟨k, h⟩ { pool.workers ⟨k, h⟩ with stopping := true } with destructor := .notifying k }) ∨
    (∃ k, ∃ h : k < workerCount, pool.destructor = .notifying k ∧
      pool' = { pool.setWorker ⟨k, h⟩ (pool.workers ⟨k, h⟩).wake with destructor := .stopping (k + 1) }) ∨
    (∃ k, ∃ h : k < workerCount, pool.destructor = .joining k ∧ (pool.workers ⟨k, h⟩).thread = .exited ∧
      pool' = { pool with destructor := .joining (k + 1) }) ∨
    (pool.destructor = .alive ∧ pool' = { pool with destructor := .stopping 0 }) ∨
    (∃ k, pool.destructor = .stopping k ∧ workerCount ≤ k ∧ pool' = { pool with destructor := .joining 0 }) ∨
    (∃ k, pool.destructor = .joining k ∧ workerCount ≤ k ∧ pool' = { pool with destructor := .returned }) := by
  rw [destroy] at hstep
  split at hstep
  · next hd =>
    cases hstep
    exact .inr (.inr (.inr (.inl ⟨hd, rfl⟩)))
  · next k hd =>
    split at hstep
    · next hk =>
      cases hstep
      exact .inl ⟨k, hk, hd, rfl⟩
    · next hk =>
      cases hstep
      exact .inr (.inr (.inr (.inr (.inl ⟨k, hd, Nat.le_of_not_lt hk, rfl⟩))))
  · next k hd =>
    split at hstep
    · next hk =>
      cases hstep
      exact .inr (.inl ⟨k, hk, hd, rfl⟩)
    · cases hstep
  · next k hd =>
    split at hstep
    · next hk =>
      split at hstep
      · next hexited =>
        cases hstep
        exact .inr (.inr (.inl ⟨k, hk, hd, hexited, rfl⟩))
      · cases hstep
    · next hk =>
      cases hstep
      exact .inr (.inr (.inr (.inr (.inr ⟨k, hd, Nat.le_of_not_lt hk, rfl⟩))))
  · cases hstep

/-- Every step is one worker's move, or moves none. -/
theorem step_moved {e : PoolEvent Task workerCount} (h : ∀ i, Lined (pool.workers i))
    (hstep : step hash pool e = some pool') :
    (∃ i w' added, Moved hash pool i w' added pool') ∨ pool'.workers = pool.workers ∧ pool'.log = pool.log := by
  cases e with
  | post m task =>
    simp only [step] at hstep
    split at hstep
    · cases hstep
    · cases hstep
      rw [post]
      split
      · exact .inr ⟨rfl, rfl⟩
      · exact .inl ⟨_, _, _, ⟨.pushed rfl, rfl, rfl⟩⟩
  | notify i =>
    simp only [step] at hstep
    split at hstep
    · cases hstep
    · cases hstep
      refine .inl ⟨i, _, [], ?_, rfl, (List.append_nil _).symm⟩
      rw [wake]
      split
      · next hthread => exact .rested rfl rfl (.inr ⟨by rw [current, show (pool.workers i).thread = .blocked from hthread], rfl⟩)
      · exact .rested rfl rfl (.inl rfl)
  | spurious i =>
    simp only [step] at hstep
    split at hstep
    · cases hstep
      exact .inl ⟨i, _, [], ⟨wake_moves _ i, rfl, (List.append_nil _).symm⟩⟩
    · cases hstep
  | work i =>
    have hmoved : ∃ w' added, Moved hash pool i w' added pool' := (runWorker_turn (h i) hstep).moved
    obtain ⟨w', added, hmoved⟩ := hmoved
    exact .inl ⟨i, w', added, hmoved⟩
  | destroy =>
    rcases destroy_cases hstep with ⟨k, hk, _, rfl⟩ | ⟨k, hk, _, rfl⟩ | ⟨k, hk, _, _, rfl⟩ | ⟨_, rfl⟩ | ⟨k, _, _, rfl⟩ |
      ⟨k, _, _, rfl⟩
    · refine .inl ⟨⟨k, hk⟩, _, [], ?_, rfl, (List.append_nil _).symm⟩
      exact .rested rfl rfl (.inl rfl)
    · exact .inl ⟨⟨k, hk⟩, _, [], ⟨wake_moves _ _, rfl, (List.append_nil _).symm⟩⟩
    all_goals exact .inr ⟨rfl, rfl⟩

/-! ## The tasks of every room -/

/-- Every worker is in line and has its own rooms only, and the log says where every task is. -/
structure Kept (hash : UInt64 → Nat) (pool : RoomThreadPool Task workerCount) : Prop where
  lined : ∀ i, Lined (pool.workers i)
  home : ∀ i m, ¬ Mine hash i m → (pool.workers i).roomQueues m = none
  waiting : ∀ m, accepted pool.log m = begun pool.log m ++ (pool.workers (workerIndex hash workerCount m)).waiting m
  running : ∀ m, begun pool.log m = finished pool.log m ++ (pool.workers (workerIndex hash workerCount m)).runningTasks m

theorem Kept.start : Kept hash ({} : RoomThreadPool Task workerCount) :=
  ⟨fun _ => .start, fun _ _ _ => rfl, fun _ => rfl, fun _ => rfl⟩

theorem Kept.moved (h : Kept hash pool) {i : Fin workerCount} {w' : RoomWorker Task} {added : List (TaskEvent Task)}
    (hmoved : Moved hash pool i w' added pool') : Kept hash pool' := by
  obtain ⟨hmoves, hworkers, hlog⟩ := hmoved
  have hlined := h.lined i
  refine ⟨?_, ?_, ?_, ?_⟩
  · intro j
    rw [hworkers]
    rcases eq_or_ne j i with rfl | hne
    · rw [Function.update_self]
      exact hlined.moves hmoves
    · rw [Function.update_of_ne hne]
      exact h.lined j
  · intro j m hm
    rw [hworkers]
    rcases eq_or_ne j i with rfl | hne
    · rw [Function.update_self]
      exact (hmoves.elsewhere hlined hm (h.home j m hm)).1
    · rw [Function.update_of_ne hne]
      exact h.home j m hm
  · intro m
    rw [hworkers, hlog, accepted_append, begun_append, h.waiting m, List.append_assoc, List.append_assoc]
    rcases eq_or_ne (workerIndex hash workerCount m) i with hi | hne
    · rw [hi, Function.update_self, hmoves.waiting m]
    · obtain ⟨-, haccepted, hbegun, -⟩ := hmoves.elsewhere hlined hne (h.home i m hne)
      rw [Function.update_of_ne hne, haccepted, hbegun, List.append_nil, List.nil_append]
  · intro m
    rw [hworkers, hlog, begun_append, finished_append, h.running m, List.append_assoc, List.append_assoc]
    rcases eq_or_ne (workerIndex hash workerCount m) i with hi | hne
    · rw [hi, Function.update_self, hmoves.running m]
    · obtain ⟨-, -, hbegun, hfinished⟩ := hmoves.elsewhere hlined hne (h.home i m hne)
      rw [Function.update_of_ne hne, hbegun, hfinished, List.append_nil, List.nil_append]

theorem Kept.step {e : PoolEvent Task workerCount} (h : Kept hash pool) (hstep : step hash pool e = some pool') :
    Kept hash pool' := by
  rcases step_moved h.lined hstep with ⟨i, w', added, hmoved⟩ | ⟨hworkers, hlog⟩
  · exact h.moved hmoved
  · refine ⟨?_, ?_, ?_, ?_⟩ <;> simp only [hworkers, hlog]
    · exact h.lined
    · exact h.home
    · exact h.waiting
    · exact h.running

/-! ## The end -/

/-- A worker sleeps only while it has nothing to do or is about to be woken, and exits only when it is stopped and has
nothing to do. -/
structure Awake (destructor : Destructor) (i : Nat) (w : RoomWorker Task) : Prop where
  stopped : w.stopping = true ↔ destructor.hasStopped i
  blocked : w.thread = .blocked → w.stopping = false ∧ w.readyRooms = [] ∨ 0 < w.notifying ∨ destructor = .notifying i
  exited : w.thread = .exited → w.stopping = true ∧ w.readyRooms = []
  joined : destructor.hasJoined i → w.thread = .exited
  running : w.thread ≠ .crashed

theorem Awake.wake {d : Destructor} {i : Nat} {w : RoomWorker Task} (h : Awake d i w) : Awake d i w.wake := by
  rw [RoomWorker.wake]
  split
  · next hthread =>
    refine ⟨h.stopped, nofun, nofun, ?_, nofun⟩
    intro hj
    have := h.joined hj
    rw [hthread] at this
    cases this
  · exact h

omit [NeZero workerCount] in
theorem Turn.awake {i : Fin workerCount} (hturn : Turn pool i pool') {d : Destructor}
    (h : Awake d i (pool.workers i)) : Awake d i (pool'.workers i) := by
  have unjoined : (pool.workers i).thread ≠ .exited → ¬ d.hasJoined i := fun hne hj => hne (h.joined hj)
  cases hturn with
  | blocks hthread hstopping hready =>
    have hj := unjoined (by simp [hthread])
    simp only [setWorker, Function.update_self]
    exact ⟨h.stopped, fun _ => .inl ⟨hstopping, hready⟩, nofun, fun hd => absurd hd hj, nofun⟩
  | exits hthread hstopping hready =>
    simp only [setWorker, Function.update_self]
    exact ⟨h.stopped, nofun, fun _ => ⟨hstopping, hready⟩, fun _ => rfl, nofun⟩
  | takes hthread hready hqueue htasks =>
    have hj := unjoined (by simp [hthread])
    simp only [setWorker, note, Function.update_self]
    exact ⟨h.stopped, nofun, nofun, fun hd => absurd hd hj, nofun⟩
  | handles hthread =>
    have hj := unjoined (by simp [hthread])
    simp only [setWorker, note, Function.update_self]
    exact ⟨h.stopped, nofun, nofun, fun hd => absurd hd hj, nofun⟩
  | putsBack m hthread hput =>
    have hj := unjoined (by simp [hthread])
    simp only [setWorker, Function.update_self]
    rcases putBack_cases hput with ⟨_, rfl⟩ | ⟨_, rfl⟩
    · exact ⟨h.stopped, nofun, nofun, fun hd => absurd hd hj, nofun⟩
    · exact ⟨h.stopped, nofun, nofun, fun hd => absurd hd hj, nofun⟩

omit [NeZero workerCount] in
/-- A step of one worker leaves the others as they are. -/
theorem awake_setWorker {i : Fin workerCount} {w' : RoomWorker Task}
    (h : ∀ j : Fin workerCount, Awake pool.destructor j (pool.workers j)) (hw : Awake pool.destructor i w')
    (j : Fin workerCount) : Awake pool.destructor j ((pool.setWorker i w').workers j) := by
  simp only [setWorker]
  rcases eq_or_ne j i with rfl | hne
  · rwa [Function.update_self]
  · rw [Function.update_of_ne hne]
    exact h j

/-- The destructor goes on: nothing changes for a worker that it does not step on. -/
theorem Awake.advance {d d' : Destructor} {i : Nat} {w : RoomWorker Task} (h : Awake d i w)
    (hstopped : d.hasStopped i ↔ d'.hasStopped i) (hjoined : d'.hasJoined i → w.thread = .exited)
    (hnotified : d ≠ .notifying i) : Awake d' i w := by
  refine ⟨h.stopped.trans hstopped, ?_, h.exited, hjoined, h.running⟩
  intro hb
  rcases h.blocked hb with hidle | hnotifying | hd
  · exact .inl hidle
  · exact .inr (.inl hnotifying)
  · exact absurd hd hnotified

theorem awake_step {e : PoolEvent Task workerCount} (hlined : ∀ i, Lined (pool.workers i))
    (h : ∀ j : Fin workerCount, Awake pool.destructor j (pool.workers j)) (hstep : step hash pool e = some pool')
    (j : Fin workerCount) : Awake pool'.destructor j (pool'.workers j) := by
  cases e with
  | post m task =>
    simp only [step] at hstep
    split at hstep
    · cases hstep
    · cases hstep
      rw [post]
      split
      · exact h j
      · next hnot =>
        set i := workerIndex hash workerCount m
        have hw : Awake pool.destructor i ((pool.workers i).push m task) := by
          refine ⟨(h i).stopped, fun _ => .inr (.inl (Nat.succ_pos _)), ?_, (h i).joined, (h i).running⟩
          intro hexited
          exact absurd ((h i).exited hexited).1 hnot
        exact awake_setWorker h hw j
  | notify i =>
    simp only [step] at hstep
    split at hstep
    · cases hstep
    · cases hstep
      refine awake_setWorker h ?_ j
      rw [RoomWorker.wake]
      split
      · next hthread =>
        refine ⟨(h i).stopped, nofun, nofun, ?_, nofun⟩
        intro hj
        have := (h i).joined hj
        rw [show (pool.workers i).thread = .blocked from hthread] at this
        cases this
      · next hthread => exact ⟨(h i).stopped, fun hb => absurd hb hthread, (h i).exited, (h i).joined, (h i).running⟩
  | spurious i =>
    simp only [step] at hstep
    split at hstep
    · cases hstep
      exact awake_setWorker h (h i).wake j
    · cases hstep
  | work i =>
    have hturn := runWorker_turn (hlined i) hstep
    have hmoved : ∃ w' added, Moved hash pool i w' added pool' := hturn.moved
    obtain ⟨w', added, hmoved⟩ := hmoved
    have hd : pool'.destructor = pool.destructor := by
      cases hturn <;> rfl
    rw [hd]
    rcases eq_or_ne j i with rfl | hne
    · exact hturn.awake (h j)
    · rw [hmoved.workers, Function.update_of_ne hne]
      exact h j
  | destroy =>
    rcases destroy_cases hstep with ⟨k, hk, hd, rfl⟩ | ⟨k, hk, hd, rfl⟩ | ⟨k, hk, hd, hexited, rfl⟩ | ⟨hd, rfl⟩ |
      ⟨k, hd, hk, rfl⟩ | ⟨k, hd, hk, rfl⟩
    · have hj := h j
      rw [hd] at hj
      simp only [setWorker]
      rcases eq_or_ne j ⟨k, hk⟩ with rfl | hne
      · rw [Function.update_self]
        refine ⟨iff_of_true rfl (Nat.le_refl k), fun _ => .inr (.inr rfl), ?_, nofun, hj.running⟩
        intro hexited
        exact ⟨rfl, (hj.exited hexited).2⟩
      · rw [Function.update_of_ne hne]
        have hne' : (j : Nat) ≠ k := fun heq => hne (Fin.ext heq)
        refine hj.advance ?_ nofun nofun
        simp only [Destructor.hasStopped]
        omega
    · have hj := h j
      rw [hd] at hj
      simp only [setWorker]
      rcases eq_or_ne j ⟨k, hk⟩ with rfl | hne
      · rw [Function.update_self]
        have hw : (pool.workers ⟨k, hk⟩).wake.thread ≠ .blocked := by
          rw [RoomWorker.wake]
          split
          · nofun
          · assumption
        refine ⟨hj.wake.stopped.trans ?_, fun hb => absurd hb hw, hj.wake.exited, nofun, hj.wake.running⟩
        simp only [Destructor.hasStopped]
        omega
      · rw [Function.update_of_ne hne]
        have hne' : (j : Nat) ≠ k := fun heq => hne (Fin.ext heq)
        refine hj.advance ?_ nofun ?_
        · simp only [Destructor.hasStopped]
          omega
        · rintro ⟨⟩
          exact hne' rfl
    · have hj := h j
      rw [hd] at hj
      refine hj.advance Iff.rfl ?_ nofun
      intro hlt
      rcases Nat.lt_or_eq_of_le (Nat.le_of_lt_succ hlt) with hlt | heq
      · exact hj.joined hlt
      · rw [← hexited]
        exact congrArg (fun i => (pool.workers i).thread) (Fin.ext heq)
    · have hj := h j
      rw [hd] at hj
      exact hj.advance (by simp [Destructor.hasStopped]) nofun nofun
    · have hj := h j
      rw [hd] at hj
      have hlt : (j : Nat) < k := Nat.lt_of_lt_of_le j.isLt hk
      exact hj.advance (iff_of_true hlt trivial) (fun hlt => absurd hlt (Nat.not_lt_zero _)) nofun
    · have hj := h j
      rw [hd] at hj
      have hlt : (Destructor.joining k).hasJoined j := Nat.lt_of_lt_of_le j.isLt hk
      exact hj.advance Iff.rfl (fun _ => hj.joined hlt) nofun

/-! ## Turns -/

/-- Of the rooms that were in the line, the first ones have been served since and the rest lead the line. -/
structure Served (rooms : List UInt64) (before : List (TaskEvent Task)) (w : RoomWorker Task)
    (log : List (TaskEvent Task)) (since : List (TaskEvent Task)) (served left later : List UInt64) : Prop where
  log : log = before ++ since
  rooms : rooms = served ++ left
  ready : w.readyRooms = left ++ later
  served : ∀ m ∈ served, ∃ task, .began m task ∈ since ∧ (.ended m task ∈ since ∨ w.thread = .running m task)

theorem Served.moves {rooms served left later : List UInt64} {before log since : List (TaskEvent Task)}
    {w w' : RoomWorker Task} {mine : UInt64 → Prop} {added : List (TaskEvent Task)}
    (h : Served rooms before w log since served left later) (hmoves : Moves mine w added w') :
    ∃ served' left' later', Served rooms before w' (log ++ added) (since ++ added) served' left' later' := by
  have hlog : log ++ added = before ++ (since ++ added) := by rw [h.log, List.append_assoc]
  -- as long as the thread runs what it ran, what has been served stays so
  have kept : w'.thread = w.thread → ∀ m ∈ served, ∃ task, .began m task ∈ since ++ added ∧
      (.ended m task ∈ since ++ added ∨ w'.thread = .running m task) := by
    intro hthread m hm
    obtain ⟨task, hbegan, hended⟩ := h.served m hm
    exact ⟨task, List.mem_append_left _ hbegan,
      hended.imp (List.mem_append_left _) fun hrunning => by rw [hthread, hrunning]⟩
  -- and a thread that runs nothing has served them
  have done : (∀ m task, w.thread ≠ .running m task) → ∀ m ∈ served, ∃ task, .began m task ∈ since ++ added ∧
      (.ended m task ∈ since ++ added ∨ w'.thread = .running m task) := by
    intro hidle m hm
    obtain ⟨task, hbegan, hended⟩ := h.served m hm
    have hended := hended.resolve_right (hidle m task)
    exact ⟨task, List.mem_append_left _ hbegan, .inl (List.mem_append_left _ hended)⟩
  cases hmoves with
  | rested _ hready hthread =>
    refine ⟨served, left, later, hlog, h.rooms, hready.trans h.ready, ?_⟩
    rcases hthread with hthread | ⟨hnone, _⟩
    · exact kept hthread
    · refine done fun m task hrunning => ?_
      rw [current, hrunning] at hnone
      cases hnone
  | @pushed m task _ =>
    refine ⟨served, left, if ((w.roomQueues m).getD {}).scheduled then later else later ++ [m], hlog, h.rooms, ?_,
      kept rfl⟩
    rw [push_readyRooms, h.ready]
    split
    · rfl
    · exact List.append_assoc ..
  | @took m task rest roomQueue tasks hthread hready _ _ =>
    have idle : ∀ m' task', w.thread ≠ .running m' task' := by
      rw [hthread]
      nofun
    rw [h.ready] at hready
    cases left with
    | nil => exact ⟨served, [], rest, hlog, h.rooms, rfl, done idle⟩
    | cons first left =>
      obtain ⟨rfl, rfl⟩ := List.cons.inj hready
      refine ⟨served ++ [first], left, later, hlog, by rw [h.rooms, List.append_assoc]; rfl, rfl, ?_⟩
      intro m' hm'
      rcases List.mem_append.mp hm' with hm' | hm'
      · exact done idle m' hm'
      · rw [List.mem_singleton.mp hm']
        exact ⟨task, List.mem_append_right _ List.mem_cons_self, .inr rfl⟩
  | @handled m task hthread =>
    refine ⟨served, left, later, hlog, h.rooms, h.ready, ?_⟩
    intro m' hm'
    obtain ⟨task', hbegan, hended⟩ := h.served m' hm'
    refine ⟨task', List.mem_append_left _ hbegan, .inl ?_⟩
    rcases hended with hended | hrunning
    · exact List.mem_append_left _ hended
    · rw [hthread] at hrunning
      cases hrunning
      exact List.mem_append_right _ List.mem_cons_self
  | putBack m hthread hput =>
    have idle : ∀ m' task', w.thread ≠ .running m' task' := by
      rw [hthread]
      nofun
    rcases putBack_cases hput with ⟨_, rfl⟩ | ⟨_, rfl⟩
    · exact ⟨served, left, later ++ [m], hlog, h.rooms, by rw [h.ready, List.append_assoc], done idle⟩
    · exact ⟨served, left, later, hlog, h.rooms, h.ready, done idle⟩

/-- What the other workers do changes nothing. -/
theorem Served.others {rooms served left later : List UInt64} {before log since : List (TaskEvent Task)}
    {w : RoomWorker Task} (h : Served rooms before w log since served left later) (added : List (TaskEvent Task)) :
    Served rooms before w (log ++ added) (since ++ added) served left later := by
  refine ⟨by rw [h.log, List.append_assoc], h.rooms, h.ready, ?_⟩
  intro m hm
  obtain ⟨task, hbegan, hended⟩ := h.served m hm
  exact ⟨task, List.mem_append_left _ hbegan, hended.imp_left (List.mem_append_left _)⟩

theorem served_run {i : Fin workerCount} (hkept : Kept hash pool)
    (hrun : Reach (step hash) (fun _ _ => True) pool pool') :
    ∃ since served left later, Served (pool.workers i).readyRooms pool.log (pool'.workers i) pool'.log since
      served left later := by
  have both : Kept hash pool' ∧ ∃ since served left later,
      Served (pool.workers i).readyRooms pool.log (pool'.workers i) pool'.log since served left later := by
    induction hrun with
    | start => exact ⟨hkept, [], [], _, [], (List.append_nil _).symm, rfl, (List.append_nil _).symm, nofun⟩
    | next _ _ hstep ih =>
      obtain ⟨hkept', since, served, left, later, hserved⟩ := ih
      refine ⟨hkept'.step hstep, ?_⟩
      rcases step_moved hkept'.lined hstep with ⟨j, w', added, hmoved⟩ | ⟨hworkers, hlog⟩
      · rw [hmoved.log, hmoved.workers]
        rcases eq_or_ne i j with rfl | hne
        · rw [Function.update_self]
          obtain ⟨served', left', later', hserved'⟩ := hserved.moves hmoved.moves
          exact ⟨_, _, _, _, hserved'⟩
        · rw [Function.update_of_ne hne]
          exact ⟨_, _, _, _, hserved.others added⟩
      · rw [hworkers, hlog]
        exact ⟨_, _, _, _, hserved⟩
  exact both.2

omit [NeZero workerCount] in
/-- A room that a turn begins a task of is the first in the line. -/
theorem Turn.took {i : Fin workerCount} (h : Turn pool i pool') {m : UInt64} {task : Task}
    (hlog : pool'.log = pool.log ++ [.began m task]) :
    (pool.workers i).thread = .looking ∧ (pool.workers i).readyRooms = m :: (pool'.workers i).readyRooms := by
  have none : pool.log ≠ pool.log ++ [.began m task] := fun heq => List.cons_ne_nil _ _ (List.self_eq_append_right.mp heq)
  cases h with
  | blocks _ _ _ => exact absurd hlog none
  | exits _ _ _ => exact absurd hlog none
  | takes hthread hready _ _ =>
    cases List.append_cancel_left hlog
    simp only [setWorker, note, Function.update_self]
    exact ⟨hthread, hready⟩
  | handles _ => cases List.append_cancel_left hlog
  | putsBack _ _ _ => exact absurd hlog none

/-- **The rooms take turns**: before the worker begins a task of a room again, it has run one of every other room that
was in the line when it began the first. -/
theorem turns {i : Fin workerCount} {m : UInt64} {task task' : Task} {first between last : RoomThreadPool Task workerCount}
    (hkept : Kept hash pool) (hfirst : step hash pool (.work i) = some first)
    (hbegan : first.log = pool.log ++ [.began m task]) (hrun : Reach (step hash) (fun _ _ => True) first between)
    (hlast : step hash between (.work i) = some last) (hbegan' : last.log = between.log ++ [.began m task']) :
    ∃ since, between.log = first.log ++ since ∧ ∀ other ∈ (pool.workers i).readyRooms, other ≠ m →
      ∃ task, .began other task ∈ since ∧ .ended other task ∈ since := by
  have hkeptFirst := hkept.step hfirst
  obtain ⟨since, served, left, later, hserved⟩ := served_run (i := i) hkeptFirst hrun
  have hkeptBetween : Kept hash between := hrun.invariant hkeptFirst fun _ _ _ h _ hstep => h.step hstep
  obtain ⟨-, hready⟩ := (runWorker_turn (hkept.lined i) hfirst).took hbegan
  obtain ⟨hthread, hready'⟩ := (runWorker_turn (hkeptBetween.lined i) hlast).took hbegan'
  have hout : m ∉ (first.workers i).readyRooms := by
    have := (hkept.lined i).nodup
    rw [hready] at this
    exact (List.nodup_cons.mp this).1
  -- `m` leads the line again, so none of those before it are left
  have hleft : left = [] := by
    cases left with
    | nil => rfl
    | cons first left =>
      have hcons := hserved.ready.symm.trans hready'
      rw [List.cons_append, List.cons.injEq] at hcons
      refine absurd ?_ hout
      rw [hserved.rooms, ← hcons.1]
      exact List.mem_append_right _ List.mem_cons_self
  refine ⟨since, hserved.log, ?_⟩
  intro other hother hne
  rw [hready, List.mem_cons, or_iff_right hne, hserved.rooms, hleft, List.append_nil] at hother
  obtain ⟨task, hbegan, hended⟩ := hserved.served other hother
  exact ⟨task, hbegan, hended.resolve_right fun hrunning => by rw [hthread] at hrunning; cases hrunning⟩

/-! ## The pool -/

theorem notifying_lt {e : PoolEvent Task workerCount} (hstep : step hash pool e = some pool')
    (h : ∀ k, pool.destructor = .notifying k → k < workerCount) :
    ∀ k, pool'.destructor = .notifying k → k < workerCount := by
  have same : pool'.destructor = pool.destructor ∨ pool.destroy = some pool' := by
    cases e with
    | destroy => exact .inr hstep
    | post m task =>
      simp only [step, post] at hstep
      split at hstep
      · cases hstep
      · split at hstep <;> cases hstep <;> exact .inl rfl
    | notify i =>
      simp only [step] at hstep
      split at hstep <;> cases hstep
      exact .inl rfl
    | spurious i =>
      simp only [step] at hstep
      split at hstep <;> cases hstep
      exact .inl rfl
    | work i =>
      simp only [step, runWorker] at hstep
      split at hstep <;> (try split at hstep) <;> (try split at hstep) <;> (try split at hstep) <;> cases hstep <;>
        exact .inl rfl
  rcases same with same | hdestroy
  · rwa [same]
  · intro k hk
    rcases destroy_cases hdestroy with ⟨_, hlt, _, rfl⟩ | ⟨_, _, _, rfl⟩ | ⟨_, _, _, _, rfl⟩ | ⟨_, rfl⟩ | ⟨_, _, _, rfl⟩ |
      ⟨_, _, _, rfl⟩ <;> cases hk
    exact hlt

/-- What the pool is at any time. -/
structure Sound (hash : UInt64 → Nat) (pool : RoomThreadPool Task workerCount) : Prop where
  kept : Kept hash pool
  awake : ∀ i : Fin workerCount, Awake pool.destructor i (pool.workers i)
  notifying : ∀ k, pool.destructor = .notifying k → k < workerCount

theorem sound (h : Reach (step hash) (fun _ _ => True) {} pool) : Sound hash pool := by
  refine h.invariant ⟨.start, fun i => ⟨?_, nofun, nofun, nofun, nofun⟩, nofun⟩ ?_
  · simp [Destructor.hasStopped]
  · intro pool e pool' h _ hstep
    exact ⟨h.kept.step hstep, awake_step h.kept.lined h.awake hstep, notifying_lt hstep h.notifying⟩

/-- A room is in the line once when it waits and nothing of it runs. -/
theorem Kept.ready (h : Kept hash pool) (i : Fin workerCount) (m : UInt64) :
    (pool.workers i).readyRooms.count m =
      if (pool.workers i).waiting m ≠ [] ∧ (pool.workers i).current ≠ some m then 1 else 0 := by
  have hlined := h.lined i
  split
  · next hcond =>
    obtain ⟨hwaiting, hcurrent⟩ := hcond
    refine List.count_eq_one_of_mem hlined.nodup ?_
    refine ((hlined.queued m).mp ?_).resolve_right hcurrent
    rw [RoomWorker.waiting] at hwaiting
    cases hq : (pool.workers i).roomQueues m with
    | none =>
      rw [hq] at hwaiting
      exact absurd rfl hwaiting
    | some roomQueue => rfl
  · next hcond =>
    refine List.count_eq_zero.mpr fun hm => hcond ⟨hlined.nonempty m hm, hlined.once m hm⟩

/-- The destructor is never stuck: it goes on, or a thread it waits for does, or one that has to be woken is about to
be. -/
theorem Sound.goesOn (h : Sound hash pool) (halive : pool.destructor ≠ .alive) (hreturned : pool.destructor ≠ .returned) :
    ∃ e, (e = .destroy ∨ (∃ i, e = .work i) ∨ ∃ i, e = .notify i) ∧ (step hash pool e).isSome := by
  cases hd : pool.destructor with
  | alive => exact absurd hd halive
  | returned => exact absurd hd hreturned
  | stopping k =>
    refine ⟨.destroy, .inl rfl, ?_⟩
    simp only [step, destroy, hd]
    split <;> rfl
  | notifying k =>
    refine ⟨.destroy, .inl rfl, ?_⟩
    simp only [step, destroy, hd, h.notifying k hd, dite_true, Option.isSome_some]
  | joining k =>
    by_cases hk : k < workerCount
    · have hawake := h.awake ⟨k, hk⟩
      rw [hd] at hawake
      have work : ∀ {w' : RoomThreadPool Task workerCount}, pool.runWorker ⟨k, hk⟩ = some w' →
          ∃ e, (e = .destroy ∨ (∃ i, e = .work i) ∨ ∃ i, e = .notify i) ∧ (step hash pool e).isSome := by
        intro w' hw
        exact ⟨.work ⟨k, hk⟩, .inr (.inl ⟨_, rfl⟩), by rw [step, hw]; rfl⟩
      cases hthread : (pool.workers ⟨k, hk⟩).thread with
      | exited =>
        refine ⟨.destroy, .inl rfl, ?_⟩
        simp only [step, destroy, hd, hk, dite_true, hthread, Option.isSome_some]
      | blocked =>
        have hstopping := hawake.stopped.mpr trivial
        rcases hawake.blocked hthread with ⟨hnot, _⟩ | hpos | hd'
        · rw [hstopping] at hnot
          cases hnot
        · refine ⟨.notify ⟨k, hk⟩, .inr (.inr ⟨_, rfl⟩), ?_⟩
          simp only [step, Nat.pos_iff_ne_zero.mp hpos, if_false, Option.isSome_some]
        · cases hd'
      | looking =>
        obtain ⟨w', hw⟩ : ∃ w', pool.runWorker ⟨k, hk⟩ = some w' := by
          rw [runWorker, hthread]
          dsimp only
          split
          · exact ⟨_, rfl⟩
          · split
            · exact ⟨_, rfl⟩
            · split
              · exact ⟨_, rfl⟩
              · exact ⟨_, rfl⟩
        exact work hw
      | running m task => exact work (by rw [runWorker, hthread])
      | ran m =>
        obtain ⟨w', hput⟩ := (h.kept.lined ⟨k, hk⟩).putBack hthread
        exact work (by rw [runWorker, hthread]; dsimp only; rw [hput])
      | crashed => exact absurd hthread hawake.running
    · refine ⟨.destroy, .inl rfl, ?_⟩
      simp only [step, destroy, hd, hk, dite_false, Option.isSome_some]

end RoomThreadPool

end SyncRtc.MediaServer
