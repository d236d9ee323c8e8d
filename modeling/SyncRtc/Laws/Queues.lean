import SyncRtc.Laws.Steps

/-!
# Two levels of queues

A command waits in its connection's queue, and then, if it belongs to a room, as a task of the room
while its connection waits for it. The module states what keeps the two levels in step: a connection
waits for a room exactly when the room has its task (`Placed`), and the end of a connection is the last
of its commands (`Line`). Both are stated over the control part of the server alone.
-/

set_option autoImplicit false

namespace SyncRtc

/-! ## Tasks and the connections that wait for them -/

/-- Connections and tasks in step: `w` tells whom a connection waits for, `tasks` what each room has
still to finish. -/
structure Placed (w : SessionId → Option (Command × MeetingId)) (tasks : MeetingId → List Task) : Prop where
  waits : ∀ m s c, Task.dispatch s c ∈ tasks m → w s = some (c, m)
  placed : ∀ s c m, w s = some (c, m) → Task.dispatch s c ∈ tasks m
  once : ∀ m, ((tasks m).filterMap Task.session?).Nodup
  ordinary : tasks 0 = []

/-- Whom connections wait for after a task has ended. -/
def Task.release (task : Task) (w : SessionId → Option (Command × MeetingId)) :
    SessionId → Option (Command × MeetingId) :=
  match task with
  | .dispatch s _ => Function.update w s none
  | _ => w

theorem session?_eq_some {task : Task} {s : SessionId} (h : task.session? = some s) :
    ∃ c, task = .dispatch s c := by
  cases task with
  | dispatch t c =>
    cases h
    exact ⟨c, rfl⟩
  | expire uid => cases h
  | mediaReply epoch signal registered message => cases h

namespace Placed

variable {w : SessionId → Option (Command × MeetingId)} {tasks : MeetingId → List Task}

theorem session_waits (h : Placed w tasks) {m : MeetingId} {s : SessionId}
    (hs : s ∈ (tasks m).filterMap Task.session?) : ∃ c, w s = some (c, m) := by
  obtain ⟨task, htask, hsession⟩ := List.mem_filterMap.mp hs
  obtain ⟨c, rfl⟩ := session?_eq_some hsession
  exact ⟨c, h.waits m s c htask⟩

/-- A room with a task is a meeting's. -/
theorem ne_zero (h : Placed w tasks) {m : MeetingId} {task : Task} (ht : task ∈ tasks m) : m ≠ 0 := by
  rintro rfl
  rw [h.ordinary] at ht
  cases ht

/-- A command handed over becomes the last task of its room. -/
theorem submit (h : Placed w tasks) {s : SessionId} (hw : w s = none) (c : Command) {m : MeetingId}
    (hm : m ≠ 0) :
    Placed (Function.update w s (some (c, m))) (Function.update tasks m (tasks m ++ [.dispatch s c])) := by
  have hfree : ∀ n c', Task.dispatch s c' ∉ tasks n := by
    intro n c' hmem
    have hwait := h.waits n s c' hmem
    rw [hw] at hwait
    cases hwait
  constructor
  · intro n t c' hmem
    by_cases hn : n = m
    · subst hn
      rw [Function.update_self, List.mem_append, List.mem_singleton] at hmem
      rcases hmem with hold | hnew
      · have ht : t ≠ s := fun e => hfree n c' (e ▸ hold)
        rw [Function.update_of_ne ht]
        exact h.waits n t c' hold
      · cases hnew
        rw [Function.update_self]
    · rw [Function.update_of_ne hn] at hmem
      have ht : t ≠ s := fun e => hfree n c' (e ▸ hmem)
      rw [Function.update_of_ne ht]
      exact h.waits n t c' hmem
  · intro t c' n hwait
    by_cases ht : t = s
    · subst ht
      rw [Function.update_self] at hwait
      cases hwait
      rw [Function.update_self]
      exact List.mem_append_right _ List.mem_cons_self
    · rw [Function.update_of_ne ht] at hwait
      have hold := h.placed t c' n hwait
      by_cases hn : n = m
      · subst hn
        rw [Function.update_self]
        exact List.mem_append_left _ hold
      · rwa [Function.update_of_ne hn]
  · intro n
    by_cases hn : n = m
    · subst hn
      rw [Function.update_self, List.filterMap_append, List.nodup_append]
      refine ⟨h.once n, List.nodup_singleton s, ?_⟩
      intro t ht t' ht'
      obtain ⟨c', hwait⟩ := h.session_waits ht
      have hs : t' = s := by simpa [Task.session?] using ht'
      rintro rfl
      rw [hs, hw] at hwait
      cases hwait
    · rw [Function.update_of_ne hn]
      exact h.once n
  · rw [Function.update_of_ne (Ne.symm hm)]
    exact h.ordinary

/-- A task that works for nobody may join any meeting's queue. -/
theorem append (h : Placed w tasks) {m : MeetingId} (hm : m ≠ 0) {task : Task} (ht : task.session? = none) :
    Placed w (Function.update tasks m (tasks m ++ [task])) := by
  have hmem : ∀ n s c, Task.dispatch s c ∈ Function.update tasks m (tasks m ++ [task]) n ↔
      Task.dispatch s c ∈ tasks n := by
    intro n s c
    by_cases hn : n = m
    · subst hn
      rw [Function.update_self, List.mem_append, List.mem_singleton]
      refine ⟨fun hor => hor.elim id ?_, .inl⟩
      rintro rfl
      cases ht
    · rw [Function.update_of_ne hn]
  constructor
  · exact fun n s c hs => h.waits n s c ((hmem n s c).mp hs)
  · exact fun s c n hs => (hmem n s c).mpr (h.placed s c n hs)
  · intro n
    by_cases hn : n = m
    · subst hn
      rw [Function.update_self, List.filterMap_append, List.filterMap_cons_none ht, List.filterMap_nil,
        List.append_nil]
      exact h.once n
    · rw [Function.update_of_ne hn]
      exact h.once n
  · rw [Function.update_of_ne (Ne.symm hm)]
    exact h.ordinary

/-- The first task of a room ends. -/
theorem finish (h : Placed w tasks) {m : MeetingId} {task : Task} {rest : List Task}
    (ht : tasks m = task :: rest) : Placed (task.release w) (Function.update tasks m rest) := by
  have hsub : ∀ n task', task' ∈ Function.update tasks m rest n → task' ∈ tasks n := by
    intro n task' hmem
    by_cases hn : n = m
    · subst hn
      rw [Function.update_self] at hmem
      exact ht ▸ List.mem_cons_of_mem task hmem
    · rwa [Function.update_of_ne hn] at hmem
  have honce := h.once m
  -- the session of the task has no other task anywhere
  have hother : ∀ n s c, Task.dispatch s c ∈ Function.update tasks m rest n → task.session? ≠ some s := by
    intro n s c hmem hsession
    obtain ⟨c', rfl⟩ := session?_eq_some hsession
    have hhead := h.waits m s c' (ht ▸ List.mem_cons_self)
    have hwait := h.waits n s c (hsub n _ hmem)
    rw [hhead] at hwait
    cases hwait
    rw [Function.update_self] at hmem
    rw [ht, List.filterMap_cons_some (show (Task.dispatch s _).session? = some s from rfl)] at honce
    exact (List.nodup_cons.mp honce).1 (List.mem_filterMap.mpr ⟨_, hmem, rfl⟩)
  have hrelease : ∀ s, task.session? ≠ some s → task.release w s = w s := by
    intro s hs
    cases task with
    | dispatch t c =>
      have hne : s ≠ t := fun e => hs (congrArg some e.symm)
      exact Function.update_of_ne hne _ _
    | expire uid => rfl
    | mediaReply epoch signal registered message => rfl
  constructor
  · intro n s c hmem
    rw [hrelease s (hother n s c hmem)]
    exact h.waits n s c (hsub n _ hmem)
  · intro s c n hwait
    have hs : task.session? ≠ some s := by
      intro hsession
      obtain ⟨c', rfl⟩ := session?_eq_some hsession
      simp only [Task.release, Function.update_self] at hwait
      cases hwait
    rw [hrelease s hs] at hwait
    have hmem := h.placed s c n hwait
    by_cases hn : n = m
    · subst hn
      rw [Function.update_self]
      rw [ht] at hmem
      rcases List.mem_cons.mp hmem with rfl | hmem
      · exact absurd rfl hs
      · exact hmem
    · rwa [Function.update_of_ne hn]
  · intro n
    by_cases hn : n = m
    · subst hn
      rw [Function.update_self]
      rw [ht] at honce
      exact honce.sublist ((List.sublist_cons_self _ _).filterMap _)
    · rw [Function.update_of_ne hn]
      exact h.once n
  · by_cases hm : m = 0
    · subst hm
      rw [h.ordinary] at ht
      cases ht
    · rw [Function.update_of_ne (Ne.symm hm)]
      exact h.ordinary

end Placed

/-! ## The end of a connection -/

/-- The commands of a connection: the end of the connection is among them once it is closed, and it is
the last. A connection that was not accepted yet has none. -/
structure Line (accepted isOpen : Bool) (commands : List Command) : Prop where
  fresh : accepted = false → isOpen = false ∧ commands = []
  opened : isOpen = true → Command.disconnected ∉ commands
  last : isOpen = false → commands = [] ∨ ∃ cs, commands = cs ++ [.disconnected] ∧ Command.disconnected ∉ cs

namespace Line

variable {accepted isOpen : Bool} {commands : List Command}

/-- The first command is finished. -/
theorem finish {c : Command} (h : Line accepted isOpen (c :: commands)) : Line accepted isOpen commands := by
  constructor
  · intro hf
    cases (h.fresh hf).2
  · exact fun ho hmem => h.opened ho (List.mem_cons_of_mem c hmem)
  · intro ho
    rcases h.last ho with h0 | ⟨cs, hcs, hnot⟩
    · cases h0
    · cases cs with
      | nil =>
        cases hcs
        exact .inl rfl
      | cons c' cs =>
        cases hcs
        exact .inr ⟨cs, rfl, fun hmem => hnot (List.mem_cons_of_mem c hmem)⟩

/-- A request arrives. -/
theorem request (h : Line accepted true commands) (r : Request) :
    Line accepted true (commands ++ [.request r]) := by
  constructor
  · intro hf
    cases (h.fresh hf).1
  · intro ho hmem
    rcases List.mem_append.mp hmem with hold | hnew
    · exact h.opened ho hold
    · cases List.mem_singleton.mp hnew
  · intro ho
    cases ho

/-- The connection is closed. -/
theorem close (h : Line accepted true commands) : Line accepted false (commands ++ [.disconnected]) := by
  constructor
  · intro hf
    cases (h.fresh hf).1
  · intro ho
    cases ho
  · exact fun _ => .inr ⟨commands, rfl, h.opened rfl⟩

/-- After its end a connection has no command left. -/
theorem ended (h : Line accepted isOpen (.disconnected :: commands)) : isOpen = false ∧ commands = [] := by
  have hclosed : isOpen = false := by
    cases ho : isOpen with
    | false => rfl
    | true => exact absurd List.mem_cons_self (h.opened ho)
  refine ⟨hclosed, ?_⟩
  rcases h.last hclosed with h0 | ⟨cs, hcs, hnot⟩
  · cases h0
  · cases cs with
    | nil =>
      cases hcs
      rfl
    | cons c cs =>
      cases hcs
      exact absurd List.mem_cons_self hnot

end Line

end SyncRtc
