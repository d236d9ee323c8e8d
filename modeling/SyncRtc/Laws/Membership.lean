import SyncRtc.Realtime.Join

/-!
# Membership as a history of events

What a room's `members` are for, apart from how the handlers get there: a user is bound to one
session under one ticket; a RESUME moves the binding and counts it; the end of the bound connection
starts a grace period; the timer, LEAVE and END remove. The module states this as a transition system
over the events of `RoomEvent` (`RoomEvent.apply`), with the guard each event needs
(`RoomEvent.Allowed`), and derives what holds of every history all of whose guards were met
(`Legal`).

That the handlers keep to it is another matter: `SyncRtc.Laws.Recording`.
-/

set_option autoImplicit false

namespace SyncRtc

/-- The members of a room, by user. -/
abbrev Members := Uid → Option Membership

namespace RoomEvent

/-- A RESUME moves the binding to a session; a move counts. -/
def rebind (session : SessionId) (request : String) (m : Membership) : Membership :=
  { m with
    generation := if m.session = session then m.generation else m.generation + 1
    session := session
    deadline := none
    lastRequest := request }

/-- What an event does to the members. -/
def apply : RoomEvent → Members → Members
  | .joined u s token ticket, ms =>
    Function.update ms u (some { ticket := ticket, authToken := token, lastRequest := "", session := s })
  | .resumed u s _ _ request _ _, ms => Function.update ms u ((ms u).map (rebind s request))
  | .disconnected u _ time, ms =>
    Function.update ms u ((ms u).map fun m => { m with deadline := some (time + reconnectGraceSeconds) })
  | .expired u _, ms => Function.update ms u none
  | .left u, ms => Function.update ms u none
  | .ended, _ => fun _ => none

/-- What an event needs of the members before it. -/
def Allowed : RoomEvent → Members → Prop
  | .resumed u _ token ticket request known checkedAt, ms =>
    ∃ m, ms u = some m ∧ m.admits ⟨ticket, request, known⟩ token = true ∧
      ∀ d, m.deadline = some d → ∃ t, checkedAt = some t ∧ t < d
  | .disconnected u s _, ms => ∃ m, ms u = some m ∧ m.session = s
  | .expired u checkedAt, ms => ∃ m, ms u = some m ∧ ∀ d, m.deadline = some d → d ≤ checkedAt
  | _, _ => True

/-- The events that can change what is recorded of a user. -/
def Touches (u : Uid) : RoomEvent → Prop
  | .joined v _ _ _ => v = u
  | .resumed v _ _ _ _ _ _ => v = u
  | .disconnected v _ _ => v = u
  | .expired v _ => v = u
  | .left v => v = u
  | .ended => True

/-- The ticket an event issues. -/
def ticket? : RoomEvent → Option String
  | .joined _ _ _ ticket => some ticket
  | _ => none

/-- The user and the session an event binds. -/
def binds : RoomEvent → Option (Uid × SessionId)
  | .joined u s _ _ => some (u, s)
  | .resumed u s _ _ _ _ _ => some (u, s)
  | _ => none

theorem apply_of_not_touches {u : Uid} {e : RoomEvent} (h : ¬ e.Touches u) (ms : Members) :
    e.apply ms u = ms u := by
  cases e <;> first | exact absurd trivial h | exact Function.update_of_ne (Ne.symm h) _ _

end RoomEvent

/-- The members after a history, newest event first. -/
def replay : List RoomEvent → Members
  | [] => fun _ => none
  | e :: h => e.apply (replay h)

/-- A history every event of which was allowed where it happened. -/
inductive Legal : List RoomEvent → Prop where
  | nil : Legal []
  | cons {e : RoomEvent} {h : List RoomEvent} (ha : e.Allowed (replay h)) (hl : Legal h) :
      Legal (e :: h)

/-- The tickets a history has issued. -/
def tickets (h : List RoomEvent) : List String := h.filterMap RoomEvent.ticket?

/-- The containers of a room agree with their history. -/
structure RoomData.Recorded (d : RoomData) : Prop where
  legal : Legal d.history
  members : d.members = replay d.history

/-! ## Generations -/

theorem Legal.of_append {newer older : List RoomEvent} (h : Legal (newer ++ older)) : Legal older := by
  induction newer with
  | nil => exact h
  | cons e newer ih =>
    cases h with
    | cons _ hl => exact ih hl

/-- What an event in the middle of a legal history was allowed by. -/
theorem Legal.allowed {newer older : List RoomEvent} {e : RoomEvent}
    (h : Legal (newer ++ e :: older)) : e.Allowed (replay older) := by
  cases h.of_append with
  | cons ha _ => exact ha

/-- A member has a deadline exactly when the disconnect of the session it is bound to is the last
event that touched it; the deadline is the grace period after it. -/
theorem deadline_of_replay {u : Uid} {m : Membership} {d : Nat} :
    ∀ {h : List RoomEvent}, Legal h → replay h u = some m → m.deadline = some d →
      ∃ newer older time, h = newer ++ .disconnected u m.session time :: older ∧
        d = time + reconnectGraceSeconds ∧ ∀ e ∈ newer, ¬ e.Touches u
  | [], _, hm, _ => by cases hm
  | e :: h, hl, hm, hd => by
    cases hl with
    | cons ha hl =>
    by_cases hu : e.Touches u
    · cases e with
      | joined v s' token' ticket' =>
        cases (show v = u from hu)
        simp only [replay, RoomEvent.apply, Function.update_self, Option.some.injEq] at hm
        subst hm
        cases hd
      | resumed v s' token' ticket' request known checkedAt =>
        cases (show v = u from hu)
        simp only [replay, RoomEvent.apply, Function.update_self, Option.map_eq_some_iff] at hm
        obtain ⟨m₀, -, rfl⟩ := hm
        cases hd
      | disconnected v s' time =>
        cases (show v = u from hu)
        simp only [replay, RoomEvent.apply, Function.update_self, Option.map_eq_some_iff] at hm
        obtain ⟨m₀, hm₀, rfl⟩ := hm
        obtain ⟨m₁, hm₁, hs⟩ := ha
        rw [hm₀, Option.some.injEq] at hm₁
        subst hm₁
        refine ⟨[], h, time, ?_, (Option.some.inj hd).symm, by simp⟩
        rw [List.nil_append, ← hs]
      | expired v checkedAt =>
        cases (show v = u from hu)
        simp [replay, RoomEvent.apply] at hm
      | left v =>
        cases (show v = u from hu)
        simp [replay, RoomEvent.apply] at hm
      | ended => simp [replay, RoomEvent.apply] at hm
    · rw [replay, RoomEvent.apply_of_not_touches hu] at hm
      obtain ⟨newer, older, time, rfl, hd', hq⟩ := deadline_of_replay hl hm hd
      refine ⟨e :: newer, older, time, rfl, hd', ?_⟩
      intro x hx
      rcases List.mem_cons.mp hx with rfl | hx
      · exact hu
      · exact hq x hx

end SyncRtc
