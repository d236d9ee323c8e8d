import Mathlib.Logic.Basic

/-!
# Wake-ups behind a flag

A producer that hands something over sets a flag under a lock, and posts an event to the consumer's queue only if the
flag was clear. The event is posted after the lock is given back. The consumer takes an event off its queue, and
clears the flag when it has the lock. Whoever resets the consumer may clear the flag too, and leave events behind.

The flag is set only while an event is owed, queued or being taken: this is what keeps a wake-up from being lost.
-/

set_option autoImplicit false

namespace SyncRtc

structure Wakeup where
  scheduled : Bool := false
  /-- The producers that have found the flag clear and are still to post their event. -/
  posting : Nat := 0
  /-- The events in the consumer's queue. -/
  queued : Nat := 0
  /-- The consumer has taken an event and is still to get the lock. -/
  entered : Bool := false
  deriving DecidableEq

namespace Wakeup

/-- Under the lock: something was handed over. -/
def request (w : Wakeup) : Wakeup :=
  if w.scheduled then w else { w with scheduled := true, posting := w.posting + 1 }

/-- A producer posts the event it owes. -/
def post (w : Wakeup) : Option Wakeup :=
  if w.posting = 0 then none else some { w with posting := w.posting - 1, queued := w.queued + 1 }

/-- The consumer takes an event off its queue. -/
def enter (w : Wakeup) : Option Wakeup :=
  if w.queued = 0 ∨ w.entered = true then none else some { w with queued := w.queued - 1, entered := true }

/-- Under the lock: the consumer answers to what was handed over. -/
def answer (w : Wakeup) : Wakeup := { w with scheduled := false, entered := false }

/-- Under the lock: the flag is cleared from outside. -/
def reset (w : Wakeup) : Wakeup := { w with scheduled := false }

/-- An event is owed, queued or being taken. -/
def Pending (w : Wakeup) : Prop := 0 < w.posting ∨ 0 < w.queued ∨ w.entered = true

/-- No wake-up is lost. -/
def Sound (w : Wakeup) : Prop := w.scheduled = true → w.Pending

theorem sound_start : Sound {} := nofun

theorem Sound.request {w : Wakeup} (h : w.Sound) : w.request.Sound := by
  unfold Wakeup.request
  split
  · exact h
  · exact fun _ => .inl (Nat.succ_pos _)

/-- After a request the flag is set. -/
@[simp] theorem scheduled_request (w : Wakeup) : w.request.scheduled = true := by
  unfold request
  split
  · assumption
  · rfl

@[simp] theorem entered_request (w : Wakeup) : w.request.entered = w.entered := by
  unfold request
  split <;> rfl

theorem Sound.post {w w' : Wakeup} (h : w.post = some w') : w'.Sound := by
  unfold Wakeup.post at h
  split at h
  · cases h
  · cases h
    exact fun _ => .inr (.inl (Nat.succ_pos _))

theorem Sound.enter {w w' : Wakeup} (h : w.enter = some w') : w'.Sound := by
  unfold Wakeup.enter at h
  split at h
  · cases h
  · cases h
    exact fun _ => .inr (.inr rfl)

theorem sound_answer (w : Wakeup) : w.answer.Sound := nofun

theorem sound_reset (w : Wakeup) : w.reset.Sound := nofun

theorem scheduled_post {w w' : Wakeup} (h : w.post = some w') : w'.scheduled = w.scheduled := by
  unfold post at h
  split at h
  · cases h
  · cases h
    rfl

theorem entered_post {w w' : Wakeup} (h : w.post = some w') : w'.entered = w.entered := by
  unfold post at h
  split at h
  · cases h
  · cases h
    rfl

theorem scheduled_enter {w w' : Wakeup} (h : w.enter = some w') : w'.scheduled = w.scheduled := by
  unfold enter at h
  split at h
  · cases h
  · cases h
    rfl

theorem entered_enter {w w' : Wakeup} (h : w.enter = some w') : w'.entered = true := by
  unfold enter at h
  split at h
  · cases h
  · cases h
    rfl

/-! ## What is fed in runs -/

/-- A consumer is started and stopped, and what is handed over bears the number of the run it was handed over in.
While it accepts, it is scheduled for whatever is pending of the current run. What a stop has left, or what came in
after it, may be pending and wait for no one. -/
structure Fed {α : Type} (accepting : Bool) (pending : List (Nat × α)) (runs : Nat) (w : Wakeup) : Prop where
  wake : w.Sound
  past : ∀ b ∈ pending, b.1 ≤ runs
  scheduled : accepting = true → ∀ b ∈ pending, b.1 = runs → w.scheduled = true

section

variable {α : Type} {accepting : Bool} {pending pending' : List (Nat × α)} {runs : Nat} {w w' : Wakeup}

theorem fed_start : Fed (α := α) false [] 0 {} :=
  ⟨sound_start, fun _ hb => absurd hb List.not_mem_nil, fun _ _ hb => absurd hb List.not_mem_nil⟩

/-- Something is handed over, and something else perhaps dropped for it. -/
theorem Fed.request (h : Fed accepting pending runs w) (hpending : ∀ b ∈ pending', b ∈ pending ∨ b.1 = runs) :
    Fed accepting pending' runs w.request := by
  refine ⟨h.wake.request, fun b hb => ?_, fun _ _ _ _ => scheduled_request w⟩
  rcases hpending b hb with hb | hb
  · exact h.past b hb
  · exact Nat.le_of_eq hb

theorem Fed.post (h : Fed accepting pending runs w) (hpost : w.post = some w') : Fed accepting pending runs w' := by
  refine ⟨Sound.post hpost, h.past, fun ha b hb hrun => ?_⟩
  rw [scheduled_post hpost]
  exact h.scheduled ha b hb hrun

theorem Fed.enter (h : Fed accepting pending runs w) (henter : w.enter = some w') : Fed accepting pending runs w' := by
  refine ⟨Sound.enter henter, h.past, fun ha b hb hrun => ?_⟩
  rw [scheduled_enter henter]
  exact h.scheduled ha b hb hrun

/-- The consumer takes all there is. -/
theorem fed_taken (accepting : Bool) (runs : Nat) (w : Wakeup) : Fed (α := α) accepting [] runs w.answer :=
  ⟨sound_answer w, fun _ hb => absurd hb List.not_mem_nil, fun _ _ hb => absurd hb List.not_mem_nil⟩

/-- The consumer accepts nothing, and leaves what there is. -/
theorem Fed.refused (h : Fed false pending runs w) : Fed false pending runs w.answer :=
  ⟨sound_answer w, h.past, nofun⟩

/-- A new run begins. -/
theorem Fed.start (h : Fed accepting pending runs w) : Fed true pending (runs + 1) w := by
  refine ⟨h.wake, fun b hb => Nat.le_succ_of_le (h.past b hb), fun _ b hb hrun => ?_⟩
  have hle := h.past b hb
  omega

/-- The run ends. -/
theorem fed_stopped (runs : Nat) (w : Wakeup) : Fed (α := α) false [] runs w.reset :=
  ⟨sound_reset w, fun _ hb => absurd hb List.not_mem_nil, nofun⟩

/-- No wake-up of the current run is lost. -/
theorem Fed.heard (h : Fed accepting pending runs w) (ha : accepting = true) (hb : ∃ b ∈ pending, b.1 = runs) :
    w.Pending := by
  obtain ⟨b, hmem, hrun⟩ := hb
  exact h.wake (h.scheduled ha b hmem hrun)

end

end Wakeup

end SyncRtc
