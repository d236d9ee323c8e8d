import SyncRtc.Lib.Descent
import SyncRtc.Laws.AiCalls
import SyncRtc.Realtime.LogicSystem

/-!
# The books of the business layer

Everything the business layer still has to do, as a multiset of items: an accepted command, an operation, a promise
of a room to resume the operation that handed it a command, a slow step, a completion on its way, a closing handler.
Where an item waits, on which strand, in which line, makes no difference here. Each rule of `Step` takes one item out
and puts in what becomes of it, and says what happens to the counters the code keeps.

Three laws of these books carry the drain. The counters count (`Sound`): the scheduler's `m_pending` is the number of
commands, operations and closing handlers. Every suspended operation has exactly one thing that will resume it, and
nothing else is under way. And every rule makes something smaller (`step_descends`).
-/

set_option autoImplicit false

namespace SyncRtc

open Prog SerialCommandQueue

inductive Item where
  /-- On its way to its queue, or in it (`queued`). -/
  | entry (e : Entry) (queued : Bool)
  | operation (queue : Nat) (op : Operation)
  /-- `done` of a command that a room has accepted. -/
  | promised (c : Completion)
  /-- In the line of a pool, or with one of its threads (`taken`). -/
  | slow (t : SlowTask) (taken : Bool)
  /-- A completion, `left` steps of a pool's thread before its strand. -/
  | ready (c : Completion) (left : Nat)
  /-- The handler at the end of an operation, or what it has left to do (`begun`). -/
  | closing (begun : Bool)

/-- The items, and the counters the code and the ghosts keep of them. -/
structure Books where
  items : Multiset Item
  pending : Nat
  reserved : PoolName → Nat
  accepted : Multiset Job
  finished : Multiset Job

/-! ## What the counters count -/

namespace Item

/-- What `BusinessScheduler::m_pending` counts. -/
def counted : Item → Nat
  | .entry _ _ | .operation _ _ | .closing _ => 1
  | _ => 0

/-- The places in a pool that `m_reserved` counts. -/
def holds (p : PoolName) : Item → Nat
  | .operation _ op => op.reserved.count p
  | _ => 0

def waits : Item → Multiset Suspension
  | .operation i op =>
    match op.stage with
    | .suspended handed => {{ queue := i, op := op.id, phase := op.phase, handed, terminal := op.entry.terminal }}
    | _ => 0
  | _ => 0

def wakes : Item → Multiset Suspension
  | .promised c | .ready c _ => {c.wait}
  | .slow t _ => {t.wait}
  | _ => 0

/-- The job that has not ended yet. -/
def live : Item → Multiset Job
  | .entry e _ => {e.job}
  | .operation _ op =>
    match op.stage with
    | .finishing | .leaving => 0
    | _ => {op.entry.job}
  | _ => 0

end Item

/-! ## What is true of each item -/

/-- Only rooms are waited for, and the end of something never asks AIServer. -/
structure SerialCommandQueue.Entry.Good (e : Entry) : Prop where
  done : ∀ c, e.done = some c → ∃ m task, e.job = .room m task
  body : e.terminal = true → e.job.body.Makes NoAi

def SerialCommandQueue.Operation.StageGood (op : Operation) : Prop :=
  match op.stage with
  | .running body => op.entry.terminal = true → body.Makes NoAi
  | .retrying p body => op.entry.terminal = true ∧ p ∉ op.reserved ∧ body.Makes NoAi ∧ body.next?.bind Call.pool = some p
  | .suspended handed => handed = true → op.reserved = [] ∧ op.entry.job.waits = true
  | .finishing | .leaving => op.reserved = [] ∧ op.entry.done = none

def Completion.Good (c : Completion) : Prop := c.wait.terminal = true → c.next.Makes NoAi

def Item.Good : Item → Prop
  | .entry e _ => e.Good
  | .operation _ op => op.entry.Good ∧ op.StageGood
  | .promised c => c.wait.handed = true ∧ c.Good
  | .slow t _ => t.wait.handed = false ∧ (t.wait.terminal = true → ∀ r, (t.next r).Makes NoAi)
  | .ready c _ => c.Good
  | .closing _ => True

/-- The counters count, each suspended operation has one thing that resumes it, and each item is good. -/
structure Books.Sound (b : Books) : Prop where
  pending : b.pending = (b.items.map Item.counted).sum
  reserved : ∀ p, b.reserved p = (b.items.map (Item.holds p)).sum
  waits : b.items.bind Item.waits = b.items.bind Item.wakes
  jobs : b.accepted = b.finished + b.items.bind Item.live
  good : ∀ x ∈ b.items, x.Good

/-! ## The rules -/

namespace Books

def put (b : Books) (items : Multiset Item) : Books := { b with items }

def setReserved (b : Books) (p : PoolName) (n : Nat) : Books := { b with reserved := Function.update b.reserved p n }

/-- One more command: the scheduler counts it. -/
def accept (b : Books) (job : Job) : Books := { b with pending := b.pending + 1, accepted := job ::ₘ b.accepted }

def record (b : Books) (job : Job) : Books := { b with finished := job ::ₘ b.finished }

/-- What a step of the business layer does to the books. -/
inductive Step : Books → Books → Prop where
  | queue {b : Books} {s} (e : Entry) : Step (b.put (.entry e false ::ₘ s)) (b.put (.entry e true ::ₘ s))
  | start {b : Books} {s} (e : Entry) (i id : Nat) :
      Step (b.put (.entry e true ::ₘ s)) (b.put (.operation i (.start id e) ::ₘ s))
  /-- A call is answered at once. -/
  | call {b : Books} {s} (i : Nat) (op : Operation) (c : Call) (k : c.Res → Op Unit) (r : c.Res)
      (h : op.stage = .running (.call c k)) :
      Step (b.put (.operation i op ::ₘ s)) (b.put (.operation i (op.run (k r)) ::ₘ s))
  | retry {b : Books} {s} (i : Nat) (op : Operation) (p : PoolName) (body : Op Unit) (h : op.stage = .running body)
      (hpool : body.next?.bind Call.pool = some p) (hnot : p ∉ op.reserved) (hterm : op.entry.terminal = true) :
      Step (b.put (.operation i op ::ₘ s)) (b.put (.operation i { op with stage := .retrying p body } ::ₘ s))
  | reserve {b : Books} {s} (i : Nat) (op : Operation) (p : PoolName) (body : Op Unit)
      (h : op.stage = .running body ∨ op.stage = .retrying p body) (hpool : body.next?.bind Call.pool = some p)
      (hnot : p ∉ op.reserved) :
      Step (b.put (.operation i op ::ₘ s))
        ((b.put (.operation i { op with reserved := op.reserved ++ [p], stage := .running body } ::ₘ s)).setReserved p
          (b.reserved p + 1))
  | release {b : Books} {s} (i : Nat) (op : Operation) (p : PoolName) (rest : List PoolName) (body : Op Unit)
      (h : op.stage = .running body) (hpool : body.next?.bind Call.pool = none) (hres : op.reserved = p :: rest) :
      Step (b.put (.operation i op ::ₘ s))
        ((b.put (.operation i { op with reserved := rest } ::ₘ s)).setReserved p (b.reserved p - 1))
  | await {b : Books} {s} (i : Nat) (op : Operation) (c : Call) (k : c.Res → Op Unit) (h : op.stage = .running (.call c k)) :
      Step (b.put (.operation i op ::ₘ s))
        (b.put (.operation i (op.suspend false) ::ₘ .slow ⟨op.wait i false, c, k⟩ false ::ₘ s))
  /-- A `Wait` whose closure is called at once. -/
  | refuse {b : Books} {s} (i : Nat) (op : Operation) (c : Call) (k : c.Res → Op Unit) (r : c.Res) (handed : Bool)
      (h : op.stage = .running (.call c k)) (hfree : handed = true → op.reserved = [] ∧ op.entry.job.waits = true) :
      Step (b.put (.operation i op ::ₘ s))
        (b.put (.operation i (op.suspend handed) ::ₘ .ready ⟨op.wait i handed, k r⟩ 0 ::ₘ s))
  /-- A command is handed to a room, which promises to resume the operation. -/
  | hand {b : Books} {s} (i : Nat) (op : Operation) (m : MeetingId) (task : Task) (k : Bool → Op Unit) (bytes : Nat)
      (h : op.stage = .running (.call (.submitRoom m task) k)) (hres : op.reserved = [])
      (hwaits : op.entry.job.waits = true) :
      Step (b.put (.operation i op ::ₘ s))
        ((b.put (.operation i (op.suspend true) ::ₘ .promised ⟨op.wait i true, k true⟩ ::ₘ
          .entry ⟨.room m task, some ⟨op.wait i true, k true⟩, (Job.room m task).terminal, bytes⟩ false ::ₘ s)).accept
          (.room m task))
  /-- A task is handed to a room, and nobody waits. -/
  | spawn {b : Books} {s} (i : Nat) (op : Operation) (m : MeetingId) (task : Task) (k : Bool → Op Unit) (bytes : Nat)
      (h : op.stage = .running (.call (.submitRoom m task) k)) :
      Step (b.put (.operation i op ::ₘ s))
        ((b.put (.operation i (op.run (k true)) ::ₘ
          .entry ⟨.room m task, none, (Job.room m task).terminal, bytes⟩ false ::ₘ s)).accept (.room m task))
  | take {b : Books} {s} (t : SlowTask) : Step (b.put (.slow t false ::ₘ s)) (b.put (.slow t true ::ₘ s))
  /-- A slow step returns. -/
  | work {b : Books} {s} (t : SlowTask) (r : t.work.Res) :
      Step (b.put (.slow t true ::ₘ s)) (b.put (.ready ⟨t.wait, t.next r⟩ 2 ::ₘ s))
  | pass {b : Books} {s} (c : Completion) (left : Nat) :
      Step (b.put (.ready c (left + 1) ::ₘ s)) (b.put (.ready c left ::ₘ s))
  /-- `done` is called. -/
  | keep {b : Books} {s} (c : Completion) : Step (b.put (.promised c ::ₘ s)) (b.put (.ready c 0 ::ₘ s))
  | resume {b : Books} {s} (i : Nat) (op : Operation) (c : Completion) (handed : Bool) (h : op.stage = .suspended handed)
      (hwait : c.wait = { queue := i, op := op.id, phase := op.phase, handed, terminal := op.entry.terminal }) :
      Step (b.put (.ready c 0 ::ₘ .operation i op ::ₘ s)) (b.put (.operation i (op.run c.next) ::ₘ s))
  | finish {b : Books} {s} (i : Nat) (op : Operation) (h : op.stage = .running (.pure ())) (hres : op.reserved = []) :
      Step (b.put (.operation i op ::ₘ s))
        ((b.put (.operation i op.ended ::ₘ s)).record op.entry.job)
  | settle {b : Books} {s} (i : Nat) (op : Operation) (h : op.stage = .finishing) :
      Step (b.put (.operation i op ::ₘ s)) (b.put (.operation i { op with stage := .leaving } ::ₘ s))
  | leave {b : Books} {s} (i : Nat) (op : Operation) (h : op.stage = .leaving) :
      Step (b.put (.operation i op ::ₘ s)) (b.put (.closing false ::ₘ s))
  | close {b : Books} {s} : Step (b.put (.closing false ::ₘ s)) (b.put (.closing true ::ₘ s))
  | free {b : Books} {s} : Step (b.put (.closing true ::ₘ s)) { b.put s with pending := b.pending - 1 }

/-- A command of the outside is accepted. -/
inductive Admit : Books → Books → Prop where
  | mk {b : Books} {s} (job : Job) (bytes : Nat) :
      Admit (b.put s) ((b.put (.entry ⟨job, none, job.terminal, bytes⟩ false ::ₘ s)).accept job)

end Books

/-! ## The programs of the jobs -/

theorem terminal_noAi {job : Job} (h : job.terminal = true) : job.body.Makes NoAi := by
  have hend (m : MeetingId) (s : SessionId) : (dispatch m s .disconnected).Makes Indoor :=
    indoor_dispatch fun _ hr => nomatch hr
  cases job with
  | connection s command =>
    cases command with
    | request r => cases h
    | disconnected =>
      refine (makes_route (fun _ => everyday_noAi) ?_).bind fun _ => trivial
      exact (hend 0 s).mono fun _ hc => everyday_noAi hc.everyday
  | room m task =>
    cases task with
    | dispatch s command =>
      cases command with
      | request r => cases h
      | disconnected => exact (hend m s).mono fun _ hc => everyday_noAi hc.everyday
    | _ => cases h
  | timer => cases h
  | control event epoch message => exact (everyday_controlOp event epoch message).mono fun _ => everyday_noAi

theorem offer_noHandOver {s : SessionId} (body : Payload) : (mediaOfferHandler s body).Makes NoHandOver := by
  unfold mediaOfferHandler mediaOfferBody publishChecks
  repeat' first
    | exact trivial | split | exact ⟨fun _ _ h => nomatch h, fun _ => trivial⟩ | dsimp only
    | refine Makes.step (fun _ _ h => nomatch h) fun _ => ?_ | refine Makes.bind ?_ fun _ => ?_

theorem indoor_noHandOver {c : Call} (h : Indoor c) : NoHandOver c := by
  rintro m task rfl
  exact h.elim

/-- A room hands nothing on. -/
theorem task_noHandOver (m : MeetingId) (task : Task) : (task.op m).Makes NoHandOver := by
  cases task with
  | dispatch s command =>
    cases command with
    | disconnected =>
      have hend : (dispatch m s .disconnected).Makes Indoor := indoor_dispatch fun _ hr => nomatch hr
      exact hend.mono fun _ => indoor_noHandOver
    | request r =>
      refine makes_dispatch (fun _ => indoor_noHandOver) ?_
      by_cases hai : r.id = .aiAskRequest
      · unfold handle
        rw [hai]
        refine (makes_ai r.body).mono ?_
        rintro _ hc n task rfl
        exact hc
      · by_cases hoffer : r.id = .mediaOfferRequest
        · unfold handle
          rw [hoffer]
          exact offer_noHandOver _
        · exact (indoor_handle fun hs => hs.elim hai hoffer).mono fun _ => indoor_noHandOver
  | expire uid => exact (indoor_expire uid).mono fun _ => indoor_noHandOver
  | mediaReply epoch id registered message =>
    exact (indoor_mediaReply epoch id registered message).mono fun _ => indoor_noHandOver

/-! ## The books stay sound -/

namespace Books

variable {b b' : Books}

/-- The fields that the rules move. -/
theorem counted_step (h : b.Step b') (hb : b.pending = (b.items.map Item.counted).sum) :
    b'.pending = (b'.items.map Item.counted).sum := by
  cases h <;> simp only [put, accept, setReserved, record, Multiset.map_cons, Multiset.sum_cons, Item.counted] at hb ⊢ <;> omega

theorem reserved_step (h : b.Step b') (hgood : ∀ x ∈ b.items, x.Good) (p : PoolName)
    (hb : b.reserved p = (b.items.map (Item.holds p)).sum) : b'.reserved p = (b'.items.map (Item.holds p)).sum := by
  cases h with
  | reserve i op q body _ _ hnot =>
    simp only [put, setReserved, Multiset.map_cons, Multiset.sum_cons, Item.holds] at hb ⊢
    rcases eq_or_ne p q with rfl | hne
    · rw [Function.update_self, List.count_append, List.count_singleton_self]
      omega
    · rw [Function.update_of_ne hne, List.count_append, List.count_singleton, hb]
      simp [hne.symm]
  | release i op q rest body _ _ hres =>
    simp only [put, setReserved, Multiset.map_cons, Multiset.sum_cons, Item.holds, hres] at hb ⊢
    rcases eq_or_ne p q with rfl | hne
    · rw [Function.update_self]
      rw [List.count_cons_self] at hb
      omega
    · rw [Function.update_of_ne hne, hb, List.count_cons_of_ne hne.symm]
  | leave i op hstage =>
    have hop := (hgood _ (Multiset.mem_cons_self _ _)).2
    simp only [Operation.StageGood, hstage] at hop
    simp only [put, Multiset.map_cons, Multiset.sum_cons, Item.holds, hop.1, List.count_nil] at hb ⊢
    exact hb
  | _ =>
    simp only [put, accept, record, Multiset.map_cons, Multiset.sum_cons, Item.holds, Operation.start, Operation.run,
      Operation.suspend, Operation.ended, List.count_nil, zero_add] at hb ⊢
    exact hb

theorem waits_step (h : b.Step b') (hb : b.items.bind Item.waits = b.items.bind Item.wakes) :
    b'.items.bind Item.waits = b'.items.bind Item.wakes := by
  cases h with
  | resume i op c handed h hwait =>
    simp only [put, Multiset.cons_bind, Item.waits, Item.wakes, h, hwait, Operation.run, zero_add] at hb ⊢
    exact add_left_cancel hb
  | reserve i op p body h => rcases h with h | h <;> simp_all [put, setReserved, Item.waits, Item.wakes]
  | _ =>
    simp_all [put, accept, setReserved, record, Item.waits, Item.wakes, Operation.start, Operation.run,
      Operation.suspend, Operation.ended, Operation.wait]

theorem jobs_step (h : b.Step b') (hb : b.accepted = b.finished + b.items.bind Item.live) :
    b'.accepted = b'.finished + b'.items.bind Item.live := by
  cases h with
  | reserve i op p body h => rcases h with h | h <;> simp_all [put, setReserved, Item.live]
  | _ => simp_all [put, accept, setReserved, record, Item.live, Operation.start, Operation.run, Operation.suspend, Operation.ended]

theorem good_room {m : MeetingId} {task : Task} {done : Option Completion} {bytes : Nat} :
    (⟨.room m task, done, (Job.room m task).terminal, bytes⟩ : Entry).Good :=
  ⟨fun _ _ => ⟨m, task, rfl⟩, terminal_noAi⟩

/-- What a running operation does next, its end included. -/
theorem good_running {op : Operation} {body : Op Unit} (h : op.stage = .running body) (hop : op.StageGood) :
    op.entry.terminal = true → body.Makes NoAi := by
  simpa only [Operation.StageGood, h] using hop

/-- One item becomes another. -/
theorem good_swap {x y : Item} {s : Multiset Item} (h : ∀ z ∈ x ::ₘ s, z.Good) (hxy : x.Good → y.Good) :
    ∀ z ∈ y ::ₘ s, z.Good := by
  obtain ⟨hx, hs⟩ := Multiset.forall_mem_cons.mp h
  exact Multiset.forall_mem_cons.mpr ⟨hxy hx, hs⟩

theorem good_step (h : b.Step b') (hb : ∀ x ∈ b.items, x.Good) : ∀ x ∈ b'.items, x.Good := by
  cases h with
  | queue e => exact good_swap hb fun he => he
  | start e i id => exact good_swap hb fun he => ⟨he, he.body⟩
  | call i op c k r h =>
    refine good_swap hb ?_
    rintro ⟨he, hop⟩
    exact ⟨he, fun ht => (good_running h hop ht).2 r⟩
  | retry i op p body h hpool hnot hterm =>
    refine good_swap hb ?_
    rintro ⟨he, hop⟩
    exact ⟨he, hterm, hnot, good_running h hop hterm, hpool⟩
  | reserve i op p body h hpool hnot =>
    refine good_swap hb ?_
    rintro ⟨he, hop⟩
    rcases h with h | h
    · have hbody := good_running h hop
      exact ⟨he, hbody⟩
    · simp only [Operation.StageGood, h] at hop
      exact ⟨he, fun _ => hop.2.2.1⟩
  | release i op p rest body h hpool hres =>
    refine good_swap hb ?_
    rintro ⟨he, hop⟩
    refine ⟨he, ?_⟩
    simp only [Operation.StageGood, h] at hop ⊢
    exact hop
  | await i op c k h =>
    obtain ⟨⟨he, hop⟩, hs⟩ := Multiset.forall_mem_cons.mp hb
    refine Multiset.forall_mem_cons.mpr ⟨⟨he, nofun⟩, Multiset.forall_mem_cons.mpr ⟨⟨rfl, ?_⟩, hs⟩⟩
    exact fun ht => (good_running h hop ht).2
  | refuse i op c k r handed h hfree =>
    obtain ⟨⟨he, hop⟩, hs⟩ := Multiset.forall_mem_cons.mp hb
    refine Multiset.forall_mem_cons.mpr ⟨⟨he, hfree⟩, Multiset.forall_mem_cons.mpr ⟨?_, hs⟩⟩
    exact fun ht => (good_running h hop ht).2 r
  | hand i op m task k bytes h hres hwaits =>
    obtain ⟨⟨he, hop⟩, hs⟩ := Multiset.forall_mem_cons.mp hb
    refine Multiset.forall_mem_cons.mpr ⟨⟨he, fun _ => ⟨hres, hwaits⟩⟩, Multiset.forall_mem_cons.mpr ⟨⟨rfl, ?_⟩, ?_⟩⟩
    · exact fun ht => (good_running h hop ht).2 true
    · exact Multiset.forall_mem_cons.mpr ⟨good_room, hs⟩
  | spawn i op m task k bytes h =>
    obtain ⟨⟨he, hop⟩, hs⟩ := Multiset.forall_mem_cons.mp hb
    refine Multiset.forall_mem_cons.mpr ⟨⟨he, ?_⟩, Multiset.forall_mem_cons.mpr ⟨good_room, hs⟩⟩
    exact fun ht => (good_running h hop ht).2 true
  | take t => exact good_swap hb fun ht => ht
  | work t r => exact good_swap hb fun ht hterm => ht.2 hterm r
  | pass c left => exact good_swap hb fun hc => hc
  | keep c => exact good_swap hb fun hc => hc.2
  | resume i op c handed h hwait =>
    obtain ⟨hc, hrest⟩ := Multiset.forall_mem_cons.mp hb
    have hnext : c.wait.terminal = true → c.next.Makes NoAi := hc
    rw [hwait] at hnext
    exact good_swap hrest fun hop => ⟨hop.1, hnext⟩
  | finish i op h hres => exact good_swap hb fun hop => ⟨⟨nofun, hop.1.body⟩, hres, rfl⟩
  | settle i op h =>
    refine good_swap hb ?_
    rintro ⟨he, hop⟩
    simp only [Operation.StageGood, h] at hop
    exact ⟨he, hop⟩
  | leave i op h => exact good_swap hb fun _ => trivial
  | close => exact good_swap hb fun hx => hx
  | free => exact (Multiset.forall_mem_cons.mp hb).2

theorem Sound.step (hb : b.Sound) (h : b.Step b') : b'.Sound where
  pending := counted_step h hb.pending
  reserved p := reserved_step h hb.good p (hb.reserved p)
  waits := waits_step h hb.waits
  jobs := jobs_step h hb.jobs
  good := good_step h hb.good

theorem Sound.admit (hb : b.Sound) (h : b.Admit b') : b'.Sound := by
  obtain ⟨job, bytes⟩ := h
  refine ⟨?_, ?_, ?_, ?_, ?_⟩
  · have hpending := hb.pending
    simp only [put, accept, Multiset.map_cons, Multiset.sum_cons, Item.counted] at hpending ⊢
    omega
  · intro p
    have hreserved := hb.reserved p
    simpa only [put, accept, Multiset.map_cons, Multiset.sum_cons, Item.holds, zero_add] using hreserved
  · have hwaits := hb.waits
    simpa only [put, accept, Multiset.cons_bind, Item.waits, Item.wakes, zero_add] using hwaits
  · have hjobs := hb.jobs
    simp_all [put, accept, Item.live]
  · exact Multiset.forall_mem_cons.mpr ⟨⟨nofun, terminal_noAi⟩, hb.good⟩

/-! ## Every rule makes something smaller -/

/-- A program that may hand something over goes before one that may not, and a chore before neither. -/
noncomputable def level (body : Op Unit) : Nat :=
  open Classical in if body.Makes NoHandOver then 1 else 2

theorem level_pos (body : Op Unit) : 0 < level body := by
  unfold level
  split <;> omega

theorem level_child {p q : Op Unit} (h : Child p q) : level p ≤ level q := by
  unfold level
  by_cases hq : q.Makes NoHandOver
  · rw [if_pos hq, if_pos (hq.child h)]
  · rw [if_neg hq]
    split <;> omega

end Books

/-- How much work an item is: the program it will run, how far it is from a step of the program, and how far from the
next thing in it. A chore has no program. -/
structure Token where
  level : Nat
  body : Op Unit
  stage : Nat
  left : Nat

namespace Token

/-- The order of the four, the first one first. -/
inductive Less : Token → Token → Prop where
  | level {l l' : Nat} {p p' : Op Unit} {s s' k k' : Nat} (h : l < l') : Less ⟨l, p, s, k⟩ ⟨l', p', s', k'⟩
  | body {l : Nat} {p p' : Op Unit} {s s' k k' : Nat} (h : Child p p') : Less ⟨l, p, s, k⟩ ⟨l, p', s', k'⟩
  | stage {l : Nat} {p : Op Unit} {s s' k k' : Nat} (h : s < s') : Less ⟨l, p, s, k⟩ ⟨l, p, s', k'⟩
  | left {l : Nat} {p : Op Unit} {s k k' : Nat} (h : k < k') : Less ⟨l, p, s, k⟩ ⟨l, p, s, k'⟩

theorem less_wellFounded : WellFounded Less := by
  let key : Token → Nat × Op Unit × Nat × Nat := fun t => (t.level, t.body, t.stage, t.left)
  have hlex : WellFounded (Prod.Lex (· < ·) (Prod.Lex Child (Prod.Lex (· < ·) (· < · : Nat → Nat → Prop))) :
      Nat × Op Unit × Nat × Nat → Nat × Op Unit × Nat × Nat → Prop) :=
    WellFounded.prod_lex Nat.lt_wfRel.wf
      (WellFounded.prod_lex child_wellFounded (WellFounded.prod_lex Nat.lt_wfRel.wf Nat.lt_wfRel.wf))
  refine Subrelation.wf ?_ (InvImage.wf key hlex)
  rintro _ _ (h | h | h | h)
  · exact .left _ _ h
  · exact .right _ (.left _ _ h)
  · exact .right _ (.right _ (.left _ _ h))
  · exact .right _ (.right _ (.right _ h))

end Token

namespace Books

/-- A program, `stage` steps of the scheduler before it goes on. -/
noncomputable def token (body : Op Unit) (stage left : Nat) : Token := ⟨level body, body, stage, left⟩

def chore (stage : Nat) : Token := ⟨0, .pure (), stage, 0⟩

theorem less_child {p q : Op Unit} (h : Child p q) (s s' k k' : Nat) : (token p s k).Less (token q s' k') := by
  rcases (level_child h).lt_or_eq with hlt | heq
  · exact .level hlt
  · unfold token
    rw [heq]
    exact .body h

theorem less_chore (n : Nat) (body : Op Unit) (s k : Nat) : (chore n).Less (token body s k) := .level (level_pos body)

theorem less_stage (body : Op Unit) {s s' : Nat} (h : s < s') (k k' : Nat) : (token body s k).Less (token body s' k') :=
  .stage h

theorem less_left (body : Op Unit) (s : Nat) {k k' : Nat} (h : k < k') : (token body s k).Less (token body s k') := .left h

theorem less_chores {n n' : Nat} (h : n < n') : (chore n).Less (chore n') := .stage h

/-- How far a running operation is from its next call: it has to take a place, or to give its places up. -/
def pressure (reserved : List PoolName) (body : Op Unit) : Nat :=
  match body.next?.bind Call.pool with
  | some p => if p ∈ reserved then 0 else 2
  | none => reserved.length

/-- A suspended operation is no work: what resumes it is. -/
noncomputable def tokens : Item → Multiset Token
  | .entry e queued => {token e.job.body (if queued then 7 else 8) 0}
  | .operation _ op =>
    match op.stage with
    | .running body => {token body 2 (pressure op.reserved body)}
    | .retrying _ body => {token body 2 1}
    | .suspended _ => 0
    | .finishing => {chore 3}
    | .leaving => {chore 2}
  | .promised c => {token c.next 6 0}
  | .slow t taken => {token (.call t.work t.next) (if taken then 0 else 1) 0}
  | .ready c left => {token c.next (3 + left) 0}
  | .closing begun => {chore (if begun then 0 else 1)}

section

variable {x y z w : Item} {s : Multiset Item} {t : Token}

/-- One item is exchanged for smaller ones. -/
theorem cut {new : Multiset Item} (hx : tokens x = {t}) (hnew : ∀ u ∈ new.bind tokens, u.Less t) :
    Relation.CutExpand Token.Less ((new + s).bind tokens) ((x ::ₘ s).bind tokens) := by
  rw [Multiset.add_bind, Multiset.cons_bind, hx, add_comm _ (s.bind tokens), add_comm _ (s.bind tokens)]
  exact (Relation.cutExpand_add_left _).mpr (Relation.cutExpand_singleton hnew)

theorem cut_one (hx : tokens x = {t}) (hy : ∀ u ∈ tokens y, u.Less t) :
    Relation.CutExpand Token.Less ((y ::ₘ s).bind tokens) ((x ::ₘ s).bind tokens) := by
  have h := @cut x s t {y} hx (by simpa using hy)
  rwa [Multiset.singleton_add] at h

theorem cut_two (hx : tokens x = {t}) (hy : ∀ u ∈ tokens y, u.Less t) (hz : ∀ u ∈ tokens z, u.Less t) :
    Relation.CutExpand Token.Less ((y ::ₘ z ::ₘ s).bind tokens) ((x ::ₘ s).bind tokens) := by
  have h := @cut x s t (y ::ₘ {z}) hx ?_
  · rwa [Multiset.cons_add, Multiset.singleton_add] at h
  · intro u hu
    simp only [Multiset.cons_bind, Multiset.singleton_bind, Multiset.mem_add] at hu
    exact hu.elim (hy u) (hz u)

theorem cut_three (hx : tokens x = {t}) (hy : ∀ u ∈ tokens y, u.Less t) (hz : ∀ u ∈ tokens z, u.Less t)
    (hw : ∀ u ∈ tokens w, u.Less t) :
    Relation.CutExpand Token.Less ((y ::ₘ z ::ₘ w ::ₘ s).bind tokens) ((x ::ₘ s).bind tokens) := by
  have h := @cut x s t (y ::ₘ z ::ₘ {w}) hx ?_
  · rwa [Multiset.cons_add, Multiset.cons_add, Multiset.singleton_add] at h
  · intro u hu
    simp only [Multiset.cons_bind, Multiset.singleton_bind, Multiset.mem_add] at hu
    exact hu.elim (hy u) fun hu => hu.elim (hz u) (hw u)

end

theorem tokens_running {i : Nat} {op : Operation} {body : Op Unit} (h : op.stage = .running body) :
    tokens (.operation i op) = {token body 2 (pressure op.reserved body)} := by
  simp only [tokens, h]

/-- What a call hands to a room is no program that hands something over. -/
theorem less_task (m : MeetingId) (task : Task) (k : Bool → Op Unit) (s s' l l' : Nat) :
    (token (task.op m) s l).Less (token (.call (.submitRoom m task) k) s' l') := by
  have htask : level (task.op m) = 1 := if_pos (task_noHandOver m task)
  have hcall : level (.call (.submitRoom m task) k) = 2 := if_neg fun h => h.1 m task rfl
  unfold token
  rw [htask, hcall]
  exact .level (by omega)

theorem step_descends {b b' : Books} (h : b.Step b') :
    Relation.CutExpand Token.Less (b'.items.bind tokens) (b.items.bind tokens) := by
  cases h with
  | queue e => exact cut_one rfl (by simpa [tokens] using less_stage _ (by omega) _ _)
  | start e i id => exact cut_one rfl (by simpa [tokens, Operation.start] using less_stage _ (by omega) _ _)
  | call i op c k r h =>
    refine cut_one (tokens_running h) ?_
    simpa [tokens, Operation.run] using less_child (.mk c k r) _ _ _ _
  | retry i op p body h hpool hnot hterm =>
    refine cut_one (tokens_running h) ?_
    simpa [tokens, pressure, hpool, hnot] using less_left _ _ (by omega)
  | reserve i op p body h hpool hnot =>
    rcases h with h | h
    · refine cut_one (tokens_running h) ?_
      simpa [tokens, pressure, hpool, hnot] using less_left _ _ (by omega)
    · refine cut_one (t := token body 2 1) (by simp only [tokens, h]) ?_
      simpa [tokens, pressure, hpool] using less_left _ _ (by omega)
  | release i op p rest body h hpool hres =>
    refine cut_one (tokens_running h) ?_
    simpa [tokens, h, pressure, hpool, hres] using less_left _ _ (by omega)
  | await i op c k h =>
    refine cut_two (tokens_running h) nofun ?_
    simpa [tokens] using less_stage _ (by omega) _ _
  | refuse i op c k r handed h hfree =>
    refine cut_two (tokens_running h) nofun ?_
    simpa [tokens] using less_child (.mk c k r) _ _ _ _
  | hand i op m task k bytes h hres hwaits =>
    refine cut_three (tokens_running h) nofun ?_ ?_
    · simpa [tokens] using less_child (.mk (S := calls) (.submitRoom m task) k true) _ _ _ _
    · simpa [tokens, Job.body] using less_task m task k _ _ _ _
  | spawn i op m task k bytes h =>
    refine cut_two (tokens_running h) ?_ ?_
    · simpa [tokens, Operation.run] using less_child (.mk (S := calls) (.submitRoom m task) k true) _ _ _ _
    · simpa [tokens, Job.body] using less_task m task k _ _ _ _
  | take t => exact cut_one rfl (by simpa [tokens] using less_stage _ (by omega) _ _)
  | work t r => exact cut_one rfl (by simpa [tokens] using less_child (.mk t.work t.next r) _ _ _ _)
  | pass c left => exact cut_one rfl (by simpa [tokens] using less_stage _ (by omega) _ _)
  | keep c => exact cut_one rfl (by simpa [tokens] using less_stage _ (by omega) _ _)
  | @resume b s i op c handed h hwait =>
    have hop : tokens (.operation i op) = 0 := by simp only [tokens, h]
    have hcut : Relation.CutExpand Token.Less ((.operation i (op.run c.next) ::ₘ s).bind tokens)
        ((.ready c 0 ::ₘ s).bind tokens) := by
      refine cut_one rfl ?_
      simpa [tokens, Operation.run] using less_stage _ (by omega) _ _
    simpa only [put, Multiset.cons_bind, hop, zero_add] using hcut
  | finish i op h hres =>
    refine cut_one (tokens_running h) ?_
    simpa [tokens, Operation.ended] using less_chore _ _ _ _
  | settle i op h =>
    refine cut_one (t := chore 3) (by simp only [tokens, h]) ?_
    simpa [tokens] using less_chores (by omega)
  | leave i op h =>
    refine cut_one (t := chore 2) (by simp only [tokens, h]) ?_
    simpa [tokens] using less_chores (by omega)
  | close => exact cut_one rfl (by simpa [tokens] using less_chores (by omega))
  | @free b s =>
    have hcut := @cut (.closing true) s _ 0 rfl (by simp)
    rwa [zero_add] at hcut

end Books

end SyncRtc
