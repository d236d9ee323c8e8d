import SyncRtc.Realtime.Scheduling

/-!
# Commands one after the other

What a queue has accepted is, in this order, what has ended, the command that is carried out, and what waits in the
line and on the strand. The closure of a `Wait` that is called goes to the strand once, and until its handler has run
the operation stays in that `Wait`; so no handler ever finds another one there than its own. The counters count.
-/

set_option autoImplicit false

namespace SyncRtc

/-! ## What a queue holds -/

namespace SerialCommandQueue

def Posted.accepted? : Posted → Option Entry
  | .command e => some e
  | _ => none

def Posted.closing? : Posted → Option Nat
  | .closing bytes => some bytes
  | _ => none

def Posted.isResume : Posted → Bool
  | .resume _ => true
  | _ => false

@[simp] theorem Posted.accepted?_command (e : Entry) : (Posted.command e).accepted? = some e := rfl
@[simp] theorem Posted.accepted?_resume (c : Completion) : (Posted.resume c).accepted? = none := rfl
@[simp] theorem Posted.accepted?_closing (bytes : Nat) : (Posted.closing bytes).accepted? = none := rfl
@[simp] theorem Posted.closing?_command (e : Entry) : (Posted.command e).closing? = none := rfl
@[simp] theorem Posted.closing?_resume (c : Completion) : (Posted.resume c).closing? = none := rfl
@[simp] theorem Posted.closing?_closing (bytes : Nat) : (Posted.closing bytes).closing? = some bytes := rfl
@[simp] theorem Posted.isResume_command (e : Entry) : (Posted.command e).isResume = false := rfl
@[simp] theorem Posted.isResume_resume (c : Completion) : (Posted.resume c).isResume = true := rfl
@[simp] theorem Posted.isResume_closing (bytes : Nat) : (Posted.closing bytes).isResume = false := rfl

namespace Operation

def isOver (op : Operation) : Bool :=
  match op.stage with
  | .finishing | .leaving => true
  | _ => false

def isLeaving (op : Operation) : Bool :=
  match op.stage with
  | .leaving => true
  | _ => false

def isSuspended (op : Operation) : Bool :=
  match op.stage with
  | .suspended _ => true
  | _ => false

theorem isSuspended_iff {op : Operation} : op.isSuspended = true ↔ ∃ handed, op.stage = .suspended handed := by
  unfold isSuspended
  split
  · next handed hstage => exact ⟨fun _ => ⟨handed, hstage⟩, fun _ => rfl⟩
  · next hno => exact ⟨fun h => absurd h (by simp), fun ⟨handed, hstage⟩ => absurd hstage (hno handed)⟩

theorem isLeaving_of_isOver {op : Operation} (h : op.isOver = false) : op.isLeaving = false := by
  unfold isOver at h
  unfold isLeaving
  split at h
  · cases h
  · cases h
  · next hno =>
    split
    · next hstage => exact absurd hstage hno
    · rfl

/-- The command, while it is carried out. -/
def current (op : Operation) : List Entry := if op.isOver then [] else [op.entry]

/-- The bytes of the command, while the queue counts them. -/
def unsettled (op : Operation) : List Nat := if op.isLeaving then [] else [op.entry.bytes]

end Operation

/-- Accepted, and not begun. -/
def waiting (queue : SerialCommandQueue) : List Entry := queue.commands ++ queue.strand.filterMap Posted.accepted?

/-- Begun, and not ended. -/
def current (queue : SerialCommandQueue) : List Entry := queue.active.elim [] Operation.current

/-- The bytes of the commands that `m_pending` of the queue counts. -/
def unsettled (queue : SerialCommandQueue) : List Nat :=
  queue.active.elim [] Operation.unsettled ++ queue.waiting.map Entry.bytes

/-- The bytes of the commands that the scheduler counts. -/
def unreleased (queue : SerialCommandQueue) : List Nat :=
  queue.releasing.toList ++ queue.strand.filterMap Posted.closing? ++ queue.active.elim [] (fun op => [op.entry.bytes]) ++
    queue.waiting.map Entry.bytes

/-- An operation is suspended in the `Wait` of this name. -/
def Awaits (queue : SerialCommandQueue) (id phase : Nat) : Prop :=
  ∃ op, queue.active = some op ∧ op.isSuspended = true ∧ op.id = id ∧ op.phase = phase

/-- All that is seen of a command. -/
def Entry.marks (e : Entry) : List Mark := .began e :: .ended e :: if e.done.isSome then [.done e] else []

/-- The two queues hold the same commands, and count alike. -/
structure Same (queue queue' : SerialCommandQueue) : Prop where
  current : queue'.current = queue.current
  waiting : queue'.waiting = queue.waiting
  unsettled : queue'.unsettled = queue.unsettled
  unreleased : queue'.unreleased = queue.unreleased
  pending : queue'.pending = queue.pending
  bytes : queue'.bytes = queue.bytes

section Same

variable {queue queue' queue'' : SerialCommandQueue} {op op' : Operation} {e : Entry} {c : Completion} {bytes : Nat}
  {rest : List Posted}

theorem Same.trans (h : Same queue queue') (h' : Same queue' queue'') : Same queue queue'' where
  current := h'.current.trans h.current
  waiting := h'.waiting.trans h.waiting
  unsettled := h'.unsettled.trans h.unsettled
  unreleased := h'.unreleased.trans h.unreleased
  pending := h'.pending.trans h.pending
  bytes := h'.bytes.trans h.bytes

/-- The command of the operation goes on. -/
theorem same_setActive (hop : queue.active = some op) (hentry : op'.entry = op.entry) (hover : op.isOver = false)
    (hover' : op'.isOver = false) : Same queue (queue.setActive op') where
  current := by simp [SerialCommandQueue.current, setActive, hop, Operation.current, hover, hover', hentry]
  waiting := rfl
  unsettled := by
    have hleaving := Operation.isLeaving_of_isOver hover
    have hleaving' := Operation.isLeaving_of_isOver hover'
    simp [SerialCommandQueue.unsettled, setActive, hop, Operation.unsettled, hleaving, hleaving', hentry,
      SerialCommandQueue.waiting]
  unreleased := by
    simp [SerialCommandQueue.unreleased, setActive, hop, hentry, SerialCommandQueue.waiting]
  pending := rfl
  bytes := rfl

theorem Same.of_waiting (hwaiting : queue'.waiting = queue.waiting) (hactive : queue'.active = queue.active)
    (hclosing : queue'.releasing.toList ++ queue'.strand.filterMap Posted.closing? =
      queue.releasing.toList ++ queue.strand.filterMap Posted.closing?)
    (hpending : queue'.pending = queue.pending) (hbytes : queue'.bytes = queue.bytes) : Same queue queue' where
  current := by rw [SerialCommandQueue.current, hactive, SerialCommandQueue.current]
  waiting := hwaiting
  unsettled := by rw [SerialCommandQueue.unsettled, hactive, hwaiting, SerialCommandQueue.unsettled]
  unreleased := by rw [SerialCommandQueue.unreleased, hclosing, hactive, hwaiting, SerialCommandQueue.unreleased]
  pending := hpending
  bytes := hbytes

theorem same_post (queue : SerialCommandQueue) (c : Completion) : Same queue (queue.post (.resume c)) := by
  refine .of_waiting ?_ rfl ?_ rfl rfl
  · simp [waiting, post]
  · simp [post]

theorem same_resumed (hstrand : queue.strand = .resume c :: rest) : Same queue { queue with strand := rest } := by
  refine .of_waiting ?_ rfl ?_ rfl rfl
  · simp only [waiting, hstrand]
    rfl
  · simp only [hstrand]
    rfl

theorem same_command (hstrand : queue.strand = .command e :: rest) :
    Same queue { queue with strand := rest, commands := queue.commands ++ [e] } := by
  refine .of_waiting ?_ rfl ?_ rfl rfl
  · simp [waiting, hstrand]
  · simp only [hstrand]
    rfl

theorem same_closing (hstrand : queue.strand = .closing bytes :: rest) (hreleasing : queue.releasing = none) :
    Same queue { queue with strand := rest, releasing := some bytes } := by
  refine .of_waiting ?_ rfl ?_ rfl rfl
  · simp only [waiting, hstrand]
    rfl
  · simp [hstrand, hreleasing]

theorem same_leave (hop : queue.active = some op) (hstage : op.stage = .leaving) : Same queue (queue.leave op) where
  current := by simp [SerialCommandQueue.current, leave, hop, Operation.current, Operation.isOver, hstage]
  waiting := by simp [SerialCommandQueue.waiting, leave, post]
  unsettled := by
    simp [SerialCommandQueue.unsettled, leave, post, hop, Operation.unsettled, Operation.isLeaving, hstage,
      SerialCommandQueue.waiting]
  unreleased := by simp [SerialCommandQueue.unreleased, leave, post, hop, SerialCommandQueue.waiting]
  pending := rfl
  bytes := rfl

theorem pump_of_none {queue : SerialCommandQueue} {rest : List Entry} (hactive : queue.active = none)
    (hcommands : queue.commands = e :: rest) :
    queue.pump = { queue with
      commands := rest
      nextOp := queue.nextOp + 1
      active := some (.start (queue.nextOp + 1) e) } := by
  unfold pump
  simp only [hactive, hcommands]

theorem unreleased_pump (queue : SerialCommandQueue) : queue.pump.unreleased = queue.unreleased := by
  unfold pump
  split
  · next e rest hactive hcommands => simp [unreleased, hactive, hcommands, waiting, Operation.start]
  · rfl

end Same

end SerialCommandQueue

open SerialCommandQueue

/-! ## Accepted, ended, released -/

/-- What belongs to one queue. -/
structure Lane where
  queue : SerialCommandQueue
  diary : Diary
  closures : Nat → Nat → Option Bool

namespace Lane

/-- What has been accepted is what has ended, with all that is seen of it, the command that is carried out, and what
waits. -/
def Ordered (diary : Diary) (current waiting : List Entry) : Prop :=
  ∃ past, diary.accepted = past ++ current ++ waiting ∧ diary.marks = past.flatMap Entry.marks ++ current.map .began

/-- Of what has been accepted the first `n` are gone; the others weigh this much. -/
def Remains (accepted : List Entry) (n : Nat) (held : List Nat) : Prop :=
  ∃ gone, accepted.map Entry.bytes = gone ++ held ∧ gone.length = n

theorem Remains.drop {accepted : List Entry} {n : Nat} {held : List Nat} (h : Remains accepted n held) :
    (accepted.drop n).map Entry.bytes = held := by
  obtain ⟨gone, hgone, rfl⟩ := h
  rw [List.map_drop, hgone, List.drop_left]

theorem Remains.push {accepted : List Entry} {n : Nat} {held : List Nat} (h : Remains accepted n held) (e : Entry) :
    Remains (accepted ++ [e]) n (held ++ [e.bytes]) := by
  obtain ⟨gone, hgone, hn⟩ := h
  exact ⟨gone, by simp [hgone], hn⟩

theorem Remains.pop {accepted : List Entry} {n bytes : Nat} {held : List Nat} (h : Remains accepted n (bytes :: held)) :
    Remains accepted (n + 1) held := by
  obtain ⟨gone, hgone, hn⟩ := h
  exact ⟨gone ++ [bytes], by simp [hgone], by simp [hn]⟩

structure Books (queue : SerialCommandQueue) (diary : Diary) : Prop where
  order : Ordered diary queue.current queue.waiting
  settled : Remains diary.accepted diary.settled queue.unsettled
  released : Remains diary.accepted diary.released queue.unreleased
  pending : queue.pending = queue.unsettled.length
  bytes : queue.bytes = queue.unsettled.sum
  limit : queue.bytes ≤ 4 * 1024 * 1024

section Books

variable {queue queue' : SerialCommandQueue} {diary : Diary} {op : Operation} {e : Entry}

theorem Books.same (h : Books queue diary) (hsame : Same queue queue') : Books queue' diary where
  order := by
    rw [hsame.current, hsame.waiting]
    exact h.order
  settled := by
    rw [hsame.unsettled]
    exact h.settled
  released := by
    rw [hsame.unreleased]
    exact h.released
  pending := by
    rw [hsame.pending, hsame.unsettled]
    exact h.pending
  bytes := by
    rw [hsame.bytes, hsame.unsettled]
    exact h.bytes
  limit := by
    rw [hsame.bytes]
    exact h.limit

theorem waiting_push (queue : SerialCommandQueue) (e : Entry) : (queue.push e).waiting = queue.waiting ++ [e] := by
  simp [waiting, SerialCommandQueue.push]

theorem unreleased_push (queue : SerialCommandQueue) (e : Entry) :
    (queue.push e).unreleased = queue.unreleased ++ [e.bytes] := by
  rw [unreleased, waiting_push, unreleased]
  simp [SerialCommandQueue.push]

theorem Books.push (h : Books queue diary) {capacity : Nat} (hadmits : queue.admits capacity e.terminal e.bytes = true) :
    Books (queue.push e) { diary with accepted := diary.accepted ++ [e] } := by
  have hunsettled : (queue.push e).unsettled = queue.unsettled ++ [e.bytes] := by
    rw [unsettled, waiting_push, unsettled]
    simp [SerialCommandQueue.push]
  refine ⟨?_, ?_, ?_, ?_, ?_, ?_⟩
  · obtain ⟨past, haccepted, hmarks⟩ := h.order
    refine ⟨past, ?_, hmarks⟩
    rw [waiting_push, haccepted]
    simp [current, SerialCommandQueue.push]
  · rw [hunsettled]
    exact h.settled.push e
  · rw [unreleased_push]
    exact h.released.push e
  · rw [hunsettled, List.length_append, ← h.pending]
    rfl
  · rw [hunsettled, List.sum_append, ← h.bytes, List.sum_singleton]
    rfl
  · have hbytes := h.limit
    simp only [admits, Bool.not_eq_true', Bool.or_eq_false_iff, decide_eq_false_iff_not, not_lt] at hadmits
    simp only [SerialCommandQueue.push]
    omega

theorem Books.pump (h : Books queue diary) {rest : List Entry} (hactive : queue.active = none)
    (hcommands : queue.commands = e :: rest) :
    Books queue.pump { diary with marks := diary.marks ++ [.began e] } := by
  have hunreleased := unreleased_pump queue
  have hwaiting : queue.waiting = e :: queue.pump.waiting := by
    rw [pump_of_none hactive hcommands]
    simp [waiting, hcommands]
  have hunsettled : queue.pump.unsettled = queue.unsettled := by
    rw [unsettled, unsettled, hwaiting, hactive, pump_of_none hactive hcommands]
    simp [Operation.unsettled, Operation.start, Operation.isLeaving]
  have hcurrent : queue.current = [] := by simp [current, hactive]
  have hcurrent' : queue.pump.current = [e] := by
    rw [pump_of_none hactive hcommands]
    simp [current, Operation.current, Operation.start, Operation.isOver]
  have hcounts : queue.pump.pending = queue.pending ∧ queue.pump.bytes = queue.bytes := by
    rw [pump_of_none hactive hcommands]
    exact ⟨rfl, rfl⟩
  refine ⟨?_, ?_, ?_, ?_, ?_, hcounts.2.trans_le h.limit⟩
  · obtain ⟨past, haccepted, hmarks⟩ := h.order
    refine ⟨past, ?_, ?_⟩
    · rw [haccepted, hcurrent, hcurrent', hwaiting]
      simp
    · rw [hmarks, hcurrent, hcurrent']
      simp
  · rw [hunsettled]
    exact h.settled
  · rw [hunreleased]
    exact h.released
  · rw [hcounts.1, hunsettled]
    exact h.pending
  · rw [hcounts.2, hunsettled]
    exact h.bytes

/-- The command has returned, and `done` is called. -/
theorem Books.finish (h : Books queue diary) (hop : queue.active = some op) (hover : op.isOver = false) :
    Books (queue.setActive op.ended)
      { diary with
        marks := diary.marks ++ .ended op.entry :: if op.entry.done.isSome then [.done op.entry] else [] } := by
  have hcurrent : queue.current = [op.entry] := by simp [current, hop, Operation.current, hover]
  have hended : (queue.setActive op.ended).current = [] := by
    simp [current, setActive, Operation.current, Operation.ended, Operation.isOver]
  have hunsettled : (queue.setActive op.ended).unsettled = queue.unsettled := by
    have hleaving := Operation.isLeaving_of_isOver hover
    simp only [unsettled, setActive, hop, Option.elim_some, Operation.unsettled, hleaving]
    rfl
  have hunreleased : (queue.setActive op.ended).unreleased = queue.unreleased := by
    simp only [unreleased, setActive, hop, Option.elim_some]
    rfl
  refine ⟨?_, ?_, ?_, ?_, ?_, h.limit⟩
  · obtain ⟨past, haccepted, hmarks⟩ := h.order
    refine ⟨past ++ [op.entry], ?_, ?_⟩
    · rw [haccepted, hcurrent, hended]
      simp [waiting, setActive]
    · rw [hmarks, hcurrent, hended]
      simp [Entry.marks]
  · rw [hunsettled]
    exact h.settled
  · rw [hunreleased]
    exact h.released
  · rw [hunsettled]
    exact h.pending
  · rw [hunsettled]
    exact h.bytes

theorem unsettled_of_finishing (hop : queue.active = some op) (hstage : op.stage = .finishing) :
    queue.unsettled = op.entry.bytes :: (queue.settle op).unsettled := by
  simp [unsettled, waiting, SerialCommandQueue.settle, hop, Operation.unsettled, Operation.isLeaving, hstage]

theorem unreleased_settle (hop : queue.active = some op) : (queue.settle op).unreleased = queue.unreleased := by
  simp only [unreleased, SerialCommandQueue.settle, hop, Option.elim_some]
  rfl

theorem Books.settle (h : Books queue diary) (hop : queue.active = some op) (hstage : op.stage = .finishing) :
    Books (queue.settle op) { diary with settled := diary.settled + 1 } := by
  have hunsettled := unsettled_of_finishing hop hstage
  have hpending := h.pending
  have hbytes := h.bytes
  have hsettled := h.settled
  rw [hunsettled] at hpending hbytes hsettled
  have hcurrent : (queue.settle op).current = queue.current := by
    simp [current, SerialCommandQueue.settle, hop, Operation.current, Operation.isOver, hstage]
  refine ⟨?_, hsettled.pop, ?_, ?_, ?_, (Nat.sub_le _ _).trans h.limit⟩
  · rw [hcurrent]
    exact h.order
  · rw [unreleased_settle hop]
    exact h.released
  · exact (congrArg (· - 1) hpending).trans (Nat.add_sub_cancel _ _)
  · exact (congrArg (· - op.entry.bytes) hbytes).trans (Nat.add_sub_cancel_left _ _)

theorem unreleased_of_releasing {bytes : Nat} (hreleasing : queue.releasing = some bytes) :
    queue.unreleased = bytes :: ({ queue with releasing := none } : SerialCommandQueue).unreleased := by
  simp [unreleased, waiting, hreleasing]

theorem Books.release (h : Books queue diary) {bytes : Nat} (hreleasing : queue.releasing = some bytes) :
    Books { queue with releasing := none } { diary with released := diary.released + 1 } := by
  have hreleased := h.released
  rw [unreleased_of_releasing hreleasing] at hreleased
  exact ⟨h.order, h.settled, hreleased.pop, h.pending, h.bytes, h.limit⟩

end Books

/-! ## Who resumes whom -/

structure Wakes (queue : SerialCommandQueue) (closures : Nat → Nat → Option Bool) : Prop where
  named : ∀ op, queue.active = some op → op.id = queue.nextOp
  older : ∀ id phase, closures id phase ≠ none → id ≤ queue.nextOp
  phases : ∀ op, queue.active = some op → ∀ phase, closures op.id phase ≠ none → phase ≤ op.phase
  opened : ∀ id phase, closures id phase = some false → queue.Awaits id phase
  posted : ∀ c, .resume c ∈ queue.strand → queue.Awaits c.wait.op c.wait.phase
  awaited : ∀ op, queue.active = some op → op.isSuspended = true →
    ∃ delivered, closures op.id op.phase = some delivered ∧
      queue.strand.countP Posted.isResume = if delivered then 1 else 0

section Wakes

variable {queue queue' : SerialCommandQueue} {closures : Nat → Nat → Option Bool} {op op' : Operation} {c : Completion}
  {rest : List Posted}

theorem not_awaits (hawake : ∀ op, queue.active = some op → op.isSuspended = false) (id phase : Nat) :
    ¬ queue.Awaits id phase := by
  rintro ⟨op, hop, hsuspended, -, -⟩
  rw [hawake op hop] at hsuspended
  cases hsuspended

/-- Where no operation is suspended nobody can resume one. -/
theorem Wakes.calm (h : Wakes queue closures) (hawake : ∀ op, queue.active = some op → op.isSuspended = false) :
    (∀ id phase, closures id phase ≠ some false) ∧ ∀ c, .resume c ∉ queue.strand :=
  ⟨fun id phase hopened => not_awaits hawake id phase (h.opened id phase hopened),
    fun c hc => not_awaits hawake _ _ (h.posted c hc)⟩

theorem wakes_of_calm (hopened : ∀ id phase, closures id phase ≠ some false) (hposted : ∀ c, .resume c ∉ queue.strand)
    (hawake : ∀ op, queue.active = some op → op.isSuspended = false)
    (hnamed : ∀ op, queue.active = some op → op.id = queue.nextOp)
    (holder : ∀ id phase, closures id phase ≠ none → id ≤ queue.nextOp)
    (hphases : ∀ op, queue.active = some op → ∀ phase, closures op.id phase ≠ none → phase ≤ op.phase) :
    Wakes queue closures where
  named := hnamed
  older := holder
  phases := hphases
  opened id phase hfalse := absurd hfalse (hopened id phase)
  posted c hc := absurd hc (hposted c)
  awaited op hop hsuspended := by
    rw [hawake op hop] at hsuspended
    cases hsuspended

/-- The operation goes on, and neither before nor after does it wait for a closure. -/
theorem Wakes.goOn (h : Wakes queue closures) (hop : queue.active = some op) (hawake : op.isSuspended = false)
    (hop' : queue'.active = some op') (hid : op'.id = op.id) (hphase : op'.phase = op.phase)
    (hawake' : op'.isSuspended = false) (hstrand : queue'.strand = queue.strand) (hnext : queue'.nextOp = queue.nextOp) :
    Wakes queue' closures := by
  have hall (op'' : Operation) (heq : queue.active = some op'') : op''.isSuspended = false := by
    cases hop.symm.trans heq
    exact hawake
  obtain ⟨hopened, hposted⟩ := h.calm hall
  refine wakes_of_calm hopened ?_ ?_ ?_ ?_ ?_
  · rw [hstrand]
    exact hposted
  · intro op'' heq
    cases hop'.symm.trans heq
    exact hawake'
  · intro op'' heq
    cases hop'.symm.trans heq
    rw [hid, hnext]
    exact h.named op hop
  · rw [hnext]
    exact h.older
  · intro op'' heq
    cases hop'.symm.trans heq
    rw [hid, hphase]
    exact h.phases op hop

/-- A handler that resumes nobody comes or goes. -/
theorem Wakes.strand (h : Wakes queue closures) (hactive : queue'.active = queue.active)
    (hnext : queue'.nextOp = queue.nextOp) (hmem : ∀ c, .resume c ∈ queue'.strand → .resume c ∈ queue.strand)
    (hcount : queue'.strand.countP Posted.isResume = queue.strand.countP Posted.isResume) : Wakes queue' closures := by
  refine ⟨?_, ?_, ?_, ?_, ?_, ?_⟩
  · rw [hactive, hnext]
    exact h.named
  · rw [hnext]
    exact h.older
  · rw [hactive]
    exact h.phases
  · simp only [Awaits, hactive]
    exact h.opened
  · intro c hc
    simp only [Awaits, hactive]
    exact h.posted c (hmem c hc)
  · rw [hactive, hcount]
    exact h.awaited

theorem Wakes.tail (h : Wakes queue closures) {x : Posted} (hx : x.isResume = false) (hstrand : queue.strand = x :: rest)
    (hactive : queue'.active = queue.active) (hnext : queue'.nextOp = queue.nextOp) (hrest : queue'.strand = rest) :
    Wakes queue' closures := by
  refine h.strand hactive hnext (fun c hc => ?_) ?_
  · rw [hstrand]
    exact List.mem_cons_of_mem x (hrest ▸ hc)
  · rw [hrest, hstrand, List.countP_cons_of_neg (by simp [hx])]

theorem Wakes.post (h : Wakes queue closures) {x : Posted} (hx : x.isResume = false) (hactive : queue'.active = queue.active)
    (hnext : queue'.nextOp = queue.nextOp) (hstrand : queue'.strand = queue.strand ++ [x]) : Wakes queue' closures := by
  refine h.strand hactive hnext (fun c hc => ?_) ?_
  · rw [hstrand] at hc
    rcases List.mem_append.mp hc with hc | hc
    · exact hc
    · cases List.mem_singleton.mp hc
      cases hx
  · rw [hstrand, List.countP_append, List.countP_singleton, hx]
    rfl

theorem Wakes.pump (h : Wakes queue closures) {e : Entry} {commands : List Entry} (hactive : queue.active = none)
    (hcommands : queue.commands = e :: commands) : Wakes queue.pump closures := by
  have hawake (op : Operation) (hop : queue.active = some op) : op.isSuspended = false :=
    absurd (hactive.symm.trans hop) (by simp)
  obtain ⟨hopened, hposted⟩ := h.calm hawake
  rw [pump_of_none hactive hcommands]
  refine wakes_of_calm hopened hposted ?_ ?_ ?_ ?_
  · intro op hop
    cases hop
    rfl
  · intro op hop
    cases hop
    rfl
  · exact fun id phase hsome => (h.older id phase hsome).trans (Nat.le_succ _)
  · intro op hop phase hsome
    cases hop
    exact absurd (h.older _ _ hsome) (Nat.not_succ_le_self _)

theorem Wakes.leave (h : Wakes queue closures) (hop : queue.active = some op) (hawake : op.isSuspended = false) :
    Wakes (queue.leave op) closures := by
  have hall (op' : Operation) (heq : queue.active = some op') : op'.isSuspended = false := by
    cases hop.symm.trans heq
    exact hawake
  obtain ⟨hopened, hposted⟩ := h.calm hall
  refine wakes_of_calm hopened ?_ ?_ ?_ h.older ?_
  · intro c hc
    rcases List.mem_append.mp hc with hc | hc
    · exact hposted c hc
    · cases List.mem_singleton.mp hc
  · intro op' heq
    cases heq
  · intro op' heq
    cases heq
  · intro op' heq
    cases heq

/-- A handler of a `Wait` finds the operation in that `Wait`, and no second handler of it. -/
theorem Wakes.head (h : Wakes queue closures) (hstrand : queue.strand = .resume c :: rest) :
    ∃ op, queue.active = some op ∧ op.isSuspended = true ∧ op.id = c.wait.op ∧ op.phase = c.wait.phase ∧
      closures op.id op.phase = some true ∧ ∀ c', .resume c' ∉ rest := by
  obtain ⟨op, hop, hsuspended, hid, hphase⟩ := h.posted c (hstrand ▸ List.mem_cons_self)
  obtain ⟨delivered, hclosure, hcount⟩ := h.awaited op hop hsuspended
  rw [hstrand, List.countP_cons_of_pos (by rfl)] at hcount
  cases delivered with
  | false => simp at hcount
  | true =>
    have hnone : rest.countP Posted.isResume = 0 := by simpa using hcount
    exact ⟨op, hop, hsuspended, hid, hphase, hclosure, fun c' hc' => List.countP_eq_zero.mp hnone _ hc' rfl⟩

theorem resume_of_head (hop : queue.active = some op) (hid : op.id = c.wait.op) (hphase : op.phase = c.wait.phase) :
    queue.resume c = queue.setActive (op.run c.next) := by
  unfold SerialCommandQueue.resume
  simp only [hop, hid, hphase, and_self, if_true]

theorem Wakes.resume (h : Wakes queue closures) (hstrand : queue.strand = .resume c :: rest) :
    Wakes (({ queue with strand := rest } : SerialCommandQueue).resume c) closures := by
  obtain ⟨op, hop, hsuspended, hid, hphase, hclosure, hrest⟩ := h.head hstrand
  have hresume : ({ queue with strand := rest } : SerialCommandQueue).resume c = _ := resume_of_head hop hid hphase
  have hopened (id phase : Nat) : closures id phase ≠ some false := by
    intro hfalse
    obtain ⟨op', hop', -, hid', hphase'⟩ := h.opened id phase hfalse
    cases hop.symm.trans hop'
    rw [← hid', ← hphase', hclosure] at hfalse
    cases hfalse
  rw [hresume]
  refine wakes_of_calm hopened hrest ?_ ?_ h.older ?_
  · intro op' heq
    cases heq
    rfl
  · intro op' heq
    cases heq
    exact h.named op hop
  · intro op' heq
    cases heq
    exact h.phases op hop

/-- `closures`, with one of them made or called. -/
def setClosure (closures : Nat → Nat → Option Bool) (id phase : Nat) (delivered : Bool) : Nat → Nat → Option Bool :=
  fun id' phase' => if id' = id ∧ phase' = phase then some delivered else closures id' phase'

theorem setClosure_self (closures : Nat → Nat → Option Bool) (id phase : Nat) (delivered : Bool) :
    setClosure closures id phase delivered id phase = some delivered := if_pos ⟨rfl, rfl⟩

theorem setClosure_cases {id phase id' phase' : Nat} {delivered d : Bool}
    (h : setClosure closures id phase delivered id' phase' = some d) :
    id' = id ∧ phase' = phase ∧ d = delivered ∨ closures id' phase' = some d := by
  unfold setClosure at h
  split at h
  · next hmatch => exact .inl ⟨hmatch.1, hmatch.2, (Option.some.inj h).symm⟩
  · exact .inr h

/-- A new phase has a new closure. -/
theorem Wakes.fresh (h : Wakes queue closures) (hop : queue.active = some op) : closures op.id (op.phase + 1) = none := by
  by_contra hsome
  exact absurd (h.phases op hop _ hsome) (Nat.not_succ_le_self _)

theorem Wakes.wait (h : Wakes queue closures) (hop : queue.active = some op) (hawake : op.isSuspended = false)
    (handed : Bool) :
    Wakes (queue.setActive (op.suspend handed)) (setClosure closures op.id (op.phase + 1) false) := by
  have hall (op' : Operation) (heq : queue.active = some op') : op'.isSuspended = false := by
    cases hop.symm.trans heq
    exact hawake
  obtain ⟨hopened, hposted⟩ := h.calm hall
  refine ⟨?_, ?_, ?_, ?_, ?_, ?_⟩
  · intro op' heq
    cases heq
    exact h.named op hop
  · intro id phase hsome
    obtain ⟨d, hd⟩ := Option.ne_none_iff_exists'.mp hsome
    rcases setClosure_cases hd with ⟨rfl, -, -⟩ | hd
    · exact (h.named op hop).le
    · exact h.older id phase (by simp [hd])
  · intro op' heq phase hsome
    cases heq
    obtain ⟨d, hd⟩ := Option.ne_none_iff_exists'.mp hsome
    rcases setClosure_cases hd with ⟨-, rfl, -⟩ | hd
    · exact le_refl _
    · exact (h.phases op hop phase (Option.ne_none_iff_exists'.mpr ⟨d, hd⟩)).trans (Nat.le_succ _)
  · intro id phase hfalse
    rcases setClosure_cases hfalse with ⟨rfl, rfl, -⟩ | hfalse
    · exact ⟨_, rfl, rfl, rfl, rfl⟩
    · exact absurd hfalse (hopened id phase)
  · exact fun c hc => absurd hc (hposted c)
  · intro op' heq _
    cases heq
    refine ⟨false, setClosure_self _ _ _ _, List.countP_eq_zero.mpr fun x hx hresume => ?_⟩
    cases x with
    | resume c => exact hposted c hx
    | _ => cases hresume

/-- A closure goes to the strand the first time it is called. -/
theorem Wakes.call (h : Wakes queue closures) (hfalse : closures c.wait.op c.wait.phase = some false) :
    Wakes (queue.post (.resume c)) (setClosure closures c.wait.op c.wait.phase true) := by
  obtain ⟨op, hop, hsuspended, hid, hphase⟩ := h.opened _ _ hfalse
  have hsome {id phase : Nat} (hd : setClosure closures c.wait.op c.wait.phase true id phase ≠ none) :
      closures id phase ≠ none := by
    obtain ⟨d, hd⟩ := Option.ne_none_iff_exists'.mp hd
    rcases setClosure_cases hd with ⟨rfl, rfl, -⟩ | hd
    · simp [hfalse]
    · simp [hd]
  refine ⟨h.named, ?_, ?_, ?_, ?_, ?_⟩
  · exact fun id phase hd => h.older id phase (hsome hd)
  · exact fun op' hop' phase hd => h.phases op' hop' phase (hsome hd)
  · intro id phase hfalse'
    rcases setClosure_cases hfalse' with ⟨-, -, hd⟩ | hfalse'
    · cases hd
    · exact h.opened id phase hfalse'
  · intro c' hc'
    rcases List.mem_append.mp hc' with hc' | hc'
    · exact h.posted c' hc'
    · cases List.mem_singleton.mp hc'
      exact ⟨op, hop, hsuspended, hid, hphase⟩
  · intro op' hop' _
    cases hop.symm.trans hop'
    obtain ⟨delivered, hclosure, hcount⟩ := h.awaited op hop hsuspended
    rw [hid, hphase, hfalse] at hclosure
    cases hclosure
    refine ⟨true, ?_, ?_⟩
    · rw [hid, hphase]
      exact setClosure_self _ _ _ _
    · have hpost : (queue.post (.resume c)).strand = queue.strand ++ [.resume c] := rfl
      rw [hpost, List.countP_append, hcount]
      rfl

end Wakes

/-! ## One queue -/

structure Loose (l : Lane) : Prop where
  books : Books l.queue l.diary
  wakes : Wakes l.queue l.closures

structure Kept (l : Lane) : Prop extends l.Loose where
  pumped : l.queue.active = none → l.queue.commands ≠ [] → ∃ bytes, .closing bytes ∈ l.queue.strand

/-- `Pump`, and what is seen of it. -/
def pump (l : Lane) : Lane :=
  match l.queue.active, l.queue.commands with
  | none, entry :: _ =>
    { l with queue := l.queue.pump, diary := { l.diary with marks := l.diary.marks ++ [.began entry] } }
  | _, _ => { l with queue := l.queue.pump }

variable {l : Lane} {op op' : Operation} {x : Posted} {rest : List Posted}

theorem Loose.pump (h : l.Loose) : l.pump.Kept := by
  unfold Lane.pump
  split
  · next e rest hactive hcommands =>
    refine ⟨⟨h.books.pump hactive hcommands, h.wakes.pump hactive hcommands⟩, fun hnone => ?_⟩
    dsimp only at hnone
    rw [pump_of_none hactive hcommands] at hnone
    cases hnone
  · next hno =>
    have hsame : l.queue.pump = l.queue := by
      unfold SerialCommandQueue.pump
      split
      · next e rest hactive hcommands => exact (hno e rest hactive hcommands).elim
      · rfl
    rw [hsame]
    refine ⟨h, fun hactive hcommands => ?_⟩
    obtain ⟨e, rest, hcons⟩ := List.exists_cons_of_ne_nil hcommands
    exact (hno e rest hactive hcons).elim

/-- The command of the operation goes on, and neither before nor after does it wait for a closure. -/
theorem Kept.goOn (h : l.Kept) (hop : l.queue.active = some op) (hid : op'.id = op.id) (hphase : op'.phase = op.phase)
    (hentry : op'.entry = op.entry) (hover : op.isOver = false) (hover' : op'.isOver = false)
    (hawake : op.isSuspended = false) (hawake' : op'.isSuspended = false) :
    Kept { l with queue := l.queue.setActive op' } where
  books := h.books.same (same_setActive hop hentry hover hover')
  wakes := h.wakes.goOn hop hawake rfl hid hphase hawake' rfl rfl
  pumped hnone := absurd hnone (Option.some_ne_none _)

theorem Kept.push (h : l.Kept) {e : Entry} {capacity : Nat} (hadmits : l.queue.admits capacity e.terminal e.bytes = true) :
    Kept { l with queue := l.queue.push e, diary := { l.diary with accepted := l.diary.accepted ++ [e] } } where
  books := h.books.push hadmits
  wakes := h.wakes.post (x := .command e) rfl rfl rfl rfl
  pumped hactive hcommands := by
    obtain ⟨bytes, hbytes⟩ := h.pumped hactive hcommands
    exact ⟨bytes, List.mem_append_left _ hbytes⟩

theorem Loose.command (h : l.Loose) {e : Entry} (hstrand : l.queue.strand = .command e :: rest) :
    Loose { l with queue := { l.queue with strand := rest, commands := l.queue.commands ++ [e] } } where
  books := h.books.same (same_command hstrand)
  wakes := h.wakes.tail rfl hstrand rfl rfl rfl

theorem Loose.closing (h : l.Loose) {bytes : Nat} (hstrand : l.queue.strand = .closing bytes :: rest)
    (hreleasing : l.queue.releasing = none) :
    Loose { l with queue := { l.queue with strand := rest, releasing := some bytes } } where
  books := h.books.same (same_closing hstrand hreleasing)
  wakes := h.wakes.tail rfl hstrand rfl rfl rfl

theorem Kept.resume (h : l.Kept) {c : Completion} (hstrand : l.queue.strand = .resume c :: rest) :
    Kept { l with queue := ({ l.queue with strand := rest } : SerialCommandQueue).resume c } := by
  obtain ⟨op, hop, hsuspended, hid, hphase, -⟩ := h.wakes.head hstrand
  have hresume : ({ l.queue with strand := rest } : SerialCommandQueue).resume c = _ := resume_of_head hop hid hphase
  have hwakes := h.wakes.resume hstrand
  have hover : op.isOver = false := by
    obtain ⟨handed, hstage⟩ := Operation.isSuspended_iff.mp hsuspended
    simp [Operation.isOver, hstage]
  have hactive : Same { l.queue with strand := rest }
      (({ l.queue with strand := rest } : SerialCommandQueue).setActive (op.run c.next)) := same_setActive hop rfl hover rfl
  rw [hresume] at hwakes ⊢
  exact ⟨⟨h.books.same ((same_resumed hstrand).trans hactive), hwakes⟩, fun hnone => absurd hnone (Option.some_ne_none _)⟩

theorem Kept.wait (h : l.Kept) (hop : l.queue.active = some op) {body : Op Unit} (hstage : op.stage = .running body) :
    Kept { l with
      queue := l.queue.setActive (op.suspend false)
      closures := setClosure l.closures op.id (op.phase + 1) false } where
  books := h.books.same (same_setActive hop rfl (by simp [Operation.isOver, hstage]) rfl)
  wakes := h.wakes.wait hop (by simp [Operation.isSuspended, hstage]) false
  pumped hnone := absurd hnone (Option.some_ne_none _)

theorem Kept.call (h : l.Kept) {c : Completion} (hfalse : l.closures c.wait.op c.wait.phase = some false) :
    Kept { l with
      queue := l.queue.post (.resume c)
      closures := setClosure l.closures c.wait.op c.wait.phase true } where
  books := h.books.same (same_post l.queue c)
  wakes := h.wakes.call hfalse
  pumped hactive hcommands := by
    obtain ⟨bytes, hbytes⟩ := h.pumped hactive hcommands
    exact ⟨bytes, List.mem_append_left _ hbytes⟩

theorem Kept.finish (h : l.Kept) (hop : l.queue.active = some op) {body : Op Unit} (hstage : op.stage = .running body) :
    Kept { l with
      queue := l.queue.setActive op.ended
      diary := { l.diary with
        marks := l.diary.marks ++ .ended op.entry :: if op.entry.done.isSome then [.done op.entry] else [] } } where
  books := h.books.finish hop (by simp [Operation.isOver, hstage])
  wakes := h.wakes.goOn hop (by simp [Operation.isSuspended, hstage]) rfl rfl rfl rfl rfl rfl
  pumped hnone := absurd hnone (Option.some_ne_none _)

theorem Kept.settle (h : l.Kept) (hop : l.queue.active = some op) (hstage : op.stage = .finishing) :
    Kept { l with queue := l.queue.settle op, diary := { l.diary with settled := l.diary.settled + 1 } } where
  books := h.books.settle hop hstage
  wakes := h.wakes.goOn hop (by simp [Operation.isSuspended, hstage]) rfl rfl rfl rfl rfl rfl
  pumped hnone := absurd hnone (Option.some_ne_none _)

theorem Kept.leave (h : l.Kept) (hop : l.queue.active = some op) (hstage : op.stage = .leaving) :
    Kept { l with queue := l.queue.leave op } where
  books := h.books.same (same_leave hop hstage)
  wakes := h.wakes.leave hop (by simp [Operation.isSuspended, hstage])
  pumped _ _ := ⟨op.entry.bytes, List.mem_append_right _ (List.mem_singleton_self _)⟩

theorem Kept.release (h : l.Kept) {bytes : Nat} (hreleasing : l.queue.releasing = some bytes) :
    Kept { l with
      queue := { l.queue with releasing := none }
      diary := { l.diary with released := l.diary.released + 1 } } where
  books := h.books.release hreleasing
  wakes := h.wakes.strand rfl rfl (fun _ hc => hc) rfl
  pumped := h.pumped

/-- A queue before it is made. -/
def unmade : Lane := ⟨{}, {}, fun _ _ => none⟩

theorem kept_unmade : unmade.Kept := by
  refine ⟨⟨⟨?_, ?_, ?_, rfl, rfl, Nat.zero_le _⟩, ?_⟩, fun _ hcommands => absurd rfl hcommands⟩
  · exact ⟨[], rfl, rfl⟩
  · exact ⟨[], rfl, rfl⟩
  · exact ⟨[], rfl, rfl⟩
  · refine wakes_of_calm ?_ ?_ ?_ ?_ ?_ ?_
    · exact fun _ _ hfalse => Option.some_ne_none _ hfalse.symm
    · exact fun _ => List.not_mem_nil
    · exact fun op hop => absurd hop.symm (Option.some_ne_none op)
    · exact fun op hop => absurd hop.symm (Option.some_ne_none op)
    · exact fun _ _ hsome => absurd rfl hsome
    · exact fun op hop => absurd hop.symm (Option.some_ne_none op)

end Lane

end SyncRtc
