import SyncRtc.MediaServer.Session
import SyncRtc.Lib.Transition

/-!
# What RealtimeServer sees of MediaServer's frames

An accepted frame is written, in the hands of the sending thread, queued, or dropped by a `Stop`. `Flow` says
so, and ties the counters and the bytes on the socket to it. Nothing is dropped before the `Stop`, so the
stream is a prefix of what was accepted; but a frame that is refused at a limit is only followed by its `Stop`,
and a smaller one may be accepted in between.
-/

set_option autoImplicit false

namespace SyncRtc.MediaServer

open Net (Bytes linkFrame sizeAdd sizeSub sizeAdd_eq sizeSub_eq)

/-- The frame in the hands of the sending thread. -/
def SendLoop.inFlight : SendLoop → List Bytes
  | .sending frame _ | .sent frame | .failed frame _ => [frame]
  | .waiting | .returned => []

/-- What the socket has of it. -/
def SendLoop.out : SendLoop → Bytes
  | .sending frame sentLength | .failed frame sentLength => frame.take sentLength
  | .sent frame => frame
  | .waiting | .returned => []

namespace Session

/-- The frames the counters stand for. -/
def pending (s : Session) : List Bytes := s.sendLoop.inFlight ++ s.sendQueue

/-- What a session keeps whatever its threads do. -/
structure Delivered (s : Session) : Prop where
  /-- The socket gets the accepted frames, in the order in which they were accepted. -/
  ordered : s.wire <+: s.accepted.flatten
  /-- Until `Stop` the counters stand for the accepted frames the sending thread has not accounted for, one in
  its hands and the queued ones; all others are on the socket, and what it has written of the one. -/
  counted : s.stopping = false → s.pendingFrames = s.pending.length ∧ s.pendingBytes = s.pending.flatten.length ∧
    ∃ done, s.accepted = done ++ s.pending ∧ s.wire = done.flatten ++ s.sendLoop.out
  reset : s.stopping = true → s.pendingFrames = 0 ∧ s.pendingBytes = 0
  within : s.pendingFrames ≤ maxPendingFrames ∧ s.pendingBytes ≤ maxPendingBytes
  /-- The accounting takes off no more than there is. -/
  covered : ∀ frame, s.sendLoop = .sent frame → s.stopping = false → 1 ≤ s.pendingFrames ∧ frame.length ≤ s.pendingBytes
  /-- Nothing but its `Stop` is left of a call that met a limit. -/
  stops : s.refusedAt ≠ none → s.stopping = true ∨ 0 < s.overflowing
  /-- The socket is not closed under the sending thread. -/
  owned : s.isOpen = false → s.sendLoop = .returned

/-- No frame is missing in front of another one: what is on the socket was accepted before any frame was
refused at a limit. -/
def Whole (s : Session) : Prop := ∀ k ∈ s.refusedAt, s.wire <+: (s.accepted.take k).flatten

/-- No frame is accepted between the refusal of another one and its `Stop`. -/
def Careful (s : Session) : Event → Prop
  | .send payload => s.stopping = true ∨ s.overLimit payload = true ∨ s.overflowing = 0
  | _ => True

/-- Where the accepted frames are. -/
structure Flow (s : Session) (done lost : List Bytes) : Prop where
  accepted : s.accepted = done ++ s.pending ++ lost
  wire : s.sendLoop ≠ .returned → s.wire = done.flatten ++ s.sendLoop.out
  ordered : s.wire <+: s.accepted.flatten
  offset : ∀ frame sentLength, s.sendLoop = .sending frame sentLength → sentLength < frame.length
  running : s.stopping = false → lost = [] ∧ s.sendLoop ≠ .returned ∧ s.pendingFrames = s.pending.length ∧
    s.pendingBytes = s.pending.flatten.length
  stopped : s.stopping = true → s.sendQueue = [] ∧ s.pendingFrames = 0 ∧ s.pendingBytes = 0
  framesLe : s.pendingFrames ≤ maxPendingFrames
  bytesLe : s.pendingBytes ≤ maxPendingBytes
  nonempty : ∀ frame ∈ s.sendQueue, 0 < frame.length

/-- What is kept beside the frames. -/
structure Closing (s : Session) : Prop where
  stops : s.refusedAt ≠ none → s.stopping = true ∨ 0 < s.overflowing
  joined : s.joinable = false → s.sendLoop = .returned
  closes : s.closing = some .closeFd → s.sendLoop = .returned
  owned : s.isOpen = false → s.sendLoop = .returned

variable {s s' : Session} {done lost : List Bytes}

theorem fresh_flow : Flow {} [] [] where
  accepted := rfl
  wire _ := rfl
  ordered := List.prefix_rfl
  offset := nofun
  running _ := ⟨rfl, nofun, rfl, rfl⟩
  stopped := nofun
  framesLe := Nat.zero_le _
  bytesLe := Nat.zero_le _
  nonempty := nofun

theorem linkFrame_length (payload : Bytes) : (linkFrame payload).length = payload.length + 4 := by
  simp only [linkFrame, Net.linkHeader, List.length_append, List.length_cons, List.length_nil]
  omega

/-! ## The steps of `Flow` -/

theorem Flow.room (h : s.Flow done lost) {payload : Bytes} (hover : s.overLimit payload = false) :
    s.pendingFrames + 1 ≤ maxPendingFrames ∧ s.pendingBytes + (linkFrame payload).length ≤ maxPendingBytes := by
  have hsub : sizeSub maxPendingBytes s.pendingBytes = maxPendingBytes - s.pendingBytes :=
    sizeSub_eq h.bytesLe (by decide)
  simp only [overLimit, hsub, Bool.or_eq_false_iff, decide_eq_false_iff_not] at hover
  have hbytes := h.bytesLe
  rw [linkFrame_length]
  omega

/-- A frame is queued, or nothing moves. -/
theorem Flow.send (h : s.Flow done lost) (payload : Bytes) : (s.send payload).2.Flow done lost := by
  unfold Session.send
  split
  next => exact h
  next hrunning =>
    rw [Bool.not_eq_true] at hrunning
    obtain ⟨rfl, halive, hframes, hbytes⟩ := h.running hrunning
    split
    next => exact { h with }
    next hover =>
      rw [Bool.not_eq_true] at hover
      obtain ⟨hroomFrames, hroomBytes⟩ := h.room hover
      have hsmall : maxPendingBytes < 2 ^ 64 := by decide
      have hfew : maxPendingFrames < 2 ^ 64 := by decide
      have haddBytes : sizeAdd s.pendingBytes (linkFrame payload).length = s.pendingBytes + (linkFrame payload).length :=
        sizeAdd_eq (by omega)
      have haddFrames : sizeAdd s.pendingFrames 1 = s.pendingFrames + 1 := sizeAdd_eq (by omega)
      dsimp only
      rw [haddBytes, haddFrames]
      refine ⟨?accepted, h.wire, ?ordered, h.offset, ?running, fun hs => ?_, hroomFrames, hroomBytes, ?nonempty⟩
      case accepted =>
        change s.accepted ++ [linkFrame payload] = done ++ (s.sendLoop.inFlight ++ (s.sendQueue ++ [linkFrame payload])) ++ []
        rw [h.accepted, pending]
        simp only [List.append_nil, List.append_assoc]
      case ordered =>
        change s.wire <+: (s.accepted ++ [linkFrame payload]).flatten
        rw [List.flatten_append]
        exact h.ordered.trans (List.prefix_append _ _)
      case running =>
        intro _
        refine ⟨rfl, halive, ?_, ?_⟩
        · change s.pendingFrames + 1 = (s.sendLoop.inFlight ++ (s.sendQueue ++ [linkFrame payload])).length
          simp only [hframes, pending, List.length_append, List.length_singleton, Nat.add_assoc]
        · change s.pendingBytes + _ = (s.sendLoop.inFlight ++ (s.sendQueue ++ [linkFrame payload])).flatten.length
          simp only [hbytes, pending, List.flatten_append, List.flatten_singleton, List.length_append, Nat.add_assoc]
      case nonempty =>
        intro frame hframe
        rcases List.mem_append.mp hframe with hframe | hframe
        · exact h.nonempty frame hframe
        · rw [List.mem_singleton.mp hframe, linkFrame_length]
          exact Nat.succ_pos _
      · exact absurd (hs.symm.trans hrunning) (by decide)

/-- `Stop` drops what is queued. -/
theorem Flow.stop (h : s.Flow done lost) : ∃ lost', s.stop.Flow done lost' := by
  unfold Session.stop
  split
  next => exact ⟨lost, h⟩
  next hs =>
    rw [Bool.not_eq_true] at hs
    obtain ⟨rfl, -⟩ := h.running hs
    refine ⟨s.sendQueue, ?_, h.wire, h.ordered, h.offset, nofun, fun _ => ⟨rfl, rfl, rfl⟩, Nat.zero_le _, Nat.zero_le _, nofun⟩
    rw [h.accepted]
    simp only [pending, List.append_nil, List.append_assoc]

/-- The front frame comes into the hands of the sending thread. -/
theorem Flow.takeFrame (h : s.Flow done lost) (hs : s.takeFrame = some s') : s'.Flow done lost := by
  unfold Session.takeFrame at hs
  split at hs
  next hwaiting =>
    split at hs
    next hstopping =>
      cases hs
      obtain ⟨hqueue, hzero⟩ := h.stopped hstopping
      refine ⟨?_, fun hne => absurd rfl hne, h.ordered, nofun, fun hr => ?_, fun _ => ⟨hqueue, hzero⟩, h.framesLe, h.bytesLe,
        h.nonempty⟩
      · rw [h.accepted, pending, pending, hwaiting]
        rfl
      · exact absurd (hstopping.symm.trans hr) (by decide)
    next hrunning =>
      rw [Bool.not_eq_true] at hrunning
      split at hs
      next => cases hs
      next frame rest hqueue =>
        cases hs
        have hsame : ({ s with sendQueue := rest, sendLoop := .sending frame 0 } : Session).pending = s.pending := by
          rw [pending, pending, hwaiting, hqueue]
          rfl
        have hmem : ∀ f ∈ frame :: rest, 0 < f.length := hqueue ▸ h.nonempty
        refine ⟨?accepted, ?wire, h.ordered, ?offset, ?running, fun hr => ?_, h.framesLe, h.bytesLe, ?nonempty⟩
        case accepted => rw [hsame, h.accepted]
        case wire =>
          intro _
          rw [h.wire (by rw [hwaiting]; nofun), hwaiting]
          rfl
        case offset =>
          rintro _ _ ⟨⟩
          exact hmem frame List.mem_cons_self
        case running =>
          intro _
          rw [hsame]
          obtain ⟨hlost, -, hcounts⟩ := h.running hrunning
          exact ⟨hlost, nofun, hcounts⟩
        case nonempty => exact fun f hf => hmem f (List.mem_cons_of_mem _ hf)
        · exact absurd (hr.symm.trans hrunning) (by decide)
  next => cases hs

theorem pending_of_loop {loop : SendLoop} (h : loop.inFlight = s.sendLoop.inFlight) :
    ({ s with sendLoop := loop } : Session).pending = s.pending := congrArg (· ++ s.sendQueue) h

/-- The socket takes more of the frame. -/
theorem Flow.sendSome (h : s.Flow done lost) {sent : Sent} (hs : s.sendSome sent = some s') : s'.Flow done lost := by
  unfold Session.sendSome at hs
  split at hs
  next frame sentLength hsending =>
    have halive : s.sendLoop ≠ .returned := by
      rw [hsending]
      nofun
    have hwire := h.wire halive
    have hrunning : s.stopping = false → lost = [] ∧ s.pendingFrames = s.pending.length ∧
        s.pendingBytes = s.pending.flatten.length :=
      fun hr => ⟨(h.running hr).1, (h.running hr).2.2⟩
    cases sent with
    | count n =>
      dsimp only at hs
      split at hs
      next hn =>
        cases hs
        generalize hloop : (if sentLength + n = frame.length then SendLoop.sent frame else .sending frame (sentLength + n)) = loop
        have hout : loop.out = frame.take (sentLength + n) := by
          rw [← hloop]
          split
          next hall =>
            rw [hall, List.take_length]
            rfl
          next => rfl
        have hflight : loop.inFlight = s.sendLoop.inFlight := by
          rw [← hloop, hsending]
          split <;> rfl
        have hreturned : loop ≠ .returned := by
          rw [← hloop]
          split <;> nofun
        have hsame : ({ s with wire := s.wire ++ (frame.drop sentLength).take n, sendLoop := loop } : Session).pending = s.pending :=
          congrArg (· ++ s.sendQueue) hflight
        have hwire' : s.wire ++ (frame.drop sentLength).take n = done.flatten ++ loop.out := by
          rw [hwire, hout, List.take_add, hsending, ← List.append_assoc]
          rfl
        refine ⟨?accepted, fun _ => hwire', ?ordered, ?offset, ?running, h.stopped, h.framesLe, h.bytesLe, h.nonempty⟩
        case accepted => rw [hsame, h.accepted]
        case ordered =>
          change s.wire ++ (frame.drop sentLength).take n <+: s.accepted.flatten
          rw [hwire', hout, h.accepted, pending, hsending, List.append_assoc, List.append_assoc, List.flatten_append]
          refine (List.prefix_append_right_inj _).mpr ?_
          exact (List.take_prefix _ _).trans (List.prefix_append _ _)
        case offset =>
          intro frame' length' hloop'
          rw [← hloop] at hloop'
          dsimp only at hloop'
          split at hloop'
          next => cases hloop'
          next hne =>
            cases hloop'
            omega
        case running =>
          intro hr
          rw [hsame]
          exact ⟨(hrunning hr).1, hreturned, (hrunning hr).2⟩
      next => cases hs
    | interrupted =>
      cases hs
      exact h
    | failed =>
      cases hs
      have hsame : ({ s with sendLoop := .failed frame sentLength } : Session).pending = s.pending :=
        pending_of_loop (by rw [hsending]; rfl)
      refine ⟨?_, fun _ => ?_, h.ordered, nofun, fun hr => ?_, h.stopped, h.framesLe, h.bytesLe, h.nonempty⟩
      · rw [hsame, h.accepted]
      · rw [hwire, hsending]
        rfl
      · rw [hsame]
        exact ⟨(hrunning hr).1, nofun, (hrunning hr).2⟩
  next => cases hs

/-- A sending thread that returns gives up what it holds. -/
theorem Flow.returns (h : s.Flow done lost) (hs : s.stopping = true) :
    Flow { s with sendLoop := .returned } done (s.sendLoop.inFlight ++ lost) := by
  obtain ⟨hqueue, hzero⟩ := h.stopped hs
  refine ⟨?_, fun hne => absurd rfl hne, h.ordered, nofun, fun hr => ?_, h.stopped, h.framesLe, h.bytesLe, h.nonempty⟩
  · rw [h.accepted, pending, pending, hqueue]
    simp only [SendLoop.inFlight, List.append_nil, List.append_assoc]
  · exact absurd (hs.symm.trans hr) (by decide)

theorem isStopped_stop : s.stop.stopping = true := by
  unfold Session.stop
  split
  next h => exact h
  next => rfl

theorem sendLoop_stop : s.stop.sendLoop = s.sendLoop := by
  unfold Session.stop
  split <;> rfl

/-- A frame that is written is taken off the counters, unless they have been reset. -/
theorem Flow.settle (h : s.Flow done lost) (hs : s.settle = some s') : ∃ done' lost', s'.Flow done' lost' := by
  unfold Session.settle at hs
  split at hs
  next frame hsent =>
    split at hs
    next hstopping =>
      cases hs
      exact ⟨_, _, h.returns hstopping⟩
    next hrunning =>
      cases hs
      rw [Bool.not_eq_true] at hrunning
      obtain ⟨rfl, halive, hframes, hbytes⟩ := h.running hrunning
      have hpending : s.pending = frame :: s.sendQueue := by
        rw [pending, hsent]
        rfl
      rw [hpending, List.length_cons] at hframes
      rw [hpending, List.flatten_cons, List.length_append] at hbytes
      have hsmall : s.pendingBytes < 2 ^ 64 := Nat.lt_of_le_of_lt h.bytesLe (by decide)
      have hfew : s.pendingFrames < 2 ^ 64 := Nat.lt_of_le_of_lt h.framesLe (by decide)
      have hsubBytes : sizeSub s.pendingBytes frame.length = s.pendingBytes - frame.length := sizeSub_eq (by omega) hsmall
      have hsubFrames : sizeSub s.pendingFrames 1 = s.pendingFrames - 1 := sizeSub_eq (by omega) hfew
      rw [hsubBytes, hsubFrames]
      refine ⟨done ++ [frame], [], ?accepted, ?wire, h.ordered, nofun, ?running, fun hr => ?_,
        Nat.le_trans (Nat.sub_le _ _) h.framesLe, Nat.le_trans (Nat.sub_le _ _) h.bytesLe, h.nonempty⟩
      case accepted =>
        rw [h.accepted, hpending]
        simp only [pending, SendLoop.inFlight, List.append_assoc, List.cons_append, List.nil_append]
      case wire =>
        intro _
        rw [h.wire halive, hsent]
        simp only [SendLoop.out, List.flatten_append, List.flatten_singleton, List.append_nil]
      case running =>
        intro _
        refine ⟨rfl, nofun, ?_, ?_⟩
        · change s.pendingFrames - 1 = s.sendQueue.length
          omega
        · change s.pendingBytes - frame.length = s.sendQueue.flatten.length
          omega
      · exact absurd (hr.symm.trans hrunning) (by decide)
  next frame sentLength hfailed =>
    cases hs
    obtain ⟨lost', hstop⟩ := h.stop
    exact ⟨_, _, hstop.returns isStopped_stop⟩
  next => cases hs

/-- `Close` moves frames by its `Stop` only. -/
theorem Flow.close (h : s.Flow done lost) (hs : s.close = some s') : ∃ lost', s'.Flow done lost' := by
  unfold Session.close at hs
  split at hs
  next =>
    cases hs
    exact ⟨lost, { h with }⟩
  next =>
    cases hs
    obtain ⟨lost', hstop⟩ := h.stop
    exact ⟨lost', { hstop with }⟩
  next =>
    split at hs
    · cases hs
      exact ⟨lost, { h with }⟩
    · cases hs
  next =>
    cases hs
    exact ⟨lost, { h with }⟩

theorem Flow.step (h : s.Flow done lost) {e : Event} (hs : s.step e = some s') : ∃ done' lost', s'.Flow done' lost' := by
  cases e with
  | send payload =>
    cases hs
    exact ⟨_, _, h.send payload⟩
  | overflow =>
    obtain ⟨lost', hstop⟩ := h.stop
    simp only [Session.step] at hs
    split at hs
    · cases hs
      exact ⟨_, lost', { hstop with }⟩
    · cases hs
  | stop =>
    cases hs
    exact ⟨_, h.stop⟩
  | takeFrame => exact ⟨_, _, h.takeFrame hs⟩
  | sendSome sent => exact ⟨_, _, h.sendSome hs⟩
  | settle => exact h.settle hs
  | close => exact ⟨_, h.close hs⟩

theorem flow_of_reachable {ok : Session → Event → Prop} (h : Reach Session.step ok {} s) : ∃ done lost, s.Flow done lost := by
  refine h.invariant (I := fun s => ∃ done lost, s.Flow done lost) ⟨_, _, fresh_flow⟩ fun _ _ _ hflow _ hs => ?_
  obtain ⟨_, _, hflow⟩ := hflow
  exact hflow.step hs

/-! ## Stopping and closing -/

/-- What a step does to what is kept beside the frames. -/
structure Beside (s s' : Session) : Prop where
  stopping : s.stopping = true → s'.stopping = true
  returned : s.sendLoop = .returned → s'.sendLoop = .returned
  refused : s'.refusedAt ≠ none → s.refusedAt ≠ none ∨ 0 < s'.overflowing
  overflowing : 0 < s.overflowing → s'.stopping = true ∨ 0 < s'.overflowing
  joined : s'.joinable = false → s.joinable = false ∨ s'.sendLoop = .returned
  closes : s'.closing = some .closeFd →
    s.closing = some .closeFd ∨ s.joinable = false ∨ s'.sendLoop = .returned
  owned : s'.isOpen = false → s.isOpen = false ∨ s.closing = some .closeFd

theorem Beside.refl (s : Session) : Beside s s where
  stopping h := h
  returned h := h
  refused h := .inl h
  overflowing h := .inr h
  joined h := .inl h
  closes h := .inl h
  owned h := .inl h

theorem stop_eq (s : Session) : ∃ sendQueue pendingBytes pendingFrames,
    s.stop = { s with stopping := true, sendQueue, pendingBytes, pendingFrames } := by
  unfold Session.stop
  split
  next h => exact ⟨s.sendQueue, s.pendingBytes, s.pendingFrames, by rw [← h]⟩
  next => exact ⟨[], 0, 0, rfl⟩

theorem beside_stop (s : Session) : Beside s s.stop := by
  obtain ⟨_, _, _, heq⟩ := stop_eq s
  rw [heq]
  exact { Beside.refl s with
    stopping := fun _ => rfl
    overflowing := fun _ => .inl rfl }

/-- The sending thread moves on. -/
theorem beside_loop {wire : Bytes} {sendQueue : List Bytes} {pendingBytes pendingFrames : Nat} {loop : SendLoop}
    (h : s.sendLoop ≠ .returned) :
    Beside s { s with wire, sendQueue, pendingBytes, pendingFrames, sendLoop := loop } :=
  { Beside.refl s with
    returned := fun hr => absurd hr h
    joined := fun hj => .inl hj
    closes := fun hc => .inl hc }

theorem beside_step {e : Event} (hs : s.step e = some s') : Beside s s' := by
  cases e with
  | send payload =>
    cases hs
    unfold Session.send
    split
    next => exact .refl s
    next =>
      split
      next =>
        exact { Beside.refl s with
          refused := fun _ => .inr (Nat.succ_pos _)
          overflowing := fun _ => .inr (Nat.succ_pos _) }
      next => exact { Beside.refl s with }
  | overflow =>
    simp only [Session.step] at hs
    split at hs
    · cases hs
      obtain ⟨_, _, _, heq⟩ := stop_eq s
      rw [heq]
      exact { Beside.refl s with
        stopping := fun _ => rfl
        refused := fun h => .inl h
        overflowing := fun _ => .inl rfl }
    · cases hs
  | stop =>
    cases hs
    exact beside_stop s
  | takeFrame =>
    simp only [Session.step, Session.takeFrame] at hs
    split at hs
    next hwaiting =>
      have halive : s.sendLoop ≠ .returned := by
        rw [hwaiting]
        nofun
      split at hs
      · cases hs
        exact beside_loop halive
      · split at hs
        · cases hs
        · cases hs
          exact beside_loop halive
    next => cases hs
  | sendSome sent =>
    simp only [Session.step, Session.sendSome] at hs
    split at hs
    next hsending =>
      have halive : s.sendLoop ≠ .returned := by
        rw [hsending]
        nofun
      cases sent with
      | count n =>
        dsimp only at hs
        split at hs
        · cases hs
          exact beside_loop halive
        · cases hs
      | interrupted =>
        cases hs
        exact .refl s
      | failed =>
        cases hs
        exact beside_loop halive
    next => cases hs
  | settle =>
    simp only [Session.step, Session.settle] at hs
    split at hs
    next hsent =>
      have halive : s.sendLoop ≠ .returned := by
        rw [hsent]
        nofun
      split at hs
      · cases hs
        exact beside_loop halive
      · cases hs
        exact beside_loop halive
    next =>
      cases hs
      obtain ⟨_, _, _, heq⟩ := stop_eq s
      rw [heq]
      exact { Beside.refl s with
        stopping := fun _ => rfl
        returned := fun _ => rfl
        overflowing := fun _ => .inl rfl
        joined := fun h => .inl h
        closes := fun h => .inl h }
    next => cases hs
  | close =>
    simp only [Session.step, Session.close] at hs
    split at hs
    next =>
      cases hs
      exact { Beside.refl s with closes := nofun }
    next =>
      cases hs
      obtain ⟨_, _, _, heq⟩ := stop_eq s
      rw [heq]
      exact { Beside.refl s with
        stopping := fun _ => rfl
        overflowing := fun _ => .inl rfl
        closes := nofun }
    next =>
      split at hs
      next hjoin =>
        cases hs
        exact { Beside.refl s with
          joined := fun _ => hjoin
          closes := fun _ => .inr hjoin }
      next => cases hs
    next hcloses =>
      cases hs
      exact { Beside.refl s with
        closes := nofun
        owned := fun _ => .inr hcloses }

theorem closing_step (h : s.Closing) {e : Event} (hs : s.step e = some s') : s'.Closing := by
  have hb := beside_step hs
  constructor
  case stops =>
    intro hr
    rcases hb.refused hr with hr | hr
    · rcases h.stops hr with hstop | hover
      · exact .inl (hb.stopping hstop)
      · exact hb.overflowing hover
    · exact .inr hr
  case joined => exact fun hj => (hb.joined hj).elim (fun hj => hb.returned (h.joined hj)) id
  case closes =>
    intro hc
    rcases hb.closes hc with hc | hj | hr
    · exact hb.returned (h.closes hc)
    · exact hb.returned (h.joined hj)
    · exact hr
  case owned => exact fun ho => hb.returned ((hb.owned ho).elim h.owned h.closes)

theorem closing_of_reachable {ok : Session → Event → Prop} (h : Reach Session.step ok {} s) : s.Closing :=
  have hstart : Closing {} := ⟨fun h => absurd rfl h, nofun, nofun, nofun⟩
  h.invariant hstart fun _ _ _ hc _ hs => closing_step hc hs

/-! ## Nothing after a refusal -/

/-- A step accepts nothing, or accepts one frame and refuses none. -/
theorem accepted_step {e : Event} (hs : s.step e = some s') :
    (s'.accepted = s.accepted ∧ (s'.refusedAt = s.refusedAt ∨ s'.refusedAt = some (s.refusedAt.getD s.accepted.length))) ∨
      ∃ payload, e = .send payload ∧ s.stopping = false ∧ s.overLimit payload = false ∧ s'.refusedAt = s.refusedAt := by
  have hstop : s.stop.accepted = s.accepted ∧ s.stop.refusedAt = s.refusedAt := by
    obtain ⟨_, _, _, heq⟩ := stop_eq s
    rw [heq]
    exact ⟨rfl, rfl⟩
  cases e with
  | send payload =>
    cases hs
    unfold Session.send
    split
    next => exact .inl ⟨rfl, .inl rfl⟩
    next hrunning =>
      split
      next => exact .inl ⟨rfl, .inr rfl⟩
      next hover => exact .inr ⟨payload, rfl, Bool.not_eq_true _ ▸ hrunning, Bool.not_eq_true _ ▸ hover, rfl⟩
  | overflow =>
    simp only [Session.step] at hs
    split at hs
    · cases hs
      exact .inl ⟨hstop.1, .inl hstop.2⟩
    · cases hs
  | stop =>
    cases hs
    exact .inl ⟨hstop.1, .inl hstop.2⟩
  | takeFrame =>
    simp only [Session.step, Session.takeFrame] at hs
    repeat' split at hs
    all_goals cases hs
    all_goals exact .inl ⟨rfl, .inl rfl⟩
  | sendSome sent =>
    simp only [Session.step, Session.sendSome] at hs
    repeat' split at hs
    all_goals cases hs
    all_goals exact .inl ⟨rfl, .inl rfl⟩
  | settle =>
    simp only [Session.step, Session.settle] at hs
    repeat' split at hs
    all_goals cases hs
    all_goals first | exact .inl ⟨rfl, .inl rfl⟩ | exact .inl ⟨hstop.1, .inl hstop.2⟩
  | close =>
    simp only [Session.step, Session.close] at hs
    repeat' split at hs
    all_goals cases hs
    all_goals first | exact .inl ⟨rfl, .inl rfl⟩ | exact .inl ⟨hstop.1, .inl hstop.2⟩

/-- In a careful run a refused frame is refused after all the accepted ones. -/
theorem refused_last (h : Reach Session.step Careful {} s) : ∀ k ∈ s.refusedAt, s.accepted.length = k := by
  refine h.invariant_of (I := fun s => ∀ k ∈ s.refusedAt, s.accepted.length = k) (fun _ => closing_of_reachable) nofun ?_
  intro s e s' hclosing ih hok hs k hk
  rcases accepted_step hs with ⟨hacc, hsame | hfirst⟩ | ⟨payload, rfl, hrunning, hover, hsame⟩
  · rw [hacc]
    exact ih k (hsame ▸ hk)
  · rw [hacc]
    rw [hfirst, Option.mem_some_iff] at hk
    cases hr : s.refusedAt with
    | none =>
      rw [hr] at hk
      exact hk
    | some j =>
      rw [hr] at hk
      exact (ih j hr).trans hk
  · -- accepting while a refusal stands would be careless
    have hsome : s.refusedAt ≠ none := by
      rw [← hsame, hk]
      nofun
    rcases hclosing.stops hsome with hstop | hwaiting
    · exact absurd (hrunning.symm.trans hstop) (by decide)
    · rcases hok with hstop | hlimit | hnone
      · exact absurd (hrunning.symm.trans hstop) (by decide)
      · exact absurd (hover.symm.trans hlimit) (by decide)
      · omega

/-- **MediaServer's send queue**: in every run the stream is a prefix of the accepted frames and the counters
stand for the rest, and in a careful one no frame is missing from the stream. -/
theorem delivered_of_reachable (h : Reach Session.step (fun _ _ => True) {} s) :
    s.Delivered ∧ (Reach Session.step Careful {} s → s.Whole) := by
  obtain ⟨done, lost, hflow⟩ := flow_of_reachable h
  have hclosing := closing_of_reachable h
  refine ⟨⟨hflow.ordered, ?counted, ?reset, ⟨hflow.framesLe, hflow.bytesLe⟩, ?covered, hclosing.stops, hclosing.owned⟩, ?whole⟩
  case counted =>
    intro hr
    obtain ⟨rfl, halive, hframes, hbytes⟩ := hflow.running hr
    exact ⟨hframes, hbytes, done, by rw [hflow.accepted, List.append_nil], hflow.wire halive⟩
  case reset => exact fun hs => (hflow.stopped hs).2
  case covered =>
    intro frame hsent hr
    obtain ⟨-, -, hframes, hbytes⟩ := hflow.running hr
    rw [hframes, hbytes, pending, hsent]
    simp only [SendLoop.inFlight, List.length_append, List.length_singleton, List.flatten_append, List.flatten_singleton]
    exact ⟨Nat.le_add_right _ _, Nat.le_add_right _ _⟩
  case whole =>
    intro hcareful k hk
    rw [← refused_last hcareful k hk, List.take_length]
    exact hflow.ordered

/-- A queued frame that is half written when a `Close` stops the session. -/
theorem delivered_half : ∃ s : Session, s.wire = [0, 0] ∧ s.accepted = [[0, 0, 0, 1, 7]] ∧ s.stopping = true ∧
    s.Delivered ∧ s.Whole := by
  have hsent : Reach Session.step Careful {} _ := .next (e := Event.send [7]) .start (.inr (.inr rfl)) rfl
  have htaken := hsent.next (e := Event.takeFrame) trivial rfl
  have hwritten := htaken.next (e := Event.sendSome (.count 2)) trivial rfl
  have hcloses := hwritten.next (e := Event.close) trivial rfl
  have hstopped := hcloses.next (e := Event.close) trivial rfl
  have hdelivered := delivered_of_reachable (hstopped.mono fun _ _ _ => trivial)
  exact ⟨_, rfl, rfl, rfl, hdelivered.1, hdelivered.2 hstopped⟩

/-- A worker whose frame is too large gives the lock back before it stops the session. In between another
worker's frame is accepted and written: RealtimeServer gets the second frame and not the first. -/
theorem frame_missing : ∃ s : Session, Reach Session.step (fun _ _ => True) {} s ∧ s.stopping = true ∧
    s.refusedAt = some 0 ∧ s.wire = [0, 0, 0, 1, 7] ∧ ¬ s.Whole := by
  have hlarge : (List.replicate maxPendingBytes (0 : UInt8)).length > maxPendingBytes - 4 := by
    rw [List.length_replicate]
    decide
  have hover : ({} : Session).overLimit (List.replicate maxPendingBytes 0) = true := by
    simp only [overLimit, hlarge, decide_true, Bool.true_or]
  have hrefused : ({} : Session).step (.send (List.replicate maxPendingBytes 0)) =
      some { ({} : Session) with overflowing := 1, refusedAt := some 0 } := by
    simp only [Session.step, Session.send, hover, Bool.false_eq_true, if_false, if_true]
    rfl
  have hfirst : Reach Session.step (fun _ _ => True) {} _ := .next .start trivial hrefused
  have hsecond := hfirst.next (e := .send [7]) trivial rfl
  have htaken := hsecond.next (e := .takeFrame) trivial rfl
  have hwritten := htaken.next (e := .sendSome (.count 5)) trivial rfl
  have hstopped := hwritten.next (e := .overflow) trivial rfl
  refine ⟨_, hstopped, rfl, rfl, rfl, fun h => ?_⟩
  cases List.prefix_nil.mp (h 0 rfl)

end Session

end SyncRtc.MediaServer
