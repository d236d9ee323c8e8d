import SyncRtc.Lib.Incremental
import SyncRtc.Net.Receive
import SyncRtc.Client.TcpMgr

/-!
# Both ends read what the other wrote

What a stream of frames says is one function of its bytes, `frames`, which does not look at how they were cut. The
server's `ParseFrames` and the client's `readIncoming` both compute it, each in its own idiom and each from what it
is given at a time; the client does so whatever its slots do between two messages, because a generation reads from
one connection only.
-/

set_option autoImplicit false

namespace SyncRtc.Net

/-! ## The frames of a stream -/

/-- A request id and a payload. -/
abbrev Message := UInt16 × Bytes

def splitFrame : Bytes → Option (Message × Bytes)
  | h₀ :: h₁ :: h₂ :: h₃ :: rest =>
    let size := (fromBigEndian h₂ h₃).toNat
    if rest.length < size then none else some ((fromBigEndian h₀ h₁, rest.take size), rest.drop size)
  | _ => none

theorem splitFrame_shorter {xs ys : Bytes} {m : Message} (h : splitFrame xs = some (m, ys)) : ys.length < xs.length := by
  unfold splitFrame at h
  split at h
  · dsimp only at h
    split at h
    · cases h
    · cases h
      simp only [List.length_drop, List.length_cons]
      omega
  · cases h

/-- What follows a frame does not change it. -/
theorem splitFrame_stable {xs ys : Bytes} {m : Message} (zs : Bytes) (h : splitFrame xs = some (m, ys)) :
    splitFrame (xs ++ zs) = some (m, ys ++ zs) := by
  unfold splitFrame at h
  split at h
  · next h₀ h₁ h₂ h₃ rest =>
    dsimp only at h
    split at h
    · cases h
    · next hsize =>
      cases h
      have hle := Nat.not_lt.mp hsize
      have hmore : ¬ (rest ++ zs).length < (fromBigEndian h₂ h₃).toNat := by
        rw [List.length_append]
        omega
      simp only [splitFrame, List.cons_append, if_neg hmore, List.take_append_of_le_length hle,
        List.drop_append_of_le_length hle]
  · cases h

/-- The splitter of a stream of frames. -/
def frameSplitter : Splitter UInt8 Message where
  split := splitFrame
  shorter := splitFrame_shorter
  stable := splitFrame_stable

/-- The messages of a stream, and its incomplete tail. -/
def frames : Bytes → List Message × Bytes := frameSplitter.decode

/-- The stream of a list of messages. -/
def stream (ms : List Message) : Bytes := (ms.map fun m => streamFrame m.1 m.2).flatten

/-- A message whose length fits the header. -/
def Fits (m : Message) : Prop := m.2.length ≤ 65535

theorem splitFrame_streamFrame (id : UInt16) {payload : Bytes} (h : payload.length ≤ 65535) (rest : Bytes) :
    splitFrame (streamFrame id payload ++ rest) = some ((id, payload), rest) := by
  have hsize : (fromBigEndian (payload.length.toUInt16.toNat / 256).toUInt8
      (payload.length.toUInt16.toNat % 256).toUInt8).toNat = payload.length := by
    rw [fromBigEndian_bytes]
    exact Nat.mod_eq_of_lt (by omega)
  have hle : ¬ (payload ++ rest).length < payload.length := by
    rw [List.length_append]
    omega
  simp only [streamFrame, streamBytes, splitFrame, List.cons_append, List.nil_append, fromBigEndian_bytes]
  rw [fromBigEndian_bytes] at hsize
  simp only [hsize, if_neg hle, List.take_left, List.drop_left]

theorem frames_cons {m : Message} (h : Fits m) (rest : Bytes) :
    frames (streamFrame m.1 m.2 ++ rest) = (m :: (frames rest).1, (frames rest).2) :=
  Splitter.decode_of_some (S := frameSplitter) (splitFrame_streamFrame m.1 h rest)

/-- A stream is read back, up to what follows it. -/
theorem frames_stream {ms : List Message} (h : ∀ m ∈ ms, Fits m) (rest : Bytes) :
    frames (stream ms ++ rest) = (ms ++ (frames rest).1, (frames rest).2) := by
  induction ms with
  | nil => rfl
  | cons m ms ih =>
    have hrest := ih fun m' hm' => h m' (List.mem_cons_of_mem _ hm')
    simp only [stream, List.map_cons, List.flatten_cons, List.append_assoc] at hrest ⊢
    rw [frames_cons (h m List.mem_cons_self), hrest, List.cons_append]

/-- A stream that holds no complete frame yet. -/
def Incomplete (tail : Bytes) : Prop := splitFrame tail = none

theorem frames_incomplete {tail : Bytes} (h : Incomplete tail) : frames tail = ([], tail) :=
  Splitter.decode_of_none (S := frameSplitter) h

theorem incomplete_rest (xs : Bytes) : Incomplete (frames xs).2 := Splitter.split_rest (S := frameSplitter) xs

theorem frames_append (xs ys : Bytes) : frames (xs ++ ys) =
    ((frames xs).1 ++ (frames ((frames xs).2 ++ ys)).1, (frames ((frames xs).2 ++ ys)).2) :=
  Splitter.decode_append (S := frameSplitter) xs ys

/-- A frame that has not arrived completely. -/
theorem incomplete_of_prefix {m : Message} (h : Fits m) {tail more : Bytes} (hne : more ≠ [])
    (heq : streamFrame m.1 m.2 = tail ++ more) : Incomplete tail := by
  unfold Incomplete
  cases hs : splitFrame tail with
  | none => rfl
  | some p =>
    obtain ⟨m', rest⟩ := p
    have hstable := frameSplitter.stable more hs
    have hwhole := splitFrame_streamFrame m.1 h []
    rw [List.append_nil, heq] at hwhole
    have hrest : rest ++ more = [] := (Prod.mk.inj (Option.some.inj (hstable.symm.trans hwhole))).2
    exact absurd (List.append_eq_nil_iff.mp hrest).2 hne

/-! ## The server reads -/

/-- A message that goes to the business layer: no heartbeat, and no internal id. -/
structure ToServer (m : Message) : Prop where
  fits : Fits m
  ordinary : m.1 ≠ heartbeatRequest
  client : m.1 < firstInternalId

/-- The id in a header is that of the message whose frame starts there. -/
theorem header_id {h₀ h₁ h₂ h₃ : UInt8} {rest more : Bytes} {ms : List Message}
    (heq : h₀ :: h₁ :: h₂ :: h₃ :: rest ++ more = stream ms) : ∃ m ∈ ms, fromBigEndian h₀ h₁ = m.1 := by
  cases ms with
  | nil => cases heq
  | cons m ms =>
    simp only [stream, List.map_cons, List.flatten_cons, streamFrame, streamBytes, List.cons_append,
      List.nil_append] at heq
    injection heq with h₀eq htail
    injection htail with h₁eq _
    exact ⟨m, List.mem_cons_self, by rw [h₀eq, h₁eq, fromBigEndian_bytes]⟩

/-- What follows a frame of a stream is a part of the stream of the other messages. -/
theorem stream_rest {xs more ys : Bytes} {m : Message} {ms : List Message} (hms : ∀ m ∈ ms, Fits m)
    (heq : xs ++ more = stream ms) (hs : splitFrame xs = some (m, ys)) :
    ∃ ms', ms = m :: ms' ∧ ys ++ more = stream ms' := by
  cases ms with
  | nil =>
    have hnil : xs = [] := (List.append_eq_nil_iff.mp heq).1
    rw [hnil] at hs
    cases hs
  | cons m' ms' =>
    have hstable := frameSplitter.stable more hs
    have hfront := splitFrame_streamFrame m'.1 (hms m' List.mem_cons_self) (stream ms')
    have hstream : stream (m' :: ms') = streamFrame m'.1 m'.2 ++ stream ms' := rfl
    rw [heq, hstream] at hstable
    obtain ⟨rfl, hrest⟩ := Prod.mk.inj (Option.some.inj (hstable.symm.trans hfront))
    exact ⟨ms', rfl, hrest⟩

theorem splitFrame_some {xs ys : Bytes} {m : Message} (h : splitFrame xs = some (m, ys)) :
    ∃ h₀ h₁ h₂ h₃ rest, xs = h₀ :: h₁ :: h₂ :: h₃ :: rest ∧ ¬ rest.length < (fromBigEndian h₂ h₃).toNat ∧
      m = (fromBigEndian h₀ h₁, rest.take (fromBigEndian h₂ h₃).toNat) ∧
      ys = rest.drop (fromBigEndian h₂ h₃).toNat := by
  unfold splitFrame at h
  split at h
  · next h₀ h₁ h₂ h₃ rest =>
    dsimp only at h
    split at h
    · cases h
    · next hsize =>
      cases h
      exact ⟨h₀, h₁, h₂, h₃, rest, rfl, hsize, rfl, rfl⟩
  · cases h

theorem splitFrame_none {h₀ h₁ h₂ h₃ : UInt8} {rest : Bytes} (h : splitFrame (h₀ :: h₁ :: h₂ :: h₃ :: rest) = none) :
    rest.length < (fromBigEndian h₂ h₃).toNat := by
  unfold splitFrame at h
  dsimp only at h
  split at h
  · next hsize => exact hsize
  · cases h

section

variable {S : Type} (r : Receiver S)

theorem parseFrames_incomplete {xs : Bytes} (s : S) (h : Incomplete xs)
    (hid : ∀ h₀ h₁ h₂ h₃ rest, xs = h₀ :: h₁ :: h₂ :: h₃ :: rest → fromBigEndian h₀ h₁ < firstInternalId) :
    r.parseFrames xs s = (xs, s) := by
  unfold Receiver.parseFrames
  split
  · next h₀ h₁ h₂ h₃ rest =>
    have hclient : ¬ fromBigEndian h₀ h₁ ≥ firstInternalId := UInt16.not_le.mpr (hid h₀ h₁ h₂ h₃ rest rfl)
    simp only [shiftedValue_eq, if_neg hclient, if_pos (splitFrame_none h)]
  · rfl

theorem parseFrames_frame {xs ys : Bytes} {m : Message} (s : S) (h : splitFrame xs = some (m, ys)) (hm : ToServer m) :
    r.parseFrames xs s = r.parseFrames ys (r.postMsgToQue m.1 m.2 s) := by
  obtain ⟨h₀, h₁, h₂, h₃, rest, rfl, hsize, rfl, rfl⟩ := splitFrame_some h
  have hclient : ¬ fromBigEndian h₀ h₁ ≥ firstInternalId := UInt16.not_le.mpr hm.client
  have hordinary : ¬ fromBigEndian h₀ h₁ = heartbeatRequest := hm.ordinary
  rw [Receiver.parseFrames]
  simp only [shiftedValue_eq, if_neg hclient, if_neg hsize, if_neg hordinary]

end

/-- What a session has posted after a list of messages. -/
def Posted.add (s : Posted) (ms : List Message) : Posted := { s with messages := s.messages ++ ms }

theorem Posted.add_nil (s : Posted) : s.add [] = s := by
  simp only [Posted.add, List.append_nil]

theorem Posted.add_add (s : Posted) (ms ms' : List Message) : (s.add ms).add ms' = s.add (ms ++ ms') := by
  simp only [Posted.add, List.append_assoc]

/-- On a part of a stream of requests, `ParseFrames` posts the frames that are complete, and what it leaves is a
part of the stream of the other messages. -/
theorem parseFrames_eq (xs : Bytes) : ∀ (ms : List Message) (more : Bytes) (s : Posted), (∀ m ∈ ms, ToServer m) →
    xs ++ more = stream ms → recorder.parseFrames xs s = ((frames xs).2, s.add (frames xs).1) ∧
      ∃ ms', (∀ m ∈ ms', m ∈ ms) ∧ (frames xs).2 ++ more = stream ms' := by
  induction xs using frameSplitter.induction_on with
  | none xs hs =>
    intro ms more s hms heq
    have hframes : frames xs = ([], xs) := frames_incomplete hs
    rw [hframes, Posted.add_nil]
    refine ⟨parseFrames_incomplete recorder s hs ?_, ms, fun _ hm => hm, heq⟩
    rintro h₀ h₁ h₂ h₃ rest rfl
    obtain ⟨m, hm, hid⟩ := header_id heq
    rw [hid]
    exact (hms m hm).client
  | some xs m ys hs ih =>
    intro ms more s hms heq
    obtain ⟨ms', rfl, hrest⟩ := stream_rest (fun m hm => (hms m hm).fits) heq hs
    have hframes : frames xs = (m :: (frames ys).1, (frames ys).2) :=
      Splitter.decode_of_some (S := frameSplitter) hs
    obtain ⟨hparse, ms'', hsub, htail⟩ :=
      ih ms' more (s.add [m]) (fun m hm => hms m (List.mem_cons_of_mem _ hm)) hrest
    rw [hframes]
    refine ⟨?_, ms'', fun m hm => List.mem_cons_of_mem _ (hsub m hm), htail⟩
    have hpost : recorder.postMsgToQue m.1 m.2 s = s.add [m] := rfl
    rw [parseFrames_frame recorder s hs (hms m List.mem_cons_self), hpost, hparse, Posted.add_add,
      List.singleton_append]

/-- However a part of a stream of requests is cut, `HandleRead` posts the frames that are complete. -/
theorem handleRead_eq (pieces : List Bytes) : ∀ (ms : List Message) (buffer more : Bytes) (s : Posted),
    (∀ m ∈ ms, ToServer m) → Incomplete buffer → s.closed = false → buffer ++ pieces.flatten ++ more = stream ms →
    recorder.handleRead pieces buffer s =
      ((frames (buffer ++ pieces.flatten)).2, s.add (frames (buffer ++ pieces.flatten)).1) := by
  induction pieces with
  | nil =>
    intro ms buffer more s _ hbuffer _ _
    simp only [List.flatten_nil, List.append_nil, frames_incomplete hbuffer, Receiver.handleRead, Posted.add_nil]
  | cons piece pieces ih =>
    intro ms buffer more s hms hbuffer hopen heq
    obtain ⟨hparse, ms', hsub, hrest⟩ := parseFrames_eq (buffer ++ piece) ms (pieces.flatten ++ more) s hms
      (by simpa only [List.flatten_cons, List.append_assoc] using heq)
    have hnext := ih ms' (frames (buffer ++ piece)).2 more (s.add (frames (buffer ++ piece)).1)
      (fun m hm => hms m (hsub m hm)) (incomplete_rest _) hopen (by rw [List.append_assoc]; exact hrest)
    have hclosed : recorder.isClosed (s.add (frames (buffer ++ piece)).1) = false := hopen
    have hcut := frames_append (buffer ++ piece) pieces.flatten
    rw [List.append_assoc] at hcut
    rw [List.flatten_cons, hcut, Receiver.handleRead, hparse]
    simp only [hclosed, Bool.false_eq_true, if_false, hnext, Posted.add_add]

/-! ## The client reads -/

namespace TcpMgr

variable {Object : Type} {fromJson : Bytes → Option Object} {t t' : TcpMgr Object}

/-- What the slots hear of a message. -/
def heard (fromJson : Bytes → Option Object) (m : Message) : Option (UInt16 × Object) :=
  if m.1 = heartbeatResponse then none else (fromJson m.2).map fun object => (m.1, object)

/-- The messages a generation has carried so far are the first of those its connection has brought. -/
structure Heeds (fromJson : Bytes → Option Object) (t : TcpMgr Object) (g : Nat) (handled pending : List Message) : Prop where
  received : (frames (t.received g)).1 = handled ++ pending
  emitted : t.emitted g = handled.filterMap (heard fromJson)

/-- What holds of the client's connection at any time. -/
structure Faithful (fromJson : Bytes → Option Object) (t : TcpMgr Object) : Prop where
  past : ∀ g, ∃ handled pending, t.Heeds fromJson g handled pending
  /-- The buffer holds what the current connection has brought and no loop has handled. -/
  present : ∃ handled, t.Heeds fromJson t.generation handled (frames t.buffer).1 ∧
    (frames (t.received t.generation)).2 = (frames t.buffer).2
  future : ∀ g, t.generation < g → t.received g = [] ∧ t.emitted g = [] ∧ t.written g = [] ∧ t.requests g = []
  /-- A complete frame is left in the buffer only while a loop of this generation goes on. -/
  settled : t.generation ∈ t.loops ∨ Incomplete t.buffer
  bounded : ∀ g ∈ t.loops, g ≤ t.generation
  connected : t.generation ∈ t.loops → t.socket ≠ none
  written : ∀ g, t.written g = stream (t.requests g)
  fits : ∀ g, ∀ m ∈ t.requests g, Fits m

theorem incomplete_nil : Incomplete [] := rfl

theorem frames_nil : frames [] = ([], []) := frames_incomplete incomplete_nil

theorem fresh_faithful : Faithful fromJson {} where
  past g := ⟨[], [], by rw [frames_nil]; rfl, rfl⟩
  present := ⟨[], ⟨by rw [frames_nil]; rfl, rfl⟩, rfl⟩
  future _ _ := ⟨rfl, rfl, rfl, rfl⟩
  settled := .inr incomplete_nil
  bounded := nofun
  connected := nofun
  written _ := rfl
  fits _ := nofun

theorem Faithful.closeConnection (h : Faithful fromJson t) : Faithful fromJson t.closeConnection where
  past g := by
    obtain ⟨handled, pending, hr, he⟩ := h.past g
    exact ⟨handled, pending, hr, he⟩
  present := by
    obtain ⟨hr, he, -, -⟩ := h.future (t.generation + 1) (Nat.lt_succ_self _)
    refine ⟨[], ⟨?_, he⟩, ?_⟩
    · simp only [TcpMgr.closeConnection, hr, frames_nil, List.nil_append]
    · simp only [TcpMgr.closeConnection, hr]
  future g hg := h.future g (Nat.lt_of_succ_lt hg)
  settled := .inr incomplete_nil
  bounded g hg := Nat.le_succ_of_le (h.bounded g hg)
  connected hmem := absurd (h.bounded _ hmem) (Nat.not_succ_le_self _)
  written := h.written
  fits := h.fits

theorem Faithful.connectionLost (h : Faithful fromJson t) : Faithful fromJson t.connectionLost := by
  unfold TcpMgr.connectionLost
  split
  · exact h
  · exact h.closeConnection

theorem Faithful.beginRead (h : Faithful fromJson t) (available : Bytes) :
    Faithful fromJson (t.beginRead available) := by
  unfold TcpMgr.beginRead
  split
  · exact h
  next hsocket =>
  obtain ⟨handled, ⟨hr, he⟩, htail⟩ := h.present
  have hframes : frames (t.received t.generation) = (handled ++ (frames t.buffer).1, (frames t.buffer).2) :=
    Prod.ext hr htail
  have hall := frames_append (t.received t.generation) available
  have hbuffer := frames_append t.buffer available
  rw [hframes] at hall
  have hpresent : (frames (t.received t.generation ++ available)).1 = handled ++ (frames (t.buffer ++ available)).1 := by
    rw [hall, hbuffer, List.append_assoc]
  refine ⟨fun g => ?_, ⟨handled, ⟨?_, he⟩, ?_⟩, fun g hg => ?_, .inl List.mem_cons_self, fun g hg => ?_,
    fun _ hnone => absurd (hsocket.symm.trans hnone) nofun, h.written, h.fits⟩
  · by_cases hg : g = t.generation
    · subst hg
      refine ⟨handled, (frames (t.buffer ++ available)).1, ?_, he⟩
      simp only [Function.update_self]
      exact hpresent
    · obtain ⟨handled, pending, hr, he⟩ := h.past g
      refine ⟨handled, pending, ?_, he⟩
      simp only [Function.update_of_ne hg]
      exact hr
  · simp only [Function.update_self]
    exact hpresent
  · simp only [Function.update_self]
    rw [hall, hbuffer]
  · have hne : g ≠ t.generation := Nat.ne_of_gt hg
    simp only [Function.update_of_ne hne]
    exact h.future g hg
  · rcases List.mem_cons.mp hg with rfl | hg
    · exact le_rfl
    · exact h.bounded g hg

/-- The connection after a round that has taken a frame off the buffer. -/
def afterFrame (fromJson : Bytes → Option Object) (t : TcpMgr Object) (m : Message) (rest : Bytes) : TcpMgr Object :=
  { t with
    buffer := rest
    emitted := Function.update t.emitted t.generation (t.emitted t.generation ++ (heard fromJson m).toList) }

/-- What a round does. -/
inductive Round (fromJson : Bytes → Option Object) (t t' : TcpMgr Object) (g : Nat) (loops : List Nat) : Prop where
  /-- The connection the loop has read from is gone, or no frame is complete. -/
  | ended (h : g ≠ t.generation ∨ Incomplete t.buffer) (ht' : t' = { t with loops := loops })
  | frame (m : Message) (rest : Bytes) (hs : splitFrame t.buffer = some (m, rest)) (ht' : t' = t.afterFrame fromJson m rest)
  /-- The text is no JSON object, and the connection is given up. -/
  | malformed (m : Message) (rest : Bytes) (hs : splitFrame t.buffer = some (m, rest)) (hjson : fromJson m.2 = none)
      (ht' : t' = { { t with buffer := rest }.connectionLost with loops := loops })

theorem readRound_cases {g : Nat} {loops : List Nat} (hloops : t.loops = g :: loops) (h : t.readRound fromJson = some t') :
    Round fromJson t t' g loops := by
  have silent : ∀ (m : Message) (rest : Bytes), heard fromJson m = none →
      t.afterFrame fromJson m rest = { t with buffer := rest } := by
    intro m rest hm
    simp only [afterFrame, hm, Option.toList_none, List.append_nil, Function.update_eq_self]
  unfold readRound at h
  split at h
  · next hnil => exact nomatch hloops.symm.trans hnil
  next g' loops' heq =>
  obtain ⟨rfl, rfl⟩ := List.cons.inj (hloops.symm.trans heq)
  split at h
  · next hg => exact .ended (.inl hg) (Option.some.inj h).symm
  split at h
  · next h₀ h₁ h₂ h₃ rest hbuffer =>
    dsimp only at h
    split at h
    · next hsize =>
      refine .ended (.inr ?_) (Option.some.inj h).symm
      rw [hbuffer, Incomplete, splitFrame, if_pos hsize]
    next hsize =>
    have hs : splitFrame t.buffer = some ((fromBigEndian h₀ h₁, rest.take (fromBigEndian h₂ h₃).toNat),
        rest.drop (fromBigEndian h₂ h₃).toNat) := by
      rw [hbuffer, splitFrame, if_neg hsize]
    split at h
    · next hlong =>
      refine .frame _ _ hs ?_
      rw [silent _ _ (by rw [heard, if_pos hlong.1])]
      exact (Option.some.inj h).symm
    split at h
    · next hjson => exact .malformed _ _ hs hjson (Option.some.inj h).symm
    · next object hjson =>
      refine .frame _ _ hs ?_
      split at h
      · next hid =>
        rw [silent _ _ (by rw [heard, if_pos hid])]
        exact (Option.some.inj h).symm
      · next hid =>
        have hheard : heard fromJson (fromBigEndian h₀ h₁, rest.take (fromBigEndian h₂ h₃).toNat) =
            some (fromBigEndian h₀ h₁, object) := by
          simp only [heard, if_neg hid, hjson, Option.map_some]
        simp only [afterFrame, hheard, Option.toList_some]
        exact (Option.some.inj h).symm
  · next hshort =>
    refine .ended (.inr ?_) (Option.some.inj h).symm
    unfold Incomplete splitFrame
    split
    · next h₀ h₁ h₂ h₃ rest hbuffer => exact absurd hbuffer (hshort h₀ h₁ h₂ h₃ rest)
    · rfl

/-- A loop that has ended leaves no complete frame of its own connection. -/
theorem Faithful.ended (h : Faithful fromJson t) {g : Nat} {loops : List Nat} (hloops : t.loops = g :: loops)
    (hg : g ≠ t.generation ∨ Incomplete t.buffer) : Faithful fromJson { t with loops := loops } := by
  obtain ⟨past, ⟨handled, ⟨hr, he⟩, htail⟩, future, settled, bounded, connected, written, fits⟩ := h
  have hsub : ∀ g' ∈ loops, g' ∈ t.loops := by
    rw [hloops]
    exact fun g' => List.mem_cons_of_mem _
  refine ⟨fun g => ?_, ⟨handled, ⟨hr, he⟩, htail⟩, future, ?_, fun g' hg' => bounded g' (hsub g' hg'),
    fun hmem => connected (hsub _ hmem), written, fits⟩
  · obtain ⟨handled, pending, hr, he⟩ := past g
    exact ⟨handled, pending, hr, he⟩
  · rcases hg with hg | hincomplete
    · rcases settled with hmem | hincomplete
      · rw [hloops] at hmem
        rcases List.mem_cons.mp hmem with heq | hmem
        · exact absurd heq.symm hg
        · exact .inl hmem
      · exact .inr hincomplete
    · exact .inr hincomplete

theorem Faithful.afterFrame (h : Faithful fromJson t) {m : Message} {rest : Bytes}
    (hs : splitFrame t.buffer = some (m, rest)) (hmem : t.generation ∈ t.loops) :
    Faithful fromJson (t.afterFrame fromJson m rest) := by
  obtain ⟨past, ⟨handled, ⟨hr, he⟩, htail⟩, future, settled, bounded, connected, written, fits⟩ := h
  have hframes : frames t.buffer = (m :: (frames rest).1, (frames rest).2) :=
    Splitter.decode_of_some (S := frameSplitter) hs
  rw [hframes] at hr htail
  have hr' : (frames (t.received t.generation)).1 = (handled ++ [m]) ++ (frames rest).1 := by
    rw [hr, List.append_assoc, List.singleton_append]
  have he' : t.emitted t.generation ++ (heard fromJson m).toList = (handled ++ [m]).filterMap (heard fromJson) := by
    rw [he, List.filterMap_append]
    cases hm : heard fromJson m <;> simp [hm]
  refine ⟨fun g => ?_, ⟨handled ++ [m], ⟨hr', ?_⟩, htail⟩, fun g hg => ?_, .inl hmem, bounded, connected, written, fits⟩
  · by_cases hg : g = t.generation
    · subst hg
      refine ⟨handled ++ [m], _, hr', ?_⟩
      simp only [TcpMgr.afterFrame, Function.update_self]
      exact he'
    · obtain ⟨handled, pending, hr, he⟩ := past g
      refine ⟨handled, pending, hr, ?_⟩
      simp only [TcpMgr.afterFrame, Function.update_of_ne hg]
      exact he
  · simp only [TcpMgr.afterFrame, Function.update_self]
    exact he'
  · have hne : g ≠ t.generation := Nat.ne_of_gt hg
    simp only [TcpMgr.afterFrame, Function.update_of_ne hne]
    exact future g hg

/-- A connection that was given up in the middle of its buffer. -/
theorem Faithful.malformed (h : Faithful fromJson t) {g : Nat} {loops : List Nat} (hloops : t.loops = g :: loops)
    (hmem : t.generation ∈ t.loops) (rest : Bytes) :
    Faithful fromJson { { t with buffer := rest }.connectionLost with loops := loops } := by
  have hclosed : { { t with buffer := rest }.connectionLost with loops := loops } =
      { t.closeConnection with loops := loops } := by
    unfold TcpMgr.connectionLost
    split
    · next hnone => exact absurd hnone (h.connected hmem)
    · rfl
  rw [hclosed]
  refine h.closeConnection.ended (t := t.closeConnection) hloops (.inr incomplete_nil)

theorem Faithful.readRound (h : Faithful fromJson t) (hs : t.readRound fromJson = some t') : Faithful fromJson t' := by
  obtain ⟨g, loops, hloops⟩ : ∃ g loops, t.loops = g :: loops := by
    unfold TcpMgr.readRound at hs
    split at hs
    · cases hs
    · next g loops hloops => exact ⟨g, loops, hloops⟩
  have current : ∀ {m : Message} {rest : Bytes}, splitFrame t.buffer = some (m, rest) → t.generation ∈ t.loops := by
    intro m rest hframe
    rcases h.settled with hmem | hincomplete
    · exact hmem
    · exact nomatch hframe.symm.trans hincomplete
  cases readRound_cases hloops hs with
  | ended hg ht' =>
    subst ht'
    exact h.ended hloops hg
  | frame m rest hframe ht' =>
    subst ht'
    exact h.afterFrame hframe (current hframe)
  | malformed m rest hframe hjson ht' =>
    subst ht'
    exact h.malformed hloops (current hframe) rest

theorem Faithful.sendData (h : Faithful fromJson t) (id : UInt16) (data : Bytes) (waiting : Nat) (write : Bool) :
    Faithful fromJson (t.sendData id data waiting write) := by
  unfold TcpMgr.sendData
  split
  · exact h
  next hmay =>
  split
  · exact h.connectionLost
  split
  · obtain ⟨past, ⟨handled, ⟨hr, he⟩, htail⟩, future, settled, bounded, connected, written, fits⟩ := h
    refine ⟨fun g => ?_, ⟨handled, ⟨hr, he⟩, htail⟩, fun g hg => ?_, settled, bounded, connected, fun g => ?_,
      fun g m hm => ?_⟩
    · obtain ⟨handled, pending, hr, he⟩ := past g
      exact ⟨handled, pending, hr, he⟩
    · have hne : g ≠ t.generation := Nat.ne_of_gt hg
      simp only [Function.update_of_ne hne]
      exact future g hg
    · by_cases hg : g = t.generation
      · subst hg
        simp only [Function.update_self, written, stream, List.map_append, List.map_cons, List.map_nil,
          List.flatten_append, List.flatten_cons, List.flatten_nil, List.append_nil]
      · simp only [Function.update_of_ne hg, written]
    · by_cases hg : g = t.generation
      · subst hg
        simp only [Function.update_self, List.mem_append, List.mem_singleton] at hm
        rcases hm with hm | rfl
        · exact fits _ m hm
        · have hsize : ¬ data.length > 65535 := fun hbig => hmay (.inr (.inr hbig))
          exact Nat.not_lt.mp hsize
      · simp only [Function.update_of_ne hg] at hm
        exact fits g m hm
  · exact h.connectionLost

theorem Faithful.step {e : Event} (h : Faithful fromJson t) (hs : t.step fromJson e = some t') :
    Faithful fromJson t' := by
  cases e with
  | connect =>
    cases hs
    obtain ⟨past, ⟨handled, ⟨hr, he⟩, htail⟩, future, settled, bounded, connected, written, fits⟩ := h.closeConnection
    refine ⟨fun g => ?_, ⟨handled, ⟨hr, he⟩, htail⟩, future, settled, bounded, fun _ => nofun, written, fits⟩
    obtain ⟨handled, pending, hr, he⟩ := past g
    exact ⟨handled, pending, hr, he⟩
  | connected =>
    simp only [TcpMgr.step] at hs
    split at hs
    · cases hs
      obtain ⟨past, ⟨handled, ⟨hr, he⟩, htail⟩, future, settled, bounded, connected, written, fits⟩ := h
      refine ⟨fun g => ?_, ⟨handled, ⟨hr, he⟩, htail⟩, future, settled, bounded, fun _ => nofun, written, fits⟩
      obtain ⟨handled, pending, hr, he⟩ := past g
      exact ⟨handled, pending, hr, he⟩
    · cases hs
  | closeConnection =>
    cases hs
    exact h.closeConnection
  | connectionLost =>
    cases hs
    exact h.connectionLost
  | setBusinessReady ready =>
    cases hs
    obtain ⟨past, ⟨handled, ⟨hr, he⟩, htail⟩, future, settled, bounded, connected, written, fits⟩ := h
    refine ⟨fun g => ?_, ⟨handled, ⟨hr, he⟩, htail⟩, future, settled, bounded, connected, written, fits⟩
    obtain ⟨handled, pending, hr, he⟩ := past g
    exact ⟨handled, pending, hr, he⟩
  | beginRead available =>
    cases hs
    exact h.beginRead available
  | readRound => exact h.readRound hs
  | sendData id data waiting write =>
    cases hs
    exact h.sendData id data waiting write

theorem faithful_of_reachable (h : t.Reachable fromJson) : Faithful fromJson t :=
  Reach.invariant fresh_faithful (fun _ _ _ hi _ hs => hi.step hs) h

/-- Between two calls of `readIncoming` the slots have heard every message the connection has brought. -/
theorem Faithful.between (h : Faithful fromJson t) (hloops : t.loops = []) :
    t.emitted t.generation = (frames (t.received t.generation)).1.filterMap (heard fromJson) ∧
      t.buffer = (frames (t.received t.generation)).2 := by
  obtain ⟨handled, ⟨hr, he⟩, htail⟩ := h.present
  have hincomplete : Incomplete t.buffer := by
    rcases h.settled with hmem | hincomplete
    · rw [hloops] at hmem
      exact absurd hmem List.not_mem_nil
    · exact hincomplete
  rw [frames_incomplete hincomplete] at hr htail
  rw [hr, htail, List.append_nil]
  exact ⟨he, rfl⟩

/-! ### A call that is left alone comes to its end -/

theorem readRound_isSome (fromJson : Bytes → Option Object) {g : Nat} {loops : List Nat} (hloops : t.loops = g :: loops) :
    ∃ t', t.readRound fromJson = some t' := by
  unfold TcpMgr.readRound
  split
  · next hnil => exact nomatch hloops.symm.trans hnil
  repeat' first | exact ⟨_, rfl⟩ | split | dsimp only

/-- What a call that is left alone leads to. -/
structure Read (fromJson : Bytes → Option Object) (t t' : TcpMgr Object) : Prop where
  run : Reach (TcpMgr.step fromJson) (fun _ _ => True) t t'
  generation : t'.generation = t.generation
  socket : t'.socket = t.socket
  buffer : t'.buffer = (frames t.buffer).2
  received : t'.received = t.received

/-- Every message of these bytes is a JSON object. -/
def Objects (fromJson : Bytes → Option Object) (bytes : Bytes) : Prop :=
  ∀ m ∈ (frames bytes).1, ∃ object, fromJson m.2 = some object

theorem finishRead_read (xs : Bytes) : ∀ (t : TcpMgr Object) (loops : List Nat), t.buffer = xs →
    t.loops = t.generation :: loops → Objects fromJson xs →
    Read fromJson t (t.finishRead fromJson) ∧ (t.finishRead fromJson).loops = loops := by
  induction xs using frameSplitter.induction_on with
  | none xs hs =>
    intro t loops hbuffer hloops _
    obtain ⟨t', ht'⟩ := readRound_isSome fromJson hloops
    have hincomplete : Incomplete t.buffer := hbuffer ▸ hs
    have hend : t' = { t with loops := loops } := by
      cases readRound_cases hloops ht' with
      | ended _ h => exact h
      | frame m rest hframe => cases hframe.symm.trans hincomplete
      | malformed m rest hframe => cases hframe.symm.trans hincomplete
    have hshort : t'.loops.length < t.loops.length := by
      rw [hend, hloops]
      exact Nat.lt_succ_self _
    have hfinish : t.finishRead fromJson = t' := by
      unfold finishRead
      split
      · next hnone => cases ht'.symm.trans hnone
      · next u hu =>
        cases ht'.symm.trans hu
        exact dif_pos hshort
    rw [hfinish, hend]
    refine ⟨⟨Reach.start.next (e := .readRound) trivial (hend ▸ ht'), rfl, rfl, ?_, rfl⟩, rfl⟩
    rw [frames_incomplete hincomplete]
  | some xs m ys hs ih =>
    intro t loops hbuffer hloops hobjects
    obtain ⟨t', ht'⟩ := readRound_isSome fromJson hloops
    have hs : splitFrame t.buffer = some (m, ys) := hbuffer ▸ hs
    have hframes : frames xs = (m :: (frames ys).1, (frames ys).2) :=
      hbuffer ▸ Splitter.decode_of_some (S := frameSplitter) hs
    obtain ⟨object, hobject⟩ := hobjects m (by rw [hframes]; exact List.mem_cons_self)
    have hnext : t' = t.afterFrame fromJson m ys := by
      cases readRound_cases hloops ht' with
      | ended hor _ =>
        rcases hor with hne | hincomplete
        · exact absurd rfl hne
        · cases hs.symm.trans hincomplete
      | frame m' rest hframe h =>
        obtain ⟨rfl, rfl⟩ := Prod.mk.inj (Option.some.inj (hs.symm.trans hframe))
        exact h
      | malformed m' rest hframe hjson =>
        obtain ⟨rfl, rfl⟩ := Prod.mk.inj (Option.some.inj (hs.symm.trans hframe))
        cases hobject.symm.trans hjson
    have hfinish : t.finishRead fromJson = t'.finishRead fromJson := by
      rw [finishRead.eq_def fromJson t]
      split
      · next hnone => cases ht'.symm.trans hnone
      · next u hu =>
        cases ht'.symm.trans hu
        exact dif_neg (by rw [hnext]; exact Nat.lt_irrefl _)
    obtain ⟨hread, hloops'⟩ := ih t' loops (by rw [hnext]; rfl) (by rw [hnext]; exact hloops)
      (fun m' hm' => hobjects m' (by rw [hframes]; exact List.mem_cons_of_mem _ hm'))
    rw [hfinish]
    refine ⟨⟨(Reach.start.next (e := .readRound) trivial ht').trans hread.run, ?_, ?_, ?_, ?_⟩, hloops'⟩
    · rw [hread.generation, hnext]
      rfl
    · rw [hread.socket, hnext]
      rfl
    · rw [hread.buffer, hbuffer, hframes, hnext]
      rfl
    · rw [hread.received, hnext]
      rfl

/-- A call of `readIncoming` that finds `available`, and is left alone. -/
theorem readIncoming_read (hsocket : t.socket ≠ none) (hloops : t.loops = []) {available : Bytes}
    (hobjects : Objects fromJson (t.buffer ++ available)) :
    Read fromJson (t.beginRead available) (t.readIncoming fromJson available) ∧
      (t.readIncoming fromJson available).loops = [] ∧
      Reach (TcpMgr.step fromJson) (fun _ _ => True) t (t.readIncoming fromJson available) := by
  obtain ⟨state, hstate⟩ := Option.ne_none_iff_exists'.mp hsocket
  have hread : t.readIncoming fromJson available = (t.beginRead available).finishRead fromJson := by
    simp only [readIncoming, hstate]
  have hbegin : t.beginRead available = { t with
      buffer := t.buffer ++ available
      received := Function.update t.received t.generation (t.received t.generation ++ available)
      loops := t.generation :: t.loops } := by
    simp only [TcpMgr.beginRead, hstate]
  obtain ⟨hfinish, hend⟩ := finishRead_read (t.buffer ++ available) (t.beginRead available) [] (by rw [hbegin])
    (by rw [hbegin, hloops]) hobjects
  rw [hread]
  exact ⟨hfinish, hend, (Reach.start.next (e := .beginRead available) trivial rfl).trans hfinish.run⟩

/-- However the bytes of a connection are cut, the calls that read them come to their ends. -/
theorem readAll (pieces : List Bytes) : ∀ t : TcpMgr Object, t.socket ≠ none → t.loops = [] → Incomplete t.buffer →
    Objects fromJson (t.buffer ++ pieces.flatten) →
    let t' := pieces.foldl (readIncoming fromJson) t
    Reach (TcpMgr.step fromJson) (fun _ _ => True) t t' ∧ t'.loops = [] ∧ t'.generation = t.generation ∧
      t'.received t.generation = t.received t.generation ++ pieces.flatten := by
  induction pieces with
  | nil =>
    intro t _ hloops _ _
    exact ⟨.start, hloops, rfl, (List.append_nil _).symm⟩
  | cons piece pieces ih =>
    intro t hsocket hloops hbuffer hobjects
    obtain ⟨state, hstate⟩ := Option.ne_none_iff_exists'.mp hsocket
    rw [List.flatten_cons, ← List.append_assoc] at hobjects
    have hcut := frames_append (t.buffer ++ piece) pieces.flatten
    have hfirst : Objects fromJson (t.buffer ++ piece) := by
      intro m hm
      refine hobjects m ?_
      rw [hcut]
      exact List.mem_append_left _ hm
    obtain ⟨hread, hend, hrun⟩ := readIncoming_read hsocket hloops hfirst
    have hbegin : t.beginRead piece = { t with
        buffer := t.buffer ++ piece
        received := Function.update t.received t.generation (t.received t.generation ++ piece)
        loops := t.generation :: t.loops } := by
      simp only [TcpMgr.beginRead, hstate]
    rw [hbegin] at hread
    obtain ⟨-, hgeneration, hsocket', hbuffer', hreceived⟩ := hread
    obtain ⟨hrun', hloops', hgeneration', hreceived'⟩ := ih (t.readIncoming fromJson piece)
      (by rw [hsocket']; exact hsocket) hend (by rw [hbuffer']; exact incomplete_rest _) (by
        rw [hbuffer']
        intro m hm
        refine hobjects m ?_
        rw [hcut]
        exact List.mem_append_right _ hm)
    rw [hgeneration] at hgeneration' hreceived'
    refine ⟨hrun.trans hrun', hloops', hgeneration', ?_⟩
    rw [List.foldl_cons, hreceived', hreceived]
    simp only [Function.update_self, List.flatten_cons, List.append_assoc]

end TcpMgr

/-! ## There and back -/

/-- The beginning of a frame of which more is to come. -/
def Begun (P : Message → Prop) (tail : Bytes) : Prop :=
  ∃ m more, P m ∧ more ≠ [] ∧ streamFrame m.1 m.2 = tail ++ more

/-- A message the slots of the client hear: no heartbeat, and the text of a JSON object. -/
structure ToClient {Object : Type} (fromJson : Bytes → Option Object) (m : Message) (object : Object) : Prop where
  fits : Fits m
  ordinary : m.1 ≠ heartbeatResponse
  parses : fromJson m.2 = some object

/-- What one end writes the other end reads, and a generation of the client reads its own connection only. -/
structure RoundTrip {Object : Type} (fromJson : Bytes → Option Object) : Prop where
  /-- On a new connection of the client, the frames of `Session::Send` are heard in order, however they are cut, and
  an incomplete one stays in the buffer. -/
  toClient : ∀ (ms : List (Message × Object)) (tail : Bytes) (pieces : List Bytes) (t : TcpMgr Object),
    t.Reachable fromJson → t.socket ≠ none → t.loops = [] → t.received t.generation = [] →
    (∀ p ∈ ms, ToClient fromJson p.1 p.2) → Begun Fits tail →
    pieces.flatten = (ms.map fun p => sessionFrame p.1.1 p.1.2).flatten ++ tail →
    let t' := pieces.foldl (TcpMgr.readIncoming fromJson) t
    t'.generation = t.generation ∧ t'.emitted t.generation = ms.map (fun p => (p.1.1, p.2)) ∧ t'.buffer = tail
  /-- On a new session, the frames of `slot_send_data` are posted in order, however they are cut, and an incomplete
  one stays in the buffer. -/
  toServer : ∀ (ms : List Message) (tail : Bytes) (pieces : List Bytes), (∀ m ∈ ms, ToServer m) → Begun ToServer tail →
    pieces.flatten = (ms.map fun m => streamFrame m.1 m.2).flatten ++ tail →
    recorder.handleRead pieces [] {} = (tail, { messages := ms })
  /-- What a socket of the client was given is the frames of the requests written on it. -/
  written : ∀ t : TcpMgr Object, t.Reachable fromJson → ∀ g,
    t.written g = ((t.requests g).map fun m => streamFrame m.1 m.2).flatten
  /-- Whatever the slots do, a generation emits messages of the bytes of its own connection, from the first on. -/
  isolated : ∀ t : TcpMgr Object, t.Reachable fromJson → ∀ g,
    t.emitted g <+: (frames (t.received g)).1.filterMap (TcpMgr.heard fromJson)
  /-- When no call of `readIncoming` is in progress, it has emitted all of them. -/
  complete : ∀ t : TcpMgr Object, t.Reachable fromJson → t.loops = [] →
    t.emitted t.generation = (frames (t.received t.generation)).1.filterMap (TcpMgr.heard fromJson) ∧
      t.buffer = (frames (t.received t.generation)).2

theorem begun_incomplete {P : Message → Prop} (hP : ∀ m, P m → Fits m) {tail : Bytes} (h : Begun P tail) :
    Incomplete tail := by
  obtain ⟨m, more, hm, hne, heq⟩ := h
  exact incomplete_of_prefix (hP m hm) hne heq

theorem server_reads {ms : List Message} {tail : Bytes} {pieces : List Bytes} (hms : ∀ m ∈ ms, ToServer m)
    (htail : Begun ToServer tail) (heq : pieces.flatten = stream ms ++ tail) :
    recorder.handleRead pieces [] {} = (tail, { messages := ms }) := by
  have hincomplete := begun_incomplete (fun _ hm => ToServer.fits hm) htail
  obtain ⟨m, more, hm, -, hmore⟩ := htail
  have hall : [] ++ pieces.flatten ++ more = stream (ms ++ [m]) := by
    simp only [heq, stream, List.nil_append, List.map_append, List.map_cons, List.map_nil, List.flatten_append,
      List.flatten_cons, List.flatten_nil, List.append_nil, hmore, List.append_assoc]
  have hvalid : ∀ m' ∈ ms ++ [m], ToServer m' := by
    intro m' hm'
    rcases List.mem_append.mp hm' with hm' | hm'
    · exact hms m' hm'
    · rw [List.mem_singleton.mp hm']
      exact hm
  rw [handleRead_eq pieces (ms ++ [m]) [] more {} hvalid TcpMgr.incomplete_nil rfl hall, List.nil_append, heq,
    frames_stream (fun m' hm' => (hms m' hm').fits), frames_incomplete hincomplete]
  simp only [Posted.add, List.append_nil, List.nil_append]

theorem client_reads {Object : Type} {fromJson : Bytes → Option Object} {ms : List (Message × Object)} {tail : Bytes}
    {pieces : List Bytes} {t : TcpMgr Object} (hreach : t.Reachable fromJson) (hsocket : t.socket ≠ none)
    (hloops : t.loops = []) (hnew : t.received t.generation = []) (hms : ∀ p ∈ ms, ToClient fromJson p.1 p.2)
    (htail : Incomplete tail) (heq : pieces.flatten = stream (ms.map Prod.fst) ++ tail) :
    let t' := pieces.foldl (TcpMgr.readIncoming fromJson) t
    t'.generation = t.generation ∧ t'.emitted t.generation = ms.map (fun p => (p.1.1, p.2)) ∧ t'.buffer = tail := by
  have hbuffer : t.buffer = [] := by
    rw [((TcpMgr.faithful_of_reachable hreach).between hloops).2, hnew, TcpMgr.frames_nil]
  have hfits : ∀ m ∈ ms.map Prod.fst, Fits m := by
    intro m hm
    obtain ⟨p, hp, rfl⟩ := List.mem_map.mp hm
    exact (hms p hp).fits
  have hframes : frames pieces.flatten = (ms.map Prod.fst, tail) := by
    rw [heq, frames_stream hfits, frames_incomplete htail, List.append_nil]
  have hobjects : TcpMgr.Objects fromJson (t.buffer ++ pieces.flatten) := by
    intro m hm
    rw [hbuffer, List.nil_append, hframes] at hm
    obtain ⟨p, hp, rfl⟩ := List.mem_map.mp hm
    exact ⟨p.2, (hms p hp).parses⟩
  obtain ⟨hrun, hend, hgeneration, hreceived⟩ :=
    TcpMgr.readAll pieces t hsocket hloops (hbuffer ▸ TcpMgr.incomplete_nil) hobjects
  obtain ⟨hemitted, hrest⟩ := (TcpMgr.faithful_of_reachable (hreach.trans hrun)).between hend
  rw [hgeneration, hreceived, hnew, List.nil_append, hframes] at hemitted hrest
  refine ⟨hgeneration, hemitted.trans ?_, hrest⟩
  rw [List.filterMap_map, ← List.filterMap_eq_map]
  refine List.filterMap_congr fun p hp => ?_
  simp only [Function.comp_apply, TcpMgr.heard, if_neg (hms p hp).ordinary, (hms p hp).parses, Option.map_some]

/-- The frames of both ends make the round trip. -/
theorem round_trip {Object : Type} (fromJson : Bytes → Option Object) : RoundTrip fromJson where
  toClient ms tail pieces t hreach hsocket hloops hnew hms htail heq := by
    refine client_reads hreach hsocket hloops hnew hms (begun_incomplete (fun _ hm => hm) htail) ?_
    simp only [heq, stream, List.map_map, sessionFrame_eq]
    rfl
  toServer ms tail pieces hms htail heq := server_reads hms htail heq
  written t hreach := (TcpMgr.faithful_of_reachable hreach).written
  isolated t hreach g := by
    obtain ⟨handled, pending, hr, he⟩ := (TcpMgr.faithful_of_reachable hreach).past g
    rw [hr, he, List.filterMap_append]
    exact List.prefix_append _ _
  complete t hreach hloops := (TcpMgr.faithful_of_reachable hreach).between hloops

end SyncRtc.Net
