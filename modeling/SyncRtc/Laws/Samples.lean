import SyncRtc.Client.AudioEncodeWorker
import SyncRtc.Lib.Transition

/-!
# No sample is lost from the count

What the worker holds is described by the places of its samples in the stream of all that was enqueued: the pending
samples are the last ones, a packet is 960 samples in the order of their places, and where a drop has torn a frame the
samples behind the tear are the ones at their timestamps.
-/

set_option autoImplicit false

namespace SyncRtc.Client

variable {Byte : Type}

/-! ## Samples of a stream -/

section Stream

/-- The two bytes of a sample. -/
def sampleAt (stream : List Byte) (p : Nat) : List Byte := (stream.drop (2 * p)).take 2

/-- The samples at some places. -/
def samplesAt (stream : List Byte) (ps : List Nat) : List Byte := ps.flatMap (sampleAt stream)

theorem samplesAt_append (stream : List Byte) (ps qs : List Nat) :
    samplesAt stream (ps ++ qs) = samplesAt stream ps ++ samplesAt stream qs := List.flatMap_append

theorem sampleAt_length {stream : List Byte} {n p : Nat} (hn : stream.length = 2 * n) (hp : p < n) :
    (sampleAt stream p).length = 2 := by
  rw [sampleAt, List.length_take, List.length_drop]
  omega

/-- A sample stays where it is when the stream goes on. -/
theorem sampleAt_extend {stream : List Byte} {n p : Nat} (hn : stream.length = 2 * n) (hp : p < n) (more : List Byte) :
    sampleAt (stream ++ more) p = sampleAt stream p := by
  rw [sampleAt, sampleAt, List.drop_append_of_le_length (by omega), List.take_append_of_le_length]
  rw [List.length_drop]
  omega

theorem samplesAt_extend {stream : List Byte} {n : Nat} (hn : stream.length = 2 * n) {ps : List Nat}
    (hps : ∀ p ∈ ps, p < n) (more : List Byte) : samplesAt (stream ++ more) ps = samplesAt stream ps := by
  induction ps with
  | nil => rfl
  | cons p ps ih =>
    have hrest := ih fun q hq => hps q (List.mem_cons_of_mem p hq)
    have hp := sampleAt_extend hn (hps p List.mem_cons_self) more
    simp only [samplesAt, List.flatMap_cons] at hrest ⊢
    rw [hp, hrest]

theorem samplesAt_length {stream : List Byte} {n : Nat} (hn : stream.length = 2 * n) {ps : List Nat}
    (hps : ∀ p ∈ ps, p < n) : (samplesAt stream ps).length = 2 * ps.length := by
  induction ps with
  | nil => rfl
  | cons p ps ih =>
    have hrest := ih fun q hq => hps q (List.mem_cons_of_mem p hq)
    have hp := sampleAt_length hn (hps p List.mem_cons_self)
    simp only [samplesAt, List.flatMap_cons, List.length_append, List.length_cons] at hrest ⊢
    omega

theorem samplesAt_drop {stream : List Byte} {n : Nat} (hn : stream.length = 2 * n) {ps : List Nat}
    (hps : ∀ p ∈ ps, p < n) (j : Nat) : (samplesAt stream ps).drop (2 * j) = samplesAt stream (ps.drop j) := by
  rcases Nat.le_total j ps.length with hj | hj
  · have hlen : (samplesAt stream (ps.take j)).length = 2 * j := by
      rw [samplesAt_length hn fun p hp => hps p (List.mem_of_mem_take hp), List.length_take, Nat.min_eq_left hj]
    conv_lhs => rw [← List.take_append_drop j ps, samplesAt_append, ← hlen, List.drop_left]
  · rw [List.drop_eq_nil_of_le hj, List.drop_eq_nil_of_le]
    · rfl
    · rw [samplesAt_length hn hps]
      omega

theorem samplesAt_take {stream : List Byte} {n : Nat} (hn : stream.length = 2 * n) {ps : List Nat}
    (hps : ∀ p ∈ ps, p < n) {j : Nat} (hj : j ≤ ps.length) :
    (samplesAt stream ps).take (2 * j) = samplesAt stream (ps.take j) := by
  have hlen : (samplesAt stream (ps.take j)).length = 2 * j := by
    rw [samplesAt_length hn fun p hp => hps p (List.mem_of_mem_take hp), List.length_take, Nat.min_eq_left hj]
  conv_lhs => rw [← List.take_append_drop j ps, samplesAt_append, ← hlen, List.take_left]

/-- What is appended is the samples at the last places. -/
theorem samplesAt_appended {stream pcm : List Byte} {n c : Nat} (hn : stream.length = 2 * n) (hc : pcm.length = 2 * c) :
    samplesAt (stream ++ pcm) (List.range' n c) = pcm := by
  induction c generalizing stream pcm n with
  | zero => exact (List.eq_nil_of_length_eq_zero hc).symm
  | succ c ih =>
    match pcm, hc with
    | a :: b :: rest, hc =>
      have hrest : rest.length = 2 * c := by
        simp only [List.length_cons] at hc
        omega
      have hstream : stream ++ a :: b :: rest = (stream ++ [a, b]) ++ rest := by simp
      have hnext : (stream ++ [a, b]).length = 2 * (n + 1) := by
        rw [List.length_append, hn]
        rfl
      have hhere : sampleAt (stream ++ a :: b :: rest) n = [a, b] := by
        rw [sampleAt, ← hn, List.drop_left]
        rfl
      rw [List.range'_succ, samplesAt, List.flatMap_cons, hhere]
      change [a, b] ++ samplesAt (stream ++ a :: b :: rest) (List.range' (n + 1) c) = _
      rw [hstream, ih hnext hrest]
      rfl

end Stream

/-! ## What is dropped -/

section Drops

open AudioEncodeWorker

theorem droppedBytes_even (size : Nat) : droppedBytes size = 2 * (droppedBytes size / 2) := by
  unfold droppedBytes
  split <;> omega

theorem overflowBytes_of_fits {size : Nat} (h : size < 2 ^ 31 + maxQueuedAudioBytes) :
    overflowBytes size = (size : Int) - maxQueuedAudioBytes := by
  have hmax : maxQueuedAudioBytes = 5760 := rfl
  unfold overflowBytes
  rw [hmax] at h ⊢
  exact Int.bmod_eq_of_le_mul_two (by omega) (by omega)

theorem overflowBytes_le (size : Nat) : overflowBytes size ≤ (size : Int) - maxQueuedAudioBytes := by
  have hmax : maxQueuedAudioBytes = 5760 := rfl
  rcases Nat.lt_or_ge size (2 ^ 31 + maxQueuedAudioBytes) with hsize | hsize
  · rw [overflowBytes_of_fits hsize]
  · rw [hmax] at hsize ⊢
    unfold overflowBytes
    have hlt := Int.bmod_lt (x := (size : Int) - (5760 : Nat)) (m := 2 ^ 32) (by decide)
    rw [hmax]
    omega

/-- A drop leaves the newest bytes. -/
theorem droppedBytes_le (size : Nat) : droppedBytes size ≤ size := by
  unfold droppedBytes
  split
  next h =>
    have := overflowBytes_le size
    omega
  · exact Nat.zero_le _

/-- Within the range of an `int` the pending PCM is cut down to its limit. -/
theorem droppedBytes_suffices {size : Nat} (h : size < 2 ^ 31 + maxQueuedAudioBytes) (heven : size % 2 = 0) :
    size - droppedBytes size ≤ maxQueuedAudioBytes := by
  have hmax : maxQueuedAudioBytes = 5760 := rfl
  unfold droppedBytes
  rw [overflowBytes_of_fits h, hmax]
  split <;> omega

end Drops

/-! ## The places of what the worker holds -/

section Places

/-- The partial frame: the samples at the places `ps`, and from the `a`-th on they are at their timestamps. -/
structure Placed (stream : List Byte) (pts : Nat) (buffer : List Byte) (ps : List Nat) (a : Nat) : Prop where
  buffer : buffer = samplesAt stream ps
  increasing : ps.Pairwise (· < ·)
  below : ∀ p ∈ ps, p < pts + ps.length
  timed : ∀ i p, a ≤ i → ps[i]? = some p → p = pts + i

variable {stream buffer : List Byte} {pts a : Nat} {ps : List Nat}

theorem placed_nil (stream : List Byte) (pts a : Nat) : Placed stream pts [] [] a := ⟨rfl, .nil, nofun, nofun⟩

theorem Placed.extend (h : Placed stream pts buffer ps a) {n : Nat} (hn : stream.length = 2 * n)
    (hle : pts + ps.length ≤ n) (more : List Byte) : Placed (stream ++ more) pts buffer ps a :=
  ⟨by rw [h.buffer, samplesAt_extend hn fun p hp => Nat.lt_of_lt_of_le (h.below p hp) hle], h.increasing, h.below,
    h.timed⟩

/-- A drop tears the frame, and what is appended behind it is at its timestamps. -/
theorem Placed.advance (h : Placed stream pts buffer ps a) (dropped j : Nat) :
    Placed stream (pts + dropped) (buffer ++ samplesAt stream (List.range' (pts + ps.length + dropped) j))
      (ps ++ List.range' (pts + ps.length + dropped) j) ps.length := by
  refine ⟨by rw [h.buffer, samplesAt_append], ?_, ?_, ?_⟩
  · refine List.pairwise_append.mpr ⟨h.increasing, List.pairwise_lt_range', fun p hp q hq => ?_⟩
    have := h.below p hp
    obtain ⟨hq, -⟩ := List.mem_range'_1.mp hq
    omega
  · intro p hp
    rw [List.length_append, List.length_range']
    rcases List.mem_append.mp hp with hp | hp
    · have := h.below p hp
      omega
    · obtain ⟨-, hp⟩ := List.mem_range'_1.mp hp
      omega
  · intro i p hi hp
    rw [List.getElem?_append_right hi] at hp
    obtain ⟨hlt, rfl⟩ := List.getElem?_eq_some_iff.mp hp
    rw [List.getElem_range']
    omega

/-- A frame is cut off the front: it ends at the sample its timestamp says, and what is left is at its timestamps. -/
theorem Placed.cut (h : Placed stream pts buffer ps a) {n : Nat} (hn : stream.length = 2 * n)
    (hle : pts + ps.length ≤ n) (ha : a ≤ 959) (hlen : 960 ≤ ps.length) :
    Placed stream (pts + 960) (buffer.drop 1920) (ps.drop 960) 0 ∧
      buffer.take 1920 = samplesAt stream (ps.take 960) ∧ (ps.take 960).length = 960 ∧
      (ps.take 960).Pairwise (· < ·) ∧ (ps.take 960).getLast? = some (pts + 959) := by
  have hbelow : ∀ p ∈ ps, p < n := fun p hp => Nat.lt_of_lt_of_le (h.below p hp) hle
  refine ⟨⟨?_, h.increasing.drop, ?_, ?_⟩, ?_, ?_, h.increasing.take, ?_⟩
  · rw [h.buffer]
    exact samplesAt_drop hn hbelow 960
  · intro p hp
    have := h.below p (List.mem_of_mem_drop hp)
    rw [List.length_drop]
    omega
  · intro i p _ hp
    rw [List.getElem?_drop] at hp
    have := h.timed (960 + i) p (by omega) hp
    omega
  · rw [h.buffer]
    exact samplesAt_take hn hbelow hlen
  · rw [List.length_take, Nat.min_eq_left hlen]
  · have hlast : ps[959]? = some ps[959] := List.getElem?_eq_getElem _
    rw [List.getLast?_eq_getElem?, List.length_take, Nat.min_eq_left hlen, List.getElem?_take_of_lt (by decide), hlast,
      h.timed 959 _ ha hlast]

/-- What the worker's thread has of the stream: the first `m` samples, less those it has encoded or passed over. -/
def Reached (stream : List Byte) (w : AudioEncodeWorker Byte) (m : Nat) : Prop :=
  match w.call with
  | .idle => ∃ ps, Placed stream w.audioPts w.audioPcmBuffer ps ps.length ∧ ps.length < 960 ∧
      w.audioPts + ps.length = m
  | .taken pendingPcm droppedSamples => ∃ ps j, Placed stream w.audioPts w.audioPcmBuffer ps ps.length ∧
      ps.length < 960 ∧
      pendingPcm = samplesAt stream (List.range' (w.audioPts + ps.length + droppedSamples) j) ∧
      w.audioPts + ps.length + droppedSamples + j = m
  | .framing => ∃ ps, Placed stream w.audioPts w.audioPcmBuffer ps 959 ∧ w.audioPts + ps.length = m

/-- A packet made of the stream. -/
structure Cut (stream : List Byte) (packet : StampedAudio Byte) : Prop where
  timestamp : packet.rtpTimestamp = packet.pts.toUInt32
  places : ∃ ps, packet.pcm = samplesAt stream ps ∧ ps.length = 960 ∧ ps.Pairwise (· < ·) ∧
    ps.getLast? = some (packet.pts + 959)

/-- What is kept between a start and a stop. -/
structure Accounted (r : AudioRun Byte) (n k m : Nat) : Prop where
  started : r.worker.audioStarted = true
  accepting : r.worker.acceptingPcm = true
  timestamp : r.worker.audioTimestamp = r.worker.audioPts.toUInt32
  stream : r.stream.length = 2 * n
  pending : r.worker.pendingPcm = samplesAt r.stream (List.range' (n - k) k)
  count : m + r.worker.droppedSamples + k = n
  reached : Reached r.stream r.worker m
  emitted : ∀ packet ∈ r.emitted, Cut r.stream packet ∧ packet.pts + 960 ≤ r.worker.audioPts
  order : r.emitted.Pairwise fun a b => a.pts + 960 ≤ b.pts

end Places

/-! ## Steps -/

section Steps

open AudioEncodeWorker

variable {encode : AudioEncoder Byte} {r r' : AudioRun Byte} {n k m : Nat}

theorem Reached.le {stream : List Byte} {w : AudioEncodeWorker Byte} (h : Reached stream w m) : w.audioPts ≤ m := by
  unfold Reached at h
  split at h
  · obtain ⟨ps, -, -, h⟩ := h
    omega
  · obtain ⟨ps, j, -, -, -, h⟩ := h
    omega
  · obtain ⟨ps, -, h⟩ := h
    omega

theorem Reached.extend {stream : List Byte} {w : AudioEncodeWorker Byte} (h : Reached stream w m)
    (hn : stream.length = 2 * n) (hle : m ≤ n) (more : List Byte) : Reached (stream ++ more) w m := by
  unfold Reached at h ⊢
  split at h
  · obtain ⟨ps, hp, hlt, hm⟩ := h
    exact ⟨ps, hp.extend hn (by omega) more, hlt, hm⟩
  · obtain ⟨ps, j, hp, hlt, hpcm, hm⟩ := h
    refine ⟨ps, j, hp.extend hn (by omega) more, hlt, ?_, hm⟩
    rw [hpcm, samplesAt_extend hn]
    intro p hp
    have := (List.mem_range'_1.mp hp).2
    omega
  · obtain ⟨ps, hp, hm⟩ := h
    exact ⟨ps, hp.extend hn (by omega) more, hm⟩

theorem Cut.extend {stream : List Byte} {packet : StampedAudio Byte} (h : Cut stream packet)
    (hn : stream.length = 2 * n) (hle : packet.pts + 960 ≤ n) (more : List Byte) : Cut (stream ++ more) packet := by
  obtain ⟨ps, hpcm, hlen, hinc, hlast⟩ := h.places
  refine ⟨h.timestamp, ps, ?_, hlen, hinc, hlast⟩
  rw [hpcm, samplesAt_extend hn]
  intro p hp
  -- the places go up to the last one
  obtain ⟨front, rfl⟩ := List.getLast?_eq_some_iff.mp hlast
  rcases List.mem_append.mp hp with hp | hp
  · have := (List.pairwise_append.mp hinc).2.2 p hp _ (List.mem_singleton_self _)
    omega
  · rw [List.mem_singleton.mp hp]
    omega

/-- A step of the worker's thread that leaves the stream, the packets and the counts alone. -/
theorem Accounted.withWorker (h : Accounted r n k m) {w : AudioEncodeWorker Byte}
    (hstarted : w.audioStarted = r.worker.audioStarted) (haccepting : w.acceptingPcm = r.worker.acceptingPcm)
    (hpts : w.audioPts = r.worker.audioPts) (htimestamp : w.audioTimestamp = r.worker.audioTimestamp)
    (hpending : w.pendingPcm = r.worker.pendingPcm) (hdropped : w.droppedSamples = r.worker.droppedSamples)
    (hreached : Reached r.stream w m) : Accounted { r with worker := w } n k m := by
  refine ⟨hstarted.trans h.started, haccepting.trans h.accepting, ?_, h.stream, hpending.trans h.pending, ?_, hreached,
    fun packet hp => ⟨(h.emitted packet hp).1, ?_⟩, h.order⟩
  · rw [htimestamp, hpts]
    exact h.timestamp
  · rw [hdropped]
    exact h.count
  · rw [hpts]
    exact (h.emitted packet hp).2

theorem accounted_enqueue (h : Accounted r n k m) {pcmData : List Byte} {c : Nat} (hc : pcmData.length = 2 * c) :
    ∃ n' k', Accounted { r with worker := r.worker.append pcmData, stream := r.stream ++ pcmData } n' k' m := by
  have hk : k ≤ n := by
    have := h.count
    omega
  have hnext : (r.stream ++ pcmData).length = 2 * (n + c) := by
    rw [List.length_append, h.stream, hc]
    omega
  have hplaces : ∀ p ∈ List.range' (n - k) k, p < n := by
    intro p hp
    have := (List.mem_range'_1.mp hp).2
    omega
  have hbelow : ∀ p ∈ List.range' (n - k) (k + c), p < n + c := by
    intro p hp
    have := (List.mem_range'_1.mp hp).2
    omega
  -- before the drop, the pending samples are the last `k + c` ones
  have hpending : r.worker.pendingPcm ++ pcmData = samplesAt (r.stream ++ pcmData) (List.range' (n - k) (k + c)) := by
    have hrange : List.range' (n - k) (k + c) = List.range' (n - k) k ++ List.range' n c := by
      rw [← List.range'_append_1, Nat.sub_add_cancel hk]
    rw [hrange, samplesAt_append, samplesAt_extend h.stream hplaces, samplesAt_appended h.stream hc, ← h.pending]
  have hsize : (r.worker.pendingPcm ++ pcmData).length = 2 * (k + c) := by
    rw [hpending, samplesAt_length hnext hbelow, List.length_range']
  obtain ⟨d, hd⟩ : ∃ d, droppedBytes (2 * (k + c)) = 2 * d := ⟨_, droppedBytes_even _⟩
  have hdle : d ≤ k + c := by
    have := droppedBytes_le (2 * (k + c))
    omega
  refine ⟨n + c, k + c - d, h.started, h.accepting, h.timestamp, hnext, ?_, ?_, ?_, ?_, h.order⟩
  · change (r.worker.pendingPcm ++ pcmData).drop (droppedBytes (r.worker.pendingPcm ++ pcmData).length) = _
    rw [hsize, hd, hpending, samplesAt_drop hnext hbelow, List.drop_range']
    congr 2
    omega
  · change m + (r.worker.droppedSamples + droppedBytes (r.worker.pendingPcm ++ pcmData).length / 2) + _ = _
    rw [hsize, hd]
    have := h.count
    omega
  · exact h.reached.extend h.stream (by have := h.count; omega) pcmData
  · intro packet hp
    obtain ⟨hcut, hle⟩ := h.emitted packet hp
    have := h.reached.le
    have := h.count
    exact ⟨hcut.extend h.stream (by omega) pcmData, hle⟩

theorem accounted_take (h : Accounted r n k m) {w : AudioEncodeWorker Byte} (hw : r.worker.takePending = some w)
    (hidle : r.worker.call = .idle) : Accounted { r with worker := w } n 0 n := by
  unfold takePending at hw
  rw [h.accepting] at hw
  split at hw
  · cases hw
  cases hw
  have hreached := h.reached
  unfold Reached at hreached
  rw [hidle] at hreached
  obtain ⟨ps, hp, hlt, hm⟩ := hreached
  have hcount := h.count
  refine ⟨h.started, rfl, h.timestamp, h.stream, rfl, rfl, ?_, h.emitted, h.order⟩
  refine ⟨ps, k, hp, hlt, ?_, ?_⟩
  · have hfrom : n - k = r.worker.audioPts + ps.length + r.worker.droppedSamples := by omega
    rw [h.pending, hfrom]
  · change r.worker.audioPts + ps.length + r.worker.droppedSamples + k = n
    omega

theorem toUInt32_add (a b : Nat) : a.toUInt32 + b.toUInt32 = (a + b).toUInt32 := by
  simp [Nat.toUInt32]

theorem accounted_advance (h : Accounted r n k m) {w : AudioEncodeWorker Byte} (hw : r.worker.advance = some w) :
    Accounted { r with worker := w } n k m := by
  unfold AudioEncodeWorker.advance at hw
  split at hw
  next pendingPcm droppedSamples hcall =>
    cases hw
    have hreached := h.reached
    unfold Reached at hreached
    rw [hcall] at hreached
    obtain ⟨ps, j, hp, hlt, hpcm, hm⟩ := hreached
    refine ⟨h.started, h.accepting, ?_, h.stream, h.pending, h.count, ?_, fun packet hpacket => ?_, h.order⟩
    · change r.worker.audioTimestamp + _ = _
      rw [h.timestamp, toUInt32_add]
    · have hnext := hp.advance droppedSamples j
      rw [← hpcm] at hnext
      refine ⟨_, ⟨hnext.buffer, hnext.increasing, hnext.below, fun i p hi hi' => hnext.timed i p (by omega) hi'⟩, ?_⟩
      rw [List.length_append, List.length_range']
      change r.worker.audioPts + droppedSamples + _ = m
      omega
    · obtain ⟨hcut, hle⟩ := h.emitted packet hpacket
      exact ⟨hcut, Nat.le_trans hle (Nat.le_add_right _ _)⟩
  · cases hw

theorem accounted_encode (hencode : ∀ fed frame, encode fed frame = [frame]) (h : Accounted r n k m)
    {next : AudioEncodeWorker Byte × List (StampedAudio Byte)} (hnext : r.worker.encodeNext encode true = some next) :
    Accounted { r with worker := next.1, emitted := r.emitted ++ next.2 } n k m := by
  unfold encodeNext at hnext
  split at hnext
  next hcall =>
    split at hnext
    next hlen =>
      simp only [encodeAudioFrame, h.started, hencode, Bool.not_true, Bool.or_self, Bool.false_eq_true, if_false,
        List.map_cons, List.map_nil, Option.some.injEq] at hnext
      subst hnext
      have hreached := h.reached
      unfold Reached at hreached
      rw [hcall] at hreached
      obtain ⟨ps, hp, hm⟩ := hreached
      have hcount := h.count
      have hbelow : ∀ p ∈ ps, p < n := by
        intro p hmem
        have := hp.below p hmem
        omega
      have hfull : 960 ≤ ps.length := by
        rw [hp.buffer, samplesAt_length h.stream hbelow] at hlen
        have : audioFrameBytes = 1920 := rfl
        omega
      obtain ⟨hrest, hpcm, hsize, hinc, hlast⟩ := hp.cut h.stream (by omega) (Nat.le_refl _) hfull
      refine ⟨rfl, h.accepting, ?_, h.stream, h.pending, h.count, ?_, ?_, ?_⟩
      · change r.worker.audioTimestamp + _ = _
        rw [h.timestamp, toUInt32_add]
      · simp only [Reached, hcall]
        refine ⟨_, ⟨hrest.buffer, hrest.increasing, hrest.below, fun i p _ hi => hrest.timed i p (Nat.zero_le i) hi⟩, ?_⟩
        rw [List.length_drop]
        change r.worker.audioPts + 960 + _ = m
        omega
      · intro packet hpacket
        rcases List.mem_append.mp hpacket with hpacket | hpacket
        · obtain ⟨hcut, hle⟩ := h.emitted packet hpacket
          exact ⟨hcut, Nat.le_trans hle (Nat.le_add_right _ _)⟩
        · rw [List.mem_singleton.mp hpacket]
          exact ⟨⟨h.timestamp, _, hpcm, hsize, hinc, hlast⟩, Nat.le_refl _⟩
      · refine List.pairwise_append.mpr ⟨h.order, List.pairwise_singleton _ _, fun a ha b hb => ?_⟩
        rw [List.mem_singleton.mp hb]
        exact (h.emitted a ha).2
    · cases hnext
  · cases hnext

theorem accounted_finish (h : Accounted r n k m) {w : AudioEncodeWorker Byte} (hw : r.worker.finish = some w) :
    Accounted { r with worker := w } n k m := by
  unfold AudioEncodeWorker.finish at hw
  split at hw
  next hcall =>
    split at hw
    · cases hw
    next hshort =>
      cases hw
      refine h.withWorker rfl rfl rfl rfl rfl rfl ?_
      have hreached := h.reached
      unfold Reached at hreached ⊢
      rw [hcall] at hreached
      obtain ⟨ps, hp, hm⟩ := hreached
      have hcount := h.count
      have hlt : ps.length < 960 := by
        rw [hp.buffer, samplesAt_length h.stream fun p hmem => by have := hp.below p hmem; omega] at hshort
        have : audioFrameBytes = 1920 := rfl
        omega
      refine ⟨ps, ⟨hp.buffer, hp.increasing, hp.below, fun i p hi hi' => ?_⟩, hlt, hm⟩
      rw [List.getElem?_eq_none hi] at hi'
      cases hi'
  · cases hw

end Steps

/-! ## Runs -/

section Runs

open AudioEncodeWorker

variable {encode : AudioEncoder Byte} {r r' : AudioRun Byte}

/-- What may come: chunks of whole samples, a frame that can be written to; and with a chunk, the bytes over the limit
are a number an `int` can hold. -/
def Fits (r : AudioRun Byte) : AudioRun.Event Byte → Prop
  | .enqueue pcmData => pcmData.length % 2 = 0 ∧
      r.worker.pendingPcm.length + pcmData.length < 2 ^ 31 + maxQueuedAudioBytes
  | .encodeNext writable => writable = true
  | _ => True

/-- The counts, with the limit, and what an event that was taken says of the thread. -/
structure Balanced (r : AudioRun Byte) : Prop where
  accounted : ∃ n k m, Accounted r n k m
  bounded : r.worker.pendingPcm.length ≤ maxQueuedAudioBytes
  entered : r.worker.process.entered = true → r.worker.call = .idle

/-- What the worker's thread does behind its lock leaves what the lock protects alone. -/
structure Aside (w w' : AudioEncodeWorker Byte) : Prop where
  busy : w.call ≠ .idle
  pending : w'.pendingPcm = w.pendingPcm
  process : w'.process = w.process

theorem aside_advance {w w' : AudioEncodeWorker Byte} (h : w.advance = some w') : Aside w w' := by
  unfold AudioEncodeWorker.advance at h
  split at h
  next hcall =>
    cases h
    exact ⟨fun e => (nomatch hcall.symm.trans e), rfl, rfl⟩
  · cases h

theorem aside_encodeNext {w : AudioEncodeWorker Byte} {writable : Bool}
    {next : AudioEncodeWorker Byte × List (StampedAudio Byte)} (h : w.encodeNext encode writable = some next) :
    Aside w next.1 := by
  unfold encodeNext encodeAudioFrame at h
  split at h
  next hcall =>
    have hbusy : w.call ≠ .idle := fun e => nomatch hcall.symm.trans e
    split at h
    · cases h
      split <;> exact ⟨hbusy, rfl, rfl⟩
    · cases h
  · cases h

theorem aside_finish {w w' : AudioEncodeWorker Byte} (h : w.finish = some w') : Aside w w' := by
  unfold AudioEncodeWorker.finish at h
  split at h
  next hcall =>
    split at h
    · cases h
    · cases h
      exact ⟨fun e => (nomatch hcall.symm.trans e), rfl, rfl⟩
  · cases h

theorem Balanced.aside (h : Balanced r) {w : AudioEncodeWorker Byte} (haside : Aside r.worker w)
    (hacc : ∃ n k m, Accounted r' n k m) (hw : r'.worker = w) : Balanced r' := by
  refine ⟨hacc, ?_, fun he => ?_⟩
  · rw [hw, haside.pending]
    exact h.bounded
  · rw [hw, haside.process] at he
    exact absurd (h.entered he) haside.busy

theorem balanced_step (hencode : ∀ fed frame, encode fed frame = [frame]) (h : Balanced r) {e : AudioRun.Event Byte}
    (hok : Fits r e) (hstep : r.step encode e = some r') : Balanced r' := by
  have hbalanced := h
  obtain ⟨⟨n, k, m, hacc⟩, hbounded, hentered⟩ := h
  cases e with
  | enqueue pcmData =>
    simp only [AudioRun.step] at hstep
    split at hstep
    · cases hstep
      exact ⟨⟨n, k, m, hacc⟩, hbounded, hentered⟩
    · cases hstep
      obtain ⟨heven, hfits⟩ := hok
      have hpendingEven : r.worker.pendingPcm.length % 2 = 0 := by
        rw [hacc.pending, samplesAt_length hacc.stream]
        · omega
        · intro p hp
          have := (List.mem_range'_1.mp hp).2
          have := hacc.count
          omega
      have hchunk : pcmData.length = 2 * (pcmData.length / 2) := by omega
      obtain ⟨n', k', hacc'⟩ := accounted_enqueue hacc hchunk
      refine ⟨⟨n', k', m, hacc'⟩, ?_, ?_⟩
      · change ((r.worker.pendingPcm ++ pcmData).drop _).length ≤ _
        rw [List.length_drop]
        exact droppedBytes_suffices (by rw [List.length_append]; exact hfits) (by rw [List.length_append]; omega)
      · intro he
        exact hentered ((Wakeup.entered_request _).symm.trans he)
  | post =>
    obtain ⟨w, hw, rfl⟩ := Option.map_eq_some_iff.mp hstep
    obtain ⟨process, hpost, rfl⟩ := Option.map_eq_some_iff.mp hw
    refine ⟨⟨n, k, m, hacc.withWorker rfl rfl rfl rfl rfl rfl hacc.reached⟩, hbounded, fun he => hentered ?_⟩
    exact (Wakeup.entered_post hpost).symm.trans he
  | enter =>
    obtain ⟨w, hw, rfl⟩ := Option.map_eq_some_iff.mp hstep
    unfold AudioEncodeWorker.enter at hw
    split at hw
    next hidle =>
      obtain ⟨process, -, rfl⟩ := Option.map_eq_some_iff.mp hw
      exact ⟨⟨n, k, m, hacc.withWorker rfl rfl rfl rfl rfl rfl hacc.reached⟩, hbounded, fun _ => hidle⟩
    · cases hw
  | takePending =>
    obtain ⟨w, hw, rfl⟩ := Option.map_eq_some_iff.mp hstep
    have hidle : r.worker.call = .idle := by
      refine hentered (Bool.not_eq_false _ ▸ fun he => ?_)
      unfold takePending at hw
      rw [if_pos he] at hw
      cases hw
    have hacc' := accounted_take hacc hw hidle
    refine ⟨⟨n, 0, n, hacc'⟩, ?_, ?_⟩
    · rw [hacc'.pending]
      exact Nat.zero_le _
    · intro he
      unfold takePending at hw
      rw [hacc.accepting] at hw
      split at hw
      · cases hw
      · cases hw
        cases he
  | advance =>
    obtain ⟨w, hw, rfl⟩ := Option.map_eq_some_iff.mp hstep
    exact hbalanced.aside (aside_advance hw) ⟨n, k, m, accounted_advance hacc hw⟩ rfl
  | encodeNext writable =>
    have hwritable : writable = true := hok
    subst hwritable
    obtain ⟨next, hnext, rfl⟩ := Option.map_eq_some_iff.mp hstep
    exact hbalanced.aside (aside_encodeNext hnext) ⟨n, k, m, accounted_encode hencode hacc hnext⟩ rfl
  | finish =>
    obtain ⟨w, hw, rfl⟩ := Option.map_eq_some_iff.mp hstep
    exact hbalanced.aside (aside_finish hw) ⟨n, k, m, accounted_finish hacc hw⟩ rfl

/-- A worker that was stopped and is started again, with whatever events are left in its queue. -/
theorem balanced_start {w : AudioEncodeWorker Byte} (hcall : w.call = .idle) :
    Balanced { worker := w.stop.start } := by
  have hfresh : ∃ process, w.stop.start =
      { audioStarted := true, acceptingPcm := true, process := process, call := .idle } := by
    refine ⟨w.process.reset, ?_⟩
    cases h : w.audioStarted <;> simp [stop, start, h, hcall]
  obtain ⟨process, hfresh⟩ := hfresh
  rw [hfresh]
  refine ⟨⟨0, 0, 0, rfl, rfl, rfl, rfl, rfl, rfl, ?_, nofun, .nil⟩, Nat.zero_le _, fun _ => rfl⟩
  exact ⟨[], placed_nil _ _ _, by decide, rfl⟩

/-- What the counters of the worker say of the stream of all that was enqueued since the start. -/
structure Conserved (r : AudioRun Byte) : Prop where
  /-- While no call is running, every sample is counted once. -/
  count : r.worker.call = .idle →
    r.worker.audioPts + r.worker.audioPcmBuffer.length / 2 + r.worker.pendingPcm.length / 2 +
      r.worker.droppedSamples = r.stream.length / 2
  timestamp : r.worker.audioTimestamp = r.worker.audioPts.toUInt32
  /-- A packet is 960 samples of the stream, in order, and the last one is where its timestamp says. -/
  packets : ∀ packet ∈ r.emitted, ∃ ps last, packet.pcm = samplesAt r.stream ps ∧ ps.length = 960 ∧
    ps.Pairwise (· < ·) ∧ ps.getLast? = some last ∧ last < r.stream.length / 2 ∧
    last = packet.pts + 959 ∧ packet.rtpTimestamp + 959 = last.toUInt32
  order : r.emitted.Pairwise fun a b => a.pts < b.pts
  /-- What is pending is whole samples, and at most three frames of them. -/
  pending : ∃ k, r.worker.pendingPcm = samplesAt r.stream (List.range' (r.stream.length / 2 - k) k) ∧
    r.worker.pendingPcm.length ≤ 3 * 1920

theorem Balanced.conserved (h : Balanced r) : Conserved r := by
  obtain ⟨⟨n, k, m, hacc⟩, hbounded, -⟩ := h
  have hcount := hacc.count
  have hn : r.stream.length / 2 = n := by
    have := hacc.stream
    omega
  have hk : r.worker.pendingPcm.length = 2 * k := by
    rw [hacc.pending, samplesAt_length hacc.stream, List.length_range']
    intro p hp
    have := (List.mem_range'_1.mp hp).2
    omega
  constructor
  case count =>
    intro hidle
    have hreached := hacc.reached
    simp only [Reached, hidle] at hreached
    obtain ⟨ps, hp, -, hm⟩ := hreached
    have hbuffer : r.worker.audioPcmBuffer.length = 2 * ps.length := by
      rw [hp.buffer, samplesAt_length hacc.stream]
      intro p hmem
      have := hp.below p hmem
      omega
    omega
  case timestamp => exact hacc.timestamp
  case packets =>
    intro packet hpacket
    obtain ⟨hcut, hle⟩ := hacc.emitted packet hpacket
    obtain ⟨ps, hpcm, hlen, hinc, hlast⟩ := hcut.places
    have := hacc.reached.le
    refine ⟨ps, _, hpcm, hlen, hinc, hlast, by omega, rfl, ?_⟩
    rw [hcut.timestamp]
    exact toUInt32_add packet.pts 959
  case order => exact hacc.order.imp fun hab => Nat.lt_of_lt_of_le (Nat.lt_add_of_pos_right (by decide)) hab
  case pending =>
    refine ⟨k, ?_, hbounded⟩
    rw [hn]
    exact hacc.pending

/-- **Audio samples are conserved** in every run whose chunks fit. -/
theorem conserved_of_reachable (hencode : ∀ fed frame, encode fed frame = [frame]) {w : AudioEncodeWorker Byte}
    (hcall : w.call = .idle) (h : Reach (AudioRun.step encode) Fits { worker := w.stop.start } r) : Conserved r :=
  (h.invariant (I := Balanced) (balanced_start hcall) fun _ _ _ hb hok hstep =>
    balanced_step hencode hb hok hstep).conserved

/-- A chunk of two samples, taken by the worker. -/
theorem conserved_two :
    Conserved { worker := ({} : AudioEncodeWorker Nat).stop.start.append [1, 2, 3, 4], stream := [1, 2, 3, 4] } :=
  @conserved_of_reachable Nat (fun _ frame => [frame]) _ (fun _ _ => rfl) {} rfl
    (.next (e := .enqueue [1, 2, 3, 4]) .start ⟨by decide, by decide⟩ rfl)

/-- Two gigabytes over the limit in one chunk, and nothing is dropped: `overflowBytes` is negative. -/
theorem long_chunk_kept :
    ∃ r : AudioRun UInt8, Reach (AudioRun.step fun _ frame => [frame]) (fun _ _ => True)
        { worker := ({} : AudioEncodeWorker UInt8).stop.start } r ∧
      r.worker.call = .idle ∧ r.stream.length = 2 ^ 31 + 5760 ∧ ¬ r.worker.pendingPcm.length ≤ 3 * 1920 := by
  have hdropped : droppedBytes (2 ^ 31 + 5760) = 0 := by decide
  have hlen : (List.replicate (2 ^ 31 + 5760) (0 : UInt8)).length = 2 ^ 31 + 5760 := List.length_replicate
  generalize List.replicate (2 ^ 31 + 5760) (0 : UInt8) = pcm at hlen
  refine ⟨{ worker := ({} : AudioEncodeWorker UInt8).stop.start.append pcm, stream := pcm }, ?_, rfl, hlen, ?_⟩
  · refine .next (e := .enqueue pcm) .start trivial ?_
    have hsome : pcm.isEmpty = false := by
      rw [Bool.eq_false_iff, ne_eq, List.isEmpty_iff]
      rintro rfl
      cases hlen
    have haccepting : ({} : AudioEncodeWorker UInt8).stop.start.acceptingPcm = true := rfl
    simp only [AudioRun.step, haccepting, hsome]
    rfl
  · change ¬ (pcm.drop (droppedBytes pcm.length)).length ≤ 5760
    rw [hlen, hdropped, List.drop_zero, hlen]
    omega

end Runs

end SyncRtc.Client
