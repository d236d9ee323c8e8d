import SyncRtc.Net.CServer
import SyncRtc.Laws.SendQueue

/-!
# No send wake-up is lost

A connection with something to do is named in the wake-up, or its interest in `EPOLLOUT` is armed, or the I/O
thread has it in hand. The delicate point is the end of `UpdateClient`: the interest is set by a snapshot that may
be outdated by then. Whoever outdates it names the connection, and only the I/O thread takes names away, which it
does not do in between.
-/

set_option autoImplicit false

namespace SyncRtc.Net

namespace IoWakeup

/-- The set of names is that of the list, which names nobody twice, and a name is announced. -/
structure Sound (w : IoWakeup) : Prop where
  names : ∀ t, t ∈ w.pending ↔ t ∈ w.ready
  nodup : w.ready.Nodup
  signalled : w.ready ≠ [] → 0 < w.count

variable {w : IoWakeup}

theorem fresh_sound : Sound {} := ⟨fun _ => iff_of_false (Finset.notMem_empty _) List.not_mem_nil, List.nodup_nil, fun h => absurd rfl h⟩

@[simp] theorem wakeLocked_pending (w : IoWakeup) : w.wakeLocked.pending = w.pending := by
  unfold wakeLocked
  split <;> rfl

@[simp] theorem wakeLocked_ready (w : IoWakeup) : w.wakeLocked.ready = w.ready := by
  unfold wakeLocked
  split <;> rfl

@[simp] theorem wakeLocked_stopping (w : IoWakeup) : w.wakeLocked.stopping = w.stopping := by
  unfold wakeLocked
  split <;> rfl

theorem wakeLocked_count (w : IoWakeup) : 0 < w.wakeLocked.count := by
  unfold wakeLocked
  split
  · next hfull =>
    rw [hfull]
    decide
  · exact Nat.succ_pos _

theorem notify_stopping (w : IoWakeup) (t : Token) : (w.notify t).2.stopping = w.stopping := by
  unfold notify
  split
  · rfl
  split
  · rfl
  · exact wakeLocked_stopping _

theorem mem_notify_of_mem {t u : Token} (h : u ∈ w.ready) : u ∈ (w.notify t).2.ready := by
  unfold notify
  split
  · exact h
  split
  · exact h
  · simp only [wakeLocked_ready]
    exact List.mem_append_left _ h

/-- Before the stop, a connection that is notified of is named. -/
theorem mem_notify (h : w.Sound) (hstop : w.stopping = false) (t : Token) : t ∈ (w.notify t).2.ready := by
  unfold notify
  rw [if_neg (by rw [hstop]; decide)]
  split
  · next hmem => exact (h.names t).mp hmem
  · simp only [wakeLocked_ready]
    exact List.mem_append_right _ List.mem_cons_self

theorem Sound.notify (h : w.Sound) (t : Token) : (w.notify t).2.Sound := by
  unfold IoWakeup.notify
  split
  · exact h
  split
  · exact h
  next hnot =>
  refine ⟨fun u => ?_, ?_, fun _ => wakeLocked_count _⟩
  · simp only [wakeLocked_pending, wakeLocked_ready, Finset.mem_insert, List.mem_append, List.mem_singleton, h.names u]
    exact or_comm
  · simp only [wakeLocked_ready]
    refine List.nodup_append.mpr ⟨h.nodup, List.nodup_singleton t, ?_⟩
    intro u hu v hv heq
    rw [List.mem_singleton.mp hv] at heq
    exact hnot ((h.names t).mpr (heq ▸ hu))

theorem Sound.requestStop (h : w.Sound) : w.requestStop.Sound := by
  unfold IoWakeup.requestStop
  split
  · exact h
  · refine ⟨fun u => ?_, ?_, fun _ => wakeLocked_count _⟩
    · simp only [wakeLocked_pending, wakeLocked_ready]
      exact h.names u
    · simp only [wakeLocked_ready]
      exact h.nodup

/-- What the loop of `Take` moves to the batch, it takes off both containers. -/
theorem takeLoop_spec (n : Nat) : ∀ (batch : List Token) (w : IoWakeup),
    (∀ t, t ∈ w.pending ↔ t ∈ w.ready) → w.ready.Nodup →
    let r := takeLoop n batch w
    r.1 ++ r.2.ready = batch ++ w.ready ∧ (∀ t, t ∈ r.2.pending ↔ t ∈ r.2.ready) ∧ r.2.ready.Nodup ∧
      r.2.stopping = w.stopping := by
  induction n with
  | zero =>
    intro batch w hnames hnodup
    exact ⟨rfl, hnames, hnodup, rfl⟩
  | succ n ih =>
    intro batch w hnames hnodup
    unfold takeLoop
    split
    · exact ⟨rfl, hnames, hnodup, rfl⟩
    · next t ready hready =>
      rw [hready] at hnodup hnames
      obtain ⟨hnot, hnodup'⟩ := List.nodup_cons.mp hnodup
      have hnames' : ∀ u, u ∈ w.pending.erase t ↔ u ∈ ready := by
        intro u
        rw [Finset.mem_erase, hnames u, List.mem_cons]
        constructor
        · rintro ⟨hne, heq | hmem⟩
          · exact absurd heq hne
          · exact hmem
        · intro hmem
          exact ⟨fun heq => hnot (heq ▸ hmem), .inr hmem⟩
      obtain ⟨hsplit, hrest⟩ := ih (batch ++ [t]) { w with pending := w.pending.erase t, ready := ready } hnames' hnodup'
      refine ⟨?_, hrest⟩
      rw [hsplit, List.append_assoc, List.singleton_append, hready]

theorem take_spec (h : w.Sound) : w.take.2.Sound ∧ w.take.1 ++ w.take.2.ready = w.ready ∧
    w.take.2.stopping = w.stopping := by
  obtain ⟨hsplit, hnames, hnodup, hstop⟩ := takeLoop_spec 64 [] { w with count := 0 } h.names h.nodup
  unfold take
  dsimp only at hsplit hnames hnodup hstop ⊢
  split
  · next hempty =>
    refine ⟨⟨hnames, hnodup, fun hne => absurd (List.isEmpty_iff.mp hempty) hne⟩, hsplit, hstop⟩
  · refine ⟨⟨?_, ?_, fun _ => wakeLocked_count _⟩, ?_, ?_⟩
    · simp only [wakeLocked_pending, wakeLocked_ready]
      exact hnames
    · simp only [wakeLocked_ready]
      exact hnodup
    · simp only [wakeLocked_ready]
      exact hsplit
    · simp only [wakeLocked_stopping]
      exact hstop

end IoWakeup

/-- The I/O thread has a connection in hand: it serves it, or has it in its batch. -/
def Io.Holds : Io → Token → Prop
  | .loop, _ => False
  | .batch rest, t => t ∈ rest
  | .serving token _ rest, t => t = token ∨ t ∈ rest

/-- The I/O thread is in `HandleWrite` of this connection. -/
def Io.Writes (io : Io) (t : Token) : Prop := ∃ err rest, io = .serving t (.writing err) rest

namespace CServer

variable {σ σ' : CServer}

/-- What holds of the I/O layer at any time. -/
structure Inv (σ : CServer) : Prop where
  sessions : ∀ t, (σ.session t).Reachable
  future : ∀ t, σ.nextToken ≤ t → σ.session t = {} ∧ σ.registered t = false
  wakeup : σ.wakeup.Sound
  resting : ∀ t, (σ.session t).Resting ∨ σ.io.Writes t
  served : ∀ t stage rest, σ.io = .serving t stage rest → σ.registered t = true
  opened : ∀ t, σ.registered t = true → (σ.session t).closed = false
  waiting : σ.wakeup.stopping = false → ∀ t, σ.registered t = true → (σ.session t).hasPendingWrite = true →
    t ∈ σ.wakeup.ready ∨ σ.armed t = true ∨ σ.io.Holds t
  /-- A snapshot that has found nothing is outdated only by somebody who has named the connection. -/
  arming : σ.wakeup.stopping = false → ∀ t rest, σ.io = .serving t (.arming false) rest →
    (σ.session t).hasPendingWrite = true → t ∈ σ.wakeup.ready

theorem fresh_inv : Inv {} where
  sessions _ := .start
  future _ _ := ⟨rfl, rfl⟩
  wakeup := IoWakeup.fresh_sound
  resting _ := .inl (.inl rfl)
  served _ _ _ := nofun
  opened _ := nofun
  waiting _ _ := nofun
  arming _ _ _ := nofun

/-- Another thread does something to a session: the session has as much to do as before, or is named. -/
theorem Inv.submit (h : Inv σ) {a : Token} {s : Session} {w : IoWakeup} (ha : a < σ.nextToken) (hs : s.Reachable)
    (hclosed : s.closed = (σ.session a).closed) (hwriter : s.writer = (σ.session a).writer) (hw : w.Sound)
    (hsub : ∀ t ∈ σ.wakeup.ready, t ∈ w.ready) (hstop : w.stopping = σ.wakeup.stopping)
    (hnamed : σ.wakeup.stopping = false → a ∈ w.ready ∨ s.hasPendingWrite = (σ.session a).hasPendingWrite) :
    Inv { σ.setSession a s with wakeup := w } := by
  have session : ∀ t, (t = a ∧ (σ.setSession a s).session t = s) ∨ (t ≠ a ∧ (σ.setSession a s).session t = σ.session t) := by
    intro t
    by_cases ht : t = a
    · subst ht
      exact .inl ⟨rfl, Function.update_self _ _ _⟩
    · exact .inr ⟨ht, Function.update_of_ne ht _ _⟩
  -- the connection is named now, or it had as much to do before
  have before : σ.wakeup.stopping = false → ∀ t, ((σ.setSession a s).session t).hasPendingWrite = true →
      t ∈ w.ready ∨ (σ.session t).hasPendingWrite = true := by
    intro hstopping t ht
    rcases session t with ⟨rfl, heq⟩ | ⟨-, heq⟩
    · rw [heq] at ht
      refine (hnamed hstopping).imp_right fun hsame => ?_
      rw [← hsame]
      exact ht
    · exact .inr (heq ▸ ht)
  refine ⟨fun t => ?_, fun t ht => ?_, hw, fun t => ?_, h.served, fun t ht => ?_, fun hstopping t hreg ht => ?_,
    fun hstopping t rest hio ht => ?_⟩
  · rcases session t with ⟨-, heq⟩ | ⟨-, heq⟩ <;> simp only [heq]
    · exact hs
    · exact h.sessions t
  · have hne : t ≠ a := Nat.ne_of_gt (Nat.lt_of_lt_of_le ha ht)
    rw [show ({ σ.setSession a s with wakeup := w } : CServer).session t = σ.session t from Function.update_of_ne hne _ _]
    exact h.future t ht
  · rcases session t with ⟨rfl, heq⟩ | ⟨-, heq⟩ <;> simp only [heq]
    · unfold Session.Resting
      rw [hwriter]
      exact h.resting t
    · exact h.resting t
  · rcases session t with ⟨rfl, heq⟩ | ⟨-, heq⟩ <;> simp only [heq]
    · rw [hclosed]
      exact h.opened t ht
    · exact h.opened t ht
  · have hstopping : σ.wakeup.stopping = false := hstop ▸ hstopping
    rcases before hstopping t ht with hmem | hold
    · exact .inl hmem
    · exact (h.waiting hstopping t hreg hold).imp_left (hsub t)
  · have hstopping : σ.wakeup.stopping = false := hstop ▸ hstopping
    rcases before hstopping t ht with hmem | hold
    · exact hmem
    · exact hsub t (h.arming hstopping t rest hio hold)

theorem send_cases (s : Session) (id : UInt16) (payload : Bytes) (notified : Bool) :
    (s.send id payload notified).2.closed = s.closed ∧ (s.send id payload notified).2.writer = s.writer ∧
      (s.notifies payload = false → (s.send id payload notified).2 = s) := by
  unfold Session.send Session.notifies
  split
  · exact ⟨rfl, rfl, fun _ => rfl⟩
  next hsize =>
  dsimp only
  split
  · exact ⟨rfl, rfl, fun _ => rfl⟩
  next hopen =>
  have hnotifies : (decide (payload.length ≤ 65535) && !s.isClosed) = true := by
    simp only [Bool.not_eq_true] at hopen
    simp only [hopen, Nat.not_lt.mp hsize, decide_true, Bool.not_false, Bool.and_self]
  refine ⟨?_, ?_, fun hnot => absurd (hnotifies.symm.trans hnot) (by decide)⟩
  · split
    · rfl
    · split <;> rfl
  · split
    · rfl
    · split <;> rfl

theorem Inv.send (h : Inv σ) {a : Token} (ha : a < σ.nextToken) (id : UInt16) (payload : Bytes) :
    Inv (σ.send a id payload) := by
  have hreach : ((σ.session a).send id payload !σ.wakeup.stopping).2.Reachable :=
    (h.sessions a).next (e := .send id payload !σ.wakeup.stopping) trivial rfl
  obtain ⟨hclosed, hwriter, hquiet⟩ := send_cases (σ.session a) id payload !σ.wakeup.stopping
  unfold CServer.send
  dsimp only
  split
  · exact h.submit ha hreach hclosed hwriter (h.wakeup.notify a) (fun t => IoWakeup.mem_notify_of_mem)
      (IoWakeup.notify_stopping _ _) fun hstop => .inl (IoWakeup.mem_notify h.wakeup hstop a)
  · next hnot =>
    have hsame := hquiet (Bool.not_eq_true _ ▸ hnot)
    exact h.submit (w := σ.wakeup) ha hreach hclosed hwriter h.wakeup (fun _ ht => ht) rfl
      fun _ => .inr (by rw [hsame])

theorem Inv.requestClose (h : Inv σ) {a : Token} (ha : a < σ.nextToken) : Inv (σ.requestClose a) :=
  h.submit ha ((h.sessions a).next (e := .requestClose) trivial rfl) rfl rfl (h.wakeup.notify a)
    (fun _ => IoWakeup.mem_notify_of_mem) (IoWakeup.notify_stopping _ _)
    fun hstop => .inl (IoWakeup.mem_notify h.wakeup hstop a)

/-- More names, or the stop. -/
theorem Inv.setWakeup (h : Inv σ) {w : IoWakeup} (hw : w.Sound) (hsub : ∀ t ∈ σ.wakeup.ready, t ∈ w.ready)
    (hstop : w.stopping = false → σ.wakeup.stopping = false) : Inv { σ with wakeup := w } where
  sessions := h.sessions
  future := h.future
  wakeup := hw
  resting := h.resting
  served := h.served
  opened := h.opened
  waiting hstopping t hreg ht := (h.waiting (hstop hstopping) t hreg ht).imp_left (hsub t)
  arming hstopping t rest hio ht := hsub t (h.arming (hstop hstopping) t rest hio ht)

/-- The I/O thread moves on and drops no registered connection. -/
theorem Inv.move (h : Inv σ) {io : Io} (hholds : ∀ t, σ.io.Holds t → σ.registered t = true → io.Holds t)
    (hresting : ∀ t, (σ.session t).Resting ∨ io.Writes t)
    (hserved : ∀ t stage rest, io = .serving t stage rest → σ.registered t = true)
    (harming : σ.wakeup.stopping = false → ∀ t rest, io = .serving t (.arming false) rest →
      (σ.session t).hasPendingWrite = true → t ∈ σ.wakeup.ready) : Inv { σ with io := io } where
  sessions := h.sessions
  future := h.future
  wakeup := h.wakeup
  resting := hresting
  served := hserved
  opened := h.opened
  waiting hstop t hreg ht := by
    rcases h.waiting hstop t hreg ht with hmem | harmed | hheld
    · exact .inl hmem
    · exact .inr (.inl harmed)
    · exact .inr (.inr (hholds t hheld hreg))
  arming := harming

/-- Outside `HandleWrite` every session rests. -/
theorem Inv.allRest (h : Inv σ) (hnot : ∀ t, ¬ σ.io.Writes t) (t : Token) : (σ.session t).Resting :=
  (h.resting t).resolve_right (hnot t)

/-- The connection being served goes on to another stage. -/
theorem Inv.serve (h : Inv σ) {t : Token} {stage stage' : Stage} {rest : List Token}
    (hio : σ.io = .serving t stage rest) (hwriting : ∀ err, stage' ≠ .writing err)
    (hrest : (σ.session t).Resting) (harming : stage' = .arming false → (σ.session t).hasPendingWrite = false) :
    Inv (σ.serve t stage' rest) := by
  refine h.move (fun u hu _ => ?_) (fun u => .inl ?_) (fun u st r heq => ?_) fun _ u r heq hu => ?_
  · rw [hio] at hu
    exact hu
  · rcases h.resting u with hr | ⟨err, r, hw⟩
    · exact hr
    · cases hio.symm.trans hw
      exact hrest
  · cases heq
    exact h.served t stage rest hio
  · cases heq
    exact absurd ((harming rfl).symm.trans hu) (by decide)

/-- The I/O thread takes up a connection from its loop. -/
theorem Inv.takeUp (h : Inv σ) (hio : σ.io = .loop) {t : Token} (hreg : σ.registered t = true) {stage : Stage}
    (hwriting : ∀ err, stage ≠ .writing err) (harming : stage ≠ .arming false) : Inv (σ.serve t stage []) := by
  have hnot : ∀ u, ¬ σ.io.Writes u := by
    rintro u ⟨err, rest, hw⟩
    exact nomatch hio.symm.trans hw
  refine h.move (fun u hu _ => ?_) (fun u => .inl (h.allRest hnot u)) (fun u st r heq => ?_) fun _ u r heq _ => ?_
  · rw [hio] at hu
    exact hu.elim
  · cases heq
    exact hreg
  · cases heq
    exact absurd rfl harming

theorem Inv.next (h : Inv σ) (hs : σ.step .next = some σ') : Inv σ' := by
  simp only [CServer.step] at hs
  split at hs
  · next hio =>
    cases hs
    have hnot : ∀ u, ¬ σ.io.Writes u := by
      rintro u ⟨err, rest, hw⟩
      exact nomatch hio.symm.trans hw
    refine h.move (fun u hu _ => ?_) (fun u => .inl (h.allRest hnot u)) nofun nofun
    rw [hio] at hu
    exact absurd hu List.not_mem_nil
  · next t rest hio =>
    have hnot : ∀ u, ¬ σ.io.Writes u := by
      rintro u ⟨err, rest', hw⟩
      exact nomatch hio.symm.trans hw
    split at hs
    · next hstop =>
      cases hs
      exact ⟨h.sessions, h.future, h.wakeup, fun u => .inl (h.allRest hnot u), nofun, h.opened,
        fun hopen => absurd (hstop.symm.trans hopen) (by decide), nofun⟩
    split at hs
    · next hreg =>
      cases hs
      refine h.move (fun u hu _ => ?_) (fun u => .inl (h.allRest hnot u)) (fun u st r heq => ?_) nofun
      · rw [hio] at hu
        exact List.mem_cons.mp hu
      · cases heq
        exact hreg
    · next hreg =>
      cases hs
      refine h.move (fun u hu hu' => ?_) (fun u => .inl (h.allRest hnot u)) nofun nofun
      rw [hio] at hu
      rcases List.mem_cons.mp hu with rfl | hu
      · exact absurd hu' hreg
      · exact hu
  · cases hs

/-- `HandleWrite` changes the session it is called on, which the I/O thread has in hand. -/
theorem Inv.write (h : Inv σ) {t : Token} {stage : Stage} (err : Bool) {rest : List Token} {s : Session}
    (hio : σ.io = .serving t stage rest) (hs : s.Reachable) (hclosed : s.closed = (σ.session t).closed)
    (hwrites : ∀ u, u ≠ t → (σ.session u).Resting) : Inv ((σ.setSession t s).serve t (.writing err) rest) := by
  have hreg := h.served t stage rest hio
  have session : ∀ u, u ≠ t → ((σ.setSession t s).serve t (.writing err) rest).session u = σ.session u :=
    fun u hu => Function.update_of_ne hu _ _
  have self : ((σ.setSession t s).serve t (.writing err) rest).session t = s := Function.update_self _ _ _
  refine ⟨fun u => ?_, fun u hu => ?_, h.wakeup, fun u => ?_, fun u st r heq => ?_, fun u hu => ?_,
    fun hstop u hu hpending => ?_, nofun⟩
  · by_cases hut : u = t
    · rw [hut, self]
      exact hs
    · rw [session u hut]
      exact h.sessions u
  · have hut : u ≠ t := by
      rintro rfl
      exact absurd (hreg.symm.trans (h.future u hu).2) (by decide)
    rw [session u hut]
    exact h.future u hu
  · by_cases hut : u = t
    · exact .inr ⟨err, rest, by rw [hut]; rfl⟩
    · rw [session u hut]
      exact .inl (hwrites u hut)
  · cases heq
    exact hreg
  · by_cases hut : u = t
    · rw [hut, self, hclosed]
      exact h.opened t hreg
    · rw [session u hut]
      exact h.opened u hu
  · by_cases hut : u = t
    · exact .inr (.inr (.inl hut))
    · rw [session u hut] at hpending
      rcases h.waiting hstop u hu hpending with hmem | harmed | hheld
      · exact .inl hmem
      · exact .inr (.inl harmed)
      · rw [hio] at hheld
        exact .inr (.inr hheld)

theorem Inv.beginWrite (h : Inv σ) (hs : σ.step .beginWrite = some σ') : Inv σ' := by
  simp only [CServer.step] at hs
  split at hs
  · next t err rest hio =>
    cases hs
    have hnot : ∀ u, ¬ σ.io.Writes u := by
      rintro u ⟨err', rest', hw⟩
      cases hio.symm.trans hw
    have hrest := h.allRest hnot t
    refine h.write err hio ((h.sessions t).next (e := .beginWrite) trivial (if_pos hrest)) ?_ fun u _ => h.allRest hnot u
    unfold Session.beginWrite
    split
    · rfl
    · split <;> rfl
  · cases hs

/-- Of the steps of `HandleWrite`, none closes the session. -/
theorem closed_kept {s s' : Session} {e : Session.Event}
    (he : (∃ sent, e = .writeSome sent) ∨ e = .settle ∨ e = .endWrite) (hs : s.step e = some s') :
    s'.closed = s.closed := by
  rcases he with ⟨sent, rfl⟩ | rfl | rfl
  · simp only [Session.step, Session.writeSome] at hs
    repeat' first | (cases hs; done) | (cases hs; rfl) | split at hs
  · simp only [Session.step, Session.settle] at hs
    repeat' first | (cases hs; done) | (cases hs; rfl) | split at hs
  · simp only [Session.step, Session.endWrite] at hs
    repeat' first | (cases hs; done) | (cases hs; rfl) | split at hs

theorem Inv.writeStep (h : Inv σ) {e : Session.Event}
    (he : (∃ sent, e = .writeSome sent) ∨ e = .settle ∨ e = .endWrite) (hs : σ.writeStep e = some σ') : Inv σ' := by
  unfold CServer.writeStep at hs
  split at hs
  · next t err rest hio =>
    obtain ⟨s, hstep, rfl⟩ := Option.map_eq_some_iff.mp hs
    have hnew := h.write err hio ((h.sessions t).next (e := e) trivial hstep) (closed_kept he hstep) fun u hu => by
      rcases h.resting u with hr | ⟨err', rest', hw⟩
      · exact hr
      · cases hio.symm.trans hw
        exact absurd rfl hu
    have heq : (σ.setSession t s).serve t (.writing err) rest = σ.setSession t s := by
      unfold CServer.serve CServer.setSession
      rw [← hio]
    rw [heq] at hnew
    exact hnew
  · cases hs

theorem Inv.arm (h : Inv σ) {done : Bool} (hs : σ.step (.arm done) = some σ') : Inv σ' := by
  simp only [CServer.step] at hs
  split at hs
  · next t pending rest hio =>
    have hnot : ∀ u, ¬ σ.io.Writes u := by
      rintro u ⟨err', rest', hw⟩
      cases hio.symm.trans hw
    split at hs
    · cases hs
      refine ⟨h.sessions, h.future, h.wakeup, fun u => .inl (h.allRest hnot u), nofun, h.opened, fun hstop u hu hp => ?_, nofun⟩
      by_cases hut : u = t
      · subst hut
        cases pending with
        | true => exact .inr (.inl (Function.update_self _ _ _))
        | false => exact .inl (h.arming hstop u rest hio hp)
      · rcases h.waiting hstop u hu hp with hmem | harmed | hheld
        · exact .inl hmem
        · exact .inr (.inl ((Function.update_of_ne hut _ _).trans harmed))
        · rw [hio] at hheld
          exact .inr (.inr (hheld.resolve_left hut))
    · cases hs
      exact h.serve hio nofun (h.allRest hnot t) nofun
  · cases hs

theorem Inv.close (h : Inv σ) (hs : σ.step .close = some σ') : Inv σ' := by
  simp only [CServer.step] at hs
  split at hs
  · next t rest hio =>
    cases hs
    have hnot : ∀ u, ¬ σ.io.Writes u := by
      rintro u ⟨err', rest', hw⟩
      cases hio.symm.trans hw
    have hrest := h.allRest hnot t
    have session : ∀ u, u ≠ t → (σ.closeClient t).session u = σ.session u := fun u hu => Function.update_of_ne hu _ _
    have self : (σ.closeClient t).session t = (σ.session t).close := Function.update_self _ _ _
    have registered : ∀ u, (σ.closeClient t).registered u = true → u ≠ t ∧ σ.registered u = true := by
      intro u hu
      have hu : Function.update σ.registered t false u = true := hu
      by_cases hut : u = t
      · rw [hut, Function.update_self] at hu
        cases hu
      · rw [Function.update_of_ne hut] at hu
        exact ⟨hut, hu⟩
    refine ⟨fun u => ?_, fun u hu => ?_, h.wakeup, fun u => .inl ?_, nofun, fun u hu => ?_, fun hstop u hu hp => ?_, nofun⟩
    · by_cases hut : u = t
      · have hclose : (σ.session t).close.Reachable := (h.sessions t).next (e := .close) trivial (if_pos hrest)
        rw [hut]
        exact self ▸ hclose
      · exact session u hut ▸ h.sessions u
    · have hut : u ≠ t := by
        rintro rfl
        exact absurd ((h.served u _ rest hio).symm.trans (h.future u hu).2) (by decide)
      exact ⟨(session u hut).trans (h.future u hu).1, (Function.update_of_ne hut _ _).trans (h.future u hu).2⟩
    · by_cases hut : u = t
      · have hclosed : (σ.session t).close.Resting := hrest
        rw [hut]
        exact self ▸ hclosed
      · exact session u hut ▸ h.allRest hnot u
    · obtain ⟨hut, hold⟩ := registered u hu
      exact (congrArg Session.closed (session u hut)).trans (h.opened u hold)
    · obtain ⟨hut, hold⟩ := registered u hu
      have hp : ((σ.closeClient t).session u).hasPendingWrite = true := hp
      rw [session u hut] at hp
      rcases h.waiting hstop u hold hp with hmem | harmed | hheld
      · exact .inl hmem
      · exact .inr (.inl harmed)
      · rw [hio] at hheld
        exact .inr (.inr (hheld.resolve_left hut))
  · cases hs

theorem Inv.accept (h : Inv σ) : Inv σ.accept := by
  obtain ⟨hfresh, -⟩ := h.future σ.nextToken le_rfl
  have registered : ∀ u, σ.accept.registered u = true → u = σ.nextToken ∨ u ≠ σ.nextToken ∧ σ.registered u = true := by
    intro u hu
    have hu : Function.update σ.registered σ.nextToken true u = true := hu
    by_cases hut : u = σ.nextToken
    · exact .inl hut
    · rw [Function.update_of_ne hut] at hu
      exact .inr ⟨hut, hu⟩
  refine ⟨h.sessions, fun u hu => ?_, h.wakeup, h.resting, fun u st rest hio => ?_, fun u hu => ?_,
    fun hstop u hu hp => ?_, h.arming⟩
  · have hu : σ.nextToken + 1 ≤ u := hu
    have hold := h.future u (Nat.le_of_succ_le hu)
    exact ⟨hold.1, (Function.update_of_ne (Nat.ne_of_gt hu) _ _).trans hold.2⟩
  · have hold := h.served u st rest hio
    by_cases hut : u = σ.nextToken
    · exact hut ▸ Function.update_self _ _ _
    · exact (Function.update_of_ne hut _ _).trans hold
  · rcases registered u hu with rfl | ⟨-, hold⟩
    · exact congrArg Session.closed hfresh
    · exact h.opened u hold
  · rcases registered u hu with rfl | ⟨hut, hold⟩
    · have hp : (σ.session σ.nextToken).hasPendingWrite = true := hp
      rw [hfresh] at hp
      cases hp
    · rcases h.waiting hstop u hold hp with hmem | harmed | hheld
      · exact .inl hmem
      · exact .inr (.inl ((Function.update_of_ne hut _ _).trans harmed))
      · exact .inr (.inr hheld)

theorem Inv.wake (h : Inv σ) (hio : σ.io = .loop) :
    Inv { σ with wakeup := σ.wakeup.take.2, io := .batch σ.wakeup.take.1 } := by
  obtain ⟨hsound, hsplit, hstop⟩ := IoWakeup.take_spec h.wakeup
  have hnot : ∀ u, ¬ σ.io.Writes u := by
    rintro u ⟨err, rest, hw⟩
    exact nomatch hio.symm.trans hw
  refine ⟨h.sessions, h.future, hsound, fun u => .inl (h.allRest hnot u), nofun, h.opened, fun hstopping u hu hp => ?_,
    nofun⟩
  rcases h.waiting (hstop ▸ hstopping) u hu hp with hmem | harmed | hheld
  · rw [← hsplit] at hmem
    rcases List.mem_append.mp hmem with hbatch | hready
    · exact .inr (.inr hbatch)
    · exact .inl hready
  · exact .inr (.inl harmed)
  · rw [hio] at hheld
    exact hheld.elim

/-- A stage that `HandleWrite` is no part of. -/
theorem not_writes {t : Token} {stage : Stage} {rest : List Token} (hio : σ.io = .serving t stage rest)
    (hwriting : ∀ err, stage ≠ .writing err) (u : Token) : ¬ σ.io.Writes u := by
  rintro ⟨err, rest', hw⟩
  cases hio.symm.trans hw
  exact hwriting err rfl

theorem Inv.step {e : Event} (h : Inv σ) (hs : σ.step e = some σ') : Inv σ' := by
  -- where a connection goes that has been read or written
  have onward : ∀ {t : Token} {stage : Stage} {rest : List Token} (b : Bool), σ.io = .serving t stage rest →
      (σ.session t).Resting → Inv (σ.serve t (if b then .closing else .updating) rest) := by
    intro t stage rest b hio hrest
    cases b
    · exact h.serve hio nofun hrest nofun
    · exact h.serve hio nofun hrest nofun
  cases e with
  | send t id payload =>
    have hs : (if t < σ.nextToken then some (σ.send t id payload) else none) = some σ' := hs
    split at hs
    · next ht =>
      cases hs
      exact h.send ht id payload
    · cases hs
  | requestClose t =>
    have hs : (if t < σ.nextToken then some (σ.requestClose t) else none) = some σ' := hs
    split at hs
    · next ht =>
      cases hs
      exact h.requestClose ht
    · cases hs
  | notify t =>
    cases hs
    exact h.setWakeup (h.wakeup.notify t) (fun _ => IoWakeup.mem_notify_of_mem)
      fun hstop => (IoWakeup.notify_stopping _ _).symm.trans hstop
  | requestStop =>
    cases hs
    refine h.setWakeup h.wakeup.requestStop (fun u hu => ?_) fun hstop => ?_
    · unfold IoWakeup.requestStop
      split
      · exact hu
      · simp only [IoWakeup.wakeLocked_ready]
        exact hu
    · unfold IoWakeup.requestStop at hstop
      split at hstop
      · next hnow => exact absurd (hnow.symm.trans hstop) (by decide)
      · rw [IoWakeup.wakeLocked_stopping] at hstop
        cases hstop
  | accept =>
    simp only [CServer.step] at hs
    split at hs
    · cases hs
      exact h.accept
    · cases hs
  | wake =>
    simp only [CServer.step] at hs
    split at hs
    · next hio =>
      cases hs
      exact h.wake hio
    · cases hs
  | report t read out err =>
    simp only [CServer.step] at hs
    split at hs
    · next hready =>
      obtain ⟨hio, hreg⟩ := hready
      split at hs
      · cases hs
        exact h.takeUp hio hreg nofun nofun
      split at hs
      · cases hs
        exact h.takeUp hio hreg nofun nofun
      · cases hs
        split
        · exact h.takeUp hio hreg nofun nofun
        · exact h.takeUp hio hreg nofun nofun
    · cases hs
  | scan t =>
    simp only [CServer.step] at hs
    split at hs
    · next hready =>
      cases hs
      exact h.takeUp hready.1 hready.2 nofun nofun
    · cases hs
  | next => exact h.next hs
  | readDone alive =>
    simp only [CServer.step] at hs
    split at hs
    · next t out err rest hio =>
      have hrest := h.allRest (not_writes hio nofun) t
      split at hs
      · split at hs
        · cases hs
          exact h.serve hio nofun hrest nofun
        · cases hs
          exact onward err hio hrest
      · cases hs
        exact h.serve hio nofun hrest nofun
    · cases hs
  | scanDone alive expired =>
    simp only [CServer.step] at hs
    split at hs
    · next t rest hio =>
      cases hs
      exact onward _ hio (h.allRest (not_writes hio nofun) t)
    · cases hs
  | beginWrite => exact h.beginWrite hs
  | writeSome sent => exact h.writeStep (.inl ⟨sent, rfl⟩) hs
  | settle => exact h.writeStep (.inr (.inl rfl)) hs
  | endWrite => exact h.writeStep (.inr (.inr rfl)) hs
  | writeDone =>
    simp only [CServer.step] at hs
    split at hs
    · next t err rest hio =>
      split at hs
      · next alive hwriter =>
        cases hs
        exact onward _ hio (.inr ⟨alive, hwriter⟩)
      · cases hs
    · cases hs
  | update =>
    simp only [CServer.step] at hs
    split at hs
    · next t rest hio =>
      cases hs
      refine h.serve hio nofun (h.allRest (not_writes hio nofun) t) fun heq => ?_
      exact Stage.arming.inj heq
    · cases hs
  | arm done => exact h.arm hs
  | close => exact h.close hs

theorem inv_of_reachable (h : σ.Reachable) : Inv σ :=
  Reach.invariant fresh_inv (fun _ _ _ hi _ hs => hi.step hs) h

/-- No wake-up is lost. -/
structure NoLostWakeup (σ : CServer) : Prop where
  /-- `m_pending` is the set of the tokens in `m_ready`, and none is in there twice. -/
  names : ∀ t, t ∈ σ.wakeup.pending ↔ t ∈ σ.wakeup.ready
  nodup : σ.wakeup.ready.Nodup
  signalled : σ.wakeup.ready ≠ [] → 0 < σ.wakeup.count
  /-- A registered connection with frames to send, or a close to carry out, is named, or armed, or in hand. -/
  waiting : ∀ t, σ.registered t = true → (σ.session t).outstanding ≠ [] ∨ (σ.session t).closeRequested = true →
    t ∈ σ.wakeup.ready ∨ σ.armed t = true ∨ σ.io.Holds t

/-- Before the stop no wake-up is lost, whatever the threads and the outside do. -/
theorem noLostWakeup_of_reachable (h : σ.Reachable) (hstop : σ.wakeup.stopping = false) : σ.NoLostWakeup := by
  have hinv := inv_of_reachable h
  refine ⟨hinv.wakeup.names, hinv.wakeup.nodup, hinv.wakeup.signalled, fun t ht hwork => ?_⟩
  refine hinv.waiting hstop t ht ?_
  have hexact := Session.exact_frames (hinv.sessions t) (hinv.opened t ht)
  unfold Session.hasPendingWrite
  rcases hwork with hframes | hclose
  · have hne : (σ.session t).pendingFrames ≠ 0 := by
      rw [hexact]
      exact fun hzero => hframes (List.length_eq_zero_iff.mp hzero)
    simp only [Bool.or_eq_true, bne_iff_ne, ne_eq]
    exact .inr hne
  · simp only [hclose, Bool.true_or]

/-- A connection that has been sent a frame is named. -/
theorem noLostWakeup_after_send : ∃ σ : CServer, 5 ∈ σ.wakeup.ready ∧ σ.NoLostWakeup := by
  have hrun : ((play step (fun _ _ => true) [.accept, .send 5 1002 [111, 107]] {}).any fun σ =>
      decide (5 ∈ σ.wakeup.ready) && !σ.wakeup.stopping) = true := by decide
  obtain ⟨σ, hplay, hσ⟩ := (Option.any_eq_true _ _).mp hrun
  obtain ⟨hmem, hstop⟩ := Bool.and_eq_true_iff.mp hσ
  exact ⟨σ, of_decide_eq_true hmem,
    noLostWakeup_of_reachable (reach_play (fun _ _ _ => trivial) hplay) (Bool.not_eq_true' _ |>.mp hstop)⟩

end CServer

end SyncRtc.Net
