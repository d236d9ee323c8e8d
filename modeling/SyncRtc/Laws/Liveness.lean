import SyncRtc.Net.Heartbeat
import Mathlib.Data.List.Induction
import Mathlib.Data.List.TakeWhile

/-!
# What a heartbeat renews

The liveness of a session against a log: the heartbeats accepted so far, the window frames are counted in, and
the recheck that was granted since the last acceptance. The log takes no look at the fields of the session. A
frame is accepted when it says something the log has not heard yet, and the deadline of the session is at every
moment that of the newest entry.
-/

set_option autoImplicit false

namespace SyncRtc.Net

/-! ## Decimal numbers -/

section Decimal

theorem digit_of_isDigit {c : Char} (h : c.isDigit) : ∃ d < 10, c = Nat.digitChar d ∧ c.toNat - '0'.toNat = d := by
  have hbounds : 48 ≤ c.toNat ∧ c.toNat ≤ 57 := by
    simp only [Char.isDigit, Bool.and_eq_true, decide_eq_true_eq, ge_iff_le] at h
    exact ⟨h.1, h.2⟩
  refine ⟨c.toNat - 48, by omega, ?_, rfl⟩
  apply Char.toNat_inj.mp
  rw [Nat.toNat_digitChar_of_lt_ten (by omega)]
  omega

/-- Digits that do not begin with a zero are the digits of their value, and that is not zero. -/
theorem toDigits_ofDigitChars {digits : List Char} (hne : digits ≠ []) (hall : ∀ c ∈ digits, c.isDigit)
    (hzero : digits.head? ≠ some '0') :
    0 < Nat.ofDigitChars 10 digits 0 ∧ Nat.toDigits 10 (Nat.ofDigitChars 10 digits 0) = digits := by
  induction digits using List.reverseRecOn with
  | nil => exact absurd rfl hne
  | append_singleton digits c ih =>
    obtain ⟨d, hd, rfl, hvalue⟩ := digit_of_isDigit (hall c (by simp))
    have hstep : Nat.ofDigitChars 10 (digits ++ [d.digitChar]) 0 = 10 * Nat.ofDigitChars 10 digits 0 + d := by
      rw [Nat.ofDigitChars_append, Nat.ofDigitChars_cons, Nat.ofDigitChars_nil, hvalue]
    rw [hstep]
    cases digits with
    | nil =>
      have hpos : d ≠ 0 := by
        rintro rfl
        exact hzero rfl
      rw [Nat.ofDigitChars_nil, Nat.mul_zero, Nat.zero_add, Nat.toDigits_of_lt_base hd]
      exact ⟨Nat.pos_of_ne_zero hpos, rfl⟩
    | cons c cs =>
      obtain ⟨hpos, hdigits⟩ := ih (List.cons_ne_nil _ _) (fun x hx => hall x (List.mem_append_left _ hx)) hzero
      refine ⟨by omega, ?_⟩
      rw [← Nat.toDigits_append_toDigits (by decide) hpos hd, hdigits, Nat.toDigits_of_lt_base hd]

theorem head?_toDigits {n : Nat} (h : 0 < n) : (Nat.toDigits 10 n).head? ≠ some '0' := by
  induction n using Nat.strongRecOn with
  | _ n ih =>
    rw [Nat.toDigits_eq_if (by decide)]
    split
    · simp
      omega
    next hbig =>
      have hhead : (Nat.toDigits 10 (n / 10) ++ [Nat.digitChar (n % 10)]).head? = (Nat.toDigits 10 (n / 10)).head? :=
        List.head?_append_of_ne_nil _ Nat.toDigits_ne_nil
      rw [hhead]
      exact ih _ (by omega) (by omega)

theorem isDigit_of_mem_decimal {n : Nat} {c : Char} (h : c ∈ Nat.toDigits 10 n) : c.isDigit :=
  Nat.isDigit_of_mem_toDigits (by decide) (by decide) h

/-- A text of digits has a byte for each of them. -/
theorem utf8ByteSize_digits {digits : List Char} (h : ∀ c ∈ digits, c.isDigit) :
    (String.ofList digits).utf8ByteSize = digits.length := by
  induction digits with
  | nil => rfl
  | cons c digits ih =>
    have hsize : ∀ d < 10, (Nat.digitChar d).utf8Size = 1 := by decide
    obtain ⟨d, hd, rfl, -⟩ := digit_of_isDigit (h c List.mem_cons_self)
    rw [String.ofList_cons, String.utf8ByteSize_append, String.utf8ByteSize_singleton, hsize d hd,
      ih fun x hx => h x (List.mem_cons_of_mem _ hx), List.length_cons, Nat.add_comm]

theorem fromChars_decimal {n : Nat} (h : n < 2 ^ 64) : fromChars (Nat.toDigits 10 n) = some (n, []) := by
  have htake : (Nat.toDigits 10 n).takeWhile Char.isDigit = Nat.toDigits 10 n :=
    List.takeWhile_eq_self_iff.mpr fun _ hc => isDigit_of_mem_decimal hc
  have hdrop : (Nat.toDigits 10 n).dropWhile Char.isDigit = [] :=
    List.dropWhile_eq_nil_iff.mpr fun _ hc => isDigit_of_mem_decimal hc
  simp only [fromChars, htake, hdrop, Nat.ofDigitChars_ten_toDigits]
  rw [if_neg]
  simp only [List.isEmpty_iff, Nat.toDigits_ne_nil, false_or, not_le]
  exact h

/-- What `HandleHeartbeat` takes for a sequence number is the decimal text of a positive 64-bit number. -/
theorem sequenceNumber_iff {sequence : String} {n : Nat} :
    LiveSession.sequenceNumber sequence = some n ↔ 0 < n ∧ n < 2 ^ 64 ∧ sequence = toString n := by
  constructor
  · intro h
    unfold LiveSession.sequenceNumber at h
    split at h
    · cases h
    next number rest hparsed =>
      split at h
      · cases h
      next hchecks =>
        cases h
        simp only [not_or, not_not] at hchecks
        obtain ⟨hempty, -, hzero, hrest⟩ := hchecks
        simp only [fromChars] at hparsed
        split at hparsed
        · cases hparsed
        next hfits =>
          simp only [Option.some.injEq, Prod.mk.injEq] at hparsed
          obtain ⟨hvalue, hdrop⟩ := hparsed
          have hall : ∀ c ∈ sequence.toList, c.isDigit :=
            List.dropWhile_eq_nil_iff.mp (hdrop.trans hrest)
          rw [List.takeWhile_eq_self_iff.mpr hall] at hvalue hfits
          have hne : sequence.toList ≠ [] := by
            intro e
            exact hfits (.inl (by rw [e]; rfl))
          obtain ⟨hpos, hdigits⟩ := toDigits_ofDigitChars hne hall hzero
          rw [hvalue] at hpos hdigits
          refine ⟨hpos, ?_, ?_⟩
          · rw [← hvalue]
            exact Nat.lt_of_not_le fun hbig => hfits (.inr hbig)
          · rw [Nat.toString_eq_ofList_toDigits, hdigits, String.ofList_toList]
  · rintro ⟨hpos, hfits, rfl⟩
    have hlist : (toString n).toList = Nat.toDigits 10 n := Nat.toList_repr
    have hsize : (toString n).utf8ByteSize ≤ 20 := by
      rw [Nat.toString_eq_ofList_toDigits, utf8ByteSize_digits fun c hc => isDigit_of_mem_decimal hc,
        Nat.length_toDigits_le_iff (by decide) (by decide)]
      omega
    have hempty : (toString n).isEmpty = false := by
      rw [Bool.eq_false_iff, ne_eq, String.isEmpty_iff]
      exact Nat.repr_ne_empty
    unfold LiveSession.sequenceNumber
    simp only [hlist, fromChars_decimal hfits, hempty]
    rw [if_neg]
    simp only [Bool.false_eq_true, head?_toDigits hpos, ne_eq, not_true_eq_false, or_false, false_or]
    omega

end Decimal

/-! ## The log -/

/-- What a heartbeat says. -/
inductive Beat where
  | empty
  | number (n : Nat)

/-- The two forms of a heartbeat, and nothing else is one. -/
inductive Says : Json → Beat → Prop where
  | empty : Says (.obj []) .empty
  | number {n : Nat} (hpos : 0 < n) (hfits : n < 2 ^ 64) : Says (.obj [("seq", .str (toString n))]) (.number n)

/-- The answer to a heartbeat repeats it. -/
def Beat.reply : Beat → String
  | .empty => "\x7b\x7d"
  | .number n => "\x7b\"seq\":\"" ++ toString n ++ "\"\x7d"

/-- What has happened to a session, as far as its liveness goes. -/
structure Log where
  createdAt : Int := 0
  /-- The accepted heartbeats and their times, the newest first. -/
  accepted : List (Int × Beat) := []
  windowStart : Int := 0
  inWindow : Nat := 0
  /-- The end of the recheck granted since the last acceptance. -/
  granted : Option Int := none

namespace Log

/-- One more frame in its window: the current one, or a new one a second after it has opened. -/
def count (l : Log) (now : Int) : Log :=
  if now - l.windowStart ≥ seconds 1 then { l with windowStart := now, inWindow := 1 }
  else { l with inWindow := l.inWindow + 1 }

@[simp] theorem count_createdAt (l : Log) (now : Int) : (l.count now).createdAt = l.createdAt := by
  unfold count
  split <;> rfl

@[simp] theorem count_accepted (l : Log) (now : Int) : (l.count now).accepted = l.accepted := by
  unfold count
  split <;> rfl

@[simp] theorem count_granted (l : Log) (now : Int) : (l.count now).granted = l.granted := by
  unfold count
  split <;> rfl

/-- An empty heartbeat is fresh until a number was accepted, a number when it is above all accepted ones. -/
def Fresh (l : Log) : Beat → Prop
  | .empty => ∀ e ∈ l.accepted, ∀ m, e.2 ≠ .number m
  | .number n => ∀ e ∈ l.accepted, ∀ m, e.2 = .number m → m < n

/-- A frame of an authenticated session that is not too long, and not too much for its window. -/
def Admits (userId : Int) (l : Log) (payload : Bytes) (now : Int) : Prop :=
  0 < userId ∧ payload.length ≤ 96 ∧ (l.count now).inWindow ≤ 4

/-- The frame is a fresh heartbeat. -/
def Accepts (parse : Bytes → Option Json) (userId : Int) (l : Log) (payload : Bytes) (now : Int) (beat : Beat) : Prop :=
  l.Admits userId payload now ∧ l.Fresh beat ∧ ∃ value, parse payload = some value ∧ Says value beat

open Classical in
/-- A heartbeat frame comes in. -/
noncomputable def frame (parse : Bytes → Option Json) (userId : Int) (l : Log) (payload : Bytes) (now : Int) : Log :=
  if h : ∃ beat, l.Accepts parse userId payload now beat then
    { l.count now with accepted := (now, h.choose) :: l.accepted, granted := none }
  else if 0 < userId ∧ payload.length ≤ 96 then l.count now
  else l

/-- The session is past its deadline. -/
def overdue (l : Log) (userId : Int) (now : Int) : Bool :=
  if userId ≤ 0 then decide (now - l.createdAt ≥ seconds 30)
  else l.accepted.head?.any fun e => decide (now - e.1 ≥ seconds 20)

/-- A call of `ConnectionExpired`. -/
def scan (l : Log) (userId : Int) (now : Int) (allowRecheck : Bool) : Log :=
  if l.overdue userId now && allowRecheck && l.granted.isNone then { l with granted := some (now + seconds 3) } else l

end Log

/-! ## The session keeps the log -/

/-- What the fields of a session say of its log. -/
structure Keeps (s : LiveSession) (l : Log) : Prop where
  createdAt : s.createdAt = l.createdAt
  enabled : s.heartbeatEnabled = l.accepted.head?.isSome
  last : ∀ e, l.accepted.head? = some e → s.lastHeartbeat = e.1
  sequenced : s.sequencedHeartbeat = true ↔ ∃ e ∈ l.accepted, ∃ m, e.2 = .number m
  above : ∀ e ∈ l.accepted, ∀ m, e.2 = .number m → m ≤ s.heartbeatSequence
  attained : s.heartbeatSequence = 0 ∨ ∃ e ∈ l.accepted, e.2 = .number s.heartbeatSequence
  window : s.heartbeatWindow = l.windowStart
  count : s.heartbeatCount = l.inWindow
  recheck : s.recheckUsed = l.granted.isSome
  until' : ∀ t, l.granted = some t → s.recheckUntil = t

namespace LiveSession

/-- The fields an accepted heartbeat sets before the deadline. -/
def mark (s : LiveSession) : Beat → LiveSession
  | .empty => s
  | .number n => { s with sequencedHeartbeat := true, heartbeatSequence := n }

variable {parse : Bytes → Option Json} {s : LiveSession} {l : Log} {payload : Bytes} {now : Int} {notified : Bool}

/-- The window of the session is the window of the log. -/
theorem countFrame_eq (hk : Keeps s l) (now : Int) :
    s.countFrame now =
      { s with heartbeatWindow := (l.count now).windowStart, heartbeatCount := (l.count now).inWindow } := by
  unfold countFrame Log.count
  rw [hk.window]
  split
  · rfl
  · rw [← hk.count, ← hk.window]

theorem countFrame_keeps (hk : Keeps s l) (now : Int) : Keeps (s.countFrame now) (l.count now) := by
  rw [countFrame_eq hk]
  unfold Log.count
  split <;>
    exact ⟨hk.createdAt, hk.enabled, hk.last, hk.sequenced, hk.above, hk.attained, rfl, rfl, hk.recheck, hk.until'⟩

/-- A frame that the session does not look into closes it. -/
theorem handle_unadmitted (hk : Keeps s l) (h : ¬ l.Admits s.userId payload now) :
    s.handleHeartbeat parse payload now notified =
      if 0 < s.userId ∧ payload.length ≤ 96 then (s.countFrame now).requestClose else s.requestClose := by
  unfold handleHeartbeat
  by_cases hfirst : 0 < s.userId ∧ payload.length ≤ 96
  · have hrate : (s.countFrame now).heartbeatCount > 4 := by
      rw [countFrame_eq hk]
      exact Nat.lt_of_not_le fun hle => h ⟨hfirst.1, hfirst.2, hle⟩
    rw [if_neg (by omega), if_pos hfirst]
    exact if_pos hrate
  · rw [if_pos (by omega), if_neg hfirst]

/-- What an admitted frame comes down to. -/
theorem handle_admitted (hk : Keeps s l) (h : l.Admits s.userId payload now) :
    s.handleHeartbeat parse payload now notified =
      match parse payload with
      | some (.obj fields) =>
        if fields.isEmpty && !s.sequencedHeartbeat then (s.countFrame now).renew now "\x7b\x7d" notified
        else if fields.length ≠ 1 then (s.countFrame now).requestClose
        else
          match (Json.obj fields).get "seq" with
          | .str sequence =>
            match sequenceNumber sequence with
            | none => (s.countFrame now).requestClose
            | some number =>
              if number ≤ s.heartbeatSequence then s.countFrame now
              else ((s.countFrame now).mark (.number number)).renew now
                ("\x7b\"seq\":\"" ++ sequence ++ "\"\x7d") notified
          | _ => (s.countFrame now).requestClose
      | _ => (s.countFrame now).requestClose := by
  have hsame : (s.countFrame now).sequencedHeartbeat = s.sequencedHeartbeat ∧
      (s.countFrame now).heartbeatSequence = s.heartbeatSequence := by
    unfold countFrame
    split <;> exact ⟨rfl, rfl⟩
  obtain ⟨huser, hsize, hrate⟩ := h
  unfold handleHeartbeat
  rw [if_neg (by omega)]
  dsimp only
  rw [if_neg (by rw [countFrame_eq hk]; exact Nat.not_lt.mpr hrate), hsame.1, hsame.2]
  rfl

theorem handle_fresh (hk : Keeps s l) {beat : Beat} (h : l.Accepts parse s.userId payload now beat) :
    s.handleHeartbeat parse payload now notified = ((s.countFrame now).mark beat).renew now beat.reply notified := by
  obtain ⟨hadm, hfresh, value, hparse, hsaid⟩ := h
  rw [handle_admitted hk hadm, hparse]
  cases hsaid with
  | empty =>
    have hfirst : s.sequencedHeartbeat = false := by
      rw [Bool.eq_false_iff]
      intro hs
      obtain ⟨e, he, m, hm⟩ := hk.sequenced.mp hs
      exact hfresh e he m hm
    rw [hfirst]
    rfl
  | @number n hpos hfits =>
    have habove : ¬ n ≤ s.heartbeatSequence := by
      rcases hk.attained with h | ⟨e, he, hm⟩
      · omega
      · have := hfresh e he _ hm
        omega
    have hnumber : sequenceNumber (toString n) = some n := sequenceNumber_iff.mpr ⟨hpos, hfits, rfl⟩
    have hget : (Json.obj [("seq", .str (toString n))]).get "seq" = .str (toString n) := rfl
    simp only [hget, hnumber, if_neg habove]
    rfl

/-- A number that is not above the accepted ones changes nothing but the count. -/
theorem handle_stale (hk : Keeps s l) (hadm : l.Admits s.userId payload now) {value : Json} {n : Nat}
    (hparse : parse payload = some value) (hsaid : Says value (.number n)) (hstale : ¬ l.Fresh (.number n)) :
    s.handleHeartbeat parse payload now notified = s.countFrame now := by
  have hbelow : n ≤ s.heartbeatSequence := by
    simp only [Log.Fresh, not_forall] at hstale
    obtain ⟨e, he, m, hm, hlt⟩ := hstale
    have := hk.above e he m hm
    omega
  rw [handle_admitted hk hadm, hparse]
  cases hsaid with
  | number hpos hfits =>
    have hnumber : sequenceNumber (toString n) = some n := sequenceNumber_iff.mpr ⟨hpos, hfits, rfl⟩
    have hget : (Json.obj [("seq", .str (toString n))]).get "seq" = .str (toString n) := rfl
    simp only [hget, hnumber, if_pos hbelow]
    rfl

/-- Anything else closes the session. -/
theorem handle_invalid (hk : Keeps s l) (hadm : l.Admits s.userId payload now)
    (hfresh : ∀ beat, ¬ l.Accepts parse s.userId payload now beat)
    (hnumber : ∀ value n, parse payload = some value → ¬ Says value (.number n)) :
    s.handleHeartbeat parse payload now notified = (s.countFrame now).requestClose := by
  rw [handle_admitted hk hadm]
  split
  next fields hparse =>
    split
    next hempty =>
      simp only [Bool.and_eq_true, List.isEmpty_iff, Bool.not_eq_eq_eq_not, Bool.not_true] at hempty
      obtain ⟨rfl, hfirst⟩ := hempty
      refine absurd ⟨hadm, ?_, _, hparse, .empty⟩ (hfresh .empty)
      intro e he m hm
      rw [hk.sequenced.mpr ⟨e, he, m, hm⟩] at hfirst
      cases hfirst
    next =>
      split
      · rfl
      next hone =>
        rw [ne_eq, not_not] at hone
        obtain ⟨⟨name, value⟩, rfl⟩ := List.length_eq_one_iff.mp hone
        split
        next sequence hget =>
          split
          · rfl
          next number hn =>
            obtain ⟨hpos, hfits, rfl⟩ := sequenceNumber_iff.mp hn
            have hfield : name = "seq" ∧ value = .str (toString number) := by
              unfold Json.get at hget
              by_cases hname : name = "seq"
              · simp only [hname, decide_true, List.find?_cons_of_pos, Option.elim_some] at hget
                exact ⟨hname, hget⟩
              · simp [hname] at hget
            rw [hfield.1, hfield.2] at hparse
            exact absurd (.number hpos hfits) (hnumber _ _ hparse)
        · rfl
  · rfl

/-- Nothing a session keeps a log of is touched by a close, or by what it sends. -/
theorem withSession_keeps (hk : Keeps s l) (session : Session) : Keeps { s with session := session } l :=
  ⟨hk.createdAt, hk.enabled, hk.last, hk.sequenced, hk.above, hk.attained, hk.window, hk.count, hk.recheck, hk.until'⟩

theorem renew_eq (s : LiveSession) (now : Int) (reply : String) (notified : Bool) :
    s.renew now reply notified =
      { s with
        heartbeatEnabled := true, lastHeartbeat := now, recheckUsed := false
        session := (s.renew now reply notified).session } := by
  simp only [renew, requestClose]
  split <;> rfl

/-- An accepted heartbeat is the newest entry of the log, and its number the greatest. -/
theorem renew_keeps (hk : Keeps s l) {beat : Beat} (hfresh : l.Fresh beat) (reply : String) :
    Keeps ((s.mark beat).renew now reply notified) { l with accepted := (now, beat) :: l.accepted, granted := none } := by
  have hnewest : ∀ e : Int × Beat, (((now, beat) :: l.accepted).head? = some e) → now = e.1 := by
    rintro e h
    cases h
    rfl
  rw [renew_eq]
  cases beat with
  | empty =>
    refine ⟨hk.createdAt, rfl, hnewest, ?_, ?_, ?_, hk.window, hk.count, rfl, nofun⟩
    · refine hk.sequenced.trans ⟨fun ⟨e, he, h⟩ => ⟨e, List.mem_cons_of_mem _ he, h⟩, fun ⟨e, he, m, hm⟩ => ?_⟩
      rcases List.mem_cons.mp he with rfl | he
      · cases hm
      · exact ⟨e, he, m, hm⟩
    · intro e he m hm
      rcases List.mem_cons.mp he with rfl | he
      · cases hm
      · exact hk.above e he m hm
    · exact hk.attained.imp_right fun ⟨e, he, h⟩ => ⟨e, List.mem_cons_of_mem _ he, h⟩
  | number n =>
    refine ⟨hk.createdAt, rfl, hnewest, ?_, ?_, ?_, hk.window, hk.count, rfl, nofun⟩
    · exact ⟨fun _ => ⟨_, List.mem_cons_self, n, rfl⟩, fun _ => rfl⟩
    · intro e he m hm
      rcases List.mem_cons.mp he with rfl | he
      · cases hm
        exact Nat.le_refl _
      · exact Nat.le_of_lt (hfresh e he m hm)
    · exact .inr ⟨_, List.mem_cons_self, rfl⟩

/-- A frame that is not accepted leaves the liveness of the session as it was. -/
theorem handle_refused (hk : Keeps s l) (h : ∀ beat, ¬ l.Accepts parse s.userId payload now beat) :
    ∃ closed : Bool, s.handleHeartbeat parse payload now notified =
      { if 0 < s.userId ∧ payload.length ≤ 96 then s.countFrame now else s with
        session := if closed then s.session.requestClose else s.session } := by
  have hsession : (s.countFrame now).session = s.session := by
    rw [countFrame_eq hk]
  by_cases hadm : l.Admits s.userId payload now
  · rw [if_pos ⟨hadm.1, hadm.2.1⟩]
    by_cases hnumber : ∃ value n, parse payload = some value ∧ Says value (.number n)
    · obtain ⟨value, n, hparse, hsaid⟩ := hnumber
      refine ⟨false, ?_⟩
      have hstale : ¬ l.Fresh (.number n) := fun hf => h _ ⟨hadm, hf, value, hparse, hsaid⟩
      rw [handle_stale hk hadm hparse hsaid hstale]
      simp only [Bool.false_eq_true, if_false, ← hsession]
    · refine ⟨true, ?_⟩
      rw [handle_invalid hk hadm h fun value n hp hs => hnumber ⟨value, n, hp, hs⟩, requestClose, hsession]
      rfl
  · refine ⟨true, ?_⟩
    rw [handle_unadmitted hk hadm]
    split
    · rw [requestClose, hsession]
      rfl
    · rfl

theorem handle_keeps (hk : Keeps s l) :
    Keeps (s.handleHeartbeat parse payload now notified) (l.frame parse s.userId payload now) := by
  unfold Log.frame
  split
  next h =>
    have hacc := h.choose_spec
    rw [handle_fresh hk hacc]
    have hfresh : (l.count now).Fresh h.choose := by
      simpa only [Log.Fresh, Log.count_accepted] using hacc.2.1
    have hcounted := @renew_keeps _ _ now notified (countFrame_keeps hk now) _ hfresh h.choose.reply
    rwa [Log.count_accepted] at hcounted
  next h =>
    obtain ⟨closed, heq⟩ := @handle_refused _ _ _ _ _ notified hk (not_exists.mp h)
    rw [heq]
    split
    · exact withSession_keeps (countFrame_keeps hk now) _
    · exact withSession_keeps hk _

/-! ## Expiry -/

theorem overdue_eq (hk : Keeps s l) (now : Int) : s.overdue now = l.overdue s.userId now := by
  unfold overdue Log.overdue
  rw [hk.createdAt, hk.enabled]
  split
  · rfl
  · cases h : l.accepted.head? with
    | none => rfl
    | some e => simp only [Option.isSome_some, Bool.true_and, Option.any_some, hk.last e h]

/-- What a call of `ConnectionExpired` does: it grants the recheck, if it is due, allowed and not granted yet. -/
theorem connectionExpired_eq (hk : Keeps s l) (now : Int) (allowRecheck : Bool) :
    s.connectionExpired now allowRecheck =
      (l.overdue s.userId now && (l.scan s.userId now allowRecheck).granted.all fun t => decide (t ≤ now),
        if l.overdue s.userId now && allowRecheck && l.granted.isNone then
          { s with recheckUsed := true, recheckUntil := now + seconds 3 }
        else s) := by
  unfold connectionExpired Log.scan
  rw [overdue_eq hk]
  cases l.overdue s.userId now with
  | false => rfl
  | true =>
    cases hgranted : l.granted with
    | none =>
      have hunused : s.recheckUsed = false := by rw [hk.recheck, hgranted]; rfl
      cases allowRecheck with
      | false => simp [hunused, hgranted]
      | true => simp [hunused]
    | some t =>
      have hused : s.recheckUsed = true := by rw [hk.recheck, hgranted]; rfl
      simp [hused, hgranted, hk.until' t hgranted]

theorem connectionExpired_keeps (hk : Keeps s l) (now : Int) (allowRecheck : Bool) :
    Keeps (s.connectionExpired now allowRecheck).2 (l.scan s.userId now allowRecheck) := by
  rw [connectionExpired_eq hk]
  unfold Log.scan
  dsimp only
  split
  · refine ⟨hk.createdAt, hk.enabled, hk.last, hk.sequenced, hk.above, hk.attained, hk.window, hk.count, rfl, ?_⟩
    rintro t h
    cases h
    rfl
  · exact hk

end LiveSession

/-! ## Runs -/

section Runs

/-- A session and its log. -/
structure Watched where
  session : LiveSession
  log : Log

/-- What can happen to a session. -/
inductive Watched.Event where
  | frame (payload : Bytes) (now : Int) (notified : Bool)
  | expired (now : Int) (allowRecheck : Bool)
  | setUserId (userId : Int)
  /-- Anything the send side does, from any thread. -/
  | io (e : Session.Event)

variable (parse : Bytes → Option Json)

noncomputable def Watched.step (w : Watched) : Watched.Event → Option Watched
  | .frame payload now notified =>
    some ⟨w.session.handleHeartbeat parse payload now notified, w.log.frame parse w.session.userId payload now⟩
  | .expired now allowRecheck =>
    some ⟨(w.session.connectionExpired now allowRecheck).2, w.log.scan w.session.userId now allowRecheck⟩
  | .setUserId userId => some ⟨{ w.session with userId := userId }, w.log⟩
  | .io e => (w.session.session.step e).map fun session => ⟨{ w.session with session := session }, w.log⟩

/-- The states of a session that was accepted at some time, whatever comes in, is scanned and is sent. -/
def Watched.Reachable (w : Watched) : Prop :=
  ∃ createdAt, Reach (Watched.step parse) (fun _ _ => True) ⟨{ createdAt := createdAt }, { createdAt := createdAt }⟩ w

variable {parse}

theorem keeps_of_reachable {w : Watched} (h : w.Reachable parse) : Keeps w.session w.log := by
  obtain ⟨createdAt, h⟩ := h
  refine h.invariant (I := fun w => Keeps w.session w.log) ?_ ?_
  · exact ⟨rfl, rfl, nofun, ⟨nofun, fun ⟨_, he, _⟩ => absurd he List.not_mem_nil⟩,
      fun _ he => absurd he List.not_mem_nil, .inl rfl, rfl, rfl, rfl, nofun⟩
  · intro w e w' hk _ hstep
    cases e with
    | frame payload now notified =>
      cases hstep
      exact LiveSession.handle_keeps hk
    | expired now allowRecheck =>
      cases hstep
      exact LiveSession.connectionExpired_keeps hk now allowRecheck
    | setUserId userId =>
      cases hstep
      exact ⟨hk.createdAt, hk.enabled, hk.last, hk.sequenced, hk.above, hk.attained, hk.window, hk.count, hk.recheck,
        hk.until'⟩
    | io e =>
      obtain ⟨session, -, rfl⟩ := Option.map_eq_some_iff.mp hstep
      exact LiveSession.withSession_keeps hk session

/-- What the heartbeat promises of a session, in terms of its log. -/
structure Guarded (parse : Bytes → Option Json) (s : LiveSession) (l : Log) : Prop where
  /-- The deadline counts from the newest accepted heartbeat. -/
  deadline : ∀ e, l.accepted.head? = some e → s.heartbeatEnabled = true ∧ s.lastHeartbeat = e.1
  /-- A fresh heartbeat moves the deadline and is answered. -/
  accepts : ∀ payload now notified beat, l.Accepts parse s.userId payload now beat →
    let s' := s.handleHeartbeat parse payload now notified
    let sent := s.session.send heartbeatResponse (text beat.reply) notified
    s'.heartbeatEnabled = true ∧ s'.lastHeartbeat = now ∧
      s'.session = if sent.1 then sent.2 else sent.2.requestClose
  /-- Any other frame does not move it and is not answered. -/
  refuses : ∀ payload now notified, (∀ beat, ¬ l.Accepts parse s.userId payload now beat) →
    let s' := s.handleHeartbeat parse payload now notified
    s'.heartbeatEnabled = s.heartbeatEnabled ∧ s'.lastHeartbeat = s.lastHeartbeat ∧
      s'.recheckUsed = s.recheckUsed ∧ s'.recheckUntil = s.recheckUntil ∧
      (s'.session = s.session ∨ s'.session = s.session.requestClose)
  /-- A replayed or smaller number, in its window, has no effect at all on the connection. -/
  stale : ∀ payload now notified value n, l.Admits s.userId payload now → parse payload = some value →
    Says value (.number n) → (∃ e ∈ l.accepted, ∃ m, e.2 = .number m ∧ n ≤ m) →
    (s.handleHeartbeat parse payload now notified).session = s.session
  /-- A frame that is too long, the fifth of its window, no heartbeat, or empty after a number closes the session. -/
  closes : ∀ payload now notified,
    (payload.length > 96 ∨ (l.count now).inWindow > 4 ∨ (∀ value beat, parse payload = some value → ¬ Says value beat) ∨
      (parse payload = some (.obj []) ∧ ∃ e ∈ l.accepted, ∃ m, e.2 = .number m)) →
    (s.handleHeartbeat parse payload now notified).session.isClosed = true
  /-- A recheck ends three seconds after it was granted, and none is granted after it until the next acceptance. -/
  recheck : ∀ now allowRecheck, let s' := (s.connectionExpired now allowRecheck).2
    s' = s ∨ l.granted = none ∧ (l.scan s.userId now allowRecheck).granted = some (now + seconds 3) ∧
      s'.recheckUntil = now + seconds 3
  /-- A session is reported expired at 20 seconds, unless this call grants the recheck or the one granted lasts. -/
  expires : 0 < s.userId → ∀ now allowRecheck, (s.connectionExpired now allowRecheck).1 = true ↔
    (∃ e, l.accepted.head? = some e ∧ now - e.1 ≥ seconds 20) ∧
      (l.granted = none ∧ allowRecheck = false ∨ ∃ t, l.granted = some t ∧ t ≤ now)
  /-- The scan closes it then, if no frame it reads first is accepted. -/
  scans : 0 < s.userId → ∀ now recheck frames alive e, l.accepted.head? = some e → now - e.1 ≥ seconds 20 →
    (frames.foldl (fun l (frame : Bytes × Int) => l.frame parse s.userId frame.1 frame.2) l).accepted = l.accepted →
    (l.granted = none ∧ recheck = false ∨ ∃ t, l.granted = some t ∧ t ≤ now) →
    (s.checkHeartbeat parse now recheck frames alive).1 = true

variable {s : LiveSession} {l : Log}

theorem Log.accepted_frame (userId : Int) (l : Log) (payload : Bytes) (now : Int) :
    (l.frame parse userId payload now).accepted = l.accepted ∧
        (l.frame parse userId payload now).granted = l.granted ∨
      ∃ beat, (l.frame parse userId payload now).accepted = (now, beat) :: l.accepted := by
  unfold frame
  split
  next h => exact .inr ⟨h.choose, rfl⟩
  · split
    · exact .inl ⟨l.count_accepted now, l.count_granted now⟩
    · exact .inl ⟨rfl, rfl⟩

/-- Frames of which none is accepted leave the recheck as it was. -/
theorem Log.granted_frames (userId : Int) (frames : List (Bytes × Int)) (l : Log) :
    l.accepted <:+ (frames.foldl (fun l frame => l.frame parse userId frame.1 frame.2) l).accepted ∧
      ((frames.foldl (fun l frame => l.frame parse userId frame.1 frame.2) l).accepted = l.accepted →
        (frames.foldl (fun l frame => l.frame parse userId frame.1 frame.2) l).granted = l.granted) := by
  induction frames generalizing l with
  | nil => exact ⟨List.suffix_rfl, fun _ => rfl⟩
  | cons frame frames ih =>
    obtain ⟨hsuffix, hgranted⟩ := ih (l.frame parse userId frame.1 frame.2)
    rw [List.foldl_cons]
    rcases @Log.accepted_frame parse userId l frame.1 frame.2 with ⟨hacc, hgr⟩ | ⟨beat, hacc⟩
    · rw [hacc] at hsuffix hgranted
      exact ⟨hsuffix, fun h => (hgranted h).trans hgr⟩
    · rw [hacc] at hsuffix
      refine ⟨(List.suffix_cons _ _).trans hsuffix, fun h => ?_⟩
      have hlen := hsuffix.length_le
      rw [h, List.length_cons] at hlen
      omega

theorem userId_handleHeartbeat (hk : Keeps s l) (payload : Bytes) (now : Int) (notified : Bool) :
    (s.handleHeartbeat parse payload now notified).userId = s.userId := by
  by_cases h : ∃ beat, l.Accepts parse s.userId payload now beat
  · obtain ⟨beat, hacc⟩ := h
    rw [LiveSession.handle_fresh hk hacc, LiveSession.renew_eq, LiveSession.countFrame_eq hk]
    cases beat <;> rfl
  · obtain ⟨closed, heq⟩ := @LiveSession.handle_refused _ _ _ _ _ notified hk (not_exists.mp h)
    rw [heq, LiveSession.countFrame_eq hk]
    split <;> rfl

theorem frames_keeps (frames : List (Bytes × Int)) (hk : Keeps s l) :
    Keeps (frames.foldl (fun s frame => s.handleHeartbeat parse frame.1 frame.2 true) s)
        (frames.foldl (fun l frame => l.frame parse s.userId frame.1 frame.2) l) ∧
      (frames.foldl (fun s frame => s.handleHeartbeat parse frame.1 frame.2 true) s).userId = s.userId := by
  induction frames generalizing s l with
  | nil => exact ⟨hk, rfl⟩
  | cons frame frames ih =>
    have hnext := ih (@LiveSession.handle_keeps parse _ _ frame.1 frame.2 true hk)
    rw [userId_handleHeartbeat hk] at hnext
    exact hnext

theorem isClosed_requestClose (s : Session) : s.requestClose.isClosed = true := by
  simp [Session.requestClose, Session.isClosed]

theorem expires_iff (hk : Keeps s l) (huser : 0 < s.userId) (now : Int) (allowRecheck : Bool) :
    (s.connectionExpired now allowRecheck).1 = true ↔
      (∃ e, l.accepted.head? = some e ∧ now - e.1 ≥ seconds 20) ∧
        (l.granted = none ∧ allowRecheck = false ∨ ∃ t, l.granted = some t ∧ t ≤ now) := by
  have hoverdue : l.overdue s.userId now = true ↔ ∃ e, l.accepted.head? = some e ∧ now - e.1 ≥ seconds 20 := by
    unfold Log.overdue
    rw [if_neg (by omega), Option.any_eq_true]
    simp only [decide_eq_true_eq]
  rw [LiveSession.connectionExpired_eq hk, Bool.and_eq_true, hoverdue]
  refine and_congr_right fun hlate => ?_
  unfold Log.scan
  rw [hoverdue.mpr hlate]
  cases hgranted : l.granted with
  | none =>
    have hlater : ¬ now + seconds 3 ≤ now := by
      unfold seconds
      omega
    cases allowRecheck with
    | false => simp [hgranted]
    | true => simp [hlater]
  | some t => simp [hgranted]

/-- **The heartbeat cannot be faked or stretched.** -/
theorem guarded_of_reachable {w : Watched} (h : w.Reachable parse) : Guarded parse w.session w.log := by
  obtain ⟨s, l⟩ := w
  have hk : Keeps s l := keeps_of_reachable h
  have hsession : ∀ now, (s.countFrame now).session = s.session := fun now => by rw [LiveSession.countFrame_eq hk]
  constructor
  case deadline =>
    intro e he
    exact ⟨hk.enabled.trans (by rw [he]; rfl), hk.last e he⟩
  case accepts =>
    intro payload now notified beat hacc
    have hmark : ((s.countFrame now).mark beat).session = s.session := by
      cases beat <;> exact hsession now
    simp only [LiveSession.handle_fresh hk hacc, LiveSession.renew, LiveSession.requestClose, hmark]
    split <;> exact ⟨rfl, rfl, rfl⟩
  case refuses =>
    intro payload now notified hno
    obtain ⟨closed, heq⟩ := @LiveSession.handle_refused _ _ _ _ _ notified hk hno
    rw [heq, LiveSession.countFrame_eq hk]
    refine ⟨?_, ?_, ?_, ?_, ?_⟩
    · split <;> rfl
    · split <;> rfl
    · split <;> rfl
    · split <;> rfl
    · cases closed
      · exact .inl rfl
      · exact .inr rfl
  case stale =>
    intro payload now notified value n hadm hparse hsaid ⟨e, he, m, hm, hle⟩
    have hstale : ¬ l.Fresh (.number n) := fun hf => absurd (hf e he m hm) (Nat.not_lt.mpr hle)
    rw [LiveSession.handle_stale hk hadm hparse hsaid hstale, hsession]
  case closes =>
    intro payload now notified hbad
    by_cases hadm : l.Admits s.userId payload now
    · have hno : ∀ beat value, parse payload = some value → Says value beat → ¬ l.Fresh beat ∧ beat = .empty := by
        intro beat value hparse hsaid
        rcases hbad with hlong | hrate | hnone | ⟨hempty, e, he, m, hm⟩
        · exact absurd hadm.2.1 (by omega)
        · exact absurd hadm.2.2 (Nat.not_le.mpr hrate)
        · exact absurd hsaid (hnone value beat hparse)
        · rw [hempty] at hparse
          cases hparse
          cases hsaid
          exact ⟨fun hf => hf e he m hm, rfl⟩
      rw [LiveSession.handle_invalid hk hadm]
      · exact isClosed_requestClose _
      · rintro beat ⟨-, hf, value, hparse, hsaid⟩
        exact (hno beat value hparse hsaid).1 hf
      · intro value n hparse hsaid
        cases (hno _ value hparse hsaid).2
    · rw [LiveSession.handle_unadmitted hk hadm]
      split <;> exact isClosed_requestClose _
  case recheck =>
    intro now allowRecheck
    rw [LiveSession.connectionExpired_eq hk]
    unfold Log.scan
    dsimp only
    split
    next hgrant =>
      simp only [Bool.and_eq_true, Option.isNone_iff_eq_none] at hgrant
      exact .inr ⟨hgrant.2, rfl, rfl⟩
    · exact .inl rfl
  case expires => exact fun huser now allowRecheck => expires_iff hk huser now allowRecheck
  case scans =>
    intro huser now recheck frames alive e he hlate hquiet hdue
    have hnow : (s.connectionExpired now false).1 = true :=
      (expires_iff hk huser now false).mpr ⟨⟨e, he, hlate⟩, hdue.imp_left fun h => ⟨h.1, rfl⟩⟩
    have hsame : (s.connectionExpired now false).2 = s := by
      rw [LiveSession.connectionExpired_eq hk, Bool.and_false, Bool.false_and]
      rfl
    obtain ⟨hread, huser'⟩ := @frames_keeps parse _ _ frames hk
    unfold LiveSession.checkHeartbeat
    simp only [hnow, hsame, Bool.true_eq_false, if_false]
    split
    · rfl
    · refine (expires_iff hread (by rw [huser']; exact huser) now recheck).mpr ⟨⟨e, ?_, hlate⟩, ?_⟩
      · rw [hquiet]
        exact he
      · rw [(Log.granted_frames s.userId frames l).2 hquiet]
        exact hdue

/-- What jsoncpp makes of an empty object; it stands for the parser in the run below. -/
def readEmpty (payload : Bytes) : Option Json := if payload = text "\x7b\x7d" then some (.obj []) else none

/-- A session that has logged in and sent one heartbeat. -/
theorem guarded_after_beat :
    Guarded readEmpty
      (LiveSession.handleHeartbeat readEmpty { createdAt := 7, userId := 42 } (text "\x7b\x7d") (seconds 5) true)
      (Log.frame readEmpty 42 { createdAt := 7 } (text "\x7b\x7d") (seconds 5)) :=
  guarded_of_reachable (w := ⟨_, _⟩) ⟨7, .next (e := .frame (text "\x7b\x7d") (seconds 5) true)
    (.next (e := .setUserId 42) .start trivial rfl) trivial rfl⟩

end Runs

end SyncRtc.Net
