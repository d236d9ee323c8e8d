import SyncRtc.Net.CServer
import SyncRtc.Net.HeartbeatScan

/-!
# A round of the heartbeat scan

What a round has ahead are the sessions above its cursor and up to its bound. A new connection gets a token above
the bound, a closed one is not ahead any more, and the scan itself takes the least one each time. So a round is a
sweep, and every step of it but the last goes over 64 of the sessions it had when it began.
-/

set_option autoImplicit false

namespace SyncRtc.Net.LiveServer

variable {σ σ' τ : LiveServer} {token t : Token} {now : Int} {visits : Token → Visit} {e : Event} {es : List Event}

/-! ## What a step touches -/

/-- The two differ in the session of the token at most. -/
structure Touches (σ : LiveServer) (token : Token) (σ' : LiveServer) : Prop where
  after : σ'.heartbeatAfter = σ.heartbeatAfter
  through : σ'.heartbeatThrough = σ.heartbeatThrough
  scanning : σ'.heartbeatScanning = σ.heartbeatScanning
  nextToken : σ'.nextToken = σ.nextToken
  fewer : ∀ t ∈ σ'.sessions, t ∈ σ.sessions
  others : ∀ t ≠ token, t ∈ σ.sessions → t ∈ σ'.sessions

theorem Touches.trans (h : Touches σ token σ') (h' : Touches σ' token τ) : Touches σ token τ where
  after := h'.after.trans h.after
  through := h'.through.trans h.through
  scanning := h'.scanning.trans h.scanning
  nextToken := h'.nextToken.trans h.nextToken
  fewer t ht := h.fewer t (h'.fewer t ht)
  others t hne ht := h'.others t hne (h.others t hne ht)

theorem setSession_touches (σ : LiveServer) (token : Token) (session : LiveSession) :
    Touches σ token (σ.setSession token session) := by
  unfold setSession
  split
  next hmem =>
    refine ⟨rfl, rfl, rfl, rfl, fun t ht => ?_, fun t _ ht => Finmap.mem_insert.mpr (.inr ht)⟩
    rcases Finmap.mem_insert.mp ht with rfl | ht
    · exact hmem
    · exact ht
  · exact ⟨rfl, rfl, rfl, rfl, fun _ ht => ht, fun _ _ ht => ht⟩

theorem closeClient_touches (σ : LiveServer) (token : Token) : Touches σ token (σ.closeClient token) :=
  ⟨rfl, rfl, rfl, rfl, fun _ ht => (Finmap.mem_erase.mp ht).2, fun _ hne ht => Finmap.mem_erase.mpr ⟨hne, ht⟩⟩

theorem updateClient_touches (σ : LiveServer) (token : Token) (watched : Bool) :
    Touches σ token (σ.updateClient token watched) := by
  cases watched with
  | true => exact ⟨rfl, rfl, rfl, rfl, fun _ ht => ht, fun _ _ ht => ht⟩
  | false => exact closeClient_touches σ token

theorem examine_touches (σ : LiveServer) (now : Int) (visit : Visit) (token : Token) (session : LiveSession) :
    Touches σ token (σ.examine now visit token session) := by
  unfold examine
  dsimp only
  split
  · exact setSession_touches ..
  · split
    · exact closeClient_touches ..
    · split
      · exact closeClient_touches ..
      · exact (setSession_touches σ token _).trans (updateClient_touches _ token _)

/-! ## What a round has ahead -/

def remaining (σ : LiveServer) : Finset Token := ahead σ.sessions.keys σ.heartbeatAfter σ.heartbeatThrough

theorem mem_remaining : t ∈ σ.remaining ↔ t ∈ σ.sessions ∧ σ.heartbeatAfter < t ∧ t ≤ σ.heartbeatThrough := by
  rw [remaining, mem_ahead, Finmap.mem_keys]

/-- What touches one session adds none. -/
theorem remaining_of_touches (h : Touches σ token σ') : σ'.remaining ⊆ σ.remaining := by
  intro t ht
  obtain ⟨hmem, hafter, hle⟩ := mem_remaining.mp ht
  exact mem_remaining.mpr ⟨h.fewer t hmem, h.after ▸ hafter, h.through ▸ hle⟩

theorem checkNext_none (h : (σ.checkNext now visits).1 = none) :
    σ.remaining = ∅ ∧ (σ.checkNext now visits).2 = { σ with heartbeatScanning := false } := by
  unfold checkNext at h ⊢
  cases hnext : upperBound σ.sessions σ.heartbeatAfter with
  | none =>
    refine ⟨ahead_eq_empty fun t ht hlt => ?_, rfl⟩
    exact absurd (upperBound_eq_none.mp hnext t ht) (Nat.not_le.mpr hlt)
  | some entry =>
    obtain ⟨token, session⟩ := entry
    rw [hnext] at h
    dsimp only at h ⊢
    split at h
    next hbeyond =>
      rw [if_pos hbeyond]
      refine ⟨ahead_eq_empty fun t ht hlt => ?_, rfl⟩
      exact Nat.lt_of_lt_of_le hbeyond ((upperBound_eq_some.mp hnext).1.2 ⟨ht, hlt⟩)
    · cases h

/-- The session examined is the first one ahead. -/
theorem checkNext_some (h : (σ.checkNext now visits).1 = some token) :
    IsLeast (σ.remaining : Set Token) token ∧ ∃ session, σ.sessions.lookup token = some session ∧
      (σ.checkNext now visits).2 = { σ with heartbeatAfter := token }.examine now (visits token) token session := by
  unfold checkNext at h ⊢
  cases hnext : upperBound σ.sessions σ.heartbeatAfter with
  | none =>
    rw [hnext] at h
    cases h
  | some entry =>
    obtain ⟨token', session⟩ := entry
    rw [hnext] at h
    dsimp only at h ⊢
    split at h
    · cases h
    next hwithin =>
      cases h
      rw [if_neg hwithin]
      obtain ⟨hleast, hlookup⟩ := upperBound_eq_some.mp hnext
      exact ⟨isLeast_ahead hleast (Nat.le_of_not_lt hwithin), session, hlookup, rfl⟩

theorem checkNext_touches (h : (σ.checkNext now visits).1 = some token) :
    Touches { σ with heartbeatAfter := token } token (σ.checkNext now visits).2 := by
  obtain ⟨-, session, -, heq⟩ := checkNext_some h
  rw [heq]
  exact examine_touches ..

theorem remaining_checkNext (h : (σ.checkNext now visits).1 = some token) :
    (σ.checkNext now visits).2.remaining = σ.remaining.erase token := by
  have hleast := (checkNext_some h).1
  have htouches := checkNext_touches h
  unfold remaining
  rw [htouches.after, htouches.through]
  refine ahead_of_isLeast hleast fun j hj => ?_
  rw [Finmap.mem_keys, Finmap.mem_keys]
  exact ⟨htouches.fewer j, htouches.others j (ne_of_gt hj)⟩

/-! ## A step of the scan -/

/-- What a step makes of a round: it examines `seen`, the first ones ahead, and takes nothing else away. -/
structure Advances (σ : LiveServer) (seen : List Token) (σ' : LiveServer) : Prop where
  swept : Swept σ.remaining seen σ'.remaining
  all : ∀ t ∈ σ.remaining, t ∈ seen ∨ t ∈ σ'.remaining
  through : σ'.heartbeatThrough = σ.heartbeatThrough
  nextToken : σ'.nextToken = σ.nextToken
  ended : σ'.heartbeatScanning = false → σ'.remaining = ∅

theorem checkLoop_advances (now : Int) (visits : Token → Visit) (n : Nat) (hscanning : σ.heartbeatScanning = true) :
    Advances σ (checkLoop now visits n σ).1 (checkLoop now visits n σ).2 := by
  induction n generalizing σ with
  | zero =>
    refine ⟨.refl _, fun t ht => .inr ht, rfl, rfl, fun h => ?_⟩
    rw [checkLoop, hscanning] at h
    cases h
  | succ n ih =>
    rw [checkLoop]
    cases hnext : σ.checkNext now visits with
    | mk seen σ₁ =>
      cases seen with
      | none =>
        obtain ⟨hempty, hσ₁⟩ := checkNext_none (congrArg Prod.fst hnext)
        rw [hnext] at hσ₁
        dsimp only at hσ₁ ⊢
        subst hσ₁
        exact ⟨.refl _, fun t ht => .inr ht, rfl, rfl, fun _ => hempty⟩
      | some token =>
        have hfirst : (σ.checkNext now visits).1 = some token := congrArg Prod.fst hnext
        have hleast := (checkNext_some hfirst).1
        have htouches := checkNext_touches hfirst
        have hremaining := remaining_checkNext hfirst
        rw [hnext] at htouches hremaining
        dsimp only at htouches hremaining ⊢
        have hrest := ih (σ := σ₁) (htouches.scanning.trans hscanning)
        have hstep : Swept σ.remaining [token] σ₁.remaining := hremaining ▸ Swept.visit hleast
        refine ⟨hstep.trans hrest.swept, fun t ht => ?_, hrest.through.trans htouches.through,
          hrest.nextToken.trans htouches.nextToken, hrest.ended⟩
        by_cases heq : t = token
        · exact .inl (heq ▸ List.mem_cons_self)
        · rcases hrest.all t (hremaining ▸ Finset.mem_erase.mpr ⟨heq, ht⟩) with hseen | hleft
          · exact .inl (List.mem_cons_of_mem _ hseen)
          · exact .inr hleft

/-- A step examines as many as it has turns, unless the round ends with it. -/
theorem length_checkLoop (now : Int) (visits : Token → Visit) (n : Nat) (σ : LiveServer) :
    (checkLoop now visits n σ).1.length ≤ n ∧
      ((checkLoop now visits n σ).2.heartbeatScanning = true → (checkLoop now visits n σ).1.length = n) := by
  induction n generalizing σ with
  | zero => exact ⟨Nat.le_refl _, fun _ => rfl⟩
  | succ n ih =>
    rw [checkLoop]
    cases hnext : σ.checkNext now visits with
    | mk seen σ₁ =>
      cases seen with
      | none =>
        have hσ₁ := (checkNext_none (congrArg Prod.fst hnext)).2
        rw [hnext] at hσ₁
        dsimp only at hσ₁ ⊢
        subst hσ₁
        exact ⟨Nat.zero_le _, nofun⟩
      | some token =>
        obtain ⟨hle, heq⟩ := ih σ₁
        exact ⟨Nat.succ_le_succ hle, fun h => congrArg (· + 1) (heq h)⟩

/-! ## Within a round -/

/-- A round is on, and its bound is a token that was given out. -/
structure InRound (σ : LiveServer) : Prop where
  scanning : σ.heartbeatScanning = true
  bound : σ.heartbeatThrough < σ.nextToken

def Event.isCheck : Event → Bool
  | .check .. => true
  | _ => false

def Event.isAccept : Event → Bool
  | .accept .. => true
  | _ => false

/-- A tick during a round starts none. -/
theorem handleTimer_of_scanning (h : σ.heartbeatScanning = true) (now : Int) :
    σ.handleTimer now = { σ with lastTimer := now } := by
  unfold handleTimer
  rw [dif_neg]
  rintro ⟨hidle, -⟩
  rw [h] at hidle
  cases hidle

theorem handleTimer_touches (h : σ.heartbeatScanning = true) (now : Int) (token : Token) :
    Touches σ token (σ.handleTimer now) := by
  rw [handleTimer_of_scanning h]
  exact ⟨rfl, rfl, rfl, rfl, fun _ ht => ht, fun _ _ ht => ht⟩

theorem checkHeartbeats_of_scanning (h : σ.heartbeatScanning = true) (now : Int) (visits : Token → Visit) :
    σ.checkHeartbeats now visits = checkLoop now visits 64 σ := if_pos h

/-- What any step makes of a round. -/
structure Proceeds (σ : LiveServer) (e : Event) (seen : List Token) (σ' : LiveServer) : Prop where
  swept : Swept σ.remaining seen σ'.remaining
  through : σ'.heartbeatThrough = σ.heartbeatThrough
  nextToken : σ.nextToken ≤ σ'.nextToken
  ended : σ'.heartbeatScanning = false → e.isCheck = true ∧ σ'.remaining = ∅

theorem InRound.proceeds_of_touches (h : InRound σ) (e : Event) (ht : Touches σ token σ') : Proceeds σ e [] σ' := by
  refine ⟨.lose (remaining_of_touches ht), ht.through, ht.nextToken.ge, fun hover => ?_⟩
  rw [ht.scanning, h.scanning] at hover
  cases hover

theorem InRound.proceeds (h : InRound σ) (e : Event) : Proceeds σ e (σ.examines e) (σ.next e) := by
  cases e with
  | accept now registered =>
    refine ⟨.lose fun t ht => ?_, rfl, Nat.le_succ _, fun hover => ?_⟩
    · obtain ⟨hmem, hafter, hle⟩ := mem_remaining.mp ht
      refine mem_remaining.mpr ⟨?_, hafter, hle⟩
      change t ∈ (if registered = true then σ.sessions.insert σ.nextToken { createdAt := now } else σ.sessions) at hmem
      split at hmem
      · rcases Finmap.mem_insert.mp hmem with rfl | hmem
        · -- the new token is above the bound
          exact absurd hle (Nat.not_le.mpr h.bound)
        · exact hmem
      · exact hmem
    · change σ.heartbeatScanning = false at hover
      rw [h.scanning] at hover
      cases hover
  | change token session => exact h.proceeds_of_touches _ (setSession_touches σ token session)
  | close token => exact h.proceeds_of_touches _ (closeClient_touches σ token)
  | timer now => exact h.proceeds_of_touches _ (handleTimer_touches h.scanning now 0)
  | check now visits =>
    change Proceeds σ _ (σ.checkHeartbeats now visits).1 (σ.checkHeartbeats now visits).2
    rw [checkHeartbeats_of_scanning h.scanning]
    have hstep := checkLoop_advances now visits 64 h.scanning
    exact ⟨hstep.swept, hstep.through, hstep.nextToken.ge, fun hover => ⟨rfl, hstep.ended hover⟩⟩

theorem InRound.next (h : InRound σ) (hgoes : (σ.next e).heartbeatScanning = true) : InRound (σ.next e) := by
  obtain ⟨-, hthrough, hnext, -⟩ := h.proceeds e
  refine ⟨hgoes, ?_⟩
  rw [hthrough]
  exact Nat.lt_of_lt_of_le h.bound hnext

/-- A step of the scan that does not end the round takes 64 sessions off it. -/
theorem InRound.card_next (h : InRound σ) (hgoes : (σ.next e).heartbeatScanning = true) :
    (if e.isCheck then 64 else 0) + (σ.next e).remaining.card ≤ σ.remaining.card := by
  have hcard := (h.proceeds e).swept.card_le
  cases e with
  | check now visits =>
    have hcheck := checkHeartbeats_of_scanning h.scanning now visits
    change (σ.checkHeartbeats now visits).2.heartbeatScanning = true at hgoes
    rw [hcheck] at hgoes
    have hseen : (σ.examines (.check now visits)).length = 64 := by
      change (σ.checkHeartbeats now visits).1.length = 64
      rw [hcheck]
      exact (length_checkLoop now visits 64 σ).2 hgoes
    rw [hseen] at hcard
    exact hcard
  | accept => exact (Nat.add_le_add_right (Nat.zero_le _) _).trans hcard
  | change => exact (Nat.add_le_add_right (Nat.zero_le _) _).trans hcard
  | close => exact (Nat.add_le_add_right (Nat.zero_le _) _).trans hcard
  | timer => exact (Nat.add_le_add_right (Nat.zero_le _) _).trans hcard

theorem length_examines_le (σ : LiveServer) (e : Event) : (σ.examines e).length ≤ 64 := by
  cases e with
  | check now visits =>
    change (σ.checkHeartbeats now visits).1.length ≤ 64
    unfold checkHeartbeats
    split
    · exact (length_checkLoop now visits 64 σ).1
    · exact Nat.zero_le _
  | _ => exact Nat.zero_le _

/-! ## Whole rounds -/

theorem run_append (σ : LiveServer) (es es' : List Event) : σ.run (es ++ es') = (σ.run es).run es' := by
  induction es generalizing σ with
  | nil => rfl
  | cons e es ih => exact ih (σ.next e)

theorem examined_append (σ : LiveServer) (es es' : List Event) :
    σ.examined (es ++ es') = σ.examined es ++ (σ.run es).examined es' := by
  induction es generalizing σ with
  | nil => rfl
  | cons e es ih =>
    change σ.examines e ++ (σ.next e).examined (es ++ es') = (σ.examines e ++ (σ.next e).examined es) ++ _
    rw [ih, List.append_assoc]
    rfl

theorem round_of_idle (h : σ.heartbeatScanning = false) (es : List Event) : σ.round es = [] := by
  cases es with
  | nil => rfl
  | cons e es =>
    unfold round
    rw [h]
    rfl

theorem round_cons (h : σ.heartbeatScanning = true) (e : Event) (es : List Event) :
    σ.round (e :: es) = e :: (σ.next e).round es := if_pos h

/-- A round is a sweep over what it has ahead. -/
theorem InRound.round_swept (h : InRound σ) (es : List Event) :
    Swept σ.remaining (σ.examined (σ.round es)) (σ.run (σ.round es)).remaining := by
  induction es generalizing σ with
  | nil => exact .refl _
  | cons e es ih =>
    rw [round_cons h.scanning]
    have hfirst := (h.proceeds e).swept
    cases hgoes : (σ.next e).heartbeatScanning with
    | true => exact hfirst.trans (ih (h.next hgoes))
    | false =>
      rw [round_of_idle hgoes]
      exact hfirst.trans (.refl _)

/-- While a round lasts, every step of the scan has taken its 64 sessions. -/
theorem InRound.card_round (h : InRound σ) (hgoes : (σ.run (σ.round es)).heartbeatScanning = true) :
    64 * es.countP Event.isCheck + (σ.run (σ.round es)).remaining.card ≤ σ.remaining.card := by
  induction es generalizing σ with
  | nil => exact Nat.le_of_eq (Nat.zero_add _)
  | cons e es ih =>
    rw [round_cons h.scanning] at hgoes ⊢
    change ((σ.next e).run ((σ.next e).round es)).heartbeatScanning = true at hgoes
    change _ + ((σ.next e).run ((σ.next e).round es)).remaining.card ≤ _
    cases hnext : (σ.next e).heartbeatScanning with
    | false =>
      rw [round_of_idle hnext] at hgoes
      change (σ.next e).heartbeatScanning = true at hgoes
      rw [hnext] at hgoes
      cases hgoes
    | true =>
      have hrest := ih (h.next hnext) hgoes
      have hfirst := h.card_next hnext
      rw [List.countP_cons]
      split at hfirst
      next hcheck =>
        rw [if_pos hcheck]
        omega
      next hcheck =>
        rw [if_neg hcheck]
        omega

/-- The round reaches the token in this step: the cursor goes to it or past it, or the round ends. -/
structure Reaches (σ : LiveServer) (e : Event) (t : Token) : Prop where
  before : σ.heartbeatAfter < t
  behind : t ≤ (σ.next e).heartbeatAfter ∨ (σ.next e).heartbeatScanning = false

/-- The states a round goes through are within it. -/
theorem InRound.of_round {before after : List Event} (h : InRound σ) (hsplit : σ.round es = before ++ e :: after) :
    InRound (σ.run before) ∧ (σ.run before).heartbeatThrough = σ.heartbeatThrough := by
  induction before generalizing σ es with
  | nil => exact ⟨h, rfl⟩
  | cons e₁ before ih =>
    cases es with
    | nil => cases hsplit
    | cons e₂ es =>
      rw [round_cons h.scanning] at hsplit
      obtain ⟨rfl, hrest⟩ := List.cons.inj hsplit
      have hgoes : (σ.next e₂).heartbeatScanning = true := by
        cases hnext : (σ.next e₂).heartbeatScanning with
        | true => rfl
        | false =>
          rw [round_of_idle hnext] at hrest
          exact absurd hrest.symm (List.append_ne_nil_of_right_ne_nil _ (List.cons_ne_nil _ _))
      obtain ⟨hround, hthrough⟩ := ih (h.next hgoes) hrest
      exact ⟨hround, hthrough.trans (h.proceeds e₂).through⟩

/-- A round that is over has reached everything above where its cursor was. -/
theorem reached_of_over (hgoes : σ.heartbeatScanning = true) (hbefore : σ.heartbeatAfter < t)
    (hover : (σ.run (σ.round es)).heartbeatScanning = false) :
    ∃ before e after, σ.round es = before ++ e :: after ∧ Reaches (σ.run before) e t := by
  induction es generalizing σ with
  | nil =>
    change σ.heartbeatScanning = false at hover
    rw [hgoes] at hover
    cases hover
  | cons e es ih =>
    rw [round_cons hgoes] at hover ⊢
    by_cases hreached : t ≤ (σ.next e).heartbeatAfter ∨ (σ.next e).heartbeatScanning = false
    · exact ⟨[], e, _, rfl, hbefore, hreached⟩
    · obtain ⟨hstill, hnext⟩ := not_or.mp hreached
      obtain ⟨before, e', after, hsplit, h⟩ := ih (Bool.not_eq_false _ ▸ hnext) (Nat.lt_of_not_le hstill) hover
      exact ⟨e :: before, e', after, congrArg (e :: ·) hsplit, h⟩

/-- A session that is there when the round reaches its token is examined in that step. -/
theorem InRound.examines_of_reaches (h : InRound σ) (hmem : t ∈ σ.sessions) (hle : t ≤ σ.heartbeatThrough)
    (hreach : Reaches σ e t) : t ∈ σ.examines e := by
  obtain ⟨hbefore, hbehind⟩ := hreach
  have hahead : t ∈ σ.remaining := mem_remaining.mpr ⟨hmem, hbefore, hle⟩
  -- only a step of the scan moves the cursor or ends the round
  have hstays : (σ.next e).heartbeatAfter = σ.heartbeatAfter →
      (σ.next e).heartbeatScanning = σ.heartbeatScanning → t ∈ σ.examines e := by
    intro hafter hscanning
    rcases hbehind with hpast | hover
    · rw [hafter] at hpast
      exact absurd hpast (Nat.not_le.mpr hbefore)
    · rw [hscanning, h.scanning] at hover
      cases hover
  cases e with
  | accept now registered => exact hstays rfl rfl
  | change token session =>
    have ht := setSession_touches σ token session
    exact hstays ht.after ht.scanning
  | close token => exact hstays rfl rfl
  | timer now =>
    have ht := handleTimer_touches h.scanning now t
    exact hstays ht.after ht.scanning
  | check now visits =>
    change t ≤ (σ.checkHeartbeats now visits).2.heartbeatAfter ∨
      (σ.checkHeartbeats now visits).2.heartbeatScanning = false at hbehind
    change t ∈ (σ.checkHeartbeats now visits).1
    rw [checkHeartbeats_of_scanning h.scanning] at hbehind ⊢
    have hstep := checkLoop_advances now visits 64 h.scanning
    rcases hstep.all t hahead with hseen | hleft
    · exact hseen
    · rcases hbehind with hpast | hover
      · exact absurd hpast (Nat.not_le.mpr (mem_remaining.mp hleft).2.1)
      · rw [hstep.ended hover] at hleft
        exact absurd hleft (Finset.notMem_empty t)

/-! ## Without the accepted sessions -/

/-- The two differ in sessions beyond the bound of the round at most. -/
structure Agree (σ τ : LiveServer) : Prop where
  after : τ.heartbeatAfter = σ.heartbeatAfter
  through : τ.heartbeatThrough = σ.heartbeatThrough
  scanning : τ.heartbeatScanning = σ.heartbeatScanning
  recheck : τ.heartbeatRecheck = σ.heartbeatRecheck
  sessions : ∀ t ≤ σ.heartbeatThrough, τ.sessions.lookup t = σ.sessions.lookup t

theorem lookup_setSession (σ : LiveServer) (token : Token) (session : LiveSession) (t : Token) :
    (σ.setSession token session).sessions.lookup t =
      if t = token then (σ.sessions.lookup t).map fun _ => session else σ.sessions.lookup t := by
  unfold setSession
  by_cases heq : t = token
  · subst heq
    rw [if_pos rfl]
    split
    next hmem =>
      obtain ⟨old, hold⟩ := Finmap.mem_iff.mp hmem
      rw [hold]
      exact Finmap.lookup_insert _
    next hmem =>
      rw [Finmap.lookup_eq_none.mpr hmem]
      rfl
  · rw [if_neg heq]
    split
    · exact Finmap.lookup_insert_of_ne _ heq
    · rfl

theorem lookup_closeClient (σ : LiveServer) (token t : Token) :
    (σ.closeClient token).sessions.lookup t = if t = token then none else σ.sessions.lookup t := by
  unfold closeClient
  by_cases heq : t = token
  · subst heq
    rw [if_pos rfl]
    exact Finmap.lookup_erase _ _
  · rw [if_neg heq]
    exact Finmap.lookup_erase_ne heq

theorem Agree.refl (σ : LiveServer) : Agree σ σ := ⟨rfl, rfl, rfl, rfl, fun _ _ => rfl⟩

theorem recheck_setSession (σ : LiveServer) (token : Token) (session : LiveSession) :
    (σ.setSession token session).heartbeatRecheck = σ.heartbeatRecheck := by
  unfold setSession
  split <;> rfl

theorem Agree.setSession (h : Agree σ τ) (token : Token) (session : LiveSession) :
    Agree (σ.setSession token session) (τ.setSession token session) := by
  have hσ := setSession_touches σ token session
  have hτ := setSession_touches τ token session
  constructor
  case after => rw [hσ.after, hτ.after, h.after]
  case through => rw [hσ.through, hτ.through, h.through]
  case scanning => rw [hσ.scanning, hτ.scanning, h.scanning]
  case recheck => rw [recheck_setSession, recheck_setSession, h.recheck]
  case sessions =>
    intro t ht
    rw [hσ.through] at ht
    rw [lookup_setSession, lookup_setSession, h.sessions t ht]

theorem Agree.closeClient (h : Agree σ τ) (token : Token) : Agree (σ.closeClient token) (τ.closeClient token) := by
  refine ⟨h.after, h.through, h.scanning, h.recheck, fun t ht => ?_⟩
  rw [lookup_closeClient, lookup_closeClient, h.sessions t ht]

theorem Agree.updateClient (h : Agree σ τ) (token : Token) (watched : Bool) :
    Agree (σ.updateClient token watched) (τ.updateClient token watched) := by
  cases watched with
  | true => exact h
  | false => exact h.closeClient token

theorem Agree.examine (h : Agree σ τ) (now : Int) (visit : Visit) (token : Token) (session : LiveSession) :
    Agree (σ.examine now visit token session) (τ.examine now visit token session) := by
  unfold LiveServer.examine
  rw [h.recheck]
  dsimp only
  split
  · exact h.setSession ..
  · split
    · exact h.closeClient ..
    · split
      · exact h.closeClient ..
      · exact (h.setSession ..).updateClient ..

theorem Agree.remaining (h : Agree σ τ) : τ.remaining = σ.remaining := by
  ext t
  rw [mem_remaining, mem_remaining, h.after, h.through]
  refine ⟨fun ⟨hmem, hafter, hle⟩ => ⟨?_, hafter, hle⟩, fun ⟨hmem, hafter, hle⟩ => ⟨?_, hafter, hle⟩⟩
  · rw [← Finmap.lookup_isSome, ← h.sessions t hle, Finmap.lookup_isSome]
    exact hmem
  · rw [← Finmap.lookup_isSome, h.sessions t hle, Finmap.lookup_isSome]
    exact hmem

theorem Agree.checkNext (h : Agree σ τ) (now : Int) (visits : Token → Visit) :
    (τ.checkNext now visits).1 = (σ.checkNext now visits).1 ∧
      Agree (σ.checkNext now visits).2 (τ.checkNext now visits).2 := by
  cases hσ : (σ.checkNext now visits).1 with
  | none =>
    obtain ⟨hempty, heqσ⟩ := checkNext_none hσ
    cases hτ : (τ.checkNext now visits).1 with
    | some token =>
      have hleast := (checkNext_some hτ).1
      rw [h.remaining, hempty] at hleast
      exact absurd hleast.1 (Finset.notMem_empty token)
    | none =>
      rw [heqσ, (checkNext_none hτ).2]
      exact ⟨rfl, h.after, h.through, rfl, h.recheck, h.sessions⟩
  | some token =>
    obtain ⟨hleast, session, hsession, heqσ⟩ := checkNext_some hσ
    cases hτ : (τ.checkNext now visits).1 with
    | none =>
      have hempty := (checkNext_none hτ).1
      rw [h.remaining] at hempty
      rw [hempty] at hleast
      exact absurd hleast.1 (Finset.notMem_empty token)
    | some token' =>
      obtain ⟨hleast', session', hsession', heqτ⟩ := checkNext_some hτ
      rw [h.remaining] at hleast'
      obtain rfl := hleast.unique hleast'
      rw [h.sessions token (mem_remaining.mp hleast.1).2.2, hsession] at hsession'
      cases hsession'
      rw [heqσ, heqτ]
      have hmoved : Agree { σ with heartbeatAfter := token } { τ with heartbeatAfter := token } :=
        ⟨rfl, h.through, h.scanning, h.recheck, h.sessions⟩
      exact ⟨rfl, hmoved.examine ..⟩

theorem Agree.checkLoop (h : Agree σ τ) (now : Int) (visits : Token → Visit) (n : Nat) :
    (LiveServer.checkLoop now visits n τ).1 = (LiveServer.checkLoop now visits n σ).1 ∧
      Agree (LiveServer.checkLoop now visits n σ).2 (LiveServer.checkLoop now visits n τ).2 := by
  induction n generalizing σ τ with
  | zero => exact ⟨rfl, h⟩
  | succ n ih =>
    obtain ⟨hseen, hrest⟩ := h.checkNext now visits
    rw [LiveServer.checkLoop, LiveServer.checkLoop]
    cases hσ : σ.checkNext now visits with
    | mk seen σ₁ =>
      cases hτ : τ.checkNext now visits with
      | mk seen' τ₁ =>
        rw [hσ, hτ] at hseen hrest
        dsimp only at hseen hrest
        subst hseen
        cases seen' with
        | none => exact ⟨rfl, hrest⟩
        | some token =>
          obtain ⟨hmore, hend⟩ := ih hrest
          exact ⟨congrArg (token :: ·) hmore, hend⟩

/-- Steps other than accepting go the same way in both. -/
theorem Agree.next (h : Agree σ τ) (hgoes : σ.heartbeatScanning = true) (he : e.isAccept = false) :
    τ.examines e = σ.examines e ∧ Agree (σ.next e) (τ.next e) := by
  have hgoes' : τ.heartbeatScanning = true := h.scanning.trans hgoes
  cases e with
  | accept => cases he
  | change token session => exact ⟨rfl, h.setSession token session⟩
  | close token => exact ⟨rfl, h.closeClient token⟩
  | timer now =>
    refine ⟨rfl, ?_⟩
    change Agree (σ.handleTimer now) (τ.handleTimer now)
    rw [handleTimer_of_scanning hgoes, handleTimer_of_scanning hgoes']
    exact ⟨h.after, h.through, h.scanning, h.recheck, h.sessions⟩
  | check now visits =>
    change (τ.checkHeartbeats now visits).1 = (σ.checkHeartbeats now visits).1 ∧
      Agree (σ.checkHeartbeats now visits).2 (τ.checkHeartbeats now visits).2
    rw [checkHeartbeats_of_scanning hgoes, checkHeartbeats_of_scanning hgoes']
    exact h.checkLoop now visits 64

/-- What is accepted in a round makes no difference to it. -/
theorem InRound.agree_accept (h : InRound σ) (ha : Agree σ τ) (now : Int) (registered : Bool) :
    Agree (σ.acceptClient now registered) τ := by
  refine ⟨ha.after, ha.through, ha.scanning, ha.recheck, fun t ht => ?_⟩
  rw [ha.sessions t ht]
  change _ = (if registered = true then σ.sessions.insert σ.nextToken { createdAt := now } else σ.sessions).lookup t
  split
  · have hne : t ≠ σ.nextToken := Nat.ne_of_lt (Nat.lt_of_le_of_lt ht h.bound)
    exact (Finmap.lookup_insert_of_ne _ hne).symm
  · rfl

/-- The course of a round: its events other than accepting, whom it examines, and whether it is over. -/
theorem InRound.round_without (h : InRound σ) (ha : Agree σ τ) (es : List Event) :
    τ.round (es.filter fun e => !e.isAccept) = (σ.round es).filter (fun e => !e.isAccept) ∧
      τ.examined (τ.round (es.filter fun e => !e.isAccept)) = σ.examined (σ.round es) ∧
      (τ.run (τ.round (es.filter fun e => !e.isAccept))).heartbeatScanning =
        (σ.run (σ.round es)).heartbeatScanning := by
  induction es generalizing σ τ with
  | nil => exact ⟨rfl, rfl, ha.scanning⟩
  | cons e es ih =>
    rw [round_cons h.scanning]
    cases he : e.isAccept with
    | true =>
      rw [List.filter_cons_of_neg (by rw [he]; decide), List.filter_cons_of_neg (by rw [he]; decide)]
      cases e with
      | accept now registered =>
        have hnext : InRound (σ.next (.accept now registered)) := h.next h.scanning
        exact ih hnext (h.agree_accept ha now registered)
      | change => cases he
      | close => cases he
      | timer => cases he
      | check => cases he
    | false =>
      rw [List.filter_cons_of_pos (by rw [he]; decide), List.filter_cons_of_pos (by rw [he]; decide),
        round_cons (ha.scanning.trans h.scanning)]
      obtain ⟨hseen, hagree⟩ := ha.next h.scanning he
      change e :: _ = e :: _ ∧ τ.examines e ++ _ = σ.examines e ++ _ ∧ _
      rw [hseen]
      cases hgoes : (σ.next e).heartbeatScanning with
      | true =>
        obtain ⟨hround, hexamined, hover⟩ := ih (h.next hgoes) hagree
        exact ⟨congrArg (e :: ·) hround, congrArg (σ.examines e ++ ·) hexamined, hover⟩
      | false =>
        rw [round_of_idle hgoes, round_of_idle (hagree.scanning.trans hgoes)]
        exact ⟨rfl, rfl, hagree.scanning⟩

/-! ## The scan -/

/-- What the scan promises of a round that has just begun, whatever happens from then on. -/
structure Thorough (σ : LiveServer) (es : List Event) : Prop where
  /-- A step examines 64 sessions at most. -/
  bounded : ∀ before e, ((σ.run before).examines e).length ≤ 64
  /-- The round is over after one step more than full steps fit into the sessions it began with. -/
  ends : σ.sessions.keys.card / 64 < es.countP Event.isCheck → (σ.run (σ.round es)).heartbeatScanning = false
  /-- A round that is over has reached every session it began with. -/
  reaches : (σ.run (σ.round es)).heartbeatScanning = false → ∀ t ∈ σ.sessions,
    ∃ before e after, σ.round es = before ++ e :: after ∧ Reaches (σ.run before) e t
  /-- A session it began with, and that is there when it is reached, is examined then and at no other time. -/
  complete : ∀ before e after, σ.round es = before ++ e :: after → ∀ t ∈ σ.sessions,
    Reaches (σ.run before) e t → t ∈ (σ.run before).sessions →
      t ∈ (σ.run before).examines e ∧ (σ.examined (σ.round es)).count t = 1
  /-- No session is examined twice. -/
  once : (σ.examined (σ.round es)).Nodup
  /-- Only those it began with are examined. -/
  known : ∀ t ∈ σ.examined (σ.round es), t ∈ σ.sessions
  /-- Without the connections accepted meanwhile the round takes the same course, step by step. -/
  unprolonged : σ.round (es.filter fun e => !e.isAccept) = (σ.round es).filter (fun e => !e.isAccept) ∧
    σ.examined (σ.round (es.filter fun e => !e.isAccept)) = σ.examined (σ.round es) ∧
    (σ.run (σ.round (es.filter fun e => !e.isAccept))).heartbeatScanning = (σ.run (σ.round es)).heartbeatScanning

theorem InRound.thorough (h : InRound σ) (hahead : σ.remaining = σ.sessions.keys) (es : List Event) : Thorough σ es := by
  have hswept := h.round_swept es
  rw [hahead] at hswept
  have hmem : ∀ t, t ∈ σ.sessions → t ∈ σ.remaining := fun t ht => hahead ▸ Finmap.mem_keys.mpr ht
  constructor
  case bounded => exact fun before e => length_examines_le _ e
  case ends =>
    intro hmany
    rw [← Bool.not_eq_true]
    intro hgoes
    have hcard := h.card_round hgoes
    rw [hahead] at hcard
    omega
  case reaches =>
    intro hover t ht
    exact reached_of_over h.scanning (mem_remaining.mp (hmem t ht)).2.1 hover
  case complete =>
    intro before e after hsplit t ht hreach hpresent
    obtain ⟨hthere, hthrough⟩ := h.of_round hsplit
    have hle : t ≤ (σ.run before).heartbeatThrough := by
      rw [hthrough]
      exact (mem_remaining.mp (hmem t ht)).2.2
    have hseen := hthere.examines_of_reaches hpresent hle hreach
    refine ⟨hseen, List.count_eq_one_of_mem hswept.nodup ?_⟩
    rw [hsplit, examined_append]
    exact List.mem_append_right _ (List.mem_append_left _ hseen)
  case once => exact hswept.nodup
  case known => exact fun t ht => Finmap.mem_keys.mp (hswept.visited t ht)
  case unprolonged => exact h.round_without (.refl σ) es

/-- A round begins with every session ahead. -/
theorem handleTimer_of_idle (hidle : σ.heartbeatScanning = false) (hsome : σ.sessions.keys.Nonempty) (now : Int) :
    InRound (σ.handleTimer now) ∧ (σ.handleTimer now).remaining = (σ.handleTimer now).sessions.keys := by
  have hbegun : (σ.handleTimer now) =
      { σ with
        heartbeatAfter := 0
        heartbeatThrough := σ.sessions.keys.max' hsome
        heartbeatScanning := true
        heartbeatRecheck := decide (now - σ.lastTimer > seconds 5)
        lastTimer := now } := by
    unfold handleTimer
    rw [dif_pos ⟨hidle, hsome⟩]
  rw [hbegun]
  refine ⟨⟨rfl, ?_⟩, ?_⟩
  · exact (σ.numbered _ (Finmap.mem_keys.mp (Finset.max'_mem _ hsome))).2
  · refine Finset.filter_true_of_mem fun t ht => ⟨?_, Finset.le_max' _ t ht⟩
    exact Nat.lt_of_lt_of_le (Nat.succ_pos 4) (σ.numbered t (Finmap.mem_keys.mp ht)).1

/-- **The scan is complete and bounded, and every round of it ends.** -/
theorem thorough_of_timer (hidle : σ.heartbeatScanning = false) (hsome : σ.sessions.keys.Nonempty) (now : Int)
    (es : List Event) : Thorough (σ.handleTimer now) es := by
  obtain ⟨hround, hahead⟩ := handleTimer_of_idle hidle hsome now
  exact hround.thorough hahead es

/-- Two connections, of which the first is closed when the round has begun, and another is accepted. -/
theorem thorough_of_two :
    Thorough (handleTimer (run (create 0) [.accept 0 true, .accept 1 true]) (seconds 1))
      [.close 5, .accept 2 true, .check (seconds 1) fun _ => ⟨fun s => (true, s), true⟩] :=
  thorough_of_timer rfl (by decide) (seconds 1) _

/-! ## The loop -/

/-- The loop does not wait while a round is on. -/
theorem waitTimeout_of_scanning (h : σ.heartbeatScanning = true) (mediaTimeout maxWait : Int) :
    σ.waitTimeout mediaTimeout maxWait = 0 := by
  unfold waitTimeout
  rw [h, if_pos rfl]
  dsimp only
  rw [if_neg (by omega)]

/-- So many turns of the loop end a round, whatever they handle. -/
theorem over_of_turns (hidle : σ.heartbeatScanning = false) (hsome : σ.sessions.keys.Nonempty) (now : Int)
    (turns : List Turn) (hmany : (σ.handleTimer now).sessions.keys.card / 64 < turns.length) :
    ((σ.handleTimer now).run ((σ.handleTimer now).round (turns.flatMap Turn.events))).heartbeatScanning = false := by
  obtain ⟨hround, hahead⟩ := handleTimer_of_idle hidle hsome now
  refine (hround.thorough hahead _).ends (Nat.lt_of_lt_of_le hmany ?_)
  clear hmany
  induction turns with
  | nil => exact Nat.zero_le _
  | cons turn turns ih =>
    have hone : 1 ≤ turn.events.countP Event.isCheck := by
      rw [Turn.events, List.countP_append]
      exact Nat.le_add_left _ _
    rw [List.flatMap_cons, List.countP_append, List.length_cons]
    omega

/-! ## The sessions the I/O thread knows -/

/-- The I/O thread stands in its loop, and the two have given out and registered the same tokens. -/
structure Mirrors (σ : LiveServer) (c : CServer) : Prop where
  registered : ∀ t, c.registered t = true ↔ t ∈ σ.sessions
  nextToken : c.nextToken = σ.nextToken
  io : c.io = .loop

/-- The I/O thread can close any connection. -/
theorem Mirrors.closes {c : CServer} (h : Mirrors σ c) (hmem : token ∈ σ.sessions) :
    ∃ c', Reach CServer.step (fun _ _ => True) c c' ∧ c'.registered = Function.update c.registered token false ∧
      c'.nextToken = c.nextToken ∧ c'.io = .loop := by
  have hreport : c.step (.report token false false true) = some (c.serve token .closing []) :=
    if_pos ⟨h.io, (h.registered token).mpr hmem⟩
  refine ⟨_, .next (e := .next) (.next (e := .close) (.next .start trivial hreport) trivial rfl) trivial rfl, rfl, rfl, rfl⟩

theorem Mirrors.of_touches {c : CServer} (h : Mirrors σ c) (ht : Touches σ token σ') :
    ∃ c', Reach CServer.step (fun _ _ => True) c c' ∧ Mirrors σ' c' := by
  by_cases hgone : token ∈ σ.sessions ∧ token ∉ σ'.sessions
  · obtain ⟨c', hreach, hregistered, hnext, hio⟩ := h.closes hgone.1
    refine ⟨c', hreach, fun t => ?_, hnext.trans (h.nextToken.trans ht.nextToken.symm), hio⟩
    rw [hregistered]
    by_cases heq : t = token
    · subst heq
      rw [Function.update_self]
      exact ⟨nofun, fun hmem => absurd hmem hgone.2⟩
    · rw [Function.update_of_ne heq, h.registered]
      exact ⟨ht.others t heq, ht.fewer t⟩
  · refine ⟨c, .start, fun t => (h.registered t).trans ⟨fun hmem => ?_, ht.fewer t⟩,
      h.nextToken.trans ht.nextToken.symm, h.io⟩
    by_cases heq : t = token
    · subst heq
      exact not_not.mp fun hno => hgone ⟨hmem, hno⟩
    · exact ht.others t heq hmem

theorem Mirrors.checkLoop {c : CServer} (h : Mirrors σ c) (now : Int) (visits : Token → Visit) (n : Nat) :
    ∃ c', Reach CServer.step (fun _ _ => True) c c' ∧ Mirrors (LiveServer.checkLoop now visits n σ).2 c' := by
  induction n generalizing σ c with
  | zero => exact ⟨c, .start, h⟩
  | succ n ih =>
    rw [LiveServer.checkLoop]
    cases hnext : σ.checkNext now visits with
    | mk seen σ₁ =>
      cases seen with
      | none =>
        have hσ₁ := (checkNext_none (congrArg Prod.fst hnext)).2
        rw [hnext] at hσ₁
        dsimp only at hσ₁ ⊢
        subst hσ₁
        exact ⟨c, .start, h.registered, h.nextToken, h.io⟩
      | some token =>
        have htouches := checkNext_touches (congrArg Prod.fst hnext)
        rw [hnext] at htouches
        have hmoved : Mirrors { σ with heartbeatAfter := token } c := ⟨h.registered, h.nextToken, h.io⟩
        obtain ⟨c₁, hfirst, h₁⟩ := hmoved.of_touches htouches
        obtain ⟨c₂, hrest, h₂⟩ := ih h₁
        exact ⟨c₂, hfirst.trans hrest, h₂⟩

/-- What happens to the sessions here, the I/O thread can do. -/
theorem Mirrors.next {c : CServer} (h : Mirrors σ c) (e : Event) :
    ∃ c', Reach CServer.step (fun _ _ => True) c c' ∧ Mirrors (σ.next e) c' := by
  cases e with
  | accept now registered =>
    have hstep : c.step .accept = some c.accept := if_pos h.io
    have haccepted : Mirrors (σ.acceptClient now true) c.accept := by
      refine ⟨fun t => ?_, congrArg (· + 1) h.nextToken, h.io⟩
      change Function.update c.registered c.nextToken true t = true ↔ t ∈ σ.sessions.insert σ.nextToken _
      rw [h.nextToken, Finmap.mem_insert]
      by_cases heq : t = σ.nextToken
      · rw [heq, Function.update_self]
        exact ⟨fun _ => .inl rfl, fun _ => rfl⟩
      · rw [Function.update_of_ne heq, h.registered]
        exact ⟨.inr, fun hmem => hmem.resolve_left heq⟩
    cases registered with
    | true => exact ⟨c.accept, .next .start trivial hstep, haccepted⟩
    | false =>
      -- a connection that is not registered is one that is closed at once
      have ht : Touches (σ.acceptClient now true) σ.nextToken (σ.acceptClient now false) :=
        ⟨rfl, rfl, rfl, rfl, fun t hmem => Finmap.mem_insert.mpr (.inr hmem),
          fun t hne hmem => (Finmap.mem_insert.mp hmem).resolve_left hne⟩
      obtain ⟨c', hreach, hmirrors⟩ := haccepted.of_touches ht
      exact ⟨c', (Reach.start.next trivial hstep).trans hreach, hmirrors⟩
  | change token session => exact h.of_touches (setSession_touches σ token session)
  | close token => exact h.of_touches (closeClient_touches σ token)
  | timer now =>
    refine ⟨c, .start, ?_⟩
    change Mirrors (σ.handleTimer now) c
    unfold handleTimer
    dsimp only
    split <;> exact ⟨h.registered, h.nextToken, h.io⟩
  | check now visits =>
    change ∃ c', _ ∧ Mirrors (σ.checkHeartbeats now visits).2 c'
    unfold checkHeartbeats
    split
    · exact h.checkLoop now visits 64
    · exact ⟨c, .start, h⟩

theorem Mirrors.run {c : CServer} (h : Mirrors σ c) (es : List Event) :
    ∃ c', Reach CServer.step (fun _ _ => True) c c' ∧ Mirrors (σ.run es) c' := by
  induction es generalizing σ c with
  | nil => exact ⟨c, .start, h⟩
  | cons e es ih =>
    obtain ⟨c₁, hfirst, h₁⟩ := h.next e
    obtain ⟨c₂, hrest, h₂⟩ := ih h₁
    exact ⟨c₂, hfirst.trans hrest, h₂⟩

/-- The sessions of every run are those of a run of the I/O thread. -/
theorem mirrors_of_run (now : Int) (es : List Event) : ∃ c, CServer.Reachable c ∧ Mirrors ((create now).run es) c := by
  refine Mirrors.run ⟨fun t => ?_, rfl, rfl⟩ es
  exact ⟨nofun, fun hmem => absurd hmem Finmap.notMem_empty⟩

end SyncRtc.Net.LiveServer
