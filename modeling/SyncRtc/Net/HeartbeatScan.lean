import SyncRtc.Lib.Sweep
import SyncRtc.Net.Heartbeat
import SyncRtc.Net.IoWakeup

/-!
# The heartbeat scan

`CServer.cpp`: once a second a round begins, which goes over the sessions in the order of their tokens. It is run in
steps, one each turn of the I/O loop, between which connections are accepted and closed, and a step closes the
sessions it finds expired. What is kept from one step to the next is a token and no iterator.

`m_sessions` and everything else here belongs to the I/O thread. What other threads do to a session, and what its
socket delivers, is up to the outside, also in the middle of a step. What is posted to the business threads is left out.
-/

set_option autoImplicit false

namespace SyncRtc.Net

/-- The part of `CServer` its heartbeat scan works on. -/
structure LiveServer where
  sessions : Finmap fun _ : Token => LiveSession := ∅
  nextToken : Token := 5
  heartbeatAfter : Token := 0
  heartbeatThrough : Token := 0
  heartbeatScanning : Bool := false
  heartbeatRecheck : Bool := false
  lastTimer : Int
  /-- The tokens below are those of the listening socket, the timer, the wake-up and the signals. -/
  reserved : 5 ≤ nextToken
  /-- Every token in the map was given out. -/
  numbered : ∀ token ∈ sessions, 5 ≤ token ∧ token < nextToken

namespace LiveServer

/-- The server as it is constructed. -/
def create (now : Int) : LiveServer where
  lastTimer := now
  reserved := Nat.le_refl 5
  numbered := fun token h => absurd h (Finmap.notMem_empty (a := token))

/-- A session takes another state; a token that is not there is left alone. -/
def setSession (σ : LiveServer) (token : Token) (session : LiveSession) : LiveServer :=
  if h : token ∈ σ.sessions then
    { σ with
      sessions := σ.sessions.insert token session
      numbered := fun t ht => σ.numbered t <| (Finmap.mem_insert.mp ht).elim (fun e => e ▸ h) id }
  else σ

/-- `CServer::CloseClient`; a token that is not there is left alone. -/
def closeClient (σ : LiveServer) (token : Token) : LiveServer :=
  { σ with
    sessions := σ.sessions.erase token
    numbered := fun t ht => σ.numbered t (Finmap.mem_erase.mp ht).2 }

/-- `CServer::UpdateClient`. `watched` is whether `epoll_ctl` succeeds. -/
def updateClient (σ : LiveServer) (token : Token) (watched : Bool) : LiveServer :=
  if watched then σ else σ.closeClient token

/-- `CServer::AcceptClients`, one connection. A token is used up also when the connection cannot be registered. -/
def acceptClient (σ : LiveServer) (now : Int) (registered : Bool) : LiveServer :=
  { σ with
    sessions := if registered then σ.sessions.insert σ.nextToken { createdAt := now } else σ.sessions
    nextToken := σ.nextToken + 1
    reserved := Nat.le_succ_of_le σ.reserved
    numbered := by
      intro t ht
      have hmem : t = σ.nextToken ∨ t ∈ σ.sessions := by
        split at ht
        · exact Finmap.mem_insert.mp ht
        · exact .inr ht
      rcases hmem with rfl | hmem
      · exact ⟨σ.reserved, Nat.lt_succ_self _⟩
      · exact ⟨(σ.numbered t hmem).1, Nat.lt_succ_of_lt (σ.numbered t hmem).2⟩ }

/-- `CServer::HandleTimer`. -/
def handleTimer (σ : LiveServer) (now : Int) : LiveServer :=
  let σ :=
    if h : σ.heartbeatScanning = false ∧ σ.sessions.keys.Nonempty then
      { σ with
        heartbeatAfter := 0
        heartbeatThrough := σ.sessions.keys.max' h.2
        heartbeatScanning := true
        heartbeatRecheck := decide (now - σ.lastTimer > seconds 5) }
    else σ
  { σ with lastTimer := now }

/-- What the examination of a session meets. -/
structure Visit where
  /-- What `HandleRead` answers, and what it and the other threads have made of the session by then. -/
  handleRead : LiveSession → Bool × LiveSession
  /-- Whether `epoll_ctl` succeeds. -/
  watched : Bool

/-- What `CheckHeartbeats` does with one session. -/
def examine (σ : LiveServer) (now : Int) (visit : Visit) (token : Token) (session : LiveSession) : LiveServer :=
  let first := session.connectionExpired now false
  if first.1 = false then σ.setSession token first.2
  else
    let read := visit.handleRead first.2
    if read.1 = false ∨ read.2.session.isClosed then σ.closeClient token
    else
      let again := read.2.connectionExpired now σ.heartbeatRecheck
      if again.1 then σ.closeClient token
      else (σ.setSession token again.2).updateClient token visit.watched

/-- The body of the loop in `CheckHeartbeats`: which session was examined, or that the round is over. -/
def checkNext (σ : LiveServer) (now : Int) (visits : Token → Visit) : Option Token × LiveServer :=
  match upperBound σ.sessions σ.heartbeatAfter with
  | none => (none, { σ with heartbeatScanning := false })
  | some (token, session) =>
    if token > σ.heartbeatThrough then (none, { σ with heartbeatScanning := false })
    else (some token, { σ with heartbeatAfter := token }.examine now (visits token) token session)

/-- The loop in `CheckHeartbeats`, with so many times to go: which sessions were examined, in turn. -/
def checkLoop (now : Int) (visits : Token → Visit) : Nat → LiveServer → List Token × LiveServer
  | 0, σ => ([], σ)
  | n + 1, σ =>
    match σ.checkNext now visits with
    | (none, σ) => ([], σ)
    | (some token, σ) => (token :: (checkLoop now visits n σ).1, (checkLoop now visits n σ).2)

/-- `CServer::CheckHeartbeats`. -/
def checkHeartbeats (σ : LiveServer) (now : Int) (visits : Token → Visit) : List Token × LiveServer :=
  if σ.heartbeatScanning then checkLoop now visits 64 σ else ([], σ)

/-- The timeout `RunOnce` gives to `epoll_wait`; a negative one is no limit. -/
def waitTimeout (σ : LiveServer) (mediaTimeout maxWait : Int) : Int :=
  let timeout := if σ.heartbeatScanning then 0 else mediaTimeout
  if maxWait ≥ 0 ∧ (timeout < 0 ∨ timeout > maxWait) then maxWait else timeout

/-- What happens next. -/
inductive Event where
  | accept (now : Int) (registered : Bool)
  /-- Frames come in, or a business thread works on the session. -/
  | change (token : Token) (session : LiveSession)
  /-- The I/O thread closes a connection it serves. -/
  | close (token : Token)
  | timer (now : Int)
  | check (now : Int) (visits : Token → Visit)

def next (σ : LiveServer) : Event → LiveServer
  | .accept now registered => σ.acceptClient now registered
  | .change token session => σ.setSession token session
  | .close token => σ.closeClient token
  | .timer now => σ.handleTimer now
  | .check now visits => (σ.checkHeartbeats now visits).2

/-- The sessions a step examines, in turn. -/
def examines (σ : LiveServer) : Event → List Token
  | .check now visits => (σ.checkHeartbeats now visits).1
  | _ => []

def run (σ : LiveServer) : List Event → LiveServer
  | [] => σ
  | e :: es => (σ.next e).run es

/-- The sessions a run examines, in turn. -/
def examined (σ : LiveServer) : List Event → List Token
  | [] => []
  | e :: es => σ.examines e ++ (σ.next e).examined es

/-- The events up to the end of the round that is on. -/
def round (σ : LiveServer) : List Event → List Event
  | [] => []
  | e :: es => if σ.heartbeatScanning then e :: (σ.next e).round es else []

/-- A turn of `Run` that is neither interrupted nor the last one: `RunOnce` handles what epoll reports, and then
goes on with the scan. -/
structure Turn where
  handled : List Event
  now : Int
  visits : Token → Visit

def Turn.events (t : Turn) : List Event := t.handled ++ [.check t.now t.visits]

end LiveServer

end SyncRtc.Net
