import SyncRtc.Net.IoWakeup
import SyncRtc.Net.Session

/-!
# The I/O thread

`CServer.cpp`: one thread accepts connections, serves the events epoll reports and the names `IoWakeup` hands out,
scans heartbeats and closes connections. It serves one connection at a time: it reads, writes, and last asks the
session once whether anything is left to send and sets the interest in `EPOLLOUT` by that answer. Business threads
submit frames and ask for closes between any two of its steps.

Which events epoll reports, what the sockets answer and which connections have expired is up to the outside.
-/

set_option autoImplicit false

namespace SyncRtc.Net

/-- How far the I/O thread is with the connection it serves. -/
inductive Stage where
  /-- In `HandleRead`, for an epoll event with these flags. -/
  | reading (out err : Bool)
  /-- In `HandleRead`, for an expired heartbeat. -/
  | scanning
  /-- Before `HandleWrite`. -/
  | toWrite (err : Bool)
  /-- In `HandleWrite`. -/
  | writing (err : Bool)
  /-- Before `HasPendingWrite` in `UpdateClient`. -/
  | updating
  /-- Between `HasPendingWrite`, with this answer, and `epoll_ctl`. -/
  | arming (pending : Bool)
  /-- Before `CloseClient`. -/
  | closing
  deriving DecidableEq

/-- Where the I/O thread stands. -/
inductive Io where
  | loop
  /-- In `HandleWakeup`, with this rest of the batch to serve. -/
  | batch (rest : List Token)
  | serving (token : Token) (stage : Stage) (rest : List Token)
  deriving DecidableEq

structure CServer where
  wakeup : IoWakeup := {}
  /-- The sessions, by their tokens. -/
  session : Token → Session := fun _ => {}
  /-- Whether the token is in `m_sessions`. -/
  registered : Token → Bool := fun _ => false
  /-- Whether the interest of the connection includes `EPOLLOUT`. -/
  armed : Token → Bool := fun _ => false
  nextToken : Token := 5
  io : Io := .loop

namespace CServer

def setSession (σ : CServer) (token : Token) (s : Session) : CServer :=
  { σ with session := Function.update σ.session token s }

/-- `Session::Send`, whose wake-up is that of this server. -/
def send (σ : CServer) (token : Token) (requestId : UInt16) (payload : Bytes) : CServer :=
  let s := σ.session token
  let σ := σ.setSession token (s.send requestId payload !σ.wakeup.stopping).2
  if s.notifies payload then { σ with wakeup := (σ.wakeup.notify token).2 } else σ

/-- `Session::RequestClose`. -/
def requestClose (σ : CServer) (token : Token) : CServer :=
  { σ.setSession token (σ.session token).requestClose with wakeup := (σ.wakeup.notify token).2 }

/-- `CServer::AcceptClients`, one connection. -/
def accept (σ : CServer) : CServer :=
  { σ with
    registered := Function.update σ.registered σ.nextToken true
    armed := Function.update σ.armed σ.nextToken false
    nextToken := σ.nextToken + 1 }

/-- `CServer::CloseClient`. -/
def closeClient (σ : CServer) (token : Token) : CServer :=
  { σ.setSession token (σ.session token).close with registered := Function.update σ.registered token false }

/-- What happens next. -/
inductive Event where
  /-- Any thread sends, asks for a close, or names a token of its own (MediaSignalClient). -/
  | send (token : Token) (requestId : UInt16) (payload : Bytes)
  | requestClose (token : Token)
  | notify (token : Token)
  | requestStop
  /-- The I/O thread, in its loop. -/
  | accept
  | wake
  | report (token : Token) (read out err : Bool)
  | scan (token : Token)
  /-- The I/O thread, in `HandleWakeup` and with a connection. -/
  | next
  | readDone (alive : Bool)
  | scanDone (alive expired : Bool)
  | beginWrite
  | writeSome (sent : Session.Sent)
  | settle
  | endWrite
  | writeDone
  | update
  | arm (done : Bool)
  | close

/-- The I/O thread goes on with the connection it serves. -/
def serve (σ : CServer) (token : Token) (stage : Stage) (rest : List Token) : CServer :=
  { σ with io := .serving token stage rest }

/-- A step of `HandleWrite` of the connection being served. -/
def writeStep (σ : CServer) (e : Session.Event) : Option CServer :=
  match σ.io with
  | .serving token (.writing _) _ => ((σ.session token).step e).map (σ.setSession token)
  | _ => none

def step (σ : CServer) : Event → Option CServer
  | .send token requestId payload => if token < σ.nextToken then some (σ.send token requestId payload) else none
  | .requestClose token => if token < σ.nextToken then some (σ.requestClose token) else none
  | .notify token => some { σ with wakeup := (σ.wakeup.notify token).2 }
  | .requestStop => some { σ with wakeup := σ.wakeup.requestStop }
  | .accept => if σ.io = .loop then some σ.accept else none
  | .wake =>
    if σ.io = .loop then some { σ with wakeup := σ.wakeup.take.2, io := .batch σ.wakeup.take.1 } else none
  | .report token read out err =>
    if σ.io = .loop ∧ σ.registered token then
      if read then some (σ.serve token (.reading out err) [])
      else if out then some (σ.serve token (.toWrite err) [])
      else some (σ.serve token (if err then .closing else .updating) [])
    else none
  | .scan token => if σ.io = .loop ∧ σ.registered token then some (σ.serve token .scanning []) else none
  | .next =>
    match σ.io with
    | .batch [] => some { σ with io := .loop }
    | .batch (token :: rest) =>
      if σ.wakeup.stopping then some { σ with io := .loop }
      else if σ.registered token then some (σ.serve token (.toWrite false) rest)
      else some { σ with io := .batch rest }
    | _ => none
  | .readDone alive =>
    match σ.io with
    | .serving token (.reading out err) rest =>
      if alive then
        if out then some (σ.serve token (.toWrite err) rest)
        else some (σ.serve token (if err then .closing else .updating) rest)
      else some (σ.serve token .closing rest)
    | _ => none
  | .scanDone alive expired =>
    match σ.io with
    | .serving token .scanning rest =>
      some (σ.serve token (if !alive || (σ.session token).isClosed || expired then .closing else .updating) rest)
    | _ => none
  | .beginWrite =>
    match σ.io with
    | .serving token (.toWrite err) rest =>
      some ((σ.setSession token (σ.session token).beginWrite).serve token (.writing err) rest)
    | _ => none
  | .writeSome sent => σ.writeStep (.writeSome sent)
  | .settle => σ.writeStep .settle
  | .endWrite => σ.writeStep .endWrite
  | .writeDone =>
    match σ.io with
    | .serving token (.writing err) rest =>
      match (σ.session token).writer with
      | .returned alive => some (σ.serve token (if !alive || err then .closing else .updating) rest)
      | _ => none
    | _ => none
  | .update =>
    match σ.io with
    | .serving token .updating rest => some (σ.serve token (.arming (σ.session token).hasPendingWrite) rest)
    | _ => none
  | .arm done =>
    match σ.io with
    | .serving token (.arming pending) rest =>
      if done then some { σ with armed := Function.update σ.armed token pending, io := .batch rest }
      else some (σ.serve token .closing rest)
    | _ => none
  | .close =>
    match σ.io with
    | .serving token .closing rest => some { σ.closeClient token with io := .batch rest }
    | _ => none

/-- The states of the I/O layer, whatever the threads and the outside do. -/
def Reachable (σ : CServer) : Prop := Reach step (fun _ _ => True) {} σ

end CServer

end SyncRtc.Net
