import SyncRtc.Lib.Transition
import SyncRtc.Realtime.Dispatch

/-!
# The running server

The steps of the server as a whole: the I/O thread takes in a connection, a frame or a close; a queue
starts its next command when the one before it has ended; a running operation makes its next call.
Any enabled step may come next, so a run is any interleaving the scheduler, the network, the stores
and the clocks allow.

A connection's queue and a room's queue are serial: `start` needs the queue idle. A connection whose
command was handed to a room stays `waiting` until the room has finished it.
-/

set_option autoImplicit false

namespace SyncRtc

/-- The next call of a program. -/
def Prog.next? {S : Signature} {α : Type} : Prog S α → Option S.Call
  | .pure _ => none
  | .call c _ => some c

/-- What runs operations: the queue of a connection, of a room, of the timer and of MediaServer's
events. -/
inductive Thread where
  | conn (session : SessionId)
  | room (meeting : MeetingId)
  | timer
  | control
  deriving DecidableEq

/-- One step of the whole. -/
inductive Event where
  /-- `CServer::AcceptClients`. -/
  | accept
  /-- A frame has arrived: `PostMsgToQue`. A full queue (`refused`) closes the connection. -/
  | frame (session : SessionId) (r : Request) (refused : Bool)
  /-- `CServer::CloseClient`: the socket is closed and the session's disconnect is queued. -/
  | close (session : SessionId)
  /-- The last `shared_ptr` to a session whose connection has ended is gone. -/
  | release (session : SessionId)
  /-- The timer fires: `PostReconnectTimeoutCheck`. -/
  | tick
  /-- The link to MediaServer comes up, goes down, or has a message. -/
  | linkUp
  | linkDown
  | linkMessage (message : Payload) (refused : Bool)
  /-- A queue starts its next command. -/
  | start (thread : Thread)
  /-- A running operation makes its next call. -/
  | step (thread : Thread) (o : Oracle)
  /-- Time passes: the wall clock goes anywhere, the steady clock only forward. -/
  | clocks (wall elapsed : Nat)

namespace Server

/-! ## Operations between two steps -/

/-- A connection's operation after a step. One that has ended leaves the queue idle, or waiting for
the room that took its command. -/
def resumeConn (σ : Server) (s : SessionId) (command : Command) (op : Op (Option MeetingId)) : Server :=
  let state := match op with
    | .pure none => .idle
    | .pure (some m) => .waiting command m
    | op => .running command op
  σ.setConn s { σ.conns s with state := state }

/-- `done` of a room's task: the connection that waits for it goes on. -/
def finishTask (σ : Server) : Task → Server
  | .dispatch s _ => σ.setConn s { σ.conns s with state := .idle }
  | _ => σ

/-- A room's operation after a step. -/
def resumeRoom (σ : Server) (m : MeetingId) (task : Task) (op : Op Unit) : Server :=
  match op with
  | .pure _ => (σ.setRoom m { σ.rooms m with active := none }).finishTask task
  | op => σ.setRoom m { σ.rooms m with active := some (task, op) }

/-- An operation of the timer or the control queue after a step. -/
def pending : Op Unit → Option (Op Unit)
  | .pure _ => none
  | op => some op

/-! ## Steps -/

/-- A queue starts its next command. -/
def start (σ : Server) : Thread → Option Server
  | .conn s =>
    match (σ.conns s).state, (σ.conns s).queue with
    | .idle, command :: rest =>
      some ((σ.setConn s { σ.conns s with queue := rest }).resumeConn s command (route s command))
    | _, _ => none
  | .room m =>
    match (σ.rooms m).active, (σ.rooms m).queue with
    | none, task :: rest =>
      some ((σ.setRoom m { σ.rooms m with queue := rest }).resumeRoom m task (task.op m))
    | _, _ => none
  | .timer => none
  | .control =>
    match σ.controlOp, σ.control with
    | none, (event, epoch, message) :: rest =>
      some { σ with control := rest, controlOp := pending (SyncRtc.controlOp event epoch message) }
    | _, _ => none

/-- A running operation makes its next call. -/
def stepOp (σ : Server) (o : Oracle) : Thread → Option Server
  | .conn s =>
    match (σ.conns s).state with
    | .running command (.call c k) => some ((exec c o σ).2.resumeConn s command (k (exec c o σ).1))
    | _ => none
  | .room m =>
    match (σ.rooms m).active with
    | some (task, .call c k) => some ((exec c o σ).2.resumeRoom m task (k (exec c o σ).1))
    | _ => none
  | .timer =>
    match σ.timer with
    | some (.call c k) => some { (exec c o σ).2 with timer := pending (k (exec c o σ).1) }
    | _ => none
  | .control =>
    match σ.controlOp with
    | some (.call c k) => some { (exec c o σ).2 with controlOp := pending (k (exec c o σ).1) }
    | _ => none

/-- One step of the server, if it is enabled. -/
def step (σ : Server) : Event → Option Server
  | .accept =>
    some { σ.setConn σ.nextSession { isOpen := true } with nextSession := σ.nextSession + 1 }
  | .frame s r refused =>
    if (σ.conns s).isOpen then
      if refused then some (σ.setSession s { σ.sessions s with closed := true })
      else some (σ.setConn s { σ.conns s with queue := (σ.conns s).queue ++ [.request r] })
    else none
  | .close s =>
    if (σ.conns s).isOpen then
      some ((σ.setSession s { σ.sessions s with closed := true }).setConn s
        { σ.conns s with queue := (σ.conns s).queue ++ [.disconnected], isOpen := false })
    else none
  | .release s =>
    match σ.conns s with
    | { queue := [], state := .idle, isOpen := false } =>
      if s < σ.nextSession then some (σ.setSession s { σ.sessions s with alive := false }) else none
    | _ => none
  | .tick =>
    match σ.timer with
    | none => some { σ with timer := pending reconnectTimeoutCheckHandler }
    | some _ => none
  | .linkUp =>
    if σ.link.active = 0 then
      some { σ with
        link := { epoch := σ.link.epoch + 1, active := σ.link.epoch + 1, connected := true }
        control := σ.control ++ [(.connected, σ.link.epoch + 1, .malformed)] }
    else none
  | .linkDown =>
    if σ.link.active = 0 then none
    else
      some { σ with
        link := { σ.link with active := 0, connected := false }
        control := σ.control ++ [(.disconnected, σ.link.active, .malformed)] }
  | .linkMessage message refused =>
    if σ.link.active = 0 then none
    else if refused then some { σ with link := σ.link.invalidate σ.link.active }
    else some { σ with control := σ.control ++ [(.message, σ.link.active, message)] }
  | .start t => σ.start t
  | .step t o => σ.stepOp o t
  | .clocks wall elapsed => some { σ with wall := wall, steady := σ.steady + elapsed }

/-- The call a thread's operation makes next. -/
def nextCall? (σ : Server) : Thread → Option Call
  | .conn s => match (σ.conns s).state with
    | .running _ op => op.next?
    | _ => none
  | .room m => (σ.rooms m).active.bind fun a => a.2.next?
  | .timer => σ.timer.bind fun op => op.next?
  | .control => σ.controlOp.bind fun op => op.next?

/-! ## The start -/

/-- A server that has just started, over stores in which nobody is in a room. The meetings, the
messages and the logins in the stores are arbitrary. -/
structure Initial (σ : Server) : Prop where
  sessions : ∀ s, σ.sessions s = {}
  conns : ∀ s, σ.conns s = {}
  nextSession : σ.nextSession = 0
  rooms : ∀ m, σ.rooms m = {}
  users : ∀ u, σ.users u = none
  timer : σ.timer = none
  control : σ.control = [] ∧ σ.controlOp = none
  signals : ∀ i, σ.signals i = none
  link : σ.link = {} ∧ σ.mediaEpoch = 0
  logs : σ.sent = [] ∧ σ.forwarded = [] ∧ σ.issued = []
  members : ∀ m, σ.storage.redis.members m = .empty
  member : ∀ m u, σ.storage.redis.member m u = {}
  presence : ∀ u, (σ.storage.redis.presence u).meetingId = none
  deadlines : σ.storage.redis.deadlines = .empty

/-- Redis before anyone has joined a meeting. -/
def vacantRedis (auth : String → Option Payload) : Redis where
  members _ := .empty
  member _ _ := {}
  presence _ := {}
  deadlines := .empty
  auth := auth

/-- A server that has just started over the tables of MySQL and the logins in Redis. -/
def boot (mysql : MySql) (auth : String → Option Payload) (styledSize : Reply → Nat) : Server where
  storage := ⟨vacantRedis auth, mysql⟩
  styledSize := styledSize

theorem boot_initial (mysql : MySql) (auth : String → Option Payload) (styledSize : Reply → Nat) :
    (boot mysql auth styledSize).Initial := by
  constructor <;> intros <;> first | rfl | exact ⟨rfl, rfl⟩ | exact ⟨rfl, rfl, rfl⟩

/-- The storage call a thread makes in this step succeeds. -/
def Healthy (σ : Server) : Event → Prop
  | .step t o => (∃ site q, σ.nextCall? t = some (.query site q)) → o.fail = false ∧ o.late = false
  | _ => True

end Server

/-! ## Scenarios -/

/-- A queue starts its next command and goes on for at most `n` calls, each with the answer `o`. -/
def lets (t : Thread) (n : Nat) (o : Oracle) : List Event := .start t :: List.replicate n (.step t o)

/-- A client sends a request, which its connection routes. -/
def asks (s : SessionId) (r : Request) : List Event := .frame s r false :: lets (.conn s) 12 {}

namespace Scenario

/-- MySQL with one meeting in progress, meeting 7 of user 1, under the code "c". -/
def mysql : MySql where
  meetings := {
    rows := [{ id := 7, idPos := by decide, meetingCode := "c", title := "t", creatorUserId := 1,
               status := .kInProgress, visibility := .kPublic, passwordHash := none, maxParticipants := 30 }]
    next := 8
    below := by decide
    nodup := by decide }
  participation _ _ := none
  messages := []
  nextMessageId := 1
  collation := id
  displayName _ := some "n"
  userByEmail email :=
    if email = "1" then some ⟨1, "u", "1"⟩ else if email = "2" then some ⟨2, "v", "2"⟩
    else if email = "3" then some ⟨3, "w", "3"⟩ else none

/-- The logins GateServer has left: the token "1" is user 1's, "2" user 2's, any other one user 3's. -/
def auth (token : String) : Option Payload :=
  some (.value (.obj [("uid", .int (if token = "1" then 1 else if token = "2" then 2 else 3))]))

def server : Server := Server.boot mysql auth fun _ => 10

theorem server_initial : server.Initial := Server.boot_initial _ _ _

def login (uid : Int) (name : String) : Request :=
  ⟨.authLoginRequest, .value (.obj [("uid", .int uid), ("token", .str name), ("email", .str name)])⟩

def join : Request := ⟨.joinMeetingRequest, .value (.obj [("meeting_code", .str "c")])⟩

def resume (request : String) (known : Int) : Request :=
  ⟨.resumeMeetingRequest, .value (.obj [("meeting_id", .str "7"), ("request_id", .str request),
    ("resume_ticket", .str "k"), ("membership_generation", .int known)])⟩

/-- A connection is accepted and logs in as user 1. -/
def connect (s : SessionId) : List Event := .accept :: asks s (login 1 "1")

/-- The room of the meeting carries out its next task; a ticket drawn is "k". -/
def work : List Event := lets (.room 7) 40 { text := "k" }

end Scenario

/-- The states reachable from a start by steps that satisfy `ok`. -/
def Reachable (ok : Server → Event → Prop) (σ : Server) : Prop :=
  ∃ σ₀ : Server, σ₀.Initial ∧ Reach Server.step ok σ₀ σ

end SyncRtc
