import SyncRtc.Lib.Prog
import SyncRtc.Realtime.Storage

/-!
# Saving a message, statement by statement

`MysqlMgr::SaveMeetingMessage` makes up to three statements on one connection, and between them other
connections make theirs. What it answers is the structure it was given, filled from the row it has read:
`MySql.saveMeetingMessage` is what all of it comes to.
-/

set_option autoImplicit false

namespace SyncRtc

/-- The row `INSERT INTO meeting_messages` makes. -/
def MySql.newMessage (m : MySql) (message : MeetingMessageInfo) (createdAt : String) : MeetingMessageInfo :=
  { message with messageId := m.nextMessageId, createdAt }

def MySql.insertMessage (m : MySql) (message : MeetingMessageInfo) (createdAt : String) : MySql :=
  { m with messages := m.messages ++ [m.newMessage message createdAt], nextMessageId := m.nextMessageId + 1 }

def MySql.messageById (m : MySql) (messageId : Nat) : Option MeetingMessageInfo :=
  m.messages.find? fun r => r.messageId = messageId

namespace MysqlMgr

/-- What `SaveMeetingMessage` asks of the pool and of MySQL. -/
inductive Statement where
  | getConnection
  | insert (message : MeetingMessageInfo)
  | lastInsertId
  | byId (messageId : Nat)
  | byUniqueKey (message : MeetingMessageInfo)

/-- A statement throws the code of an error, or answers: an insert the number of rows, a query its first row. -/
def Statement.Res : Statement → Type
  | .getConnection => Bool
  | .insert _ => Except Nat Nat
  | .lastInsertId => Except Nat (Option Nat)
  | .byId _ => Except Nat (Option MeetingMessageInfo)
  | .byUniqueKey _ => Except Nat (Option MeetingMessageInfo)

def statements : Signature := ⟨Statement, Statement.Res⟩

def execute (c : Statement) : Prog statements c.Res := Prog.perform (S := statements) c

/-- `ER_DUP_ENTRY`. -/
def duplicateEntry : Nat := 1062

/-- `FillMeetingMessage`. -/
def fillMeetingMessage (result message : MeetingMessageInfo) : MeetingMessageInfo :=
  { message with
    messageId := result.messageId
    meetingId := result.meetingId
    senderUserId := result.senderUserId
    receiverUserId := result.receiverUserId
    clientMsgId := result.clientMsgId
    content := result.content
    contentType := result.contentType
    createdAt := result.createdAt }

/-- What a load answers, and the structure it has filled. -/
def loaded (message : MeetingMessageInfo) : Option MeetingMessageInfo → Bool × MeetingMessageInfo
  | none => (false, message)
  | some result => (true, fillMeetingMessage result message)

/-- `LoadMeetingMessageById`. -/
def loadMeetingMessageById (messageId : Nat) (message : MeetingMessageInfo) :
    Prog statements (Except Nat (Bool × MeetingMessageInfo)) := do
  let result : Except Nat (Option MeetingMessageInfo) ← execute (.byId messageId)
  return result.map (loaded message)

/-- `LoadMeetingMessageByUniqueKey`. -/
def loadMeetingMessageByUniqueKey (message : MeetingMessageInfo) :
    Prog statements (Except Nat (Bool × MeetingMessageInfo)) := do
  let result : Except Nat (Option MeetingMessageInfo) ← execute (.byUniqueKey message)
  return result.map (loaded message)

/-- The `try` block of `SaveMeetingMessage`. -/
def insertMeetingMessage (message : MeetingMessageInfo) : Prog statements (Except Nat (Bool × MeetingMessageInfo)) := do
  let inserted : Except Nat Nat ← execute (.insert message)
  match inserted with
  | .error code => return .error code
  | .ok count =>
    if count ≠ 1 then return .ok (false, message)
    else
      let id : Except Nat (Option Nat) ← execute .lastInsertId
      match id with
      | .error code => return .error code
      | .ok none => return .ok (false, message)
      | .ok (some messageId) => loadMeetingMessageById messageId message

/-- The messages `SaveMeetingMessage` does not save. -/
def Refuses (message : MeetingMessageInfo) : Prop :=
  message.meetingId = 0 ∨ message.senderUserId = 0 ∨ message.clientMsgId.isEmpty ∨
    message.clientMsgId.utf8ByteSize > 128 ∨ message.content.isEmpty ∨ message.content.utf8ByteSize > 65535 ∨
      message.receiverUserId = some 0

instance (message : MeetingMessageInfo) : Decidable (Refuses message) := inferInstanceAs (Decidable (_ ∨ _))

/-- `MysqlMgr::SaveMeetingMessage`: whether it has worked, and what has become of its argument. -/
def saveMeetingMessage (message : MeetingMessageInfo) : Prog statements (Bool × MeetingMessageInfo) := do
  if Refuses message then return (false, message)
  else
    let connected : Bool ← execute .getConnection
    if !connected then return (false, message)
    else
      match ← insertMeetingMessage message with
      | .ok answer => return answer
      | .error code =>
        if code = duplicateEntry then
          match ← loadMeetingMessageByUniqueKey message with
          | .ok answer => return answer
          | .error _ => return (false, message)
        else return (false, message)

end MysqlMgr

end SyncRtc
