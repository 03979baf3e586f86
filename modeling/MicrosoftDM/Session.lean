import MicrosoftDM.LargeObject
import MicrosoftDM.CommandQueue

/-!
The state of a management session (mdmprotocol/mdm/session.go), the filing of
the client's answers in it (results.go, collect.go), and the in-memory
session store.
-/

set_option autoImplicit false

namespace MicrosoftDM.Mdm
open MicrosoftDM.Syncml (Item Status Results StatusCode Assembler ChunkError)

inductive AuthType where
  | certificate | digest | basic
  | other (name : GoString)
  deriving DecidableEq

structure Facts where
  devInfo : GoMap GoString := ∅
  loginStatus : GoString := []
  syncType : GoString := []
  devicePrepSync : GoString := []
  userAgentOrigin : GoString := []

structure Outgoing where
  commandID : GoString
  chunks : List Item
  name : GoString

/-- `pendingResult`: one command's answer until it is written to the queue. -/
structure PendingResult where
  status : Option StatusCode := none
  origErr : GoString := []
  items : List Item := []
  children : List ChildResult := []
  deriving DecidableEq

def PendingResult.withStatus (pr : PendingResult) (st : Status) : PendingResult :=
  { pr with status := some st.code, origErr := st.data.originalError }

def childResult (st : Status) : ChildResult where
  name := st.cmd
  status := st.code
  originalError := st.data.originalError

def PendingResult.withChild (pr : PendingResult) (st : Status) : PendingResult :=
  { pr with children := pr.children ++ [childResult st] }

/-- A session. `addr` stands for the address of its `Sent` and `Children`
maps, which are made when the session is opened: two sessions share their maps
exactly when their `addr` agree. `results` is `none` for a nil map. -/
structure Session where
  addr : Nat
  key : GoString
  deviceID : GoString
  sessionID : GoString
  enrollmentKey : GoString
  clientMsgID : Int := 0
  serverMsgID : Int := 0
  authenticated : Bool := false
  authType : Option AuthType := none
  challenged : Nat := 0
  facts : Facts := {}
  gotPackageOne : Bool := false
  sent : GoMap GoString := ∅
  children : GoMap GoString := ∅
  outgoing : Option Outgoing := none
  assembler : Option Assembler := none
  assemblingCommand : GoString := []
  results : Option (GoMap PendingResult) := none
  maxMsgSize : Int := 0
  maxObjSize : Int := 0
  xmlns : GoString
  startedAt : Time
  lastSeen : Time
  closed : Bool := false
  unenroll : Bool := false

def sessionKey (deviceID sessionID : GoString) : GoString := joinSlash deviceID sessionID

namespace Session

def uploadPending (sess : Session) : Bool :=
  match sess.assembler with
  | some a => a.pending
  | none => false

def pendingOf (sess : Session) (id : GoString) : PendingResult :=
  ((sess.results.getD ∅).lookup id).getD {}

def updatePending (sess : Session) (id : GoString) (f : PendingResult → PendingResult) : Session :=
  { sess with results := some ((sess.results.getD ∅).insert id (f (sess.pendingOf id))) }

def pendingStatus (sess : Session) (id : GoString) (st : Status) : Session :=
  sess.updatePending id (·.withStatus st)

def recordChild (sess : Session) (parent : GoString) (st : Status) : Session :=
  sess.updatePending parent (·.withChild st)

def stashResults (sess : Session) (id : GoString) (items : List Item) : Session :=
  sess.updatePending id fun pr => { pr with items := pr.items ++ items }

end Session

structure Session.Steady (s s' : Session) : Prop where
  addr : s'.addr = s.addr
  key : s'.key = s.key
  deviceID : s'.deviceID = s.deviceID
  sessionID : s'.sessionID = s.sessionID
  enrollmentKey : s'.enrollmentKey = s.enrollmentKey
  clientMsgID : s'.clientMsgID = s.clientMsgID
  serverMsgID : s'.serverMsgID = s.serverMsgID
  authenticated : s'.authenticated = s.authenticated
  authType : s'.authType = s.authType
  maxObjSize : s'.maxObjSize = s.maxObjSize

theorem Session.Steady.refl (s : Session) : s.Steady s := by constructor <;> rfl

theorem Session.Steady.trans {s₁ s₂ s₃ : Session} (h₁ : s₁.Steady s₂) (h₂ : s₂.Steady s₃) :
    s₁.Steady s₃ where
  addr := h₂.addr.trans h₁.addr
  key := h₂.key.trans h₁.key
  deviceID := h₂.deviceID.trans h₁.deviceID
  sessionID := h₂.sessionID.trans h₁.sessionID
  enrollmentKey := h₂.enrollmentKey.trans h₁.enrollmentKey
  clientMsgID := h₂.clientMsgID.trans h₁.clientMsgID
  serverMsgID := h₂.serverMsgID.trans h₁.serverMsgID
  authenticated := h₂.authenticated.trans h₁.authenticated
  authType := h₂.authType.trans h₁.authType
  maxObjSize := h₂.maxObjSize.trans h₁.maxObjSize

def statusKey (st : Status) : GoString := joinSlash st.msgRef st.cmdRef

def fileStatus (sess : Session) (st : Status) : Session :=
  if st.cmdRef = utf8 "0" then sess
  else
    match sess.children.lookup (statusKey st) with
    | some parent =>
      { sess.recordChild parent st with children := sess.children.erase (statusKey st) }
    | none =>
      match sess.sent.lookup (statusKey st) with
      | none => sess
      | some id =>
        if sess.assemblingCommand = id then sess.pendingStatus id st
        else { sess.pendingStatus id st with sent := sess.sent.erase (statusKey st) }

def fileStatuses (sess : Session) (sts : List Status) : Session := sts.foldl fileStatus sess

theorem fileStatus_steady (sess : Session) (st : Status) : sess.Steady (fileStatus sess st) := by
  unfold fileStatus
  split
  · exact .refl sess
  split
  · constructor <;> rfl
  split
  · exact .refl sess
  · split <;> constructor <;> rfl

theorem fileStatuses_steady (sess : Session) (sts : List Status) :
    sess.Steady (fileStatuses sess sts) := by
  induction sts generalizing sess with
  | nil => exact .refl sess
  | cons st sts ih => exact (fileStatus_steady sess st).trans (ih (fileStatus sess st))

/-- A Results without MsgRef answers message 1. -/
def resultsKey (res : Results) : GoString :=
  joinSlash (if res.msgRef = [] then utf8 "1" else res.msgRef) res.cmdRef

def Session.resultsCommand (sess : Session) (res : Results) : Option GoString :=
  match sess.sent.lookup (resultsKey res) with
  | some id => some id
  | none => sess.children.lookup (resultsKey res)

/-- The loop of `fileResults`: the items completed, or the first error. -/
def assemble (id : GoString) :
    Session → Assembler → List Item → Except ChunkError (List Item) × Session
  | sess, a, [] => (.ok [],{ sess with assembler := some a })
  | sess, a, it :: rest =>
    match a.add it with
    | (.error e,a) => (.error e,{ sess with assembler := some a })
    | (.ok none,a) => assemble id { sess with assemblingCommand := id } a rest
    | (.ok (some out),a) =>
      match assemble id sess a rest with
      | (.ok items,sess) => (.ok (out :: items),sess)
      | (.error e,sess) => (.error e,sess)

/-- `fileResults`. What was completed before an object left pending is dropped. -/
def fileResults (maxRequestSize : Int) (sess : Session) (res : Results) :
    Except ChunkError Unit × Session :=
  match sess.resultsCommand res with
  | none => (.ok (),sess)
  | some id =>
    match assemble id sess (sess.assembler.getD { maxSize := maxRequestSize }) res.items with
    | (.error e,sess) => (.error e,sess)
    | (.ok assembled,sess) =>
      if sess.uploadPending then (.ok (),sess)
      else (.ok (),{ sess with assemblingCommand := [] }.stashResults id assembled)

def Session.hasWork (sess : Session) : Bool :=
  decide (sess.sent.size > 0) || decide (sess.children.size > 0) || sess.outgoing.isSome ||
  sess.uploadPending

/-- `MemorySessions`, with the time-to-live of `NewMemorySessions`. -/
abbrev MemorySessions := GoMap Session

namespace MemorySessions

def ttl : Time := 3600*1000000000

def getSession (m : MemorySessions) (key : GoString) (now : Time) :
    Except StoreError Session × MemorySessions :=
  match m.lookup key with
  | none => (.error .notFound,m)
  | some s => if now-s.lastSeen > ttl then (.error .notFound,m.erase key) else (.ok s,m)

def putSession (m : MemorySessions) (s : Session) : MemorySessions := m.insert s.key s

def deleteSession (m : MemorySessions) (key : GoString) : MemorySessions := m.erase key

/-- What the stored session holds after a caller of `GetSession` changed its
shallow copy to `s` and gave up: the maps and the objects behind the pointers
both have are one, the other fields are the copy's own. `popped` says that
`s` took a chunk from the object in flight. -/
def writeThrough (stored s : Session) (popped : Bool) : Session :=
  { stored with
    sent := s.sent
    children := s.children
    assembler := stored.assembler.bind fun a => some (s.assembler.getD a)
    results := stored.results.bind fun r => some (s.results.getD r)
    outgoing := if popped then stored.outgoing.map fun o => { o with chunks := o.chunks.tail }
      else stored.outgoing }

def abandon (m : MemorySessions) (s : Session) (popped : Bool) : MemorySessions :=
  match m.lookup s.key with
  | some stored => if stored.addr = s.addr then m.insert s.key (writeThrough stored s popped) else m
  | none => m

end MemorySessions

end MicrosoftDM.Mdm
