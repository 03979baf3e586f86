import MicrosoftDM.EffectProgram
import MicrosoftDM.Authentication
import MicrosoftDM.Delivery

/-!
`Service.Handle` of mdmprotocol/mdm/service.go with the functions it calls
(alerts.go, deliver.go, finish.go, collect.go, nonce.go), written once as a
program over the calls it makes on its collaborators. The request is the
decoded message.
-/

set_option autoImplicit false

namespace MicrosoftDM.Mdm
open Effect
open Effect.Action (fail locals update operate)
open MicrosoftDM.Syncml (Item Alert Message)

/-- The configuration `New` returns, its defaults filled in. `hooks` says
that `Hooks` is not nil. -/
structure Config where
  serverURL : GoString
  hooks : Bool := false
  maxRequestSize : Int := Syncml.defaultMaxSize
  nonceTTL : Time := 600*1000000000
  maxMessageBytes : Int := 524288
  allowBasic : Bool := false
  providerID : GoString := []
  crypto : Crypto

structure Event where
  deviceID : GoString
  sessionID : GoString
  alert : Int
  type : GoString
  data : GoString
  mark : GoString
  source : GoString

inductive HookCall where
  | packageOne (deviceID sessionID : GoString) (facts : Facts)
  | genericAlert (e : Event)
  | clientEvent (e : Event)
  | unenrolled (deviceID : GoString)

/-- The calls of `Handle` on its collaborators. `newMaps` makes the maps of a
session, `rangeOrder` asks in which order Go ranges over a map with these
keys, and `abandon` ends a call that failed with the session as given. -/
inductive Op where
  | lookup (deviceID : GoString)
  | trustCertificate (id : Identity) (chains : List Chain)
  | now
  | newNonce
  | newMaps
  | rangeOrder (keys : List GoString)
  | getSession (key : GoString)
  | putSession (sess : Session)
  | deleteSession (key : GoString)
  | abandon (sess : Session) (popped : Bool)
  | nonceGet (key : GoString)
  | nonceUpdate (key : GoString) (value : Bytes) (ttl : Time)
  | enqueue (dev : GoString) (cmd : Command) (time : Time)
  | deliverable (dev : GoString) (limit : Int)
  | markSent (dev : GoString) (deliveries : List Delivery)
  | storeResult (dev id : GoString) (r : Result)
  | hook (h : HookCall)

/-- The answers. Random bytes never fail to come. -/
abbrev Ans : Op → Type
  | .lookup _ => Option Identity
  | .trustCertificate _ _ => Bool
  | .now => Time
  | .newNonce => Bytes
  | .newMaps => Nat
  | .rangeOrder _ => List GoString
  | .getSession _ => Except StoreError Session
  | .putSession _ => Except StoreError Unit
  | .deleteSession _ => Except StoreError Unit
  | .abandon _ _ => Unit
  | .nonceGet _ => Except StoreError NonceRecord
  | .nonceUpdate _ _ _ => Except StoreError Unit
  | .enqueue _ _ _ => Except StoreError QueuedCommand
  | .deliverable _ _ => Except StoreError (List QueuedCommand)
  | .markSent _ _ => Except StoreError Unit
  | .storeResult _ _ _ => Except StoreError Unit
  | .hook _ => Except StoreError Unit

inductive Err where
  | invalidRequest (errs : List Syncml.ValidationError)
  | lookup (deviceID : GoString)
  | openedWithMsgID (key msgID : GoString)
  | notPackageOne (key : GoString)
  | expectedMsgID (key : GoString) (expected : Int) (msgID : GoString)
  | session (e : StoreError)
  | auth (e : StoreError)
  | chunk (e : Syncml.ChunkError)
  | hook (e : StoreError)
  | store (e : StoreError)
  | command (e : CommandError)
  | encode (e : Syncml.EncodeError)

abbrev Eng := Action Op Ans Work Err

def Eng.orFail {α : Type} (f : StoreError → Err) : Except StoreError α → Eng α
  | .ok a => pure a
  | .error e => fail (f e)

def Eng.hook (h : HookCall) : Eng Unit := operate (Op.hook h) >>= Eng.orFail Err.hook

def firstNonEmpty (a b : GoString) : GoString := if a ≠ [] then a else b

def Session.arrive (sess : Session) (req : Message) (t : Option Transport) (now : Time) : Session :=
  let sess := { sess with clientMsgID := atoiValue req.header.msgID, lastSeen := now }
  let sess :=
    match req.header.metinf with
    | some m =>
      { sess with
        maxMsgSize := if m.maxMsgSize > 0 then m.maxMsgSize else sess.maxMsgSize
        maxObjSize := if m.maxObjSize > 0 then m.maxObjSize else sess.maxObjSize }
    | none => sess
  match t with
  | some t =>
    { sess with facts := { sess.facts with
        userAgentOrigin := firstNonEmpty t.userAgentOrigin sess.facts.userAgentOrigin } }
  | none => sess

def Message.sessionKey (req : Message) : GoString :=
  Mdm.sessionKey req.header.source.locURI req.header.sessionID

def newSession (req : Message) (id : Identity) (addr : Nat) (now : Time) : Session where
  addr := addr
  key := Message.sessionKey req
  deviceID := req.header.source.locURI
  sessionID := req.header.sessionID
  enrollmentKey := id.enrollmentKey
  xmlns := req.xmlns
  startedAt := now
  lastSeen := now

/-- A session of another enrollment counts as not found. -/
def ofEnrollment (id : Identity) : Except StoreError Session → Except StoreError Session
  | .ok sess => if sess.enrollmentKey ≠ id.enrollmentKey then .error .notFound else .ok sess
  | .error e => .error e

def continueSession (req : Message) (t : Option Transport) (sess : Session) :
    Program Op Ans (Except Err Session) :=
  if atoiValue req.header.msgID ≠ sess.clientMsgID+1 then
    pure (.error (.expectedMsgID (Message.sessionKey req) (sess.clientMsgID+1) req.header.msgID))
  else do
    let now ← perform Op.now
    pure (.ok (sess.arrive req t now))

def openSession (req : Message) (id : Identity) (t : Option Transport) :
    Program Op Ans (Except Err Session) :=
  if atoiValue req.header.msgID ≠ 1 then
    pure (.error (.openedWithMsgID (Message.sessionKey req) req.header.msgID))
  else if Syncml.isPackageOne req = false then
    pure (.error (.notPackageOne (Message.sessionKey req)))
  else do
    let start ← perform Op.now
    let addr ← perform Op.newMaps
    let now ← perform Op.now
    pure (.ok ((newSession req id addr start).arrive req t now))

def session (req : Message) (id : Identity) (t : Option Transport) :
    Program Op Ans (Except Err Session) := do
  let got ← perform (Op.getSession (Message.sessionKey req))
  match ofEnrollment id got with
  | .ok sess => continueSession req t sess
  | .error .notFound => openSession req id t
  | .error e => pure (.error (.session e))

inductive AuthOutcome where
  | trusted | challenge | rejected
  deriving DecidableEq

/-- The clock is read only for a record that expires. -/
def readNonce : Except StoreError NonceRecord → Program Op Ans Bytes
  | .error _ => pure []
  | .ok rec =>
    if rec.expiresAt = 0 then pure rec.value
    else do
      let now ← perform Op.now
      pure (if rec.current now then rec.value else [])

/-- `currentNonce`; empty for nil. -/
def currentNonce (deviceID : GoString) : Program Op Ans Bytes := do
  let got ← perform (Op.nonceGet (nonceKey deviceID))
  readNonce got

/-- The certificate check of `authenticate`. -/
def certificateTrusted (id : Identity) (t : Option Transport) : Program Op Ans Bool :=
  if verifiedPeerChains t = [] then pure false
  else perform (Op.trustCertificate id (verifiedPeerChains t))

def Session.dropCertificate (sess : Session) : Session :=
  if sess.authType = some .certificate then { sess with authenticated := false, authType := none }
  else sess

/-- The application-layer half of `authenticate`. -/
def authenticateCred (cfg : Config) (req : Message) (id : Identity) (sess : Session) :
    Program Op Ans (AuthOutcome × Session) :=
  if id.authType = .basic ∧ cfg.allowBasic = false then pure (.challenge,sess)
  else do
    let nonce ← currentNonce id.deviceID
    match req.header.cred with
    | none => pure (.challenge,sess)
    | some cred =>
      if verifyCredential cfg.crypto id cred nonce then
        pure (.trusted,{ sess with authenticated := true, authType := some id.authType })
      else pure (.rejected,sess)

def authenticate (cfg : Config) (req : Message) (id : Identity) (sess : Session)
    (t : Option Transport) : Program Op Ans (AuthOutcome × Session) :=
  if sess.authenticated ∧ sess.authType ≠ some .certificate then pure (.trusted,sess)
  else do
    let trusted ← certificateTrusted id t
    if trusted then
      pure (.trusted,{ sess with authenticated := true, authType := some .certificate })
    else authenticateCred cfg req id sess.dropCertificate

def issueNonce (cfg : Config) (deviceID : GoString) : Eng Bytes := do
  let nonce ← operate Op.newNonce
  let stored ← operate (Op.nonceUpdate (nonceKey deviceID) nonce cfg.nonceTTL)
  Eng.orFail Err.auth stored
  pure nonce

def challengeCode : AuthOutcome → Syncml.StatusCode
  | .rejected => Syncml.statusInvalidCredentials
  | _ => Syncml.statusAuthenticationRequired

def Work.challenge (w : Work) (req : Message) (outcome : AuthOutcome) (chal : Syncml.Chal) : Work :=
  let w := w.reply fun cid =>
    .status { Syncml.statusForHeader req cid (challengeCode outcome) with chal := some chal }
  { w with sess := { w.sess with challenged := w.sess.challenged+1 } }

def challenge (cfg : Config) (req : Message) (id : Identity) (outcome : AuthOutcome) : Eng Unit :=
  if id.authType = .basic then update (·.challenge req outcome Syncml.newBasicChal)
  else do
    let nonce ← issueNonce cfg id.deviceID
    update (·.challenge req outcome (Syncml.newMD5Chal (base64Encode nonce)))

def isConsumedEvent (it : Item) : Bool :=
  match it.metinf with
  | some m =>
    m.type ∈ [Syncml.alertTypeLoginStatus,Syncml.alertTypeSyncType,Syncml.alertTypeDevicePrepSync]
  | none => false

def isUnenrollAlert (it : Item) : Bool :=
  match it.metinf with
  | some m => equalFold m.type Syncml.alertTypeUnenrollmentUserRequest
  | none => false

def alertEvent (sess : Session) (code : Syncml.AlertCode) (it : Item) : Event where
  deviceID := sess.deviceID
  sessionID := sess.sessionID
  alert := code
  type := (it.metinf.map Syncml.Meta.type).getD []
  data := Syncml.textOf it.data
  mark := (it.metinf.map Syncml.Meta.mark).getD []
  source := it.source

def Work.setSess (w : Work) (f : Session → Session) : Work := { w with sess := f w.sess }

def Session.noteUnenroll (sess : Session) (it : Item) : Session :=
  if isUnenrollAlert it then { sess with closed := true, unenroll := true } else sess

def alertItem (code : Syncml.AlertCode) (it : Item) : Eng Unit := do
  let w ← locals
  if code = Syncml.alertGeneric then do
    Eng.hook (.genericAlert (alertEvent w.sess code it))
    update (·.setSess (·.noteUnenroll it))
  else if code = Syncml.alertClientEvent ∧ isConsumedEvent it = false then
    Eng.hook (.clientEvent (alertEvent w.sess code it))
  else pure ()

def alertItems (code : Syncml.AlertCode) : List Item → Eng Unit
  | [] => pure ()
  | it :: rest => do
    alertItem code it
    alertItems code rest

def alertStatus (sess : Session) (a : Alert) (cid : GoString) : Syncml.Status where
  cmdID := cid
  msgRef := itoa sess.clientMsgID
  cmdRef := a.cmdID
  cmd := Syncml.cmdAlert
  data := { value := itoa Syncml.statusOK }

def Session.resetUpload (sess : Session) : Session :=
  { sess with assembler := sess.assembler.map Syncml.Assembler.reset, assemblingCommand := [] }

def handleAlert (cfg : Config) (a : Alert) : Eng Unit := do
  update fun w => w.reply fun cid => .status (alertStatus w.sess a cid)
  if a.code ∈ [Syncml.alertNextMessage,Syncml.alertServerInitiated,Syncml.alertClientInitiated] then
    pure ()
  else if a.code = Syncml.alertSessionAbort then update (·.setSess fun s => { s with closed := true })
  else if a.code = Syncml.alertNoEndOfData then update (·.setSess Session.resetUpload)
  else if cfg.hooks then alertItems a.code a.items
  else pure ()

/-- One pass of the first loop of `ackAndFile`. -/
def ackCommand (cfg : Config) (req : Message) : Syncml.Command → Eng Unit
  | .status _ => pure ()
  | .results res => do
    let w ← locals
    update (·.setSess fun sess => (fileResults cfg.maxRequestSize sess res).2)
    match (fileResults cfg.maxRequestSize w.sess res).1 with
    | .ok _ => pure ()
    | .error e => fail (.chunk e)
  | .alert a => handleAlert cfg a
  | c => update fun w => w.reply fun cid => .status (Syncml.statusFor req c cid Syncml.statusOK)

def ackCommands (cfg : Config) (req : Message) : List Syncml.Command → Eng Unit
  | [] => pure ()
  | c :: cs => do
    ackCommand cfg req c
    ackCommands cfg req cs

def eventFact (facts : Facts) (it : Item) : Facts :=
  match it.metinf with
  | none => facts
  | some m =>
    if m.type = Syncml.alertTypeSyncType then { facts with syncType := Syncml.textOf it.data }
    else if m.type = Syncml.alertTypeDevicePrepSync then
      { facts with devicePrepSync := Syncml.textOf it.data }
    else facts

def Facts.record (facts : Facts) (req : Message) : Facts :=
  let facts :=
    { facts with
      devInfo := (Syncml.devInfo req).foldl (fun m kv => m.insert kv.1 kv.2) ∅
      loginStatus := Syncml.loginStatus req }
  (req.body.alerts.flatMap Syncml.Alert.clientEventItems).foldl eventFact facts

def internalID (sess : Session) (name : GoString) : GoString :=
  "mdm-internal/" ++ sess.deviceID ++ "/" ++ name

def firstReadURIs : List GoString :=
  ["./DevDetail/SwV","./DevDetail/LrgObj","./DevDetail/URI/MaxSegLen",
    "./Device/Vendor/MSFT/DeviceManageability/Capabilities/CSPVersions"]

def hexDigit (n : Nat) : UInt8 := if n < 10 then (48+n).toUInt8 else (55+n).toUInt8

def pathSafe (b : UInt8) : Bool :=
  let n := b.toNat
  (65 ≤ n && n ≤ 90) || (97 ≤ n && n ≤ 122) || isDigit b || (utf8 "-_.~$&+:=@").contains b

def pathEscape (s : GoString) : GoString :=
  s.flatMap fun b => if pathSafe b then [b] else [37,hexDigit (b.toNat/16),hexDigit (b.toNat%16)]

def channelReadURIs (providerID : GoString) : List GoString :=
  let node : GoString := "./Device/Vendor/MSFT/DMClient/Provider/"
  [node ++ pathEscape providerID ++ "/Push/ChannelURI",
    node ++ pathEscape providerID ++ "/Push/Status"]

def enqueueRead (uris : List GoString) (id : GoString) : Eng (Except StoreError QueuedCommand) :=
  match newGet uris { id := id } with
  | .error e => fail (.command e)
  | .ok get => do
    let w ← locals
    let now ← operate Op.now
    operate (Op.enqueue w.sess.deviceID { get with internal := true } now)

def channelReads : List GoString → Eng Unit
  | [] => pure ()
  | uri :: uris => do
    let r ← enqueueRead [uri] []
    let _ ← Eng.orFail Err.store r
    channelReads uris

def unlessConflict : Except StoreError QueuedCommand → Eng Unit
  | .ok _ => pure ()
  | .error .conflict => pure ()
  | .error e => fail (.store e)

def firstReads : Eng Unit := do
  let w ← locals
  let r ← enqueueRead firstReadURIs (internalID w.sess "first-reads")
  unlessConflict r

def queueFirstSessionReads (cfg : Config) : Eng Unit := do
  firstReads
  if cfg.providerID ≠ [] then channelReads (channelReadURIs cfg.providerID) else pure ()

def packageOneHook (cfg : Config) : Eng Unit := do
  let w ← locals
  if cfg.hooks then Eng.hook (.packageOne w.sess.deviceID w.sess.sessionID w.sess.facts)
  else pure ()

def Session.recordFacts (sess : Session) (req : Message) : Session :=
  { sess with facts := sess.facts.record req, gotPackageOne := true }

def recordPackageOne (cfg : Config) (req : Message) : Eng Unit := do
  update (·.setSess (·.recordFacts req))
  packageOneHook cfg
  let w ← locals
  if w.sess.closed then pure () else queueFirstSessionReads cfg

def ackAndFile (cfg : Config) (req : Message) : Eng Unit := do
  ackCommands cfg req req.body.commands
  update (·.setSess (fileStatuses · req.body.statuses))
  let w ← locals
  if Syncml.isPackageOne req ∧ w.sess.gotPackageOne = false then recordPackageOne cfg req
  else pure ()

/-- The delivery records. The loop makes no other call, so the clock can be
read for them after it. -/
def stamp (msgID : GoString) : List GoString → Eng (List Delivery)
  | [] => pure []
  | id :: ids => do
    let now ← operate Op.now
    let rest ← stamp msgID ids
    pure ({ commandID := id, msgID := msgID, time := now } :: rest)

def markDelivered (sent : List GoString) : Eng Unit :=
  if sent = [] then pure ()
  else do
    let w ← locals
    let deliveries ← stamp w.resp.header.msgID sent
    let r ← operate (Op.markSent w.sess.deviceID deliveries)
    Eng.orFail Err.store r

def Work.budget (w : Work) (cfg : Config) : Int :=
  cfg.maxMessageBytes-w.resp.body.commands.length*128

def deliver (cfg : Config) : Eng Unit := do
  let w ← locals
  if w.sess.uploadPending then update Work.askForMore
  else do
    let r ← operate (Op.deliverable w.sess.deviceID 256)
    let cmds ← Eng.orFail Err.store r
    update fun _ => (deliverLoop w (w.budget cfg) [] cmds).1
    markDelivered (deliverLoop w (w.budget cfg) [] cmds).2
    update fun w => w.setFinal w.sess.outgoing.isNone

def continueOrNext (cfg : Config) : Eng Unit := do
  let w ← locals
  match w.sess.nextChunk with
  | some (o,next,rest) => update (·.sendChunk o next rest)
  | none => deliver cfg

def Session.dropPending (sess : Session) (id : GoString) : Session :=
  { sess with results := sess.results.map (·.erase id) }

def PendingResult.result (pr : PendingResult) (status : Syncml.StatusCode) (now : Time) : Result where
  status := status
  originalError := pr.origErr
  items := pr.items
  children := pr.children
  receivedAt := now

/-- One pass of the loop of `flushResults`. -/
def flushOne (id : GoString) : Eng Unit := do
  let w ← locals
  match (w.sess.pendingOf id).status with
  | none => pure ()
  | some status => do
    let now ← operate Op.now
    let r ← operate (Op.storeResult w.sess.deviceID id ((w.sess.pendingOf id).result status now))
    Eng.orFail Err.store r
    update (·.setSess (·.dropPending id))

def flushLoop : List GoString → Eng Unit
  | [] => pure ()
  | id :: ids => do
    flushOne id
    flushLoop ids

def flushResults : Eng Unit := do
  let w ← locals
  let order ← operate (Op.rangeOrder (w.sess.results.getD ∅).keys)
  flushLoop order

def onlyHeaderStatus (resp : Message) : Bool :=
  match resp.body.commands with
  | [.status st] => st.cmdRef = utf8 "0"
  | _ => false

def Work.ending (w : Work) : Bool := w.sess.closed || (w.resp.body.final && !w.sess.hasWork)

def encodeReply (ending : Bool) (resp : Message) : Eng (Option Message) :=
  if ending && onlyHeaderStatus resp then pure none
  else
    match Syncml.encode [] resp with
    | .ok _ => pure (some resp)
    | .error e => fail (.encode e)

def unenrolledHook (cfg : Config) : Eng Unit := do
  let w ← locals
  if w.sess.unenroll && cfg.hooks then Eng.hook (.unenrolled w.sess.deviceID) else pure ()

def storeSession (cfg : Config) : Eng Unit := do
  let w ← locals
  if w.ending then do
    let r ← operate (Op.deleteSession w.sess.key)
    Eng.orFail Err.store r
    unenrolledHook cfg
  else do
    let r ← operate (Op.putSession w.sess)
    Eng.orFail Err.store r
    update fun w => { w with popped := false }

def Work.advance (w : Work) : Work :=
  { w with sess := { w.sess with serverMsgID := atoiValue w.resp.header.msgID } }

/-- `finish`, after the build error has been passed on. The reply is kept as
the message that is encoded. -/
def finish (cfg : Config) : Eng (Option Message) := do
  flushResults
  update Work.advance
  storeSession cfg
  let w ← locals
  encodeReply w.ending w.resp

def complete (cfg : Config) (req : Message) : Eng Unit := do
  let w ← locals
  if w.sess.closed then update (·.setFinal true)
  else if Syncml.isNextMessageRequest req ∧ req.body.statuses.length ≤ 1 then continueOrNext cfg
  else deliver cfg

def answer (cfg : Config) (req : Message) : Eng Unit := do
  update fun w => w.reply fun cid => .status (Syncml.statusForHeader req cid Syncml.statusOK)
  ackAndFile cfg req
  complete cfg req

def build (cfg : Config) (req : Message) (id : Identity) (outcome : AuthOutcome) : Eng Unit :=
  if outcome = .trusted then answer cfg req else challenge cfg req id outcome

def respond (cfg : Config) (req : Message) (id : Identity) (outcome : AuthOutcome) :
    Eng (Option Message) := do
  build cfg req id outcome
  finish cfg

def startWork (cfg : Config) (req : Message) (sess : Session) : Work where
  sess := sess
  resp := Syncml.newResponse req cfg.serverURL (itoa (sess.serverMsgID+1))

/-- What a call of `Handle` returns, with two of its variables: the outcome of
`authenticate` and the session at the end. -/
structure Handled where
  auth : Option AuthOutcome := none
  sess : Option Session := none
  reply : Except Err (Option Message)

def handOver (outcome : AuthOutcome) : Except Err (Option Message) × Work → Program Op Ans Handled
  | (.ok reply,w) => pure { auth := some outcome, sess := some w.sess, reply := .ok reply }
  | (.error e,w) => do
    let _ ← perform (Op.abandon w.sess w.popped)
    pure { auth := some outcome, sess := some w.sess, reply := .error e }

def handleIn (cfg : Config) (t : Option Transport) (req : Message) (id : Identity) :
    Except Err Session → Program Op Ans Handled
  | .error e => pure { reply := .error e }
  | .ok sess => do
    let auth ← authenticate cfg req id sess t
    let r ← respond cfg req id auth.1 (startWork cfg req auth.2)
    handOver auth.1 r

/-- `Handle` once the device has been looked up. -/
def handleFrom (cfg : Config) (t : Option Transport) (req : Message) :
    Option Identity → Program Op Ans Handled
  | none => pure { reply := .error (.lookup req.header.source.locURI) }
  | some id => do
    let opened ← session req id t
    handleIn cfg t req id opened

/-- `Handle`, from the decoded request on. -/
def handle (cfg : Config) (t : Option Transport) (req : Message) : Program Op Ans Handled :=
  if Syncml.validate req ≠ [] then pure { reply := .error (.invalidRequest (Syncml.validate req)) }
  else do
    let found ← perform (Op.lookup req.header.source.locURI)
    handleFrom cfg t req found

end MicrosoftDM.Mdm
