import MicrosoftDM.GoText

/-!
The SyncML message of mdmprotocol/syncml (message.go, constants.go,
response.go): header, commands, codes, and the replies built from them.
-/

set_option autoImplicit false

namespace MicrosoftDM.Syncml

def namespaceSyncML12 : GoString := "SYNCML:SYNCML1.2"
def namespaceSyncML11 : GoString := "SYNCML:SYNCML1.1"
def verDTD : GoString := "1.2"
def verProto : GoString := "DM/1.2"

def cmdAdd : GoString := "Add"
def cmdAlert : GoString := "Alert"
def cmdAtomic : GoString := "Atomic"
def cmdDelete : GoString := "Delete"
def cmdExec : GoString := "Exec"
def cmdGet : GoString := "Get"
def cmdReplace : GoString := "Replace"
def cmdResults : GoString := "Results"
def cmdSequence : GoString := "Sequence"
def cmdStatus : GoString := "Status"
def cmdSyncHdr : GoString := "SyncHdr"

abbrev AlertCode := Int

def alertServerInitiated : AlertCode := 1200
def alertClientInitiated : AlertCode := 1201
def alertNextMessage : AlertCode := 1222
def alertSessionAbort : AlertCode := 1223
def alertClientEvent : AlertCode := 1224
def alertNoEndOfData : AlertCode := 1225
def alertGeneric : AlertCode := 1226

def alertKnown (c : AlertCode) : Bool :=
  c ∈ [alertServerInitiated,alertClientInitiated,alertNextMessage,alertSessionAbort,
    alertClientEvent,alertNoEndOfData,alertGeneric]

def alertTypeLoginStatus : GoString := "com.microsoft/MDM/LoginStatus"
def alertTypeSyncType : GoString := "com.microsoft.mdm.synctype"
def alertTypeDevicePrepSync : GoString := "com.microsoft/MDM/DevicePrepSync"
def alertTypeUnenrollmentUserRequest : GoString := "com.microsoft:mdm.unenrollment.userrequest"
def loginStatusUser : GoString := "user"

abbrev StatusCode := Int

def statusOK : StatusCode := 200
def statusChunkedItemAccepted : StatusCode := 213
def statusInvalidCredentials : StatusCode := 401
def statusAuthenticationRequired : StatusCode := 407

def StatusCode.success (c : StatusCode) : Bool := 200 ≤ c && c < 300

def parseStatusCode (s : GoString) : Option StatusCode :=
  match atoi s with
  | some n => if n < 100 ∨ n > 999 then none else some n
  | none => none

def parseAlertCode (s : GoString) : Option AlertCode :=
  match atoi s with
  | some n => if n < 1000 ∨ n > 9999 then none else some n
  | none => none

def formatB64 : GoString := "b64"

def knownFormats : List GoString :=
  ["chr","int","node","bool","b64","null","xml","bin","time","date","float"]

def knownFormat (f : GoString) : Bool := f ∈ knownFormats

def authBasic : GoString := "syncml:auth-basic"
def authMD5 : GoString := "syncml:auth-md5"

def defaultMaxSize : Int := 8388608

structure Meta where
  format : GoString := []
  type : GoString := []
  mark : GoString := []
  size : Int := 0
  nextNonce : GoString := []
  maxMsgSize : Int := 0
  maxObjSize : Int := 0
  deriving DecidableEq

structure Data where
  value : GoString := []
  xml : GoString := []
  originalError : GoString := []
  deriving DecidableEq

def Data.text (d : Data) : GoString := if d.xml ≠ [] then d.xml else d.value

/-- `Text` on a pointer, which may be nil. -/
def textOf : Option Data → GoString
  | none => []
  | some d => d.text

structure Item where
  target : GoString := []
  source : GoString := []
  metinf : Option Meta := none
  data : Option Data := none
  moreData : Bool := false
  deriving DecidableEq

def Item.locURI (it : Item) : GoString := if it.target ≠ [] then it.target else it.source

structure Cred where
  metinf : Meta
  data : GoString
  deriving DecidableEq

structure Chal where
  metinf : Meta
  deriving DecidableEq

inductive Verb where
  | add | replace | delete | get | exec
  deriving DecidableEq

/-- The content of an Add, Replace, Delete, Get or Exec. Only a Get has a
Lang and only an Exec a Correlator. -/
structure Leaf where
  cmdID : GoString := []
  noResp : Bool := false
  lang : GoString := []
  cred : Option Cred := none
  metinf : Option Meta := none
  correlator : GoString := []
  items : List Item := []
  deriving DecidableEq

inductive GroupKind where
  | atomic | sequence
  deriving DecidableEq

structure Alert where
  cmdID : GoString
  noResp : Bool := false
  cred : Option Cred := none
  data : GoString
  correlator : GoString := []
  items : List Item := []
  deriving DecidableEq

structure Status where
  cmdID : GoString
  msgRef : GoString
  cmdRef : GoString
  cmd : GoString
  targetRef : List GoString := []
  sourceRef : List GoString := []
  cred : Option Cred := none
  chal : Option Chal := none
  data : Data
  items : List Item := []
  deriving DecidableEq

structure Results where
  cmdID : GoString
  msgRef : GoString := []
  cmdRef : GoString
  cmd : GoString := []
  metinf : Option Meta := none
  targetRef : GoString := []
  sourceRef : GoString := []
  items : List Item
  deriving DecidableEq

inductive Command where
  | leaf (verb : Verb) (body : Leaf)
  | group (kind : GroupKind) (cmdID : GoString) (noResp : Bool) (metinf : Option Meta)
      (commands : List Command)
  | alert (a : Alert)
  | status (s : Status)
  | results (r : Results)

def Verb.name : Verb → GoString
  | .add => cmdAdd
  | .replace => cmdReplace
  | .delete => cmdDelete
  | .get => cmdGet
  | .exec => cmdExec

def GroupKind.name : GroupKind → GoString
  | .atomic => cmdAtomic
  | .sequence => cmdSequence

def Command.name : Command → GoString
  | .leaf v _ => v.name
  | .group k _ _ _ _ => k.name
  | .alert _ => cmdAlert
  | .status _ => cmdStatus
  | .results _ => cmdResults

def Command.id : Command → GoString
  | .leaf _ b => b.cmdID
  | .group _ i _ _ _ => i
  | .alert a => a.cmdID
  | .status s => s.cmdID
  | .results r => r.cmdID

def Alert.code (a : Alert) : AlertCode := (parseAlertCode a.data).getD 0

def Status.code (s : Status) : StatusCode := (parseStatusCode s.data.value).getD 0

structure Location where
  locURI : GoString
  locName : GoString := []
  deriving DecidableEq

structure Header where
  verDTD : GoString
  verProto : GoString
  sessionID : GoString
  msgID : GoString
  target : Location
  source : Location
  respURI : GoString := []
  noResp : Bool := false
  cred : Option Cred := none
  metinf : Option Meta := none
  deriving DecidableEq

structure Body where
  commands : List Command := []
  final : Bool := false
  msftNamespace : Bool := false

structure Message where
  xmlns : GoString
  header : Header
  body : Body

def Command.alert? : Command → Option Alert
  | .alert a => some a
  | _ => none

def Command.status? : Command → Option Status
  | .status s => some s
  | _ => none

def Body.alerts (b : Body) : List Alert := b.commands.filterMap Command.alert?

def Body.statuses (b : Body) : List Status := b.commands.filterMap Command.status?

def Body.hasAlert (b : Body) (code : AlertCode) : Bool := b.alerts.any (fun a => a.code == code)

/- `Body.Walk` without its early stop: every command, groups before their members. -/
mutual
def Command.walk : Command → List Command
  | .group k i n m cs => .group k i n m cs :: walkAll cs
  | .leaf v b => [.leaf v b]
  | .alert a => [.alert a]
  | .status s => [.status s]
  | .results r => [.results r]

def walkAll : List Command → List Command
  | [] => []
  | c :: cs => c.walk ++ walkAll cs
end

theorem walkAll_eq_flatMap (cs : List Command) : walkAll cs = cs.flatMap Command.walk := by
  induction cs with
  | nil => rfl
  | cons c cs ih => simp [walkAll,ih]

def newResponse (req : Message) (serverURL msgID : GoString) : Message where
  xmlns := req.xmlns
  header :=
    { verDTD := verDTD, verProto := verProto, sessionID := req.header.sessionID, msgID := msgID,
      target := { locURI := req.header.source.locURI },
      source := { locURI := if serverURL = [] then req.header.target.locURI else serverURL } }
  body := {}

def statusForHeader (req : Message) (cmdID : GoString) (code : StatusCode) : Status where
  cmdID := cmdID
  msgRef := req.header.msgID
  cmdRef := "0"
  cmd := cmdSyncHdr
  data := { value := itoa code }

def statusFor (req : Message) (c : Command) (cmdID : GoString) (code : StatusCode) : Status where
  cmdID := cmdID
  msgRef := req.header.msgID
  cmdRef := c.id
  cmd := c.name
  data := { value := itoa code }

/-- One pass of the loop of `IsNextMessageRequest`: `none` when the message
holds another command, else whether an Alert 1222 was seen. -/
def nextMessageScan : List Command → Bool → Option Bool
  | [], found => some found
  | .status _ :: cs, found => nextMessageScan cs found
  | .alert a :: cs, _ => if a.code ≠ alertNextMessage then none else nextMessageScan cs true
  | .leaf .. :: _, _ => none
  | .group .. :: _, _ => none
  | .results _ :: _, _ => none

def isNextMessageRequest (m : Message) : Bool := (nextMessageScan m.body.commands false).getD false

def devInfoPrefix : GoString := "./DevInfo/"

def Command.replaceItems : Command → List Item
  | .leaf .replace b => b.items
  | _ => []

def Item.isDevInfo (it : Item) : Bool :=
  decide (it.source.length ≥ 10) && it.source.take 10 == devInfoPrefix

def isPackageOne (m : Message) : Bool :=
  (m.body.hasAlert alertClientInitiated || m.body.hasAlert alertServerInitiated) &&
  m.body.commands.any (fun c => c.replaceItems.any Item.isDevInfo)

/-- `DevInfo`: leaf name and value of every DevInfo item, in document order.
The Go map keeps the last value of a repeated name. -/
def devInfo (m : Message) : List (GoString × GoString) :=
  (m.body.commands.flatMap Command.replaceItems).filterMap fun it =>
    if it.source.length > 10 ∧ it.source.take 10 = devInfoPrefix then
      some (it.source.drop 10,textOf it.data)
    else none

def Item.hasType (it : Item) (t : GoString) : Bool :=
  match it.metinf with
  | some m => m.type == t
  | none => false

def Alert.clientEventItems (a : Alert) : List Item :=
  if a.code = alertClientEvent then a.items else []

def loginStatus (m : Message) : GoString :=
  match (m.body.alerts.flatMap Alert.clientEventItems).find?
      (fun it => it.hasType alertTypeLoginStatus) with
  | some it => textOf it.data
  | none => []

def newMD5Chal (nonce64 : GoString) : Chal :=
  ⟨{ type := authMD5, format := formatB64, nextNonce := nonce64 }⟩

def newBasicChal : Chal := ⟨{ type := authBasic, format := formatB64 }⟩

end MicrosoftDM.Syncml
