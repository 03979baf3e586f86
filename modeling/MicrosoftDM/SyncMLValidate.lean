import MicrosoftDM.GoMap
import MicrosoftDM.SyncMLMessage

set_option autoImplicit false

namespace MicrosoftDM.Syncml

inductive Rule where
  | version | sessionID | msgID | routing | emptyBody | cmdID | duplicateCmdID | items | locURI
  | alertCode | statusCode | statusRef | format | atomicNested | atomicGet
  | atomicAddThenReplace | auth
  deriving DecidableEq

/-- `msg` is the format text and `args` what `Sprintf` fills in. -/
structure ValidationError where
  rule : Rule
  path : GoString
  msg : GoString
  args : List GoString
  deriving DecidableEq

def checkSegments : List GoString → Option GoString
  | [] => none
  | seg :: segs =>
    if seg = [] then some "empty node name in LocURI"
    else if seg = utf8 "*" then some "node name cannot be only *"
    else checkSegments segs

/-- `CheckLocURI`; the text is the error. -/
def checkLocURI (uri : GoString) : Option GoString :=
  if uri = [] then some "empty LocURI"
  else if uri.head? = some slash then some "LocURI cannot start with /"
  else checkSegments (splitAt slash (uri.takeWhile (· ≠ 63)))

structure Validator where
  errs : List ValidationError := []
  /-- The path of the first use of each CmdID. -/
  ids : GoMap GoString := ∅

def Validator.fail (v : Validator) (rule : Rule) (path msg : GoString) (args : List GoString) :
    Validator := { v with errs := v.errs ++ [⟨rule,path,msg,args⟩] }

def Validator.failIf (v : Validator) (broken : Bool) (rule : Rule) (path msg : GoString)
    (args : List GoString) : Validator := if broken then v.fail rule path msg args else v

def Validator.cred (v : Validator) (c : Cred) (path : GoString) : Validator :=
  (v.failIf (c.metinf.type ≠ authBasic ∧ c.metinf.type ≠ authMD5) .auth (path ++ "/Meta/Type")
    "must be %s or %s; got %q" [authBasic,authMD5,c.metinf.type]).failIf
    (c.data = []) .auth (path ++ "/Data") "missing" []

def Validator.metinf (v : Validator) (m : Option Meta) (path : GoString) : Validator :=
  match m with
  | none => v
  | some m =>
    v.failIf (m.format ≠ [] ∧ knownFormat m.format = false) .format (path ++ "/Format")
      "unknown format %q" [m.format]

def Validator.header (v : Validator) (h : Header) (ns : GoString) : Validator :=
  let v := v.failIf (ns ≠ namespaceSyncML12 ∧ ns ≠ namespaceSyncML11) .version "SyncML"
    "xmlns must be %s (or %s); got %q" [namespaceSyncML12,namespaceSyncML11,ns]
  let v := v.failIf (h.verDTD ≠ verDTD) .version "SyncHdr/VerDTD" "must be %q; got %q"
    [verDTD,h.verDTD]
  let v := v.failIf (h.verProto ≠ verProto) .version "SyncHdr/VerProto" "must be %q; got %q"
    [verProto,h.verProto]
  let v := v.failIf (h.sessionID = []) .sessionID "SyncHdr/SessionID" "missing" []
  let v := v.failIf (match atoi h.msgID with
      | some n => n < 1
      | none => true) .msgID "SyncHdr/MsgID" "must be a positive integer; got %q" [h.msgID]
  let v := v.failIf (h.target.locURI = []) .routing "SyncHdr/Target/LocURI" "missing" []
  let v := v.failIf (h.source.locURI = []) .routing "SyncHdr/Source/LocURI" "missing" []
  let v := match h.cred with
    | some c => v.cred c "SyncHdr/Cred"
    | none => v
  v.metinf h.metinf "SyncHdr/Meta"

def commandPath (path name id : GoString) : GoString :=
  path ++ "/" ++ name ++ "[" ++ id ++ "]"

def Validator.cmdID (v : Validator) (id p : GoString) : Validator :=
  if id = [] ∨ id = utf8 "0" then v.fail .cmdID p "CmdID must be present and not \"0\"" []
  else
    match v.ids.lookup id with
    | some first => v.fail .duplicateCmdID p "CmdID %q already used by %s" [id,first]
    | none => { v with ids := v.ids.insert id p }

def itemPath (path : GoString) (i : Nat) : GoString := path ++ "/Item[" ++ itoa i ++ "]"

def Validator.item (v : Validator) (it : Item) (ip : GoString) : Validator :=
  let v := if it.locURI = [] then v.fail .locURI ip "Item needs a Target or Source LocURI" []
    else
      match checkLocURI it.locURI with
      | some err => v.fail .locURI ip "%v: %q" [err,it.locURI]
      | none => v
  let v := v.metinf it.metinf (ip ++ "/Meta")
  v.failIf (match it.data with
    | some d => d.value ≠ [] ∧ d.xml ≠ []
    | none => false) .items (ip ++ "/Data") "has both Value and XML" []

def Validator.itemList (v : Validator) (path : GoString) : Nat → List Item → Validator
  | _, [] => v
  | i, it :: rest => (v.item it (itemPath path i)).itemList path (i+1) rest

def Validator.items (v : Validator) (items : List Item) (path : GoString)
    (minItems maxItems : Nat) : Validator :=
  let v := v.failIf (items.length < minItems) .items path "needs at least %d Item; got %d"
    [itoa minItems,itoa items.length]
  let v := v.failIf (maxItems > 0 ∧ items.length > maxItems) .items path
    "allows at most %d Item; got %d" [itoa maxItems,itoa items.length]
  v.itemList path 0 items

/-- Meta of the items of an Alert or a Status, whose LocURIs are not checked. -/
def Validator.itemMetas (v : Validator) (path : GoString) : Nat → List Item → Validator
  | _, [] => v
  | i, it :: rest =>
    (v.metinf it.metinf (itemPath path i ++ "/Meta")).itemMetas path (i+1) rest

def Validator.alertTypes (v : Validator) (code : AlertCode) (path : GoString) :
    Nat → List Item → Validator
  | _, [] => v
  | i, it :: rest =>
    (v.failIf (match it.metinf with
        | some m => m.type = []
        | none => true) .items (itemPath path i ++ "/Meta/Type") "alert %d Item needs Meta/Type"
      [itoa code]).alertTypes code path (i+1) rest

def Validator.alert (v : Validator) (n : Alert) (p : GoString) : Validator :=
  let code := n.code
  let v := v.failIf (alertKnown code = false) .alertCode (p ++ "/Data") "unknown alert code %q"
    [n.data]
  let v := if code = alertClientEvent ∨ code = alertGeneric then
      (v.failIf (n.items.length = 0) .items p "alert %d needs an Item" [itoa code]).alertTypes
        code p 0 n.items
    else v
  v.itemMetas p 0 n.items

def statusNames : List GoString :=
  [cmdSyncHdr,cmdAdd,cmdAlert,cmdAtomic,cmdDelete,cmdExec,cmdGet,cmdReplace,cmdResults,
    cmdSequence,cmdStatus]

def Validator.status (v : Validator) (n : Status) (p : GoString) : Validator :=
  let v := v.failIf (n.msgRef = []) .statusRef (p ++ "/MsgRef") "missing" []
  let v := v.failIf (n.cmdRef = []) .statusRef (p ++ "/CmdRef") "missing" []
  let v := v.failIf (n.cmd ∉ statusNames) .statusRef (p ++ "/Cmd") "unknown command name %q"
    [n.cmd]
  let v := v.failIf (n.cmdRef = utf8 "0" ∧ n.cmd ≠ cmdSyncHdr) .statusRef (p ++ "/Cmd")
    "CmdRef 0 must name SyncHdr; got %q" [n.cmd]
  let v := v.failIf ((parseStatusCode n.data.value).isNone) .statusCode (p ++ "/Data")
    "not a status code: %q" [n.data.value]
  let v := match n.chal with
    | some c => v.failIf (c.metinf.type ≠ authBasic ∧ c.metinf.type ≠ authMD5) .auth
        (p ++ "/Chal/Meta/Type") "must be %s or %s; got %q" [authBasic,authMD5,c.metinf.type]
    | none => v
  let v := match n.cred with
    | some c => v.cred c (p ++ "/Cred")
    | none => v
  v.itemMetas p 0 n.items

def Validator.results (v : Validator) (n : Results) (p : GoString) : Validator :=
  let v := v.failIf (n.cmdRef = []) .statusRef (p ++ "/CmdRef") "missing" []
  let v := v.failIf (n.msgRef ≠ [] ∧ (match atoi n.msgRef with
      | some k => decide (k < 1)
      | none => true) = true) .statusRef (p ++ "/MsgRef") "must be a positive integer; got %q"
    [n.msgRef]
  (v.items n.items p 1 0).metinf n.metinf (p ++ "/Meta")

def Verb.maxItems : Verb → Nat
  | .exec => 1
  | _ => 0

/-- Only Add and Replace have their command-level Meta checked. -/
def Verb.checksMeta : Verb → Bool
  | .add | .replace => true
  | _ => false

def Validator.leaf (v : Validator) (verb : Verb) (n : Leaf) (p : GoString) (inAtomic : Bool) :
    Validator :=
  let v := v.items n.items p 1 verb.maxItems
  let v := if verb.checksMeta then v.metinf n.metinf (p ++ "/Meta") else v
  v.failIf (verb = .get ∧ inAtomic) .atomicGet p "Get inside Atomic returns 500 on Windows" []

/-- `atomicAddReplace`: `added` holds the LocURIs of the Adds passed so far. -/
def Validator.atomicAddReplace (v : Validator) (path : GoString) :
    List GoString → List Command → Validator
  | _, [] => v
  | added, .leaf .add n :: cs => v.atomicAddReplace path (added ++ n.items.map Item.locURI) cs
  | added, .leaf .replace n :: cs =>
    (n.items.foldl (fun v it => v.failIf (it.locURI ∈ added) .atomicAddThenReplace
      (path ++ "/Replace[" ++ n.cmdID ++ "]")
      "Add then Replace on %q inside one Atomic is unsupported" [it.locURI]) v).atomicAddReplace
      path added cs
  | added, _ :: cs => v.atomicAddReplace path added cs

mutual
def Validator.command (v : Validator) (path : GoString) (inAtomic : Bool) : Command → Validator
  | .leaf verb n =>
    let p := commandPath path verb.name n.cmdID
    (v.cmdID n.cmdID p).leaf verb n p inAtomic
  | .group kind id _ _ cs =>
    let p := commandPath path kind.name id
    let v := v.cmdID id p
    match kind with
    | .atomic =>
      let v := v.failIf inAtomic .atomicNested p
        "nested Atomic returns 500 and the parent 507 on Windows" []
      let v := v.failIf (cs.length = 0) .items p "Atomic needs at least one command" []
      (v.atomicAddReplace p [] cs).commands p true cs
    | .sequence =>
      let v := v.failIf (cs.length = 0) .items p "Sequence needs at least one command" []
      v.commands p inAtomic cs
  | .alert n =>
    let p := commandPath path cmdAlert n.cmdID
    (v.cmdID n.cmdID p).alert n p
  | .status n =>
    let p := commandPath path cmdStatus n.cmdID
    (v.cmdID n.cmdID p).status n p
  | .results n =>
    let p := commandPath path cmdResults n.cmdID
    (v.cmdID n.cmdID p).results n p

def Validator.commands (v : Validator) (path : GoString) (inAtomic : Bool) :
    List Command → Validator
  | [] => v
  | c :: cs => (v.command path inAtomic c).commands path inAtomic cs
end

/-- `Validate`: every broken rule. -/
def validate (m : Message) : List ValidationError :=
  let v := Validator.header {} m.header m.xmlns
  let v := v.failIf (m.body.commands.length = 0) .emptyBody "SyncBody" "no commands" []
  (v.commands "SyncBody" false m.body.commands).errs

end MicrosoftDM.Syncml
