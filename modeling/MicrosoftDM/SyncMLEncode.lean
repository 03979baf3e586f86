import MicrosoftDM.SyncMLMessage

/-! The XML writer of mdmprotocol/syncml/encode.go. `ind` is the indent of
`EncodeOptions` and `d` the depth of the writer; the service writes the
compact form, whose indent is empty. -/

set_option autoImplicit false

namespace MicrosoftDM.Syncml

inductive EncodeError where
  | dataConflict
  deriving DecidableEq

def isInCharacterRange (r : Nat) : Bool :=
  r == 0x09 || r == 0x0A || r == 0x0D || (0x20 ≤ r && r ≤ 0xD7FF) ||
  (0xE000 ≤ r && r ≤ 0xFFFD) || (0x10000 ≤ r && r ≤ 0x10FFFF)

def escapeRune (r : Nat) (bytes : GoString) : GoString :=
  if r = 34 then "&#34;"
  else if r = 39 then "&#39;"
  else if r = 38 then "&amp;"
  else if r = 60 then "&lt;"
  else if r = 62 then "&gt;"
  else if r = 9 then "&#x9;"
  else if r = 10 then "&#xA;"
  else if r = 13 then "&#xD;"
  else if isInCharacterRange r = false ∨ (r = runeError ∧ bytes.length = 1) then [0xEF,0xBF,0xBD]
  else bytes

def escapeText (s : GoString) : GoString := (runes s).flatMap fun r => escapeRune r.1 r.2

abbrev Attr := GoString × GoString

def pad (ind : GoString) (d : Nat) : GoString := (List.replicate d ind).flatten

def newline (ind : GoString) : GoString := if ind = [] then [] else [10]

def writeAttrs (attrs : List Attr) : GoString :=
  attrs.flatMap fun a => utf8 " " ++ a.1 ++ "=\"" ++ escapeText a.2 ++ "\""

def openTag (ind : GoString) (d : Nat) (name : GoString) (attrs : List Attr) : GoString :=
  pad ind d ++ "<" ++ name ++ writeAttrs attrs ++ ">" ++ newline ind

def closeTag (ind : GoString) (d : Nat) (name : GoString) : GoString :=
  pad ind d ++ "</" ++ name ++ ">" ++ newline ind

def emptyTag (ind : GoString) (d : Nat) (name : GoString) : GoString :=
  pad ind d ++ "<" ++ name ++ "/>" ++ newline ind

def writeText (ind : GoString) (d : Nat) (name value : GoString) (attrs : List Attr) : GoString :=
  pad ind d ++ "<" ++ name ++ writeAttrs attrs ++ ">" ++ escapeText value ++ "</" ++ name ++ ">" ++
    newline ind

def textIf (ind : GoString) (d : Nat) (name value : GoString) : GoString :=
  if value ≠ [] then writeText ind d name value [] else []

def emptyIf (ind : GoString) (d : Nat) (name : GoString) (b : Bool) : GoString :=
  if b then emptyTag ind d name else []

def element (ind : GoString) (d : Nat) (name : GoString) (attrs : List Attr) (content : GoString) :
    GoString := openTag ind d name attrs ++ content ++ closeTag ind d name

def namespaceMetInf : GoString := "syncml:metinf"
def namespaceMSFT : GoString := "http://schemas.microsoft.com/MobileDevice/MDM"

def metaText (ind : GoString) (d : Nat) (name value : GoString) : GoString :=
  if value ≠ [] then writeText ind d name value [("xmlns",namespaceMetInf)] else []

def metaNumber (ind : GoString) (d : Nat) (name : GoString) (n : Int) : GoString :=
  if n ≠ 0 then writeText ind d name (itoa n) [("xmlns",namespaceMetInf)] else []

def writeMeta (ind : GoString) (d : Nat) : Option Meta → GoString
  | none => []
  | some m =>
    element ind d "Meta" []
      (metaText ind (d+1) "Format" m.format ++ metaText ind (d+1) "Type" m.type ++
       metaText ind (d+1) "Mark" m.mark ++ metaNumber ind (d+1) "Size" m.size ++
       metaText ind (d+1) "NextNonce" m.nextNonce ++
       metaNumber ind (d+1) "MaxMsgSize" m.maxMsgSize ++
       metaNumber ind (d+1) "MaxObjSize" m.maxObjSize)

def writeCred (ind : GoString) (d : Nat) : Option Cred → GoString
  | none => []
  | some c =>
    element ind d "Cred" []
      (writeMeta ind (d+1) (some c.metinf) ++ writeText ind (d+1) "Data" c.data [])

def writeChal (ind : GoString) (d : Nat) : Option Chal → GoString
  | none => []
  | some c => element ind d "Chal" [] (writeMeta ind (d+1) (some c.metinf))

def writeLocation (ind : GoString) (d : Nat) (name : GoString) (l : Location) : GoString :=
  element ind d name []
    (writeText ind (d+1) "LocURI" l.locURI [] ++ textIf ind (d+1) "LocName" l.locName)

def writeHeader (ind : GoString) (d : Nat) (h : Header) : GoString :=
  element ind d "SyncHdr" []
    (writeText ind (d+1) "VerDTD" h.verDTD [] ++ writeText ind (d+1) "VerProto" h.verProto [] ++
     writeText ind (d+1) "SessionID" h.sessionID [] ++ writeText ind (d+1) "MsgID" h.msgID [] ++
     writeLocation ind (d+1) "Target" h.target ++ writeLocation ind (d+1) "Source" h.source ++
     textIf ind (d+1) "RespURI" h.respURI ++ emptyIf ind (d+1) "NoResp" h.noResp ++
     writeCred ind (d+1) h.cred ++ writeMeta ind (d+1) h.metinf)

def writeData (ind : GoString) (d : Nat) (x : Data) : Except EncodeError GoString :=
  if x.value ≠ [] ∧ x.xml ≠ [] then .error .dataConflict
  else
    let attrs : List Attr :=
      if x.originalError ≠ [] then [("msft:originalerror",x.originalError)] else []
    if x.xml = [] then .ok (writeText ind d "Data" x.value attrs)
    else .ok (element ind d "Data" attrs (pad ind (d+1) ++ trimSpace x.xml ++ newline ind))

def writeLocURI (ind : GoString) (d : Nat) (name uri : GoString) : GoString :=
  if uri ≠ [] then element ind d name [] (writeText ind (d+1) "LocURI" uri []) else []

def writeItem (ind : GoString) (d : Nat) (it : Item) : Except EncodeError GoString := do
  let data ← match it.data with
    | some x => writeData ind (d+1) x
    | none => .ok []
  return element ind d "Item" []
    (writeLocURI ind (d+1) "Target" it.target ++ writeLocURI ind (d+1) "Source" it.source ++
     writeMeta ind (d+1) it.metinf ++ data ++ emptyIf ind (d+1) "MoreData" it.moreData)

def writeItems (ind : GoString) (d : Nat) : List Item → Except EncodeError GoString
  | [] => .ok []
  | it :: rest => do
    let first ← writeItem ind d it
    let others ← writeItems ind d rest
    return first ++ others

/-- Add, Replace, Delete, Get and Exec. Lang is empty but for a Get and
Correlator but for an Exec, so one order serves the five. -/
def writeLeaf (ind : GoString) (d : Nat) (v : Verb) (n : Leaf) : Except EncodeError GoString := do
  let items ← writeItems ind (d+1) n.items
  return element ind d v.name []
    (writeText ind (d+1) "CmdID" n.cmdID [] ++ emptyIf ind (d+1) "NoResp" n.noResp ++
     (if v = .get then textIf ind (d+1) "Lang" n.lang else []) ++ writeCred ind (d+1) n.cred ++
     writeMeta ind (d+1) n.metinf ++
     (if v = .exec then textIf ind (d+1) "Correlator" n.correlator else []) ++ items)

def writeAlert (ind : GoString) (d : Nat) (n : Alert) : Except EncodeError GoString := do
  let items ← writeItems ind (d+1) n.items
  return element ind d cmdAlert []
    (writeText ind (d+1) "CmdID" n.cmdID [] ++ emptyIf ind (d+1) "NoResp" n.noResp ++
     writeCred ind (d+1) n.cred ++ textIf ind (d+1) "Data" n.data ++
     textIf ind (d+1) "Correlator" n.correlator ++ items)

def writeStatus (ind : GoString) (d : Nat) (n : Status) : Except EncodeError GoString := do
  let data ← writeData ind (d+1) n.data
  let items ← writeItems ind (d+1) n.items
  return element ind d cmdStatus []
    (writeText ind (d+1) "CmdID" n.cmdID [] ++ writeText ind (d+1) "MsgRef" n.msgRef [] ++
     writeText ind (d+1) "CmdRef" n.cmdRef [] ++ writeText ind (d+1) "Cmd" n.cmd [] ++
     n.targetRef.flatMap (fun r => writeText ind (d+1) "TargetRef" r []) ++
     n.sourceRef.flatMap (fun r => writeText ind (d+1) "SourceRef" r []) ++
     writeCred ind (d+1) n.cred ++ writeChal ind (d+1) n.chal ++ data ++ items)

def writeResults (ind : GoString) (d : Nat) (n : Results) : Except EncodeError GoString := do
  let items ← writeItems ind (d+1) n.items
  return element ind d cmdResults []
    (writeText ind (d+1) "CmdID" n.cmdID [] ++ textIf ind (d+1) "MsgRef" n.msgRef ++
     writeText ind (d+1) "CmdRef" n.cmdRef [] ++ textIf ind (d+1) "Cmd" n.cmd ++
     writeMeta ind (d+1) n.metinf ++ textIf ind (d+1) "TargetRef" n.targetRef ++
     textIf ind (d+1) "SourceRef" n.sourceRef ++ items)

mutual
def writeCommand (ind : GoString) (d : Nat) : Command → Except EncodeError GoString
  | .leaf v n => writeLeaf ind d v n
  | .group kind id noResp mt cs => do
    let members ← writeCommands ind (d+1) cs
    return element ind d kind.name []
      (writeText ind (d+1) "CmdID" id [] ++ emptyIf ind (d+1) "NoResp" noResp ++
       writeMeta ind (d+1) mt ++ members)
  | .alert n => writeAlert ind d n
  | .status n => writeStatus ind d n
  | .results n => writeResults ind d n

def writeCommands (ind : GoString) (d : Nat) : List Command → Except EncodeError GoString
  | [] => .ok []
  | c :: cs => do
    let first ← writeCommand ind d c
    let others ← writeCommands ind d cs
    return first ++ others
end

def writeBody (ind : GoString) (d : Nat) (b : Body) : Except EncodeError GoString := do
  let commands ← writeCommands ind (d+1) b.commands
  return element ind d "SyncBody"
    (if b.msftNamespace then [("xmlns:msft",namespaceMSFT)] else [])
    (commands ++ emptyIf ind (d+1) "Final" b.final)

/-- `Encode` without the XML declaration. -/
def encode (ind : GoString) (m : Message) : Except EncodeError GoString := do
  let ns := if m.xmlns = namespaceSyncML11 then namespaceSyncML11 else namespaceSyncML12
  let body ← writeBody ind 1 m.body
  return element ind 0 "SyncML" [("xmlns",ns)] (writeHeader ind 1 m.header ++ body)

def encodeCommand (ind : GoString) (c : Command) : Except EncodeError GoString :=
  writeCommand ind 0 c

def Data.encodes (x : Data) : Bool := decide (x.value = []) || decide (x.xml = [])

def Item.encodes (it : Item) : Bool :=
  match it.data with
  | some x => x.encodes
  | none => true

mutual
def Command.encodes : Command → Bool
  | .leaf _ n => n.items.all Item.encodes
  | .group _ _ _ _ cs => allEncode cs
  | .alert n => n.items.all Item.encodes
  | .status n => n.data.encodes && n.items.all Item.encodes
  | .results n => n.items.all Item.encodes

def allEncode : List Command → Bool
  | [] => true
  | c :: cs => c.encodes && allEncode cs
end

theorem allEncode_iff (cs : List Command) : allEncode cs = true ↔ ∀ c ∈ cs, c.encodes = true := by
  induction cs with
  | nil => simp [allEncode]
  | cons c cs ih => simp [allEncode,ih]

section Writing
variable {ind : GoString} {d : Nat}

theorem wrap_ok_iff {α β : Type} (e : Except EncodeError α) (f : α → β) :
    (∃ b, (do let x ← e; return f x : Except EncodeError β) = .ok b) ↔ ∃ x, e = .ok x := by
  cases e with
  | error e => simp [bind,Except.bind]
  | ok x => simp [bind,Except.bind,pure,Except.pure]

theorem wrap₂_ok_iff {α β γ : Type} (e : Except EncodeError α) (e' : Except EncodeError β)
    (f : α → β → γ) :
    (∃ b, (do let x ← e; let y ← e'; return f x y : Except EncodeError γ) = .ok b) ↔
      (∃ x, e = .ok x) ∧ ∃ y, e' = .ok y := by
  cases e with
  | error e => simp [bind,Except.bind]
  | ok x =>
    cases e' with
    | error e => simp [bind,Except.bind]
    | ok y => simp [bind,Except.bind,pure,Except.pure]

theorem writeData_ok_iff (x : Data) : (∃ b, writeData ind d x = .ok b) ↔ x.encodes = true := by
  unfold writeData Data.encodes
  by_cases hv : x.value = []
  · simp only [hv,ne_eq,not_true_eq_false,false_and,if_false,decide_true,Bool.true_or,iff_true]
    split <;> exact ⟨_,rfl⟩
  by_cases hx : x.xml = []
  · simp [hx]
  · simp [hv,hx]

theorem writeItem_ok_iff (it : Item) : (∃ b, writeItem ind d it = .ok b) ↔ it.encodes = true := by
  unfold writeItem Item.encodes
  cases it.data with
  | none => exact ⟨fun _ => rfl,fun _ => ⟨_,rfl⟩⟩
  | some x => exact (wrap_ok_iff _ _).trans (writeData_ok_iff x)

theorem writeItems_ok_iff (items : List Item) :
    (∃ b, writeItems ind d items = .ok b) ↔ items.all Item.encodes = true := by
  induction items with
  | nil => exact ⟨fun _ => rfl,fun _ => ⟨_,rfl⟩⟩
  | cons it items ih =>
    rw [List.all_cons,Bool.and_eq_true,← ih,← @writeItem_ok_iff ind d it]
    exact wrap₂_ok_iff _ _ _

end Writing

mutual
theorem writeCommand_ok_iff (ind : GoString) (d : Nat) (c : Command) :
    (∃ b, writeCommand ind d c = .ok b) ↔ c.encodes = true := by
  cases c with
  | leaf v n => exact (wrap_ok_iff _ _).trans (writeItems_ok_iff n.items)
  | group k i n m cs =>
    rw [writeCommand,Command.encodes]
    exact (wrap_ok_iff _ _).trans (writeCommands_ok_iff ind (d+1) cs)
  | alert n => exact (wrap_ok_iff _ _).trans (writeItems_ok_iff n.items)
  | status n =>
    rw [Command.encodes,Bool.and_eq_true,← @writeData_ok_iff ind (d+1),← @writeItems_ok_iff ind (d+1)]
    exact wrap₂_ok_iff _ _ _
  | results n => exact (wrap_ok_iff _ _).trans (writeItems_ok_iff n.items)

theorem writeCommands_ok_iff (ind : GoString) (d : Nat) (cs : List Command) :
    (∃ b, writeCommands ind d cs = .ok b) ↔ allEncode cs = true := by
  cases cs with
  | nil => exact ⟨fun _ => rfl,fun _ => ⟨_,rfl⟩⟩
  | cons c cs =>
    rw [writeCommands,allEncode,Bool.and_eq_true,← writeCommand_ok_iff ind d c,
      ← writeCommands_ok_iff ind d cs]
    exact wrap₂_ok_iff _ _ _
end

theorem encode_ok_iff (ind : GoString) (m : Message) :
    (∃ b, encode ind m = .ok b) ↔ ∀ c ∈ m.body.commands, c.encodes = true := by
  refine (wrap_ok_iff _ _).trans ((wrap_ok_iff _ _).trans ?_)
  rw [writeCommands_ok_iff,allEncode_iff]

end MicrosoftDM.Syncml
