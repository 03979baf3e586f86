import MicrosoftDM.SyncMLEncode
import MicrosoftDM.Utf16Text
import MicrosoftDM.XmlForest

/-! The reader of mdmprotocol/syncml/decode.go: charsets, and the parser over
the elements of a document. -/

set_option autoImplicit false

namespace MicrosoftDM.Syncml

open Xml (XmlError Name Forest NameChars Charset)

/-- `panic` is no error value: it stands for the panic of a slice expression
out of range. -/
inductive DecodeError where
  | tooLarge (size : Nat) (limit : Int)
  | xml (e : XmlError)
  | syntaxError (element msg : GoString) (cause : Option DecodeError)
  /-- A syntax error whose message ends in a quoted text. -/
  | quoted (element msg text : GoString)
  | xmlns (ns : GoString)
  | unsupportedCommand (name : GoString)
  | unknownElement (name parent : GoString)
  | notUsed (name : GoString)
  | finalNotLast (name : GoString)
  | panic

def decodeUTF16 (raw : GoString) : GoString :=
  match raw with
  | 0xFE :: 0xFF :: rest => encodeRunes (decodeUnits (codeUnits true rest))
  | 0xFF :: 0xFE :: rest => encodeRunes (decodeUnits (codeUnits false rest))
  | a :: b :: _ => encodeRunes (decodeUnits (codeUnits (decide (a = 0 ∧ b ≠ 0)) raw))
  | _ => encodeRunes (decodeUnits (codeUnits false raw))

def transcodeUTF16 (data : GoString) : GoString :=
  match data with
  | a :: b :: _ =>
    if (a = 0xFE ∧ b = 0xFF) ∨ (a = 0xFF ∧ b = 0xFE) then decodeUTF16 data
    else if (a = 0 ∧ b = 60) ∨ (a = 60 ∧ b = 0) then decodeUTF16 data
    else data
  | _ => data

/-- `unicode.ToLower` where its result is ASCII; other runes are left. -/
def lowerRune (r : Nat) : Nat :=
  if r = 0x130 then 0x69 else if r = 0x212A then 0x6B else lowerASCII r

def labelled (label ascii : GoString) : Bool :=
  (runes (trimSpace label)).map (fun r => lowerRune r.1) == ascii.map UInt8.toNat

def utf8Labels : List GoString := ["","utf-8","utf8","us-ascii","ascii"]
def utf16Labels : List GoString := ["utf-16","utf-16le","utf-16be","utf16"]

/-- `charsetReader` on the bytes not read yet. -/
def charsetReader (label r : GoString) : Except XmlError GoString :=
  if utf8Labels.any (labelled label) then .ok r
  else if utf16Labels.any (labelled label) then
    let raw := r.take (defaultMaxSize.toNat+1)
    if (0 : UInt8) ∈ raw then .ok (decodeUTF16 raw) else .ok raw
  else .error (.charset label)

/-- Decoding at most doubles the bytes and uses up NULs. -/
def charsetWeight (s : GoString) : Nat := (s.length+1)*2^s.count 0

theorem decodeUTF16_eq (raw : GoString) :
    ∃ bigEndian rest, rest <:+ raw ∧
      decodeUTF16 raw = encodeRunes (decodeUnits (codeUnits bigEndian rest)) := by
  unfold decodeUTF16
  split
  · rename_i rest
    exact ⟨true,rest,⟨[0xFE,0xFF],rfl⟩,rfl⟩
  · rename_i rest
    exact ⟨false,rest,⟨[0xFF,0xFE],rfl⟩,rfl⟩
  · exact ⟨_,_,List.suffix_refl _,rfl⟩
  · exact ⟨_,_,List.suffix_refl _,rfl⟩

theorem charsetWeight_decodeUTF16 {raw : GoString} (h : (0 : UInt8) ∈ raw) :
    charsetWeight (decodeUTF16 raw) ≤ charsetWeight raw := by
  obtain ⟨bigEndian,rest,hs,he⟩ := decodeUTF16_eq raw
  have hlt := codeUnits_lt bigEndian rest
  have hlen := length_encodeRunes_decodeUnits hlt
  have hunits := length_codeUnits bigEndian rest
  have hzero := count_zero_codeUnits bigEndian rest
  have hl := hs.length_le
  have hc := hs.sublist.count_le (0 : UInt8)
  have hpos := List.count_pos_iff.mpr h
  unfold charsetWeight
  rw [he,count_zero_decodeUnits hlt]
  calc ((encodeRunes (decodeUnits (codeUnits bigEndian rest))).length+1)*
        2^(codeUnits bigEndian rest).count 0
      ≤ (2*(raw.length+1))*2^(raw.count 0-1) :=
        Nat.mul_le_mul (by omega) (Nat.pow_le_pow_right (by omega) (by omega))
    _ = (raw.length+1)*2^(raw.count 0-1+1) := by rw [Nat.pow_succ,Nat.mul_comm 2,Nat.mul_assoc,Nat.mul_comm 2]
    _ = (raw.length+1)*2^raw.count 0 := by rw [Nat.sub_add_cancel hpos]

theorem charsetWeight_take (n : Nat) (s : GoString) : charsetWeight (s.take n) ≤ charsetWeight s := by
  have hs := List.take_sublist n s
  exact Nat.mul_le_mul (Nat.succ_le_succ hs.length_le)
    (Nat.pow_le_pow_right (by omega) (hs.count_le 0))

/-- The decoder's `CharsetReader`. -/
def charset : Charset where
  change := charsetReader
  weight := charsetWeight
  weight_cons b s := by
    have hc : s.count 0 ≤ (b :: s).count 0 := (List.sublist_cons_self b s).count_le 0
    calc (s.length+1)*2^s.count 0 < (s.length+1+1)*2^s.count 0 :=
          Nat.mul_lt_mul_of_pos_right (Nat.lt_succ_self _) (Nat.two_pow_pos _)
      _ ≤ ((b :: s).length+1)*2^(b :: s).count 0 :=
          Nat.mul_le_mul (Nat.le_refl _) (Nat.pow_le_pow_right (by omega) hc)
  weight_change {label s s'} h := by
    unfold charsetReader at h
    split at h
    · cases h
      exact Nat.le_refl _
    split at h
    · dsimp only at h
      split at h
      · rename_i hz
        cases h
        exact Nat.le_trans (charsetWeight_decodeUTF16 hz) (charsetWeight_take _ s)
      · cases h
        exact charsetWeight_take _ s
    · cases h

section Parser

/-- What a token error or a non-blank text makes of the next element. -/
def unexpectedText (s : GoString) : DecodeError := .quoted [] "unexpected text " (trimSpace s)

def nextStart : Forest → Except DecodeError (Name × List Xml.Attr × Nat × Forest × Forest)
  | .closed _ => .error (.xml .eof)
  | .broken e => .error (.xml e)
  | .chars s rest => if trimSpace s = [] then nextStart rest else .error (unexpectedText s)
  | .other rest => nextStart rest
  | .element name attrs start kids rest => .ok (name,attrs,start,kids,rest)

def eachStart {σ : Type} (step : σ → Name → List Xml.Attr → Nat → Forest → Except DecodeError σ) :
    σ → Forest → Except DecodeError σ
  | st, .closed _ => .ok st
  | _, .broken e => .error (.xml e)
  | st, .chars s rest =>
    if trimSpace s = [] then eachStart step st rest else .error (unexpectedText s)
  | st, .other rest => eachStart step st rest
  | st, .element name attrs start kids rest =>
    match step st name attrs start kids with
    | .error e => .error e
    | .ok st => eachStart step st rest

def text (name : GoString) : Forest → Except DecodeError GoString
  | .closed _ => .ok []
  | .broken e => .error (.xml e)
  | .chars s rest => (text name rest).map (s ++ ·)
  | .other rest => text name rest
  | .element el _ _ _ _ =>
    .error (.syntaxError name ("unexpected child element " ++ el.localPart) none)

def trimmedText (name : GoString) (f : Forest) : Except DecodeError GoString :=
  (text name f).map trimSpace

def skipEmpty (name : GoString) (f : Forest) : Except DecodeError Unit :=
  match text name f with
  | .error e => .error e
  | .ok s => if trimSpace s = [] then .ok () else .error (.syntaxError name "must be empty" none)

def skip : Forest → Except DecodeError Nat
  | .closed offset => .ok offset
  | .broken e => .error (.xml e)
  | .chars _ rest => skip rest
  | .other rest => skip rest
  | .element _ _ _ kids rest =>
    match skip kids with
    | .error e => .error e
    | .ok _ => skip rest

/-- A case of the `switch` on a child's name. -/
structure Case (σ : Type) where
  name : GoString
  read : σ → List Xml.Attr → Nat → Forest → Except DecodeError σ

/-- The child's content goes to a parser of its own. -/
def Case.of {σ α : Type} (name : GoString) (parse : Forest → Except DecodeError α)
    (keep : σ → α → σ) : Case σ :=
  ⟨name,fun st _ _ kids => (parse kids).map (keep st)⟩

def Case.text {σ : Type} (name : GoString) (keep : σ → GoString → σ) : Case σ :=
  .of name (trimmedText name) keep

def Case.refuse {σ : Type} (name : GoString) (e : DecodeError) : Case σ :=
  ⟨name,fun _ _ _ _ => .error e⟩

/-- `eachStart` with a `switch`; the children without a case go to `other`. -/
def children {σ : Type} (other : GoString → Forest → σ → Except DecodeError σ)
    (cases : List (Case σ)) : σ → Forest → Except DecodeError σ :=
  eachStart fun st el attrs start kids =>
    match cases.find? (·.name == el.localPart) with
    | some c => c.read st attrs start kids
    | none => other el.localPart kids st

def known {σ : Type} (parent : GoString) : List (Case σ) → σ → Forest → Except DecodeError σ :=
  children fun name _ _ => .error (.unknownElement name parent)

def location (name : GoString) : Forest → Except DecodeError Location :=
  known name
    [.text "LocURI" fun l s => { l with locURI := s },
     .text "LocName" fun l s => { l with locName := s }]
    { locURI := [] }

def locURI (name : GoString) (f : Forest) : Except DecodeError GoString :=
  (location name f).map Location.locURI

def parseInt (el s : GoString) : Except DecodeError Int :=
  match atoi s with
  | some n => if n < 0 then .error (.quoted el "not a non-negative integer: " s) else .ok n
  | none => .error (.quoted el "not a non-negative integer: " s)

def sizeText (name el : GoString) (f : Forest) : Except DecodeError Int :=
  match trimmedText name f with
  | .error e => .error e
  | .ok s => parseInt el s

/-- `meta`; a child it does not know is skipped. -/
def readMeta : Forest → Except DecodeError Meta :=
  children (fun _ kids m => (skip kids).map fun _ => m)
    [.text "Format" fun m s => { m with format := s },
     .text "Type" fun m s => { m with type := s },
     .text "Mark" fun m s => { m with mark := s },
     .text "NextNonce" fun m s => { m with nextNonce := s },
     .of "Size" (sizeText "Size" "Meta/Size") fun m n => { m with size := n },
     .of "MaxMsgSize" (sizeText "MaxMsgSize" "Meta/MaxMsgSize") fun m n => { m with maxMsgSize := n },
     .of "MaxObjSize" (sizeText "MaxObjSize" "Meta/MaxObjSize") fun m n => { m with maxObjSize := n }]
    {}

def cred : Forest → Except DecodeError Cred :=
  known "Cred"
    [.of "Meta" readMeta fun c m => { c with metinf := m },
     .text "Data" fun c s => { c with data := s }]
    { metinf := {}, data := [] }

def chal : Forest → Except DecodeError Chal :=
  known "Chal" [.of "Meta" readMeta fun c m => { c with metinf := m }] { metinf := {} }

def hasMarkup : Forest → Bool
  | .closed _ => false
  | .broken _ => false
  | .chars _ rest => hasMarkup rest
  | .other rest => hasMarkup rest
  | .element _ _ _ _ _ => true

def attrOriginalError : GoString := "originalerror"

def attrValue (name : GoString) (attrs : List Xml.Attr) : GoString :=
  attrs.foldl (fun v a => if a.name.localPart = name then a.value else v) []

def data (src : GoString) (attrs : List Xml.Attr) (start : Nat) (kids : Forest) :
    Except DecodeError Data :=
  match skip kids with
  | .error e => .error e
  | .ok stop =>
    if hasMarkup kids then
      if stop ≤ src.length then
        let xml := trimSpace ((src.take stop).drop start)
        if validString xml then .ok { xml := xml, originalError := attrValue attrOriginalError attrs }
        else
          .error (.syntaxError "Data"
            "markup is not UTF-8 in the source; re-encode the document as UTF-8" none)
      else .error .panic
    else
      (text "Data" kids).map fun s =>
        { value := s, originalError := attrValue attrOriginalError attrs }

def item (src : GoString) : Forest → Except DecodeError Item :=
  known "Item"
    [.of "Target" (locURI "Target") fun it s => { it with target := s },
     .of "Source" (locURI "Source") fun it s => { it with source := s },
     .of "Meta" readMeta fun it m => { it with metinf := some m },
     ⟨"Data",fun it attrs start kids =>
        (data src attrs start kids).map fun d => { it with data := some d }⟩,
     .of "MoreData" (skipEmpty "MoreData") fun it _ => { it with moreData := true },
     .refuse "TargetParent" (.notUsed "TargetParent"),
     .refuse "SourceParent" (.notUsed "SourceParent")]
    {}

/-- The cases that `itemCommand` and `exec` share. -/
def leafCases (src : GoString) : List (Case Leaf) :=
  [.text "CmdID" fun c s => { c with cmdID := s },
   .of "NoResp" (skipEmpty "NoResp") fun c _ => { c with noResp := true },
   .of "Cred" cred fun c x => { c with cred := some x },
   .of "Meta" readMeta fun c m => { c with metinf := some m },
   .of "Item" (item src) fun c it => { c with items := c.items ++ [it] }]

def itemCommand (src : GoString) (v : Verb) : Forest → Except DecodeError Leaf :=
  known v.name
    ((if v = .get then .text "Lang" fun c s => { c with lang := s }
      else .refuse "Lang" (.unknownElement "Lang" v.name)) :: leafCases src)
    {}

def exec (src : GoString) : Forest → Except DecodeError Leaf :=
  known cmdExec (.text "Correlator" (fun c s => { c with correlator := s }) :: leafCases src) {}

def alert (src : GoString) : Forest → Except DecodeError Alert :=
  known cmdAlert
    [.text "CmdID" fun c s => { c with cmdID := s },
     .of "NoResp" (skipEmpty "NoResp") fun c _ => { c with noResp := true },
     .of "Cred" cred fun c x => { c with cred := some x },
     .text "Data" fun c s => { c with data := s },
     .text "Correlator" fun c s => { c with correlator := s },
     .of "Item" (item src) fun c it => { c with items := c.items ++ [it] }]
    { cmdID := [], data := [] }

def status (src : GoString) : Forest → Except DecodeError Status :=
  known cmdStatus
    [.text "CmdID" fun c s => { c with cmdID := s },
     .text "MsgRef" fun c s => { c with msgRef := s },
     .text "CmdRef" fun c s => { c with cmdRef := s },
     .text "Cmd" fun c s => { c with cmd := s },
     .text "TargetRef" fun c s => { c with targetRef := c.targetRef ++ [s] },
     .text "SourceRef" fun c s => { c with sourceRef := c.sourceRef ++ [s] },
     .of "Cred" cred fun c x => { c with cred := some x },
     .of "Chal" chal fun c x => { c with chal := some x },
     ⟨"Data",fun c attrs start kids =>
        (data src attrs start kids).map fun d =>
          { c with data := { d with value := trimSpace d.value } }⟩,
     .of "Item" (item src) fun c it => { c with items := c.items ++ [it] }]
    { cmdID := [], msgRef := [], cmdRef := [], cmd := [], data := {} }

def results (src : GoString) : Forest → Except DecodeError Results :=
  known cmdResults
    [.text "CmdID" fun c s => { c with cmdID := s },
     .text "MsgRef" fun c s => { c with msgRef := s },
     .text "CmdRef" fun c s => { c with cmdRef := s },
     .text "Cmd" fun c s => { c with cmd := s },
     .of "Meta" readMeta fun c m => { c with metinf := some m },
     .text "TargetRef" fun c s => { c with targetRef := s },
     .text "SourceRef" fun c s => { c with sourceRef := s },
     .of "Item" (item src) fun c it => { c with items := c.items ++ [it] }]
    { cmdID := [], cmdRef := [], items := [] }

def unsupportedCommands : List GoString := ["Copy","Map","Move","Put","Search","Sync"]

/-- `command` but for the two groups. -/
def plainCommand (src name parent : GoString) (kids : Forest) : Except DecodeError Command :=
  if name ∈ unsupportedCommands then .error (.unsupportedCommand name)
  else if name = cmdAdd then (itemCommand src .add kids).map (.leaf .add)
  else if name = cmdReplace then (itemCommand src .replace kids).map (.leaf .replace)
  else if name = cmdDelete then (itemCommand src .delete kids).map (.leaf .delete)
  else if name = cmdGet then (itemCommand src .get kids).map (.leaf .get)
  else if name = cmdExec then (exec src kids).map (.leaf .exec)
  else if name = cmdAlert then (alert src kids).map .alert
  else if name = cmdStatus then (status src kids).map .status
  else if name = cmdResults then (results src kids).map .results
  else .error (.unknownElement name parent)

def groupKind (name : GoString) : Option GroupKind :=
  if name = cmdAtomic then some .atomic
  else if name = cmdSequence then some .sequence
  else none

structure GroupPart where
  cmdID : GoString := []
  noResp : Bool := false
  metinf : Option Meta := none
  commands : List Command := []

def GroupPart.command (k : GroupKind) (g : GroupPart) : Command :=
  .group k g.cmdID g.noResp g.metinf g.commands

/-- The commands `group` hands to `command`. -/
def memberNames : List GoString :=
  [cmdAdd,cmdReplace,cmdDelete,cmdGet,cmdExec,cmdAlert] ++ unsupportedCommands

def group (src name : GoString) : GroupPart → Forest → Except DecodeError GroupPart
  | g, .closed _ => .ok g
  | _, .broken e => .error (.xml e)
  | g, .chars s rest => if trimSpace s = [] then group src name g rest else .error (unexpectedText s)
  | g, .other rest => group src name g rest
  | g, .element el _ _ kids rest =>
    if el.localPart = utf8 "CmdID" then
      match trimmedText "CmdID" kids with
      | .error e => .error e
      | .ok s => group src name { g with cmdID := s } rest
    else if el.localPart = utf8 "NoResp" then
      match skipEmpty "NoResp" kids with
      | .error e => .error e
      | .ok _ => group src name { g with noResp := true } rest
    else if el.localPart = utf8 "Meta" then
      match readMeta kids with
      | .error e => .error e
      | .ok m => group src name { g with metinf := some m } rest
    else
      match groupKind el.localPart with
      | some k =>
        match group src el.localPart {} kids with
        | .error e => .error e
        | .ok inner => group src name { g with commands := g.commands ++ [inner.command k] } rest
      | none =>
        if el.localPart ∈ memberNames then
          match plainCommand src el.localPart name kids with
          | .error e => .error e
          | .ok c => group src name { g with commands := g.commands ++ [c] } rest
        else .error (.unknownElement el.localPart name)

def command (src name parent : GoString) (kids : Forest) : Except DecodeError Command :=
  match groupKind name with
  | some k => (group src name {} kids).map (·.command k)
  | none => plainCommand src name parent kids

def body (src : GoString) : Body → Forest → Except DecodeError Body :=
  eachStart fun b el _ _ kids =>
    if b.final then .error (.finalNotLast el.localPart)
    else if el.localPart = utf8 "Final" then
      (skipEmpty "Final" kids).map fun _ => { b with final := true }
    else (command src el.localPart "SyncBody" kids).map fun c =>
      { b with commands := b.commands ++ [c] }

def emptyHeader : Header where
  verDTD := []
  verProto := []
  sessionID := []
  msgID := []
  target := { locURI := [] }
  source := { locURI := [] }

def header : Forest → Except DecodeError Header :=
  known cmdSyncHdr
    [.text "VerDTD" fun h s => { h with verDTD := s },
     .text "VerProto" fun h s => { h with verProto := s },
     .text "SessionID" fun h s => { h with sessionID := s },
     .text "MsgID" fun h s => { h with msgID := s },
     .of "Target" (location "Target") fun h l => { h with target := l },
     .of "Source" (location "Source") fun h l => { h with source := l },
     .text "RespURI" fun h s => { h with respURI := s },
     .of "NoResp" (skipEmpty "NoResp") fun h _ => { h with noResp := true },
     .of "Cred" cred fun h x => { h with cred := some x },
     .of "Meta" readMeta fun h m => { h with metinf := some m }]
    emptyHeader

/-- `xmlns:msft`, or an attribute msft with the namespace as its value. -/
def declaresMSFT (attrs : List Xml.Attr) : Bool :=
  attrs.any fun a =>
    (decide (a.name.space = utf8 "xmlns") && decide (a.name.localPart = utf8 "msft")) ||
    (decide (a.name.localPart = utf8 "msft") && decide (a.value = namespaceMSFT))

/-- The root element as far as it was read. -/
structure RootPart where
  header : Option Header := none
  body : Option Body := none

def root (src : GoString) : Forest → Except DecodeError RootPart :=
  eachStart
    (fun r el attrs _ kids =>
      if el.localPart = cmdSyncHdr then
        if r.header.isSome then .error (.syntaxError cmdSyncHdr "repeated" none)
        else (header kids).map fun h => { r with header := some h }
      else if el.localPart = utf8 "SyncBody" then
        if r.body.isSome then .error (.syntaxError "SyncBody" "repeated" none)
        else
          (body src { msftNamespace := declaresMSFT attrs } kids).map fun b =>
            { r with body := some b }
      else .error (.unknownElement el.localPart "SyncML"))
    {}

def afterRoot : Forest → Except DecodeError Unit
  | .closed _ => .ok ()
  | .broken e => .error (.xml e)
  | .chars s rest =>
    if trimSpace s = [] then afterRoot rest
    else .error (.syntaxError "SyncML" "content after the root element" none)
  | .other _ => .error (.syntaxError "SyncML" "content after the root element" none)
  | .element _ _ _ _ _ => .error (.syntaxError "SyncML" "content after the root element" none)

def rootNamespace (attrs : List Xml.Attr) : GoString :=
  attrs.foldl (fun v a => if a.name = ⟨[],utf8 "xmlns"⟩ then a.value else v) []

def message (src : GoString) (f : Forest) : Except DecodeError Message :=
  match nextStart f with
  | .error e => .error (.syntaxError "SyncML" "no root element" (some e))
  | .ok (name,attrs,_,kids,rest) =>
    if name.localPart ≠ utf8 "SyncML" then
      .error (.syntaxError name.localPart "root element must be SyncML" none)
    else if rootNamespace attrs ≠ [] ∧ rootNamespace attrs ≠ namespaceSyncML12 ∧
        rootNamespace attrs ≠ namespaceSyncML11 then .error (.xmlns (rootNamespace attrs))
    else
      match root src kids with
      | .error e => .error e
      | .ok r =>
        (afterRoot rest).map fun _ =>
          { xmlns := rootNamespace attrs, header := r.header.getD emptyHeader,
            body := r.body.getD {} }

end Parser

/-- The errors `Decode` does not wrap again. -/
def wrapXML : DecodeError → DecodeError
  | .xml e => .syntaxError "SyncML" "xml" (some (.xml e))
  | e => e

def decode (t : NameChars) (maxSize : Int) (data : GoString) : Except DecodeError Message :=
  let limit := if maxSize ≤ 0 then defaultMaxSize else maxSize
  if (data.length : Int) > limit then .error (.tooLarge data.length limit)
  else
    let src := transcodeUTF16 data
    (message src (Xml.document t charset src)).mapError wrapXML

def decodeCommand (t : NameChars) (data : GoString) : Except DecodeError Command :=
  if (data.length : Int) > defaultMaxSize then .error (.tooLarge data.length defaultMaxSize)
  else
    let src := transcodeUTF16 data
    match nextStart (Xml.document t charset src) with
    | .error e => .error (.syntaxError "fragment" "no root element" (some e))
    | .ok (name,_,_,kids,_) => command src name.localPart "fragment" kids

/-- A form of a text in UTF-16: the byte order, and whether a mark states it. -/
structure UTF16Form where
  bigEndian : Bool
  mark : Bool

def UTF16Form.bytes (f : UTF16Form) (rs : List Nat) : GoString :=
  (if f.mark then (if f.bigEndian then [0xFE,0xFF] else [0xFF,0xFE]) else []) ++
    encodeUTF16 f.bigEndian rs

def fits (maxSize : Int) (data : GoString) : Bool :=
  decide ((data.length : Int) ≤ if maxSize ≤ 0 then defaultMaxSize else maxSize)

theorem decode_of_fits {t : NameChars} {maxSize : Int} {data : GoString}
    (h : fits maxSize data = true) :
    decode t maxSize data =
      (message (transcodeUTF16 data) (Xml.document t charset (transcodeUTF16 data))).mapError
        wrapXML := by
  unfold fits at h
  rw [decide_eq_true_eq] at h
  unfold decode
  dsimp only
  rw [if_neg (by omega)]

variable {rs : List Nat}

theorem transcodeUTF16_bytes (f : UTF16Form) (hs : ∀ r ∈ rs, IsScalar r)
    (hlt : rs.head? = some 60) : transcodeUTF16 (f.bytes rs) = encodeRunes rs := by
  have hrt := @decodeUnits_codeUnits f.bigEndian rs hs
  obtain ⟨tail,rfl⟩ : ∃ tail, rs = 60 :: tail := by
    cases rs with
    | nil => cases hlt
    | cons r tail => exact ⟨tail,by rw [Option.some.inj hlt]⟩
  have hbytes : ∀ b, encodeUTF16 b (60 :: tail) = unitBytes b 60 ++ encodeUTF16 b tail := by
    intro b
    simp [encodeUTF16,encodeUnits]
  obtain ⟨bigEndian,mark⟩ := f
  cases bigEndian <;> cases mark
  · simp only [UTF16Form.bytes,hbytes] at hrt ⊢
    exact congrArg encodeRunes hrt
  · exact congrArg encodeRunes hrt
  · simp only [UTF16Form.bytes,hbytes] at hrt ⊢
    exact congrArg encodeRunes hrt
  · exact congrArg encodeRunes hrt

theorem transcodeUTF16_encodeRunes (hs : ∀ r ∈ rs, IsScalar r)
    (hlt : rs.head? = some 60) (h0 : 0 ∉ rs) : transcodeUTF16 (encodeRunes rs) = encodeRunes rs := by
  have hz : (encodeRunes rs).count 0 = 0 := by
    have hcount := @count_zero_decodeUnits (rs.flatMap encodeUnits) (fun u hu => by
      obtain ⟨r,hr,hu⟩ := List.mem_flatMap.mp hu
      exact encodeUnits_lt (hs r hr) hu)
    rw [decodeUnits_encodeUnits hs] at hcount
    rw [hcount,List.count_eq_zero]
    intro hmem
    obtain ⟨r,hr,hu⟩ := List.mem_flatMap.mp hmem
    unfold encodeUnits at hu
    split at hu
    · rw [← List.mem_singleton.mp hu] at hr
      exact h0 hr
    · simp at hu
      omega
  obtain ⟨tail,rfl⟩ : ∃ tail, rs = 60 :: tail := by
    cases rs with
    | nil => cases hlt
    | cons r tail => exact ⟨tail,by rw [Option.some.inj hlt]⟩
  have hcons : encodeRunes (60 :: tail) = 60 :: encodeRunes tail := rfl
  rw [hcons] at hz ⊢
  unfold transcodeUTF16
  cases htail : encodeRunes tail with
  | nil => rfl
  | cons b rest =>
    have hb : b ≠ 0 := by
      rintro rfl
      rw [htail] at hz
      simp at hz
    simp [hb]

/-- The UTF-16 forms of a document are read as its UTF-8 bytes are, whatever encoding it declares.
-/
theorem decode_utf16 {t : NameChars} {maxSize : Int} {rs : List Nat} (f : UTF16Form)
    (hs : ∀ r ∈ rs, IsScalar r) (hlt : rs.head? = some 60) (h0 : 0 ∉ rs)
    (h16 : fits maxSize (f.bytes rs) = true) (h8 : fits maxSize (encodeRunes rs) = true) :
    decode t maxSize (f.bytes rs) = decode t maxSize (encodeRunes rs) := by
  rw [decode_of_fits h16,decode_of_fits h8,transcodeUTF16_bytes f hs hlt,
    transcodeUTF16_encodeRunes hs hlt h0]

/-- ASCII names only. -/
def asciiNames : NameChars := ⟨fun _ => false,fun _ => false⟩

def Sample.utf16Document : List Nat :=
  ("<?xml version=\"1.0\" encoding=\"utf-16\"?><SyncML><SyncBody><Alert><Data>".toList ++
    [Char.ofNat 0x1F600] ++ "</Data></Alert></SyncBody></SyncML>".toList).map Char.toNat

theorem decode_utf16_sample :
    decode asciiNames 0 (UTF16Form.bytes ⟨true,false⟩ Sample.utf16Document) =
        decode asciiNames 0 (encodeRunes Sample.utf16Document) ∧
      (decode asciiNames 0 (encodeRunes Sample.utf16Document)).isOk = true := by
  refine ⟨decode_utf16 ⟨true,false⟩ ?_ ?_ ?_ ?_ ?_,?_⟩ <;> decide +kernel

end MicrosoftDM.Syncml
