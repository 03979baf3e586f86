import MicrosoftDM.Utf8Text

/-! The tokens of an XML document as Go's strict decoder reads them
(`encoding/xml`): names, text with its references, tags, comments,
instructions and directives, and names translated through the namespace
bindings in force. -/

set_option autoImplicit false

namespace MicrosoftDM.Xml

inductive XmlError where
  | eof
  | malformed (msg : GoString)
  | illegalCharacter (r : Nat)
  | version (ver : GoString)
  | charset (label : GoString)
  deriving DecidableEq

def unexpectedEOF : XmlError := .malformed "unexpected EOF"

structure Name where
  space : GoString := []
  localPart : GoString
  deriving DecidableEq

structure Attr where
  name : Name
  value : GoString
  deriving DecidableEq

/-- The tables `first` and `second` of name characters, outside ASCII. -/
structure NameChars where
  first : Nat → Bool
  second : Nat → Bool

/-- `isInCharacterRange`: the Char production. -/
def inCharacterRange (r : Nat) : Bool :=
  r == 0x09 || r == 0x0A || r == 0x0D || (0x20 ≤ r && r ≤ 0xD7FF) ||
  (0xE000 ≤ r && r ≤ 0xFFFD) || (0x10000 ≤ r && r ≤ 0x10FFFF)

def isLetter (b : UInt8) : Bool := inRange 65 90 b || inRange 97 122 b

def isNameByte (b : UInt8) : Bool :=
  isLetter b || isDigit b || b == 95 || b == 58 || b == 46 || b == 45

/-- The bytes `readName` goes over before it checks the name. -/
def nameLike (b : UInt8) : Bool := decide (0x80 ≤ b.toNat) || isNameByte b

def xmlSpace (b : UInt8) : Bool := b == 32 || b == 13 || b == 10 || b == 9

def NameChars.isFirst (t : NameChars) (r : Nat) : Bool :=
  if r < 0x80 then isLetter r.toUInt8 || r == 95 || r == 58 else t.first r

def NameChars.isSecond (t : NameChars) (r : Nat) : Bool :=
  if r < 0x80 then isDigit r.toUInt8 || r == 46 || r == 45 else t.second r

def isName (t : NameChars) (s : GoString) : Bool :=
  match runes s with
  | [] => false
  | r :: rs => validString s && t.isFirst r.1 && rs.all fun r => t.isFirst r.1 || t.isSecond r.1

/-- What reads the input from the front and leaves the rest as it is. -/
structure Reader (α : Type) where
  run : GoString → Except XmlError (α × GoString)
  suffix : ∀ {s a rest}, run s = .ok (a,rest) → rest <:+ s

namespace Reader
variable {α β : Type}

def fail (e : XmlError) : Reader α := ⟨fun _ => .error e,fun h => by cases h⟩

/-- What is not read yet. -/
def ahead : Reader GoString := ⟨fun s => .ok (s,s),fun h => by cases h; exact List.suffix_refl _⟩

def next : Reader UInt8 where
  run
    | [] => .error unexpectedEOF
    | b :: rest => .ok (b,rest)
  suffix {s a rest} h := by
    cases s with
    | nil => cases h
    | cons b s =>
      cases h
      exact List.suffix_cons _ _

def span (p : UInt8 → Bool) : Reader GoString where
  run s := .ok (s.takeWhile p,s.dropWhile p)
  suffix h := by
    cases h
    exact List.dropWhile_suffix _

instance : Monad Reader where
  pure a := ⟨fun s => .ok (a,s),fun h => by cases h; exact List.suffix_refl _⟩
  bind r f := {
    run := fun s =>
      match r.run s with
      | .error e => .error e
      | .ok (a,rest) => (f a).run rest
    suffix := fun {s b rest} h => by
      cases hr : r.run s with
      | error e =>
        rw [hr] at h
        cases h
      | ok x =>
        rw [hr] at h
        exact ((f x.1).suffix h).trans (r.suffix hr) }

theorem bind_ok {r : Reader α} {f : α → Reader β} {s rest : GoString} {b : β}
    (h : (r >>= f).run s = .ok (b,rest)) :
    ∃ a mid, r.run s = .ok (a,mid) ∧ (f a).run mid = .ok (b,rest) := by
  simp only [bind] at h
  split at h
  · cases h
  · rename_i hr
    exact ⟨_,_,hr,h⟩

def peek : Reader UInt8 := do
  match ← ahead with
  | [] => fail unexpectedEOF
  | b :: _ => pure b

end Reader

open Reader (fail ahead next peek span)

/-- `name`; `missing` is what the caller reports when there is none. -/
def readName (t : NameChars) (missing : GoString) : Reader GoString := do
  let n ← span nameLike
  if (← ahead) = [] then fail unexpectedEOF
  else if n = [] then fail (.malformed missing)
  else if isName t n then pure n
  else fail (.malformed ("invalid XML name: " ++ n))

/-- `nsname`: a name with at most one colon, cut at it unless a side is empty. -/
def qualify (n : GoString) : Option Name :=
  match splitAt 58 n with
  | [_] => some ⟨[],n⟩
  | [space,localPart] =>
    if space = [] ∨ localPart = [] then some ⟨[],n⟩ else some ⟨space,localPart⟩
  | _ => none

def nsname (t : NameChars) (missing : GoString) : Reader Name := do
  match qualify (← readName t missing) with
  | some name => pure name
  | none => fail (.malformed missing)

def isRefDigit (hex : Bool) (b : UInt8) : Bool :=
  isDigit b || (hex && (inRange 97 102 b || inRange 65 70 b))

def digitValue (b : UInt8) : Nat :=
  if isDigit b then b.toNat-48 else if 97 ≤ b.toNat then b.toNat-87 else b.toNat-55

def refValue (hex : Bool) (ds : GoString) : Nat :=
  ds.foldl (fun acc b => acc*(if hex then 16 else 10)+digitValue b) 0

/-- `string(rune(n))`. -/
def runeString (n : Nat) : GoString := if IsScalar n then encodeRune n else encodeRune runeError

def invalidEntity (ent : GoString) : XmlError := .malformed ("invalid character entity " ++ ent)

def charRef (hex : Bool) (before s : GoString) : Except XmlError (GoString × Nat) :=
  let ds := s.takeWhile (isRefDigit hex)
  match s.dropWhile (isRefDigit hex) with
  | [] => .error unexpectedEOF
  | c :: _ =>
    if c ≠ 59 then .error (invalidEntity (before ++ ds ++ " (no semicolon)"))
    else if ds ≠ [] ∧ refValue hex ds ≤ 0x10FFFF then .ok (runeString (refValue hex ds),ds.length+1)
    else .error (invalidEntity (before ++ ds ++ ";"))

def entities : List (GoString × GoString) :=
  [("lt","<"),("gt",">"),("amp","&"),("apos","'"),("quot","\"")]

def entityRef (t : NameChars) (s : GoString) : Except XmlError (GoString × Nat) :=
  let n := s.takeWhile nameLike
  match s.dropWhile nameLike with
  | [] => .error unexpectedEOF
  | c :: _ =>
    if c ≠ 59 then .error (invalidEntity (utf8 "&" ++ n ++ " (no semicolon)"))
    else
      match if isName t n then entities.lookup n else none with
      | some text => .ok (text,n.length+1)
      | none => .error (invalidEntity (utf8 "&" ++ n ++ ";"))

def reference (t : NameChars) : GoString → Except XmlError (GoString × Nat)
  | [] => .error unexpectedEOF
  | b :: rest =>
    if b = 35 then
      match rest with
      | [] => .error unexpectedEOF
      | c :: rest' =>
        if c = 120 then (charRef true "&#x" rest').map fun x => (x.1,x.2+2)
        else (charRef false "&#" rest).map fun x => (x.1,x.2+1)
    else entityRef t (b :: rest)

/-- The loop of `text`. `skip` bytes belong to a reference already read, `b0`
and `b1` are the last two bytes and `acc` the text so far, last byte first. -/
def textLoop (t : NameChars) (quote : Option UInt8) (cdata : Bool) :
    Nat → UInt8 → UInt8 → GoString → GoString → Except XmlError (GoString × GoString)
  | _, _, _, acc, [] =>
    if cdata then .error (.malformed "unexpected EOF in CDATA section") else .ok (acc.reverse,[])
  | skip+1, b0, b1, acc, _ :: rest => textLoop t quote cdata skip b0 b1 acc rest
  | 0, b0, b1, acc, b :: rest =>
    if quote = none ∧ b0 = 93 ∧ b1 = 93 ∧ b = 62 then
      if cdata then .ok ((acc.drop 2).reverse,rest)
      else .error (.malformed "unescaped ]]> not in CDATA section")
    else if b = 60 ∧ cdata = false then
      if quote = none then .ok (acc.reverse,b :: rest)
      else .error (.malformed "unescaped < inside quoted string")
    else if quote = some b then .ok (acc.reverse,rest)
    else if b = 38 ∧ cdata = false then
      match reference t rest with
      | .error e => .error e
      | .ok (text,n) => textLoop t quote cdata n 0 0 (text.reverse ++ acc) rest
    else
      textLoop t quote cdata 0 b1 b
        (if b = 13 then 10 :: acc else if b1 = 13 ∧ b = 10 then acc else b :: acc) rest

def charError (data : GoString) : Option XmlError :=
  (runes data).findSome? fun r =>
    if r.1 = runeError ∧ r.2.length = 1 then some (.malformed "invalid UTF-8")
    else if inCharacterRange r.1 then none
    else some (.illegalCharacter r.1)

theorem textLoop_suffix {t : NameChars} {quote : Option UInt8} {cdata : Bool} {skip : Nat} {b0 b1 : UInt8}
    {acc s data rest : GoString} (h : textLoop t quote cdata skip b0 b1 acc s = .ok (data,rest)) :
    rest <:+ s := by
  induction s generalizing skip b0 b1 acc with
  | nil =>
    simp only [textLoop] at h
    split at h
    · cases h
    · cases h
      exact List.suffix_refl _
  | cons b s ih =>
    cases skip with
    | succ skip => exact (ih h).trans (List.suffix_cons b s)
    | zero =>
      simp only [textLoop] at h
      split at h
      · split at h
        · cases h
          exact List.suffix_cons b _
        · cases h
      split at h
      · split at h
        · cases h
          exact List.suffix_refl _
        · cases h
      split at h
      · cases h
        exact List.suffix_cons b _
      split at h
      · split at h
        · cases h
        · exact (ih h).trans (List.suffix_cons b s)
      · exact (ih h).trans (List.suffix_cons b s)

def text (t : NameChars) (quote : Option UInt8) (cdata : Bool) : Reader GoString := do
  let data ← (⟨textLoop t quote cdata 0 0 0 [],textLoop_suffix⟩ : Reader GoString)
  match charError data with
  | some e => fail e
  | none => pure data

/-- `attrval` after the equals sign. -/
def attrval (t : NameChars) : Reader GoString := do
  let q ← next
  if q = 34 ∨ q = 39 then text t (some q) false
  else fail (.malformed "unquoted or missing attribute value in element")

def readAttr (t : NameChars) : Reader Attr := do
  let name ← nsname t "expected attribute name in element"
  let _ ← span xmlSpace
  if (← next) = 61 then
    let _ ← span xmlSpace
    pure ⟨name,← attrval t⟩
  else fail (.malformed "attribute name without = in element")

def attributes (t : NameChars) : Nat → Reader (List Attr × Bool)
  | 0 => fail unexpectedEOF
  | fuel+1 => do
    let _ ← span xmlSpace
    let b ← peek
    if b = 47 then
      let _ ← next
      if (← next) = 62 then pure ([],true) else fail (.malformed "expected /> in element")
    else if b = 62 then
      let _ ← next
      pure ([],false)
    else
      let a ← readAttr t
      let (as,empty) ← attributes t fuel
      pure (a :: as,empty)

/-- A token as `rawToken` reads it, names not translated yet. -/
inductive RawToken where
  | start (name : Name) (attrs : List Attr) (empty : Bool)
  | finish (name : Name)
  | chars (data : GoString)
  | procInst (target data : GoString)
  | other
  deriving DecidableEq

def startTag (t : NameChars) : Reader RawToken := do
  let name ← nsname t "expected element name after <"
  let (attrs,empty) ← attributes t ((← ahead).length+1)
  pure (.start name attrs empty)

def endTag (t : NameChars) : Reader RawToken := do
  let name ← nsname t "expected element name after </"
  let _ ← span xmlSpace
  if (← next) = 62 then pure (.finish name)
  else fail (.malformed ("invalid characters between </" ++ name.localPart ++ " and >"))

def instructionLoop : UInt8 → GoString → GoString → Except XmlError (GoString × GoString)
  | _, _, [] => .error unexpectedEOF
  | b0, acc, b :: rest =>
    if b0 = 63 ∧ b = 62 then .ok ((acc.drop 1).reverse,rest) else instructionLoop b (b :: acc) rest

theorem instructionLoop_suffix {b0 : UInt8} {acc s data rest : GoString}
    (h : instructionLoop b0 acc s = .ok (data,rest)) : rest <:+ s := by
  induction s generalizing b0 acc with
  | nil => cases h
  | cons b s ih =>
    simp only [instructionLoop] at h
    split at h
    · cases h
      exact List.suffix_cons b _
    · exact (ih h).trans (List.suffix_cons b s)

def instruction (t : NameChars) : Reader RawToken := do
  let target ← readName t "expected target name after <?"
  let _ ← span xmlSpace
  let data ← (⟨instructionLoop 0 [],instructionLoop_suffix⟩ : Reader GoString)
  pure (.procInst target data)

def commentLoop : UInt8 → UInt8 → GoString → Except XmlError (Unit × GoString)
  | _, _, [] => .error unexpectedEOF
  | b0, b1, b :: rest =>
    if b0 = 45 ∧ b1 = 45 then
      if b = 62 then .ok ((),rest)
      else .error (.malformed "invalid sequence \"--\" not allowed in comments")
    else commentLoop b1 b rest

theorem commentLoop_suffix {b0 b1 : UInt8} {s rest : GoString} {u : Unit}
    (h : commentLoop b0 b1 s = .ok (u,rest)) : rest <:+ s := by
  induction s generalizing b0 b1 with
  | nil => cases h
  | cons b s ih =>
    simp only [commentLoop] at h
    split at h
    · split at h
      · cases h
        exact List.suffix_cons b _
      · cases h
    · exact (ih h).trans (List.suffix_cons b s)

/-- Where the loop over a directive stands: outside a comment with the quote
and the depth, some bytes into `<!--`, or inside a comment. -/
inductive DirectiveMode where
  | plain (quote : Option UInt8) (depth : Nat)
  | opening (seen : Nat) (depth : Nat)
  | comment (b0 b1 : UInt8) (depth : Nat)
  deriving DecidableEq

def DirectiveMode.next (quote : Option UInt8) (depth : Nat) (b : UInt8) : DirectiveMode :=
  if quote = some b then .plain none depth
  else if quote ≠ none then .plain quote depth
  else if b = 39 ∨ b = 34 then .plain (some b) depth
  else if b = 62 then .plain none (depth-1)
  else if b = 60 then .opening 0 depth
  else .plain none depth

def directiveLoop : DirectiveMode → GoString → Except XmlError (Unit × GoString)
  | _, [] => .error unexpectedEOF
  | .plain quote depth, b :: rest =>
    if quote = none ∧ b = 62 ∧ depth = 0 then .ok ((),rest)
    else directiveLoop (.next quote depth b) rest
  | .opening seen depth, b :: rest =>
    if b = (utf8 "!--").getD seen 0 then
      directiveLoop (if seen = 2 then .comment 0 0 depth else .opening (seen+1) depth) rest
    else directiveLoop (.next none (depth+1) b) rest
  | .comment b0 b1 depth, b :: rest =>
    directiveLoop (if b0 = 45 ∧ b1 = 45 ∧ b = 62 then .plain none depth else .comment b1 b depth)
      rest

theorem directiveLoop_suffix {m : DirectiveMode} {s rest : GoString} {u : Unit}
    (h : directiveLoop m s = .ok (u,rest)) : rest <:+ s := by
  induction s generalizing m with
  | nil => cases m <;> cases h
  | cons b s ih =>
    cases m with
    | plain quote depth =>
      simp only [directiveLoop] at h
      split at h
      · cases h
        exact List.suffix_cons b _
      · exact (ih h).trans (List.suffix_cons b s)
    | opening seen depth =>
      simp only [directiveLoop] at h
      split at h <;> exact (ih h).trans (List.suffix_cons b s)
    | comment b0 b1 depth => exact (ih h).trans (List.suffix_cons b s)

def expect (missing : GoString) : GoString → Reader Unit
  | [] => pure ()
  | c :: cs => do if (← next) = c then expect missing cs else fail (.malformed missing)

/-- What follows `<!`. -/
def declaration (t : NameChars) : Reader RawToken := do
  let b ← next
  if b = 45 then
    expect "invalid sequence <!- not part of <!--" "-"
    (⟨commentLoop 0 0,commentLoop_suffix⟩ : Reader Unit)
    pure .other
  else if b = 91 then
    expect "invalid <![ sequence" "CDATA["
    pure (.chars (← text t none true))
  else
    (⟨directiveLoop (.plain none 0),directiveLoop_suffix⟩ : Reader Unit)
    pure .other

/-- What follows `<`. -/
def markup (t : NameChars) : Reader RawToken := do
  let b ← peek
  if b = 47 then
    let _ ← next
    endTag t
  else if b = 63 then
    let _ ← next
    instruction t
  else if b = 33 then
    let _ ← next
    declaration t
  else startTag t

/-- `rawToken` on input that has not ended. -/
def rawToken (t : NameChars) (b : UInt8) (rest : GoString) : Except XmlError (RawToken × GoString) :=
  if b = 60 then (markup t).run rest
  else ((text t none false).run (b :: rest)).map fun x => (.chars x.1,x.2)

/-- `procInst`: the quoted value of a pseudo attribute. `skip` bytes were
already passed over. -/
def procInst (param : GoString) : Nat → GoString → GoString
  | _, [] => []
  | skip+1, _ :: rest => procInst param skip rest
  | 0, b :: rest =>
    if (param ++ "=").isPrefixOf (b :: rest) then
      match (b :: rest).drop (param.length+1) with
      | [] => []
      | c :: value =>
        if c = 39 ∨ c = 34 then
          if c ∈ value then value.takeWhile (· != c) else []
        else procInst param (param.length+1) rest
    else procInst param 0 rest

/-- A `CharsetReader`: the bytes read on in place of those not read yet. The
weight bounds what reading on can cost. -/
structure Charset where
  change : GoString → GoString → Except XmlError GoString
  weight : GoString → Nat
  weight_cons : ∀ b s, weight s < weight (b :: s)
  weight_change : ∀ {label s s' : GoString}, change label s = .ok s' → weight s' ≤ weight s

/-- What an instruction does to the bytes that follow it. -/
def declared (cs : Charset) (target data rest : GoString) : Except XmlError GoString :=
  if target = utf8 "xml" then
    let ver := procInst "version" 0 data
    let enc := procInst "encoding" 0 data
    if ver ≠ [] ∧ ver ≠ utf8 "1.0" then .error (.version ver)
    else if enc ≠ [] ∧ equalFold enc "utf-8" = false then cs.change enc rest
    else .ok rest
  else .ok rest

abbrev Bindings := List (GoString × GoString)

def xmlURL : GoString := "http://www.w3.org/XML/1998/namespace"

def translate (ns : Bindings) (isElementName : Bool) (n : Name) : Name :=
  if n.space = utf8 "xmlns" then n
  else if n.space = [] ∧ isElementName = false then n
  else
    let n := if n.space = utf8 "xml" then { n with space := xmlURL } else n
    if n.space = [] ∧ n.localPart = utf8 "xmlns" then n
    else
      match ns.lookup n.space with
      | some uri => { n with space := uri }
      | none => n

def binding (a : Attr) : Option (GoString × GoString) :=
  if a.name.space = utf8 "xmlns" then some (a.name.localPart,a.value)
  else if a.name.space = [] ∧ a.name.localPart = utf8 "xmlns" then some ([],a.value)
  else none

def bindAll (ns : Bindings) (attrs : List Attr) : Bindings := (attrs.filterMap binding).reverse ++ ns

inductive Token where
  | start (name : Name) (attrs : List Attr)
  | finish (name : Name)
  | chars (data : GoString)
  | other
  deriving DecidableEq

/-- An open element, with the bindings in force outside it. -/
structure Frame where
  name : Name
  outer : Bindings
  deriving DecidableEq

structure Decoder where
  input : GoString
  offset : Nat := 0
  toClose : Option Name := none
  stack : List Frame := []
  ns : Bindings := []

/-- `pushElement`, and the translation of the names of a start tag. -/
def Decoder.pushElement (d : Decoder) (name : Name) (attrs : List Attr) (empty : Bool) : Token × Decoder :=
  let ns := bindAll d.ns attrs
  (.start (translate ns true name) (attrs.map fun a => { a with name := translate ns false a.name }),
    { d with toClose := if empty then some name else none,
             stack := ⟨name,d.ns⟩ :: d.stack, ns := ns })

def Decoder.popElement (d : Decoder) (name : Name) : Except XmlError (Token × Decoder) :=
  match d.stack with
  | [] => .error (.malformed (utf8 "unexpected end element </" ++ name.localPart ++ ">"))
  | f :: stack =>
    if f.name.localPart ≠ name.localPart then
      .error (.malformed (utf8 "element <" ++ f.name.localPart ++ "> closed by </" ++
        name.localPart ++ ">"))
    else if f.name.space ≠ name.space then
      .error (.malformed (utf8 "element <" ++ f.name.localPart ++ "> in space " ++ f.name.space ++
        " closed by </" ++ name.localPart ++ "> in space " ++
        (if name.space = [] then utf8 "\"\"" else name.space)))
    else .ok (.finish (translate d.ns true name),{ d with stack := stack, ns := f.outer })

def Decoder.read (d : Decoder) (rest : GoString) : Decoder :=
  { d with input := rest, offset := d.offset+(d.input.length-rest.length) }

def Decoder.token (t : NameChars) (cs : Charset) (d : Decoder) : Except XmlError (Token × Decoder) :=
  match d.toClose with
  | some name => { d with toClose := none }.popElement name
  | none =>
    match d.input with
    | [] => .error (if d.stack = [] then .eof else unexpectedEOF)
    | b :: rest =>
      match rawToken t b rest with
      | .error e => .error e
      | .ok (.start name attrs empty,rest) => .ok ((d.read rest).pushElement name attrs empty)
      | .ok (.finish name,rest) => (d.read rest).popElement name
      | .ok (.chars data,rest) => .ok (.chars data,d.read rest)
      | .ok (.other,rest) => .ok (.other,d.read rest)
      | .ok (.procInst target data,rest) =>
        match declared cs target data rest with
        | .error e => .error e
        | .ok input => .ok (.other,{ d.read rest with input := input })

end MicrosoftDM.Xml
