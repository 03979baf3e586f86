import MicrosoftDM.Authentication
import MicrosoftDM.SchemaTree

/-!
The schema checker (schema/validation) and `Check` of mdmprotocol/mdm, which
runs it over every item of a command. Regular expressions, floating-point
syntax, case folding and the tokens of `encoding/xml` are parameters.
-/

set_option autoImplicit false

namespace MicrosoftDM.Validation
open Csp (Node Match Tree Registry Format AllowedValues ValueType)

inductive Rule where
  | unknownNode | verb | format | value | interiorValue | dynamicName
  deriving DecidableEq

/-- An error of one of the helpers: the format text and what `Errorf` fills in,
but for the text of a wrapped library error. -/
structure Cause where
  msg : GoString
  args : List GoString := []
  deriving DecidableEq

/-- `msg` is the format text and `args` what `Sprintf` fills in. -/
structure Problem where
  rule : Rule
  msg : GoString
  args : List GoString
  cause : Option Cause := none
  deriving DecidableEq

inductive Token where
  | startElement (name : GoString) (attrs : List (GoString × GoString))
  | endElement
  | charData (text : GoString)
  | other

/-- What the checker takes from the standard library. -/
structure Library extends Csp.Fold where
  /-- `regexp.Compile` and `MatchString`. -/
  compile : GoString → Option (GoString → Bool)
  parseFloat : GoString → Bool
  /-- The tokens up to the end, or up to an error. -/
  tokens : GoString → List Token × Bool

structure Command where
  verb : Syncml.Verb
  uri : GoString
  format : GoString := []
  value : Option GoString := none

structure Result where
  found : Option (Match × Tree) := none
  atomicRequired : Bool := false
  unevaluated : List GoString := []
  errors : List Problem := []

def Result.fail (r : Result) (rule : Rule) (msg : GoString) (args : List GoString) : Result :=
  { r with errors := r.errors ++ [{ rule := rule, msg := msg, args := args }] }

def Result.failIf (r : Result) (broken : Bool) (rule : Rule) (msg : GoString)
    (args : List GoString) : Result := if broken then r.fail rule msg args else r

def Result.failWith (r : Result) (rule : Rule) (uri : GoString) : Option Cause → Result
  | some err =>
    { r with errors := r.errors ++ [{ rule := rule, msg := "%s: %v", args := [uri], cause := err }] }
  | none => r

def Result.skip (r : Result) (constraint : GoString) : Result :=
  { r with unevaluated := r.unevaluated ++ [constraint] }

/-- `strconv.ParseInt` with base 10. -/
def parseInt (s : GoString) : Option Int := atoi s

def digitValue (b : UInt8) : Option Nat :=
  let n := b.toNat
  if 48 ≤ n ∧ n ≤ 57 then some (n-48)
  else if 97 ≤ n ∧ n ≤ 122 then some (n-87)
  else if 65 ≤ n ∧ n ≤ 90 then some (n-55)
  else none

def parseBase (base : Nat) : GoString → Nat → Option Nat
  | [], n => some n
  | b :: rest, n =>
    if b = 95 then parseBase base rest n
    else
      match digitValue b with
      | some d => if d < base then parseBase base rest (n*base+d) else none
      | none => none

def basePrefix : GoString → Nat × GoString
  | 48 :: b :: c :: rest =>
    if b = 98 ∨ b = 66 then (2,c :: rest)
    else if b = 111 ∨ b = 79 then (8,c :: rest)
    else if b = 120 ∨ b = 88 then (16,c :: rest)
    else (8,b :: c :: rest)
  | 48 :: rest => (8,rest)
  | s => (10,s)

inductive Seen where
  | start | digit | underscore | other
  deriving DecidableEq

def underscoreLoop (hex : Bool) : GoString → Seen → Bool
  | [], seen => seen ≠ .underscore
  | b :: rest, seen =>
    let n := b.toNat
    if (48 ≤ n ∧ n ≤ 57) ∨ (hex = true ∧ ((97 ≤ n ∧ n ≤ 102) ∨ (65 ≤ n ∧ n ≤ 70))) then
      underscoreLoop hex rest .digit
    else if b = 95 then
      if seen = .digit then underscoreLoop hex rest .underscore else false
    else if seen = .underscore then false
    else underscoreLoop hex rest .other

/-- `underscoreOK`, without sign. -/
def underscoreOK : GoString → Bool
  | 48 :: b :: rest =>
    if b = 98 ∨ b = 66 ∨ b = 111 ∨ b = 79 then underscoreLoop false rest .digit
    else if b = 120 ∨ b = 88 then underscoreLoop true rest .digit
    else underscoreLoop false (48 :: b :: rest) .start
  | s => underscoreLoop false s .start

def parseUintAuto (s : GoString) : Option Nat :=
  if s = [] then none
  else
    match parseBase (basePrefix s).1 (basePrefix s).2 0 with
    | some n => if (basePrefix s).2.contains 95 ∧ underscoreOK s = false then none else some n
    | none => none

/-- `strconv.ParseInt` with base 0. -/
def parseIntAuto (s : GoString) : Option Int :=
  let n : Option Int := match s with
    | 45 :: rest => (parseUintAuto rest).map fun n => -(n : Int)
    | 43 :: rest => (parseUintAuto rest).map Int.ofNat
    | s => (parseUintAuto s).map Int.ofNat
  n.filter fun n => minInt ≤ n ∧ n ≤ maxInt

section Checks
variable (lib : Library)

def wellFormed (v : GoString) : Bool := (lib.tokens ("<r>" ++ v ++ "</r>")).2

def checkFormat (f : Format) (v : GoString) : Option Cause :=
  match f with
  | .int => if (parseInt (trimSpace v)).isSome then none else some ⟨"%q is not an integer",[v]⟩
  | .bool =>
    if lib.toLower (trimSpace v) = utf8 "true" ∨ lib.toLower (trimSpace v) = utf8 "false" then none
    else some ⟨"%q is not true or false",[v]⟩
  | .b64 =>
    if (Mdm.base64Decode (trimSpace v)).isSome then none else some ⟨"value is not base64: %w",[]⟩
  | .xml => if wellFormed lib v then none else some ⟨"value is not well-formed XML: %w",[]⟩
  | .float => if lib.parseFloat (trimSpace v) then none else some ⟨"%q is not a number",[v]⟩
  | .null => if trimSpace v ≠ [] then some ⟨"null-format node takes no value",[]⟩ else none
  | .node | .chr | .bin | .time | .date => none

/-- `strings.Split` at a delimiter that is not empty. -/
def splitOn (delim : GoString) : Nat → GoString → GoString → List GoString
  | 0, _, part => [part]
  | _+1, [], part => [part]
  | fuel+1, b :: rest, part =>
    if delim.isPrefixOf (b :: rest) then part :: splitOn delim fuel ((b :: rest).drop delim.length) []
    else splitOn delim fuel rest (part ++ [b])

def listSeparator : GoString := [0xEF,0x80,0x80]

def splitList (v delim : GoString) : List GoString :=
  let delim := if delim = utf8 "0xF000" ∨ delim = utf8 "\\xF000" then listSeparator else delim
  (splitOn delim (v.length+1) v []).filter (· ≠ [])

def inEnum (es : List GoString) (v : GoString) : Bool :=
  es.any fun e => lib.equalFold e (trimSpace v)

def enumValues (es : List GoString) : GoString := (utf8 ", ").intercalate es

/-- The flags that can be read, as one mask. -/
def flagMask (es : List GoString) : BitVec 64 :=
  es.foldl (fun mask e =>
    match parseIntAuto e with
    | some f => mask ||| BitVec.ofInt 64 f
    | none => mask) 0

def checkFlag (es : List GoString) (v : GoString) : Option Cause :=
  match parseIntAuto (trimSpace v) with
  | none => some ⟨"%q is not an integer flag",[v]⟩
  | some n =>
    if BitVec.ofInt 64 n &&& ~~~flagMask es ≠ 0 then
      some ⟨"%d has bits outside the allowed flags (%s)",[itoa n,enumValues es]⟩
    else none

def isBlank (b : UInt8) : Bool := b = 32 ∨ b = 9 ∨ b = 10 ∨ b = 12 ∨ b = 13

/-- An optional minus and digits, and the rest. -/
def scanInt (s : GoString) : Option (GoString × GoString) :=
  match s with
  | 45 :: rest =>
    if rest.takeWhile isDigit = [] then none
    else some (45 :: rest.takeWhile isDigit,rest.dropWhile isDigit)
  | s => if s.takeWhile isDigit = [] then none else some (s.takeWhile isDigit,s.dropWhile isDigit)

def closes (s : GoString) : Bool := s.dropWhile isBlank = [93]

def scanRange (s : GoString) : Option (GoString × GoString) :=
  match s with
  | 91 :: rest =>
    match scanInt (rest.dropWhile isBlank) with
    | none => none
    | some (lo,rest) =>
      match rest.dropWhile isBlank with
      | 45 :: more =>
        match scanInt (more.dropWhile isBlank) with
        | some (hi,rest) => if closes rest then some (lo,hi) else none
        | none => none
      | rest => if closes rest then some (lo,[]) else none
  | _ => none

/-- The alternatives of `checkRange`. -/
def rangeLoop (spec : GoString) (n : Int) : List GoString → Option Cause
  | [] => some ⟨"%d is outside %s",[itoa n,spec]⟩
  | alt :: alts =>
    match scanRange (trimSpace alt) with
    | none => some ⟨"range %q is not understood",[spec]⟩
    | some (lo,hi) =>
      if atoiValue lo ≤ n ∧ n ≤ atoiValue (if hi = [] then lo else hi) then none
      else rangeLoop spec n alts

def checkRange (spec v : GoString) : Option Cause :=
  match parseInt (trimSpace v) with
  | none => some ⟨"%q is not an integer",[v]⟩
  | some n => rangeLoop spec n (splitAt 44 spec)

inductive AdmxState where
  | none | enabled | disabled
  deriving DecidableEq

def dataAttrs (attrs : List (GoString × GoString)) : Bool × Bool :=
  attrs.foldl (fun seen a =>
    if lib.toLower a.1 = utf8 "id" then (decide (a.2 ≠ []),seen.2)
    else if lib.toLower a.1 = utf8 "value" then (seen.1,true)
    else seen) (false,false)

def admxElement (name : GoString) (attrs : List (GoString × GoString)) (state : AdmxState) :
    Except Cause AdmxState :=
  let twice : Cause := ⟨"ADMX payload has more than one enabled/disabled element",[]⟩
  if lib.toLower name = utf8 "enabled" then
    if state = .none then .ok .enabled else .error twice
  else if lib.toLower name = utf8 "disabled" then
    if state = .none then .ok .disabled else .error twice
  else if lib.toLower name = utf8 "data" then
    if state ≠ .enabled then .error ⟨"ADMX data elements must follow <enabled/>",[]⟩
    else if dataAttrs lib attrs = (true,true) then .ok state
    else .error ⟨"ADMX data element needs id and value attributes",[]⟩
  else .error ⟨"ADMX payload has unexpected element %s",[name]⟩

/-- The loop of `checkADMX`. -/
def admxLoop (complete : Bool) : List Token → Nat → AdmxState → Option Cause
  | [], _, state =>
    if complete = false then some ⟨"ADMX payload is not well-formed XML: %w",[]⟩
    else if state = .none then some ⟨"ADMX payload needs <enabled/> or <disabled/>",[]⟩
    else none
  | .startElement name attrs :: rest, depth, state =>
    if depth = 0 then admxLoop complete rest 1 state
    else if depth ≥ 2 then some ⟨"ADMX payload elements cannot nest",[]⟩
    else
      match admxElement lib name attrs state with
      | .ok state => admxLoop complete rest (depth+1) state
      | .error e => some e
  | .endElement :: rest, depth, state => admxLoop complete rest (depth-1) state
  | .charData text :: rest, depth, state =>
    if depth ≥ 1 ∧ trimSpace text ≠ [] then some ⟨"ADMX payload cannot contain text",[]⟩
    else admxLoop complete rest depth state
  | .other :: rest, depth, state => admxLoop complete rest depth state

def checkADMX (v : GoString) : Option Cause :=
  let r := lib.tokens ("<r>" ++ v ++ "</r>")
  admxLoop lib r.2 r.1 0 .none

/-- One value against the allowed ones. -/
def checkAllowed (n : Node) (av : AllowedValues) (res : Result) (one : GoString) : Result :=
  match av.type with
  | .enum =>
    res.failIf (!inEnum lib av.enum one) .value "%s: %q is not one of %s"
      [n.uri,one,enumValues av.enum]
  | .flag => res.failWith .value n.uri (checkFlag av.enum one)
  | .range => res.failWith .value n.uri (checkRange av.value one)
  | .regEx =>
    match lib.compile av.value with
    | none => res.skip ("RegEx (pattern does not compile in Go: " ++ av.value ++ ")")
    | some re => res.failIf (!re one) .value "%s: %q does not match %s" [n.uri,one,av.value]
  | .admx => res.failWith .value n.uri (checkADMX lib one)
  | .xsd | .sddl | .json => res.skip av.type.text
  | .none => res

def checkDynamicNames (params : GoMap GoString) (res : Result) (way : List Node) : Result :=
  way.foldl (fun res n =>
    if n.dynamic = false ∨ n.naming.kind ≠ .uniqueName ∨ n.naming.pattern = [] then res
    else
      match params.lookup n.title,lib.compile ("^(?:" ++ n.naming.pattern ++ ")$") with
      | some v,some re =>
        res.failIf (!re v) .dynamicName "%s: %q does not match %s" [n.uri,v,n.naming.pattern]
      | _,_ => res) res

def checkInterior (c : Command) (n : Node) (res : Result) : Result :=
  let res := res.failIf (c.value.any (· ≠ [])) .interiorValue "%s is an interior node" [n.uri]
  res.failIf (c.format ≠ [] ∧ c.format ≠ Format.node.text) .format
    "%s is an interior node; Meta/Format must be node, got %q" [n.uri,c.format]

def checkValue (n : Node) (res : Result) (v : GoString) : Result :=
  let res := res.failWith .format n.uri (checkFormat lib n.format v)
  match n.allowedValues with
  | none => res
  | some av =>
    (if av.listDelimiter ≠ [] then splitList v av.listDelimiter else [v]).foldl
      (checkAllowed lib n av) res

def checkLeaf (c : Command) (n : Node) (res : Result) : Result :=
  let res := res.failIf
    (c.format ≠ [] ∧ c.format ≠ n.format.text ∧ ¬(n.format = .chr ∧ c.format = utf8 "xml")) .format
    "%s has DFFormat %s; Meta/Format %q does not match" [n.uri,n.format.text,c.format]
  match c.value with
  | none =>
    res.failIf (c.verb ≠ .exec ∧ n.format ≠ .null) .format "%s %s needs a value" [c.verb.name,n.uri]
  | some v => checkValue lib n res v

def accessText (access : List Csp.Access) : GoString :=
  "[" ++ (utf8 " ").intercalate (access.map Syncml.Verb.name) ++ "]"

/-- `Check` of schema/validation. -/
def check (reg : Registry) (c : Command) : Result :=
  match reg.lookup lib.toFold c.uri with
  | none => ({} : Result).fail .unknownNode "%q is not in the DDF bundle" [c.uri]
  | some (m,tree) =>
    let res : Result :=
      { found := some (m,tree), atomicRequired := m.trail.any Node.atomicRequired }
    let res := res.failIf (!m.node.allows c.verb) .verb "%s does not permit %s (allowed: %v)"
      [m.node.uri,c.verb.name,accessText m.node.access]
    let res := checkDynamicNames lib m.params res m.trail
    if c.verb = .get ∨ c.verb = .delete then res
    else if m.node.leaf then checkLeaf lib c m.node res
    else checkInterior c m.node res

end Checks

section Growing
variable {lib : Library} {r : Result}

theorem Result.failIf_errors (broken : Bool) (rule : Rule) (msg : GoString) (args : List GoString) :
    r.errors <+: (r.failIf broken rule msg args).errors := by
  unfold failIf
  split
  · exact List.prefix_append _ _
  · exact List.prefix_refl _

theorem Result.failWith_errors (rule : Rule) (uri : GoString) (cause : Option Cause) :
    r.errors <+: (r.failWith rule uri cause).errors := by
  cases cause with
  | none => exact List.prefix_refl _
  | some c => exact List.prefix_append _ _

theorem checkAllowed_errors (n : Node) (av : AllowedValues) (one : GoString) :
    r.errors <+: (checkAllowed lib n av r one).errors := by
  unfold checkAllowed
  split
  · exact Result.failIf_errors _ _ _ _
  · exact Result.failWith_errors _ _ _
  · exact Result.failWith_errors _ _ _
  · split
    · exact List.prefix_refl _
    · exact Result.failIf_errors _ _ _ _
  · exact Result.failWith_errors _ _ _
  all_goals exact List.prefix_refl _

theorem foldl_errors {α : Type} {f : Result → α → Result}
    (hf : ∀ r x, r.errors <+: (f r x).errors) (xs : List α) (r : Result) :
    r.errors <+: (xs.foldl f r).errors := by
  induction xs generalizing r with
  | nil => exact List.prefix_refl _
  | cons x xs ih => exact (hf r x).trans (ih _)

theorem checkDynamicNames_errors (params : GoMap GoString) (way : List Node) :
    r.errors <+: (checkDynamicNames lib params r way).errors := by
  refine foldl_errors ?_ way r
  intro r n
  split
  · exact List.prefix_refl _
  split
  · exact Result.failIf_errors _ _ _ _
  · exact List.prefix_refl _

theorem checkInterior_errors (c : Command) (n : Node) :
    r.errors <+: (checkInterior c n r).errors :=
  (Result.failIf_errors _ _ _ _).trans (Result.failIf_errors _ _ _ _)

theorem checkValue_errors (n : Node) (v : GoString) : r.errors <+: (checkValue lib n r v).errors := by
  unfold checkValue
  dsimp only
  split
  · exact Result.failWith_errors _ _ _
  · exact (Result.failWith_errors _ _ _).trans
      (foldl_errors (fun r one => checkAllowed_errors _ _ one) _ _)

theorem checkLeaf_errors (c : Command) (n : Node) : r.errors <+: (checkLeaf lib c n r).errors := by
  unfold checkLeaf
  dsimp only
  split
  · exact (Result.failIf_errors _ _ _ _).trans (Result.failIf_errors _ _ _ _)
  · exact (Result.failIf_errors _ _ _ _).trans (checkValue_errors n _)

theorem check_accepts {reg : Registry} {c : Command} (h : (check lib reg c).errors = []) :
    ∃ m t, reg.lookup lib.toFold c.uri = some (m,t) ∧ t ∈ reg.trees ∧
      m.node.allows c.verb = true := by
  unfold check at h
  split at h
  · simp [Result.fail] at h
  rename_i m t hl
  refine ⟨m,t,hl,(Registry.lookup_tree hl).1,?_⟩
  by_contra hverb
  dsimp only at h
  generalize hr : Result.failIf _ (!m.node.allows c.verb) _ _ _ = r at h
  have hne : r.errors ≠ [] := by
    rw [← hr,Result.failIf,if_pos (by simpa using hverb)]
    simp [Result.fail]
  have hnames : r.errors <+: (checkDynamicNames lib m.params r m.trail).errors :=
    checkDynamicNames_errors _ _
  have hgrows : r.errors <+: [] := by
    rw [← h]
    refine hnames.trans ?_
    split
    · exact List.prefix_refl _
    split
    · exact checkLeaf_errors c m.node
    · exact checkInterior_errors c m.node
  exact hne (List.prefix_nil.mp hgrows)

end Growing

end MicrosoftDM.Validation

namespace MicrosoftDM.Mdm
open MicrosoftDM.Syncml (Item)

inductive CheckError where
  | command (e : CommandError)
  | schema (problems : List (List Validation.Problem))
  deriving DecidableEq

/-- An item as the schema checker gets it. -/
def schemaCommand (verb : Syncml.Verb) (it : Item) : Validation.Command where
  verb := verb
  uri := it.target
  format := (it.metinf.map Syncml.Meta.format).getD []
  value := it.data.map Syncml.Data.text

/-- The problems of a leaf's items; only leaf commands have items. -/
def leafProblems (lib : Validation.Library) (reg : Csp.Registry) :
    Syncml.Command → List (List Validation.Problem)
  | .leaf verb b =>
    (b.items.map fun it => (Validation.check lib reg (schemaCommand verb it)).errors).filter (· ≠ [])
  | _ => []

/-- `Check`; a nil registry checks nothing but the command itself. -/
def check (lib : Validation.Library) (reg : Option Csp.Registry) (c : Command) : Option CheckError :=
  match validate c with
  | some e => some (.command e)
  | none =>
    match reg with
    | none => none
    | some reg =>
      if (leaves c.body).flatMap (leafProblems lib reg) = [] then none
      else some (.schema ((leaves c.body).flatMap (leafProblems lib reg)))

section Checked
variable {lib : Validation.Library} {reg : Csp.Registry}

theorem check_congr (o : Option Csp.Registry) {c d : Command} (hs : c.scope = d.scope)
    (hb : c.body = d.body) : check lib o c = check lib o d := by
  have hv : validate c = validate d := by
    unfold validate checkAtomic
    rw [hs,hb]
  unfold check
  rw [hv,hb]

theorem check_permits {c : Command} (h : check lib (some reg) c = none) {verb : Syncml.Verb}
    {b : Syncml.Leaf} (hl : .leaf verb b ∈ leaves c.body) {it : Item} (hit : it ∈ b.items) :
    ∃ m t, reg.lookup lib.toFold it.target = some (m,t) ∧ t ∈ reg.trees ∧
      m.node.allows verb = true := by
  unfold check at h
  split at h
  · cases h
  dsimp only at h
  split at h
  · rename_i hnone
    have hleaf := List.flatMap_eq_nil_iff.mp hnone _ hl
    have hitem := List.filter_eq_nil_iff.mp hleaf _ (List.mem_map_of_mem hit)
    exact Validation.check_accepts (by simpa using hitem)
  · cases h

end Checked

end MicrosoftDM.Mdm
