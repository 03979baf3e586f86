import Mathlib.Data.List.Sort
import MicrosoftDM.GoMap
import MicrosoftDM.SyncMLMessage

/-!
The trees of the DDF bundle and how a LocURI is resolved in them
(schema/csp/model.go and registry.go). Of a node only what the checker reads
is kept; the descriptive fields are left out.
-/

set_option autoImplicit false

namespace MicrosoftDM.Csp

inductive Scope where
  | device | user | legacy
  deriving DecidableEq

inductive Format where
  | node | chr | int | bool | b64 | null | xml | bin | time | date | float
  deriving DecidableEq

def Format.text : Format → GoString
  | .node => "node"
  | .chr => "chr"
  | .int => "int"
  | .bool => "bool"
  | .b64 => "b64"
  | .null => "null"
  | .xml => "xml"
  | .bin => "bin"
  | .time => "time"
  | .date => "date"
  | .float => "float"

/-- The five verbs of AccessType are those of the leaf commands. -/
abbrev Access := Syncml.Verb

inductive NamingKind where
  | unspecified | uniqueName | clientInventory | serverGeneratedUniqueIdentifier
  deriving DecidableEq

structure Naming where
  kind : NamingKind := .unspecified
  pattern : GoString := []

inductive ValueType where
  | none | enum | flag | range | regEx | xsd | admx | sddl | json
  deriving DecidableEq

def ValueType.text : ValueType → GoString
  | .none => "None"
  | .enum => "ENUM"
  | .flag => "Flag"
  | .range => "Range"
  | .regEx => "RegEx"
  | .xsd => "XSD"
  | .admx => "ADMX"
  | .sddl => "SDDL"
  | .json => "JSON"

structure AllowedValues where
  type : ValueType
  value : GoString := []
  enum : List GoString := []
  listDelimiter : GoString := []

structure Node where
  name : GoString := []
  title : GoString := []
  uri : GoString
  format : Format
  access : List Access
  caseSensitive : Bool := false
  dynamic : Bool := false
  naming : Naming := {}
  allowedValues : Option AllowedValues := none
  atomicRequired : Bool := false
  children : List Node := []

def Node.leaf (n : Node) : Bool := n.format ≠ .node

def Node.allows (n : Node) (a : Access) : Bool := a ∈ n.access

structure Tree where
  name : GoString := []
  scope : Scope
  root : Node

/-- The result of `Lookup`. Go compares node pointers to find the way from the
root to the node again; here the way is kept. -/
structure Match where
  node : Node
  trail : List Node
  params : GoMap GoString

/-- What is taken from the Unicode tables of `strings`. -/
structure Fold where
  equalFold : GoString → GoString → Bool
  toLower : GoString → GoString

def unhex (b : UInt8) : Option Nat :=
  let n := b.toNat
  if 48 ≤ n ∧ n ≤ 57 then some (n-48)
  else if 97 ≤ n ∧ n ≤ 102 then some (n-87)
  else if 65 ≤ n ∧ n ≤ 70 then some (n-55)
  else none

/-- `url.PathUnescape`; `none` is a broken escape. -/
def pathUnescape : GoString → Option GoString
  | [] => some []
  | 37 :: a :: b :: rest =>
    match unhex a,unhex b,pathUnescape rest with
    | some x,some y,some s => some ((x*16+y).toUInt8 :: s)
    | _,_,_ => none
  | b :: rest => if b = 37 then none else (pathUnescape rest).map (b :: ·)

def trimSlash (s : GoString) : GoString := if s.getLast? = some slash then s.dropLast else s

def segments (uri : GoString) : List GoString :=
  ((splitAt slash (trimSlash (uri.takeWhile (· ≠ 63)))).filter (· ≠ [])).map fun p =>
    (pathUnescape p).getD p

def joinSegments (segs : List GoString) : GoString := [slash].intercalate segs

section Lookup
variable (fold : Fold)

def Node.named (seg : GoString) (c : Node) : Bool :=
  !c.dynamic && if c.caseSensitive then c.name == seg else fold.equalFold c.name seg

def Node.descend : List GoString → Node → List Node → GoMap GoString → Option Match
  | [], n, trail, params => some ⟨n,trail ++ [n],params⟩
  | seg :: segs, n, trail, params =>
    match n.children.find? (Node.named fold seg) with
    | some c => c.descend segs (trail ++ [n]) params
    | none =>
      match n.children.find? (·.dynamic) with
      | some c => c.descend segs (trail ++ [n]) (params.insert c.title seg)
      | none => none

/-- The scope segment that a legacy root may be addressed with. -/
def Tree.dropDevice (t : Tree) : List GoString → List GoString
  | first :: second :: rest =>
    if t.scope = .legacy ∧ fold.equalFold second "Device" = true then first :: rest
    else first :: second :: rest
  | segs => segs

def Tree.lookup (t : Tree) (uri : GoString) : Option Match :=
  let segs := t.dropDevice fold (segments uri)
  let root := segments t.root.uri
  if segs.length < root.length then none
  else if (segs.zip root).all fun p => fold.equalFold p.1 p.2 then
    t.root.descend fold (segs.drop root.length) [] ∅
  else none

/-- The index by root is the order of the trees themselves. -/
structure Registry where
  trees : List Tree

def Registry.byRoot (r : Registry) (key : GoString) : List Tree :=
  r.trees.filter fun t => fold.toLower t.root.uri = key

def Registry.prefixed (r : Registry) (segs : List GoString) : Nat → List Tree
  | 0 => []
  | i+1 =>
    if i = 0 ∧ segs.head? = some (utf8 ".") then []
    else r.byRoot fold (fold.toLower (joinSegments (segs.take (i+1)))) ++ r.prefixed segs i

def Registry.legacy (r : Registry) (first : GoString) (rest : List GoString) : Nat → List Tree
  | 0 => (r.byRoot fold (fold.toLower first)).filter fun t => t.scope = .legacy
  | i+1 =>
    ((r.byRoot fold (fold.toLower (joinSegments (first :: rest.take (i+1))))).filter fun t =>
      t.scope = .legacy) ++ r.legacy first rest i

/-- The trees whose root is a prefix of the address, in the order of the loops. -/
def Registry.matching (r : Registry) (segs : List GoString) : List Tree :=
  let legacy := match segs with
    | first :: second :: rest =>
      if fold.equalFold second "Device" then r.legacy fold first rest rest.length else []
    | _ => []
  r.prefixed fold segs segs.length ++ legacy

def Registry.candidates (r : Registry) (uri : GoString) : List Tree :=
  (r.matching fold (segments uri)).insertionSort fun a b => b.root.uri.length ≤ a.root.uri.length

def hasScopePrefix (uri : GoString) : Bool :=
  let l := fold.toLower uri
  (utf8 "./device/").isPrefixOf l || (utf8 "./user/").isPrefixOf l || l == utf8 "./device" ||
    l == utf8 "./user"

def firstMatch (uri : GoString) : List Tree → Option (Match × Tree)
  | [] => none
  | t :: ts =>
    match t.lookup fold uri with
    | some m => some (m,t)
    | none => firstMatch uri ts

def aliased (uri : GoString) : GoString :=
  "./Device" ++ (if uri.head? = some 46 then uri.tail else uri)

def Registry.lookup (r : Registry) (uri : GoString) : Option (Match × Tree) :=
  match firstMatch fold uri (r.candidates fold uri) with
  | some found => some found
  | none =>
    if hasScopePrefix fold uri then none
    else firstMatch fold (aliased uri) (r.candidates fold (aliased uri))

end Lookup

variable {uri : GoString} {m : Match} {t : Tree}

section Facts
variable {fold : Fold}

theorem firstMatch_mem {ts : List Tree}
    (h : firstMatch fold uri ts = some (m,t)) : t ∈ ts ∧ t.lookup fold uri = some m := by
  induction ts with
  | nil => cases h
  | cons x xs ih =>
    unfold firstMatch at h
    split at h
    · rename_i m' hm
      cases h
      exact ⟨List.mem_cons_self,hm⟩
    · obtain ⟨ht,hm⟩ := ih h
      exact ⟨List.mem_cons_of_mem x ht,hm⟩

theorem Registry.prefixed_sub (r : Registry) (segs : List GoString) (i : Nat) :
    ∀ t ∈ r.prefixed fold segs i, t ∈ r.trees := by
  induction i with
  | zero => intro t h; cases h
  | succ i ih =>
    intro t h
    unfold prefixed at h
    split at h
    · cases h
    rcases List.mem_append.mp h with h | h
    · exact List.mem_of_mem_filter h
    · exact ih t h

theorem Registry.legacy_sub (r : Registry) (first : GoString) (rest : List GoString) (i : Nat) :
    ∀ t ∈ r.legacy fold first rest i, t ∈ r.trees := by
  induction i with
  | zero =>
    intro t h
    exact List.mem_of_mem_filter (List.mem_of_mem_filter h)
  | succ i ih =>
    intro t h
    rcases List.mem_append.mp h with h | h
    · exact List.mem_of_mem_filter (List.mem_of_mem_filter h)
    · exact ih t h

theorem Registry.candidates_sub (r : Registry) (uri : GoString) :
    ∀ t ∈ r.candidates fold uri, t ∈ r.trees := by
  intro t h
  have h := (List.perm_insertionSort _ _).mem_iff.mp h
  rcases List.mem_append.mp h with h | h
  · exact r.prefixed_sub _ _ t h
  split at h
  · split at h
    · exact r.legacy_sub _ _ _ t h
    · cases h
  · cases h

theorem Registry.lookup_tree {r : Registry}
    (h : r.lookup fold uri = some (m,t)) :
    t ∈ r.trees ∧ (t.lookup fold uri = some m ∨ t.lookup fold (aliased uri) = some m) := by
  unfold lookup at h
  split at h
  · rename_i found hf
    cases h
    obtain ⟨ht,hm⟩ := firstMatch_mem hf
    exact ⟨r.candidates_sub uri t ht,.inl hm⟩
  split at h
  · cases h
  · obtain ⟨ht,hm⟩ := firstMatch_mem h
    exact ⟨r.candidates_sub _ t ht,.inr hm⟩

end Facts

end MicrosoftDM.Csp
