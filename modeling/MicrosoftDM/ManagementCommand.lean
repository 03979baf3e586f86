import MicrosoftDM.SyncMLValidate

/-! Commands a server queues for a device (mdmprotocol/mdm/command.go): scope,
builders and the structural check `Validate`. -/

set_option autoImplicit false

namespace MicrosoftDM.Mdm
open MicrosoftDM.Syncml (Verb GroupKind Item Meta Data Leaf checkLocURI)

inductive Scope where
  | device | user
  deriving DecidableEq

def Scope.text : Scope → GoString
  | .device => "device"
  | .user => "user"

/-- `ScopeOf`. The first seven bytes are compared, so a rune of several bytes
never matches there. -/
def scopeOf (uri : GoString) : Scope :=
  let u := trimSpace uri
  if (u.length ≥ 7 ∧ equalFold (u.take 7) "./User/" = true) ∨ equalFold u "./User" = true then .user
  else .device

/-- The SyncML body is never nil: `Validate` refuses such a command before it
can be queued. -/
structure Command where
  id : GoString := []
  scope : Scope
  body : Syncml.Command
  internal : Bool := false

inductive CommandError where
  | notServerCommand (name : GoString)
  | empty (name : GoString)
  | withoutItems (name : GoString)
  | execItems
  | locURI (err : GoString)
  | scopeConflict (target : GoString) (targetScope commandScope : Scope)
  | getNeedsURI
  | getMixesScopes
  | emptyAtomic
  | nestedAtomic
  | getInsideAtomic
  | getThroughSequence
  | atomicThroughSequence
  | atomicMixesScopes
  | addThenReplace (uri : GoString)
  | emptySequence
  | insideSequence (name : GoString)
  | sequenceMixesScopes
  deriving DecidableEq

structure Options where
  format : GoString := []
  typ : GoString := []
  xml : Bool := false
  id : GoString := []

def item (uri : GoString) (value : Option GoString) (o : Options) : Except CommandError Item :=
  match checkLocURI uri with
  | some err => .error (.locURI err)
  | none => .ok {
      target := uri
      metinf := if o.format ≠ [] ∨ o.typ ≠ [] then some { format := o.format, type := o.typ } else none
      data := value.map fun v => if o.xml then { xml := v } else { value := v } }

/-- `NewAdd`, `NewReplace`, `NewDelete` and `NewExec` around their one item. -/
def newLeaf (verb : Verb) (uri : GoString) (value : Option GoString) (o : Options) :
    Except CommandError Command :=
  match item uri value o with
  | .ok it => .ok { id := o.id, scope := scopeOf uri, body := .leaf verb { items := [it] } }
  | .error e => .error e

def newAdd (uri value : GoString) (o : Options) : Except CommandError Command :=
  newLeaf .add uri (some value) o

def newReplace (uri value : GoString) (o : Options) : Except CommandError Command :=
  newLeaf .replace uri (some value) o

def newDelete (uri : GoString) (o : Options) : Except CommandError Command :=
  newLeaf .delete uri none o

def newExec (uri value : GoString) (o : Options) : Except CommandError Command :=
  newLeaf .exec uri (if value ≠ [] then some value else none) o

def getItems (scope : Scope) (o : Options) : List GoString → Except CommandError (List Item)
  | [] => .ok []
  | u :: us =>
    match item u none o with
    | .error e => .error e
    | .ok it =>
      if scopeOf u ≠ scope then .error .getMixesScopes
      else
        match getItems scope o us with
        | .ok rest => .ok (it :: rest)
        | .error e => .error e

def newGet (uris : List GoString) (o : Options) : Except CommandError Command :=
  match uris with
  | [] => .error .getNeedsURI
  | u :: _ =>
    match getItems (scopeOf u) o uris with
    | .ok items => .ok { id := o.id, scope := scopeOf u, body := .leaf .get { items := items } }
    | .error e => .error e

def itemsOf : Syncml.Command → List Item
  | .leaf _ b => b.items
  | _ => []

def targets (c : Syncml.Command) : List GoString := (itemsOf c).map Item.target

/- `Leaves`: the command itself, or the leaves of the members of a group. -/
mutual
def leaves : Syncml.Command → List Syncml.Command
  | .group _ _ _ _ cs => leavesAll cs
  | .leaf v b => [.leaf v b]
  | .alert a => [.alert a]
  | .status s => [.status s]
  | .results r => [.results r]

def leavesAll : List Syncml.Command → List Syncml.Command
  | [] => []
  | c :: cs => leaves c ++ leavesAll cs
end

theorem leavesAll_eq_flatMap (cs : List Syncml.Command) : leavesAll cs = cs.flatMap leaves := by
  induction cs with
  | nil => rfl
  | cons c cs ih => simp [leavesAll,ih]

def checkThroughSequence : List Syncml.Command → Option CommandError
  | [] => none
  | .leaf .get _ :: _ => some .getThroughSequence
  | .group .atomic _ _ _ _ :: _ => some .atomicThroughSequence
  | _ :: cs => checkThroughSequence cs

def checkAtomicMember : Syncml.Command → Option CommandError
  | .group .atomic _ _ _ _ => some .nestedAtomic
  | .leaf .get _ => some .getInsideAtomic
  | .group .sequence _ _ _ cs => checkThroughSequence cs
  | _ => none

/-- `seen` is the name of the last member that touched each node. -/
def checkAddReplace (name : GoString) :
    List GoString → GoMap GoString → Except CommandError (GoMap GoString)
  | [], seen => .ok seen
  | uri :: uris, seen =>
    if seen.lookup uri = some Syncml.cmdAdd ∧ name = Syncml.cmdReplace then .error (.addThenReplace uri)
    else checkAddReplace name uris (seen.insert uri name)

def atomicMembers (scope : Scope) : List Command → GoMap GoString → Option CommandError
  | [], _ => none
  | c :: cs, seen =>
    match checkAtomicMember c.body with
    | some e => some e
    | none =>
      if c.scope ≠ scope then some .atomicMixesScopes
      else
        match checkAddReplace c.body.name (targets c.body) seen with
        | .ok seen => atomicMembers scope cs seen
        | .error e => some e

def newAtomic (cmds : List Command) (o : Options) : Except CommandError Command :=
  match cmds with
  | [] => .error .emptyAtomic
  | c :: _ =>
    match atomicMembers c.scope cmds ∅ with
    | some e => .error e
    | none => .ok {
        id := o.id, scope := c.scope
        body := .group .atomic [] false none (cmds.map Command.body) }

def sequenceMembers (scope : Scope) : List Command → Option CommandError
  | [] => none
  | c :: cs =>
    match c.body with
    | .group kind _ _ _ _ => some (.insideSequence kind.name)
    | _ => if c.scope ≠ scope then some .sequenceMixesScopes else sequenceMembers scope cs

def newSequence (cmds : List Command) (o : Options) : Except CommandError Command :=
  match cmds with
  | [] => .error .emptySequence
  | c :: _ =>
    match sequenceMembers c.scope cmds with
    | some e => .error e
    | none => .ok {
        id := o.id, scope := c.scope
        body := .group .sequence [] false none (cmds.map Command.body) }

def checkItems (scope : Scope) : List Item → Option CommandError
  | [] => none
  | it :: rest =>
    match checkLocURI it.target with
    | some err => some (.locURI err)
    | none =>
      if scopeOf it.target ≠ scope then
        some (.scopeConflict it.target (scopeOf it.target) scope)
      else checkItems scope rest

def isExec : Syncml.Command → Bool
  | .leaf .exec _ => true
  | _ => false

def checkLeaves (scope : Scope) : List Syncml.Command → Option CommandError
  | [] => none
  | leaf :: rest =>
    if (itemsOf leaf).length = 0 then some (.withoutItems leaf.name)
    else if isExec leaf ∧ (itemsOf leaf).length ≠ 1 then some .execItems
    else
      match checkItems scope (itemsOf leaf) with
      | some e => some e
      | none => checkLeaves scope rest

def checkAtomic (c : Command) : Option CommandError :=
  match c.body with
  | .group .atomic _ _ _ cs =>
    match newAtomic (cs.map fun inner => { scope := c.scope, body := inner }) {} with
    | .error e => some e
    | .ok _ => none
  | _ => none

def validate (c : Command) : Option CommandError :=
  match c.body with
  | .status _ | .results _ | .alert _ => some (.notServerCommand c.body.name)
  | .leaf _ _ | .group _ _ _ _ _ =>
    if (leaves c.body).length = 0 then some (.empty c.body.name)
    else
      match checkLeaves c.scope (leaves c.body) with
      | some e => some e
      | none => checkAtomic c

/-- Leaf commands and groups of them: what a queued body is made of. -/
def isLeaf : Syncml.Command → Bool
  | .leaf _ _ => true
  | _ => false

def isGroup : Syncml.Command → Bool
  | .group _ _ _ _ _ => true
  | _ => false

variable {scope : Scope} {cs : List Syncml.Command} {c : Command}

theorem checkLeaves_none_isLeaf
    (h : checkLeaves scope cs = none) : ∀ c ∈ cs, isLeaf c = true := by
  induction cs with
  | nil => intro c hc; cases hc
  | cons leaf rest ih =>
    simp only [checkLeaves] at h
    split at h
    · cases h
    rename_i hlen
    split at h
    · cases h
    split at h
    · cases h
    intro c hc
    rcases List.mem_cons.mp hc with hc | hc
    · subst hc
      cases c with
      | leaf v b => rfl
      | group _ _ _ _ _ | alert _ | status _ | results _ => simp [itemsOf] at hlen
    · exact ih h c hc

theorem validate_checkLeaves (h : validate c = none) :
    checkLeaves c.scope (leaves c.body) = none := by
  unfold validate at h
  split at h
  · cases h
  · cases h
  · cases h
  · split at h
    · cases h
    split at h
    · cases h
    · assumption
  · split at h
    · cases h
    split at h
    · cases h
    · assumption

theorem validate_leaves_isLeaf (h : validate c = none) :
    ∀ l ∈ leaves c.body, isLeaf l = true :=
  checkLeaves_none_isLeaf (validate_checkLeaves h)

theorem checkItems_none_scope {items : List Item}
    (h : checkItems scope items = none) : ∀ it ∈ items, scopeOf it.target = scope := by
  induction items with
  | nil => intro it hit; cases hit
  | cons x rest ih =>
    simp only [checkItems] at h
    split at h
    · cases h
    split at h
    · cases h
    rename_i hs
    intro it hit
    rcases List.mem_cons.mp hit with rfl | hit
    · exact Decidable.of_not_not hs
    · exact ih h it hit

theorem checkLeaves_none_scope
    (h : checkLeaves scope cs = none) :
    ∀ c ∈ cs, ∀ it ∈ itemsOf c, scopeOf it.target = scope := by
  induction cs with
  | nil => intro c hc; cases hc
  | cons leaf rest ih =>
    simp only [checkLeaves] at h
    split at h
    · cases h
    split at h
    · cases h
    split at h
    · cases h
    rename_i hitems
    intro c hc
    rcases List.mem_cons.mp hc with rfl | hc
    · exact checkItems_none_scope hitems
    · exact ih h c hc

theorem validate_leaves_scope (h : validate c = none) :
    ∀ l ∈ leaves c.body, ∀ it ∈ itemsOf l, scopeOf it.target = c.scope :=
  checkLeaves_none_scope (validate_checkLeaves h)

end MicrosoftDM.Mdm
