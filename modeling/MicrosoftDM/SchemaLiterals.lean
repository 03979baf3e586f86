import Mathlib.Data.List.Infix
import MicrosoftDM.SchemaFacts

/-!
From a DDF file to the generated literal and back: `convert` gives each node its effective
applicability, the literal has only a node's own, and `csp.Inherit` restores the rest.
`encoding/xml` has read the file, and a quoted string evaluates to itself.
-/

set_option autoImplicit false

namespace MicrosoftDM.Ddf
open Csp (Applicability Deprecated Format)

structure XmlApplicability where
  osBuildVersion : GoString := []
  cspVersion : GoString := []
  editionAllowList : GoString := []
  requiresAzureAd : Bool := false

structure XmlNaming where
  uniqueName : Option GoString := none
  clientInventory : Bool := false
  serverGenerated : Bool := false

structure XmlDependency where
  type : GoString
  uri : GoString
  allowedValue : Option AllowedValues

structure XmlGroup where
  friendlyID : GoString
  changed : Option AllowedValues
  dependencies : List XmlDependency

/-- `xmlProperties`; a choice is the list of the names of its elements. -/
structure Properties where
  accessType : List GoString := []
  description : GoString := []
  format : List GoString := []
  occurrence : List GoString := []
  scope : List GoString := []
  title : GoString := []
  mime : GoString := []
  defaultValue : GoString := []
  caseSense : List GoString := []
  applicability : Option XmlApplicability := none
  dynamicNaming : Option XmlNaming := none
  allowedValues : Option AllowedValues := none
  gpMapping : Option GpMapping := none
  conflictResolution : GoString := []
  replaceBehavior : GoString := []
  rebootBehavior : GoString := []
  atomicRequired : Bool := false
  deprecated : Option GoString := none
  groups : List XmlGroup := []

inductive XmlNode where
  | mk (nodeName : GoString) (path : Option GoString) (properties : Properties) (nodes : List XmlNode)

inductive Error where
  | noRoot | noPath (name : GoString) | emptyPath (name : GoString)
  | innerPath (uri : GoString) | noFormat (uri : GoString) | unknownFormat (uri format : GoString)
  | emptyNaming (uri : GoString) | unknownValueType (uri type : GoString)
  | noTitle (uri : GoString) | sameName (uri seg : GoString)

def splitList (s : GoString) (sep : UInt8) : List GoString :=
  ((splitAt sep s).map trimSpace).filter (· ≠ [])

def XmlApplicability.convert (a : XmlApplicability) : Applicability :=
  ⟨splitList a.osBuildVersion 44,trimSpace a.cspVersion,splitList a.editionAllowList 59,a.requiresAzureAd⟩

def trimEnum (e : EnumValue) : EnumValue := ⟨trimSpace e.value,trimSpace e.description⟩

def convertValues (uri : GoString) (a : AllowedValues) : Except Error AllowedValues :=
  if a.type ∈ ([.none,.enum,.flag,.range,.regEx,.xsd,.admx,.sddl,.json] : List Csp.ValueType).map (·.text) then
    .ok { a with value := trimSpace a.value, enum := a.enum.map trimEnum }
  else .error (.unknownValueType uri a.type)

def formatOf (uri : GoString) (pr : Properties) : Except Error Format :=
  let f := pr.format.headD []
  if f = [] then .error (.noFormat uri)
  else
    match ([.node,.chr,.int,.bool,.b64,.null,.xml,.bin,.time,.date,.float] : List Format).find? (·.text = f) with
    | some format => .ok format
    | none => .error (.unknownFormat uri f)

def namingOf (uri : GoString) (pr : Properties) : Except Error Naming :=
  match pr.dynamicNaming with
  | none => .ok {}
  | some n =>
    match n.uniqueName with
    | some pattern => .ok ⟨"UniqueName",trimSpace pattern⟩
    | none =>
      if n.clientInventory then .ok ⟨"ClientInventory",[]⟩
      else if n.serverGenerated then .ok ⟨"ServerGeneratedUniqueIdentifier",[]⟩
      else .error (.emptyNaming uri)

def XmlDependency.convert (d : XmlDependency) : Dependency :=
  match d.allowedValue with
  | none => { type := d.type, uri := trimSpace d.uri }
  | some a => ⟨d.type,trimSpace d.uri,a.type,trimSpace a.value,a.enum.map trimEnum⟩

def XmlGroup.convert (uri : GoString) (g : XmlGroup) : Except Error DependencyGroup := do
  let changed ← g.changed.mapM (convertValues uri)
  pure ⟨g.friendlyID,changed,g.dependencies.map XmlDependency.convert⟩

/-- `convert`, without the children. -/
def factsOf (name uri : GoString) (pr : Properties) (inherited : Option Applicability) :
    Except Error Facts := do
  let format ← formatOf uri pr
  let naming ← namingOf uri pr
  let allowedValues ← pr.allowedValues.mapM (convertValues uri)
  let dependencies ← pr.groups.mapM (XmlGroup.convert uri)
  pure {
    name := name, title := trimSpace pr.title, uri := uri, dynamic := name = [], format := format
    access := pr.accessType.mergeSort fun a b => a ≤ b
    description := trimSpace pr.description, defaultValue := trimSpace pr.defaultValue
    occurrence := pr.occurrence.headD [], permanent := pr.scope.headD [] = "Permanent"
    mime := trimSpace pr.mime, caseSensitive := pr.caseSense.headD [] = "CS", naming := naming
    applicability := (pr.applicability.map XmlApplicability.convert).or inherited
    ownApplicability := pr.applicability.isSome
    allowedValues := allowedValues, gpMapping := pr.gpMapping
    conflictResolution := trimSpace pr.conflictResolution
    replaceBehavior := trimSpace pr.replaceBehavior, rebootBehavior := trimSpace pr.rebootBehavior
    atomicRequired := pr.atomicRequired
    deprecated := pr.deprecated.map fun b => ⟨trimSpace b⟩, dependencies := dependencies }

def trimSlash (s : GoString) : GoString := if s.getLast? = some slash then s.dropLast else s

def segment (name title : GoString) : GoString :=
  if name = [] then utf8 "\x7b" ++ title ++ utf8 "\x7d" else name

variable (toLower : GoString → GoString)

mutual
def convert (inherited : Option Applicability) (uri : GoString) : XmlNode → Except Error Node
  | .mk name path pr nodes =>
    if uri ≠ [] ∧ path.any fun p => ¬trimSlash (trimSpace p) <+: uri then .error (.innerPath uri)
    else do
      let f ← factsOf name uri pr inherited
      let children ← convertAll f.applicability uri [] nodes
      pure (.mk f children)
def convertAll (inherited : Option Applicability) (uri : GoString) (seen : List GoString) :
    List XmlNode → Except Error (List Node)
  | [] => .ok []
  | .mk name path pr nodes :: rest =>
    let seg := segment name (trimSpace pr.title)
    if name = [] ∧ trimSpace pr.title = [] then .error (.noTitle uri)
    else if toLower seg ∈ seen then .error (.sameName uri seg)
    else do
      let child ← convert inherited (joinSlash uri seg) (.mk name path pr nodes)
      let children ← convertAll inherited uri (toLower seg :: seen) rest
      pure (child :: children)
end

def scopeOf (p : GoString) : Csp.Scope :=
  if utf8 "./Device" <+: p then .device else if utf8 "./User" <+: p then .user else .legacy

def parseRoot (file : GoString) : XmlNode → Except Error Tree
  | .mk name none _ _ => .error (.noPath name)
  | .mk name (some path) pr nodes =>
    let p := trimSlash (trimSpace path)
    if p = [] then .error (.emptyPath name)
    else do
      let root ← convert toLower none (joinSlash p name) (.mk name (some path) pr nodes)
      pure ⟨name,file,scopeOf p,utf8 "/Policy/Config" <:+: p,root⟩

/-- `ParseDDF`, on the nodes of a `MgmtTree` without a namespace. -/
def parseDDF (file : GoString) (nodes : List XmlNode) : Except Error (List Tree) :=
  if nodes = [] then .error .noRoot else nodes.mapM (parseRoot toLower file)

def printed {α : Type} [DecidableEq α] (x zero : α) : α := if x ≠ zero then x else zero

/-- What `nodeLiteral` prints of a node, evaluated; what it leaves out has its zero value. -/
def Facts.literal (f : Facts) : Facts where
  name := f.name
  uri := f.uri
  format := f.format
  title := printed f.title []
  access := printed f.access []
  description := printed f.description []
  defaultValue := printed f.defaultValue []
  occurrence := printed f.occurrence []
  permanent := printed f.permanent false
  mime := printed f.mime []
  caseSensitive := printed f.caseSensitive false
  dynamic := printed f.dynamic false
  naming := if f.naming.kind ≠ [] then f.naming else {}
  ownApplicability := if f.applicability ≠ none ∧ f.ownApplicability then true else false
  applicability := if f.applicability ≠ none ∧ f.ownApplicability then f.applicability else none
  allowedValues := f.allowedValues
  gpMapping := f.gpMapping
  conflictResolution := printed f.conflictResolution []
  replaceBehavior := printed f.replaceBehavior []
  rebootBehavior := printed f.rebootBehavior []
  atomicRequired := printed f.atomicRequired false
  deprecated := f.deprecated
  dependencies := printed f.dependencies []

mutual
def Node.literal : Node → Node
  | .mk f children => .mk f.literal (literals children)
def literals : List Node → List Node
  | [] => []
  | n :: ns => n.literal :: literals ns
end

mutual
/-- `walk` of `Inherit`. -/
def Node.inherit (inherited : Option Applicability) : Node → Node
  | .mk f children =>
    let a := f.applicability.or inherited
    .mk { f with applicability := a } (inheritAll a children)
def inheritAll (inherited : Option Applicability) : List Node → List Node
  | [] => []
  | n :: ns => n.inherit inherited :: inheritAll inherited ns
end

def Tree.generated (t : Tree) : Tree := { t with root := t.root.literal.inherit none }

variable {toLower}

theorem bind_ok {α β : Type} {x : Except Error α} {f : α → Except Error β} {b : β}
    (h : (x >>= f) = .ok b) : ∃ a, x = .ok a ∧ f a = .ok b := by
  cases x with
  | error e => cases h
  | ok a => exact ⟨a,rfl,h⟩

theorem printed_eq {α : Type} [DecidableEq α] (x zero : α) : printed x zero = x := by
  by_cases h : x = zero <;> simp [printed,h]

theorem namingOf_kind {uri : GoString} {pr : Properties} {n : Naming} (h : namingOf uri pr = .ok n) :
    n.kind = [] → n = {} := by
  unfold namingOf at h
  split at h
  · cases h
    exact fun _ => rfl
  split at h
  · cases h
    exact fun hk => absurd (show utf8 "UniqueName" = [] from hk) (by decide)
  split at h
  · cases h
    exact fun hk => absurd hk (by decide)
  split at h
  · cases h
    exact fun hk => absurd hk (by decide)
  · cases h

theorem inherit_literal_facts {name uri : GoString} {pr : Properties} {inherited : Option Applicability}
    {f : Facts} (h : factsOf name uri pr inherited = .ok f) :
    { f.literal with applicability := f.literal.applicability.or inherited } = f := by
  obtain ⟨format,-,h⟩ := bind_ok h
  obtain ⟨naming,hn,h⟩ := bind_ok h
  obtain ⟨values,-,h⟩ := bind_ok h
  obtain ⟨deps,-,h⟩ := bind_ok h
  cases h
  have hkind := namingOf_kind hn
  cases pr.applicability <;> simp +contextual [Facts.literal,printed_eq,hkind]

mutual
theorem inherit_literal {inherited : Option Applicability} {uri : GoString} {n : Node} (x : XmlNode)
    (h : convert toLower inherited uri x = .ok n) : n.literal.inherit inherited = n := by
  cases x with
  | mk name path pr nodes =>
    unfold convert at h
    split at h
    · cases h
    obtain ⟨f,hf,h⟩ := bind_ok h
    obtain ⟨children,hc,h⟩ := bind_ok h
    cases h
    have hfacts := inherit_literal_facts hf
    have happ : f.literal.applicability.or inherited = f.applicability := congrArg Facts.applicability hfacts
    rw [Node.literal,Node.inherit,hfacts,happ,inheritAll_literals nodes hc]
theorem inheritAll_literals {inherited : Option Applicability} {uri : GoString} {seen : List GoString}
    {ns : List Node} (xs : List XmlNode) (h : convertAll toLower inherited uri seen xs = .ok ns) :
    inheritAll inherited (literals ns) = ns := by
  match xs with
  | [] =>
    cases h
    rfl
  | .mk name path pr nodes :: rest =>
    unfold convertAll at h
    dsimp only at h
    split at h
    · cases h
    split at h
    · cases h
    obtain ⟨child,hx,h⟩ := bind_ok h
    obtain ⟨children,hc,h⟩ := bind_ok h
    cases h
    rw [literals,inheritAll,inherit_literal _ hx,inheritAll_literals rest hc]
end

theorem parseRoot_generated {file : GoString} {t : Tree} (x : XmlNode)
    (h : parseRoot toLower file x = .ok t) : t.generated = t := by
  unfold parseRoot at h
  split at h
  · cases h
  dsimp only at h
  split at h
  · cases h
  obtain ⟨root,hr,h⟩ := bind_ok h
  cases h
  rw [Tree.generated,inherit_literal _ hr]

/-- The literals of the trees of a file, once they have inherited, are the trees. -/
theorem parseDDF_generated {file : GoString} {nodes : List XmlNode} {trees : List Tree}
    (h : parseDDF toLower file nodes = .ok trees) : trees.map Tree.generated = trees := by
  unfold parseDDF at h
  split at h
  · cases h
  clear * - h
  induction nodes generalizing trees with
  | nil =>
    cases h
    rfl
  | cons x rest ih =>
    rw [List.mapM_cons] at h
    obtain ⟨t,ht,h⟩ := bind_ok h
    obtain ⟨ts,hts,h⟩ := bind_ok h
    cases h
    rw [List.map_cons,parseRoot_generated x ht,ih hts]

def valueTypes : List Csp.ValueType := [.none,.enum,.flag,.range,.regEx,.xsd,.admx,.sddl,.json]

def verbs : List Csp.Access := [.add,.delete,.exec,.get,.replace]

def AllowedValues.view (a : AllowedValues) : Csp.AllowedValues where
  type := (valueTypes.find? (·.text = a.type)).getD .none
  value := a.value
  enum := a.enum.map EnumValue.value
  listDelimiter := a.listDelimiter

def Naming.view (n : Naming) : Csp.Naming where
  kind := if n.kind = "UniqueName" then .uniqueName else if n.kind = "ClientInventory" then .clientInventory
    else if n.kind = "ServerGeneratedUniqueIdentifier" then .serverGeneratedUniqueIdentifier
    else .unspecified
  pattern := n.pattern

mutual
/-- What the checker reads of a node. -/
def Node.view : Node → Csp.Node
  | .mk f children => {
      name := f.name, title := f.title, uri := f.uri, format := f.format
      access := f.access.filterMap fun a => verbs.find? (·.name = a)
      caseSensitive := f.caseSensitive, dynamic := f.dynamic, naming := f.naming.view
      allowedValues := f.allowedValues.map AllowedValues.view, atomicRequired := f.atomicRequired
      children := views children }
def views : List Node → List Csp.Node
  | [] => []
  | n :: ns => n.view :: views ns
end

mutual
theorem view_inherit (inherited : Option Applicability) (n : Node) : (n.inherit inherited).view = n.view := by
  cases n with
  | mk f children => rw [Node.inherit,Node.view,Node.view,views_inheritAll]
theorem views_inheritAll (inherited : Option Applicability) (ns : List Node) :
    views (inheritAll inherited ns) = views ns := by
  match ns with
  | [] => rfl
  | n :: ns => rw [inheritAll,views,views,view_inherit,views_inheritAll]
end

/-- A node whose naming has no kind has no pattern either, as `namingOf` makes it. -/
def Facts.Proper (f : Facts) : Prop := f.naming.kind = [] → f.naming = {}

mutual
theorem view_literal (n : Node) (h : ∀ f ∈ n.all, f.Proper) : n.literal.view = n.view := by
  cases n with
  | mk f children =>
    rw [Node.all,List.forall_mem_cons] at h
    rw [Node.literal,Node.view,Node.view,views_literals children h.2]
    have hnaming : f.literal.naming = f.naming := by
      by_cases hk : f.naming.kind = []
      · simp [Facts.literal,h.1 hk]
      · simp [Facts.literal,hk]
    rw [hnaming]
    simp [Facts.literal,printed_eq]
theorem views_literals (ns : List Node) (h : ∀ f ∈ allOf ns, f.Proper) :
    views (literals ns) = views ns := by
  match ns with
  | [] => rfl
  | n :: ns =>
    rw [allOf,List.forall_mem_append] at h
    rw [literals,views,views,view_literal n h.1,views_literals ns h.2]
end

/-- The checker reads the same of the generated tree as of the one that was parsed. -/
theorem view_generated (t : Tree) (h : ∀ f ∈ t.root.all, f.Proper) :
    t.generated.root.view = t.root.view := by
  rw [Tree.generated,view_inherit,view_literal t.root h]

/-- A root with applicability of its own, and a child that inherits it. -/
def Sample.nodes : List XmlNode :=
  [.mk "BITS" (some "./Device/Vendor")
    { format := ["node"], applicability := some { osBuildVersion := "10.0.1, 10.0.2" } }
    [.mk "Limit" none { format := ["int"] } []]]

theorem parseDDF_generated_child : ∃ trees,
    parseDDF id "bits.xml" Sample.nodes = .ok trees ∧ trees.map Tree.generated = trees :=
  ⟨_,rfl,@parseDDF_generated id "bits.xml" Sample.nodes _ rfl⟩

end MicrosoftDM.Ddf
