import Mathlib.Data.List.Induction
import MicrosoftDM.SchemaSupport
import MicrosoftDM.SchemaTree

/-!
All that a DDF drop records of a node: how `ParseDDF` reads it (internal/schemagen/ddf.go),
what the generated literal says of it (emit.go), and what `Diff` compares (diff.go).
-/

set_option autoImplicit false

namespace MicrosoftDM.Ddf
open Csp (Applicability Deprecated Format)

structure EnumValue where
  value : GoString
  description : GoString
  deriving DecidableEq

structure ADMX where
  area : GoString
  name : GoString
  file : GoString
  deriving DecidableEq

structure AllowedValues where
  type : GoString
  value : GoString := []
  enum : List EnumValue := []
  admx : Option ADMX := none
  listDelimiter : GoString := []
  deriving DecidableEq

structure GpMapping where
  englishName : GoString
  areaPath : GoString
  element : GoString
  deriving DecidableEq

structure Dependency where
  type : GoString
  uri : GoString
  valueType : GoString := []
  value : GoString := []
  enum : List EnumValue := []
  deriving DecidableEq

structure DependencyGroup where
  friendlyID : GoString
  changedAllowedValues : Option AllowedValues := none
  dependencies : List Dependency := []
  deriving DecidableEq

structure Naming where
  kind : GoString := []
  pattern : GoString := []
  deriving DecidableEq

/-- A `csp.Node` without its children. -/
structure Facts where
  name : GoString := []
  title : GoString := []
  uri : GoString
  format : Format
  access : List GoString := []
  description : GoString := []
  defaultValue : GoString := []
  occurrence : GoString := []
  permanent : Bool := false
  mime : GoString := []
  caseSensitive : Bool := false
  dynamic : Bool := false
  naming : Naming := {}
  applicability : Option Applicability := none
  ownApplicability : Bool := false
  allowedValues : Option AllowedValues := none
  gpMapping : Option GpMapping := none
  conflictResolution : GoString := []
  replaceBehavior : GoString := []
  rebootBehavior : GoString := []
  atomicRequired : Bool := false
  deprecated : Option Deprecated := none
  dependencies : List DependencyGroup := []
  deriving DecidableEq

inductive Node where
  | mk (facts : Facts) (children : List Node)

def Node.facts : Node → Facts
  | .mk f _ => f

mutual
def Node.all : Node → List Facts
  | .mk f children => f :: allOf children
def allOf : List Node → List Facts
  | [] => []
  | n :: ns => n.all ++ allOf ns
end

structure Tree where
  name : GoString
  file : GoString
  scope : Csp.Scope
  policyArea : Bool := false
  root : Node

section Diff

/-- `fmt.Sprint` of a list of strings. -/
def sprint (xs : List GoString) : GoString := utf8 "[" ++ (utf8 " ").intercalate xs ++ utf8 "]"

def braced (xs : List GoString) : GoString := utf8 "\x7b" ++ (utf8 " ").intercalate xs ++ utf8 "\x7d"

def appString (f : Facts) : GoString :=
  match f.applicability with
  | none => "none"
  | some a => (utf8 ",").intercalate a.osBuildVersions ++ utf8 " csp " ++ a.cspVersion

def avString : Option AllowedValues → GoString
  | none => []
  | some av =>
    (utf8 "|").intercalate [av.type,av.value,
      sprint (av.enum.map fun e => braced [e.value,e.description]),
      match av.admx with
      | none => "<nil>"
      | some a => utf8 "&" ++ braced [a.area,a.name,a.file],
      av.listDelimiter]

def boolText (b : Bool) : GoString := if b then "true" else "false"

/-- `quote` is `strconv.Quote`. -/
def changedFields (quote : GoString → GoString) (o n : Facts) : List GoString :=
  let line (what a b : GoString) := what ++ utf8 " " ++ a ++ utf8 " -> " ++ b
  (if o.format ≠ n.format then [line "format" o.format.text n.format.text] else []) ++
  (if sprint o.access ≠ sprint n.access then [line "access" (sprint o.access) (sprint n.access)] else []) ++
  (if appString o ≠ appString n then [line "applicability" (appString o) (appString n)] else []) ++
  (if avString o.allowedValues ≠ avString n.allowedValues then [utf8 "allowed values"] else []) ++
  (if o.deprecated.isNone ≠ n.deprecated.isNone then
    [line "deprecated" (boolText o.deprecated.isSome) (boolText n.deprecated.isSome)] else []) ++
  (if o.defaultValue ≠ n.defaultValue then
    [line "default" (quote o.defaultValue) (quote n.defaultValue)] else []) ++
  if o.description ≠ n.description then [utf8 "description"] else []

structure Report where
  added : List GoString := []
  removed : List GoString := []
  changed : List (GoString × List GoString) := []
  filesAdded : List GoString := []
  filesRemoved : List GoString := []
  deriving DecidableEq

abbrev Drop := List Tree

def Drop.nodes (d : Drop) : List Facts := d.flatMap (·.root.all)

/-- The nodes of `index`, the last one under each URI. -/
def Drop.index (d : Drop) : GoMap Facts := d.nodes.foldl (fun m f => m.insert f.uri f) ∅

def sorted (xs : List GoString) : List GoString := xs.mergeSort fun a b => a ≤ b

def diff (quote : GoString → GoString) (oldDrop newDrop : Drop) : Report :=
  let oldNodes := oldDrop.index
  let newNodes := newDrop.index
  let oldFiles := (oldDrop.map Tree.file).dedup
  let newFiles := (newDrop.map Tree.file).dedup
  { added := sorted (newNodes.keys.filter fun uri => uri ∉ oldNodes)
    removed := sorted (oldNodes.keys.filter fun uri => uri ∉ newNodes)
    changed := (newNodes.entries.filterMap fun e =>
      (oldNodes.lookup e.1).bind fun o =>
        if changedFields quote o e.2 = [] then none else some (e.1,changedFields quote o e.2)).mergeSort
          fun a b => a.1 ≤ b.1
    filesAdded := sorted (newFiles.filter fun f => f ∉ oldFiles)
    filesRemoved := sorted (oldFiles.filter fun f => f ∉ newFiles) }

def Drop.factsAt (d : Drop) (uri : GoString) : List Facts := d.nodes.filter (·.uri = uri)

/-- What `Diff` does not see of two nodes with one URI, or sees as a text only. -/
structure Facts.SameUnseen (o n : Facts) : Prop where
  named : o.name = n.name ∧ o.title = n.title ∧ o.dynamic = n.dynamic ∧ o.naming = n.naming
  kept : o.occurrence = n.occurrence ∧ o.permanent = n.permanent ∧ o.mime = n.mime ∧
    o.caseSensitive = n.caseSensitive
  ownApplicability : o.ownApplicability = n.ownApplicability
  behaviour : o.conflictResolution = n.conflictResolution ∧ o.replaceBehavior = n.replaceBehavior ∧
    o.rebootBehavior = n.rebootBehavior ∧ o.atomicRequired = n.atomicRequired
  linked : o.gpMapping = n.gpMapping ∧ o.dependencies = n.dependencies
  deprecated : o.deprecated.isNone = n.deprecated.isNone → o.deprecated = n.deprecated
  access : sprint o.access = sprint n.access → o.access = n.access
  applicability : appString o = appString n → o.applicability = n.applicability
  allowedValues : avString o.allowedValues = avString n.allowedValues → o.allowedValues = n.allowedValues

variable {quote : GoString → GoString} {o n : Facts} {old new : Drop} {uri : GoString}

theorem eq_iff_sameUnseen (huri : o.uri = n.uri) (h : changedFields quote o n = []) :
    o = n ↔ o.SameUnseen n := by
  simp [changedFields] at h
  obtain ⟨hf,ha,hp,hv,hd,hdef,hdesc⟩ := h
  constructor
  · rintro rfl
    constructor <;> simp
  intro hs
  obtain ⟨hname,htitle,hdyn,hnaming⟩ := hs.named
  obtain ⟨hocc,hperm,hmime,hcase⟩ := hs.kept
  obtain ⟨hcr,hrb,hreb,hat⟩ := hs.behaviour
  obtain ⟨hgp,hdeps⟩ := hs.linked
  have h1 := hs.ownApplicability
  have h2 := hs.deprecated hd
  have h3 := hs.access ha
  have h4 := hs.applicability hp
  have h5 := hs.allowedValues hv
  cases o
  cases n
  simp_all

theorem lookup_index (d : Drop) (uri : GoString) : d.index.lookup uri = (d.factsAt uri).getLast? := by
  unfold Drop.index Drop.factsAt
  induction d.nodes using List.reverseRecOn with
  | nil => rfl
  | append_singleton l f ih =>
    rw [List.foldl_append,List.filter_append,List.foldl_cons,List.foldl_nil,GoMap.lookup_insert_ite]
    by_cases h : f.uri = uri
    · simp [h]
    · simp [h,Ne.symm h,ih]

theorem eq_nil_of_mergeSort {α : Type} {le : α → α → Bool} {l : List α} (h : l.mergeSort le = []) :
    l = [] := (h ▸ List.mergeSort_perm l le).nil_eq.symm

theorem unchanged_of_diff (h : diff quote old new = {}) (uri : GoString) :
    (old.index.lookup uri).isSome = (new.index.lookup uri).isSome ∧
      ∀ o n, old.index.lookup uri = some o → new.index.lookup uri = some n →
        changedFields quote o n = [] := by
  have hadded := List.filter_eq_nil_iff.mp (eq_nil_of_mergeSort (congrArg Report.added h))
  have hremoved := List.filter_eq_nil_iff.mp (eq_nil_of_mergeSort (congrArg Report.removed h))
  have hchanged := List.filterMap_eq_nil_iff.mp (eq_nil_of_mergeSort (congrArg Report.changed h))
  refine ⟨?_,fun o n ho hn => ?_⟩
  · rw [Bool.eq_iff_iff,AList.lookup_isSome,AList.lookup_isSome]
    exact ⟨fun hu => by simpa using hremoved uri hu,fun hu => by simpa using hadded uri hu⟩
  have hc := hchanged ⟨uri,n⟩ (AList.mem_lookup_iff.mp hn)
  rw [ho,Option.bind_some] at hc
  by_contra hne
  simp [hne] at hc

/-- Drops without a difference record the same, if and only if they also agree in what `Diff`
does not see, and in the nodes under a URI before the last. -/
theorem diff_complete_iff (h : diff quote old new = {}) :
    (∀ uri, old.factsAt uri = new.factsAt uri) ↔
      ∀ uri, (old.factsAt uri).dropLast = (new.factsAt uri).dropLast ∧
        ∀ o n, (old.factsAt uri).getLast? = some o → (new.factsAt uri).getLast? = some n →
          o.SameUnseen n := by
  have huri : ∀ {d : Drop} {uri : GoString} {f : Facts}, (d.factsAt uri).getLast? = some f → f.uri = uri :=
    fun hf => by simpa using (List.mem_filter.mp (List.mem_of_getLast? hf)).2
  refine forall_congr' fun uri => ?_
  obtain ⟨hsome,hsame⟩ := unchanged_of_diff h uri
  simp only [lookup_index] at hsome hsame
  cases ho : (old.factsAt uri).getLast? with
  | none =>
    rw [ho] at hsome
    have hn : (new.factsAt uri).getLast? = none := by simpa using hsome
    rw [List.getLast?_eq_none_iff] at ho hn
    simp [ho,hn]
  | some o =>
    rw [ho] at hsome
    obtain ⟨n,hn⟩ := Option.isSome_iff_exists.mp hsome.symm
    have hiff := eq_iff_sameUnseen ((huri ho).trans (huri hn).symm) (hsame o n ho hn)
    have hold := List.dropLast_append_getLast? o ho
    have hnew := List.dropLast_append_getLast? n hn
    constructor
    · intro heq
      rw [heq,hn] at ho
      cases ho
      refine ⟨by rw [heq],fun o' n' ho' hn' => ?_⟩
      cases ho'
      rw [hn] at hn'
      cases hn'
      exact hiff.mp rfl
    · rintro ⟨hdrop,hunseen⟩
      have := hiff.mpr (hunseen o n rfl hn)
      rw [← hold,← hnew,hdrop,this]

end Diff

namespace Sample

def tree (name build : GoString) : Tree where
  name := name
  file := name ++ utf8 ".xml"
  scope := .device
  root := .mk {
    name := name, uri := "./Device/Vendor/MSFT/" ++ name, format := .int, deprecated := some ⟨build⟩ } []

def drop (build : GoString) : Drop := [tree "BITS" build,tree "Update" "10.0.1"]

end Sample

/-- The files of the new drop come in another order. -/
theorem diff_complete_same : diff id (Sample.drop "10.0.1") (Sample.drop "10.0.1").reverse = {} ∧
    ∀ uri, (Sample.drop "10.0.1").factsAt uri = Drop.factsAt (Sample.drop "10.0.1").reverse uri := by
  have h : diff id (Sample.drop "10.0.1") (Sample.drop "10.0.1").reverse = {} := by decide +kernel
  refine ⟨h,(diff_complete_iff h).mpr fun uri => ?_⟩
  have hsame : (Sample.drop "10.0.1").factsAt uri = Drop.factsAt (Sample.drop "10.0.1").reverse uri := by
    by_cases hb : uri = "./Device/Vendor/MSFT/BITS"
    · rw [hb]
      decide +kernel
    by_cases hu : uri = "./Device/Vendor/MSFT/Update"
    · rw [hu]
      decide +kernel
    have hnone : ∀ d : Drop, d.nodes.map Facts.uri ⊆ [utf8 "./Device/Vendor/MSFT/BITS",
        utf8 "./Device/Vendor/MSFT/Update"] → d.factsAt uri = [] := by
      intro d hd
      refine List.filter_eq_nil_iff.mpr fun f hf he => ?_
      have hmem := hd (List.mem_map_of_mem hf)
      rw [of_decide_eq_true he] at hmem
      simp [hb,hu] at hmem
    rw [hnone _ (by decide +kernel),hnone _ (by decide +kernel)]
  rw [hsame]
  refine ⟨rfl,fun o n ho hn => ?_⟩
  rw [ho] at hn
  cases hn
  constructor <;> simp

/-- The build a node is deprecated in is not compared. -/
theorem diff_misses_build : diff id (Sample.drop "10.0.1") (Sample.drop "10.0.2") = {} ∧
    (Sample.drop "10.0.1").factsAt "./Device/Vendor/MSFT/BITS" ≠
      (Sample.drop "10.0.2").factsAt "./Device/Vendor/MSFT/BITS" := by
  decide +kernel

end MicrosoftDM.Ddf
