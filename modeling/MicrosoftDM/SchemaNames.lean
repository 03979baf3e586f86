import Mathlib.Data.List.Sort
import MicrosoftDM.SchemaFacts
import MicrosoftDM.Utf8Text

/-!
The names that the schema generator gives to the nodes and values of a package
(internal/schemagen/naming.go and the naming in emit.go). Names that are equal are told apart by
a number, which can make a name that is in use.
-/

set_option autoImplicit false

namespace MicrosoftDM.Schemagen
open Ddf (Node Tree EnumValue)

/-- The tables of `unicode`: no letter has a small ASCII letter as its capital. -/
structure Unicode where
  isLetter : Nat → Bool
  isDigit : Nat → Bool
  toUpper : Nat → Nat
  toLower : Nat → Nat
  toUpper_not_lower : ∀ r, ¬(97 ≤ toUpper r ∧ toUpper r ≤ 122)

def Unicode.isAlnum (u : Unicode) (r : Nat) : Bool := u.isLetter r || u.isDigit r

def writeRune (r : Nat) : GoString := encodeRune (if IsScalar r then r else runeError)

def scopeText : Csp.Scope → GoString
  | .device => "Device"
  | .user => "User"
  | .legacy => "Legacy"

section Names
variable (u : Unicode)

def packageName (name : GoString) : GoString :=
  let lower := (runes name).map fun r => u.toLower r.1
  let s := (lower.filter fun r => (97 ≤ r && r ≤ 122) || (48 ≤ r && r ≤ 57)).flatMap encodeRune
  match s with
  | [] => "x"
  | b :: _ => if isDigit b then "n" ++ s else s

def identifierLoop : Bool → List Nat → GoString
  | _,[] => []
  | upper,r :: rs =>
    if u.isAlnum r then writeRune (if upper then u.toUpper r else r) ++ identifierLoop false rs
    else identifierLoop true rs

def identifier (s : GoString) : GoString :=
  match identifierLoop u true ((runes s).map Prod.fst) with
  | [] => "X"
  | b :: out => if isDigit b then "N" ++ b :: out else b :: out

def wordsLoop : GoString → List (Nat × GoString) → List GoString
  | [],[] => []
  | word,[] => [word]
  | word,r :: rs =>
    if u.isAlnum r.1 then wordsLoop (word ++ r.2) rs
    else if word = [] then wordsLoop [] rs
    else word :: wordsLoop [] rs

def words (s : GoString) : List GoString := wordsLoop u [] (runes s)

def enumIdent (e : EnumValue) : GoString :=
  let ws := (words u e.description).take 4
  let id := identifier u ((utf8 " ").intercalate ws)
  if id = utf8 "X" ∨ ws = [] then
    "Value" ++ (((runes e.value).filter fun r => u.isAlnum r.1).flatMap fun r => writeRune r.1)
  else id

def dynamicTitles (uri : GoString) : List GoString :=
  (splitAt slash uri).filterMap fun seg =>
    if seg.length > 2 ∧ seg.head? = some 123 ∧ seg.getLast? = some 125 then
      some (identifier u seg.tail.dropLast)
    else none

structure Named where
  node : Node
  ident : GoString
  params : List Node
  scopedIdent : GoString := []

mutual

def walk (statics : List GoString) (dyn : List Node) : Node → List Named
  | .mk _ children => walkAll statics dyn children

def walkAll (statics : List GoString) (dyn : List Node) : List Node → List Named
  | [] => []
  | c :: rest =>
    let s := if c.facts.dynamic then statics else statics ++ [identifier u c.facts.name]
    let d := if c.facts.dynamic then dyn ++ [c] else dyn
    { node := c, ident := s.flatten, params := d } :: (walk s d c ++ walkAll statics dyn rest)

end

/-- Dynamic nodes get their title as the trailing segment. -/
def titled (n : Named) : Named :=
  if n.node.facts.dynamic then { n with ident := n.ident ++ identifier u n.node.facts.title } else n

def withDynamic (n : Named) : GoString :=
  match dynamicTitles u n.node.facts.uri with
  | [] => n.ident
  | parts => n.ident ++ "By" ++ parts.flatten

/-- The nodes that share their name get the titles of their dynamic segments. -/
def disambiguated (all : List Named) : List Named :=
  all.map fun n =>
    if (all.map Named.ident).count n.ident < 2 then n else { n with ident := withDynamic u n }

end Names

def numberedFrom (before : List GoString) : List GoString → List (GoString × Nat)
  | [] => []
  | x :: xs => (x,before.count x) :: numberedFrom (x :: before) xs

def numbered (xs : List GoString) : List (GoString × Nat) := numberedFrom [] xs

def label (x : GoString × Nat) : GoString := if x.2 > 0 then x.1 ++ itoa (x.2+1 : Nat) else x.1

def reserved : List GoString :=
  [utf8 "Root",utf8 "DeviceRoot",utf8 "UserRoot",utf8 "LegacyRoot",utf8 "Tree",utf8 "DeviceTree",
    utf8 "UserTree",utf8 "LegacyTree",utf8 "Trees",utf8 "escape"]

def isReserved (scopePrefix ident : GoString) : Bool :=
  decide (scopePrefix ++ ident ∈ reserved) || decide (ident ∈ reserved)

/-- The end of `nameNodes`, for one name. -/
def unreserved (scopePrefix ident : GoString) : GoString :=
  if isReserved scopePrefix ident then ident ++ "Node" else ident

section Emit
variable (u : Unicode)

def candidates (t : Tree) : List Named := disambiguated u ((walk u [] [] t.root).map (titled u))

def nameNodes (t : Tree) (scopePrefix : GoString) : List Named :=
  let all := candidates u t
  all.zipWith (fun n l => { n with
    ident := unreserved scopePrefix l, scopedIdent := scopePrefix ++ unreserved scopePrefix l })
    ((numbered (all.map Named.ident)).map label)

def enumValues (n : Node) : List EnumValue :=
  match n.facts.allowedValues with
  | none => []
  | some av => if av.type ≠ Csp.ValueType.enum.text ∧ av.type ≠ Csp.ValueType.flag.text then [] else av.enum

def valueLabels (n : Node) : List GoString := (numbered ((enumValues n).map (enumIdent u))).map label

structure Group where
  name : GoString
  pkg : GoString
  dir : GoString
  trees : List Tree

def Group.multi (g : Group) : Bool := g.trees.length > 1

def Group.scopePrefix (g : Group) (t : Tree) : GoString := if g.multi then scopeText t.scope else []

/-- What `emitGroup` declares for one tree: the variable, the root, and the nodes with their values. -/
def Group.emitTree (g : Group) (t : Tree) : List GoString :=
  (g.scopePrefix t ++ "Tree") :: (g.scopePrefix t ++ "Root") ::
    (nameNodes u t (g.scopePrefix t)).flatMap fun n => n.scopedIdent :: (valueLabels u n.node).map (n.scopedIdent ++ ·)

def Group.usedEscape (g : Group) : Bool :=
  g.trees.any fun t => (nameNodes u t (g.scopePrefix t)).any fun n => !n.params.isEmpty

def Group.identifiers (g : Group) : List GoString :=
  g.trees.flatMap (g.emitTree u) ++ ((if g.usedEscape u then [utf8 "escape"] else []) ++ [utf8 "Trees"])

def scopeOrder : Csp.Scope → Nat
  | .device => 0
  | .user => 1
  | .legacy => 2

/-- The tree joins the group of its package; `none` is the error for a second name. -/
def addTree (t : Tree) : List Group → Option (List Group)
  | [] =>
    let pkg := packageName u t.name
    some [{ name := t.name, pkg := pkg, dir := (if t.policyArea then "policy/" else "csp/") ++ pkg, trees := [t] }]
  | g :: gs =>
    if g.dir = (if t.policyArea then utf8 "policy/" else utf8 "csp/") ++ packageName u t.name then
      if g.name ≠ t.name then none else some ({ g with trees := g.trees ++ [t] } :: gs)
    else (addTree t gs).map (g :: ·)

def groups (trees : List Tree) : Option (List Group) :=
  (trees.foldlM (fun gs t => addTree u t gs) []).map fun gs =>
    (gs.map fun g => { g with
      trees := g.trees.insertionSort fun a b => scopeOrder a.scope ≤ scopeOrder b.scope }).insertionSort
      fun a b => a.dir ≤ b.dir

end Emit

/-- A name with its number is no other name with its number. -/
def Unambiguous (xs : List GoString) : Prop :=
  (numbered xs).Pairwise fun x y => x.1 ≠ y.1 → label x ≠ label y

variable {xs : List GoString} {y : GoString × Nat} {x : GoString × List GoString} {s : GoString}
  {b : UInt8} {r : Nat}

theorem count_le_of_mem_numberedFrom {before : List GoString}
    (h : y ∈ numberedFrom before xs) : before.count y.1 ≤ y.2 := by
  induction xs generalizing before with
  | nil => cases h
  | cons x xs ih =>
    rcases List.mem_cons.mp h with rfl | h
    · exact Nat.le_refl _
    have hle := ih h
    rw [List.count_cons] at hle
    omega

theorem pairwise_numberedFrom (before xs : List GoString) :
    (numberedFrom before xs).Pairwise fun x y => x.1 = y.1 → x.2 < y.2 := by
  induction xs generalizing before with
  | nil => exact .nil
  | cons x xs ih =>
    refine .cons (fun y hy hxy => ?_) (ih (x :: before))
    have hle := count_le_of_mem_numberedFrom hy
    dsimp only at hxy ⊢
    rw [← hxy,List.count_cons_self] at hle
    omega

theorem map_fst_numberedFrom (before xs : List GoString) :
    (numberedFrom before xs).map Prod.fst = xs := by
  induction xs generalizing before with
  | nil => rfl
  | cons x xs ih => rw [numberedFrom,List.map_cons,ih]

theorem length_labels (xs : List GoString) : ((numbered xs).map label).length = xs.length := by
  rw [List.length_map,← List.length_map Prod.fst,numbered,map_fst_numberedFrom]

theorem label_ne_of_lt {x : GoString × Nat} (hxy : x.1 = y.1) (h : x.2 < y.2) : label x ≠ label y := by
  unfold label
  rw [if_pos (show y.2 > 0 by omega),hxy]
  split
  · intro he
    have hnum := itoa_injective (List.append_cancel_left he)
    omega
  intro he
  have hlen := congrArg List.length he
  have hpos := List.length_pos_of_ne_nil (itoa_ne_nil (y.2+1 : Nat))
  rw [List.length_append] at hlen
  omega

theorem nodup_labels_iff (xs : List GoString) : ((numbered xs).map label).Nodup ↔ Unambiguous xs := by
  unfold Unambiguous
  rw [List.Nodup,List.pairwise_map]
  constructor
  · intro h
    refine h.imp fun {x y} hne _ => ?_
    exact hne
  intro h
  refine (h.and (pairwise_numberedFrom [] xs)).imp fun {x y} hxy => ?_
  by_cases he : x.1 = y.1
  · exact label_ne_of_lt he (hxy.2 he)
  · exact hxy.1 he

/-- Of two names none is the other one with an ending, and no endings make them equal. -/
def Apart (xs : List (GoString × List GoString)) : Prop :=
  xs.Pairwise fun x y => (∀ w ∈ y.2, x.1 ≠ y.1 ++ w) ∧ (∀ v ∈ x.2, y.1 ≠ x.1 ++ v) ∧
    ∀ v ∈ x.2, ∀ w ∈ y.2, x.1 ++ v ≠ y.1 ++ w

def spelled (x : GoString × List GoString) : List GoString := x.1 :: x.2.map (x.1 ++ ·)

theorem nodup_spelled_iff (hne : [] ∉ x.2) :
    (spelled x).Nodup ↔ x.2.Nodup := by
  have hself : x.1 ∉ x.2.map (x.1 ++ ·) := by
    intro h
    obtain ⟨v,hv,he⟩ := List.mem_map.mp h
    rw [List.append_cancel_left (he.trans (List.append_nil _).symm)] at hv
    exact hne hv
  unfold spelled
  rw [List.nodup_cons,List.nodup_map_iff fun _ _ h => List.append_cancel_left h]
  exact and_iff_right hself

theorem disjoint_spelled_iff (x y : GoString × List GoString) :
    (spelled x).Disjoint (spelled y) ↔ x.1 ≠ y.1 ∧ (∀ w ∈ y.2, x.1 ≠ y.1 ++ w) ∧
      (∀ v ∈ x.2, y.1 ≠ x.1 ++ v) ∧ ∀ v ∈ x.2, ∀ w ∈ y.2, x.1 ++ v ≠ y.1 ++ w := by
  unfold spelled List.Disjoint
  constructor
  · intro h
    refine ⟨fun he => h List.mem_cons_self (he ▸ List.mem_cons_self),fun w hw he => ?_,fun v hv he => ?_,
      fun v hv w hw he => ?_⟩
    · exact h List.mem_cons_self (List.mem_cons_of_mem _ (List.mem_map.mpr ⟨w,hw,he.symm⟩))
    · exact h (List.mem_cons_of_mem _ (List.mem_map.mpr ⟨v,hv,he.symm⟩)) List.mem_cons_self
    · exact h (List.mem_cons_of_mem _ (List.mem_map_of_mem hv))
        (List.mem_cons_of_mem _ (List.mem_map.mpr ⟨w,hw,he.symm⟩))
  · rintro ⟨hxy,hx,hy,hvw⟩ a ha hb
    rcases List.mem_cons.mp ha with rfl | ha
    · rcases List.mem_cons.mp hb with he | hb
      · exact hxy he
      · obtain ⟨w,hw,he⟩ := List.mem_map.mp hb
        exact hx w hw he.symm
    obtain ⟨v,hv,rfl⟩ := List.mem_map.mp ha
    rcases List.mem_cons.mp hb with he | hb
    · exact hy v hv he.symm
    · obtain ⟨w,hw,he⟩ := List.mem_map.mp hb
      exact hvw v hv w hw he.symm

theorem nodup_flatMap_spelled_iff {xs : List (GoString × List GoString)} (hne : ∀ x ∈ xs, [] ∉ x.2) :
    (xs.flatMap spelled).Nodup ↔ (xs.map Prod.fst).Nodup ∧ (∀ x ∈ xs, x.2.Nodup) ∧ Apart xs := by
  have hdis : xs.Pairwise (Function.onFun List.Disjoint spelled) ↔ (xs.map Prod.fst).Nodup ∧ Apart xs := by
    unfold Apart List.Nodup
    rw [List.pairwise_map,← List.pairwise_and_iff]
    exact List.Pairwise.iff fun x y => disjoint_spelled_iff x y
  rw [List.nodup_flatMap,hdis,forall₂_congr fun x hx => nodup_spelled_iff (hne x hx)]
  tauto

def isSmall (b : UInt8) : Bool := 97 ≤ b.toNat && b.toNat ≤ 122

def Opens (s : GoString) : Prop := ∃ b rest, s = b :: rest ∧ isSmall b = false

theorem Opens.append (h : Opens s) (t : GoString) : Opens (s ++ t) := by
  obtain ⟨b,rest,rfl,hb⟩ := h
  exact ⟨b,rest ++ t,rfl,hb⟩

theorem Opens.ne_nil (h : Opens s) : s ≠ [] := by
  obtain ⟨b,rest,rfl,-⟩ := h
  exact List.cons_ne_nil b rest

theorem isSmall_eq_false (h : ¬(97 ≤ b.toNat ∧ b.toNat ≤ 122)) : isSmall b = false := by
  unfold isSmall
  rw [Bool.and_eq_false_iff,decide_eq_false_iff_not,decide_eq_false_iff_not]
  omega

theorem encodeRune_opens (hr : IsScalar r) (h : ¬(97 ≤ r ∧ r ≤ 122)) : Opens (encodeRune r) := by
  unfold IsScalar at hr
  unfold encodeRune
  split
  · refine ⟨_,_,rfl,isSmall_eq_false ?_⟩
    rw [toNat_toUInt8 (by omega)]
    exact h
  split
  · refine ⟨_,_,rfl,isSmall_eq_false ?_⟩
    rw [toNat_toUInt8 (by omega)]
    omega
  split
  · refine ⟨_,_,rfl,isSmall_eq_false ?_⟩
    rw [toNat_toUInt8 (by omega)]
    omega
  · refine ⟨_,_,rfl,isSmall_eq_false ?_⟩
    rw [toNat_toUInt8 (by omega)]
    omega

theorem writeRune_opens (h : ¬(97 ≤ r ∧ r ≤ 122)) : Opens (writeRune r) := by
  unfold writeRune
  split
  · rename_i hr
    exact encodeRune_opens hr h
  · exact encodeRune_opens (by decide) (by decide)

section Openings
variable (u : Unicode)

theorem identifierLoop_opens (rs : List Nat) :
    identifierLoop u true rs = [] ∨ Opens (identifierLoop u true rs) := by
  induction rs with
  | nil => exact .inl rfl
  | cons r rs ih =>
    unfold identifierLoop
    split
    · exact .inr ((writeRune_opens (u.toUpper_not_lower r)).append _)
    · exact ih

theorem identifier_opens (s : GoString) : Opens (identifier u s) := by
  unfold identifier
  rcases identifierLoop_opens u ((runes s).map Prod.fst) with h | ⟨b,rest,h,hb⟩
  · rw [h]
    exact ⟨88,[],rfl,rfl⟩
  rw [h]
  dsimp only
  split
  · exact ⟨78,b :: rest,rfl,rfl⟩
  · exact ⟨b,rest,rfl,hb⟩

theorem enumIdent_opens (e : EnumValue) : Opens (enumIdent u e) := by
  unfold enumIdent
  dsimp only
  split
  · exact Opens.append ⟨86,utf8 "alue",rfl,rfl⟩ _
  · exact identifier_opens u _

theorem label_opens {x : GoString × Nat} (h : Opens x.1) : Opens (label x) := by
  unfold label
  split
  · exact h.append _
  · exact h

theorem labels_ne_nil (h : ∀ x ∈ xs, x ≠ []) :
    ∀ l ∈ (numbered xs).map label, l ≠ [] := by
  intro l hl
  obtain ⟨x,hx,rfl⟩ := List.mem_map.mp hl
  have hmem : x.1 ∈ xs := by
    rw [← map_fst_numberedFrom [] xs]
    exact List.mem_map_of_mem hx
  unfold label
  split
  · exact List.append_ne_nil_of_left_ne_nil (h x.1 hmem) _
  · exact h x.1 hmem

theorem valueLabels_opens (n : Node) : ∀ v ∈ valueLabels u n, Opens v := by
  intro v hv
  obtain ⟨x,hx,rfl⟩ := List.mem_map.mp hv
  refine label_opens ?_
  have hmem : x.1 ∈ (enumValues n).map (enumIdent u) := by
    rw [← map_fst_numberedFrom [] ((enumValues n).map (enumIdent u))]
    exact List.mem_map_of_mem hx
  obtain ⟨e,-,he⟩ := List.mem_map.mp hmem
  rw [← he]
  exact enumIdent_opens u e

mutual

theorem mem_walk (statics : List GoString) (dyn : List Node) (x : Named) :
    ∀ n : Node, x ∈ walk u statics dyn n → x.node.facts.dynamic = false → x.ident ≠ []
  | .mk _ children, h => mem_walkAll statics dyn x children (by rw [walk] at h; exact h)

theorem mem_walkAll (statics : List GoString) (dyn : List Node) (x : Named) :
    ∀ cs : List Node, x ∈ walkAll u statics dyn cs → x.node.facts.dynamic = false → x.ident ≠ []
  | [], h => by
    rw [walkAll] at h
    cases h
  | c :: rest, h => by
    rw [walkAll,List.mem_cons,List.mem_append] at h
    rcases h with rfl | h | h
    · intro hstatic
      have hc : c.facts.dynamic = false := hstatic
      dsimp only
      rw [if_neg (by rw [hc]; decide),List.flatten_append]
      refine List.append_ne_nil_of_right_ne_nil _ ?_
      rw [List.flatten_singleton]
      exact (identifier_opens u c.facts.name).ne_nil
    · exact mem_walk _ _ x c h
    · exact mem_walkAll statics dyn x rest h

end

theorem candidates_ne_nil (t : Tree) : ∀ x ∈ (candidates u t).map Named.ident, x ≠ [] := by
  have htitled : ∀ n ∈ (walk u [] [] t.root).map (titled u), n.ident ≠ [] := by
    intro n hn
    obtain ⟨m,hm,rfl⟩ := List.mem_map.mp hn
    unfold titled
    split
    · exact List.append_ne_nil_of_right_ne_nil _ (identifier_opens u _).ne_nil
    · rename_i hstatic
      exact mem_walk u [] [] m t.root hm (Bool.eq_false_of_not_eq_true hstatic)
  intro x hx
  obtain ⟨n,hn,rfl⟩ := List.mem_map.mp hx
  obtain ⟨m,hm,rfl⟩ := List.mem_map.mp hn
  split
  · exact htitled m hm
  show withDynamic u m ≠ []
  unfold withDynamic
  split
  · exact htitled m hm
  · rw [List.append_assoc]
    exact List.append_ne_nil_of_left_ne_nil (htitled m hm) _

end Openings

theorem append_opens_ne {a v : GoString} {rest : GoString} (ha : a ≠ []) (hv : Opens v)
    (hrest : rest.all isSmall = true) : a ++ v ≠ b :: rest := by
  obtain ⟨c,tail,rfl,hc⟩ := hv
  obtain ⟨x,xs,rfl⟩ := List.exists_cons_of_ne_nil ha
  intro he
  have hmem : c ∈ rest := by
    rw [← (List.cons.inj he).2]
    exact List.mem_append_right xs List.mem_cons_self
  rw [List.all_eq_true.mp hrest c hmem] at hc
  cases hc

theorem append_node_not_reserved (x : GoString) : x ++ utf8 "Node" ∉ reserved := by
  have hall : ∀ r ∈ reserved, r.drop (r.length-4) ≠ utf8 "Node" := by decide
  intro h
  refine hall _ h ?_
  rw [List.length_append,show (utf8 "Node").length = 4 from rfl,Nat.add_sub_cancel,List.drop_left]

theorem isReserved_append_node (p x : GoString) : isReserved p (x ++ "Node") = false := by
  unfold isReserved
  rw [← List.append_assoc,decide_eq_false (append_node_not_reserved _),
    decide_eq_false (append_node_not_reserved _)]
  rfl

theorem unreserved_not_mem {p x r : GoString} (hr : r ∈ reserved) : unreserved p x ≠ r := by
  unfold unreserved
  split
  · exact fun he => append_node_not_reserved x (he ▸ hr)
  rename_i hx
  intro he
  rw [he] at hx
  exact hx (by rw [isReserved,decide_eq_true hr,Bool.or_true])

theorem nodup_unreserved_iff (p : GoString) (ls : List GoString) :
    (ls.map (unreserved p)).Nodup ↔
      ls.Nodup ∧ ∀ l ∈ ls, isReserved p l = true → l ++ "Node" ∉ ls := by
  constructor
  · intro h
    refine ⟨h.of_map,fun l hl hres hmem => ?_⟩
    have he : unreserved p l = unreserved p (l ++ "Node") := by
      unfold unreserved
      rw [if_pos hres,if_neg (by rw [isReserved_append_node]; decide)]
    have hlen := congrArg List.length (List.inj_on_of_nodup_map h hl hmem he)
    rw [List.length_append,show (utf8 "Node").length = 4 from rfl] at hlen
    omega
  · rintro ⟨hnodup,hres⟩
    refine hnodup.map_on fun a ha b hb he => ?_
    unfold unreserved at he
    split at he
    · rename_i hra
      split at he
      · exact List.append_cancel_right he
      · exact absurd (he ▸ hb) (hres a ha hra)
    split at he
    · rename_i hrb
      exact absurd (he ▸ ha) (hres b hb hrb)
    · exact he

section Zip
variable {α β γ : Type} {xs : List α} {ys : List β}

theorem zipWith_left (f : α → γ) (h : ys.length = xs.length) :
    xs.zipWith (fun x _ => f x) ys = xs.map f := by
  induction xs generalizing ys with
  | nil => rfl
  | cons x xs ih =>
    cases ys with
    | nil => cases h
    | cons y ys => rw [List.zipWith_cons_cons,ih (Nat.succ.inj h),List.map_cons]

theorem zipWith_right (f : β → γ) (h : ys.length = xs.length) :
    xs.zipWith (fun _ y => f y) ys = ys.map f := by
  induction xs generalizing ys with
  | nil =>
    cases ys with
    | nil => rfl
    | cons y ys => cases h
  | cons x xs ih =>
    cases ys with
    | nil => cases h
    | cons y ys => rw [List.zipWith_cons_cons,ih (Nat.succ.inj h),List.map_cons]

end Zip

section Trees
variable (u : Unicode) (g : Group) (t : Tree)

def nodeLabels : List GoString := (numbered ((candidates u t).map Named.ident)).map label

def Group.entries : List (GoString × List GoString) :=
  (candidates u t).zipWith (fun n l => (unreserved (g.scopePrefix t) l,valueLabels u n.node)) (nodeLabels u t)

theorem length_nodeLabels : (nodeLabels u t).length = (candidates u t).length := by
  rw [nodeLabels,length_labels,List.length_map]

theorem map_fst_entries :
    (g.entries u t).map Prod.fst = (nodeLabels u t).map (unreserved (g.scopePrefix t)) := by
  unfold Group.entries
  rw [List.map_zipWith]
  exact zipWith_right (unreserved (g.scopePrefix t)) (length_nodeLabels u t)

theorem map_snd_entries :
    (g.entries u t).map Prod.snd = (candidates u t).map fun n => valueLabels u n.node := by
  unfold Group.entries
  rw [List.map_zipWith]
  exact zipWith_left (fun n : Named => valueLabels u n.node) (length_nodeLabels u t)

theorem Group.emitTree_eq : g.emitTree u t =
    ([utf8 "Tree",utf8 "Root"] ++ (g.entries u t).flatMap spelled).map (g.scopePrefix t ++ ·) := by
  have hscoped : ∀ n ∈ nameNodes u t (g.scopePrefix t), n.scopedIdent = g.scopePrefix t ++ n.ident := by
    intro n hn
    unfold nameNodes at hn
    rw [← List.map_uncurry_zip_eq_zipWith] at hn
    obtain ⟨x,-,rfl⟩ := List.mem_map.mp hn
    rfl
  have hentries : g.entries u t =
      (nameNodes u t (g.scopePrefix t)).map fun n => (n.ident,valueLabels u n.node) := by
    unfold nameNodes
    rw [List.map_zipWith]
    rfl
  unfold Group.emitTree
  rw [hentries,List.map_append,List.map_flatMap,List.flatMap_map]
  refine congrArg (fun l => _ :: _ :: l) (List.flatMap_congr fun n hn => ?_)
  simp only [spelled,hscoped n hn,List.map_cons,List.map_map,Function.comp_def,List.append_assoc]

variable {u g t}

theorem Group.entries_fst (h : x ∈ g.entries u t) :
    x.1 ≠ [] ∧ ∀ r ∈ reserved, x.1 ≠ r := by
  have hx : x.1 ∈ (nodeLabels u t).map (unreserved (g.scopePrefix t)) := by
    rw [← map_fst_entries]
    exact List.mem_map_of_mem h
  obtain ⟨l,hl,he⟩ := List.mem_map.mp hx
  rw [← he]
  refine ⟨?_,fun r hr => unreserved_not_mem hr⟩
  have hne := labels_ne_nil (candidates_ne_nil u t) l hl
  unfold unreserved
  split
  · exact List.append_ne_nil_of_left_ne_nil hne _
  · exact hne

theorem Group.entries_snd (h : x ∈ g.entries u t) : ∀ v ∈ x.2, Opens v := by
  have hx : x.2 ∈ (candidates u t).map fun n => valueLabels u n.node := by
    rw [← map_snd_entries u g t]
    exact List.mem_map_of_mem h
  obtain ⟨n,-,he⟩ := List.mem_map.mp hx
  rw [← he]
  exact valueLabels_opens u n.node

theorem Group.not_mem_entries {b : UInt8} {rest : GoString} (hr : b :: rest ∈ reserved)
    (hrest : rest.all isSmall = true) : b :: rest ∉ (g.entries u t).flatMap spelled := by
  intro h
  obtain ⟨x,hx,hmem⟩ := List.mem_flatMap.mp h
  obtain ⟨hne,hres⟩ := Group.entries_fst hx
  rcases List.mem_cons.mp hmem with he | hmem
  · exact hres _ hr he.symm
  · obtain ⟨v,hv,he⟩ := List.mem_map.mp hmem
    exact append_opens_ne hne (Group.entries_snd hx v hv) hrest he

variable (u g t)

structure Group.SeparateTree : Prop where
  nodes : Unambiguous ((candidates u t).map Named.ident)
  renamed : ∀ l ∈ nodeLabels u t, isReserved (g.scopePrefix t) l = true → l ++ "Node" ∉ nodeLabels u t
  values : ∀ n ∈ candidates u t, Unambiguous ((enumValues n.node).map (enumIdent u))
  apart : Apart (g.entries u t)

theorem Group.nodup_emitTree_iff : (g.emitTree u t).Nodup ↔ g.SeparateTree u t := by
  have htree : utf8 "Tree" ∉ (g.entries u t).flatMap spelled :=
    @Group.not_mem_entries u g t 84 (utf8 "ree") (by decide) (by decide)
  have hroot : utf8 "Root" ∉ (g.entries u t).flatMap spelled :=
    @Group.not_mem_entries u g t 82 (utf8 "oot") (by decide) (by decide)
  have hne : ∀ x ∈ g.entries u t, [] ∉ x.2 := fun x hx hnil =>
    (Group.entries_snd hx [] hnil).ne_nil rfl
  have hvalues : (∀ x ∈ g.entries u t, x.2.Nodup) ↔
      ∀ n ∈ candidates u t, Unambiguous ((enumValues n.node).map (enumIdent u)) := by
    rw [← List.forall_mem_map (f := Prod.snd) (P := List.Nodup),map_snd_entries,List.forall_mem_map]
    exact forall₂_congr fun n _ => nodup_labels_iff _
  have hfirst : ([utf8 "Tree",utf8 "Root"] ++ (g.entries u t).flatMap spelled).Nodup ↔
      ((g.entries u t).flatMap spelled).Nodup := by
    simp only [List.cons_append,List.nil_append,List.nodup_cons,List.mem_cons,htree,hroot]
    simp only [show ¬utf8 "Tree" = utf8 "Root" by decide,or_self,not_false_eq_true,true_and]
  rw [Group.emitTree_eq,List.nodup_map_iff fun _ _ h => List.append_cancel_left h,hfirst,
    nodup_flatMap_spelled_iff hne,map_fst_entries,nodup_unreserved_iff,hvalues]
  unfold nodeLabels
  rw [nodup_labels_iff]
  exact ⟨fun ⟨⟨h₁,h₂⟩,h₃,h₄⟩ => ⟨h₁,h₂,h₃,h₄⟩,fun ⟨h₁,h₂,h₃,h₄⟩ => ⟨⟨h₁,h₂⟩,h₃,h₄⟩⟩

end Trees

theorem scopeText_inj {a b : Csp.Scope} {s' : GoString} (h : scopeText a ++ s = scopeText b ++ s') :
    a = b := by
  cases a <;> cases b <;> first | rfl | cases (List.cons.inj h).1

section Packages
variable (u : Unicode) (g : Group)

/-- What keeps the names of a package apart: each scope has one tree, and in a
tree numbers and endings make no name that is in use. -/
structure Group.Separate : Prop where
  scopes : 1 < g.trees.length → (g.trees.map Tree.scope).Nodup
  trees : ∀ t ∈ g.trees, g.SeparateTree u t

theorem Group.disjoint_iff : g.trees.Pairwise (Function.onFun List.Disjoint (g.emitTree u)) ↔
    (1 < g.trees.length → (g.trees.map Tree.scope).Nodup) := by
  by_cases hmulti : 1 < g.trees.length
  · have hscope : ∀ t, g.scopePrefix t = scopeText t.scope := fun t => if_pos (decide_eq_true hmulti)
    rw [List.Nodup,List.pairwise_map]
    simp only [hmulti,forall_const]
    refine List.Pairwise.iff fun a b => ⟨fun h he => ?_,fun h x ha hb => h ?_⟩
    · have hmem : ∀ t, g.scopePrefix t ++ "Tree" ∈ g.emitTree u t := fun t => List.mem_cons_self
      refine h (hmem a) ?_
      rw [hscope a,he,← hscope b]
      exact hmem b
    rw [Group.emitTree_eq] at ha hb
    obtain ⟨x₁,-,h₁⟩ := List.mem_map.mp ha
    obtain ⟨x₂,-,h₂⟩ := List.mem_map.mp hb
    rw [hscope] at h₁ h₂
    exact scopeText_inj (h₁.trans h₂.symm)
  · refine iff_of_true ?_ fun h => absurd h hmulti
    cases hts : g.trees with
    | nil => exact .nil
    | cons t ts =>
      rw [hts,List.length_cons] at hmulti
      rw [List.length_eq_zero_iff.mp (show ts.length = 0 by omega)]
      exact List.pairwise_singleton _ t

theorem Group.not_mem_emitTree {b : UInt8} {rest : GoString} (hr : b :: rest ∈ reserved)
    (hrest : rest.all isSmall = true) (hscope : ∀ s : Csp.Scope, (scopeText s).head? ≠ some b)
    (hother : b :: rest ≠ utf8 "Tree" ∧ b :: rest ≠ utf8 "Root") (t : Tree) :
    b :: rest ∉ g.emitTree u t := by
  intro h
  rw [Group.emitTree_eq] at h
  obtain ⟨x,hx,he⟩ := List.mem_map.mp h
  unfold Group.scopePrefix at he
  split at he
  · refine hscope t.scope ?_
    cases hs : scopeText t.scope with
    | nil => cases hsc : t.scope <;> rw [hsc] at hs <;> cases hs
    | cons c cs =>
      rw [hs] at he
      exact congrArg some (List.cons.inj he).1
  · rw [List.nil_append] at he
    subst he
    rcases List.mem_append.mp hx with hx | hx
    · rcases List.mem_cons.mp hx with hx | hx
      · exact hother.1 hx
      · exact hother.2 (List.mem_singleton.mp hx)
    · exact Group.not_mem_entries hr hrest hx

/-- The identifiers of a package are distinct exactly if each scope has one tree and no number, no
ending and no value makes a name that another node or value has. -/
theorem identifiers_nodup_iff : (g.identifiers u).Nodup ↔ g.Separate u := by
  have htrees := @Group.not_mem_emitTree u g 84 (utf8 "rees") (by decide) (by decide)
    (fun s => by cases s <;> decide) (by decide)
  have hescape := @Group.not_mem_emitTree u g 101 (utf8 "scape") (by decide) (by decide)
    (fun s => by cases s <;> decide) (by decide)
  have hdis : (g.trees.flatMap (g.emitTree u)).Disjoint
      ((if g.usedEscape u then [utf8 "escape"] else []) ++ [utf8 "Trees"]) := by
    intro x hx hy
    obtain ⟨t,-,ht⟩ := List.mem_flatMap.mp hx
    rcases List.mem_append.mp hy with hy | hy
    · split at hy
      · rw [List.mem_singleton.mp hy] at ht
        exact hescape t ht
      · cases hy
    · rw [List.mem_singleton.mp hy] at ht
      exact htrees t ht
  have hextra : ((if g.usedEscape u then [utf8 "escape"] else []) ++ [utf8 "Trees"]).Nodup := by
    split
    · decide
    · decide
  unfold Group.identifiers
  rw [List.nodup_append',List.nodup_flatMap,Group.disjoint_iff]
  constructor
  · rintro ⟨⟨htree,hscope⟩,-,-⟩
    exact ⟨hscope,fun t ht => (g.nodup_emitTree_iff u t).mp (htree t ht)⟩
  · rintro ⟨hscope,htree⟩
    exact ⟨⟨fun t ht => (g.nodup_emitTree_iff u t).mpr (htree t ht),hscope⟩,hextra,hdis⟩

end Packages

namespace Sample

/-- The tables, as far as ASCII. -/
def ascii : Unicode where
  isLetter r := (65 ≤ r && r ≤ 90) || (97 ≤ r && r ≤ 122)
  isDigit r := 48 ≤ r && r ≤ 57
  toUpper r := if 97 ≤ r ∧ r ≤ 122 then r-32 else r
  toLower r := if 65 ≤ r ∧ r ≤ 90 then r+32 else r
  toUpper_not_lower r := by
    split
    · omega
    · assumption

def child (name : GoString) : Node := .mk { name := name, uri := "./Vendor/MSFT/R/" ++ name, format := .chr } []

def numberedTree : Tree where
  name := "R"
  file := "R.xml"
  scope := .legacy
  root := .mk { name := "R", uri := "./Vendor/MSFT/R", format := .node } [child "A-B",child "A_B",child "AB2"]

end Sample

set_option maxRecDepth 4000

theorem identifier_declared_twice : ∃ g, groups Sample.ascii [Sample.numberedTree] = some [g] ∧
    g.identifiers Sample.ascii =
      [utf8 "Tree",utf8 "Root",utf8 "AB",utf8 "AB2",utf8 "AB2",utf8 "Trees"] ∧
    ¬(g.identifiers Sample.ascii).Nodup ∧
    (nameNodes Sample.ascii Sample.numberedTree []).map (fun n => (n.scopedIdent,n.node.facts.uri)) =
      [(utf8 "AB",utf8 "./Vendor/MSFT/R/A-B"),(utf8 "AB2",utf8 "./Vendor/MSFT/R/A_B"),
        (utf8 "AB2",utf8 "./Vendor/MSFT/R/AB2")] :=
  ⟨_,rfl,by decide +kernel,by decide +kernel,by decide +kernel⟩

end MicrosoftDM.Schemagen
