import MicrosoftDM.CheckedDelivery
import MicrosoftDM.StableOrder

set_option autoImplicit false

namespace MicrosoftDM.Csp
open Mdm (scopeOf)

/-- What is used of the Unicode tables. No letter but U and u folds to u, none but
I and K has a lower case ASCII letter from outside ASCII. -/
structure Fold.Lawful (fold : Fold) : Prop where
  symm : ∀ {a b}, fold.equalFold a b = true → fold.equalFold b a = true
  trans : ∀ {a b c}, fold.equalFold a b = true → fold.equalFold b c = true →
    fold.equalFold a c = true
  dot : ∀ {s}, fold.equalFold s "." = true → s = utf8 "."
  user : ∀ {s}, fold.equalFold s "User" = true → ∃ b rest, s = b :: rest ∧ lowerASCII b.toNat = 117
  apart : fold.equalFold "User" "Device" = false
  lower_cons : ∀ {b : UInt8} (s), b.toNat < 128 →
    fold.toLower (b :: s) = (lowerASCII b.toNat).toUInt8 :: fold.toLower s
  lower_inv : ∀ {s l} {b : UInt8}, fold.toLower s = b :: l → b.toNat < 128 → b ≠ 105 → b ≠ 107 →
    ∃ c rest, s = c :: rest ∧ lowerASCII c.toNat = b.toNat ∧ fold.toLower rest = l

/-- What the aliases use of them besides. -/
structure Fold.Exact (fold : Fold) : Prop extends fold.Lawful where
  refl : ∀ s, fold.equalFold s s = true
  lower_nil : ∀ {s}, fold.toLower s = [] ↔ s = []

def Tree.resolves (fold : Fold) (uri : GoString) (t : Tree) : Bool := (t.lookup fold uri).isSome

def Tree.rootLength (t : Tree) : Nat := t.root.uri.length

def underUser (fold : Fold) (uri : GoString) : Bool :=
  match segments uri with
  | first :: second :: _ => fold.equalFold first "." && fold.equalFold second "User"
  | _ => false

def writesUser (uri : GoString) : Prop :=
  (7 ≤ (trimSpace uri).length ∧ equalFold ((trimSpace uri).take 7) "./User/" = true) ∨
  equalFold (trimSpace uri) "./User" = true

section Spellings
variable {fold : Fold} {r : Registry} {uri : GoString} {m : Match} {t : Tree}

theorem firstMatch_eq (ts : List Tree) :
    firstMatch fold uri ts = ts.findSome? fun t => (t.lookup fold uri).map fun m => (m,t) := by
  induction ts with
  | nil => rfl
  | cons x xs ih =>
    unfold firstMatch
    cases hx : x.lookup fold uri <;> simp [hx,ih]

theorem lower_append (law : fold.Lawful) (rest : GoString) {front : GoString}
    (h : ∀ b ∈ front, b.toNat < 128) : fold.toLower (front ++ rest) =
      front.map (fun b => (lowerASCII b.toNat).toUInt8) ++ fold.toLower rest := by
  induction front with
  | nil => rfl
  | cons b front ih =>
    rw [List.cons_append,law.lower_cons _ (h b (by simp)),ih fun c hc => h c (by simp [hc])]
    rfl

theorem hasScopePrefix_device (law : fold.Lawful) (rest : GoString) :
    hasScopePrefix fold (utf8 "./Device/" ++ rest) = true := by
  have hlow : (utf8 "./Device/").map (fun b => (lowerASCII b.toNat).toUInt8) = utf8 "./device/" := by
    decide +kernel
  have hlower : fold.toLower (utf8 "./Device/" ++ rest) = utf8 "./device/" ++ fold.toLower rest := by
    rw [lower_append law rest (by decide +kernel),hlow]
  have hfront : (utf8 "./device/").isPrefixOf (utf8 "./device/" ++ fold.toLower rest) = true :=
    List.isPrefixOf_iff_prefix.mpr (List.prefix_append _ _)
  unfold hasScopePrefix
  rw [hlower]
  dsimp only
  rw [hfront]
  rfl

end Spellings

variable {s : GoString} {b : UInt8} {n : Nat}

namespace Sample

theorem lower_eq_cons {l : GoString} (h : Mdm.Sample.lower s = b :: l) :
    ∃ c rest, s = c :: rest ∧ lowerASCII c.toNat = b.toNat ∧ Mdm.Sample.lower rest = l := by
  obtain ⟨c,rest,rfl,hc,hrest⟩ := List.map_eq_cons_iff.mp h
  refine ⟨c,rest,rfl,?_,hrest⟩
  have hlt : lowerASCII c.toNat < 256 := by
    have := c.toNat_lt
    unfold lowerASCII
    split <;> omega
  rw [← hc,Nat.toUInt8,UInt8.toNat_ofNat',Nat.mod_eq_of_lt hlt]

theorem folds : Mdm.Sample.lib.toFold.Lawful where
  symm h := beq_iff_eq.mpr (beq_iff_eq.mp h).symm
  trans h h' := beq_iff_eq.mpr ((beq_iff_eq.mp h).trans (beq_iff_eq.mp h'))
  dot h := by
    obtain ⟨c,rest,rfl,hc,hrest⟩ := lower_eq_cons (beq_iff_eq.mp h)
    have hdot : c = 46 := by
      unfold lowerASCII at hc
      apply UInt8.toNat_inj.mp
      split at hc <;> simp_all
    rw [hdot,List.map_eq_nil_iff.mp hrest]
    rfl
  user h := by
    obtain ⟨c,rest,rfl,hc,-⟩ := lower_eq_cons (beq_iff_eq.mp h)
    exact ⟨c,rest,rfl,hc⟩
  apart := by decide +kernel
  lower_cons s h := rfl
  lower_inv h _ _ _ := lower_eq_cons h

def skeleton : Tree where
  scope := .legacy
  root := Mdm.Sample.folder "Policy" "./Vendor/MSFT/Policy" [
    Mdm.Sample.folder "Config" "./Vendor/MSFT/Policy/Config" [
      { Mdm.Sample.folder [] "./Vendor/MSFT/Policy/Config/{Area}" [] with
        dynamic := true, title := "Area" }]]

def area (scope : Scope) (uri : GoString) : Tree where
  scope := scope
  root := Mdm.Sample.folder "BITS" uri []

/-- A legacy area beside the device's skeleton. -/
def areaFirst : Registry where
  trees := [
    { scope := .device
      root := Mdm.Sample.folder "Policy" "./Device/Vendor/MSFT/Policy" [
        Mdm.Sample.folder "Config" "./Device/Vendor/MSFT/Policy/Config" [
          { Mdm.Sample.folder [] "./Device/Vendor/MSFT/Policy/Config/{Area}" [] with
            dynamic := true, title := "Area" }]] },
    area .legacy "./Vendor/MSFT/Policy/Config/BITS"]

theorem foldsExact : Mdm.Sample.lib.toFold.Exact where
  toLawful := folds
  refl _ := beq_self_eq_true _
  lower_nil := List.map_eq_nil_iff

end Sample

/-- The second segment could be taken for the scope. -/
def namesDevice (fold : Fold) (rest : GoString) : Bool :=
  (segments rest).head?.any fun s => fold.equalFold s "Device"

section Aliases
open StableOrder
variable {fold : Fold} {r : Registry} {t : Tree} {m : Match} {rest : GoString}

theorem filter_splitAt_trimSlash (s : GoString) :
    (splitAt slash (trimSlash s)).filter (· ≠ []) = (splitAt slash s).filter (· ≠ []) := by
  unfold trimSlash
  split
  · rename_i h
    obtain ⟨front,rfl⟩ := List.getLast?_eq_some_iff.mp h
    rw [List.dropLast_concat,splitAt_append]
    simp [splitAt]
  · rfl

theorem segments_front {front : GoString} (hslash : slash ∉ front) (hquery : ∀ b ∈ front, b ≠ 63)
    (hne : front ≠ []) (hplain : pathUnescape front = some front) (rest : GoString) :
    segments (front ++ slash :: rest) = front :: segments rest := by
  have hpath : (front ++ slash :: rest).takeWhile (· ≠ 63) =
      front ++ slash :: rest.takeWhile (· ≠ 63) := by
    rw [List.takeWhile_append_of_pos fun b hb => decide_eq_true (hquery b hb)]
    rfl
  unfold segments
  rw [hpath,filter_splitAt_trimSlash,filter_splitAt_trimSlash,splitAt_append,
    splitAt_of_notMem hslash,List.filter_append]
  simp [hne,hplain]

theorem segments_plain (rest : GoString) : segments (utf8 "./" ++ rest) = utf8 "." :: segments rest :=
  @segments_front (utf8 ".") (by decide) (by decide +kernel) (by decide) (by decide) rest

theorem segments_device (rest : GoString) :
    segments (utf8 "./Device/" ++ rest) = utf8 "." :: utf8 "Device" :: segments rest := by
  have hsecond : segments (utf8 "Device" ++ slash :: rest) = utf8 "Device" :: segments rest :=
    segments_front (by decide) (by decide +kernel) (by decide) (by decide) rest
  rw [← hsecond]
  exact segments_plain _

theorem firstMatch_candidates (uri : GoString) : firstMatch fold uri (r.candidates fold uri) =
    (firstMax Tree.rootLength ((r.matching fold (segments uri)).filter (Tree.resolves fold uri))).bind
      fun t => (t.lookup fold uri).map fun m => (m,t) := by
  have hhead : ∀ ts, firstMatch fold uri ts = (ts.filter (Tree.resolves fold uri)).head?.bind
      fun t => (t.lookup fold uri).map fun m => (m,t) := by
    intro ts
    induction ts with
    | nil => rfl
    | cons x xs ih =>
      unfold firstMatch
      cases hx : x.lookup fold uri <;> simp [Tree.resolves,hx,ih]
  rw [hhead]
  change ((((r.matching fold (segments uri)).insertionSort (longestFirst Tree.rootLength)).filter
    (Tree.resolves fold uri)).head?.bind _) = _
  rw [filter_insertionSort,head?_insertionSort]

theorem Registry.prefixed_root {segs : List GoString} {n : Nat} (h : t ∈ r.prefixed fold segs n) :
    ∃ i, ¬(i = 0 ∧ segs.head? = some (utf8 ".")) ∧
      fold.toLower t.root.uri = fold.toLower (joinSegments (segs.take (i+1))) := by
  induction n with
  | zero => cases h
  | succ i ih =>
    unfold prefixed at h
    split at h
    · cases h
    rename_i hi
    rcases List.mem_append.mp h with h | h
    · exact ⟨i,hi,of_decide_eq_true (List.mem_filter.mp h).2⟩
    · exact ih h

/-- The legacy roots under ./Device are those that match without it, and the root ".". -/
theorem Registry.legacy_eq (segs : List GoString) (k : Nat) : r.legacy fold (utf8 ".") segs k =
    ((r.prefixed fold (utf8 "." :: segs) (k+1)).filter fun t => t.scope = .legacy) ++
      (r.byRoot fold (fold.toLower (utf8 "."))).filter fun t => t.scope = .legacy := by
  induction k with
  | zero => simp [legacy,prefixed]
  | succ k ih =>
    have hstep : r.prefixed fold (utf8 "." :: segs) (k+1+1) =
        r.byRoot fold (fold.toLower (joinSegments (utf8 "." :: segs.take (k+1)))) ++
          r.prefixed fold (utf8 "." :: segs) (k+1) := by
      rw [prefixed,if_neg (by simp)]
      rfl
    rw [legacy,ih,hstep,List.filter_append,List.append_assoc]

theorem Node.descend_trail {segs : List GoString} {n : Node} {trail : List Node}
    {params : GoMap GoString} (h : n.descend fold segs trail params = some m) :
    m.trail.length = trail.length + segs.length + 1 := by
  induction segs generalizing n trail params with
  | nil =>
    cases h
    simp
  | cons seg segs ih =>
    unfold Node.descend at h
    split at h
    · simp [ih h]
      omega
    split at h
    · simp [ih h]
      omega
    · cases h

theorem Tree.lookup_trail {uri : GoString} (h : t.lookup fold uri = some m) :
    m.trail.length + (segments t.root.uri).length = (t.dropDevice fold (segments uri)).length + 1 := by
  unfold lookup at h
  dsimp only at h
  split at h
  · cases h
  rename_i hlen
  split at h
  · rw [Node.descend_trail h,List.length_drop,List.length_nil]
    omega
  · cases h

theorem Tree.dropDevice_plain (h : ¬(t.scope = .legacy ∧ namesDevice fold rest = true)) :
    t.dropDevice fold (utf8 "." :: segments rest) = utf8 "." :: segments rest := by
  unfold namesDevice at h
  cases hs : segments rest with
  | nil => rfl
  | cons s segs =>
    rw [hs] at h
    exact if_neg h

theorem Tree.dropDevice_device (law : fold.Exact) (h : t.scope = .legacy) (segs : List GoString) :
    t.dropDevice fold (utf8 "." :: utf8 "Device" :: segs) = utf8 "." :: segs :=
  if_pos ⟨h,law.refl _⟩

/-- One tree gives both spellings the same match only if it is a legacy one and the
address does not name the scope again. -/
theorem Tree.lookup_both (law : fold.Exact) (hu : t.lookup fold (utf8 "./" ++ rest) = some m)
    (hd : t.lookup fold (utf8 "./Device/" ++ rest) = some m) :
    t.scope = .legacy ∧ namesDevice fold rest = false := by
  have hlen := (Tree.lookup_trail hu).symm.trans (Tree.lookup_trail hd)
  rw [segments_plain,segments_device] at hlen
  by_cases hlegacy : t.scope = .legacy
  · refine ⟨hlegacy,?_⟩
    rw [Tree.dropDevice_device law hlegacy] at hlen
    cases hn : namesDevice fold rest with
    | false => rfl
    | true =>
      unfold namesDevice at hn
      cases hs : segments rest with
      | nil => simp [hs] at hn
      | cons s segs =>
        rw [hs] at hn hlen
        have hdrop : t.dropDevice fold (utf8 "." :: s :: segs) = utf8 "." :: segs := if_pos ⟨hlegacy,hn⟩
        rw [hdrop] at hlen
        simp at hlen
  · rw [Tree.dropDevice_plain fun h => hlegacy h.1] at hlen
    have hdrop : t.dropDevice fold (utf8 "." :: utf8 "Device" :: segments rest) =
        utf8 "." :: utf8 "Device" :: segments rest := if_neg fun h => hlegacy h.1
    rw [hdrop] at hlen
    simp at hlen

theorem Tree.lookup_device (law : fold.Exact) (hlegacy : t.scope = .legacy)
    (hname : namesDevice fold rest = false) :
    t.lookup fold (utf8 "./Device/" ++ rest) = t.lookup fold (utf8 "./" ++ rest) := by
  unfold lookup
  rw [segments_plain,segments_device,Tree.dropDevice_device law hlegacy,
    Tree.dropDevice_plain (by simp [hname])]

theorem Registry.matching_plain (hname : namesDevice fold rest = false) :
    r.matching fold (utf8 "." :: segments rest) =
      r.prefixed fold (utf8 "." :: segments rest) ((segments rest).length + 1) := by
  unfold namesDevice at hname
  cases hs : segments rest with
  | nil => rfl
  | cons s segs =>
    rw [hs] at hname
    unfold matching
    dsimp only
    rw [if_neg (by simpa using hname),List.append_nil]
    rfl

theorem Registry.byRoot_dot (law : fold.Exact) (h : t ∈ r.byRoot fold (fold.toLower (utf8 "."))) :
    t.rootLength = 1 := by
  have hroot := of_decide_eq_true (List.mem_filter.mp h).2
  have hdot : fold.toLower (utf8 ".") = 46 :: fold.toLower [] := law.lower_cons [] (by decide)
  rw [hdot,law.lower_nil.mpr rfl] at hroot
  obtain ⟨c,rest,hs,-,hrest⟩ := law.lower_inv hroot (by decide) (by decide) (by decide)
  rw [Tree.rootLength,hs,law.lower_nil.mp hrest]
  rfl

theorem Registry.prefixed_nonempty (law : fold.Exact) {segs : List GoString} {n : Nat}
    (h : t ∈ r.prefixed fold (utf8 "." :: segs) n) : 1 ≤ t.rootLength := by
  obtain ⟨i,-,hroot⟩ := prefixed_root h
  rw [Tree.rootLength,Nat.succ_le_iff,List.length_pos_iff]
  intro hnil
  rw [hnil,law.lower_nil.mpr rfl] at hroot
  have hjoin := law.lower_nil.mp hroot.symm
  cases hs : segs.take i <;> simp +decide [joinSegments,hs,List.intercalate] at hjoin

/-- Under ./Device the legacy trees that match as written contend, through the one that
comes first among them, with the roots that match the longer spelling. -/
theorem Registry.firstMax_device (law : fold.Exact) (hlegacy : t.scope = .legacy)
    (hname : namesDevice fold rest = false)
    (h : firstMax Tree.rootLength ((r.matching fold (segments (utf8 "./" ++ rest))).filter
      (Tree.resolves fold (utf8 "./" ++ rest))) = some t) :
    firstMax Tree.rootLength ((r.matching fold (segments (utf8 "./Device/" ++ rest))).filter
      (Tree.resolves fold (utf8 "./Device/" ++ rest))) =
    firstMax Tree.rootLength ((r.prefixed fold (segments (utf8 "./Device/" ++ rest))
      (segments (utf8 "./Device/" ++ rest)).length).filter
        (Tree.resolves fold (utf8 "./Device/" ++ rest)) ++ [t]) := by
  rw [segments_plain,matching_plain hname] at h
  have hmatching : r.matching fold (segments (utf8 "./Device/" ++ rest)) =
      r.prefixed fold (segments (utf8 "./Device/" ++ rest))
        (segments (utf8 "./Device/" ++ rest)).length ++
      r.legacy fold (utf8 ".") (segments rest) (segments rest).length := by
    rw [segments_device]
    unfold matching
    dsimp only
    rw [if_pos (law.refl _)]
  rw [hmatching,List.filter_append]
  apply firstMax_append_of_some
  rw [legacy_eq,List.filter_append]
  apply firstMax_append_right
  · have hswap : ((r.prefixed fold (utf8 "." :: segments rest) ((segments rest).length+1)).filter
          fun t => t.scope = .legacy).filter (Tree.resolves fold (utf8 "./Device/" ++ rest)) =
        ((r.prefixed fold (utf8 "." :: segments rest) ((segments rest).length+1)).filter
          (Tree.resolves fold (utf8 "./" ++ rest))).filter fun t => t.scope = .legacy := by
      rw [List.filter_filter,List.filter_filter]
      refine List.filter_congr fun x _ => ?_
      by_cases hx : x.scope = .legacy
      · simp [Tree.resolves,hx,Tree.lookup_device law hx hname]
      · simp [hx]
    rw [hswap]
    exact firstMax_filter h (decide_eq_true hlegacy)
  · intro x hx
    have hdot := byRoot_dot law (List.mem_of_mem_filter (List.mem_of_mem_filter hx))
    have hpos := prefixed_nonempty law (List.mem_of_mem_filter (firstMax_mem h))
    omega

end Aliases

/-- The two spellings of an address agree exactly when nothing resolves it as written, or what
does, the earliest of the longest roots, is a legacy tree, the address does not name the
scope again, and no root under ./Device that resolves the longer spelling comes before it. -/
theorem Registry.lookup_aliased_iff {fold : Fold} (law : fold.Exact) (r : Registry) (rest : GoString)
    (hscope : hasScopePrefix fold (utf8 "./" ++ rest) = false) :
    r.lookup fold (utf8 "./" ++ rest) = r.lookup fold (utf8 "./Device/" ++ rest) ↔
    ∀ t, StableOrder.firstMax Tree.rootLength ((r.matching fold (segments (utf8 "./" ++ rest))).filter
        (Tree.resolves fold (utf8 "./" ++ rest))) = some t →
      t.scope = .legacy ∧ namesDevice fold rest = false ∧
      StableOrder.firstMax Tree.rootLength ((r.prefixed fold (segments (utf8 "./Device/" ++ rest))
        (segments (utf8 "./Device/" ++ rest)).length).filter
          (Tree.resolves fold (utf8 "./Device/" ++ rest)) ++ [t]) = some t := by
  have hdevice : r.lookup fold (utf8 "./Device/" ++ rest) = firstMatch fold (utf8 "./Device/" ++ rest)
      (r.candidates fold (utf8 "./Device/" ++ rest)) := by
    unfold lookup
    rw [hasScopePrefix_device law.toLawful]
    split <;> rename_i hf <;> exact hf.symm
  have hplain : r.lookup fold (utf8 "./" ++ rest) =
      (firstMatch fold (utf8 "./" ++ rest) (r.candidates fold (utf8 "./" ++ rest))).or
        (r.lookup fold (utf8 "./Device/" ++ rest)) := by
    have halias : aliased (utf8 "./" ++ rest) = utf8 "./Device/" ++ rest := rfl
    rw [hdevice]
    unfold lookup
    rw [hscope,halias]
    split <;> rename_i hf <;> rw [hf] <;> rfl
  rw [hplain,firstMatch_candidates]
  cases hmax : StableOrder.firstMax Tree.rootLength ((r.matching fold
      (segments (utf8 "./" ++ rest))).filter (Tree.resolves fold (utf8 "./" ++ rest))) with
  | none => simp
  | some t =>
    have hres := (List.mem_filter.mp (StableOrder.firstMax_mem hmax)).2
    obtain ⟨m,hm⟩ := Option.isSome_iff_exists.mp hres
    simp only [Option.bind_some,hm,Option.map_some,Option.some_or,Option.some.injEq,forall_eq']
    rw [hdevice]
    constructor
    · intro h
      obtain ⟨hlegacy,hname⟩ := Tree.lookup_both law hm (firstMatch_mem h.symm).2
      refine ⟨hlegacy,hname,?_⟩
      rw [firstMatch_candidates,Registry.firstMax_device law hlegacy hname hmax] at h
      obtain ⟨x,hx,hpair⟩ := Option.bind_eq_some_iff.mp h.symm
      obtain ⟨m',-,he⟩ := Option.map_eq_some_iff.mp hpair
      cases he
      exact hx
    · rintro ⟨hlegacy,hname,hfirst⟩
      rw [firstMatch_candidates,Registry.firstMax_device law hlegacy hname hmax,hfirst,
        Option.bind_some,Tree.lookup_device law hlegacy hname,hm]
      rfl

theorem lookup_aliased_iff_area :
    (Sample.areaFirst.trees.map fun t => t.resolves Mdm.Sample.lib.toFold
      (utf8 "./Device/" ++ utf8 "Vendor/MSFT/Policy/Config/BITS")) = [true,true] ∧
    Sample.areaFirst.lookup Mdm.Sample.lib.toFold (utf8 "./" ++ utf8 "Vendor/MSFT/Policy/Config/BITS") =
      Sample.areaFirst.lookup Mdm.Sample.lib.toFold
        (utf8 "./Device/" ++ utf8 "Vendor/MSFT/Policy/Config/BITS") := by
  refine ⟨by decide +kernel,(Registry.lookup_aliased_iff Sample.foldsExact Sample.areaFirst
    (utf8 "Vendor/MSFT/Policy/Config/BITS") (by decide +kernel)).mpr fun t ht => ?_⟩
  have hmatching : (Sample.areaFirst.matching Mdm.Sample.lib.toFold (segments (utf8 "./" ++
      utf8 "Vendor/MSFT/Policy/Config/BITS"))) = [Sample.area .legacy "./Vendor/MSFT/Policy/Config/BITS"] :=
    rfl
  have hdevice : (Sample.areaFirst.prefixed Mdm.Sample.lib.toFold (segments (utf8 "./Device/" ++
      utf8 "Vendor/MSFT/Policy/Config/BITS")) 7).all (fun x => x.rootLength <
        (Sample.area .legacy "./Vendor/MSFT/Policy/Config/BITS").rootLength) = true := by
    decide +kernel
  rw [hmatching] at ht
  obtain rfl := List.mem_singleton.mp (List.mem_of_mem_filter (StableOrder.firstMax_mem ht))
  refine ⟨rfl,by decide +kernel,StableOrder.firstMax_append (fun x hx => ?_) (by simp)⟩
  exact of_decide_eq_true (List.all_eq_true.mp hdevice x (List.mem_of_mem_filter hx))

/-- The skeleton, with the shorter root, is tried before the area. -/
theorem lookup_skeleton_first :
    let r : Registry := ⟨[Sample.skeleton,Sample.area .device "./Device/Vendor/MSFT/Policy/Config/BITS"]⟩
    hasScopePrefix Mdm.Sample.lib.toFold "./Vendor/MSFT/Policy/Config/BITS" = false ∧
    (r.lookup Mdm.Sample.lib.toFold "./Vendor/MSFT/Policy/Config/BITS").map (·.2.root.name) =
      some (utf8 "Policy") ∧
    (r.lookup Mdm.Sample.lib.toFold "./Device/Vendor/MSFT/Policy/Config/BITS").map (·.2.root.name) =
      some (utf8 "BITS") := by decide +kernel

section Scopes
variable {fold : Fold} {r : Registry} {uri : GoString} {m : Match} {t : Tree}

theorem Tree.lookup_root (h : t.lookup fold uri = some m) :
    (segments t.root.uri).length ≤ (t.dropDevice fold (segments uri)).length ∧
    ∀ p ∈ (t.dropDevice fold (segments uri)).zip (segments t.root.uri),
      fold.equalFold p.1 p.2 = true := by
  unfold lookup at h
  dsimp only at h
  split at h
  · cases h
  rename_i hlen
  split at h
  · rename_i hall
    exact ⟨by omega,fun p hp => List.all_eq_true.mp hall p hp⟩
  · cases h

theorem underUser_iff : underUser fold uri = true ↔ ∃ first second rest,
    segments uri = first :: second :: rest ∧ fold.equalFold first "." = true ∧
      fold.equalFold second "User" = true := by
  unfold underUser
  split
  · rename_i first second rest hs
    simp [hs]
  rename_i hs
  simp only [Bool.false_eq_true,false_iff]
  rintro ⟨first,second,rest,h,-⟩
  exact hs first second rest h

theorem underUser_of_lookup (law : fold.Lawful) (h : t.lookup fold uri = some m)
    (hlegacy : t.scope ≠ .legacy) (hroot : underUser fold t.root.uri = true) :
    underUser fold uri = true := by
  obtain ⟨hlen,hall⟩ := Tree.lookup_root h
  have hdrop : t.dropDevice fold (segments uri) = segments uri := by
    unfold Tree.dropDevice
    split
    · rename_i hs
      rw [if_neg fun h => hlegacy h.1,hs]
    · rfl
  rw [hdrop] at hlen hall
  obtain ⟨a,b,rest,hr,ha,hb⟩ := underUser_iff.mp hroot
  rw [hr] at hlen hall
  rw [underUser_iff]
  match hs : segments uri with
  | [] => simp [hs] at hlen
  | [c] => simp [hs] at hlen
  | c :: d :: segs =>
    rw [hs] at hall
    exact ⟨c,d,segs,rfl,law.trans (hall (c,a) (by simp)) ha,law.trans (hall (d,b) (by simp)) hb⟩

theorem underUser_root (law : fold.Lawful) (h : t.lookup fold uri = some m)
    (huri : underUser fold uri = true) (htwo : 2 ≤ (segments t.root.uri).length) :
    underUser fold t.root.uri = true := by
  obtain ⟨-,hall⟩ := Tree.lookup_root h
  obtain ⟨c,d,segs,hs,hc,hd⟩ := underUser_iff.mp huri
  have hdrop : t.dropDevice fold (segments uri) = segments uri := by
    rw [hs]
    refine if_neg fun hdev => ?_
    have := law.trans (law.symm hd) hdev.2
    rw [law.apart] at this
    cases this
  rw [hdrop,hs] at hall
  rw [underUser_iff]
  match hr : segments t.root.uri with
  | [] => simp [hr] at htwo
  | [a] => simp [hr] at htwo
  | a :: b :: rest =>
    rw [hr] at hall
    exact ⟨a,b,rest,rfl,law.trans (law.symm (hall (c,a) (by simp))) hc,
      law.trans (law.symm (hall (d,b) (by simp))) hd⟩

theorem pathUnescape_cons (h : b ≠ 37) (s : GoString) :
    pathUnescape (b :: s) = (pathUnescape s).map (b :: ·) := by
  rw [pathUnescape]
  · exact if_neg h
  · intro a c rest hb
    exact absurd hb h

theorem trimSlash_cons (h : b ≠ slash) (w : GoString) :
    ∃ w', trimSlash (46 :: slash :: b :: w) = 46 :: slash :: b :: w' := by
  unfold trimSlash
  split
  · cases w with
    | nil => simp_all
    | cons c w => exact ⟨(c :: w).dropLast,rfl⟩
  · exact ⟨w,rfl⟩

theorem segments_second (w : GoString) (hslash : b ≠ slash) (hquery : b ≠ 63) :
    ∃ x rest, segments (46 :: slash :: b :: w) = utf8 "." :: x :: rest ∧
      (b ≠ 37 → ∃ y, x = b :: y) := by
  have hpath : (46 :: slash :: b :: w).takeWhile (· ≠ 63) = 46 :: slash :: b :: w.takeWhile (· ≠ 63) := by
    simp [slash,hquery]
  obtain ⟨w',hw⟩ := trimSlash_cons hslash (w.takeWhile (· ≠ 63))
  obtain ⟨seg,segs,hsplit⟩ : ∃ seg segs, splitAt slash (b :: w') = (b :: seg) :: segs := by
    rw [splitAt,if_neg hslash]
    cases splitAt slash w' with
    | nil => exact ⟨[],[],rfl⟩
    | cons seg segs => exact ⟨seg,segs,rfl⟩
  have hall : splitAt slash (46 :: slash :: b :: w') = utf8 "." :: (b :: seg) :: segs := by
    rw [← hsplit]
    exact splitAt_append slash [46] (b :: w')
  unfold segments
  rw [hpath,hw,hall]
  refine ⟨_,_,rfl,fun hb => ?_⟩
  dsimp only
  rw [pathUnescape_cons hb]
  cases pathUnescape seg with
  | none => exact ⟨seg,rfl⟩
  | some y => exact ⟨y,rfl⟩

theorem lowerASCII_other {k : Nat} (h : lowerASCII n = k) (hk : k < 97) : n = k := by
  unfold lowerASCII at h
  split at h <;> omega

theorem segments_two (law : fold.Lawful) {w : GoString}
    (hb : lowerASCII b.toNat = 117) (h : fold.toLower s = fold.toLower (46 :: slash :: b :: w)) :
    2 ≤ (segments s).length := by
  have hascii : b.toNat < 128 := by
    unfold lowerASCII at hb
    split at hb <;> omega
  rw [law.lower_cons _ (by decide),law.lower_cons _ (by decide),law.lower_cons _ hascii,hb] at h
  obtain ⟨c₁,s₁,rfl,h₁,h⟩ := law.lower_inv h (by decide) (by decide) (by decide)
  obtain ⟨c₂,s₂,rfl,h₂,h⟩ := law.lower_inv h (by decide) (by decide) (by decide)
  obtain ⟨c₃,s₃,rfl,h₃,-⟩ := law.lower_inv h (by decide) (by decide) (by decide)
  obtain rfl : c₁ = 46 := UInt8.toNat_inj.mp (lowerASCII_other h₁ (by decide))
  obtain rfl : c₂ = slash := UInt8.toNat_inj.mp (lowerASCII_other h₂ (by decide))
  have hne : ∀ c : UInt8, lowerASCII c.toNat ≠ 117 → c₃ ≠ c := by
    rintro c hc rfl
    exact hc h₃
  obtain ⟨x,rest,hs,-⟩ := segments_second s₃ (hne slash (by decide)) (hne 63 (by decide))
  rw [hs]
  simp

theorem Registry.candidates_two (law : fold.Lawful) (h : t ∈ r.candidates fold uri)
    (huri : underUser fold uri = true) : 2 ≤ (segments t.root.uri).length := by
  obtain ⟨first,second,rest,hs,hfirst,hsecond⟩ := underUser_iff.mp huri
  obtain ⟨b,w,rfl,hb⟩ := law.user hsecond
  obtain rfl := law.dot hfirst
  have h := (List.perm_insertionSort _ _).mem_iff.mp h
  rw [hs] at h
  rcases List.mem_append.mp h with h | h
  · obtain ⟨i,hi,hroot⟩ := prefixed_root h
    cases i with
    | zero => exact absurd ⟨rfl,rfl⟩ hi
    | succ i =>
      obtain ⟨tail,htail⟩ : ∃ tail,
          joinSegments ((utf8 "." :: (b :: w) :: rest).take (i+1+1)) = 46 :: slash :: b :: tail := by
        cases hrest : rest.take i with
        | nil | cons _ _ => exact ⟨_,by rw [List.take_succ_cons,List.take_succ_cons,hrest]; rfl⟩
      exact segments_two law hb (htail ▸ hroot)
  · dsimp only at h
    split at h
    · rename_i hdevice
      have := law.trans (law.symm hsecond) hdevice
      rw [law.apart] at this
      cases this
    · cases h

theorem not_underUser_aliased (law : fold.Lawful) (uri : GoString) :
    underUser fold (aliased uri) = false := by
  obtain ⟨x,rest,hs,hx⟩ := @segments_second 68
    (utf8 "evice" ++ if uri.head? = some 46 then uri.tail else uri) (by decide) (by decide)
  obtain ⟨y,rfl⟩ := hx (by decide)
  cases hu : underUser fold (aliased uri) with
  | false => rfl
  | true =>
    obtain ⟨first,second,rest',hs',-,hsecond⟩ := underUser_iff.mp hu
    cases hs.symm.trans hs'
    obtain ⟨b,rest,hb,hlow⟩ := law.user hsecond
    cases hb
    exact absurd hlow (by decide)

/-- The tree an address is resolved in is the user's exactly when its segments are, and
it is not resolved in the device's scope instead. -/
theorem Registry.lookup_scope (law : fold.Lawful)
    (hscope : ∀ t ∈ r.trees, t.scope = .user ↔ underUser fold t.root.uri = true)
    (h : r.lookup fold uri = some (m,t)) : t.scope = .user ↔
      underUser fold uri = true ∧ ∃ x ∈ r.candidates fold uri, (x.lookup fold uri).isSome = true := by
  unfold lookup at h
  split at h
  · rename_i hf
    cases h
    obtain ⟨ht,hm⟩ := firstMatch_mem hf
    have hroot := hscope t (r.candidates_sub uri t ht)
    rw [hroot]
    constructor
    · intro hu
      have hlegacy : t.scope ≠ .legacy := by
        rw [hroot.mpr hu]
        decide
      exact ⟨underUser_of_lookup law hm hlegacy hu,t,ht,by rw [hm]; rfl⟩
    · rintro ⟨hu,-⟩
      exact underUser_root law hm hu (candidates_two law ht hu)
  · rename_i hf
    split at h
    · cases h
    obtain ⟨ht,hm⟩ := firstMatch_mem h
    have hroot := hscope t (r.candidates_sub _ t ht)
    constructor
    · intro hu
      have hlegacy : t.scope ≠ .legacy := by
        rw [hu]
        decide
      have := underUser_of_lookup law hm hlegacy (hroot.mp hu)
      rw [not_underUser_aliased law] at this
      cases this
    · rintro ⟨-,x,hx,hsome⟩
      rw [firstMatch_eq,List.findSome?_eq_none_iff] at hf
      rw [Option.map_eq_none_iff.mp (hf x hx)] at hsome
      cases hsome

end Scopes

/-- `ScopeOf` and the schema agree on an address exactly when its text names the user's scope just
if its decoded segments do and some tree resolves it as written. -/
theorem scopeOf_lookup_iff {fold : Fold} (law : fold.Lawful) (r : Registry)
    (hscope : ∀ t ∈ r.trees, t.scope = .user ↔ underUser fold t.root.uri = true) (uri : GoString)
    (_ : Syncml.checkLocURI uri = none) (m : Match) (t : Tree) (h : r.lookup fold uri = some (m,t)) :
    (scopeOf uri = .user ↔ t.scope = .user) ↔
    (writesUser uri ↔ underUser fold uri = true ∧
      ∃ x ∈ r.candidates fold uri, (x.lookup fold uri).isSome = true) := by
  have hwrites : scopeOf uri = .user ↔ writesUser uri := by
    unfold scopeOf writesUser
    dsimp only
    split <;> simp_all
  rw [hwrites,Registry.lookup_scope law hscope h]

theorem scopeOf_lookup_plain :
    let r : Registry := ⟨[Sample.area .user "./User/Vendor/MSFT/Policy/Config/BITS"]⟩
    ∃ m t, r.lookup Mdm.Sample.lib.toFold "./user/Vendor/MSFT/Policy/Config/BITS" = some (m,t) ∧
      scopeOf "./user/Vendor/MSFT/Policy/Config/BITS" = .user ∧ t.scope = .user := by
  intro r
  have hsome : (r.lookup Mdm.Sample.lib.toFold "./user/Vendor/MSFT/Policy/Config/BITS").isSome = true := by
    decide +kernel
  have htext : scopeOf "./user/Vendor/MSFT/Policy/Config/BITS" = .user := by decide +kernel
  obtain ⟨⟨m,t⟩,h⟩ := Option.isSome_iff_exists.mp hsome
  refine ⟨m,t,h,htext,((scopeOf_lookup_iff Sample.folds r ?_ _ (by decide +kernel) m t h).mpr ?_).mp htext⟩
  · intro x hx
    obtain rfl := List.mem_singleton.mp hx
    decide +kernel
  · exact ⟨fun _ => ⟨by decide +kernel,by decide +kernel⟩,fun _ => .inl ⟨by decide +kernel,by decide +kernel⟩⟩

/-- An escaped letter hides the scope from `ScopeOf`, not from the registry. -/
theorem scopeOf_escaped :
    let r : Registry := ⟨[Sample.area .user "./User/Vendor/MSFT/Policy/Config/BITS"]⟩
    Syncml.checkLocURI "./%55ser/Vendor/MSFT/Policy/Config/BITS" = none ∧
    (r.lookup Mdm.Sample.lib.toFold "./%55ser/Vendor/MSFT/Policy/Config/BITS").map (·.2.scope) =
      some .user ∧
    scopeOf "./%55ser/Vendor/MSFT/Policy/Config/BITS" = .device := by decide +kernel

end MicrosoftDM.Csp
