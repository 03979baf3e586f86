import MicrosoftDM.SchemaScopes

set_option autoImplicit false

namespace MicrosoftDM.Csp
open Mdm (pathEscape hexDigit pathSafe pathEscape_plain pathEscape_segment)

/-- A step down the tree. Only a dynamic node is given a value. -/
structure Step where
  node : Node
  value : GoString := []

def Step.segment (s : Step) : GoString := if s.node.dynamic then s.value else s.node.name

def Step.text (s : Step) : GoString := if s.node.dynamic then pathEscape s.value else s.node.name

def concrete (root : Node) (path : List Step) : GoString :=
  root.uri ++ path.flatMap fun s => slash :: s.text

/-- The name is one segment of a URI, and means itself there. -/
def plainName (name : GoString) : Prop :=
  name ≠ [] ∧ slash ∉ name ∧ 63 ∉ name ∧ (pathUnescape name).getD name = name

/-- A dynamic child has a value that no static sibling is named by, and is the first one;
a static child has a plain name that no sibling before it answers to. -/
def Step.Taken (fold : Fold) (n : Node) (s : Step) : Prop :=
  ∃ before after, n.children = before ++ s.node :: after ∧
    if s.node.dynamic = true then
      s.value ≠ [] ∧ (∀ c ∈ n.children, c.dynamic = false → fold.equalFold c.name s.value = false) ∧
        ∀ c ∈ before, c.dynamic = false
    else plainName s.node.name ∧ ∀ c ∈ before, c.named fold s.node.name = false

def Node.Leads (fold : Fold) : Node → List Step → Prop
  | _, [] => True
  | n, s :: path => s.Taken fold n ∧ s.node.Leads fold path

def bindings (params : GoMap GoString) (path : List Step) : GoMap GoString :=
  path.foldl (fun p s => if s.node.dynamic then p.insert s.node.title s.value else p) params

def lastNode : Node → List Step → Node
  | n, [] => n
  | _, s :: path => lastNode s.node path

variable {path : List Step} {n : Node} {s : Step}

section Segments

theorem unhex_hexDigit : ∀ n < 16, unhex (hexDigit n) = some n := by decide

theorem pathUnescape_pathEscape (s : GoString) : pathUnescape (pathEscape s) = some s := by
  induction s with
  | nil => rfl
  | cons b s ih =>
    have hcons : pathEscape (b :: s) = (if pathSafe b then [b]
        else [37,hexDigit (b.toNat/16),hexDigit (b.toNat%16)]) ++ pathEscape s := rfl
    rw [hcons]
    split
    · rename_i hb
      have hne : b ≠ 37 := by
        rintro rfl
        revert hb
        decide
      rw [List.singleton_append,pathUnescape_cons hne,ih]
      rfl
    · have hlt := b.toNat_lt
      simp only [List.cons_append,List.nil_append,pathUnescape,ih,
        unhex_hexDigit _ (show b.toNat/16 < 16 by omega),unhex_hexDigit _ (show b.toNat%16 < 16 by omega)]
      have hb : b.toNat/16*16 + b.toNat%16 = b.toNat := Nat.div_add_mod' _ _
      rw [hb]
      simp

theorem segments_eq (w : GoString) : segments w =
    ((splitAt slash (w.takeWhile (· ≠ 63))).filter (· ≠ [])).map fun p => (pathUnescape p).getD p := by
  unfold segments
  congr 1
  generalize w.takeWhile (· ≠ 63) = u
  unfold trimSlash
  split
  · rename_i hlast
    obtain ⟨v,rfl⟩ := List.getLast?_eq_some_iff.mp hlast
    rw [List.dropLast_concat,splitAt_append]
    simp [splitAt]
  · rfl

theorem splitAt_texts (h : ∀ s ∈ path, slash ∉ s.text) (u : GoString) :
    splitAt slash (u ++ path.flatMap fun s => slash :: s.text) =
      splitAt slash u ++ path.map Step.text := by
  induction path generalizing u with
  | nil => simp
  | cons s path ih =>
    rw [List.flatMap_cons,List.cons_append,splitAt_append,
      ih (fun x hx => h x (List.mem_cons_of_mem s hx)),splitAt_of_notMem (h s List.mem_cons_self)]
    rfl

variable {fold : Fold}

theorem Step.Taken.text_plain (h : s.Taken fold n) :
    s.text ≠ [] ∧ slash ∉ s.text ∧ 63 ∉ s.text ∧ (pathUnescape s.text).getD s.text = s.segment := by
  obtain ⟨before,after,-,h⟩ := h
  unfold Step.text Step.segment
  cases hd : s.node.dynamic with
  | true =>
    rw [hd,if_pos rfl] at h
    rw [if_pos rfl,if_pos rfl,pathUnescape_pathEscape]
    exact ⟨(pathEscape_segment h.1).1,fun hm => (pathEscape_plain _ _ hm).1 rfl,
      fun hm => (pathEscape_plain _ _ hm).2 rfl,rfl⟩
  | false =>
    rw [hd,if_neg Bool.false_ne_true] at h
    rw [if_neg Bool.false_ne_true,if_neg Bool.false_ne_true]
    exact h.1

theorem Node.Leads.texts (h : n.Leads fold path) :
    ∀ s ∈ path, s.text ≠ [] ∧ slash ∉ s.text ∧ 63 ∉ s.text ∧
      (pathUnescape s.text).getD s.text = s.segment := by
  induction path generalizing n with
  | nil => exact fun s hs => by cases hs
  | cons s path ih =>
    intro x hx
    rcases List.mem_cons.mp hx with rfl | hx
    · exact h.1.text_plain
    · exact ih h.2 x hx

theorem segments_concrete {root : Node} (h : root.Leads fold path)
    (hquery : path ≠ [] → 63 ∉ root.uri) :
    segments (concrete root path) = segments root.uri ++ path.map Step.segment := by
  by_cases hnil : path = []
  · simp [hnil,concrete]
  have hroot := hquery hnil
  have hwhole : ∀ b ∈ concrete root path, (b ≠ 63 : Bool) = true := by
    intro b hb
    apply decide_eq_true
    rintro rfl
    rcases List.mem_append.mp hb with hb | hb
    · exact hroot hb
    obtain ⟨s,hs,hb⟩ := List.mem_flatMap.mp hb
    rcases List.mem_cons.mp hb with hb | hb
    · revert hb
      decide
    · exact (h.texts s hs).2.2.1 hb
  have hfilter : (path.map Step.text).filter (· ≠ []) = path.map Step.text := by
    rw [List.filter_eq_self]
    intro x hx
    obtain ⟨s,hs,rfl⟩ := List.mem_map.mp hx
    exact decide_eq_true (h.texts s hs).1
  have htake : root.uri.takeWhile (· ≠ 63) = root.uri :=
    List.takeWhile_eq_self_iff.mpr fun b hb => decide_eq_true fun he => hroot (he ▸ hb)
  rw [segments_eq,segments_eq,List.takeWhile_eq_self_iff.mpr hwhole,htake]
  unfold concrete
  rw [splitAt_texts (fun s hs => (h.texts s hs).2.1),List.filter_append,hfilter,List.map_append,
    List.map_map]
  congr 1
  exact List.map_congr_left fun s hs => (h.texts s hs).2.2.2

end Segments

section Descent
variable {fold : Fold}

theorem find_taken (hrefl : ∀ a, fold.equalFold a a = true)
    (h : s.Taken fold n) :
    (s.node.dynamic = false → n.children.find? (Node.named fold s.segment) = some s.node) ∧
    (s.node.dynamic = true → n.children.find? (Node.named fold s.segment) = none ∧
      n.children.find? (·.dynamic) = some s.node) := by
  obtain ⟨before,after,hchildren,h⟩ := h
  unfold Step.segment
  cases hd : s.node.dynamic with
  | false =>
    rw [hd,if_neg Bool.false_ne_true] at h
    refine ⟨fun _ => ?_,(by cases ·)⟩
    rw [if_neg Bool.false_ne_true,hchildren,List.find?_append,List.find?_eq_none.mpr fun c hc => by
      rw [h.2 c hc]; exact Bool.false_ne_true]
    have hself : s.node.named fold s.node.name = true := by
      unfold Node.named
      rw [hd]
      cases s.node.caseSensitive <;> simp [hrefl]
    simp [hself]
  | true =>
    rw [hd,if_pos rfl] at h
    refine ⟨(by cases ·),fun _ => ⟨?_,?_⟩⟩
    · rw [if_pos rfl,List.find?_eq_none]
      intro c hc hn
      unfold Node.named at hn
      cases hc' : c.dynamic with
      | true => simp [hc'] at hn
      | false =>
        have hne := h.2.1 c hc hc'
        cases hcs : c.caseSensitive with
        | true =>
          simp only [hc',hcs,Bool.not_false,Bool.true_and,if_true,beq_iff_eq] at hn
          rw [hn,hrefl] at hne
          cases hne
        | false => simp [hc',hcs,hne] at hn
    · rw [hchildren,List.find?_append,List.find?_eq_none.mpr fun c hc => by
        rw [h.2.2 c hc]; exact Bool.false_ne_true]
      simp [hd]

theorem descend_leads (hrefl : ∀ a, fold.equalFold a a = true)
    (h : n.Leads fold path) (trail : List Node) (params : GoMap GoString) :
    n.descend fold (path.map Step.segment) trail params =
      some ⟨lastNode n path,trail ++ n :: path.map Step.node,bindings params path⟩ := by
  induction path generalizing n trail params with
  | nil => rfl
  | cons s path ih =>
    obtain ⟨hstatic,hdynamic⟩ := find_taken hrefl h.1
    rw [List.map_cons,Node.descend]
    cases hd : s.node.dynamic with
    | false =>
      rw [hstatic hd]
      dsimp only
      rw [ih h.2]
      simp [bindings,lastNode,hd]
    | true =>
      rw [(hdynamic hd).1,(hdynamic hd).2]
      dsimp only
      rw [ih h.2]
      simp [bindings,lastNode,hd,Step.segment]

theorem lookup_bindings {params : GoMap GoString} {k v : GoString}
    (hsame : ∀ s ∈ path, s.node.dynamic = true → s.node.title = k → s.value = v)
    (hfound : params.lookup k = some v ∨ ∃ s ∈ path, s.node.dynamic = true ∧ s.node.title = k) :
    (bindings params path).lookup k = some v := by
  induction path generalizing params with
  | nil => simpa [bindings] using hfound
  | cons s path ih =>
    apply ih fun x hx => hsame x (List.mem_cons_of_mem s hx)
    dsimp only
    cases hd : s.node.dynamic with
    | false =>
      rw [if_neg Bool.false_ne_true]
      rcases hfound with hp | ⟨x,hx,hdyn,ht⟩
      · exact .inl hp
      rcases List.mem_cons.mp hx with rfl | hx
      · rw [hd] at hdyn
        cases hdyn
      · exact .inr ⟨x,hx,hdyn,ht⟩
    | true =>
      rw [if_pos rfl,GoMap.lookup_insert_ite]
      by_cases hk : k = s.node.title
      · rw [if_pos hk,hsame s List.mem_cons_self hd hk.symm]
        exact .inl rfl
      rw [if_neg hk]
      rcases hfound with hp | ⟨x,hx,hdyn,ht⟩
      · exact .inl hp
      rcases List.mem_cons.mp hx with rfl | hx
      · exact absurd ht.symm hk
      · exact .inr ⟨x,hx,hdyn,ht⟩

theorem equalFold_front (hrefl : ∀ a, fold.equalFold a a = true) (root rest : List GoString) :
    (((root ++ rest).zip root).all fun p => fold.equalFold p.1 p.2) = true := by
  induction root with
  | nil => simp
  | cons a root ih => simp [hrefl,ih]

end Descent

/-- A way down the tree, written as a URI, is found again, with every value. -/
theorem lookup_concrete {fold : Fold} (hrefl : ∀ a, fold.equalFold a a = true) (t : Tree)
    (path : List Step) (hpath : t.root.Leads fold path) (hquery : path ≠ [] → 63 ∉ t.root.uri)
    (hdevice : t.scope = .legacy → ∀ first second rest,
      segments (concrete t.root path) = first :: second :: rest →
        fold.equalFold second "Device" = false)
    (htitles : ∀ s ∈ path, ∀ s' ∈ path, s.node.dynamic = true → s'.node.dynamic = true →
      s.node.title = s'.node.title → s.value = s'.value) :
    ∃ params, t.lookup fold (concrete t.root path) =
        some ⟨lastNode t.root path,t.root :: path.map Step.node,params⟩ ∧
      ∀ s ∈ path, s.node.dynamic = true → params.lookup s.node.title = some s.value := by
  have hsegs := segments_concrete hpath hquery
  have hdrop : t.dropDevice fold (segments (concrete t.root path)) =
      segments (concrete t.root path) := by
    unfold Tree.dropDevice
    split
    · rename_i first second rest hs
      rw [if_neg,hs]
      rintro ⟨hlegacy,hd⟩
      rw [hdevice hlegacy first second rest hs] at hd
      cases hd
    · rfl
  refine ⟨bindings ∅ path,?_,fun s hs hd => ?_⟩
  · unfold Tree.lookup
    dsimp only
    rw [hdrop,hsegs,if_neg (by simp),if_pos (equalFold_front hrefl _ _),List.drop_left]
    exact descend_leads hrefl hpath [] ∅
  · exact lookup_bindings (fun x hx hx' ht => htitles x hx s hs hx' hd ht) (.inr ⟨s,hs,hd,rfl⟩)

namespace Sample
open Mdm.Sample (folder lib)

def slot (title uri : GoString) (children : List Node) : Node :=
  { folder [] uri children with dynamic := true, title := title }

def rooted (children : List Node) : Tree := ⟨[],.legacy,folder "R" "./Vendor/MSFT/R" children⟩

def first : Node := slot "First" "./Vendor/MSFT/R/\x7bFirst\x7d" []

def second : Node := slot "Second" "./Vendor/MSFT/R/\x7bSecond\x7d" []

def inner : Node := slot "First" "./Vendor/MSFT/R/\x7bFirst\x7d/\x7bFirst\x7d" []

def outer : Node := { first with children := [inner] }

def query : Node := folder "A?B" "./Vendor/MSFT/R/A?B" []

def enabled : Node := folder "Enabled" "./Vendor/MSFT/R/\x7bFirst\x7d/\x7bSecond\x7d/Enabled" []

def profile : Node := slot "Second" "./Vendor/MSFT/R/\x7bFirst\x7d/\x7bSecond\x7d" [enabled]

def account : Node :=
  { first with children := [folder "Default" "./Vendor/MSFT/R/\x7bFirst\x7d/Default" [],profile] }

/-- Two dynamic levels, the second with a static sibling, and a static leaf. -/
def way : List Step := [⟨account,"a/b"⟩,⟨profile,"50% off?"⟩,⟨enabled,[]⟩]

end Sample

open Sample (rooted first second inner outer query enabled profile account way)
open Mdm.Sample (lib folder)

theorem lookup_concrete_slash : ∃ params,
    (rooted [account]).lookup lib.toFold (concrete (rooted [account]).root way) =
      some ⟨enabled,[(rooted [account]).root,account,profile,enabled],params⟩ ∧
    params.lookup (utf8 "First") = some (utf8 "a/b") ∧
    params.lookup (utf8 "Second") = some (utf8 "50% off?") := by
  have haccount : Step.Taken lib.toFold (rooted [account]).root ⟨account,"a/b"⟩ := by
    refine ⟨[],[],rfl,?_⟩
    rw [if_pos (show account.dynamic = true from rfl)]
    decide +kernel
  have hprofile : Step.Taken lib.toFold account ⟨profile,"50% off?"⟩ := by
    refine ⟨[_],[],rfl,?_⟩
    rw [if_pos (show profile.dynamic = true from rfl)]
    decide +kernel
  have henabled : Step.Taken lib.toFold profile ⟨enabled,[]⟩ := by
    refine ⟨[],[],rfl,?_⟩
    rw [if_neg (show enabled.dynamic ≠ true by decide)]
    unfold plainName
    decide +kernel
  obtain ⟨params,hfound,hvalues⟩ := lookup_concrete (fun a => beq_self_eq_true _) (rooted [account]) way
    ⟨haccount,hprofile,henabled,trivial⟩ (fun _ => by decide) (fun _ a b rest h => by
      have hsegs : segments (concrete (rooted [account]).root way) =
          [".","Vendor","MSFT","R","a/b","50% off?","Enabled"] := by decide +kernel
      cases hsegs.symm.trans h
      decide +kernel) (by decide +kernel)
  exact ⟨params,hfound,hvalues ⟨account,"a/b"⟩ (by simp [way]) rfl,
    hvalues ⟨profile,"50% off?"⟩ (by simp [way]) rfl⟩

/-- A title that comes twice, a second dynamic child, a query sign in a name, and a
scope segment of a legacy tree. -/
theorem lookup_concrete_lost :
    (((rooted [outer]).lookup lib.toFold (concrete (rooted [outer]).root
      [⟨outer,"a"⟩,⟨inner,"b"⟩])).map fun m => m.params.lookup (utf8 "First")) =
        some (some (utf8 "b")) ∧
    ((rooted [first,second]).lookup lib.toFold (concrete (rooted [first,second]).root
      [⟨second,"a"⟩])).map (·.node.title) = some (utf8 "First") ∧
    ((rooted [query]).lookup lib.toFold (concrete (rooted [query]).root [⟨query,[]⟩])).isNone = true ∧
    ((Tree.mk [] .legacy (folder "R" "./device/R" [])).lookup lib.toFold
      (concrete (folder "R" "./device/R" []) [])).isNone = true := by decide +kernel

end MicrosoftDM.Csp
