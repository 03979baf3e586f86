import MicrosoftDM.CommandRules

set_option autoImplicit false

namespace MicrosoftDM.Syncml

def Validator.body (v : Validator) (b : Body) : Validator :=
  (v.failIf (b.commands.length = 0) .emptyBody "SyncBody" "no commands" []).commands "SyncBody" false
    b.commands

mutual
def Command.unnumbered : Command → Command
  | .leaf verb b => .leaf verb { b with cmdID := [] }
  | .group kind _ nr m cs => .group kind [] nr m (unnumberedAll cs)
  | .alert a => .alert { a with cmdID := [] }
  | .status s => .status { s with cmdID := [] }
  | .results r => .results { r with cmdID := [] }

def unnumberedAll : List Command → List Command
  | [] => []
  | c :: cs => c.unnumbered :: unnumberedAll cs
end

theorem unnumberedAll_eq_map (cs : List Command) :
    unnumberedAll cs = cs.map Command.unnumbered := by
  induction cs with
  | nil => rfl
  | cons c cs ih => rw [unnumberedAll,ih,List.map_cons]

mutual
theorem Command.walk_unnumbered (c : Command) :
    c.unnumbered.walk = c.walk.map Command.unnumbered := by
  cases c with
  | group kind i nr m cs =>
    simp only [Command.unnumbered,Command.walk,List.map_cons,walkAll_unnumbered cs]
  | leaf _ _ | alert _ | status _ | results _ => rfl

theorem walkAll_unnumbered (cs : List Command) :
    walkAll (unnumberedAll cs) = (walkAll cs).map Command.unnumbered := by
  cases cs with
  | nil => rfl
  | cons c cs =>
    rw [unnumberedAll,walkAll,walkAll,List.map_append,Command.walk_unnumbered c,
      walkAll_unnumbered cs]
end

theorem Command.atomizable_unnumbered {c : Command} : c.unnumbered.Atomizable ↔ c.Atomizable := by
  cases c <;> rfl

theorem Command.added_unnumbered (c : Command) : c.unnumbered.added = c.added := by
  cases c with
  | leaf verb b => cases verb <;> rfl
  | _ => rfl

theorem Command.replaced_unnumbered (c : Command) : c.unnumbered.replaced = c.replaced := by
  cases c with
  | leaf verb b => cases verb <;> rfl
  | _ => rfl

theorem noAddThenReplace_unnumbered {cs : List Command} :
    NoAddThenReplace (cs.map Command.unnumbered) ↔ NoAddThenReplace cs := by
  simp only [NoAddThenReplace,List.pairwise_map,Command.added_unnumbered,
    Command.replaced_unnumbered]

theorem Command.checked_unnumbered {inAtomic : Bool} {c : Command} :
    c.unnumbered.Checked inAtomic ↔ c.Checked inAtomic := by
  unfold Command.Checked
  rw [Command.atomizable_unnumbered]
  cases c with
  | group kind i nr m cs =>
    have hne : unnumberedAll cs ≠ [] ↔ cs ≠ [] := by
      rw [unnumberedAll_eq_map,ne_eq,List.map_eq_nil_iff]
    have hatomic : (Command.group kind i nr m cs).unnumbered.AtomicChecked ↔
        (Command.group kind i nr m cs).AtomicChecked := by
      cases kind with
      | sequence => rfl
      | atomic =>
        simp only [Command.unnumbered,Command.AtomicChecked,walkAll_unnumbered,
          List.forall_mem_map,Command.atomizable_unnumbered]
        rw [unnumberedAll_eq_map,noAddThenReplace_unnumbered]
    rw [hatomic]
    simp only [Command.unnumbered,Command.Shared,Command.Undocumented,hne]
  | leaf _ _ | alert _ | status _ | results _ => rfl

theorem checked_of_unnumbered_eq {inAtomic : Bool} {b c : Command} (h : b.unnumbered = c.unnumbered) :
    (∀ x ∈ b.walk, x.Checked inAtomic) ↔ ∀ x ∈ c.walk, x.Checked inAtomic := by
  have hone : ∀ d : Command, (∀ x ∈ d.unnumbered.walk, x.Checked inAtomic) ↔
      ∀ x ∈ d.walk, x.Checked inAtomic := by
    intro d
    rw [Command.walk_unnumbered,List.forall_mem_map]
    simp only [Command.checked_unnumbered]
  rw [← hone,h,hone]

theorem body_ok_iff {b : Command} (hd : (b.walk.map Command.id).Nodup)
    (hid : ∀ x ∈ b.walk, x.id ≠ [] ∧ x.id ≠ utf8 "0") :
    (Validator.body {} { commands := [b] }).errs = [] ↔ ∀ x ∈ b.walk, x.Checked false := by
  have h : (Validator.body {} { commands := [b] }).errs = [] ↔ _ :=
    ((Validator.Checks.failIf {} (([b] : List Command).length = 0) .emptyBody "SyncBody" "no commands"
      []).trans (Validator.commands_checks _ "SyncBody" false [b])).ok
  have hempty : ∀ i : GoString, i ∉ (∅ : GoMap GoString) := fun i => AList.notMem_empty i
  have hwalk : walkAll [b] = b.walk := by simp [walkAll]
  rw [h,hwalk]
  constructor
  · rintro ⟨-,⟨-,hall⟩,-⟩
    exact hall
  intro hall
  refine ⟨rfl,⟨by simp,hall⟩,by simpa using hd,?_⟩
  intro i hi
  obtain ⟨x,hx,rfl⟩ := List.mem_map.mp hi
  exact ⟨(hid x hx).1,(hid x hx).2,hempty _⟩

end MicrosoftDM.Syncml

namespace MicrosoftDM.Mdm
open MicrosoftDM.Syncml (Verb Item Leaf checkLocURI walkAll NoAddThenReplace knownFormat FormatKnown)

def Options.FormatKnown (o : Options) : Prop := o.format = [] ∨ knownFormat o.format = true

/-- What calls of the builders return, one inside the other, without an error. -/
inductive Composed : Command → Prop where
  | add {uri value : GoString} {o : Options} {c : Command} : o.FormatKnown →
      newAdd uri value o = .ok c → Composed c
  | replace {uri value : GoString} {o : Options} {c : Command} : o.FormatKnown →
      newReplace uri value o = .ok c → Composed c
  | delete {uri : GoString} {o : Options} {c : Command} : o.FormatKnown →
      newDelete uri o = .ok c → Composed c
  | get {uris : List GoString} {o : Options} {c : Command} : o.FormatKnown →
      newGet uris o = .ok c → Composed c
  | exec {uri value : GoString} {o : Options} {c : Command} : o.FormatKnown →
      newExec uri value o = .ok c → Composed c
  | sequence {cmds : List Command} {o : Options} {c : Command} : (∀ x ∈ cmds, Composed x) →
      newSequence cmds o = .ok c → Composed c
  | atomic {cmds : List Command} {o : Options} {c : Command} : (∀ x ∈ cmds, Composed x) →
      newAtomic cmds o = .ok c → Composed c

def BuiltItem (it : Item) : Prop := it.Addressed ∧ FormatKnown it.metinf ∧ it.OneForm

theorem item_built {uri : GoString} {value : Option GoString} {o : Options} {it : Item}
    (ho : o.FormatKnown) (h : item uri value o = .ok it) : BuiltItem it := by
  unfold item at h
  split at h
  · cases h
  rename_i hu
  cases h
  have hne : uri ≠ [] := by
    rintro rfl
    simp [checkLocURI] at hu
  refine ⟨?_,?_,?_⟩
  · simpa [Item.Addressed,Item.locURI,hne] using hu
  · intro m hm
    dsimp only at hm
    split at hm
    · cases hm
      exact ho
    · cases hm
  · intro d hd
    obtain ⟨v,-,rfl⟩ := Option.map_eq_some_iff.mp hd
    cases o.xml <;> simp

theorem getItems_built {scope : Scope} {o : Options} {uris : List GoString} {items : List Item}
    (ho : o.FormatKnown) (h : getItems scope o uris = .ok items) :
    items.length = uris.length ∧ ∀ it ∈ items, BuiltItem it := by
  induction uris generalizing items with
  | nil => cases h; simp
  | cons u us ih =>
    simp only [getItems] at h
    split at h
    · cases h
    rename_i it hit
    split at h
    · cases h
    split at h
    · rename_i rest hrest
      cases h
      obtain ⟨hl,hall⟩ := ih hrest
      exact ⟨by simp [hl],List.forall_mem_cons.mpr ⟨item_built ho hit,hall⟩⟩
    · cases h

/-- A leaf the builders made: it breaks no rule for one command. -/
def BuiltLeaf (c : Syncml.Command) : Prop := isGroup c = false ∧ c.Shared ∧ c.Undocumented

theorem builtLeaf_of_items {verb : Verb} {items : List Item} (hne : items ≠ [])
    (hone : verb = .exec → items.length = 1) (h : ∀ it ∈ items, BuiltItem it) :
    BuiltLeaf (.leaf verb { items := items }) :=
  ⟨rfl,⟨hne,hone,fun it hit => ⟨(h it hit).1,(h it hit).2.1⟩,fun _ _ hm => by cases hm⟩,
    fun it hit => (h it hit).2.2⟩

theorem newLeaf_built {verb : Verb} {uri : GoString} {value : Option GoString} {o : Options}
    {c : Command} (ho : o.FormatKnown) (h : newLeaf verb uri value o = .ok c) : BuiltLeaf c.body := by
  unfold newLeaf at h
  split at h
  · rename_i it hit
    cases h
    exact builtLeaf_of_items (by simp) (fun _ => rfl) (by simpa using item_built ho hit)
  · cases h

theorem newGet_built {uris : List GoString} {o : Options} {c : Command} (ho : o.FormatKnown)
    (h : newGet uris o = .ok c) : BuiltLeaf c.body := by
  unfold newGet at h
  split at h
  · cases h
  split at h
  · rename_i items hitems
    cases h
    obtain ⟨hl,hall⟩ := getItems_built ho hitems
    refine builtLeaf_of_items ?_ (by simp) hall
    rintro rfl
    simp at hl
  · cases h

def BuiltSequence (c : Syncml.Command) : Prop :=
  ∃ cs, c = .group .sequence [] false none cs ∧ cs ≠ [] ∧ ∀ x ∈ cs, BuiltLeaf x

def BuiltAtomic (c : Syncml.Command) : Prop :=
  ∃ cs, c = .group .atomic [] false none cs ∧ cs ≠ [] ∧
    ∀ x ∈ cs, AtomicMember x ∧ (BuiltLeaf x ∨ BuiltSequence x)

theorem Composed.cases {c : Command} (h : Composed c) :
    BuiltLeaf c.body ∨ BuiltSequence c.body ∨ BuiltAtomic c.body := by
  induction h with
  | add ho h | replace ho h | delete ho h => exact .inl (newLeaf_built ho h)
  | get ho h => exact .inl (newGet_built ho h)
  | exec ho h => exact .inl (newLeaf_built ho h)
  | @sequence cmds o c _ h ih =>
    obtain ⟨scope,hne,-,hsingle,rfl⟩ := newSequence_ok_iff.mp h
    refine .inr (.inl ⟨_,rfl,by simpa using hne,?_⟩)
    rw [List.forall_mem_map]
    intro x hx
    rcases ih x hx with hl | ⟨cs,hs,-⟩ | ⟨cs,ha,-⟩
    · exact hl
    · exact absurd (hsingle x hx) (by rw [hs]; simp [isGroup])
    · exact absurd (hsingle x hx) (by rw [ha]; simp [isGroup])
  | @atomic cmds o c _ h ih =>
    obtain ⟨scope,hne,-,hmem,-,rfl⟩ := newAtomic_ok_iff.mp h
    refine .inr (.inr ⟨_,rfl,by simpa using hne,?_⟩)
    rw [List.forall_mem_map]
    intro x hx
    refine ⟨hmem x hx,?_⟩
    rcases ih x hx with hl | hs | ⟨cs,ha,-⟩
    · exact .inl hl
    · exact .inr hs
    · exact absurd (isAtomic_of_member (hmem x hx)) (by rw [ha]; simp [isAtomic])

theorem BuiltLeaf.checked {c : Syncml.Command} {inAtomic : Bool} (h : BuiltLeaf c)
    (ha : inAtomic = true → c.Atomizable) : ∀ x ∈ c.walk, x.Checked inAtomic := by
  rw [walk_of_single h.1,List.forall_mem_singleton]
  refine ⟨h.2.1,h.2.2,?_,ha⟩
  cases c with
  | group kind i nr m cs => cases h.1
  | _ => trivial

theorem BuiltSequence.checked {c : Syncml.Command} {inAtomic : Bool} (h : BuiltSequence c)
    (ha : inAtomic = true → AtomicMember c) : ∀ x ∈ c.walk, x.Checked inAtomic := by
  obtain ⟨cs,rfl,hne,hall⟩ := h
  rw [Syncml.Command.walk,walkAll_of_singles fun x hx => (hall x hx).1,List.forall_mem_cons]
  refine ⟨⟨trivial,hne,trivial,fun _ => by simp [Syncml.Command.Atomizable]⟩,fun x hx => ?_⟩
  have hx' := (hall x hx).checked (fun hin => ha hin x hx)
  rw [walk_of_single (hall x hx).1,List.forall_mem_singleton] at hx'
  exact hx'

theorem BuiltAtomic.checked_iff {cs : List Syncml.Command}
    (hne : cs ≠ []) (hall : ∀ x ∈ cs, AtomicMember x ∧ (BuiltLeaf x ∨ BuiltSequence x)) :
    (∀ x ∈ (Syncml.Command.group .atomic [] false none cs).walk, x.Checked false) ↔
      NoAddThenReplace cs := by
  rw [← Syncml.checked_inside_iff]
  constructor
  · exact fun h => h.2.2.1
  intro h
  refine ⟨rfl,hne,h,fun x hx => ?_⟩
  rw [Syncml.walkAll_eq_flatMap] at hx
  obtain ⟨c,hc,hx⟩ := List.mem_flatMap.mp hx
  obtain ⟨hmem,hl | hs⟩ := hall c hc
  · refine hl.checked (fun _ => ?_) x hx
    cases c with
    | group kind i nr m ms => cases hl.1
    | _ => exact hmem
  · exact hs.checked (fun _ => hmem) x hx

/-- A message of what the builders made passes the body rules, if no Atomic has a Replace of a
node after an Add of it. -/
theorem composed_body_iff {c : Command} (hc : Composed c) {b : Syncml.Command}
    (hb : b.unnumbered = c.body.unnumbered) (hd : (b.walk.map Syncml.Command.id).Nodup)
    (hid : ∀ x ∈ b.walk, x.id ≠ [] ∧ x.id ≠ utf8 "0") :
    (Syncml.Validator.body {} { commands := [b] }).errs = [] ↔
      ∀ i nr m cs, c.body = .group .atomic i nr m cs → NoAddThenReplace cs := by
  rw [Syncml.body_ok_iff hd hid,Syncml.checked_of_unnumbered_eq hb]
  rcases hc.cases with hl | hs | ⟨cs,ha,hne,hall⟩
  · refine iff_of_true (hl.checked (by simp)) fun i nr m cs he => ?_
    have := hl.1
    rw [he] at this
    cases this
  · refine iff_of_true (hs.checked (by simp)) fun i nr m cs he => ?_
    obtain ⟨ms,hm,-⟩ := hs
    rw [hm] at he
    cases he
  rw [ha,BuiltAtomic.checked_iff hne hall]
  constructor
  · rintro h i nr m cs' he
    cases he
    exact h
  · exact fun h => h _ _ _ _ rfl

namespace Sample

def readdedURI : GoString := "./Vendor/MSFT/Node"

def onNode (verb : Verb) (value : Option GoString) (id : GoString) : Syncml.Command :=
  .leaf verb { cmdID := id,
               items := [{ target := readdedURI, data := value.map fun v => { value := v } }] }

def ofBody (body : Syncml.Command) : Command := { scope := .device, body := body }

theorem composed_add : Composed (ofBody (onNode .add (some "1") [])) :=
  @Composed.add readdedURI "1" {} _ (.inl rfl) rfl

theorem composed_delete : Composed (ofBody (onNode .delete none [])) :=
  @Composed.delete readdedURI {} _ (.inl rfl) rfl

theorem composed_replace : Composed (ofBody (onNode .replace (some "2") [])) :=
  @Composed.replace readdedURI "2" {} _ (.inl rfl) rfl

def addDelete : List Command := [ofBody (onNode .add (some "1") []),ofBody (onNode .delete none [])]

theorem composed_removed : Composed (grouped .atomic .device {} addDelete) :=
  @Composed.atomic addDelete {} _
    (List.forall_mem_cons.mpr ⟨composed_add,List.forall_mem_cons.mpr ⟨composed_delete,by simp⟩⟩) rfl

def addDeleteReplace : List Command := addDelete ++ [ofBody (onNode .replace (some "2") [])]

theorem composed_readded : Composed (grouped .atomic .device {} addDeleteReplace) :=
  @Composed.atomic addDeleteReplace {} _
    (List.forall_mem_cons.mpr ⟨composed_add,List.forall_mem_cons.mpr ⟨composed_delete,
      List.forall_mem_cons.mpr ⟨composed_replace,by simp⟩⟩⟩) rfl

def numberedRemoved : Syncml.Command :=
  .group .atomic "1" false none [onNode .add (some "1") "2",onNode .delete none "3"]

def numberedReadded : Syncml.Command :=
  .group .atomic "1" false none [onNode .add (some "1") "2",onNode .delete none "3",
    onNode .replace (some "2") "4"]

end Sample

theorem composed_body_removed :
    Composed (grouped .atomic .device {} Sample.addDelete) ∧
    (Syncml.Validator.body {} { commands := [Sample.numberedRemoved] }).errs = [] := by
  refine ⟨Sample.composed_removed,(@composed_body_iff _ Sample.composed_removed
    Sample.numberedRemoved rfl (by decide +kernel) (by decide +kernel)).mpr ?_⟩
  intro i nr m cs he
  cases he
  exact List.Pairwise.cons (by simp [Syncml.Command.replaced,Sample.ofBody,Sample.onNode])
    (List.pairwise_singleton _ _)

/-- `NewAtomic` takes the node for deleted, `Validate` remembers that it was added. -/
theorem composed_body_readded :
    Composed (grouped .atomic .device {} Sample.addDeleteReplace) ∧
    Sample.numberedReadded.unnumbered =
      (grouped .atomic .device {} Sample.addDeleteReplace).body.unnumbered ∧
    (Sample.numberedReadded.walk.map Syncml.Command.id).Nodup ∧
    (∀ x ∈ Sample.numberedReadded.walk, x.id ≠ [] ∧ x.id ≠ utf8 "0") ∧
    (Syncml.Validator.body {} { commands := [Sample.numberedReadded] }).errs.map
      Syncml.ValidationError.rule = [.atomicAddThenReplace] :=
  ⟨Sample.composed_readded,rfl,by decide +kernel,by decide +kernel,by decide +kernel⟩

end MicrosoftDM.Mdm
