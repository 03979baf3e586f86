import MicrosoftDM.ManagementCommand
import MicrosoftDM.ValidationRules

set_option autoImplicit false

namespace MicrosoftDM.Mdm
open MicrosoftDM.Syncml (Verb GroupKind Item Meta Leaf checkLocURI walkAll NoAddThenReplace
  FormatKnown)

def lastTouching (uri : GoString) (cs : List Syncml.Command) : Option Syncml.Command :=
  cs.reverse.find? fun c => decide (uri ∈ targets c)

theorem lastTouching_concat (uri : GoString) (cs : List Syncml.Command) (c : Syncml.Command) :
    lastTouching uri (cs ++ [c]) = if uri ∈ targets c then some c else lastTouching uri cs := by
  by_cases h : uri ∈ targets c
  · simp [lastTouching,h]
  · simp [lastTouching,h]

/-- No Replace of a node whose last command was an Add, in a list of commands
after the commands `before`. -/
def NoReplaceOfAdded : List Syncml.Command → List Syncml.Command → Prop
  | _, [] => True
  | before, c :: cs =>
    (c.name = Syncml.cmdReplace → ∀ uri ∈ targets c,
      (lastTouching uri before).map Syncml.Command.name ≠ some Syncml.cmdAdd) ∧
    NoReplaceOfAdded (before ++ [c]) cs

theorem checkAddReplace_ok_iff {name : GoString} {uris : List GoString} {seen : GoMap GoString} :
    (∃ seen', checkAddReplace name uris seen = .ok seen') ↔
      (name = Syncml.cmdReplace → ∀ uri ∈ uris, seen.lookup uri ≠ some Syncml.cmdAdd) := by
  induction uris generalizing seen with
  | nil => simp [checkAddReplace]
  | cons uri uris ih =>
    simp only [checkAddReplace]
    by_cases hbad : seen.lookup uri = some Syncml.cmdAdd ∧ name = Syncml.cmdReplace
    · rw [if_pos hbad]
      simp [hbad.1,hbad.2]
    rw [if_neg hbad,ih]
    constructor
    · intro h hname u hu
      rcases List.mem_cons.mp hu with rfl | hu
      · exact fun hadd => hbad ⟨hadd,hname⟩
      have := h hname u hu
      by_cases he : u = uri
      · subst he
        exact fun hadd => hbad ⟨hadd,hname⟩
      · rwa [AList.lookup_insert_ne he] at this
    · intro h hname u hu
      by_cases he : u = uri
      · subst he
        rw [AList.lookup_insert,hname]
        decide
      · rw [AList.lookup_insert_ne he]
        exact h hname u (List.mem_cons_of_mem _ hu)

theorem checkAddReplace_lookup {name : GoString} {uris : List GoString}
    {seen seen' : GoMap GoString} (h : checkAddReplace name uris seen = .ok seen') (uri : GoString) :
    seen'.lookup uri = if uri ∈ uris then some name else seen.lookup uri := by
  induction uris generalizing seen with
  | nil => cases h; simp
  | cons u uris ih =>
    simp only [checkAddReplace] at h
    split at h
    · cases h
    rw [ih h]
    by_cases hu : uri ∈ uris
    · simp [hu]
    by_cases he : uri = u
    · subst he
      simp [hu]
    · simp [hu,he,AList.lookup_insert_ne he]

theorem atomicMembers_none_iff {scope : Scope} {cs : List Command} {seen : GoMap GoString}
    {before : List Syncml.Command}
    (hseen : ∀ uri, seen.lookup uri = (lastTouching uri before).map Syncml.Command.name) :
    atomicMembers scope cs seen = none ↔
      (∀ c ∈ cs, checkAtomicMember c.body = none ∧ c.scope = scope) ∧
      NoReplaceOfAdded before (cs.map Command.body) := by
  induction cs generalizing seen before with
  | nil => simp [atomicMembers,NoReplaceOfAdded]
  | cons c cs ih =>
    have hok := @checkAddReplace_ok_iff c.body.name (targets c.body) seen
    simp only [hseen] at hok
    simp only [atomicMembers,List.forall_mem_cons,List.map_cons,NoReplaceOfAdded]
    cases hm : checkAtomicMember c.body with
    | some e => simp
    | none =>
      by_cases hs : c.scope = scope
      · simp only [hs,ne_eq,not_true_eq_false,if_false,true_and]
        cases ha : checkAddReplace c.body.name (targets c.body) seen with
        | error e =>
          have hno : ¬∃ seen', checkAddReplace c.body.name (targets c.body) seen = .ok seen' := by
            simp [ha]
          rw [hok] at hno
          exact iff_of_false (by simp) fun h => hno h.2.1
        | ok seen' =>
          have hyes := hok.mp ⟨seen',ha⟩
          dsimp only
          rw [@ih seen' (before ++ [c.body])]
          · exact ⟨fun ⟨h₁,h₂⟩ => ⟨h₁,hyes,h₂⟩,fun ⟨h₁,_,h₂⟩ => ⟨h₁,h₂⟩⟩
          intro uri
          rw [checkAddReplace_lookup ha,hseen,lastTouching_concat]
          split <;> rfl
      · simp [hs]

variable {cs : List Syncml.Command}

theorem checkThroughSequence_none_iff :
    checkThroughSequence cs = none ↔ ∀ c ∈ cs, c.Atomizable := by
  induction cs with
  | nil => simp [checkThroughSequence]
  | cons c cs ih =>
    rw [List.forall_mem_cons,← ih]
    cases c with
    | leaf verb n => cases verb <;> simp [checkThroughSequence,Syncml.Command.Atomizable]
    | group kind i nr m ms => cases kind <;> simp [checkThroughSequence,Syncml.Command.Atomizable]
    | alert _ | status _ | results _ => simp [checkThroughSequence,Syncml.Command.Atomizable]

/-- A member of an Atomic: no Atomic and no Get, and no Sequence with one of them. -/
def AtomicMember : Syncml.Command → Prop
  | .group .sequence _ _ _ cs => ∀ c ∈ cs, c.Atomizable
  | c => c.Atomizable

variable {c : Syncml.Command}

theorem checkAtomicMember_none_iff : checkAtomicMember c = none ↔ AtomicMember c := by
  cases c with
  | leaf verb n =>
    cases verb <;> simp [checkAtomicMember,AtomicMember,Syncml.Command.Atomizable]
  | group kind i nr m cs =>
    cases kind with
    | atomic => simp [checkAtomicMember,AtomicMember,Syncml.Command.Atomizable]
    | sequence => exact checkThroughSequence_none_iff
  | alert a => simp [checkAtomicMember,AtomicMember,Syncml.Command.Atomizable]
  | status _ | results _ => simp [checkAtomicMember,AtomicMember,Syncml.Command.Atomizable]

def grouped (kind : GroupKind) (scope : Scope) (o : Options) (cmds : List Command) : Command :=
  { id := o.id, scope := scope, body := .group kind [] false none (cmds.map Command.body) }

theorem newAtomic_ok_iff {cmds : List Command} {o : Options} {r : Command} :
    newAtomic cmds o = .ok r ↔ ∃ scope, cmds ≠ [] ∧ (∀ c ∈ cmds, c.scope = scope) ∧
      (∀ c ∈ cmds, AtomicMember c.body) ∧ NoReplaceOfAdded [] (cmds.map Command.body) ∧
      r = grouped .atomic scope o cmds := by
  cases cmds with
  | nil => simp [newAtomic]
  | cons c cs =>
    have hiff := @atomicMembers_none_iff c.scope (c :: cs) ∅ [] (fun uri => by
      simp [lastTouching])
    simp only [newAtomic]
    constructor
    · intro h
      split at h
      · cases h
      rename_i hnone
      obtain ⟨hall,hno⟩ := hiff.mp hnone
      exact ⟨c.scope,List.cons_ne_nil _ _,fun x hx => (hall x hx).2,
        fun x hx => checkAtomicMember_none_iff.mp (hall x hx).1,hno,(Except.ok.inj h).symm⟩
    · rintro ⟨scope,-,hscope,hmem,hno,rfl⟩
      have hc := hscope c List.mem_cons_self
      rw [hiff.mpr ⟨fun x hx => ⟨checkAtomicMember_none_iff.mpr (hmem x hx),
        (hscope x hx).trans hc.symm⟩,hno⟩,hc]
      rfl

theorem sequenceMembers_none_iff {scope : Scope} {cs : List Command} :
    sequenceMembers scope cs = none ↔ ∀ c ∈ cs, isGroup c.body = false ∧ c.scope = scope := by
  induction cs with
  | nil => simp [sequenceMembers]
  | cons c cs ih =>
    rw [List.forall_mem_cons,← ih]
    simp only [sequenceMembers]
    cases c.body with
    | group kind i nr m ms => simp [isGroup]
    | leaf verb n => by_cases hs : c.scope = scope <;> simp [isGroup,hs]
    | alert _ | status _ | results _ => by_cases hs : c.scope = scope <;> simp [isGroup,hs]

variable {r : Command} {rs : List Command}

theorem newSequence_ok_iff {cmds : List Command} {o : Options} :
    newSequence cmds o = .ok r ↔ ∃ scope, cmds ≠ [] ∧ (∀ c ∈ cmds, c.scope = scope) ∧
      (∀ c ∈ cmds, isGroup c.body = false) ∧ r = grouped .sequence scope o cmds := by
  cases cmds with
  | nil => simp [newSequence]
  | cons c cs =>
    have hiff := @sequenceMembers_none_iff c.scope (c :: cs)
    simp only [newSequence]
    constructor
    · intro h
      split at h
      · cases h
      rename_i hnone
      have hall := hiff.mp hnone
      exact ⟨c.scope,List.cons_ne_nil _ _,fun x hx => (hall x hx).2,fun x hx => (hall x hx).1,
        (Except.ok.inj h).symm⟩
    · rintro ⟨scope,-,hscope,hleaf,rfl⟩
      have hc := hscope c List.mem_cons_self
      rw [hiff.mpr fun x hx => ⟨hleaf x hx,(hscope x hx).trans hc.symm⟩,hc]
      rfl

def LeafFits (scope : Scope) (leaf : Syncml.Command) : Prop :=
  itemsOf leaf ≠ [] ∧ (isExec leaf = true → (itemsOf leaf).length = 1) ∧
  ∀ it ∈ itemsOf leaf, checkLocURI it.target = none ∧ scopeOf it.target = scope

variable {scope : Scope}

theorem checkItems_none_iff {items : List Item} : checkItems scope items = none ↔
      ∀ it ∈ items, checkLocURI it.target = none ∧ scopeOf it.target = scope := by
  induction items with
  | nil => simp [checkItems]
  | cons it rest ih =>
    rw [List.forall_mem_cons,← ih]
    simp only [checkItems]
    cases checkLocURI it.target with
    | some err => simp
    | none => by_cases hs : scopeOf it.target = scope <;> simp [hs]

theorem checkLeaves_none_iff {scope : Scope} {cs : List Syncml.Command} :
    checkLeaves scope cs = none ↔ ∀ c ∈ cs, LeafFits scope c := by
  induction cs with
  | nil => simp [checkLeaves]
  | cons leaf rest ih =>
    rw [List.forall_mem_cons,← ih]
    simp only [checkLeaves,LeafFits,← checkItems_none_iff]
    by_cases hlen : itemsOf leaf = []
    · simp [hlen]
    by_cases hexec : isExec leaf = true ∧ (itemsOf leaf).length ≠ 1
    · simp [hlen,hexec]
    have hone : isExec leaf = true → (itemsOf leaf).length = 1 := by
      simpa using hexec
    cases hitems : checkItems scope (itemsOf leaf) with
    | some e => simp [hlen,hexec]
    | none => simpa [hlen,hexec] using fun _ => hone

def Command.LeavesFit (c : Command) : Prop :=
  leaves c.body ≠ [] ∧ ∀ leaf ∈ leaves c.body, LeafFits c.scope leaf

def AtomicFits : Syncml.Command → Prop
  | .group .atomic _ _ _ cs => (∀ m ∈ cs, AtomicMember m) ∧ NoReplaceOfAdded [] cs
  | _ => True

theorem checkAtomic_none_iff {c : Command} (h : leaves c.body ≠ []) :
    checkAtomic c = none ↔ AtomicFits c.body := by
  unfold checkAtomic
  cases hb : c.body with
  | group kind i nr m cs =>
    cases kind with
    | atomic =>
      have hcs : cs ≠ [] := by
        rintro rfl
        rw [hb] at h
        exact h rfl
      have hbodies : (cs.map fun inner => ({ scope := c.scope, body := inner } : Command)).map
          Command.body = cs := by simp [Function.comp_def]
      have hiff := @newAtomic_ok_iff
        (cs.map fun inner => ({ scope := c.scope, body := inner } : Command)) {}
      rw [hbodies] at hiff
      dsimp only [AtomicFits]
      split
      · rename_i e he
        refine iff_of_false (by simp) fun hf => ?_
        have hok := hiff.mpr ⟨c.scope,by simpa using hcs,by simp,by simpa using hf.1,hf.2,rfl⟩
        rw [he] at hok
        cases hok
      · rename_i r hr
        obtain ⟨scope,-,-,hm,hno,-⟩ := hiff.mp hr
        exact iff_of_true rfl ⟨by simpa using hm,hno⟩
    | sequence => simp [AtomicFits]
  | leaf _ _ | alert _ | status _ | results _ => simp [AtomicFits]

def checkBody (c : Command) : Option CommandError :=
  if (leaves c.body).length = 0 then some (.empty c.body.name)
  else match checkLeaves c.scope (leaves c.body) with
    | some e => some e
    | none => checkAtomic c

theorem validate_none_iff (c : Command) : validate c = none ↔ c.LeavesFit ∧ AtomicFits c.body := by
  have hcheck : checkBody c = none ↔ c.LeavesFit ∧ AtomicFits c.body := by
    unfold checkBody
    by_cases hl : leaves c.body = []
    · simp [hl,Command.LeavesFit]
    rw [if_neg (by simpa using hl)]
    have hiff := @checkLeaves_none_iff c.scope (leaves c.body)
    cases hc : checkLeaves c.scope (leaves c.body) with
    | some e =>
      refine iff_of_false (by simp) fun hf => ?_
      rw [hiff.mpr hf.1.2] at hc
      cases hc
    | none =>
      rw [checkAtomic_none_iff hl]
      exact ⟨fun ha => ⟨⟨hl,hiff.mp hc⟩,ha⟩,fun ha => ha.2⟩
  -- a Status, a Results or an Alert is refused, and has no items as a leaf either
  have hno : ∀ b, leaves c.body = [b] → itemsOf b = [] → ¬c.LeavesFit := by
    intro b hb hi hf
    exact (hf.2 b (by rw [hb]; exact List.mem_singleton_self b)).1 hi
  unfold checkBody at hcheck
  unfold validate
  cases hb : c.body with
  | leaf _ _ | group _ _ _ _ _ => rw [hb] at hcheck; exact hcheck
  | alert a =>
    exact iff_of_false (by simp) fun hf => hno (.alert a) (by rw [hb]; rfl) rfl hf.1
  | status st =>
    exact iff_of_false (by simp) fun hf => hno (.status st) (by rw [hb]; rfl) rfl hf.1
  | results r =>
    exact iff_of_false (by simp) fun hf => hno (.results r) (by rw [hb]; rfl) rfl hf.1

/- A tree of commands of one scope rebuilt from below: the rules for a leaf at
the leaves, `NewSequence` and `NewAtomic` at the groups. -/
mutual
def rebuild (scope : Scope) : Syncml.Command → Except CommandError Command
  | .leaf verb b =>
    match checkLeaves scope [.leaf verb b] with
    | some e => .error e
    | none => .ok { scope := scope, body := .leaf verb b }
  | .group .atomic _ _ _ cs =>
    match rebuildAll scope cs with
    | .ok members => newAtomic members {}
    | .error e => .error e
  | .group .sequence _ _ _ cs =>
    match rebuildAll scope cs with
    | .ok members => newSequence members {}
    | .error e => .error e
  | .alert _ => .error (.notServerCommand Syncml.cmdAlert)
  | .status _ => .error (.notServerCommand Syncml.cmdStatus)
  | .results _ => .error (.notServerCommand Syncml.cmdResults)

def rebuildAll (scope : Scope) : List Syncml.Command → Except CommandError (List Command)
  | [] => .ok []
  | c :: cs =>
    match rebuild scope c with
    | .error e => .error e
    | .ok r =>
      match rebuildAll scope cs with
      | .ok rs => .ok (r :: rs)
      | .error e => .error e
end

theorem rebuildAll_ok_iff :
    rebuildAll scope cs = .ok rs ↔ cs.map (rebuild scope) = rs.map .ok := by
  induction cs generalizing rs with
  | nil => simp [rebuildAll,eq_comm]
  | cons c cs ih =>
    simp only [rebuildAll,List.map_cons]
    cases rebuild scope c with
    | error e => cases rs <;> simp
    | ok r =>
      cases hcs : rebuildAll scope cs with
      | error e =>
        cases rs with
        | nil => simp
        | cons r' rs => simpa [hcs] using fun _ => (not_congr (@ih rs)).mp (by simp [hcs])
      | ok rs' =>
        cases rs with
        | nil => simp
        | cons r' rs => simpa [hcs] using fun _ => @ih rs

theorem rebuildAll_map_iff {f : Syncml.Command → Command}
    (hf : ∀ c ∈ cs, ∀ r, rebuild scope c = .ok r → r = f c) :
    rebuildAll scope cs = .ok rs ↔ (∀ c ∈ cs, rebuild scope c = .ok (f c)) ∧ rs = cs.map f := by
  rw [rebuildAll_ok_iff]
  constructor
  · intro h
    have hall : ∀ c ∈ cs, rebuild scope c = .ok (f c) := by
      intro c hc
      have hmem : rebuild scope c ∈ rs.map Except.ok := h ▸ List.mem_map_of_mem hc
      obtain ⟨r,-,hr⟩ := List.mem_map.mp hmem
      rw [← hr,hf c hc r hr.symm]
    have hmap : rs.map (Except.ok (ε := CommandError)) = (cs.map f).map Except.ok := by
      rw [← h,List.map_map]
      exact List.map_congr_left hall
    exact ⟨hall,List.map_injective_iff.mpr (fun _ _ he => Except.ok.inj he) hmap⟩
  · rintro ⟨hall,rfl⟩
    rw [List.map_map]
    exact List.map_congr_left hall

theorem rebuild_leaf_iff {verb : Verb} {b : Leaf} :
    rebuild scope (.leaf verb b) = .ok r ↔
      LeafFits scope (.leaf verb b) ∧ r = { scope := scope, body := .leaf verb b } := by
  have hiff := @checkLeaves_none_iff scope [.leaf verb b]
  simp only [List.forall_mem_singleton] at hiff
  simp only [rebuild]
  cases hc : checkLeaves scope [.leaf verb b] with
  | some e => simp [← hiff,hc]
  | none => simp [hiff.mp hc,eq_comm]

def cleared : Syncml.Command → Syncml.Command
  | .group kind _ _ _ cs => .group kind [] false none cs
  | c => c

@[simp]
theorem targets_cleared (c : Syncml.Command) : targets (cleared c) = targets c := by
  cases c <;> rfl

@[simp]
theorem name_cleared (c : Syncml.Command) : (cleared c).name = c.name := by
  cases c <;> rfl

theorem atomicMember_cleared : AtomicMember (cleared c) ↔ AtomicMember c := by
  cases c with
  | group kind i nr m cs => cases kind <;> rfl
  | leaf _ _ | alert _ | status _ | results _ => rfl

theorem lastTouching_cleared (uri : GoString) (cs : List Syncml.Command) :
    (lastTouching uri (cs.map cleared)).map Syncml.Command.name =
      (lastTouching uri cs).map Syncml.Command.name := by
  unfold lastTouching
  rw [← List.map_reverse,List.find?_map]
  simp [Function.comp_def]

theorem noReplaceOfAdded_cleared {before cs : List Syncml.Command} :
    NoReplaceOfAdded (before.map cleared) (cs.map cleared) ↔ NoReplaceOfAdded before cs := by
  induction cs generalizing before with
  | nil => rfl
  | cons c cs ih =>
    simp only [List.map_cons,NoReplaceOfAdded,name_cleared,targets_cleared,lastTouching_cleared]
    rw [← ih]
    simp

theorem rebuild_isGroup (h : rebuild scope c = .ok r) :
    isGroup r.body = isGroup c := by
  cases c with
  | leaf verb b =>
    obtain ⟨-,rfl⟩ := rebuild_leaf_iff.mp h
    rfl
  | group kind i nr m cs =>
    cases kind with
    | atomic =>
      simp only [rebuild] at h
      split at h
      · obtain ⟨sc,-,-,-,-,rfl⟩ := newAtomic_ok_iff.mp h
        rfl
      · cases h
    | sequence =>
      simp only [rebuild] at h
      split at h
      · obtain ⟨sc,-,-,-,rfl⟩ := newSequence_ok_iff.mp h
        rfl
      · cases h
  | alert _ | status _ | results _ => cases h

theorem rebuild_single_iff (hc : isGroup c = false) :
    rebuild scope c = .ok r ↔ LeafFits scope c ∧ r = { scope := scope, body := c } := by
  cases c with
  | leaf verb b => exact rebuild_leaf_iff
  | group kind i nr m cs => cases hc
  | alert _ | status _ | results _ => simp [rebuild,LeafFits,itemsOf]

theorem grouped_map {kind : GroupKind} :
    grouped kind scope {} (cs.map fun c => { scope := scope, body := c }) =
      { scope := scope, body := .group kind [] false none cs } := by
  simp [grouped,Function.comp_def]

variable {nr : Bool} {i : GoString} {m : Option Meta}

theorem rebuild_sequence_iff :
    rebuild scope (.group .sequence i nr m cs) = .ok r ↔ cs ≠ [] ∧
      (∀ c ∈ cs, isGroup c = false ∧ LeafFits scope c) ∧
      r = { scope := scope, body := .group .sequence [] false none cs } := by
  simp only [rebuild]
  constructor
  · intro h
    split at h
    · rename_i members hm
      obtain ⟨sc,hne,hscope,hleaf,rfl⟩ := newSequence_ok_iff.mp h
      have hsingle : ∀ c ∈ cs, isGroup c = false := by
        intro c hc
        have hmem : rebuild scope c ∈ members.map Except.ok :=
          rebuildAll_ok_iff.mp hm ▸ List.mem_map_of_mem hc
        obtain ⟨r,hr,hrc⟩ := List.mem_map.mp hmem
        rw [← rebuild_isGroup hrc.symm]
        exact hleaf r hr
      have hself : ∀ c ∈ cs, ∀ r, rebuild scope c = .ok r → r = { scope := scope, body := c } :=
        fun c hc r hr => ((rebuild_single_iff (hsingle c hc)).mp hr).2
      obtain ⟨hall,rfl⟩ := (rebuildAll_map_iff hself).mp hm
      have hfits := fun c hc => ((rebuild_single_iff (hsingle c hc)).mp (hall c hc)).1
      obtain ⟨c,hc⟩ := List.exists_mem_of_ne_nil _ hne
      have hsc : scope = sc := by
        obtain ⟨x,-,rfl⟩ := List.mem_map.mp hc
        exact hscope _ hc
      subst hsc
      exact ⟨by simpa using hne,fun c hc => ⟨hsingle c hc,hfits c hc⟩,grouped_map⟩
    · cases h
  · rintro ⟨hne,hall,rfl⟩
    have hself : ∀ c ∈ cs, ∀ r, rebuild scope c = .ok r → r = { scope := scope, body := c } :=
      fun c hc r hr => ((rebuild_single_iff (hall c hc).1).mp hr).2
    rw [(rebuildAll_map_iff hself).mpr
      ⟨fun c hc => (rebuild_single_iff (hall c hc).1).mpr ⟨(hall c hc).2,rfl⟩,rfl⟩]
    exact newSequence_ok_iff.mpr ⟨scope,by simpa using hne,by simp,
      by simpa using fun c hc => (hall c hc).1,grouped_map.symm⟩

/-- Every Sequence has members, and none of them is a group. -/
def FlatSequence : Syncml.Command → Prop
  | .group .sequence _ _ _ cs => cs ≠ [] ∧ ∀ c ∈ cs, isGroup c = false
  | _ => True

def Flat (c : Syncml.Command) : Prop := ∀ x ∈ c.walk, FlatSequence x

theorem leaves_of_single (h : isGroup c = false) : leaves c = [c] := by
  cases c with
  | group kind i nr m cs => cases h
  | leaf _ _ | alert _ | status _ | results _ => rfl

theorem walk_of_single (h : isGroup c = false) : c.walk = [c] := by
  cases c with
  | group kind i nr m cs => cases h
  | leaf _ _ | alert _ | status _ | results _ => rfl

theorem leavesAll_of_singles (h : ∀ c ∈ cs, isGroup c = false) : leavesAll cs = cs := by
  rw [leavesAll_eq_flatMap,List.flatMap_congr fun c hc => leaves_of_single (h c hc),
    List.flatMap_singleton']

theorem walkAll_of_singles (h : ∀ c ∈ cs, isGroup c = false) : walkAll cs = cs := by
  rw [Syncml.walkAll_eq_flatMap,List.flatMap_congr fun c hc => walk_of_single (h c hc),
    List.flatMap_singleton']

theorem flatSequence_of_single (h : isGroup c = false) : FlatSequence c := by
  cases c with
  | group kind i nr m cs => cases h
  | leaf _ _ | alert _ | status _ | results _ => trivial

def isAtomic : Syncml.Command → Bool
  | .group .atomic .. => true
  | _ => false

theorem rebuild_member_iff (h : isAtomic c = false) : rebuild scope c = .ok r ↔
      (∀ leaf ∈ leaves c, LeafFits scope leaf) ∧ Flat c ∧ r = { scope := scope, body := cleared c } := by
  have hsingle : isGroup c = false → cleared c = c → (rebuild scope c = .ok r ↔
      (∀ leaf ∈ leaves c, LeafFits scope leaf) ∧ Flat c ∧
        r = { scope := scope, body := cleared c }) := by
    intro hg hcl
    have hflat : Flat c := by
      rw [Flat,walk_of_single hg]
      simpa using flatSequence_of_single hg
    rw [rebuild_single_iff hg,leaves_of_single hg,List.forall_mem_singleton,hcl]
    simp [hflat]
  cases c with
  | leaf _ _ | alert _ | status _ | results _ => exact hsingle rfl rfl
  | group kind i nr m cs =>
    cases kind with
    | atomic => cases h
    | sequence =>
      rw [rebuild_sequence_iff]
      simp only [leaves,Flat,Syncml.Command.walk,List.forall_mem_cons,FlatSequence,cleared]
      constructor
      · rintro ⟨hne,hall,rfl⟩
        have hg : ∀ c ∈ cs, isGroup c = false := fun c hc => (hall c hc).1
        rw [leavesAll_of_singles hg,walkAll_of_singles hg]
        exact ⟨fun c hc => (hall c hc).2,⟨⟨hne,hg⟩,fun c hc => flatSequence_of_single (hg c hc)⟩,rfl⟩
      · rintro ⟨hfits,⟨⟨hne,hg⟩,-⟩,rfl⟩
        rw [leavesAll_of_singles hg] at hfits
        exact ⟨hne,fun c hc => ⟨hg c hc,hfits c hc⟩,rfl⟩

theorem leaves_ne_nil_of_flat (h : isAtomic c = false) (hf : Flat c) : leaves c ≠ [] := by
  cases c with
  | group kind i nr m cs =>
    cases kind with
    | atomic => cases h
    | sequence =>
      obtain ⟨hne,hg⟩ := hf _ List.mem_cons_self
      rw [leaves,leavesAll_of_singles hg]
      exact hne
  | leaf _ _ | alert _ | status _ | results _ => exact List.cons_ne_nil _ _

theorem isAtomic_of_member (h : AtomicMember c) : isAtomic c = false := by
  cases c with
  | group kind i nr m cs =>
    cases kind with
    | atomic => exact absurd rfl h
    | sequence => rfl
  | leaf _ _ | alert _ | status _ | results _ => rfl

theorem isAtomic_of_rebuild (h : rebuild scope c = .ok r) (hr : AtomicMember r.body) :
    isAtomic c = false := by
  cases c with
  | group kind i nr m cs =>
    cases kind with
    | atomic =>
      simp only [rebuild] at h
      split at h
      · obtain ⟨sc,-,-,-,-,rfl⟩ := newAtomic_ok_iff.mp h
        exact absurd rfl hr
      · cases h
    | sequence => rfl
  | leaf _ _ | alert _ | status _ | results _ => rfl

theorem flat_atomic_iff : Flat (.group .atomic i nr m cs) ↔ ∀ c ∈ cs, Flat c := by
  simp only [Flat,Syncml.Command.walk,List.forall_mem_cons,FlatSequence,true_and,
    Syncml.walkAll_eq_flatMap,List.mem_flatMap,forall_exists_index,and_imp]
  exact ⟨fun h c hc x hx => h x c hc hx,fun h x c hc hx => h c hc x hx⟩

theorem rebuild_atomic_iff : (∃ r, rebuild scope (.group .atomic i nr m cs) = .ok r) ↔ cs ≠ [] ∧
      (∀ c ∈ cs, (∀ leaf ∈ leaves c, LeafFits scope leaf) ∧ Flat c) ∧
      AtomicFits (.group .atomic i nr m cs) := by
  have hform : (∀ c ∈ cs, isAtomic c = false) → ∀ c ∈ cs, ∀ r, rebuild scope c = .ok r →
      r = { scope := scope, body := cleared c } :=
    fun h c hc r hr => ((rebuild_member_iff (h c hc)).mp hr).2.2
  have hbodies : (cs.map fun c => ({ scope := scope, body := cleared c } : Command)).map
      Command.body = cs.map cleared := by simp [Function.comp_def]
  simp only [rebuild]
  constructor
  · rintro ⟨r,h⟩
    split at h
    · rename_i members hm
      obtain ⟨sc,hne,-,hmem,hno,-⟩ := newAtomic_ok_iff.mp h
      have hna : ∀ c ∈ cs, isAtomic c = false := by
        intro c hc
        have hin : rebuild scope c ∈ members.map Except.ok :=
          rebuildAll_ok_iff.mp hm ▸ List.mem_map_of_mem hc
        obtain ⟨r,hr,hrc⟩ := List.mem_map.mp hin
        exact isAtomic_of_rebuild hrc.symm (hmem r hr)
      obtain ⟨hall,rfl⟩ := (rebuildAll_map_iff (hform hna)).mp hm
      rw [hbodies] at hno
      refine ⟨by simpa using hne,fun c hc => ?_,fun c hc => ?_,?_⟩
      · obtain ⟨hfits,hflat,-⟩ := (rebuild_member_iff (hna c hc)).mp (hall c hc)
        exact ⟨hfits,hflat⟩
      · exact atomicMember_cleared.mp (hmem _ (List.mem_map.mpr ⟨c,hc,rfl⟩))
      · exact (@noReplaceOfAdded_cleared [] cs).mp hno
    · cases h
  · rintro ⟨hne,hall,hmem,hno⟩
    have hna : ∀ c ∈ cs, isAtomic c = false := fun c hc => isAtomic_of_member (hmem c hc)
    refine ⟨grouped .atomic scope {} (cs.map fun c => { scope := scope, body := cleared c }),?_⟩
    rw [(rebuildAll_map_iff (hform hna)).mpr ⟨fun c hc =>
      (rebuild_member_iff (hna c hc)).mpr ⟨(hall c hc).1,(hall c hc).2,rfl⟩,rfl⟩]
    refine newAtomic_ok_iff.mpr ⟨scope,by simpa using hne,by simp,?_,?_,rfl⟩
    · simpa using fun c hc => atomicMember_cleared.mpr (hmem c hc)
    · rw [hbodies]
      exact (@noReplaceOfAdded_cleared [] cs).mpr hno

theorem rebuild_ok_iff (c : Command) :
    (∃ r, rebuild c.scope c.body = .ok r) ↔ c.LeavesFit ∧ AtomicFits c.body ∧ Flat c.body := by
  unfold Command.LeavesFit
  generalize c.scope = scope
  by_cases ha : isAtomic c.body = true
  · cases hb : c.body with
    | group kind i nr m cs =>
      rw [hb] at ha
      cases kind with
      | atomic =>
        rw [rebuild_atomic_iff,flat_atomic_iff]
        simp only [leaves,leavesAll_eq_flatMap,List.mem_flatMap,forall_exists_index,and_imp]
        constructor
        · rintro ⟨hne,hall,hfits⟩
          refine ⟨⟨?_,fun l c hc hl => (hall c hc).1 l hl⟩,hfits,fun c hc => (hall c hc).2⟩
          obtain ⟨c,hc⟩ := List.exists_mem_of_ne_nil _ hne
          obtain ⟨l,hl⟩ := List.exists_mem_of_ne_nil _
            (leaves_ne_nil_of_flat (isAtomic_of_member (hfits.1 c hc)) (hall c hc).2)
          exact List.ne_nil_of_mem (List.mem_flatMap.mpr ⟨c,hc,hl⟩)
        · rintro ⟨⟨hne,hleaf⟩,hfits,hflat⟩
          refine ⟨?_,fun c hc => ⟨fun l hl => hleaf l c hc hl,hflat c hc⟩,hfits⟩
          rintro rfl
          exact hne rfl
      | sequence => cases ha
    | leaf _ _ | alert _ | status _ | results _ => rw [hb] at ha; cases ha
  · have hna : isAtomic c.body = false := by simpa using ha
    have hfits : AtomicFits c.body := by
      cases hb : c.body with
      | group kind i nr m cs =>
        rw [hb] at hna
        cases kind with
        | atomic => cases hna
        | sequence => trivial
      | leaf _ _ | alert _ | status _ | results _ => trivial
    simp only [rebuild_member_iff hna]
    constructor
    · rintro ⟨r,hall,hflat,-⟩
      exact ⟨⟨leaves_ne_nil_of_flat hna hflat,hall⟩,hfits,hflat⟩
    · rintro ⟨⟨-,hall⟩,-,hflat⟩
      exact ⟨_,hall,hflat,rfl⟩

/-- `Validate` agrees with the builders, but for groups in a Sequence and for
a Sequence without members. -/
theorem validate_rebuild_iff (c : Command) :
    (validate c = none ↔ ∃ r, rebuild c.scope c.body = .ok r) ↔
      (c.LeavesFit → AtomicFits c.body → Flat c.body) := by
  rw [validate_none_iff,rebuild_ok_iff]
  constructor
  · intro h hl ha
    exact (h.mp ⟨hl,ha⟩).2.2
  · intro h
    exact ⟨fun ⟨hl,ha⟩ => ⟨hl,ha,h hl ha⟩,fun ⟨hl,ha,_⟩ => ⟨hl,ha⟩⟩

namespace Sample

def nestedSequence : Command where
  scope := .device
  body := .group .sequence [] false none [.group .sequence [] false none
    [.leaf .replace { items := [{ target := "./Vendor/MSFT/Policy" }] }]]

end Sample

theorem nestedSequence_valid : validate Sample.nestedSequence = none ∧
    rebuild Sample.nestedSequence.scope Sample.nestedSequence.body =
      .error (.insideSequence Syncml.cmdSequence) :=
  ⟨by decide +kernel,by rfl⟩

end MicrosoftDM.Mdm
