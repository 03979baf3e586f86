import MicrosoftDM.SyncMLValidate

set_option autoImplicit false

namespace MicrosoftDM.Syncml

/-- `v'` is `v` after a check of commands with the CmdIDs `new`: it finds
nothing wrong when `P` holds and the CmdIDs are new, distinct, not empty and not "0". -/
structure Validator.Checks (new : List GoString) (P : Prop) (v v' : Validator) : Prop where
  ok : v'.errs = [] ↔ v.errs = [] ∧ P ∧ new.Nodup ∧ ∀ i ∈ new, i ≠ [] ∧ i ≠ utf8 "0" ∧ i ∉ v.ids
  ids : v'.errs = [] → ∀ k, k ∈ v'.ids ↔ k ∈ v.ids ∨ k ∈ new

variable {xs : List GoString} {P Q : Prop} {v v' v₁ v₂ v₃ : Validator} {inAtomic : Bool}

namespace Validator.Checks

theorem refl (v : Validator) : Checks [] True v v where
  ok := by simp
  ids := by simp

theorem trans {ys : List GoString}
    (h₁ : Checks xs P v₁ v₂) (h₂ : Checks ys Q v₂ v₃) : Checks (xs ++ ys) (P ∧ Q) v₁ v₃ where
  ok := by
    rw [h₂.ok]
    constructor
    · rintro ⟨he,hq,hd,hn⟩
      have hi := h₁.ids he
      obtain ⟨he₁,hp,hd₁,hn₁⟩ := h₁.ok.mp he
      refine ⟨he₁,⟨hp,hq⟩,List.nodup_append.mpr ⟨hd₁,hd,?_⟩,?_⟩
      · rintro x hx y hy rfl
        exact (hn x hy).2.2 ((hi x).mpr (.inr hx))
      intro i hi'
      rcases List.mem_append.mp hi' with hx | hy
      · exact hn₁ i hx
      · exact ⟨(hn i hy).1,(hn i hy).2.1,fun hv => (hn i hy).2.2 ((hi i).mpr (.inl hv))⟩
    · rintro ⟨he,⟨hp,hq⟩,hd,hn⟩
      obtain ⟨hd₁,hd₂,hdisj⟩ := List.nodup_append.mp hd
      have he₂ := h₁.ok.mpr ⟨he,hp,hd₁,fun i hi => hn i (List.mem_append_left _ hi)⟩
      refine ⟨he₂,hq,hd₂,fun i hi => ?_⟩
      obtain ⟨hne,h0,hv⟩ := hn i (List.mem_append_right _ hi)
      refine ⟨hne,h0,fun hmem => ?_⟩
      rcases (h₁.ids he₂ i).mp hmem with h | h
      · exact hv h
      · exact hdisj i h i hi rfl
  ids := by
    intro he k
    have he₂ := (h₂.ok.mp he).1
    rw [h₂.ids he,h₁.ids he₂,List.mem_append,or_assoc]

theorem congr (h : Checks xs P v v')
    (hpq : P ↔ Q) : Checks xs Q v v' where
  ok := by rw [h.ok,hpq]
  ids := h.ids

/-- Two checks that look at no CmdID. -/
theorem seq (h₁ : Checks [] P v₁ v₂)
    (h₂ : Checks [] Q v₂ v₃) : Checks [] (P ∧ Q) v₁ v₃ := h₁.trans h₂

theorem fail (v : Validator) (rule : Rule) (path msg : GoString) (args : List GoString) :
    Checks [] False v (v.fail rule path msg args) where
  ok := by simp [Validator.fail]
  ids := by simp [Validator.fail]

theorem failIf (v : Validator) (broken : Bool) (rule : Rule) (path msg : GoString)
    (args : List GoString) : Checks [] (broken = false) v (v.failIf broken rule path msg args) := by
  cases broken with
  | true => exact (fail ..).congr (by simp)
  | false => exact (refl v).congr (by simp)

theorem cmdID (v : Validator) (id p : GoString) : Checks [id] True v (v.cmdID id p) := by
  unfold Validator.cmdID
  by_cases hid : id = [] ∨ id = utf8 "0"
  · rw [if_pos hid]
    constructor
    · simp only [Validator.fail,List.append_eq_nil_iff,List.cons_ne_nil,and_false,
        List.mem_singleton,forall_eq,false_iff,true_and]
      rintro ⟨-,-,hne,h0,-⟩
      exact hid.elim hne h0
    · simp [Validator.fail]
  · rw [if_neg hid]
    rw [not_or] at hid
    cases hl : v.ids.lookup id with
    | some first =>
      have hmem : id ∈ v.ids := AList.lookup_isSome.mp (by rw [hl]; rfl)
      constructor
      · simp [Validator.fail,hmem]
      · simp [Validator.fail]
    | none =>
      have hmem : id ∉ v.ids := AList.lookup_eq_none.mp hl
      constructor
      · simp [hid,hmem]
      · intro _ k
        simp [AList.mem_insert,or_comm]

theorem ite {c : Prop} [Decidable c] (h : Checks [] P v v') :
    Checks [] (c → P) v (if c then v' else v) := by
  by_cases hc : c
  · rw [if_pos hc]
    exact h.congr (by simp [hc])
  · rw [if_neg hc]
    exact (refl v).congr (by simp [hc])

end Validator.Checks

def FormatKnown (m : Option Meta) : Prop := ∀ x ∈ m, x.format = [] ∨ knownFormat x.format = true

def Meta.IsAuth (m : Meta) : Prop := m.type = authBasic ∨ m.type = authMD5

def Item.Addressed (it : Item) : Prop := checkLocURI it.locURI = none

def Item.OneForm (it : Item) : Prop := ∀ d ∈ it.data, d.value = [] ∨ d.xml = []

def Item.Typed (it : Item) : Prop := ∃ m ∈ it.metinf, m.type ≠ []

def Alert.IsEvent (a : Alert) : Prop := a.code = alertClientEvent ∨ a.code = alertGeneric

def Positive (s : GoString) : Prop := ∃ n, atoi s = some n ∧ 1 ≤ n

/-- The rules for one command that are documented and checked. -/
def Command.Shared : Command → Prop
  | .leaf verb n => n.items ≠ [] ∧ (verb = .exec → n.items.length = 1) ∧
      (∀ it ∈ n.items, it.Addressed ∧ FormatKnown it.metinf) ∧
      (verb.checksMeta = true → FormatKnown n.metinf)
  | .group .. => True
  | .alert a => alertKnown a.code = true ∧ (a.IsEvent → ∃ it ∈ a.items, it.Typed) ∧
      ∀ it ∈ a.items, FormatKnown it.metinf
  | .status s => s.msgRef ≠ [] ∧ s.cmdRef ≠ [] ∧ s.cmd ∈ statusNames ∧
      (atoi s.data.value).isSome = true ∧ ∀ it ∈ s.items, FormatKnown it.metinf
  | .results r => r.cmdRef ≠ [] ∧ r.items ≠ [] ∧
      (∀ it ∈ r.items, it.Addressed ∧ FormatKnown it.metinf) ∧ FormatKnown r.metinf

/-- The rules for one command that are checked and not documented. -/
def Command.Undocumented : Command → Prop
  | .leaf _ n => ∀ it ∈ n.items, it.OneForm
  | .group _ _ _ _ cs => cs ≠ []
  | .alert a => a.IsEvent → ∀ it ∈ a.items, it.Typed
  | .status s => (s.cmdRef = utf8 "0" → s.cmd = cmdSyncHdr) ∧
      (∀ n, atoi s.data.value = some n → 100 ≤ n ∧ n ≤ 999) ∧ (∀ c ∈ s.chal, c.metinf.IsAuth) ∧
      ∀ c ∈ s.cred, c.metinf.IsAuth ∧ c.data ≠ []
  | .results r => (r.msgRef ≠ [] → Positive r.msgRef) ∧ ∀ it ∈ r.items, it.OneForm

def Command.added : Command → List GoString
  | .leaf .add n => n.items.map Item.locURI
  | _ => []

def Command.replaced : Command → List GoString
  | .leaf .replace n => n.items.map Item.locURI
  | _ => []

def NoAddThenReplace (cs : List Command) : Prop :=
  cs.Pairwise fun a b => ∀ uri ∈ a.added, uri ∉ b.replaced

def Command.Atomizable : Command → Prop
  | .leaf verb _ => verb ≠ .get
  | .group kind _ _ _ _ => kind ≠ .atomic
  | _ => True

/-- What is checked of the content of an Atomic: all that is below it, but
only its members for an Add and then a Replace. -/
def Command.AtomicChecked : Command → Prop
  | .group .atomic _ _ _ cs => (∀ c ∈ walkAll cs, c.Atomizable) ∧ NoAddThenReplace cs
  | _ => True

namespace Validator.Checks

theorem metinf (v : Validator) (m : Option Meta) (path : GoString) :
    Checks [] (FormatKnown m) v (v.metinf m path) := by
  cases m with
  | none => exact (refl v).congr (by simp [FormatKnown])
  | some m =>
    refine (failIf ..).congr ?_
    simp only [FormatKnown,Option.mem_some_iff,forall_eq',decide_eq_false_iff_not,not_and,
      Bool.not_eq_false]
    exact or_iff_not_imp_left.symm

theorem cred (v : Validator) (c : Cred) (path : GoString) :
    Checks [] (c.metinf.IsAuth ∧ c.data ≠ []) v (v.cred c path) := by
  refine ((failIf ..).seq (failIf ..)).congr ?_
  simp only [Meta.IsAuth,decide_eq_false_iff_not,not_and,not_not]
  exact and_congr_left' or_iff_not_imp_left.symm

/-- The parts of the checks that look at something optional. -/
def addressPart (v : Validator) (it : Item) (ip : GoString) : Validator :=
  if it.locURI = [] then v.fail .locURI ip "Item needs a Target or Source LocURI" []
  else match checkLocURI it.locURI with
    | some err => v.fail .locURI ip "%v: %q" [err,it.locURI]
    | none => v

def chalPart (v : Validator) (chal : Option Chal) (p : GoString) : Validator :=
  match chal with
  | some c => v.failIf (c.metinf.type ≠ authBasic ∧ c.metinf.type ≠ authMD5) .auth
      (p ++ "/Chal/Meta/Type") "must be %s or %s; got %q" [authBasic,authMD5,c.metinf.type]
  | none => v

def credPart (v : Validator) (cred : Option Cred) (path : GoString) : Validator :=
  match cred with
  | some c => v.cred c path
  | none => v

def notPositive (s : GoString) : Bool :=
  match atoi s with
  | some k => k < 1
  | none => true

theorem address (v : Validator) (it : Item) (ip : GoString) :
    Checks [] it.Addressed v (addressPart v it ip) := by
  unfold Item.Addressed addressPart
  by_cases hnil : it.locURI = []
  · rw [if_pos hnil,hnil]
    exact (fail ..).congr (by simp [checkLocURI])
  rw [if_neg hnil]
  cases h : checkLocURI it.locURI with
  | some err => exact (fail ..).congr (by simp)
  | none => exact (refl v).congr (by simp)

theorem chal (v : Validator) (chal : Option Chal) (p : GoString) :
    Checks [] (∀ c ∈ chal, c.metinf.IsAuth) v (chalPart v chal p) := by
  cases chal with
  | none => exact (refl v).congr (by simp)
  | some c =>
    refine (failIf ..).congr ?_
    simp only [Meta.IsAuth,Option.mem_some_iff,forall_eq',decide_eq_false_iff_not,not_and,not_not]
    exact or_iff_not_imp_left.symm

theorem creds (v : Validator) (o : Option Cred) (path : GoString) :
    Checks [] (∀ c ∈ o, c.metinf.IsAuth ∧ c.data ≠ []) v (credPart v o path) := by
  cases o with
  | none => exact (refl v).congr (by simp)
  | some c => exact (cred ..).congr (by simp)

theorem notPositive_iff (s : GoString) : notPositive s = true ↔ ¬Positive s := by
  unfold notPositive
  cases h : atoi s with
  | none | some _ => simp [Positive,h]

theorem item (v : Validator) (it : Item) (ip : GoString) :
    Checks [] (it.Addressed ∧ FormatKnown it.metinf ∧ it.OneForm) v (v.item it ip) := by
  refine (((address v it ip).seq (metinf ..)).seq (failIf ..)).congr ?_
  rw [and_assoc]
  refine and_congr_right' (and_congr_right' ?_)
  cases hd : it.data with
  | none => simp [Item.OneForm,hd]
  | some d =>
    simp only [Item.OneForm,hd,Option.mem_some_iff,forall_eq',decide_eq_false_iff_not,not_and,
      not_not]
    exact or_iff_not_imp_left.symm

theorem itemList (v : Validator) (path : GoString) (i : Nat) (items : List Item) :
    Checks [] (∀ it ∈ items, it.Addressed ∧ FormatKnown it.metinf ∧ it.OneForm) v
      (v.itemList path i items) := by
  induction items generalizing v i with
  | nil => exact (refl v).congr (by simp)
  | cons it rest ih => exact ((item ..).seq (ih ..)).congr (by rw [List.forall_mem_cons])

theorem items (v : Validator) (its : List Item) (path : GoString) (minItems maxItems : Nat) :
    Checks [] (minItems ≤ its.length ∧ (0 < maxItems → its.length ≤ maxItems) ∧
      ∀ it ∈ its, it.Addressed ∧ FormatKnown it.metinf ∧ it.OneForm) v
      (v.items its path minItems maxItems) := by
  refine ((failIf ..).seq ((failIf ..).seq (itemList ..))).congr ?_
  simp only [decide_eq_false_iff_not,not_and,not_lt,gt_iff_lt]

theorem itemMetas (v : Validator) (path : GoString) (i : Nat) (items : List Item) :
    Checks [] (∀ it ∈ items, FormatKnown it.metinf) v (v.itemMetas path i items) := by
  induction items generalizing v i with
  | nil => exact (refl v).congr (by simp)
  | cons it rest ih => exact ((metinf ..).seq (ih ..)).congr (by rw [List.forall_mem_cons])

theorem alertTypes (v : Validator) (code : AlertCode) (path : GoString) (i : Nat)
    (items : List Item) : Checks [] (∀ it ∈ items, it.Typed) v (v.alertTypes code path i items) := by
  induction items generalizing v i with
  | nil => exact (refl v).congr (by simp)
  | cons it rest ih =>
    refine ((failIf ..).seq (ih ..)).congr ?_
    rw [List.forall_mem_cons]
    refine and_congr_left' ?_
    cases hm : it.metinf with
    | none | some _ => simp [Item.Typed,hm]

theorem alert (v : Validator) (n : Alert) (p : GoString) :
    Checks [] ((Command.alert n).Shared ∧ (Command.alert n).Undocumented) v (v.alert n p) := by
  have hevent : ∀ v, Checks [] (n.IsEvent → n.items ≠ [] ∧ ∀ it ∈ n.items, it.Typed) v
      (if n.code = alertClientEvent ∨ n.code = alertGeneric then
        (v.failIf (n.items.length = 0) .items p "alert %d needs an Item" [itoa n.code]).alertTypes
          n.code p 0 n.items
      else v) := by
    intro v
    refine (ite ((failIf ..).seq (alertTypes ..))).congr ?_
    simp [Alert.IsEvent]
  refine (((failIf ..).seq (hevent _)).seq (itemMetas ..)).congr ?_
  simp only [Command.Shared,Command.Undocumented,decide_eq_false_iff_not,Bool.not_eq_false]
  constructor
  · rintro ⟨⟨hk,he⟩,hf⟩
    refine ⟨⟨hk,fun h => ?_,hf⟩,fun h => (he h).2⟩
    obtain ⟨it,rest,hit⟩ := List.exists_cons_of_ne_nil (he h).1
    exact ⟨it,by rw [hit]; exact List.mem_cons_self,(he h).2 it (by rw [hit]; exact List.mem_cons_self)⟩
  rintro ⟨⟨hk,he,hf⟩,hall⟩
  refine ⟨⟨hk,fun h => ⟨?_,hall h⟩⟩,hf⟩
  obtain ⟨it,hit,-⟩ := he h
  exact List.ne_nil_of_mem hit

theorem status (v : Validator) (n : Status) (p : GoString) :
    Checks [] ((Command.status n).Shared ∧ (Command.status n).Undocumented) v (v.status n p) := by
  have hcode : (parseStatusCode n.data.value).isNone = false ↔
      (atoi n.data.value).isSome = true ∧ ∀ k, atoi n.data.value = some k → 100 ≤ k ∧ k ≤ 999 := by
    unfold parseStatusCode
    cases atoi n.data.value with
    | none => simp
    | some k =>
      by_cases hk : k < 100 ∨ k > 999
      · simp only [hk,if_true,Option.isNone_none,Bool.true_eq_false,Option.isSome_some,true_and,
          Option.some.injEq,forall_eq',false_iff]
        omega
      · simp only [hk,if_false,Option.isNone_some,Option.isSome_some,true_and,Option.some.injEq,
          forall_eq',true_iff]
        omega
  refine ((((((((failIf ..).seq (failIf ..)).seq (failIf ..)).seq (failIf ..)).seq (failIf ..)).seq
    (chal _ n.chal p)).seq (creds _ n.cred _)).seq (itemMetas ..)).congr ?_
  simp only [Command.Shared,Command.Undocumented,decide_eq_false_iff_not,not_and,not_not,hcode]
  constructor
  · rintro ⟨⟨⟨⟨⟨⟨⟨h₁,h₂⟩,h₃⟩,h₄⟩,h₅,h₆⟩,h₇⟩,h₈⟩,h₉⟩
    exact ⟨⟨h₁,h₂,h₃,h₅,h₉⟩,h₄,h₆,h₇,h₈⟩
  · rintro ⟨⟨h₁,h₂,h₃,h₅,h₉⟩,h₄,h₆,h₇,h₈⟩
    exact ⟨⟨⟨⟨⟨⟨⟨h₁,h₂⟩,h₃⟩,h₄⟩,h₅,h₆⟩,h₇⟩,h₈⟩,h₉⟩

theorem one_le_length_iff {α : Type} {xs : List α} : 1 ≤ xs.length ↔ xs ≠ [] :=
  List.length_pos_iff

theorem results (v : Validator) (n : Results) (p : GoString) :
    Checks [] ((Command.results n).Shared ∧ (Command.results n).Undocumented) v (v.results n p) := by
  refine (((failIf ..).seq ((failIf ..).seq ((items ..).seq (metinf ..))))).congr ?_
  simp only [Command.Shared,Command.Undocumented,decide_eq_false_iff_not,not_and,
    one_le_length_iff,Nat.lt_irrefl,false_implies,true_and]
  constructor
  · rintro ⟨h₁,h₂,⟨h₃,h₄⟩,h₅⟩
    exact ⟨⟨h₁,h₃,fun it hit => ⟨(h₄ it hit).1,(h₄ it hit).2.1⟩,h₅⟩,
      fun hne => by_contra fun hp => h₂ hne ((notPositive_iff n.msgRef).mpr hp),fun it hit => (h₄ it hit).2.2⟩
  · rintro ⟨⟨h₁,h₃,h₄,h₅⟩,h₂,h₆⟩
    exact ⟨h₁,fun hne hp => (notPositive_iff n.msgRef).mp hp (h₂ hne),
      ⟨h₃,fun it hit => ⟨(h₄ it hit).1,(h₄ it hit).2,h₆ it hit⟩⟩,h₅⟩

theorem leaf (v : Validator) (verb : Verb) (n : Leaf) (p : GoString) (inAtomic : Bool) :
    Checks [] ((Command.leaf verb n).Shared ∧ (Command.leaf verb n).Undocumented ∧
      (inAtomic = true → (Command.leaf verb n).Atomizable)) v (v.leaf verb n p inAtomic) := by
  have hmax : (0 < verb.maxItems → n.items.length ≤ verb.maxItems) ↔
      (verb = .exec → n.items.length ≤ 1) := by
    cases verb <;> simp [Verb.maxItems]
  refine (((items ..).seq (ite (metinf ..))).seq (failIf ..)).congr ?_
  simp only [Command.Shared,Command.Undocumented,Command.Atomizable,decide_eq_false_iff_not,not_and,
    hmax,one_le_length_iff]
  constructor
  · rintro ⟨⟨⟨h₁,h₂,h₃⟩,h₄⟩,h₅⟩
    have hpos := List.length_pos_iff.mpr h₁
    refine ⟨⟨h₁,fun he => ?_,fun it hit => ⟨(h₃ it hit).1,(h₃ it hit).2.1⟩,h₄⟩,
      fun it hit => (h₃ it hit).2.2,fun ha hg => h₅ hg ha⟩
    have := h₂ he
    omega
  · rintro ⟨⟨h₁,h₂,h₃,h₄⟩,h₅,h₆⟩
    exact ⟨⟨⟨h₁,fun he => Nat.le_of_eq (h₂ he),
      fun it hit => ⟨(h₃ it hit).1,(h₃ it hit).2,h₅ it hit⟩⟩,h₄⟩,fun hg ha => h₆ ha hg⟩

/-- The scan over the members of an Atomic, after Adds of the nodes `added`. -/
theorem atomicAddReplace (v : Validator) (path : GoString) (added : List GoString)
    (cs : List Command) : Checks [] ((∀ c ∈ cs, ∀ uri ∈ c.replaced, uri ∉ added) ∧
      NoAddThenReplace cs) v (v.atomicAddReplace path added cs) := by
  have hfold : ∀ (added : List GoString) (its : List Item) (v : Validator) (p msg : GoString),
      Checks [] (∀ it ∈ its, it.locURI ∉ added) v (its.foldl (fun v it =>
        v.failIf (it.locURI ∈ added) .atomicAddThenReplace p msg [it.locURI]) v) := by
    intro added its
    induction its with
    | nil => exact fun v _ _ => (refl v).congr (by simp)
    | cons it rest ih =>
      intro v p msg
      refine ((failIf ..).seq (ih _ p msg)).congr ?_
      simp
  -- a member that is neither an Add nor a Replace
  have hother : ∀ (added : List GoString) (c : Command) (cs : List Command),
      c.added = [] → c.replaced = [] →
      ((∀ c ∈ cs, ∀ uri ∈ c.replaced, uri ∉ added) ∧ NoAddThenReplace cs ↔
        (∀ x ∈ c :: cs, ∀ uri ∈ x.replaced, uri ∉ added) ∧ NoAddThenReplace (c :: cs)) := by
    intro added c cs ha hr
    simp [NoAddThenReplace,ha,hr]
  induction cs generalizing v added with
  | nil => exact (refl v).congr (by simp [NoAddThenReplace])
  | cons c cs ih =>
    cases c with
    | leaf verb n =>
      cases verb with
      | add =>
        refine (ih ..).congr ?_
        simp only [NoAddThenReplace,List.pairwise_cons,List.forall_mem_cons,List.mem_append,not_or]
        constructor
        · rintro ⟨h,hp⟩
          exact ⟨⟨by simp [Command.replaced],fun c hc uri hu => (h c hc uri hu).1⟩,
            fun b hb uri hu hr => (h b hb uri hr).2 hu,hp⟩
        · rintro ⟨⟨-,h⟩,ha,hp⟩
          exact ⟨fun c hc uri hu => ⟨h c hc uri hu,fun hn => ha c hc uri hn hu⟩,hp⟩
      | replace =>
        refine ((hfold added _ v _ _).seq (ih ..)).congr ?_
        simp only [NoAddThenReplace,List.pairwise_cons,List.forall_mem_cons,Command.replaced,
          Command.added,List.mem_map,forall_exists_index,and_imp,forall_apply_eq_imp_iff₂,
          List.not_mem_nil,false_implies,implies_true,true_and,and_assoc]
      | delete | get | exec => exact (ih ..).congr (hother added _ _ rfl rfl)
    | group _ _ _ _ _ | alert _ | status _
    | results _ => exact (ih ..).congr (hother added _ _ rfl rfl)

end Validator.Checks

def Command.Checked (inAtomic : Bool) (c : Command) : Prop :=
  c.Shared ∧ c.Undocumented ∧ c.AtomicChecked ∧ (inAtomic = true → c.Atomizable)

theorem checked_leaf_iff {verb : Verb} {n : Leaf} :
    (Command.leaf verb n).Checked inAtomic ↔ (Command.leaf verb n).Shared ∧
      (Command.leaf verb n).Undocumented ∧ (inAtomic = true → (Command.leaf verb n).Atomizable) := by
  simp [Command.Checked,Command.AtomicChecked]

theorem checked_inside_iff {id : GoString} {nr : Bool} {m : Option Meta}
    {cs : List Command} :
    (inAtomic = false ∧ cs ≠ [] ∧ NoAddThenReplace cs ∧ ∀ c ∈ walkAll cs, c.Checked true) ↔
      ∀ c ∈ (Command.group .atomic id nr m cs).walk, c.Checked inAtomic := by
  simp only [Command.walk,List.forall_mem_cons,Command.Checked,Command.Shared,Command.Undocumented,
    Command.AtomicChecked,Command.Atomizable,ne_eq,not_true_eq_false,imp_false,Bool.not_eq_true,
    true_and,forall_const]
  constructor
  · rintro ⟨ha,hne,hp,hall⟩
    exact ⟨⟨hne,⟨fun c hc => (hall c hc).2.2.2,hp⟩,ha⟩,
      fun c hc => ⟨(hall c hc).1,(hall c hc).2.1,(hall c hc).2.2.1,fun _ => (hall c hc).2.2.2⟩⟩
  · rintro ⟨⟨hne,⟨hat,hp⟩,ha⟩,hall⟩
    exact ⟨ha,hne,hp,fun c hc => ⟨(hall c hc).1,(hall c hc).2.1,(hall c hc).2.2.1,hat c hc⟩⟩

mutual
theorem Validator.command_checks (v : Validator) (path : GoString) (inAtomic : Bool) (c : Command) :
    Validator.Checks (c.walk.map Command.id) (∀ x ∈ c.walk, x.Checked inAtomic) v
      (v.command path inAtomic c) := by
  cases c with
  | leaf verb n =>
    refine ((Checks.cmdID ..).trans (Checks.leaf ..)).congr ?_
    simp [Command.walk,checked_leaf_iff]
  | alert n =>
    refine ((Checks.cmdID ..).trans (Checks.alert ..)).congr ?_
    simp [Command.walk,Command.Checked,Command.AtomicChecked,Command.Atomizable]
  | status n =>
    refine ((Checks.cmdID ..).trans (Checks.status ..)).congr ?_
    simp [Command.walk,Command.Checked,Command.AtomicChecked,Command.Atomizable]
  | results n =>
    refine ((Checks.cmdID ..).trans (Checks.results ..)).congr ?_
    simp [Command.walk,Command.Checked,Command.AtomicChecked,Command.Atomizable]
  | group kind id nr m cs =>
    have hid := Checks.cmdID v id (commandPath path kind.name id)
    cases kind with
    | atomic =>
      refine (hid.trans (((Checks.failIf ..).seq ((Checks.failIf ..).seq
        (Checks.atomicAddReplace ..))).trans (Validator.commands_checks _ _ true cs))).congr ?_
      rw [← checked_inside_iff]
      simp [and_assoc]
    | sequence =>
      refine (hid.trans ((Checks.failIf ..).trans
        (Validator.commands_checks _ _ inAtomic cs))).congr ?_
      simp [Command.walk,Command.Checked,Command.AtomicChecked,Command.Atomizable,Command.Shared,
        Command.Undocumented]

theorem Validator.commands_checks (v : Validator) (path : GoString) (inAtomic : Bool)
    (cs : List Command) :
    Validator.Checks ((walkAll cs).map Command.id) (∀ x ∈ walkAll cs, x.Checked inAtomic) v
      (v.commands path inAtomic cs) := by
  cases cs with
  | nil => exact (Checks.refl v).congr (by simp [walkAll])
  | cons c cs =>
    rw [walkAll,List.map_append]
    refine ((Validator.command_checks v path inAtomic c).trans
      (Validator.commands_checks _ path inAtomic cs)).congr ?_
    simp only [List.mem_append,or_imp,forall_and]
end

/-- The documented rules for the header, all of which are checked. -/
def Header.Documented (h : Header) (ns : GoString) : Prop :=
  (ns = namespaceSyncML12 ∨ ns = namespaceSyncML11) ∧ h.verDTD = Syncml.verDTD ∧
  h.verProto = Syncml.verProto ∧
  h.sessionID ≠ [] ∧ Positive h.msgID ∧ h.target.locURI ≠ [] ∧ h.source.locURI ≠ [] ∧
  FormatKnown h.metinf

theorem Validator.header_checks (v : Validator) (h : Header) (ns : GoString) :
    Validator.Checks [] (h.Documented ns ∧ ∀ c ∈ h.cred, c.metinf.IsAuth ∧ c.data ≠ []) v
      (v.header h ns) := by
  have hpos : Checks.notPositive h.msgID = false ↔ Positive h.msgID := by
    rw [← Bool.not_eq_true,Checks.notPositive_iff,not_not]
  refine (((((((((Checks.failIf ..).seq (Checks.failIf ..)).seq (Checks.failIf ..)).seq
    (Checks.failIf ..)).seq (Checks.failIf ..)).seq (Checks.failIf ..)).seq (Checks.failIf ..)).seq
    (Checks.creds _ h.cred _)).seq (Checks.metinf ..)).congr ?_
  simp only [Header.Documented,decide_eq_false_iff_not,not_and,not_not]
  constructor
  · rintro ⟨⟨⟨⟨⟨⟨⟨⟨h₁,h₂⟩,h₃⟩,h₄⟩,h₅⟩,h₆⟩,h₇⟩,h₈⟩,h₉⟩
    exact ⟨⟨or_iff_not_imp_left.mpr h₁,h₂,h₃,h₄,hpos.mp h₅,h₆,h₇,h₉⟩,h₈⟩
  · rintro ⟨⟨h₁,h₂,h₃,h₄,h₅,h₆,h₇,h₉⟩,h₈⟩
    exact ⟨⟨⟨⟨⟨⟨⟨⟨or_iff_not_imp_left.mp h₁,h₂⟩,h₃⟩,h₄⟩,hpos.mpr h₅⟩,h₆⟩,h₇⟩,h₈⟩,h₉⟩

/-- The rules that are documented and checked. -/
structure Message.Shared (m : Message) : Prop where
  header : m.header.Documented m.xmlns
  body : m.body.commands ≠ []
  distinct : ((walkAll m.body.commands).map Command.id).Nodup
  cmdIDs : ∀ c ∈ walkAll m.body.commands, c.id ≠ [] ∧ c.id ≠ utf8 "0"
  commands : ∀ c ∈ walkAll m.body.commands, c.Shared
  atomics : ∀ c ∈ walkAll m.body.commands, c.AtomicChecked

/-- The rules that are checked and not documented. -/
structure Message.Undocumented (m : Message) : Prop where
  cred : ∀ c ∈ m.header.cred, c.metinf.IsAuth ∧ c.data ≠ []
  commands : ∀ c ∈ walkAll m.body.commands, c.Undocumented

theorem validate_eq_nil_iff (m : Message) : validate m = [] ↔ m.Shared ∧ m.Undocumented := by
  have h : validate m = [] ↔ _ := (((Validator.header_checks {} m.header m.xmlns).seq
    (Validator.Checks.failIf _ (m.body.commands.length = 0) .emptyBody "SyncBody" "no commands" [])).trans
    (Validator.commands_checks _ "SyncBody" false m.body.commands)).ok
  have hids : ∀ i : GoString, i ∉ (∅ : GoMap GoString) := fun i => AList.notMem_empty i
  simp only [true_and,decide_eq_false_iff_not,List.length_eq_zero_iff,List.nil_append,hids,
    not_false_eq_true,and_true,List.mem_map,forall_exists_index,and_imp,forall_apply_eq_imp_iff₂] at h
  rw [h]
  constructor
  · rintro ⟨⟨⟨⟨hh,hc⟩,hb⟩,hall⟩,hd,hn⟩
    exact ⟨⟨hh,hb,hd,hn,fun c hc => (hall c hc).1,fun c hc => (hall c hc).2.2.1⟩,
      hc,fun c hc => (hall c hc).2.1⟩
  · rintro ⟨hs,hu⟩
    refine ⟨⟨⟨⟨hs.header,hu.cred⟩,hs.body⟩,fun c hc => ?_⟩,hs.distinct,hs.cmdIDs⟩
    exact ⟨hs.commands c hc,hu.commands c hc,hs.atomics c hc,fun h => absurd h (by decide)⟩

/-- The CmdIDs of a valid message are distinct at every depth, not empty and not "0". -/
theorem validate_ids {m : Message} (h : validate m = []) :
    ((walkAll m.body.commands).map Command.id).Nodup ∧
    ∀ c ∈ walkAll m.body.commands, c.id ≠ [] ∧ c.id ≠ utf8 "0" :=
  have hs := ((validate_eq_nil_iff m).mp h).1
  ⟨hs.distinct,hs.cmdIDs⟩

/-- The documented rules for one command and what is below it. -/
def Command.Documented : Command → Prop
  | .leaf verb n => n.items ≠ [] ∧ (verb = .exec → n.items.length = 1) ∧ FormatKnown n.metinf ∧
      ∀ it ∈ n.items, it.Addressed ∧ FormatKnown it.metinf
  | .group kind _ _ m cs => FormatKnown m ∧
      (kind = .atomic → (∀ c ∈ walkAll cs, c.Atomizable) ∧ NoAddThenReplace (walkAll cs))
  | .alert a => alertKnown a.code = true ∧ (a.IsEvent → ∃ it ∈ a.items, it.Typed) ∧
      ∀ it ∈ a.items, it.Addressed ∧ FormatKnown it.metinf
  | .status s => s.msgRef ≠ [] ∧ s.cmdRef ≠ [] ∧ s.cmd ∈ statusNames ∧
      (atoi s.data.value).isSome = true ∧ ∀ it ∈ s.items, it.Addressed ∧ FormatKnown it.metinf
  | .results r => r.cmdRef ≠ [] ∧ r.items ≠ [] ∧ FormatKnown r.metinf ∧
      ∀ it ∈ r.items, it.Addressed ∧ FormatKnown it.metinf

/-- The rules the comment on `Validate` lists. -/
structure Message.Documented (m : Message) : Prop where
  header : m.header.Documented m.xmlns
  body : m.body.commands ≠ []
  distinct : ((walkAll m.body.commands).map Command.id).Nodup
  cmdIDs : ∀ c ∈ walkAll m.body.commands, c.id ≠ [] ∧ c.id ≠ utf8 "0"
  commands : ∀ c ∈ walkAll m.body.commands, c.Documented

/-- The documented rules for one command that are not checked. -/
def Command.Unchecked : Command → Prop
  | .leaf verb n => verb.checksMeta = false → FormatKnown n.metinf
  | .group kind _ _ m cs => FormatKnown m ∧ (kind = .atomic → NoAddThenReplace (walkAll cs))
  | .alert a => ∀ it ∈ a.items, it.Addressed
  | .status s => ∀ it ∈ s.items, it.Addressed
  | .results _ => True

mutual
theorem Command.sublist_walk (c : Command) : [c].Sublist c.walk := by
  cases c with
  | group k i n m cs => exact List.Sublist.cons_cons _ (List.nil_sublist _)
  | leaf _ _ | alert _ | status _ | results _ => exact List.Sublist.refl _

theorem sublist_walkAll (cs : List Command) : cs.Sublist (walkAll cs) := by
  cases cs with
  | nil => exact List.Sublist.refl _
  | cons c cs => exact (Command.sublist_walk c).append (sublist_walkAll cs)
end

theorem Command.documented_iff (c : Command) :
    c.Documented ↔ c.Shared ∧ c.AtomicChecked ∧ c.Unchecked := by
  cases c with
  | leaf verb n =>
    simp only [Command.Documented,Command.Shared,Command.AtomicChecked,Command.Unchecked,true_and]
    cases verb.checksMeta with
    | true => simp only [true_implies,Bool.true_eq_false,false_implies,and_true]; tauto
    | false => simp only [Bool.false_eq_true,false_implies,and_true,true_implies]; tauto
  | group kind i nr m cs =>
    cases kind with
    | atomic =>
      simp only [Command.Documented,Command.Shared,Command.AtomicChecked,Command.Unchecked,true_and,
        true_implies]
      constructor
      · rintro ⟨hf,ha,hp⟩
        exact ⟨⟨ha,hp.sublist (sublist_walkAll cs)⟩,hf,hp⟩
      · rintro ⟨⟨ha,-⟩,hf,hp⟩
        exact ⟨hf,ha,hp⟩
    | sequence =>
      simp [Command.Documented,Command.Shared,Command.AtomicChecked,Command.Unchecked]
  | alert _ | status _ =>
    simp only [Command.Documented,Command.Shared,Command.AtomicChecked,Command.Unchecked,forall_and]
    tauto
  | results r =>
    simp only [Command.Documented,Command.Shared,Command.AtomicChecked,Command.Unchecked]
    tauto

theorem Message.documented_iff (m : Message) :
    m.Documented ↔ m.Shared ∧ ∀ c ∈ walkAll m.body.commands, c.Unchecked := by
  constructor
  · intro h
    have hc := fun c hc => (Command.documented_iff c).mp (h.commands c hc)
    exact ⟨⟨h.header,h.body,h.distinct,h.cmdIDs,fun c hc' => (hc c hc').1,
      fun c hc' => (hc c hc').2.1⟩,fun c hc' => (hc c hc').2.2⟩
  · rintro ⟨hs,hu⟩
    exact ⟨hs.header,hs.body,hs.distinct,hs.cmdIDs,fun c hc =>
      (Command.documented_iff c).mpr ⟨hs.commands c hc,hs.atomics c hc,hu c hc⟩⟩

/-- `Validate` finds nothing wrong exactly with the messages that follow its
documentation, but for the rules only one of the two has. -/
theorem validate_documented_iff (m : Message) : (validate m = [] ↔ m.Documented) ↔
    (m.Shared → (m.Undocumented ↔ ∀ c ∈ walkAll m.body.commands, c.Unchecked)) := by
  rw [validate_eq_nil_iff,Message.documented_iff]
  exact and_congr_right_iff

namespace Sample

def addNode (id : GoString) : Command := .leaf .add { cmdID := id, items := [{ target := "./A" }] }

def nestedReplace : Message where
  xmlns := namespaceSyncML12
  header := { verDTD := verDTD, verProto := verProto, sessionID := "1", msgID := "1",
              target := { locURI := "https://server" }, source := { locURI := "device" } }
  body := { commands := [.group .atomic "1" false none [.group .sequence "2" false none [addNode "3"],
    .leaf .replace { cmdID := "4", items := [{ target := "./A" }] }]] }

end Sample

theorem nestedReplace_accepted : validate Sample.nestedReplace = [] ∧ ¬Sample.nestedReplace.Documented := by
  refine ⟨by decide +kernel,fun h => ?_⟩
  obtain ⟨-,hatomic⟩ := h.commands _ (List.mem_cons_self)
  have hpair := (hatomic rfl).2
  exact List.rel_of_pairwise_cons (List.pairwise_cons.mp hpair).2 (List.mem_singleton_self _)
    (utf8 "./A") (List.mem_singleton_self _) (List.mem_singleton_self _)

end MicrosoftDM.Syncml
