import Mathlib.Data.List.Sort
import Mathlib.Data.List.Dedup
import MicrosoftDM.Authentication

/-!
The shared state of state/state.go in memory: transactions with a private
write set, and pruning. A context answers each time it is asked whether it has
been cancelled. Times count nanoseconds from Go's zero time.
-/

set_option autoImplicit false

namespace MicrosoftDM.State
open Mdm (Bytes validKey)

structure Record where
  key : GoString
  value : Bytes
  expiresAt : Time
  deriving DecidableEq

inductive Error where
  | notFound | invalid | context
  deriving DecidableEq

/-- Whether the context is cancelled when it is asked for the n-th time. -/
abbrev Context := Nat → Bool

def Context.Live (ctx : Context) : Prop := ∀ n, ctx n = false

/-- A record without an expiry stays. -/
def Record.expired (r : Record) (now : Time) : Bool :=
  decide (r.expiresAt ≠ 0) && decide (r.expiresAt ≤ now)

def Record.Under (r : Record) (k : GoString) : Prop := r.key = k ∧ validKey k = true

theorem keyed_empty (k : GoString) (r : Record)
    (h : (∅ : GoMap (Option Record)).lookup k = some (some r)) : r.Under k := by
  simp at h

/-- Each record is under its own key, and only valid keys are used. -/
structure Memory where
  records : GoMap Record := ∅
  keyed : ∀ k r, records.lookup k = some r → r.Under k := by simp

structure Tx where
  memory : Memory
  writes : GoMap (Option Record) := ∅
  keyed : ∀ k r, writes.lookup k = some (some r) → r.Under k := by simp
  now : Time
  polls : Nat := 0

def Tx.asked (t : Tx) : Tx := { t with polls := t.polls+1 }

/-- The record under a key, the transaction's own writes first. -/
def Tx.find (t : Tx) (k : GoString) : Option Record :=
  match t.writes.lookup k with
  | some w => w
  | none => t.memory.records.lookup k

def Tx.get (t : Tx) (ctx : Context) (k : GoString) : Except Error Record × Tx :=
  if ctx t.polls then (.error .context,t.asked)
  else if validKey k = false then (.error .invalid,t.asked)
  else
    match t.find k with
    | some r => (.ok r,t.asked)
    | none => (.error .notFound,t.asked)

def Tx.getAll (ctx : Context) : List GoString → Tx → Except Error (List Record) × Tx
  | [], t => (.ok [],t)
  | k :: ks, t =>
    match t.get ctx k with
    | (.error e,t) => (.error e,t)
    | (.ok r,t) =>
      match getAll ctx ks t with
      | (.error e,t) => (.error e,t)
      | (.ok rs,t) => (.ok (r :: rs),t)

def Tx.keys (t : Tx) (start after : GoString) : List GoString :=
  ((t.memory.records.keys ++ t.writes.keys).dedup.filter fun k =>
    (t.find k).isSome && start.isPrefixOf k && decide (after < k)).insertionSort (· ≤ ·)

def Tx.list (t : Tx) (ctx : Context) (start after : GoString) (limit : Int) :
    Except Error (List Record) × Tx :=
  if ctx t.polls then (.error .context,t.asked)
  else if limit ≤ 0 ∨ limit > 10000 then (.error .invalid,t.asked)
  else t.asked.getAll ctx ((t.keys start after).take limit.toNat)

def Tx.put (t : Tx) (ctx : Context) (r : Record) : Except Error Unit × Tx :=
  if ctx t.polls then (.error .context,t.asked)
  else if hk : validKey r.key = false then (.error .invalid,t.asked)
  else (.ok (),{ t.asked with
    writes := t.writes.insert r.key (some r)
    keyed := by
      intro k r' h
      rcases GoMap.lookup_insert_cases h with ⟨rfl,he⟩ | ⟨-,h⟩
      · cases he
        exact ⟨rfl,by simpa using hk⟩
      · exact t.keyed k r' h })

def Tx.delete (t : Tx) (ctx : Context) (k : GoString) : Except Error Unit × Tx :=
  if ctx t.polls then (.error .context,t.asked)
  else if validKey k = false then (.error .invalid,t.asked)
  else (.ok (),{ t.asked with
    writes := t.writes.insert k none
    keyed := by
      intro k' r h
      rcases GoMap.lookup_insert_cases h with ⟨-,he⟩ | ⟨-,h⟩
      · cases he
      · exact t.keyed k' r h })

def commitOne (m : GoMap Record) (k : GoString) : Option Record → GoMap Record
  | some r => m.insert k r
  | none => m.erase k

def commitAll (m : GoMap Record) (writes : GoMap (Option Record)) : GoMap Record :=
  writes.entries.foldl (fun m w => commitOne m w.1 w.2) m

theorem lookup_commitAll (m : GoMap Record) (writes : GoMap (Option Record)) (k : GoString) :
    (commitAll m writes).lookup k =
      match writes.lookup k with
      | some w => w
      | none => m.lookup k := by
  have hfold : ∀ (l : List (Sigma fun _ : GoString => Option Record)), l.NodupKeys →
      ∀ m : GoMap Record, (l.foldl (fun m w => commitOne m w.1 w.2) m).lookup k =
        match l.dlookup k with
        | some w => w
        | none => m.lookup k := by
    intro l
    induction l with
    | nil => exact fun _ _ => rfl
    | cons e rest ih =>
      intro hd m
      obtain ⟨hne,hrest⟩ := List.nodupKeys_cons.mp hd
      rw [List.foldl_cons,ih hrest]
      by_cases hk : k = e.1
      · have hnone : rest.dlookup k = none := List.dlookup_eq_none.mpr (hk ▸ hne)
        obtain ⟨e₁,e₂⟩ := e
        subst hk
        rw [hnone,List.dlookup_cons_eq]
        cases e₂ with
        | none => exact AList.lookup_erase _ m
        | some r => exact AList.lookup_insert m
      · rw [List.dlookup_cons_ne _ _ hk]
        cases rest.dlookup k with
        | some w => rfl
        | none =>
          obtain ⟨e₁,e₂⟩ := e
          cases e₂ with
          | none => exact AList.lookup_erase_ne hk
          | some r => exact AList.lookup_insert_ne hk
  exact hfold writes.entries writes.nodupKeys m

def Tx.commit (t : Tx) : Memory where
  records := commitAll t.memory.records t.writes
  keyed := by
    intro k r h
    rw [lookup_commitAll] at h
    cases hw : t.writes.lookup k with
    | some w =>
      rw [hw] at h
      exact t.keyed k r (hw.trans (congrArg some h))
    | none =>
      rw [hw] at h
      exact t.memory.keyed k r h

theorem Tx.lookup_commit (t : Tx) (k : GoString) : t.commit.records.lookup k = t.find k :=
  lookup_commitAll t.memory.records t.writes k

/-- `Update`. The errors of the callback are its own and those of the store. -/
def Memory.update {ε α : Type} (m : Memory) (ctx : Context) (now : Time) (keys : List GoString)
    (ofStore : Error → ε) (fn : Tx → Except ε α × Tx) : Except ε α × Memory :=
  if keys = [] then (.error (ofStore .invalid),m)
  else if keys.any (fun k => validKey k = false) then (.error (ofStore .invalid),m)
  else if ctx 0 then (.error (ofStore .context),m)
  else
    match fn { memory := m, now := now, polls := 1 } with
    | (.error e,_) => (.error e,m)
    | (.ok a,t) => if ctx t.polls then (.error (ofStore .context),m) else (.ok a,t.commit)

def Memory.erase (m : Memory) (k : GoString) : Memory where
  records := m.records.erase k
  keyed k' r h := m.keyed k' r (GoMap.lookup_erase_some h).2

def pruneLoop (now : Time) (limit : Int) : List GoString → Int → Memory → Int × Memory
  | [], n, m => (n,m)
  | k :: ks, n, m =>
    match m.records.lookup k with
    | none => pruneLoop now limit ks n m
    | some r =>
      if r.expired now then
        if n+1 = limit then (n+1,m.erase k) else pruneLoop now limit ks (n+1) (m.erase k)
      else pruneLoop now limit ks n m

def Memory.prune (m : Memory) (ctx : Context) (now : Time) (limit : Int) (order : List GoString) :
    Except Error Int × Memory :=
  if limit ≤ 0 ∨ limit > 10000 then (.error .invalid,m)
  else if ctx 0 then (.error .context,m)
  else
    let r := pruneLoop now limit order 0 m
    (.ok r.1,r.2)

def Memory.Pruned (now : Time) (m m' : Memory) : Prop :=
  ∀ k, m'.records.lookup k = m.records.lookup k ∨
    m'.records.lookup k = none ∧ ∃ r, m.records.lookup k = some r ∧ r.expired now = true

theorem pruneLoop_pruned (now : Time) (limit : Int) (order : List GoString) (n : Int) (m : Memory) :
    Memory.Pruned now m (pruneLoop now limit order n m).2 := by
  induction order generalizing n m with
  | nil => exact fun _ => .inl rfl
  | cons j rest ih =>
    unfold pruneLoop
    cases hl : m.records.lookup j with
    | none => exact ih n m
    | some r =>
      simp only
      split
      · rename_i hr
        have herase : Memory.Pruned now m (m.erase j) := by
          intro k
          by_cases hk : k = j
          · subst hk
            exact .inr ⟨AList.lookup_erase k m.records,r,hl,hr⟩
          · exact .inl (AList.lookup_erase_ne hk)
        split
        · exact herase
        intro k
        rcases ih (n+1) (m.erase j) k with h | ⟨h,r',hr',he⟩
        · rw [h]
          exact herase k
        · exact .inr ⟨h,r',(GoMap.lookup_erase_some hr').2,he⟩
      · exact ih n m

theorem Memory.prune_pruned (m : Memory) (ctx : Context) (now : Time) (limit : Int)
    (order : List GoString) : Memory.Pruned now m (m.prune ctx now limit order).2 := by
  unfold prune
  split
  · exact fun _ => .inl rfl
  split
  · exact fun _ => .inl rfl
  · exact pruneLoop_pruned now limit order 0 m

def Tx.Asked (t t' : Tx) : Prop := ∃ n, t' = { t with polls := n }

section Reading
variable {t t' t'' : Tx} {ctx : Context}

theorem Tx.Asked.refl (t : Tx) : t.Asked t := ⟨t.polls,rfl⟩

theorem Tx.Asked.once (t : Tx) : t.Asked t.asked := ⟨t.polls+1,rfl⟩

theorem Tx.Asked.trans (h : t.Asked t') (h' : t'.Asked t'') : t.Asked t'' := by
  obtain ⟨n,rfl⟩ := h
  obtain ⟨n',rfl⟩ := h'
  exact ⟨n',rfl⟩

/-- The call was cut short by its context, or did what it does under a live one. -/
def Context.Cuts {ε α : Type} (ctx : Context) (e : ε) (r : Except ε α) (full : Except ε α) : Prop :=
  r = .error e ∧ (∃ n, ctx n = true) ∨ r = full

def Tx.getResult (t : Tx) (k : GoString) : Except Error Record :=
  match t.find k with
  | some r => .ok r
  | none => .error .notFound

theorem Tx.get_spec {k : GoString} (hk : validKey k = true) :
    (t.get ctx k).2 = t.asked ∧ ctx.Cuts .context (t.get ctx k).1 (t.getResult k) := by
  unfold Tx.get
  split
  · rename_i hc
    exact ⟨rfl,.inl ⟨rfl,t.polls,hc⟩⟩
  rw [if_neg (by simp [hk])]
  unfold getResult
  split <;> exact ⟨rfl,.inr rfl⟩

theorem Tx.getAll_spec {ks : List GoString}
    (hk : ∀ k ∈ ks, validKey k = true ∧ (t.find k).isSome = true) :
    t.Asked (t.getAll ctx ks).2 ∧
    ctx.Cuts .context (t.getAll ctx ks).1 (.ok (ks.filterMap t.find)) := by
  induction ks generalizing t with
  | nil => exact ⟨.refl t,.inr rfl⟩
  | cons k rest ih =>
    obtain ⟨hvalid,hsome⟩ := hk k List.mem_cons_self
    obtain ⟨r,hr⟩ := Option.isSome_iff_exists.mp hsome
    obtain ⟨hasked,hget⟩ := @get_spec t ctx k hvalid
    have hrest := @ih t.asked fun k' hk' => hk k' (List.mem_cons_of_mem k hk')
    rcases hg : t.get ctx k with ⟨got,t₁⟩
    rw [hg] at hasked hget
    replace hasked : t₁ = t.asked := hasked
    subst hasked
    unfold getAll
    rw [hg]
    rcases hget with ⟨he,hn⟩ | he
    · cases he
      exact ⟨.once t,.inl ⟨rfl,hn⟩⟩
    rw [getResult,hr] at he
    cases he
    simp only
    rcases hall : t.asked.getAll ctx rest with ⟨got,t₂⟩
    rw [hall] at hrest
    obtain ⟨hask,hcut⟩ := hrest
    rcases hcut with ⟨he,hn⟩ | he
    · cases he
      exact ⟨(Tx.Asked.once t).trans hask,.inl ⟨rfl,hn⟩⟩
    cases he
    refine ⟨(Tx.Asked.once t).trans hask,.inr ?_⟩
    rw [List.filterMap_cons_some hr]
    rfl

theorem Tx.valid_of_find {k : GoString} {r : Record} (h : t.find k = some r) : r.Under k := by
  unfold Tx.find at h
  cases hw : t.writes.lookup k with
  | some w =>
    rw [hw] at h
    exact t.keyed k r (hw.trans (congrArg some h))
  | none =>
    rw [hw] at h
    exact t.memory.keyed k r h

theorem Tx.mem_keys {start after k : GoString} : k ∈ t.keys start after ↔
    (t.find k).isSome = true ∧ start <+: k ∧ after < k := by
  unfold keys
  rw [(List.perm_insertionSort _ _).mem_iff,List.mem_filter]
  simp only [Bool.and_eq_true,decide_eq_true_eq,List.isPrefixOf_iff_prefix,List.mem_dedup,
    List.mem_append,and_assoc,and_iff_right_iff_imp,and_imp]
  intro hfind _ _
  obtain ⟨r,hr⟩ := Option.isSome_iff_exists.mp hfind
  unfold Tx.find at hr
  cases hw : t.writes.lookup k with
  | some w => exact .inr (GoMap.mem_keys_of_lookup hw)
  | none =>
    rw [hw] at hr
    exact .inl (GoMap.mem_keys_of_lookup hr)

theorem Tx.keys_nodup (start after : GoString) : (t.keys start after).Nodup := by
  unfold keys
  rw [(List.perm_insertionSort _ _).nodup_iff]
  exact (List.nodup_dedup _).filter _

theorem Tx.list_spec {start after : GoString} {limit : Int} (h₁ : 1 ≤ limit) (h₂ : limit ≤ 10000) :
    t.Asked (t.list ctx start after limit).2 ∧
    ctx.Cuts .context (t.list ctx start after limit).1
      (.ok (((t.keys start after).take limit.toNat).filterMap t.find)) := by
  unfold list
  split
  · rename_i hc
    exact ⟨.once t,.inl ⟨rfl,t.polls,hc⟩⟩
  rw [if_neg (by omega)]
  have hk : ∀ k ∈ (t.keys start after).take limit.toNat,
      validKey k = true ∧ (t.asked.find k).isSome = true := by
    intro k hk
    have hsome := (mem_keys.mp (List.mem_of_mem_take hk)).1
    obtain ⟨r,hr⟩ := Option.isSome_iff_exists.mp hsome
    exact ⟨(valid_of_find hr).2,hsome⟩
  obtain ⟨hask,hcut⟩ := @getAll_spec t.asked ctx _ hk
  exact ⟨(Tx.Asked.once t).trans hask,hcut⟩

theorem Tx.find_write {t' : Tx} {k : GoString} {w : Option Record} (hm : t'.memory = t.memory)
    (hw : t'.writes = t.writes.insert k w) (j : GoString) :
    t'.find j = if j = k then w else t.find j := by
  unfold Tx.find
  rw [hm,hw,GoMap.lookup_insert_ite]
  by_cases hj : j = k <;> simp [hj]

theorem Tx.delete_spec {k : GoString} (hk : validKey k = true) :
    (t.delete ctx k).1 = .error .context ∧ (∃ n, ctx n = true) ∨
    (t.delete ctx k).1 = .ok () ∧ (t.delete ctx k).2.memory = t.memory ∧
      ∀ j, (t.delete ctx k).2.find j = if j = k then none else t.find j := by
  unfold Tx.delete
  split
  · rename_i hc
    exact .inl ⟨rfl,t.polls,hc⟩
  rw [if_neg (by simp [hk])]
  exact .inr ⟨rfl,rfl,Tx.find_write rfl rfl⟩

theorem Tx.put_spec {r : Record} (hk : validKey r.key = true) :
    (t.put ctx r).1 = .error .context ∧ (∃ n, ctx n = true) ∨
    (t.put ctx r).1 = .ok () ∧ (t.put ctx r).2.memory = t.memory ∧
      ∀ j, (t.put ctx r).2.find j = if j = r.key then some r else t.find j := by
  unfold Tx.put
  split
  · rename_i hc
    exact .inl ⟨rfl,t.polls,hc⟩
  rw [dif_neg (by simp [hk])]
  exact .inr ⟨rfl,rfl,Tx.find_write rfl rfl⟩

end Reading

end MicrosoftDM.State
