import MicrosoftDM.EffectProgram
import MicrosoftDM.StateStore

set_option autoImplicit false

namespace MicrosoftDM.State
open Mdm (validKey)

abbrev Content := GoString → Option Record

/-- A call of the callback. Each is made with a context of its own. -/
inductive TxOp where
  | get (ctx : Context) (k : GoString)
  | list (ctx : Context) (start after : GoString) (limit : Int)
  | put (ctx : Context) (r : Record)
  | delete (ctx : Context) (k : GoString)

abbrev TxOp.Ans : TxOp → Type
  | .get _ _ => Except Error Record
  | .list _ _ _ _ => Except Error (List Record)
  | .put _ _ => Except Error Unit
  | .delete _ _ => Except Error Unit

def Tx.perform : Effect.Handler TxOp TxOp.Ans Tx
  | .get ctx k, t => t.get ctx k
  | .list ctx start after limit, t => t.list ctx start after limit
  | .put ctx r, t => t.put ctx r
  | .delete ctx k, t => t.delete ctx k

/-- A callback: any calls, in any order, each chosen by the answers so far. -/
abbrev Callback (ε α : Type) := Effect.Program TxOp TxOp.Ans (Except ε α)

def Content.wrote (c : Content) : (op : TxOp) → op.Ans → Content
  | .put _ r, .ok _ => fun k => if k = r.key then some r else c k
  | .delete _ k, .ok _ => fun j => if j = k then none else c j
  | _, _ => c

def Content.wroteAll (c : Content) (calls : List ((op : TxOp) × op.Ans)) : Content :=
  calls.foldl (fun c x => c.wrote x.1 x.2) c

/-- The keys of the content with the given start, after a key, in order. -/
structure Listing (c : Content) (start after : GoString) (ks : List GoString) : Prop where
  sorted : ks.Pairwise (· < ·)
  mem : ∀ k, k ∈ ks ↔ (c k).isSome = true ∧ start <+: k ∧ after < k

/-- What a call is answered on this content, unless its context cuts it short. -/
def Content.Answers (c : Content) : (op : TxOp) → op.Ans → Prop
  | .get ctx k, ans => ctx.Cuts .context ans
      (if validKey k = true then (c k).elim (.error .notFound) .ok else .error .invalid)
  | .list ctx start after limit, ans =>
    if 1 ≤ limit ∧ limit ≤ 10000 then ∃ ks, Listing c start after ks ∧
      ctx.Cuts .context ans (.ok ((ks.take limit.toNat).filterMap c))
    else ctx.Cuts .context ans (.error .invalid)
  | .put ctx r, ans => ctx.Cuts .context ans (if validKey r.key = true then .ok () else .error .invalid)
  | .delete ctx k, ans => ctx.Cuts .context ans (if validKey k = true then .ok () else .error .invalid)

section Steps
variable {t : Tx} {start after : GoString}

theorem Tx.keys_sorted (t : Tx) (start after : GoString) : (t.keys start after).Pairwise (· < ·) := by
  have hle : (t.keys start after).Pairwise (· ≤ ·) := List.pairwise_insertionSort _ _
  refine (hle.and (t.keys_nodup start after)).imp fun ⟨h,hne⟩ => ?_
  exact List.not_le.mp fun h' => hne (List.le_antisymm h h')

theorem Tx.listing (t : Tx) (start after : GoString) :
    Listing t.find start after (t.keys start after) where
  sorted := t.keys_sorted start after
  mem _ := mem_keys

theorem Tx.get_perform (t : Tx) (ctx : Context) (k : GoString) :
    Content.Answers t.find (.get ctx k) (t.get ctx k).1 ∧ (t.get ctx k).2.find = t.find ∧
    (t.get ctx k).2.memory = t.memory := by
  cases hk : validKey k with
  | true =>
    obtain ⟨hasked,hget⟩ := @Tx.get_spec t ctx k hk
    rw [hasked]
    refine ⟨?_,rfl,rfl⟩
    unfold Tx.getResult at hget
    dsimp only [Content.Answers]
    rw [if_pos hk]
    cases hf : t.find k <;> rw [hf] at hget <;> exact hget
  | false =>
    unfold Tx.get
    dsimp only [Content.Answers]
    rw [hk,if_neg Bool.false_ne_true]
    split
    · rename_i hc
      exact ⟨.inl ⟨rfl,t.polls,hc⟩,rfl,rfl⟩
    · exact ⟨.inr rfl,rfl,rfl⟩

theorem Tx.list_perform (t : Tx) (ctx : Context) (start after : GoString) (limit : Int) :
    Content.Answers t.find (.list ctx start after limit) (t.list ctx start after limit).1 ∧
    (t.list ctx start after limit).2.find = t.find ∧
    (t.list ctx start after limit).2.memory = t.memory := by
  dsimp only [Content.Answers]
  by_cases hl : 1 ≤ limit ∧ limit ≤ 10000
  · obtain ⟨⟨n,hn⟩,hcut⟩ := @Tx.list_spec t ctx start after limit hl.1 hl.2
    rw [if_pos hl,hn]
    exact ⟨⟨_,t.listing start after,hcut⟩,rfl,rfl⟩
  rw [if_neg hl]
  unfold Tx.list
  split
  · rename_i hc
    exact ⟨.inl ⟨rfl,t.polls,hc⟩,rfl,rfl⟩
  · rw [if_pos (by omega)]
    exact ⟨.inr rfl,rfl,rfl⟩

theorem Tx.perform_spec (t : Tx) (op : TxOp) :
    Content.Answers t.find op (Tx.perform op t).1 ∧
    (Tx.perform op t).2.find = Content.wrote t.find op (Tx.perform op t).1 ∧
    (Tx.perform op t).2.memory = t.memory := by
  cases op with
  | get ctx k => exact t.get_perform ctx k
  | list ctx start after limit => exact t.list_perform ctx start after limit
  | put ctx r =>
    unfold Tx.perform Tx.put
    dsimp only [Content.Answers]
    split
    · rename_i hc
      exact ⟨.inl ⟨rfl,t.polls,hc⟩,rfl,rfl⟩
    split
    · rename_i hk
      exact ⟨.inr (by rw [hk]; rfl),rfl,rfl⟩
    rename_i hk
    exact ⟨.inr (by simp [hk]),funext (Tx.find_write rfl rfl),rfl⟩
  | delete ctx k =>
    unfold Tx.perform Tx.delete
    dsimp only [Content.Answers]
    split
    · rename_i hc
      exact ⟨.inl ⟨rfl,t.polls,hc⟩,rfl,rfl⟩
    split
    · rename_i hk
      exact ⟨.inr (by rw [hk]; rfl),rfl,rfl⟩
    rename_i hk
    exact ⟨.inr (by simp [hk]),funext (Tx.find_write rfl rfl),rfl⟩

/-- A whole callback: every answer is right for the content at that moment. -/
theorem Tx.run_spec {α : Type} (p : Effect.Program TxOp TxOp.Ans α) (t : Tx) :
    (∀ pre x post, p.calls Tx.perform t = pre ++ x :: post →
      Content.Answers (Content.wroteAll t.find pre) x.1 x.2) ∧
    (p.run Tx.perform t).2.find = Content.wroteAll t.find (p.calls Tx.perform t) ∧
    (p.run Tx.perform t).2.memory = t.memory := by
  induction p generalizing t with
  | done a => exact ⟨fun pre x post h => absurd h (by simp [Effect.Program.calls]),rfl,rfl⟩
  | call op k ih =>
    obtain ⟨hans,hfind,hmem⟩ := t.perform_spec op
    obtain ⟨hcalls,hrun,hsame⟩ := ih (Tx.perform op t).1 (Tx.perform op t).2
    rw [hfind] at hcalls hrun
    refine ⟨fun pre x post h => ?_,hrun,hsame.trans hmem⟩
    cases pre with
    | nil =>
      cases (List.cons.inj h).1
      exact hans
    | cons y pre =>
      obtain ⟨rfl,hrest⟩ := List.cons.inj h
      exact hcalls pre x post hrest

theorem Tx.keys_rest {pre rest : List GoString} {k : GoString}
    (h : t.keys start after = pre ++ k :: rest) : t.keys start k = rest := by
  have hsorted := t.keys_sorted start after
  rw [h] at hsorted
  obtain ⟨-,htail,hcross⟩ := List.pairwise_append.mp hsorted
  obtain ⟨hfirst,hrest⟩ := List.pairwise_cons.mp htail
  have hmem : ∀ j, j ∈ t.keys start k ↔ j ∈ rest := by
    intro j
    have hall := fun j => @mem_keys t start after j
    simp only [h,List.mem_append,List.mem_cons] at hall
    obtain ⟨-,-,hk⟩ := (hall k).mp (.inr (.inl rfl))
    rw [mem_keys]
    constructor
    · rintro ⟨hf,hp,hj⟩
      rcases (hall j).mpr ⟨hf,hp,List.lt_trans hk hj⟩ with hpre | rfl | hj'
      · exact absurd hj (List.lt_asymm (hcross j hpre k List.mem_cons_self))
      · exact absurd hj (List.lt_irrefl j)
      · exact hj'
    · intro hj
      obtain ⟨hf,hp,-⟩ := (hall j).mp (.inr (.inr hj))
      exact ⟨hf,hp,hfirst j hj⟩
  have hnodup : rest.Nodup := hrest.imp fun hlt he => by
    cases he
    exact List.lt_irrefl _ hlt
  exact List.Perm.eq_of_pairwise (fun _ _ _ _ hab hba => absurd hba (List.lt_asymm hab))
    (t.keys_sorted start k) hrest
    ((List.perm_ext_iff_of_nodup (t.keys_nodup start k) hnodup).mpr hmem)

end Steps

/-- Listing on from the last key until nothing comes; `none` is an error, or too little fuel. -/
def Tx.listAll (ctx : Context) (start : GoString) (limit : Int) :
    Nat → GoString → Tx → Option (List Record)
  | 0, _, _ => none
  | fuel+1, after, t =>
    match t.list ctx start after limit with
    | (.error _,_) => none
    | (.ok rs,t) =>
      match rs.getLast? with
      | none => some []
      | some last => (listAll ctx start limit fuel last.key t).map (rs ++ ·)

section Listing
variable {t : Tx} {ctx : Context} {start after : GoString} {limit : Int}

theorem Tx.keys_records (t : Tx) {ks : List GoString} (h : ∀ k ∈ ks, (t.find k).isSome = true) :
    (ks.filterMap t.find).map Record.key = ks := by
  induction ks with
  | nil => rfl
  | cons k ks ih =>
    obtain ⟨r,hr⟩ := Option.isSome_iff_exists.mp (h k List.mem_cons_self)
    rw [List.filterMap_cons_some hr,List.map_cons,(valid_of_find hr).1,
      ih fun j hj => h j (List.mem_cons_of_mem k hj)]

theorem Tx.listAll_eq (hctx : ctx.Live) (h₁ : 1 ≤ limit) (h₂ : limit ≤ 10000) {fuel : Nat}
    (hfuel : (t.keys start after).length < fuel) :
    t.listAll ctx start limit fuel after = some ((t.keys start after).filterMap t.find) := by
  induction fuel generalizing t after with
  | zero => omega
  | succ fuel ih =>
    obtain ⟨⟨n,hn⟩,hcut⟩ := @Tx.list_spec t ctx start after limit h₁ h₂
    have hlist : t.list ctx start after limit =
        (.ok (((t.keys start after).take limit.toNat).filterMap t.find),{ t with polls := n }) := by
      refine Prod.ext ?_ hn
      rcases hcut with ⟨-,m,hm⟩ | h
      · rw [hctx m] at hm
        cases hm
      · exact h
    have hsome : ∀ k ∈ t.keys start after, (t.find k).isSome = true :=
      fun k hk => (mem_keys.mp hk).1
    unfold listAll
    rw [hlist]
    dsimp only
    rcases List.eq_nil_or_concat' ((t.keys start after).take limit.toNat) with hnil | ⟨pre,k,hcat⟩
    · have hempty : t.keys start after = [] := by
        rcases List.take_eq_nil_iff.mp hnil with h | h
        · omega
        · exact h
      rw [hempty,List.take_nil]
      rfl
    · have hsplit : t.keys start after = pre ++ k :: (t.keys start after).drop limit.toNat := by
        have hcut := List.take_append_drop limit.toNat (t.keys start after)
        rw [hcat,List.append_assoc] at hcut
        exact hcut.symm
      have hlen := congrArg List.length hsplit
      obtain ⟨r,hr⟩ := Option.isSome_iff_exists.mp
        (hsome k (hsplit ▸ List.mem_append_right pre List.mem_cons_self))
      have hrecords : ((t.keys start after).take limit.toNat).filterMap t.find =
          pre.filterMap t.find ++ [r] := by
        rw [hcat,List.filterMap_append,List.filterMap_cons_some hr]
        rfl
      have hrest := t.keys_rest hsplit
      rw [hrecords,List.getLast?_concat]
      dsimp only
      rw [(valid_of_find hr).1]
      have hnext : Tx.listAll ctx start limit fuel k { t with polls := n } =
          some (((t.keys start after).drop limit.toNat).filterMap t.find) := by
        rw [← hrest]
        refine @ih { t with polls := n } k ?_
        change (t.keys start k).length < fuel
        rw [hrest]
        simp only [List.length_append,List.length_cons] at hlen
        omega
      rw [hnext,Option.map_some,← hrecords,← List.filterMap_append,List.take_append_drop]

/-- Listing on from the beginning reads every record once, in the order of the keys. -/
theorem Tx.listAll_complete (hctx : ctx.Live) (h₁ : 1 ≤ limit) (h₂ : limit ≤ 10000) :
    ∃ fuel rs, t.listAll ctx start limit fuel [] = some rs ∧
      (rs.map Record.key).Pairwise (· < ·) ∧
      ∀ r, r ∈ rs ↔ t.find r.key = some r ∧ start <+: r.key := by
  refine ⟨_,_,Tx.listAll_eq hctx h₁ h₂ (Nat.lt_succ_self _),?_,fun r => ?_⟩
  · rw [t.keys_records fun k hk => (mem_keys.mp hk).1]
    exact t.keys_sorted start []
  simp only [List.mem_filterMap,mem_keys]
  constructor
  · rintro ⟨k,⟨-,hp,-⟩,hr⟩
    rw [(valid_of_find hr).1]
    exact ⟨hr,hp⟩
  rintro ⟨hr,hp⟩
  have hpos : ([] : GoString) < r.key := by
    cases hk : r.key with
    | nil => exact absurd (hk ▸ (valid_of_find hr).2) (by decide)
    | cons c cs => exact List.nil_lt_cons c cs
  exact ⟨r.key,⟨by rw [hr]; rfl,hp,hpos⟩,hr⟩

end Listing

section Update
variable {ε α : Type} {m : Memory} {ctx : Context} {now : Time} {keys : List GoString}
  {ofStore : Error → ε} {fn : Tx → Except ε α × Tx}

theorem Memory.update_cases (m : Memory) (ctx : Context) (now : Time) (keys : List GoString)
    (ofStore : Error → ε) (fn : Tx → Except ε α × Tx) :
    (∃ e, m.update ctx now keys ofStore fn = (.error e,m)) ∨
    ∃ a t, ctx 0 = false ∧ fn { memory := m, now := now, polls := 1 } = (.ok a,t) ∧
      ctx t.polls = false ∧ m.update ctx now keys ofStore fn = (.ok a,t.commit) := by
  unfold Memory.update
  split
  · exact .inl ⟨_,rfl⟩
  split
  · exact .inl ⟨_,rfl⟩
  split
  · exact .inl ⟨_,rfl⟩
  rename_i hctx
  split
  · exact .inl ⟨_,rfl⟩
  rename_i a t hrun
  split
  · exact .inl ⟨_,rfl⟩
  · rename_i hend
    exact .inr ⟨a,t,Bool.eq_false_iff.mpr hctx,hrun,Bool.eq_false_iff.mpr hend,rfl⟩

theorem Memory.update_live {a : α} {t : Tx} (hkeys : keys ≠ [])
    (hvalid : ∀ k ∈ keys, validKey k = true) (hctx : ctx.Live)
    (hrun : fn { memory := m, now := now, polls := 1 } = (.ok a,t)) :
    (m.update ctx now keys ofStore fn).1 = .ok a := by
  have hany : keys.any (fun k => validKey k = false) = false := by
    rw [List.any_eq_false]
    intro k hk
    simp [hvalid k hk]
  unfold Memory.update
  rw [if_neg hkeys,hany,if_neg Bool.false_ne_true,hctx 0,if_neg Bool.false_ne_true,hrun]
  dsimp only
  rw [hctx t.polls,if_neg Bool.false_ne_true]

end Update

/-- A transaction takes place as a whole or not at all and reads what it has written; listing
misses nothing and repeats nothing. -/
theorem update_transaction {ε α : Type} (m : Memory) (p : Callback ε α) (ctx : Context)
    (now : Time) (keys : List GoString) (ofStore : Error → ε) :
    let t : Tx := { memory := m, now := now, polls := 1 }
    let calls := p.calls Tx.perform t
    let out := m.update ctx now keys ofStore (p.run Tx.perform)
    ((∃ e, (p.run Tx.perform t).1 = .error e) ∨ ctx 0 = true ∨
      ctx (p.run Tx.perform t).2.polls = true → (∃ e, out.1 = .error e) ∧ out.2 = m) ∧
    (∀ e, out.1 = .error e → out.2 = m) ∧
    (∀ a, out.1 = .ok a → (p.run Tx.perform t).1 = .ok a ∧
      out.2.records.lookup = Content.wroteAll m.records.lookup calls) ∧
    (keys ≠ [] → (∀ k ∈ keys, validKey k = true) → ctx.Live →
      ∀ a, (p.run Tx.perform t).1 = .ok a → out.1 = .ok a) ∧
    (∀ pre x post, calls = pre ++ x :: post →
      Content.Answers (Content.wroteAll m.records.lookup pre) x.1 x.2) ∧
    ∀ (t : Tx) (ctx : Context) (start : GoString) (limit : Int),
      ctx.Live → 1 ≤ limit → limit ≤ 10000 →
      ∃ fuel rs, t.listAll ctx start limit fuel [] = some rs ∧
        (rs.map Record.key).Pairwise (· < ·) ∧
        ∀ r, r ∈ rs ↔ t.find r.key = some r ∧ start <+: r.key := by
  intro t calls out
  have hstart : t.find = m.records.lookup := funext fun k => by simp [t,Tx.find]
  obtain ⟨hanswers,hfind,-⟩ := Tx.run_spec p t
  rw [hstart] at hanswers hfind
  refine ⟨?_,?_,?_,?_,hanswers,fun t ctx start limit => Tx.listAll_complete⟩
  · intro hfail
    rcases m.update_cases ctx now keys ofStore (p.run Tx.perform) with ⟨e,he⟩ | ⟨a,t',h₀,hrun,h₁,-⟩
    · exact ⟨⟨e,congrArg Prod.fst he⟩,congrArg Prod.snd he⟩
    · rcases hfail with ⟨e,he⟩ | h | h <;> simp_all [t]
  · intro e he
    rcases m.update_cases ctx now keys ofStore (p.run Tx.perform) with ⟨e,h⟩ | ⟨a,t',-,-,-,h⟩
    · exact congrArg Prod.snd h
    · cases (congrArg Prod.fst h).symm.trans he
  · intro a ha
    rcases m.update_cases ctx now keys ofStore (p.run Tx.perform) with ⟨e,h⟩ | ⟨b,t',-,hrun,-,h⟩
    · cases (congrArg Prod.fst h).symm.trans ha
    cases (congrArg Prod.fst h).symm.trans ha
    rw [hrun] at hfind
    have hstore : out.2 = t'.commit := congrArg Prod.snd h
    refine ⟨congrArg Prod.fst hrun,?_⟩
    rw [hstore,funext t'.lookup_commit]
    exact hfind
  · intro hkeys hvalid hctx a ha
    exact Memory.update_live hkeys hvalid hctx (Prod.ext ha rfl)

end MicrosoftDM.State
