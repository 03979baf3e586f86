import Mathlib.Data.Fintype.Basic
import MicrosoftDM.QueueStatements

set_option autoImplicit false

namespace MicrosoftDM.Sqlstore
open Mdm (QueueOp)
open Sql (Op Server Session)

inductive Role where
  | writes
  | cancels
  | prunes (before : Time) (limit : Int) (tie : Row → Nat)

def roleOf : QueueOp (Row → Nat) → Role
  | .enqueue .. | .deliverable .. | .markSent .. | .storeResult .. => .writes
  | .cancel .. => .cancels
  | .prune before limit tie => .prunes before limit tie

def Role.overwrites : Role → Bool
  | .writes => true
  | .cancels | .prunes _ _ _ => false

def Role.prunable : Role → Row → Bool
  | .prunes before _ _, r => r.prunable before
  | .writes, _ | .cancels, _ => false

/-- The keys that a call takes from a statement of its log. -/
def Role.chosen : Role → ((op : Op QueueRows) × op.Ans) → List (GoString × GoString)
  | .prunes _ limit tie, ⟨.select _,.ok found⟩ => chosenKeys limit tie found
  | _, _ => []

theorem Role.chosen_of_overwrites {role : Role} (h : role.overwrites = true)
    (e : (op : Op QueueRows) × op.Ans) : role.chosen e = [] := by
  cases role with
  | writes => rfl
  | cancels | prunes _ _ _ => cases h

/-- How far a call has come: the commands that it is to delete. -/
structure Stage where
  role : Role
  doomed : List (GoString × GoString) := []

inductive QueueMoves : Stage → (op : Op QueueRows) → op.Ans → Stage → Prop where
  | failed {g : Stage} {op : Op QueueRows} {f : Sql.Fault} : QueueMoves g op (.error f) g
  | rolledBack {g : Stage} : QueueMoves g .rollback (.ok ()) g
  | committed {g : Stage} : QueueMoves g .commit (.ok ()) g
  | selected {role : Role} {p : (k : QueueKey) → QueueRows k → Bool} {found : List FoundRow}
      (h : role.overwrites = true) : QueueMoves ⟨role,[]⟩ (.select p) (.ok found) ⟨role,[]⟩
  | chose {before : Time} {limit : Int} {tie : Row → Nat} {found : List FoundRow} :
      QueueMoves ⟨.prunes before limit tie,[]⟩ (.select (prunableRow before)) (.ok found)
        ⟨.prunes before limit tie,chosenKeys limit tie found⟩
  | wrote {k : QueueKey} {f : Option (QueueRows k) → Option (Option (QueueRows k))}
      {old : Option (QueueRows k)} (hf : ∀ r, f (some r) ≠ some none) :
      QueueMoves ⟨.writes,[]⟩ (.write k f) (.ok old) ⟨.writes,[]⟩
  | cancelled {dev id : GoString} {f : Option Row → Option (Option Row)} {old : Option Row}
      (hnone : f none = none) (hf : ∀ r x, f (some r) = some x → r.state.terminal = false ∧ x ≠ none) :
      QueueMoves ⟨.cancels,[]⟩ (.write (.command dev id) f) (.ok old) ⟨.cancels,[]⟩
  | deleted {before : Time} {limit : Int} {tie : Row → Nat} {doomed : List (GoString × GoString)}
      {k : GoString × GoString} {f : Option Row → Option (Option Row)} {old : Option Row}
      (hk : k ∈ doomed) (hf : ∀ r x, f r = some x → x = none) :
      QueueMoves ⟨.prunes before limit tie,doomed⟩ (.write (.command k.1 k.2) f) (.ok old)
        ⟨.prunes before limit tie,doomed⟩

theorem moves_commit (g : Stage) (ans : (Op.commit (ρ := QueueRows)).Ans) : QueueMoves g .commit ans g := by
  cases ans with
  | ok v => exact .committed
  | error f => exact .failed

theorem moves_rollback (g : Stage) (ans : (Op.rollback (ρ := QueueRows)).Ans) :
    QueueMoves g .rollback ans g := by
  cases ans with
  | ok v => exact .rolledBack
  | error f => exact .failed

def KeepsRows : Op QueueRows → Prop
  | .select _ | .commit | .rollback => True
  | .scan _ => False
  | .write _ f => ∀ r, f (some r) ≠ some none

variable {op : Op QueueRows} {db : AList QueueRows} {r : Row} {own' : Sql.Writes QueueRows}
  {found : List FoundRow}

theorem KeepsRows.moves (h : KeepsRows op) (ans : op.Ans) :
    QueueMoves ⟨.writes,[]⟩ op ans ⟨.writes,[]⟩ := by
  cases op with
  | select p =>
    cases ans with
    | ok found => exact .selected rfl
    | error f => exact .failed
  | scan p => exact absurd h id
  | write k f =>
    cases ans with
    | ok old => exact .wrote h
    | error f => exact .failed
  | commit => exact moves_commit _ ans
  | rollback => exact moves_rollback _ ans

def Withdraws : Op QueueRows → Prop
  | .select _ | .scan _ => False
  | .commit | .rollback => True
  | .write (.counter _) _ => False
  | .write (.command _ _) f =>
    f none = none ∧ ∀ r x, f (some r) = some x → r.state.terminal = false ∧ x ≠ none

theorem Withdraws.moves (h : Withdraws op) (ans : op.Ans) :
    QueueMoves ⟨.cancels,[]⟩ op ans ⟨.cancels,[]⟩ := by
  cases op with
  | select _ | scan _ => exact absurd h id
  | write k f =>
    cases k with
    | counter dev => exact absurd h id
    | command dev id =>
      cases ans with
      | ok old => exact .cancelled h.1 h.2
      | error f => exact .failed
  | commit => exact moves_commit _ ans
  | rollback => exact moves_rollback _ ans

section Keeping

theorem keepsRows_updateKey {k : QueueKey} {p : QueueRows k → Bool} {f : QueueRows k → QueueRows k} :
    KeepsRows (.write k fun old => (old.filter p).map fun r => some (f r)) := by
  intro r h
  obtain ⟨r',-,hr'⟩ := Option.map_eq_some_iff.mp h
  cases hr'

theorem only_selectKey (k : QueueKey) : Sql.Only KeepsRows (selectKey k) := Sql.only_statement trivial

theorem only_uniqueID (dev : GoString) (turns : Nat) (id : GoString) :
    Sql.Only KeepsRows (uniqueID dev turns id) := by
  induction turns generalizing id with
  | zero => exact Sql.only_refuse
  | succ turns ih =>
    refine (only_selectKey _).bind fun found => ?_
    split
    · exact Sql.only_pure
    · exact ih _

theorem only_holders (dev id : GoString) : Sql.Only KeepsRows (holders dev id) := by
  unfold holders
  split
  · exact Sql.only_pure
  · exact only_selectKey _

theorem only_chooseID (turns : Nat) (dev id : GoString) (seq : Nat) :
    Sql.Only KeepsRows (chooseID turns dev id seq) := by
  unfold chooseID
  split
  · exact only_uniqueID _ _ _
  · exact Sql.only_pure

theorem only_incrementSeq (dev : GoString) : Sql.Only KeepsRows (incrementSeq dev) :=
  (Sql.only_statement (by intro r h; cases h)).bind fun _ => Sql.only_pure

theorem only_enqueueBody (turns : Nat) (dev : GoString) (cmd : Mdm.Command) (body : GoString) (time : Time) :
    Sql.Only KeepsRows (enqueueBody turns dev cmd body time) := by
  refine (only_holders dev cmd.id).bind fun found => ?_
  split
  · exact Sql.only_fail
  refine (only_incrementSeq dev).bind fun _ => (only_selectKey _).bind fun counter => ?_
  split
  · exact Sql.only_refuse
  refine (only_chooseID turns dev cmd.id _).bind fun id => (Sql.only_insert ?_).bind fun _ => Sql.only_pure
  intro r h
  cases h

theorem only_enqueue (turns : Nat) (dev : GoString) (cmd : Mdm.Command) (time : Time) :
    Sql.Only KeepsRows (enqueue turns dev cmd time) := by
  unfold enqueue
  split
  · exact Sql.only_fail
  split
  · exact Sql.only_fail
  split
  · exact Sql.only_fail
  · exact Sql.only_tx (only_enqueueBody _ _ _ _ _) trivial trivial _

theorem only_deliverable (dev : GoString) (limit : Int) : Sql.Only KeepsRows (deliverable dev limit) :=
  (Sql.only_statement trivial).bind fun _ => Sql.only_pure

theorem only_markSentBody (dev : GoString) (ds : List Mdm.Delivery) :
    Sql.Only KeepsRows (markSentBody dev ds) := by
  induction ds with
  | nil => exact Sql.only_pure
  | cons d ds ih =>
    refine (Sql.only_updateKey keepsRows_updateKey).bind fun changed => ?_
    split
    · exact Sql.only_fail
    · exact ih

theorem only_storeResult (codec : Codec) (dev id : GoString) (r : Mdm.Result) :
    Sql.Only KeepsRows (storeResult codec dev id r) := by
  unfold storeResult
  split
  · exact Sql.only_fail
  refine (Sql.only_txOnce (Sql.only_statement fun row h => ?_) trivial trivial).bind fun old => ?_
  · obtain ⟨_,-,hr⟩ := Option.map_eq_some_iff.mp h
    cases hr
  split
  · exact Sql.only_fail
  · exact Sql.only_pure

theorem Row.cancellable_iff (r : Row) : r.cancellable = true ↔ r.state.terminal = false := by
  unfold cancellable
  cases r.state <;> decide

theorem only_cancelBody (dev : GoString) (time : Time) (ids : List GoString) :
    Sql.Only Withdraws (cancelBody dev time ids) := by
  induction ids with
  | nil => exact Sql.only_pure
  | cons id ids ih =>
    refine (Sql.only_updateKey ⟨rfl,fun r x hx => ?_⟩).bind fun changed => ih.bind fun n => Sql.only_pure
    obtain ⟨r',hr,rfl⟩ := Option.map_eq_some_iff.mp hx
    obtain ⟨he,hc⟩ := Option.filter_eq_some_iff.mp hr
    cases he
    exact ⟨(Row.cancellable_iff r).mp hc,nofun⟩

end Keeping

variable {limit : Int} {tie : Row → Nat} {before : Time}

theorem follows_pruneBody {doomed : List (GoString × GoString)}
    (keys : List (GoString × GoString)) (hkeys : ∀ k ∈ keys, k ∈ doomed) :
    Sql.Follows QueueMoves (fun _ g => g = ⟨.prunes before limit tie,doomed⟩) (pruneBody keys)
      ⟨.prunes before limit tie,doomed⟩ := by
  induction keys with
  | nil => exact Sql.follows_pure rfl
  | cons k keys ih =>
    have hdelete : Sql.Follows QueueMoves (fun _ g => g = ⟨.prunes before limit tie,doomed⟩)
        (Sql.delete (.command k.1 k.2) : QueueBody Unit) ⟨.prunes before limit tie,doomed⟩ := by
      refine Sql.Follows.bind (Q := fun _ g => g = ⟨.prunes before limit tie,doomed⟩)
        (Sql.follows_statement fun ans => ⟨_,?_,rfl⟩) (fun _ g hg => Sql.follows_pure hg) fun _ _ hg => hg
      cases ans with
      | error f => exact .failed
      | ok old =>
        refine .deleted (hkeys k List.mem_cons_self) fun r x hx => ?_
        split at hx
        · exact (Option.some.inj hx).symm
        · cases hx
    refine Sql.Follows.bind hdelete (fun _ g hg => ?_) fun _ _ hg => hg
    rw [hg]
    exact Sql.Follows.bind (ih fun k' hk' => hkeys k' (List.mem_cons_of_mem _ hk'))
      (fun _ g hg => Sql.follows_pure hg) fun _ _ hg => hg

theorem follows_prune (before : Time) (limit : Int) (tie : Row → Nat) :
    Sql.Follows QueueMoves (fun _ _ => True) (prune before limit tie) ⟨.prunes before limit tie,[]⟩ := by
  refine Sql.Follows.bind (Q := fun r g => ∀ found, r = .ok found →
    g = ⟨.prunes before limit tie,chosenKeys limit tie found⟩)
    (Sql.follows_statement fun ans => ?_) (fun found g hg => ?_) fun _ _ _ => trivial
  · cases ans with
    | error f => exact ⟨_,.failed,nofun⟩
    | ok found => exact ⟨_,.chose,fun _ h => by cases h; rfl⟩
  rw [hg found rfl]
  exact (Sql.follows_tx (follows_pruneBody _ fun _ h => h)
    (fun _ g ans hg => hg ▸ moves_commit _ ans) (fun _ g ans hg => hg ▸ moves_rollback _ ans) _).mono
    fun _ _ _ => trivial

theorem follows_performQueue (codec : Codec) (turns : Nat) (call : QueueOp (Row → Nat)) :
    Sql.Follows QueueMoves (fun _ _ => True) (performQueue codec turns call) ⟨roleOf call,[]⟩ := by
  have hwrites : ∀ {α : Type} {x : QueueBody α}, Sql.Only KeepsRows x →
      Sql.Follows QueueMoves (fun _ _ => True) x ⟨.writes,[]⟩ := fun h =>
    (Effect.Program.Only.follows (fun _ hop ans => hop.moves ans) h).mono fun _ _ _ => trivial
  cases call with
  | enqueue dev cmd time => exact hwrites ((only_enqueue turns dev cmd time).bind fun _ => Sql.only_pure)
  | deliverable dev limit => exact hwrites ((only_deliverable dev limit).bind fun _ => Sql.only_pure)
  | markSent dev ds =>
    exact hwrites ((Sql.only_tx (only_markSentBody dev ds) trivial trivial _).bind fun _ => Sql.only_pure)
  | storeResult dev id r => exact hwrites ((only_storeResult codec dev id r).bind fun _ => Sql.only_pure)
  | cancel dev ids time =>
    exact (Effect.Program.Only.follows (fun _ hop ans => hop.moves ans)
      ((Sql.only_tx (only_cancelBody dev time ids) trivial trivial _).bind fun _ => Sql.only_pure)).mono
      fun _ _ _ => trivial
  | prune before limit tie =>
    exact Sql.Follows.bind (follows_prune before limit tie) (fun _ _ _ => trivial) fun _ _ _ => trivial

section Condition
variable {ι : Type}

def Marked (calls : ι → QueueOp (Row → Nat)) (s : Server ι QueueRows) (i : ι) (k : GoString × GoString) : Prop :=
  ∃ e ∈ s.log i, k ∈ (roleOf (calls i)).chosen e

instance (calls : ι → QueueOp (Row → Nat)) (s : Server ι QueueRows) (i : ι) (k : GoString × GoString) :
    Decidable (Marked calls s i k) := inferInstanceAs (Decidable (∃ e ∈ s.log i, _))

/-- A statement that overwrites no command a Prune under way has chosen and
not deleted yet, unless with one it could have chosen; and a choice of commands
no other call is overwriting, unless so. -/
def Untouched (calls : ι → QueueOp (Row → Nat)) (running : ι → Prop) (s : Server ι QueueRows) (i : ι) :
    Op QueueRows → Prop
  | .write (.command dev id) f => (roleOf (calls i)).overwrites = true → ∀ j, running j →
    Marked calls s j (dev,id) → QueueKey.command dev id ∈ s.own j ∨
      ∀ x ∈ (f ((s.session i).get (.command dev id))).join, (roleOf (calls j)).prunable x = true
  | .select p => ∀ k ∈ (roleOf (calls i)).chosen ⟨.select p,.ok ((s.session i).rows p)⟩,
    ∀ j, (roleOf (calls j)).overwrites = true →
      ∀ x ∈ ((s.own j).lookup (.command k.1 k.2)).join, (roleOf (calls i)).prunable x = true
  | .write (.counter _) _ | .scan _ | .commit | .rollback => True

instance [Fintype ι] (calls : ι → QueueOp (Row → Nat)) (running : ι → Prop) [DecidablePred running]
    (s : Server ι QueueRows) (i : ι) (op : Op QueueRows) : Decidable (Untouched calls running s i op) :=
  match op with
  | .write (.command dev id) f => inferInstanceAs (Decidable (_ → ∀ j, running j → Marked calls s j (dev,id) →
      _ ∨ ∀ x ∈ (f ((s.session i).get (.command dev id))).join, (roleOf (calls j)).prunable x = true))
  | .select p => inferInstanceAs (Decidable (∀ k ∈ (roleOf (calls i)).chosen ⟨.select p,.ok ((s.session i).rows p)⟩,
      ∀ j, (roleOf (calls j)).overwrites = true →
        ∀ x ∈ ((s.own j).lookup (.command k.1 k.2)).join, (roleOf (calls i)).prunable x = true))
  | .write (.counter _) _ => .isTrue trivial
  | .scan _ => .isTrue trivial
  | .commit => .isTrue trivial
  | .rollback => .isTrue trivial

end Condition

def OpenAt (db : AList QueueRows) : QueueKey → Prop
  | .counter _ => False
  | .command dev id => ∃ r : Row, db.lookup (.command dev id) = some r ∧ r.state.terminal = false

def Stage.Fits (db : AList QueueRows) (own : Sql.Writes QueueRows) (g : Stage) : Prop :=
  match g.role with
  | .writes => True
  | .cancels => ∀ k, k ∈ own → OpenAt db k
  | .prunes before _ _ => (∀ k v, own.lookup k = some v → v = none) ∧
    ∀ k ∈ g.doomed, ∀ r : Row, db.lookup (.command k.1 k.2) = some r → r.prunable before = true

theorem Stage.Fits.empty {own : Sql.Writes QueueRows} {g : Stage} (h : g.Fits db own) :
    g.Fits db ∅ := by
  obtain ⟨role,doomed⟩ := g
  cases role with
  | writes => trivial
  | cancels => exact fun k hk => absurd hk (AList.notMem_empty k)
  | prunes before limit tie => exact ⟨fun k v hv => (nomatch hv),h.2⟩

section Invariant
variable {ι : Type} {calls : ι → QueueOp (Row → Nat)} {live live' : ι → Prop} {s s' : Server ι QueueRows}
  {g : ι → Stage} {g' : Stage} {i : ι} {op : Op QueueRows} {ans : op.Ans}

/-- The stages of the calls under way, and the deletions so far. -/
structure Guarded (calls : ι → QueueOp (Row → Nat)) (live : ι → Prop) (s : Server ι QueueRows)
    (g : ι → Stage) : Prop where
  roles : ∀ i, (g i).role = roleOf (calls i)
  fits : ∀ i, live i → (g i).Fits s.db (s.own i)
  /-- What another call writes over a command that is to be deleted can be deleted too. -/
  apart : ∀ i j, live i → (g j).role.overwrites = true → ∀ k ∈ (g i).doomed, ∀ x : Row,
    (s.own j).lookup (.command k.1 k.2) = some (some x) → (g i).role.prunable x = true
  marked : ∀ i, ∀ k ∈ (g i).doomed, Marked calls s i k
  deletions : ∀ i dev id (f : Option Row → Option (Option Row)) (r : Row),
    ⟨.write (.command dev id) f,.ok (some r)⟩ ∈ s.log i → f (some r) = some none →
    (roleOf (calls i)).prunable r = true

variable {k : GoString × GoString}

theorem Marked.logged (h : Marked calls s i k) {j : ι} (hlog : s.Logged s' j op ans) :
    Marked calls s' i k := by
  obtain ⟨e,he,hk⟩ := h
  refine ⟨e,?_,hk⟩
  by_cases hi : i = j
  · subst hi
    rw [hlog.self]
    exact List.mem_cons_of_mem _ he
  · rw [hlog.others i hi]
    exact he

theorem Marked.not_overwrites (h : Marked calls s i k) :
    (roleOf (calls i)).overwrites = false := by
  obtain ⟨e,-,hk⟩ := h
  by_contra ho
  rw [Role.chosen_of_overwrites (Bool.eq_true_of_not_eq_false ho)] at hk
  cases hk

/-- What the entry of the log deletes is of the kind that the role prunes. -/
def Role.Prunes (role : Role) (e : (op : Op QueueRows) × op.Ans) : Prop :=
  ∀ dev id (f : Option Row → Option (Option Row)) (r : Row),
    e = ⟨.write (.command dev id) f,.ok (some r)⟩ → f (some r) = some none → role.prunable r = true

theorem Guarded.deletions_logged (h : Guarded calls live s g) (hlog : s.Logged s' i op ans)
    (hdel : (roleOf (calls i)).Prunes ⟨op,ans⟩) :
    ∀ j dev id (f : Option Row → Option (Option Row)) (r : Row),
      ⟨.write (.command dev id) f,.ok (some r)⟩ ∈ s'.log j → f (some r) = some none →
      (roleOf (calls j)).prunable r = true := by
  intro j dev id f r hmem hf
  by_cases hj : j = i
  · subst hj
    rw [hlog.self] at hmem
    rcases List.mem_cons.mp hmem with he | hmem
    · exact hdel dev id f r he.symm hf
    · exact h.deletions j dev id f r hmem hf
  · rw [hlog.others j hj] at hmem
    exact h.deletions j dev id f r hmem hf

theorem Guarded.overlay_prunable (h : Guarded calls live s g) {j : ι} (hi : live i) (hj : live j)
    (hrole : (g j).role = .prunes before limit tie) (hk : k ∈ (g j).doomed)
    (hr : (Sql.overlay (s.own i) s.db).lookup (.command k.1 k.2) = some r) :
    r.prunable before = true := by
  have hdb : ∀ r : Row, s.db.lookup (.command k.1 k.2) = some r → r.prunable before = true := by
    have hfits := h.fits j hj
    unfold Stage.Fits at hfits
    rw [hrole] at hfits
    exact hfits.2 k hk
  rw [Sql.lookup_overlay] at hr
  cases ho : (s.own i).lookup (.command k.1 k.2) with
  | none =>
    rw [ho] at hr
    exact hdb r hr
  | some v =>
    rw [ho] at hr
    have hv : v = some r := hr
    subst hv
    have hfits := h.fits i hi
    unfold Stage.Fits at hfits
    cases hri : (g i).role with
    | writes =>
      have hp := h.apart j i hj (by rw [hri]; rfl) k hk r ho
      rwa [hrole] at hp
    | cancels =>
      -- a command that is cancelled was not completed, so no Prune has chosen it
      rw [hri] at hfits
      obtain ⟨r₀,hr₀,hopen⟩ := hfits _ (AList.lookup_isSome.mp (by rw [ho]; rfl))
      have hp := hdb r₀ hr₀
      unfold Row.prunable at hp
      rw [hopen] at hp
      cases hp
    | prunes b l t =>
      rw [hri] at hfits
      cases hfits.1 _ _ ho

variable [DecidableEq ι]

theorem role_update (hrole : g'.role = (g i).role) (j : ι) :
    (Function.update g i g' j).role = (g j).role := by
  by_cases hj : j = i
  · subst hj
    rw [Function.update_self,hrole]
  · rw [Function.update_of_ne hj]

theorem Guarded.uncommitted (h : Guarded calls live s g)
    (hlive : ∀ j, live' j → live j) (hi : live i) (hdb : s'.db = s.db)
    (hown : s'.own = Function.update s.own i own') (hlog : s.Logged s' i op ans)
    (hrole : g'.role = (g i).role) (hfits : g'.Fits s.db own')
    (hdoomed : ∀ k ∈ g'.doomed, Marked calls s' i k ∧ ∀ j, (g j).role.overwrites = true → ∀ x : Row,
      (s.own j).lookup (.command k.1 k.2) = some (some x) → g'.role.prunable x = true)
    (hwrites : g'.role.overwrites = true → ∀ j, live j → ∀ k ∈ (g j).doomed, ∀ x : Row,
      own'.lookup (.command k.1 k.2) = some (some x) → (g j).role.prunable x = true)
    (hdel : (roleOf (calls i)).Prunes ⟨op,ans⟩) :
    Guarded calls live' s' (Function.update g i g') where
  roles j := (role_update hrole j).trans (h.roles j)
  fits j hj := by
    rw [hdb,hown]
    exact Effect.forall_update (P := fun j own g => live j → Stage.Fits s.db own g) (fun _ => hfits)
      (fun j _ => h.fits j) j (hlive j hj)
  apart a b ha hb k hk x hx := by
    rw [hown] at hx
    rw [role_update hrole b] at hb
    by_cases hai : a = i
    · subst hai
      rw [Function.update_self] at hk ⊢
      obtain ⟨hmark,hothers⟩ := hdoomed k hk
      by_cases hba : b = a
      · -- a call that has chosen commands overwrites none
        subst hba
        rw [h.roles b,hmark.not_overwrites] at hb
        cases hb
      · rw [Function.update_of_ne hba] at hx
        exact hothers b hb x hx
    · rw [Function.update_of_ne hai] at hk ⊢
      by_cases hbi : b = i
      · subst hbi
        rw [Function.update_self] at hx
        exact hwrites (hrole ▸ hb) a (hlive a ha) k hk x hx
      · rw [Function.update_of_ne hbi] at hx
        exact h.apart a b (hlive a ha) hb k hk x hx
  marked j k hk := by
    by_cases hj : j = i
    · subst hj
      rw [Function.update_self] at hk
      exact (hdoomed k hk).1
    · rw [Function.update_of_ne hj] at hk
      exact (h.marked j k hk).logged hlog
  deletions := h.deletions_logged hlog hdel

theorem Guarded.dropped (h : Guarded calls live s g)
    (hlive : ∀ j, live' j → live j) (hi : live i) (hdb : s'.db = s.db)
    (hown : s'.own = Function.update s.own i own') (hlog : s.Logged s' i op ans)
    (hown' : own' = s.own i ∨ own' = ∅)
    (hdel : ∀ dev id (f : Option Row → Option (Option Row)) (r : Row),
      (⟨op,ans⟩ : (op : Op QueueRows) × op.Ans) ≠ ⟨.write (.command dev id) f,.ok (some r)⟩) :
    Guarded calls live' s' (Function.update g i (g i)) := by
  refine h.uncommitted hlive hi hdb hown hlog rfl ?_ (fun k hk => ⟨(h.marked i k hk).logged hlog,
    fun j hj x hx => h.apart i j hi hj k hk x hx⟩) (fun ho j hj k hk x hx => ?_)
    fun dev id f r he => absurd he (hdel dev id f r)
  · rcases hown' with rfl | rfl
    · exact h.fits i hi
    · exact (h.fits i hi).empty
  · rcases hown' with rfl | rfl
    · exact h.apart j i hj ho k hk x hx
    · cases hx

theorem Guarded.commit (h : Guarded calls live s g) (hlive : ∀ j, live' j → live j) (hi : live i)
    (hdb : s'.db = Sql.overlay (s.own i) s.db) (hown : s'.own = Function.update s.own i ∅)
    {ans : (Op.commit (ρ := QueueRows)).Ans} (hlog : s.Logged s' i .commit ans) :
    Guarded calls live' s' (Function.update g i (g i)) := by
  rw [Function.update_eq_self]
  refine ⟨h.roles,fun j hj => ?_,fun a b ha hb k hk x hx => ?_,fun j k hk => (h.marked j k hk).logged hlog,
    h.deletions_logged hlog fun dev id f r he => nomatch he⟩
  · have hsub : ∀ k, k ∈ s'.own j → j ≠ i ∧ k ∈ s.own j := by
      intro k hk
      rw [hown] at hk
      by_cases hji : j = i
      · subst hji
        rw [Function.update_self] at hk
        exact absurd hk (AList.notMem_empty k)
      · rw [Function.update_of_ne hji] at hk
        exact ⟨hji,hk⟩
    have hfits := h.fits j (hlive j hj)
    unfold Stage.Fits at hfits ⊢
    cases hrj : (g j).role with
    | writes => trivial
    | cancels =>
      rw [hrj] at hfits
      intro k hk
      obtain ⟨hji,hk⟩ := hsub k hk
      have hopen := hfits k hk
      cases k with
      | counter dev => exact hopen
      | command dev id =>
        obtain ⟨r,hr,hstate⟩ := hopen
        refine ⟨r,?_,hstate⟩
        rw [hdb,Sql.lookup_overlay,AList.lookup_eq_none.mpr fun hk' => hji (s.exclusive j i _ hk hk')]
        exact hr
    | prunes before limit tie =>
      rw [hrj] at hfits
      refine ⟨fun k v hv => ?_,fun k hk r hr => ?_⟩
      · obtain ⟨hji,-⟩ := hsub k (AList.lookup_isSome.mp (by rw [hv]; rfl))
        rw [hown,Function.update_of_ne hji] at hv
        exact hfits.1 k v hv
      · rw [hdb] at hr
        exact h.overlay_prunable hi (hlive j hj) hrj hk hr
  · rw [hown] at hx
    by_cases hbi : b = i
    · subst hbi
      rw [Function.update_self] at hx
      cases hx
    · rw [Function.update_of_ne hbi] at hx
      exact h.apart a b (hlive a ha) hb k hk x hx

theorem Guarded.wrote [Fintype ι] {c : Option Sql.Fault} {k : QueueKey}
    {f : Option (QueueRows k) → Option (Option (QueueRows k))} {old : Option (QueueRows k)}
    (h : Guarded calls live s g) (hlive : ∀ j, live' j → live j) (hi : live i)
    (hgate : Server.gate (ρ := QueueRows) i c (.write k f) s = some (.ok old,s'))
    (hfits : ∀ v, f ((s.session i).get k) = some v → (g i).Fits s.db ((s.own i).insert k v))
    (hwrites : (g i).role.overwrites = true → ∀ j, live j → ∀ v, f ((s.session i).get k) = some v →
      ∀ k' ∈ (g j).doomed, ∀ x : Row, ((s.own i).insert k v).lookup (.command k'.1 k'.2) = some (some x) →
      (g j).role.prunable x = true)
    (hdel : (s.session i).get k = old → (roleOf (calls i)).Prunes ⟨.write k f,.ok old⟩) :
    Guarded calls live' s' (Function.update g i (g i)) := by
  obtain ⟨-,hv,hdb,hown,hlog⟩ := Server.gate_ok hgate
  rw [Session.handle_write_answer] at hv
  obtain ⟨hdb',hwritten⟩ := Session.handle_write (ρ := QueueRows) k f (s.session i)
  have hdoomed : ∀ k ∈ (g i).doomed, Marked calls s' i k ∧ ∀ j, (g j).role.overwrites = true → ∀ x : Row,
      (s.own j).lookup (.command k.1 k.2) = some (some x) → (g i).role.prunable x = true :=
    fun k hk => ⟨(h.marked i k hk).logged hlog,fun j hj x hx => h.apart i j hi hj k hk x hx⟩
  rcases hwritten with ⟨-,hsame⟩ | ⟨v,hfv,hnew⟩
  · rw [hsame] at hown
    exact h.uncommitted hlive hi (hdb.trans hdb') hown hlog rfl (h.fits i hi) hdoomed
      (fun ho j hj k hk x hx => h.apart j i hj ho k hk x hx) (hdel (Except.ok.inj hv))
  · rw [hnew] at hown
    exact h.uncommitted hlive hi (hdb.trans hdb') hown hlog rfl (hfits v hfv) hdoomed
      (fun ho j hj k' hk' x hx => hwrites ho j hj v hfv k' hk' x hx) (hdel (Except.ok.inj hv))

section Steps
variable [Fintype ι] {c : Option Sql.Fault}

theorem Guarded.overwrote {k : QueueKey} {f : Option (QueueRows k) → Option (Option (QueueRows k))}
    {old : Option (QueueRows k)} (h : Guarded calls live s g) (hlive : ∀ j, live' j → live j) (hi : live i)
    (hok : Untouched calls live s i (.write k f))
    (hgate : Server.gate (ρ := QueueRows) i c (.write k f) s = some (.ok old,s'))
    (hrole : (g i).role = .writes) (hf : ∀ r, f (some r) ≠ some none) :
    Guarded calls live' s' (Function.update g i (g i)) := by
  have hover : (g i).role.overwrites = true := by rw [hrole]; rfl
  refine h.wrote hlive hi hgate (fun v _ => ?_) (fun _ j hj v hv k' hk' x hx => ?_)
    fun _ dev id f' r he hf' => ?_
  · unfold Stage.Fits
    rw [hrole]
    trivial
  · by_cases hkk : QueueKey.command k'.1 k'.2 = k
    · subst hkk
      rw [AList.lookup_insert] at hx
      cases hx
      have hmark := h.marked j k' hk'
      rcases hok (h.roles i ▸ hover) j hj hmark with hmem | hrows
      · -- a row that the Prune has deleted is locked until it commits
        obtain ⟨hfree,-⟩ := Server.gate_ok hgate
        have hji := hfree j hmem
        subst hji
        rw [h.roles j,hmark.not_overwrites] at hover
        cases hover
      · rw [h.roles j]
        exact hrows x (by rw [hv]; rfl)
    · rw [AList.lookup_insert_ne hkk] at hx
      exact h.apart j i hj hover k' hk' x hx
  · cases he
    exact absurd hf' (hf r)

/-- A write of `Cancel`. -/
theorem Guarded.cancelled {dev id : GoString} {f : Option Row → Option (Option Row)} {old : Option Row}
    (h : Guarded calls live s g) (hlive : ∀ j, live' j → live j) (hi : live i)
    (hgate : Server.gate (ρ := QueueRows) i c (.write (.command dev id) f) s = some (.ok old,s'))
    (hrole : (g i).role = .cancels) (hnone : f none = none)
    (hf : ∀ r x, f (some r) = some x → r.state.terminal = false ∧ x ≠ none) :
    Guarded calls live' s' (Function.update g i (g i)) := by
  have hfits := h.fits i hi
  unfold Stage.Fits at hfits
  rw [hrole] at hfits
  refine h.wrote hlive hi hgate (fun v hv => ?_) (fun ho => ?_) fun _ dev' id' f' r he hf' => ?_
  · unfold Stage.Fits
    rw [hrole]
    intro k hk
    rcases (AList.mem_insert _).mp hk with rfl | hk
    · by_cases hmem : QueueKey.command dev id ∈ s.own i
      · exact hfits _ hmem
      -- the first write of the row finds what is committed
      rw [Session.get_eq,show (s.session i).own.lookup (.command dev id) = none from
        AList.lookup_eq_none.mpr hmem,Option.getD_none] at hv
      cases hr : s.db.lookup (.command dev id) with
      | none =>
        rw [show (s.session i).db.lookup (.command dev id) = none from hr,hnone] at hv
        cases hv
      | some r =>
        rw [show (s.session i).db.lookup (.command dev id) = some r from hr] at hv
        exact ⟨r,hr,(hf r v hv).1⟩
    · exact hfits k hk
  · rw [hrole] at ho
    cases ho
  · cases he
    exact absurd rfl (hf r none hf').2

theorem Guarded.deleted {f : Option Row → Option (Option Row)} {old : Option Row}
    (h : Guarded calls live s g) (hlive : ∀ j, live' j → live j) (hi : live i)
    (hgate : Server.gate (ρ := QueueRows) i c (.write (.command k.1 k.2) f) s = some (.ok old,s'))
    (hrole : (g i).role = .prunes before limit tie) (hk : k ∈ (g i).doomed)
    (hf : ∀ r x, f r = some x → x = none) : Guarded calls live' s' (Function.update g i (g i)) := by
  have hfits := h.fits i hi
  unfold Stage.Fits at hfits
  rw [hrole] at hfits
  refine h.wrote hlive hi hgate (fun v hv => ?_) (fun ho => ?_) fun hold dev id f' r he _ => ?_
  · unfold Stage.Fits
    rw [hrole]
    refine ⟨fun k' v' hv' => ?_,hfits.2⟩
    by_cases hkk : k' = .command k.1 k.2
    · subst hkk
      rw [AList.lookup_insert] at hv'
      rw [← Option.some.inj hv']
      exact hf _ v hv
    · rw [AList.lookup_insert_ne hkk] at hv'
      exact hfits.1 k' v' hv'
  · rw [hrole] at ho
    cases ho
  cases he
  rw [← h.roles i,hrole]
  -- the row is not one the transaction has written, since those are deleted
  refine hfits.2 k hk r ?_
  rw [Session.get_eq] at hold
  cases ho : (s.session i).own.lookup (.command k.1 k.2) with
  | none => rwa [ho,Option.getD_none] at hold
  | some v =>
    rw [ho,Option.getD_some,hfits.1 _ v ho] at hold
    cases hold

theorem mem_chosenKeys (h : k ∈ chosenKeys limit tie found) :
    ∃ r : Row, (⟨.command k.1 k.2,r⟩ : FoundRow) ∈ found := by
  unfold chosenKeys at h
  obtain ⟨⟨k',r⟩,hmem,rfl⟩ := List.mem_map.mp h
  have hall : ((k',r) : (GoString × GoString) × Row) ∈ found.filterMap commandOf := by
    split at hmem
    · exact (List.mem_insertionSort _).mp (List.mem_of_mem_take hmem)
    · exact (List.mem_insertionSort _).mp hmem
  obtain ⟨⟨key,row⟩,hrow,he⟩ := List.mem_filterMap.mp hall
  cases key with
  | counter dev => cases he
  | command dev id =>
    cases he
    exact ⟨_,hrow⟩

theorem Guarded.chose (h : Guarded calls live s g)
    (hlive : ∀ j, live' j → live j) (hi : live i)
    (hok : Untouched calls live s i (.select (prunableRow before)))
    (hgate : Server.gate (ρ := QueueRows) i c (.select (prunableRow before)) s = some (.ok found,s'))
    (hrole : (g i).role = .prunes before limit tie) :
    Guarded calls live' s' (Function.update g i ⟨.prunes before limit tie,chosenKeys limit tie found⟩) := by
  obtain ⟨-,hv,hdb,hown,hlog⟩ := Server.gate_ok hgate
  have hfound : (s.session i).rows (prunableRow before) = found := Except.ok.inj hv
  have hcall : roleOf (calls i) = .prunes before limit tie := (h.roles i).symm.trans hrole
  have hfits := h.fits i hi
  unfold Stage.Fits at hfits
  rw [hrole] at hfits
  unfold Untouched at hok
  dsimp only at hok
  rw [hcall,hfound] at hok
  refine h.uncommitted hlive hi hdb hown hlog hrole.symm ⟨hfits.1,fun k hk r hr => ?_⟩
    (fun k hk => ⟨⟨_,by rw [hlog.self]; exact List.mem_cons_self,?_⟩,fun j hj x hx => ?_⟩) (fun ho => nomatch ho)
    fun dev id f r he => nomatch he
  · obtain ⟨r',hr'⟩ := mem_chosenKeys hk
    rw [← hfound,Session.mem_rows] at hr'
    obtain ⟨hget,hp⟩ := hr'
    rw [Session.get_eq] at hget
    cases ho : (s.session i).own.lookup (.command k.1 k.2) with
    | none =>
      rw [ho,Option.getD_none] at hget
      cases hget.symm.trans hr
      exact hp
    | some v =>
      rw [ho,Option.getD_some,hfits.1 _ v ho] at hget
      cases hget
  · rw [hcall]
    exact hk
  · exact hok k hk j (h.roles j ▸ hj) x (by rw [hx]; rfl)

theorem Guarded.step (h : Guarded calls live s g) (hlive : ∀ j, live' j → live j) (hi : live i)
    (hok : Untouched calls live s i op) (hgate : Server.gate i c op s = some (ans,s'))
    (hm : QueueMoves (g i) op ans g') : Guarded calls live' s' (Function.update g i g') := by
  generalize hgi : g i = gi at hm
  cases hm with
  | failed =>
    obtain ⟨hdb,hown,hlog⟩ := Server.gate_error hgate
    rw [← hgi]
    by_cases hends : op.ends = true
    · rw [if_pos hends] at hown
      exact h.dropped hlive hi hdb hown hlog (.inr rfl) fun dev id f r he => by cases he
    rw [if_neg hends] at hown
    exact h.dropped hlive hi hdb (hown.trans (Function.update_eq_self i s.own).symm) hlog (.inl rfl)
      fun dev id f r he => by cases he
  | rolledBack =>
    obtain ⟨-,-,hdb,hown,hlog⟩ := Server.gate_ok hgate
    rw [← hgi]
    exact h.dropped hlive hi hdb hown hlog (.inr rfl) fun dev id f r he => nomatch he
  | committed =>
    obtain ⟨-,-,hdb,hown,hlog⟩ := Server.gate_ok hgate
    rw [← hgi]
    exact h.commit hlive hi hdb hown hlog
  | selected ho =>
    obtain ⟨-,-,hdb,hown,hlog⟩ := Server.gate_ok hgate
    rw [← hgi]
    exact h.dropped hlive hi hdb hown hlog (.inl rfl) fun dev id f r he => nomatch he
  | chose => exact h.chose hlive hi hok hgate (by rw [hgi])
  | wrote hf =>
    rw [← hgi]
    exact h.overwrote hlive hi hok hgate (by rw [hgi]) hf
  | cancelled hnone hf =>
    rw [← hgi]
    exact h.cancelled hlive hi hgate (by rw [hgi]) hnone hf
  | deleted hk hf =>
    rw [← hgi]
    exact h.deleted hlive hi hgate (by rw [hgi]) (by rw [hgi]; exact hk) hf

end Steps

end Invariant

def concurrentQueue {ι : Type} (codec : Codec) (turns : Nat) (calls : ι → QueueOp (Row → Nat))
    (db : AList QueueRows) :
    Effect.Pool (Op QueueRows) Op.Ans ι (Server ι QueueRows) (Except (Sql.Failure QueueError) QueueReply) where
  state := .start db
  code i := performQueue codec turns (calls i)

def Undisturbed {ι φ α : Type} (calls : ι → QueueOp (Row → Nat))
    (p : Effect.Pool (Op QueueRows) Op.Ans ι (Server ι QueueRows) α) (e : ι × φ) : Prop :=
  p.Allows (Untouched calls p.Running) e

instance {ι φ α : Type} [Fintype ι] (calls : ι → QueueOp (Row → Nat))
    (p : Effect.Pool (Op QueueRows) Op.Ans ι (Server ι QueueRows) α) (e : ι × φ) :
    Decidable (Undisturbed calls p e) :=
  inferInstanceAs (Decidable (p.Allows (Untouched calls p.Running) e))

theorem guarded_start {ι : Type} (calls : ι → QueueOp (Row → Nat)) (live : ι → Prop) (db : AList QueueRows) :
    Guarded calls live (.start db) fun i => ⟨roleOf (calls i),[]⟩ where
  roles _ := rfl
  fits i _ := by
    unfold Stage.Fits
    cases roleOf (calls i) with
    | writes => trivial
    | cancels => exact fun k hk => absurd hk (AList.notMem_empty k)
    | prunes before limit tie => exact ⟨fun k v hv => (nomatch hv),fun k hk => (nomatch hk)⟩
  apart _ _ _ _ k hk := nomatch hk
  marked _ k hk := nomatch hk
  deletions _ _ _ _ _ hmem := nomatch hmem

theorem guarded_run {ι : Type} [Fintype ι] [DecidableEq ι] {codec : Codec} {turns : Nat}
    {calls : ι → QueueOp (Row → Nat)} {events : List (ι × Option Sql.Fault)}
    (h : Lifecycle.Allowed (Effect.Pool.step Server.gate) (Undisturbed calls)
      (concurrentQueue codec turns calls db) events) :
    ∃ g, Guarded calls
      (events.foldl (Effect.Pool.step Server.gate) (concurrentQueue codec turns calls db)).Running
      (events.foldl (Effect.Pool.step Server.gate) (concurrentQueue codec turns calls db)).state g := by
  have hstart : (concurrentQueue codec turns calls db).Tracked QueueMoves
      (fun p g => Guarded calls p.Running p.state g) :=
    ⟨_,fun i => follows_performQueue codec turns (calls i),guarded_start calls _ db⟩
  obtain ⟨g,-,hg⟩ := hstart.run (fun p g e op k ans s' g' h hok hcall hgate hm =>
    h.step (fun j hj => Effect.Pool.running_update hcall hj) (Effect.Pool.running_of_call hcall)
      (hok.call hcall) hgate hm) h
  exact ⟨g,hg⟩

/-- `UnixNano` of the time does not wrap around to a later one. -/
def NotEarly (t : Time) : Prop := t = 0 ∨ unixEpoch-2^63 ≤ t

instance (t : Time) : Decidable (NotEarly t) := inferInstanceAs (Decidable (_ ∨ _))

theorem Row.prunable_lt (h : r.prunable before = true) (hbefore : NotEarly before) :
    fromNanos r.completedAt < before := by
  unfold prunable at h
  simp only [Bool.and_eq_true,decide_eq_true_eq] at h
  obtain ⟨⟨-,hpos⟩,hlt⟩ := h
  unfold nanos at hlt
  unfold fromNanos
  unfold NotEarly at hbefore
  rw [if_neg (Int.ne_of_gt hpos)]
  split at hlt
  · omega
  rename_i hne
  have hepoch := hbefore.resolve_left hne
  rw [Int.bmod_def] at hlt
  unfold unixEpoch Time at *
  split at hlt <;> omega

/-- However calls interleave, fail and are tried again: if no call overwrites a command that a
Prune under way has chosen, every command that is deleted was completed, before the time the Prune
was given. -/
theorem pruned_completed {ι : Type} [Fintype ι] [DecidableEq ι] (codec : Codec) (turns : Nat)
    (calls : ι → QueueOp (Row → Nat)) (db : AList QueueRows)
    (hcalls : ∀ i before limit tie, calls i = .prune before limit tie → NotEarly before)
    (events : List (ι × Option Sql.Fault))
    (hevents : Lifecycle.Allowed (Effect.Pool.step Server.gate) (Undisturbed calls)
      (concurrentQueue codec turns calls db) events)
    (i : ι) (dev id : GoString) (f : Option Row → Option (Option Row)) (r : Row)
    (hlog : ⟨.write (.command dev id) f,.ok (some r)⟩ ∈
      (events.foldl (Effect.Pool.step Server.gate) (concurrentQueue codec turns calls db)).state.log i)
    (hdelete : f (some r) = some none) :
    ∃ before limit tie, calls i = .prune before limit tie ∧ r.state.terminal = true ∧
      fromNanos r.completedAt < before := by
  obtain ⟨g,hg⟩ := guarded_run hevents
  have hp := hg.deletions i dev id f r hlog hdelete
  cases hc : calls i with
  | prune before limit tie =>
    rw [hc] at hp
    have hp' : r.prunable before = true := hp
    refine ⟨before,limit,tie,rfl,?_,Row.prunable_lt hp' (hcalls i before limit tie hc)⟩
    unfold Row.prunable at hp'
    simp only [Bool.and_eq_true] at hp'
    exact hp'.1.1
  | enqueue _ _ _ | deliverable _ _ | markSent _ _ | storeResult _ _ _ | cancel _ _ _ =>
    rw [hc] at hp
    cases hp

namespace Sample

def queueCalls : Fin 4 → QueueOp (Row → Nat)
  | 0 => .enqueue "dev" Mdm.Sample.policy (unixEpoch+1)
  | 1 => .cancel "dev" ["p"] (unixEpoch+2)
  | 2 => .prune (unixEpoch+3) 0 fun _ => 0
  | 3 => .markSent "dev" [⟨"p","2",unixEpoch+4⟩]

def withdrawal : List (Fin 4 × Option Sql.Fault) :=
  List.replicate 5 (0,none) ++ List.replicate 2 (1,none)

/-- `MarkSent` after the transaction of `Prune`. -/
def inTurn : List (Fin 4 × Option Sql.Fault) :=
  withdrawal ++ List.replicate 3 (2,none) ++ List.replicate 2 (3,none)

def between : List (Fin 4 × Option Sql.Fault) :=
  withdrawal ++ [(2,none)] ++ List.replicate 2 (3,none) ++ List.replicate 2 (2,none)

def queueAfter (events : List (Fin 4 × Option Sql.Fault)) : Server (Fin 4) QueueRows :=
  (events.foldl (Effect.Pool.step Server.gate) (concurrentQueue Mdm.Sample.codec 1 queueCalls ∅)).state

end Sample

set_option maxRecDepth 4000

/-- The command is deleted while it is cancelled. -/
theorem pruned_completed_in_turn : ∃ (f : Option Row → Option (Option Row)) (r : Row),
    ⟨.write (.command "dev" "p") f,.ok (some r)⟩ ∈ (Sample.queueAfter Sample.inTurn).log 2 ∧
    f (some r) = some none ∧ r.state.terminal = true ∧ fromNanos r.completedAt < unixEpoch+3 := by
  have hmem : ∃ (f : Option Row → Option (Option Row)) (r : Row),
      ⟨.write (.command "dev" "p") f,.ok (some r)⟩ ∈ (Sample.queueAfter Sample.inTurn).log 2 ∧
      f (some r) = some none := ⟨_,_,List.mem_of_getElem? (i := 1) rfl,rfl⟩
  obtain ⟨f,r,hlog,hdelete⟩ := hmem
  have hcalls : ∀ i before limit tie, Sample.queueCalls i = .prune before limit tie → NotEarly before := by
    intro i before limit tie h
    unfold Sample.queueCalls at h
    split at h
    · cases h
    · cases h
    · cases h
      decide
    · cases h
  obtain ⟨before,limit,tie,hcall,hstate,htime⟩ := pruned_completed Mdm.Sample.codec 1 Sample.queueCalls ∅
    hcalls Sample.inTurn (by decide +kernel) 2 "dev" "p" f r hlog hdelete
  cases hcall
  exact ⟨f,r,hlog,hdelete,hstate,htime⟩

/-- A cancelled command that is sent between the query of the Prune and its transaction is deleted
while it is sent. -/
theorem pruned_sent : ∃ (codec : Codec) (turns : Nat) (calls : Fin 4 → QueueOp (Row → Nat))
    (events : List (Fin 4 × Option Sql.Fault)) (i : Fin 4) (dev id : GoString)
    (f : Option Row → Option (Option Row)) (r : Row),
    (∃ before limit tie, calls i = .prune before limit tie ∧ NotEarly before) ∧
    ⟨.write (.command dev id) f,.ok (some r)⟩ ∈
      (events.foldl (Effect.Pool.step Server.gate) (concurrentQueue codec turns calls ∅)).state.log i ∧
    f (some r) = some none ∧ r.state = .sent :=
  ⟨Mdm.Sample.codec,1,Sample.queueCalls,Sample.between,2,"dev","p",_,_,⟨_,_,_,rfl,by decide⟩,
    List.mem_of_getElem? (i := 1) rfl,rfl,rfl⟩

end MicrosoftDM.Sqlstore
