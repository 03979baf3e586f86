import Mathlib.Data.Fintype.Defs
import Mathlib.Data.List.AList
import MicrosoftDM.Interleaving

/-!
Transactions on a database at READ COMMITTED. A statement sees the rows that are committed when
it starts and the writes of its own transaction. A row that another transaction has written
waits until that one has ended, and is then looked at again.
-/

set_option autoImplicit false

namespace Sql
open Effect (Program Handler Gate)

/-- Why the database did not run a statement. -/
inductive Fault where
  | retriable | other
  deriving DecidableEq

section Statements
variable {κ : Type} {ρ : κ → Type}

/-- The steps of statements. `scan` is the start of an UPDATE, `write` its
visit of one row: from the row there is, it says what to write, if anything. -/
inductive Op (ρ : κ → Type) where
  | select (p : (k : κ) → ρ k → Bool)
  | scan (p : (k : κ) → ρ k → Bool)
  | write (k : κ) (f : Option (ρ k) → Option (Option (ρ k)))
  | commit
  | rollback

def Op.Value : Op ρ → Type
  | .select _ => List ((k : κ) × ρ k)
  | .scan _ => List κ
  | .write k _ => Option (ρ k)
  | .commit => Unit
  | .rollback => Unit

def Op.Ans (op : Op ρ) : Type := Except Fault op.Value

def Op.ends : Op ρ → Bool
  | .commit => true
  | .rollback => true
  | _ => false

def Op.isScan : Op ρ → Bool
  | .scan _ => true
  | _ => false

/-- The writes of a transaction that is open; `none` is a row that is gone. -/
abbrev Writes (ρ : κ → Type) := AList fun k => Option (ρ k)

end Statements

section Views
variable {κ : Type} {ρ : κ → Type} [DecidableEq κ]

def put (w : (k : κ) × Option (ρ k)) (t : AList ρ) : AList ρ :=
  match w.2 with
  | some r => t.insert w.1 r
  | none => t.erase w.1

def overlay (own : Writes ρ) (db : AList ρ) : AList ρ := own.entries.foldr put db

theorem lookup_put_self (w : (k : κ) × Option (ρ k)) (t : AList ρ) : (put w t).lookup w.1 = w.2 := by
  unfold put
  split
  · rename_i r hr
    rw [AList.lookup_insert,hr]
  · rename_i hr
    rw [AList.lookup_erase,hr]

theorem lookup_put_ne {k : κ} {w : (k : κ) × Option (ρ k)} (t : AList ρ) (h : k ≠ w.1) :
    (put w t).lookup k = t.lookup k := by
  unfold put
  split
  · exact AList.lookup_insert_ne h
  · exact AList.lookup_erase_ne h

theorem lookup_overlay (own : Writes ρ) (db : AList ρ) (k : κ) :
    (overlay own db).lookup k = (own.lookup k).getD (db.lookup k) := by
  unfold overlay AList.lookup
  induction own.entries with
  | nil => rfl
  | cons w ws ih =>
    obtain ⟨k',v⟩ := w
    rw [List.foldr_cons]
    by_cases hk : k = k'
    · subst hk
      rw [List.dlookup_cons_eq]
      exact lookup_put_self ⟨k,v⟩ _
    · rw [List.dlookup_cons_ne _ _ hk,← ih]
      exact lookup_put_ne _ hk

structure Session (ρ : κ → Type) where
  db : AList ρ
  own : Writes ρ := ∅

def Session.table (s : Session ρ) : AList ρ := overlay s.own s.db

def Session.get (s : Session ρ) (k : κ) : Option (ρ k) := s.table.lookup k

def Session.rows (s : Session ρ) (p : (k : κ) → ρ k → Bool) : List ((k : κ) × ρ k) :=
  s.table.entries.filter fun e => p e.1 e.2

/-- What the database does when it runs a statement. -/
def Session.handle : Handler (Op ρ) Op.Ans (Session ρ)
  | .select p, s => (.ok (s.rows p),s)
  | .scan p, s => (.ok ((s.rows p).map Sigma.fst),s)
  | .write k f, s =>
    match f (s.get k) with
    | none => (.ok (s.get k),s)
    | some v => (.ok (s.get k),{ s with own := s.own.insert k v })
  | .commit, s => (.ok (),{ db := s.table })
  | .rollback, s => (.ok (),{ db := s.db })

theorem Session.get_eq (s : Session ρ) (k : κ) : s.get k = (s.own.lookup k).getD (s.db.lookup k) :=
  lookup_overlay s.own s.db k

theorem Session.mem_rows {s : Session ρ} {p : (k : κ) → ρ k → Bool} {k : κ} {r : ρ k} :
    (⟨k,r⟩ : (k : κ) × ρ k) ∈ s.rows p ↔ s.get k = some r ∧ p k r = true := by
  unfold rows get
  rw [List.mem_filter,← AList.mem_lookup_iff]
  rfl

theorem Session.rows_isEmpty {s : Session ρ} {p : (k : κ) → ρ k → Bool} :
    (s.rows p).isEmpty = true ↔ ∀ k r, s.get k = some r → ¬p k r = true := by
  rw [List.isEmpty_iff,List.eq_nil_iff_forall_not_mem]
  constructor
  · intro h k r hr hp
    exact h ⟨k,r⟩ (mem_rows.mpr ⟨hr,hp⟩)
  rintro h ⟨k,r⟩ hmem
  obtain ⟨hr,hp⟩ := mem_rows.mp hmem
  exact h k r hr hp

theorem Session.mem_scan {s : Session ρ} {p : (k : κ) → ρ k → Bool} {k : κ} :
    k ∈ (s.rows p).map Sigma.fst ↔ ∃ r, s.get k = some r ∧ p k r = true := by
  rw [List.mem_map]
  constructor
  · rintro ⟨⟨k',r⟩,hr,rfl⟩
    exact ⟨r,mem_rows.mp hr⟩
  · rintro ⟨r,hr⟩
    exact ⟨⟨k,r⟩,mem_rows.mpr hr,rfl⟩

theorem Session.nodup_scan (s : Session ρ) (p : (k : κ) → ρ k → Bool) :
    ((s.rows p).map Sigma.fst).Nodup :=
  (List.filter_sublist.map _).nodup s.table.nodupKeys

end Views

/-- A statement failed, or the transaction gives up. -/
inductive Failure (ε : Type) where
  | fault (f : Fault)
  | error (e : ε)
  deriving DecidableEq

section Bodies
variable {κ : Type} (ρ : κ → Type) (ε : Type)

abbrev Body (α : Type) : Type := ExceptT (Failure ε) (Program (Op ρ) Op.Ans) α

end Bodies

section Programs
variable {κ : Type} {ρ : κ → Type} {ε α β : Type}

def answer {β : Type} : Except Fault β → Except (Failure ε) β
  | .ok b => .ok b
  | .error f => .error (.fault f)

def statement (op : Op ρ) : Body ρ ε op.Value := Program.call op fun ans => .done (answer ans)

def fail (e : ε) : Body ρ ε α := Program.done (.error (.error e))

def refuse (f : Fault) : Body ρ ε α := Program.done (.error (.fault f))

def select (p : (k : κ) → ρ k → Bool) : Body ρ ε (List ((k : κ) × ρ k)) := statement (.select p)

def changing (p : (k : κ) → ρ k → Bool) (f : (k : κ) → ρ k → ρ k) (k : κ) :
    Option (ρ k) → Option (Option (ρ k))
  | some r => if p k r then some (some (f k r)) else none
  | none => none

def visitAll (p : (k : κ) → ρ k → Bool) (f : (k : κ) → ρ k → ρ k) : List κ → Body ρ ε Unit
  | [] => pure ()
  | k :: ks => do
    let _ ← statement (.write k (changing p f k))
    visitAll p f ks

/-- UPDATE on the rows that satisfy `p`. -/
def update (p : (k : κ) → ρ k → Bool) (f : (k : κ) → ρ k → ρ k) : Body ρ ε Unit := do
  let ks ← statement (.scan p)
  visitAll p f ks

def updateKey (k : κ) (p : ρ k → Bool) (f : ρ k → ρ k) : Body ρ ε Bool := do
  let old ← statement (.write k fun old => (old.filter p).map fun r => some (f r))
  return (old.filter p).isSome

def insert (k : κ) (r : ρ k) : Body ρ ε Unit := do
  let old ← statement (.write k fun old => if old.isSome then none else some (some r))
  if old.isSome then refuse .other else pure ()

def delete (k : κ) : Body ρ ε Unit := do
  let _ ← statement (.write k fun old => if old.isSome then some none else none)

def txOnce (body : Body ρ ε α) : Body ρ ε α :=
  Program.bind body fun r =>
    match r with
    | .ok a => Program.call .commit fun ans => .done ((answer ans).map fun _ => a)
    | .error e => Program.call .rollback fun _ => .done (.error e)

/-- A transaction, again as long as the failure is one that may pass. -/
def tx (body : Body ρ ε α) : Nat → Body ρ ε α
  | 0 => refuse .retriable
  | n+1 => Program.bind (txOnce body) fun r =>
      match r with
      | .error (.fault .retriable) => tx body n
      | r => Program.done r

def updated (p : (k : κ) → ρ k → Bool) (f : (k : κ) → ρ k → ρ k) (k : κ) (r : ρ k) : ρ k :=
  if p k r then f k r else r

theorem changing_getD (p : (k : κ) → ρ k → Bool) (f : (k : κ) → ρ k → ρ k) (k : κ) (old : Option (ρ k)) :
    (changing p f k old).getD old = old.map (updated p f k) := by
  cases old with
  | none => rfl
  | some r =>
    by_cases hp : p k r = true
    · simp [changing,updated,hp]
    · simp [changing,updated,hp]

end Programs

section Only
variable {κ : Type} {ρ : κ → Type} {ε α β : Type} {P : Op ρ → Prop}

def Only (P : Op ρ → Prop) (x : Body ρ ε α) : Prop := Program.Only P x

theorem Only.bind {x : Body ρ ε α} {f : α → Body ρ ε β} (hx : Only P x) (hf : ∀ a, Only P (f a)) :
    Only P (x >>= f) := by
  refine Program.Only.andThen hx fun r => ?_
  cases r with
  | ok a => exact hf a
  | error e => trivial

theorem only_pure {a : α} : Only P (pure a : Body ρ ε α) := trivial

theorem only_fail {e : ε} : Only P (fail e : Body ρ ε α) := trivial

theorem only_refuse {f : Fault} : Only P (refuse f : Body ρ ε α) := trivial

theorem only_statement {op : Op ρ} (h : P op) : Only P (statement op : Body ρ ε op.Value) :=
  ⟨h,fun _ => trivial⟩

theorem only_updateKey {k : κ} {p : ρ k → Bool} {f : ρ k → ρ k}
    (h : P (.write k fun old => (old.filter p).map fun r => some (f r))) :
    Only P (updateKey k p f : Body ρ ε Bool) := (only_statement h).bind fun _ => only_pure

theorem only_insert {k : κ} {r : ρ k} (h : P (.write k fun old => if old.isSome then none else some (some r))) :
    Only P (insert k r : Body ρ ε Unit) := by
  refine (only_statement h).bind fun old => ?_
  split
  · exact only_refuse
  · exact only_pure

theorem only_txOnce {body : Body ρ ε α} (h : Only P body) (hc : P .commit) (hr : P .rollback) :
    Only P (txOnce body) := by
  refine Program.Only.andThen h fun r => ?_
  cases r with
  | ok a => exact ⟨hc,fun _ => trivial⟩
  | error e => exact ⟨hr,fun _ => trivial⟩

theorem only_tx {body : Body ρ ε α} (h : Only P body) (hc : P .commit) (hr : P .rollback) (n : Nat) :
    Only P (tx body n) := by
  induction n with
  | zero => exact only_refuse
  | succ n ih =>
    refine Program.Only.andThen (only_txOnce h hc hr) fun r => ?_
    split
    · exact ih
    · trivial

end Only

section Protocols
variable {κ : Type} {ρ : κ → Type} {ε α β γ : Type} {next : γ → (op : Op ρ) → op.Ans → γ → Prop}
  {Q : Except (Failure ε) α → γ → Prop} {R : Except (Failure ε) β → γ → Prop} {g g₀ : γ}

/-- From position `g` every statement is a move of the protocol, and the end is in `Q`. -/
def Follows (next : γ → (op : Op ρ) → op.Ans → γ → Prop) (Q : Except (Failure ε) α → γ → Prop)
    (x : Body ρ ε α) (g : γ) : Prop := Program.Follows next Q x g

theorem Follows.bind {x : Body ρ ε α} {f : α → Body ρ ε β} (hx : Follows next Q x g)
    (hok : ∀ a g', Q (.ok a) g' → Follows next R (f a) g')
    (herr : ∀ e g', Q (.error e) g' → R (.error e) g') : Follows next R (x >>= f) g := by
  refine Program.Follows.bind hx fun r g' hr => ?_
  cases r with
  | ok a => exact hok a g' hr
  | error e => exact herr e g' hr

theorem follows_pure {a : α} (h : Q (.ok a) g) : Follows next Q (pure a : Body ρ ε α) g := h

theorem follows_fail {e : ε} (h : Q (.error (.error e)) g) :
    Follows next Q (fail e : Body ρ ε α) g := h

theorem follows_statement {op : Op ρ} {Q : Except (Failure ε) op.Value → γ → Prop}
    (h : ∀ ans, ∃ g', next g op ans g' ∧ Q (answer ans) g') : Follows next Q (statement op) g := h

theorem follows_txOnce {body : Body ρ ε α} (hbody : Follows next Q body g₀)
    (hcommit : ∀ a g ans, Q (.ok a) g → next g .commit ans g₀)
    (hrollback : ∀ e g ans, Q (.error e) g → next g .rollback ans g₀) :
    Follows next (fun _ g => g = g₀) (txOnce body) g₀ := by
  refine Program.Follows.bind hbody fun r g hr => ?_
  cases r with
  | ok a => exact fun ans => ⟨g₀,hcommit a g ans hr,rfl⟩
  | error e => exact fun ans => ⟨g₀,hrollback e g ans hr,rfl⟩

theorem follows_tx {body : Body ρ ε α} (hbody : Follows next Q body g₀)
    (hcommit : ∀ a g ans, Q (.ok a) g → next g .commit ans g₀)
    (hrollback : ∀ e g ans, Q (.error e) g → next g .rollback ans g₀) (n : Nat) :
    Follows next (fun _ g => g = g₀) (tx body n) g₀ := by
  induction n with
  | zero => exact rfl
  | succ n ih =>
    refine Program.Follows.bind (follows_txOnce hbody hcommit hrollback) fun r g hr => ?_
    split
    · rw [hr]
      exact ih
    · exact hr

end Protocols

section Serial
variable {κ : Type} {ρ : κ → Type} [DecidableEq κ] {ε α β : Type} {s : Session ρ}

/-- The program with nobody else on the database. -/
def exec (x : Body ρ ε α) (s : Session ρ) : Except (Failure ε) α × Session ρ :=
  Program.run Session.handle x s

def serve (x : Body ρ ε α) (db : AList ρ) : Except (Failure ε) α × AList ρ :=
  ((exec x { db := db }).1,(exec x { db := db }).2.db)

theorem exec_bind (x : Body ρ ε α) (f : α → Body ρ ε β) (s : Session ρ) :
    exec (x >>= f) s =
      match exec x s with
      | (.ok a,s') => exec (f a) s'
      | (.error e,s') => (.error e,s') := by
  change Program.run Session.handle (Program.bind x (ExceptT.bindCont f)) s = _
  rw [Effect.run_bind]
  unfold exec
  rcases Program.run Session.handle x s with ⟨r,s'⟩
  cases r with
  | ok _ | error _ => rfl

theorem exec_bind_of_ok {x : Body ρ ε α} {f : α → Body ρ ε β} {s' : Session ρ} {a : α}
    (h : exec x s = (.ok a,s')) : exec (x >>= f) s = exec (f a) s' := by
  rw [exec_bind,h]

@[simp] theorem exec_fail (e : ε) (s : Session ρ) :
    exec (fail e : Body ρ ε α) s = (.error (.error e),s) := rfl

@[simp] theorem exec_select (p : (k : κ) → ρ k → Bool) (s : Session ρ) :
    exec (select p : Body ρ ε _) s = (.ok (s.rows p),s) := rfl

def Session.write (s : Session ρ) (k : κ) (v : Option (ρ k)) : Session ρ :=
  { s with own := s.own.insert k v }

theorem Session.get_write_self (s : Session ρ) (k : κ) (v : Option (ρ k)) : (s.write k v).get k = v := by
  rw [get_eq]
  show ((s.own.insert k v).lookup k).getD _ = v
  rw [AList.lookup_insert]
  rfl

theorem Session.get_write_ne (s : Session ρ) {k k' : κ} (v : Option (ρ k)) (h : k' ≠ k) :
    (s.write k v).get k' = s.get k' := by
  rw [get_eq,get_eq]
  show ((s.own.insert k v).lookup k').getD _ = _
  rw [AList.lookup_insert_ne h]
  rfl

theorem exec_write (k : κ) (f : Option (ρ k) → Option (Option (ρ k))) (s : Session ρ) :
    exec (statement (.write k f) : Body ρ ε _) s =
      (.ok (s.get k),match f (s.get k) with | none => s | some v => s.write k v) := by
  change (answer (Session.handle (.write k f) s).1,(Session.handle (.write k f) s).2) = _
  unfold Session.handle
  dsimp only
  split
  · rfl
  · rfl

/-- The session differs from `s` only in its writes, and in the row under `k`. -/
structure Session.Changed (s s' : Session ρ) (k : κ) (v : Option (ρ k)) : Prop where
  db : s'.db = s.db
  self : s'.get k = v
  others : ∀ k', k' ≠ k → s'.get k' = s.get k'

theorem Session.Changed.refl (s : Session ρ) (k : κ) : s.Changed s k (s.get k) :=
  ⟨rfl,rfl,fun _ _ => rfl⟩

theorem Session.changed_write (s : Session ρ) (k : κ) (v : Option (ρ k)) :
    s.Changed (s.write k v) k v :=
  ⟨rfl,s.get_write_self k v,fun _ h => s.get_write_ne v h⟩

theorem exec_write_changed (k : κ) (f : Option (ρ k) → Option (Option (ρ k))) (s : Session ρ) :
    ∃ s', exec (statement (.write k f) : Body ρ ε _) s = (.ok (s.get k),s') ∧
      s.Changed s' k ((f (s.get k)).getD (s.get k)) := by
  rw [exec_write]
  cases f (s.get k) with
  | none => exact ⟨s,rfl,.refl s k⟩
  | some v => exact ⟨_,rfl,s.changed_write k v⟩

theorem exec_visitAll (p : (k : κ) → ρ k → Bool) (f : (k : κ) → ρ k → ρ k) {ks : List κ} (hks : ks.Nodup)
    (s : Session ρ) : ∃ s', exec (visitAll p f ks : Body ρ ε Unit) s = (.ok (),s') ∧ s'.db = s.db ∧
      ∀ k, s'.get k = if k ∈ ks then (s.get k).map (updated p f k) else s.get k := by
  induction ks generalizing s with
  | nil => exact ⟨s,rfl,rfl,fun k => (if_neg List.not_mem_nil).symm⟩
  | cons k ks ih =>
    obtain ⟨hk,hks⟩ := List.nodup_cons.mp hks
    obtain ⟨s₁,h₁,hc⟩ := exec_write_changed (ε := ε) k (changing p f k) s
    obtain ⟨s',h',hdb,hget⟩ := ih hks s₁
    refine ⟨s',(exec_bind_of_ok h₁).trans h',hdb.trans hc.db,fun k' => ?_⟩
    rw [hget]
    by_cases he : k' = k
    · subst he
      rw [if_neg hk,if_pos List.mem_cons_self,hc.self,changing_getD]
    · rw [hc.others k' he]
      exact if_congr (by rw [List.mem_cons,or_iff_right he]) rfl rfl

theorem exec_update (p : (k : κ) → ρ k → Bool) (f : (k : κ) → ρ k → ρ k) (s : Session ρ) :
    ∃ s', exec (update p f : Body ρ ε Unit) s = (.ok (),s') ∧ s'.db = s.db ∧
      ∀ k, s'.get k = (s.get k).map (updated p f k) := by
  have hscan : exec (statement (.scan p) : Body ρ ε _) s = (.ok ((s.rows p).map Sigma.fst),s) := rfl
  obtain ⟨s',h',hdb,hget⟩ := exec_visitAll (ε := ε) p f (s.nodup_scan p) s
  refine ⟨s',(exec_bind_of_ok hscan).trans h',hdb,fun k => ?_⟩
  rw [hget]
  by_cases hk : k ∈ (s.rows p).map Sigma.fst
  · rw [if_pos hk]
  rw [if_neg hk]
  cases hr : s.get k with
  | none => rfl
  | some r =>
    rw [Option.map_some,updated,if_neg fun hp => hk (Session.mem_scan.mpr ⟨r,hr,hp⟩)]

theorem exec_updateKey (k : κ) (p : ρ k → Bool) (f : ρ k → ρ k) (s : Session ρ) :
    ∃ s', exec (updateKey k p f : Body ρ ε Bool) s = (.ok ((s.get k).filter p).isSome,s') ∧
      s.Changed s' k ((s.get k).map fun r => if p r then f r else r) := by
  obtain ⟨s₁,h₁,hc⟩ := exec_write_changed (ε := ε) k
    (fun old => (old.filter p).map fun r => some (f r)) s
  refine ⟨s₁,(exec_bind_of_ok h₁).trans rfl,?_⟩
  have hv : (((s.get k).filter p).map fun r => some (f r)).getD (s.get k) =
      (s.get k).map fun r => if p r then f r else r := by
    cases s.get k with
    | none => rfl
    | some r =>
      by_cases hp : p r = true
      · rw [Option.filter_some_pos hp,Option.map_some,Option.map_some,if_pos hp]
        rfl
      · rw [Option.filter_some_neg (Bool.eq_false_of_not_eq_true hp),Option.map_some,if_neg hp]
        rfl
  exact hv ▸ hc

theorem exec_insert {k : κ} (r : ρ k) (h : s.get k = none) :
    ∃ s', exec (insert k r : Body ρ ε Unit) s = (.ok (),s') ∧ s.Changed s' k (some r) := by
  obtain ⟨s₁,h₁,hc⟩ := exec_write_changed (ε := ε) k
    (fun old => if old.isSome then none else some (some r)) s
  rw [h] at h₁ hc
  exact ⟨s₁,(exec_bind_of_ok h₁).trans rfl,hc⟩

theorem exec_delete (k : κ) (s : Session ρ) :
    ∃ s', exec (delete k : Body ρ ε Unit) s = (.ok (),s') ∧ s.Changed s' k none := by
  obtain ⟨s₁,h₁,hc⟩ := exec_write_changed (ε := ε) k
    (fun old => if old.isSome then some none else none) s
  refine ⟨s₁,(exec_bind_of_ok h₁).trans rfl,?_⟩
  cases hr : s.get k with
  | none | some _ =>
    rw [hr] at hc
    exact hc

theorem exec_txOnce (body : Body ρ ε α) (s : Session ρ) :
    exec (txOnce body) s =
      match exec body s with
      | (.ok a,s') => (.ok a,{ db := s'.table })
      | (.error e,s') => (.error e,{ db := s'.db }) := by
  change Program.run Session.handle (Program.bind body _) s = _
  rw [Effect.run_bind]
  unfold exec
  rcases Program.run Session.handle body s with ⟨r,s'⟩
  cases r with
  | ok _ | error _ => rfl

theorem exec_tx {body : Body ρ ε α} {r : Except (Failure ε) α} {s s' : Session ρ} (n : Nat)
    (h : exec (txOnce body) s = (r,s')) (hr : r ≠ .error (.fault .retriable)) :
    exec (tx body (n+1)) s = (r,s') := by
  change Program.run Session.handle (Program.bind (txOnce body) _) s = _
  rw [Effect.run_bind,show Program.run Session.handle (txOnce body) s = (r,s') from h]
  cases r with
  | ok a => rfl
  | error e =>
    cases e with
    | error e => rfl
    | fault f =>
      cases f with
      | other => rfl
      | retriable => exact absurd rfl hr

theorem serve_tx_ok {body : Body ρ ε α} {db : AList ρ} {a : α} {s' : Session ρ} (n : Nat)
    (h : exec body { db := db } = (.ok a,s')) : serve (tx body (n+1)) db = (.ok a,s'.table) := by
  have hx : exec (txOnce body) { db := db } = (.ok a,{ db := s'.table }) := by
    rw [exec_txOnce,h]
  unfold serve
  rw [exec_tx n hx (fun he => nomatch he)]

theorem serve_tx_error {body : Body ρ ε α} {db : AList ρ} {e : ε} {s' : Session ρ} (n : Nat)
    (h : exec body { db := db } = (.error (.error e),s')) (hdb : s'.db = db) :
    serve (tx body (n+1)) db = (.error (.error e),db) := by
  have hx : exec (txOnce body) { db := db } = (.error (.error e),{ db := db }) := by
    rw [exec_txOnce,h,← hdb]
  unfold serve
  rw [exec_tx n hx (fun he => nomatch he)]

end Serial

/-- The database and the open transaction of each thread. No two of them have
written the same row. `log` has the statements of a thread, the last one first. -/
structure Server (ι : Type) {κ : Type} (ρ : κ → Type) where
  db : AList ρ
  own : ι → Writes ρ
  exclusive : ∀ i j k, k ∈ own i → k ∈ own j → i = j
  log : ι → List ((op : Op ρ) × op.Ans) := fun _ => []

section Logs
variable {ι κ : Type} {ρ : κ → Type} {s s' : Server ι ρ} {i : ι}

def Server.ran (s : Server ι ρ) (i : ι) : List ((op : Op ρ) × op.Ans) :=
  (s.log i).takeWhile fun e => !e.1.ends

structure Server.Logged (s s' : Server ι ρ) (i : ι) (op : Op ρ) (ans : op.Ans) : Prop where
  self : s'.log i = ⟨op,ans⟩ :: s.log i
  others : ∀ j, j ≠ i → s'.log j = s.log j

theorem Server.logged_update [DecidableEq ι] {op : Op ρ} {ans : op.Ans}
    (h : s'.log = Function.update s.log i (⟨op,ans⟩ :: s.log i)) : s.Logged s' i op ans := by
  constructor
  · rw [h,Function.update_self]
  · intro j hj
    rw [h,Function.update_of_ne hj]

theorem Server.Logged.ran_self {op : Op ρ} {ans : op.Ans} (h : s.Logged s' i op ans)
    (hop : op.ends = false) : s'.ran i = ⟨op,ans⟩ :: s.ran i := by
  unfold ran
  rw [h.self,List.takeWhile_cons_of_pos (by rw [hop]; rfl)]

theorem Server.Logged.ran_others {op : Op ρ} {ans : op.Ans} (h : s.Logged s' i op ans) {j : ι}
    (hj : j ≠ i) : s'.ran j = s.ran j := by
  unfold ran
  rw [h.others j hj]

end Logs

section Concurrent
variable {ι κ : Type} {ρ : κ → Type} [DecidableEq κ] {s s' : Server ι ρ} {i j : ι} {k : κ}

def Server.start (db : AList ρ) : Server ι ρ where
  db := db
  own := fun _ => ∅
  exclusive := fun _ _ _ h => absurd h (AList.notMem_empty _)

def Server.session (s : Server ι ρ) (i : ι) : Session ρ := { db := s.db, own := s.own i }

def Server.Free (s : Server ι ρ) (i : ι) : Op ρ → Prop
  | .write k _ => ∀ j, k ∈ s.own j → j = i
  | _ => True

theorem Server.Free.own {op : Op ρ} (h : s.Free i op)
    (hk : k ∈ (Session.handle op (s.session i)).2.own) (hj : k ∈ s.own j) : i = j := by
  cases op with
  | select _ | scan _ => exact s.exclusive i j k hk hj
  | commit | rollback => exact absurd hk (AList.notMem_empty k)
  | write k' f =>
    unfold Session.handle at hk
    dsimp only at hk
    split at hk
    · exact s.exclusive i j k hk hj
    rcases (AList.mem_insert _).mp hk with rfl | hk
    · exact (h j hj).symm
    · exact s.exclusive i j k hk hj

variable [DecidableEq ι]

instance [Fintype ι] (s : Server ι ρ) (i : ι) (op : Op ρ) : Decidable (s.Free i op) :=
  match op with
  | .write k _ => inferInstanceAs (Decidable (∀ j, k ∈ s.own j → j = i))
  | .select _ => .isTrue trivial
  | .scan _ => .isTrue trivial
  | .commit => .isTrue trivial
  | .rollback => .isTrue trivial

def Server.turn (s : Server ι ρ) (i : ι) (op : Op ρ) (h : s.Free i op) : op.Ans × Server ι ρ :=
  ((Session.handle op (s.session i)).1,{
    db := (Session.handle op (s.session i)).2.db
    own := Function.update s.own i (Session.handle op (s.session i)).2.own
    exclusive := by
      intro a b k ha hb
      by_cases hai : a = i
      · by_cases hbi : b = i
        · rw [hai,hbi]
        subst hai
        rw [Function.update_self] at ha
        rw [Function.update_of_ne hbi] at hb
        exact h.own ha hb
      · rw [Function.update_of_ne hai] at ha
        by_cases hbi : b = i
        · subst hbi
          rw [Function.update_self] at hb
          exact (h.own hb ha).symm
        · rw [Function.update_of_ne hbi] at hb
          exact s.exclusive a b k ha hb
    log := Function.update s.log i (⟨op,(Session.handle op (s.session i)).1⟩ :: s.log i) })

/-- A statement that fails. The end of a transaction ends it all the same. -/
def Server.failed (s : Server ι ρ) (i : ι) (op : Op ρ) (f : Fault) : op.Ans × Server ι ρ :=
  (.error f,{
    db := s.db
    own := if op.ends then Function.update s.own i ∅ else s.own
    exclusive := by
      intro a b k ha hb
      split at ha
      · rename_i he
        rw [if_pos he] at hb
        by_cases hai : a = i
        · subst hai
          rw [Function.update_self] at ha
          exact absurd ha (AList.notMem_empty k)
        by_cases hbi : b = i
        · subst hbi
          rw [Function.update_self] at hb
          exact absurd hb (AList.notMem_empty k)
        · rw [Function.update_of_ne hai] at ha
          rw [Function.update_of_ne hbi] at hb
          exact s.exclusive a b k ha hb
      · rename_i he
        rw [if_neg he] at hb
        exact s.exclusive a b k ha hb
    log := Function.update s.log i (⟨op,.error f⟩ :: s.log i) })

def Server.gate [Fintype ι] : Gate (Op ρ) Op.Ans ι (Option Fault) (Server ι ρ)
  | i, some f, op, s => some (s.failed i op f)
  | i, none, op, s => if h : s.Free i op then some (s.turn i op h) else none

theorem Session.handle_ok (op : Op ρ) (s : Session ρ) : ∃ v, (Session.handle op s).1 = .ok v := by
  cases op with
  | select _ | scan _ | commit | rollback => exact ⟨_,rfl⟩
  | write k f =>
    unfold handle
    dsimp only
    split
    · exact ⟨_,rfl⟩
    · exact ⟨_,rfl⟩

theorem Server.gate_error [Fintype ι] {c : Option Fault} {op : Op ρ} {f : Fault}
    (h : Server.gate i c op s = some (.error f,s')) :
    s'.db = s.db ∧ (s'.own = if op.ends then Function.update s.own i ∅ else s.own) ∧
      s.Logged s' i op (.error f) := by
  cases c with
  | some f' =>
    cases h
    exact ⟨rfl,rfl,logged_update rfl⟩
  | none =>
    by_cases hfree : s.Free i op
    · have ht := Option.some.inj ((dif_pos hfree).symm.trans h)
      obtain ⟨v,hv⟩ := Session.handle_ok op (s.session i)
      have he : (Session.handle op (s.session i)).1 = .error f := congrArg Prod.fst ht
      cases hv.symm.trans he
    · cases (dif_neg hfree).symm.trans h

theorem Server.gate_ok [Fintype ι] {c : Option Fault} {op : Op ρ} {v : op.Value}
    (h : Server.gate i c op s = some (.ok v,s')) :
    s.Free i op ∧ (Session.handle op (s.session i)).1 = .ok v ∧
      s'.db = (Session.handle op (s.session i)).2.db ∧
      s'.own = Function.update s.own i (Session.handle op (s.session i)).2.own ∧
      s.Logged s' i op (.ok v) := by
  cases c with
  | some f' => cases h
  | none =>
    by_cases hfree : s.Free i op
    · have ht := Option.some.inj ((dif_pos hfree).symm.trans h)
      have hv : (Session.handle op (s.session i)).1 = .ok v := congrArg Prod.fst ht
      have hs : (s.turn i op hfree).2 = s' := congrArg Prod.snd ht
      refine ⟨hfree,hv,?_,?_,logged_update ?_⟩
      · rw [← hs]
        rfl
      · rw [← hs]
        rfl
      · rw [← hs,← hv]
        rfl
    · cases (dif_neg hfree).symm.trans h

theorem Session.handle_write_answer (k : κ) (f : Option (ρ k) → Option (Option (ρ k))) (s : Session ρ) :
    (Session.handle (.write k f) s).1 = .ok (s.get k) := by
  unfold handle
  dsimp only
  split
  · rfl
  · rfl

theorem Session.handle_write (k : κ) (f : Option (ρ k) → Option (Option (ρ k))) (s : Session ρ) :
    (Session.handle (.write k f) s).2.db = s.db ∧
      ((f (s.get k) = none ∧ (Session.handle (.write k f) s).2.own = s.own) ∨
        ∃ v, f (s.get k) = some v ∧ (Session.handle (.write k f) s).2.own = s.own.insert k v) := by
  unfold handle
  dsimp only
  split
  · rename_i h
    exact ⟨rfl,.inl ⟨h,rfl⟩⟩
  · rename_i v h
    exact ⟨rfl,.inr ⟨v,h,rfl⟩⟩

end Concurrent

end Sql
