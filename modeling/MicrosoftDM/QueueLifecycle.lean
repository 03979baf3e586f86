import MicrosoftDM.Lifecycle
import MicrosoftDM.SqlQueue

set_option autoImplicit false

namespace MicrosoftDM.Mdm

/-- A call on a command queue. `χ` is what the caller of `Prune` does not
determine: which of the old commands a limit spares. -/
inductive QueueOp (χ : Type) where
  | enqueue (dev : GoString) (cmd : Command) (time : Time)
  | deliverable (dev : GoString) (limit : Int)
  | markSent (dev : GoString) (ds : List Delivery)
  | storeResult (dev id : GoString) (r : Result)
  | cancel (dev : GoString) (ids : List GoString) (time : Time)
  | prune (before : Time) (limit : Int) (choice : χ)

def QueueOp.overwrites {χ : Type} : QueueOp χ → List (GoString × GoString)
  | .markSent dev ds => ds.map fun d => (dev,d.commandID)
  | .storeResult dev id _ => [(dev,id)]
  | .enqueue .. | .deliverable .. | .cancel .. | .prune .. => []

def QueueOp.IsPrune {χ : Type} : QueueOp χ → Prop
  | .prune .. => True
  | .enqueue .. | .deliverable .. | .markSent .. | .storeResult .. | .cancel .. => False

structure Outcome (β : Type) where
  state : State
  result : Option β
  completedAt : Time
  deriving DecidableEq

def QueueOp.SparesTerminal {χ β : Type} (outcome : GoString × GoString → Option (Outcome β))
    (o : QueueOp χ) : Prop :=
  ∀ k ∈ o.overwrites, ∀ e ∈ outcome k, e.state.terminal = false

instance {χ β : Type} (outcome : GoString × GoString → Option (Outcome β)) (o : QueueOp χ) :
    Decidable (o.SparesTerminal outcome) :=
  inferInstanceAs (Decidable (∀ k ∈ o.overwrites, ∀ e ∈ outcome k, e.state.terminal = false))

theorem QueueOp.SparesTerminal.ne {χ β : Type} {outcome : GoString × GoString → Option (Outcome β)}
    {o : QueueOp χ} (h : o.SparesTerminal outcome) {k : GoString × GoString} {e : Outcome β}
    (hk : outcome k = some e) (he : e.state.terminal = true) : ∀ k' ∈ o.overwrites, k' ≠ k := by
  intro k' hk' heq
  subst heq
  have := h k' hk' e hk
  rw [he] at this
  cases this

section Memory
variable {q q' : Queue} {dev d id : GoString} {qc : QueuedCommand}

def QueuedCommand.outcome (qc : QueuedCommand) : Outcome Result := ⟨qc.state,qc.result,qc.completedAt⟩

def Queue.outcome (q : Queue) (k : GoString × GoString) : Option (Outcome Result) :=
  (q.get k.1 k.2).map QueuedCommand.outcome

def Queue.apply (q : Queue) : QueueOp RangeOrder → Queue
  | .enqueue dev cmd time => (q.enqueue dev cmd time).2
  | .deliverable _ _ => q
  | .markSent dev ds => (q.markSent dev ds).2
  | .storeResult dev id r => (q.storeResult dev id r).2
  | .cancel dev ids time => q.cancel dev ids time
  | .prune before limit r => (q.prune before limit r).1

theorem Queue.get_grows (hg : q.Grows d q') (h : q.get dev id = some qc) :
    q'.get dev id = some qc := by
  unfold get at h ⊢
  by_cases hd : dev = d
  · subst hd
    obtain ⟨new,he,-⟩ := hg.own
    rw [he,List.find?_append,h]
    rfl
  · rw [hg.other dev hd]
    exact h

theorem Queue.get_modify (q : Queue) (dev id : GoString) (f : QueuedCommand → QueuedCommand)
    (hf : ∀ qc, (f qc).command = qc.command) (d : GoString) :
    (q.modify d f hf).get dev id = if dev = d then (q.get dev id).map f else q.get dev id := by
  unfold get
  split
  · rename_i hd
    subst hd
    rw [commands_modify_self]
    refine Lifecycle.find?_map_of_keeps (fun qc => ?_) _
    rw [QueuedCommand.id,hf]
    rfl
  · rename_i hd
    rw [q.commands_modify_ne f hf hd]

theorem Queue.get_modify_of_fixed {f : QueuedCommand → QueuedCommand}
    (hf : ∀ qc, (f qc).command = qc.command) (d : GoString) (h : q.get dev id = some qc)
    (hfix : dev = d → f qc = qc) : (q.modify d f hf).get dev id = some qc := by
  rw [q.get_modify dev id f hf d,h]
  split
  · rename_i hd
    rw [Option.map_some,hfix hd]
  · rfl

theorem Queue.id_of_get (h : q.get dev id = some qc) : qc.id = id := by
  have := List.find?_some h
  simpa using this

theorem Queue.get_markSent {ds : List Delivery} (h : q.get dev id = some qc)
    (hne : ∀ x ∈ ds, (d,x.commandID) ≠ (dev,id)) : (q.markSent d ds).2.get dev id = some qc := by
  induction ds generalizing q with
  | nil => exact h
  | cons x ds ih =>
    unfold markSent
    split
    · refine ih ?_ fun y hy => hne y (List.mem_cons_of_mem x hy)
      refine get_modify_of_fixed (QueuedCommand.command_markSent x) d h fun hd => ?_
      have hx : qc.id ≠ x.commandID := by
        intro he
        exact hne x List.mem_cons_self (by rw [← he,id_of_get h,hd])
      simp [QueuedCommand.markSent,hx]
    · exact h

theorem Queue.get_storeResult {r : Result} {i : GoString} (h : q.get dev id = some qc)
    (hne : (d,i) ≠ (dev,id)) : (q.storeResult d i r).2.get dev id = some qc := by
  unfold storeResult
  split
  · refine get_modify_of_fixed (QueuedCommand.command_storeResult i r) d h fun hd => ?_
    have hi : qc.id ≠ i := by
      intro he
      exact hne (by rw [← he,id_of_get h,hd])
    simp [QueuedCommand.storeResult,hi]
  · exact h

theorem Queue.get_cancel {ids : List GoString} {time : Time} (h : q.get dev id = some qc)
    (ht : qc.state.terminal = true) : (q.cancel d ids time).get dev id = some qc :=
  get_modify_of_fixed (QueuedCommand.command_cancel ids time) d h fun _ => by
    simp [QueuedCommand.cancel,ht]

theorem Queue.get_prune {before : Time} {limit : Int} (r : RangeOrder) (h : q.get dev id = some qc) :
    (q.prune before limit r).1.get dev id = some qc ∨ (q.prune before limit r).1.get dev id = none := by
  refine Lifecycle.find?_sublist_cases (q.prune_sublist before limit r dev) ?_
  intro x hx hid
  refine q.eq_of_id hx (List.mem_of_find?_eq_some h) ?_
  rw [id_of_get h]
  simpa using hid

theorem Queue.apply_outcome {o : QueueOp RangeOrder} {k : GoString × GoString} {e : Outcome Result}
    (ho : o.SparesTerminal q.outcome) (h : q.outcome k = some e) (he : e.state.terminal = true) :
    (q.apply o).outcome k = some e ∨ o.IsPrune ∧ (q.apply o).outcome k = none := by
  have hne := ho.ne h he
  obtain ⟨qc,hqc,rfl⟩ := Option.map_eq_some_iff.mp h
  refine Lifecycle.map_kept ?_
  cases o with
  | enqueue d cmd time => exact .inl (get_grows (q.enqueue_grows d cmd time) hqc)
  | deliverable d limit => exact .inl hqc
  | markSent d ds => exact .inl (get_markSent hqc fun x hx => hne _ (List.mem_map_of_mem hx))
  | storeResult d i r => exact .inl (get_storeResult hqc (hne _ List.mem_cons_self))
  | cancel d ids time => exact .inl (get_cancel hqc he)
  | prune before limit r => exact (get_prune r hqc).imp_right (And.intro trivial)

end Memory

end MicrosoftDM.Mdm

namespace MicrosoftDM.Sqlstore
open MicrosoftDM.Mdm (QueueOp Outcome QueuedCommand Delivery Result)

section Sql
variable {q q' : Queue} {dev d id : GoString} {k : GoString × GoString} {r : Row}

def Row.outcome (r : Row) : Outcome GoString := ⟨r.state,r.result,r.completedAt⟩

def Queue.outcome (q : Queue) (k : GoString × GoString) : Option (Outcome GoString) :=
  (q.row k.1 k.2).map Row.outcome

def Queue.apply (codec : Codec) (q : Queue) : QueueOp (Row → Nat) → Queue
  | .enqueue dev cmd time => (q.enqueue dev cmd time).2
  | .deliverable _ _ => q
  | .markSent dev ds => (q.markSent dev ds).2
  | .storeResult dev id r => (q.storeResult codec dev id r).2
  | .cancel dev ids time => q.cancel dev ids time
  | .prune before limit tie => (q.prune before limit tie).1

theorem Queue.key_of_row (h : q.row dev id = some r) : r.key = (dev,id) := by
  have := List.find?_some h
  simpa using this

theorem Queue.row_insert {new : Row} (hnew : new.key ∉ q.rows.map Row.key)
    (h : q.row dev id = some r) : (q.insert new hnew).row dev id = some r := by
  unfold row at h ⊢
  rw [insert,List.find?_append,h]
  rfl

theorem Queue.row_enqueue {cmd : Mdm.Command} {time : Time} (h : q.row dev id = some r) :
    (q.enqueue d cmd time).2.row dev id = some r := by
  unfold enqueue
  split
  · exact h
  split
  · exact h
  split
  · exact h
  split
  · exact row_insert (notMem_keys (q.assignedID_fresh d)) h
  split
  · exact h
  · rename_i hid
    exact row_insert (notMem_keys hid) h

theorem Queue.row_update {f : Row → Row} (hf : ∀ r, (f r).key = r.key) (h : q.row dev id = some r)
    (hfix : f r = r) : (q.update f hf).row dev id = some r := by
  unfold row at h ⊢
  rw [update,Lifecycle.find?_map_of_keeps (fun x => by rw [hf x]),h,Option.map_some,hfix]

theorem Queue.row_updateAt {f : Row → Row} (hf : ∀ r, (f r).key = r.key) {i : GoString}
    (h : q.row dev id = some r) (hne : (d,i) ≠ (dev,id)) :
    (q.update (Row.updateAt d i f) (Row.key_updateAt hf)).row dev id = some r := by
  refine row_update (Row.key_updateAt hf) h (if_neg ?_)
  rw [key_of_row h]
  exact hne.symm

theorem Queue.row_markAll {ds : List Delivery} (h : q.row dev id = some r)
    (hne : ∀ x ∈ ds, (d,x.commandID) ≠ (dev,id)) (hm : q.markAll d ds = some q') :
    q'.row dev id = some r := by
  induction ds generalizing q with
  | nil =>
    cases hm
    exact h
  | cons x ds ih =>
    unfold markAll at hm
    split at hm
    · exact ih (row_updateAt (Row.key_send x) h (hne x List.mem_cons_self))
        (fun y hy => hne y (List.mem_cons_of_mem x hy)) hm
    · cases hm

theorem Queue.row_markSent {ds : List Delivery} (h : q.row dev id = some r)
    (hne : ∀ x ∈ ds, (d,x.commandID) ≠ (dev,id)) : (q.markSent d ds).2.row dev id = some r := by
  unfold markSent
  split
  · rename_i hm
    exact row_markAll h hne hm
  · exact h

theorem Queue.row_storeResult (codec : Codec) {i : GoString} {res : Result}
    (h : q.row dev id = some r) (hne : (d,i) ≠ (dev,id)) :
    (q.storeResult codec d i res).2.row dev id = some r := by
  unfold storeResult
  split
  · exact h
  rename_i blob _
  split
  · exact row_updateAt (Row.key_complete blob res) h hne
  · exact h

theorem Row.cancel_of_terminal (ht : r.state.terminal = true) (time : Time) : r.cancel time = r := by
  unfold cancel
  refine if_neg ?_
  rintro (hs | hs)
  · rw [hs] at ht
    cases ht
  · rw [hs] at ht
    cases ht

theorem Queue.row_cancel {ids : List GoString} {time : Time} (h : q.row dev id = some r)
    (ht : r.state.terminal = true) : (q.cancel d ids time).row dev id = some r := by
  unfold cancel
  induction ids generalizing q with
  | nil => exact h
  | cons i ids ih =>
    refine ih (row_update (Row.key_updateAt (Row.key_cancel time)) h ?_)
    unfold Row.updateAt
    split
    · exact Row.cancel_of_terminal ht time
    · rfl

theorem Queue.row_prune {before : Time} {limit : Int} (tie : Row → Nat) (h : q.row dev id = some r) :
    (q.prune before limit tie).1.row dev id = some r ∨ (q.prune before limit tie).1.row dev id = none := by
  refine Lifecycle.find?_sublist_cases List.filter_sublist ?_
  intro x hx hk
  refine q.eq_of_key hx (List.mem_of_find?_eq_some h) ?_
  rw [key_of_row h]
  simpa using hk

theorem Queue.apply_outcome (codec : Codec) {o : QueueOp (Row → Nat)} {e : Outcome GoString}
    (ho : o.SparesTerminal q.outcome) (h : q.outcome k = some e) (he : e.state.terminal = true) :
    (q.apply codec o).outcome k = some e ∨ o.IsPrune ∧ (q.apply codec o).outcome k = none := by
  have hne := ho.ne h he
  obtain ⟨r,hr,rfl⟩ := Option.map_eq_some_iff.mp h
  refine Lifecycle.map_kept ?_
  cases o with
  | enqueue d cmd time => exact .inl (row_enqueue hr)
  | deliverable d limit => exact .inl hr
  | markSent d ds => exact .inl (row_markSent hr fun x hx => hne _ (List.mem_map_of_mem hx))
  | storeResult d i res => exact .inl (row_storeResult codec hr (hne _ List.mem_cons_self))
  | cancel d ids time => exact .inl (row_cancel hr he)
  | prune before limit tie => exact (row_prune tie hr).imp_right (And.intro trivial)

theorem Queue.mem_deliverableRows {limit : Int} (h : r ∈ q.deliverableRows dev limit) :
    r.state.terminal = false := by
  have hf : r ∈ q.rows.filter fun r => r.deviceID == dev && (r.state == .pending || r.state == .sent) := by
    refine mem_bySeq.mp ?_
    unfold deliverableRows at h
    dsimp only at h
    split at h
    · exact List.mem_of_mem_take h
    · exact h
  have hs := (List.mem_filter.mp hf).2
  cases hst : r.state <;> simp_all [Mdm.State.terminal]

theorem Codec.scanCommand_state {codec : Codec} {qc : QueuedCommand}
    (h : codec.scanCommand r = .ok qc) : qc.state = r.state := by
  unfold scanCommand at h
  split at h
  · cases h
  dsimp only at h
  split at h
  · cases h
    rfl
  · cases h
    rfl
  split at h
  · cases h
  · cases h
    rfl

theorem Queue.deliverable_not_terminal {codec : Codec} {limit : Int} {out : List QueuedCommand}
    (h : q.deliverable codec dev limit = .ok out) : ∀ qc ∈ out, qc.state.terminal = false := by
  unfold deliverable at h
  have hrows : ∀ r ∈ q.deliverableRows dev limit, r.state.terminal = false :=
    fun r hr => mem_deliverableRows hr
  generalize q.deliverableRows dev limit = rows at h hrows
  induction rows generalizing out with
  | nil =>
    cases h
    exact fun qc hqc => (List.not_mem_nil hqc).elim
  | cons r rows ih =>
    rw [List.mapM_cons] at h
    cases hr : codec.scanCommand r with
    | error e =>
      rw [hr] at h
      cases h
    | ok qc =>
      rw [hr] at h
      cases hm : rows.mapM codec.scanCommand with
      | error e =>
        rw [hm] at h
        cases h
      | ok rest =>
        rw [hm] at h
        cases h
        intro x hx
        rcases List.mem_cons.mp hx with rfl | hx
        · rw [Codec.scanCommand_state hr]
          exact hrows r List.mem_cons_self
        · exact ih hm (fun y hy => hrows y (List.mem_cons_of_mem r hy)) x hx

end Sql

end MicrosoftDM.Sqlstore

namespace MicrosoftDM.Mdm
open Lifecycle (Allowed Removed)

/-- Calls that overwrite no terminal command keep the state, the result and the time of every
terminal command until `Prune` deletes it; and `Deliverable` never returns one. -/
theorem terminal_until_pruned (codec : Sqlstore.Codec) :
    (∀ (q : Queue) (ops : List (QueueOp RangeOrder)),
      Allowed Queue.apply (fun q o => o.SparesTerminal q.outcome) q ops →
      ∀ k e, q.outcome k = some e → e.state.terminal = true →
        (ops.foldl Queue.apply q).outcome k = some e ∨
        Removed Queue.apply Queue.outcome QueueOp.IsPrune q ops k e) ∧
    (∀ (q : Sqlstore.Queue) (ops : List (QueueOp (Sqlstore.Row → Nat))),
      Allowed (Sqlstore.Queue.apply codec) (fun q o => o.SparesTerminal q.outcome) q ops →
      ∀ k e, q.outcome k = some e → e.state.terminal = true →
        (ops.foldl (Sqlstore.Queue.apply codec) q).outcome k = some e ∨
        Removed (Sqlstore.Queue.apply codec) Sqlstore.Queue.outcome QueueOp.IsPrune q ops k e) ∧
    (∀ (q : Queue) (dev : GoString) (limit : Int),
      ∀ qc ∈ q.deliverable dev limit, qc.state.terminal = false) ∧
    (∀ (q : Sqlstore.Queue) (dev : GoString) (limit : Int) (out : List QueuedCommand),
      q.deliverable codec dev limit = .ok out → ∀ qc ∈ out, qc.state.terminal = false) := by
  refine ⟨?_,?_,?_,?_⟩
  · intro q ops hok k e h he
    exact Lifecycle.kept_or_removed Queue.apply Queue.outcome
      (fun q o k e ho h he => Queue.apply_outcome ho h he) hok h he
  · intro q ops hok k e h he
    exact Lifecycle.kept_or_removed (Sqlstore.Queue.apply codec) Sqlstore.Queue.outcome
      (fun q o k e ho h he => Sqlstore.Queue.apply_outcome codec ho h he) hok h he
  · intro q dev limit qc hqc
    have hd := (Queue.mem_deliverable hqc).2
    cases hs : qc.state <;> simp_all [QueuedCommand.deliverable,State.terminal]
  · intro q dev limit out h
    exact Sqlstore.Queue.deliverable_not_terminal h

namespace Sample

def policy : Command where
  id := "p"
  scope := .device
  body := .leaf .replace { items := [{ target := "./Vendor/Policy", data := some { value := "1" } }] }

def answer : Result where
  status := 200
  originalError := []
  items := []
  children := []
  receivedAt := 7

def withdraw {χ : Type} : List (QueueOp χ) :=
  [.enqueue "dev" policy 1,.markSent "dev" [⟨"p","2",2⟩],.cancel "dev" ["p"] 3]

def withdrawn : Queue := withdraw.foldl Queue.apply .empty

def codec : Sqlstore.Codec := ⟨fun _ => none,fun _ => some "r",fun _ => some answer,.matched⟩

def withdrawnRow : Sqlstore.Queue := withdraw.foldl (Sqlstore.Queue.apply codec) .empty

end Sample

theorem terminal_until_pruned_withdrawn :
    Sample.withdrawn.outcome ("dev","p") = some ⟨.cancelled,none,3⟩ ∧
    ((Sample.withdrawn.apply (.cancel "dev" ["p"] 4)).outcome ("dev","p") =
        some ⟨.cancelled,none,3⟩ ∨
      Removed Queue.apply Queue.outcome QueueOp.IsPrune Sample.withdrawn
        [.cancel "dev" ["p"] 4] ("dev","p") ⟨.cancelled,none,3⟩) := by
  have h : Sample.withdrawn.outcome ("dev","p") = some ⟨.cancelled,none,3⟩ := by decide +kernel
  have hok : Allowed Queue.apply (fun q o => o.SparesTerminal q.outcome) Sample.withdrawn
      [.cancel "dev" ["p"] 4] := by decide +kernel
  exact ⟨h,(terminal_until_pruned Sample.codec).1 _ _ hok _ _ h rfl⟩

/-- A Status that arrives after the cancel makes the command acknowledged, and
a second delivery makes it deliverable again. -/
theorem cancelled_then_overwritten :
    Sample.withdrawn.outcome ("dev","p") = some ⟨.cancelled,none,3⟩ ∧
    (Sample.withdrawn.apply (.storeResult "dev" "p" Sample.answer)).outcome ("dev","p") =
      some ⟨.acknowledged,some Sample.answer,7⟩ ∧
    ((Sample.withdrawn.apply (.markSent "dev" [⟨"p","3",5⟩])).deliverable "dev" 0).map
      QueuedCommand.id = ["p"] ∧
    Sample.withdrawnRow.outcome ("dev","p") = some ⟨.cancelled,none,Sqlstore.nanos 3⟩ ∧
    (Sample.withdrawnRow.apply Sample.codec (.storeResult "dev" "p" Sample.answer)).outcome
      ("dev","p") = some ⟨.acknowledged,some "r",Sqlstore.nanos 7⟩ ∧
    ((Sample.withdrawnRow.apply Sample.codec (.markSent "dev" [⟨"p","3",5⟩])).deliverableRows
      "dev" 0).map Sqlstore.Row.id = ["p"] := by
  decide +kernel

end MicrosoftDM.Mdm
