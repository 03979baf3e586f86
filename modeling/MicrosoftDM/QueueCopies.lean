import Mathlib.Data.List.Forall2
import MicrosoftDM.QueueNumbers

set_option autoImplicit false

namespace MicrosoftDM.Mdm

section Memory
variable {q : Queue} {dev d : GoString}

theorem Queue.ids_modify (q : Queue) (dev : GoString) (f : QueuedCommand → QueuedCommand)
    (hf : ∀ qc, (f qc).command = qc.command) :
    ((q.modify dev f hf).commands dev).map QueuedCommand.id = (q.commands dev).map QueuedCommand.id := by
  rw [commands_modify_self,List.map_map]
  exact List.map_congr_left fun qc _ => congrArg Command.id (hf qc)

theorem QueuedCommand.command_markAll (ds : List Delivery) (qc : QueuedCommand) :
    (ds.foldl QueuedCommand.markSent qc).command = qc.command := by
  induction ds generalizing qc with
  | nil => rfl
  | cons d ds ih => exact (ih _).trans (QueuedCommand.command_markSent d qc)

theorem Queue.markSent_held {ds : List Delivery}
    (h : ∀ x ∈ ds, x.commandID ∈ (q.commands dev).map QueuedCommand.id) : (q.markSent dev ds).1 = .ok () := by
  induction ds generalizing q with
  | nil => rfl
  | cons x ds ih =>
    unfold markSent
    rw [if_pos (h x List.mem_cons_self)]
    refine ih fun y hy => ?_
    rw [ids_modify]
    exact h y (List.mem_cons_of_mem _ hy)

theorem Queue.nextID_markSent (q : Queue) (dev : GoString) (ds : List Delivery) :
    (q.markSent dev ds).2.nextID = q.nextID := by
  induction ds generalizing q with
  | nil => rfl
  | cons x ds ih =>
    unfold markSent
    split
    · exact ih _
    · rfl

theorem pruneLoop_unlimited (before : Time) (n : Nat) (cs : List QueuedCommand) :
    pruneLoop before 0 n cs = (cs.filter fun qc => !qc.prunable before,
      n+(cs.filter fun qc => qc.prunable before).length) := by
  induction cs generalizing n with
  | nil => rfl
  | cons qc cs ih =>
    unfold pruneLoop
    cases hp : qc.prunable before with
    | true =>
      rw [if_pos ⟨rfl,.inl (Int.le_refl 0)⟩,ih,List.filter_cons_of_neg (by rw [hp]; decide),
        List.filter_cons_of_pos (p := fun qc => QueuedCommand.prunable qc before) hp,List.length_cons,
        Nat.add_assoc,Nat.add_comm 1]
    | false =>
      rw [if_neg fun h => Bool.false_ne_true h.1,ih,List.filter_cons_of_pos (by rw [hp]; rfl),
        List.filter_cons_of_neg (by rw [hp]; exact Bool.false_ne_true)]

theorem Queue.commands_pruneDevice (before : Time) (n : Nat) :
    (q.pruneDevice before 0 n dev).1.commands d =
      if d = dev then (q.commands d).filter fun qc => !qc.prunable before else q.commands d := by
  unfold pruneDevice
  split
  · rename_i hd
    subst hd
    rw [commands_setCommands_self,pruneLoop_unlimited]
  · rename_i hd
    rw [commands_setCommands_ne _ _ _ _ hd]

theorem Queue.commands_pruneDevices (before : Time) (n : Nat) (devs : List GoString) :
    (q.pruneDevices before 0 n devs).1.commands d =
      if d ∈ devs then (q.commands d).filter fun qc => !qc.prunable before else q.commands d := by
  induction devs generalizing q n with
  | nil => rfl
  | cons dev devs ih =>
    unfold pruneDevices
    dsimp only
    rw [ih,commands_pruneDevice]
    by_cases hd : d = dev
    · subst hd
      rw [if_pos rfl,if_pos List.mem_cons_self,List.filter_filter]
      simp only [Bool.and_self,ite_self]
    · rw [if_neg hd]
      simp only [List.mem_cons,hd,false_or]

theorem Queue.pruneDevices_count (before : Time) (n : Nat) {devs : List GoString} (hnd : devs.Nodup) :
    (q.pruneDevices before 0 n devs).2 =
      n+(devs.map fun d => ((q.commands d).filter fun qc => qc.prunable before).length).sum := by
  induction devs generalizing q n with
  | nil => rfl
  | cons dev devs ih =>
    obtain ⟨hdev,hnd⟩ := List.nodup_cons.mp hnd
    unfold pruneDevices
    dsimp only
    rw [ih _ hnd,List.map_cons,List.sum_cons]
    have hcount : (q.pruneDevice before 0 n dev).2 =
        n+((q.commands dev).filter fun qc => qc.prunable before).length := by
      show (pruneLoop before 0 n (q.commands dev)).2 = _
      rw [pruneLoop_unlimited]
    have hrest : (devs.map fun d => (((q.pruneDevice before 0 n dev).1.commands d).filter
        fun qc => qc.prunable before).length) =
        devs.map fun d => ((q.commands d).filter fun qc => qc.prunable before).length := by
      refine List.map_congr_left fun d hd => ?_
      rw [commands_pruneDevice,if_neg fun he : d = dev => hdev (he ▸ hd)]
    rw [hcount,hrest,Nat.add_assoc]

theorem Queue.nextID_pruneDevices (before : Time) (n : Nat) (devs : List GoString) :
    (q.pruneDevices before 0 n devs).1.nextID = q.nextID := by
  induction devs generalizing q n with
  | nil => rfl
  | cons dev devs ih => exact ih _

theorem Queue.commands_of_notMem (h : dev ∉ q.byDev.keys) : q.commands dev = [] := by
  unfold commands
  rw [AList.lookup_eq_none.mpr h]
  rfl

end Memory

end MicrosoftDM.Mdm

namespace MicrosoftDM.Sqlstore
open Mdm (QueuedCommand Result Delivery)

def Codec.normal (codec : Codec) (body : Syncml.Command) : Option Syncml.Command :=
  match Syncml.encodeCommand [] body with
  | .ok raw => codec.decodeCommand raw
  | .error _ => none

def Codec.Stores (codec : Codec) (r : Result) : Prop :=
  match codec.marshal r with
  | none => False
  | some blob => blob ≠ [] ∧ codec.unmarshal blob = some r

instance (codec : Codec) (r : Result) : Decidable (codec.Stores r) :=
  match h : codec.marshal r with
  | none => .isFalse (by rw [Codec.Stores,h]; exact id)
  | some blob => decidable_of_iff (blob ≠ [] ∧ codec.unmarshal blob = some r) (by rw [Codec.Stores,h])

/-- An ID that a queue may have made up. -/
def Generated (id : GoString) : Prop := utf8 "cmd-" <+: id

instance (id : GoString) : Decidable (Generated id) := inferInstanceAs (Decidable (_ <+: id))

def generatedID (n : Nat) : GoString := utf8 "cmd-" ++ itoa n

theorem generated_generatedID (n : Nat) : Generated (generatedID n) := List.prefix_append _ _

theorem generatedID_inj {m n : Nat} : generatedID m = generatedID n ↔ m = n := by
  refine ⟨fun h => ?_,fun h => h ▸ rfl⟩
  exact Int.ofNat.inj (itoa_injective (List.append_cancel_left h))

theorem generatedID_ne_nil (n : Nat) : generatedID n ≠ [] := by
  intro h
  exact absurd (List.append_eq_nil_iff.mp h).1 (by decide)

def HoldsTime (t : Time) (n : Int) : Prop := Storable t ∧ n = nanos t

theorem holdsTime_zero : HoldsTime 0 0 := ⟨.inl rfl,rfl⟩

theorem HoldsTime.read {t : Time} {n : Int} (h : HoldsTime t n) : fromNanos n = t := by
  rw [h.2]
  exact fromNanos_nanos h.1

inductive HoldsResult (codec : Codec) : Option Result → Option GoString → Prop where
  | none : HoldsResult codec none none
  | some {r : Result} {blob : GoString} (hblob : blob ≠ []) (h : codec.unmarshal blob = some r) :
      HoldsResult codec (some r) (some blob)

structure Copy (codec : Codec) (qc : QueuedCommand) (r : Row) : Prop where
  seq : r.seq = qc.seq
  scope : r.scope = qc.command.scope
  internal : r.internal = qc.command.internal
  state : r.state = qc.state
  encoded : Syncml.encodeCommand [] qc.command.body = .ok r.body
  decodes : (codec.decodeCommand r.body).isSome = true
  enqueuedAt : HoldsTime qc.enqueuedAt r.enqueuedAt
  lastSentAt : HoldsTime qc.lastSentAt r.lastSentAt
  sentMsgID : r.sentMsgID = qc.sentMsgID
  attempts : r.attempts = qc.attempts
  completedAt : HoldsTime qc.completedAt r.completedAt
  result : HoldsResult codec qc.result r.result

section Copies
variable {codec : Codec} {qc : QueuedCommand} {r : Row}

/-- `b` is `a`, with its own ID and with the body written and parsed. -/
structure ReadBack (codec : Codec) (a b : QueuedCommand) : Prop where
  body : codec.normal a.command.body = some b.command.body
  rest : b = { a with command := { a.command with id := b.command.id, body := b.command.body } }

theorem Copy.scan (h : Copy codec qc r) : ∃ b, codec.scanCommand r = .ok b ∧ b.id = r.id ∧ ReadBack codec qc b := by
  obtain ⟨body,hbody⟩ := Option.isSome_iff_exists.mp h.decodes
  have hnormal : codec.normal qc.command.body = some body := by
    unfold Codec.normal
    rw [h.encoded]
    exact hbody
  unfold Codec.scanCommand
  rw [hbody,h.seq,h.scope,h.internal,h.state,h.enqueuedAt.read,h.lastSentAt.read,h.completedAt.read,
    h.sentMsgID,h.attempts]
  have hresult := h.result
  obtain ⟨cmd,seq,state,enqueuedAt,lastSentAt,sentMsgID,attempts,result,completedAt⟩ := qc
  generalize r.result = stored at hresult
  cases hresult with
  | none => exact ⟨_,rfl,rfl,hnormal,rfl⟩
  | @some res blob hblob hun =>
    cases blob with
    | nil => exact absurd rfl hblob
    | cons c blob =>
      dsimp only
      rw [hun]
      exact ⟨_,rfl,rfl,hnormal,rfl⟩

theorem Copy.new {dev id : GoString} {cmd : Mdm.Command} {body : GoString} {seq : Nat} {time : Time}
    (hbody : Syncml.encodeCommand [] cmd.body = .ok body) (hdec : (codec.decodeCommand body).isSome = true)
    (ht : Storable time) {id' : GoString} :
    Copy codec { command := { cmd with id := id' }, seq := seq, state := .pending, enqueuedAt := time }
      { deviceID := dev, id := id, seq := seq, scope := cmd.scope, internal := cmd.internal, body := body,
        enqueuedAt := nanos time } where
  seq := rfl
  scope := rfl
  internal := rfl
  state := rfl
  encoded := hbody
  decodes := hdec
  enqueuedAt := ⟨ht,rfl⟩
  lastSentAt := holdsTime_zero
  sentMsgID := rfl
  attempts := rfl
  completedAt := holdsTime_zero
  result := .none

theorem Copy.send (h : Copy codec qc r) {d : Delivery} (ht : Storable d.time) {d' : Delivery}
    (hmsg : d'.msgID = d.msgID) (htime : d'.time = d.time) :
    Copy codec { qc with state := .sent, lastSentAt := d.time, sentMsgID := d.msgID,
                         attempts := qc.attempts+1 } (r.send d') :=
  { h with
    state := rfl
    lastSentAt := ⟨ht,by rw [← htime]; rfl⟩
    sentMsgID := hmsg
    attempts := congrArg (·+1) h.attempts }

theorem Copy.complete (h : Copy codec qc r) {res : Result} {blob : GoString} (ht : Storable res.receivedAt)
    (hblob : blob ≠ []) (hun : codec.unmarshal blob = some res) :
    Copy codec { qc with
        result := some res
        completedAt := res.receivedAt
        state := if Syncml.StatusCode.success res.status then .acknowledged else .failed }
      (r.complete blob res) :=
  { h with
    state := rfl
    completedAt := ⟨ht,rfl⟩
    result := .some hblob hun }

theorem Copy.cancelled (h : Copy codec qc r) {time : Time} (ht : Storable time) :
    Copy codec { qc with state := .cancelled, completedAt := time }
      { r with state := .cancelled, completedAt := nanos time } :=
  { h with
    state := rfl
    completedAt := ⟨ht,rfl⟩ }

theorem Copy.deliverable (h : Copy codec qc r) :
    (r.state == .pending || r.state == .sent) = qc.deliverable := by
  unfold QueuedCommand.deliverable
  rw [h.state]

theorem Copy.prunable (h : Copy codec qc r) {before : Time} (hb : Storable before) :
    r.prunable before = qc.prunable before := by
  obtain ⟨hstored,hn⟩ := h.completedAt
  have hzero : (0 < r.completedAt) ↔ qc.completedAt ≠ 0 := by
    have hlt := fromNanos_inj (Int.le_refl 0) (nanos_nonneg hstored)
    rw [fromNanos_nanos hstored] at hlt
    have hnn := nanos_nonneg hstored
    rw [hn]
    refine ⟨fun hpos he => ?_,fun hne => ?_⟩
    · have := hlt.mp he.symm
      omega
    · refine lt_of_le_of_ne hnn fun he => hne (hlt.mpr he).symm
  have hlt : (r.completedAt < nanos before) ↔ qc.completedAt < before := by
    have hiff := fromNanos_lt (nanos_nonneg hstored) (nanos_nonneg hb)
    rw [fromNanos_nanos hstored,fromNanos_nanos hb] at hiff
    rw [hn]
    exact hiff.symm
  unfold Row.prunable QueuedCommand.prunable
  rw [h.state,decide_eq_decide.mpr hzero,decide_eq_decide.mpr hlt]

end Copies

/-- A name that the caller has given, or the two that the queues have made up. -/
inductive SameID (nextID seq : Nat) : GoString → GoString → Prop where
  | named {id : GoString} (hne : id ≠ []) (h : ¬Generated id) : SameID nextID seq id id
  | generated {n : Nat} (h : n ≤ nextID) : SameID nextID seq (generatedID n) (generatedID seq)

section IDs
variable {nextID seq : Nat} {a b id : GoString}

theorem SameID.mono (h : SameID nextID seq a b) {m : Nat} (hm : nextID ≤ m) : SameID m seq a b := by
  cases h with
  | named hne hid => exact .named hne hid
  | generated hn => exact .generated (le_trans hn hm)

theorem SameID.ne_nil (h : SameID nextID seq a b) : a ≠ [] ∧ b ≠ [] := by
  cases h with
  | named hne _ => exact ⟨hne,hne⟩
  | generated _ => exact ⟨generatedID_ne_nil _,generatedID_ne_nil _⟩

theorem SameID.text (h : SameID nextID seq a b) : a = b ∨ Generated a ∧ Generated b := by
  cases h with
  | named => exact .inl rfl
  | generated => exact .inr ⟨generated_generatedID _,generated_generatedID _⟩

theorem SameID.eq_iff (h : SameID nextID seq a b) (hid : ¬Generated id) : a = id ↔ b = id := by
  cases h with
  | named => exact Iff.rfl
  | generated =>
    refine ⟨fun he => ?_,fun he => ?_⟩
    · exact absurd (he ▸ generated_generatedID _) hid
    · exact absurd (he ▸ generated_generatedID _) hid

theorem SameID.ne_generated (h : SameID nextID seq a b) {m s : Nat} (hm : nextID < m) (hs : seq < s) :
    a ≠ generatedID m ∧ b ≠ generatedID s := by
  cases h with
  | named _ hid =>
    exact ⟨fun he => hid (he ▸ generated_generatedID _),fun he => hid (he ▸ generated_generatedID _)⟩
  | generated hn =>
    refine ⟨fun he => ?_,fun he => ?_⟩
    · have := generatedID_inj.mp he
      omega
    · have := generatedID_inj.mp he
      omega

end IDs

section Lists
variable {α β γ : Type} {R : α → β → Prop} {xs : List α} {ys : List β}

theorem forall₂_mem (h : List.Forall₂ R xs ys) :
    List.Forall₂ (fun x y => x ∈ xs ∧ y ∈ ys ∧ R x y) xs ys := by
  induction h with
  | nil => exact .nil
  | cons hxy _ ih =>
    refine .cons ⟨List.mem_cons_self,List.mem_cons_self,hxy⟩ (ih.imp fun x y hm => ?_)
    exact ⟨List.mem_cons_of_mem _ hm.1,List.mem_cons_of_mem _ hm.2.1,hm.2.2⟩

theorem forall₂_map {α' β' : Type} {S : α' → β' → Prop} {f : α → α'} {g : β → β'} (h : List.Forall₂ R xs ys)
    (hfg : ∀ x y, R x y → S (f x) (g y)) : List.Forall₂ S (xs.map f) (ys.map g) :=
  List.rel_map (fun x y hxy => hfg x y hxy) h

theorem forall₂_filter {p : α → Bool} {q : β → Bool} (h : List.Forall₂ R xs ys)
    (hpq : ∀ x y, R x y → p x = q y) : List.Forall₂ R (xs.filter p) (ys.filter q) :=
  List.rel_filter (fun x y hxy => Bool.eq_iff_iff.mp (hpq x y hxy)) h

theorem forall₂_find? {p : α → Bool} {q : β → Bool} (h : List.Forall₂ R xs ys)
    (hpq : ∀ x y, R x y → p x = q y) :
    (xs.find? p = none ∧ ys.find? q = none) ∨ ∃ x y, xs.find? p = some x ∧ ys.find? q = some y ∧ R x y := by
  induction h with
  | nil => exact .inl ⟨rfl,rfl⟩
  | @cons x y xs ys hxy _ ih =>
    cases hp : p x with
    | true =>
      rw [List.find?_cons_of_pos hp,List.find?_cons_of_pos ((hpq x y hxy).symm.trans hp)]
      exact .inr ⟨x,y,rfl,rfl,hxy⟩
    | false =>
      rw [List.find?_cons_of_neg (by rw [hp]; exact Bool.false_ne_true),
        List.find?_cons_of_neg (by rw [← hpq x y hxy,hp]; exact Bool.false_ne_true)]
      exact ih

theorem forall₂_any {p : α → Bool} {q : β → Bool} (h : List.Forall₂ R xs ys)
    (hpq : ∀ x y, R x y → p x = q y) : xs.any p = ys.any q := by
  induction h with
  | nil => rfl
  | cons hxy _ ih => rw [List.any_cons,List.any_cons,hpq _ _ hxy,ih]

theorem forall₂_mapM {ε : Type} {f : β → Except ε γ} {S : α → γ → Prop} (h : List.Forall₂ R xs ys)
    (hf : ∀ x y, R x y → ∃ z, f y = .ok z ∧ S x z) : ∃ zs, ys.mapM f = .ok zs ∧ List.Forall₂ S xs zs := by
  induction h with
  | nil => exact ⟨[],rfl,.nil⟩
  | cons hxy _ ih =>
    obtain ⟨z,hz,hs⟩ := hf _ _ hxy
    obtain ⟨zs,hzs,hall⟩ := ih
    refine ⟨z :: zs,?_,.cons hs hall⟩
    rw [List.mapM_cons,hz,hzs]
    rfl

end Lists

def Queue.deviceRows (q : Queue) (dev : GoString) : List Row := q.rows.filter fun r => r.deviceID == dev

section Tables
variable {q : Queue} {dev d id : GoString}

theorem Queue.mem_deviceRows {r : Row} : r ∈ q.deviceRows dev ↔ r ∈ q.rows ∧ r.deviceID = dev := by
  unfold deviceRows
  rw [List.mem_filter,beq_iff_eq]

theorem Queue.ids_eq (q : Queue) (dev : GoString) : q.ids dev = (q.deviceRows dev).map Row.id := rfl

theorem Queue.filter_device (q : Queue) (dev : GoString) (p : Row → Bool) :
    (q.rows.filter fun r => r.deviceID == dev && p r) = (q.deviceRows dev).filter p := by
  unfold deviceRows
  rw [List.filter_filter]
  exact List.filter_congr fun r _ => Bool.and_comm _ _

theorem Queue.mem_keys : (dev,id) ∈ q.rows.map Row.key ↔ id ∈ (q.deviceRows dev).map Row.id := by
  constructor
  · intro h
    obtain ⟨r,hr,he⟩ := List.mem_map.mp h
    obtain ⟨hdev,hid⟩ := Prod.mk.inj he
    exact List.mem_map.mpr ⟨r,Queue.mem_deviceRows.mpr ⟨hr,hdev⟩,hid⟩
  intro h
  obtain ⟨r,hr,hid⟩ := List.mem_map.mp h
  obtain ⟨hr,hdev⟩ := Queue.mem_deviceRows.mp hr
  exact List.mem_map.mpr ⟨r,hr,Prod.ext hdev hid⟩

theorem Queue.row_eq (q : Queue) (dev id : GoString) :
    q.row dev id = (q.deviceRows dev).find? fun r => r.id == id := by
  unfold row deviceRows
  rw [List.find?_filter]
  refine congrArg (fun p => q.rows.find? p) (funext fun r => ?_)
  unfold Row.key
  rw [Bool.eq_iff_iff,beq_iff_eq,decide_eq_true_iff,beq_iff_eq,beq_iff_eq,Prod.mk.injEq]

theorem Queue.deviceRows_update (q : Queue) {f : Row → Row} (hf : ∀ r, (f r).key = r.key) (dev : GoString) :
    (q.update f hf).deviceRows dev = (q.deviceRows dev).map f := by
  unfold deviceRows update
  dsimp only
  rw [List.filter_map]
  refine congrArg (List.map f) (List.filter_congr fun r _ => ?_)
  have hdev : (f r).deviceID = r.deviceID := congrArg Prod.fst (hf r)
  simp only [Function.comp_apply,hdev]

theorem Row.updateAt_device {r : Row} (h : r.deviceID = dev) (f : Row → Row) :
    r.updateAt dev id f = if r.id = id then f r else r := by
  unfold updateAt key
  rw [h]
  by_cases hid : r.id = id
  · rw [if_pos hid,if_pos (by rw [hid])]
  · rw [if_neg hid,if_neg fun he => hid (Prod.mk.inj he).2]

theorem Row.updateAt_other {r : Row} (h : r.deviceID ≠ dev) (f : Row → Row) : r.updateAt dev id f = r :=
  if_neg fun he => h (Prod.mk.inj he).1

theorem Queue.deviceRows_insert (q : Queue) {r : Row} (h : r.key ∉ q.rows.map Row.key) (dev : GoString) :
    (q.insert r h).deviceRows dev =
      if r.deviceID = dev then q.deviceRows dev ++ [r] else q.deviceRows dev := by
  unfold deviceRows insert
  dsimp only
  rw [List.filter_append]
  split
  · rename_i hd
    rw [List.filter_cons_of_pos (by rw [beq_iff_eq]; exact hd),List.filter_nil]
  · rename_i hd
    rw [List.filter_cons_of_neg (by rw [beq_iff_eq]; exact hd),List.filter_nil,List.append_nil]

theorem bySeq_of_ordered {rows : List Row} (h : rows.Pairwise fun a b => a.seq < b.seq) : bySeq rows = rows :=
  List.Pairwise.insertionSort_eq (h.imp fun hlt => Nat.le_of_lt hlt)

theorem Queue.markAll_held {ds : List Delivery} (h : ∀ x ∈ ds, (dev,x.commandID) ∈ q.rows.map Row.key) :
    ∃ q', q.markAll dev ds = some q' ∧ q'.nextSeq = q.nextSeq ∧ ∀ d, q'.deviceRows d =
      (q.deviceRows d).map fun r => ds.foldl (fun r x => r.updateAt dev x.commandID (Row.send x)) r := by
  induction ds generalizing q with
  | nil => exact ⟨q,rfl,rfl,fun d => (List.map_id _).symm⟩
  | cons x ds ih =>
    have hkeys : (q.update (Row.updateAt dev x.commandID (Row.send x))
        (Row.key_updateAt (Row.key_send x))).rows.map Row.key = q.rows.map Row.key := by
      unfold update
      dsimp only
      rw [List.map_map]
      exact List.map_congr_left fun r _ => Row.key_updateAt (Row.key_send x) r
    obtain ⟨q',hq,hseq,hrows⟩ := ih (q := q.update (Row.updateAt dev x.commandID (Row.send x))
      (Row.key_updateAt (Row.key_send x))) fun y hy => hkeys ▸ h y (List.mem_cons_of_mem _ hy)
    refine ⟨q',?_,hseq,fun d => ?_⟩
    · unfold markAll
      rw [if_pos (h x List.mem_cons_self)]
      exact hq
    · rw [hrows,deviceRows_update,List.map_map]
      rfl

section Statements
variable {ο : Type} (name : ο → GoString) (f : ο → Row → Row)

theorem Row.updateAll_key (hf : ∀ x r, (f x r).key = r.key ∧ (f x r).seq = r.seq) (dev : GoString)
    (xs : List ο) (r : Row) :
    (xs.foldl (fun r x => r.updateAt dev (name x) (f x)) r).key = r.key ∧
      (xs.foldl (fun r x => r.updateAt dev (name x) (f x)) r).seq = r.seq := by
  induction xs generalizing r with
  | nil => exact ⟨rfl,rfl⟩
  | cons x xs ih =>
    obtain ⟨hkey,hseq⟩ := ih (r.updateAt dev (name x) (f x))
    refine ⟨hkey.trans (Row.key_updateAt (fun r => (hf x r).1) r),hseq.trans ?_⟩
    unfold updateAt
    split
    · exact (hf x r).2
    · rfl

theorem Row.updateAll_other {r : Row} (h : r.deviceID ≠ dev) (xs : List ο) :
    xs.foldl (fun r x => r.updateAt dev (name x) (f x)) r = r := by
  induction xs with
  | nil => rfl
  | cons x xs ih =>
    rw [List.foldl_cons,updateAt_other h]
    exact ih

end Statements

theorem Queue.cancel_rows (q : Queue) (dev : GoString) (ids : List GoString) (time : Time) :
    (q.cancel dev ids time).nextSeq = q.nextSeq ∧ ∀ d, (q.cancel dev ids time).deviceRows d =
      (q.deviceRows d).map fun r => ids.foldl (fun r id => r.updateAt dev id (Row.cancel time)) r := by
  unfold cancel
  induction ids generalizing q with
  | nil => exact ⟨rfl,fun d => (List.map_id _).symm⟩
  | cons id ids ih =>
    obtain ⟨hseq,hrows⟩ := ih (q.update (Row.updateAt dev id (Row.cancel time))
      (Row.key_updateAt (Row.key_cancel time)))
    refine ⟨hseq,fun d => ?_⟩
    rw [List.foldl_cons,hrows,deviceRows_update,List.map_map]
    rfl

theorem Row.cancel_eq (time : Time) (r : Row) :
    r.cancel time = if r.state.terminal = false then { r with state := .cancelled, completedAt := nanos time }
      else r := by
  unfold cancel
  cases hs : r.state with
  | pending => rw [if_pos (.inl rfl),if_pos (by rfl)]
  | sent => rw [if_pos (.inr rfl),if_pos (by rfl)]
  | acknowledged | failed | cancelled => rw [if_neg (by decide),if_neg (by decide)]

theorem Row.cancel_foldl {r : Row} (h : r.deviceID = dev) (ids : List GoString) (time : Time) :
    ids.foldl (fun r id => r.updateAt dev id (Row.cancel time)) r =
      if r.id ∈ ids ∧ r.state.terminal = false then
        { r with state := .cancelled, completedAt := nanos time } else r := by
  induction ids generalizing r with
  | nil => rw [List.foldl_nil,if_neg fun hc => nomatch hc.1]
  | cons id ids ih =>
    rw [List.foldl_cons,updateAt_device h]
    by_cases hid : r.id = id
    · rw [if_pos hid,cancel_eq]
      by_cases ht : r.state.terminal = false
      · rw [if_pos ht,if_pos ⟨hid ▸ List.mem_cons_self,ht⟩]
        have hdone := ih (r := { r with state := .cancelled, completedAt := nanos time }) h
        exact hdone.trans (if_neg fun hc => Bool.noConfusion hc.2)
      · rw [if_neg ht,if_neg fun hc => ht hc.2]
        exact (ih h).trans (if_neg fun hc => ht hc.2)
    · rw [if_neg hid,ih h]
      simp only [List.mem_cons,hid,false_or]

theorem Row.cancel_kept (time : Time) (r : Row) : (r.cancel time).key = r.key ∧ (r.cancel time).seq = r.seq := by
  unfold cancel
  split
  · exact ⟨rfl,rfl⟩
  · exact ⟨rfl,rfl⟩

theorem cancelled_cons (rows : List Row) (id : GoString) (ids : List GoString) (time : Time) :
    (rows.filter fun r => decide (r.id ∈ id :: ids) && !r.state.terminal).length =
      ((rows.map fun r => if r.id = id then r.cancel time else r).filter
        fun r => decide (r.id ∈ ids) && !r.state.terminal).length +
      (rows.filter fun r => r.id == id && !r.state.terminal).length := by
  induction rows with
  | nil => rfl
  | cons r rows ih =>
    rw [List.map_cons]
    by_cases hid : r.id = id
    · rw [if_pos hid]
      cases ht : r.state.terminal with
      | true =>
        rw [Row.cancel_of_terminal ht,List.filter_cons_of_neg (by simp [ht]),
          List.filter_cons_of_neg (by simp [ht]),List.filter_cons_of_neg (by simp [ht])]
        exact ih
      | false =>
        rw [Row.cancel_eq,if_pos ht,List.filter_cons_of_pos (by simp [hid,ht]),
          List.filter_cons_of_neg (by simp [Mdm.State.terminal]),List.filter_cons_of_pos (by simp [hid,ht]),
          List.length_cons,List.length_cons,ih,Nat.add_assoc]
    · simp only [List.filter_cons]
      rw [if_neg hid]
      have hmem : decide (r.id ∈ id :: ids) = decide (r.id ∈ ids) := by simp [hid]
      have hne : (r.id == id) = false := beq_eq_false_iff_ne.mpr hid
      rw [hmem,hne,Bool.false_and,if_neg Bool.false_ne_true]
      split
      · rw [List.length_cons,List.length_cons,ih]
        omega
      · exact ih

theorem length_filter_id {rows : List Row} (h : (rows.map Row.id).Nodup) (id : GoString) (p : Row → Bool) :
    (rows.filter fun r => r.id == id && p r).length = if rows.any fun r => r.id == id && p r then 1 else 0 := by
  induction rows with
  | nil => rfl
  | cons r rows ih =>
    obtain ⟨hr,h⟩ := List.nodup_cons.mp (by rwa [List.map_cons] at h)
    rw [List.filter_cons,List.any_cons]
    by_cases hp : (r.id == id && p r) = true
    · have hrest : rows.filter (fun r => r.id == id && p r) = [] := by
        refine List.filter_eq_nil_iff.mpr fun r' hr' hp' => hr ?_
        rw [Bool.and_eq_true,beq_iff_eq] at hp hp'
        exact List.mem_map.mpr ⟨r',hr',hp'.1.trans hp.1.symm⟩
      rw [if_pos hp,hrest,hp,Bool.true_or,if_pos rfl]
      rfl
    · rw [if_neg hp,ih h,Bool.eq_false_of_not_eq_true hp,Bool.false_or]

theorem Queue.nodup_ids (q : Queue) (dev : GoString) : ((q.deviceRows dev).map Row.id).Nodup := by
  have hkeys : ((q.deviceRows dev).map Row.key).Nodup := q.unique.sublist (List.filter_sublist.map _)
  have he : (q.deviceRows dev).map Row.key = ((q.deviceRows dev).map Row.id).map fun id => (dev,id) := by
    rw [List.map_map]
    exact List.map_congr_left fun r hr => Prod.ext (Queue.mem_deviceRows.mp hr).2 rfl
  rw [he] at hkeys
  exact hkeys.of_map _

theorem Queue.cancelCount_eq (q : Queue) (dev : GoString) (time : Time) (ids : List GoString) :
    q.cancelCount dev time ids =
      ((q.deviceRows dev).filter fun r => decide (r.id ∈ ids) && !r.state.terminal).length := by
  induction ids generalizing q with
  | nil =>
    unfold cancelCount
    simp
  | cons id ids ih =>
    have hany : (q.rows.any fun r => r.key == (dev,id) && !r.state.terminal) =
        (q.deviceRows dev).any fun r => r.id == id && !r.state.terminal := by
      unfold deviceRows
      rw [List.any_filter]
      refine congrArg (fun p => q.rows.any p) (funext fun r => ?_)
      rw [← Bool.and_assoc]
      rfl
    unfold cancelCount
    rw [ih,hany,cancelled_cons _ _ _ time,length_filter_id (q.nodup_ids dev),deviceRows_update]
    have hmap : (q.deviceRows dev).map (Row.updateAt dev id (Row.cancel time)) =
        (q.deviceRows dev).map fun r => if r.id = id then r.cancel time else r :=
      List.map_congr_left fun r hr => Row.updateAt_device (Queue.mem_deviceRows.mp hr).2 _
    rw [hmap]

theorem Queue.prune_unlimited (q : Queue) (before : Time) (tie : Row → Nat) :
    (q.prune before 0 tie).2 = (q.rows.filter (Row.prunable before)).length ∧
    ∀ d, (q.prune before 0 tie).1.deviceRows d = (q.deviceRows d).filter fun r => !r.prunable before := by
  have hkeys : ∀ r ∈ q.rows, (r.key ∈ q.prunedKeys before 0 tie ↔ r.prunable before = true) := by
    intro r hr
    unfold prunedKeys
    dsimp only
    rw [if_neg (by decide),List.mem_map]
    constructor
    · rintro ⟨r',hr',he⟩
      obtain ⟨hmem,hp⟩ := List.mem_filter.mp ((List.mem_insertionSort _).mp hr')
      exact q.eq_of_key hmem hr he ▸ hp
    · intro hp
      exact ⟨r,(List.mem_insertionSort _).mpr (List.mem_filter.mpr ⟨hr,hp⟩),rfl⟩
  constructor
  · unfold prune prunedKeys
    dsimp only
    rw [if_neg (by decide),List.length_map,List.length_insertionSort]
  intro d
  unfold prune deviceRows
  dsimp only
  rw [List.filter_filter,List.filter_filter]
  refine List.filter_congr fun r hr => ?_
  rw [Bool.and_comm]
  congr 1
  rw [Bool.eq_iff_iff,decide_eq_true_iff,hkeys r hr,Bool.not_eq_true',Bool.not_eq_true]

end Tables

theorem sum_filter_device {devs : List GoString} (hnd : devs.Nodup) (rows : List Row)
    (h : ∀ r ∈ rows, r.deviceID ∈ devs) :
    (devs.map fun d => (rows.filter fun r => r.deviceID == d).length).sum = rows.length := by
  induction devs generalizing rows with
  | nil =>
    cases rows with
    | nil => rfl
    | cons r rows => exact absurd (h r List.mem_cons_self) List.not_mem_nil
  | cons dev devs ih =>
    obtain ⟨hdev,hnd⟩ := List.nodup_cons.mp hnd
    have hothers := ih hnd (rows.filter fun r => !(r.deviceID == dev)) fun r hr => ?_
    · have hsame : (devs.map fun d => ((rows.filter fun r => !(r.deviceID == dev)).filter
          fun r => r.deviceID == d).length) =
          devs.map fun d => (rows.filter fun r => r.deviceID == d).length := by
        refine List.map_congr_left fun d hd => ?_
        rw [List.filter_filter]
        refine congrArg List.length (List.filter_congr fun r _ => ?_)
        by_cases hr : r.deviceID = d
        · have hne : d ≠ dev := fun he => hdev (he ▸ hd)
          simp [hr,hne]
        · simp [hr]
      rw [hsame] at hothers
      rw [List.map_cons,List.sum_cons,hothers]
      exact (List.length_eq_length_filter_add _).symm
    · obtain ⟨hr,hne⟩ := List.mem_filter.mp hr
      refine (List.mem_cons.mp (h r hr)).resolve_left fun he => ?_
      rw [he,beq_self_eq_true] at hne
      cases hne

end MicrosoftDM.Sqlstore
