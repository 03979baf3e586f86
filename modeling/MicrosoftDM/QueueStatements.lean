import MicrosoftDM.QueueLifecycle
import MicrosoftDM.SqlTransactions

set_option autoImplicit false

namespace MicrosoftDM.Sqlstore
open Mdm (QueuedCommand QueueOp Delivery Result)
open Sql (Op)

/-- The primary keys of both tables. -/
inductive QueueKey where
  | counter (deviceID : GoString)
  | command (deviceID id : GoString)
  deriving DecidableEq

abbrev QueueRows : QueueKey → Type
  | .counter _ => Nat
  | .command _ _ => Row

abbrev QueueBody (α : Type) := Sql.Body QueueRows QueueError α

abbrev FoundRow := (k : QueueKey) × QueueRows k

def commandOf : FoundRow → Option ((GoString × GoString) × Row)
  | ⟨.counter _,_⟩ => none
  | ⟨.command dev id,r⟩ => some ((dev,id),r)

def selectKey (k : QueueKey) : QueueBody (List FoundRow) := Sql.select fun k' _ => k' = k

/-- `SELECT next_seq`. -/
def nextSeqOf : List FoundRow → Option Nat
  | ⟨.counter _,n⟩ :: _ => some n
  | _ => none

/-- The loop that makes a generated ID unique. -/
def uniqueID (dev : GoString) : Nat → GoString → QueueBody GoString
  | 0, _ => Sql.refuse .other
  | turns+1, id => do
    let found ← selectKey (.command dev id)
    if found.isEmpty then pure id else uniqueID dev turns (id ++ "x")

def Row.new (dev id : GoString) (seq : Nat) (cmd : Mdm.Command) (body : GoString) (time : Time) : Row where
  deviceID := dev
  id := id
  seq := seq
  scope := cmd.scope
  internal := cmd.internal
  body := body
  enqueuedAt := nanos time

def incrementSeq (dev : GoString) : QueueBody Unit := do
  let _ ← Sql.statement (.write (.counter dev) fun old => some (some (old.getD 0+1)))

def holders (dev id : GoString) : QueueBody (List FoundRow) :=
  if id = [] then pure [] else selectKey (.command dev id)

def chooseID (turns : Nat) (dev id : GoString) (seq : Nat) : QueueBody GoString :=
  if id = [] then uniqueID dev turns ("cmd-" ++ itoa seq) else pure id

/-- The transaction of `Enqueue`. -/
def enqueueBody (turns : Nat) (dev : GoString) (cmd : Mdm.Command) (body : GoString) (time : Time) :
    QueueBody QueuedCommand := do
  let found ← holders dev cmd.id
  if !found.isEmpty then Sql.fail .conflict
  else
    incrementSeq dev
    let counter ← selectKey (.counter dev)
    match nextSeqOf counter with
    | none => Sql.refuse .other
    | some seq =>
      let id ← chooseID turns dev cmd.id seq
      Sql.insert (.command dev id) (Row.new dev id seq cmd body time)
      return { command := { cmd with id := id }, seq := seq, state := .pending, enqueuedAt := time }

/-- `Enqueue`; `turns` bounds the loop for the ID. -/
def enqueue (turns : Nat) (dev : GoString) (cmd : Mdm.Command) (time : Time) : QueueBody QueuedCommand :=
  if dev = [] then Sql.fail .notFound
  else
    match Mdm.validate cmd with
    | some e => Sql.fail (.invalid e)
    | none =>
      match Syncml.encodeCommand [] cmd.body with
      | .error e => Sql.fail (.encode e)
      | .ok body => Sql.tx (enqueueBody turns dev cmd body time) maxAttempts

/-- The WHERE clause of `Deliverable`. -/
def deliverableRow (dev : GoString) : (k : QueueKey) → QueueRows k → Bool
  | .counter _, _ => false
  | .command d _, r => d == dev && (r.state == .pending || r.state == .sent)

/-- The query of `Deliverable`. -/
def deliverable (dev : GoString) (limit : Int) : QueueBody (List Row) := do
  let found ← Sql.select (deliverableRow dev)
  let all := bySeq ((found.filterMap commandOf).map Prod.snd)
  return if limit > 0 then all.take limit.toNat else all

/-- The transaction of `MarkSent`. -/
def markSentBody (dev : GoString) : List Delivery → QueueBody Unit
  | [] => pure ()
  | d :: ds => do
    let changed ← Sql.updateKey (.command dev d.commandID) (fun _ => true) (Row.send d)
    if !changed then Sql.fail .notFound else markSentBody dev ds

def markSent (dev : GoString) (ds : List Delivery) : QueueBody Unit :=
  Sql.tx (markSentBody dev ds) maxAttempts

/-- The UPDATE of `StoreResult`, with the row as it was. -/
def completeRow (dev id blob : GoString) (r : Result) : QueueBody (Option Row) :=
  Sql.statement (Op.write (QueueKey.command dev id) fun old => old.map fun row => some (Row.complete blob r row))

def storeResult (codec : Codec) (dev id : GoString) (r : Result) : QueueBody Unit :=
  match codec.marshal r with
  | none => Sql.fail .marshal
  | some blob => do
    let old ← Sql.txOnce (completeRow dev id blob r)
    if !old.any fun row => codec.affected.counts row (row.complete blob r) then Sql.fail .notFound

/-- `state IN (pending, sent)`. -/
def Row.cancellable (r : Row) : Bool := r.state == .pending || r.state == .sent

/-- The transaction of `Cancel`. -/
def cancelBody (dev : GoString) (time : Time) : List GoString → QueueBody Nat
  | [] => pure 0
  | id :: ids => do
    let changed ← Sql.updateKey (.command dev id) Row.cancellable
      (fun r => { r with state := .cancelled, completedAt := nanos time })
    let n ← cancelBody dev time ids
    return if changed then n+1 else n

def cancel (dev : GoString) (ids : List GoString) (time : Time) : QueueBody Nat :=
  Sql.tx (cancelBody dev time ids) maxAttempts

/-- The WHERE clause of `Prune`. -/
def prunableRow (before : Time) : (k : QueueKey) → QueueRows k → Bool
  | .counter _, _ => false
  | .command _ _, r => r.prunable before

/-- The commands that `Prune` takes of the rows it has found: the oldest
first, and no more than the limit. -/
def chosenKeys (limit : Int) (tie : Row → Nat) (found : List FoundRow) : List (GoString × GoString) :=
  let rows := (found.filterMap commandOf).insertionSort fun a b =>
    a.2.completedAt < b.2.completedAt ∨ a.2.completedAt = b.2.completedAt ∧ tie a.2 ≤ tie b.2
  (if limit > 0 then rows.take limit.toNat else rows).map Prod.fst

/-- The transaction of `Prune`. -/
def pruneBody : List (GoString × GoString) → QueueBody Nat
  | [] => pure 0
  | k :: ks => do
    Sql.delete (.command k.1 k.2)
    let n ← pruneBody ks
    return n+1

/-- `Prune`: it selects its victims outside the transaction that deletes them. -/
def prune (before : Time) (limit : Int) (tie : Row → Nat) : QueueBody Nat := do
  let found ← Sql.select (prunableRow before)
  Sql.tx (pruneBody (chosenKeys limit tie found)) maxAttempts

inductive QueueReply where
  | queued (qc : QueuedCommand)
  | commands (rows : List Row)
  | count (n : Nat)
  | done

def performQueue (codec : Codec) (turns : Nat) : QueueOp (Row → Nat) → QueueBody QueueReply
  | .enqueue dev cmd time => do return .queued (← enqueue turns dev cmd time)
  | .deliverable dev limit => do return .commands (← deliverable dev limit)
  | .markSent dev ds => do
    markSent dev ds
    return .done
  | .storeResult dev id r => do
    storeResult codec dev id r
    return .done
  | .cancel dev ids time => do return .count (← cancel dev ids time)
  | .prune before limit tie => do return .count (← prune before limit tie)

end MicrosoftDM.Sqlstore
