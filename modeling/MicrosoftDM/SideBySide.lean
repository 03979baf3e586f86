import MicrosoftDM.QueueCopies

set_option autoImplicit false

namespace MicrosoftDM.Sqlstore
open Mdm (QueuedCommand Result Delivery Query RangeOrder CommandError StoreError)
open Paging (Page PageResult)

inductive Ref where
  | text (id : GoString)
  | returned (n : Nat)

/-- A delivery, by the caller's name for the command. -/
structure SentRef where
  command : Ref
  msgID : GoString
  time : Time

/-- A call on either queue. -/
inductive ClientCall where
  | enqueue (dev : GoString) (cmd : Mdm.Command) (time : Time)
  | deliverable (dev : GoString) (limit : Int)
  | markSent (dev : GoString) (ds : List SentRef)
  | storeResult (dev : GoString) (id : Ref) (r : Result)
  | get (dev : GoString) (id : Ref)
  | list (dev : GoString) (query : Query) (page : Page)
  | cancel (dev : GoString) (ids : List Ref) (time : Time)
  | prune (before : Time) (range : RangeOrder) (tie : Row → Nat)

/-- What the two queues have returned as the ID of one `Enqueue`, empty where it has failed. -/
structure Issue where
  dev : GoString
  memory : GoString
  sql : GoString
  deriving DecidableEq

def Ref.memory (issued : List Issue) : Ref → GoString
  | .text id => id
  | .returned n => ((issued[n]?).map Issue.memory).getD []

def Ref.sql (issued : List Issue) : Ref → GoString
  | .text id => id
  | .returned n => ((issued[n]?).map Issue.sql).getD []

def SentRef.memory (issued : List Issue) (d : SentRef) : Delivery := ⟨d.command.memory issued,d.msgID,d.time⟩

def SentRef.sql (issued : List Issue) (d : SentRef) : Delivery := ⟨d.command.sql issued,d.msgID,d.time⟩

inductive ErrorClass where
  | notFound | conflict | invalid (e : CommandError) | cursor | other

def memoryError : StoreError → ErrorClass
  | .notFound => .notFound
  | .conflict => .conflict
  | .invalid e => .invalid e
  | .unavailable => .other

def sqlError : QueueError → ErrorClass
  | .notFound => .notFound
  | .conflict => .conflict
  | .invalid e => .invalid e
  | .encode _ | .decode | .marshal | .unmarshal => .other

inductive Reply where
  | queued (qc : QueuedCommand)
  | commands (qcs : List QueuedCommand)
  | page (p : PageResult QueuedCommand)
  | count (n : Nat)
  | done
  | failed (e : ErrorClass)

def Reply.id : Reply → GoString
  | .queued qc => qc.id
  | _ => []

def performMemory (issued : List Issue) (q : Mdm.Queue) : ClientCall → Reply × Mdm.Queue
  | .enqueue dev cmd time =>
    match q.enqueue dev cmd time with
    | (.ok qc,q') => (.queued qc,q')
    | (.error e,q') => (.failed (memoryError e),q')
  | .deliverable dev limit => (.commands (q.deliverable dev limit),q)
  | .markSent dev ds =>
    match q.markSent dev (ds.map (SentRef.memory issued)) with
    | (.ok (),q') => (.done,q')
    | (.error e,q') => (.failed (memoryError e),q')
  | .storeResult dev id r =>
    match q.storeResult dev (id.memory issued) r with
    | (.ok (),q') => (.done,q')
    | (.error e,q') => (.failed (memoryError e),q')
  | .get dev id =>
    match q.get dev (id.memory issued) with
    | some qc => (.queued qc,q)
    | none => (.failed .notFound,q)
  | .list dev query p =>
    match q.list dev query p with
    | some r => (.page r,q)
    | none => (.failed .cursor,q)
  | .cancel dev ids time =>
    (.count (q.cancelCount dev (ids.map (Ref.memory issued))),q.cancel dev (ids.map (Ref.memory issued)) time)
  | .prune before range _ => (.count (q.prune before 0 range).2,(q.prune before 0 range).1)

def performSql (codec : Codec) (issued : List Issue) (q : Queue) : ClientCall → Reply × Queue
  | .enqueue dev cmd time =>
    match q.enqueue dev cmd time with
    | (.ok qc,q') => (.queued qc,q')
    | (.error e,q') => (.failed (sqlError e),q')
  | .deliverable dev limit =>
    match q.deliverable codec dev limit with
    | .ok qcs => (.commands qcs,q)
    | .error e => (.failed (sqlError e),q)
  | .markSent dev ds =>
    match q.markSent dev (ds.map (SentRef.sql issued)) with
    | (.ok (),q') => (.done,q')
    | (.error e,q') => (.failed (sqlError e),q')
  | .storeResult dev id r =>
    match q.storeResult codec dev (id.sql issued) r with
    | (.ok (),q') => (.done,q')
    | (.error e,q') => (.failed (sqlError e),q')
  | .get dev id =>
    match q.get codec dev (id.sql issued) with
    | .ok qc => (.queued qc,q)
    | .error e => (.failed (sqlError e),q)
  | .list dev query p =>
    match q.list codec dev query p with
    | .ok (some r) => (.page r,q)
    | .ok none => (.failed .cursor,q)
    | .error e => (.failed (sqlError e),q)
  | .cancel dev ids time =>
    (.count (q.cancelCount dev time (ids.map (Ref.sql issued))),q.cancel dev (ids.map (Ref.sql issued)) time)
  | .prune before _ tie => (.count (q.prune before 0 tie).2,(q.prune before 0 tie).1)

structure Queues where
  memory : Mdm.Queue := .empty
  sql : Queue := .empty
  issued : List Issue := []

def ClientCall.issues (c : ClientCall) (memory sql : Reply) : List Issue :=
  match c with
  | .enqueue dev _ _ => [⟨dev,memory.id,sql.id⟩]
  | _ => []

def Queues.replies (codec : Codec) (σ : Queues) (c : ClientCall) : Reply × Reply :=
  ((performMemory σ.issued σ.memory c).1,(performSql codec σ.issued σ.sql c).1)

def Queues.step (codec : Codec) (σ : Queues) (c : ClientCall) : Queues where
  memory := (performMemory σ.issued σ.memory c).2
  sql := (performSql codec σ.issued σ.sql c).2
  issued := σ.issued ++ c.issues (σ.replies codec c).1 (σ.replies codec c).2

/-- Two commands that were returned by one `Enqueue`; a made-up ID may differ. -/
structure SameCommand (issued : List Issue) (dev : GoString) (a b : QueuedCommand) : Prop where
  issued : ⟨dev,a.id,b.id⟩ ∈ issued
  id : a.id = b.id ∨ Generated a.id ∧ Generated b.id

/-- The commands agree but for the text of a generated ID and the body's normal form. -/
structure Alike (codec : Codec) (issued : List Issue) (dev : GoString) (a b : QueuedCommand) : Prop
    extends SameCommand issued dev a b where
  read : ReadBack codec a b

inductive Reply.Same (codec : Codec) (issued : List Issue) (dev : GoString) : Reply → Reply → Prop where
  /-- `Enqueue` returns the body as it was given. -/
  | stored {a b : QueuedCommand} (h : SameCommand issued dev a b)
      (hrest : b = { a with command := { a.command with id := b.command.id } }) :
      Same codec issued dev (.queued a) (.queued b)
  | found {a b : QueuedCommand} (h : Alike codec issued dev a b) : Same codec issued dev (.queued a) (.queued b)
  | commands {as bs : List QueuedCommand} (h : List.Forall₂ (Alike codec issued dev) as bs) :
      Same codec issued dev (.commands as) (.commands bs)
  | page {a b : PageResult QueuedCommand} (h : List.Forall₂ (Alike codec issued dev) a.items b.items)
      (hnext : a.nextCursor = b.nextCursor) : Same codec issued dev (.page a) (.page b)
  | count (n : Nat) : Same codec issued dev (.count n) (.count n)
  | done : Same codec issued dev .done .done
  | failed (e : ErrorClass) : Same codec issued dev (.failed e) (.failed e)

/-- The device of the call; `Prune` has none. -/
def ClientCall.dev : ClientCall → GoString
  | .enqueue dev _ _ | .deliverable dev _ | .markSent dev _ | .storeResult dev _ _ | .get dev _
  | .list dev _ _ | .cancel dev _ _ => dev
  | .prune _ _ _ => []

def Queues.HoldSame (codec : Codec) (σ : Queues) : Prop :=
  ∀ dev, ∃ bs, (bySeq (σ.sql.deviceRows dev)).mapM codec.scanCommand = .ok bs ∧
    List.Forall₂ (Alike codec σ.issued dev) (σ.memory.commands dev) bs

def ClientCall.Timely : ClientCall → Prop
  | .enqueue _ _ time | .cancel _ _ time => Storable time
  | .markSent _ ds => ∀ d ∈ ds, Storable d.time
  | .storeResult _ _ r => Storable r.receivedAt
  | .prune before _ _ => Storable before
  | .deliverable _ _ | .get _ _ | .list _ _ _ => True

instance (c : ClientCall) : Decidable c.Timely :=
  match c with
  | .enqueue _ _ time | .cancel _ _ time => inferInstanceAs (Decidable (Storable time))
  | .markSent _ ds => inferInstanceAs (Decidable (∀ d ∈ ds, Storable d.time))
  | .storeResult _ _ r => inferInstanceAs (Decidable (Storable r.receivedAt))
  | .prune before _ _ => inferInstanceAs (Decidable (Storable before))
  | .deliverable _ _ | .get _ _ | .list _ _ _ => .isTrue trivial

/-- The text is not that of a generated ID, or of no command here; an ID that
was returned is used with the device it was returned for. -/
def Ref.Clear (σ : Queues) (dev : GoString) : Ref → Prop
  | .text id => ¬Generated id ∨ id ∉ (σ.memory.commands dev).map QueuedCommand.id ∧ id ∉ σ.sql.ids dev
  | .returned n => (σ.issued[n]?).map Issue.dev = some dev

instance (σ : Queues) (dev : GoString) (r : Ref) : Decidable (r.Clear σ dev) :=
  match r with
  | .text id => inferInstanceAs (Decidable (¬Generated id ∨ _ ∧ _))
  | .returned n => inferInstanceAs (Decidable ((σ.issued[n]?).map Issue.dev = some dev))

def Queues.Has (σ : Queues) (dev : GoString) (r : Ref) : Prop :=
  r.memory σ.issued ∈ (σ.memory.commands dev).map QueuedCommand.id

instance (σ : Queues) (dev : GoString) (r : Ref) : Decidable (σ.Has dev r) :=
  inferInstanceAs (Decidable (_ ∈ _))

/-- A result for a command that the device does not have, or that changes its row. -/
def Queues.Changes (codec : Codec) (σ : Queues) (dev : GoString) (id : Ref) (r : Result) : Prop :=
  σ.Has dev id → ∀ blob ∈ codec.marshal r,
    ∃ row ∈ σ.sql.rows, row.key = (dev,id.sql σ.issued) ∧ row.complete blob r ≠ row

instance (codec : Codec) (σ : Queues) (dev : GoString) (id : Ref) (r : Result) :
    Decidable (σ.Changes codec dev id r) :=
  inferInstanceAs (Decidable (_ → ∀ blob ∈ codec.marshal r, ∃ row ∈ σ.sql.rows, _ ∧ _))

/-- The call meets none of the differences between the queues: names that look
generated, bodies and results that do not survive being stored, a `MarkSent`
that fails after its first delivery, and a result stored twice where only changed rows count. -/
def Queues.Fits (codec : Codec) (σ : Queues) : ClientCall → Prop
  | .enqueue dev cmd _ =>
    dev ≠ [] → Mdm.validate cmd = none → ¬Generated cmd.id ∧ (codec.normal cmd.body).isSome = true
  | .markSent dev ds => (∀ d ∈ ds, d.command.Clear σ dev) ∧
    ((∀ d ∈ ds, σ.Has dev d.command) ∨ ∀ d ∈ ds.head?, ¬σ.Has dev d.command)
  | .storeResult dev id r => id.Clear σ dev ∧ codec.Stores r ∧
    (codec.affected = .changed → σ.Changes codec dev id r)
  | .get dev id => id.Clear σ dev
  | .cancel dev ids _ => ∀ id ∈ ids, id.Clear σ dev
  | .deliverable _ _ | .list _ _ _ | .prune _ _ _ => True

instance (codec : Codec) (σ : Queues) (c : ClientCall) : Decidable (σ.Fits codec c) :=
  match c with
  | .enqueue dev cmd _ => inferInstanceAs (Decidable (dev ≠ [] → Mdm.validate cmd = none → _ ∧ _))
  | .markSent dev ds => inferInstanceAs (Decidable ((∀ d ∈ ds, d.command.Clear σ dev) ∧
      ((∀ d ∈ ds, σ.Has dev d.command) ∨ ∀ d ∈ ds.head?, ¬σ.Has dev d.command)))
  | .storeResult dev id r => inferInstanceAs (Decidable (id.Clear σ dev ∧ codec.Stores r ∧
      (codec.affected = .changed → σ.Changes codec dev id r)))
  | .get dev id => inferInstanceAs (Decidable (id.Clear σ dev))
  | .cancel dev ids _ => inferInstanceAs (Decidable (∀ id ∈ ids, id.Clear σ dev))
  | .deliverable _ _ | .list _ _ _ | .prune _ _ _ => .isTrue trivial

end MicrosoftDM.Sqlstore
