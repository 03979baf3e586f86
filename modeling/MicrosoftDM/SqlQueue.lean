import Mathlib.Data.List.Sort
import MicrosoftDM.CommandQueue
import MicrosoftDM.SyncMLEncode

/-!
The SQL command queue of server/sqlstore/queue.go: the tables `commands` and `command_seq`, and
each method as the statements it runs. What JSON and the fragment decoder do is left open.
-/

set_option autoImplicit false

namespace MicrosoftDM.Sqlstore
open MicrosoftDM.Mdm (Scope State Result Delivery QueuedCommand CommandError validate)

/-- The Unix epoch, counted from the zero `time.Time`. -/
def unixEpoch : Time := 62135596800*1000000000

def nanos (t : Time) : Int := if t = 0 then 0 else Int.bmod (t-unixEpoch) (2^64)

def fromNanos (n : Int) : Time := if n = 0 then 0 else n+unixEpoch

def Storable (t : Time) : Prop := t = 0 ∨ unixEpoch < t ∧ t < unixEpoch+2^63

instance (t : Time) : Decidable (Storable t) := inferInstanceAs (Decidable (t = 0 ∨ _ ∧ _))

section Times
variable {t : Time} {m n : Int}

theorem nanos_of_after (h : unixEpoch < t ∧ t < unixEpoch+2^63) : nanos t = t-unixEpoch := by
  obtain ⟨hlo,hhi⟩ := h
  have hne : t ≠ 0 := by
    unfold unixEpoch Time at *
    omega
  rw [nanos,if_neg hne]
  unfold unixEpoch Time at *
  rw [Int.bmod_eq_of_le (by omega) (by omega)]

theorem nanos_nonneg (h : Storable t) : 0 ≤ nanos t := by
  rcases h with rfl | h
  · exact Int.le_refl 0
  rw [nanos_of_after h]
  unfold unixEpoch Time at *
  omega

theorem fromNanos_nanos (h : Storable t) : fromNanos (nanos t) = t := by
  rcases h with rfl | h
  · rfl
  have hn := nanos_of_after h
  rw [hn,fromNanos]
  unfold unixEpoch Time at *
  rw [if_neg (by omega)]
  omega

theorem fromNanos_lt (hm : 0 ≤ m) (hn : 0 ≤ n) : fromNanos m < fromNanos n ↔ m < n := by
  unfold fromNanos unixEpoch
  unfold Time
  split
  · split
    · omega
    · omega
  · split
    · omega
    · omega

theorem fromNanos_inj (hm : 0 ≤ m) (hn : 0 ≤ n) : fromNanos m = fromNanos n ↔ m = n := by
  unfold fromNanos unixEpoch
  unfold Time
  split
  · split
    · omega
    · omega
  · split
    · omega
    · omega

end Times

def maxAttempts : Nat := 10

structure Row where
  deviceID : GoString
  id : GoString
  seq : Nat
  scope : Scope
  internal : Bool
  state : State := .pending
  body : GoString
  enqueuedAt : Int
  lastSentAt : Int := 0
  sentMsgID : GoString := []
  attempts : Nat := 0
  completedAt : Int := 0
  result : Option GoString := none
  deriving DecidableEq

def Row.key (r : Row) : GoString × GoString := (r.deviceID,r.id)

structure Queue where
  rows : List Row := []
  nextSeq : GoMap Nat := ∅
  unique : (rows.map Row.key).Nodup

/-- What `RowsAffected` counts after an UPDATE: the rows that match, or of them only those that it
changes, which is what MySQL reports unless the DSN asks for `clientFoundRows`. -/
inductive Affected where
  | matched | changed
  deriving DecidableEq

def Affected.counts (rule : Affected) (old new : Row) : Bool :=
  match rule with
  | .matched => true
  | .changed => new ≠ old

/-- The functions the queue calls on bodies and results, `syncml.DecodeCommand`
and JSON, and how the driver counts. Texts are compared byte by byte. -/
structure Codec where
  decodeCommand : GoString → Option Syncml.Command
  marshal : Result → Option GoString
  unmarshal : GoString → Option Result
  affected : Affected

inductive QueueError where
  | notFound | conflict | invalid (e : CommandError) | encode (e : Syncml.EncodeError)
  | decode | marshal | unmarshal
  deriving DecidableEq

def Queue.empty : Queue := { rows := [], unique := List.nodup_nil }

def Queue.row (q : Queue) (dev id : GoString) : Option Row :=
  q.rows.find? (fun r => r.key == (dev,id))

variable {r : Row} {dev id : GoString}

theorem Queue.eq_of_key (q : Queue) {r' : Row} (h : r ∈ q.rows) (h' : r' ∈ q.rows)
    (hk : r.key = r'.key) : r = r' :=
  List.inj_on_of_nodup_map q.unique h h' hk

def Queue.ids (q : Queue) (dev : GoString) : List GoString :=
  (q.rows.filter fun r => r.deviceID == dev).map Row.id

theorem Queue.notMem_keys {q : Queue} (h : id ∉ q.ids dev) :
    (dev,id) ∉ q.rows.map Row.key := by
  intro hk
  obtain ⟨r,hr,he⟩ := List.mem_map.mp hk
  obtain ⟨hdev,hid⟩ := Prod.mk.inj he
  exact h (List.mem_map.mpr ⟨r,List.mem_filter.mpr ⟨hr,by simp [hdev]⟩,hid⟩)

def freshID (taken : List GoString) : Nat → GoString → GoString
  | 0, id => id
  | fuel+1, id => if id ∈ taken then freshID taken fuel (id ++ "x") else id

/-- The IDs in use that the loop can still meet. -/
def longer (taken : List GoString) (id : GoString) : List GoString :=
  taken.filter fun t => decide (id.length ≤ t.length)

theorem longer_lt {taken : List GoString} (h : id ∈ taken) :
    (longer taken (id ++ "x")).length < (longer taken id).length := by
  have he : longer taken (id ++ "x") =
      (longer taken id).filter fun t => decide ((id ++ "x").length ≤ t.length) := by
    unfold longer
    rw [List.filter_filter]
    refine List.filter_congr fun t _ => ?_
    rw [Bool.eq_iff_iff]
    simp only [List.length_append,Bool.and_eq_true,decide_eq_true_eq]
    omega
  rw [he]
  refine List.length_filter_lt_length_iff_exists.mpr ⟨id,?_,?_⟩
  · exact List.mem_filter.mpr ⟨h,by simp⟩
  have hx : 0 < (utf8 "x").length := by decide
  simp only [List.length_append,decide_eq_true_eq]
  omega

theorem freshID_fresh (taken : List GoString) {fuel : Nat}
    (h : (longer taken id).length ≤ fuel) : freshID taken fuel id ∉ taken := by
  induction fuel generalizing id with
  | zero =>
    intro hid
    have hnil : longer taken id = [] := List.length_eq_zero_iff.mp (Nat.le_zero.mp h)
    have hmem : id ∈ longer taken id := List.mem_filter.mpr ⟨hid,by simp⟩
    rw [hnil] at hmem
    cases hmem
  | succ fuel ih =>
    unfold freshID
    split
    · rename_i hid
      exact ih (by have := longer_lt hid; omega)
    · assumption

def Queue.seqOf (q : Queue) (dev : GoString) : Nat := (q.nextSeq.lookup dev).getD 0+1

def Queue.assignedID (q : Queue) (dev : GoString) : GoString :=
  freshID (q.ids dev) (q.ids dev).length ("cmd-" ++ itoa (q.seqOf dev))

theorem Queue.assignedID_fresh (q : Queue) (dev : GoString) : q.assignedID dev ∉ q.ids dev :=
  freshID_fresh _ (List.length_filter_le _ _)

def Queue.insert (q : Queue) (r : Row) (h : r.key ∉ q.rows.map Row.key) : Queue where
  rows := q.rows ++ [r]
  nextSeq := q.nextSeq.insert r.deviceID r.seq
  unique := by
    rw [List.map_append,List.nodup_append]
    refine ⟨q.unique,by simp,?_⟩
    intro a ha b hb he
    rw [List.mem_singleton.mp hb] at he
    exact h (he ▸ ha)

/-- `Enqueue` once the ID is known. -/
def Queue.enqueueAs (q : Queue) (dev : GoString) (cmd : Mdm.Command) (body id : GoString) (time : Time)
    (hid : id ∉ q.ids dev) : QueuedCommand × Queue :=
  let row : Row :=
    { deviceID := dev, id := id, seq := q.seqOf dev, scope := cmd.scope, internal := cmd.internal,
      body := body, enqueuedAt := nanos time }
  ({ command := { cmd with id := id }, seq := q.seqOf dev, state := .pending, enqueuedAt := time },
    q.insert row (Queue.notMem_keys hid))

def Queue.enqueue (q : Queue) (dev : GoString) (cmd : Mdm.Command) (time : Time) :
    Except QueueError QueuedCommand × Queue :=
  if dev = [] then (.error .notFound,q)
  else
    match validate cmd with
    | some e => (.error (.invalid e),q)
    | none =>
      match Syncml.encodeCommand [] cmd.body with
      | .error e => (.error (.encode e),q)
      | .ok body =>
        if cmd.id = [] then
          let r := q.enqueueAs dev cmd body (q.assignedID dev) time (q.assignedID_fresh dev)
          (.ok r.1,r.2)
        else if hid : cmd.id ∈ q.ids dev then (.error .conflict,q)
        else
          let r := q.enqueueAs dev cmd body cmd.id time hid
          (.ok r.1,r.2)

def Codec.scanCommand (codec : Codec) (r : Row) : Except QueueError QueuedCommand :=
  match codec.decodeCommand r.body with
  | none => .error .decode
  | some body =>
    let qc : QueuedCommand :=
      { command := { id := r.id, scope := r.scope, body := body, internal := r.internal }
        seq := r.seq, state := r.state, enqueuedAt := fromNanos r.enqueuedAt
        lastSentAt := fromNanos r.lastSentAt, sentMsgID := r.sentMsgID, attempts := r.attempts
        completedAt := fromNanos r.completedAt }
    match r.result with
    | none => .ok qc
    | some [] => .ok qc
    | some blob =>
      match codec.unmarshal blob with
      | none => .error .unmarshal
      | some result => .ok { qc with result := some result }

def bySeq (rows : List Row) : List Row := rows.insertionSort (fun a b => a.seq ≤ b.seq)

theorem mem_bySeq {rows : List Row} : r ∈ bySeq rows ↔ r ∈ rows :=
  List.mem_insertionSort fun a b : Row => a.seq ≤ b.seq

def Queue.deliverableRows (q : Queue) (dev : GoString) (limit : Int) : List Row :=
  let all := bySeq (q.rows.filter fun r => r.deviceID == dev && (r.state == .pending || r.state == .sent))
  if limit > 0 then all.take limit.toNat else all

def Queue.deliverable (codec : Codec) (q : Queue) (dev : GoString) (limit : Int) :
    Except QueueError (List QueuedCommand) :=
  (q.deliverableRows dev limit).mapM codec.scanCommand

def Queue.get (codec : Codec) (q : Queue) (dev id : GoString) : Except QueueError QueuedCommand :=
  match q.row dev id with
  | none => .error .notFound
  | some r => codec.scanCommand r

/-- An UPDATE that leaves the primary key alone. -/
def Queue.update (q : Queue) (f : Row → Row) (hf : ∀ r, (f r).key = r.key) : Queue where
  rows := q.rows.map f
  nextSeq := q.nextSeq
  unique := by
    rw [List.map_map,show Row.key ∘ f = Row.key from funext hf]
    exact q.unique

def Row.updateAt (dev id : GoString) (f : Row → Row) (r : Row) : Row :=
  if r.key = (dev,id) then f r else r

theorem Row.key_updateAt {f : Row → Row} (hf : ∀ r, (f r).key = r.key) (r : Row) :
    (r.updateAt dev id f).key = r.key := by
  unfold updateAt
  split
  · exact hf r
  · rfl

def Row.send (d : Delivery) (r : Row) : Row :=
  { r with state := .sent, lastSentAt := nanos d.time, sentMsgID := d.msgID, attempts := r.attempts+1 }

theorem Row.key_send (d : Delivery) (r : Row) : (r.send d).key = r.key := rfl

/-- A delivery adds to the attempts, so that it changes each row it matches. -/
def Queue.markAll (q : Queue) (dev : GoString) : List Delivery → Option Queue
  | [] => some q
  | d :: ds =>
    if (dev,d.commandID) ∈ q.rows.map Row.key then
      (q.update (Row.updateAt dev d.commandID (Row.send d))
        (Row.key_updateAt (Row.key_send d))).markAll dev ds
    else none

/-- `MarkSent`, in one transaction. -/
def Queue.markSent (q : Queue) (dev : GoString) (ds : List Delivery) : Except QueueError Unit × Queue :=
  match q.markAll dev ds with
  | some q' => (.ok (),q')
  | none => (.error .notFound,q)

def Row.complete (blob : GoString) (r : Result) (row : Row) : Row :=
  { row with
    state := if Syncml.StatusCode.success r.status then .acknowledged else .failed
    result := some blob
    completedAt := nanos r.receivedAt }

theorem Row.key_complete (blob : GoString) (r : Result) (row : Row) :
    (row.complete blob r).key = row.key := rfl

def Queue.affected (codec : Codec) (q : Queue) (dev id : GoString) (f : Row → Row) : Bool :=
  q.rows.any fun r => r.key == (dev,id) && codec.affected.counts r (f r)

def Queue.storeResult (codec : Codec) (q : Queue) (dev id : GoString) (r : Result) :
    Except QueueError Unit × Queue :=
  match codec.marshal r with
  | none => (.error .marshal,q)
  | some blob =>
    if q.affected codec dev id (Row.complete blob r) then
      (.ok (),q.update (Row.updateAt dev id (Row.complete blob r))
        (Row.key_updateAt (Row.key_complete blob r)))
    else (.error .notFound,q)

def Row.cancel (time : Time) (r : Row) : Row :=
  if r.state = .pending ∨ r.state = .sent then
    { r with state := .cancelled, completedAt := nanos time }
  else r

theorem Row.key_cancel (time : Time) (r : Row) : (r.cancel time).key = r.key := by
  unfold cancel
  split <;> rfl

def Queue.cancel (q : Queue) (dev : GoString) (ids : List GoString) (time : Time) : Queue :=
  ids.foldl (fun q id => q.update (Row.updateAt dev id (Row.cancel time))
    (Row.key_updateAt (Row.key_cancel time))) q

def Queue.cancelCount (q : Queue) (dev : GoString) (time : Time) : List GoString → Nat
  | [] => 0
  | id :: ids =>
    (q.update (Row.updateAt dev id (Row.cancel time)) (Row.key_updateAt (Row.key_cancel time))).cancelCount
      dev time ids + if q.rows.any fun r => r.key == (dev,id) && !r.state.terminal then 1 else 0

def Row.prunable (before : Time) (r : Row) : Bool :=
  r.state.terminal && decide (0 < r.completedAt) && decide (r.completedAt < nanos before)

/-- The keys `Prune` selects. `tie` is the order the engine gives rows that
were completed at the same time. -/
def Queue.prunedKeys (q : Queue) (before : Time) (limit : Int) (tie : Row → Nat) :
    List (GoString × GoString) :=
  let all := (q.rows.filter (Row.prunable before)).insertionSort fun a b =>
    a.completedAt < b.completedAt ∨ a.completedAt = b.completedAt ∧ tie a ≤ tie b
  ((if limit > 0 then all.take limit.toNat else all).map Row.key)

def Queue.prune (q : Queue) (before : Time) (limit : Int) (tie : Row → Nat) : Queue × Nat :=
  let keys := q.prunedKeys before limit tie
  ({ rows := q.rows.filter (fun r => decide (r.key ∉ keys))
     nextSeq := q.nextSeq
     unique := q.unique.sublist (List.filter_sublist.map _) },keys.length)

end MicrosoftDM.Sqlstore
