import MicrosoftDM.PushNotification
import MicrosoftDM.SessionEngine
import MicrosoftDM.SqlEnrollment

/-!
Push channels: server/sqlstore/push.go and the calls of server/pushnotify that use them. Every
call is the statements it runs, and the statements of calls that run at the same time
interleave. The row of a serial holds one URI, with its age and whether it is dead.
-/

set_option autoImplicit false

namespace MicrosoftDM.Pushnotify
open Effect (Program Pool)
open Mdm (Bytes)
open Ratelimit (hashKey sub day)
open Sqlstore (nanos fromNanos Storable)

structure PushRow where
  uri : GoString
  uriHash : GoString
  firstSeen : Int
  observedAt : Int
  dead : Bool
  pushStatus : GoString
  deriving DecidableEq

abbrev PushTable := AList fun _ : GoString => PushRow

structure PushChannel where
  uri : GoString
  firstSeen : Time
  observedAt : Time
  dead : Bool
  status : GoString
  deriving DecidableEq

structure PushEvent where
  result : Wns.Result
  failed : Bool
  renewalDue : Bool

inductive StoreError where
  | notFound | failed
  deriving DecidableEq

inductive PushError where
  | unavailable
  | store (e : StoreError)
  | send
  | joined (sendFailed : Bool) (e : StoreError)
  deriving DecidableEq

/-- What the calls do outside of their own code: the statements on
`push_channels`, and the calls on the other stores, the clock and the sender. -/
inductive PushOp where
  | get (deviceID : GoString)
  | insertChannel (serial : GoString)
  | updateURI (serial uri : GoString) (at' : Time)
  | updateStatus (serial status : GoString)
  | selectChannel (serial : GoString)
  | updateDead (serial uri : GoString)
  | now
  | send (uri : GoString)
  | logEvent (deviceID : GoString) (e : PushEvent)
  | queueGet (deviceID commandID : GoString)
  | queueStoreResult (deviceID commandID : GoString) (r : Mdm.Result)

abbrev PushOp.Ans : PushOp → Type
  | .get _ => Except StoreError Storage.Enrollment
  | .selectChannel _ => Except StoreError PushChannel
  | .now => Time
  | .send _ => Wns.Result × Bool
  | .queueGet _ _ => Except StoreError Syncml.Command
  | _ => Except StoreError Unit

abbrev Push (α : Type) := Program PushOp PushOp.Ans α

def ask (op : PushOp) : Push op.Ans := Effect.perform op

def storeError : Except StoreError Unit → Option PushError
  | .ok () => none
  | .error e => some (.store e)

def observeStatus (serial : GoString) : Option GoString → Push (Option PushError)
  | none => pure none
  | some status => do return storeError (← ask (.updateStatus serial status))

def observePush (serial : GoString) (uri status : Option GoString) (at' : Time) :
    Push (Option PushError) := do
  match ← ask (.insertChannel serial) with
  | .error e => return some (.store e)
  | .ok () =>
    match uri with
    | none => observeStatus serial status
    | some uri =>
      match ← ask (.updateURI serial uri at') with
      | .error e => return some (.store e)
      | .ok () => observeStatus serial status

def markPushDead (serial uri : GoString) : Push (Option PushError) := do
  return storeError (← ask (.updateDead serial uri))

def maxAge : Int := 30*day
def renewalAge : Int := 15*day

/-- The event that ends `Wake`. -/
def logPush (deviceID : GoString) (c : PushChannel) (r : Wns.Result × Bool) :
    Push (Wns.Result × Option PushError) := do
  let now ← ask .now
  match ← ask (.logEvent deviceID
    { result := r.1, failed := r.2, renewalDue := decide (sub now c.firstSeen ≥ renewalAge) }) with
  | .error e => return (r.1,some (.joined r.2 e))
  | .ok () => return (r.1,if r.2 then some .send else none)

/-- `Wake` once it has read the channel. -/
def wakeChannel (deviceID serial : GoString) (c : PushChannel) : Push (Wns.Result × Option PushError) := do
  if c.uri = [] ∨ c.dead = true ∨ c.firstSeen = 0 then return ({},some .unavailable)
  else
    let now ← ask .now
    if sub now c.firstSeen ≥ maxAge then return ({},some .unavailable)
    else
      let r ← ask (.send c.uri)
      if r.1.outcome = some .deadChannel then
        match ← ask (.updateDead serial c.uri) with
        | .error e => return (r.1,some (.joined r.2 e))
        | .ok () => logPush deviceID c r
      else logPush deviceID c r

def wake (deviceID : GoString) : Push (Wns.Result × Option PushError) := do
  match ← ask (.get deviceID) with
  | .error e => return ({},some (.store e))
  | .ok e =>
    if e.state ≠ .active then return ({},some .unavailable)
    else
      match ← ask (.selectChannel e.serial) with
      | .error .notFound => return ({},some .unavailable)
      | .error e => return ({},some (.store e))
      | .ok c => wakeChannel deviceID e.serial c

/-- What the loops of `TrackingQueue.StoreResult` observe: a URI or a status.
`valid` is `wns.ValidateChannel`. -/
def reported (providerID : GoString) (valid : GoString → Bool) (cmd : Syncml.Command)
    (items : List Syncml.Item) : List (Option GoString × Option GoString) :=
  let node : GoString := "./Device/Vendor/MSFT/DMClient/Provider/"
  match cmd with
  | .leaf .get body =>
    body.items.flatMap fun requested => items.filterMap fun item =>
      match item.data with
      | none => none
      | some d =>
        if item.locURI ≠ requested.target then none
        else if requested.target = node ++ Mdm.pathEscape providerID ++ "/Push/ChannelURI" then
          if d.text ≠ [] ∧ valid d.text = false then none else some (some d.text,none)
        else if requested.target = node ++ Mdm.pathEscape providerID ++ "/Push/Status" then
          some (none,some d.text)
        else none
  | _ => []

def observeAll (deviceID : GoString) (at' : Time) :
    List (Option GoString × Option GoString) → Push (Option PushError)
  | [] => pure none
  | (uri,status) :: rest => do
    match ← ask (.get deviceID) with
    | .error e => return some (.store e)
    | .ok e =>
      if e.state ≠ .active then observeAll deviceID at' rest
      else
        match ← observePush e.serial uri status at' with
        | some err => return some err
        | none => observeAll deviceID at' rest

def storeResult (providerID : GoString) (valid : GoString → Bool) (deviceID commandID : GoString)
    (r : Mdm.Result) : Push (Option PushError) := do
  if r.status = Syncml.statusOK ∧ r.items ≠ [] then
    match ← ask (.queueGet deviceID commandID) with
    | .error e => return some (.store e)
    | .ok cmd =>
      match ← observeAll deviceID r.receivedAt (reported providerID valid cmd r.items) with
      | some err => return some err
      | none => return storeError (← ask (.queueStoreResult deviceID commandID r))
  else return storeError (← ask (.queueStoreResult deviceID commandID r))

inductive PushCall where
  | observePush (serial : GoString) (uri status : Option GoString) (at' : Time)
  | markPushDead (serial uri : GoString)
  | wake (deviceID : GoString)
  | storeResult (providerID : GoString) (valid : GoString → Bool) (deviceID commandID : GoString)
      (r : Mdm.Result)

def PushCall.code : PushCall → Push (Wns.Result × Option PushError)
  | .observePush serial uri status at' => do return ({},← Pushnotify.observePush serial uri status at')
  | .markPushDead serial uri => do return ({},← Pushnotify.markPushDead serial uri)
  | .wake deviceID => Pushnotify.wake deviceID
  | .storeResult providerID valid deviceID commandID r => do
    return ({},← Pushnotify.storeResult providerID valid deviceID commandID r)

section Statements
variable (sha256 : Bytes → Bytes)

def PushRow.new : PushRow where
  uri := []
  uriHash := hashKey sha256 []
  firstSeen := 0
  observedAt := 0
  dead := false
  pushStatus := []

def PushRow.observe (uri : GoString) (at' : Time) (r : PushRow) : PushRow :=
  if r.observedAt ≤ nanos at' then
    { r with
      firstSeen := if r.uriHash = hashKey sha256 uri then r.firstSeen else nanos at'
      dead := if r.uriHash = hashKey sha256 uri then r.dead else false
      uri := uri, uriHash := hashKey sha256 uri, observedAt := nanos at' }
  else r

def PushRow.kill (uri : GoString) (r : PushRow) : PushRow :=
  if r.uriHash = hashKey sha256 uri then { r with dead := true } else r

def PushRow.channel (r : PushRow) : PushChannel where
  uri := r.uri
  firstSeen := fromNanos r.firstSeen
  observedAt := fromNanos r.observedAt
  dead := r.dead
  status := r.pushStatus

def updateRow (t : PushTable) (serial : GoString) (f : PushRow → PushRow) : PushTable :=
  match t.lookup serial with
  | none => t
  | some r => t.insert serial (f r)

/-- What is not the program's: whether a statement fails, and the answers of
the other stores, the clock and the sender. -/
structure Choice where
  fault : Option StoreError := none
  enrollment : Except StoreError Storage.Enrollment := .error .notFound
  command : Except StoreError Syncml.Command := .error .notFound
  time : Time := 0
  sent : Wns.Result × Bool := ({},false)

def changing (fault : Option StoreError) (t t' : PushTable) : Except StoreError Unit × PushTable :=
  match fault with
  | some e => (.error e,t)
  | none => (.ok (),t')

def answer (x : Choice) (t : PushTable) : (op : PushOp) → op.Ans × PushTable
  | .get _ => (x.enrollment,t)
  | .insertChannel serial =>
    changing x.fault t (if (t.lookup serial).isSome then t else t.insert serial (.new sha256))
  | .updateURI serial uri at' => changing x.fault t (updateRow t serial (.observe sha256 uri at'))
  | .updateStatus serial status =>
    changing x.fault t (updateRow t serial fun r => { r with pushStatus := status })
  | .selectChannel serial =>
    (match x.fault with
      | some e => .error e
      | none =>
        match t.lookup serial with
        | none => .error .notFound
        | some r => .ok r.channel,t)
  | .updateDead serial uri => changing x.fault t (updateRow t serial (.kill sha256 uri))
  | .now => (x.time,t)
  | .send _ => (x.sent,t)
  | .logEvent _ _ => changing x.fault t t
  | .queueGet _ _ => (x.command,t)
  | .queueStoreResult _ _ _ => changing x.fault t t

structure Event (ι : Type) where
  thread : ι
  op : PushOp
  ans : op.Ans

structure World (ι : Type) where
  channels : PushTable := ∅
  history : List (Event ι) := []

variable {ι : Type}

def gate : Effect.Gate PushOp PushOp.Ans ι Choice (World ι) := fun i x op w =>
  some ((answer sha256 x w.channels op).1,{
    channels := (answer sha256 x w.channels op).2
    history := ⟨i,op,(answer sha256 x w.channels op).1⟩ :: w.history })

def concurrent (calls : ι → PushCall) : Pool PushOp PushOp.Ans ι (World ι) (Wns.Result × Option PushError) where
  state := {}
  code i := (calls i).code

end Statements

section Histories
variable {ι : Type}

def Event.observation (serial : GoString) : Event ι → Option (GoString × Time)
  | ⟨_,.updateURI s uri at',.ok ()⟩ => if s = serial then some (uri,at') else none
  | _ => none

def observations (serial : GoString) (h : List (Event ι)) : List (GoString × Time) :=
  h.filterMap (Event.observation serial)

def lastURI (serial : GoString) (h : List (Event ι)) : GoString :=
  ((observations serial h).head?.map Prod.fst).getD []

def Event.marks (serial uri : GoString) : Event ι → Bool
  | ⟨_,.updateDead s u,.ok ()⟩ => decide (s = serial ∧ u = uri)
  | _ => false

def MarkedDead (serial uri : GoString) (h : List (Event ι)) : Prop :=
  ∃ e ∈ h, e.marks serial uri = true

instance (serial uri : GoString) (h : List (Event ι)) : Decidable (MarkedDead serial uri h) :=
  inferInstanceAs (Decidable (∃ e ∈ h, e.marks serial uri = true))

/-- The hash tells the URI of a statement from the one in the row. -/
def Told (sha256 : Bytes → Bytes) (stored uri : GoString) : Prop :=
  hashKey sha256 stored = hashKey sha256 uri → stored = uri

/-- Times do not go back and can be stored, and a URI that replaces another
one is new: it was neither observed nor marked dead before. -/
def Steady (sha256 : Bytes → Bytes) (w : World ι) (_ : ι) : PushOp → Prop
  | .updateURI serial uri at' =>
    Storable at' ∧ (∀ x ∈ observations serial w.history, x.2 ≤ at') ∧
      (uri = [] ∨ uri = lastURI serial w.history ∨
        (∀ x ∈ observations serial w.history, x.1 ≠ uri) ∧ ¬MarkedDead serial uri w.history) ∧
      Told sha256 (lastURI serial w.history) uri
  | .updateDead serial uri => Told sha256 (lastURI serial w.history) uri
  | _ => True

instance (sha256 : Bytes → Bytes) (w : World ι) (i : ι) (op : PushOp) : Decidable (Steady sha256 w i op) :=
  match op with
  | .updateURI _ _ _ => inferInstanceAs (Decidable (_ ∧ _ ∧ (_ ∨ _ ∨ _ ∧ _) ∧ (_ → _)))
  | .updateDead _ _ => inferInstanceAs (Decidable (_ → _))
  | .get _ | .insertChannel _ | .updateStatus _ _ | .selectChannel _ | .now | .send _
  | .logEvent _ _ | .queueGet _ _ | .queueStoreResult _ _ _ => .isTrue trivial

end Histories

inductive Position where
  | idle
  | inserted (serial : GoString)
  | found (serial : GoString)
  | read (serial : GoString) (c : PushChannel)
  | checked (serial : GoString) (c : PushChannel) (now : Time)

/-- What a call may do next, and where that leads. -/
inductive Moves : Position → (op : PushOp) → op.Ans → Position → Prop where
  | get {g : Position} {d : GoString} {ans : PushOp.Ans (.get d)} : Moves g (.get d) ans .idle
  | found {g : Position} {d : GoString} {e : Storage.Enrollment} (h : e.state = .active) :
      Moves g (.get d) (.ok e) (.found e.serial)
  | insert {g : Position} {serial : GoString} :
      Moves g (.insertChannel serial) (.ok ()) (.inserted serial)
  | insertFailed {g : Position} {serial : GoString} {err : StoreError} :
      Moves g (.insertChannel serial) (.error err) .idle
  | observe {serial uri : GoString} {at' : Time} {ans : PushOp.Ans (.updateURI serial uri at')} :
      Moves (.inserted serial) (.updateURI serial uri at') ans .idle
  | status {g : Position} {serial status : GoString} {ans : PushOp.Ans (.updateStatus serial status)} :
      Moves g (.updateStatus serial status) ans .idle
  | select {serial : GoString} {c : PushChannel} :
      Moves (.found serial) (.selectChannel serial) (.ok c) (.read serial c)
  | selectFailed {g : Position} {serial : GoString} {err : StoreError} :
      Moves g (.selectChannel serial) (.error err) .idle
  | check {serial : GoString} {c : PushChannel} {now : Time}
      (h : ¬(c.uri = [] ∨ c.dead = true ∨ c.firstSeen = 0)) :
      Moves (.read serial c) .now now (.checked serial c now)
  | send {serial : GoString} {c : PushChannel} {now : Time} {ans : PushOp.Ans (.send c.uri)}
      (h : ¬(c.uri = [] ∨ c.dead = true ∨ c.firstSeen = 0)) (hage : ¬sub now c.firstSeen ≥ maxAge) :
      Moves (.checked serial c now) (.send c.uri) ans .idle
  | mark {g : Position} {serial uri : GoString} {ans : PushOp.Ans (.updateDead serial uri)} :
      Moves g (.updateDead serial uri) ans .idle
  | now {g : Position} {now : Time} : Moves g .now now .idle
  | log {g : Position} {d : GoString} {e : PushEvent} {ans : PushOp.Ans (.logEvent d e)} :
      Moves g (.logEvent d e) ans .idle
  | queueGet {g : Position} {d id : GoString} {ans : PushOp.Ans (.queueGet d id)} :
      Moves g (.queueGet d id) ans .idle
  | queueStoreResult {g : Position} {d id : GoString} {r : Mdm.Result}
      {ans : PushOp.Ans (.queueStoreResult d id r)} : Moves g (.queueStoreResult d id r) ans .idle

abbrev Follows {α : Type} (p : Push α) : Prop := ∀ g, p.Follows Moves (fun _ _ => True) g

section Codes
variable {serial deviceID : GoString} {at' : Time}

theorem follows_observeStatus (status : Option GoString) : Follows (observeStatus serial status) := by
  intro g
  cases status with
  | none => exact trivial
  | some status => exact fun ans => ⟨_,.status,trivial⟩

theorem follows_observePush (uri status : Option GoString) :
    Follows (observePush serial uri status at') := by
  intro g ans
  cases ans with
  | error err => exact ⟨_,.insertFailed,trivial⟩
  | ok u =>
    refine ⟨_,.insert,?_⟩
    cases uri with
    | none => exact follows_observeStatus status _
    | some uri =>
      intro ans
      refine ⟨_,.observe,?_⟩
      cases ans with
      | error err => exact trivial
      | ok u => exact follows_observeStatus status _

theorem follows_markPushDead (uri : GoString) : Follows (markPushDead serial uri) :=
  fun _ _ => ⟨_,.mark,trivial⟩

theorem follows_logPush (c : PushChannel) (r : Wns.Result × Bool) : Follows (logPush deviceID c r) := by
  intro g now
  refine ⟨_,.now,fun ans => ⟨_,.log,?_⟩⟩
  cases ans with
  | error _ | ok _ => exact trivial

theorem follows_wakeChannel (c : PushChannel) :
    (wakeChannel deviceID serial c).Follows Moves (fun _ _ => True) (.read serial c) := by
  unfold wakeChannel
  split
  · exact trivial
  rename_i husable
  intro now
  refine ⟨_,.check husable,?_⟩
  show Program.Follows _ _ (if sub now c.firstSeen ≥ maxAge then _ else _) _
  split
  · exact trivial
  rename_i hage
  intro r
  refine ⟨_,.send husable hage,?_⟩
  show Program.Follows _ _ (if r.1.outcome = some .deadChannel then _ else _) _
  split
  · intro ans
    refine ⟨_,.mark,?_⟩
    cases ans with
    | error err => exact trivial
    | ok u => exact follows_logPush c r _
  · exact follows_logPush c r _

theorem follows_wake : Follows (wake deviceID) := by
  intro g ans
  cases ans with
  | error err => exact ⟨_,.get,trivial⟩
  | ok e =>
    by_cases hact : e.state = .active
    · refine ⟨_,.found hact,?_⟩
      show Program.Follows _ _ (if e.state ≠ .active then _ else _) _
      rw [if_neg (not_not.mpr hact)]
      intro ans
      cases ans with
      | error err =>
        refine ⟨_,.selectFailed,?_⟩
        cases err with
        | notFound | failed => exact trivial
      | ok c => exact ⟨_,.select,follows_wakeChannel c⟩
    · refine ⟨_,.get,?_⟩
      show Program.Follows _ _ (if e.state ≠ .active then _ else _) _
      rw [if_pos hact]
      exact trivial

theorem follows_observeAll (xs : List (Option GoString × Option GoString)) :
    Follows (observeAll deviceID at' xs) := by
  induction xs with
  | nil => exact fun _ => trivial
  | cons x xs ih =>
    intro g ans
    refine ⟨_,.get,?_⟩
    cases ans with
    | error err => exact trivial
    | ok e =>
      show Program.Follows _ _ (if e.state ≠ .active then _ else _) _
      split
      · exact ih _
      refine (follows_observePush x.1 x.2 _).bind fun r g' _ => ?_
      cases r with
      | some err => exact trivial
      | none => exact ih g'

theorem follows_storeResult (providerID : GoString) (valid : GoString → Bool) (commandID : GoString)
    (r : Mdm.Result) : Follows (storeResult providerID valid deviceID commandID r) := by
  intro g
  unfold storeResult
  split
  · intro ans
    refine ⟨_,.queueGet,?_⟩
    cases ans with
    | error err => exact trivial
    | ok cmd =>
      refine (follows_observeAll _ _).bind fun r g' _ => ?_
      cases r with
      | some err => exact trivial
      | none => exact fun ans => ⟨_,.queueStoreResult,trivial⟩
  · exact fun ans => ⟨_,.queueStoreResult,trivial⟩

theorem PushCall.follows (c : PushCall) : Follows c.code := by
  intro g
  cases c with
  | observePush serial uri status at' =>
    exact (follows_observePush uri status g).bind fun _ _ _ => trivial
  | markPushDead serial uri => exact (follows_markPushDead uri g).bind fun _ _ _ => trivial
  | wake deviceID => exact follows_wake g
  | storeResult providerID valid deviceID commandID r =>
    exact (follows_storeResult providerID valid commandID r g).bind fun _ _ _ => trivial

end Codes

def Quiet (serial : GoString) : (op : PushOp) → op.Ans → Prop
  | .updateURI s _ _,.ok () => s ≠ serial
  | .updateDead s _,.ok () => s ≠ serial
  | _,_ => True

inductive RowMove (sha256 : Bytes → Bytes) (serial : GoString) :
    (op : PushOp) → op.Ans → Option PushRow → Option PushRow → Prop where
  | same {op : PushOp} {ans : op.Ans} {r : Option PushRow} (h : Quiet serial op ans) :
      RowMove sha256 serial op ans r r
  | inserted : RowMove sha256 serial (.insertChannel serial) (.ok ()) none (some (.new sha256))
  | status {status : GoString} {r : PushRow} :
      RowMove sha256 serial (.updateStatus serial status) (.ok ()) (some r)
        (some { r with pushStatus := status })
  | observed {uri : GoString} {at' : Time} {r : Option PushRow} :
      RowMove sha256 serial (.updateURI serial uri at') (.ok ()) r (r.map (.observe sha256 uri at'))
  | killed {uri : GoString} {r : Option PushRow} :
      RowMove sha256 serial (.updateDead serial uri) (.ok ()) r (r.map (.kill sha256 uri))

section Rows
variable (sha256 : Bytes → Bytes) (x : Choice) (t : PushTable)

theorem lookup_updateRow (s serial : GoString) (f : PushRow → PushRow) :
    (updateRow t s f).lookup serial = if serial = s then (t.lookup serial).map f else t.lookup serial := by
  unfold updateRow
  by_cases hs : serial = s
  · subst hs
    rw [if_pos rfl]
    cases hr : t.lookup serial with
    | none => exact hr
    | some r => exact AList.lookup_insert t
  · rw [if_neg hs]
    split
    · rfl
    · exact AList.lookup_insert_ne hs

theorem answer_rowMove (serial : GoString) (op : PushOp) :
    RowMove sha256 serial op (answer sha256 x t op).1 (t.lookup serial)
      ((answer sha256 x t op).2.lookup serial) := by
  cases hf : x.fault with
  | some err => cases op <;> simp only [answer,changing,hf] <;> exact .same trivial
  | none =>
    cases op with
    | insertChannel s =>
      simp only [answer,changing,hf]
      split
      · exact .same trivial
      rename_i hnone
      have hnone := Option.not_isSome_iff_eq_none.mp hnone
      by_cases hs : serial = s
      · subst hs
        rw [AList.lookup_insert,hnone]
        exact .inserted
      · rw [AList.lookup_insert_ne hs]
        exact .same trivial
    | updateURI s uri at' =>
      simp only [answer,changing,hf,lookup_updateRow]
      split
      · rename_i hs
        subst hs
        exact .observed
      · rename_i hs
        exact .same fun he => hs he.symm
    | updateStatus s status =>
      simp only [answer,changing,hf,lookup_updateRow]
      split
      · rename_i hs
        subst hs
        cases t.lookup serial with
        | none => exact .same trivial
        | some r => exact .status
      · exact .same trivial
    | updateDead s uri =>
      simp only [answer,changing,hf,lookup_updateRow]
      split
      · rename_i hs
        subst hs
        exact .killed
      · rename_i hs
        exact .same fun he => hs he.symm
    | logEvent | queueStoreResult =>
      simp only [answer,changing,hf]
      exact .same trivial
    | get | now | send | selectChannel | queueGet => exact .same trivial

end Rows

variable {serial uri : GoString} {at' t : Time} {r : PushRow} {r' : Option PushRow} {op : PushOp}
  {ans : op.Ans}

section Records
variable {ι : Type} {sha256 : Bytes → Bytes} {h : List (Event ι)} {serial : GoString} {i : ι} {op : PushOp}
  {ans : op.Ans}

structure Recorded (sha256 : Bytes → Bytes) (h : List (Event ι)) (serial : GoString) (r : PushRow) :
    Prop where
  hash : r.uriHash = hashKey sha256 r.uri
  last : r.uri = lastURI serial h
  observed : r.observedAt = 0 ∨ ∃ x ∈ observations serial h, r.observedAt = nanos x.2
  age : r.uri ≠ [] → ∀ t, (r.uri,t) ∈ observations serial h → fromNanos r.firstSeen ≤ t
  dead : r.uri ≠ [] → (r.dead = true ↔ MarkedDead serial r.uri h)

theorem observations_quiet (hq : Quiet serial op ans) :
    observations serial (⟨i,op,ans⟩ :: h) = observations serial h := by
  have hnone : Event.observation serial (⟨i,op,ans⟩ : Event ι) = none := by
    unfold Event.observation
    split
    · rename_i he
      cases he
      exact if_neg hq
    · rfl
  rw [observations,List.filterMap_cons,hnone]
  rfl

theorem markedDead_cons {e : Event ι} :
    MarkedDead serial uri (e :: h) ↔ e.marks serial uri = true ∨ MarkedDead serial uri h := by
  unfold MarkedDead
  simp only [List.mem_cons,exists_eq_or_imp]

theorem markedDead_quiet (hq : Quiet serial op ans) :
    MarkedDead serial uri (⟨i,op,ans⟩ :: h) ↔ MarkedDead serial uri h := by
  rw [markedDead_cons]
  refine or_iff_right fun hm => ?_
  unfold Event.marks at hm
  split at hm
  · rename_i he
    cases he
    exact hq (of_decide_eq_true hm).1
  · cases hm

theorem Recorded.quiet {r : PushRow} (hr : Recorded sha256 h serial r) (hq : Quiet serial op ans) :
    Recorded sha256 (⟨i,op,ans⟩ :: h) serial r where
  hash := hr.hash
  last := by
    rw [lastURI,observations_quiet hq]
    exact hr.last
  observed := by
    rw [observations_quiet hq]
    exact hr.observed
  age := by
    rw [observations_quiet hq]
    exact hr.age
  dead hne := by
    rw [markedDead_quiet hq]
    exact hr.dead hne

theorem observations_observed (serial uri : GoString) (at' : Time) :
    observations serial ((⟨i,.updateURI serial uri at',.ok ()⟩ : Event ι) :: h) =
      (uri,at') :: observations serial h := by
  simp [observations,Event.observation]

theorem nanos_le {s : Time} (hs : Storable s) (ht : Storable t) (h : s ≤ t) : nanos s ≤ nanos t := by
  have hlt := Sqlstore.fromNanos_lt (Sqlstore.nanos_nonneg ht) (Sqlstore.nanos_nonneg hs)
  rw [Sqlstore.fromNanos_nanos ht,Sqlstore.fromNanos_nanos hs] at hlt
  unfold Time at *
  omega

theorem exists_of_lastURI (hlast : uri = lastURI serial h) (hne : uri ≠ []) :
    ∃ t, (observations serial h).head? = some (uri,t) := by
  unfold lastURI at hlast
  cases ho : (observations serial h).head? with
  | none =>
    rw [ho] at hlast
    exact absurd hlast hne
  | some x =>
    rw [ho] at hlast
    exact ⟨x.2,by rw [hlast]; rfl⟩

theorem Recorded.uri_eq (hr : Recorded sha256 h serial r) (ht : Told sha256 (lastURI serial h) uri)
    (hsame : r.uriHash = hashKey sha256 uri) : r.uri = uri :=
  hr.last.trans (ht (by rw [← hr.last,← hr.hash,hsame]))

theorem Recorded.observe {w : World ι} (hr : Recorded sha256 w.history serial r)
    (hstorable : ∀ x ∈ observations serial w.history, Storable x.2)
    (hsteady : Steady sha256 w i (.updateURI serial uri at')) :
    Recorded sha256 (⟨i,.updateURI serial uri at',.ok ()⟩ :: w.history) serial
      (r.observe sha256 uri at') := by
  obtain ⟨hat,htimes,hnew,htold⟩ := hsteady
  have hle : r.observedAt ≤ nanos at' := by
    rcases hr.observed with h0 | ⟨x,hx,h0⟩
    · rw [h0]
      exact Sqlstore.nanos_nonneg hat
    · rw [h0]
      exact nanos_le (hstorable x hx) hat (htimes x hx)
  have hmarked : ∀ u, MarkedDead serial u (⟨i,.updateURI serial uri at',.ok ()⟩ :: w.history) ↔
      MarkedDead serial u w.history := by
    intro u
    rw [markedDead_cons]
    exact or_iff_right fun hm => nomatch hm
  unfold PushRow.observe
  rw [if_pos hle]
  refine ⟨rfl,?_,.inr ⟨(uri,at'),?_,rfl⟩,fun hne t ht => ?_,fun hne => ?_⟩
  · rw [lastURI,observations_observed]
    rfl
  · rw [observations_observed]
    exact List.mem_cons_self
  · rw [observations_observed,List.mem_cons] at ht
    dsimp only at hne ht ⊢
    by_cases hsame : r.uriHash = hashKey sha256 uri
    · have huri : r.uri = uri := hr.uri_eq htold hsame
      rw [if_pos hsame]
      rcases ht with ht | ht
      · cases ht
        obtain ⟨t₀,ht₀⟩ := exists_of_lastURI (huri ▸ hr.last) hne
        have hmem := List.mem_of_head? ht₀
        exact Int.le_trans (hr.age (huri ▸ hne) t₀ (huri ▸ hmem)) (htimes _ hmem)
      · exact hr.age (huri ▸ hne) t (huri ▸ ht)
    · have hother : uri ≠ lastURI serial w.history := fun he => by
        rw [← hr.last] at he
        exact hsame (by rw [hr.hash,he])
      obtain ⟨hfresh,-⟩ := (hnew.resolve_left hne).resolve_left hother
      rw [if_neg hsame]
      rcases ht with ht | ht
      · cases ht
        rw [Sqlstore.fromNanos_nanos hat]
      · exact absurd rfl (hfresh _ ht)
  · rw [hmarked]
    dsimp only at hne ⊢
    by_cases hsame : r.uriHash = hashKey sha256 uri
    · have huri : r.uri = uri := hr.uri_eq htold hsame
      rw [if_pos hsame,← huri]
      exact hr.dead (huri ▸ hne)
    have hother : uri ≠ lastURI serial w.history := fun he => by
      rw [← hr.last] at he
      exact hsame (by rw [hr.hash,he])
    obtain ⟨-,halive⟩ := (hnew.resolve_left hne).resolve_left hother
    rw [if_neg hsame]
    exact iff_of_false (fun hf => nomatch hf) halive

theorem Recorded.kill (htold : Told sha256 (lastURI serial h) uri)
    (hr : Recorded sha256 h serial r) :
    Recorded sha256 (⟨i,.updateDead serial uri,.ok ()⟩ :: h) serial (r.kill sha256 uri) := by
  have hobs : observations serial ((⟨i,.updateDead serial uri,.ok ()⟩ : Event ι) :: h) =
      observations serial h := rfl
  unfold PushRow.kill
  by_cases hsame : r.uriHash = hashKey sha256 uri
  · have huri : r.uri = uri := hr.uri_eq htold hsame
    rw [if_pos hsame]
    refine ⟨hr.hash,hr.last,hr.observed,hr.age,fun _ => iff_of_true rfl ?_⟩
    rw [markedDead_cons]
    exact .inl (decide_eq_true ⟨rfl,huri.symm⟩)
  · rw [if_neg hsame]
    refine ⟨hr.hash,hr.last,hr.observed,hr.age,fun hne => ?_⟩
    rw [markedDead_cons,hr.dead hne]
    refine (or_iff_right fun hm => hsame ?_).symm
    rw [hr.hash,(of_decide_eq_true hm).2]

theorem Recorded.step {w : World ι} {r' : PushRow} (hr : Recorded sha256 w.history serial r)
    (hstorable : ∀ x ∈ observations serial w.history, Storable x.2) (hsteady : Steady sha256 w i op)
    (hmove : RowMove sha256 serial op ans (some r) (some r')) :
    Recorded sha256 (⟨i,op,ans⟩ :: w.history) serial r' := by
  generalize ha : some r = a at hmove
  generalize hb : some r' = b at hmove
  cases hmove with
  | same hq =>
    cases ha
    cases hb
    exact hr.quiet hq
  | inserted => cases ha
  | @status st r₀ =>
    cases ha
    cases hb
    have hq := @Recorded.quiet _ _ _ _ i (.updateStatus serial st) (.ok ()) _ hr trivial
    exact ⟨hq.hash,hq.last,hq.observed,hq.age,hq.dead⟩
  | observed =>
    cases ha
    cases hb
    exact hr.observe hstorable hsteady
  | killed =>
    cases ha
    cases hb
    exact hr.kill hsteady

end Records

section Runs
variable {ι : Type} {sha256 : Bytes → Bytes}

def FoundBefore (i : ι) (serial : GoString) (h : List (Event ι)) : Prop :=
  ∃ d e, ⟨i,.get d,.ok e⟩ ∈ h ∧ e.serial = serial ∧ e.state = .active

def Position.Fits (i : ι) (w : World ι) : Position → Prop
  | .idle => True
  | .inserted serial => ∃ r, w.channels.lookup serial = some r
  | .found serial => FoundBefore i serial w.history
  | .read serial c => ∃ pre, ⟨i,.selectChannel serial,.ok c⟩ :: pre <:+ w.history ∧ FoundBefore i serial pre
  | .checked serial c now => ∃ mid pre, ⟨i,.now,now⟩ :: mid <:+ w.history ∧
      ⟨i,.selectChannel serial,.ok c⟩ :: pre <:+ mid ∧ FoundBefore i serial pre

def ReadBefore (i : ι) (uri : GoString) (h : List (Event ι)) : Prop :=
  ∃ serial c now mid pre, ⟨i,.now,now⟩ :: mid <:+ h ∧ ⟨i,.selectChannel serial,.ok c⟩ :: pre <:+ mid ∧
    FoundBefore i serial pre ∧ c.uri = uri ∧ ¬(c.uri = [] ∨ c.dead = true ∨ c.firstSeen = 0) ∧
    ¬sub now c.firstSeen ≥ maxAge

structure Sound (sha256 : Bytes → Bytes) (w : World ι) (g : ι → Position) : Prop where
  rows : ∀ serial r, w.channels.lookup serial = some r → Recorded sha256 w.history serial r
  missing : ∀ serial, w.channels.lookup serial = none → observations serial w.history = []
  storable : ∀ serial, ∀ x ∈ observations serial w.history, Storable x.2
  reads : ∀ i serial c pre, ⟨i,.selectChannel serial,.ok c⟩ :: pre <:+ w.history →
    ∃ r, r.channel = c ∧ Recorded sha256 pre serial r
  sends : ∀ i uri ans earlier, ⟨i,.send uri,ans⟩ :: earlier <:+ w.history → ReadBefore i uri earlier
  fits : ∀ i, (g i).Fits i w

theorem FoundBefore.mono {i : ι} {h h' : List (Event ι)} (hf : FoundBefore i serial h)
    (hs : h <:+ h') : FoundBefore i serial h' := by
  obtain ⟨d,e,hmem,hrest⟩ := hf
  exact ⟨d,e,hs.subset hmem,hrest⟩

theorem Position.Fits.mono {i : ι} {w w' : World ι} {g : Position} (hg : g.Fits i w)
    (hh : w.history <:+ w'.history)
    (hr : ∀ serial r, w.channels.lookup serial = some r → ∃ r', w'.channels.lookup serial = some r') :
    g.Fits i w' := by
  cases g with
  | idle => exact trivial
  | inserted serial =>
    obtain ⟨r,hlook⟩ := hg
    exact hr serial r hlook
  | found serial => exact FoundBefore.mono hg hh
  | read serial c =>
    obtain ⟨pre,hpre,hf⟩ := hg
    exact ⟨pre,hpre.trans hh,hf⟩
  | checked serial c now =>
    obtain ⟨mid,pre,hmid,hrest⟩ := hg
    exact ⟨mid,pre,hmid.trans hh,hrest⟩

theorem RowMove.some_left (h : RowMove sha256 serial op ans (some r) r') : ∃ x, r' = some x := by
  cases h with
  | same _ => exact ⟨_,rfl⟩
  | status | observed | killed => exact ⟨_,rfl⟩

theorem RowMove.observations_eq {r : Option PushRow}
    (h : RowMove sha256 serial op ans r r') (i : ι) (past : List (Event ι)) :
    observations serial (⟨i,op,ans⟩ :: past) = observations serial past ∨
      ∃ uri at', op = .updateURI serial uri at' := by
  cases h with
  | same hq => exact .inl (observations_quiet hq)
  | inserted | status => exact .inl rfl
  | observed => exact .inr ⟨_,_,rfl⟩
  | killed => exact .inl rfl

theorem recorded_new {h : List (Event ι)} (hnone : observations serial h = []) :
    Recorded sha256 h serial (.new sha256) where
  hash := rfl
  last := by
    rw [lastURI,hnone]
    rfl
  observed := .inl rfl
  age hne := absurd rfl hne
  dead hne := absurd rfl hne

variable {w w' : World ι} {g : ι → Position} {i : ι} {x : Choice} {op : PushOp} {ans : op.Ans}
  {g' : Position}

theorem Moves.row_of_observed
    {ans : PushOp.Ans (.updateURI serial uri at')} (hm : Moves (g i) (.updateURI serial uri at') ans g')
    (hfits : (g i).Fits i w) : ∃ r, w.channels.lookup serial = some r := by
  generalize g i = p at hm hfits
  cases hm
  exact hfits

theorem Sound.rows_step (h : Sound sha256 w g)
    (hsteady : Steady sha256 w i op) (hm : Moves (g i) op (answer sha256 x w.channels op).1 g') :
    (∀ serial r, (answer sha256 x w.channels op).2.lookup serial = some r →
      Recorded sha256 (⟨i,op,(answer sha256 x w.channels op).1⟩ :: w.history) serial r) ∧
    ∀ serial, (answer sha256 x w.channels op).2.lookup serial = none →
      observations serial (⟨i,op,(answer sha256 x w.channels op).1⟩ :: w.history) = [] := by
  have hmoves := fun serial => answer_rowMove sha256 x w.channels serial op
  refine ⟨fun serial r hr => ?_,fun serial hr => ?_⟩
  · have hmove := hmoves serial
    rw [hr] at hmove
    cases ho : w.channels.lookup serial with
    | some r₀ =>
      rw [ho] at hmove
      exact (h.rows serial r₀ ho).step (h.storable serial) hsteady hmove
    | none =>
      rw [ho] at hmove
      generalize (answer sha256 x w.channels op).1 = ans at hmove
      generalize hb : some r = b at hmove
      cases hmove with
      | same _ => cases hb
      | inserted =>
        cases hb
        exact (recorded_new (h.missing serial ho)).quiet trivial
      | observed | killed => cases hb
  · have hmove := hmoves serial
    rw [hr] at hmove
    cases ho : w.channels.lookup serial with
    | some r₀ =>
      rw [ho] at hmove
      obtain ⟨y,hy⟩ := hmove.some_left
      cases hy
    | none =>
      rw [ho] at hmove
      rcases hmove.observations_eq i w.history with heq | ⟨uri,at',rfl⟩
      · rw [heq]
        exact h.missing serial ho
      obtain ⟨y,hy⟩ := hm.row_of_observed (h.fits i)
      rw [ho] at hy
      cases hy

theorem storable_step (h : ∀ serial, ∀ x ∈ observations serial w.history, Storable x.2)
    (hsteady : Steady sha256 w i op) :
    ∀ serial, ∀ x ∈ observations serial (⟨i,op,ans⟩ :: w.history), Storable x.2 := by
  intro serial y hy
  rw [observations,List.filterMap_cons] at hy
  split at hy
  · exact h serial y hy
  rename_i z hz
  rcases List.mem_cons.mp hy with rfl | hy
  · unfold Event.observation at hz
    split at hz
    · rename_i he
      cases he
      split at hz
      · cases hz
        exact hsteady.1
      · cases hz
    · cases hz
  · exact h serial y hy

theorem row_of_inserted {t : PushTable} {p : Position}
    (hm : Moves p op (answer sha256 x t op).1 (.inserted serial)) :
    ∃ r, (answer sha256 x t op).2.lookup serial = some r := by
  have hop : op = .insertChannel serial := by
    generalize (answer sha256 x t op).1 = ans at hm
    cases hm
    rfl
  subst hop
  unfold answer changing at hm ⊢
  cases hf : x.fault with
  | some err =>
    rw [hf] at hm
    cases hm
  | none =>
    dsimp only
    split
    · rename_i hsome
      exact Option.isSome_iff_exists.mp hsome
    · exact ⟨_,AList.lookup_insert t⟩

theorem Sound.fits_step (h : Sound sha256 w g)
    (hm : Moves (g i) op (answer sha256 x w.channels op).1 g') :
    g'.Fits i ⟨(answer sha256 x w.channels op).2,⟨i,op,(answer sha256 x w.channels op).1⟩ :: w.history⟩ := by
  have hfits := h.fits i
  have hrow : ∀ serial, g' = .inserted serial →
      ∃ r, (answer sha256 x w.channels op).2.lookup serial = some r := by
    rintro serial rfl
    exact row_of_inserted hm
  generalize g i = p at hm hfits
  generalize (answer sha256 x w.channels op).1 = ans at hm
  generalize (answer sha256 x w.channels op).2 = t at hrow ⊢
  cases hm with
  | get => exact trivial
  | @found _ d e hact => exact ⟨d,e,List.mem_cons_self,rfl,hact⟩
  | insert => exact hrow _ rfl
  | insertFailed | observe | status => exact trivial
  | select => exact ⟨_,List.suffix_refl _,hfits⟩
  | selectFailed => exact trivial
  | check _ =>
    obtain ⟨pre,hpre,hf⟩ := hfits
    exact ⟨_,pre,List.suffix_refl _,hpre,hf⟩
  | send _ _ | mark | now | log | queueGet | queueStoreResult => exact trivial

theorem Sound.step [DecidableEq ι] (h : Sound sha256 w g)
    (hsteady : Steady sha256 w i op) (hm : Moves (g i) op (answer sha256 x w.channels op).1 g') :
    Sound sha256 ⟨(answer sha256 x w.channels op).2,⟨i,op,(answer sha256 x w.channels op).1⟩ :: w.history⟩
      (Function.update g i g') where
  rows := (h.rows_step hsteady hm).1
  missing := (h.rows_step hsteady hm).2
  storable := storable_step h.storable hsteady
  reads j serial c pre hpre := by
    rcases List.suffix_cons_iff.mp hpre with he | hpre
    · obtain ⟨hev,rfl⟩ := List.cons.inj he
      generalize hans : (answer sha256 x w.channels op).1 = ans at hev
      cases hev
      unfold answer at hans
      dsimp only at hans
      split at hans
      · cases hans
      split at hans
      · cases hans
      · rename_i r hr
        exact ⟨r,Except.ok.inj hans,h.rows serial r hr⟩
    · exact h.reads j serial c pre hpre
  sends j uri ans earlier hpre := by
    rcases List.suffix_cons_iff.mp hpre with he | hpre
    · obtain ⟨hev,rfl⟩ := List.cons.inj he
      have hfits := h.fits i
      generalize g i = p at hm hfits
      generalize (answer sha256 x w.channels op).1 = ans' at hev hm
      cases hev
      cases hm with
      | @send serial c now _ husable hage =>
        obtain ⟨mid,pre,hmid,hread,hf⟩ := hfits
        exact ⟨serial,c,now,mid,pre,hmid,hread,hf,rfl,husable,hage⟩
    · exact h.sends j uri ans earlier hpre
  fits j := by
    by_cases hj : j = i
    · subst hj
      rw [Function.update_self]
      exact h.fits_step hm
    rw [Function.update_of_ne hj]
    refine (h.fits j).mono (List.suffix_cons _ _) fun serial r hr => ?_
    have hmove := answer_rowMove sha256 x w.channels serial op
    rw [hr] at hmove
    exact hmove.some_left

theorem sound_start (sha256 : Bytes → Bytes) : Sound sha256 ({} : World ι) fun _ => .idle where
  rows _ _ hr := nomatch hr
  missing _ _ := rfl
  storable _ _ hx := nomatch hx
  reads _ _ _ _ hp := nomatch List.suffix_nil.mp hp
  sends _ _ _ _ hp := nomatch List.suffix_nil.mp hp
  fits _ := trivial

theorem sub_lt {u : Time} (h : ¬sub t u ≥ maxAge) : t-u < maxAge := by
  unfold sub maxAge day minInt maxInt at h
  unfold maxAge day
  unfold Time at *
  omega

end Runs

/-- As long as times do not go back and no URI comes back: a call sends to the URI last observed
of an active enrollment, which is not dead and less than thirty days old. A channel is dead only
if its own URI was marked dead. -/
theorem wake_sends_current {ι : Type} [DecidableEq ι] (sha256 : Bytes → Bytes)
    (calls : ι → PushCall) (events : List (ι × Choice))
    (hsteady : Lifecycle.Allowed (Pool.step (gate sha256)) (Pool.Allows (Steady sha256))
      (concurrent calls) events) :
    let h := (events.foldl (Pool.step (gate sha256)) (concurrent calls)).state.history
    (∀ i uri ans earlier, ⟨i,.send uri,ans⟩ :: earlier <:+ h →
      ∃ serial c now mid pre, ⟨i,.now,now⟩ :: mid <:+ earlier ∧
        ⟨i,.selectChannel serial,.ok c⟩ :: pre <:+ mid ∧ FoundBefore i serial pre ∧
        (∃ t, (observations serial pre).head? = some (uri,t)) ∧ ¬MarkedDead serial uri pre ∧
        ∀ t, (uri,t) ∈ observations serial pre → now-t < maxAge) ∧
    ∀ i serial c pre, ⟨i,.selectChannel serial,.ok c⟩ :: pre <:+ h → c.uri ≠ [] →
      (c.dead = true ↔ MarkedDead serial c.uri pre) := by
  have hstart : (concurrent calls).Tracked Moves (fun p g => Sound sha256 p.state g) :=
    ⟨fun _ => .idle,fun i => (calls i).follows _,sound_start sha256⟩
  obtain ⟨g,-,hg⟩ := hstart.run (fun p g e op k ans s' g' h hok hcall hgate hm => by
    cases Option.some.inj hgate
    exact h.step (hok.call hcall) hm) hsteady
  refine ⟨fun i uri ans earlier hsend => ?_,fun i serial c pre hread hne => ?_⟩
  · obtain ⟨serial,c,now,mid,pre,hmid,hread,hfound,huri,husable,hage⟩ := hg.sends i uri ans earlier hsend
    obtain ⟨r,rfl,hr⟩ := hg.reads i serial c pre
      (hread.trans ((List.suffix_cons _ _).trans (hmid.trans ((List.suffix_cons _ _).trans hsend))))
    subst huri
    simp only [not_or] at husable
    have hne : r.uri ≠ [] := husable.1
    refine ⟨serial,r.channel,now,mid,pre,hmid,hread,hfound,exists_of_lastURI hr.last hne,
      fun hdead => husable.2.1 ((hr.dead hne).mpr hdead),fun t ht => ?_⟩
    have hlt := sub_lt hage
    have hle := hr.age hne t ht
    change now-fromNanos r.firstSeen < maxAge at hlt
    unfold Time at *
    omega
  · obtain ⟨r,rfl,hr⟩ := hg.reads i serial c pre hread
    exact hr.dead hne

namespace Sample

def oldURI : GoString := "https://a.notify.windows.com/old"
def newURI : GoString := "https://b.notify.windows.com/new"

def digests : List (Bytes × Bytes) :=
  [([],[227,176,196,66,152,252,28,20,154,251,244,200,153,111,185,36,39,174,65,228,100,155,147,76,164,149,153,
      27,120,82,184,85]),
    (oldURI,[132,63,91,17,19,17,52,97,220,218,101,52,247,60,9,58,122,150,26,136,124,68,116,101,44,90,0,87,244,
      162,129,189]),
    (newURI,[83,28,85,212,227,180,239,19,36,31,55,194,153,191,220,206,39,27,160,22,48,169,31,147,211,222,255,
      237,60,94,186,11])]

def hash (b : Bytes) : Bytes := (digests.lookup b).getD []

def start : Time := Sqlstore.Sample.after

def calls : Fin 5 → PushCall
  | 0 => .observePush "1" (some oldURI) none start
  | 1 => .markPushDead "1" oldURI
  | 2 => .observePush "1" (some newURI) none (start+day)
  | 3 => .observePush "1" (some oldURI) none (start+31*day)
  | 4 => .wake "DEVICE-A"

def statements (threads : List (Fin 5)) : List (Fin 5 × Choice) := threads.map fun i => (i,{})

/-- `Wake` up to its answer from WNS. -/
def waking (now : Time) : List (Fin 5 × Choice) :=
  [(4,{ enrollment := .ok (Sqlstore.Sample.enrollment "1") }),(4,{}),(4,{ time := now }),(4,{})]

def renewed : List (Fin 5 × Choice) := statements [0,0,2,2,1] ++ waking (start+2*day)

def returned : List (Fin 5 × Choice) := statements [0,0,1,2,2,3,3] ++ waking (start+31*day)

end Sample

set_option maxRecDepth 20000

theorem wake_sends_current_renewed : ∃ earlier serial pre,
    ⟨4,.send Sample.newURI,({},false)⟩ :: earlier <:+
      (Sample.renewed.foldl (Pool.step (gate Sample.hash)) (concurrent Sample.calls)).state.history ∧
    FoundBefore (4 : Fin 5) serial pre ∧ (∃ t, (observations serial pre).head? = some (Sample.newURI,t)) ∧
    ¬MarkedDead serial Sample.newURI pre := by
  have hsends := (wake_sends_current Sample.hash Sample.calls Sample.renewed
    (by decide +kernel)).1 4 Sample.newURI ({},false) _ ⟨[],rfl⟩
  obtain ⟨serial,c,now,mid,pre,-,-,hfound,hlast,hdead,-⟩ := hsends
  exact ⟨_,serial,pre,⟨[],rfl⟩,hfound,hlast,hdead⟩

/-- A URI is sent to although it was marked dead and is older than thirty days. -/
theorem wake_sends_dead : ∃ uri ans earlier c pre,
    ⟨4,.send uri,ans⟩ :: earlier <:+
      (Sample.returned.foldl (Pool.step (gate Sample.hash)) (concurrent Sample.calls)).state.history ∧
    earlier = ⟨4,.now,Sample.start+31*day⟩ :: ⟨4,.selectChannel "1",.ok c⟩ :: pre ∧ c.uri = uri ∧
    observations "1" pre =
      [(uri,Sample.start+31*day),(Sample.newURI,Sample.start+day),(uri,Sample.start)] ∧
    MarkedDead "1" uri pre :=
  ⟨Sample.oldURI,_,_,_,_,⟨[],rfl⟩,rfl,rfl,by decide +kernel,by decide +kernel⟩

end MicrosoftDM.Pushnotify
