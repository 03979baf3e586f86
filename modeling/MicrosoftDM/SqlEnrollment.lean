import MicrosoftDM.EnrollmentStore
import MicrosoftDM.SqlQueue
import MicrosoftDM.SqlTransactions

/-!
The enrollments of server/sqlstore/enrollment.go: the rows of `enrollments`, and each call as
the statements it runs. Times are Unix nanoseconds with zero for the zero time, and the context
is JSON, which is left open.
-/

set_option autoImplicit false

namespace MicrosoftDM.Sqlstore
open Enroll (AdditionalContext)
open Storage (Enrollment Registry)
open Sql (Session Failure)

structure EnrollmentRow where
  thumbprint : GoString
  deviceID : GoString
  hwDevID : GoString
  enrollmentType : GoString
  upn : GoString
  context : GoString
  state : Storage.State
  enrolledAt : Int
  updatedAt : Int
  lastSeenAt : Int
  deriving DecidableEq

abbrev EnrollmentRows : GoString → Type := fun _ => EnrollmentRow

structure ContextCodec where
  marshal : AdditionalContext → Option GoString
  unmarshal : GoString → Option AdditionalContext

inductive EnrollmentError where
  | storage (e : Storage.Error)
  | marshal
  | unmarshal
  deriving DecidableEq

abbrev EnrollmentBody (α : Type) := Sql.Body EnrollmentRows EnrollmentError α

def EnrollmentRow.of (e : Enrollment) (context : GoString) : EnrollmentRow where
  thumbprint := e.thumbprint
  deviceID := e.deviceID
  hwDevID := e.hwDevID
  enrollmentType := e.enrollmentType
  upn := e.upn
  context := context
  state := .active
  enrolledAt := nanos e.enrolledAt
  updatedAt := nanos e.enrolledAt
  lastSeenAt := nanos e.lastSeenAt

def EnrollmentRow.setState (state : Storage.State) (at' : Time) (r : EnrollmentRow) : EnrollmentRow :=
  { r with state := state, updatedAt := nanos at' }

/-- The transaction of `Create`. -/
def createBody (e : Enrollment) (context : GoString) : EnrollmentBody Unit := do
  let found ← Sql.select fun serial _ => serial = e.serial
  if !found.isEmpty then
    Sql.fail (.storage (.conflict (.serial e.serial)))
  else
    let found ← Sql.select fun _ r => r.thumbprint = e.thumbprint
    if !found.isEmpty then
      Sql.fail (.storage (.conflict (.thumbprint e.thumbprint)))
    else
      Sql.update (fun _ r => r.deviceID = e.deviceID ∧ r.state = .active)
        (fun _ => EnrollmentRow.setState .superseded e.enrolledAt)
      Sql.insert e.serial (EnrollmentRow.of e context)

def create (codec : ContextCodec) (e : Enrollment) : EnrollmentBody Unit :=
  match e.validate with
  | some text => Sql.fail (.storage (.invalid (.validation text)))
  | none =>
    match codec.marshal e.context with
    | none => Sql.fail .marshal
    | some context => Sql.tx (createBody e context) maxAttempts

def supersedeOthers (state : Storage.State) (deviceID serial : GoString) (at' : Time) :
    EnrollmentBody Unit :=
  if state = .active then
    Sql.update (fun s r => r.deviceID = deviceID ∧ r.state = .active ∧ s ≠ serial)
      (fun _ => EnrollmentRow.setState .superseded at')
  else pure ()

/-- The transaction of `SetState`. -/
def setStateBody (serial : GoString) (state : Storage.State) (at' : Time) : EnrollmentBody Unit := do
  let found ← Sql.select fun s _ => s = serial
  match found with
  | [] => Sql.fail (.storage (.notFound (.serial serial)))
  | ⟨_,row⟩ :: _ =>
    supersedeOthers state row.deviceID serial at'
    let _ ← Sql.updateKey serial (fun _ => true) (EnrollmentRow.setState state at')

def setState (serial state : GoString) (at' : Time) : EnrollmentBody Unit :=
  match Storage.State.ofText state with
  | none => Sql.fail (.storage (.invalid (.state state)))
  | some st => Sql.tx (setStateBody serial st at') maxAttempts

/-- `TouchLastSeen`: a row that is newer already is fine, one that is missing is not. -/
def touchLastSeen (serial : GoString) (at' : Time) : EnrollmentBody Unit := do
  let changed ← Sql.txOnce (Sql.updateKey serial
    (fun r => r.lastSeenAt < nanos at') (fun r => { r with lastSeenAt := nanos at' }))
  if !changed then
    let found ← Sql.select fun s _ => s = serial
    if found.isEmpty then Sql.fail (.storage (.notFound (.serial serial)))

def perform (codec : ContextCodec) : Storage.Call → EnrollmentBody Unit
  | .create e => create codec e
  | .setState serial state at' => setState serial state at'
  | .touchLastSeen serial at' => touchLastSeen serial at'

abbrev EnrollmentTable := AList EnrollmentRows

def ContextCodec.scanEnrollment (codec : ContextCodec) (serial : GoString) (r : EnrollmentRow) :
    Except EnrollmentError Enrollment :=
  let e (context : AdditionalContext) : Enrollment := {
    serial := serial, thumbprint := r.thumbprint, deviceID := r.deviceID, hwDevID := r.hwDevID
    enrollmentType := r.enrollmentType, upn := r.upn, context := context, state := r.state
    enrolledAt := fromNanos r.enrolledAt, updatedAt := fromNanos r.updatedAt
    lastSeenAt := fromNanos r.lastSeenAt }
  if r.context = [] then .ok (e { deviceID := [], enrollmentType := [] })
  else
    match codec.unmarshal r.context with
    | some context => .ok (e context)
    | none => .error .unmarshal

def scanFirst (codec : ContextCodec) (db : EnrollmentTable) (p : GoString → EnrollmentRow → Bool)
    (missing : Storage.Cause) : Except EnrollmentError Enrollment :=
  match ({ db := db } : Session EnrollmentRows).rows p with
  | [] => .error (.storage (.notFound missing))
  | row :: _ => codec.scanEnrollment row.1 row.2

def get (codec : ContextCodec) (db : EnrollmentTable) (deviceID : GoString) :
    Except EnrollmentError Enrollment :=
  scanFirst codec db (fun _ r => r.deviceID = deviceID ∧ r.state = .active) (.device deviceID)

def getBySerial (codec : ContextCodec) (db : EnrollmentTable) (serial : GoString) :
    Except EnrollmentError Enrollment :=
  scanFirst codec db (fun s _ => s = serial) (.serial serial)

/-- `ORDER BY enrolled_at, serial`. -/
def listedBefore (a b : (_ : GoString) × EnrollmentRow) : Prop :=
  a.2.enrolledAt < b.2.enrolledAt ∨ a.2.enrolledAt = b.2.enrolledAt ∧ a.1 ≤ b.1

instance (a b : (_ : GoString) × EnrollmentRow) : Decidable (listedBefore a b) :=
  inferInstanceAs (Decidable (_ ∨ _ ∧ _))

def listByHWDevID (codec : ContextCodec) (db : EnrollmentTable) (hwDevID : GoString) :
    Except EnrollmentError (List Enrollment) :=
  if hwDevID = [] then .error (.storage (.invalid .emptyHWDevID))
  else
    ((({ db := db } : Session EnrollmentRows).rows fun _ r => r.hwDevID = hwDevID).insertionSort
      listedBefore).mapM fun row => codec.scanEnrollment row.1 row.2

def ActiveRow (db : EnrollmentTable) (deviceID serial : GoString) : Prop :=
  ∃ r, db.lookup serial = some r ∧ r.deviceID = deviceID ∧ r.state = .active

def EnrollmentRow.supersede (deviceID : GoString) (at' : Time) (r : EnrollmentRow) : EnrollmentRow :=
  if r.deviceID = deviceID ∧ r.state = .active then r.setState .superseded at' else r

def EnrollmentRow.touch (at' : Time) (r : EnrollmentRow) : EnrollmentRow :=
  if r.lastSeenAt < nanos at' then { r with lastSeenAt := nanos at' } else r

inductive RowStep (codec : ContextCodec) (T : GoString → Option EnrollmentRow) :
    Storage.Call → Except (Failure EnrollmentError) Unit → (GoString → Option EnrollmentRow) → Prop where
  | invalid {e : Enrollment} {text : GoString} (h : e.validate = some text) :
      RowStep codec T (.create e) (.error (.error (.storage (.invalid (.validation text))))) T
  | unmarshaled {e : Enrollment} (hv : e.validate = none) (hm : codec.marshal e.context = none) :
      RowStep codec T (.create e) (.error (.error .marshal)) T
  | serialTaken {e : Enrollment} {context : GoString} {r : EnrollmentRow} (hv : e.validate = none)
      (hm : codec.marshal e.context = some context) (hs : T e.serial = some r) :
      RowStep codec T (.create e) (.error (.error (.storage (.conflict (.serial e.serial))))) T
  | thumbprintTaken {e : Enrollment} {context s : GoString} {r : EnrollmentRow} (hv : e.validate = none)
      (hm : codec.marshal e.context = some context) (hs : T e.serial = none) (hr : T s = some r)
      (ht : r.thumbprint = e.thumbprint) :
      RowStep codec T (.create e) (.error (.error (.storage (.conflict (.thumbprint e.thumbprint))))) T
  | created {e : Enrollment} {context : GoString} (hv : e.validate = none)
      (hm : codec.marshal e.context = some context) (hs : T e.serial = none)
      (ht : ∀ s r, T s = some r → r.thumbprint ≠ e.thumbprint) :
      RowStep codec T (.create e) (.ok ()) fun s => if s = e.serial then some (.of e context)
        else (T s).map (EnrollmentRow.supersede e.deviceID e.enrolledAt)
  | badState {serial text : GoString} {at' : Time} (h : Storage.State.ofText text = none) :
      RowStep codec T (.setState serial text at') (.error (.error (.storage (.invalid (.state text))))) T
  | unknown {serial text : GoString} {at' : Time} {st : Storage.State}
      (h : Storage.State.ofText text = some st) (hs : T serial = none) :
      RowStep codec T (.setState serial text at')
        (.error (.error (.storage (.notFound (.serial serial))))) T
  | stateSet {serial text : GoString} {at' : Time} {st : Storage.State} {r : EnrollmentRow}
      (h : Storage.State.ofText text = some st) (hs : T serial = some r) :
      RowStep codec T (.setState serial text at') (.ok ()) fun s =>
        if s = serial then some (r.setState st at')
        else if st = .active then (T s).map (EnrollmentRow.supersede r.deviceID at') else T s
  | unseen {serial : GoString} {at' : Time} (hs : T serial = none) :
      RowStep codec T (.touchLastSeen serial at')
        (.error (.error (.storage (.notFound (.serial serial))))) T
  | touched {serial : GoString} {at' : Time} {r : EnrollmentRow} (hs : T serial = some r) :
      RowStep codec T (.touchLastSeen serial at') (.ok ()) fun s =>
        if s = serial then some (r.touch at') else T s

variable {s serial : GoString} {r : EnrollmentRow} {p : GoString → EnrollmentRow → Bool}
  {at' : Time} {e : Enrollment} {c : Storage.Call} {q : Enrollment → Prop}
  {rows : List ((_ : GoString) × EnrollmentRow)} {es : List Enrollment}

section Rows
variable {codec : ContextCodec} {db : EnrollmentTable}

theorem get_start (db : EnrollmentTable) (s : GoString) :
    ({ db := db } : Session EnrollmentRows).get s = db.lookup s := by
  rw [Session.get_eq]
  rfl

theorem rows_serial (db : EnrollmentTable) (serial : GoString) :
    (({ db := db } : Session EnrollmentRows).rows fun s _ => s = serial).isEmpty = true ↔
      db.lookup serial = none := by
  rw [Session.rows_isEmpty]
  constructor
  · intro hall
    cases hd : db.lookup serial with
    | none => rfl
    | some r => exact absurd (decide_eq_true rfl) (hall serial r ((get_start db serial).trans hd))
  · intro hd s r hr he
    rw [of_decide_eq_true he,get_start,hd] at hr
    cases hr

theorem rows_thumbprint (db : EnrollmentTable) (thumbprint : GoString) :
    (({ db := db } : Session EnrollmentRows).rows fun _ r => r.thumbprint = thumbprint).isEmpty = true ↔
      ∀ s r, db.lookup s = some r → r.thumbprint ≠ thumbprint := by
  rw [Session.rows_isEmpty]
  constructor
  · exact fun hall s r hr ht => hall s r ((get_start db s).trans hr) (decide_eq_true ht)
  · exact fun hall s r hr ht => hall s r ((get_start db s).symm.trans hr) (of_decide_eq_true ht)

theorem rows_of_lookup (hr : db.lookup serial = some r) :
    ∃ rest, (({ db := db } : Session EnrollmentRows).rows fun s _ => s = serial) = ⟨serial,r⟩ :: rest := by
  cases hrows : (({ db := db } : Session EnrollmentRows).rows fun s _ => s = serial) with
  | nil =>
    have hnone := (rows_serial db serial).mp (by rw [hrows]; rfl)
    rw [hnone] at hr
    cases hr
  | cons x rest =>
    obtain ⟨s,r'⟩ := x
    have hmem : (⟨s,r'⟩ : (_ : GoString) × EnrollmentRow) ∈
        ({ db := db } : Session EnrollmentRows).rows fun s _ => s = serial := by
      rw [hrows]
      exact List.mem_cons_self
    obtain ⟨hget,hs⟩ := Session.mem_rows.mp hmem
    cases of_decide_eq_true hs
    rw [get_start,hr] at hget
    cases hget
    exact ⟨rest,rfl⟩

theorem updated_eq_supersede {dev : GoString} (hp : p s r = true ↔ r.deviceID = dev ∧ r.state = .active) :
    Sql.updated p (fun _ => EnrollmentRow.setState .superseded at') s r = r.supersede dev at' := by
  unfold Sql.updated EnrollmentRow.supersede
  by_cases h : p s r = true
  · rw [if_pos h,if_pos (hp.mp h)]
  · rw [if_neg h,if_neg fun h' => h (hp.mpr h')]

theorem serve_create (codec : ContextCodec) (e : Enrollment) (db : EnrollmentTable) :
    RowStep codec (fun s => db.lookup s) (.create e) (Sql.serve (create codec e) db).1
      fun s => (Sql.serve (create codec e) db).2.lookup s := by
  unfold create
  cases hv : e.validate with
  | some text => exact .invalid hv
  | none =>
    cases hm : codec.marshal e.context with
    | none => exact .unmarshaled hv hm
    | some context =>
      dsimp only
      by_cases hs : (({ db := db } : Session EnrollmentRows).rows fun s _ => s = e.serial).isEmpty = true
      · have hnone := (rows_serial db e.serial).mp hs
        by_cases ht : (({ db := db } : Session EnrollmentRows).rows
            fun _ r => r.thumbprint = e.thumbprint).isEmpty = true
        · obtain ⟨s₁,h₁,hdb,hget⟩ := Sql.exec_update (ε := EnrollmentError)
            (fun (_ : GoString) (r : EnrollmentRow) => decide (r.deviceID = e.deviceID ∧ r.state = .active))
            (fun _ => EnrollmentRow.setState .superseded e.enrolledAt) { db := db }
          have hfree : s₁.get e.serial = none := by
            rw [hget,get_start,hnone]
            rfl
          obtain ⟨s₂,h₂,hc₂⟩ := Sql.exec_insert (ε := EnrollmentError) (EnrollmentRow.of e context) hfree
          have hbody : Sql.exec (createBody e context) { db := db } = (.ok (),s₂) := by
            unfold createBody
            rw [Sql.exec_bind,Sql.exec_select]
            dsimp only
            rw [if_neg (by rw [hs]; decide),Sql.exec_bind,Sql.exec_select]
            dsimp only
            rw [if_neg (by rw [ht]; decide),Sql.exec_bind_of_ok h₁]
            exact h₂
          have htable : (fun s => s₂.table.lookup s) = fun s => if s = e.serial then some (.of e context)
              else (db.lookup s).map (EnrollmentRow.supersede e.deviceID e.enrolledAt) := by
            funext s
            show s₂.get s = _
            by_cases he : s = e.serial
            · subst he
              rw [if_pos rfl,hc₂.self]
            rw [if_neg he,hc₂.others s he,hget,get_start]
            refine congrArg (fun f => Option.map f (db.lookup s)) (funext fun r => ?_)
            exact updated_eq_supersede decide_eq_true_iff
          have hserve : Sql.serve (Sql.tx (createBody e context) maxAttempts) db = (.ok (),s₂.table) :=
            Sql.serve_tx_ok 9 hbody
          rw [hserve]
          dsimp only
          rw [htable]
          exact .created hv hm hnone ((rows_thumbprint db _).mp ht)
        · have hbody : Sql.exec (createBody e context) { db := db } =
              (.error (.error (.storage (.conflict (.thumbprint e.thumbprint)))),{ db := db }) := by
            unfold createBody
            rw [Sql.exec_bind,Sql.exec_select]
            dsimp only
            rw [if_neg (by rw [hs]; decide),Sql.exec_bind,Sql.exec_select]
            dsimp only
            rw [if_pos (by rw [Bool.eq_false_of_not_eq_true ht]; rfl),Sql.exec_fail]
          obtain ⟨s,r,hr,hp⟩ : ∃ s r, db.lookup s = some r ∧ r.thumbprint = e.thumbprint := by
            by_contra hno
            exact ht ((rows_thumbprint db _).mpr fun s r hr hp => hno ⟨s,r,hr,hp⟩)
          have hserve : Sql.serve (Sql.tx (createBody e context) maxAttempts) db = _ :=
            Sql.serve_tx_error 9 hbody rfl
          rw [hserve]
          exact .thumbprintTaken hv hm hnone hr hp
      · have hbody : Sql.exec (createBody e context) { db := db } =
            (.error (.error (.storage (.conflict (.serial e.serial)))),{ db := db }) := by
          unfold createBody
          rw [Sql.exec_bind,Sql.exec_select]
          dsimp only
          rw [if_pos (by rw [Bool.eq_false_of_not_eq_true hs]; rfl),Sql.exec_fail]
        obtain ⟨r,hr⟩ : ∃ r, db.lookup e.serial = some r :=
          Option.ne_none_iff_exists'.mp fun hnone => hs ((rows_serial db e.serial).mpr hnone)
        have hserve : Sql.serve (Sql.tx (createBody e context) maxAttempts) db = _ :=
          Sql.serve_tx_error 9 hbody rfl
        rw [hserve]
        exact .serialTaken hv hm hr

theorem exec_supersedeOthers {row : EnrollmentRow} (st : Storage.State)
    (hd : db.lookup serial = some row) (at' : Time) :
    ∃ s₁, Sql.exec (supersedeOthers st row.deviceID serial at') { db := db } = (.ok (),s₁) ∧
      ∀ s, s₁.get s = if s = serial then some row
        else if st = .active then (db.lookup s).map (EnrollmentRow.supersede row.deviceID at')
        else db.lookup s := by
  unfold supersedeOthers
  by_cases hact : st = .active
  · obtain ⟨s₁,h₁,-,hget⟩ := Sql.exec_update (ε := EnrollmentError)
      (fun (s : GoString) (r : EnrollmentRow) =>
        decide (r.deviceID = row.deviceID ∧ r.state = .active ∧ s ≠ serial))
      (fun _ => EnrollmentRow.setState .superseded at') { db := db }
    rw [if_pos hact]
    refine ⟨s₁,h₁,fun s => ?_⟩
    rw [hget,get_start]
    by_cases he : s = serial
    · subst he
      rw [if_pos rfl,hd,Option.map_some,Sql.updated,if_neg]
      simp only [ne_eq,not_true_eq_false,and_false,decide_false]
      decide
    rw [if_neg he,if_pos hact]
    refine congrArg (fun f => Option.map f (db.lookup s)) (funext fun r => ?_)
    refine updated_eq_supersede ?_
    simp [he]
  · rw [if_neg hact]
    refine ⟨{ db := db },rfl,fun s => ?_⟩
    rw [get_start,if_neg hact]
    split
    · rename_i he
      rw [he,hd]
    · rfl

theorem serve_setState (codec : ContextCodec) (serial state : GoString) (at' : Time)
    (db : EnrollmentTable) :
    RowStep codec (fun s => db.lookup s) (.setState serial state at')
      (Sql.serve (setState serial state at') db).1
      fun s => (Sql.serve (setState serial state at') db).2.lookup s := by
  unfold setState
  cases hst : Storage.State.ofText state with
  | none => exact .badState hst
  | some st =>
    dsimp only
    cases hd : db.lookup serial with
    | none =>
      have hrows := List.isEmpty_iff.mp ((rows_serial db serial).mpr hd)
      have hbody : Sql.exec (setStateBody serial st at') { db := db } =
          (.error (.error (.storage (.notFound (.serial serial)))),{ db := db }) := by
        unfold setStateBody
        rw [Sql.exec_bind,Sql.exec_select,hrows]
        rfl
      have hserve : Sql.serve (Sql.tx (setStateBody serial st at') maxAttempts) db = _ :=
        Sql.serve_tx_error 9 hbody rfl
      rw [hserve]
      exact .unknown hst hd
    | some row =>
      obtain ⟨rest,hrows⟩ := rows_of_lookup hd
      obtain ⟨s₁,h₁,hget⟩ := exec_supersedeOthers st hd at'
      obtain ⟨s₂,h₂,hc⟩ := Sql.exec_updateKey (ε := EnrollmentError) serial (fun _ => true)
        (EnrollmentRow.setState st at') s₁
      have hbody : Sql.exec (setStateBody serial st at') { db := db } = (.ok (),s₂) := by
        unfold setStateBody
        rw [Sql.exec_bind,Sql.exec_select,hrows]
        dsimp only
        rw [Sql.exec_bind_of_ok h₁,Sql.exec_bind_of_ok h₂]
        rfl
      have htable : (fun s => s₂.table.lookup s) = fun s => if s = serial then some (row.setState st at')
          else if st = .active then (db.lookup s).map (EnrollmentRow.supersede row.deviceID at')
          else db.lookup s := by
        funext s
        show s₂.get s = _
        rw [hget,if_pos rfl] at hc
        by_cases he : s = serial
        · subst he
          rw [if_pos rfl,hc.self]
          rfl
        · rw [if_neg he,hc.others s he,hget,if_neg he]
      have hserve : Sql.serve (Sql.tx (setStateBody serial st at') maxAttempts) db = (.ok (),s₂.table) :=
        Sql.serve_tx_ok 9 hbody
      rw [hserve]
      dsimp only
      rw [htable]
      exact .stateSet hst hd

theorem serve_touchLastSeen (codec : ContextCodec) (serial : GoString) (at' : Time)
    (db : EnrollmentTable) :
    RowStep codec (fun s => db.lookup s) (.touchLastSeen serial at')
      (Sql.serve (touchLastSeen serial at') db).1
      fun s => (Sql.serve (touchLastSeen serial at') db).2.lookup s := by
  obtain ⟨s₁,h₁,hc⟩ := Sql.exec_updateKey (ε := EnrollmentError) serial
    (fun r : EnrollmentRow => decide (r.lastSeenAt < nanos at'))
    (fun r => { r with lastSeenAt := nanos at' }) { db := db }
  have hx : Sql.exec (Sql.txOnce (Sql.updateKey serial
      (fun r : EnrollmentRow => decide (r.lastSeenAt < nanos at'))
      (fun r => { r with lastSeenAt := nanos at' }) : EnrollmentBody Bool)) { db := db } =
    (.ok ((db.lookup serial).filter fun r : EnrollmentRow => decide (r.lastSeenAt < nanos at')).isSome,
      { db := s₁.table }) := by
    rw [Sql.exec_txOnce,h₁,get_start]
  rw [get_start] at hc
  have hothers : ∀ s, s ≠ serial → s₁.table.lookup s = db.lookup s := fun s he =>
    (hc.others s he).trans (get_start db s)
  cases hd : db.lookup serial with
  | none =>
    rw [hd] at hx hc
    have hsame : (fun s => s₁.table.lookup s) = fun s => db.lookup s := by
      funext s
      by_cases he : s = serial
      · subst he
        rw [hd]
        exact hc.self
      · exact hothers s he
    have hend : Sql.exec (touchLastSeen serial at') { db := db } =
        (.error (.error (.storage (.notFound (.serial serial)))),{ db := s₁.table }) := by
      unfold touchLastSeen
      rw [Sql.exec_bind_of_ok hx,if_pos (by rfl),Sql.exec_bind,Sql.exec_select]
      dsimp only
      rw [if_pos ((rows_serial _ serial).mpr ((congrFun hsame serial).trans hd))]
      rfl
    unfold Sql.serve
    rw [hend]
    dsimp only
    rw [hsame]
    exact .unseen hd
  | some row =>
    rw [hd,Option.map_some] at hc
    rw [hd] at hx
    have htable : (fun s => s₁.table.lookup s) = fun s => if s = serial then some (row.touch at')
        else db.lookup s := by
      funext s
      by_cases he : s = serial
      · subst he
        rw [if_pos rfl]
        refine hc.self.trans ?_
        unfold EnrollmentRow.touch
        by_cases hnew : row.lastSeenAt < nanos at'
        · rw [if_pos (decide_eq_true hnew),if_pos hnew]
        · rw [if_neg fun hd => hnew (of_decide_eq_true hd),if_neg hnew]
      · rw [if_neg he]
        exact hothers s he
    have hend : Sql.exec (touchLastSeen serial at') { db := db } = (.ok (),{ db := s₁.table }) := by
      unfold touchLastSeen
      by_cases hnew : row.lastSeenAt < nanos at'
      · rw [show (Option.filter (fun r : EnrollmentRow => decide (r.lastSeenAt < nanos at')) (some row)) =
          some row from Option.filter_some_pos (decide_eq_true hnew)] at hx
        rw [Sql.exec_bind_of_ok hx,if_neg (by simp)]
        rfl
      rw [show (Option.filter (fun r : EnrollmentRow => decide (r.lastSeenAt < nanos at')) (some row)) =
        none from Option.filter_some_neg (decide_eq_false hnew)] at hx
      have hfound : ¬(({ db := s₁.table } : Session EnrollmentRows).rows
          fun s _ => s = serial).isEmpty = true := fun hempty => by
        cases hc.self.symm.trans ((rows_serial _ serial).mp hempty)
      rw [Sql.exec_bind_of_ok hx,if_pos (by rfl),Sql.exec_bind,Sql.exec_select]
      dsimp only
      rw [if_neg hfound]
      rfl
    unfold Sql.serve
    rw [hend]
    dsimp only
    rw [htable]
    exact .touched hd

theorem serve_rowStep (codec : ContextCodec) (c : Storage.Call) (db : EnrollmentTable) :
    RowStep codec (fun s => db.lookup s) c (Sql.serve (perform codec c) db).1
      fun s => (Sql.serve (perform codec c) db).2.lookup s := by
  cases c with
  | create e => exact serve_create codec e db
  | setState serial state at' => exact serve_setState codec serial state at' db
  | touchLastSeen serial at' => exact serve_touchLastSeen codec serial at' db

end Rows

def StorableCall (codec : ContextCodec) : Storage.Call → Prop
  | .create e => Storable e.enrolledAt ∧ Storable e.lastSeenAt ∧
      ∃ context, codec.marshal e.context = some context ∧ context ≠ [] ∧
        codec.unmarshal context = some e.context
  | .setState _ _ at' => Storable at'
  | .touchLastSeen _ at' => Storable at'

def lifted : Except Storage.Error Unit → Except (Failure EnrollmentError) Unit
  | .ok () => .ok ()
  | .error e => .error (.error (.storage e))

structure Holds (codec : ContextCodec) (db : EnrollmentTable) (R : Registry) : Prop where
  scanned : ∀ s, (db.lookup s).map (codec.scanEnrollment s) = (R s).map .ok
  times : ∀ s r, db.lookup s = some r → 0 ≤ r.enrolledAt ∧ 0 ≤ r.lastSeenAt

section Rows
variable {codec : ContextCodec} {db : EnrollmentTable} {R : Registry} {s : GoString} {r : EnrollmentRow}
  {e : Enrollment} {at' : Time}

theorem Holds.missing (h : Holds codec db R) : db.lookup s = none ↔ R s = none := by
  have hs := h.scanned s
  cases hd : db.lookup s with
  | none =>
    rw [hd] at hs
    exact iff_of_true rfl (Option.map_eq_none_iff.mp hs.symm)
  | some r =>
    rw [hd] at hs
    refine iff_of_false (fun he => nomatch he) fun hr => ?_
    rw [hr] at hs
    cases hs

theorem Holds.enrollment (h : Holds codec db R) (hr : db.lookup s = some r) :
    ∃ e, R s = some e ∧ codec.scanEnrollment s r = .ok e := by
  have hs := h.scanned s
  rw [hr,Option.map_some] at hs
  obtain ⟨e,he,hok⟩ := Option.map_eq_some_iff.mp hs.symm
  exact ⟨e,he,hok.symm⟩

theorem Holds.row (h : Holds codec db R) (he : R s = some e) :
    ∃ r, db.lookup s = some r ∧ codec.scanEnrollment s r = .ok e := by
  have hs := h.scanned s
  rw [he,Option.map_some] at hs
  exact Option.map_eq_some_iff.mp hs

/-- What a row says of its enrollment. -/
structure Reads (s : GoString) (r : EnrollmentRow) (e : Enrollment) : Prop where
  serial : e.serial = s
  thumbprint : e.thumbprint = r.thumbprint
  deviceID : e.deviceID = r.deviceID
  hwDevID : e.hwDevID = r.hwDevID
  state : e.state = r.state
  enrolledAt : e.enrolledAt = fromNanos r.enrolledAt
  lastSeenAt : e.lastSeenAt = fromNanos r.lastSeenAt

theorem reads_of_scan (h : codec.scanEnrollment s r = .ok e) : Reads s r e := by
  unfold ContextCodec.scanEnrollment at h
  split at h
  · cases h
    exact ⟨rfl,rfl,rfl,rfl,rfl,rfl,rfl⟩
  split at h
  · cases h
    exact ⟨rfl,rfl,rfl,rfl,rfl,rfl,rfl⟩
  · cases h

theorem scan_setState (st : Storage.State) (ha : Storable at') (h : codec.scanEnrollment s r = .ok e) :
    codec.scanEnrollment s (r.setState st at') = .ok (e.setState st at') := by
  unfold ContextCodec.scanEnrollment EnrollmentRow.setState at *
  dsimp only at *
  rw [fromNanos_nanos ha]
  split at h
  · rename_i hc
    rw [if_pos hc]
    cases h
    rfl
  rename_i hc
  rw [if_neg hc]
  split at h
  · cases h
    rfl
  · cases h

theorem scan_touch (ha : Storable at') (h : codec.scanEnrollment s r = .ok e) :
    codec.scanEnrollment s { r with lastSeenAt := nanos at' } = .ok { e with lastSeenAt := at' } := by
  unfold ContextCodec.scanEnrollment at *
  dsimp only at *
  rw [fromNanos_nanos ha]
  split at h
  · rename_i hc
    rw [if_pos hc]
    cases h
    rfl
  rename_i hc
  rw [if_neg hc]
  split at h
  · cases h
    rfl
  · cases h

theorem scan_of {context : GoString} (he : Storable e.enrolledAt) (hl : Storable e.lastSeenAt)
    (hne : context ≠ []) (hu : codec.unmarshal context = some e.context) :
    codec.scanEnrollment e.serial (EnrollmentRow.of e context) = .ok e.created := by
  unfold ContextCodec.scanEnrollment EnrollmentRow.of
  dsimp only
  rw [if_neg hne,hu,fromNanos_nanos he,fromNanos_nanos hl]
  rfl

end Rows

structure RowHolds (codec : ContextCodec) (s : GoString) (r : Option EnrollmentRow)
    (e : Option Enrollment) : Prop where
  scanned : r.map (codec.scanEnrollment s) = e.map .ok
  times : ∀ x, r = some x → 0 ≤ x.enrolledAt ∧ 0 ≤ x.lastSeenAt

section Serial
variable {codec : ContextCodec} {db db' : EnrollmentTable} {R R' : Registry} {s : GoString}

theorem Holds.rowHolds (h : Holds codec db R) (s : GoString) : RowHolds codec s (db.lookup s) (R s) :=
  ⟨h.scanned s,h.times s⟩

theorem holds_of_rows (h : ∀ s, RowHolds codec s (db.lookup s) (R s)) : Holds codec db R :=
  ⟨fun s => (h s).scanned,fun s => (h s).times⟩

theorem RowHolds.of_scan (hs : codec.scanEnrollment s r = .ok e)
    (ht : 0 ≤ r.enrolledAt ∧ 0 ≤ r.lastSeenAt) : RowHolds codec s (some r) (some e) where
  scanned := congrArg some hs
  times x hx := by
    cases hx
    exact ht

theorem RowHolds.supersede {r : Option EnrollmentRow} {e : Option Enrollment}
    (h : RowHolds codec s r e) (dev : GoString) (ha : Storable at') :
    RowHolds codec s (r.map (EnrollmentRow.supersede dev at')) (e.map (Enrollment.supersede dev at')) := by
  cases r with
  | none =>
    have he := h.scanned
    rw [Option.map_eq_none_iff.mp he.symm]
    exact ⟨rfl,fun _ hx => nomatch hx⟩
  | some r =>
    obtain ⟨e,rfl,hok⟩ := Option.map_eq_some_iff.mp h.scanned.symm
    have hr := reads_of_scan hok.symm
    rw [Option.map_some,Option.map_some]
    unfold EnrollmentRow.supersede Enrollment.supersede
    rw [hr.deviceID,hr.state]
    split
    · exact .of_scan (scan_setState .superseded ha hok.symm) (h.times r rfl)
    · exact .of_scan hok.symm (h.times r rfl)

theorem RowStep.step {r : Except (Failure EnrollmentError) Unit}
    {T' : GoString → Option EnrollmentRow} (hstep : RowStep codec (fun s => db.lookup s) c r T')
    (hdb : ∀ s, db'.lookup s = T' s) (h : Holds codec db R) (hc : StorableCall codec c) :
    ∃ r₀ R', R.Step c r₀ R' ∧ r = lifted r₀ ∧ Holds codec db' R' := by
  have hsame : (∀ s, db'.lookup s = db.lookup s) → Holds codec db' R := fun hsame =>
    holds_of_rows fun s => hsame s ▸ h.rowHolds s
  cases hstep with
  | invalid hv => exact ⟨_,R,.invalid hv,rfl,hsame hdb⟩
  | unmarshaled hv hm =>
    obtain ⟨-,-,context,hm',-⟩ := hc
    cases hm.symm.trans hm'
  | serialTaken hv hm hs =>
    obtain ⟨x,hx,-⟩ := h.enrollment hs
    exact ⟨_,R,.serialTaken hv hx,rfl,hsame hdb⟩
  | thumbprintTaken hv hm hs hr ht =>
    obtain ⟨x,hx,hscan⟩ := h.enrollment hr
    exact ⟨_,R,.thumbprintTaken hv (h.missing.mp hs) hx ((reads_of_scan hscan).thumbprint.trans ht),rfl,
      hsame hdb⟩
  | @created e context hv hm hs ht =>
    obtain ⟨het,hlt,context',hm',hne,hu⟩ := hc
    cases hm.symm.trans hm'
    refine ⟨.ok (),_,.created hv (h.missing.mp hs) fun s x hx hp => ?_,rfl,holds_of_rows fun s => ?_⟩
    · obtain ⟨r,hr,hscan⟩ := h.row hx
      exact ht s r hr ((reads_of_scan hscan).thumbprint.symm.trans hp)
    rw [hdb,Registry.create,Registry.activate]
    dsimp only
    by_cases he : s = e.serial
    · rw [if_pos he,if_pos he,he]
      exact .of_scan (scan_of het hlt hne hu) ⟨nanos_nonneg het,nanos_nonneg hlt⟩
    · rw [if_neg he,if_neg he]
      exact (h.rowHolds s).supersede e.deviceID het
  | badState hst => exact ⟨_,R,.badState hst,rfl,hsame hdb⟩
  | unknown hst hs => exact ⟨_,R,.unknown hst (h.missing.mp hs),rfl,hsame hdb⟩
  | @stateSet serial text at' st row hst hs =>
    obtain ⟨e,he,hscan⟩ := h.enrollment hs
    refine ⟨.ok (),_,.stateSet hst he,rfl,holds_of_rows fun s => ?_⟩
    have hset : RowHolds codec serial (some (row.setState st at')) (some (e.setState st at')) :=
      .of_scan (scan_setState st hc hscan) (h.times serial row hs)
    have hdev : (e.setState .active at').deviceID = row.deviceID := (reads_of_scan hscan).deviceID
    rw [hdb]
    unfold Registry.setState Registry.activate Registry.replace
    dsimp only
    by_cases hserial : s = serial
    · subst hserial
      by_cases hact : st = .active
      · rw [if_pos rfl,if_pos hact,if_pos rfl,← hact]
        exact hset
      · rw [if_pos rfl,if_neg hact,if_pos rfl]
        exact hset
    · rw [if_neg hserial]
      by_cases hact : st = .active
      · rw [if_pos hact,if_pos hact,if_neg hserial,hdev]
        exact (h.rowHolds s).supersede row.deviceID hc
      · rw [if_neg hact,if_neg hact,if_neg hserial]
        exact h.rowHolds s
  | unseen hs => exact ⟨_,R,.unseen (h.missing.mp hs),rfl,hsame hdb⟩
  | @touched serial at' row hs =>
    obtain ⟨e,he,hscan⟩ := h.enrollment hs
    have ht := h.times serial row hs
    have hlt : row.lastSeenAt < nanos at' ↔ e.lastSeenAt < at' := by
      rw [(reads_of_scan hscan).lastSeenAt,← fromNanos_lt ht.2 (nanos_nonneg hc),fromNanos_nanos hc]
    have htouch : RowHolds codec serial (some (row.touch at')) (some (e.touch at')) := by
      unfold EnrollmentRow.touch Enrollment.touch
      by_cases hnew : row.lastSeenAt < nanos at'
      · rw [if_pos hnew,if_pos (hlt.mp hnew)]
        exact .of_scan (scan_touch hc hscan) ⟨ht.1,nanos_nonneg hc⟩
      · rw [if_neg hnew,if_neg fun hlt' => hnew (hlt.mpr hlt')]
        exact .of_scan hscan ht
    refine ⟨.ok (),_,.touched he,rfl,holds_of_rows fun s => ?_⟩
    rw [hdb]
    unfold Registry.replace
    dsimp only
    by_cases hserial : s = serial
    · rw [if_pos hserial,if_pos hserial,hserial]
      exact htouch
    · rw [if_neg hserial,if_neg hserial]
      exact h.rowHolds s

theorem Holds.perform (h : Holds codec db R) (hc : StorableCall codec c) :
    ∃ r R' db', R.Step c r R' ∧ Sql.serve (perform codec c) db = (lifted r,db') ∧ Holds codec db' R' := by
  obtain ⟨r,R',hstep,hr,hR⟩ := (serve_rowStep codec c db).step (fun _ => rfl) h hc
  exact ⟨r,R',_,hstep,Prod.ext hr rfl,hR⟩

end Serial

def listed (a b : Int × GoString) : Prop := a.1 < b.1 ∨ a.1 = b.1 ∧ a.2 ≤ b.2

section Order
variable {a b c : Int × GoString}

theorem listed_total (a b : Int × GoString) : listed a b ∨ listed b a := by
  unfold listed
  rcases Int.lt_trichotomy a.1 b.1 with h | h | h
  · exact .inl (.inl h)
  · exact (List.le_total a.2 b.2).imp (fun hs => .inr ⟨h,hs⟩) fun hs => .inr ⟨h.symm,hs⟩
  · exact .inr (.inl h)

theorem listed_trans (hab : listed a b) (hbc : listed b c) : listed a c := by
  unfold listed at *
  rcases hab with hab | ⟨hab,hs⟩
  · rcases hbc with hbc | ⟨hbc,-⟩
    · exact .inl (Int.lt_trans hab hbc)
    · exact .inl (hbc ▸ hab)
  · rw [hab]
    exact hbc.imp_right fun hbc => ⟨hbc.1,List.le_trans hs hbc.2⟩

theorem listed_antisymm (hab : listed a b) (hba : listed b a) : a.2 = b.2 := by
  unfold listed at *
  rcases hab with hab | ⟨hab,hs⟩
  · rcases hba with hba | ⟨hba,-⟩
    · exact absurd hba (Int.lt_asymm hab)
    · exact absurd hba (ne_of_gt hab)
  · rcases hba with hba | ⟨-,hs'⟩
    · exact absurd hab (ne_of_gt hba)
    · exact List.le_antisymm hs hs'

end Order

instance : Std.Total Enrollment.before where
  total a b := listed_total (a.enrolledAt,a.serial) (b.enrolledAt,b.serial)

instance : IsTrans Enrollment Enrollment.before where
  trans x y z := listed_trans (a := (x.enrolledAt,x.serial)) (b := (y.enrolledAt,y.serial))
    (c := (z.enrolledAt,z.serial))

instance : Std.Total listedBefore where
  total a b := listed_total (a.2.enrolledAt,a.1) (b.2.enrolledAt,b.1)

instance : IsTrans ((_ : GoString) × EnrollmentRow) listedBefore where
  trans x y z := listed_trans (a := (x.2.enrolledAt,x.1)) (b := (y.2.enrolledAt,y.1))
    (c := (z.2.enrolledAt,z.1))

section Queries
variable {codec : ContextCodec} {db : EnrollmentTable} {R : Registry}

theorem Holds.mem_rows (h : Holds codec db R)
    (hpq : ∀ s r e, Reads s r e → (p s r = true ↔ q e)) :
    (⟨s,r⟩ : (_ : GoString) × EnrollmentRow) ∈ ({ db := db } : Session EnrollmentRows).rows p ↔
      db.lookup s = some r ∧ ∃ e, R s = some e ∧ codec.scanEnrollment s r = .ok e ∧ q e := by
  rw [Session.mem_rows,get_start]
  constructor
  · rintro ⟨hr,hp⟩
    obtain ⟨e,he,hs⟩ := h.enrollment hr
    exact ⟨hr,e,he,hs,(hpq s r e (reads_of_scan hs)).mp hp⟩
  · rintro ⟨hr,e,-,hs,hq⟩
    exact ⟨hr,(hpq s r e (reads_of_scan hs)).mpr hq⟩

theorem Holds.scanFirst_ok (h : Holds codec db R) (hpq : ∀ s r e, Reads s r e → (p s r = true ↔ q e))
    (hone : ∀ s s' e e', R s = some e → q e → R s' = some e' → q e' → s = s') (missing : Storage.Cause) (he : R s = some e) (hq : q e) :
    scanFirst codec db p missing = .ok e := by
  obtain ⟨r,hr,hs⟩ := h.row he
  have hmem := (h.mem_rows hpq).mpr ⟨hr,e,he,hs,hq⟩
  unfold scanFirst
  split
  · rename_i hnil
    rw [hnil] at hmem
    cases hmem
  rename_i x rest hcons
  obtain ⟨s',r'⟩ := x
  obtain ⟨hr',e',he',hs',hq'⟩ := (h.mem_rows hpq).mp (hcons ▸ List.mem_cons_self)
  cases hone s s' e e' he hq he' hq'
  cases hr.symm.trans hr'
  exact hs

theorem Holds.scanFirst_none (h : Holds codec db R) (hpq : ∀ s r e, Reads s r e → (p s r = true ↔ q e)) (missing : Storage.Cause)
    (hno : ∀ s e, R s = some e → ¬q e) :
    scanFirst codec db p missing = .error (.storage (.notFound missing)) := by
  unfold scanFirst
  split
  · rfl
  rename_i x rest hcons
  obtain ⟨s,r⟩ := x
  obtain ⟨-,e,he,-,hq⟩ := (h.mem_rows hpq).mp (hcons ▸ List.mem_cons_self)
  exact absurd hq (hno s e he)

variable {store : Storage.Store}

theorem Holds.get (h : Holds codec db store.registry) (deviceID : GoString) :
    get codec db deviceID = (store.get deviceID).mapError .storage := by
  have hpq : ∀ (s : GoString) (r : EnrollmentRow) (e : Enrollment), Reads s r e →
      (decide (r.deviceID = deviceID ∧ r.state = .active) = true ↔
        e.deviceID = deviceID ∧ e.state = .active) := fun s r e hr => by
    rw [decide_eq_true_iff,hr.deviceID,hr.state]
  have hone : ∀ s s' e e', store.registry s = some e → (e.deviceID = deviceID ∧ e.state = .active) →
      store.registry s' = some e' → (e'.deviceID = deviceID ∧ e'.state = .active) → s = s' := by
    intro s s' e e' he hq he' hq'
    have hs := (store.sound.indexed deviceID s).mpr ⟨e,he,hq⟩
    have hs' := (store.sound.indexed deviceID s').mpr ⟨e',he',hq'⟩
    exact Option.some.inj (hs.symm.trans hs')
  cases ha : store.active.lookup deviceID with
  | none =>
    have hmem : store.get deviceID = .error (.notFound (.device deviceID)) := by
      rw [Storage.Tables.get,ha]
    rw [hmem]
    refine h.scanFirst_none hpq (.device deviceID) fun s e he hq => ?_
    have hs := (store.sound.indexed deviceID s).mpr ⟨e,he,hq⟩
    rw [ha] at hs
    cases hs
  | some s =>
    obtain ⟨e,he,hq⟩ := (store.sound.indexed deviceID s).mp ha
    have hmem : store.get deviceID = .ok e := by
      rw [Storage.Tables.get,ha]
      dsimp only
      rw [show store.enrollments.lookup s = some e from he]
    rw [hmem]
    exact h.scanFirst_ok hpq hone (.device deviceID) he hq

theorem Holds.getBySerial (h : Holds codec db store.registry) (serial : GoString) :
    getBySerial codec db serial = (store.getBySerial serial).mapError .storage := by
  have hpq : ∀ (s : GoString) (r : EnrollmentRow) (e : Enrollment), Reads s r e →
      (decide (s = serial) = true ↔ e.serial = serial) := fun s r e hr => by
    rw [decide_eq_true_iff,hr.serial]
  unfold Storage.Tables.getBySerial
  cases he : store.enrollments.lookup serial with
  | none =>
    refine h.scanFirst_none hpq (.serial serial) fun s e hs hq => ?_
    rw [← hq,store.sound.keyed s e hs] at he
    cases he.symm.trans hs
  | some e =>
    refine h.scanFirst_ok hpq (fun s s' a a' hs hq hs' hq' => ?_) (.serial serial) he
      (store.sound.keyed serial e he)
    rw [← store.sound.keyed s a hs,← store.sound.keyed s' a' hs',hq,hq']

theorem mapM_scan (codec : ContextCodec)
    (h : ∀ x ∈ rows, ∃ e, codec.scanEnrollment x.1 x.2 = .ok e) :
    ∃ es, rows.mapM (fun x => codec.scanEnrollment x.1 x.2) = .ok es ∧
      List.Forall₂ (fun x e => codec.scanEnrollment x.1 x.2 = .ok e) rows es := by
  induction rows with
  | nil => exact ⟨[],rfl,.nil⟩
  | cons x rows ih =>
    obtain ⟨e,he⟩ := h x List.mem_cons_self
    obtain ⟨es,hes,hall⟩ := ih fun y hy => h y (List.mem_cons_of_mem x hy)
    refine ⟨e :: es,?_,.cons he hall⟩
    rw [List.mapM_cons,he,hes]
    rfl

theorem mem_scanned
    (h : List.Forall₂ (fun x e => codec.scanEnrollment x.1 x.2 = .ok e) rows es) (e : Enrollment) :
    e ∈ es ↔ ∃ x ∈ rows, codec.scanEnrollment x.1 x.2 = .ok e := by
  induction h with
  | nil => simp
  | @cons x e' rows es he _ ih =>
    rw [List.mem_cons,ih]
    simp only [List.mem_cons,exists_eq_or_imp,he,Except.ok.injEq]
    exact or_congr_left eq_comm

theorem map_serial
    (h : List.Forall₂ (fun x e => codec.scanEnrollment x.1 x.2 = .ok e) rows es) :
    es.map Enrollment.serial = rows.map Sigma.fst := by
  induction h with
  | nil => rfl
  | cons he _ ih => rw [List.map_cons,List.map_cons,ih,(reads_of_scan he).serial]

theorem pairwise_before
    (h : List.Forall₂ (fun x e => codec.scanEnrollment x.1 x.2 = .ok e) rows es)
    (ht : ∀ x ∈ rows, 0 ≤ x.2.enrolledAt) (hrows : rows.Pairwise listedBefore) :
    es.Pairwise Enrollment.before := by
  induction h with
  | nil => exact .nil
  | @cons x e rows es he hall ih =>
    obtain ⟨hx,hrows⟩ := List.pairwise_cons.mp hrows
    refine List.pairwise_cons.mpr ⟨fun e' he' => ?_,ih (fun y hy => ht y (List.mem_cons_of_mem x hy)) hrows⟩
    obtain ⟨y,hy,hs⟩ := (mem_scanned hall e').mp he'
    have hre := reads_of_scan he
    have hre' := reads_of_scan hs
    have h0 := ht x List.mem_cons_self
    have h0' := ht y (List.mem_cons_of_mem x hy)
    unfold Enrollment.before
    rw [hre.enrolledAt,hre'.enrolledAt,hre.serial,hre'.serial,fromNanos_lt h0 h0',fromNanos_inj h0 h0']
    exact hx y hy

theorem Holds.listByHWDevID (h : Holds codec db store.registry) (hwDevID : GoString) :
    listByHWDevID codec db hwDevID = (store.listByHWDevID hwDevID).mapError .storage := by
  unfold Sqlstore.listByHWDevID Storage.Tables.listByHWDevID
  by_cases hempty : hwDevID = []
  · rw [if_pos hempty,if_pos hempty]
    rfl
  rw [if_neg hempty,if_neg hempty]
  have hpq : ∀ (s : GoString) (r : EnrollmentRow) (e : Enrollment), Reads s r e →
      (decide (r.hwDevID = hwDevID) = true ↔ e.hwDevID = hwDevID) := fun s r e hr => by
    rw [decide_eq_true_iff,hr.hwDevID]
  generalize hsorted : (({ db := db } : Session EnrollmentRows).rows
    fun _ r => decide (r.hwDevID = hwDevID)).insertionSort listedBefore = rows
  have hperm := List.perm_insertionSort listedBefore (({ db := db } : Session EnrollmentRows).rows
    fun _ r => decide (r.hwDevID = hwDevID))
  have hpair := List.pairwise_insertionSort listedBefore (({ db := db } : Session EnrollmentRows).rows
    fun _ r => decide (r.hwDevID = hwDevID))
  rw [hsorted] at hperm hpair
  have hrow : ∀ x ∈ rows, db.lookup x.1 = some x.2 ∧ ∃ e, store.registry x.1 = some e ∧
      codec.scanEnrollment x.1 x.2 = .ok e ∧ e.hwDevID = hwDevID := fun x hx =>
    (h.mem_rows hpq).mp (hperm.mem_iff.mp hx)
  obtain ⟨es,hes,hall⟩ := mapM_scan codec fun x hx => by
    obtain ⟨-,e,-,hs,-⟩ := hrow x hx
    exact ⟨e,hs⟩
  rw [hes]
  refine congrArg Except.ok ?_
  -- the same enrollments, both times in the order of the listing
  have hmem : ∀ e, e ∈ es ↔ e ∈ ((store.enrollments.entries.map Sigma.snd).filter
      fun e => decide (e.hwDevID = hwDevID)).insertionSort Enrollment.before := by
    intro e
    rw [mem_scanned hall,List.mem_insertionSort,List.mem_filter,List.mem_map,decide_eq_true_eq]
    constructor
    · rintro ⟨x,hx,hs⟩
      obtain ⟨-,e',he',hs',hq⟩ := hrow x hx
      cases hs.symm.trans hs'
      exact ⟨⟨⟨x.1,e⟩,AList.mem_lookup_iff.mp he',rfl⟩,hq⟩
    rintro ⟨⟨⟨s,e'⟩,he',rfl⟩,hq⟩
    have hreg : store.registry s = some e' := AList.mem_lookup_iff.mpr he'
    obtain ⟨r,hr,hs⟩ := h.row hreg
    exact ⟨⟨s,r⟩,hperm.mem_iff.mpr ((h.mem_rows hpq).mpr ⟨hr,e',hreg,hs,hq⟩),hs⟩
  have hnodup : (es.map Enrollment.serial).Nodup := by
    rw [map_serial hall,(hperm.map _).nodup_iff]
    exact Session.nodup_scan _ _
  have hnodup' : ((store.enrollments.entries.map Sigma.snd).map Enrollment.serial).Nodup := by
    have hkeys : (store.enrollments.entries.map Sigma.snd).map Enrollment.serial =
        store.enrollments.entries.map Sigma.fst := by
      rw [List.map_map]
      refine List.map_congr_left fun x hx => ?_
      exact store.sound.keyed x.1 x.2 (AList.mem_lookup_iff.mpr hx)
    rw [hkeys]
    exact store.enrollments.nodupKeys
  refine List.Perm.eq_of_pairwise (fun a b ha hb hab hba => ?_)
    (pairwise_before hall (fun x hx => (h.times _ _ (hrow x hx).1).1) hpair)
    (List.pairwise_insertionSort Enrollment.before _) ?_
  · have hserial : a.serial = b.serial :=
      listed_antisymm (a := (a.enrolledAt,a.serial)) (b := (b.enrolledAt,b.serial)) hab hba
    exact List.inj_on_of_nodup_map hnodup ha ((hmem b).mpr hb) hserial
  · refine (List.perm_ext_iff_of_nodup hnodup.of_map ?_).mpr hmem
    rw [(List.perm_insertionSort _ _).nodup_iff]
    exact hnodup'.of_map.filter _

end Queries

def runMemory (s : Storage.Store) : List Storage.Call → List (Except Storage.Error Unit) × Storage.Store
  | [] => ([],s)
  | c :: calls => ((s.apply c).1 :: (runMemory (s.apply c).2 calls).1,(runMemory (s.apply c).2 calls).2)

def runSql (codec : ContextCodec) (db : EnrollmentTable) :
    List Storage.Call → List (Except (Failure EnrollmentError) Unit) × EnrollmentTable
  | [] => ([],db)
  | c :: calls =>
    let r := Sql.serve (perform codec c) db
    (r.1 :: (runSql codec r.2 calls).1,(runSql codec r.2 calls).2)

/-- Both stores give the same results and hold the same enrollments. -/
theorem Holds.run {codec : ContextCodec} {db : EnrollmentTable} {store : Storage.Store}
    {calls : List Storage.Call} (h : Holds codec db store.registry)
    (hcalls : ∀ c ∈ calls, StorableCall codec c) :
    (runSql codec db calls).1 = (runMemory store calls).1.map lifted ∧
      Holds codec (runSql codec db calls).2 (runMemory store calls).2.registry := by
  induction calls generalizing db store with
  | nil => exact ⟨rfl,h⟩
  | cons c calls ih =>
    obtain ⟨r,R',db',hstep,hserve,h'⟩ := h.perform (hcalls c List.mem_cons_self)
    obtain ⟨hr,rfl⟩ := hstep.unique (store.apply_step c)
    obtain ⟨hres,hend⟩ := ih h' fun d hd => hcalls d (List.mem_cons_of_mem c hd)
    unfold runSql runMemory
    rw [hserve]
    refine ⟨?_,hend⟩
    show lifted r :: (runSql codec db' calls).1 = _
    rw [List.map_cons,hres,hr]

namespace Sample

def after : Time := unixEpoch+1000000
def before : Time := unixEpoch-1000000

def context : AdditionalContext := { deviceID := "DEVICE-A", enrollmentType := "Full" }

def contexts : ContextCodec := { marshal := fun _ => some "json", unmarshal := fun _ => some context }

def enrollment (serial : GoString) : Enrollment where
  serial := serial
  thumbprint := serial
  deviceID := "DEVICE-A"
  enrollmentType := "Full"
  context := context
  enrolledAt := after

def calls : List Storage.Call :=
  [.create (enrollment "1"),.create (enrollment "2"),.setState "1" "active" after,.touchLastSeen "1" after]

end Sample

set_option maxRecDepth 4000

end MicrosoftDM.Sqlstore
