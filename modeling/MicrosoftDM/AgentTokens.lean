import MicrosoftDM.RateLimit
import MicrosoftDM.SqlEnrollment

/-!
The agent tokens of server/sqlstore/agent.go. A device's row holds the hash of its last token
and the serial that was active then. The hash is left open.
-/

set_option autoImplicit false

namespace MicrosoftDM.Sqlstore
open Mdm (Bytes)
open Ratelimit (hexEncode hexEncode_injective)
open Sql (Session Failure)

/-- A row of `agent_tokens`, under its device. -/
structure TokenRow where
  serial : GoString
  tokenHash : GoString
  createdAt : Int
  deriving DecidableEq

abbrev TokenRows : GoString → Type := fun _ => TokenRow

structure AgentStore where
  enrollments : EnrollmentTable := ∅
  tokens : AList TokenRows := ∅
  queue : Queue := .empty

inductive AgentError where
  | notFound
  | get (e : EnrollmentError)
  | entropy
  deriving DecidableEq

/-- The alphabet of `base64.URLEncoding`. -/
def urlChar (n : Nat) : UInt8 := if n = 62 then 45 else if n = 63 then 95 else Mdm.base64Char n

/-- `base64.RawURLEncoding.EncodeToString`. -/
def rawURLEncode : Bytes → GoString
  | [] => []
  | [a] => [urlChar (a.toNat/4),urlChar (a.toNat%4*16)]
  | [a,b] => [urlChar (a.toNat/4),urlChar (a.toNat%4*16+b.toNat/16),urlChar (b.toNat%16*4)]
  | a :: b :: c :: rest =>
    urlChar (a.toNat/4) :: urlChar (a.toNat%4*16+b.toNat/16) ::
    urlChar (b.toNat%16*4+c.toNat/64) :: urlChar (c.toNat%64) :: rawURLEncode rest

theorem length_rawURLEncode (b : Bytes) : (rawURLEncode b).length = (4*b.length+2)/3 := by
  induction b using rawURLEncode.induct with
  | case1 => rfl
  | case2 _ | case3 _ _ => simp [rawURLEncode]
  | case4 a b c rest ih =>
    simp only [rawURLEncode,List.length_cons,ih]
    omega

/-- What `rand.Read` fills the buffer with. -/
abbrev Entropy := { raw : Bytes // raw.length = 32 }

def Entropy.token (raw : Entropy) : GoString := rawURLEncode raw.1

theorem Entropy.length_token (raw : Entropy) : raw.token.length = 43 := by
  unfold token
  rw [length_rawURLEncode,raw.2]

/-- The transaction of `IssueAgentToken`. -/
def issueBody (deviceID serial hash : GoString) (now : Time) : Sql.Body TokenRows AgentError Unit := do
  Sql.delete deviceID
  Sql.insert deviceID { serial := serial, tokenHash := hash, createdAt := nanos now }

/-- The commands that `AgentWake` asks for. -/
def Row.outstanding (deviceID : GoString) (r : Row) : Bool :=
  decide (r.deviceID = deviceID) && !r.internal && (decide (r.state = .pending) || decide (r.state = .sent))

/-- `ORDER BY seq DESC LIMIT 1`. -/
def Queue.newest (q : Queue) (deviceID : GoString) : GoString :=
  match (q.rows.filter (Row.outstanding deviceID)).insertionSort fun a b => b.seq ≤ a.seq with
  | [] => []
  | r :: _ => r.id

section Calls
variable (codec : ContextCodec) (sha256 : Bytes → Bytes)

/-- `IssueAgentToken`; `rand.Read` may fail. -/
def AgentStore.issueAgentToken (s : AgentStore) (deviceID : GoString) (raw : Option Entropy) (now : Time) :
    Except (Failure AgentError) GoString × AgentStore :=
  match get codec s.enrollments deviceID with
  | .error err => (.error (.error (.get err)),s)
  | .ok e =>
    if e.state ≠ .active then (.error (.error .notFound),s)
    else
      match raw with
      | none => (.error (.error .entropy),s)
      | some raw =>
        let r := Sql.serve
          (Sql.tx (issueBody deviceID e.serial (hexEncode (sha256 raw.token)) now) maxAttempts) s.tokens
        (r.1.map fun _ => raw.token,{ s with tokens := r.2 })

def AgentStore.agentWake (s : AgentStore) (deviceID token : GoString) : Except AgentError GoString :=
  if token = [] ∨ token.length > 128 then .error .notFound
  else
    match get codec s.enrollments deviceID with
    | .error err => .error (.get err)
    | .ok e =>
      match s.tokens.lookup deviceID with
      | none => .error .notFound
      | some row =>
        if e.state ≠ .active ∨ row.serial ≠ e.serial ∨ hexEncode (sha256 token) ≠ row.tokenHash then
          .error .notFound
        else .ok (s.queue.newest deviceID)

/-- A call, or other work on the queue, which may leave any commands. -/
inductive AgentCall where
  | enrollment (c : Storage.Call)
  | issue (deviceID : GoString) (raw : Option Entropy) (now : Time)
  | wake (deviceID token : GoString)
  | commands (q : Queue)

/-- A token that was issued, and the enrollments at that time. -/
structure Issued where
  deviceID : GoString
  token : GoString
  enrollments : EnrollmentTable

/-- A call on the store, and the tokens issued so far, the last one first. -/
def AgentStore.step (x : List Issued × AgentStore) : AgentCall → List Issued × AgentStore
  | .enrollment c =>
    (x.1,{ x.2 with enrollments := (Sql.serve (perform codec c) x.2.enrollments).2 })
  | .issue deviceID raw now =>
    match x.2.issueAgentToken codec sha256 deviceID raw now with
    | (.ok token,s) => (⟨deviceID,token,x.2.enrollments⟩ :: x.1,s)
    | (.error _,s) => (x.1,s)
  | .wake _ _ => x
  | .commands q => (x.1,{ x.2 with queue := q })

def AgentStore.run (calls : List AgentCall) : List Issued × AgentStore :=
  calls.foldl (AgentStore.step codec sha256) ([],{})

end Calls

def lastIssued (deviceID : GoString) (issued : List Issued) : Option Issued :=
  issued.find? fun i => decide (i.deviceID = deviceID)

def OneActive (T : GoString → Option EnrollmentRow) : Prop :=
  ∀ a b r r', T a = some r → T b = some r' → r.deviceID = r'.deviceID →
    r.state = .active → r'.state = .active → a = b

def Readable (codec : ContextCodec) (T : GoString → Option EnrollmentRow) : Prop :=
  ∀ s r, T s = some r → r.context = [] ∨ (codec.unmarshal r.context).isSome

/-- What is marshalled can be unmarshalled. -/
def ContextCodec.Reads (codec : ContextCodec) : Prop :=
  ∀ context text, codec.marshal context = some text → text = [] ∨ (codec.unmarshal text).isSome

variable {r x : EnrollmentRow}

section Kept
variable {codec : ContextCodec} {T T' : GoString → Option EnrollmentRow} {c : Storage.Call}
  {r : Except (Failure EnrollmentError) Unit}

@[simp] theorem EnrollmentRow.deviceID_supersede (dev : GoString) (at' : Time) (x : EnrollmentRow) :
    (x.supersede dev at').deviceID = x.deviceID := by
  unfold supersede
  split <;> rfl

@[simp] theorem EnrollmentRow.context_supersede (dev : GoString) (at' : Time) (x : EnrollmentRow) :
    (x.supersede dev at').context = x.context := by
  unfold supersede
  split <;> rfl

theorem EnrollmentRow.active_supersede {dev : GoString} {at' : Time}
    (h : (x.supersede dev at').state = .active) : x.state = .active ∧ x.deviceID ≠ dev := by
  unfold supersede at h
  split at h
  · cases h
  · rename_i hno
    exact ⟨h,fun hdev => hno ⟨hdev,h⟩⟩

theorem OneActive.activate (h : OneActive T) (serial : GoString) (x : EnrollmentRow) (at' : Time) :
    OneActive fun s => if s = serial then some x
      else (T s).map (EnrollmentRow.supersede x.deviceID at') := by
  intro a b r r' ha hb hdev hr hr'
  dsimp only at ha hb
  by_cases hsa : a = serial
  · by_cases hsb : b = serial
    · rw [hsa,hsb]
    rw [if_pos hsa] at ha
    rw [if_neg hsb] at hb
    cases ha
    obtain ⟨y,-,rfl⟩ := Option.map_eq_some_iff.mp hb
    rw [EnrollmentRow.deviceID_supersede] at hdev
    exact absurd hdev.symm (EnrollmentRow.active_supersede hr').2
  · rw [if_neg hsa] at ha
    obtain ⟨y,hy,rfl⟩ := Option.map_eq_some_iff.mp ha
    rw [EnrollmentRow.deviceID_supersede] at hdev
    have hya := EnrollmentRow.active_supersede hr
    by_cases hsb : b = serial
    · rw [if_pos hsb] at hb
      cases hb
      exact absurd hdev hya.2
    rw [if_neg hsb] at hb
    obtain ⟨z,hz,rfl⟩ := Option.map_eq_some_iff.mp hb
    rw [EnrollmentRow.deviceID_supersede] at hdev
    exact h a b y z hy hz hdev hya.1 (EnrollmentRow.active_supersede hr').1

theorem OneActive.replace (h : OneActive T) {serial : GoString} {y : EnrollmentRow}
    (hx : T serial = some x) (hdev : y.deviceID = x.deviceID) (hy : y.state = .active → x.state = .active) :
    OneActive fun s => if s = serial then some y else T s := by
  have hback : ∀ s r, (if s = serial then some y else T s) = some r →
      ∃ r₀, T s = some r₀ ∧ r₀.deviceID = r.deviceID ∧ (r.state = .active → r₀.state = .active) := by
    intro s r hr
    by_cases hs : s = serial
    · rw [if_pos hs] at hr
      cases hr
      exact ⟨x,hs ▸ hx,hdev.symm,hy⟩
    · rw [if_neg hs] at hr
      exact ⟨r,hr,rfl,id⟩
  intro a b r r' ha hb hab hr hr'
  obtain ⟨r₀,hr₀,hdev₀,hact₀⟩ := hback a r ha
  obtain ⟨r₁,hr₁,hdev₁,hact₁⟩ := hback b r' hb
  exact h a b r₀ r₁ hr₀ hr₁ (hdev₀.trans (hab.trans hdev₁.symm)) (hact₀ hr) (hact₁ hr')

theorem RowStep.oneActive (hstep : RowStep codec T c r T') (h : OneActive T) : OneActive T' := by
  cases hstep with
  | invalid _ | unmarshaled _ _ | serialTaken _ _ _ | thumbprintTaken _ _ _ _ _ => exact h
  | @created e context _ _ _ _ => exact h.activate e.serial (.of e context) e.enrolledAt
  | badState _ | unknown _ _ => exact h
  | @stateSet serial text at' st row _ hs =>
    by_cases hact : st = .active
    · simp only [if_pos hact]
      exact h.activate serial (row.setState st at') at'
    · simp only [if_neg hact]
      exact h.replace hs rfl fun hst => absurd hst hact
  | unseen _ => exact h
  | @touched serial at' row hs =>
    refine h.replace hs ?_ ?_
    · unfold EnrollmentRow.touch
      split <;> rfl
    unfold EnrollmentRow.touch
    split
    · exact id
    · exact id

theorem RowStep.readable (hstep : RowStep codec T c r T') (hcodec : codec.Reads)
    (h : Readable codec T) : Readable codec T' := by
  have hsup : ∀ (dev : GoString) (at' : Time) (s : GoString) (x : EnrollmentRow),
      (T s).map (EnrollmentRow.supersede dev at') = some x →
      x.context = [] ∨ (codec.unmarshal x.context).isSome := by
    intro dev at' s x hx
    obtain ⟨y,hy,rfl⟩ := Option.map_eq_some_iff.mp hx
    rw [EnrollmentRow.context_supersede]
    exact h s y hy
  cases hstep with
  | invalid _ | unmarshaled _ _ | serialTaken _ _ _ | thumbprintTaken _ _ _ _ _ => exact h
  | @created e context _ hm _ _ =>
    intro s x hx
    dsimp only at hx
    split at hx
    · cases hx
      exact hcodec e.context context hm
    · exact hsup _ _ s x hx
  | badState _ | unknown _ _ => exact h
  | @stateSet serial text at' st row _ hs =>
    intro s x hx
    dsimp only at hx
    split at hx
    · cases hx
      exact h serial row hs
    split at hx
    · exact hsup _ _ s x hx
    · exact h s x hx
  | unseen _ => exact h
  | @touched serial at' row hs =>
    intro s x hx
    dsimp only at hx
    split at hx
    · cases hx
      have hcontext : (row.touch at').context = row.context := by
        unfold EnrollmentRow.touch
        split <;> rfl
      rw [hcontext]
      exact h serial row hs
    · exact h s x hx

end Kept

section Finds
variable {codec : ContextCodec} {db : EnrollmentTable} {deviceID serial : GoString}

theorem scan_of_readable (h : r.context = [] ∨ (codec.unmarshal r.context).isSome)
    (s : GoString) : ∃ e, codec.scanEnrollment s r = .ok e := by
  unfold ContextCodec.scanEnrollment
  by_cases hc : r.context = []
  · rw [if_pos hc]
    exact ⟨_,rfl⟩
  obtain ⟨x,hx⟩ := Option.isSome_iff_exists.mp (h.resolve_left hc)
  rw [if_neg hc,hx]
  exact ⟨_,rfl⟩

theorem mem_active_rows :
    (⟨serial,r⟩ : (_ : GoString) × EnrollmentRow) ∈ ({ db := db } : Session EnrollmentRows).rows
      (fun _ r => r.deviceID = deviceID ∧ r.state = .active) ↔
    db.lookup serial = some r ∧ r.deviceID = deviceID ∧ r.state = .active := by
  rw [Session.mem_rows,get_start,decide_eq_true_iff]

theorem get_of_active (h₁ : OneActive fun s => db.lookup s) (h₂ : Readable codec fun s => db.lookup s)
    (h : ActiveRow db deviceID serial) :
    ∃ e, get codec db deviceID = .ok e ∧ e.serial = serial ∧ e.state = .active := by
  obtain ⟨r,hr,hdev,hact⟩ := h
  unfold get scanFirst
  split
  · rename_i hnil
    have hmem := mem_active_rows.mpr ⟨hr,hdev,hact⟩
    rw [hnil] at hmem
    cases hmem
  rename_i x rest hcons
  obtain ⟨s',r'⟩ := x
  obtain ⟨hr',hdev',hact'⟩ := mem_active_rows.mp (hcons ▸ List.mem_cons_self)
  cases h₁ serial s' r r' hr hr' (hdev.trans hdev'.symm) hact hact'
  obtain ⟨e,he⟩ := scan_of_readable (h₂ serial r' hr') serial
  have hreads := reads_of_scan he
  exact ⟨e,he,hreads.serial,hreads.state.trans hact'⟩

theorem active_of_get {e : Storage.Enrollment} (h : get codec db deviceID = .ok e) :
    ActiveRow db deviceID e.serial ∧ e.state = .active := by
  unfold get scanFirst at h
  split at h
  · cases h
  rename_i x rest hcons
  obtain ⟨s,r⟩ := x
  obtain ⟨hr,hdev,hact⟩ := mem_active_rows.mp (hcons ▸ List.mem_cons_self)
  have hreads := reads_of_scan h
  rw [hreads.serial]
  exact ⟨⟨r,hr,hdev,hact⟩,hreads.state.trans hact⟩

theorem Queue.newest_spec (q : Queue) (deviceID : GoString) :
    (∃ r ∈ q.rows, r.outstanding deviceID = true ∧ q.newest deviceID = r.id ∧
      ∀ r' ∈ q.rows, r'.outstanding deviceID = true → r'.seq ≤ r.seq) ∨
    (q.newest deviceID = [] ∧ ∀ r ∈ q.rows, r.outstanding deviceID = false) := by
  have hsorted := List.pairwise_insertionSort (fun a b : Row => b.seq ≤ a.seq)
    (q.rows.filter (Row.outstanding deviceID))
  have hmem : ∀ r, r ∈ (q.rows.filter (Row.outstanding deviceID)).insertionSort
      (fun a b => b.seq ≤ a.seq) ↔ r ∈ q.rows ∧ r.outstanding deviceID = true := fun r => by
    rw [List.mem_insertionSort,List.mem_filter]
  unfold newest
  cases hrows : (q.rows.filter (Row.outstanding deviceID)).insertionSort fun a b => b.seq ≤ a.seq with
  | nil =>
    rw [hrows] at hmem
    refine .inr ⟨rfl,fun r hr => Bool.eq_false_of_not_eq_true fun ho => ?_⟩
    cases (hmem r).mpr ⟨hr,ho⟩
  | cons x rest =>
    rw [hrows] at hmem hsorted
    obtain ⟨hx,ho⟩ := (hmem x).mp List.mem_cons_self
    refine .inl ⟨x,hx,ho,rfl,fun r hr hro => ?_⟩
    rcases List.mem_cons.mp ((hmem r).mpr ⟨hr,hro⟩) with rfl | hrest
    · exact Nat.le_refl _
    · exact (List.pairwise_cons.mp hsorted).1 r hrest

end Finds

theorem serve_issueBody (deviceID serial hash : GoString) (now : Time) (tokens : AList TokenRows) :
    ∃ tokens', Sql.serve (Sql.tx (issueBody deviceID serial hash now) maxAttempts) tokens =
        (.ok (),tokens') ∧
      tokens'.lookup deviceID = some { serial := serial, tokenHash := hash, createdAt := nanos now } ∧
      ∀ d, d ≠ deviceID → tokens'.lookup d = tokens.lookup d := by
  obtain ⟨s₁,h₁,hc₁⟩ := Sql.exec_delete (ρ := TokenRows) (ε := AgentError) deviceID { db := tokens }
  obtain ⟨s₂,h₂,hc₂⟩ := Sql.exec_insert (ρ := TokenRows) (ε := AgentError)
     { serial := serial, tokenHash := hash, createdAt := nanos now } hc₁.self
  have hbody : Sql.exec (issueBody deviceID serial hash now) { db := tokens } = (.ok (),s₂) := by
    unfold issueBody
    rw [Sql.exec_bind_of_ok h₁]
    exact h₂
  refine ⟨s₂.table,Sql.serve_tx_ok 9 hbody,hc₂.self,fun d hd => ?_⟩
  have hstart : ({ db := tokens } : Session TokenRows).get d = tokens.lookup d := by
    rw [Session.get_eq]
    rfl
  exact ((hc₂.others d hd).trans (hc₁.others d hd)).trans hstart

/-- The row of a device is the one of its last token. -/
structure AgentStore.Sound (codec : ContextCodec) (sha256 : Bytes → Bytes) (x : List Issued × AgentStore) :
    Prop where
  oneActive : OneActive fun s => x.2.enrollments.lookup s
  readable : Readable codec fun s => x.2.enrollments.lookup s
  none : ∀ d, lastIssued d x.1 = .none → x.2.tokens.lookup d = .none
  last : ∀ d i, lastIssued d x.1 = some i → i.token ≠ [] ∧ i.token.length ≤ 128 ∧
    ∃ row, x.2.tokens.lookup d = some row ∧ row.tokenHash = hexEncode (sha256 i.token) ∧
      ∀ serial, ActiveRow i.enrollments d serial ↔ serial = row.serial

section Histories
variable {codec : ContextCodec} {sha256 : Bytes → Bytes} {x : List Issued × AgentStore}

theorem AgentStore.issueAgentToken_cases (s : AgentStore) (deviceID : GoString) (raw : Option Entropy)
    (now : Time) :
    (∃ err, s.issueAgentToken codec sha256 deviceID raw now = (.error err,s)) ∨
    ∃ (raw' : Entropy) (serial : GoString) (tokens : AList TokenRows),
      s.issueAgentToken codec sha256 deviceID raw now = (.ok raw'.token,{ s with tokens := tokens }) ∧
      ActiveRow s.enrollments deviceID serial ∧
      tokens.lookup deviceID = some {
        serial := serial, tokenHash := hexEncode (sha256 raw'.token), createdAt := nanos now } ∧
      ∀ d, d ≠ deviceID → tokens.lookup d = s.tokens.lookup d := by
  unfold issueAgentToken
  cases hget : get codec s.enrollments deviceID with
  | error err => exact .inl ⟨_,rfl⟩
  | ok e =>
    obtain ⟨hrow,hactive⟩ := active_of_get hget
    cases raw with
    | none => exact .inl ⟨_,if_neg (not_not.mpr hactive)⟩
    | some raw =>
      obtain ⟨tokens,hserve,hself,hothers⟩ := serve_issueBody deviceID e.serial
        (hexEncode (sha256 raw.token)) now s.tokens
      refine .inr ⟨raw,e.serial,tokens,?_,hrow,hself,hothers⟩
      dsimp only
      rw [if_neg (not_not.mpr hactive),hserve]
      rfl

theorem AgentStore.Sound.issue (h : Sound codec sha256 x) (deviceID : GoString) (raw : Option Entropy)
    (now : Time) : Sound codec sha256 (AgentStore.step codec sha256 x (.issue deviceID raw now)) := by
  unfold AgentStore.step
  dsimp only
  rcases @AgentStore.issueAgentToken_cases codec sha256 x.2 deviceID raw now with
    ⟨err,hissue⟩ | ⟨raw',serial,tokens,hissue,hrow,hself,hothers⟩
  · rw [hissue]
    exact h
  rw [hissue]
  have hlen := raw'.length_token
  have hlast : ∀ d, lastIssued d (⟨deviceID,raw'.token,x.2.enrollments⟩ :: x.1) =
      if deviceID = d then some ⟨deviceID,raw'.token,x.2.enrollments⟩ else lastIssued d x.1 := by
    intro d
    by_cases hdev : deviceID = d
    · simp [lastIssued,hdev]
    · simp [lastIssued,hdev]
  refine ⟨h.oneActive,h.readable,fun d hd => ?_,fun d i hd => ?_⟩
  · rw [hlast] at hd
    split at hd
    · cases hd
    · rename_i hdev
      exact (hothers d fun he => hdev he.symm).trans (h.none d hd)
  · rw [hlast] at hd
    split at hd
    · rename_i hdev
      cases hd
      subst hdev
      refine ⟨?_,?_,_,hself,rfl,fun s => ⟨fun hs => ?_,?_⟩⟩
      · exact List.ne_nil_of_length_pos (by rw [hlen]; decide)
      · rw [hlen]
        decide
      · obtain ⟨r,hr,hrdev,hract⟩ := hs
        obtain ⟨r',hr',hrdev',hract'⟩ := hrow
        exact h.oneActive s serial r r' hr hr' (hrdev.trans hrdev'.symm) hract hract'
      · rintro rfl
        exact hrow
    · rename_i hdev
      obtain ⟨hne,hle,row,hlook,hrest⟩ := h.last d i hd
      exact ⟨hne,hle,row,(hothers d fun he => hdev he.symm).trans hlook,hrest⟩

theorem AgentStore.Sound.step (h : Sound codec sha256 x) (hcodec : codec.Reads) (c : AgentCall) :
    Sound codec sha256 (AgentStore.step codec sha256 x c) := by
  cases c with
  | enrollment c =>
    have hstep := serve_rowStep codec c x.2.enrollments
    exact ⟨hstep.oneActive h.oneActive,hstep.readable hcodec h.readable,h.none,h.last⟩
  | issue deviceID raw now => exact h.issue deviceID raw now
  | wake deviceID token => exact h
  | commands q => exact ⟨h.oneActive,h.readable,h.none,h.last⟩

theorem AgentStore.run_sound (hcodec : codec.Reads) (calls : List AgentCall) :
    Sound codec sha256 (AgentStore.run codec sha256 calls) := by
  have hstart : Sound codec sha256 ([],{}) :=
    ⟨(fun _ _ _ _ h => nomatch h),(fun _ _ h => nomatch h),fun _ _ => rfl,(fun _ _ h => nomatch h)⟩
  unfold run
  generalize (([],{}) : List Issued × AgentStore) = x at hstart
  induction calls generalizing x with
  | nil => exact hstart
  | cons c calls ih => exact ih _ (hstart.step hcodec c)

theorem AgentStore.Sound.agentWake_iff (h : Sound codec sha256 x) (hsha : Function.Injective sha256)
    (deviceID token id : GoString) :
    x.2.agentWake codec sha256 deviceID token = .ok id ↔
      (∃ serial i, ActiveRow x.2.enrollments deviceID serial ∧ lastIssued deviceID x.1 = some i ∧
        i.token = token ∧ ActiveRow i.enrollments deviceID serial) ∧
      id = x.2.queue.newest deviceID := by
  unfold agentWake
  constructor
  · intro hok
    split at hok
    · cases hok
    cases hget : get codec x.2.enrollments deviceID with
    | error err =>
      rw [hget] at hok
      cases hok
    | ok e =>
      rw [hget] at hok
      dsimp only at hok
      cases hlast : lastIssued deviceID x.1 with
      | none =>
        rw [h.none deviceID hlast] at hok
        cases hok
      | some i =>
        obtain ⟨-,-,row,hrow,hhash,hserials⟩ := h.last deviceID i hlast
        rw [hrow] at hok
        dsimp only at hok
        split at hok
        · cases hok
        rename_i hsame
        simp only [not_or,not_not] at hsame
        obtain ⟨-,hserial,hsum⟩ := hsame
        have htoken : token = i.token := hsha (hexEncode_injective (hsum.trans hhash))
        cases hok
        exact ⟨⟨e.serial,i,(active_of_get hget).1,rfl,htoken.symm,
          (hserials e.serial).mpr hserial.symm⟩,rfl⟩
  · rintro ⟨⟨serial,i,hactive,hlast,rfl,hthen⟩,rfl⟩
    obtain ⟨hne,hle,row,hrow,hhash,hserials⟩ := h.last deviceID i hlast
    obtain ⟨e,hget,hserial,hstate⟩ := get_of_active h.oneActive h.readable hactive
    rw [if_neg (by simp only [not_or,Nat.not_lt]; exact ⟨hne,hle⟩),hget,hrow]
    dsimp only
    rw [if_neg]
    simp only [not_or,not_not]
    exact ⟨hstate,((hserials serial).mp hthen).symm.trans hserial.symm,hhash.symm⟩

end Histories

/-- After any calls, a token wakes exactly the device it was last issued to while the active
enrollment was active, and returns the newest outstanding command. -/
theorem agentWake_last_token {codec : ContextCodec} {sha256 : Bytes → Bytes} (hcodec : codec.Reads)
    (hsha : Function.Injective sha256) (calls : List AgentCall) (deviceID token : GoString) :
    ((∃ id, (AgentStore.run codec sha256 calls).2.agentWake codec sha256 deviceID token = .ok id) ↔
      ∃ serial i, ActiveRow (AgentStore.run codec sha256 calls).2.enrollments deviceID serial ∧
        lastIssued deviceID (AgentStore.run codec sha256 calls).1 = some i ∧ i.token = token ∧
        ActiveRow i.enrollments deviceID serial) ∧
    ∀ id, (AgentStore.run codec sha256 calls).2.agentWake codec sha256 deviceID token = .ok id →
      (∃ r ∈ (AgentStore.run codec sha256 calls).2.queue.rows, r.outstanding deviceID = true ∧ id = r.id ∧
        ∀ r' ∈ (AgentStore.run codec sha256 calls).2.queue.rows,
          r'.outstanding deviceID = true → r'.seq ≤ r.seq) ∨
      (id = [] ∧ ∀ r ∈ (AgentStore.run codec sha256 calls).2.queue.rows, r.outstanding deviceID = false) := by
  have hsound := @AgentStore.run_sound _ sha256 hcodec calls
  refine ⟨?_,fun id hid => ?_⟩
  · simp only [hsound.agentWake_iff hsha,exists_and_left,exists_eq,and_true]
  · rw [((hsound.agentWake_iff hsha deviceID token id).mp hid).2]
    exact Queue.newest_spec _ deviceID

namespace Sample

/-- A buffer that stays as it was allocated, and the digest of its token. -/
def zeros : Entropy := ⟨List.replicate 32 0,rfl⟩

def zerosDigest : Bytes :=
  [15,0,115,133,182,249,212,183,238,178,116,134,5,175,225,169,132,160,163,191,163,240,20,208,158,42,120,76,
    233,229,205,26]

def digest (b : Bytes) : Bytes := if b = zeros.token then zerosDigest else List.replicate 33 0 ++ b

theorem digest_injective : Function.Injective digest := by
  intro a b h
  have hlen := congrArg List.length h
  unfold digest at h hlen
  split at h <;> split at h <;> simp_all [zerosDigest]

def agentCalls : List AgentCall :=
  [.enrollment (.create (enrollment "1")),.issue "DEVICE-A" (some zeros) after,
    .enrollment (.setState "1" "unenrolled" after),.enrollment (.setState "1" "active" after)]

end Sample

set_option maxRecDepth 8000

theorem agentWake_last_token_reactivated :
    (∃ id, (AgentStore.run Sample.contexts Sample.digest Sample.agentCalls).2.agentWake Sample.contexts
      Sample.digest "DEVICE-A" Sample.zeros.token = .ok id) ∧
    ∃ err, (AgentStore.run Sample.contexts Sample.digest (Sample.agentCalls.take 3)).2.agentWake
      Sample.contexts Sample.digest "DEVICE-A" Sample.zeros.token = .error err := by
  have hcodec : Sample.contexts.Reads := fun _ _ _ => .inr rfl
  refine ⟨?_,_,rfl⟩
  refine ((agentWake_last_token hcodec Sample.digest_injective Sample.agentCalls _ _).1).mpr ?_
  exact ⟨"1",_,⟨_,rfl,rfl,rfl⟩,rfl,rfl,⟨_,rfl,rfl,rfl⟩⟩

end MicrosoftDM.Sqlstore
