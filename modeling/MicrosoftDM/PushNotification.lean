import MicrosoftDM.RateLimit

/-!
`Client.Send` of msplatformservices/wns. What `net/url`, the token source and the service answer
is arbitrary, and a run is the list of what the client did.
-/

set_option autoImplicit false

namespace MicrosoftDM.Wns
open Ratelimit (int64 int64_of_fits sub)

inductive Outcome where
  | accepted | unauthorized | forbidden | deadChannel | throttled | tooLarge | transient | rejected
  deriving DecidableEq

structure Result where
  httpStatus : Int := 0
  outcome : Option Outcome := none
  notificationStatus : GoString := []
  deviceConnectionStatus : GoString := []
  messageID : GoString := []
  correlationVector : GoString := []
  retryAfter : Int := 0
  deriving DecidableEq

inductive Error where
  | config (text : GoString)
  | token
  | transport
  | cancelled
  | response (result : Result)
  deriving DecidableEq

structure Config where
  tokens : Bool := true
  retries : Int := 0
  backoff : Int := 0
  deriving DecidableEq

/-- `New`. The clock and the HTTP client are part of `Env`. -/
def new (cfg : Config) : Except Error Config :=
  if cfg.tokens = false ∨ cfg.retries < 0 ∨ cfg.retries > 10 ∨ cfg.backoff < 0 then .error (.config "")
  else .ok { cfg with backoff := if cfg.backoff = 0 then 1000000000 else cfg.backoff }

structure URL where
  scheme : GoString
  user : Bool := false
  fragment : GoString := []
  opaquePath : GoString := []
  port : GoString := []
  hostname : GoString

structure Library where
  parseURL : GoString → Option URL
  toLower : GoString → GoString
  parseTime : GoString → Option Time
  dates : ∀ v, parseDecimal v ≠ none → parseTime v = none

def validateChannel (L : Library) (channel : GoString) : Except Error Unit :=
  let https := .error (.config "channel must be a Microsoft HTTPS URL")
  match L.parseURL channel with
  | none => https
  | some u =>
    if u.scheme ≠ "https" ∨ u.user ∨ u.fragment ≠ [] ∨ u.opaquePath ≠ [] ∨ u.port ≠ [] ∧ u.port ≠ "443" then
      https
    else
      let host := L.toLower u.hostname
      if host ≠ "notify.windows.com" ∧ ¬utf8 ".notify.windows.com" <:+ host then
        .error (.config "channel host must be under notify.windows.com")
      else .ok ()

structure Notification where
  body : GoString
  ttlSeconds : Option Int := none
  correlationVector : GoString := []

def breaksLine (s : GoString) : Bool := s.any fun b => b = 13 ∨ b = 10

def Notification.invalid (n : Notification) : Bool :=
  n.body = [] ∨ n.body.length > 5000 ∨ n.ttlSeconds.any (· < 0) ∨ breaksLine n.correlationVector

structure Response where
  statusCode : Int
  header : GoString → GoString

def outcome (resp : Response) : Outcome :=
  let status := resp.header "X-WNS-Status"
  if resp.statusCode = 200 then
    if status = "channelthrottled" then .throttled
    else if status = [] ∨ status = "received" then .accepted
    else .rejected
  else if resp.statusCode = 401 then .unauthorized
  else if resp.statusCode = 403 then .forbidden
  else if resp.statusCode = 404 ∨ resp.statusCode = 410 then .deadChannel
  else if resp.statusCode = 406 ∨ resp.statusCode = 429 then .throttled
  else if resp.statusCode = 413 then .tooLarge
  else if 500 ≤ resp.statusCode ∧ resp.statusCode ≤ 599 then .transient
  else .rejected

/-- `strconv.ParseInt` in base 10 to 32 bits. -/
def parseInt32 (s : GoString) : Option Int :=
  (parseDecimal s).filter fun n => -2^31 ≤ n ∧ n < 2^31

def retryAfter (L : Library) (value : GoString) (now : Time) : Int :=
  match (parseInt32 value).filter (0 ≤ ·) with
  | some seconds => seconds*1000000000
  | none =>
    match L.parseTime value with
    | some t => max 0 (sub t now)
    | none => 0

def classify (L : Library) (resp : Response) (now : Time) : Result where
  httpStatus := resp.statusCode
  outcome := some (outcome resp)
  notificationStatus := resp.header "X-WNS-Status"
  deviceConnectionStatus := resp.header "X-WNS-DeviceConnectionStatus"
  messageID := resp.header "X-WNS-Msg-ID"
  correlationVector := resp.header "MS-CV"
  retryAfter := retryAfter L (resp.header "Retry-After") now

def headers (n : Notification) (token : GoString) : List (GoString × GoString) :=
  [(utf8 "Authorization",utf8 "Bearer " ++ token),("Content-Type","application/octet-stream"),
    ("X-WNS-Type","wns/raw"),("X-WNS-Cache-Policy","cache"),("X-WNS-RequestForStatus","true")] ++
  n.ttlSeconds.toList.map (fun ttl => (utf8 "X-WNS-TTL",itoa ttl)) ++
  if n.correlationVector = [] then [] else [(utf8 "MS-CV",n.correlationVector)]

/-- What the rounds of the loop are answered; `none` is an error. -/
structure Env where
  token : Nat → Option GoString
  response : Nat → Option Response
  now : Nat → Time
  cancelled : Nat → Bool

inductive Event where
  | token (force : Bool)
  | request (channel body : GoString) (headers : List (GoString × GoString)) (answer : Option Result)
  | wait (resp : Response) (now : Time) (delay : Int)

structure Run where
  trace : List Event
  result : Result := {}
  err : Option Error

def Run.after (events : List Event) (r : Run) : Run := { r with trace := events ++ r.trace }

/-- `c.cfg.Backoff*time.Duration(1<<retries)`. -/
def backoff (cfg : Config) (retries : Nat) : Int := int64 (cfg.backoff*2^retries)

section
variable (L : Library) (cfg : Config) (env : Env) (channel : GoString) (n : Notification)

/-- The loop of `Send` from its round `i` on. -/
def rounds : Nat → Nat → Bool → Bool → Nat → Option Run
  | 0, _, _, _, _ => none
  | fuel+1, i, refreshed, force, retries =>
    match env.token i with
    | none => some { trace := [.token force], err := some .token }
    | some token =>
      if token = [] ∨ breaksLine token then
        some { trace := [.token force], err := some (.config "invalid token") }
      else if (L.parseURL channel).isNone then
        some { trace := [.token force], err := some (.config "invalid channel") }
      else
        let request := Event.request channel n.body (headers n token)
        match env.response i with
        | none => some { trace := [.token force,request none], err := some .transport }
        | some resp =>
          let result := classify L resp (env.now i)
          let sent := [.token force,request (some result)]
          if result.outcome = some .accepted then some ⟨sent,result,none⟩
          else if result.outcome = some .unauthorized ∧ refreshed = false then
            (rounds fuel (i+1) true true retries).map (Run.after sent)
          else if (result.outcome = some .transient ∨ result.outcome = some .throttled) ∧
              retries < cfg.retries then
            let delay := max result.retryAfter (backoff cfg retries)
            if env.cancelled i then some ⟨sent,result,some .cancelled⟩
            else (rounds fuel (i+1) refreshed false (retries+1)).map
              (Run.after (sent ++ [.wait resp (env.now i) delay]))
          else some ⟨sent,result,some (.response result)⟩

/-- `Send`. -/
def send (fuel : Nat) : Option Run :=
  match validateChannel L channel with
  | .error e => some { trace := [], err := some e }
  | .ok () =>
    if n.invalid then some { trace := [], err := some (.config "invalid raw notification") }
    else rounds L cfg env channel n fuel 0 false false 0

end

def Event.isRequest : Event → Bool
  | .request .. => true
  | _ => false

def Event.isForced : Event → Bool
  | .token force => force
  | _ => false

def Event.answer : Event → Option Result
  | .request _ _ _ answer => answer
  | _ => none

def Event.waited : Event → Option (Response × Time × Int)
  | .wait resp now delay => some (resp,now,delay)
  | _ => none

/-- A forced token follows a 401. -/
def Event.Precedes (a b : Event) : Prop :=
  b.isForced → a.answer.any (·.httpStatus = 401)

def Run.waits (r : Run) : List (Response × Time × Int) := r.trace.filterMap Event.waited

/-- The wait that a `Retry-After` asks for, as an exact number of nanoseconds. -/
def asked (L : Library) (value : GoString) (now : Time) : Int :=
  match (parseDecimal value).filter (0 ≤ ·) with
  | some seconds => seconds*1000000000
  | none =>
    match L.parseTime value with
    | some t => t-now
    | none => 0

/-- Seconds that fit in 32 bits, or a date that a `time.Duration` reaches. -/
def Readable (L : Library) (value : GoString) (now : Time) : Prop :=
  asked L value now ≤ if (parseDecimal value).any (0 ≤ ·) then 2147483647*1000000000 else maxInt

structure Run.Proper (L : Library) (cfg : Config) (channel : GoString) (n : Notification)
    (r : Run) : Prop where
  valid : r.trace.any Event.isRequest → validateChannel L channel = .ok () ∧ n.invalid = false
  bounded : (r.trace.countP Event.isRequest : Int) ≤ cfg.retries+2
  once : r.trace.countP Event.isForced ≤ 1
  first : ¬r.trace.head?.any Event.isForced
  refresh : r.trace.IsChain Event.Precedes
  accepted : r.err = none ↔ (r.trace.filterMap Event.answer).getLast?.any (·.outcome = some .accepted)
  waits : ∀ k resp now delay, r.waits[k]? = some (resp,now,delay) →
    asked L (resp.header "Retry-After") now ≤ delay ∧ cfg.backoff*2^k ≤ delay

theorem retryAfter_le (L : Library) (value : GoString) (now : Time) :
    0 ≤ retryAfter L value now ∧ retryAfter L value now ≤ maxInt := by
  unfold retryAfter parseInt32 maxInt
  split
  · rename_i seconds h
    simp [Option.filter_eq_some_iff] at h
    omega
  · split <;> simp [sub,minInt,maxInt]

theorem readable_iff (L : Library) (value : GoString) (now : Time) :
    Readable L value now ↔ asked L value now ≤ retryAfter L value now := by
  unfold Readable asked retryAfter parseInt32 Time at *
  cases hd : parseDecimal value with
  | none =>
    cases ht : L.parseTime value with
    | none => simp [maxInt]
    | some t =>
      simp [sub,minInt,maxInt]
      omega
  | some seconds =>
    have ht := L.dates value (by simp [hd])
    by_cases h0 : 0 ≤ seconds
    · by_cases h1 : seconds < 2147483648
      · have h2 : -2147483648 ≤ seconds := by omega
        simp [Option.filter_some,h0,h1,h2]
        omega
      · simp [Option.filter_some,h0,h1,ht]
        omega
    · by_cases h1 : -2147483648 ≤ seconds ∧ seconds < 2147483648 <;>
        simp [Option.filter_some,h0,h1,ht,maxInt]

theorem int64_le (n : Int) : int64 n ≤ maxInt := by
  have := Int.bmod_lt (x := n) (m := 2^64) (by decide)
  unfold int64 maxInt
  omega

theorem status_of_unauthorized {resp : Response} (h : outcome resp = .unauthorized) :
    resp.statusCode = 401 := by
  unfold outcome at h
  by_contra hne
  dsimp only at h
  repeat' split at h
  all_goals simp_all

section
variable {L : Library} {cfg : Config} {refreshed force : Bool} {retries : Nat}
  {channel body : GoString} {hs : List (GoString × GoString)} {answer : Option Result}
  {result : Result} {r : Run} {resp : Response} {now : Time}

/-- What holds of the rest of a run at a round with these counters. -/
structure Run.Goes (L : Library) (cfg : Config) (refreshed force : Bool) (retries : Nat)
    (r : Run) : Prop where
  requests : (r.trace.countP Event.isRequest : Int) ≤
    cfg.retries-retries+(if refreshed then 0 else 1)+1
  forced : r.trace.countP Event.isForced ≤ (if force then 1 else 0)+(if refreshed then 0 else 1)
  head : r.trace.head? = some (.token force)
  chain : r.trace.IsChain Event.Precedes
  accepted : r.err = none ↔ (r.trace.filterMap Event.answer).getLast?.any (·.outcome = some .accepted)
  delays : ∀ k resp now delay, r.waits[k]? = some (resp,now,delay) →
    delay = max (retryAfter L (resp.header "Retry-After") now) (backoff cfg (retries+k))

theorem goes_token {e : Error} (hr : retries ≤ cfg.retries) :
    Run.Goes L cfg refreshed force retries ⟨[.token force],result,some e⟩ where
  requests := by
    simp [Event.isRequest]
    split <;> omega
  forced := by cases force <;> simp [List.countP_cons,Event.isForced]
  head := rfl
  chain := by simp
  accepted := by simp [Event.answer]
  delays := by simp [Run.waits,List.filterMap_cons,Event.waited]

theorem goes_request {err : Option Error} (hr : retries ≤ cfg.retries)
    (he : err = none ↔ answer.any (·.outcome = some .accepted)) :
    Run.Goes L cfg refreshed force retries
      ⟨[.token force,.request channel body hs answer],result,err⟩ where
  requests := by
    simp [List.countP_cons,Event.isRequest]
    split <;> omega
  forced := by cases force <;> simp [List.countP_cons,Event.isForced]
  head := rfl
  chain := by simp [Event.Precedes,Event.isForced]
  accepted := by cases answer <;> simpa [List.findSome?_cons,Event.answer] using he
  delays := by simp [Run.waits,List.filterMap_cons,Event.waited]

theorem accepted_after {rest : List Result} {err : Option Error}
    (hne : ¬result.outcome = some .accepted)
    (h : err = none ↔ rest.getLast?.any (·.outcome = some .accepted)) :
    err = none ↔ (result :: rest).getLast?.any (·.outcome = some .accepted) := by
  rw [h,List.getLast?_cons]
  cases rest.getLast? <;> simp [hne]

theorem goes_refresh (h : r.Goes L cfg true true retries)
    (hu : result.outcome = some .unauthorized) (h401 : result.httpStatus = 401) :
    (r.after [.token force,.request channel body hs (some result)]).Goes L cfg false force retries := by
  obtain ⟨rest,ht⟩ := List.head?_eq_some_iff.mp h.head
  have hq := h.requests
  have hf := h.forced
  constructor
  · simp [Run.after,List.countP_cons,Event.isRequest] at hq ⊢
    omega
  · cases force <;> simp [Run.after,List.countP_cons,Event.isForced] at hf ⊢ <;> omega
  · rfl
  · have hc := h.chain
    simp [Run.after,ht,Event.Precedes,Event.isForced,Event.answer,h401] at hc ⊢
    exact hc
  · exact accepted_after (by simp [hu]) h.accepted
  · exact h.delays

theorem goes_retry (h : r.Goes L cfg refreshed false (retries+1))
    (hne : ¬result.outcome = some .accepted) {delay : Int}
    (hd : delay = max (retryAfter L (resp.header "Retry-After") now) (backoff cfg retries)) :
    (r.after [.token force,.request channel body hs (some result),.wait resp now delay]).Goes
      L cfg refreshed force retries := by
  obtain ⟨rest,ht⟩ := List.head?_eq_some_iff.mp h.head
  have hq := h.requests
  have hf := h.forced
  constructor
  · simp [Run.after,List.countP_cons,Event.isRequest] at hq ⊢
    omega
  · cases force <;> simp [Run.after,List.countP_cons,Event.isForced] at hf ⊢ <;> omega
  · rfl
  · have hc := h.chain
    simp [Run.after,ht,Event.Precedes,Event.isForced] at hc ⊢
    exact hc
  · exact accepted_after hne h.accepted
  intro k resp' now' delay' hk
  cases k with
  | zero =>
    simp [Run.waits,Run.after,Event.waited] at hk
    obtain ⟨rfl,rfl,rfl⟩ := hk
    exact hd
  | succ k =>
    have := h.delays k resp' now' delay' hk
    rwa [Nat.add_right_comm,Nat.add_assoc] at this

/-- Each round uses the one refresh or a retry, or is the last. -/
theorem rounds_goes {env : Env} {n : Notification} (fuel i : Nat) (refreshed force : Bool)
    (retries : Nat) (hr : retries ≤ cfg.retries)
    (hf : cfg.retries-retries+(if refreshed then 0 else 1) < fuel) :
    ∃ r, rounds L cfg env channel n fuel i refreshed force retries = some r ∧
      r.Goes L cfg refreshed force retries := by
  induction fuel generalizing i refreshed force retries with
  | zero => split at hf <;> omega
  | succ fuel ih =>
    unfold rounds
    cases env.token i with
    | none => exact ⟨_,rfl,goes_token hr⟩
    | some token =>
      dsimp only
      split
      · exact ⟨_,rfl,goes_token hr⟩
      split
      · exact ⟨_,rfl,goes_token hr⟩
      cases env.response i with
      | none => exact ⟨_,rfl,goes_request hr (by simp)⟩
      | some resp =>
        dsimp only
        split
        · rename_i ha
          exact ⟨_,rfl,goes_request hr (by simp [ha])⟩
        rename_i ha
        split
        · rename_i hu
          obtain ⟨hu,rfl⟩ := hu
          obtain ⟨r,h,hg⟩ := ih (i+1) true true retries hr (by simp at hf ⊢; omega)
          exact ⟨_,by rw [h]; rfl,goes_refresh hg hu (status_of_unauthorized (Option.some.inj hu))⟩
        split
        · rename_i hlt
          split
          · exact ⟨_,rfl,goes_request hr (by simp [ha])⟩
          · obtain ⟨r,h,hg⟩ := ih (i+1) refreshed false (retries+1) (by omega)
              (by split at hf <;> simp_all <;> omega)
            exact ⟨_,by rw [h]; rfl,goes_retry hg ha rfl⟩
        · exact ⟨_,rfl,goes_request hr (by simp [ha])⟩

theorem wait_iff (value : GoString) (hb : 0 ≤ cfg.backoff) (k : Nat) :
    (asked L value now ≤ max (retryAfter L value now) (backoff cfg k) ∧
      cfg.backoff*2^k ≤ max (retryAfter L value now) (backoff cfg k)) ↔
    cfg.backoff*2^k ≤ maxInt ∧ (Readable L value now ∨ asked L value now ≤ cfg.backoff*2^k) := by
  have hr := retryAfter_le L value now
  have hi := int64_le (cfg.backoff*2^k)
  have h0 : 0 ≤ cfg.backoff*2^k := Int.mul_nonneg hb (Int.pow_nonneg (by decide))
  rw [readable_iff]
  by_cases hfit : cfg.backoff*2^k ≤ maxInt
  · have hexact : backoff cfg k = cfg.backoff*2^k := int64_of_fits (by unfold minInt; omega) hfit
    rw [hexact]
    omega
  · unfold backoff
    omega

/-- A run of `Send` ends, and it is as promised when no back-off leaves 64 bits and each
`Retry-After` is read in full or asks for less than the back-off. -/
theorem send_proper_iff {c : Config} (env : Env) (n : Notification) (extra : Nat)
    (hnew : new c = .ok cfg) :
    ∃ r, send L cfg env channel n (cfg.retries.toNat+2+extra) = some r ∧
      (r.Proper L cfg channel n ↔
        ∀ k resp now delay, r.waits[k]? = some (resp,now,delay) → cfg.backoff*2^k ≤ maxInt ∧
          (Readable L (resp.header "Retry-After") now ∨
            asked L (resp.header "Retry-After") now ≤ cfg.backoff*2^k)) := by
  have hcfg : 0 ≤ cfg.retries ∧ 0 ≤ cfg.backoff := by
    unfold new at hnew
    split at hnew
    · cases hnew
    · cases hnew
      dsimp only
      split <;> omega
  have hnil : ∀ e : Error, Run.Proper L cfg channel n ⟨[],{},some e⟩ := fun e =>
    ⟨by simp,by simp; omega,by simp,by simp,by simp,by simp,by simp [Run.waits]⟩
  unfold send
  cases hv : validateChannel L channel with
  | error e => exact ⟨_,rfl,iff_of_true (hnil e) (by simp [Run.waits])⟩
  | ok u =>
    dsimp only
    split
    · exact ⟨_,rfl,iff_of_true (hnil _) (by simp [Run.waits])⟩
    rename_i hi
    obtain ⟨r,hr,hg⟩ := @rounds_goes L cfg channel env n (cfg.retries.toNat+2+extra) 0 false false 0
      (by simpa using hcfg.1) (by simp; omega)
    refine ⟨r,hr,?_,fun h => ?_⟩
    · intro hp k resp now delay hk
      have hw := hp.waits k resp now delay hk
      rw [hg.delays k resp now delay hk,Nat.zero_add] at hw
      exact (wait_iff _ hcfg.2 k).mp hw
    refine ⟨fun _ => ⟨hv,by simpa using hi⟩,by simpa [add_assoc] using hg.requests,
      by simpa using hg.forced,by simp [hg.head,Event.isForced],hg.chain,hg.accepted,?_⟩
    intro k resp now delay hk
    rw [hg.delays k resp now delay hk,Nat.zero_add]
    exact (wait_iff _ hcfg.2 k).mpr (h k resp now delay hk)

end

namespace Sample

def library : Library where
  parseURL _ := some { scheme := "https", hostname := "notify.windows.com" }
  toLower s := s
  parseTime _ := none
  dates _ _ := rfl

/-- Two answers 503 and then 200. -/
def env : Env where
  token _ := some "t"
  response i := some ⟨if i < 2 then 503 else 200,fun _ => []⟩
  now _ := 0
  cancelled _ := false

def config : Config := { retries := 2, backoff := 2^62 }

end Sample

theorem send_proper_one : ∃ r, send Sample.library { retries := 1, backoff := 1 } Sample.env "c"
    { body := [1] } 3 = some r ∧ r.Proper Sample.library { retries := 1, backoff := 1 } "c" { body := [1] } :=
  have ⟨r,h,hp⟩ := @send_proper_iff Sample.library _ "c" { retries := 1, backoff := 1 } Sample.env { body := [1] } 0 rfl
  ⟨r,h,hp.mpr (by
    cases h
    intro k resp now delay hk
    cases k with
    | zero =>
      cases hk
      exact ⟨by decide,Or.inr (by decide)⟩
    | succ k => cases hk)⟩

/-- The second wait is to be twice 146 years, and there is none. -/
theorem send_backoff_overflows : new Sample.config = .ok Sample.config ∧
    (send Sample.library Sample.config Sample.env "c" { body := [1] } 4).map
      (·.waits.map (·.2.2)) = some [2^62,0] := by
  decide +kernel

end MicrosoftDM.Wns
