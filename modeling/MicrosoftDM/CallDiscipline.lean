import MicrosoftDM.FailedCalls

set_option autoImplicit false

namespace MicrosoftDM.Mdm
open Effect
open Effect.Action (exec exec_bind_error Stays)
open MicrosoftDM.Syncml (Item Message)

/-- `w` is further on than `w₀` in answering one message. -/
structure Work.Within (w₀ w : Work) : Prop where
  sess : w₀.sess.Steady { w.sess with serverMsgID := w₀.sess.serverMsgID }
  header : w.resp.header = w₀.resp.header

theorem Work.Within.refl (w : Work) : w.Within w := ⟨.refl w.sess,rfl⟩

variable {w₀ : Work} {w : World} {key nd : GoString} {op : Op} {P : Op → Prop} {I : Work → Prop}
  {uris : List GoString} {id : Identity} {outcome : AuthOutcome} {e : Err} {cfg : Config}
  {env : Env} {t : Option Transport} {req : Message} {c : Call} {s : Session}

theorem Work.Within.step {w w' : Work} (h : w₀.Within w) (hs : w.sess.Steady w'.sess)
    (hh : w'.resp.header = w.resp.header) : w₀.Within w' where
  sess :=
    { addr := hs.addr.trans h.sess.addr
      key := hs.key.trans h.sess.key
      deviceID := hs.deviceID.trans h.sess.deviceID
      sessionID := hs.sessionID.trans h.sess.sessionID
      enrollmentKey := hs.enrollmentKey.trans h.sess.enrollmentKey
      clientMsgID := hs.clientMsgID.trans h.sess.clientMsgID
      serverMsgID := rfl
      authenticated := hs.authenticated.trans h.sess.authenticated
      authType := hs.authType.trans h.sess.authType
      maxObjSize := hs.maxObjSize.trans h.sess.maxObjSize }
  header := hh.trans h.header

/-- The reply of `w` has become the session's last. -/
structure Work.Advanced (w₀ w : Work) : Prop extends Work.Within w₀ w where
  serverMsgID : w.sess.serverMsgID = atoiValue w₀.resp.header.msgID

/-- The calls that answering a message from `w₀` on makes before the session
is stored; `nd` is the device it authenticates as. -/
def Op.Answers (w₀ : Work) (nd : GoString) : Op → Prop
  | .getSession _ | .newMaps | .abandon _ _ | .putSession _ | .deleteSession _ => False
  | .nonceUpdate key _ _ => key = nonceKey nd
  | .enqueue dev _ _ | .deliverable dev _ | .markSent dev _ | .storeResult dev _ _ =>
    dev = w₀.sess.deviceID
  | _ => True

/-- All of them but `StoreResult`, which only `finish` calls. -/
def Op.Builds (w₀ : Work) (nd : GoString) : Op → Prop
  | .storeResult _ _ _ => False
  | op => op.Answers w₀ nd

theorem Op.Builds.answers (h : op.Builds w₀ nd) :
    op.Answers w₀ nd := by
  cases op with
  | storeResult dev id r => exact h.elim
  | _ => exact h

def Op.Serves (w₀ : Work) (nd : GoString) (op : Op) : Prop :=
  op.Answers w₀ nd ∨ (∃ w, w₀.Advanced w ∧ op = .putSession w.sess) ∨ op = .deleteSession w₀.sess.key

section Stages
variable {w₀ : Work} {nd : GoString}

abbrev Eng.Answers {α : Type} (w₀ : Work) (nd : GoString) (x : Eng α) : Prop :=
  x.Stays (Op.Answers w₀ nd) w₀.Within

abbrev Eng.Builds {α : Type} (w₀ : Work) (nd : GoString) (x : Eng α) : Prop :=
  x.Stays (Op.Builds w₀ nd) w₀.Within

theorem orFail_stays {α : Type} (f : StoreError → Err)
    (r : Except StoreError α) : (Eng.orFail f r).Stays P I := by
  cases r with
  | ok a => exact .pure a
  | error e => exact .fail _

theorem hook_stays {hk : HookCall} (h : P (.hook hk)) :
    (Eng.hook hk).Stays P I :=
  .bind (.operate h) fun r => orFail_stays _ r

/-- `encodeReply` makes no call. -/
theorem encodeReply_stays (ending : Bool) (resp : Message) :
    (encodeReply ending resp).Stays P I := by
  unfold encodeReply
  split
  · exact .pure _
  split
  · exact .pure _
  · exact .fail _

def readLists (cfg : Config) : List (List GoString) :=
  firstReadURIs :: if cfg.providerID ≠ [] then (channelReadURIs cfg.providerID).map ([·]) else []

/-- `P` holds of the Gets that the engine queues, under any ID. -/
def Config.ReadsIn (cfg : Config) (P : Command → Prop) : Prop :=
  ∀ uris ∈ readLists cfg, ∀ id get, newGet uris { id := id } = .ok get →
    P { get with internal := true }

/-- What the stages of `Handle` ask of a set of calls and of what is to be kept. -/
structure Eng.Allows (P : Op → Prop) (I : Work → Prop) (R : Command → Prop) : Prop where
  step : ∀ {w w' : Work}, I w → w.sess.Steady w'.sess → w'.resp.header = w.resp.header → I w'
  now : P .now
  enqueue : ∀ {w : Work} {c : Command} (t : Time), I w → R c → P (.enqueue w.sess.deviceID c t)
  deliverable : ∀ {w : Work} (n : Int), I w → P (.deliverable w.sess.deviceID n)
  markSent : ∀ {w : Work} (ds : List Delivery), I w → P (.markSent w.sess.deviceID ds)

namespace Eng.Allows
variable {P : Op → Prop} {I : Work → Prop} {R : Command → Prop} (h : Allows P I R) {cfg : Config}
  {req : Message}
include h

theorem reply (c : Work → GoString → Syncml.Command) :
    (Action.update fun w => w.reply (c w) : Eng Unit).Stays P I :=
  .update fun _ hw => h.step hw (.refl _) rfl

theorem setSess {f : Session → Session} (hf : ∀ s : Session, s.Steady (f s)) :
    (Action.update (·.setSess f) : Eng Unit).Stays P I :=
  .update fun w hw => h.step hw (hf w.sess) rfl

theorem setFinal (final : Work → Bool) :
    (Action.update fun w => w.setFinal (final w) : Eng Unit).Stays P I :=
  .update fun _ hw => h.step hw (.refl _) rfl

theorem alertItem (hhook : ∀ hk, P (.hook hk)) (code : Syncml.AlertCode) (it : Item) :
    (alertItem code it).Stays P I := by
  refine .locals_bind fun w _ => ?_
  split
  · refine .bind (hook_stays (hhook _)) fun _ => h.setSess fun s => ?_
    unfold Session.noteUnenroll
    split <;> constructor <;> rfl
  · split
    · exact hook_stays (hhook _)
    · exact .pure ()

theorem alertItems (hhook : ∀ hk, P (.hook hk)) (code : Syncml.AlertCode) (items : List Item) :
    (alertItems code items).Stays P I := by
  induction items with
  | nil => exact .pure ()
  | cons it rest ih => exact .bind (h.alertItem hhook code it) fun _ => ih

theorem ackCommand (hhook : ∀ hk, P (.hook hk)) (c : Syncml.Command) :
    (ackCommand cfg req c).Stays P I := by
  cases c with
  | status st => exact .pure ()
  | results res =>
    refine .locals_bind fun w _ => .bind (h.setSess fun s => ?_) fun _ => ?_
    · exact (fileResults_taking cfg.maxRequestSize s res).steady
    split
    · exact .pure ()
    · exact .fail _
  | alert a =>
    refine .bind (h.reply _) fun _ => ?_
    split
    · exact .pure ()
    split
    · exact h.setSess fun s => by constructor <;> rfl
    split
    · exact h.setSess fun s => by constructor <;> rfl
    split
    · exact h.alertItems hhook _ _
    · exact .pure ()
  | leaf _ _ | group _ _ _ _ _ => exact h.reply _

theorem ackCommands (hhook : ∀ hk, P (.hook hk)) (cs : List Syncml.Command) :
    (ackCommands cfg req cs).Stays P I := by
  induction cs with
  | nil => exact .pure ()
  | cons c cs ih => exact .bind (h.ackCommand hhook c) fun _ => ih

theorem enqueueRead {id : GoString}
    (hr : ∀ get, newGet uris { id := id } = .ok get → R { get with internal := true }) :
    (enqueueRead uris id).Stays P I := by
  unfold Mdm.enqueueRead
  split
  · exact .fail _
  rename_i get hget
  exact .locals_bind fun w hw => .bind (.operate h.now) fun t =>
    .operate (h.enqueue t hw (hr get hget))

theorem channelReads
    (hr : ∀ uri ∈ uris, ∀ id get, newGet [uri] { id := id } = .ok get → R { get with internal := true }) :
    (channelReads uris).Stays P I := by
  induction uris with
  | nil => exact .pure ()
  | cons uri uris ih =>
    refine .bind (h.enqueueRead (hr uri List.mem_cons_self [])) fun r =>
      .bind (orFail_stays _ r) fun _ => ih ?_
    exact fun x hx => hr x (List.mem_cons_of_mem uri hx)

theorem queueFirstSessionReads (hr : cfg.ReadsIn R) : (queueFirstSessionReads cfg).Stays P I := by
  refine .bind (.locals_bind fun w _ =>
    .bind (h.enqueueRead (hr _ List.mem_cons_self _)) fun r => ?_) fun _ => ?_
  · unfold unlessConflict
    split
    · exact .pure ()
    · exact .pure ()
    · exact .fail _
  · split
    · rename_i hp
      refine h.channelReads ?_
      intro uri huri
      refine hr [uri] (List.mem_cons_of_mem _ ?_)
      rw [if_pos hp]
      exact List.mem_map_of_mem huri
    · exact .pure ()

theorem ackAndFile (hr : cfg.ReadsIn R) (hhook : ∀ hk, P (.hook hk)) :
    (ackAndFile cfg req).Stays P I := by
  refine .bind (h.ackCommands hhook _) fun _ => ?_
  refine .bind (h.setSess fun s => fileStatuses_steady s _) fun _ => .locals_bind fun w _ => ?_
  split
  · refine .bind (h.setSess fun s => by constructor <;> rfl) fun _ => ?_
    refine .bind (.locals_bind fun w _ => ?_) fun _ => .locals_bind fun w _ => ?_
    · split
      · exact hook_stays (hhook _)
      · exact .pure ()
    · split
      · exact .pure ()
      · exact h.queueFirstSessionReads hr
  · exact .pure ()

theorem stamp (msgID : GoString) (ids : List GoString) : (stamp msgID ids).Stays P I := by
  induction ids with
  | nil => exact .pure _
  | cons id ids ih => exact .bind (.operate h.now) fun _ => .bind ih fun _ => .pure _

theorem deliver : (deliver cfg).Stays P I := by
  refine .locals_bind fun w hw => ?_
  split
  · exact .update fun w hw => h.step hw (.refl _) rfl
  refine .bind (.operate (h.deliverable _ hw)) fun r => .bind (orFail_stays _ r) fun cmds => ?_
  refine .bind (.update fun _ _ => ?_) fun _ => ?_
  · obtain ⟨through,-,he,-⟩ := deliverLoop_eq w (w.budget cfg) [] cmds
    rw [he]
    exact h.step hw (foldl_send_sending w through).steady (foldl_send_header w through)
  refine .bind ?_ fun _ => h.setFinal _
  unfold markDelivered
  split
  · exact .pure ()
  · refine .locals_bind fun w hw => .bind (h.stamp _ _) fun ds => ?_
    exact .bind (.operate (h.markSent ds hw)) fun r => orFail_stays _ r

theorem complete : (complete cfg req).Stays P I := by
  refine .locals_bind fun w _ => ?_
  split
  · exact h.setFinal _
  split
  · refine .locals_bind fun w _ => ?_
    split
    · refine .update fun w hw => ?_
      obtain ⟨hs,hh⟩ := Work.sendChunk_sending w _ _ _
      exact h.step hw hs.steady hh
    · exact h.deliver
  · exact h.deliver

theorem challenge (hnew : P .newNonce)
    (hupdate : ∀ value ttl, P (.nonceUpdate (nonceKey id.deviceID) value ttl)) :
    (challenge cfg req id outcome).Stays P I := by
  unfold Mdm.challenge
  split
  · exact .update fun w hw => h.step hw (by constructor <;> rfl) rfl
  refine .bind ?_ fun nonce => .update fun w hw => h.step hw (by constructor <;> rfl) rfl
  refine .bind (.operate hnew) fun nonce => .bind (.operate (hupdate _ _)) fun stored => ?_
  exact .bind (orFail_stays _ stored) fun _ => .pure _

theorem build (hr : cfg.ReadsIn R) (hhook : ∀ hk, P (.hook hk))
    (hnew : P .newNonce) (hupdate : ∀ value ttl, P (.nonceUpdate (nonceKey id.deviceID) value ttl)) :
    (build cfg req id outcome).Stays P I := by
  unfold Mdm.build
  split
  · exact .bind (h.reply _) fun _ => .bind (h.ackAndFile hr hhook) fun _ => h.complete
  · exact h.challenge hnew hupdate

theorem flushResults (horder : ∀ keys, P (.rangeOrder keys))
    (hstore : ∀ {w : Work} (id : GoString) (r : Result), I w → P (.storeResult w.sess.deviceID id r)) :
    flushResults.Stays P I := by
  refine .locals_bind fun _ _ => .bind (.operate (horder _)) fun order => ?_
  show (flushLoop order).Stays P I
  induction order with
  | nil => exact .pure ()
  | cons id ids ih =>
    refine .bind (.locals_bind fun w hw => ?_) fun _ => ih
    split
    · exact .pure ()
    · refine .bind (.operate h.now) fun now => .bind (.operate (hstore _ _ hw)) fun r => ?_
      exact .bind (orFail_stays _ r) fun _ => h.setSess fun s => by constructor <;> rfl

end Eng.Allows

theorem within_allows (hP : ∀ op, op.Builds w₀ nd → P op) :
    Eng.Allows P w₀.Within fun _ => True where
  step := Work.Within.step
  now := hP _ trivial
  enqueue _ hw _ := hP _ hw.sess.deviceID
  deliverable _ hw := hP _ hw.sess.deviceID
  markSent _ hw := hP _ hw.sess.deviceID

theorem build_builds (cfg : Config) (req : Message) (id : Identity) (outcome : AuthOutcome) :
    (build cfg req id outcome).Builds w₀ id.deviceID :=
  (within_allows fun _ h => h).build (fun _ _ _ _ _ => trivial) (fun _ => trivial) trivial
    fun _ _ => rfl

theorem build_answers (cfg : Config) (req : Message) (id : Identity) (outcome : AuthOutcome) :
    (build cfg req id outcome).Answers w₀ id.deviceID :=
  (build_builds cfg req id outcome).mono fun _ h => h.answers

theorem flushResults_answers : flushResults.Answers w₀ nd :=
  (within_allows fun _ h => h.answers).flushResults (fun _ => trivial) fun _ _ hw => hw.sess.deviceID

theorem unenrolledHook_answers (cfg : Config) :
    (unenrolledHook cfg).Stays (Op.Answers w₀ nd) I := by
  refine .locals_bind fun w _ => ?_
  split
  · exact hook_stays trivial
  · exact .pure ()

theorem storeSession_serves (cfg : Config) :
    (storeSession cfg).Stays (Op.Serves w₀ nd) w₀.Advanced := by
  refine .locals_bind fun w h => ?_
  split
  · have hkey : w.sess.key = w₀.sess.key := h.sess.key
    refine .bind (.operate (.inr (.inr (congrArg _ hkey)))) fun r => .bind (orFail_stays _ r) fun _ => ?_
    exact (unenrolledHook_answers cfg).mono fun _ h => .inl h
  · refine .bind (.operate (.inr (.inl ⟨w,h,rfl⟩))) fun r => .bind (orFail_stays _ r) fun _ => ?_
    exact .update fun w h => { h with }

theorem finish_serves (cfg : Config) :
    (finish cfg).Stays (Op.Serves w₀ nd) w₀.Within := by
  refine .bind (flushResults_answers.mono fun _ h => .inl h) fun _ => ?_
  refine .update_bind (J := w₀.Advanced) (fun w h => ?_) (fun w h => h.toWithin) ?_
  · exact ⟨⟨h.sess,h.header⟩,congrArg (fun hdr : Syncml.Header => atoiValue hdr.msgID) h.header⟩
  · exact .bind (storeSession_serves cfg) fun _ => .locals_bind fun w _ => encodeReply_stays _ _

theorem respond_serves (cfg : Config) (req : Message) (id : Identity) (outcome : AuthOutcome) :
    (respond cfg req id outcome).Stays (Op.Serves w₀ id.deviceID) w₀.Within :=
  .bind ((build_answers cfg req id outcome).mono fun _ h => .inl h) fun _ => finish_serves cfg

end Stages

section Stopped
variable {env : Env} {cfg : Config} {w w' : Work} {m m' : Machine}

theorem Op.Moves.answers_sessions {w w' : World}
    (hm : op.Moves w w') (hop : op.Answers w₀ nd) : w'.sessions = w.sessions := by
  cases hm with
  | expire | putSession | deleteSession | abandon => exact hop.elim
  | _ => rfl

theorem exec_answers_sessions {α : Type} {x : Eng α} {r : Except Err α} (nd : GoString)
    (hx : x.Answers w nd) (h : exec env.handler x w m = ((r,w'),m')) :
    m'.world.sessions = m.world.sessions := by
  have hrun := Program.Only.run_rel (R := fun m m' : Machine => m'.world.sessions = m.world.sessions)
    (fun _ => rfl) (fun _ _ _ h₁ h₂ => h₂.trans h₁)
    (fun op m hop => (env.handler_moves op m).answers_sessions hop) (hx w (.refl w)).1 m
  rwa [show (x w).run env.handler m = _ from h] at hrun

theorem orFail_error {α : Type} {f : StoreError → Err} {r : Except StoreError α}
    (h : exec env.handler (Eng.orFail f r) w m = ((.error e,w'),m')) :
    (∃ err, r = .error err) ∧ m' = m := by
  cases r with
  | ok a => cases h
  | error err => cases h; exact ⟨⟨err,rfl⟩,rfl⟩

theorem Env.fallible_error {env : Env} {m : Machine} {r : Except StoreError Unit × World}
    {e : StoreError} (hr : r.1 = .ok ()) (h : (env.fallible m r).1 = .error e) :
    (env.fallible m r).2.world = m.world := by
  unfold fallible at h ⊢
  split at h
  · rename_i hf
    rw [if_pos hf]
    rfl
  · rw [hr] at h
    cases h

theorem storeSession_error
    (h : exec env.handler (storeSession cfg) w m = ((.error e,w'),m')) :
    m'.world.sessions = m.world.sessions ∨ m'.world.sessions = m.world.sessions.erase w.sess.key := by
  rcases (exec_bind_error _).mp h with h₁ | ⟨_,_,_,h₁,h⟩
  · cases h₁
  cases h₁
  split at h
  · rcases (exec_bind_error _).mp h with h₁ | ⟨r,_,_,h₁,h⟩
    · cases h₁
    cases h₁
    rcases (exec_bind_error _).mp h with h₂ | ⟨_,_,_,h₂,h⟩
    · obtain ⟨⟨err,he⟩,rfl⟩ := orFail_error h₂
      exact .inl (congrArg World.sessions (Env.fallible_error rfl he))
    obtain ⟨hr,rfl,rfl⟩ := orFail_ok h₂
    obtain ⟨-,hm⟩ := Env.fallible_ok (Prod.ext hr rfl)
    refine .inr ((exec_answers_sessions [] (unenrolledHook_answers cfg) h).trans ?_)
    exact congrArg (fun m : Machine => m.world.sessions) hm
  · rcases (exec_bind_error _).mp h with h₁ | ⟨r,_,_,h₁,h⟩
    · cases h₁
    cases h₁
    rcases (exec_bind_error _).mp h with h₂ | ⟨_,_,_,h₂,h⟩
    · obtain ⟨⟨err,he⟩,rfl⟩ := orFail_error h₂
      exact .inl (congrArg World.sessions (Env.fallible_error rfl he))
    · cases h

theorem finish_disturbed (he : e.fromCall = true)
    (h : exec env.handler (finish cfg) w m = ((.error e,w'),m')) :
    m'.world.sessions = m.world.sessions ∨ m'.world.sessions = m.world.sessions.erase w.sess.key := by
  rcases (exec_bind_error _).mp h with h₁ | ⟨_,w₁,m₁,h₁,h⟩
  · exact .inl (exec_answers_sessions [] flushResults_answers h₁)
  have hs₁ := exec_answers_sessions [] flushResults_answers h₁
  have hkey : w₁.sess.key = w.sess.key := by
    obtain ⟨hf,-⟩ := flushResults_ok h₁
    rw [hf.frame]
  rcases (exec_bind_error _).mp h with h₂ | ⟨_,_,_,h₂,h⟩
  · cases h₂
  cases h₂
  rcases (exec_bind_error _).mp h with h₃ | ⟨_,w₃,m₃,h₃,h⟩
  · have hst := storeSession_error h₃
    rw [← hs₁,← hkey]
    exact hst
  rcases (exec_bind_error _).mp h with h₄ | ⟨_,_,_,h₄,h⟩
  · cases h₄
  cases h₄
  unfold encodeReply at h
  split at h
  · cases h
  split at h
  · cases h
  · cases h
    cases he

end Stopped

/-- The reply of a call is complete and its session stored, also when the reply cannot be encoded. -/
structure Reached.Completed {cfg : Config} {env : Env} {t : Option Transport} {req : Message}
    {w : World} (r : Reached cfg env t req w) (reply : Option Message) : Prop where
  answered : r.outcome = .trusted → Nonempty (Answered cfg req r.sess r.start.world r.work.sess
    (serve cfg env t req w).2 reply)
  challenged : r.outcome ≠ .trusted → Nonempty (Challenged cfg req r.outcome r.sess r.start.world
    r.work.sess (serve cfg env t req w).2 reply)

theorem Reached.Completed.cases {r : Reached cfg env t req w} {reply : Option Message} (h : r.Completed reply) :
    Nonempty (Answered cfg req r.sess r.start.world r.work.sess (serve cfg env t req w).2 reply) ∨
    Nonempty (Challenged cfg req r.outcome r.sess r.start.world r.work.sess (serve cfg env t req w).2 reply) :=
  (Classical.em _).imp h.answered h.challenged

theorem Reached.completed (r : Reached cfg env t req w) {reply : Option Message} (h : r.result = .ok reply) :
    r.Completed reply := by
  have hafter := r.after
  have hresp := r.responds
  rw [h] at hafter hresp
  obtain ⟨ht,hn⟩ := respond_ok hresp
  rw [r.authenticated.2] at ht hn
  exact ⟨by rw [hafter]; exact ht,by rw [hafter]; exact hn⟩

theorem Call.completed {reply : Option Message}
    (h : (c.out cfg).reply = .ok reply) :
    ∃ r : Reached cfg c.env c.transport c.req c.before, r.Completed reply ∧
      (c.out cfg).sess = some r.work.sess := by
  rcases serve_cases cfg c.env c.transport c.req c.before with ⟨-,-,⟨e,he⟩,-⟩ | ⟨⟨r⟩⟩
  · have he : (c.out cfg).reply = .error e := he
    rw [he] at h
    cases h
  · rw [Call.out,r.out] at h
    exact ⟨r,r.completed h,by rw [Call.out,r.out]⟩

/-- A call completes its reply, or leaves in the store what it has written through to the session. -/
theorem Reached.stops
    (r : Reached cfg env t req w) :
    (∃ reply, r.Completed reply) ∨
    ∃ sessions popped, (sessions = r.start.world.sessions ∨
        sessions = r.start.world.sessions.erase r.sess.key) ∧
      (serve cfg env t req w).2.sessions = MemorySessions.abandon sessions r.work.sess popped := by
  by_cases hu : ∀ e, r.result = .error e → e.fromCall = false
  · rcases r.undisturbed hu with ⟨reply,ht,hn,-⟩ | ⟨-,-,hafter⟩
    · exact .inl ⟨reply,ht,hn⟩
    · exact .inr ⟨_,false,.inl rfl,congrArg World.sessions hafter.1⟩
  push Not at hu
  obtain ⟨e,hr,he⟩ := hu
  have hafter := congrArg World.sessions r.after
  have hresp := r.responds
  rw [hr] at hafter hresp
  have hsame : r.authed.world.sessions = r.start.world.sessions :=
    congrArg World.sessions r.authenticated.2
  refine .inr ⟨r.stop.world.sessions,r.work.popped,?_,hafter⟩
  rw [← hsame]
  rcases (exec_bind_error _).mp hresp with h₁ | ⟨_,w₁,m₁,h₁,h⟩
  · exact .inl (exec_answers_sessions _ (build_answers cfg req r.id r.outcome) h₁)
  have hbuilt := exec_answers_sessions _ (build_answers cfg req r.id r.outcome) h₁
  have hkey : w₁.sess.key = r.sess.key :=
    ((build_answers cfg req r.id r.outcome).exec (.refl _) h₁).sess.key
  rw [← hbuilt,← hkey]
  exact finish_disturbed (by simpa using he) h

def World.Stores (J : GoString → Session → Prop) (w : World) : Prop :=
  ∀ key s, w.sessions.lookup key = some s → J key s

/-- `J` is kept by what a call that stopped writes through to the stored session. -/
def WrittenThrough (J : GoString → Session → Prop) : Prop :=
  ∀ key stored s popped, J key stored → J key (MemorySessions.writeThrough stored s popped)

theorem chunks_writtenThrough {P : Session → Item → Prop}
    (hP : ∀ stored s popped it, P stored it → P (MemorySessions.writeThrough stored s popped) it) :
    WrittenThrough fun _ s => ∀ o, s.outgoing = some o → ∀ it ∈ o.chunks, P s it := by
  intro key stored s popped h o ho it hit
  refine hP stored s popped it ?_
  unfold MemorySessions.writeThrough at ho
  dsimp only at ho
  split at ho
  · obtain ⟨x,hx,rfl⟩ := Option.map_eq_some_iff.mp ho
    exact h x hx it (List.mem_of_mem_tail hit)
  · exact h o ho it hit

section Stored
variable {J : GoString → Session → Prop} {w w' : World}

theorem World.stores_empty (h : w.sessions = ∅) : w.Stores J := by
  intro key s hs
  rw [h,AList.lookup_empty] at hs
  cases hs

theorem World.Stores.erase (h : w.Stores J)
    (hw : w'.sessions = w.sessions.erase key) : w'.Stores J := by
  intro k s hs
  rw [hw] at hs
  exact h k s (GoMap.lookup_erase_some hs).2

theorem World.Stores.insert (h : w.Stores J) {sess : Session} (hs : J key sess)
    (hw : w'.sessions = w.sessions.insert key sess) : w'.Stores J := by
  intro k s hk
  rw [hw] at hk
  rcases GoMap.lookup_insert_cases hk with ⟨rfl,rfl⟩ | ⟨-,hk⟩
  · exact hs
  · exact h k s hk

theorem World.Stores.abandon (h : w.Stores J) (hJ : WrittenThrough J) {popped : Bool}
    (hw : w'.sessions = MemorySessions.abandon w.sessions s popped) : w'.Stores J := by
  unfold MemorySessions.abandon at hw
  split at hw
  · rename_i stored hs
    split at hw
    · exact h.insert (hJ _ _ s popped (h _ _ hs)) hw
    · intro k x hk
      exact h k x (hw ▸ hk)
  · intro k x hk
    exact h k x (hw ▸ hk)

theorem Arrival.stores
    (ha : Arrival req id t w s w') (h : w.Stores J) : w'.Stores J := by
  cases ha with
  | continued hs hk hm => exact h
  | opened hs hm hp =>
    rcases hs with rfl | rfl
    · exact h
    · exact h.erase rfl

theorem Call.stores (h : c.before.Stores J) (hJ : WrittenThrough J)
    (hfinal : ∀ (r : Reached cfg c.env c.transport c.req c.before) reply, r.Completed reply →
      r.work.sess.closed = false → J r.work.sess.key r.work.sess) : (c.after cfg).Stores J := by
  rcases serve_cases cfg c.env c.transport c.req c.before with ⟨-,-,-,sessions,hs,he⟩ | ⟨⟨r⟩⟩
  · have he' := congrArg World.sessions he
    rcases hs with rfl | rfl
    · intro k s hk
      exact h k s (he' ▸ hk)
    · exact h.erase he'
  · have hstart := r.arrival.stores h
    rcases r.stops with ⟨reply,hr⟩ | ⟨sessions,popped,hs,he⟩
    · have hend : (c.after cfg).sessions = r.start.world.sessions.erase r.work.sess.key ∨
          (c.after cfg).sessions = r.start.world.sessions.insert r.work.sess.key r.work.sess ∧
            r.work.sess.closed = false := by
        rcases hr.cases with ⟨⟨x⟩⟩ | ⟨⟨x⟩⟩
        · exact x.finished.sessions
        · exact x.finished.sessions
      rcases hend with he | ⟨he,hc⟩
      · exact hstart.erase he
      · exact hstart.insert (hfinal r reply hr hc) he
    · have hmid : World.Stores J { r.start.world with sessions := sessions } := by
        rcases hs with rfl | rfl
        · exact hstart
        · exact hstart.erase rfl
      exact hmid.abandon hJ he

theorem Run.stores {calls : List Call} (hr : Run cfg w calls w') (h : w.Stores J)
    (hJ : WrittenThrough J)
    (hfinal : ∀ c ∈ calls, c.before.Stores J →
      ∀ (r : Reached cfg c.env c.transport c.req c.before) reply, r.Completed reply →
        r.work.sess.closed = false → J r.work.sess.key r.work.sess) :
    ∀ c ∈ calls, c.before.Stores J :=
  (hr.invariant h (.of_queue fun _ _ h => h)
    fun c hc hb => Call.stores hb hJ (hfinal c hc hb)).2

end Stored

end MicrosoftDM.Mdm
