import MicrosoftDM.CallDiscipline
import MicrosoftDM.SessionSteps
import MicrosoftDM.TrustBoundary

set_option autoImplicit false

namespace MicrosoftDM.Mdm
open Effect
open Effect.Action (exec exec_bind exec_bind_ok exec_bind_error mem_calls_bind Stays)
open MicrosoftDM.Syncml (Item Message)

/-- `StoreResult` and `DeleteSession`. -/
def Op.settles : Op → Bool
  | .storeResult _ _ _ | .deleteSession _ => true
  | _ => false

/-- When `finish` from `w` on makes these two calls. -/
def Op.Finishes (w : Work) : Op → Prop
  | .storeResult dev id r => dev = w.sess.deviceID ∧ (w.sess.pendingOf id).status = some r.status
  | .deleteSession key => key = w.sess.key ∧ w.ending = true
  | _ => True

/-- `w'` is `w` with some of its answers written and its reply numbered. -/
structure Work.Finishing (w w' : Work) : Prop where
  sess : ∃ r n, w'.sess = { w.sess with results := r, serverMsgID := n }
  resp : w'.resp = w.resp
  pending : ∀ id, (w'.sess.pendingOf id).status = none ∨ w'.sess.pendingOf id = w.sess.pendingOf id

theorem Work.Finishing.refl (w : Work) : w.Finishing w := ⟨⟨_,_,rfl⟩,rfl,fun _ => .inr rfl⟩

variable {w w' : Work} {env : Env} {cfg : Config} {req : Message} {id : Identity} {c : Call}
  {t : Option Transport} {s : Session} {key : GoString}

theorem Work.Finishing.ending (h : w.Finishing w') : w'.ending = w.ending := by
  obtain ⟨r,n,hs⟩ := h.sess
  unfold Work.ending
  rw [h.resp,hs]
  rfl

theorem Work.Finishing.deviceID (h : w.Finishing w') :
    w'.sess.deviceID = w.sess.deviceID ∧ w'.sess.key = w.sess.key := by
  obtain ⟨r,n,hs⟩ := h.sess
  rw [hs]
  exact ⟨rfl,rfl⟩

theorem Work.Finishing.dropPending (h : w.Finishing w') (id : GoString) :
    w.Finishing (w'.setSess (·.dropPending id)) := by
  obtain ⟨r,n,hs⟩ := h.sess
  refine ⟨⟨r.map (·.erase id),n,?_⟩,h.resp,fun id' => ?_⟩
  · simp only [Work.setSess,hs]
    rfl
  by_cases hid : id' = id
  · left
    rw [hid]
    exact congrArg PendingResult.status (Session.pendingOf_dropPending_self w'.sess id)
  · rw [show (w'.setSess (·.dropPending id)).sess.pendingOf id' = w'.sess.pendingOf id' from
      Session.pendingOf_dropPending_ne w'.sess hid]
    exact h.pending id'

section Finishing
variable {w : Work}

theorem flushLoop_finishes (order : List GoString) :
    (flushLoop order).Stays (Op.Finishes w) w.Finishing := by
  induction order with
  | nil => exact .pure ()
  | cons id ids ih =>
    refine .bind (.locals_bind fun w' h => ?_) fun _ => ih
    split
    · exact .pure ()
    rename_i status hst
    have hpending : (w.sess.pendingOf id).status = some status := by
      rcases h.pending id with hn | he
      · rw [hst] at hn
        cases hn
      · rw [← he]
        exact hst
    refine .bind (.operate trivial) fun now => .bind (.operate ?_) fun r => ?_
    · exact ⟨h.deviceID.1,hpending⟩
    · exact .bind (orFail_stays _ r) fun _ => .update fun w' h => h.dropPending id

theorem storeSession_finishes (cfg : Config) :
    (storeSession cfg).Stays (Op.Finishes w) w.Finishing := by
  refine .locals_bind fun w' h => ?_
  split
  · rename_i hend
    refine .bind (.operate ⟨h.deviceID.2,h.ending ▸ hend⟩) fun r => .bind (orFail_stays _ r) fun _ => ?_
    refine .locals_bind fun w' h => ?_
    split
    · exact hook_stays trivial
    · exact .pure ()
  · refine .bind (.operate trivial) fun r => .bind (orFail_stays _ r) fun _ => ?_
    exact .update fun w' h => ⟨h.sess,h.resp,h.pending⟩

theorem finish_finishes (cfg : Config) : (finish cfg).Stays (Op.Finishes w) w.Finishing := by
  refine .bind (.locals_bind fun w' _ => .bind (.operate trivial) fun order =>
    flushLoop_finishes order) fun _ => ?_
  refine .bind (.update fun w' h => ?_) fun _ => .bind (storeSession_finishes cfg) fun _ => ?_
  · obtain ⟨r,n,hs⟩ := h.sess
    refine ⟨⟨r,atoiValue w'.resp.header.msgID,?_⟩,h.resp,h.pending⟩
    simp only [Work.advance,hs]
  · exact .locals_bind fun w' _ => encodeReply_stays _ _

end Finishing

theorem respond_calls
    {outcome : AuthOutcome} {m : Machine} {x : (op : Op) × Ans op}
    (hx : x ∈ (respond cfg req id outcome w).calls env.handler m) :
    x.1.Builds w id.deviceID ∨
    ∃ w₁ m₁, exec env.handler (build cfg req id outcome) w m = ((.ok (),w₁),m₁) ∧
      x.1.Finishes w₁ := by
  rcases mem_calls_bind env.handler hx with hx | ⟨_,w₁,m₁,hb,hx⟩
  · exact .inl (((build_builds cfg req id outcome) w (.refl w)).1.calls _ _ x hx)
  · exact .inr ⟨w₁,m₁,hb,((finish_finishes cfg) w₁ (.refl w₁)).1.calls _ _ x hx⟩

theorem Op.settles_apart {op : Op} (h : op.settles = true) :
    op.opens = false ∧ ∀ w nd, ¬op.Builds w nd := by
  cases op with
  | storeResult _ _ _ | deleteSession _ => exact ⟨rfl,fun _ _ => id⟩
  | _ => cases h

theorem Call.settles {x : (op : Op) × Ans op} (hx : x ∈ c.trace cfg)
    (hop : x.1.settles = true) :
    ∃ (r : Reached cfg c.env c.transport c.req c.before) (w₁ : Work) (m₁ : Machine),
      exec c.env.handler (build cfg c.req r.id r.outcome) (startWork cfg c.req r.sess) r.authed =
        ((.ok (),w₁),m₁) ∧ x.1.Finishes w₁ := by
  obtain ⟨hfalse,hbuilds⟩ := Op.settles_apart hop
  have hopens : x.1.opens ≠ true := by rw [hfalse]; exact Bool.false_ne_true
  rcases serve_cases cfg c.env c.transport c.req c.before with ⟨-,hcalls,-⟩ | ⟨⟨r⟩⟩
  · exact absurd (hcalls x hx) hopens
  refine ⟨r,?_⟩
  obtain ⟨first,last,hcalls,hquiet⟩ := r.calls
  rw [Call.trace,hcalls] at hx
  simp only [List.mem_append] at hx
  rcases hx with ((hx | hx) | hx) | hx
  · exact absurd (hquiet x (List.mem_append_left _ hx)) hopens
  · exact absurd ((authenticate_only cfg c.req r.id r.arrived c.transport).calls _ _ x hx) hopens
  · rcases respond_calls hx with hb | hf
    · exact absurd hb (hbuilds _ _)
    · exact hf
  · exact absurd (hquiet x (List.mem_append_right _ hx)) hopens

/-- The reply of a call that settles something is complete, and all of its
answers are as the finished reply has them. -/
theorem Call.Undisturbed.settles (hu : c.Undisturbed cfg)
    {x : (op : Op) × Ans op} (hx : x ∈ c.trace cfg) (hop : x.1.settles = true) :
    ∃ (r : Reached cfg c.env c.transport c.req c.before) (reply : Option Message),
      (r.result = .ok reply ∨
        reply = some r.work.resp ∧ ∃ err, Syncml.encode [] r.work.resp = .error err) ∧
      r.Completed reply ∧
      ((r.outcome = .trusted ∧ ∃ a : Answered cfg c.req r.sess r.start.world r.work.sess
          (c.after cfg) reply, x.1.Finishes a.built) ∨
        r.outcome ≠ .trusted ∧ ∃ a : Challenged cfg c.req r.outcome r.sess r.start.world
          r.work.sess (c.after cfg) reply,
          x.1.Finishes ((startWork cfg c.req r.sess).challenge c.req r.outcome a.chal)) := by
  obtain ⟨r,w₁,m₁,hb,hfin⟩ := Call.settles hx hop
  have hw := r.authenticated.2
  have hdone : ∃ reply, Nonempty (Finished w₁ m₁.world r.work.sess (c.after cfg) reply) ∧
      (r.result = .ok reply ∨
        reply = some r.work.resp ∧ ∃ err, Syncml.encode [] r.work.resp = .error err) := by
    have hafter : c.after cfg = _ := r.after
    have hresp := r.responds
    rw [respond,exec_bind,hb] at hresp
    cases hr : r.result with
    | ok reply =>
      rw [hr] at hafter hresp
      rw [hafter]
      exact ⟨reply,finish_ok hresp,.inl rfl⟩
    | error e =>
      rw [hr] at hafter hresp
      obtain ⟨hf,herr,hsame⟩ := finish_error (hu.result r e hr) hresp
      rw [hafter,hsame]
      exact ⟨_,hf,.inr ⟨rfl,herr⟩⟩
  obtain ⟨reply,⟨f⟩,hres⟩ := hdone
  obtain ⟨ht,hn⟩ := built_finished hb ⟨f⟩
  rw [hw] at ht hn
  refine ⟨r,reply,hres,⟨ht,hn⟩,?_⟩
  by_cases ho : r.outcome = .trusted
  · rw [ho] at hb
    have ha := built_answered hb f
    rw [hw] at ha
    obtain ⟨a,rfl⟩ := ha
    exact .inl ⟨ho,a,hfin⟩
  · have ha := built_challenged ho hb f
    rw [hw] at ha
    obtain ⟨a,he⟩ := ha
    exact .inr ⟨ho,a,he ▸ hfin⟩

section Store
variable {cfg : Config} {c : Call}

theorem Reached.within {w : World}
    (r : Reached cfg env t req w) :
    r.work.sess.addr = r.arrived.addr ∧ r.work.sess.key = r.arrived.key ∧
    r.work.sess.deviceID = r.arrived.deviceID ∧ r.work.sess.sessionID = r.arrived.sessionID := by
  have h := (respond_serves cfg req r.id r.outcome).exec (Work.Within.refl (startWork cfg req r.sess))
    r.responds
  obtain ⟨a,ty,he⟩ := r.authenticated.1
  have hs : r.sess.addr = r.arrived.addr ∧ r.sess.key = r.arrived.key ∧
      r.sess.deviceID = r.arrived.deviceID ∧ r.sess.sessionID = r.arrived.sessionID := by
    rw [he]
    exact ⟨rfl,rfl,rfl,rfl⟩
  exact ⟨h.sess.addr.trans hs.1,h.sess.key.trans hs.2.1,h.sess.deviceID.trans hs.2.2.1,
    h.sess.sessionID.trans hs.2.2.2⟩

/-- Along every run a session is stored under the key made of its own IDs. -/
theorem Run.keyed {w w' : World} {calls : List Call} (hr : Run cfg w calls w')
    (hw : w.sessions = ∅) :
    ∀ c ∈ calls, c.before.Stores fun key s => key = sessionKey s.deviceID s.sessionID := by
  have harr : ∀ c ∈ calls, (c.before.Stores fun key s => s.key = key ∧
        key = sessionKey s.deviceID s.sessionID) →
      ∀ r : Reached cfg c.env c.transport c.req c.before,
        r.arrived.key = sessionKey r.arrived.deviceID r.arrived.sessionID := by
    intro c _ hb r
    rcases r.arrival.origin with ⟨stored,hl,hs,hid,-⟩ | ⟨hs,-⟩
    · obtain ⟨hk,he⟩ := hb _ stored hl
      rw [hs.key,hs.deviceID,hid,hk]
      exact he
    · rw [hs.key,hs.deviceID,hs.sessionID]
      rfl
  have hstores : ∀ c ∈ calls, c.before.Stores fun key s => s.key = key ∧
      key = sessionKey s.deviceID s.sessionID := by
    refine hr.stores (World.stores_empty hw) (fun _ _ _ _ h => h) fun c hc hb r reply _ _ => ?_
    obtain ⟨-,hk,hd,hs⟩ := r.within
    rw [hk,hd,hs]
    exact ⟨rfl,harr c hc hb r⟩
  exact fun c hc key s hl => (hstores c hc key s hl).2

theorem MemorySessions.abandon_cases {m : MemorySessions} {x : Session} {popped : Bool} (h : (MemorySessions.abandon m s popped).lookup key = some x) :
    m.lookup key = some x ∨ key = s.key ∧ ∃ stored, m.lookup key = some stored ∧
      stored.addr = s.addr ∧ x = MemorySessions.writeThrough stored s popped := by
  unfold MemorySessions.abandon at h
  split at h
  · rename_i stored hl
    split at h
    · rename_i haddr
      by_cases hk : key = s.key
      · rw [hk,AList.lookup_insert] at h
        exact .inr ⟨hk,stored,hk ▸ hl,haddr,(Option.some.inj h).symm⟩
      · rw [AList.lookup_insert_ne hk] at h
        exact .inl h
    · exact .inl h
  · exact .inl h

theorem Arrival.lookup {w w' : World}
    {x : Session} (h : Arrival req id t w s w')
    (hl : w'.sessions.lookup key = some x) : w.sessions.lookup key = some x := by
  cases h with
  | continued hs hk hm => exact hl
  | opened hs hm hp =>
    rcases hs with rfl | rfl
    · exact hl
    · exact (GoMap.lookup_erase_some hl).2

/-- A stored session after an undisturbed call was there before, or the call has stored it, or it
has taken what a call that failed at a chunk had written by then. -/
theorem Call.Undisturbed.stored (hu : c.Undisturbed cfg)
    (hl : (c.after cfg).sessions.lookup key = some s) :
    c.before.sessions.lookup key = some s ∨
    ∃ r : Reached cfg c.env c.transport c.req c.before, key = r.work.sess.key ∧
      ((∃ reply, r.Completed reply ∧ s = r.work.sess ∧
        (r.result = .ok reply ∨
          reply = some r.work.resp ∧ ∃ err, Syncml.encode [] r.work.resp = .error err)) ∨
       ∃ stored, c.before.sessions.lookup key = some stored ∧ stored.addr = r.work.sess.addr ∧
        r.outcome = .trusted ∧ r.sess.Taking r.work.sess ∧
        (c.after cfg).queue = c.before.queue ∧ (∃ e, r.result = .error e) ∧
        s = MemorySessions.writeThrough stored r.work.sess false) := by
  rcases serve_cases cfg c.env c.transport c.req c.before with
    ⟨-,-,-,sessions,hs,hafter⟩ | ⟨⟨r⟩⟩
  · rw [Call.after,hafter] at hl
    rcases hs with rfl | rfl
    · exact .inl hl
    · exact .inl (GoMap.lookup_erase_some hl).2
  rcases r.undisturbed (hu.result r) with ⟨reply,ht,hn,hres⟩ | ⟨ht,htak,hafter,herr⟩
  · have hdone : r.Completed reply := ⟨ht,hn⟩
    have hfin : ∃ wk w, Nonempty (Finished wk w r.work.sess (c.after cfg) reply) ∧
        w.sessions = r.start.world.sessions := by
      rcases hdone.cases with ⟨⟨a⟩⟩ | ⟨⟨a⟩⟩
      · exact ⟨_,_,⟨a.finished⟩,rfl⟩
      · exact ⟨_,_,⟨a.finished⟩,rfl⟩
    obtain ⟨wk,w,⟨f⟩,hw⟩ := hfin
    by_cases hk : key = r.work.sess.key
    · refine .inr ⟨r,hk,.inl ⟨reply,hdone,?_,hres⟩⟩
      rcases f.lookup with hnone | hsome
      · rw [hk,hnone] at hl
        cases hl
      · rw [hk,hsome] at hl
        exact (Option.some.inj hl).symm
    · refine .inl (r.arrival.lookup ?_)
      rw [← hw]
      rcases f.sessions with he | ⟨he,-⟩
      · rw [he,AList.lookup_erase_ne hk] at hl
        exact hl
      · rw [he,AList.lookup_insert_ne hk] at hl
        exact hl
  · have hafter : c.after cfg = _ := hafter
    rw [hafter] at hl
    rcases MemorySessions.abandon_cases hl with hl | ⟨hk,stored,hst,haddr,he⟩
    · exact .inl (r.arrival.lookup hl)
    refine .inr ⟨r,hk,.inr ⟨stored,r.arrival.lookup hst,haddr,ht,htak,?_,herr,he⟩⟩
    rw [hafter]
    exact r.arrival.queue

end Store

end MicrosoftDM.Mdm
