import MicrosoftDM.AnsweredCommands

set_option autoImplicit false

namespace MicrosoftDM.Mdm
open MicrosoftDM.Syncml (Item Status Message)

def State.answered : State → Bool
  | .acknowledged | .failed => true
  | .pending | .sent | .cancelled => false

/-- The command is not answered: it is open, or an operator has cancelled it. -/
def Queue.Unanswered (q : Queue) (dev id : GoString) : Prop :=
  ∀ qc ∈ q.commands dev, qc.id = id → qc.state.answered = false

instance (q : Queue) (dev id : GoString) : Decidable (q.Unanswered dev id) :=
  inferInstanceAs (Decidable (∀ qc ∈ q.commands dev, qc.id = id → qc.state.answered = false))

variable {q q' : Queue} {d dev id : GoString} {post : List Call}

theorem Queue.Unanswered.grows (h : q.Unanswered dev id)
    (hg : q.Grows d q') : q'.Unanswered dev id := by
  intro qc hqc hid
  by_cases hd : dev = d
  · subst hd
    obtain ⟨new,he,hnew⟩ := hg.own
    rw [he] at hqc
    rcases List.mem_append.mp hqc with hqc | hqc
    · exact h qc hqc hid
    · rw [(hnew qc hqc).1]
      rfl
  · rw [hg.other dev hd] at hqc
    exact h qc hqc hid

theorem Queue.Unanswered.maps
    {f : QueuedCommand → QueuedCommand} (h : q.Unanswered dev id) (hm : q.Maps d f q')
    (hf : ∀ qc, (f qc).id = qc.id ∧
      (qc.id = id → qc.state.answered = false → (f qc).state.answered = false)) :
    q'.Unanswered dev id := by
  intro qc hqc hid
  by_cases hd : dev = d
  · subst hd
    rw [hm.1] at hqc
    obtain ⟨x,hx,rfl⟩ := List.mem_map.mp hqc
    have hxid := (hf x).1.symm.trans hid
    exact (hf x).2 hxid (h x hx hxid)
  · rw [hm.2 dev hd] at hqc
    exact h qc hqc hid

theorem Queue.Unanswered.cancel (h : q.Unanswered dev id)
    (d : GoString) (ids : List GoString) (time : Time) : (q.cancel d ids time).Unanswered dev id := by
  refine h.maps (q.maps_modify d _ (QueuedCommand.command_cancel ids time)) fun qc => ⟨?_,?_⟩
  · unfold QueuedCommand.id
    rw [QueuedCommand.command_cancel]
  intro _ hs
  unfold QueuedCommand.cancel
  split
  · rfl
  · exact hs

theorem foldl_markSent_unanswered {qc : QueuedCommand} {ds : List Delivery}
    (h : qc.state.answered = false) :
    (ds.foldl QueuedCommand.markSent qc).state.answered = false := by
  induction ds generalizing qc with
  | nil => exact h
  | cons d ds ih =>
    refine ih ?_
    unfold QueuedCommand.markSent
    split
    · rfl
    · exact h

/-- With `s` the session before the request: the Statuses on keys the command
went out under reach group members. -/
def Call.Spares (c : Call) (s : Session) (id : GoString) : Prop :=
  ∀ st ∈ c.req.body.statuses, s.sent.lookup (statusKey st) = some id →
    s.Shadowed c.req.body.statuses st

instance (c : Call) (s : Session) (id : GoString) : Decidable (c.Spares s id) :=
  inferInstanceAs (Decidable (∀ st ∈ c.req.body.statuses, _ → _))

section Answering
variable {cfg : Config} {req : Message} {s s' : Session} {w w' : World} {reply : Option Message}
  {dev id : GoString}

theorem Answered.unanswered (a : Answered cfg req s w s' w' reply)
    (hp : (a.filed.pendingOf id).status = none) (h : w.queue.Unanswered dev id) :
    w'.queue.Unanswered dev id := by
  obtain ⟨ids,⟨ds,-,hm⟩,-⟩ := a.isBuilt.marks
  have h₂ : a.sent.Unanswered dev id := by
    refine (h.grows a.grows.toGrows).maps hm fun qc => ⟨?_,fun _ => foldl_markSent_unanswered⟩
    unfold QueuedCommand.id
    rw [foldl_markSent_command]
  have hb : (a.built.sess.pendingOf id).status = none := by
    rw [Session.pendingOf_congr a.isBuilt.sending.1.results]
    exact hp
  rw [a.finished.world]
  refine Queue.Unanswered.maps h₂ a.finished.settles fun qc => ⟨qc.id_settle _ _,?_⟩
  intro hid hs
  rw [QueuedCommand.settle_of_none (by rw [hid]; exact hb)]
  exact hs

theorem Challenged.unanswered {outcome : AuthOutcome}
    (c : Challenged cfg req outcome s w s' w' reply) (hs : s.Entered req)
    (h : w.queue.Unanswered dev id) : w'.queue.Unanswered dev id := by
  intro qc hqc hid
  rw [c.commands hs] at hqc
  exact h qc hqc hid

end Answering

theorem Accepted.maps {cfg : Config} {t : Option Transport} {req : Message} {w w' : World}
    {out : Handled} {reply : Option Message} (a : Accepted cfg t req w out w' reply) :
    a.entered.queue = w.queue ∧
    ((∃ s, w.sessions.lookup (Message.sessionKey req) = some s ∧ a.sess.sent = s.sent ∧
        a.sess.children = s.children) ∨ a.sess.sent = ∅) := by
  obtain ⟨auth,ty,hsess⟩ := a.authChange
  refine ⟨a.arrival.queue,?_⟩
  obtain ⟨base,now,mm,mo,uao,he,⟨hs,-⟩ | ⟨sessions,start,-,rfl,-⟩⟩ := a.arrival.shape
  · rw [hsess,he]
    exact .inl ⟨base,hs,rfl,rfl⟩
  · rw [hsess,he]
    exact .inr rfl

/-- The Status `st` on `k` is the one that reaches the command. -/
structure Call.Concludes (c : Call) (s : Session) (k id : GoString) (st : Status) : Prop where
  only : c.req.body.statuses.filter (fun x => statusKey x = k) = [st]
  noMember : s.children.lookup k = none
  others : ∀ x ∈ c.req.body.statuses, s.sent.lookup (statusKey x) = some id →
    statusKey x = k ∨ s.Shadowed c.req.body.statuses x

instance (c : Call) (s : Session) (k id : GoString) (st : Status) :
    Decidable (c.Concludes s k id st) :=
  decidable_of_iff
    (c.req.body.statuses.filter (fun x => statusKey x = k) = [st] ∧ s.children.lookup k = none ∧
      ∀ x ∈ c.req.body.statuses, s.sent.lookup (statusKey x) = some id →
        statusKey x = k ∨ s.Shadowed c.req.body.statuses x)
    ⟨fun ⟨h₁,h₂,h₃⟩ => ⟨h₁,h₂,h₃⟩,fun ⟨h₁,h₂,h₃⟩ => ⟨h₁,h₂,h₃⟩⟩

def Call.Settles (c : Call) (cfg : Config) (dev id : GoString) (code : Syncml.StatusCode) : Prop :=
  ∃ qc ∈ (c.after cfg).queue.commands dev, qc.id = id ∧
    qc.result.map Result.status = some code ∧
    qc.state = if code.success then .acknowledged else .failed

instance (c : Call) (cfg : Config) (dev id : GoString) (code : Syncml.StatusCode) :
    Decidable (c.Settles cfg dev id code) :=
  inferInstanceAs (Decidable (∃ qc ∈ (c.after cfg).queue.commands dev, _))

section Steps
variable {cfg : Config} {c : Call} {s s' : Session} {dev k id : GoString} {st : Status}

theorem Session.Shadowed.congr {t : Session} {sts : List Status} (h : s.Shadowed sts st)
    (hc : t.children = s.children) : t.Shadowed sts st := by
  unfold Session.Shadowed at h ⊢
  rwa [hc]

theorem Call.Accepted.unanswered (hacc : c.Accepted cfg) (hw : c.before.Sound)
    (hs : c.Trusted cfg → ∀ s, c.before.sessions.lookup (Message.sessionKey c.req) = some s →
      c.Spares s id)
    (h : c.before.queue.Unanswered dev id) : (c.after cfg).queue.Unanswered dev id := by
  obtain ⟨reply,hr⟩ := hacc
  obtain ⟨a⟩ := serve_accepted hr
  obtain ⟨hq,hmaps⟩ := a.maps
  have hent := (a.sound hw).1
  rw [← hq] at h
  by_cases ho : a.outcome = .trusted
  · have ht : c.Trusted cfg := by
      unfold Call.Trusted
      rw [show (c.out cfg).auth = some a.outcome from a.auth,ho]
    obtain ⟨x⟩ := a.answered ho
    refine x.unanswered ?_ h
    rw [Session.pendingOf_congr x.filedBy.results,fileStatuses_shadowed,x.taking.status]
    · exact hent.unanswered id
    intro st hst hl
    rw [x.taking.sent] at hl
    rcases hmaps with ⟨s,hstored,hsent,hch⟩ | hempty
    · rw [hsent] at hl
      exact (hs ht s hstored st hst hl).congr (x.taking.children.trans hch)
    · rw [hempty] at hl
      simp at hl
  · obtain ⟨x⟩ := a.challenged ho
    exact x.unanswered hent h

theorem Call.Exchange.spares (x : c.Exchange cfg s s') (hs : s.Sound (Message.sessionKey c.req))
    (ht : c.Trusted cfg) (h : (c.after cfg).queue.Unanswered s.deviceID id) : c.Spares s id := by
  obtain ⟨a⟩ := x.answered ht
  intro st hst hl
  by_contra hn
  have hsent : a.acked.sess.sent = s.sent := a.taking.sent.trans x.resumed.alike.sent
  have hch : a.acked.sess.children = s.children := a.taking.children.trans x.resumed.alike.children
  have hfiled : (a.filed.pendingOf id).status ≠ none := by
    rw [Session.pendingOf_congr a.filedBy.results]
    refine fileStatuses_unshadowed hst ?_ (hsent ▸ hl) fun hsh => hn (hsh.congr hch.symm)
    intro y _ hy
    exact KeyUpTo.cmdRef_ne (hy ▸ hs.sent _ _ hl)
  obtain ⟨code,hcode⟩ := Option.ne_none_iff_exists'.mp hfiled
  obtain ⟨qc,hqc,hid,-,hst⟩ := a.stored hcode
  rw [x.resumed.deviceID] at hqc
  have hu := h qc hqc hid
  rw [hst] at hu
  split at hu <;> cases hu

theorem Call.Exchange.concludes (x : c.Exchange cfg s s') (hs : s.Sound (Message.sessionKey c.req))
    (ht : c.Trusted cfg) (hk : s.sent.lookup k = some id) (h : c.Concludes s k id st) :
    c.Settles cfg s.deviceID id st.code := by
  obtain ⟨a⟩ := x.answered ht
  have hsent : a.acked.sess.sent = s.sent := a.taking.sent.trans x.resumed.alike.sent
  have hch : a.acked.sess.children = s.children := a.taking.children.trans x.resumed.alike.children
  have hkey : statusKey st = k := by
    have hin : st ∈ c.req.body.statuses.filter (fun x => statusKey x = k) := by rw [h.only]; simp
    simpa using (List.mem_filter.mp hin).2
  have hfiled : (a.filed.pendingOf id).status = some st.code := by
    rw [Session.pendingOf_congr a.filedBy.results]
    refine fileStatuses_only h.only (KeyUpTo.cmdRef_ne (hkey ▸ hs.sent k id hk)) (hch ▸ h.noMember)
      (hsent ▸ hk) ?_
    intro y hy hl
    exact (h.others y hy (hsent ▸ hl)).imp_right fun hsh => hsh.congr hch
  obtain ⟨qc,hqc,hid,⟨now,hres⟩,hst⟩ := a.stored hfiled
  rw [x.resumed.deviceID] at hqc
  exact ⟨qc,hqc,hid,by rw [hres]; rfl,hst⟩

end Steps

section Run
variable {cfg : Config} {key dev k id : GoString} {w w' : World}

theorem SessionRun.unanswered {calls : List Call} (hr : SessionRun cfg key w (calls ++ post) w')
    (hw : w.sessions = ∅) (h0 : w.queue.Unanswered dev id)
    (hsp : ∀ x ∈ calls, x.Trusted cfg → ∀ s, x.before.sessions.lookup key = some s → x.Spares s id) :
    ∀ x ∈ calls, (x.after cfg).queue.Unanswered dev id := by
  have hs := (hr.run.sound (World.sound_of_empty hw) hr.accepted).2
  have hstep : ∀ x ∈ calls, x.before.queue.Unanswered dev id →
      (x.after cfg).queue.Unanswered dev id := by
    intro x hx
    have hin := List.mem_append_left post hx
    exact (hr.accepted x hin).unanswered (hs x hin)
      (fun ht s hl => hsp x hx ht s (hr.key x hin ▸ hl))
  obtain ⟨u,hrun,-⟩ := hr.run.split
  have hinv := hrun.invariant (P := fun w => w.queue.Unanswered dev id) h0
    ⟨fun _ _ _ _ h => h.grows (Queue.enqueue_grows _ _ _ _),fun _ d ids t h => h.cancel d ids t,
      fun _ before limit range _ h qc hqc => h qc ((Queue.prune_sublist _ before limit range dev).subset hqc)⟩
    hstep
  exact fun x hx => hstep x hx (hinv.2 x hx)

/-- `cf` sends the command, or the last chunk of its value, under `k`, and `cj` brings the Status
on `k`. That Status is the answer if and only if none before it reaches the command. -/
theorem chunked_command_settled_by_last {pre mid : List Call} {cf cj : Call} {st : Status}
    (hr : SessionRun cfg key w (pre ++ cf :: (mid ++ [cj])) w') (hw : w.sessions = ∅)
    (hdev : cf.device cfg = some dev) (h0 : w.queue.Unanswered dev id) (hsent : cf.Sends cfg k id)
    (ht : cj.Trusted cfg)
    (hj : ∀ s, cj.before.sessions.lookup key = some s → cj.Concludes s k id st) :
    ((∀ x ∈ pre ++ cf :: mid, (x.after cfg).queue.Unanswered dev id) ∧
        cj.Settles cfg dev id st.code) ↔
      ∀ x ∈ pre ++ cf :: mid, x.Trusted cfg →
        ∀ s, x.before.sessions.lookup key = some s → x.Spares s id := by
  obtain ⟨d,hd⟩ := hr.device hw
  have hde : d = dev := Option.some.inj ((hd cf (by simp)).symm.trans hdev)
  subst hde
  have hsub : ∀ x ∈ pre ++ cf :: mid, x ∈ pre ++ cf :: (mid ++ [cj]) := by
    intro x hx
    rw [show pre ++ cf :: (mid ++ [cj]) = (pre ++ cf :: mid) ++ [cj] by simp]
    exact List.mem_append_left _ hx
  have hdevice : ∀ x ∈ pre ++ cf :: (mid ++ [cj]), ∀ {s s'}, x.Exchange cfg s s' → s.deviceID = d := by
    intro x hx s s' e
    have h := hd x hx
    unfold Call.device at h
    rw [e.final] at h
    rw [← e.deviceID]
    exact Option.some.inj h
  constructor
  · rintro ⟨hun,-⟩ x hx htx s hst
    obtain ⟨hacc,hs,hkey,t,t',⟨e⟩⟩ := hr.exchange hw (hr.mem_tail hw (hsub x hx) hst)
    have he : t = s := Option.some.inj ((hkey ▸ e.stored).symm.trans hst)
    subst he
    exact e.spares (hs _ _ e.stored) htx (hdevice x (hsub x hx) e ▸ hun x hx)
  · intro hsp
    refine ⟨?_,?_⟩
    · have hr' : SessionRun cfg key w ((pre ++ cf :: mid) ++ [cj]) w' := by simpa using hr
      exact hr'.unanswered hw h0 hsp
    obtain ⟨-,hs,s,s',⟨e⟩,hst,hk⟩ := hr.kept hw (R := fun _ s => s.sent.lookup k = some id)
      (fun hacc hs hkey s hl => hsent.sent hacc hs (hkey ▸ hl))
      (fun past x later s s' he e hs hl hk => e.awaits (hs _ _ e.stored)
        (fun htr st hin hkey => hsp x (by simp [he]) htr s hl st hin (hkey ▸ hk)) hk)
    rw [← hdevice cj (by simp) e]
    exact e.concludes (hs _ _ e.stored) ht hk (hj s hst)

end Run

namespace Sample

def smallPackageOne : Message :=
  { packageOne with header := { packageOne.header with metinf := some { maxObjSize := 3 } } }

def largeWorld : World := world [replace "policy" "./Vendor/MSFT/Policy" "enabled"]

def nextMessage (msgID : GoString) (statuses : List Syncml.Command) : Message :=
  request msgID (statuses ++ [.alert { cmdID := "9", data := "1222" }])

def lastAnswer (code : GoString) : Message :=
  request "4" [status "1" "3" "0" "SyncHdr" "200",status "2" "3" "3" "Replace" code]

def silentRequests : List Message :=
  [smallPackageOne,nextMessage "2" [],nextMessage "3" [],lastAnswer "200"]

def chunkRequests : List Message :=
  [smallPackageOne,nextMessage "2" [status "1" "1" "4" "Replace" "213"],
    nextMessage "3" [status "1" "2" "3" "Replace" "213"],lastAnswer "500"]

end Sample

set_option maxRecDepth 4000

/-- The setting stays open until the Status of its last chunk. -/
theorem chunked_command_settled_by_last_silent : ∃ c₁ c₂ c₃ c₄ w',
    SessionRun Sample.cfg Sample.key Sample.largeWorld [c₁,c₂,c₃,c₄] w' ∧
    c₁.Sends Sample.cfg "1/4" "policy" ∧ c₃.Sends Sample.cfg "3/3" "policy" ∧
    (∀ x ∈ [c₁,c₂,c₃], (x.after Sample.cfg).queue.Unanswered "dev" "policy") ∧
    c₄.Settles Sample.cfg "dev" "policy" 200 := by
  obtain ⟨w',h⟩ := sessionRun_callsOf Sample.cfg Sample.env (some Sample.transport)
    Sample.largeWorld Sample.silentRequests Sample.key (by decide +kernel)
  refine ⟨_,_,_,_,w',h,by decide +kernel,by decide +kernel,?_⟩
  refine (@chunked_command_settled_by_last Sample.cfg Sample.key "dev" "3/3" "policy" _ _ [_,_] [] _ _
    { cmdID := "2", msgRef := "3", cmdRef := "3", cmd := "Replace", data := { value := "200" } }
    h rfl (by decide +kernel) (by decide +kernel) (by decide +kernel) (by decide +kernel)
    (by decide +kernel)).mpr ?_
  decide +kernel

/-- The 213 for the first chunk acknowledges the whole setting, two chunks before
the last one is sent and answered with 500. -/
theorem chunked_command_settled_early : ∃ c₁ c₂ c₃ c₄ w',
    SessionRun Sample.cfg Sample.key Sample.largeWorld [c₁,c₂,c₃,c₄] w' ∧
    c₁.Sends Sample.cfg "1/4" "policy" ∧ c₂.Sends Sample.cfg "2/3" "policy" ∧
    c₃.Sends Sample.cfg "3/3" "policy" ∧
    c₂.req = Sample.nextMessage "2" [Sample.status "1" "1" "4" "Replace" "213"] ∧
    c₃.req = Sample.nextMessage "3" [Sample.status "1" "2" "3" "Replace" "213"] ∧
    c₄.req = Sample.lastAnswer "500" ∧
    c₂.Settles Sample.cfg "dev" "policy" 213 ∧
    ¬(c₂.after Sample.cfg).queue.Unanswered "dev" "policy" := by
  obtain ⟨w',h⟩ := sessionRun_callsOf Sample.cfg Sample.env (some Sample.transport)
    Sample.largeWorld Sample.chunkRequests Sample.key (by decide +kernel)
  exact ⟨_,_,_,_,w',h,by decide +kernel,by decide +kernel,by decide +kernel,rfl,rfl,rfl,
    by decide +kernel,by decide +kernel⟩

end MicrosoftDM.Mdm
