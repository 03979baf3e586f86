import MicrosoftDM.SessionRuns

set_option autoImplicit false

namespace MicrosoftDM.Mdm
open MicrosoftDM.Syncml (Item Status Message)

structure Session.Resumed (s t : Session) : Prop where
  alike : s.Alike t
  addr : t.addr = s.addr
  key : t.key = s.key
  deviceID : t.deviceID = s.deviceID
  serverMsgID : t.serverMsgID = s.serverMsgID
  gotPackageOne : t.gotPackageOne = s.gotPackageOne
  syncType : t.facts.syncType = s.facts.syncType
  loginStatus : t.facts.loginStatus = s.facts.loginStatus

variable {s : Session}

theorem Session.AuthChange.resumed {t : Session} (h : s.AuthChange t) : s.Resumed t := by
  obtain ⟨a,ty,rfl⟩ := h
  exact ⟨⟨rfl,rfl,rfl,rfl,rfl,rfl,rfl⟩,rfl,rfl,rfl,rfl,rfl,rfl,rfl⟩

variable {cfg : Config} {w w' : World}

variable {t : Option Transport} {m req : Message} {reply : Option Message} {s' : Session}
  {wk' : Work} {q q' : Queue} {qc : QueuedCommand}

theorem Accepted.resumed {out : Handled} (a : Accepted cfg t req w out w' reply)
    (hm : atoiValue req.header.msgID ≠ 1) :
    a.entered = w ∧ ∃ s, w.sessions.lookup (Message.sessionKey req) = some s ∧ s.Resumed a.sess ∧
      atoiValue req.header.msgID = s.clientMsgID+1 := by
  obtain ⟨auth,ty,hsess⟩ := a.authChange
  obtain ⟨base,now,mm,mo,uao,he,⟨hs,hk,hc,hw⟩ | ⟨sessions,start,hs,-,h1,hp,-⟩⟩ := a.arrival.shape
  · refine ⟨hw,base,hs,?_,hc⟩
    rw [hsess,he]
    exact ⟨⟨rfl,rfl,rfl,rfl,rfl,rfl,rfl⟩,rfl,rfl,rfl,rfl,rfl,rfl,rfl⟩
  · exact absurd h1 hm

structure Session.OpenedBy (req : Message) (s : Session) : Prop where
  key : s.key = Message.sessionKey req
  deviceID : s.deviceID = req.header.source.locURI
  sessionID : s.sessionID = req.header.sessionID
  sent : s.sent = ∅
  children : s.children = ∅
  outgoing : s.outgoing = none
  assembler : s.assembler = none
  results : s.results = none

theorem Arrival.origin {id : Identity}
    (h : Arrival req id t w s w') :
    (∃ stored, w.sessions.lookup (Message.sessionKey req) = some stored ∧ stored.Resumed s ∧
      s.sessionID = stored.sessionID ∧ w' = w) ∨
    s.OpenedBy req ∧ s.addr = w.nextAddr := by
  obtain ⟨base,now,mm,mo,uao,rfl,⟨hs,hk,hm,rfl⟩ | ⟨sessions,start,hs,rfl,hm,hp,rfl⟩⟩ := h.shape
  · exact .inl ⟨base,hs,⟨⟨rfl,rfl,rfl,rfl,rfl,rfl,rfl⟩,rfl,rfl,rfl,rfl,rfl,rfl,rfl⟩,rfl,rfl⟩
  · exact .inr ⟨⟨rfl,rfl,rfl,rfl,rfl,rfl,rfl,rfl⟩,rfl⟩

variable {wk : Work}

theorem Finished.lookup (f : Finished wk w s' w' reply) :
    w'.sessions.lookup s'.key = none ∨ w'.sessions.lookup s'.key = some s' := by
  rcases f.sessions with he | ⟨he,-⟩
  · exact .inl (by rw [he]; exact AList.lookup_erase _ _)
  · exact .inr (by rw [he]; exact AList.lookup_insert _)

section Answering
variable {cfg : Config} {req : Message} {s s' : Session} {w w' : World} {reply : Option Message}

theorem Answered.final_key (a : Answered cfg req s w s' w' reply) (hs : s.Entered req) :
    s'.key = Message.sessionKey req ∧ s'.deviceID = s.deviceID := by
  obtain ⟨r,he⟩ := a.final hs
  rw [he]
  exact ⟨a.steady.key.trans hs.key,a.steady.deviceID⟩

theorem Answered.filed_deviceID (a : Answered cfg req s w s' w' reply) :
    a.filed.deviceID = s.deviceID := a.filedFrom.steady.deviceID

theorem Answered.built_deviceID (a : Answered cfg req s w s' w' reply) :
    a.built.sess.deviceID = s.deviceID := a.steady.deviceID

theorem Answered.acked_deviceID (a : Answered cfg req s w s' w' reply) :
    a.acked.sess.deviceID = s.deviceID := a.taking.steady.deviceID

theorem Answered.sent_earlier (a : Answered cfg req s w s' w' reply) (hs : s.Entered req)
    {k : GoString} (hk : KeyUpTo s.serverMsgID k) :
    s'.sent.lookup k = a.filed.sent.lookup k := by
  obtain ⟨r,he⟩ := a.final hs
  have hlt : s.serverMsgID < s.clientMsgID := by
    have := hs.server
    omega
  exact (congrArg (·.sent.lookup k) he).trans
    ((a.isBuilt.numbered (a.numbered hs)).2.2 k fun c => hk.ne_of_lt hlt)

variable {id : GoString}

theorem Answered.canSend (a : Answered cfg req s w s' w' reply) (hs : s.Entered req)
    {c : GoString} (h : s'.sent.lookup (joinSlash (itoa s.clientMsgID) c) = some id) :
    CanSend req a.filed a.reads id := by
  obtain ⟨r,he⟩ := a.final hs
  rw [he] at h
  have hlt : s.serverMsgID < s.clientMsgID := by
    have := hs.server
    omega
  rcases (a.isBuilt.numbered (a.numbered hs)).2.1 _ _ h with hold | ⟨-,hc⟩
  · have hk := hs.sent _ _ (a.filedFrom.sent _ _ hold)
    exact absurd rfl (hk.ne_of_lt hlt)
  · exact hc

theorem Answered.reply_msgID (a : Answered cfg req s w s' w' reply) (hs : s.Entered req) (hr : reply = some m) : m.header.msgID = itoa s.clientMsgID := by
  rcases a.finished.reply with ⟨hn,-,-⟩ | hm
  · rw [hn] at hr; cases hr
  rw [hm] at hr
  cases hr
  exact (a.isBuilt.numbered (a.numbered hs)).1.msgID

variable {o : Outgoing}

theorem foldl_send_outgoing {through : List QueuedCommand}
    (h : (through.foldl Work.send wk).sess.outgoing = some o) :
    wk.sess.outgoing = some o ∨ ∃ qc ∈ through, qc.id = o.commandID ∧
      o.chunks = (prepare wk.sess.maxObjSize qc.command.body).2 := by
  induction through generalizing wk with
  | nil => exact .inl h
  | cons qc rest ih =>
    rcases ih h with h | ⟨x,hx,hid,hc⟩
    · rw [Work.send_sess] at h
      dsimp only at h
      split at h
      · exact .inl h
      · cases h
        exact .inr ⟨qc,List.mem_cons_self,rfl,rfl⟩
    · rw [(wk.send_sending qc).steady.maxObjSize] at hc
      exact .inr ⟨x,List.mem_cons_of_mem _ hx,hid,hc⟩

theorem Built.outgoing (hb : Built cfg req wk q wk' q')
    (h : wk'.sess.outgoing = some o) :
    (∃ o', wk.sess.outgoing = some o' ∧ o'.commandID = o.commandID) ∨
    CanSend req wk.sess q o.commandID := by
  cases hb with
  | closing _ | upload _ _ _ => exact .inl ⟨o,h,rfl⟩
  | chunk hc hn ho =>
    rename_i x next rest
    have hx : o.commandID = x.commandID := by
      unfold Work.sendChunk at h
      dsimp only at h
      split at h
      · cases h
      · cases h
        rfl
    exact .inr (.inl ⟨hn,x,next,rest,ho,hx.symm⟩)
  | deliver hc hn hu hd hall hq =>
    rcases foldl_send_outgoing h with h | ⟨qc,hqc,hid,-⟩
    · exact .inl ⟨o,h,rfl⟩
    · exact .inr (.inr ⟨hc,hu,hn,qc,hd.initial.subset hqc,hid⟩)

theorem Answered.outgoing (a : Answered cfg req s w s' w' reply) (hs : s.Entered req)
    (h : s'.outgoing = some o) : (∃ o', s.outgoing = some o' ∧ o'.commandID = o.commandID) ∨
    CanSend req a.filed a.reads o.commandID := by
  obtain ⟨r,he⟩ := a.final hs
  rw [he] at h
  rcases a.isBuilt.outgoing h with ⟨o',ho',hid⟩ | hc
  · exact .inl ⟨o',by rw [← a.filedFrom.outgoing]; exact ho',hid⟩
  · exact .inr hc

theorem foldl_markSent_command (qc : QueuedCommand) (ds : List Delivery) :
    (ds.foldl QueuedCommand.markSent qc).command = qc.command := by
  induction ds generalizing qc with
  | nil => rfl
  | cons d ds ih => exact (ih (qc.markSent d)).trans (QueuedCommand.command_markSent d qc)

theorem foldl_markSent_of_ne {ds : List Delivery}
    (h : qc.id ∉ ds.map Delivery.commandID) : ds.foldl QueuedCommand.markSent qc = qc := by
  induction ds with
  | nil => rfl
  | cons d ds ih =>
    simp only [List.map_cons,List.mem_cons,not_or] at h
    have hd : qc.markSent d = qc := by
      unfold QueuedCommand.markSent
      exact if_neg h.1
    rw [List.foldl_cons,hd,ih h.2]

theorem Built.marks (hb : Built cfg req wk q wk' q') :
    ∃ ids, q.MarksSent wk.sess.deviceID ids q' ∧
      ∀ id ∈ ids, ∃ qc ∈ q.deliverable wk.sess.deviceID 256, qc.id = id := by
  cases hb with
  | closing _ | upload _ _ _ | chunk _ _ _ => exact ⟨[],⟨[],rfl,.refl _ _⟩,by simp⟩
  | deliver hc hn hu hd hall hq =>
    refine ⟨_,hq,?_⟩
    intro id hid
    obtain ⟨qc,hqc,he⟩ := List.mem_map.mp hid
    exact ⟨qc,(List.mem_filter.mp (hd.initial.subset hqc)).1,he⟩

theorem QueuedCommand.id_settle (qc : QueuedCommand) (sess : Session) (received : GoString → Time) :
    (qc.settle sess received).id = qc.id := by
  unfold settle
  split
  · rfl
  · exact QueuedCommand.id_storeResult _ _ _

theorem QueuedCommand.settle_terminal {sess : Session}
    {received : GoString → Time}
    (h : qc.state.terminal = true ∨ (sess.pendingOf qc.id).status ≠ none) :
    (qc.settle sess received).state.terminal = true := by
  cases hs : (sess.pendingOf qc.id).status with
  | none =>
    rw [QueuedCommand.settle_of_none hs]
    exact h.resolve_right (fun hn => hn hs)
  | some st =>
    rw [QueuedCommand.settle_of_some hs]
    simp only [QueuedCommand.storeResult,if_true]
    split <;> rfl

variable {dev : GoString}

theorem Answered.holds (a : Answered cfg req s w s' w' reply) {P : QueuedCommand → Prop}
    (hterm : ∀ qc, P qc → qc.state.terminal = true)
    (hsettle : ∀ qc sess received, P qc → P (qc.settle sess received))
    (h : w.queue.Holds P dev id) : w'.queue.Holds P dev id := by
  obtain ⟨ids,⟨ds,hds,hm⟩,hids⟩ := a.isBuilt.marks
  have h₁ := h.grows a.grows.toGrows
  have h₂ : a.sent.Holds P dev id := by
    refine h₁.maps hm fun qc hqc hid hP => ?_
    have hni : qc.id ∉ ds.map Delivery.commandID := by
      rw [hds]
      intro hin
      obtain ⟨x,hx,he⟩ := hids qc.id hin
      have hdone : a.reads.Done _ qc.id := ⟨qc,hqc,rfl,hterm qc hP⟩
      exact hdone.not_deliverable 256 x hx he
    rw [foldl_markSent_of_ne hni]
    exact ⟨hid,hP⟩
  rw [a.finished.world]
  refine h₂.maps a.finished.settles fun qc _ hid hP => ?_
  exact ⟨(qc.id_settle _ _).trans hid,hsettle qc _ _ hP⟩

theorem Answered.done (a : Answered cfg req s w s' w' reply) (hd : w.queue.Done dev id) :
    w'.queue.Done dev id :=
  a.holds (P := (·.state.terminal = true)) (fun _ h => h)
    (fun _ _ _ h => QueuedCommand.settle_terminal (.inl h)) hd

theorem Answered.pendingOf_final (a : Answered cfg req s w s' w' reply) (id : GoString) :
    s'.pendingOf id =
      if (a.filed.pendingOf id).status = none then a.filed.pendingOf id else {} := by
  have hp : a.built.sess.pendingOf id = a.filed.pendingOf id :=
    Session.pendingOf_congr a.isBuilt.sending.1.results id
  rw [← hp]
  exact a.finished.pendingOf id

theorem Answered.stored (a : Answered cfg req s w s' w' reply) {id : GoString}
    {code : Syncml.StatusCode} (h : (a.filed.pendingOf id).status = some code) :
    ∃ qc ∈ w'.queue.commands s.deviceID, qc.id = id ∧
      (∃ now, qc.result = some ((a.filed.pendingOf id).result code now)) ∧
      qc.state = if code.success then .acknowledged else .failed := by
  have hp : a.built.sess.pendingOf id = a.filed.pendingOf id :=
    Session.pendingOf_congr a.isBuilt.sending.1.results id
  have hdev := a.built_deviceID
  have hin := a.finished.known id (by rw [hp,h]; simp)
  obtain ⟨qc,hqc,rfl⟩ := List.mem_map.mp hin
  have hmaps := a.finished.settles.1
  rw [hdev] at hqc hmaps
  have hq : w'.queue = a.finished.queue := congrArg World.queue a.finished.world
  refine ⟨qc.settle a.built.sess a.finished.received,?_,qc.id_settle _ _,?_⟩
  · rw [hq,hmaps]
    exact List.mem_map_of_mem hqc
  rw [QueuedCommand.settle_of_some (by rw [hp]; exact h),hp]
  unfold QueuedCommand.storeResult
  rw [if_pos rfl]
  exact ⟨⟨_,rfl⟩,rfl⟩

theorem Answered.settled (a : Answered cfg req s w s' w' reply)
    (h : (a.filed.pendingOf id).status ≠ none) : w'.queue.Done s.deviceID id := by
  cases hs : (a.filed.pendingOf id).status with
  | none => exact absurd hs h
  | some code =>
    obtain ⟨qc,hqc,hid,-,hst⟩ := a.stored hs
    refine ⟨qc,hqc,hid,?_⟩
    rw [hst]
    split <;> rfl

variable {outcome : AuthOutcome}

theorem Challenged.commands (c : Challenged cfg req outcome s w s' w' reply) (hs : s.Entered req)
    (dev : GoString) : w'.queue.commands dev = w.queue.commands dev := by
  rw [c.finished.world]
  change c.finished.queue.commands dev = w.queue.commands dev
  have hm := c.finished.settles
  by_cases hd : dev = s.deviceID
  · subst hd
    refine hm.1.trans ?_
    have hid : ∀ qc ∈ w.queue.commands s.deviceID,
        qc.settle ((startWork cfg req s).challenge req outcome c.chal).sess c.finished.received =
          id qc := fun qc _ => QueuedCommand.settle_of_none (hs.unanswered qc.id)
    exact (List.map_congr_left hid).trans (List.map_id _)
  · exact hm.2 dev hd

theorem Challenged.done (c : Challenged cfg req outcome s w s' w' reply) (hs : s.Entered req)
    (h : w.queue.Done dev id) : w'.queue.Done dev id := by
  obtain ⟨qc,hqc,hid,ht⟩ := h
  exact ⟨qc,by rw [c.commands hs]; exact hqc,hid,ht⟩

theorem Challenged.keeps (c : Challenged cfg req outcome s w s' w' reply) (hs : s.Entered req) :
    s'.sent = s.sent ∧ s'.outgoing = s.outgoing ∧
      s'.deviceID = s.deviceID ∧ s'.key = s.key := by
  obtain ⟨r,he⟩ := c.final hs
  rw [he]
  exact ⟨rfl,rfl,rfl,rfl⟩

theorem Challenged.reply_msgID (c : Challenged cfg req outcome s w s' w' reply)
    (hs : s.Entered req) (hr : reply = some m) :
    m.header.msgID = itoa s.clientMsgID := by
  rcases c.finished.reply with ⟨hn,-,-⟩ | hm
  · rw [hn] at hr; cases hr
  rw [hm] at hr
  cases hr
  rw [← hs.server]
  rfl

end Answering

variable {c : Call}

theorem Call.stored_after (hacc : c.Accepted cfg) (hw : c.before.Sound) :
    ∃ s', (c.out cfg).sess = some s' ∧
      ((c.after cfg).sessions.lookup (Message.sessionKey c.req) = none ∨
       (c.after cfg).sessions.lookup (Message.sessionKey c.req) = some s') := by
  obtain ⟨reply,h⟩ := hacc
  obtain ⟨a⟩ := serve_accepted h
  obtain ⟨hs,hent,-⟩ := a.sound hw
  refine ⟨a.sess',a.final,?_⟩
  by_cases ho : a.outcome = .trusted
  · obtain ⟨x⟩ := a.answered ho
    rw [← (x.final_key hs).1]
    exact x.finished.lookup
  · obtain ⟨x⟩ := a.challenged ho
    rw [← hs.key,← (x.keeps hs).2.2.2]
    exact x.finished.lookup

/-- An accepted message of an open session, with the stored session `s` and
the session `s'` it ends with. -/
structure Call.Exchange (cfg : Config) (c : Call) (s s' : Session) where
  entered : Session
  reply : Option Message
  stored : c.before.sessions.lookup (Message.sessionKey c.req) = some s
  resumed : s.Resumed entered
  isEntered : entered.Entered c.req
  replied : (c.out cfg).reply = .ok reply
  final : (c.out cfg).sess = some s'
  answered : c.Trusted cfg → Nonempty (Answered cfg c.req entered c.before s' (c.after cfg) reply)
  challenged : ¬c.Trusted cfg → ∃ outcome,
    Nonempty (Challenged cfg c.req outcome entered c.before s' (c.after cfg) reply)

theorem Call.exchange (hacc : c.Accepted cfg) (hw : c.before.Sound)
    (hm : atoiValue c.req.header.msgID ≠ 1) : ∃ s s', Nonempty (c.Exchange cfg s s') := by
  obtain ⟨reply,h⟩ := hacc
  obtain ⟨a⟩ := serve_accepted h
  obtain ⟨hent,s,hs,hres,-⟩ := a.resumed hm
  have hsess := (a.sound hw).1
  have hauth : c.Trusted cfg ↔ a.outcome = .trusted := by
    unfold Call.Trusted
    rw [show (c.out cfg).auth = some a.outcome from a.auth]
    simp
  refine ⟨s,a.sess',⟨⟨a.sess,reply,hs,hres,hsess,h,a.final,?_,?_⟩⟩⟩
  · intro ht
    have hx := a.answered (hauth.mp ht)
    rwa [hent] at hx
  intro ht
  have hx := a.challenged fun ho => ht (hauth.mpr ho)
  rw [hent] at hx
  exact ⟨a.outcome,hx⟩

theorem Call.Exchange.deviceID (x : c.Exchange cfg s s') :
    s'.deviceID = s.deviceID := by
  rw [← x.resumed.deviceID]
  by_cases ht : c.Trusted cfg
  · obtain ⟨a⟩ := x.answered ht
    exact (a.final_key x.isEntered).2
  · obtain ⟨outcome,⟨ch⟩⟩ := x.challenged ht
    exact (ch.keeps x.isEntered).2.2.1

variable {key : GoString} {calls : List Call}

theorem SessionRun.exchange (hr : SessionRun cfg key w calls w') (hw : w.sessions = ∅)
    (hc : c ∈ calls.tail) : c.Accepted cfg ∧ c.before.Sound ∧ Message.sessionKey c.req = key ∧
    ∃ s s', Nonempty (c.Exchange cfg s s') := by
  have hm := List.mem_of_mem_tail hc
  have hs := (hr.run.sound (World.sound_of_empty hw) hr.accepted).2 c hm
  exact ⟨hr.accepted c hm,hs,hr.key c hm,
    Call.exchange (hr.accepted c hm) hs (hr.continues c hc)⟩

theorem SessionRun.mem_tail (hr : SessionRun cfg key w calls w') (hw : w.sessions = ∅)
    (hc : c ∈ calls) (hs : c.before.sessions.lookup key = some s) : c ∈ calls.tail := by
  cases calls with
  | nil => cases hc
  | cons x xs =>
    rcases List.mem_cons.mp hc with rfl | hc
    · have he := (hr.run.head (P := fun w => w.sessions = ∅) hw
        (.of_queue fun _ _ h => h)).1
      rw [he] at hs
      simp at hs
    · exact hc

def Call.device (c : Call) (cfg : Config) : Option GoString :=
  (c.out cfg).sess.map Session.deviceID

theorem SessionRun.device (hr : SessionRun cfg key w calls w') (hw : w.sessions = ∅) :
    ∃ dev, ∀ x ∈ calls, x.device cfg = some dev := by
  have hs := (hr.run.sound (World.sound_of_empty hw) hr.accepted).2
  have h := (hr.run.history (P := fun past w => ∃ dev, (∀ x ∈ past, x.device cfg = some dev) ∧
    ∀ s, past ≠ [] → w.sessions.lookup key = some s → s.deviceID = dev) [] ⟨[],by simp,by simp⟩
    (fun _ => .of_queue fun _ _ h => h) (by
      intro pre c post he hP
      obtain ⟨dev,hpast,hdev⟩ := hP
      have hc : c ∈ calls := by rw [he]; simp
      obtain ⟨s',hs',hst⟩ := Call.stored_after (hr.accepted c hc) (hs c hc)
      rw [hr.key c hc] at hst
      have hthis : c.device cfg = some s'.deviceID := congrArg (Option.map Session.deviceID) hs'
      refine ⟨s'.deviceID,?_,?_⟩
      · intro x hx
        rcases List.mem_append.mp hx with hx | hx
        · cases pre with
          | nil => cases hx
          | cons p ps =>
            obtain ⟨-,-,hkey,s,t,⟨e⟩⟩ := hr.exchange hw (c := c) (by rw [he]; simp)
            have ht : t = s' := Option.some.inj (e.final.symm.trans hs')
            rw [hpast x hx,← ht,e.deviceID,hdev s (by simp) (hkey ▸ e.stored)]
        · rw [List.mem_singleton.mp hx]
          exact hthis
      · intro s _ hl
        rcases hst with hst | hst
        · rw [hst] at hl; cases hl
        · rw [hst] at hl; cases hl; rfl)).1
  obtain ⟨dev,hpast,-⟩ := h
  exact ⟨dev,by simpa using hpast⟩

/-- The number of an accepted message, and where it is found afterwards. -/
theorem Call.counted (hacc : c.Accepted cfg) (hw : c.before.Sound) :
    (atoiValue c.req.header.msgID = 1 ∨
      ∃ s, c.before.sessions.lookup (Message.sessionKey c.req) = some s ∧
        atoiValue c.req.header.msgID = s.clientMsgID+1) ∧
    (∀ s, (c.after cfg).sessions.lookup (Message.sessionKey c.req) = some s →
      s.clientMsgID = atoiValue c.req.header.msgID) ∧
    ∀ m, c.message cfg = some m → m.header.msgID = itoa (atoiValue c.req.header.msgID) := by
  obtain ⟨s',hs',hst⟩ := Call.stored_after hacc hw
  obtain ⟨reply,h⟩ := hacc
  obtain ⟨a⟩ := serve_accepted h
  obtain ⟨hs,hent,-⟩ := a.sound hw
  have hboth : a.sess'.clientMsgID = a.sess.clientMsgID ∧
      ∀ m, reply = some m → m.header.msgID = itoa a.sess.clientMsgID := by
    by_cases ho : a.outcome = .trusted
    · obtain ⟨x⟩ := a.answered ho
      exact ⟨(x.sound hs hent).2.2.2,fun m => x.reply_msgID hs⟩
    · obtain ⟨x⟩ := a.challenged ho
      obtain ⟨r,he⟩ := x.final hs
      exact ⟨by rw [he],fun m => x.reply_msgID hs⟩
  rw [hs.client] at hboth
  refine ⟨?_,fun s hl => ?_,fun m hm => ?_⟩
  · obtain ⟨base,_,_,_,_,-,⟨hb,-,hm,-⟩ | ⟨_,_,-,-,hm,-⟩⟩ := a.arrival.shape
    · exact .inr ⟨base,hb,hm⟩
    · exact .inl hm
  · cases hs'.symm.trans a.final
    rcases hst with hn | hn <;> cases hn.symm.trans hl
    exact hboth.1
  · exact hboth.2 m (Except.ok.inj (h.symm.trans (Call.message_some hm)))

end MicrosoftDM.Mdm
