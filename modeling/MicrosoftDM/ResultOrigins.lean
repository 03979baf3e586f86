import MicrosoftDM.CallTrace
import MicrosoftDM.DeliveredItems

set_option autoImplicit false

namespace MicrosoftDM.Mdm
open Effect
open Effect.Action (exec)
open MicrosoftDM.Syncml (Item Status Message allEncode allEncode_iff)

theorem encodes_assignID (id : GoString) (c : Syncml.Command) :
    (assignID id c).encodes = c.encodes := by
  cases c <;> rfl

theorem allEncode_numberFrom (n : Nat) (cs : List Syncml.Command) :
    allEncode (numberFrom n cs) = allEncode cs := by
  induction cs generalizing n with
  | nil => rfl
  | cons c cs ih => simp only [numberFrom,allEncode,encodes_assignID,ih]

theorem encodes_mapChildren (sess : Session) (msgID id : GoString) (c : Syncml.Command) :
    (mapChildren sess msgID id c).1.encodes = c.encodes := by
  cases c with
  | group k i n m cs =>
    simp only [mapChildren,mapMembers_fst,Syncml.Command.encodes,allEncode_numberFrom]
  | leaf _ _ | alert _ | status _ | results _ => rfl

variable {n : Int} {w wk wk' : Work} {through : List QueuedCommand} {q q' : Queue} {cfg : Config}
  {s t : Session} {id k : GoString} {reply : Option Message}

theorem splitItem_encodes {it first next : Item} {rest : List Item}
    (h : Syncml.splitItem it n = .ok (first :: next :: rest)) :
    ∀ c ∈ first :: next :: rest, c.encodes = true := by
  obtain ⟨d,hd⟩ := Syncml.splitItem_chunk h
  intro c hc
  obtain ⟨b,value,more,rfl,-⟩ := hd c hc
  simp [Syncml.Item.encodes,Syncml.chunkOf,Syncml.Data.encodes]

theorem prepare_encodes {body : Syncml.Command} (h : body.encodes = true) :
    (prepare n body).1.encodes = true := by
  rcases prepare_cases n body with hp | ⟨v,b,it,first,next,rest,-,-,hs,hp⟩
  · rw [hp]
    exact h
  rw [hp]
  simp only [Syncml.Command.encodes,List.all_cons,List.all_nil,Bool.and_true]
  exact splitItem_encodes hs first List.mem_cons_self

theorem QueuedCommand.chunksLeft_encode (qc : QueuedCommand) (n : Int) :
    ∀ it ∈ qc.chunksLeft n, it.encodes = true := by
  unfold chunksLeft
  rcases prepare_cases n qc.command.body with h | ⟨v,b,x,first,next,rest,-,-,hs,h⟩
  · rw [h]
    nofun
  · rw [h]
    exact fun it hit => splitItem_encodes hs it (List.mem_cons_of_mem first hit)

theorem QueuedCommand.IsRead.encodes {qc : QueuedCommand} (h : qc.IsRead) :
    qc.command.body.encodes = true := by
  obtain ⟨items,hb,hdata⟩ := h.body
  rw [hb]
  refine List.all_eq_true.mpr fun it hit => ?_
  rw [Syncml.Item.encodes,hdata it hit]

theorem sentBodies_encode
    (h : ∀ qc ∈ through, qc.command.body.encodes = true) :
    ∀ c ∈ sentBodies w through, c.encodes = true := by
  induction through generalizing w with
  | nil => nofun
  | cons qc rest ih =>
    intro c hc
    rcases List.mem_cons.mp hc with rfl | hc
    · unfold Work.sentBody Work.bodyFor
      rw [encodes_mapChildren,encodes_assignID]
      exact prepare_encodes (h qc List.mem_cons_self)
    · exact ih (fun x hx => h x (List.mem_cons_of_mem qc hx)) c hc

def Session.ChunksEncode (s : Session) : Prop :=
  ∀ o, s.outgoing = some o → ∀ it ∈ o.chunks, it.encodes = true

section Encoding
variable {cfg : Config} {req : Message} {s s' : Session} {w w' : World} {reply : Option Message}

theorem Built.encodes (hb : Built cfg req wk q wk' q')
    (hwk : ∀ c ∈ wk.resp.body.commands, c.encodes = true) (hch : wk.sess.ChunksEncode)
    (hoff : ∀ qc ∈ admitted wk.sess.facts (q.deliverable wk.sess.deviceID 256),
      qc.command.body.encodes = true) :
    ∀ c ∈ wk'.resp.body.commands, c.encodes = true := by
  have hadd : ∀ added, wk'.resp.body.commands = wk.resp.body.commands ++ added →
      (∀ c ∈ added, c.encodes = true) → ∀ c ∈ wk'.resp.body.commands, c.encodes = true := by
    intro added he hadded c hc
    rw [he] at hc
    rcases List.mem_append.mp hc with hc | hc
    · exact hwk c hc
    · exact hadded c hc
  cases hb with
  | closing hc => exact hwk
  | chunk hc hn ho =>
    rename_i o next rest
    refine hadd _ (wk.sendChunk_commands o next rest) fun c hc => ?_
    obtain ⟨hout,hchunks⟩ := Session.nextChunk_outgoing ho
    rw [List.mem_singleton.mp hc]
    simp only [Work.chunkCommand,Syncml.Command.encodes,List.all_cons,List.all_nil,Bool.and_true]
    exact hch o hout next (by rw [hchunks]; exact List.mem_cons_self)
  | upload hc hn hu =>
    refine hadd _ wk.askForMore_commands fun c hc => ?_
    simp only [Work.moreCommands,List.mem_cons,List.not_mem_nil,or_false] at hc
    rcases hc with rfl | rfl <;> simp [Syncml.Command.encodes,Syncml.Data.encodes]
  | deliver hc hask hu hd hall hq =>
    rename_i through
    exact hadd _ (foldl_send_commands wk through)
      (sentBodies_encode fun qc hqc => hoff qc (hd.initial.subset hqc))

theorem ackStatuses_encode (req : Message) (sess : Session) (n : Nat) (cs : List Syncml.Command) :
    ∀ st ∈ ackStatuses req sess n cs, (Syncml.Command.status st).encodes = true := by
  intro st hst
  have hdata : ∀ (cs : List Syncml.Command) (n : Nat), ∀ st ∈ ackStatuses req sess n cs,
      st.data.xml = [] := by
    intro cs
    induction cs with
    | nil => nofun
    | cons c cs ih =>
      intro n st h
      cases c with
      | status _ | results _ => exact ih n st h
      | alert _ | leaf _ _
      | group _ _ _ _ _ => exact (List.mem_cons.mp h).elim (fun he => he ▸ rfl) (ih _ st)
  simp [Syncml.Command.encodes,Syncml.Data.encodes,hdata cs n st hst,
    ackStatuses_items req sess n cs st hst]

theorem Answered.acked_encodes (a : Answered cfg req s w s' w' reply) :
    ∀ c ∈ a.acked.resp.body.commands, c.encodes = true := by
  intro c hc
  rw [a.acked_reply.1] at hc
  rcases List.mem_cons.mp hc with rfl | hc
  · simp [Syncml.Command.encodes,Syncml.Data.encodes,Syncml.statusForHeader]
  · obtain ⟨st,hst,rfl⟩ := List.mem_map.mp hc
    exact ackStatuses_encode _ _ _ _ st hst

theorem Answered.encodes {entered : Session} (a : Answered cfg req entered w s' w' reply)
    (hr : s.Resumed entered) (hch : s.ChunksEncode)
    (hoff : ∀ qc ∈ admitted (s.factsAfter req) (w.queue.deliverable s.deviceID 256),
      qc.command.body.encodes = true) :
    ∀ c ∈ a.built.resp.body.commands, c.encodes = true := by
  refine a.isBuilt.encodes a.acked_encodes ?_ fun qc hqc => ?_
  · intro o ho
    refine hch o ?_
    rw [← hr.alike.outgoing]
    exact a.filedFrom.outgoing.symm.trans ho
  · rcases a.offered hr hqc with h | h
    · exact hoff qc h
    · exact h.encodes

theorem Answered.chunksEncode (a : Answered cfg req s w s' w' reply) (hs : s.ChunksEncode) :
    s'.ChunksEncode := by
  intro o ho it hit
  rcases a.chunks ho hit with ⟨o',ho',hit⟩ | ⟨qc,-,hit⟩
  · rw [a.filedFrom.outgoing] at ho'
    exact hs o' ho' it hit
  · exact qc.chunksLeft_encode _ it hit

theorem Challenged.chunksEncode {outcome : AuthOutcome}
    (c : Challenged cfg req outcome s w s' w' reply) (hs : s.ChunksEncode) : s'.ChunksEncode := by
  obtain ⟨r,he⟩ := c.finished.final
  rw [he]
  exact hs

end Encoding

theorem Reached.chunksEncode {env : Env} {t : Option Transport} {req : Message}
    {w : World} (r : Reached cfg env t req w) (hw : w.Stores fun _ s => s.ChunksEncode) :
    r.arrived.ChunksEncode ∧ r.sess.ChunksEncode := by
  have harr : r.arrived.ChunksEncode := by
    intro o ho
    rcases r.arrival.origin with ⟨stored,hl,hs,-⟩ | ⟨hnew,-⟩
    · exact hw _ stored hl o (hs.alike.outgoing ▸ ho)
    · rw [hnew.outgoing] at ho
      cases ho
  obtain ⟨a,ty,he⟩ := r.authenticated.1
  refine ⟨harr,?_⟩
  rw [he]
  exact harr

theorem Run.chunksEncode {w w' : World} {calls : List Call}
    (hr : Run cfg w calls w') (hw : w.sessions = ∅) :
    ∀ c ∈ calls, c.before.Stores fun _ s => s.ChunksEncode := by
  refine hr.stores (World.stores_empty hw) (chunks_writtenThrough fun _ _ _ _ h => h) ?_
  intro c hc hb r reply hdone _
  rcases hdone.cases with ⟨⟨x⟩⟩ | ⟨⟨x⟩⟩
  · exact x.chunksEncode (r.chunksEncode hb).2
  · exact x.chunksEncode (r.chunksEncode hb).2

theorem fileStatuses_origin {sts : List Status}
    {code : Syncml.StatusCode} (h : ((fileStatuses s sts).pendingOf id).status = some code) :
    (s.pendingOf id).status = some code ∨
    ∃ st ∈ sts, s.sent.lookup (statusKey st) = some id ∧ st.code = code := by
  induction sts generalizing s with
  | nil => exact .inl h
  | cons st sts ih =>
    rcases ih h with h | ⟨x,hx,hs,hc⟩
    · rw [pendingOf_fileStatus] at h
      cases ht : s.statusTarget st with
      | ignored =>
        rw [ht] at h
        exact .inl h
      | member p =>
        rw [ht] at h
        dsimp only at h
        split at h
        · rename_i he
          exact .inl (he ▸ h)
        · exact .inl h
      | command x =>
        rw [ht] at h
        dsimp only at h
        split at h
        · rename_i he
          refine .inr ⟨st,List.mem_cons_self,?_,Option.some.inj h⟩
          rw [he]
          exact (Session.statusTarget_command ht).2
        · exact .inl h
    · exact .inr ⟨x,List.mem_cons_of_mem st hx,(fileStatus_filing s st).sent _ _ hs,hc⟩

theorem Work.sentBody_id {w : Work} {qc : QueuedCommand} (hv : validate qc.command = none) :
    (w.sentBody qc).id = itoa (w.ids+1) ∧ (w.sentBody qc).status? = none := by
  rcases validate_body hv with ⟨v,b,hb⟩ | ⟨kind,i,nr,m,cs,hb,-⟩
  · obtain ⟨⟨items,he⟩,-⟩ := Work.send_leaf (w := w) hb
    rw [he]
    exact ⟨rfl,rfl⟩
  · rw [(Work.send_group hb).1]
    exact ⟨rfl,rfl⟩

theorem foldl_send_keys (hn : w.Numbered n)
    (hv : ∀ qc ∈ through, validate qc.command = none)
    (h : (through.foldl Work.send w).sess.sent.lookup k = some id) :
    w.sess.sent.lookup k = some id ∨
    ∃ c ∈ sentBodies w through, c.status? = none ∧ k = joinSlash (itoa n) c.id := by
  induction through generalizing w with
  | nil => exact .inl h
  | cons qc rest ih =>
    rcases ih (hn.send qc) (fun x hx => hv x (List.mem_cons_of_mem qc hx)) h with h | ⟨c,hc,he⟩
    · rw [Work.send_sess] at h
      by_cases hk : k = w.sentKey
      · obtain ⟨hid,hst⟩ := @Work.sentBody_id w qc (hv qc List.mem_cons_self)
        refine .inr ⟨w.sentBody qc,List.mem_cons_self,hst,?_⟩
        rw [hk,hn.sentKey,hid]
      · exact .inl (by rwa [AList.lookup_insert_ne hk] at h)
    · exact .inr ⟨c,List.mem_cons_of_mem _ hc,he⟩

section Sending
variable {cfg : Config} {req : Message} {s s' : Session} {w w' : World} {reply : Option Message}

theorem Built.keys (hb : Built cfg req wk q wk' q')
    (hn : wk.Numbered n) (h : wk'.sess.sent.lookup k = some id) :
    wk.sess.sent.lookup k = some id ∨
    ∃ c ∈ wk'.resp.body.commands, c.status? = none ∧ k = joinSlash (itoa n) c.id := by
  cases hb with
  | closing _ | upload _ _ _ => exact .inl h
  | chunk hc hask ho =>
    rename_i o next rest
    have hsent : (wk.sendChunk o next rest).sess.sent =
        wk.sess.sent.insert (joinSlash wk.resp.header.msgID (itoa (wk.ids+1))) o.commandID := by
      unfold Work.sendChunk
      dsimp only
      split <;> rfl
    rw [hsent] at h
    by_cases hk : k = joinSlash wk.resp.header.msgID (itoa (wk.ids+1))
    · refine .inr ⟨wk.chunkCommand next,?_,rfl,?_⟩
      · rw [Work.sendChunk_commands]
        exact List.mem_append_right _ List.mem_cons_self
      · rw [hk,hn.msgID]
        rfl
    · exact .inl (by rwa [AList.lookup_insert_ne hk] at h)
  | deliver hc hask hu hd hall hq =>
    rename_i through
    refine (foldl_send_keys hn hd.valid h).imp_right fun ⟨c,hc,he⟩ => ⟨c,?_,he⟩
    rw [Work.setFinal_commands,foldl_send_commands]
    exact List.mem_append_right _ hc

theorem Answered.keys (a : Answered cfg req s w s' w' reply) (hs : s.Entered req) (h : s'.sent.lookup k = some id) :
    s.sent.lookup k = some id ∨ ∃ c ∈ a.built.resp.body.commands, c.status? = none ∧
      k = joinSlash a.built.resp.header.msgID c.id := by
  obtain ⟨r,he⟩ := a.finished.final
  have hmsg : a.built.resp.header.msgID = itoa s.clientMsgID :=
    (congrArg _ a.isBuilt.sending.2).trans (a.numbered hs).msgID
  rw [he] at h
  rw [hmsg]
  exact (a.isBuilt.keys (a.numbered hs) h).imp_left (a.filedFrom.sent k id)

end Sending

/-- The call has worked on the session `s`: on the same maps, with a message of
its device that has its SessionID. -/
structure Call.WorksIn (c : Call) (cfg : Config) (s : Session) : Prop where
  sess : ∃ t, (c.out cfg).sess = some t ∧ t.addr = s.addr
  device : c.req.header.source.locURI = s.deviceID
  sessionID : c.req.header.sessionID = s.sessionID

def Session.SentIn (cfg : Config) (past : List Call) (s : Session) : Prop :=
  ∀ k id, s.sent.lookup k = some id → ∃ d ∈ past, d.Sends cfg k id ∧ d.WorksIn cfg s

theorem Call.WorksIn.congr {d : Call} (h : d.WorksIn cfg s)
    (haddr : t.addr = s.addr) (hdev : t.deviceID = s.deviceID) (hid : t.sessionID = s.sessionID) :
    d.WorksIn cfg t := by
  obtain ⟨x,hx,ha⟩ := h.sess
  exact ⟨⟨x,hx,ha.trans haddr.symm⟩,h.device.trans hdev.symm,h.sessionID.trans hid.symm⟩

theorem Session.SentIn.mono {past past' : List Call}
    (h : s.SentIn cfg past) (hpast : ∀ d ∈ past, d ∈ past') (hsent : t.sent = s.sent)
    (haddr : t.addr = s.addr) (hdev : t.deviceID = s.deviceID) (hid : t.sessionID = s.sessionID) :
    t.SentIn cfg past' := by
  intro k id hk
  obtain ⟨d,hd,hsends,hin⟩ := h k id (hsent ▸ hk)
  exact ⟨d,hpast d hd,hsends,hin.congr haddr hdev hid⟩

/-- With `s` the session the message enters: it belongs to the device that sent
the message, and every command that may go out in it can be encoded. -/
structure Call.Traceable (c : Call) (s : Session) : Prop where
  device : s.deviceID = c.req.header.source.locURI
  encodes : ∀ qc ∈ c.offered s, ∃ b, Syncml.encodeCommand [] qc.command.body = .ok b

instance (c : Call) (s : Session) : Decidable (c.Traceable s) :=
  decidable_of_iff (s.deviceID = c.req.header.source.locURI ∧
      ∀ qc ∈ c.offered s, qc.command.body.encodes = true)
    ⟨fun ⟨h₁,h₂⟩ => ⟨h₁,fun qc hqc => (Syncml.writeCommand_ok_iff _ _ _).mpr (h₂ qc hqc)⟩,
      fun h => ⟨h.device,fun qc hqc => (Syncml.writeCommand_ok_iff _ _ _).mp (h.encodes qc hqc)⟩⟩

theorem Call.Sends.message {c : Call} (h : c.Sends cfg k id) :
    c.message cfg ≠ none := by
  obtain ⟨m,-,-,hm,-⟩ := h
  rw [Call.message,hm]
  nofun

section Tracing
variable {cfg : Config} {c : Call} {past : List Call}

theorem Reached.sentIn (r : Reached cfg c.env c.transport c.req c.before)
    (h : c.before.Stores fun _ s => s.SentIn cfg past) : r.arrived.SentIn cfg past := by
  rcases r.arrival.origin with ⟨stored,hl,hs,hid,-⟩ | ⟨hs,-⟩
  · exact (h _ stored hl).mono (fun _ hd => hd) hs.alike.sent hs.addr hs.deviceID hid
  intro k id hk
  rw [hs.sent] at hk
  cases hk

theorem Reached.sent_eq (r : Reached cfg c.env c.transport c.req c.before) :
    r.sess.sent = r.arrived.sent ∧ r.arrived.Resumed r.sess := by
  have hres := r.authenticated.1.resumed
  exact ⟨hres.alike.sent,hres⟩

theorem Reached.returned (r : Reached cfg c.env c.transport c.req c.before) (hdone : r.Completed reply) (hf : c.Traceable r.arrived)
    (hch : c.before.Stores fun _ s => s.ChunksEncode)
    (hres : r.result = .ok reply ∨
      reply = some r.work.resp ∧ ∃ err, Syncml.encode [] r.work.resp = .error err) :
    r.result = .ok reply := by
  refine hres.resolve_right fun ⟨hr,err,herr⟩ => ?_
  have hok : ∃ b, Syncml.encode [] r.work.resp = .ok b := by
    rcases hdone.cases with ⟨⟨a⟩⟩ | ⟨⟨a⟩⟩
    · subst hr
      rw [a.finished.message]
      refine (Syncml.encode_ok_iff _ _).mpr (a.encodes r.sent_eq.2 (r.chunksEncode hch).1 ?_)
      rw [r.arrival.queue]
      exact fun qc hqc => (Syncml.writeCommand_ok_iff _ _ _).mp (hf.encodes qc hqc)
    · subst hr
      rw [a.finished.message]
      exact encode_challenge cfg c.req r.sess r.outcome a.chal
  obtain ⟨b,hb⟩ := hok
  rw [hb] at herr
  cases herr

theorem Reached.worksIn (r : Reached cfg c.env c.transport c.req c.before)
    (hf : c.Traceable r.arrived)
    (hkey : c.before.Stores fun key s => key = sessionKey s.deviceID s.sessionID) :
    c.WorksIn cfg r.work.sess := by
  obtain ⟨-,-,hdev,hid⟩ := r.within
  refine ⟨⟨r.work.sess,by rw [Call.out,r.out],rfl⟩,by rw [hdev]; exact hf.device.symm,?_⟩
  rw [hid]
  rcases r.arrival.origin with ⟨stored,hl,hs,hsid,-⟩ | ⟨hs,-⟩
  · have he := hkey _ stored hl
    have hd := hf.device
    rw [hs.deviceID] at hd
    rw [Message.sessionKey,hd] at he
    rw [hsid]
    simpa [sessionKey,joinSlash] using he
  · exact hs.sessionID.symm

theorem onlyHeaderStatus_status {resp : Message} (h : onlyHeaderStatus resp = true)
    {cmd : Syncml.Command} (hc : cmd ∈ resp.body.commands) : cmd.status? ≠ none := by
  unfold onlyHeaderStatus at h
  split at h
  · rename_i st he
    rw [he] at hc
    rw [List.mem_singleton.mp hc]
    nofun
  · cases h

theorem Reached.sends (r : Reached cfg c.env c.transport c.req c.before) (hw : c.before.Sound) (hdone : r.Completed reply) (hret : r.result = .ok reply) (hk : r.work.sess.sent.lookup k = some id) :
    r.arrived.sent.lookup k = some id ∨ c.Sends cfg k id := by
  obtain ⟨hs,-⟩ := r.entered hw
  rcases hdone.cases with ⟨⟨a⟩⟩ | ⟨⟨a⟩⟩
  · rcases a.keys hs hk with h | ⟨cmd,hcmd,hst,hkey⟩
    · exact .inl (r.sent_eq.1 ▸ h)
    refine .inr ⟨a.built.resp,r.work.sess,cmd,?_,by rw [Call.out,r.out],hcmd,hkey,hk⟩
    rcases a.finished.reply with ⟨-,-,hhdr⟩ | hsome
    · exact absurd hst (onlyHeaderStatus_status hhdr hcmd)
    · rw [Call.out,r.out,hret]
      exact congrArg Except.ok hsome
  · rw [(a.keeps hs).1,r.sent_eq.1] at hk
    exact .inl hk

theorem Call.Undisturbed.sentIn (hu : c.Undisturbed cfg) (hw : c.before.Sound)
    (hf : ∀ s, c.entered = some s → c.Traceable s)
    (hch : c.before.Stores fun _ s => s.ChunksEncode)
    (hkey : c.before.Stores fun key s => key = sessionKey s.deviceID s.sessionID)
    (h : c.before.Stores fun _ s => s.SentIn cfg past) :
    (c.after cfg).Stores fun _ s => s.SentIn cfg (past ++ [c]) := by
  intro key s hl
  have hpast : ∀ d ∈ past, d ∈ past ++ [c] := fun d hd => List.mem_append_left _ hd
  rcases hu.stored hl with hl | ⟨r,hk,⟨reply,hdone,rfl,hres⟩ | ⟨stored,hst,haddr,-,htak,-,-,rfl⟩⟩
  · exact (h key s hl).mono hpast rfl rfl rfl rfl
  · have hret := r.returned hdone (hf _ r.entered_eq) hch hres
    obtain ⟨ha,-,hd,hid⟩ := r.within
    intro k id hk
    rcases r.sends hw hdone hret hk with hold | hnew
    · obtain ⟨d,hd',hsends,hin⟩ := r.sentIn h k id hold
      exact ⟨d,hpast d hd',hsends,hin.congr ha hd hid⟩
    · exact ⟨c,by simp,hnew,r.worksIn (hf _ r.entered_eq) hkey⟩
  · have hsent : r.work.sess.sent = r.arrived.sent := htak.sent.trans r.sent_eq.1
    rcases r.arrival.origin with ⟨x,hx,hs,hid,-⟩ | ⟨hs,-⟩
    · rw [hk,r.within.2.1,hs.key,(hw _ x hx).key,hx] at hst
      cases hst
      exact (h _ _ hx).mono hpast (hsent.trans hs.alike.sent) rfl rfl rfl
    intro k id hk
    rw [show (MemorySessions.writeThrough stored r.work.sess false).sent = r.work.sess.sent from rfl,
      hsent,hs.sent] at hk
    cases hk

end Tracing

section Runs
variable {cfg : Config} {w w' : World} {calls : List Call}

theorem Run.sentIn (hr : Run cfg w calls w') (hw : w.sessions = ∅)
    (hu : ∀ c ∈ calls, c.Undisturbed cfg)
    (hf : ∀ c ∈ calls, ∀ s, c.entered = some s → c.Traceable s) :
    ∀ pre c post, calls = pre ++ c :: post →
      c.before.Sound ∧ c.before.Stores fun _ s => s.SentIn cfg pre := by
  have hP := hr.history
    (P := fun past w => w.Sound ∧ w.Stores fun _ s => s.SentIn cfg past) []
    ⟨World.sound_of_empty hw,World.stores_empty hw⟩
    (fun _ => .of_queue fun _ _ h => h)
    (fun past c post he h => by
      have hc : c ∈ calls := by rw [he]; simp
      exact ⟨(hu c hc).sound h.1,(hu c hc).sentIn h.1 (hf c hc) (hr.chunksEncode hw c hc)
        (hr.keyed hw c hc) h.2⟩)
  exact hP.2

/-- A result is stored for a command that an earlier reply of the session has brought, with the
code of a Status of a trusted message of that session on that delivery. -/
theorem storeResult_origin (hr : Run cfg w calls w') (hw : w.sessions = ∅)
    (hu : ∀ c ∈ calls, c.Undisturbed cfg)
    (hf : ∀ c ∈ calls, ∀ s, c.entered = some s → c.Traceable s) {pre post : List Call} {c : Call}
    (he : calls = pre ++ c :: post) {dev id : GoString} {res : Result}
    {ans : Ans (.storeResult dev id res)} (hx : ⟨.storeResult dev id res,ans⟩ ∈ c.trace cfg) :
    c.Accepted cfg ∧ c.Trusted cfg ∧
    ∃ s d st, (c.out cfg).sess = some s ∧ s.deviceID = dev ∧ c.WorksIn cfg s ∧
      d ∈ pre ∧ d.WorksIn cfg s ∧ d.Sends cfg (statusKey st) id ∧
      st ∈ c.req.body.statuses ∧ st.code = res.status := by
  have hc : c ∈ calls := by rw [he]; simp
  obtain ⟨hsound,hsent⟩ := hr.sentIn hw hu hf pre c post he
  obtain ⟨r,reply,hres,hdone,hsettles⟩ := (hu c hc).settles hx rfl
  have hfr := hf c hc _ r.entered_eq
  have hret := r.returned hdone hfr (hr.chunksEncode hw c hc) hres
  obtain ⟨hent,-⟩ := r.entered hsound
  obtain ⟨haddr,-,hdev,hid⟩ := r.within
  rcases hsettles with ⟨ho,a,hd,hst⟩ | ⟨-,a,hd,hst⟩
  · refine ⟨⟨reply,by rw [Call.out,r.out]; exact hret⟩,by rw [Call.Trusted,Call.out,r.out,ho],?_⟩
    have hpend : (a.built.sess.pendingOf id).status =
        ((fileStatuses a.acked.sess c.req.body.statuses).pendingOf id).status := by
      rw [Session.pendingOf_congr a.isBuilt.sending.1.results]
      exact congrArg _ (Session.pendingOf_congr a.filedBy.results id)
    rw [hpend] at hst
    rcases fileStatuses_origin hst with h | ⟨st,hmem,hkey,hcode⟩
    · rw [a.taking.status,hent.unanswered] at h
      cases h
    rw [a.taking.sent,r.sent_eq.1] at hkey
    obtain ⟨d,hdpre,hsends,hin⟩ := r.sentIn hsent _ id hkey
    refine ⟨r.work.sess,d,st,by rw [Call.out,r.out],?_,r.worksIn hfr (hr.keyed hw c hc),hdpre,
      hin.congr haddr hdev hid,hsends,hmem,hcode⟩
    have hres := r.sent_eq.2
    rw [hd,hdev,a.built_deviceID,hres.deviceID]
  · have hnone := hent.unanswered id
    have hst : (r.sess.pendingOf id).status = some res.status := hst
    rw [hnone] at hst
    cases hst

end Runs

def Call.StoresResult (c : Call) (cfg : Config) (dev id : GoString) (code : Syncml.StatusCode) : Prop :=
  ∃ res ans, ⟨.storeResult dev id res,ans⟩ ∈ c.trace cfg ∧ res.status = code

/-- `StoresResult` by evaluation. -/
def Call.storesResult (c : Call) (cfg : Config) (dev id : GoString) (code : Syncml.StatusCode) : Bool :=
  (c.trace cfg).any fun x =>
    match x.1 with
    | .storeResult d i res => d = dev ∧ i = id ∧ res.status = code
    | _ => false

theorem Call.storesResult_iff (c : Call) (cfg : Config) (dev id : GoString)
    (code : Syncml.StatusCode) :
    c.storesResult cfg dev id code = true ↔ c.StoresResult cfg dev id code := by
  unfold storesResult StoresResult
  rw [List.any_eq_true]
  constructor
  · rintro ⟨⟨op,ans⟩,hx,h⟩
    cases op <;> try cases h
    rename_i d i res
    obtain ⟨rfl,rfl,hcode⟩ := of_decide_eq_true h
    exact ⟨res,ans,hx,hcode⟩
  · rintro ⟨res,ans,hx,hcode⟩
    exact ⟨_,hx,decide_eq_true ⟨rfl,rfl,hcode⟩⟩

instance (c : Call) (cfg : Config) (dev id : GoString) (code : Syncml.StatusCode) :
    Decidable (c.StoresResult cfg dev id code) :=
  decidable_of_iff _ (c.storesResult_iff cfg dev id code)

namespace Sample

def mixedWorld : World :=
  world [{
    id := "policy", scope := .device
    body := .leaf .replace { items := [{
      target := "./Vendor/MSFT/Policy", data := some { value := "enabled", xml := "<on/>" } }] } }]

end Sample

set_option maxRecDepth 4000

/-- The setting that goes out with message 1 gets the code of the Status in message 2. -/
theorem storeResult_origin_policy : ∃ c₁ c₂ w', Run Sample.cfg Sample.policyWorld [c₁,c₂] w' ∧
    c₂.StoresResult Sample.cfg "dev" "policy" 200 ∧
    ∃ s st, c₁.WorksIn Sample.cfg s ∧ c₁.Sends Sample.cfg (statusKey st) "policy" ∧
      st ∈ c₂.req.body.statuses ∧ st.code = 200 := by
  obtain ⟨w',h⟩ := run_callsOf Sample.cfg Sample.env (some Sample.transport) Sample.policyWorld
    [Sample.packageOne,Sample.policyAnswer]
  have hres : (callsOf Sample.cfg Sample.env (some Sample.transport) Sample.policyWorld
      [Sample.packageOne,Sample.policyAnswer])[1].StoresResult Sample.cfg "dev" "policy" 200 := by
    decide +kernel
  refine ⟨_,_,w',h,hres,?_⟩
  obtain ⟨res,ans,hx,hcode⟩ := hres
  obtain ⟨-,-,s,d,st,-,-,-,hd,hin,hsends,hst,hc⟩ :=
    storeResult_origin h rfl (by decide +kernel) (by decide +kernel)
      (show callsOf _ _ _ _ [Sample.packageOne,Sample.policyAnswer] = [_] ++ _ :: [] from rfl) hx
  obtain rfl := List.mem_singleton.mp hd
  exact ⟨s,st,hin,hsends,hst,hc.trans hcode⟩

/-- A reply that could not be encoded was never sent, yet the Status on it is taken. -/
theorem result_of_unsent_command : ∃ c₁ c₂ w', Run Sample.cfg Sample.mixedWorld [c₁,c₂] w' ∧
    (∀ c ∈ [c₁,c₂], c.Undisturbed Sample.cfg) ∧ c₁.message Sample.cfg = none ∧
    c₂.StoresResult Sample.cfg "dev" "policy" 200 ∧
    ∀ d ∈ [c₁], ∀ k, ¬d.Sends Sample.cfg k "policy" := by
  obtain ⟨w',h⟩ := run_callsOf Sample.cfg Sample.env (some Sample.transport) Sample.mixedWorld
    [Sample.packageOne,Sample.policyAnswer]
  have hu : ∀ c ∈ callsOf Sample.cfg Sample.env (some Sample.transport) Sample.mixedWorld
      [Sample.packageOne,Sample.policyAnswer], c.Undisturbed Sample.cfg := by decide +kernel
  have hnone : (callsOf Sample.cfg Sample.env (some Sample.transport) Sample.mixedWorld
      [Sample.packageOne,Sample.policyAnswer])[0].message Sample.cfg = none := by decide +kernel
  refine ⟨_,_,w',h,hu,hnone,by decide +kernel,fun d hd k hs => ?_⟩
  obtain rfl := List.mem_singleton.mp hd
  exact hs.message hnone

end MicrosoftDM.Mdm
