import MicrosoftDM.SessionSteps

set_option autoImplicit false

namespace MicrosoftDM.Mdm
open MicrosoftDM.Syncml (Item Status Message)

variable {s : Session} {cfg : Config} {req : Message} {w w' : World} {f g : Facts}
  {qc : QueuedCommand} {id key : GoString}

theorem Session.Alike.symm {t : Session} (h : s.Alike t) : t.Alike s :=
  ⟨h.sent.symm,h.children.symm,h.outgoing.symm,h.assembler.symm,h.assemblingCommand.symm,
    h.results.symm,h.closed.symm⟩

def Session.closedBy (cfg : Config) (s : Session) (req : Message) : Bool :=
  match s.takeAll cfg req.body.commands with
  | .ok s' => s'.closed
  | .error _ => false

def Session.uploadAfter (cfg : Config) (s : Session) (req : Message) : Bool :=
  match s.takeAll cfg req.body.commands with
  | .ok s' => s'.uploadPending
  | .error _ => false

def Session.factsAfter (s : Session) (req : Message) : Facts :=
  if Syncml.isPackageOne req ∧ s.gotPackageOne = false then s.facts.record req else s.facts

/-- `s'` is `s` once the Statuses and the package 1 of the request are filed. -/
structure Session.FiledBy (req : Message) (s s' : Session) : Prop where
  closed : s'.closed = s.closed
  assembler : s'.assembler = s.assembler
  assemblingCommand : s'.assemblingCommand = s.assemblingCommand
  results : s'.results = (fileStatuses s req.body.statuses).results
  sent : s'.sent = (fileStatuses s req.body.statuses).sent
  children : s'.children = (fileStatuses s req.body.statuses).children
  facts : s'.facts = s.factsAfter req

theorem Answered.filedBy {s' : Session}
    {reply : Option Message} (a : Answered cfg req s w s' w' reply) :
    a.acked.sess.FiledBy req a.filed := by
  have h := fileStatuses_filing a.acked.sess req.body.statuses
  unfold Answered.filed Session.filed
  split
  · rename_i hp
    rw [h.gotPackageOne] at hp
    exact ⟨h.closed,h.assembler,h.assemblingCommand,rfl,rfl,rfl,
      by simp [Session.recordFacts,h.facts,Session.factsAfter,hp]⟩
  rename_i hp
  rw [h.gotPackageOne] at hp
  exact ⟨h.closed,h.assembler,h.assemblingCommand,rfl,rfl,rfl,
    h.facts.trans (if_neg hp).symm⟩

def Facts.SameGate (f g : Facts) : Prop := g.syncType = f.syncType ∧ g.loginStatus = f.loginStatus

theorem Facts.SameGate.scopeAllows (h : f.SameGate g) (sc : Scope) :
    Mdm.scopeAllows g sc = Mdm.scopeAllows f sc := by
  unfold Mdm.scopeAllows
  rw [h.1,h.2]

theorem Facts.SameGate.eventFact (h : f.SameGate g) (it : Item) :
    (Mdm.eventFact f it).SameGate (Mdm.eventFact g it) := by
  unfold Mdm.eventFact
  split
  · exact h
  split
  · exact ⟨rfl,h.2⟩
  split
  · exact ⟨h.1,h.2⟩
  · exact h

theorem Facts.SameGate.record (h : f.SameGate g) (req : Message) :
    (f.record req).SameGate (g.record req) := by
  unfold Facts.record
  have hfold : ∀ (items : List Item) (f g : Facts), f.SameGate g →
      (items.foldl Mdm.eventFact f).SameGate (items.foldl Mdm.eventFact g) := by
    intro items
    induction items with
    | nil => intro f g h; exact h
    | cons it rest ih => intro f g h; exact ih _ _ (h.eventFact it)
  exact hfold _ _ _ ⟨h.1,rfl⟩

theorem Facts.SameGate.admitted (h : f.SameGate g) (cmds : List QueuedCommand) :
    Mdm.admitted g cmds = Mdm.admitted f cmds := by
  unfold Mdm.admitted
  exact List.filter_congr fun qc _ => h.scopeAllows qc.command.scope

theorem Queue.Grows.mem_deliverable {q q' : Queue} {dev : GoString} {limit : Int} (hg : q.Grows dev q') (h : qc ∈ q'.deliverable dev limit)
    (hid : qc.id ∈ (q.commands dev).map QueuedCommand.id) : qc ∈ q.deliverable dev limit := by
  obtain ⟨new,he,-⟩ := hg.own
  have hnew : qc ∉ new := by
    intro hn
    have hd := q'.distinct dev
    rw [← Queue.commands,he,List.map_append,List.nodup_append] at hd
    exact hd.2.2 _ hid _ (List.mem_map_of_mem hn) rfl
  unfold deliverable at h ⊢
  rw [he,List.filter_append] at h
  dsimp only at h ⊢
  split at h
  · rename_i hl
    rw [if_pos hl]
    rw [List.take_append] at h
    rcases List.mem_append.mp h with h | h
    · exact h
    · exact absurd (List.mem_of_mem_filter (List.mem_of_mem_take h)) hnew
  · rename_i hl
    rw [if_neg hl]
    rcases List.mem_append.mp h with h | h
    · exact h
    · exact absurd (List.mem_of_mem_filter h) hnew

/-- The reply of the call carries the queued command `id` under the key "MsgID/CmdID". -/
def Call.Sends (c : Call) (cfg : Config) (key id : GoString) : Prop :=
  ∃ m sess cmd, (c.out cfg).reply = .ok (some m) ∧ (c.out cfg).sess = some sess ∧
    cmd ∈ m.body.commands ∧ key = joinSlash m.header.msgID (Syncml.Command.id cmd) ∧
    sess.sent.lookup key = some id

/-- `Sends` by evaluation. -/
def Call.sends (c : Call) (cfg : Config) (key id : GoString) : Bool :=
  match (c.out cfg).reply,(c.out cfg).sess with
  | .ok (some m),some sess =>
    m.body.commands.any fun cmd =>
      key = joinSlash m.header.msgID (Syncml.Command.id cmd) ∧ sess.sent.lookup key = some id
  | _,_ => false

theorem Call.sends_iff (c : Call) (cfg : Config) (key id : GoString) :
    c.sends cfg key id = true ↔ c.Sends cfg key id := by
  unfold sends Sends
  cases (c.out cfg).reply with
  | error e => simp
  | ok r =>
    cases r with
    | none => simp
    | some m =>
      cases (c.out cfg).sess with
      | none | some _ => simp

instance (c : Call) (cfg : Config) (key id : GoString) : Decidable (c.Sends cfg key id) :=
  decidable_of_iff _ (c.sends_iff cfg key id)

def Call.Names (c : Call) (key : GoString) : Prop := ∃ st ∈ c.req.body.statuses, statusKey st = key

instance (c : Call) (key : GoString) : Decidable (c.Names key) :=
  inferInstanceAs (Decidable (∃ st ∈ c.req.body.statuses, statusKey st = key))

/-- Before the call, with `s` the stored session: the Status on `key` reaches
the command `id`, which is not in flight and which the delivery loop, if it
runs at all, is not offered. -/
structure Call.Quiet (c : Call) (cfg : Config) (s : Session) (key id : GoString) : Prop where
  noMember : s.children.lookup key = none
  notInFlight : ∀ o, s.outgoing = some o → o.commandID ≠ id
  notOffered : s.closedBy cfg c.req = true ∨ s.uploadAfter cfg c.req = true ∨
    (AsksForChunk c.req ∧ s.nextChunk ≠ none) ∨
    id ∈ (c.before.queue.commands s.deviceID).map QueuedCommand.id ∧
      ∀ qc ∈ admitted (s.factsAfter c.req) (c.before.queue.deliverable s.deviceID 256), qc.id ≠ id

instance (c : Call) (cfg : Config) (s : Session) (key id : GoString) :
    Decidable (c.Quiet cfg s key id) :=
  decidable_of_iff
    (s.children.lookup key = none ∧ (s.outgoing.all fun o => o.commandID ≠ id) = true ∧
      (s.closedBy cfg c.req = true ∨ s.uploadAfter cfg c.req = true ∨
        (AsksForChunk c.req ∧ s.nextChunk.isSome = true) ∨
        id ∈ (c.before.queue.commands s.deviceID).map QueuedCommand.id ∧
          ∀ qc ∈ admitted (s.factsAfter c.req) (c.before.queue.deliverable s.deviceID 256),
            qc.id ≠ id))
    ⟨fun ⟨h₁,h₂,h₃⟩ => ⟨h₁,all_decide_iff.mp h₂,by simpa [Option.isSome_iff_ne_none] using h₃⟩,
      fun h => ⟨h.noMember,all_decide_iff.mpr h.notInFlight,
        by simpa [Option.isSome_iff_ne_none] using h.notOffered⟩⟩

/-- What the delivery loop would be offered when the request is filed, reads of this message
apart. -/
def Call.offered (c : Call) (s : Session) : List QueuedCommand :=
  admitted (s.factsAfter c.req) (c.before.queue.deliverable s.deviceID 256)

def Session.Delivers (cfg : Config) (s : Session) (req : Message) : Prop :=
  s.closedBy cfg req = false ∧ s.uploadAfter cfg req = false ∧
    (AsksForChunk req → s.nextChunk = none)

instance (cfg : Config) (s : Session) (req : Message) : Decidable (s.Delivers cfg req) :=
  inferInstanceAs (Decidable (_ ∧ _ ∧ (_ → _)))

section Exchange
variable {cfg : Config} {c : Call} {s s' entered : Session} {reply : Option Message}

theorem Answered.filed_of_stored
    (a : Answered cfg req entered w s' w' reply) (hr : s.Resumed entered) :
    a.filed.closed = s.closedBy cfg req ∧ a.filed.uploadPending = s.uploadAfter cfg req ∧
    a.filed.nextChunk = s.nextChunk ∧ (s.factsAfter req).SameGate a.filed.facts := by
  obtain ⟨u,hu,hal⟩ := Session.takeAll_alike hr.alike.symm (Work.ackAll_sess a.isAcked)
  have hf := a.filedBy
  have ht := a.taking
  refine ⟨?_,?_,?_,?_⟩
  · unfold Session.closedBy
    rw [hu]
    exact hf.closed.trans hal.closed.symm
  · unfold Session.uploadAfter
    rw [hu]
    dsimp only
    rw [hal.uploadPending]
    unfold Session.uploadPending
    rw [hf.assembler]
  · unfold Session.nextChunk
    rw [a.filedFrom.outgoing,hr.alike.outgoing]
  have hg : s.facts.SameGate entered.facts := ⟨hr.syncType,hr.loginStatus⟩
  rw [hf.facts]
  unfold Session.factsAfter
  rw [ht.gotPackageOne,hr.gotPackageOne,ht.facts]
  change Facts.SameGate _ (if _ then entered.facts.record req else entered.facts)
  split
  · exact hg.record req
  · exact hg

theorem Answered.offered
    (a : Answered cfg req entered w s' w' reply) (hr : s.Resumed entered)
    (h : qc ∈ admitted a.filed.facts (a.reads.deliverable a.filed.deviceID 256)) :
    qc ∈ admitted (s.factsAfter req) (w.queue.deliverable s.deviceID 256) ∨ qc.IsRead := by
  obtain ⟨-,-,-,hgate⟩ := a.filed_of_stored hr
  have hdev : a.filed.deviceID = s.deviceID := a.filed_deviceID.trans hr.deviceID
  have hreads := a.grows
  rw [a.acked_deviceID,hr.deviceID] at hreads
  rw [hgate.admitted,hdev] at h
  obtain ⟨hqc,hsc⟩ := List.mem_filter.mp h
  rcases hreads.isRead qc (Queue.mem_deliverable hqc).1 with hold | hread
  · exact .inl (List.mem_filter.mpr
      ⟨hreads.toGrows.mem_deliverable hqc (List.mem_map_of_mem hold),hsc⟩)
  · exact .inr hread

theorem Call.Quiet.not_canSend (hq : c.Quiet cfg s key id)
    (a : Answered cfg c.req entered c.before s' (c.after cfg) reply) (hr : s.Resumed entered) :
    ¬CanSend c.req a.filed a.reads id := by
  obtain ⟨hcl,hup,hch,hgate⟩ := a.filed_of_stored hr
  have hdev : a.filed.deviceID = s.deviceID := a.filed_deviceID.trans hr.deviceID
  have hout : a.filed.outgoing = s.outgoing := a.filedFrom.outgoing.trans hr.alike.outgoing
  rintro (⟨-,o,next,rest,ho,hid⟩ | ⟨hnc,hnu,hnx,qc,hqc,hid⟩)
  · exact hq.notInFlight o (hout ▸ (Session.nextChunk_outgoing ho).1) hid
  rcases hq.notOffered with h | h | ⟨h₁,h₂⟩ | ⟨hin,hno⟩
  · rw [← hcl,hnc] at h; cases h
  · rw [← hup,hnu] at h; cases h
  · exact h₂ (hch ▸ hnx h₁)
  rw [hgate.admitted,hdev] at hqc
  obtain ⟨hqc,hsc⟩ := List.mem_filter.mp hqc
  have hg : c.before.queue.Grows s.deviceID a.reads := by
    have := a.grows.toGrows
    rwa [a.acked_deviceID,hr.deviceID] at this
  have hold := hg.mem_deliverable hqc (hid ▸ hin)
  exact hno qc (List.mem_filter.mpr ⟨hold,hsc⟩) hid

end Exchange

def World.Awaits (key k id : GoString) (w : World) : Prop :=
  ∃ s, w.sessions.lookup key = some s ∧ s.sent.lookup k = some id

theorem Call.Sends.awaits {c : Call} {k : GoString} (h : c.Sends cfg k id)
    (hacc : c.Accepted cfg) (hw : c.before.Sound) :
    (c.after cfg).sessions.lookup (Message.sessionKey c.req) = none ∨
    (c.after cfg).Awaits (Message.sessionKey c.req) k id := by
  obtain ⟨s',hs',hst⟩ := Call.stored_after hacc hw
  obtain ⟨m,sess,cmd,-,hsess,-,-,hl⟩ := h
  rw [hs'] at hsess
  cases hsess
  exact hst.imp_right fun h => ⟨s',h,hl⟩

def World.Past (key id : GoString) (w : World) : Prop :=
  ∃ s, w.sessions.lookup key = some s ∧ (∀ o, s.outgoing = some o → o.commandID ≠ id) ∧
    w.queue.Done s.deviceID id

section Steps
variable {cfg : Config} {c : Call} {s s' : Session} {k id : GoString}

theorem Call.Exchange.lookup_after (x : c.Exchange cfg s s') (hacc : c.Accepted cfg)
    (hw : c.before.Sound) :
    (c.after cfg).sessions.lookup (Message.sessionKey c.req) = none ∨
    (c.after cfg).sessions.lookup (Message.sessionKey c.req) = some s' := by
  obtain ⟨t,ht,h⟩ := Call.stored_after hacc hw
  rw [x.final] at ht
  cases ht
  exact h

theorem Call.Sends.sent (h : c.Sends cfg k id) (hacc : c.Accepted cfg) (hw : c.before.Sound)
    (hs : (c.after cfg).sessions.lookup (Message.sessionKey c.req) = some s) :
    s.sent.lookup k = some id := by
  rcases h.awaits hacc hw with h | ⟨t,ht,hk⟩
  · rw [h] at hs; cases hs
  rw [ht] at hs
  cases hs
  exact hk

/-- What holds of the session that `ci` stores, and is kept by every exchange after it, holds of
the session that `cj` finds. -/
theorem SessionRun.kept {w w' : World} {pre mid post : List Call} {ci cj : Call} {key : GoString}
    {R : List Call → Session → Prop}
    (hr : SessionRun cfg key w (pre ++ ci :: (mid ++ cj :: post)) w') (hw : w.sessions = ∅)
    (h0 : ci.Accepted cfg → ci.before.Sound → Message.sessionKey ci.req = key →
      ∀ s, (ci.after cfg).sessions.lookup key = some s → R [] s)
    (hstep : ∀ past x later s s', mid = past ++ x :: later → x.Exchange cfg s s' →
      x.before.Sound → x.before.sessions.lookup key = some s → R past s → R (past ++ [x]) s') :
    cj.Accepted cfg ∧ cj.before.Sound ∧ ∃ s s', Nonempty (cj.Exchange cfg s s') ∧
      cj.before.sessions.lookup key = some s ∧ R mid s := by
  have hci : ci ∈ pre ++ ci :: (mid ++ cj :: post) := by simp
  have hsound := (hr.run.sound (World.sound_of_empty hw) hr.accepted).2 ci hci
  have hex := fun x (hx : x ∈ mid ++ cj :: post) => hr.exchange hw (mem_tail_of_later hx)
  obtain ⟨v,hmid,hv⟩ := hr.run.later.split
  have hPv := (hmid.history (P := fun past w => ∀ s, w.sessions.lookup key = some s → R past s) []
    (h0 (hr.accepted ci hci) hsound (hr.key ci hci))
    (fun _ => .of_queue fun _ _ h => h) (by
      intro past x later he hP t ht
      obtain ⟨hacc,hsd,hkey,s,s',⟨e⟩⟩ := hex x (by simp [he])
      have hst := e.stored
      have hafter := e.lookup_after hacc hsd
      rw [hkey] at hst hafter
      rw [ht] at hafter
      rcases hafter with h | h
      · cases h
      cases h
      exact hstep past x later s t he e hsd hst (hP s hst))).1
  obtain ⟨hPj,-⟩ := hv.head (P := fun w => ∀ s, w.sessions.lookup key = some s → R mid s) hPv
    (.of_queue fun _ _ h => h)
  obtain ⟨hacc,hsd,hkey,s,s',⟨e⟩⟩ := hex cj (by simp)
  have hst := hkey ▸ e.stored
  exact ⟨hacc,hsd,s,s',⟨e⟩,hst,hPj s hst⟩

theorem Call.Exchange.sends (x : c.Exchange cfg s s') (h : c.Sends cfg key id) :
    ∃ a : Answered cfg c.req x.entered c.before s' (c.after cfg) x.reply,
      CanSend c.req a.filed a.reads id := by
  obtain ⟨m,sess,cmd,hm,hsess,-,hk,hl⟩ := h
  rw [x.replied] at hm
  rw [x.final] at hsess
  cases hsess
  have hr : x.reply = some m := by simpa using hm
  by_cases ht : c.Trusted cfg
  · obtain ⟨a⟩ := x.answered ht
    rw [hk,a.reply_msgID x.isEntered hr] at hl
    exact ⟨a,a.canSend x.isEntered hl⟩
  obtain ⟨outcome,⟨ch⟩⟩ := x.challenged ht
  rw [hk,ch.reply_msgID x.isEntered hr,(ch.keeps x.isEntered).1] at hl
  have hlt : x.entered.serverMsgID < x.entered.clientMsgID := by
    have := x.isEntered.server
    omega
  exact absurd rfl ((x.isEntered.sent _ _ hl).ne_of_lt hlt)

theorem Call.Exchange.awaits (x : c.Exchange cfg s s') (hs : s.Sound (Message.sessionKey c.req))
    (hn : c.Trusted cfg → ∀ st ∈ c.req.body.statuses, statusKey st = k →
      s.Shadowed c.req.body.statuses st) (hk : s.sent.lookup k = some id) :
    s'.sent.lookup k = some id := by
  have hup : KeyUpTo x.entered.serverMsgID k := by
    rw [x.resumed.serverMsgID]
    exact hs.sent k id hk
  have hk' : x.entered.sent.lookup k = some id := by rw [x.resumed.alike.sent]; exact hk
  by_cases ht : c.Trusted cfg
  · obtain ⟨a⟩ := x.answered ht
    rw [a.sent_earlier x.isEntered hup,a.filedBy.sent,fileStatuses_sent_shadowed,a.taking.sent]
    · exact hk'
    intro st hst he
    have h := hn ht st hst he
    unfold Session.Shadowed at h ⊢
    rwa [a.taking.children,x.resumed.alike.children]
  · obtain ⟨outcome,⟨ch⟩⟩ := x.challenged ht
    rw [(ch.keeps x.isEntered).1]
    exact hk'

/-- A Status on `k` is filed for the command, unless a group member has the key. -/
theorem Call.Exchange.files_status (x : c.Exchange cfg s s')
    (hs : s.Sound (Message.sessionKey c.req))
    (a : Answered cfg c.req x.entered c.before s' (c.after cfg) x.reply) (hn : c.Names k)
    (hk : s.sent.lookup k = some id) (hc : s.children.lookup k = none) :
    (a.filed.pendingOf id).status ≠ none := by
  obtain ⟨st,hst,hkey⟩ := hn
  rw [Session.pendingOf_congr a.filedBy.results]
  refine fileStatuses_files hst hkey ?_ ?_ ?_
  · intro y _ hy
    exact KeyUpTo.cmdRef_ne (hy ▸ hs.sent k id hk)
  · rw [a.taking.children,x.resumed.alike.children]
    exact hc
  · rw [a.taking.sent,x.resumed.alike.sent]
    exact hk

theorem Call.Exchange.settles (x : c.Exchange cfg s s') (hs : s.Sound (Message.sessionKey c.req))
    (ht : c.Trusted cfg) (hn : c.Names k) (hk : s.sent.lookup k = some id)
    (hq : c.Quiet cfg s k id) :
    (∀ o, s'.outgoing = some o → o.commandID ≠ id) ∧
    (c.after cfg).queue.Done s'.deviceID id ∧ ∀ k', ¬c.Sends cfg k' id := by
  obtain ⟨a⟩ := x.answered ht
  have hno : ∀ a : Answered cfg c.req x.entered c.before s' (c.after cfg) x.reply,
      ¬CanSend c.req a.filed a.reads id := fun a => hq.not_canSend a x.resumed
  refine ⟨?_,?_,fun k' h => ?_⟩
  · intro o ho hid
    rcases a.outgoing x.isEntered ho with ⟨o',ho',he⟩ | hc
    · rw [x.resumed.alike.outgoing] at ho'
      exact hq.notInFlight o' ho' (he.trans hid)
    · exact hno a (hid ▸ hc)
  · rw [(a.final_key x.isEntered).2]
    exact a.settled (x.files_status hs a hn hk hq.noMember)
  · obtain ⟨a',hc⟩ := x.sends h
    exact hno a' hc

theorem Call.Exchange.stays_past (x : c.Exchange cfg s s')
    (ho : ∀ o, s.outgoing = some o → o.commandID ≠ id)
    (hd : c.before.queue.Done s.deviceID id) :
    (∀ o, s'.outgoing = some o → o.commandID ≠ id) ∧
    (c.after cfg).queue.Done s'.deviceID id ∧ ∀ k', ¬c.Sends cfg k' id := by
  have hno : ∀ a : Answered cfg c.req x.entered c.before s' (c.after cfg) x.reply,
      ¬CanSend c.req a.filed a.reads id := by
    intro a
    have hdev : a.filed.deviceID = s.deviceID := a.filed_deviceID.trans x.resumed.deviceID
    have hout : a.filed.outgoing = s.outgoing := a.filedFrom.outgoing.trans x.resumed.alike.outgoing
    rintro (⟨-,o,next,rest,hx,hid⟩ | ⟨-,-,-,qc,hqc,hid⟩)
    · exact ho o (hout ▸ (Session.nextChunk_outgoing hx).1) hid
    · rw [hdev] at hqc
      exact (hd.grows a.grows.toGrows).not_deliverable 256 qc (List.mem_filter.mp hqc).1 hid
  refine ⟨?_,?_,fun k' h => ?_⟩
  · intro o hso hid
    by_cases ht : c.Trusted cfg
    · obtain ⟨a⟩ := x.answered ht
      rcases a.outgoing x.isEntered hso with ⟨o',ho',he⟩ | hc
      · rw [x.resumed.alike.outgoing] at ho'
        exact ho o' ho' (he.trans hid)
      · exact hno a (hid ▸ hc)
    · obtain ⟨outcome,⟨ch⟩⟩ := x.challenged ht
      rw [(ch.keeps x.isEntered).2.1,x.resumed.alike.outgoing] at hso
      exact ho o hso hid
  · rw [x.deviceID]
    by_cases ht : c.Trusted cfg
    · obtain ⟨a⟩ := x.answered ht
      exact a.done hd
    · obtain ⟨outcome,⟨ch⟩⟩ := x.challenged ht
      exact ch.done x.isEntered hd
  · obtain ⟨a,hc⟩ := x.sends h
    exact hno a hc

end Steps

theorem World.past_operated (key id : GoString) : Operated (World.Past key id) where
  enqueue _ _ _ _ := fun ⟨s,hs,ho,hd⟩ => ⟨s,hs,ho,hd.grows (Queue.enqueue_grows _ _ _ _)⟩
  cancel _ dev ids time := fun ⟨s,hs,ho,hd⟩ => ⟨s,hs,ho,hd.cancel dev ids time⟩
  prune _ _ _ _ hidle := by
    rintro ⟨s,hs,ho,hd⟩
    refine ⟨s,hs,ho,?_⟩
    unfold Queue.Done at hd ⊢
    rwa [hidle key s hs]

namespace Sample

def policyWorld : World := world [replace "policy" "./Vendor/MSFT/Policy" "on"]

def policyAnswer : Message :=
  request "2" [status "1" "1" "0" "SyncHdr" "200",status "2" "1" "4" "Replace" "200"]

def uploadItem (data : Syncml.Data) (size : Int) (moreData : Bool) : Item where
  source := "./DevDetail/SwV"
  metinf := some { size := size }
  data := some data
  moreData := moreData

def uploadOf (cmdRef : GoString) (items : List Item) : Syncml.Command :=
  .results { cmdID := "3", msgRef := "1", cmdRef := cmdRef, items := items }

def uploadRequests : List Message :=
  [packageOne,
    request "2" (policyAnswer.body.commands ++ [uploadOf "5" [uploadItem { value := "10" } 4 true]]),
    request "3" [status "1" "2" "0" "SyncHdr" "200",
      uploadOf "5" [uploadItem { value := ".0" } 0 false]]]

end Sample

section Run
variable {cfg : Config} {key k id : GoString} {c : Call} {s s' : Session}

/-- From the delivery on: the session is gone, waits for the answer, or has it. -/
def World.Follows (key k id : GoString) (w : World) : Prop :=
  w.sessions.lookup key = none ∨ w.Awaits key k id ∨ w.Past key id

def World.Answered (key id : GoString) (w : World) : Prop :=
  w.sessions.lookup key = none ∨ w.Past key id

theorem World.answered_operated (key id : GoString) : Operated (World.Answered key id) :=
  .or (.of_queue fun _ _ h => h) (World.past_operated key id)

theorem World.follows_operated (key k id : GoString) : Operated (World.Follows key k id) :=
  .or (.of_queue fun _ _ h => h) (.or (.of_queue fun _ _ h => h) (World.past_operated key id))

theorem Call.Exchange.past (x : c.Exchange cfg s s') (hacc : c.Accepted cfg) (hw : c.before.Sound)
    (h : c.before.Past (Message.sessionKey c.req) id) :
    (c.after cfg).Answered (Message.sessionKey c.req) id ∧ ∀ k', ¬c.Sends cfg k' id := by
  obtain ⟨t,ht,ho,hd⟩ := h
  rw [x.stored] at ht
  cases ht
  obtain ⟨ho',hd',hno⟩ := x.stays_past ho hd
  refine ⟨?_,hno⟩
  rcases x.lookup_after hacc hw with h | h
  · exact .inl h
  · exact .inr ⟨s',h,ho',hd'⟩

theorem Call.Exchange.answers (x : c.Exchange cfg s s') (hacc : c.Accepted cfg)
    (hw : c.before.Sound) (ht : c.Trusted cfg) (hn : c.Names k) (hq : c.Quiet cfg s k id)
    (h : c.before.Follows (Message.sessionKey c.req) k id) :
    (c.after cfg).Answered (Message.sessionKey c.req) id ∧ ∀ k', ¬c.Sends cfg k' id := by
  rcases h with h | ⟨t,hst,hk⟩ | h
  · rw [x.stored] at h; cases h
  · rw [x.stored] at hst
    cases hst
    obtain ⟨ho',hd',hno⟩ := x.settles (hw _ _ x.stored) ht hn hk hq
    refine ⟨?_,hno⟩
    rcases x.lookup_after hacc hw with h | h
    · exact .inl h
    · exact .inr ⟨s',h,ho',hd'⟩
  · exact x.past hacc hw h

theorem Call.Exchange.follows (x : c.Exchange cfg s s') (hacc : c.Accepted cfg)
    (hw : c.before.Sound) (hq : c.Trusted cfg → c.Names k → c.Quiet cfg s k id)
    (h : c.before.Follows (Message.sessionKey c.req) k id) :
    (c.after cfg).Follows (Message.sessionKey c.req) k id := by
  by_cases hn : c.Trusted cfg ∧ c.Names k
  · exact (x.answers hacc hw hn.1 hn.2 (hq hn.1 hn.2) h).1.imp_right .inr
  rcases h with h | ⟨t,hst,hk⟩ | h
  · rw [x.stored] at h; cases h
  · rw [x.stored] at hst
    cases hst
    have hk' := x.awaits (hw _ _ x.stored)
      (fun ht st hst he => absurd ⟨ht,st,hst,he⟩ hn) hk
    rcases x.lookup_after hacc hw with h | h
    · exact .inl h
    · exact .inr (.inl ⟨s',h,hk'⟩)
  · exact (x.past hacc hw h).1.imp_right .inr

/-- A command that went out under `k` and is answered by a trusted message goes out neither with
the reply to it nor later, when every message with a Status on `k` is quiet. -/
theorem answered_command_not_resent {w w' : World} {pre mid post : List Call} {ci cj : Call}
    (hr : SessionRun cfg key w (pre ++ ci :: (mid ++ cj :: post)) w') (hw : w.sessions = ∅)
    (hsent : ci.Sends cfg k id) (ht : cj.Trusted cfg) (hn : cj.Names k)
    (hq : ∀ x ∈ mid ++ [cj], x.Trusted cfg → x.Names k →
      ∀ s, x.before.sessions.lookup key = some s → x.Quiet cfg s k id) :
    ∀ x ∈ cj :: post, ∀ k', ¬x.Sends cfg k' id := by
  have htail : ∀ x ∈ mid ++ cj :: post, x ∈ (pre ++ ci :: (mid ++ cj :: post)).tail :=
    fun x => mem_tail_of_later
  have hci : ci ∈ pre ++ ci :: (mid ++ cj :: post) := by simp
  have hrest := hr.run.later
  have h0 : (ci.after cfg).Follows key k id := by
    have h := hsent.awaits (hr.accepted ci hci)
      ((hr.run.sound (World.sound_of_empty hw) hr.accepted).2 ci hci)
    rw [hr.key ci hci] at h
    exact h.imp_right .inl
  obtain ⟨v,hmid,hv⟩ := hrest.split
  have hPv : v.Follows key k id := by
    refine (hmid.invariant h0 (World.follows_operated key k id) ?_).1
    intro x hx hP
    obtain ⟨hacc,hs,hkey,s,s',⟨e⟩⟩ := hr.exchange hw (htail x (List.mem_append_left _ hx))
    rw [← hkey] at hP ⊢
    exact e.follows hacc hs
      (fun ht hn => hq x (List.mem_append_left _ hx) ht hn s (hkey ▸ e.stored)) hP
  obtain ⟨hPj,hpost⟩ := hv.head hPv (World.follows_operated key k id)
  obtain ⟨hacc,hs,hkey,s,s',⟨e⟩⟩ := hr.exchange hw (htail cj (by simp))
  rw [← hkey] at hPj
  obtain ⟨hans,hno⟩ := e.answers hacc hs ht hn (hq cj (by simp) ht hn s (hkey ▸ e.stored)) hPj
  rw [hkey] at hans
  -- from here on the command is past
  have hpast := (hpost.invariant hans (World.answered_operated key id) (by
      intro x hx hP
      obtain ⟨hacc,hs,hkey,s,s',⟨e⟩⟩ := hr.exchange hw (htail x (by simp [hx]))
      rw [← hkey] at hP ⊢
      rcases hP with h | h
      · rw [e.stored] at h; cases h
      · exact (e.past hacc hs h).1)).2
  intro x hx
  rcases List.mem_cons.mp hx with rfl | hx
  · exact hno
  obtain ⟨hacc,hs,hkey,s,s',⟨e⟩⟩ := hr.exchange hw (htail x (by simp [hx]))
  have hP := hpast x hx
  rw [← hkey] at hP
  rcases hP with h | h
  · rw [e.stored] at h; cases h
  · exact (e.past hacc hs h).2

end Run

set_option maxRecDepth 4000

/-- The setting is not made again when its Status comes with half of an upload. -/
theorem answered_command_not_resent_upload : ∃ ci cj ck w',
    SessionRun Sample.cfg Sample.key Sample.policyWorld [ci,cj,ck] w' ∧
    ci.Sends Sample.cfg "1/4" "policy" ∧ cj.Names "1/4" ∧
    ∀ x ∈ [cj,ck], ∀ k, ¬x.Sends Sample.cfg k "policy" := by
  obtain ⟨w',h⟩ := sessionRun_callsOf Sample.cfg Sample.env (some Sample.transport)
    Sample.policyWorld Sample.uploadRequests Sample.key (by decide +kernel)
  refine ⟨_,_,_,w',h,by decide +kernel,by decide +kernel,?_⟩
  refine @answered_command_not_resent Sample.cfg Sample.key "1/4" "policy" _ _ [] [] _ _ _ h rfl
    (by decide +kernel) (by decide +kernel) (by decide +kernel) ?_
  intro x hx _ _
  rw [List.mem_singleton.mp hx]
  decide +kernel

/-- The reply to the Status of a setting makes the setting once more. -/
theorem answered_command_resent : ∃ (w w' : World) (ci cj : Call),
    SessionRun Sample.cfg Sample.key w [ci,cj] w' ∧ w.sessions = ∅ ∧
    ci.Sends Sample.cfg "1/4" "policy" ∧
    ((ci.out Sample.cfg).sess.all fun s => s.outgoing.isNone) = true ∧
    cj.Trusted Sample.cfg ∧ cj.Names "1/4" ∧ cj.Sends Sample.cfg "2/2" "policy" := by
  obtain ⟨w',h⟩ := sessionRun_callsOf Sample.cfg Sample.env (some Sample.transport)
    Sample.policyWorld [Sample.packageOne,Sample.policyAnswer] Sample.key (by decide +kernel)
  exact ⟨_,w',_,_,h,rfl,by decide +kernel,by decide +kernel,by decide +kernel,
    ⟨_,.tail _ (.head _),by decide +kernel⟩,by decide +kernel⟩

end MicrosoftDM.Mdm
