import MicrosoftDM.AnsweredCommands
import MicrosoftDM.ReplyCommands

set_option autoImplicit false

namespace MicrosoftDM.Mdm
open MicrosoftDM.Syncml (Status Message)

/-- The keys under which a client answers the leaf members, at any depth, of a
group in the message `msgID`. -/
def leafKeys (msgID : GoString) (cs : List Syncml.Command) : List GoString :=
  (leavesAll cs).map fun c => joinSlash msgID c.id

variable {cs : List Syncml.Command} {c : Call}

theorem leavesAll_of_isLeaf (h : ∀ c ∈ cs, isLeaf c = true) :
    leavesAll cs = cs := by
  induction cs with
  | nil => rfl
  | cons c cs ih =>
    have hc := h c List.mem_cons_self
    rw [leavesAll,ih fun x hx => h x (List.mem_cons_of_mem c hx)]
    cases c with
    | leaf v b => rfl
    | group _ _ _ _ _ | alert _ | status _ | results _ => cases hc

/-- The reply of the call carries the queued group `id` under `k`, with the members `cs`. -/
def Call.SendsGroup (c : Call) (cfg : Config) (k id msgID : GoString) (cs : List Syncml.Command) :
    Prop :=
  ∃ m sess kind cid nr mi, (c.out cfg).reply = .ok (some m) ∧ (c.out cfg).sess = some sess ∧
    Syncml.Command.group kind cid nr mi cs ∈ m.body.commands ∧ m.header.msgID = msgID ∧
    k = joinSlash msgID cid ∧ sess.sent.lookup k = some id

def Call.sentGroup (c : Call) (cfg : Config) (k id : GoString) :
    Option (GoString × List Syncml.Command) :=
  match (c.out cfg).reply,(c.out cfg).sess with
  | .ok (some m),some sess =>
    m.body.commands.findSome? fun cmd =>
      match cmd with
      | .group _ cid _ _ cs =>
        if k = joinSlash m.header.msgID cid ∧ sess.sent.lookup k = some id then
          some (m.header.msgID,cs)
        else none
      | _ => none
  | _,_ => none

theorem Call.sentGroup_some {cfg : Config} {k id msgID : GoString} (h : c.sentGroup cfg k id = some (msgID,cs)) :
    c.SendsGroup cfg k id msgID cs := by
  unfold sentGroup at h
  split at h
  · rename_i m sess hm hs
    obtain ⟨cmd,hcmd,hf⟩ := List.exists_of_findSome?_eq_some h
    cases cmd with
    | group kind cid nr mi ys =>
      dsimp only at hf
      split at hf
      · rename_i hk
        cases hf
        exact ⟨m,sess,kind,cid,nr,mi,hm,hs,hcmd,rfl,hk.1,hk.2⟩
      · cases hf
    | leaf _ _ | alert _ | status _ | results _ => cases hf
  · cases h

def Call.statusesOn (c : Call) (keys : List GoString) : List Status :=
  c.req.body.statuses.filter fun st => statusKey st ∈ keys

def statusesOn (keys : List GoString) (calls : List Call) : List Status :=
  calls.flatMap (·.statusesOn keys)

theorem statusesOn_snoc (keys : List GoString) (past : List Call) (c : Call) :
    statusesOn keys (past ++ [c]) = statusesOn keys past ++ c.statusesOn keys := by
  simp [statusesOn]

theorem fileStatuses_members {s : Session} {sts : List Status} {keys : List GoString} {id : GoString}
    (h0 : ∀ st ∈ sts, statusKey st ∈ keys → st.cmdRef ≠ utf8 "0")
    (hin : ∀ st ∈ sts, statusKey st ∈ keys → s.children.lookup (statusKey st) = some id)
    (hd : ((sts.filter fun st => statusKey st ∈ keys).map statusKey).Nodup)
    (hout : ∀ st ∈ sts, s.children.lookup (statusKey st) = some id → statusKey st ∈ keys) :
    ((fileStatuses s sts).pendingOf id).children =
      (s.pendingOf id).children ++ (sts.filter fun st => statusKey st ∈ keys).map childResult := by
  induction sts generalizing s with
  | nil => simp [fileStatuses]
  | cons x xs ih =>
    have hfil := fileStatus_filing s x
    have h0' := fun y hy => h0 y (List.mem_cons_of_mem x hy)
    have hout' : ∀ y ∈ xs, (fileStatus s x).children.lookup (statusKey y) = some id →
        statusKey y ∈ keys :=
      fun y hy hl => hout y (List.mem_cons_of_mem x hy) (hfil.children _ _ hl)
    have hne : ∀ y ∈ xs, statusKey y ∈ keys → statusKey y ≠ statusKey x := by
      intro y hy hk he
      rw [List.filter_cons,if_pos (by simpa using (he ▸ hk : statusKey x ∈ keys)),List.map_cons,
        List.nodup_cons] at hd
      exact hd.1 (List.mem_map.mpr ⟨y,List.mem_filter.mpr ⟨hy,by simpa using hk⟩,he⟩)
    have hin' : ∀ y ∈ xs, statusKey y ∈ keys →
        (fileStatus s x).children.lookup (statusKey y) = some id := by
      intro y hy hk
      rw [fileStatus_children_ne (hne y hy hk)]
      exact hin y (List.mem_cons_of_mem x hy) hk
    have hd' : ((xs.filter fun st => statusKey st ∈ keys).map statusKey).Nodup :=
      hd.sublist ((List.sublist_cons_self x xs).filter _ |>.map _)
    have hrest := ih h0' hin' hd' hout'
    change ((fileStatuses (fileStatus s x) xs).pendingOf id).children = _
    rw [hrest,pendingOf_fileStatus]
    by_cases hx : statusKey x ∈ keys
    · have ht : s.statusTarget x = .member id := by
        unfold Session.statusTarget
        rw [if_neg (h0 x List.mem_cons_self hx),hin x List.mem_cons_self hx]
      rw [ht,List.filter_cons,if_pos (by simpa using hx)]
      simp [PendingResult.withChild]
    · rw [List.filter_cons,if_neg (by simpa using hx)]
      congr 1
      cases ht : s.statusTarget x with
      | ignored => rfl
      | command y =>
        dsimp only
        split
        · rename_i he; rw [he]; rfl
        · rfl
      | member p =>
        dsimp only
        split
        · rename_i he
          subst he
          exact absurd (hout x List.mem_cons_self (Session.statusTarget_member ht)) hx
        · rfl

/-- Before the call, with `s` the stored session: the request speaks of the
group `id` only under `k`, and of its members only under `keys`. -/
structure Call.Tallies (c : Call) (s : Session) (k id : GoString) (keys : List GoString) : Prop where
  noMember : s.children.lookup k = none
  statuses : ∀ st ∈ c.req.body.statuses, s.sent.lookup (statusKey st) = some id → statusKey st = k
  members : ∀ st ∈ c.req.body.statuses,
    s.children.lookup (statusKey st) = some id → statusKey st ∈ keys

instance (c : Call) (s : Session) (k id : GoString) (keys : List GoString) :
    Decidable (c.Tallies s k id keys) :=
  decidable_of_iff (s.children.lookup k = none ∧
    (∀ st ∈ c.req.body.statuses, s.sent.lookup (statusKey st) = some id → statusKey st = k) ∧
    ∀ st ∈ c.req.body.statuses, s.children.lookup (statusKey st) = some id → statusKey st ∈ keys)
    ⟨fun ⟨h₁,h₂,h₃⟩ => ⟨h₁,h₂,h₃⟩,fun h => ⟨h.noMember,h.statuses,h.members⟩⟩

/-- The session has the Statuses `got` on members of the group `id`, and waits
for the rest of `keys`. -/
structure Session.Gathering (id : GoString) (keys : List GoString) (got : List Status) (s : Session) :
    Prop where
  children : (s.pendingOf id).children = got.map childResult
  waits : ∀ k ∈ keys, k ∉ got.map statusKey → s.children.lookup k = some id

section Steps
variable {cfg : Config} {c : Call} {s s' : Session} {k id : GoString} {keys : List GoString}
  {got : List Status}

theorem Call.Exchange.gathered (x : c.Exchange cfg s s') (hsound : s.Sound (Message.sessionKey c.req))
    (a : Answered cfg c.req x.entered c.before s' (c.after cfg) x.reply)
    (hs : c.Tallies s k id keys) (h : s.Gathering id keys got)
    (hd : ((got ++ c.statusesOn keys).map statusKey).Nodup) :
    a.filed.Gathering id keys (got ++ c.statusesOn keys) := by
  have hch : a.acked.sess.children = s.children := a.taking.children.trans x.resumed.alike.children
  rw [List.map_append,List.nodup_append] at hd
  have hin : ∀ st ∈ c.req.body.statuses, statusKey st ∈ keys →
      s.children.lookup (statusKey st) = some id := by
    intro st hst hk
    have hm : statusKey st ∈ (c.statusesOn keys).map statusKey :=
      List.mem_map_of_mem (List.mem_filter.mpr ⟨hst,by simpa using hk⟩)
    exact h.waits _ hk fun hg => hd.2.2 _ hg _ hm rfl
  refine ⟨?_,?_⟩
  · rw [Session.pendingOf_congr a.filedBy.results,@fileStatuses_members _ _ keys id]
    · obtain ⟨items,hp⟩ := a.taking.pending id
      rw [hp,x.resumed.alike.pendingOf,List.map_append]
      exact congrArg (· ++ _) h.children
    · intro st hst hk
      exact KeyUpTo.cmdRef_ne (hsound.children _ _ (hin st hst hk))
    · intro st hst hk
      rw [hch]
      exact hin st hst hk
    · exact hd.2.1
    intro st hst hl
    rw [hch] at hl
    exact hs.members st hst hl
  · intro mk hmk hn
    rw [List.map_append,List.mem_append,not_or] at hn
    rw [a.filedBy.children,fileStatuses_children_ne,hch]
    · exact h.waits mk hmk hn.1
    intro st hst he
    exact hn.2 (List.mem_map.mpr
      ⟨st,List.mem_filter.mpr ⟨hst,by simpa using (he ▸ hmk : statusKey st ∈ keys)⟩,he.symm⟩)

theorem Call.Exchange.gathers (x : c.Exchange cfg s s') (hsound : s.Sound (Message.sessionKey c.req))
    (ht : c.Trusted cfg) (hn : ¬c.Names k) (hs : c.Tallies s k id keys)
    (h : s.Gathering id keys got) (hd : ((got ++ c.statusesOn keys).map statusKey).Nodup) :
    s'.Gathering id keys (got ++ c.statusesOn keys) := by
  obtain ⟨a⟩ := x.answered ht
  have hfiled := x.gathered hsound a hs h hd
  have hnone : (a.filed.pendingOf id).status = none := by
    obtain ⟨cs,hp⟩ := @fileStatuses_other a.acked.sess c.req.body.statuses id (by
      intro st hst hl
      rw [a.taking.sent,x.resumed.alike.sent] at hl
      exact hn ⟨st,hst,hs.statuses st hst hl⟩)
    rw [Session.pendingOf_congr a.filedBy.results,hp]
    exact (a.taking.status id).trans (x.isEntered.unanswered id)
  refine ⟨?_,?_⟩
  · rw [a.pendingOf_final,if_pos hnone]
    exact hfiled.children
  intro mk hmk hnot
  have hl := hfiled.waits mk hmk hnot
  rw [a.children_earlier x.isEntered (x.isEntered.children _ _ (a.filedFrom.children _ _ hl))]
  exact hl

def Call.StoresGroup (c : Call) (cfg : Config) (id : GoString) (st : Status)
    (children : List ChildResult) : Prop :=
  ∃ sess qc r, (c.out cfg).sess = some sess ∧ qc ∈ (c.after cfg).queue.commands sess.deviceID ∧
    qc.id = id ∧ qc.result = some r ∧ r.status = st.code ∧ r.children = children

theorem Call.Exchange.storesGroup (x : c.Exchange cfg s s')
    (hsound : s.Sound (Message.sessionKey c.req)) (ht : c.Trusted cfg)
    (hk : s.sent.lookup k = some id) {st : Status}
    (hst : c.req.body.statuses.filter (fun y => statusKey y = k) = [st])
    (hs : c.Tallies s k id keys) (h : s.Gathering id keys got)
    (hd : ((got ++ c.statusesOn keys).map statusKey).Nodup) :
    c.StoresGroup cfg id st ((got ++ c.statusesOn keys).map childResult) := by
  obtain ⟨a⟩ := x.answered ht
  have hfiled := x.gathered hsound a hs h hd
  have hkey : statusKey st = k := by
    have hm : st ∈ c.req.body.statuses.filter (fun y => statusKey y = k) := by rw [hst]; simp
    simpa using (List.mem_filter.mp hm).2
  have hsent : a.acked.sess.sent = s.sent := a.taking.sent.trans x.resumed.alike.sent
  have hstatus : (a.filed.pendingOf id).status = some st.code := by
    rw [Session.pendingOf_congr a.filedBy.results]
    refine fileStatuses_only hst (KeyUpTo.cmdRef_ne (hkey ▸ hsound.sent k id hk)) ?_ ?_ ?_
    · rw [a.taking.children,x.resumed.alike.children]
      exact hs.noMember
    · rw [hsent]; exact hk
    · rw [hsent]; exact fun y hy hl => .inl (hs.statuses y hy hl)
  obtain ⟨qc,hqc,hqid,⟨now,hres⟩,-⟩ := a.stored hstatus
  refine ⟨s',qc,_,x.final,?_,hqid,hres,rfl,hfiled.children⟩
  rw [(a.final_key x.isEntered).2]
  exact hqc

end Steps

section Run
variable {cfg : Config} {key k id msgID : GoString} {cs : List Syncml.Command}

theorem Call.SendsGroup.gathering (h : c.SendsGroup cfg k id msgID cs)
    (hacc : c.Accepted cfg) (hw : c.before.Sound) (hflat : ∀ x ∈ cs, isLeaf x = true)
    (hfresh : ∀ s, (c.after cfg).sessions.lookup (Message.sessionKey c.req) = some s →
      (s.pendingOf id).children = []) :
    (∀ s, (c.after cfg).sessions.lookup (Message.sessionKey c.req) = some s →
      s.sent.lookup k = some id ∧ s.Gathering id (leafKeys msgID cs) []) ∧
    (leafKeys msgID cs).Nodup := by
  obtain ⟨m,sess,kind,cid,nr,mi,hr,hsess,hc,hm,hk,hl⟩ := h
  obtain ⟨reply,hreply⟩ := hacc
  have hrm : reply = some m := by
    rw [hreply] at hr
    simpa using hr
  obtain ⟨t,ht,hafter⟩ := Call.stored_after ⟨reply,hreply⟩ hw
  rw [hsess] at ht
  cases ht
  obtain ⟨a⟩ := serve_accepted hreply
  have hs := (a.sound hw).1
  have hfin : a.sess' = sess := by
    have := a.final
    rw [show (serve cfg c.env c.transport c.req c.before).1.sess = some sess from hsess] at this
    simpa using this.symm
  by_cases ho : a.outcome = .trusted
  · obtain ⟨x⟩ := a.answered ho
    obtain ⟨r,he⟩ := x.final hs
    obtain ⟨id',hg⟩ := x.group_sent hs hrm hc
    have he := hfin.symm.trans he
    have hmsg : msgID = itoa a.sess.clientMsgID := hm.symm.trans (x.reply_msgID hs hrm)
    have hid : id' = id := by
      have := hg.sent
      rw [← hmsg,← hk] at this
      rw [he,this] at hl
      simpa using hl
    have hleaf : leafKeys msgID cs = cs.map fun y => joinSlash msgID y.id := by
      unfold leafKeys
      rw [leavesAll_of_isLeaf hflat]
    rw [hleaf]
    refine ⟨?_,?_⟩
    · intro s hls
      rcases hafter with h | h
      · rw [hls] at h; cases h
      rw [hls] at h
      cases h
      refine ⟨hl,hfresh _ hls,?_⟩
      intro mk hmk _
      obtain ⟨y,hy,rfl⟩ := List.mem_map.mp hmk
      rw [he,hmsg,← hid]
      exact hg.members y hy
    have hinj : Function.Injective (joinSlash msgID) := by
      intro p q hpq
      exact (List.cons.inj (List.append_cancel_left hpq)).2
    have := hg.distinct.map hinj
    rwa [List.map_map] at this
  · obtain ⟨x⟩ := a.challenged ho
    rcases x.finished.reply with ⟨hn,-⟩ | hn
    · rw [hn] at hrm; cases hrm
    rw [hn] at hrm
    cases hrm
    simp [Work.challenge,startWork,Work.reply,Syncml.newResponse] at hc

/-- The answer to a group without nested groups is stored whole by the message with the Status on
it, when the Statuses on all members have come by then, each once. -/
theorem group_answer_stored {w w' : World} {pre mid : List Call} {ci cj : Call} {st : Status}
    (hr : SessionRun cfg key w (pre ++ ci :: (mid ++ [cj])) w') (hw : w.sessions = ∅)
    (hsent : ci.SendsGroup cfg k id msgID cs) (ht : ∀ x ∈ mid ++ [cj], x.Trusted cfg)
    (hn : ∀ x ∈ mid, ¬x.Names k)
    (hst : cj.req.body.statuses.filter (fun y => statusKey y = k) = [st])
    (hmembers : ((statusesOn (leafKeys msgID cs) (mid ++ [cj])).map statusKey).Perm
      (leafKeys msgID cs))
    (hflat : ∀ x ∈ cs, isLeaf x = true)
    (hfresh : ∀ s, (ci.after cfg).sessions.lookup key = some s → (s.pendingOf id).children = [])
    (hs : ∀ x ∈ mid ++ [cj], ∀ s, x.before.sessions.lookup key = some s →
      x.Tallies s k id (leafKeys msgID cs)) :
    cj.StoresGroup cfg id st
      ((statusesOn (leafKeys msgID cs) (mid ++ [cj])).map childResult) := by
  have hci : ci ∈ pre ++ ci :: (mid ++ [cj]) := by simp
  have hsound := (hr.run.sound (World.sound_of_empty hw) hr.accepted).2 ci hci
  obtain ⟨h0,hkeys⟩ := hsent.gathering (hr.accepted ci hci) hsound hflat
    (by rw [hr.key ci hci]; exact hfresh)
  have hd := hmembers.nodup_iff.mpr hkeys
  rw [statusesOn_snoc] at hd ⊢
  -- the session waits under `k` and has gathered what the calls reported
  obtain ⟨hacc,hsd,s,s',⟨e⟩,hl,hk,hgat⟩ := hr.kept hw
    (R := fun past s => s.sent.lookup k = some id ∧
      s.Gathering id (leafKeys msgID cs) (statusesOn (leafKeys msgID cs) past))
    (fun _ _ hkey s hl => h0 s (hkey ▸ hl))
    (by
      rintro past x later s s' he e hsd hl ⟨hk,hgat⟩
      have hx : x ∈ mid := by simp [he]
      have hin := List.mem_append_left [cj] hx
      have hso := hsd _ _ e.stored
      have hsplit : statusesOn (leafKeys msgID cs) mid = statusesOn (leafKeys msgID cs) past ++
          x.statusesOn (leafKeys msgID cs) ++ statusesOn (leafKeys msgID cs) later := by
        rw [he]
        simp [statusesOn]
      have hdx := hd.sublist (List.Sublist.map statusKey (List.sublist_append_left _ _))
      rw [hsplit] at hdx
      refine ⟨e.awaits hso (fun _ st hst he => absurd ⟨st,hst,he⟩ (hn x hx)) hk,?_⟩
      rw [statusesOn_snoc]
      exact e.gathers hso (ht x hin) (hn x hx) (hs x hin s hl) hgat
        (hdx.sublist (List.Sublist.map statusKey (List.sublist_append_left _ _))))
  exact e.storesGroup (hsd _ _ e.stored) (ht cj (by simp)) hk hst (hs cj (by simp) s hl) hgat hd

end Run

namespace Sample

def sequence (id : GoString) (cmds : List Command) : Command where
  id := id
  scope := .device
  body := .group .sequence [] false none (cmds.map Command.body)

def groupWorld : World :=
  world [sequence "group" [replace [] "./Vendor/MSFT/A" "1",replace [] "./Vendor/MSFT/B" "2"]]

def memberStatus (cmdID cmdRef : GoString) : Syncml.Command := status cmdID "1" cmdRef "Replace" "200"

def groupStatus : Status where
  cmdID := "2"
  msgRef := "1"
  cmdRef := "4"
  cmd := "Sequence"
  data := { value := "200" }

def groupRequests : List Message :=
  [packageOne,request "2" [status "1" "1" "0" "SyncHdr" "200",memberStatus "2" "1003"],
    request "3" [status "1" "2" "0" "SyncHdr" "200",.status groupStatus,memberStatus "3" "1002"]]

def lateMember : List Message :=
  [packageOne,
    request "2" [status "1" "1" "0" "SyncHdr" "200",.status groupStatus,memberStatus "3" "1002"],
    request "3" [status "1" "2" "0" "SyncHdr" "200",memberStatus "2" "1003"]]

def memberKeys : List GoString := ["1/1002","1/1003"]

def groupCall : Call where
  before := groupWorld
  env := env
  transport := some transport
  req := packageOne

end Sample

set_option maxRecDepth 4000

theorem Sample.groupCall_sends : ∃ cs, groupCall.SendsGroup cfg "1/4" "group" "1" cs ∧
    (∀ x ∈ cs, isLeaf x = true) ∧ leafKeys "1" cs = memberKeys := by
  obtain ⟨⟨_,cs⟩,hg,rfl,hflat,hkeys⟩ : ∃ p, groupCall.sentGroup cfg "1/4" "group" = some p ∧
      p.1 = utf8 "1" ∧ (∀ x ∈ p.2, isLeaf x = true) ∧ leafKeys p.1 p.2 = memberKeys := by
    decide +kernel
  exact ⟨cs,Call.sentGroup_some hg,hflat,hkeys⟩

/-- The group of two settings, answered over two messages. -/
theorem group_answer_stored_members : ∃ c₁ c₂ c₃ w' cs,
    SessionRun Sample.cfg Sample.key Sample.groupWorld [c₁,c₂,c₃] w' ∧
    c₁.SendsGroup Sample.cfg "1/4" "group" "1" cs ∧ leafKeys "1" cs = Sample.memberKeys ∧
    c₃.StoresGroup Sample.cfg "group" Sample.groupStatus
      ((statusesOn (leafKeys "1" cs) [c₂,c₃]).map childResult) := by
  obtain ⟨w',h⟩ := sessionRun_callsOf Sample.cfg Sample.env (some Sample.transport)
    Sample.groupWorld Sample.groupRequests Sample.key (by decide +kernel)
  obtain ⟨cs,hg,hflat,hkeys⟩ := Sample.groupCall_sends
  refine ⟨_,_,_,w',cs,h,hg,hkeys,?_⟩
  refine @group_answer_stored Sample.cfg Sample.key "1/4" "group" "1" cs _ _ [] [_] _ _ _ h rfl
    hg (by decide +kernel) (by decide +kernel) (by decide +kernel) ?_ hflat
    (by decide +kernel) ?_
  · rw [hkeys]
    decide +kernel
  · rw [hkeys]
    decide +kernel

/-- A Status on a member that comes after the one on its group is not in the answer. -/
theorem group_answer_without_member : ∃ c₁ c₂ c₃ w' cs,
    SessionRun Sample.cfg Sample.key Sample.groupWorld [c₁,c₂,c₃] w' ∧
    c₁.SendsGroup Sample.cfg "1/4" "group" "1" cs ∧ (∀ x ∈ cs, isLeaf x = true) ∧
    (∀ x ∈ [c₂,c₃], x.Trusted Sample.cfg) ∧ c₂.Names "1/4" ∧
    ((statusesOn (leafKeys "1" cs) [c₂,c₃]).map statusKey).Perm (leafKeys "1" cs) ∧
    ((c₃.after Sample.cfg).queue.get "dev" "group").map
      (fun qc => qc.result.map fun r => r.children.length) = some (some 1) := by
  obtain ⟨w',h⟩ := sessionRun_callsOf Sample.cfg Sample.env (some Sample.transport)
    Sample.groupWorld Sample.lateMember Sample.key (by decide +kernel)
  obtain ⟨cs,hg,hflat,hkeys⟩ := Sample.groupCall_sends
  refine ⟨_,_,_,w',cs,h,hg,hflat,by decide +kernel,by decide +kernel,?_,
    by decide +kernel⟩
  rw [hkeys]
  decide +kernel

end MicrosoftDM.Mdm
