import MicrosoftDM.SessionRuns

set_option autoImplicit false

namespace MicrosoftDM.Mdm
open MicrosoftDM.Syncml (Item Status Message)

def numberFrom : Nat → List Syncml.Command → List Syncml.Command
  | _, [] => []
  | n, c :: cs => assignID (itoa (n+1 : Nat)) c :: numberFrom (n+1) cs

variable {cid i k : GoString} {w wk wk' : Work} {qc : QueuedCommand} {kind : Syncml.GroupKind}
  {nr : Bool} {m mi : Option Syncml.Meta} {cs : List Syncml.Command} {c : Syncml.Command} {n : Int}
  {through : List QueuedCommand} {q q' : Queue}

section Members
variable {msgID parent : GoString} {next : Nat} {cs : List Syncml.Command} {children : GoMap GoString}

theorem mapMembers_fst : (mapMembers msgID parent next cs children).1 = numberFrom next cs := by
  induction cs generalizing next children with
  | nil => rfl
  | cons c cs ih =>
    simp only [mapMembers,numberFrom]
    rw [ih]

theorem mapMembers_lookup (j : Nat) :
    (mapMembers msgID parent next cs children).2.lookup (joinSlash msgID (itoa j)) =
      if next < j ∧ j ≤ next+cs.length then some parent
      else children.lookup (joinSlash msgID (itoa j)) := by
  induction cs generalizing next children with
  | nil =>
    rw [if_neg (by simp only [List.length_nil]; omega)]
    rfl
  | cons c cs ih =>
    simp only [mapMembers]
    rw [ih]
    by_cases hj : j = next+1
    · subst hj
      rw [if_neg (by omega),if_pos (by simp only [List.length_cons]; omega),AList.lookup_insert]
    have hk : joinSlash msgID (itoa j) ≠ joinSlash msgID (itoa (next+1 : Nat)) := by
      intro he
      have := joinSlash_itoa_inj he
      omega
    rw [AList.lookup_insert_ne hk]
    have hc : (next+1 < j ∧ j ≤ next+1+cs.length) ↔ (next < j ∧ j ≤ next+(c :: cs).length) := by
      simp only [List.length_cons]
      omega
    simp only [hc]

theorem mapMembers_lookup_ne (h : ∀ c, k ≠ joinSlash msgID c) :
    (mapMembers msgID parent next cs children).2.lookup k = children.lookup k := by
  induction cs generalizing next children with
  | nil => rfl
  | cons c cs ih =>
    simp only [mapMembers]
    rw [ih,AList.lookup_insert_ne (h _)]

theorem mapMembers_size
    (h : ∀ j : Nat, next < j → children.lookup (joinSlash msgID (itoa j)) = none) :
    GoMap.size (mapMembers msgID parent next cs children).2 = GoMap.size children+cs.length := by
  induction cs generalizing next children with
  | nil => rfl
  | cons c cs ih =>
    simp only [mapMembers]
    rw [ih,GoMap.size_insert_of_notMem _
      (GoMap.notMem_of_lookup_none (h (next+1) (by omega))),List.length_cons]
    · omega
    intro j hj
    rw [AList.lookup_insert_ne]
    · exact h j (by omega)
    intro he
    have := joinSlash_itoa_inj he
    omega

end Members

def Work.sentBody (w : Work) (qc : QueuedCommand) : Syncml.Command :=
  (mapChildren { w.sess with sent := w.sess.sent.insert w.sentKey qc.id } w.resp.header.msgID qc.id
    (w.bodyFor qc)).1

def Work.memberBase (w : Work) (qc : QueuedCommand) : Nat :=
  Mdm.memberBase { w.sess with sent := w.sess.sent.insert w.sentKey qc.id }

theorem Work.memberBase_le (w : Work) (qc : QueuedCommand) :
    Mdm.memberBase w.sess ≤ w.memberBase qc := by
  have := GoMap.size_le_insert w.sess.sent w.sentKey qc.id
  simp only [Work.memberBase,Mdm.memberBase]
  omega

theorem prepare_group (n : Int) (kind : Syncml.GroupKind) (i : GoString) (nr : Bool)
    (m : Option Syncml.Meta) (cs : List Syncml.Command) :
    prepare n (.group kind i nr m cs) = (.group kind i nr m cs,[]) := by
  rcases prepare_cases n (.group kind i nr m cs) with h | ⟨v,b,it,first,next,rest,hb,-⟩
  · exact h
  · cases hb

theorem prepare_leaf (n : Int) (v : Syncml.Verb) (b : Syncml.Leaf) :
    ∃ items, (prepare n (.leaf v b)).1 = .leaf v { b with items := items } := by
  rcases prepare_cases n (.leaf v b) with h | ⟨v',b',it,first,next,rest,hb,-,-,h⟩
  · exact ⟨b.items,by rw [h]⟩
  · cases hb
    exact ⟨[first],by rw [h]⟩

theorem Work.send_group
    (h : qc.command.body = .group kind i nr m cs) :
    w.sentBody qc = .group kind (itoa (w.ids+1)) nr m (numberFrom (w.memberBase qc) cs) ∧
    (w.send qc).sess.children =
      (mapMembers w.resp.header.msgID qc.id (w.memberBase qc) cs w.sess.children).2 := by
  have hb : w.bodyFor qc = .group kind (itoa (w.ids+1)) nr m cs := by
    unfold bodyFor
    rw [h,prepare_group]
    rfl
  refine ⟨?_,?_⟩
  · unfold sentBody
    rw [hb]
    simp only [mapChildren]
    rw [mapMembers_fst]
    rfl
  · rw [Work.send_sess,hb]
    rfl

theorem Work.send_leaf {v : Syncml.Verb} {b : Syncml.Leaf}
    (h : qc.command.body = .leaf v b) :
    (∃ items, w.sentBody qc = .leaf v { b with items := items, cmdID := itoa (w.ids+1) }) ∧
    (w.send qc).sess.children = w.sess.children := by
  obtain ⟨items,hp⟩ := prepare_leaf w.sess.maxObjSize v b
  have hb : w.bodyFor qc = .leaf v { b with items := items, cmdID := itoa (w.ids+1) } := by
    unfold bodyFor
    rw [h,hp]
    rfl
  refine ⟨⟨items,?_⟩,?_⟩
  · unfold sentBody
    rw [hb]
    rfl
  · rw [Work.send_sess,hb]
    rfl

def Assignable (c : Syncml.Command) : Prop :=
  (∃ v b, c = .leaf v b) ∨ ∃ kind i nr m cs, c = .group kind i nr m cs

theorem Assignable.id_assignID (h : Assignable c) (id : GoString) :
    (assignID id c).id = id := by
  rcases h with ⟨v,b,rfl⟩ | ⟨kind,i,nr,m,cs,rfl⟩
  · rfl
  · rfl

/-- What the queue accepts is a leaf command, or a group whose members are one or the other. -/
theorem validate_body {c : Command} (h : validate c = none) :
    (∃ v b, c.body = .leaf v b) ∨ ∃ kind i nr m cs, c.body = .group kind i nr m cs ∧
      ∀ x ∈ cs, Assignable x := by
  have hl := validate_leaves_isLeaf h
  cases hb : c.body with
  | leaf v b => exact .inl ⟨v,b,rfl⟩
  | alert _ | status _ | results _ => rw [hb] at hl; cases hl _ (List.mem_singleton_self _)
  | group kind i nr m cs =>
    refine .inr ⟨kind,i,nr,m,cs,rfl,?_⟩
    rw [hb] at hl
    intro x hx
    have hsub : ∀ y ∈ leaves x, isLeaf y = true := by
      intro y hy
      refine hl y ?_
      simp only [leaves,leavesAll_eq_flatMap]
      exact List.mem_flatMap.mpr ⟨x,hx,hy⟩
    cases x with
    | leaf v b => exact .inl ⟨v,b,rfl⟩
    | group kind i nr m ys => exact .inr ⟨kind,i,nr,m,ys,rfl⟩
    | alert _ | status _ | results _ => cases hsub _ (List.mem_singleton_self _)

/-- No member of the message `n` has a number above the sizes of the maps. -/
def Work.MembersBelow (n : Int) (w : Work) : Prop :=
  ∀ j : Nat, Mdm.memberBase w.sess < j →
    w.sess.children.lookup (joinSlash (itoa n) (itoa j)) = none

/-- The members that later deliveries number come after those of earlier ones. -/
structure Work.MembersKept (n : Int) (w w' : Work) : Prop where
  below : w'.MembersBelow n
  mono : Mdm.memberBase w.sess ≤ Mdm.memberBase w'.sess
  kept : ∀ j : Nat, j ≤ Mdm.memberBase w.sess →
    w'.sess.children.lookup (joinSlash (itoa n) (itoa j)) =
      w.sess.children.lookup (joinSlash (itoa n) (itoa j))

theorem Work.memberBase_send_group (hn : w.resp.header.msgID = itoa n) (hm : w.MembersBelow n)
    (h : qc.command.body = .group kind i nr m cs) :
    Mdm.memberBase (w.send qc).sess = w.memberBase qc+cs.length := by
  have hle := w.memberBase_le qc
  have hsize : GoMap.size (w.send qc).sess.children = GoMap.size w.sess.children+cs.length := by
    rw [(Work.send_group h).2,hn]
    exact mapMembers_size fun j hj => hm j (by omega)
  have hsent : (w.send qc).sess.sent = w.sess.sent.insert w.sentKey qc.id := by rw [Work.send_sess]
  simp only [Mdm.memberBase,hsize,hsent,Work.memberBase]
  omega

theorem Work.send_members
    (hn : w.resp.header.msgID = itoa n) (hm : w.MembersBelow n)
    (hv : validate qc.command = none) : w.MembersKept n (w.send qc) := by
  have hle := w.memberBase_le qc
  rcases validate_body hv with ⟨v,b,hb⟩ | ⟨kind,i,nr,m,cs,hb,-⟩
  · have hc := (Work.send_leaf (w := w) hb).2
    have hbase : Mdm.memberBase (w.send qc).sess = w.memberBase qc := by
      have hsent : (w.send qc).sess.sent = w.sess.sent.insert w.sentKey qc.id := by
        rw [Work.send_sess]
      simp only [Mdm.memberBase,hc,hsent,Work.memberBase]
    exact ⟨fun j hj => by rw [hc]; exact hm j (by omega),by omega,fun j _ => by rw [hc]⟩
  · have hbase := Work.memberBase_send_group hn hm hb
    have hlook : ∀ j : Nat, (w.send qc).sess.children.lookup (joinSlash (itoa n) (itoa j)) =
        if w.memberBase qc < j ∧ j ≤ w.memberBase qc+cs.length then some qc.id
        else w.sess.children.lookup (joinSlash (itoa n) (itoa j)) := by
      intro j
      rw [(Work.send_group hb).2,hn]
      exact mapMembers_lookup j
    refine ⟨fun j hj => ?_,by omega,fun j hj => ?_⟩
    · rw [hlook,if_neg (by omega)]
      exact hm j (by omega)
    · rw [hlook,if_neg (by omega)]

theorem foldl_send_members
    (hn : w.resp.header.msgID = itoa n) (hm : w.MembersBelow n)
    (hv : ∀ qc ∈ through, validate qc.command = none) :
    w.MembersKept n (through.foldl Work.send w) := by
  induction through generalizing w with
  | nil => exact ⟨hm,Nat.le_refl _,fun _ _ => rfl⟩
  | cons qc rest ih =>
    have h₁ := Work.send_members hn hm (hv qc List.mem_cons_self)
    have h₂ := ih (w := w.send qc) hn h₁.below fun x hx => hv x (List.mem_cons_of_mem qc hx)
    refine ⟨h₂.below,Nat.le_trans h₁.mono h₂.mono,fun j hj => ?_⟩
    exact (h₂.kept j (Nat.le_trans hj h₁.mono)).trans (h₁.kept j hj)

theorem foldl_send_children_ne
    (h : ∀ c, k ≠ joinSlash w.resp.header.msgID c) :
    (through.foldl Work.send w).sess.children.lookup k = w.sess.children.lookup k := by
  induction through generalizing w with
  | nil => rfl
  | cons qc rest ih =>
    rw [List.foldl_cons,ih (by rw [Work.send_header]; exact h),Work.send_sess]
    cases hb : w.bodyFor qc with
    | group kind i nr m cs => exact mapMembers_lookup_ne h
    | leaf _ _ | alert _ | status _ | results _ => rfl

theorem foldl_send_sent_old {n : Int} {w : Work} {through : List QueuedCommand} (hn : w.Numbered n)
    {j : Nat} (hj : j ≤ w.ids) :
    (through.foldl Work.send w).sess.sent.lookup (joinSlash (itoa n) (itoa j)) =
      w.sess.sent.lookup (joinSlash (itoa n) (itoa j)) := by
  induction through generalizing w with
  | nil => rfl
  | cons qc rest ih =>
    rw [List.foldl_cons,ih (hn.send qc) (by rw [Work.send_ids]; omega),Work.send_sess,hn.sentKey]
    refine AList.lookup_insert_ne fun he => ?_
    have := joinSlash_itoa_inj he
    omega

def sentBodies : Work → List QueuedCommand → List Syncml.Command
  | _, [] => []
  | w, qc :: rest => w.sentBody qc :: sentBodies (w.send qc) rest

theorem foldl_send_commands (w : Work) (through : List QueuedCommand) :
    (through.foldl Work.send w).resp.body.commands =
      w.resp.body.commands ++ sentBodies w through := by
  induction through generalizing w with
  | nil => simp [sentBodies]
  | cons qc rest ih =>
    rw [List.foldl_cons,ih,Work.send_commands,List.append_assoc]
    rfl

def Work.chunkCommand (w : Work) (next : Item) : Syncml.Command :=
  .leaf .replace { cmdID := itoa (w.ids+1), items := [next] }

theorem Work.sendChunk_commands (w : Work) (o : Outgoing) (next : Item) (rest : List Item) :
    (w.sendChunk o next rest).resp.body.commands =
      w.resp.body.commands ++ [w.chunkCommand next] := by
  unfold Work.sendChunk
  dsimp only
  split <;> rfl

def Work.moreCommands (w : Work) : List Syncml.Command :=
  [.status
      { cmdID := itoa (w.ids+1), msgRef := itoa w.sess.clientMsgID, cmdRef := "0",
        cmd := Syncml.cmdResults, data := { value := itoa Syncml.statusChunkedItemAccepted } },
    .alert { cmdID := itoa (w.ids+1+1 : Nat), data := itoa Syncml.alertNextMessage }]

theorem Work.askForMore_commands (w : Work) :
    w.askForMore.resp.body.commands = w.resp.body.commands ++ w.moreCommands := by
  simp [Work.askForMore,Work.moreCommands]

theorem mem_foldl_send
    (h : c ∈ (through.foldl Work.send w).resp.body.commands) :
    c ∈ w.resp.body.commands ∨ ∃ pre qc post, through = pre ++ qc :: post ∧
      c = (pre.foldl Work.send w).sentBody qc := by
  induction through generalizing w with
  | nil => exact .inl h
  | cons qc rest ih =>
    rcases ih h with h | ⟨pre,x,post,he,hc⟩
    · rw [Work.send_commands] at h
      rcases List.mem_append.mp h with h | h
      · exact .inl h
      · exact .inr ⟨[],qc,rest,rfl,List.mem_singleton.mp h⟩
    · exact .inr ⟨qc :: pre,x,post,by rw [he]; rfl,hc⟩

def ackStatuses (req : Message) (sess : Session) : Nat → List Syncml.Command → List Status
  | _, [] => []
  | n, .status _ :: cs => ackStatuses req sess n cs
  | n, .results _ :: cs => ackStatuses req sess n cs
  | n, .alert a :: cs => alertStatus sess a (itoa (n+1 : Nat)) :: ackStatuses req sess (n+1) cs
  | n, c :: cs =>
    Syncml.statusFor req c (itoa (n+1 : Nat)) Syncml.statusOK :: ackStatuses req sess (n+1) cs

theorem Work.ackAll_reply {cfg : Config} {req : Message} {sess : Session} {w w' : Work}
    {cs : List Syncml.Command} (h : w.ackAll cfg req cs = .ok w')
    (hs : w.sess.clientMsgID = sess.clientMsgID) :
    w'.resp.body.commands =
      w.resp.body.commands ++ (ackStatuses req sess w.ids cs).map Syncml.Command.status ∧
    w'.ids = w.ids+(ackStatuses req sess w.ids cs).length := by
  induction cs generalizing w with
  | nil => cases h; simp [ackStatuses]
  | cons c cs ih =>
    simp only [ackAll] at h
    cases hc : w.ack cfg req c with
    | error e => simp [hc] at h
    | ok w₁ =>
      rw [hc] at h
      have hcl : w₁.sess.clientMsgID = sess.clientMsgID :=
        (Session.take_taking (Work.ack_sess hc)).steady.clientMsgID.trans hs
      obtain ⟨h₁,h₂⟩ := ih h hcl
      rw [h₁,h₂]
      cases c with
      | status s => cases hc; exact ⟨rfl,rfl⟩
      | results res =>
        simp only [ack] at hc
        split at hc
        · cases hc; exact ⟨rfl,rfl⟩
        · cases hc
      | alert a =>
        cases hc
        have ha : ∀ cid, alertStatus w.sess a cid = alertStatus sess a cid := by
          intro cid
          unfold alertStatus
          rw [hs]
        simp only [ackAlert,setSess,reply,ackStatuses,ha]
        constructor
        · simp
        · simp only [List.length_cons]; omega
      | leaf _ _ | group _ _ _ _ _ =>
        cases hc
        simp only [reply,ackStatuses]
        constructor
        · simp
        · simp only [List.length_cons]; omega

theorem numberFrom_ids (h : ∀ c ∈ cs, Assignable c) (n : Nat) :
    (numberFrom n cs).map Syncml.Command.id =
      (List.range' (n+1) cs.length).map fun j : Nat => itoa j := by
  induction cs generalizing n with
  | nil => rfl
  | cons c cs ih =>
    simp only [numberFrom,List.map_cons,List.length_cons,List.range'_succ]
    rw [ih (fun x hx => h x (List.mem_cons_of_mem c hx)),
      (h c List.mem_cons_self).id_assignID]

theorem mem_range'_itoa {n len : Nat} {x : GoString}
    (h : x ∈ (List.range' (n+1) len).map fun j : Nat => itoa j) :
    ∃ j : Nat, x = itoa j ∧ n < j ∧ j ≤ n+len := by
  obtain ⟨j,hj,rfl⟩ := List.mem_map.mp h
  have := List.mem_range'_1.mp hj
  exact ⟨j,rfl,by omega,by omega⟩

theorem nodup_range'_itoa (n len : Nat) : ((List.range' n len).map fun j : Nat => itoa j).Nodup := by
  refine List.Nodup.map ?_ List.nodup_range'
  intro i j h
  have := itoa_injective h
  omega

/-- A group in the reply: the queued command it delivers, its entry in `Sent`
and the entries of its members in `Children`. -/
structure GroupSent (n : Int) (w : Work) (cid : GoString) (cs : List Syncml.Command) (id : GoString) :
    Prop where
  sent : w.sess.sent.lookup (joinSlash (itoa n) cid) = some id
  members : ∀ x ∈ cs, w.sess.children.lookup (joinSlash (itoa n) x.id) = some id
  distinct : (cs.map Syncml.Command.id).Nodup

theorem Work.send_groupSent
    {post : List QueuedCommand} (hn : w.Numbered n) (hm : w.MembersBelow n)
    (hv : validate qc.command = none) (hpost : ∀ x ∈ post, validate x.command = none)
    (h : w.sentBody qc = .group kind cid nr m cs) :
    GroupSent n (post.foldl Work.send (w.send qc)) cid cs qc.id := by
  rcases validate_body hv with ⟨v,b,hb⟩ | ⟨kind',i,nr',m',cs₀,hb,hcs⟩
  · obtain ⟨items,hs⟩ := (Work.send_leaf (w := w) hb).1
    rw [hs] at h
    cases h
  obtain ⟨hs,hch⟩ := Work.send_group (w := w) hb
  rw [hs] at h
  cases h
  have hids := numberFrom_ids hcs (w.memberBase qc)
  have hkeep := foldl_send_members (hn.send qc).msgID
    (Work.send_members hn.msgID hm hv).below hpost
  refine ⟨?_,?_,by rw [hids]; exact nodup_range'_itoa _ _⟩
  · have := @foldl_send_sent_old n (w.send qc) post (hn.send qc) (w.ids+1) (Nat.le_refl _)
    rw [show ((w.ids : Int)+1) = ((w.ids+1 : Nat) : Int) from rfl,this,Work.send_sess,hn.sentKey]
    exact AList.lookup_insert _
  intro x hx
  obtain ⟨j,hj,h₁,h₂⟩ := mem_range'_itoa (hids ▸ List.mem_map_of_mem hx)
  rw [hj,hkeep.kept j (by rw [Work.memberBase_send_group hn.msgID hm hb]; exact h₂),hch,hn.msgID,
    mapMembers_lookup,if_pos ⟨h₁,h₂⟩]

section Answering
variable {cfg : Config} {req : Message} {s s' : Session} {w w' : World} {reply : Option Message}

theorem Answered.acked_reply (a : Answered cfg req s w s' w' reply) :
    a.acked.resp.body.commands = .status (Syncml.statusForHeader req (itoa 1) Syncml.statusOK) ::
      (ackStatuses req s 1 req.body.commands).map Syncml.Command.status ∧
    a.acked.ids = 1+(ackStatuses req s 1 req.body.commands).length :=
  @Work.ackAll_reply cfg req s _ _ _ a.isAcked rfl

theorem Answered.membersBelow (a : Answered cfg req s w s' w' reply) (hs : s.Entered req) :
    (a.acked.setSess (·.filed req)).MembersBelow s.clientMsgID := by
  intro j _
  cases hl : (a.acked.setSess (·.filed req)).sess.children.lookup
      (joinSlash (itoa s.clientMsgID) (itoa j)) with
  | none => rfl
  | some id =>
    have hk := hs.children _ _ (a.filedFrom.children _ _ hl)
    have hlt : s.serverMsgID < s.clientMsgID := by
      have := hs.server
      omega
    exact absurd rfl (hk.ne_of_lt hlt)

theorem Delivered.valid {sess : Session} {dev : GoString} {limit : Int} (hd : Delivered sess (q.deliverable dev limit) through) :
    ∀ qc ∈ through, validate qc.command = none := by
  intro qc hqc
  have hm := (List.mem_filter.mp (hd.initial.subset hqc)).1
  exact (q.valid _ qc (Queue.mem_deliverable hm).1).1

theorem Built.group_sent (hb : Built cfg req wk q wk' q')
    (hn : wk.Numbered n) (hm : wk.MembersBelow n)
    (hold : Syncml.Command.group kind cid nr mi cs ∉ wk.resp.body.commands)
    (hc : Syncml.Command.group kind cid nr mi cs ∈ wk'.resp.body.commands) :
    ∃ id, GroupSent n wk' cid cs id := by
  cases hb with
  | closing h => exact absurd hc hold
  | upload h₁ h₂ h₃ =>
    simp [Work.askForMore] at hc
    exact absurd hc hold
  | chunk h₁ h₂ h₃ =>
    unfold Work.sendChunk at hc
    dsimp only at hc
    split at hc <;> simp at hc <;> exact absurd hc hold
  | deliver h₁ h₂ h₃ hd hall hq =>
    rcases mem_foldl_send hc with hc | ⟨pre,qc,post,he,hc⟩
    · exact absurd hc hold
    have hv := hd.valid
    rw [he] at hv ⊢
    have hpost : ∀ x ∈ post, validate x.command = none := fun x hx => hv x (by simp [hx])
    have hg := Work.send_groupSent (foldl_send_sent hn pre).1
      (foldl_send_members hn.msgID hm fun x hx => hv x (List.mem_append_left _ hx)).below
      (hv qc (by simp)) hpost hc.symm
    refine ⟨qc.id,?_⟩
    rw [List.foldl_append,List.foldl_cons]
    exact ⟨hg.sent,hg.members,hg.distinct⟩

theorem Built.children_ne (hb : Built cfg req wk q wk' q') (h : ∀ c, k ≠ joinSlash wk.resp.header.msgID c) :
    wk'.sess.children.lookup k = wk.sess.children.lookup k := by
  cases hb with
  | closing _ | upload _ _ _ => rfl
  | chunk h₁ h₂ h₃ =>
    unfold Work.sendChunk
    dsimp only
    split <;> rfl
  | deliver h₁ h₂ h₃ hd hall hq => exact foldl_send_children_ne h

theorem Answered.children_earlier (a : Answered cfg req s w s' w' reply) (hs : s.Entered req) (hk : KeyUpTo s.serverMsgID k) :
    s'.children.lookup k = a.filed.children.lookup k := by
  obtain ⟨r,he⟩ := a.final hs
  have hlt : s.serverMsgID < s.clientMsgID := by
    have := hs.server
    omega
  refine (congrArg (·.children.lookup k) he).trans (a.isBuilt.children_ne ?_)
  intro c
  rw [(a.numbered hs).msgID]
  exact hk.ne_of_lt hlt

theorem Answered.group_sent (a : Answered cfg req s w s' w' reply) (hs : s.Entered req)
    {m : Message} (hr : reply = some m)
    (hc : Syncml.Command.group kind cid nr mi cs ∈ m.body.commands) :
    ∃ id, GroupSent s.clientMsgID a.built cid cs id := by
  have hm : m = a.built.resp := by
    rcases a.finished.reply with ⟨hn,-⟩ | hn
    · rw [hn] at hr; cases hr
    · rw [hn] at hr; cases hr; rfl
  refine a.isBuilt.group_sent (a.numbered hs) (a.membersBelow hs) ?_ (hm ▸ hc)
  change _ ∉ a.acked.resp.body.commands
  rw [a.acked_reply.1]
  simp

end Answering

end MicrosoftDM.Mdm
