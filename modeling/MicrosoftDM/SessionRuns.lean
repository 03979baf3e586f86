import MicrosoftDM.Filing

set_option autoImplicit false

namespace MicrosoftDM.Mdm
open MicrosoftDM.Syncml (Item Status Message)

def KeyUpTo (n : Int) (k : GoString) : Prop :=
  ∃ i j, k = joinSlash (itoa i) (itoa j) ∧ i ≤ n ∧ 1 ≤ j

def KeysUpTo (n : Int) (m : GoMap GoString) : Prop := ∀ k id, m.lookup k = some id → KeyUpTo n k

variable {n : Int}

variable {n' : Int} {k : GoString} {w : Work} {id : Identity} {q q' : Queue} {outcome : AuthOutcome}
  {reply : Option Message} {P : World → Prop}

theorem KeyUpTo.mono (h : KeyUpTo n k) (hn : n ≤ n') : KeyUpTo n' k := by
  obtain ⟨i,j,hk,hi,hj⟩ := h
  exact ⟨i,j,hk,by omega,hj⟩

variable {m : GoMap GoString}

theorem KeysUpTo.mono (h : KeysUpTo n m) (hn : n ≤ n') :
    KeysUpTo n' m := fun k id hk => (h k id hk).mono hn

theorem KeysUpTo.empty (n : Int) : KeysUpTo n ∅ := by
  intro k id h
  simp at h

theorem KeysUpTo.sub {m' : GoMap GoString} (h : KeysUpTo n m)
    (hs : ∀ k id, m'.lookup k = some id → m.lookup k = some id) : KeysUpTo n m' :=
  fun k id hk => h k id (hs k id hk)

theorem KeysUpTo.insert {j : Int} (h : KeysUpTo n m) (hj : 1 ≤ j) (id : GoString) :
    KeysUpTo n (m.insert (joinSlash (itoa n) (itoa j)) id) := by
  intro k v hk
  rcases GoMap.lookup_insert_cases hk with ⟨he,-⟩ | ⟨-,hk⟩
  · exact ⟨n,j,he,Int.le_refl n,hj⟩
  · exact h k v hk

theorem KeyUpTo.ne_of_lt {i : Int} {c : GoString} (h : KeyUpTo i k) (hi : i < n) :
    k ≠ joinSlash (itoa n) c := by
  obtain ⟨j,d,hk,hj,-⟩ := h
  intro he
  have := joinSlash_inj (slash_not_mem_itoa j) (slash_not_mem_itoa n) (hk.symm.trans he)
  have := itoa_injective this.1
  omega

theorem KeyUpTo.cmdRef_ne {st : Status} (h : KeyUpTo n (statusKey st)) :
    st.cmdRef ≠ utf8 "0" := by
  obtain ⟨i,j,hk,-,hj⟩ := h
  intro h0
  have hb := (joinSlash_eq_itoa hk).2
  rw [h0,show utf8 "0" = itoa 0 from by decide] at hb
  have := itoa_injective hb
  omega

structure Work.Numbered (n : Int) (w : Work) : Prop where
  msgID : w.resp.header.msgID = itoa n
  low : minInt ≤ n
  high : n ≤ maxInt
  sent : KeysUpTo n w.sess.sent
  children : KeysUpTo n w.sess.children

theorem Work.Numbered.atoi (h : w.Numbered n) : atoiValue w.resp.header.msgID = n := by
  rw [h.msgID,atoiValue_itoa h.low h.high]

theorem Work.Numbered.sentKey (h : w.Numbered n) :
    w.sentKey = joinSlash (itoa n) (itoa (w.ids+1)) := by
  unfold Work.sentKey
  rw [h.atoi]

theorem mapMembers_keys {id : GoString} {next : Nat} {cs : List Syncml.Command}
    {children : GoMap GoString} (h : KeysUpTo n children) :
    KeysUpTo n (mapMembers (itoa n) id next cs children).2 := by
  induction cs generalizing next children with
  | nil => exact h
  | cons c cs ih => exact ih (h.insert (by omega) id)

theorem Work.Numbered.send {n : Int} (h : w.Numbered n) (qc : QueuedCommand) :
    (w.send qc).Numbered n where
  msgID := h.msgID
  low := h.low
  high := h.high
  sent := by
    rw [Work.send_sess,h.sentKey]
    exact h.sent.insert (by omega) _
  children := by
    rw [Work.send_sess]
    cases hb : w.bodyFor qc with
    | group k i nr m cs =>
      simp only [mapChildren,h.msgID]
      exact mapMembers_keys h.children
    | leaf _ _ | alert _ | status _ | results _ => exact h.children

theorem foldl_send_sent (h : w.Numbered n) (through : List QueuedCommand) :
    (through.foldl Work.send w).Numbered n ∧
    (∀ k id, (through.foldl Work.send w).sess.sent.lookup k = some id →
      w.sess.sent.lookup k = some id ∨
      (∃ c, k = joinSlash (itoa n) c) ∧ ∃ qc ∈ through, qc.id = id) ∧
    (∀ k, (∀ c, k ≠ joinSlash (itoa n) c) →
      (through.foldl Work.send w).sess.sent.lookup k = w.sess.sent.lookup k) := by
  induction through generalizing w with
  | nil => exact ⟨h,fun k id hk => .inl hk,fun k _ => rfl⟩
  | cons qc rest ih =>
    obtain ⟨hn,hs,hk⟩ := ih (h.send qc)
    have hsent : (w.send qc).sess.sent =
        w.sess.sent.insert (joinSlash (itoa n) (itoa (w.ids+1))) qc.id := by
      rw [Work.send_sess,h.sentKey]
    refine ⟨hn,?_,?_⟩
    · intro k id hl
      rcases hs k id hl with hl | ⟨hc,x,hx,hid⟩
      · rw [hsent] at hl
        rcases GoMap.lookup_insert_cases hl with ⟨he,hv⟩ | ⟨-,hl⟩
        · exact .inr ⟨⟨_,he⟩,qc,List.mem_cons_self,hv.symm⟩
        · exact .inl hl
      · exact .inr ⟨hc,x,List.mem_cons_of_mem _ hx,hid⟩
    · intro k hne
      rw [List.foldl_cons,hk k hne,hsent,AList.lookup_insert_ne (hne _)]

theorem Work.Numbered.sendChunk (h : w.Numbered n) (o : Outgoing) (next : Item)
    (rest : List Item) : (w.sendChunk o next rest).Numbered n := by
  have hs : KeysUpTo n (w.sess.sent.insert (joinSlash w.resp.header.msgID (itoa (w.ids+1)))
      o.commandID) := by
    rw [h.msgID]
    exact h.sent.insert (by omega) _
  unfold Work.sendChunk
  dsimp only
  split
  · exact ⟨h.msgID,h.low,h.high,hs,h.children⟩
  · exact ⟨h.msgID,h.low,h.high,hs,h.children⟩

def AsksForChunk (req : Message) : Prop :=
  Syncml.isNextMessageRequest req = true ∧ req.body.statuses.length ≤ 1

instance (req : Message) : Decidable (AsksForChunk req) :=
  inferInstanceAs (Decidable (_ ∧ _))

/-- A command that completing the reply can send: the object in flight, or a
command the queue offers and the scope gate admits. -/
def CanSend (req : Message) (sess : Session) (q : Queue) (id : GoString) : Prop :=
  (AsksForChunk req ∧ ∃ o next rest, sess.nextChunk = some (o,next,rest) ∧ o.commandID = id) ∨
  sess.closed = false ∧ sess.uploadPending = false ∧ (AsksForChunk req → sess.nextChunk = none) ∧
    ∃ qc ∈ admitted sess.facts (q.deliverable sess.deviceID 256), qc.id = id

variable {cfg : Config} {req : Message}

theorem Built.numbered {w' : Work} (hb : Built cfg req w q w' q')
    (h : w.Numbered n) : w'.Numbered n ∧
    (∀ k id, w'.sess.sent.lookup k = some id →
      w.sess.sent.lookup k = some id ∨
      (∃ c, k = joinSlash (itoa n) c) ∧ CanSend req w.sess q id) ∧
    (∀ k, (∀ c, k ≠ joinSlash (itoa n) c) → w'.sess.sent.lookup k = w.sess.sent.lookup k) := by
  cases hb with
  | closing hc => exact ⟨⟨h.msgID,h.low,h.high,h.sent,h.children⟩,fun k id hk => .inl hk,fun _ _ => rfl⟩
  | upload hc hn hu =>
    exact ⟨⟨h.msgID,h.low,h.high,h.sent,h.children⟩,fun k id hk => .inl hk,fun _ _ => rfl⟩
  | chunk hc hn ho =>
    rename_i o next rest
    have hsent : (w.sendChunk o next rest).sess.sent =
        w.sess.sent.insert (joinSlash (itoa n) (itoa (w.ids+1))) o.commandID := by
      rw [← h.msgID]
      unfold Work.sendChunk
      dsimp only
      split <;> rfl
    refine ⟨h.sendChunk o next rest,?_,?_⟩
    · intro k id hl
      rw [hsent] at hl
      rcases GoMap.lookup_insert_cases hl with ⟨he,hv⟩ | ⟨-,hl⟩
      · exact .inr ⟨⟨_,he⟩,.inl ⟨hn,o,next,rest,ho,hv.symm⟩⟩
      · exact .inl hl
    · intro k hne
      rw [hsent,AList.lookup_insert_ne (hne _)]
  | deliver hc hn hu hd hall hq =>
    rename_i through
    obtain ⟨hnum,hs,hk⟩ := foldl_send_sent h through
    refine ⟨⟨hnum.msgID,hnum.low,hnum.high,hnum.sent,hnum.children⟩,?_,hk⟩
    intro k id hl
    rcases hs k id hl with hl | ⟨hc',qc,hqc,hid⟩
    · exact .inl hl
    · exact .inr ⟨hc',.inr ⟨hc,hu,hn,qc,hd.initial.subset hqc,hid⟩⟩

/-- What holds of a session in the store under `key` between two messages. -/
structure Session.Sound (key : GoString) (s : Session) : Prop where
  key : s.key = key
  msgID : s.serverMsgID = s.clientMsgID
  pos : 1 ≤ s.clientMsgID
  bound : s.clientMsgID ≤ maxInt
  sent : KeysUpTo s.serverMsgID s.sent
  children : KeysUpTo s.serverMsgID s.children
  notClosed : s.closed = false
  unanswered : ∀ id, (s.pendingOf id).status = none

/-- What holds of the session a message has entered, before it is answered. -/
structure Session.Entered (req : Message) (s : Session) : Prop where
  key : s.key = Message.sessionKey req
  client : s.clientMsgID = atoiValue req.header.msgID
  server : s.serverMsgID+1 = s.clientMsgID
  pos : 1 ≤ s.clientMsgID
  bound : s.clientMsgID ≤ maxInt
  sent : KeysUpTo s.serverMsgID s.sent
  children : KeysUpTo s.serverMsgID s.children
  notClosed : s.closed = false
  unanswered : ∀ id, (s.pendingOf id).status = none

def World.Sound (w : World) : Prop := ∀ key s, w.sessions.lookup key = some s → s.Sound key

variable {w : World}

theorem World.sound_of_empty (h : w.sessions = ∅) : w.Sound := by
  intro key s hs
  rw [h] at hs
  simp at hs

/-- `arrive` touches only these fields. -/
theorem Session.arrive_eq (s : Session) (req : Message) (t : Option Transport) (now : Time) :
    ∃ mm mo uao, s.arrive req t now = { s with
      clientMsgID := atoiValue req.header.msgID, lastSeen := now, maxMsgSize := mm,
      maxObjSize := mo, facts := { s.facts with userAgentOrigin := uao } } := by
  unfold arrive
  dsimp only
  split <;> split <;> exact ⟨_,_,_,rfl⟩

variable {t : Option Transport} {s : Session} {w' : World}

/-- A message enters the stored session or a new one, and sets these fields. -/
theorem Arrival.shape (h : Arrival req id t w s w') : ∃ base now mm mo uao,
    s = { base with
      clientMsgID := atoiValue req.header.msgID, lastSeen := now, maxMsgSize := mm,
      maxObjSize := mo, facts := { base.facts with userAgentOrigin := uao } } ∧
    (w.sessions.lookup (Message.sessionKey req) = some base ∧
        base.enrollmentKey = id.enrollmentKey ∧
        atoiValue req.header.msgID = base.clientMsgID+1 ∧ w' = w ∨
      ∃ sessions start, (sessions = w.sessions ∨ sessions = w.sessions.erase (Message.sessionKey req)) ∧
        base = newSession req id w.nextAddr start ∧ atoiValue req.header.msgID = 1 ∧
        Syncml.isPackageOne req = true ∧
        w' = { w with sessions := sessions, nextAddr := w.nextAddr+1 }) := by
  cases h with
  | @continued stored now hs hk hm =>
    obtain ⟨mm,mo,uao,he⟩ := stored.arrive_eq req t now
    exact ⟨stored,now,mm,mo,uao,he,.inl ⟨hs,hk,hm,rfl⟩⟩
  | @opened sessions start now hs hm hp =>
    obtain ⟨mm,mo,uao,he⟩ := (newSession req id w.nextAddr start).arrive_eq req t now
    exact ⟨_,now,mm,mo,uao,he,.inr ⟨sessions,start,hs,rfl,hm,hp,rfl⟩⟩

theorem Arrival.entered (h : Arrival req id t w s w') (hw : w.Sound) :
    s.Entered req ∧ w'.Sound := by
  obtain ⟨base,now,mm,mo,uao,rfl,⟨hs,hk,hm,rfl⟩ | ⟨sessions,start,hs,rfl,hm,hp,rfl⟩⟩ := h.shape
  · have hso := hw _ _ hs
    refine ⟨?_,hw⟩
    have h1 := hso.pos
    have h2 := hso.msgID
    exact ⟨hso.key,rfl,by simp only; omega,by simp only; omega,atoiValue_le_maxInt _,hso.sent,
      hso.children,hso.notClosed,hso.unanswered⟩
  · refine ⟨⟨rfl,rfl,by simp [newSession,hm],by simp [hm],atoiValue_le_maxInt _,.empty _,.empty _,rfl,
      fun _ => rfl⟩,?_⟩
    intro key s hl
    rcases hs with hs | hs
    · subst hs; exact hw key s hl
    · subst hs; exact hw key s (GoMap.lookup_erase_some hl).2

theorem Arrival.clientMsgID (h : Arrival req id t w s w') :
    s.clientMsgID = atoiValue req.header.msgID := by
  obtain ⟨base,now,mm,mo,uao,rfl,-⟩ := h.shape
  rfl

theorem Session.Entered.authChange {s' : Session} (h : s.Entered req) (ha : s.AuthChange s') :
    s'.Entered req := by
  obtain ⟨a,ty,rfl⟩ := ha
  exact ⟨h.key,h.client,h.server,h.pos,h.bound,h.sent,h.children,h.notClosed,h.unanswered⟩

structure Session.FiledFrom (s s' : Session) : Prop where
  steady : s.Steady s'
  outgoing : s'.outgoing = s.outgoing
  sent : ∀ k id, s'.sent.lookup k = some id → s.sent.lookup k = some id
  children : ∀ k id, s'.children.lookup k = some id → s.children.lookup k = some id

theorem Session.filed_from (s : Session) (req : Message) : s.FiledFrom (s.filed req) := by
  have h := fileStatuses_filing s req.body.statuses
  unfold filed
  split
  · refine ⟨h.steady.trans ?_,h.outgoing,h.sent,h.children⟩
    constructor <;> rfl
  · exact ⟨h.steady,h.outgoing,h.sent,h.children⟩

section Answering
variable {cfg : Config} {req : Message} {s s' : Session} {w w' : World} {reply : Option Message}

def Answered.filed (a : Answered cfg req s w s' w' reply) : Session := a.acked.sess.filed req

theorem Answered.taking (a : Answered cfg req s w s' w' reply) : s.Taking a.acked.sess :=
  Session.takeAll_taking (Work.ackAll_sess a.isAcked)

theorem Answered.filedFrom (a : Answered cfg req s w s' w' reply) : s.FiledFrom a.filed := by
  have ht := a.taking
  have hf := a.acked.sess.filed_from req
  exact ⟨ht.steady.trans hf.steady,hf.outgoing.trans ht.outgoing,
    fun k id h => by rw [← ht.sent]; exact hf.sent k id h,
    fun k id h => by rw [← ht.children]; exact hf.children k id h⟩

theorem Answered.numbered (a : Answered cfg req s w s' w' reply) (hs : s.Entered req) :
    (a.acked.setSess (·.filed req)).Numbered s.clientMsgID where
  msgID := by
    rw [← hs.server]
    exact congrArg Syncml.Header.msgID (Work.ackAll_repliesOn a.isAcked).header
  low := by
    have := hs.pos
    simp only [minInt]
    omega
  high := hs.bound
  sent := (hs.sent.sub a.filedFrom.sent).mono (by have := hs.server; omega)
  children := (hs.children.sub a.filedFrom.children).mono (by have := hs.server; omega)

variable {wk : Work}

theorem Finished.final (f : Finished wk w s' w' reply) : ∃ r, s' =
    { wk.sess with results := r, serverMsgID := atoiValue wk.resp.header.msgID } := by
  refine ⟨f.flushed.results,f.sess.trans ?_⟩
  exact congrArg (fun x : Session => { x with serverMsgID := atoiValue wk.resp.header.msgID })
    f.isFlushed.frame

theorem Answered.final (a : Answered cfg req s w s' w' reply) (hs : s.Entered req) :
    ∃ r, s' = { a.built.sess with results := r, serverMsgID := s.clientMsgID } := by
  have hn := (a.isBuilt.numbered (a.numbered hs)).1
  rw [← hn.atoi]
  exact a.finished.final

theorem Finished.sessions (f : Finished wk w s' w' reply) :
    w'.sessions = w.sessions.erase s'.key ∨
    w'.sessions = w.sessions.insert s'.key s' ∧ s'.closed = false := by
  rw [f.world]
  simp only [Work.storedIn]
  split
  · exact .inl rfl
  rename_i he
  refine .inr ⟨rfl,?_⟩
  cases hc : s'.closed with
  | false => rfl
  | true => exact absurd (by simp [Work.ending,hc]) he

theorem Finished.pendingOf (f : Finished wk w s' w' reply) (id : GoString) : s'.pendingOf id =
      if (wk.sess.pendingOf id).status = none then wk.sess.pendingOf id else {} := by
  rw [f.sess]
  exact f.isFlushed.pending id

theorem Finished.unanswered (f : Finished wk w s' w' reply) (id : GoString) :
    (s'.pendingOf id).status = none := by
  rw [f.pendingOf]
  split
  · assumption
  · rfl

theorem Finished.sound (f : Finished wk w s' w' reply) (hw : w.Sound)
    (hs : s'.closed = false → s'.Sound s'.key) : w'.Sound := by
  intro key x hl
  rcases f.sessions with he | ⟨he,hc⟩
  · rw [he] at hl
    exact hw key x (GoMap.lookup_erase_some hl).2
  rw [he] at hl
  rcases GoMap.lookup_insert_cases hl with ⟨rfl,rfl⟩ | ⟨-,hl⟩
  · exact hs hc
  · exact hw key x hl

theorem Work.sendChunk_sending (wk : Work) (o : Outgoing) (next : Item) (rest : List Item) :
    wk.sess.Sending (wk.sendChunk o next rest).sess ∧
    (wk.sendChunk o next rest).resp.header = wk.resp.header := by
  unfold Work.sendChunk
  dsimp only
  split
  · exact ⟨⟨by constructor <;> rfl,rfl,rfl,rfl,rfl,rfl,rfl,rfl⟩,rfl⟩
  · exact ⟨⟨by constructor <;> rfl,rfl,rfl,rfl,rfl,rfl,rfl,rfl⟩,rfl⟩

theorem Built.sending {wk' : Work} (hb : Built cfg req wk q wk' q') :
    wk.sess.Sending wk'.sess ∧ wk'.resp.header = wk.resp.header := by
  cases hb with
  | closing _ | upload _ _ _ => exact ⟨.refl _,rfl⟩
  | chunk hc hn ho => exact Work.sendChunk_sending wk _ _ _
  | deliver hc hn hu hd hall hq =>
    rename_i through
    exact ⟨foldl_send_sending wk through,foldl_send_header wk through⟩

theorem Answered.steady (a : Answered cfg req s w s' w' reply) : s.Steady a.built.sess :=
  a.filedFrom.steady.trans a.isBuilt.sending.1.steady

theorem Answered.sound (a : Answered cfg req s w s' w' reply) (hs : s.Entered req)
    (hw : w.Sound) : w'.Sound ∧ s'.key = Message.sessionKey req ∧ s'.addr = s.addr ∧
      s'.clientMsgID = s.clientMsgID := by
  obtain ⟨r,he⟩ := a.final hs
  have hst := a.steady
  have hn := (a.isBuilt.numbered (a.numbered hs)).1
  have hkey : s'.key = Message.sessionKey req := by
    rw [he]; exact hst.key.trans hs.key
  have hcl : s'.clientMsgID = s.clientMsgID := by rw [he]; exact hst.clientMsgID
  have hsv : s'.serverMsgID = s.clientMsgID := by rw [he]
  refine ⟨a.finished.sound hw ?_,hkey,by rw [he]; exact hst.addr,hcl⟩
  intro hc
  refine ⟨rfl,by rw [hsv,hcl],by rw [hcl]; exact hs.pos,by rw [hcl]; exact hs.bound,?_,?_,hc,
    a.finished.unanswered⟩
  · rw [hsv,he]; exact hn.sent
  · rw [hsv,he]; exact hn.children

theorem Challenged.final (c : Challenged cfg req outcome s w s' w' reply)
    (hs : s.Entered req) : ∃ r, s' =
      { s with results := r, serverMsgID := s.clientMsgID, challenged := s.challenged+1 } := by
  have hlow : minInt ≤ s.serverMsgID+1 := by
    have h₁ := hs.pos
    have h₂ := hs.server
    simp only [minInt]
    omega
  have hhigh : s.serverMsgID+1 ≤ maxInt := by
    have h₁ := hs.bound
    have h₂ := hs.server
    omega
  have hid : atoiValue (itoa (s.serverMsgID+1)) = s.clientMsgID := by
    rw [atoiValue_itoa hlow hhigh,hs.server]
  refine ⟨c.finished.flushed.results,c.finished.sess.trans ?_⟩
  change ({ c.finished.flushed with serverMsgID := atoiValue (itoa (s.serverMsgID+1)) } : Session) = _
  rw [hid]
  exact congrArg (fun x : Session => { x with serverMsgID := s.clientMsgID })
    c.finished.isFlushed.frame

theorem Challenged.sound (c : Challenged cfg req outcome s w s' w' reply)
    (hs : s.Entered req) (hw : w.Sound) : w'.Sound := by
  obtain ⟨r,he⟩ := c.final hs
  have hsv : s'.serverMsgID = s.clientMsgID := by rw [he]
  have hcl : s'.clientMsgID = s.clientMsgID := by rw [he]
  have hle : s.serverMsgID ≤ s.clientMsgID := by have := hs.server; omega
  refine c.finished.sound (w := { w with nonces := c.nonces }) hw ?_
  intro hc
  refine ⟨rfl,by rw [hsv,hcl],by rw [hcl]; exact hs.pos,by rw [hcl]; exact hs.bound,?_,?_,hc,
    c.finished.unanswered⟩
  · rw [hsv,he]; exact hs.sent.mono hle
  · rw [hsv,he]; exact hs.children.mono hle

end Answering

theorem Accepted.sound {out : Handled}
    (a : Accepted cfg t req w out w' reply) (hw : w.Sound) :
    a.sess.Entered req ∧ a.entered.Sound ∧ w'.Sound := by
  obtain ⟨he,hent⟩ := a.arrival.entered hw
  have hs := he.authChange a.authChange
  refine ⟨hs,hent,?_⟩
  by_cases ho : a.outcome = .trusted
  · obtain ⟨x⟩ := a.answered ho
    exact (x.sound hs hent).1
  · obtain ⟨x⟩ := a.challenged ho
    exact x.sound hs hent

structure Call where
  before : World
  env : Env
  transport : Option Transport
  req : Message

def Call.out (c : Call) (cfg : Config) : Handled := (serve cfg c.env c.transport c.req c.before).1

def Call.after (c : Call) (cfg : Config) : World := (serve cfg c.env c.transport c.req c.before).2

def Call.Accepted (c : Call) (cfg : Config) : Prop := ∃ reply, (c.out cfg).reply = .ok reply

def Call.Trusted (c : Call) (cfg : Config) : Prop := (c.out cfg).auth = some .trusted

def Call.message (c : Call) (cfg : Config) : Option Message :=
  match (c.out cfg).reply with
  | .ok m => m
  | .error _ => none

variable {c : Call}

theorem Call.message_some {m : Message} (h : c.message cfg = some m) :
    (c.out cfg).reply = .ok (some m) := by
  unfold message at h
  split at h
  · rename_i hr
    rw [hr,h]
  · cases h

def Call.entered (c : Call) : Option Session :=
  match c.env.lookup 0 c.req.header.source.locURI with
  | none => none
  | some id =>
    match ((session c.req id c.transport).run c.env.handler
        (({ world := c.before } : Machine).step c.before)).1 with
    | .ok s => some s
    | .error _ => none

theorem Reached.entered_eq (r : Reached cfg c.env c.transport c.req c.before) :
    c.entered = some r.arrived := by
  unfold Call.entered
  rw [r.found]
  dsimp only
  rw [r.enters]

theorem Call.accepted_in (hs : c.entered = some s)
    (hr : (c.out cfg).reply = .ok reply) :
    ∃ a : Mdm.Accepted cfg c.transport c.req c.before (c.out cfg) (c.after cfg) reply,
      a.arrived = s := by
  rcases serve_cases cfg c.env c.transport c.req c.before with ⟨-,-,⟨e,he⟩,-⟩ | ⟨⟨r⟩⟩
  · have he : (c.out cfg).reply = .error e := he
    rw [he] at hr
    cases hr
  have hres : r.result = .ok reply := by
    have h := hr
    rw [Call.out,r.out] at h
    exact h
  obtain ⟨a,ha,-⟩ := r.accepted hres
  refine ⟨a,ha.trans ?_⟩
  exact Option.some.inj (r.entered_eq.symm.trans hs)

def World.PrunesIdle (w : World) (before : Time) (limit : Int) (range : RangeOrder) : Prop :=
  ∀ key s, w.sessions.lookup key = some s →
    (w.queue.prune before limit range).1.commands s.deviceID = w.queue.commands s.deviceID

/-- The calls of a run, in order. Between them operators may queue, cancel and prune commands; what
is pruned is not of a device with a session in the store. -/
inductive Run (cfg : Config) : World → List Call → World → Prop where
  | nil (w : World) : Run cfg w [] w
  | call {c : Call} {calls : List Call} {w' : World} (h : Run cfg (c.after cfg) calls w') :
      Run cfg c.before (c :: calls) w'
  | enqueue {w w' : World} {calls : List Call} (dev : GoString) (cmd : Command) (time : Time)
      (h : Run cfg { w with queue := (w.queue.enqueue dev cmd time).2 } calls w') :
      Run cfg w calls w'
  | cancel {w w' : World} {calls : List Call} (dev : GoString) (ids : List GoString) (time : Time)
      (h : Run cfg { w with queue := w.queue.cancel dev ids time } calls w') : Run cfg w calls w'
  | prune {w w' : World} {calls : List Call} (before : Time) (limit : Int) (range : RangeOrder)
      (hidle : w.PrunesIdle before limit range)
      (h : Run cfg { w with queue := (w.queue.prune before limit range).1 } calls w') : Run cfg w calls w'

variable {calls : List Call}

/-- What operators do between calls keeps the property. -/
structure Operated (P : World → Prop) : Prop where
  enqueue : ∀ w dev cmd time, P w → P { w with queue := (w.queue.enqueue dev cmd time).2 }
  cancel : ∀ w dev ids time, P w → P { w with queue := w.queue.cancel dev ids time }
  prune : ∀ w before limit range, w.PrunesIdle before limit range → P w →
    P { w with queue := (w.queue.prune before limit range).1 }

theorem Operated.of_queue (h : ∀ w queue, P w → P { w with queue := queue }) : Operated P :=
  ⟨fun w _ _ _ => h w _,fun w _ _ _ => h w _,fun w _ _ _ _ => h w _⟩

theorem Operated.or {Q : World → Prop} (h : Operated P) (h' : Operated Q) : Operated fun w => P w ∨ Q w where
  enqueue w dev cmd time := Or.imp (h.enqueue w dev cmd time) (h'.enqueue w dev cmd time)
  cancel w dev ids time := Or.imp (h.cancel w dev ids time) (h'.cancel w dev ids time)
  prune w before limit range hidle :=
    Or.imp (h.prune w before limit range hidle) (h'.prune w before limit range hidle)

/-- A property of the calls so far and the world that operators and the calls of a run keep holds at
its end, and before each of its calls. -/
theorem Run.history {P : List Call → World → Prop}
    (hr : Run cfg w calls w') (past : List Call) (hw : P past w) (hop : ∀ past, Operated (P past))
    (hcall : ∀ pre c post, calls = pre ++ c :: post → P (past ++ pre) c.before →
      P (past ++ pre ++ [c]) (c.after cfg)) :
    P (past ++ calls) w' ∧ ∀ pre c post, calls = pre ++ c :: post → P (past ++ pre) c.before := by
  induction hr generalizing past with
  | nil w => exact ⟨by simpa using hw,by intro pre c post h; simp at h⟩
  | call h ih =>
    rename_i x calls w'
    have hx : P (past ++ [x]) (x.after cfg) := by
      have := hcall [] x calls rfl (by simpa using hw)
      simpa using this
    obtain ⟨hend,hpre⟩ := ih (past ++ [x]) hx (by
      intro pre c post he h
      have := hcall (x :: pre) c post (by rw [he]; rfl) (by simpa using h)
      simpa using this)
    refine ⟨by simpa using hend,?_⟩
    intro pre c post hc
    cases pre with
    | nil =>
      simp only [List.nil_append,List.cons.injEq] at hc
      rw [← hc.1,List.append_nil]
      exact hw
    | cons y ys =>
      simp only [List.cons_append,List.cons.injEq] at hc
      have hx := hpre ys c post hc.2
      rw [← hc.1]
      simpa using hx
  | enqueue dev cmd time h ih => exact ih past ((hop past).enqueue _ dev cmd time hw) hcall
  | cancel dev ids time h ih => exact ih past ((hop past).cancel _ dev ids time hw) hcall
  | prune before limit range hidle h ih => exact ih past ((hop past).prune _ before limit range hidle hw) hcall

theorem Run.invariant (hr : Run cfg w calls w') (hw : P w) (hop : Operated P)
    (hcall : ∀ c ∈ calls, P c.before → P (c.after cfg)) : P w' ∧ ∀ c ∈ calls, P c.before := by
  obtain ⟨hend,hpre⟩ := hr.history (P := fun _ => P) [] hw (fun _ => hop)
    fun pre c post he => hcall c (by simp [he])
  refine ⟨hend,fun c hc => ?_⟩
  obtain ⟨pre,post,he⟩ := List.append_of_mem hc
  exact hpre pre c post he

theorem Run.split {xs ys : List Call} (h : Run cfg w (xs ++ ys) w') :
    ∃ u, Run cfg w xs u ∧ Run cfg u ys w' := by
  generalize hz : xs ++ ys = zs at h
  induction h generalizing xs with
  | nil w =>
    obtain ⟨rfl,rfl⟩ := List.append_eq_nil_iff.mp hz
    exact ⟨w,.nil w,.nil w⟩
  | call h ih =>
    rename_i c calls w'
    cases xs with
    | nil =>
      simp only [List.nil_append] at hz
      subst hz
      exact ⟨c.before,.nil _,.call h⟩
    | cons x xs =>
      simp only [List.cons_append,List.cons.injEq] at hz
      obtain ⟨rfl,hz⟩ := hz
      obtain ⟨u,h₁,h₂⟩ := ih hz
      exact ⟨u,.call h₁,h₂⟩
  | enqueue dev cmd time h ih =>
    obtain ⟨u,h₁,h₂⟩ := ih hz
    exact ⟨u,.enqueue dev cmd time h₁,h₂⟩
  | cancel dev ids time h ih =>
    obtain ⟨u,h₁,h₂⟩ := ih hz
    exact ⟨u,.cancel dev ids time h₁,h₂⟩
  | prune before limit range hidle h ih =>
    obtain ⟨u,h₁,h₂⟩ := ih hz
    exact ⟨u,.prune before limit range hidle h₁,h₂⟩

theorem Run.head (hr : Run cfg w (c :: calls) w') (hw : P w) (hop : Operated P) :
    P c.before ∧ Run cfg (c.after cfg) calls w' := by
  generalize hz : c :: calls = zs at hr
  induction hr with
  | nil w => cases hz
  | call h ih => cases hz; exact ⟨hw,h⟩
  | enqueue dev cmd time h ih => exact ih (hop.enqueue _ dev cmd time hw) hz
  | cancel dev ids time h ih => exact ih (hop.cancel _ dev ids time hw) hz
  | prune before limit range hidle h ih => exact ih (hop.prune _ before limit range hidle hw) hz

/-- What follows a call of a run is a run from the world the call leaves. -/
theorem Run.later {pre : List Call} (hr : Run cfg w (pre ++ c :: calls) w') :
    Run cfg (c.after cfg) calls w' := by
  obtain ⟨u,-,hu⟩ := hr.split
  exact (hu.head (P := fun _ => True) trivial (.of_queue fun _ _ h => h)).2

/-- Every world of a run of accepted calls that starts sound is sound. -/
theorem Run.sound (hr : Run cfg w calls w') (hw : w.Sound) (hacc : ∀ c ∈ calls, c.Accepted cfg) :
    w'.Sound ∧ ∀ c ∈ calls, c.before.Sound := by
  refine hr.invariant hw (.of_queue fun _ _ h => h) ?_
  intro c hc hs
  obtain ⟨reply,h⟩ := hacc c hc
  obtain ⟨a⟩ := serve_accepted h
  exact (a.sound hs).2.2

/-- A run of the accepted messages of one session: all have its key, and none
but the first can open it. -/
structure SessionRun (cfg : Config) (key : GoString) (w : World) (calls : List Call) (w' : World) :
    Prop where
  run : Run cfg w calls w'
  accepted : ∀ c ∈ calls, c.Accepted cfg
  key : ∀ c ∈ calls, Message.sessionKey c.req = key
  continues : ∀ c ∈ calls.tail, atoiValue c.req.header.msgID ≠ 1

theorem mem_tail_of_later {pre rest : List Call} {x : Call} (h : x ∈ rest) :
    x ∈ (pre ++ c :: rest).tail := by
  cases pre with
  | nil => exact h
  | cons p ps => exact List.mem_append_right ps (List.mem_cons_of_mem c h)

def Call.accepts (c : Call) (cfg : Config) : Bool :=
  match (c.out cfg).reply with
  | .ok _ => true
  | .error _ => false

theorem Call.accepts_iff (c : Call) (cfg : Config) : c.accepts cfg = true ↔ c.Accepted cfg := by
  unfold accepts Accepted
  cases (c.out cfg).reply with
  | ok _ | error _ => simp

instance (c : Call) (cfg : Config) : Decidable (c.Accepted cfg) :=
  decidable_of_iff _ (c.accepts_iff cfg)

instance (c : Call) (cfg : Config) : Decidable (c.Trusted cfg) :=
  inferInstanceAs (Decidable (_ = _))

instance decExists {α : Type} {o : Option α} {P : α → Prop} [DecidablePred P] :
    Decidable (∃ a, o = some a ∧ P a) :=
  decidable_of_iff (o.any fun a => decide (P a)) (by cases o <;> simp)

theorem all_decide_iff {α : Type} {o : Option α} {P : α → Prop} [DecidablePred P] :
    (o.all fun a => decide (P a)) = true ↔ ∀ a, o = some a → P a := by
  cases o with
  | none | some _ => simp

instance decForall {α : Type} {o : Option α} {P : α → Prop} [DecidablePred P] :
    Decidable (∀ a, o = some a → P a) :=
  decidable_of_iff _ all_decide_iff

def callsOf (cfg : Config) (env : Env) (t : Option Transport) : World → List Message → List Call
  | _, [] => []
  | w, req :: reqs =>
    let c : Call := { before := w, env := env, transport := t, req := req }
    c :: callsOf cfg env t (c.after cfg) reqs

theorem run_callsOf (cfg : Config) (env : Env) (t : Option Transport) (w : World)
    (reqs : List Message) : ∃ w', Run cfg w (callsOf cfg env t w reqs) w' := by
  induction reqs generalizing w with
  | nil => exact ⟨w,.nil w⟩
  | cons req reqs ih =>
    obtain ⟨w',h⟩ := ih (Call.after { before := w, env := env, transport := t, req := req } cfg)
    exact ⟨w',.call h⟩

theorem sessionRun_callsOf (cfg : Config) (env : Env) (t : Option Transport) (w : World)
    (reqs : List Message) (key : GoString)
    (h : (∀ c ∈ callsOf cfg env t w reqs, c.Accepted cfg ∧ Message.sessionKey c.req = key) ∧
      ∀ c ∈ (callsOf cfg env t w reqs).tail, atoiValue c.req.header.msgID ≠ 1) :
    ∃ w', SessionRun cfg key w (callsOf cfg env t w reqs) w' := by
  obtain ⟨w',hr⟩ := run_callsOf cfg env t w reqs
  exact ⟨w',hr,fun c hc => (h.1 c hc).1,fun c hc => (h.1 c hc).2,h.2⟩

end MicrosoftDM.Mdm
