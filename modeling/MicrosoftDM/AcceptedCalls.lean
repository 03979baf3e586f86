import MicrosoftDM.AnsweringStages

set_option autoImplicit false

namespace MicrosoftDM.Mdm
open Effect
open Effect.Action (exec exec_next exec_bind_ok)
open MicrosoftDM.Syncml (Item Message)

def Session.flushOne (sess : Session) (id : GoString) : Session :=
  match (sess.pendingOf id).status with
  | none => sess
  | some _ => sess.dropPending id

def Session.flushed (sess : Session) (order : List GoString) : Session :=
  order.foldl Session.flushOne sess

variable {id : GoString}

variable {id' : GoString} {received : GoString → Time}

theorem Session.pendingOf_dropPending_ne (sess : Session) (h : id' ≠ id) :
    (sess.dropPending id).pendingOf id' = sess.pendingOf id' := by
  unfold pendingOf dropPending
  cases sess.results with
  | none => rfl
  | some r => simp [AList.lookup_erase_ne h]

theorem Session.pendingOf_dropPending_self (sess : Session) (id : GoString) :
    (sess.dropPending id).pendingOf id = {} := by
  unfold pendingOf dropPending
  cases sess.results with
  | none => rfl
  | some r => simp

theorem Session.pendingOf_flushOne_ne (sess : Session) (h : id' ≠ id) :
    (sess.flushOne id).pendingOf id' = sess.pendingOf id' := by
  unfold flushOne
  split
  · rfl
  · exact sess.pendingOf_dropPending_ne h

/-- A queued command once the pending answers are written, received at the given times. -/
def QueuedCommand.settle (sess : Session) (received : GoString → Time) (qc : QueuedCommand) :
    QueuedCommand :=
  match (sess.pendingOf qc.id).status with
  | none => qc
  | some st => qc.storeResult qc.id ((sess.pendingOf qc.id).result st (received qc.id))

variable {env : Env} {m m' : Machine} {w w' : Work}

theorem flushOne_ok (h : exec env.handler (flushOne id) w m = ((.ok (),w'),m')) :
    w' = w.setSess (·.flushOne id) ∧ ∃ now q', m'.world = { m.world with queue := q' } ∧
      ((w.sess.pendingOf id).status = none ∧ q' = m.world.queue ∨
       ∃ st, (w.sess.pendingOf id).status = some st ∧
        id ∈ (m.world.queue.commands w.sess.deviceID).map QueuedCommand.id ∧
        m.world.queue.Maps w.sess.deviceID
          (·.storeResult id ((w.sess.pendingOf id).result st now)) q') := by
  replace h := exec_next _ h rfl
  cases hs : (w.sess.pendingOf id).status with
  | none =>
    rw [hs] at h
    cases h
    exact ⟨by simp [Session.flushOne,hs,Work.setSess],0,_,rfl,.inl ⟨rfl,rfl⟩⟩
  | some st =>
    rw [hs] at h
    replace h := exec_next _ h rfl
    replace h := exec_next _ h rfl
    replace h := (exec_bind_ok _).mp h
    obtain ⟨_,_,_,h₁,h⟩ := h
    obtain ⟨hr,hw,hm⟩ := orFail_ok h₁
    obtain ⟨hr₁,hm₁⟩ := Env.fallible_ok (Prod.ext hr rfl)
    obtain ⟨hid,hmap⟩ := Queue.storeResult_ok hr₁
    cases h
    rw [hw,hm]
    exact ⟨by simp [Session.flushOne,hs,Work.setSess],_,_,(congrArg Machine.world hm₁).trans rfl,
      .inr ⟨st,rfl,hid,hmap⟩⟩

variable {qc : QueuedCommand} {sess : Session}

theorem QueuedCommand.settle_flushOne_ne (h : qc.id ≠ id) :
    qc.settle (sess.flushOne id) received = qc.settle sess received := by
  unfold settle
  rw [Session.pendingOf_flushOne_ne sess h]

theorem Session.flushOne_steady (sess : Session) (id : GoString) :
    sess.Steady (sess.flushOne id) := by
  unfold flushOne
  split
  · exact .refl sess
  · constructor <;> rfl

theorem QueuedCommand.settle_of_none
    (h : (sess.pendingOf qc.id).status = none) : qc.settle sess received = qc := by
  unfold settle
  rw [h]

theorem QueuedCommand.settle_of_some {st : Syncml.StatusCode}
    (h : (sess.pendingOf qc.id).status = some st) : qc.settle sess received =
      qc.storeResult qc.id ((sess.pendingOf qc.id).result st (received qc.id)) := by
  unfold settle
  rw [h]

variable {order : List GoString}

theorem flushLoop_ok (hd : order.Nodup)
    (h : exec env.handler (flushLoop order) w m = ((.ok (),w'),m')) :
    w' = w.setSess (·.flushed order) ∧ ∃ received q', m'.world = { m.world with queue := q' } ∧
      m.world.queue.Maps w.sess.deviceID
        (fun qc => if qc.id ∈ order then qc.settle w.sess received else qc) q' ∧
      ∀ id ∈ order, (w.sess.pendingOf id).status ≠ none →
        id ∈ (m.world.queue.commands w.sess.deviceID).map QueuedCommand.id := by
  induction order generalizing w m with
  | nil =>
    cases h
    exact ⟨rfl,fun _ => 0,_,rfl,by simpa using Queue.Maps.refl _ _,by simp⟩
  | cons id ids ih =>
    obtain ⟨hni,hd⟩ := List.nodup_cons.mp hd
    replace h := (exec_bind_ok _).mp h
    obtain ⟨_,w₁,m₁,h₁,h⟩ := h
    obtain ⟨hw₁,now,q₁,hm₁,hq₁⟩ := flushOne_ok h₁
    obtain ⟨hw,received,q',hm,hmap,hin⟩ := ih hd h
    have hsess : w₁.sess = w.sess.flushOne id := by rw [hw₁]; rfl
    have hdev : w₁.sess.deviceID = w.sess.deviceID := by
      rw [hsess]; exact (Session.flushOne_steady _ _).deviceID
    have hq : m₁.world.queue = q₁ := by rw [hm₁]
    rw [hdev,hq] at hmap hin
    rw [hm₁] at hm
    refine ⟨by rw [hw,hw₁]; rfl,fun x => if x = id then now else received x,q',hm,?_,?_⟩
    · rcases hq₁ with ⟨hnone,hq₁⟩ | ⟨st,hsome,hid,hq₁⟩
      · rw [hq₁] at hmap
        refine hmap.congr ?_
        intro qc _
        by_cases he : qc.id = id
        · have hn : (w.sess.pendingOf qc.id).status = none := he ▸ hnone
          rw [if_neg (show qc.id ∉ ids from he ▸ hni),QueuedCommand.settle_of_none hn,ite_self]
        · simp only [List.mem_cons,he,false_or,hsess,QueuedCommand.settle_flushOne_ne he]
          simp [QueuedCommand.settle,he]
      · refine (hq₁.trans hmap).congr ?_
        intro qc _
        simp only [QueuedCommand.id_storeResult]
        by_cases he : qc.id = id
        · subst he
          rw [if_neg hni,if_pos List.mem_cons_self,QueuedCommand.settle_of_some hsome,if_pos rfl]
        have hsr : ∀ r, qc.storeResult id r = qc := by
          intro r
          simp [QueuedCommand.storeResult,he]
        simp only [hsr,List.mem_cons,he,false_or,hsess,QueuedCommand.settle_flushOne_ne he]
        simp [QueuedCommand.settle,he]
    · intro x hx hst
      rcases hq₁ with ⟨hnone,hq₁⟩ | ⟨st,hsome,hid,hq₁⟩
      · rcases List.mem_cons.mp hx with hx | hx
        · exact absurd (hx ▸ hnone) hst
        have hne : x ≠ id := fun he => hni (he ▸ hx)
        have := hin x hx (by rwa [hsess,Session.pendingOf_flushOne_ne _ hne])
        rwa [hq₁] at this
      · rcases List.mem_cons.mp hx with hx | hx
        · exact hx ▸ hid
        have hne : x ≠ id := fun he => hni (he ▸ hx)
        have := hin x hx (by rwa [hsess,Session.pendingOf_flushOne_ne _ hne])
        rw [hq₁.1,List.map_map] at this
        simpa [Function.comp_def,QueuedCommand.id_storeResult] using this

/-- `s'` is `s` without the answers whose Status is known. -/
structure Session.Flushed (s s' : Session) : Prop where
  frame : s' = { s with results := s'.results }
  pending : ∀ id, s'.pendingOf id = if (s.pendingOf id).status = none then s.pendingOf id else {}

theorem Session.flushed_eq (sess : Session) (order : List GoString) :
    ∃ r, sess.flushed order = { sess with results := r } := by
  induction order generalizing sess with
  | nil => exact ⟨sess.results,rfl⟩
  | cons id ids ih =>
    have h₁ : ∃ r, sess.flushOne id = { sess with results := r } := by
      unfold flushOne
      split <;> exact ⟨_,rfl⟩
    obtain ⟨r₁,h₁⟩ := h₁
    obtain ⟨r,h⟩ := ih (sess.flushOne id)
    refine ⟨r,h.trans ?_⟩
    rw [h₁]

theorem Session.pendingOf_flushed (sess : Session) (hd : order.Nodup) (id : GoString) :
    (sess.flushed order).pendingOf id =
      if id ∈ order ∧ (sess.pendingOf id).status ≠ none then {} else sess.pendingOf id := by
  induction order generalizing sess with
  | nil => simp [flushed]
  | cons x xs ih =>
    obtain ⟨hni,hd⟩ := List.nodup_cons.mp hd
    change ((sess.flushOne x).flushed xs).pendingOf id = _
    rw [ih _ hd]
    by_cases he : id = x
    · subst he
      have hni' : ¬(id ∈ xs ∧ ((sess.flushOne id).pendingOf id).status ≠ none) := fun h => hni h.1
      rw [if_neg hni']
      cases hs : (sess.pendingOf id).status with
      | none => simp [flushOne,hs]
      | some st => simp [flushOne,hs,pendingOf_dropPending_self]
    · rw [pendingOf_flushOne_ne _ he]
      simp [he]

theorem Session.mem_keys_of_status (h : (sess.pendingOf id).status ≠ none) :
    id ∈ (sess.results.getD ∅).keys := by
  by_contra hn
  have hl : (sess.results.getD ∅).lookup id = none :=
    AList.lookup_eq_none.mpr (fun hm => hn (AList.mem_keys.mp hm))
  exact h (by simp [pendingOf,hl])

theorem Session.flushed_of_perm (hp : order.Perm (sess.results.getD ∅).keys) :
    sess.Flushed (sess.flushed order) where
  frame := by
    obtain ⟨r,h⟩ := sess.flushed_eq order
    rw [h]
  pending := by
    intro id
    rw [pendingOf_flushed sess (hp.nodup_iff.mpr (AList.keys_nodup _)) id]
    by_cases hs : (sess.pendingOf id).status = none
    · simp [hs]
    · simp [hs,hp.mem_iff.mpr (mem_keys_of_status hs)]

theorem flushResults_ok (h : exec env.handler flushResults w m = ((.ok (),w'),m')) :
    w.sess.Flushed w'.sess ∧ w' = { w with sess := w'.sess } ∧
    ∃ received q', m'.world = { m.world with queue := q' } ∧
      m.world.queue.Maps w.sess.deviceID (QueuedCommand.settle w.sess received) q' ∧
      ∀ id, (w.sess.pendingOf id).status ≠ none →
        id ∈ (m.world.queue.commands w.sess.deviceID).map QueuedCommand.id := by
  replace h := exec_next _ h rfl
  replace h := (exec_bind_ok _).mp h
  obtain ⟨order,w₀,m₀,h₁,h⟩ := h
  have hp : order.Perm (w.sess.results.getD ∅).keys ∧ w = w₀ ∧ m₀.world = m.world := by
    cases h₁
    exact ⟨env.order_perm _ _,rfl,rfl⟩
  obtain ⟨hp,hw₀,hm₀⟩ := hp
  subst hw₀
  obtain ⟨hw,received,q',hm,hmap,hin⟩ :=
    flushLoop_ok (hp.nodup_iff.mpr (AList.keys_nodup _)) h
  rw [hm₀] at hm hmap hin
  refine ⟨?_,by rw [hw]; rfl,received,q',hm,?_,fun id hst =>
    hin id (hp.mem_iff.mpr (Session.mem_keys_of_status hst)) hst⟩
  · rw [hw]
    exact Session.flushed_of_perm hp
  refine hmap.congr ?_
  intro qc _
  by_cases hs : (w.sess.pendingOf qc.id).status = none
  · rw [QueuedCommand.settle_of_none hs,ite_self]
  · exact if_pos (hp.mem_iff.mpr (Session.mem_keys_of_status hs))

def Work.storedIn (w : Work) (sessions : MemorySessions) : MemorySessions :=
  if w.ending then sessions.deleteSession w.sess.key else sessions.putSession w.sess

variable {cfg : Config}

theorem storeSession_ok (h : exec env.handler (storeSession cfg) w m = ((.ok (),w'),m')) :
    w'.sess = w.sess ∧ w'.resp = w.resp ∧ (w.ending = false → w'.popped = false) ∧
    m'.world = { m.world with sessions := w.storedIn m.world.sessions } := by
  replace h := exec_next _ h rfl
  unfold Work.storedIn
  split at h
  · rename_i he
    rw [if_pos he]
    replace h := exec_next _ h rfl
    replace h := (exec_bind_ok _).mp h
    obtain ⟨_,w₁,m₁,h₁,h⟩ := h
    obtain ⟨hr,hw,hm⟩ := orFail_ok h₁
    obtain ⟨-,hm₁⟩ := Env.fallible_ok (Prod.ext hr rfl)
    have hm₂ : m₁.world = { m.world with
        sessions := MemorySessions.deleteSession m.world.sessions w.sess.key } := by
      rw [hm]
      exact (congrArg Machine.world hm₁).trans rfl
    replace h := (exec_bind_ok _).mp h
    obtain ⟨_,_,_,h₂,h⟩ := h
    cases h₂
    rw [← hm₂,← hw]
    have hend : w₁.ending = true := hw ▸ he
    split at h
    · obtain ⟨hw',hm'⟩ := hook_ok h
      exact ⟨by rw [hw'],by rw [hw'],fun hn => absurd (hend.symm.trans hn) (by simp),hm'⟩
    · cases h
      exact ⟨rfl,rfl,fun hn => absurd (hend.symm.trans hn) (by simp),rfl⟩
  · rename_i he
    rw [if_neg he]
    replace h := exec_next _ h rfl
    replace h := (exec_bind_ok _).mp h
    obtain ⟨_,w₁,m₁,h₁,h⟩ := h
    obtain ⟨hr,hw,hm⟩ := orFail_ok h₁
    obtain ⟨-,hm₁⟩ := Env.fallible_ok (Prod.ext hr rfl)
    cases h
    refine ⟨by rw [hw],by rw [hw],fun _ => rfl,?_⟩
    rw [hm]
    exact (congrArg Machine.world hm₁).trans rfl

variable {reply : Option Message}

theorem encodeReply_ok {ending : Bool} {resp : Message}
    (h : exec env.handler (encodeReply ending resp) w m = ((.ok reply,w'),m')) :
    w' = w ∧ m'.world = m.world ∧
    (reply = none ∧ ending = true ∧ onlyHeaderStatus resp = true ∨ reply = some resp) := by
  unfold encodeReply at h
  split at h
  · rename_i he
    cases h
    rw [Bool.and_eq_true] at he
    exact ⟨rfl,rfl,.inl ⟨rfl,he.1,he.2⟩⟩
  split at h
  · cases h
    exact ⟨rfl,rfl,.inr rfl⟩
  · cases h

/-- What `finish` has done when it returns a reply (or no package at all). -/
structure Finished (w : Work) (world : World) (sess' : Session) (world' : World)
    (reply : Option Message) where
  flushed : Session
  received : GoString → Time
  queue : Queue
  isFlushed : w.sess.Flushed flushed
  settles : world.queue.Maps w.sess.deviceID (QueuedCommand.settle w.sess received) queue
  known : ∀ id, (w.sess.pendingOf id).status ≠ none →
    id ∈ (world.queue.commands w.sess.deviceID).map QueuedCommand.id
  sess : sess' = { flushed with serverMsgID := atoiValue w.resp.header.msgID }
  world : world' = { world with
    queue := queue, sessions := ({ w with sess := sess' } : Work).storedIn world.sessions }
  reply : reply = none ∧ ({ w with sess := sess' } : Work).ending = true ∧
      onlyHeaderStatus w.resp = true ∨ reply = some w.resp

theorem Finished.message {world world' : World} {sess' : Session} {m : Message}
    (f : Finished w world sess' world' (some m)) : m = w.resp := by
  rcases f.reply with ⟨hn,-⟩ | hn
  · cases hn
  · exact Option.some.inj hn

theorem finished_of_stored {w₁ w₃ : Work}
    {m₁ m₃ : Machine} (h₁ : exec env.handler flushResults w m = ((.ok (),w₁),m₁))
    (h₃ : exec env.handler (storeSession cfg) w₁.advance m₁ = ((.ok (),w₃),m₃))
    (hreply : reply = none ∧ w₃.ending = true ∧ onlyHeaderStatus w₃.resp = true ∨
      reply = some w₃.resp) : Nonempty (Finished w m.world w₃.sess m₃.world reply) := by
  obtain ⟨hf,hw₁,received,q',hm₁,hmap,hin⟩ := flushResults_ok h₁
  obtain ⟨hs,hr,-,hm⟩ := storeSession_ok h₃
  have hresp : w₃.resp = w.resp := by rw [hr,hw₁]; rfl
  have hsess : w₃.sess = { w₁.sess with serverMsgID := atoiValue w.resp.header.msgID } := by
    rw [hs,hw₁]
    rfl
  have hend : ∀ v : Work, v.sess = w₃.sess → v.resp = w.resp →
      v.ending = ({ w with sess := w₃.sess } : Work).ending := by
    intro v hv hv'
    simp only [Work.ending,hv,hv']
  refine ⟨⟨w₁.sess,received,q',hf,hmap,hin,hsess,?_,?_⟩⟩
  · rw [hm,hm₁]
    have he := hend w₁.advance (by rw [hsess,hw₁]; rfl) (by rw [hw₁]; rfl)
    have hst : w₁.advance.storedIn m.world.sessions =
        ({ w with sess := w₃.sess } : Work).storedIn m.world.sessions := by
      simp only [Work.storedIn,he]
      rw [hs]
    simp only [hst]
  · rw [hresp,hend w₃ rfl hresp] at hreply
    exact hreply

theorem finish_ok (h : exec env.handler (finish cfg) w m = ((.ok reply,w'),m')) :
    Nonempty (Finished w m.world w'.sess m'.world reply) := by
  replace h := (exec_bind_ok _).mp h
  obtain ⟨_,w₁,m₁,h₁,h⟩ := h
  replace h := (exec_bind_ok _).mp h
  obtain ⟨_,_,_,h₂,h⟩ := h
  cases h₂
  replace h := (exec_bind_ok _).mp h
  obtain ⟨_,w₃,m₃,h₃,h⟩ := h
  replace h := (exec_bind_ok _).mp h
  obtain ⟨_,_,_,h₄,h⟩ := h
  cases h₄
  obtain ⟨hw',hm',hreply⟩ := encodeReply_ok h
  rw [hw',hm']
  exact finished_of_stored h₁ h₃ hreply

/-- The session a request is let into. It continues the stored one with the
next MsgID, or opens a new one, with maps of its own, with package 1. -/
inductive Arrival (req : Message) (id : Identity) (t : Option Transport) (w : World) :
    Session → World → Prop where
  | continued {stored : Session} {now : Time}
      (hs : w.sessions.lookup (Message.sessionKey req) = some stored)
      (hk : stored.enrollmentKey = id.enrollmentKey)
      (hm : atoiValue req.header.msgID = stored.clientMsgID+1) :
      Arrival req id t w (stored.arrive req t now) w
  | opened {sessions : MemorySessions} {start now : Time}
      (hs : sessions = w.sessions ∨ sessions = w.sessions.erase (Message.sessionKey req))
      (hm : atoiValue req.header.msgID = 1) (hp : Syncml.isPackageOne req = true) :
      Arrival req id t w ((newSession req id w.nextAddr start).arrive req t now)
        { w with sessions := sessions, nextAddr := w.nextAddr+1 }

variable {req : Message} {t : Option Transport}

theorem Arrival.queue {id : Identity} {w w' : World} {s : Session} (h : Arrival req id t w s w') :
    w'.queue = w.queue := by
  cases h <;> rfl

theorem getSession_cases (w : World) (key : GoString) (now : Time) :
    (∃ s, w.sessions.lookup key = some s ∧ w.getSession key now = (.ok s,w)) ∨
    ((w.getSession key now).1 = .error .notFound ∧
      ∃ sessions, (sessions = w.sessions ∨ sessions = w.sessions.erase key) ∧
        (w.getSession key now).2 = { w with sessions := sessions }) := by
  unfold World.getSession MemorySessions.getSession
  cases hl : w.sessions.lookup key with
  | none => exact .inr ⟨rfl,_,.inl rfl,rfl⟩
  | some s =>
    dsimp only
    split
    · exact .inr ⟨rfl,_,.inr rfl,rfl⟩
    · exact .inl ⟨s,rfl,rfl⟩

/-- What a call may do to the world. One that fails does nothing. -/
inductive Op.Moves (w : World) : Op → World → Prop where
  | still {op : Op} : Moves w op w
  | newMaps : Moves w .newMaps { w with nextAddr := w.nextAddr+1 }
  | expire {key : GoString} : Moves w (.getSession key) { w with sessions := w.sessions.erase key }
  | putSession {s : Session} :
      Moves w (.putSession s) { w with sessions := MemorySessions.putSession w.sessions s }
  | deleteSession {key : GoString} :
      Moves w (.deleteSession key) { w with sessions := MemorySessions.deleteSession w.sessions key }
  | abandon {s : Session} {popped : Bool} :
      Moves w (.abandon s popped) { w with sessions := MemorySessions.abandon w.sessions s popped }
  | putNonce {key : GoString} {value : Bytes} {ttl expiresAt : Time} :
      Moves w (.nonceUpdate key value ttl)
        { w with nonces := w.nonces.insert key { value := value, expiresAt := expiresAt } }
  | enqueue {dev : GoString} {cmd : Command} {time : Time} :
      Moves w (.enqueue dev cmd time) { w with queue := (w.queue.enqueue dev cmd time).2 }
  | markSent {dev : GoString} {ds : List Delivery} :
      Moves w (.markSent dev ds) { w with queue := (w.queue.markSent dev ds).2 }
  | storeResult {dev id : GoString} {r : Result} :
      Moves w (.storeResult dev id r) { w with queue := (w.queue.storeResult dev id r).2 }

theorem Env.handler_moves (env : Env) (op : Op) (m : Machine) :
    op.Moves m.world (env.handler op m).2.world := by
  have hfall : ∀ {α : Type} {r : Except StoreError α × World}, op.Moves m.world r.2 →
      op.Moves m.world (env.fallible m r).2.world := by
    intro α r hr
    rcases Env.fallible_world env m r with he | he
    · rw [he]; exact .still
    · rw [he]; exact hr
  cases op with
  | newMaps => exact .newMaps
  | getSession key =>
    refine hfall ?_
    rcases getSession_cases m.world key (env.clock m.tick) with ⟨s,-,he⟩ | ⟨-,sessions,hs,he⟩
    · rw [he]; exact .still
    rw [he]
    rcases hs with rfl | rfl
    · exact .still
    · exact .expire
  | putSession s => exact hfall .putSession
  | deleteSession key => exact hfall .deleteSession
  | abandon s popped => exact .abandon
  | nonceUpdate key value ttl =>
    refine hfall ?_
    unfold World.putNonce
    split
    · exact .putNonce
    · exact .still
  | enqueue dev cmd time => exact hfall .enqueue
  | markSent dev ds => exact hfall .markSent
  | storeResult dev id r => exact hfall .storeResult
  | nonceGet _ | deliverable _ _ | hook _ => exact hfall .still
  | _ => exact .still

theorem getSession_answer (env : Env) (key : GoString) (m : Machine) :
    (∃ s, m.world.sessions.lookup key = some s ∧
      env.handler (.getSession key) m = (.ok s,m.step m.world)) ∨
    ((env.handler (.getSession key) m).1 = (.error .notFound : Except StoreError Session) ∧
      ∃ sessions, (sessions = m.world.sessions ∨ sessions = m.world.sessions.erase key) ∧
        (env.handler (.getSession key) m).2 = m.step { m.world with sessions := sessions }) ∨
    env.handler (.getSession key) m = (.error .unavailable,m.step m.world) := by
  simp only [Env.handler,Env.fallible]
  split
  · exact .inr (.inr rfl)
  rcases getSession_cases m.world key (env.clock m.tick) with ⟨s,hs,hg⟩ | ⟨hr,sessions,hs,hg⟩
  · exact .inl ⟨s,hs,by rw [hg]⟩
  · exact .inr (.inl ⟨hr,sessions,hs,by rw [hg]⟩)

theorem openSession_ok {id : Identity}
    (h : (openSession req id t).run env.handler m = (.ok sess,m')) :
    atoiValue req.header.msgID = 1 ∧ Syncml.isPackageOne req = true ∧
    ∃ start now, sess = (newSession req id m.world.nextAddr start).arrive req t now ∧
      m'.world = { m.world with nextAddr := m.world.nextAddr+1 } := by
  unfold openSession at h
  split at h
  · cases h
  rename_i hm
  split at h
  · cases h
  rename_i hp
  cases h
  exact ⟨not_not.mp hm,by simpa using hp,_,_,rfl,rfl⟩

theorem session_ok {id : Identity} (h : (session req id t).run env.handler m = (.ok sess,m')) :
    Arrival req id t m.world sess m'.world := by
  unfold session at h
  simp only [bind_eq_bind,run_bind,run_perform] at h
  have hopen : ∀ (m₁ : Machine) (sessions : MemorySessions), m₁.world = { m.world with
      sessions := sessions } → (sessions = m.world.sessions ∨
      sessions = m.world.sessions.erase (Message.sessionKey req)) →
      (openSession req id t).run env.handler m₁ = (.ok sess,m') →
      Arrival req id t m.world sess m'.world := by
    intro m₁ sessions hm₁ hs ho
    obtain ⟨hm,hp,start,now,he,hw⟩ := openSession_ok ho
    rw [he,hw,hm₁]
    exact .opened hs hm hp
  rcases getSession_answer env (Message.sessionKey req) m with
    ⟨s,hs,hg⟩ | ⟨hr,sessions,hs,hg⟩ | hg
  · rw [hg] at h
    simp only [ofEnrollment] at h
    by_cases hk : s.enrollmentKey = id.enrollmentKey
    · simp only [hk,ne_eq,not_true_eq_false,if_false,continueSession] at h
      split at h
      · cases h
      rename_i hm
      cases h
      exact .continued hs hk (not_not.mp hm)
    · simp only [ne_eq,hk,not_false_eq_true,if_true] at h
      exact hopen (m.step m.world) m.world.sessions rfl (.inl rfl) h
  · rw [hg,hr] at h
    exact hopen _ sessions rfl hs h
  · rw [hg] at h
    cases h

def Session.AuthChange (s s' : Session) : Prop :=
  ∃ a ty, s' = { s with authenticated := a, authType := ty }

theorem currentNonce_world (env : Env) (dev : GoString) (m : Machine) :
    ((currentNonce dev).run env.handler m).2.world = m.world := by
  unfold currentNonce
  simp only [bind_eq_bind,run_bind,run_perform]
  have hw : (env.handler (.nonceGet (nonceKey dev)) m).2.world = m.world := by
    rcases Env.fallible_world env m (m.world.getNonce (nonceKey dev),m.world) with h | h <;> exact h
  unfold readNonce
  split
  · exact hw
  split
  · exact hw
  · exact hw

theorem authenticateCred_frame (env : Env) (cfg : Config) (req : Message) (id : Identity)
    (sess : Session) (m : Machine) :
    let r := (authenticateCred cfg req id sess).run env.handler m
    sess.AuthChange r.1.2 ∧ r.2.world = m.world := by
  unfold authenticateCred
  split
  · exact ⟨⟨_,_,rfl⟩,rfl⟩
  simp only [bind_eq_bind,run_bind]
  have hw := currentNonce_world env id.deviceID m
  split
  · exact ⟨⟨_,_,rfl⟩,hw⟩
  split
  · exact ⟨⟨_,_,rfl⟩,hw⟩
  · exact ⟨⟨_,_,rfl⟩,hw⟩

theorem authenticate_frame (env : Env) (cfg : Config) (req : Message) (id : Identity)
    (sess : Session) (t : Option Transport) (m : Machine) :
    let r := (authenticate cfg req id sess t).run env.handler m
    sess.AuthChange r.1.2 ∧ r.2.world = m.world := by
  unfold authenticate
  split
  · exact ⟨⟨_,_,rfl⟩,rfl⟩
  simp only [bind_eq_bind,run_bind]
  have hw : ((certificateTrusted id t).run env.handler m).2.world = m.world := by
    unfold certificateTrusted
    by_cases hc : verifiedPeerChains t = []
    · rw [if_pos hc]; rfl
    · rw [if_neg hc]; rfl
  split
  · exact ⟨⟨_,_,rfl⟩,hw⟩
  obtain ⟨⟨a,ty,hs⟩,hw'⟩ := authenticateCred_frame env cfg req id sess.dropCertificate
    ((certificateTrusted id t).run env.handler m).2
  refine ⟨⟨a,ty,hs.trans ?_⟩,hw'.trans hw⟩
  unfold Session.dropCertificate
  split <;> rfl

structure Answered (cfg : Config) (req : Message) (sess : Session) (world : World)
    (sess' : Session) (world' : World) (reply : Option Message) where
  acked : Work
  reads : Queue
  built : Work
  sent : Queue
  isAcked : (greeted cfg req sess).ackAll cfg req req.body.commands = .ok acked
  grows : world.queue.ReadsOf acked.sess.deviceID
    ((fileStatuses acked.sess req.body.statuses).readsFor cfg req world.queue) reads
  isBuilt : Built cfg req (acked.setSess (·.filed req)) reads built sent
  finished : Finished built { world with queue := sent } sess' world' reply

structure Challenged (cfg : Config) (req : Message) (outcome : AuthOutcome) (sess : Session)
    (world : World) (sess' : Session) (world' : World) (reply : Option Message) where
  chal : Syncml.Chal
  nonces : GoMap NonceRecord
  finished : Finished ((startWork cfg req sess).challenge req outcome chal)
    { world with nonces := nonces } sess' world' reply

section Building
variable {env : Env} {cfg : Config} {req : Message} {id : Identity} {outcome : AuthOutcome}
  {sess sess' : Session} {reply : Option Message} {w₁ : Work} {m m₁ : Machine} {world' : World}

theorem built_answered
    (h : exec env.handler (build cfg req id .trusted) (startWork cfg req sess) m = ((.ok (),w₁),m₁))
    (f : Finished w₁ m₁.world sess' world' reply) :
    ∃ a : Answered cfg req sess m.world sess' world' reply, a.built = w₁ := by
  obtain ⟨acked,q₁,q₂,ha,hg,hb,hm⟩ := answer_ok h
  rw [hm] at f
  exact ⟨⟨acked,q₁,w₁,q₂,ha,hg,hb,f⟩,rfl⟩

theorem built_challenged (ho : outcome ≠ .trusted)
    (h : exec env.handler (build cfg req id outcome) (startWork cfg req sess) m = ((.ok (),w₁),m₁))
    (f : Finished w₁ m₁.world sess' world' reply) :
    ∃ a : Challenged cfg req outcome sess m.world sess' world' reply,
      (startWork cfg req sess).challenge req outcome a.chal = w₁ := by
  unfold build at h
  rw [if_neg ho] at h
  obtain ⟨⟨chal,hw⟩,n,hm⟩ := challenge_ok h
  rw [hm,hw] at f
  exact ⟨⟨chal,n,f⟩,hw.symm⟩

theorem built_finished
    (h : exec env.handler (build cfg req id outcome) (startWork cfg req sess) m = ((.ok (),w₁),m₁))
    (hf : Nonempty (Finished w₁ m₁.world sess' world' reply)) :
    (outcome = .trusted → Nonempty (Answered cfg req sess m.world sess' world' reply)) ∧
    (outcome ≠ .trusted →
      Nonempty (Challenged cfg req outcome sess m.world sess' world' reply)) := by
  obtain ⟨f⟩ := hf
  refine ⟨fun ho => ?_,fun ho => ?_⟩
  · subst ho
    obtain ⟨a,-⟩ := built_answered h f
    exact ⟨a⟩
  · obtain ⟨a,-⟩ := built_challenged ho h f
    exact ⟨a⟩

end Building

theorem respond_ok {id : Identity}
    {outcome : AuthOutcome}
    (h : exec env.handler (respond cfg req id outcome) (startWork cfg req sess) m =
      ((.ok reply,w'),m')) :
    (outcome = .trusted → Nonempty (Answered cfg req sess m.world w'.sess m'.world reply)) ∧
    (outcome ≠ .trusted →
      Nonempty (Challenged cfg req outcome sess m.world w'.sess m'.world reply)) := by
  replace h := (exec_bind_ok _).mp h
  obtain ⟨_,w₁,m₁,h₁,h⟩ := h
  exact built_finished h₁ (finish_ok h)

/-- Everything a call of `Handle` that returned without an error has done. -/
structure Accepted (cfg : Config) (t : Option Transport) (req : Message) (w : World)
    (out : Handled) (w' : World) (reply : Option Message) where
  id : Identity
  arrived : Session
  entered : World
  outcome : AuthOutcome
  sess : Session
  sess' : Session
  valid : Syncml.validate req = []
  arrival : Arrival req id t w arrived entered
  authChange : arrived.AuthChange sess
  auth : out.auth = some outcome
  final : out.sess = some sess'
  answered : outcome = .trusted → Nonempty (Answered cfg req sess entered sess' w' reply)
  challenged : outcome ≠ .trusted →
    Nonempty (Challenged cfg req outcome sess entered sess' w' reply)

def Op.acts : Op → Bool
  | .hook _ | .enqueue _ _ _ | .deliverable _ _ | .markSent _ _ | .storeResult _ _ _ => true
  | _ => false

/-- A call that is made to find the session and to authenticate the sender, or
to end a failed call. -/
def Op.opens : Op → Bool
  | .lookup _ | .trustCertificate _ _ | .now | .newMaps | .getSession _ | .abandon _ _ |
    .nonceGet _ => true
  | _ => false

theorem Op.acts_of_opens {op : Op} (h : op.opens = true) : op.acts = false := by
  cases op <;> first | rfl | cases h

def World.handedOver (w : World) (result : Except Err (Option Message)) (wk : Work) : World :=
  match result with
  | .ok _ => w
  | .error _ => { w with sessions := MemorySessions.abandon w.sessions wk.sess wk.popped }

/-- A call of `Handle` that has found or opened its session, with the outcome
of `authenticate` and of what came after it. -/
structure Reached (cfg : Config) (env : Env) (t : Option Transport) (req : Message) (w : World) where
  id : Identity
  arrived : Session
  start : Machine
  outcome : AuthOutcome
  sess : Session
  authed : Machine
  result : Except Err (Option Message)
  work : Work
  stop : Machine
  valid : Syncml.validate req = []
  found : env.lookup 0 req.header.source.locURI = some id
  enters : (session req id t).run env.handler (({ world := w } : Machine).step w) = (.ok arrived,start)
  arrival : Arrival req id t w arrived start.world
  authenticates :
    (authenticate cfg req id arrived t).run env.handler start = ((outcome,sess),authed)
  responds : exec env.handler (respond cfg req id outcome) (startWork cfg req sess) authed =
    ((result,work),stop)
  out : (serve cfg env t req w).1 =
    { auth := some outcome, sess := some work.sess, reply := result }
  after : (serve cfg env t req w).2 = stop.world.handedOver result work
  calls : ∃ first last, (handle cfg t req).calls env.handler { world := w } =
      first ++ (authenticate cfg req id arrived t).calls env.handler start ++
      (respond cfg req id outcome (startWork cfg req sess)).calls env.handler authed ++ last ∧
    ∀ x ∈ first ++ last, x.1.opens = true

theorem openSession_only (req : Message) (id : Identity) (t : Option Transport) :
    (openSession req id t).Only (Op.opens · = true) := by
  unfold openSession
  split
  · trivial
  split
  · trivial
  · exact ⟨rfl,fun _ => ⟨rfl,fun _ => ⟨rfl,fun _ => trivial⟩⟩⟩

def sessionFrom (req : Message) (id : Identity) (t : Option Transport)
    (got : Except StoreError Session) : Program Op Ans (Except Err Session) :=
  match ofEnrollment id got with
  | .ok sess => continueSession req t sess
  | .error .notFound => openSession req id t
  | .error e => pure (.error (.session e))

theorem session_only (req : Message) (id : Identity) (t : Option Transport) :
    (session req id t).Only (Op.opens · = true) := by
  refine ⟨rfl,fun got => ?_⟩
  change (sessionFrom req id t got).Only _
  unfold sessionFrom
  split
  · unfold continueSession
    split
    · trivial
    · exact ⟨rfl,fun _ => trivial⟩
  · exact openSession_only req id t
  · trivial

theorem session_error {id : Identity} {e : Err}
    (h : (session req id t).run env.handler m = (.error e,m')) :
    ∃ sessions, (sessions = m.world.sessions ∨
        sessions = m.world.sessions.erase (Message.sessionKey req)) ∧
      m'.world = { m.world with sessions := sessions } := by
  unfold session at h
  simp only [bind_eq_bind,run_bind,run_perform] at h
  have hopen : ∀ m₁ : Machine, (openSession req id t).run env.handler m₁ = (.error e,m') →
      m' = m₁ := by
    intro m₁ ho
    unfold openSession at ho
    split at ho
    · cases ho; rfl
    split at ho
    · cases ho; rfl
    · cases ho
  rcases getSession_answer env (Message.sessionKey req) m with
    ⟨s,hs,hg⟩ | ⟨hr,sessions,hs,hg⟩ | hg
  · refine ⟨_,.inl rfl,?_⟩
    rw [hg] at h
    simp only [ofEnrollment] at h
    by_cases hk : s.enrollmentKey = id.enrollmentKey
    · simp only [hk,ne_eq,not_true_eq_false,if_false,continueSession] at h
      split at h
      · cases h; rfl
      · cases h
    · simp only [ne_eq,hk,not_false_eq_true,if_true] at h
      rw [hopen _ h]
      rfl
  · rw [hg,hr] at h
    exact ⟨sessions,hs,by rw [hopen _ h]; rfl⟩
  rw [hg] at h
  cases h
  exact ⟨_,.inl rfl,rfl⟩

/-- A call ends before it is authenticated and leaves the world as it was, or is reached. -/
theorem serve_cases (cfg : Config) (env : Env) (t : Option Transport) (req : Message) (w : World) :
    (serve cfg env t req w).1.auth = none ∧
      (∀ x ∈ (handle cfg t req).calls env.handler { world := w }, x.1.opens = true) ∧
      (∃ e, (serve cfg env t req w).1.reply = .error e) ∧
      (∃ sessions, (sessions = w.sessions ∨ sessions = w.sessions.erase (Message.sessionKey req)) ∧
        (serve cfg env t req w).2 = { w with sessions := sessions }) ∨
    Nonempty (Reached cfg env t req w) := by
  by_cases hv : Syncml.validate req ≠ []
  · left
    unfold serve handle
    rw [if_pos hv]
    exact ⟨rfl,fun x hx => (List.not_mem_nil hx).elim,⟨_,rfl⟩,_,.inl rfl,rfl⟩
  generalize hm₁ : ({ world := w } : Machine).step w = m₁
  have hw₁ : m₁.world = w := by rw [← hm₁]; rfl
  have hserve : ∀ found, env.lookup 0 req.header.source.locURI = found →
      (handle cfg t req).run env.handler { world := w } =
        (handleFrom cfg t req found).run env.handler m₁ ∧
      (handle cfg t req).calls env.handler { world := w } =
        ⟨.lookup req.header.source.locURI,found⟩ ::
          (handleFrom cfg t req found).calls env.handler m₁ := by
    intro found hf
    unfold handle
    rw [if_neg hv,← hm₁,← hf]
    exact ⟨rfl,rfl⟩
  cases hid : env.lookup 0 req.header.source.locURI with
  | none =>
    left
    obtain ⟨hrun,hcalls⟩ := hserve none hid
    unfold serve
    rw [hrun,hcalls]
    refine ⟨rfl,fun x hx => ?_,⟨_,rfl⟩,_,.inl rfl,hw₁⟩
    rw [List.mem_singleton.mp hx]
    rfl
  | some id =>
    obtain ⟨hrun,hcalls⟩ := hserve (some id) hid
    simp only [handleFrom,bind_eq_bind,run_bind,calls_bind] at hrun hcalls
    rcases hs : (session req id t).run env.handler m₁ with ⟨r,m₂⟩
    rw [hs] at hrun hcalls
    cases r with
    | error e =>
      left
      obtain ⟨sessions,hse,hm₂⟩ := session_error hs
      rw [hw₁] at hse hm₂
      unfold serve
      rw [hrun,hcalls]
      refine ⟨rfl,fun x hx => ?_,⟨_,rfl⟩,sessions,hse,hm₂⟩
      rcases List.mem_cons.mp hx with rfl | hx
      · rfl
      rw [show (handleIn cfg t req id (.error e)).calls env.handler m₂ = [] from rfl,
        List.append_nil] at hx
      exact (session_only req id t).calls env.handler m₁ x hx
    | ok arrived =>
      right
      have harr := session_ok hs
      rw [hw₁] at harr
      simp only [handleIn,bind_eq_bind,run_bind,calls_bind] at hrun hcalls
      rcases ha : (authenticate cfg req id arrived t).run env.handler m₂ with ⟨⟨outcome,sess⟩,m₃⟩
      rw [ha] at hrun hcalls
      rcases hr : (respond cfg req id outcome (startWork cfg req sess)).run env.handler m₃ with
        ⟨⟨r,wk⟩,m₄⟩
      simp only [hr] at hrun hcalls
      refine ⟨⟨id,arrived,m₂,outcome,sess,m₃,r,wk,m₄,not_not.mp hv,hid,hm₁ ▸ hs,harr,ha,hr,?_,?_,
        ⟨.lookup req.header.source.locURI,some id⟩ :: (session req id t).calls env.handler m₁,
        (handOver outcome (r,wk)).calls env.handler m₄,?_,?_⟩⟩
      · unfold serve
        rw [hrun]
        cases r <;> rfl
      · unfold serve
        rw [hrun]
        cases r <;> rfl
      · rw [hcalls]
        simp
      intro x hx
      rcases List.mem_append.mp hx with hx | hx
      · rcases List.mem_cons.mp hx with rfl | hx
        · rfl
        · exact (session_only req id t).calls env.handler m₁ x hx
      cases r with
      | ok r => simp [handOver] at hx
      | error e =>
        simp only [handOver,bind_eq_bind,calls_bind,calls_perform,pure_eq_done,calls_done,
          List.append_nil,List.mem_singleton] at hx
        rw [hx]
        rfl

theorem Reached.authenticated {w : World} (r : Reached cfg env t req w) :
    r.arrived.AuthChange r.sess ∧ r.authed.world = r.start.world := by
  have h := authenticate_frame env cfg req r.id r.arrived t r.start
  rw [r.authenticates] at h
  exact h

theorem Reached.accepted {cfg : Config} {env : Env} {t : Option Transport} {req : Message}
    {w : World} (r : Reached cfg env t req w) {reply : Option Message} (hr : r.result = .ok reply) :
    ∃ a : Accepted cfg t req w (serve cfg env t req w).1 (serve cfg env t req w).2 reply,
      a.arrived = r.arrived ∧ a.id = r.id := by
  have hresp := r.responds
  rw [hr] at hresp
  obtain ⟨ht,hn⟩ := respond_ok hresp
  have hauth := authenticate_frame env cfg req r.id r.arrived t r.start
  rw [r.authenticates] at hauth
  have hw : r.authed.world = r.start.world := hauth.2
  have hafter : (serve cfg env t req w).2 = r.stop.world := by
    rw [r.after,hr]
    rfl
  rw [hw] at ht hn
  rw [hafter]
  exact ⟨⟨r.id,r.arrived,r.start.world,r.outcome,r.sess,r.work.sess,r.valid,r.arrival,hauth.1,
    by rw [r.out],by rw [r.out],ht,hn⟩,rfl,rfl⟩

theorem serve_accepted {w : World} (h : (serve cfg env t req w).1.reply = .ok reply) :
    Nonempty (Accepted cfg t req w (serve cfg env t req w).1 (serve cfg env t req w).2 reply) := by
  rcases serve_cases cfg env t req w with ⟨-,-,⟨e,he⟩,-⟩ | ⟨⟨r⟩⟩
  · rw [he] at h
    cases h
  · obtain ⟨a,-⟩ := @Reached.accepted cfg env t req w r reply (by rw [r.out] at h; exact h)
    exact ⟨a⟩

end MicrosoftDM.Mdm
