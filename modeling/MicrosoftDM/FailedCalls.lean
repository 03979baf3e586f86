import Mathlib.Data.List.TakeWhile
import MicrosoftDM.SessionRuns

set_option autoImplicit false

namespace MicrosoftDM.Mdm
open Effect
open Effect.Action (exec exec_bind_ok exec_bind_error FailsOnly)
open MicrosoftDM.Syncml (Item Alert Message Results checkLocURI checkSegments)

/-- The error of a store or hook call that failed. A session, a nonce or a
first read that is not there, or there already, is no such error. -/
def Err.fromCall : Err → Bool
  | .session _ | .auth _ | .hook _ | .store _ => true
  | _ => false

theorem orFail_failsOnly {α : Type} {f : StoreError → Err} (hf : ∀ e, (f e).fromCall = true)
    (r : Except StoreError α) : (Eng.orFail f r).FailsOnly (Err.fromCall · = true) := by
  cases r with
  | ok a => exact .pure a
  | error e => exact .fail (hf e)

theorem hook_failsOnly (h : HookCall) : (Eng.hook h).FailsOnly (Err.fromCall · = true) :=
  .bind (.operate _) (orFail_failsOnly fun _ => rfl)

theorem alertItem_failsOnly (code : Syncml.AlertCode) (it : Item) :
    (alertItem code it).FailsOnly (Err.fromCall · = true) := by
  refine .bind .locals fun w => ?_
  split
  · exact .bind (hook_failsOnly _) fun _ => .update _
  split
  · exact hook_failsOnly _
  · exact .pure ()

theorem alertItems_failsOnly (code : Syncml.AlertCode) (items : List Item) :
    (alertItems code items).FailsOnly (Err.fromCall · = true) := by
  induction items with
  | nil => exact .pure ()
  | cons it rest ih => exact .bind (alertItem_failsOnly code it) fun _ => ih

theorem handleAlert_failsOnly (cfg : Config) (a : Alert) :
    (handleAlert cfg a).FailsOnly (Err.fromCall · = true) := by
  refine .bind (.update _) fun _ => ?_
  split
  · exact .pure ()
  split
  · exact .update _
  split
  · exact .update _
  split
  · exact alertItems_failsOnly _ _
  · exact .pure ()

variable {P : Err → Prop} {uris : List GoString} {s stored : Session} {t : Option Transport}

theorem enqueueRead_failsOnly {id : GoString}
    (h : ∃ get, newGet uris { id := id } = .ok get) : (enqueueRead uris id).FailsOnly P := by
  obtain ⟨get,hget⟩ := h
  unfold enqueueRead
  rw [hget]
  exact .bind .locals fun _ => .bind (.operate _) fun _ => .operate _

theorem checkSegments_append {xs ys : List GoString} (hx : checkSegments xs = none)
    (hy : checkSegments ys = none) : checkSegments (xs ++ ys) = none := by
  induction xs with
  | nil => exact hy
  | cons seg segs ih =>
    simp only [List.cons_append,checkSegments] at hx ⊢
    split at hx
    · cases hx
    split at hx
    · cases hx
    · simp_all

theorem hexDigit_plain : ∀ n < 16, hexDigit n ≠ slash ∧ hexDigit n ≠ 63 := by decide

theorem pathSafe_plain (b : UInt8) (h : pathSafe b = true) : b ≠ slash ∧ b ≠ 63 ∧ b ≠ 42 := by
  refine ⟨?_,?_,?_⟩ <;> rintro rfl <;> revert h <;> decide

theorem pathEscape_plain (s : GoString) : ∀ b ∈ pathEscape s, b ≠ slash ∧ b ≠ 63 := by
  intro b hb
  obtain ⟨x,-,hx⟩ := List.mem_flatMap.mp hb
  split at hx
  · rename_i hs
    rw [List.mem_singleton.mp hx]
    exact ⟨(pathSafe_plain x hs).1,(pathSafe_plain x hs).2.1⟩
  simp only [List.mem_cons,List.not_mem_nil,or_false] at hx
  have hlt := x.toNat_lt
  rcases hx with rfl | rfl | rfl
  · decide
  · exact hexDigit_plain _ (by omega)
  · exact hexDigit_plain _ (by omega)

theorem pathEscape_segment {s : GoString} (h : s ≠ []) :
    pathEscape s ≠ [] ∧ pathEscape s ≠ utf8 "*" := by
  cases s with
  | nil => exact absurd rfl h
  | cons b rest =>
    have hs : utf8 "*" = [42] := by decide
    rw [hs]
    simp only [pathEscape,List.flatMap_cons]
    split
    · rename_i hb
      exact ⟨by simp,fun he => (pathSafe_plain b hb).2.2 (by simpa using (List.cons.inj he).1)⟩
    · exact ⟨by simp,fun he => absurd (List.cons.inj he).1 (by decide)⟩

theorem checkLocURI_channel {provider : GoString} (h : provider ≠ []) :
    ∀ uri ∈ channelReadURIs provider, checkLocURI uri = none := by
  have hnode : utf8 "./Device/Vendor/MSFT/DMClient/Provider/" =
      utf8 "./Device/Vendor/MSFT/DMClient/Provider" ++ [slash] := by decide
  have hseg := pathEscape_segment h
  have hplain := pathEscape_plain provider
  have key : ∀ leaf : GoString, 63 ∉ leaf → checkSegments (splitAt slash leaf) = none →
      checkLocURI (utf8 "./Device/Vendor/MSFT/DMClient/Provider/" ++ pathEscape provider ++
        slash :: leaf) = none := by
    intro leaf hq hleaf
    have hne : utf8 "./Device/Vendor/MSFT/DMClient/Provider" ≠ [] := by decide
    have hhead : (utf8 "./Device/Vendor/MSFT/DMClient/Provider").head? = some 46 := by decide
    have hwhole : utf8 "./Device/Vendor/MSFT/DMClient/Provider/" ++ pathEscape provider ++
        slash :: leaf = utf8 "./Device/Vendor/MSFT/DMClient/Provider" ++
          slash :: (pathEscape provider ++ slash :: leaf) := by
      rw [hnode]
      simp
    have hno : ∀ b ∈ utf8 "./Device/Vendor/MSFT/DMClient/Provider" ++
        slash :: (pathEscape provider ++ slash :: leaf), b ≠ 63 := by
      intro b hb
      simp only [List.mem_append,List.mem_cons] at hb
      rcases hb with hb | rfl | hb | rfl | hb
      · revert b; decide +kernel
      · decide
      · exact (hplain b hb).2
      · decide
      · exact fun he => hq (he ▸ hb)
    rw [hwhole]
    unfold checkLocURI
    rw [if_neg (by simp),List.head?_append_of_ne_nil _ hne,hhead,if_neg (by decide),
      List.takeWhile_eq_self_iff.mpr (by simpa using hno),splitAt_append,splitAt_append,
      splitAt_of_notMem fun hs => (hplain _ hs).1 rfl]
    refine checkSegments_append (by decide) (checkSegments_append ?_ hleaf)
    simp [checkSegments,hseg.1,hseg.2]
  intro uri hu
  simp only [channelReadURIs,List.mem_cons,List.not_mem_nil,or_false] at hu
  rcases hu with rfl | rfl
  · exact key "Push/ChannelURI" (by decide) (by decide)
  · exact key "Push/Status" (by decide) (by decide)

theorem newGet_one {uri : GoString} (h : checkLocURI uri = none) (o : Options) :
    ∃ get, newGet [uri] o = .ok get := by
  simp [newGet,getItems,item,h]

theorem newGet_firstReads (id : GoString) : ∃ get, newGet firstReadURIs { id := id } = .ok get := by
  have hu : ∀ u ∈ firstReadURIs, checkLocURI u = none ∧ scopeOf u = .device := by decide +kernel
  have hitems : ∀ (us : List GoString) (o : Options),
      (∀ u ∈ us, checkLocURI u = none ∧ scopeOf u = .device) →
      ∃ items, getItems .device o us = .ok items := by
    intro us o h
    induction us with
    | nil => exact ⟨[],rfl⟩
    | cons u us ih =>
      obtain ⟨items,hi⟩ := ih fun x hx => h x (List.mem_cons_of_mem u hx)
      have h₁ := h u List.mem_cons_self
      simp [getItems,item,h₁.1,h₁.2,hi]
  obtain ⟨items,hi⟩ := hitems firstReadURIs { id := id } hu
  have hscope : scopeOf "./DevDetail/SwV" = .device := (hu _ List.mem_cons_self).2
  unfold newGet
  rw [show firstReadURIs = utf8 "./DevDetail/SwV" :: firstReadURIs.tail from rfl] at hi ⊢
  simp only [hscope,hi]
  exact ⟨_,rfl⟩

theorem channelReads_failsOnly
    (h : ∀ uri ∈ uris, checkLocURI uri = none) :
    (channelReads uris).FailsOnly (Err.fromCall · = true) := by
  induction uris with
  | nil => exact .pure ()
  | cons uri uris ih =>
    exact .bind (enqueueRead_failsOnly (newGet_one (h uri List.mem_cons_self) _)) fun r =>
      .bind (orFail_failsOnly (fun _ => rfl) r) fun _ =>
        ih fun x hx => h x (List.mem_cons_of_mem uri hx)

theorem firstReads_failsOnly : firstReads.FailsOnly (Err.fromCall · = true) := by
  refine .bind .locals fun w => .bind (enqueueRead_failsOnly (newGet_firstReads _)) fun r => ?_
  unfold unlessConflict
  split
  · exact .pure ()
  · exact .pure ()
  · exact .fail rfl

theorem recordPackageOne_failsOnly (cfg : Config) (req : Message) :
    (recordPackageOne cfg req).FailsOnly (Err.fromCall · = true) := by
  refine .bind (.update _) fun _ => .bind ?_ fun _ => .bind .locals fun w => ?_
  · refine .bind .locals fun w => ?_
    split
    · exact hook_failsOnly _
    · exact .pure ()
  split
  · exact .pure ()
  refine .bind firstReads_failsOnly fun _ => ?_
  split
  · rename_i h
    exact channelReads_failsOnly (checkLocURI_channel h)
  · exact .pure ()

theorem stamp_failsOnly (msgID : GoString) (ids : List GoString) :
    (stamp msgID ids).FailsOnly P := by
  induction ids with
  | nil => exact .pure _
  | cons id ids ih => exact .bind (.operate _) fun _ => .bind ih fun _ => .pure _

theorem markDelivered_failsOnly (sent : List GoString) :
    (markDelivered sent).FailsOnly (Err.fromCall · = true) := by
  unfold markDelivered
  split
  · exact .pure ()
  · exact .bind .locals fun _ => .bind (stamp_failsOnly _ _) fun _ => .bind (.operate _) fun r =>
      orFail_failsOnly (fun _ => rfl) r

theorem deliver_failsOnly (cfg : Config) : (deliver cfg).FailsOnly (Err.fromCall · = true) := by
  refine .bind .locals fun w => ?_
  split
  · exact .update _
  · exact .bind (.operate _) fun r => .bind (orFail_failsOnly (fun _ => rfl) r) fun _ =>
      .bind (.update _) fun _ => .bind (markDelivered_failsOnly _) fun _ => .update _

theorem complete_failsOnly (cfg : Config) (req : Message) :
    (complete cfg req).FailsOnly (Err.fromCall · = true) := by
  refine .bind .locals fun w => ?_
  split
  · exact .update _
  split
  · refine .bind .locals fun w => ?_
    split
    · exact .update _
    · exact deliver_failsOnly cfg
  · exact deliver_failsOnly cfg

theorem challenge_failsOnly (cfg : Config) (req : Message) (id : Identity) (outcome : AuthOutcome) :
    (challenge cfg req id outcome).FailsOnly (Err.fromCall · = true) := by
  unfold challenge
  split
  · exact .update _
  refine .bind ?_ fun _ => .update _
  exact .bind (.operate _) fun _ => .bind (.operate _) fun r =>
    .bind (orFail_failsOnly (fun _ => rfl) r) fun _ => .pure _

theorem flushLoop_failsOnly (order : List GoString) :
    (flushLoop order).FailsOnly (Err.fromCall · = true) := by
  induction order with
  | nil => exact .pure ()
  | cons id ids ih =>
    refine .bind (.bind .locals fun w => ?_) fun _ => ih
    split
    · exact .pure ()
    · exact .bind (.operate _) fun _ => .bind (.operate _) fun r =>
        .bind (orFail_failsOnly (fun _ => rfl) r) fun _ => .update _

theorem flushResults_failsOnly : flushResults.FailsOnly (Err.fromCall · = true) :=
  .bind .locals fun _ => .bind (.operate _) fun order => flushLoop_failsOnly order

theorem storeSession_failsOnly (cfg : Config) :
    (storeSession cfg).FailsOnly (Err.fromCall · = true) := by
  refine .bind .locals fun w => ?_
  split
  · refine .bind (.operate _) fun r => .bind (orFail_failsOnly (fun _ => rfl) r) fun _ =>
      .bind .locals fun w => ?_
    split
    · exact hook_failsOnly _
    · exact .pure ()
  · exact .bind (.operate _) fun r => .bind (orFail_failsOnly (fun _ => rfl) r) fun _ => .update _

variable {cfg : Config} {env : Env} {e : Err} {m m' : Machine} {req : Message} {w' : Work}

theorem ackCommands_error {cs : List Syncml.Command} {w : Work} (he : e.fromCall = false)
    (h : exec env.handler (ackCommands cfg req cs) w m = ((.error e,w'),m')) :
    w.sess.Taking w'.sess ∧ w'.popped = w.popped ∧ m'.world = m.world := by
  induction cs generalizing w m with
  | nil => cases h
  | cons c cs ih =>
    rcases (exec_bind_error _).mp h with h₁ | ⟨_,w₁,m₁,h₁,h₂⟩
    · cases c with
      | status _ | leaf _ _ | group _ _ _ _ _ => cases h₁
      | alert a =>
        have := (handleAlert_failsOnly cfg a).exec h₁
        rw [he] at this
        cases this
      | results res =>
        rcases (exec_bind_error _).mp h₁ with h₂ | ⟨_,_,_,h₂,h₁⟩
        · cases h₂
        cases h₂
        rcases (exec_bind_error _).mp h₁ with h₂ | ⟨_,_,_,h₂,h₁⟩
        · cases h₂
        cases h₂
        split at h₁
        · cases h₁
        · cases h₁
          exact ⟨fileResults_taking _ _ _,rfl,rfl⟩
    · obtain ⟨ha,hm⟩ := ackCommand_ok h₁
      obtain ⟨hc,hp,hm'⟩ := ih h₂
      exact ⟨(Session.take_taking (Work.ack_sess ha)).trans hc,hp.trans (Work.ack_repliesOn ha).2,
        hm'.trans hm⟩

theorem answer_error {sess : Session} (he : e.fromCall = false)
    (h : exec env.handler (answer cfg req) (startWork cfg req sess) m = ((.error e,w'),m')) :
    sess.Taking w'.sess ∧ w'.popped = false ∧ m'.world = m.world := by
  have hno : ∀ {p : Prop}, e.fromCall = true → p := by
    intro p h
    rw [he] at h
    cases h
  rcases (exec_bind_error _).mp h with h₁ | ⟨_,_,_,h₁,h⟩
  · cases h₁
  cases h₁
  rcases (exec_bind_error _).mp h with h₁ | ⟨_,_,_,h₁,h⟩
  · rcases (exec_bind_error _).mp h₁ with h₂ | ⟨_,_,_,h₂,h₁⟩
    · exact ackCommands_error he h₂
    rcases (exec_bind_error _).mp h₁ with h₃ | ⟨_,_,_,h₃,h₁⟩
    · cases h₃
    rcases (exec_bind_error _).mp h₁ with h₄ | ⟨_,_,_,h₄,h₁⟩
    · cases h₄
    split at h₁
    · exact hno ((recordPackageOne_failsOnly cfg req).exec h₁)
    · cases h₁
  · exact hno ((complete_failsOnly cfg req).exec h)

theorem writeThrough_self (s : Session) : MemorySessions.writeThrough s s false = s := by
  have h : ∀ {α : Type} (o : Option α), (o.bind fun a => some (o.getD a)) = o := by
    intro α o
    cases o <;> rfl
  simp only [MemorySessions.writeThrough,h]
  rfl

variable {w : World}

theorem handedOver_stored {wk : Work}
    (h : w.sessions.lookup wk.sess.key = none ∨ wk.popped = false ∧
      ∃ sessions : MemorySessions, w.sessions = sessions.insert wk.sess.key wk.sess) :
    w.handedOver (.error e) wk = w := by
  unfold World.handedOver MemorySessions.abandon
  rcases h with h | ⟨hp,sessions,hs⟩
  · simp [h]
  have hl : w.sessions.lookup wk.sess.key = some wk.sess := by rw [hs]; exact AList.lookup_insert _
  have hi : w.sessions.insert wk.sess.key wk.sess = w.sessions := by
    rw [hs,AList.insert_insert]
  simp only [hl,if_true,hp,writeThrough_self,hi]

theorem finish_error {w : Work} (he : e.fromCall = false)
    (h : exec env.handler (finish cfg) w m = ((.error e,w'),m')) :
    Nonempty (Finished w m.world w'.sess m'.world (some w'.resp)) ∧
    (∃ err, Syncml.encode [] w'.resp = .error err) ∧
    m'.world.handedOver (.error e) w' = m'.world := by
  have hno : ∀ {p : Prop}, e.fromCall = true → p := by
    intro p h
    rw [he] at h
    cases h
  rcases (exec_bind_error _).mp h with h₁ | ⟨_,w₁,m₁,h₁,h⟩
  · exact hno (flushResults_failsOnly.exec h₁)
  rcases (exec_bind_error _).mp h with h₂ | ⟨_,_,_,h₂,h⟩
  · cases h₂
  cases h₂
  rcases (exec_bind_error _).mp h with h₃ | ⟨_,w₃,m₃,h₃,h⟩
  · exact hno ((storeSession_failsOnly cfg).exec h₃)
  rcases (exec_bind_error _).mp h with h₄ | ⟨_,_,_,h₄,h⟩
  · cases h₄
  cases h₄
  have hw : w' = w₃ ∧ m' = m₃ ∧ ∃ err, Syncml.encode [] w₃.resp = .error err := by
    unfold encodeReply at h
    split at h
    · cases h
    split at h
    · cases h
    rename_i err hx
    cases h
    exact ⟨rfl,rfl,err,hx⟩
  obtain ⟨rfl,rfl,hx⟩ := hw
  refine ⟨finished_of_stored h₁ h₃ (.inr rfl),hx,?_⟩
  obtain ⟨hs,-,hp,hm⟩ := storeSession_ok h₃
  apply handedOver_stored
  rw [hm,hs]
  simp only [Work.storedIn]
  split
  · exact .inl (AList.lookup_erase _ _)
  · rename_i hend
    exact .inr ⟨hp (by simpa using hend),_,rfl⟩

/-- A call in which no store or hook call failed did everything, or stopped at a chunk before
anything was filed for good. -/
theorem Reached.undisturbed (r : Reached cfg env t req w)
    (hu : ∀ e, r.result = .error e → e.fromCall = false) : (∃ reply,
      (r.outcome = .trusted → Nonempty (Answered cfg req r.sess r.start.world r.work.sess
        (serve cfg env t req w).2 reply)) ∧
      (r.outcome ≠ .trusted → Nonempty (Challenged cfg req r.outcome r.sess r.start.world
        r.work.sess (serve cfg env t req w).2 reply)) ∧
      (r.result = .ok reply ∨
        reply = some r.work.resp ∧ ∃ err, Syncml.encode [] r.work.resp = .error err)) ∨
    r.outcome = .trusted ∧ r.sess.Taking r.work.sess ∧
      (serve cfg env t req w).2 = { r.start.world with
        sessions := MemorySessions.abandon r.start.world.sessions r.work.sess false } ∧
      ∃ e, r.result = .error e := by
  have hw := r.authenticated.2
  have hafter := r.after
  have hresp := r.responds
  cases hr : r.result with
  | ok reply =>
    rw [hr] at hafter hresp
    obtain ⟨ht,hn⟩ := respond_ok hresp
    rw [hw] at ht hn
    rw [hafter]
    exact .inl ⟨reply,ht,hn,.inl rfl⟩
  | error e =>
    have he := hu e hr
    rw [hr] at hafter hresp
    rcases (exec_bind_error _).mp hresp with h₁ | ⟨_,w₁,m₁,h₁,h⟩
    · unfold build at h₁
      split at h₁
      · rename_i ho
        obtain ⟨hc,hp,hm⟩ := answer_error he h₁
        refine .inr ⟨ho,hc,hafter.trans ?_,e,rfl⟩
        rw [World.handedOver,hp,hm,hw]
      · have := (challenge_failsOnly cfg req r.id r.outcome).exec h₁
        rw [he] at this
        cases this
    · obtain ⟨hf,hx,hsame⟩ := finish_error he h
      rw [hsame] at hafter
      obtain ⟨ht,hn⟩ := built_finished h₁ hf
      rw [hw] at ht hn
      rw [hafter]
      exact .inl ⟨some r.work.resp,ht,hn,.inr ⟨rfl,hx⟩⟩

theorem Session.Sound.writeThrough {key : GoString} (h : stored.Sound key)
    (hs : KeysUpTo stored.serverMsgID s.sent) (hc : KeysUpTo stored.serverMsgID s.children)
    (hu : ∀ id, (s.pendingOf id).status = none) :
    (MemorySessions.writeThrough stored s false).Sound key := by
  refine ⟨h.key,h.msgID,h.pos,h.bound,hs,hc,h.notClosed,fun id => ?_⟩
  have hpend := h.unanswered id
  have hsp := hu id
  unfold Session.pendingOf at hpend hsp ⊢
  simp only [MemorySessions.writeThrough]
  cases hr : stored.results with
  | none => rfl
  | some r =>
    rw [hr] at hpend
    cases hr' : s.results with
    | none => simpa using hpend
    | some r' =>
      rw [hr'] at hsp
      simpa using hsp

theorem Arrival.keys {id : Identity} {w' : World}
    (h : Arrival req id t w s w') (hw : w.Sound)
    (hl : w'.sessions.lookup (Message.sessionKey req) = some stored) :
    KeysUpTo stored.serverMsgID s.sent ∧ KeysUpTo stored.serverMsgID s.children := by
  obtain ⟨base,now,mm,mo,uao,rfl,⟨hs,hk,hm,rfl⟩ | ⟨sessions,start,hs,rfl,hm,hp,rfl⟩⟩ := h.shape
  · rw [hs] at hl
    cases hl
    exact ⟨(hw _ _ hs).sent,(hw _ _ hs).children⟩
  · exact ⟨.empty _,.empty _⟩

def Call.Undisturbed (c : Call) (cfg : Config) : Prop :=
  ∀ e, (c.out cfg).reply = .error e → e.fromCall = false

instance (c : Call) (cfg : Config) : Decidable (c.Undisturbed cfg) :=
  match h : (c.out cfg).reply with
  | .ok _ => .isTrue fun e he => by rw [h] at he; cases he
  | .error x => decidable_of_iff (x.fromCall = false)
      ⟨fun hx e he => by rw [h] at he; cases he; exact hx,fun hu => hu x h⟩

theorem Call.Undisturbed.sound {c : Call} (hu : c.Undisturbed cfg) (hw : c.before.Sound) :
    (c.after cfg).Sound := by
  rcases serve_cases cfg c.env c.transport c.req c.before with
    ⟨-,-,-,sessions,hs,hafter⟩ | ⟨⟨r⟩⟩
  · unfold Call.after
    rw [hafter]
    intro key s hl
    rcases hs with rfl | rfl
    · exact hw key s hl
    · exact hw key s (GoMap.lookup_erase_some hl).2
  · have hres : ∀ e, r.result = .error e → e.fromCall = false := by
      intro e he
      exact hu e (by rw [Call.out,r.out]; exact he)
    obtain ⟨he,hent⟩ := r.arrival.entered hw
    have hs : r.sess.Entered c.req := he.authChange r.authenticated.1
    rcases r.undisturbed hres with ⟨reply,ht,hn,-⟩ | ⟨-,hcut,hafter,-⟩
    · by_cases ho : r.outcome = .trusted
      · obtain ⟨x⟩ := ht ho
        exact (x.sound hs hent).1
      · obtain ⟨x⟩ := hn ho
        exact x.sound hs hent
    · unfold Call.after
      rw [hafter]
      have hkey : r.work.sess.key = Message.sessionKey c.req :=
        hcut.steady.key.trans hs.key
      unfold MemorySessions.abandon
      rw [hkey]
      cases hl : r.start.world.sessions.lookup (Message.sessionKey c.req) with
      | none => exact hent
      | some stored =>
        dsimp only
        split
        · intro key s hls
          rcases GoMap.lookup_insert_cases hls with ⟨rfl,rfl⟩ | ⟨-,hls⟩
          · obtain ⟨hks,hkc⟩ := r.arrival.keys hw hl
            obtain ⟨a,ty,hsess⟩ := r.authenticated.1
            have hsess : r.sess = _ := hsess
            refine (hent _ _ hl).writeThrough ?_ ?_ ?_
            · rw [hcut.sent,hsess]; exact hks
            · rw [hcut.children,hsess]; exact hkc
            · exact fun id => (hcut.status id).trans (hs.unanswered id)
          · exact hent key s hls
        · exact hent

end MicrosoftDM.Mdm
