import MicrosoftDM.FailedCalls

set_option autoImplicit false

namespace MicrosoftDM.Mdm
open Effect
open Effect.Action (exec Keeps)
open MicrosoftDM.Syncml (Item Message)

structure Work.Idle (w : Work) : Prop where
  unanswered : ∀ id, (w.sess.pendingOf id).status = none
  notClosed : w.sess.closed = false
  notFinal : w.resp.body.final = false

theorem Work.Idle.not_ending {w : Work} (h : w.Idle) : w.ending = false := by
  simp [Work.ending,h.notClosed,h.notFinal]

theorem orFail_keeps {α : Type} {P : Op → Prop} {Q : Work → Prop} {w : Work} (hw : Q w)
    (f : StoreError → Err) (r : Except StoreError α) :
    (Eng.orFail f r).Keeps P (fun _ => Q) w := by
  cases r with
  | ok a => exact .pure hw
  | error e => exact .fail _

theorem challenge_keeps (cfg : Config) (req : Message) (id : Identity) (outcome : AuthOutcome)
    {w : Work} (hw : w.Idle) :
    (challenge cfg req id outcome).Keeps (Op.acts · = false) (fun _ => Work.Idle) w := by
  have hidle : ∀ {w : Work} (chal : Syncml.Chal), w.Idle → (w.challenge req outcome chal).Idle :=
    fun _ h => ⟨h.unanswered,h.notClosed,h.notFinal⟩
  unfold challenge
  split
  · exact .update (hidle _ hw)
  refine .bind (Q := fun _ => Work.Idle) ?_ fun nonce w h => .update (hidle _ h)
  refine .bind (.operate rfl fun _ => hw) fun nonce w h => ?_
  refine .bind (.operate rfl fun _ => h) fun stored w h => ?_
  exact .bind (orFail_keeps h _ stored) fun _ w h => .pure h

theorem flushLoop_keeps (order : List GoString) {w : Work} (hw : w.Idle) :
    (flushLoop order).Keeps (Op.acts · = false) (fun _ => Work.Idle) w := by
  induction order generalizing w with
  | nil => exact .pure hw
  | cons id ids ih =>
    refine .bind (.bind (.locals (Q := fun a w => a = w ∧ w.Idle) ⟨rfl,hw⟩) ?_) fun _ w h => ih h
    rintro a w ⟨rfl,h⟩
    rw [h.unanswered id]
    exact .pure h

theorem finish_keeps (cfg : Config) {w : Work} (hw : w.Idle) :
    (finish cfg).Keeps (Op.acts · = false) (fun _ _ => True) w := by
  refine .bind (Q := fun _ => Work.Idle) ?_ fun _ w h => ?_
  · refine .bind (.locals (Q := fun _ => Work.Idle) hw) fun _ w h => ?_
    exact .bind (.operate rfl fun _ => h) fun order w h => flushLoop_keeps order h
  refine .bind (Q := fun _ => Work.Idle)
    (.update ⟨h.unanswered,h.notClosed,h.notFinal⟩) fun _ w h => ?_
  refine .bind (Q := fun _ _ => True) ?_ fun _ w _ => ?_
  · refine .bind (.locals (Q := fun a w => a = w ∧ w.Idle) ⟨rfl,h⟩) ?_
    rintro a w ⟨rfl,h⟩
    rw [h.not_ending]
    refine .bind (.operate rfl fun _ => h) fun r w h => ?_
    exact .bind (orFail_keeps h _ r) fun _ w h => .update trivial
  · refine .bind (.locals (Q := fun _ _ => True) trivial) fun a w _ => ?_
    unfold encodeReply
    split
    · exact .pure trivial
    split
    · exact .pure trivial
    · exact .fail _

theorem respond_only (cfg : Config) (req : Message) (id : Identity) {outcome : AuthOutcome}
    (ho : outcome ≠ .trusted) {sess : Session} (hs : ∀ id, (sess.pendingOf id).status = none)
    (hc : sess.closed = false) :
    (respond cfg req id outcome (startWork cfg req sess)).Only (Op.acts · = false) := by
  have hb : (build cfg req id outcome).Keeps (Op.acts · = false) (fun _ => Work.Idle)
      (startWork cfg req sess) := by
    unfold build
    rw [if_neg ho]
    exact challenge_keeps cfg req id outcome ⟨hs,hc,rfl⟩
  exact (hb.bind fun _ w h => finish_keeps cfg h).1

/-- The calls of `authenticate`. -/
def Op.checks : Op → Bool
  | .trustCertificate _ _ | .now | .nonceGet _ => true
  | _ => false

theorem currentNonce_only (dev : GoString) : (currentNonce dev).Only (Op.checks · = true) := by
  refine ⟨rfl,fun got => ?_⟩
  change (readNonce got).Only _
  unfold readNonce
  split
  · trivial
  split
  · trivial
  · exact ⟨rfl,fun _ => trivial⟩

theorem authenticateCred_only (cfg : Config) (req : Message) (id : Identity) (sess : Session) :
    (authenticateCred cfg req id sess).Only (Op.checks · = true) := by
  unfold authenticateCred
  split
  · trivial
  refine (currentNonce_only id.deviceID).bind (Q := fun _ => True) ?_ fun nonce _ => ?_
  · refine fun got => ?_
    change (readNonce got).Returns _
    unfold readNonce
    split
    · trivial
    split
    · trivial
    · exact fun _ => trivial
  · split
    · trivial
    · split <;> trivial

theorem authenticate_checks (cfg : Config) (req : Message) (id : Identity) (sess : Session)
    (t : Option Transport) : (authenticate cfg req id sess t).Only (Op.checks · = true) := by
  unfold authenticate
  split
  · trivial
  have hc : (certificateTrusted id t).Only (Op.checks · = true) ∧
      (certificateTrusted id t).Returns fun _ => True := by
    unfold certificateTrusted
    split
    · exact ⟨trivial,trivial⟩
    · exact ⟨⟨rfl,fun _ => trivial⟩,fun _ => trivial⟩
  refine hc.1.bind hc.2 fun trusted _ => ?_
  split
  · trivial
  · exact authenticateCred_only cfg req id _

theorem authenticate_only (cfg : Config) (req : Message) (id : Identity) (sess : Session)
    (t : Option Transport) : (authenticate cfg req id sess t).Only (Op.opens · = true) :=
  (authenticate_checks cfg req id sess t).mono fun op h => by cases op <;> first | rfl | cases h

theorem currentNonce_stored {env : Env} {dev : GoString} {m : Machine}
    (h : ((currentNonce dev).run env.handler m).1 ≠ []) :
    ∃ record now, m.world.nonces.lookup (nonceKey dev) = some record ∧
      record.value = ((currentNonce dev).run env.handler m).1 ∧ record.current now = true ∧
      (record.expiresAt = 0 ∨ ⟨.now,now⟩ ∈ (currentNonce dev).calls env.handler m) := by
  unfold currentNonce at h ⊢
  simp only [bind_eq_bind,run_bind,run_perform,calls_bind,calls_perform] at h ⊢
  have hg : ∀ record, (env.handler (.nonceGet (nonceKey dev)) m).1 = .ok record →
      m.world.nonces.lookup (nonceKey dev) = some record := by
    intro record hr
    have h₁ := (Env.fallible_ok (Prod.ext hr rfl)).1
    change m.world.getNonce (nonceKey dev) = _ at h₁
    unfold World.getNonce at h₁
    split at h₁
    · rename_i hl
      cases h₁
      exact hl
    · cases h₁
  cases hr : (env.handler (.nonceGet (nonceKey dev)) m).1 with
  | error e => simp [hr,readNonce] at h
  | ok record =>
    rw [hr] at h
    refine ⟨record,?_⟩
    simp only [readNonce] at h ⊢
    by_cases hz : record.expiresAt = 0
    · simp only [hz,if_true] at h ⊢
      exact ⟨0,hg record hr,rfl,by simp [NonceRecord.current,hz],.inl trivial⟩
    simp only [hz,if_false,bind_eq_bind,run_bind,run_perform,calls_bind,calls_perform] at h ⊢
    by_cases hc : record.current
        (env.handler Op.now (env.handler (.nonceGet (nonceKey dev)) m).2).1 = true
    · exact ⟨_,hg record hr,(if_pos hc).symm,hc,.inr (List.mem_append_right _
        (List.mem_append_left _ List.mem_cons_self))⟩
    · exact absurd (if_neg hc) h

/-- The credential of the request matches what is stored for the device: with
a nonce that is stored and current, or where Basic is allowed. -/
def CredMatches (cfg : Config) (req : Message) (id : Identity) (w : World)
    (calls : List ((op : Op) × Ans op)) : Prop :=
  ∃ cred nonce, req.header.cred = some cred ∧ verifyCredential cfg.crypto id cred nonce = true ∧
    (id.authType = .digest ∧ (∃ record now, w.nonces.lookup (nonceKey id.deviceID) = some record ∧
        record.value = nonce ∧ record.current now = true ∧
        (record.expiresAt = 0 ∨ ⟨.now,now⟩ ∈ calls)) ∨
      id.authType = .basic ∧ cfg.allowBasic = true)

theorem authenticateCred_outcome (env : Env) (cfg : Config) (req : Message) (id : Identity)
    (sess : Session) (m : Machine) :
    let r := (authenticateCred cfg req id sess).run env.handler m
    (r.1.1 = .trusted → CredMatches cfg req id m.world
        ((authenticateCred cfg req id sess).calls env.handler m) ∧
      r.1.2 = { sess with authenticated := true, authType := some id.authType }) ∧
    (r.1.1 ≠ .trusted → r.1.2 = sess) := by
  unfold authenticateCred
  split
  · exact ⟨(fun h => nomatch h),fun _ => rfl⟩
  rename_i hb
  simp only [bind_eq_bind,run_bind,calls_bind]
  generalize hn : (currentNonce id.deviceID).run env.handler m = n
  obtain ⟨nonce,m'⟩ := n
  cases hc : req.header.cred with
  | none => exact ⟨(fun h => nomatch h),fun _ => rfl⟩
  | some cred =>
    dsimp only
    split
    · rename_i hv
      refine ⟨fun _ => ⟨⟨cred,nonce,hc,hv,?_⟩,rfl⟩,fun h => absurd rfl h⟩
      unfold verifyCredential at hv
      split at hv
      · rename_i ha
        have hne : nonce ≠ [] := by
          simp only [Bool.and_eq_true,decide_eq_true_eq] at hv
          exact hv.1.1.2
        have hst := @currentNonce_stored env id.deviceID m (by rw [hn]; exact hne)
        rw [hn] at hst
        obtain ⟨record,now,h₁,h₂,h₃,h₄⟩ := hst
        exact .inl ⟨ha,record,now,h₁,h₂,h₃,h₄.imp_right (List.mem_append_left _)⟩
      · rename_i ha
        exact .inr ⟨ha,by simpa [ha] using hb⟩
      · cases hv
      · cases hv
    · exact ⟨(fun h => nomatch h),fun _ => rfl⟩

/-- `TrustCertificate` accepted chains whose leaf is the TLS peer. -/
def CertificateAccepted (id : Identity) (t : Option Transport)
    (calls : List ((op : Op) × Ans op)) : Prop :=
  ∃ tr peer chains, t = some tr ∧ Chain.leaf tr.certificates = some peer ∧ chains ≠ [] ∧
    (∀ chain ∈ chains, chain ∈ tr.verifiedChains ∧ Chain.leaf chain = some peer) ∧
    ⟨.trustCertificate id chains,true⟩ ∈ calls

theorem verifiedPeerChains_peer {t : Option Transport} (h : verifiedPeerChains t ≠ []) :
    ∃ tr peer, t = some tr ∧ Chain.leaf tr.certificates = some peer ∧
      ∀ chain ∈ verifiedPeerChains t, chain ∈ tr.verifiedChains ∧ Chain.leaf chain = some peer := by
  cases t with
  | none => exact absurd rfl h
  | some tr =>
    simp only [verifiedPeerChains,Transport.verifiedPeerChains] at h ⊢
    cases hp : Chain.leaf tr.certificates with
    | none => simp [hp] at h
    | some peer =>
      refine ⟨tr,peer,rfl,hp,?_⟩
      intro chain hc
      rw [hp] at h
      dsimp only at h hc
      split at hc
      · simp at hc
      · obtain ⟨hm,hl⟩ := List.mem_filter.mp hc
        exact ⟨hm,by simpa using hl⟩

theorem authenticate_outcome (env : Env) (cfg : Config) (req : Message) (id : Identity)
    (sess : Session) (t : Option Transport) (m : Machine) :
    let r := (authenticate cfg req id sess t).run env.handler m
    let calls := (authenticate cfg req id sess t).calls env.handler m
    (r.1.1 = .trusted →
      sess.authenticated = true ∧ sess.authType ≠ some .certificate ∧ r.1.2 = sess ∨
      CertificateAccepted id t calls ∧ r.1.2.authType = some .certificate ∨
      CredMatches cfg req id m.world calls) ∧
    (r.1.1 ≠ .trusted → r.1.2.authenticated = false) := by
  unfold authenticate
  split
  · rename_i h
    exact ⟨fun _ => .inl ⟨h.1,h.2,rfl⟩,fun h => absurd rfl h⟩
  rename_i hno
  simp only [bind_eq_bind,run_bind,calls_bind]
  have hcert : ((certificateTrusted id t).run env.handler m).2.world = m.world ∧
      (((certificateTrusted id t).run env.handler m).1 = true →
        CertificateAccepted id t ((certificateTrusted id t).calls env.handler m)) := by
    unfold certificateTrusted
    by_cases hc : verifiedPeerChains t = []
    · rw [if_pos hc]
      exact ⟨rfl,(fun h => nomatch h)⟩
    rw [if_neg hc]
    refine ⟨rfl,fun h => ?_⟩
    obtain ⟨tr,peer,ht,hp,hl⟩ := verifiedPeerChains_peer hc
    refine ⟨tr,peer,verifiedPeerChains t,ht,hp,hc,hl,?_⟩
    simp only [calls_perform,List.mem_singleton]
    rw [show (env.handler (.trustCertificate id (verifiedPeerChains t)) m).1 = true from h]
  generalize hx : (certificateTrusted id t).run env.handler m = x at hcert
  obtain ⟨trusted,m'⟩ := x
  dsimp only at hcert ⊢
  cases trusted with
  | true =>
    obtain ⟨tr,peer,chains,h₁,h₂,h₃,h₄,h₅⟩ := hcert.2 rfl
    exact ⟨fun _ => .inr (.inl ⟨⟨tr,peer,chains,h₁,h₂,h₃,h₄,List.mem_append_left _ h₅⟩,rfl⟩),
      fun h => absurd rfl h⟩
  | false =>
    obtain ⟨ht,hn⟩ := authenticateCred_outcome env cfg req id sess.dropCertificate m'
    rw [hcert.1] at ht
    refine ⟨fun h => .inr (.inr ?_),fun h => ?_⟩
    · obtain ⟨cred,nonce,h₁,h₂,h₃⟩ := (ht h).1
      refine ⟨cred,nonce,h₁,h₂,h₃.imp_left ?_⟩
      rintro ⟨ha,record,now,h₄,h₅,h₆,h₇⟩
      exact ⟨ha,record,now,h₄,h₅,h₆,h₇.imp_right (List.mem_append_right _)⟩
    have hs : ((authenticateCred cfg req id sess.dropCertificate).run env.handler m').1.2 =
        sess.dropCertificate := hn h
    change ((authenticateCred cfg req id sess.dropCertificate).run env.handler
      m').1.2.authenticated = false
    rw [hs]
    unfold Session.dropCertificate
    split
    · rfl
    rename_i hty
    cases hau : sess.authenticated with
    | false => rfl
    | true => exact absurd ⟨hau,hty⟩ hno

def Call.trace (c : Call) (cfg : Config) : List ((op : Op) × Ans op) :=
  (handle cfg c.transport c.req).calls c.env.handler { world := c.before }

def Call.identity (c : Call) : Option Identity := c.env.lookup 0 c.req.header.source.locURI

/-- A credential in the message of this call was verified, in the session with
this key, enrollment and maps. -/
def Call.Vouches (c : Call) (cfg : Config) (key enrollmentKey : GoString) (addr : Nat) : Prop :=
  Message.sessionKey c.req = key ∧
  (∃ id, c.identity = some id ∧ id.enrollmentKey = enrollmentKey ∧
    CredMatches cfg c.req id c.before (c.trace cfg)) ∧
  ∃ s, (c.out cfg).sess = some s ∧ s.addr = addr

def World.Vouched (cfg : Config) (past : List Call) (w : World) : Prop :=
  ∀ key s, w.sessions.lookup key = some s → s.authenticated = true →
    s.authType ≠ some .certificate → ∃ d ∈ past, d.Vouches cfg key s.enrollmentKey s.addr

section Reached
variable {cfg : Config} {c : Call}

theorem Call.Undisturbed.result (hu : c.Undisturbed cfg)
    (r : Reached cfg c.env c.transport c.req c.before) :
    ∀ e, r.result = .error e → e.fromCall = false := by
  intro e he
  exact hu e (by rw [Call.out,r.out]; exact he)

theorem Reached.entered (r : Reached cfg c.env c.transport c.req c.before)
    (hw : c.before.Sound) : r.sess.Entered c.req ∧ r.start.world.Sound := by
  obtain ⟨he,hent⟩ := r.arrival.entered hw
  exact ⟨he.authChange r.authenticated.1,hent⟩

theorem Reached.keeps (r : Reached cfg c.env c.transport c.req c.before)
    (hu : c.Undisturbed cfg) (hw : c.before.Sound) :
    r.work.sess.key = Message.sessionKey c.req ∧ r.work.sess.addr = r.arrived.addr ∧
    r.work.sess.enrollmentKey = r.id.enrollmentKey ∧
    r.work.sess.authenticated = r.sess.authenticated ∧ r.work.sess.authType = r.sess.authType := by
  obtain ⟨hs,hent⟩ := r.entered hw
  obtain ⟨a,ty,he⟩ := r.authenticated.1
  have haddr : r.sess.addr = r.arrived.addr := by rw [he]
  have hek : r.sess.enrollmentKey = r.id.enrollmentKey := by
    rw [he]
    change r.arrived.enrollmentKey = r.id.enrollmentKey
    obtain ⟨base,now,mm,mo,uao,hx,⟨-,hk,-⟩ | ⟨sessions,start,-,rfl,-⟩⟩ := r.arrival.shape
    · rw [hx]
      exact hk
    · rw [hx]
      rfl
  have hsteady : ∀ s' : Session, r.sess.Steady s' → s'.key = Message.sessionKey c.req ∧
      s'.addr = r.arrived.addr ∧ s'.enrollmentKey = r.id.enrollmentKey ∧
      s'.authenticated = r.sess.authenticated ∧ s'.authType = r.sess.authType :=
    fun s' h => ⟨h.key.trans hs.key,h.addr.trans haddr,h.enrollmentKey.trans hek,h.authenticated,
      h.authType⟩
  rcases r.undisturbed (hu.result r) with ⟨reply,ht,hn,-⟩ | ⟨-,hcut,-⟩
  · by_cases ho : r.outcome = .trusted
    · obtain ⟨x⟩ := ht ho
      obtain ⟨res,hf⟩ := x.final hs
      have hb := hsteady _ x.steady
      rw [hf]
      exact hb
    · obtain ⟨x⟩ := hn ho
      obtain ⟨res,hf⟩ := x.final hs
      have hb := hsteady _ (.refl _)
      rw [hf]
      exact hb
  · exact hsteady _ hcut.steady

theorem Arrival.frame {req : Message} {id : Identity} {t : Option Transport} {w w' : World}
    {s : Session} (h : Arrival req id t w s w') : w'.nonces = w.nonces ∧
    (∀ key x, w'.sessions.lookup key = some x → w.sessions.lookup key = some x) ∧
    (s.authenticated = true → ∃ stored, w.sessions.lookup (Message.sessionKey req) = some stored ∧
      stored.authenticated = true ∧ stored.authType = s.authType ∧
      stored.enrollmentKey = id.enrollmentKey ∧ stored.addr = s.addr) := by
  obtain ⟨base,now,mm,mo,uao,rfl,⟨hs,hk,hm,rfl⟩ | ⟨sessions,start,hs,rfl,hm,hp,rfl⟩⟩ := h.shape
  · exact ⟨rfl,fun _ _ h => h,fun ha => ⟨base,hs,ha,rfl,hk,rfl⟩⟩
  refine ⟨rfl,?_,fun h => Bool.noConfusion h⟩
  intro key x hl
  rcases hs with rfl | rfl
  · exact hl
  · exact (GoMap.lookup_erase_some hl).2

/-- The evidence for trust: this call's certificate, or a credential that was
verified in this session, in this call or before. -/
theorem Reached.evidence (r : Reached cfg c.env c.transport c.req c.before)
    (hu : c.Undisturbed cfg) (hw : c.before.Sound) {past : List Call}
    (hv : c.before.Vouched cfg past) (ht : r.outcome = .trusted) :
    CertificateAccepted r.id c.transport (c.trace cfg) ∧ r.sess.authType = some .certificate ∨
    ∃ d ∈ past ++ [c], d.Vouches cfg (Message.sessionKey c.req) r.id.enrollmentKey
      r.work.sess.addr := by
  have hout := authenticate_outcome c.env cfg c.req r.id r.arrived c.transport r.start
  rw [r.authenticates] at hout
  obtain ⟨first,last,hcalls,-⟩ := r.calls
  have hsub : ∀ x ∈ (authenticate cfg c.req r.id r.arrived c.transport).calls c.env.handler r.start,
      x ∈ c.trace cfg := by
    intro x hx
    rw [Call.trace,hcalls]
    simp [hx]
  obtain ⟨hkey,haddr,hek,-,-⟩ := r.keeps hu hw
  obtain ⟨hnon,hsess,hstored⟩ := r.arrival.frame
  rcases hout.1 ht with ⟨hau,hty,hsame⟩ | ⟨⟨tr,peer,chains,h₁,h₂,h₃,h₄,h₅⟩,hty⟩ | hcred
  · obtain ⟨stored,hs,ha,hat,hk,had⟩ := hstored hau
    obtain ⟨d,hd,hvo⟩ := hv _ stored hs ha (by rw [hat]; exact hty)
    refine .inr ⟨d,List.mem_append_left _ hd,?_⟩
    rw [haddr,← had,← hk]
    exact hvo
  · exact .inl ⟨⟨tr,peer,chains,h₁,h₂,h₃,h₄,hsub _ h₅⟩,hty⟩
  refine .inr ⟨c,List.mem_append_right _ List.mem_cons_self,rfl,⟨r.id,r.found,rfl,?_⟩,
    r.work.sess,by rw [Call.out,r.out],rfl⟩
  obtain ⟨cred,nonce,h₁,h₂,h₃⟩ := hcred
  refine ⟨cred,nonce,h₁,h₂,h₃.imp_left ?_⟩
  rintro ⟨ha,record,now,h₄,h₅,h₆,h₇⟩
  rw [hnon] at h₄
  exact ⟨ha,record,now,h₄,h₅,h₆,h₇.imp_right (hsub _)⟩

theorem World.Vouched.mono {past : List Call} {w w' : World} (h : w.Vouched cfg past)
    (hs : ∀ key s, w'.sessions.lookup key = some s → w.sessions.lookup key = some s) :
    w'.Vouched cfg (past ++ [c]) := by
  intro key s hl ha hty
  obtain ⟨d,hd,hv⟩ := h key s (hs key s hl) ha hty
  exact ⟨d,List.mem_append_left _ hd,hv⟩

theorem Reached.stores (r : Reached cfg c.env c.transport c.req c.before)
    (hu : c.Undisturbed cfg) (hw : c.before.Sound) {past : List Call}
    (hv : c.before.Vouched cfg past) {w' : World}
    (hst : w'.sessions = r.start.world.sessions.erase r.work.sess.key ∨
      w'.sessions = r.start.world.sessions.insert r.work.sess.key r.work.sess) :
    w'.Vouched cfg (past ++ [c]) := by
  have hsess := r.arrival.frame.2.1
  obtain ⟨hkey,-,hek,hau,hty⟩ := r.keeps hu hw
  rcases hst with hst | hst
  · refine hv.mono fun key s hl => hsess key s ?_
    rw [hst] at hl
    exact (GoMap.lookup_erase_some hl).2
  intro key s hl ha hnc
  rw [hst] at hl
  rcases GoMap.lookup_insert_cases hl with ⟨rfl,rfl⟩ | ⟨-,hl⟩
  · have hout := authenticate_outcome c.env cfg c.req r.id r.arrived c.transport r.start
    rw [r.authenticates] at hout
    by_cases ho : r.outcome = .trusted
    · rcases r.evidence hu hw hv ho with ⟨-,hc⟩ | hd
      · exact absurd (hty.trans hc) hnc
      · rw [hkey,hek]
        exact hd
    · have hf : r.sess.authenticated = false := hout.2 ho
      rw [hau,hf] at ha
      cases ha
  · obtain ⟨d,hd,hx⟩ := hv key s (hsess key s hl) ha hnc
    exact ⟨d,List.mem_append_left _ hd,hx⟩

theorem Call.Undisturbed.vouched (hu : c.Undisturbed cfg) (hw : c.before.Sound)
    {past : List Call} (hv : c.before.Vouched cfg past) :
    (c.after cfg).Vouched cfg (past ++ [c]) := by
  rcases serve_cases cfg c.env c.transport c.req c.before with
    ⟨-,-,-,sessions,hs,hafter⟩ | ⟨⟨r⟩⟩
  · refine hv.mono fun key s hl => ?_
    rw [Call.after,hafter] at hl
    rcases hs with rfl | rfl
    · exact hl
    · exact (GoMap.lookup_erase_some hl).2
  · have hsess := r.arrival.frame.2.1
    rcases r.undisturbed (hu.result r) with ⟨reply,ht,hn,-⟩ | ⟨-,-,hafter,-⟩
    · refine r.stores hu hw hv ?_
      by_cases ho : r.outcome = .trusted
      · obtain ⟨x⟩ := ht ho
        exact x.finished.sessions.imp_right And.left
      · obtain ⟨x⟩ := hn ho
        exact x.finished.sessions.imp_right And.left
    · intro key s hl ha hnc
      rw [Call.after,hafter] at hl
      have hold : ∃ x, c.before.sessions.lookup key = some x ∧ s.authenticated = x.authenticated ∧
          s.authType = x.authType ∧ s.enrollmentKey = x.enrollmentKey ∧ s.addr = x.addr := by
        unfold MemorySessions.abandon at hl
        split at hl
        · rename_i stored hx
          split at hl
          · rcases GoMap.lookup_insert_cases hl with ⟨rfl,rfl⟩ | ⟨-,hl⟩
            · exact ⟨stored,hsess _ _ hx,rfl,rfl,rfl,rfl⟩
            · exact ⟨s,hsess _ _ hl,rfl,rfl,rfl,rfl⟩
          · exact ⟨s,hsess _ _ hl,rfl,rfl,rfl,rfl⟩
        · exact ⟨s,hsess _ _ hl,rfl,rfl,rfl,rfl⟩
      obtain ⟨x,hx,h₁,h₂,h₃,h₄⟩ := hold
      obtain ⟨d,hd,hvo⟩ := hv key x hx (h₁ ▸ ha) (h₂ ▸ hnc)
      rw [h₃,h₄]
      exact ⟨d,List.mem_append_left _ hd,hvo⟩

end Reached

/-- The reply is one Status on the SyncHdr with a challenge, and neither a hook
nor the queue was called. -/
structure Call.OnlyChallenges (c : Call) (cfg : Config) : Prop where
  reply : ∃ m st, (c.out cfg).reply = .ok (some m) ∧ m.body.commands = [.status st] ∧
    st.cmdRef = utf8 "0" ∧ st.cmd = Syncml.cmdSyncHdr ∧
    (st.code = Syncml.statusInvalidCredentials ∨ st.code = Syncml.statusAuthenticationRequired) ∧
    st.chal ≠ none
  calls : ∀ x ∈ c.trace cfg, x.1.acts = false

theorem encode_challenge (cfg : Config) (req : Message) (sess : Session) (outcome : AuthOutcome)
    (chal : Syncml.Chal) :
    ∃ b, Syncml.encode [] ((startWork cfg req sess).challenge req outcome chal).resp = .ok b := by
  simp [Syncml.encode,Syncml.writeBody,Syncml.writeCommands,Syncml.writeCommand,Syncml.writeStatus,
    Syncml.writeData,Syncml.writeItems,Work.challenge,Work.reply,startWork,Syncml.newResponse,
    Syncml.statusForHeader,bind,Except.bind,pure,Except.pure]

theorem challengeCode_cases (outcome : AuthOutcome) :
    (Syncml.parseStatusCode (itoa (challengeCode outcome))).getD 0 =
      Syncml.statusInvalidCredentials ∨
    (Syncml.parseStatusCode (itoa (challengeCode outcome))).getD 0 =
      Syncml.statusAuthenticationRequired := by
  cases outcome <;> decide +kernel

theorem Reached.onlyChallenges {cfg : Config} {c : Call}
    (r : Reached cfg c.env c.transport c.req c.before) (hu : c.Undisturbed cfg)
    (hw : c.before.Sound) (ho : r.outcome ≠ .trusted) : c.OnlyChallenges cfg := by
  obtain ⟨hs,hent⟩ := r.entered hw
  constructor
  · rcases r.undisturbed (hu.result r) with ⟨reply,-,hn,hres⟩ | ⟨ht,-,-⟩
    · obtain ⟨x⟩ := hn ho
      have hsome : reply = some ((startWork cfg c.req r.sess).challenge c.req r.outcome x.chal).resp := by
        rcases x.finished.reply with ⟨-,he,-⟩ | h
        · have hcl : r.work.sess.closed = false := by
            obtain ⟨res,hf⟩ := x.final hs
            rw [hf]
            exact hs.notClosed
          simp [Work.ending,hcl,startWork,Work.challenge,Work.reply,Syncml.newResponse] at he
        · exact h
      rcases hres with hok | ⟨hr,err,herr⟩
      · refine ⟨((startWork cfg c.req r.sess).challenge c.req r.outcome x.chal).resp,
          { Syncml.statusForHeader c.req (itoa 1) (challengeCode r.outcome) with
            chal := some x.chal },?_,rfl,rfl,rfl,challengeCode_cases r.outcome,by simp⟩
        rw [Call.out,r.out,hok]
        exact congrArg Except.ok hsome
      · obtain ⟨b,hb⟩ := encode_challenge cfg c.req r.sess r.outcome x.chal
        rw [hsome] at hr
        rw [← Option.some.inj hr,hb] at herr
        cases herr
    · exact absurd ht ho
  · intro x hx
    obtain ⟨first,last,hcalls,hquiet⟩ := r.calls
    rw [Call.trace,hcalls] at hx
    simp only [List.mem_append] at hx
    rcases hx with ((hx | hx) | hx) | hx
    · exact Op.acts_of_opens (hquiet x (List.mem_append_left _ hx))
    · exact Op.acts_of_opens
        ((authenticate_only cfg c.req r.id r.arrived c.transport).calls _ _ x hx)
    · exact (respond_only cfg c.req r.id ho hs.unanswered hs.notClosed).calls _ _ x hx
    · exact Op.acts_of_opens (hquiet x (List.mem_append_right _ hx))

/-- In calls without a failed store or hook call: a message that is not trusted is only
challenged, and a trusted one has its evidence. -/
theorem trust_boundary {cfg : Config} {w w' : World} {calls : List Call} (hr : Run cfg w calls w')
    (hw : w.sessions = ∅) (hu : ∀ c ∈ calls, c.Undisturbed cfg) :
    ∀ pre c post, calls = pre ++ c :: post →
      (∀ o, (c.out cfg).auth = some o → o ≠ .trusted → c.OnlyChallenges cfg) ∧
      (c.Trusted cfg → ∃ id sess, c.identity = some id ∧ (c.out cfg).sess = some sess ∧
        (CertificateAccepted id c.transport (c.trace cfg) ∨
          ∃ d ∈ pre ++ [c], d.Vouches cfg (Message.sessionKey c.req) id.enrollmentKey sess.addr)) := by
  intro pre c post hc
  have hm : c ∈ calls := by rw [hc]; simp
  have hP := hr.history (P := fun past w => w.Sound ∧ w.Vouched cfg past) []
    ⟨World.sound_of_empty hw,by intro key s hl; rw [hw] at hl; simp at hl⟩
    (fun _ => .of_queue fun _ _ h => h)
    (fun past c post he h => by
      have hc : c ∈ calls := by rw [he]; simp
      exact ⟨(hu c hc).sound h.1,(hu c hc).vouched h.1 h.2⟩)
  obtain ⟨hsound,hvouched⟩ := hP.2 pre c post hc
  rcases serve_cases cfg c.env c.transport c.req c.before with ⟨hnone,-⟩ | ⟨⟨r⟩⟩
  · have hnone : (c.out cfg).auth = none := hnone
    refine ⟨fun o h => ?_,fun h => ?_⟩
    · rw [hnone] at h; cases h
    · rw [Call.Trusted,hnone] at h; cases h
  have hauth : (c.out cfg).auth = some r.outcome := by rw [Call.out,r.out]
  refine ⟨fun o h hne => ?_,fun h => ?_⟩
  · rw [hauth] at h
    cases h
    exact r.onlyChallenges (hu c hm) hsound hne
  · rw [Call.Trusted,hauth] at h
    refine ⟨r.id,r.work.sess,r.found,by rw [Call.out,r.out],?_⟩
    exact (r.evidence (hu c hm) hsound hvouched (Option.some.inj h)).imp_left And.left

theorem Call.Accepted.undisturbed {cfg : Config} {c : Call} (h : c.Accepted cfg) :
    c.Undisturbed cfg := by
  obtain ⟨reply,hr⟩ := h
  intro e he
  rw [hr] at he
  cases he

namespace Sample

def digestEnv : Env :=
  { env with lookup := fun _ _ => some { identity with authType := .digest, credentialHash := [7] } }

def digestCred : Syncml.Cred where
  metinf := { type := Syncml.authMD5 }
  data := md5DigestFromHash cfg.crypto [7] [1]

def digestRequests : List Message :=
  [packageOne,
    { packageOne with header := { packageOne.header with msgID := "2", cred := some digestCred } },
    request "3" [status "1" "2" "0" "SyncHdr" "200"]]

end Sample

set_option maxRecDepth 4000

/-- A device that is challenged, sends its digest and is trusted from then on. -/
theorem trust_boundary_digest : ∃ c₁ c₂ c₃ w', Run Sample.cfg {} [c₁,c₂,c₃] w' ∧
    (c₁.out Sample.cfg).auth = some .challenge ∧ c₁.OnlyChallenges Sample.cfg ∧
    c₃.req.header.cred = none ∧ ∃ id sess, c₃.identity = some id ∧
      (c₃.out Sample.cfg).sess = some sess ∧
      (CertificateAccepted id c₃.transport (c₃.trace Sample.cfg) ∨
        ∃ d ∈ [c₁,c₂] ++ [c₃],
          d.Vouches Sample.cfg (Message.sessionKey c₃.req) id.enrollmentKey sess.addr) := by
  obtain ⟨w',h⟩ := run_callsOf Sample.cfg Sample.digestEnv none {} Sample.digestRequests
  have hacc : ∀ c ∈ callsOf Sample.cfg Sample.digestEnv none {} Sample.digestRequests,
      c.Accepted Sample.cfg := by decide +kernel
  have hu := fun c hc => (hacc c hc).undisturbed
  refine ⟨_,_,_,w',h,by decide +kernel,?_,rfl,?_⟩
  · exact (trust_boundary h rfl hu [] _ _ rfl).1 .challenge (by decide +kernel) (by decide)
  · exact (trust_boundary h rfl hu [_,_] _ _ rfl).2 (by decide +kernel)

end MicrosoftDM.Mdm
