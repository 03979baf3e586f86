import MicrosoftDM.DeviceIsolation
import MicrosoftDM.EnrollService
import MicrosoftDM.CredentialText

set_option autoImplicit false

namespace MicrosoftDM.Mdm
open Effect
open Effect.Action (exec exec_bind)
open MicrosoftDM.Syncml (Message)

def Env.Works (env : Env) : Prop := ∀ n, env.fails n = false

theorem Env.Works.fallible {α : Type} {env : Env} (h : env.Works) (m : Machine)
    (r : Except StoreError α × World) : env.fallible m r = (r.1,m.step r.2) := by
  simp [Env.fallible,h m.tick]

variable {w : World} {s : Session} {t : Option Transport} {cred : Syncml.Cred}
  {sessions : MemorySessions} {dev key nk : GoString} {nonce : Bytes} {devs : List GoString}

section Opening
variable {env : Env} {req : Message} {id : Identity} {t : Option Transport} {m : Machine}

theorem session_opens (he : env.Works) (hm : atoiValue req.header.msgID = 1)
    (hp : Syncml.isPackageOne req = true)
    (hnew : ofEnrollment id
      (m.world.getSession (Message.sessionKey req) (env.clock m.tick)).1 = .error .notFound) :
    ∃ start k m', (session req id t).run env.handler m =
      (.ok ((newSession req id m.world.nextAddr start).arrive req t (env.clock k)),m') := by
  refine ⟨env.clock (m.tick+1),m.tick+3,?_⟩
  simp only [session,bind_eq_bind,run_bind,run_perform]
  have hget : env.handler (.getSession (Message.sessionKey req)) m =
      ((m.world.getSession (Message.sessionKey req) (env.clock m.tick)).1,
        m.step (m.world.getSession (Message.sessionKey req) (env.clock m.tick)).2) :=
    he.fallible m _
  rw [hget]
  simp only [hnew,openSession,hm,hp]
  exact ⟨_,rfl⟩

theorem session_continues {s : Session} (he : env.Works)
    (hs : m.world.sessions.lookup (Message.sessionKey req) = some s)
    (hk : s.enrollmentKey = id.enrollmentKey) (hm : atoiValue req.header.msgID = s.clientMsgID+1)
    (hidle : env.clock m.tick-s.lastSeen ≤ MemorySessions.ttl) :
    ∃ now m', m'.world = m.world ∧
      (session req id t).run env.handler m = (.ok (s.arrive req t now),m') := by
  have hfound : m.world.getSession (Message.sessionKey req) (env.clock m.tick) = (.ok s,m.world) := by
    simp [World.getSession,MemorySessions.getSession,hs,Int.not_lt.mpr hidle]
  have hget : env.handler (.getSession (Message.sessionKey req)) m = (.ok s,m.step m.world) :=
    (he.fallible m _).trans (by rw [hfound])
  refine ⟨env.clock (m.tick+1),(m.step m.world).step m.world,rfl,?_⟩
  simp only [session,bind_eq_bind,run_bind,run_perform,hget,ofEnrollment,hk,ne_eq,not_true_eq_false,
    if_false,continueSession,hm]
  rfl

theorem serve_auth {cfg : Config} {m' : Machine}
    (hv : Syncml.validate req = []) (hl : env.lookup 0 req.header.source.locURI = some id)
    (hs : (session req id t).run env.handler (({ world := w } : Machine).step w) = (.ok s,m')) :
    (serve cfg env t req w).1.auth =
      some ((authenticate cfg req id s t).run env.handler m').1.1 := by
  have hlookup : env.handler (.lookup req.header.source.locURI) { world := w } =
      (some id,({ world := w } : Machine).step w) := by
    show (env.lookup 0 _,_) = _
    rw [hl]
  have hand : ∀ outcome r m, ((handOver outcome r).run env.handler m).1.auth = some outcome := by
    rintro outcome ⟨r,w⟩ m
    cases r <;> rfl
  simp only [serve,handle,hv,ne_eq,not_true_eq_false,if_false,bind_eq_bind,run_bind,run_perform,
    hlookup,handleFrom,hs,handleIn]
  exact hand _ _ _

theorem serve_reached {cfg : Config} {w : World} {s : Session} {m' : Machine}
    (hv : Syncml.validate req = []) (hl : env.lookup 0 req.header.source.locURI = some id)
    (hs : (session req id t).run env.handler (({ world := w } : Machine).step w) = (.ok s,m')) :
    ∃ r : Reached cfg env t req w, r.id = id ∧ r.arrived = s ∧ r.start = m' := by
  rcases serve_cases cfg env t req w with ⟨hnone,-⟩ | ⟨⟨r⟩⟩
  · rw [serve_auth hv hl hs] at hnone
    cases hnone
  have hid : r.id = id := Option.some.inj (r.found.symm.trans hl)
  have henters := r.enters
  rw [hid,hs] at henters
  simp only [Prod.mk.injEq,Except.ok.injEq] at henters
  exact ⟨r,hid,henters.1.symm,henters.2.symm⟩

end Opening

section Challenging
variable {env : Env} {cfg : Config} {req : Message} {id : Identity} {m : Machine}

theorem authenticate_challenges {s : Session} {t : Option Transport} (ha : s.authenticated = false)
    (hty : s.authType = none) (hid : id.authType = .digest) (hc : req.header.cred = none)
    (ht : verifiedPeerChains t ≠ [] → ∀ n, env.trust n id (verifiedPeerChains t) = false) :
    ((authenticate cfg req id s t).run env.handler m).1 = (.challenge,s) := by
  have hcert : ∀ m, ((certificateTrusted id t).run env.handler m).1 = false := by
    intro m
    unfold certificateTrusted
    split
    · rfl
    · rename_i hne
      exact ht hne m.tick
  have hdrop : s.dropCertificate = s := by simp [Session.dropCertificate,hty]
  simp [authenticate,ha,hcert,authenticateCred,hid,hc,hdrop]

theorem authenticate_trusts
    {r : NonceRecord} (he : env.Works) (hid : id.authType = .digest)
    (hr : m.world.nonces.lookup (nonceKey id.deviceID) = some r)
    (hnow : ∀ n, env.clock n < r.expiresAt) (hc : req.header.cred = some cred)
    (hv : verifyCredential cfg.crypto id cred r.value = true) :
    ((authenticate cfg req id s t).run env.handler m).1.1 = .trusted := by
  have hcert : ((certificateTrusted id t).run env.handler m).2.world = m.world := by
    unfold certificateTrusted
    split <;> rfl
  have hnonce : ∀ m' : Machine, m'.world = m.world →
      ((currentNonce id.deviceID).run env.handler m').1 = r.value := by
    intro m' hm
    have hget : env.handler (.nonceGet (nonceKey id.deviceID)) m' = (.ok r,m'.step m'.world) := by
      refine (he.fallible m' _).trans ?_
      simp [World.getNonce,hm,hr]
    have hcur : r.current (env.clock (m'.tick+1)) = true := by
      simp [NonceRecord.current,hnow (m'.tick+1)]
    simp only [currentNonce,bind_eq_bind,run_bind,run_perform,hget,readNonce]
    split
    · rfl
    · show (if r.current (env.clock (m'.tick+1)) then r.value else []) = r.value
      rw [if_pos hcur]
  unfold authenticate
  split
  · rfl
  simp only [bind_eq_bind,run_bind]
  split
  · rfl
  · simp [authenticateCred,hid,hc,hnonce _ hcert,hv]

theorem challenge_issues {w : Work} (he : env.Works) (hid : id.authType = .digest)
    (hkey : validKey (nonceKey id.deviceID) = true) (outcome : AuthOutcome) :
    ∃ j k m', exec env.handler (challenge cfg req id outcome) w m =
        ((.ok (),w.challenge req outcome (Syncml.newMD5Chal (base64Encode (env.nonce j)))),m') ∧
      m'.world = { m.world with
        nonces := m.world.nonces.insert (nonceKey id.deviceID)
          ⟨env.nonce j,env.clock k+cfg.nonceTTL⟩ } := by
  have hput : env.handler (.nonceUpdate (nonceKey id.deviceID) (env.nonce m.tick) cfg.nonceTTL)
      (m.step m.world) = (.ok (),(m.step m.world).step { m.world with
        nonces := m.world.nonces.insert (nonceKey id.deviceID)
          ⟨env.nonce m.tick,env.clock (m.tick+1)+cfg.nonceTTL⟩ }) := by
    refine (he.fallible _ _).trans ?_
    simp [World.putNonce,hkey,Machine.step]
  refine ⟨m.tick,m.tick+1,_,?_,(rfl : Machine.world ((m.step m.world).step _) = _)⟩
  have hnonce : env.handler .newNonce m = (env.nonce m.tick,m.step m.world) := rfl
  simp only [challenge,hid,reduceCtorEq,if_false,issueNonce,exec_bind,Action.exec_operate,hnonce,hput,
    Eng.orFail,Action.exec_pure,Action.exec_update]

theorem finish_stores {w : Work} (he : env.Works) (hres : w.sess.results = none)
    (hend : w.advance.ending = false) (henc : ∃ b, Syncml.encode [] w.resp = .ok b) :
    ∃ w' m', exec env.handler (finish cfg) w m = ((.ok (some w.resp),w'),m') ∧
      m'.world = { m.world with sessions := m.world.sessions.insert w.sess.key w.advance.sess } := by
  obtain ⟨b,hb⟩ := henc
  have horder : env.handler (.rangeOrder (w.sess.results.getD ∅).keys) m = ([],m.step m.world) := by
    have hp := env.order_perm m.tick (w.sess.results.getD ∅).keys
    rw [hres] at hp ⊢
    exact Prod.ext (List.Perm.eq_nil hp) rfl
  have hput : env.handler (.putSession w.advance.sess) (m.step m.world) =
      (.ok (),(m.step m.world).step { m.world with
        sessions := m.world.sessions.insert w.sess.key w.advance.sess }) := he.fallible _ _
  refine ⟨{ w.advance with popped := false },_,?_,(rfl : Machine.world ((m.step m.world).step _) = _)⟩
  have hend' : ({ w.advance with popped := false } : Work).ending = false := hend
  have hb' : Syncml.encode [] w.advance.resp = .ok b := hb
  simp [finish,flushResults,exec_bind,Action.exec_locals,Action.exec_operate,horder,flushLoop,
    Action.exec_pure,Action.exec_update,storeSession,hend,hput,Eng.orFail,hend',encodeReply,hb']
  rfl

end Challenging

/-- The stored session under `key` and the record of the nonce under `nk` are the same. -/
structure World.SparesKeys (key nk : GoString) (w w' : World) : Prop where
  session : w'.sessions.lookup key = w.sessions.lookup key
  nonce : w'.nonces.lookup nk = w.nonces.lookup nk

section Spared
variable {key nk : GoString} {w w₁ w₂ w₃ : World}

theorem World.SparesKeys.refl (key nk : GoString) (w : World) : w.SparesKeys key nk w := ⟨rfl,rfl⟩

theorem World.SparesKeys.trans (h₁ : w₁.SparesKeys key nk w₂) (h₂ : w₂.SparesKeys key nk w₃) :
    w₁.SparesKeys key nk w₃ :=
  ⟨h₂.session.trans h₁.session,h₂.nonce.trans h₁.nonce⟩

theorem World.sparesKeys_sessions {k : GoString} (hk : key ≠ k)
    (h : sessions = w.sessions ∨ sessions = w.sessions.erase k) :
    w.SparesKeys key nk { w with sessions := sessions } := by
  rcases h with rfl | rfl
  · exact .refl key nk w
  · exact ⟨AList.lookup_erase_ne hk,rfl⟩

theorem Op.Moves.sparesKeys {w₀ : Work} {nd : GoString} {op : Op} (hm : op.Moves w w₁)
    (hop : op.Serves w₀ nd) (hk : key ≠ w₀.sess.key) (hn : nk ≠ nonceKey nd) :
    w.SparesKeys key nk w₁ := by
  rcases hop with hop | ⟨w₂,h,rfl⟩ | rfl
  · cases hm with
    | still => exact .refl key nk _
    | putNonce =>
      cases hop
      exact ⟨rfl,AList.lookup_insert_ne hn⟩
    | enqueue | markSent | storeResult => exact ⟨rfl,rfl⟩
    | _ => exact hop.elim
  · have hkey : w₂.sess.key = w₀.sess.key := h.sess.key
    cases hm with
    | still => exact .refl key nk _
    | putSession =>
      refine ⟨?_,rfl⟩
      unfold MemorySessions.putSession
      rw [hkey]
      exact AList.lookup_insert_ne hk
  · cases hm with
    | still => exact .refl key nk _
    | deleteSession => exact ⟨AList.lookup_erase_ne hk,rfl⟩

theorem abandon_lookup_ne {popped : Bool}
    (h : key ≠ s.key) : (MemorySessions.abandon sessions s popped).lookup key =
      sessions.lookup key := by
  unfold MemorySessions.abandon
  split
  · split
    · exact AList.lookup_insert_ne h
    · rfl
  · rfl

theorem Arrival.sparesKeys {req : Message} {id : Identity}
    (h : Arrival req id t w s w₁) (hw : w.Keyed) (hk : key ≠ Message.sessionKey req) :
    s.key = Message.sessionKey req ∧ w.SparesKeys key nk w₁ := by
  obtain ⟨base,now,mm,mo,uao,rfl,⟨hs,-,-,rfl⟩ | ⟨sessions,start,hs,rfl,-,-,rfl⟩⟩ := h.shape
  · exact ⟨hw _ base hs,.refl key nk _⟩
  · obtain ⟨hses,hnon⟩ := World.sparesKeys_sessions hk hs
    exact ⟨rfl,hses,hnon⟩

end Spared

def Call.Apart (c : Call) (key nk : GoString) : Prop :=
  Message.sessionKey c.req ≠ key ∧ ∀ id, c.identity = some id → nonceKey id.deviceID ≠ nk

theorem Call.Apart.spares {c : Call} (h : c.Apart key nk) (cfg : Config)
    (hw : c.before.Keyed) : c.before.SparesKeys key nk (c.after cfg) := by
  rw [Call.after]
  rcases serve_cases cfg c.env c.transport c.req c.before with ⟨-,-,-,sessions,hs,he⟩ | ⟨⟨r⟩⟩
  · rw [he]
    exact World.sparesKeys_sessions h.1.symm hs
  obtain ⟨harrived,hstart⟩ := r.arrival.sparesKeys hw h.1.symm
  obtain ⟨⟨a,ty,hsess⟩,hauthed⟩ := r.authenticated
  have hkey : key ≠ r.sess.key := by
    rw [hsess]
    exact h.1.symm.trans_eq harrived.symm
  have hresp : r.authed.world.SparesKeys key nk r.stop.world := by
    have hrun : ((respond cfg c.req r.id r.outcome (startWork cfg c.req r.sess)).run
      c.env.handler r.authed).2 = r.stop := congrArg Prod.snd r.responds
    rw [← hrun]
    refine Program.Only.run_rel (R := fun m m' : Machine => m.world.SparesKeys key nk m'.world)
      (fun m => .refl key nk m.world) (fun _ _ _ => .trans) (fun op m hop => ?_)
      (respond_serves cfg c.req r.id r.outcome _ (.refl _)).1 r.authed
    exact (c.env.handler_moves _ m).sparesKeys hop hkey (h.2 r.id r.found).symm
  have hwithin := (respond_serves cfg c.req r.id r.outcome).exec (.refl _) r.responds
  rw [r.after]
  refine hstart.trans (World.SparesKeys.trans (hauthed ▸ hresp) ?_)
  unfold World.handedOver
  split
  · exact .refl key nk _
  · exact ⟨abandon_lookup_ne (hkey.trans_eq (hwithin.sess.key).symm),rfl⟩

theorem Run.sparesKeys {cfg : Config} {w' : World} {calls : List Call}
    (hr : Run cfg w calls w') (hw : w.Reachable) (h : ∀ c ∈ calls, c.Apart key nk) :
    w.SparesKeys key nk w' := by
  have hreach := hr.reachable hw
  refine (hr.invariant (P := fun u => w.SparesKeys key nk u) (.refl key nk w)
    (.of_queue fun _ _ hu => ⟨hu.session,hu.nonce⟩) ?_).1
  exact fun c hc hu => hu.trans ((h c hc).spares cfg (hreach.2 c hc).keyed)

def lastCall (key : GoString) (calls : List Call) : Option Call :=
  (calls.filter fun c => Message.sessionKey c.req = key).getLast?

/-- Whatever other sessions do in between, an accepted message opens its session or has the number
after that of the last one with its key, and the reply has the same number. -/
theorem session_messages_counted {cfg : Config} {w' : World} {calls pre post : List Call} {c : Call}
    (hr : Run cfg w calls w') (hq : w.queue = .empty) (hw : w.sessions = ∅)
    (hacc : ∀ c ∈ calls, c.Accepted cfg) (hc : calls = pre ++ c :: post) :
    (atoiValue c.req.header.msgID = 1 ∨ ∃ x, lastCall (Message.sessionKey c.req) pre = some x ∧
      atoiValue c.req.header.msgID = atoiValue x.req.header.msgID+1) ∧
    ∀ m, c.message cfg = some m → m.header.msgID = itoa (atoiValue c.req.header.msgID) := by
  have hs := (hr.sound (World.sound_of_empty hw) hacc).2
  have hcounted := fun c hc => Call.counted (hacc c hc) (hs c hc)
  have hreach := (hr.reachable (.start hq hw)).2
  -- a stored session has the number of the last message with its key
  have hcount := (hr.history (P := fun past w => ∀ key s, w.sessions.lookup key = some s →
    ∃ x, lastCall key past = some x ∧ s.clientMsgID = atoiValue x.req.header.msgID) []
    (by simp [hw]) (fun _ => .of_queue fun _ _ h => h) (by
      intro pre c post hc hP key s hl
      have hmem : c ∈ calls := by rw [hc]; simp
      by_cases hk : Message.sessionKey c.req = key
      · subst hk
        exact ⟨c,by simp [lastCall],(hcounted c hmem).2.1 s hl⟩
      · have ha : c.Apart key [] := ⟨hk,fun _ _ => by simp +decide [nonceKey,nonceKeyStart]⟩
        rw [(ha.spares cfg (hreach c hmem).keyed).session] at hl
        simpa [lastCall,hk] using hP key s hl)).2 pre c post hc
  obtain ⟨hnum,-,hreply⟩ := hcounted c (by rw [hc]; simp)
  refine ⟨hnum.imp_right fun ⟨s,hl,hm⟩ => ?_,hreply⟩
  obtain ⟨x,hx,hn⟩ := hcount _ s hl
  exact ⟨x,hx,hn ▸ hm⟩

/-- The first message of a client that has no session yet and sends no Cred. -/
structure Call.Opens (c : Call) (lookup : GoString → Option Identity) (dev : GoString) : Prop where
  valid : Syncml.validate c.req = []
  source : c.req.header.source.locURI = dev
  looks : c.env.lookup 0 = lookup
  msgID : atoiValue c.req.header.msgID = 1
  packageOne : Syncml.isPackageOne c.req = true
  cred : c.req.header.cred = none
  fresh : ∀ id, lookup dev = some id → ofEnrollment id
    (c.before.getSession (Message.sessionKey c.req) (c.env.clock 1)).1 = .error .notFound
  uncertified : verifiedPeerChains c.transport ≠ [] →
    ∀ n id, c.env.trust n id (verifiedPeerChains c.transport) = false
  works : c.env.Works
  nonces : ∀ n, c.env.nonce n ≠ []

/-- The next message of the same session, with the Cred that a client computes
from its name, its secret and the nonce it was sent. -/
structure Call.Responds (c first : Call) (cfg : Config) (lookup : GoString → Option Identity)
    (dev secret nextNonce : GoString) : Prop where
  valid : Syncml.validate c.req = []
  source : c.req.header.source.locURI = dev
  sessionID : c.req.header.sessionID = first.req.header.sessionID
  looks : c.env.lookup 0 = lookup
  msgID : atoiValue c.req.header.msgID = 2
  cred : ∃ cred nonce, c.req.header.cred = some cred ∧ cred.metinf.type = Syncml.authMD5 ∧
    base64Decode nextNonce = some nonce ∧
    cred.data = md5DigestFromHash cfg.crypto (Enroll.credentialHash cfg.crypto dev secret) nonce
  works : c.env.Works
  inTime : ∀ n k, c.env.clock n < first.env.clock k+cfg.nonceTTL

def nextNonce? (m : Message) : Option GoString :=
  match m.body.commands with
  | [.status st] => st.chal.map fun chal => chal.metinf.nextNonce
  | _ => none

section Exchange
variable {cfg : Config} {lookup : GoString → Option Identity} {dev : GoString} {id : Identity}
  {c c₁ c₂ : Call}

structure Call.Challenges (c : Call) (cfg : Config) (id : Identity) (nonce : Bytes) : Prop where
  reply : ∃ m, (c.out cfg).reply = .ok (some m) ∧ nextNonce? m = some (base64Encode nonce)
  record : ∃ k, (c.after cfg).nonces.lookup (nonceKey id.deviceID) =
    some ⟨nonce,c.env.clock k+cfg.nonceTTL⟩
  session : ∃ s k, (c.after cfg).sessions.lookup (Message.sessionKey c.req) = some s ∧
    s.enrollmentKey = id.enrollmentKey ∧ s.clientMsgID = 1 ∧ s.lastSeen = c.env.clock k

theorem Call.Opens.challenges (h : c.Opens lookup dev) (hl : lookup dev = some id)
    (hid : id.authType = .digest) (hkey : validKey (nonceKey id.deviceID) = true) (cfg : Config) :
    ∃ j, c.Challenges cfg id (c.env.nonce j) := by
  have hfound : c.env.lookup 0 c.req.header.source.locURI = some id := by
    rw [h.looks,h.source,hl]
  obtain ⟨start,k,m',hs⟩ := @session_opens c.env c.req id c.transport
    (({ world := c.before } : Machine).step c.before) h.works h.msgID h.packageOne (h.fresh id hl)
  obtain ⟨mm,mo,uao,harr⟩ := (newSession c.req id c.before.nextAddr start).arrive_eq c.req
    c.transport (c.env.clock k)
  obtain ⟨r,rfl,harrived,hstart⟩ := @serve_reached c.env c.req id c.transport cfg c.before _ _
    h.valid hfound hs
  replace harrived := harrived.trans harr
  have hauth := @authenticate_challenges c.env cfg c.req r.id r.start r.arrived c.transport
    (by rw [harrived]; rfl) (by rw [harrived]; rfl) hid h.cred fun hc n => h.uncertified hc n r.id
  rw [r.authenticates] at hauth
  obtain ⟨houtcome,hsess⟩ := Prod.mk.inj hauth
  -- The challenge is issued, and the session stored with the reply.
  obtain ⟨j,k',m₁,hchal,hm₁⟩ := @challenge_issues c.env cfg c.req r.id r.authed
    (startWork cfg c.req r.sess) h.works hid hkey .challenge
  obtain ⟨w',m₂,hfin,hm₂⟩ := @finish_stores c.env cfg m₁ ((startWork cfg c.req r.sess).challenge
    c.req .challenge (Syncml.newMD5Chal (base64Encode (c.env.nonce j)))) h.works
    (by rw [hsess,harrived]; rfl) (by rw [hsess,harrived]; rfl) (encode_challenge _ _ _ _ _)
  have hresp := r.responds
  rw [houtcome,respond,exec_bind] at hresp
  simp only [build,reduceCtorEq,if_false,hchal,hfin,Prod.mk.injEq] at hresp
  obtain ⟨⟨hresult,-⟩,hstop⟩ := hresp
  have hafter : (c.after cfg) = m₂.world := by
    rw [Call.after,r.after,← hresult,← hstop]
    rfl
  refine ⟨j,?_⟩
  have hkeyed : r.sess.key = Message.sessionKey c.req := by rw [hsess,harrived]; rfl
  constructor
  · exact ⟨_,(congrArg Handled.reply r.out).trans hresult.symm,rfl⟩
  · refine ⟨k',?_⟩
    rw [hafter,hm₂,hm₁]
    exact AList.lookup_insert _
  have hsessions := congrArg World.sessions (hafter.trans hm₂)
  have hstored := (congrArg (AList.lookup r.sess.key) hsessions).trans (AList.lookup_insert _)
  rw [hkeyed] at hstored
  refine ⟨_,k,hstored,?_⟩
  show r.sess.enrollmentKey = _ ∧ r.sess.clientMsgID = 1 ∧ r.sess.lastSeen = _
  rw [hsess,harrived]
  exact ⟨rfl,h.msgID,rfl⟩

theorem verifyCredential_digest {cr : Crypto}
    (hid : id.authType = .digest) (hty : cred.metinf.type = Syncml.authMD5) (hn : nonce ≠ [])
    (hh : id.credentialHash ≠ [])
    (hd : cred.data = md5DigestFromHash cr id.credentialHash nonce) :
    verifyCredential cr id cred nonce = true := by
  have htrim : trimSpace (md5DigestFromHash cr id.credentialHash nonce) =
      md5DigestFromHash cr id.credentialHash nonce := trimSpace_visible (base64Encode_visible _)
  simp [verifyCredential,hid,hty,hn,hh,hd,htrim,verifyMD5]

end Exchange

/-- A device that `Enroll` has answered is challenged when it opens a session, and trusted when it
answers in time, if its nonce can be stored and no message in between has its keys. -/
theorem challenge_answered {cfg : Config} {d : Enroll.Deps} {s₀ s₁ : Storage.Store} {h : Enroll.Header}
    {rst : Enroll.RequestSecurityToken} {doc secret clientSecret : GoString} {nonces : Bytes}
    {w w' : World} {c₁ c₂ : Call} {between : List Call}
    (henroll : d.enroll s₀ (some (h,rst)) = (.ok doc,s₁))
    (hdraw : d.draw = some (secret,clientSecret,nonces)) (hcrypto : d.crypto = cfg.crypto)
    (hhash : Enroll.credentialHash cfg.crypto rst.context.deviceID secret ≠ []) (hw : w.Reachable)
    (hr : Run cfg w (c₁ :: (between ++ [c₂])) w')
    (h₁ : c₁.Opens (Enroll.lookup s₁) rst.context.deviceID)
    (hkey : validKey (nonceKey rst.context.deviceID) = true)
    (hapart : ∀ c ∈ between, c.Apart (Message.sessionKey c₁.req) (nonceKey rst.context.deviceID)) :
    ∃ m nextNonce, (c₁.out cfg).reply = .ok (some m) ∧ nextNonce? m = some nextNonce ∧
      (c₂.Responds c₁ cfg (Enroll.lookup s₁) rst.context.deviceID secret nextNonce →
        (∀ n k, c₂.env.clock n-c₁.env.clock k ≤ MemorySessions.ttl) → c₂.Trusted cfg) := by
  obtain ⟨er,serial,thumbprint,hdev,hl⟩ := Enroll.Deps.enroll_lookup henroll hdraw
  rw [← hdev] at hhash h₁ hkey hapart hl ⊢
  rw [hcrypto] at hl
  obtain ⟨j,hc⟩ := h₁.challenges hl rfl hkey cfg
  obtain ⟨m,hreply,hnonce⟩ := hc.reply
  refine ⟨m,_,hreply,hnonce,fun h₂ hidle => ?_⟩
  have hkeys : Message.sessionKey c₂.req = Message.sessionKey c₁.req := by
    rw [Message.sessionKey,Message.sessionKey,h₂.source,h₂.sessionID,h₁.source]
  -- What the first message left is still there when the second arrives.
  obtain ⟨hreach,hrest⟩ := hr.head hw World.reachable_operated
  obtain ⟨u,hbetween,hlast⟩ := hrest.split
  have hspared := hbetween.sparesKeys (hreach.serve cfg c₁.env c₁.transport c₁.req) hapart
  have hbefore : (c₁.after cfg).SparesKeys (Message.sessionKey c₁.req)
      (nonceKey er.context.deviceID) c₂.before :=
    (hlast.head hspared (.of_queue fun _ _ h => ⟨h.session,h.nonce⟩)).1
  obtain ⟨k,hrec⟩ := hc.record
  obtain ⟨s,k',hstored,hen,hclient,hseen⟩ := hc.session
  obtain ⟨cred,nonce,hcred,hty,hdec,hdata⟩ := h₂.cred
  rw [base64Decode_encode] at hdec
  cases hdec
  have hfound : c₂.env.lookup 0 c₂.req.header.source.locURI =
      some (Enroll.enrolledIdentity cfg.crypto er secret serial thumbprint) := by
    rw [h₂.looks,h₂.source,hl]
  obtain ⟨now,m',hm',henters⟩ := @session_continues c₂.env c₂.req
    (Enroll.enrolledIdentity cfg.crypto er secret serial thumbprint) c₂.transport
    (({ world := c₂.before } : Machine).step c₂.before) s h₂.works
    (by rw [hkeys,← hstored]; exact hbefore.session) hen (by rw [h₂.msgID,hclient]; rfl)
    (by rw [hseen]; exact hidle _ k')
  rw [Call.Trusted,Call.out,serve_auth h₂.valid hfound henters]
  refine congrArg some (authenticate_trusts h₂.works rfl (r := ⟨c₁.env.nonce j,c₁.env.clock k+cfg.nonceTTL⟩) ?_ ?_ hcred ?_)
  · rw [hm',← hrec]
    exact hbefore.nonce
  · exact fun n => h₂.inTime n k
  · exact verifyCredential_digest rfl hty (h₁.nonces j) hhash hdata

namespace Sample

def enrollDeps (serial : Nat) : Enroll.Deps :=
  { Enroll.Sample.deps serial with crypto := cfg.crypto, random := fun _ => some [1] }

/-- The devices enroll one after the other, the last of the list first. -/
def enrolledStore : List GoString → Storage.Store
  | [] => .new
  | dev :: devs => ((enrollDeps (devs.length+1)).enroll (enrolledStore devs)
      (some (Enroll.Sample.header,Enroll.plainRequest dev))).2

def enrolledEnv (devs : List GoString) (nonce : Bytes) : Env :=
  { env with nonce := fun _ => nonce, lookup := fun _ => Enroll.lookup (enrolledStore devs) }

def answerCred (dev : GoString) (nonce : Bytes) : Syncml.Cred where
  metinf := { type := Syncml.authMD5 }
  data := md5DigestFromHash cfg.crypto (Enroll.credentialHash cfg.crypto dev "01") nonce

def answerOf (dev : GoString) (nonce : Bytes) : Message :=
  let m := packageOneOf dev "1"
  { m with header := { m.header with msgID := "2", cred := some (answerCred dev nonce) } }

def opening (devs : List GoString) (dev : GoString) (w : World) (nonce : Bytes) : Call :=
  ⟨w,enrolledEnv devs nonce,none,packageOneOf dev "1"⟩

def answering (devs : List GoString) (dev : GoString) (w : World) (nonce : Bytes) : Call :=
  ⟨w,enrolledEnv devs nonce,none,answerOf dev nonce⟩

theorem opening_opens
    (hv : Syncml.validate (packageOneOf dev "1") = []) (hn : nonce ≠ []) :
    (opening devs dev {} nonce).Opens (Enroll.lookup (enrolledStore devs)) dev where
  valid := hv
  source := rfl
  looks := rfl
  msgID := by
    show atoiValue (utf8 "1") = 1
    decide +kernel
  packageOne := rfl
  cred := rfl
  fresh _ _ := rfl
  uncertified h := absurd rfl h
  works _ := rfl
  nonces _ := hn

theorem exists_ok {ε α : Type} {r : Except ε α} (h : r.toOption.isSome = true) : ∃ a, r = .ok a := by
  cases r with
  | ok a => exact ⟨a,rfl⟩
  | error e => cases h

theorem message_nextNonce {c : Call} {n : GoString}
    (h : (c.message cfg).bind nextNonce? = some n) :
    ∃ m, (c.out cfg).reply = .ok (some m) ∧ nextNonce? m = some n := by
  obtain ⟨m,hm,hn⟩ := Option.bind_eq_some_iff.mp h
  exact ⟨m,Call.message_some hm,hn⟩

theorem answering_responds
    (hv : Syncml.validate (answerOf dev nonce) = []) :
    (answering devs dev w nonce).Responds (opening devs dev {} nonce) cfg
      (Enroll.lookup (enrolledStore devs)) dev "01" (base64Encode nonce) where
  valid := hv
  source := rfl
  sessionID := rfl
  looks := rfl
  msgID := by
    show atoiValue (utf8 "2") = 2
    decide +kernel
  cred := ⟨answerCred dev nonce,nonce,rfl,rfl,base64Decode_encode nonce,rfl⟩
  works _ := rfl
  inTime _ _ := by
    show (1 : Int) < 1+600*1000000000
    decide

def exchange (a b : GoString) : List Call :=
  let c₁ := opening [a,b] a {} [1]
  let c := opening [a,b] b (c₁.after cfg) [2]
  [c₁,c,answering [a,b] a (c.after cfg) [1]]

theorem run_exchange (a b : GoString) : ∃ w', Run cfg {} (exchange a b) w' :=
  let c₁ := opening [a,b] a {} [1]
  let c := opening [a,b] b (c₁.after cfg) [2]
  ⟨_,.call (c := c₁) (.call (c := c)
    (.call (c := answering [a,b] a (c.after cfg) [1]) (.nil _)))⟩

end Sample

set_option maxRecDepth 4000

/-- The message of "b" in between does not count for "a". -/
theorem session_messages_counted_between : ∃ c₁ c c₂ w' x, Run Sample.cfg {} [c₁,c,c₂] w' ∧
    lastCall (Message.sessionKey c₂.req) [c₁,c] = some x ∧
    atoiValue c₂.req.header.msgID = atoiValue x.req.header.msgID+1 := by
  obtain ⟨w',hr⟩ := Sample.run_exchange "a" "b"
  obtain ⟨h | ⟨x,hx,hn⟩,-⟩ := @session_messages_counted {} Sample.cfg w' _ [_,_] [] _ hr rfl rfl
    (by decide +kernel) rfl
  · exact absurd h (by decide +kernel)
  · exact ⟨_,_,_,w',x,hr,hx,hn⟩

theorem challenge_answered_between : ∃ c₁ c c₂ w', Run Sample.cfg {} [c₁,c,c₂] w' ∧
    c.req.header.source.locURI = utf8 "b" ∧ c₂.req.header.source.locURI = utf8 "a" ∧
    c₂.Trusted Sample.cfg := by
  obtain ⟨w',hr⟩ := Sample.run_exchange "a" "b"
  refine ⟨_,_,_,w',hr,rfl,rfl,?_⟩
  have hapart : ∀ c ∈ [Sample.opening ["a","b"] "b"
      ((Sample.opening ["a","b"] "a" {} [1]).after Sample.cfg) [2]],
      c.Apart (Message.sessionKey (Sample.packageOneOf "a" "1")) (nonceKey "a") := by
    intro c hc
    cases List.mem_singleton.mp hc
    refine ⟨by decide +kernel,fun id hid => ?_⟩
    have hdev : id.deviceID = utf8 "b" := by
      have hall : ∀ i ∈ Enroll.lookup (Sample.enrolledStore ["a","b"]) "b", i.deviceID = utf8 "b" := by
        decide +kernel
      exact hall id hid
    rw [hdev]
    decide +kernel
  have hopens : (Sample.opening ["a","b"] "a" {} [1]).Opens
      (Enroll.lookup (Sample.enrolledStore ["a","b"])) "a" :=
    Sample.opening_opens (by decide +kernel) (by decide)
  have hdoc : ((Sample.enrollDeps 2).enroll (Sample.enrolledStore ["b"])
    (some (Enroll.Sample.header,Enroll.plainRequest "a"))).1.toOption.isSome = true := by decide +kernel
  obtain ⟨doc,hdoc⟩ := Sample.exists_ok hdoc
  have henroll : (Sample.enrollDeps 2).enroll (Sample.enrolledStore ["b"])
      (some (Enroll.Sample.header,Enroll.plainRequest "a")) = (.ok doc,Sample.enrolledStore ["a","b"]) :=
    Prod.ext hdoc rfl
  obtain ⟨m,n,hreply,hn,h⟩ := challenge_answered henroll rfl rfl (by decide +kernel) (.start rfl rfl) hr
    hopens (by decide +kernel) hapart
  obtain ⟨m',hreply',hn'⟩ := @Sample.message_nextNonce (Sample.opening ["a","b"] "a" {} [1])
    (base64Encode [1]) (by decide +kernel)
  cases hreply.symm.trans hreply'
  cases hn.symm.trans hn'
  refine h (Sample.answering_responds (by decide +kernel)) fun _ _ => ?_
  show (1-1 : Int) ≤ MemorySessions.ttl
  decide

/-- The nonces of "é" and "è" have one key. A DeviceID of 246 bytes has a nonce key that cannot be
stored, and gets no challenge. -/
theorem answer_rejected :
    (∃ (c₁ c c₂ : Call) (w' : World) (m : Message) (n : GoString),
      Run Sample.cfg {} [c₁,c,c₂] w' ∧
      (∃ rst er, Enroll.checkToken rst = .ok er ∧ er.context.deviceID = utf8 "é") ∧
      c.req.header.source.locURI = utf8 "è" ∧
      c₁.Opens (Enroll.lookup (Sample.enrolledStore ["é","è"])) "é" ∧
      (c₁.out Sample.cfg).reply = .ok (some m) ∧ nextNonce? m = some n ∧
      c₂.Responds c₁ Sample.cfg (Enroll.lookup (Sample.enrolledStore ["é","è"])) "é" "01" n ∧
      ¬c₂.Trusted Sample.cfg) ∧
    ∃ (dev : GoString) (c : Call),
      (∃ rst er, Enroll.checkToken rst = .ok er ∧ er.context.deviceID = dev) ∧
      c.Opens (Enroll.lookup (Sample.enrolledStore [dev])) dev ∧ c.before = {} ∧ ¬c.Accepted Sample.cfg := by
  constructor
  · obtain ⟨w',hr⟩ := Sample.run_exchange "é" "è"
    obtain ⟨m,hreply,hn⟩ := @Sample.message_nextNonce (Sample.opening ["é","è"] "é" {} [1])
      (base64Encode [1]) (by decide +kernel)
    refine ⟨_,_,_,w',m,base64Encode [1],hr,?_,rfl,?_,hreply,hn,?_,?_⟩
    · exact (Enroll.accepted_deviceID _).mpr (by decide)
    · exact Sample.opening_opens (by decide +kernel) (by decide)
    · exact Sample.answering_responds (by decide +kernel)
    · unfold Call.Trusted
      decide +kernel
  · refine ⟨List.replicate 246 97,Sample.opening [List.replicate 246 97] (List.replicate 246 97) {}
      [1],?_,?_,rfl,?_⟩
    · exact (Enroll.accepted_deviceID _).mpr (by decide)
    · exact Sample.opening_opens (by decide +kernel) (by decide)
    · decide +kernel

end MicrosoftDM.Mdm
