import MicrosoftDM.CallDiscipline
import MicrosoftDM.DeliveryOrder
import MicrosoftDM.TrustBoundary

set_option autoImplicit false

namespace MicrosoftDM.Mdm
open Effect
open MicrosoftDM.Syncml (Message)

variable {dev : GoString} {w w' : World} {s : Session} {op : Op}

theorem currentNonce_congr
    (h : w'.nonces.lookup (nonceKey dev) = w.nonces.lookup (nonceKey dev)) (env : Env) (tick : Nat) :
    ((currentNonce dev).run env.handler ⟨w',tick⟩).1 =
      ((currentNonce dev).run env.handler ⟨w,tick⟩).1 := by
  have hread : ∀ got, ((readNonce got).run env.handler ⟨w',tick+1⟩).1 =
      ((readNonce got).run env.handler ⟨w,tick+1⟩).1 := by
    intro got
    unfold readNonce
    split
    · rfl
    · split <;> rfl
  have hget : w'.getNonce (nonceKey dev) = w.getNonce (nonceKey dev) := by
    unfold World.getNonce
    rw [h]
  have hop : ∀ u : World, env.handler (.nonceGet (nonceKey dev)) ⟨u,tick⟩ =
      (if env.fails tick then .error .unavailable else u.getNonce (nonceKey dev),⟨u,tick+1⟩) := by
    intro u
    simp only [Env.handler,Env.fallible,Machine.step]
    split <;> rfl
  unfold currentNonce
  simp only [bind_eq_bind,run_bind,run_perform,hop,hget,hread]

/-- The device's sessions, nonce and queued commands are the same in both worlds. -/
structure World.SparesDevice (dev : GoString) (w w' : World) : Prop where
  sessions : ∀ key s, s.deviceID = dev →
    (w'.sessions.lookup key = some s ↔ w.sessions.lookup key = some s)
  nonce : ∀ (env : Env) (tick : Nat),
    ((currentNonce dev).run env.handler ⟨w',tick⟩).1 = ((currentNonce dev).run env.handler ⟨w,tick⟩).1
  commands : w'.queue.commands dev = w.queue.commands dev

def World.FreeOf (dev key : GoString) (w : World) : Prop :=
  ∀ s, w.sessions.lookup key = some s → s.deviceID ≠ dev

def World.HasSession (dev key : GoString) (w : World) : Prop :=
  ∃ s, w.sessions.lookup key = some s ∧ s.deviceID = dev

/-- A nonce that is not empty and not the one stored for the device. -/
def World.NewNonce (dev : GoString) (w : World) (value : Bytes) : Prop :=
  value ≠ [] ∧ ∀ record, w.nonces.lookup (nonceKey dev) = some record → value ≠ record.value

/-- What a call takes from the device: it writes or erases under `key`, where a session of the device
is stored, or writes a nonce under the device's nonce key. `GetSession` answers that there is none
when it has erased an expired one. -/
def Takes (dev key : GoString) (w : World) : (op : Op) × Ans op → Prop
  | ⟨.getSession _,.error .notFound⟩ => w.HasSession dev key
  | ⟨.putSession _,.ok _⟩ => w.HasSession dev key
  | ⟨.deleteSession _,.ok _⟩ => w.HasSession dev key
  | ⟨.nonceUpdate k _ _,.ok _⟩ => k = nonceKey dev
  | _ => False

def StoresNew (dev : GoString) (w : World) : (op : Op) × Ans op → Prop
  | ⟨.nonceUpdate k value _,.ok _⟩ => k = nonceKey dev → w.NewNonce dev value
  | _ => True

instance World.decidableHasSession (dev key : GoString) (w : World) : Decidable (w.HasSession dev key) :=
  decidable_of_iff ((w.sessions.lookup key).any fun s => s.deviceID = dev) (by
    simp [World.HasSession,Option.any_eq_true])

instance World.decidableNewNonce (dev : GoString) (w : World) (value : Bytes) :
    Decidable (w.NewNonce dev value) :=
  decidable_of_iff (value ≠ [] ∧ (w.nonces.lookup (nonceKey dev)).all fun record => value ≠ record.value) (by
    simp [World.NewNonce,Option.all_eq_true])

instance decidableTakes (dev key : GoString) (w : World) (x : (op : Op) × Ans op) :
    Decidable (Takes dev key w x) := by
  unfold Takes
  split <;> infer_instance

instance decidableStoresNew (dev : GoString) (w : World) (x : (op : Op) × Ans op) :
    Decidable (StoresNew dev w x) := by
  unfold StoresNew
  split <;> infer_instance

/-- The calls of a message that is not the device's and has the session key `key`. -/
def Op.Foreign (dev key : GoString) (w : World) : Op → Prop
  | .getSession k | .deleteSession k => k = key
  | .putSession s => s.key = key ∧ s.deviceID ≠ dev
  | .abandon s _ => s.key = key ∧ ∀ stored, w.sessions.lookup key = some stored →
      stored.deviceID = dev → stored.addr ≠ s.addr
  | .enqueue d _ _ | .markSent d _ | .storeResult d _ _ => d ≠ dev
  | _ => True

/-- The session of the device that was under `key` is there no more, or its nonce is another. -/
def World.Lost (dev key : GoString) (w w' : World) : Prop :=
  w.HasSession dev key ∧ w'.FreeOf dev key ∨
  ∃ record, w'.nonces.lookup (nonceKey dev) = some record ∧ w.NewNonce dev record.value

section Spared
variable {dev key : GoString} {w w₁ w₂ w₃ : World}

theorem World.SparesDevice.refl (dev : GoString) (w : World) : w.SparesDevice dev w :=
  ⟨fun _ _ _ => .rfl,fun _ _ => rfl,rfl⟩

theorem World.SparesDevice.trans (h₁ : w₁.SparesDevice dev w₂) (h₂ : w₂.SparesDevice dev w₃) :
    w₁.SparesDevice dev w₃ where
  sessions key s hs := (h₂.sessions key s hs).trans (h₁.sessions key s hs)
  nonce env tick := (h₂.nonce env tick).trans (h₁.nonce env tick)
  commands := h₂.commands.trans h₁.commands

theorem World.SparesDevice.freeOf (h : w₁.SparesDevice dev w₂) (hw : w₁.FreeOf dev key) :
    w₂.FreeOf dev key :=
  fun s hs hd => hw s ((h.sessions key s hd).mp hs) hd

theorem World.sparesDevice_sessions {sessions : MemorySessions} (hw : w.FreeOf dev key)
    (hkey : ∀ s, sessions.lookup key = some s → s.deviceID ≠ dev)
    (hother : ∀ k, k ≠ key → sessions.lookup k = w.sessions.lookup k) :
    w.SparesDevice dev { w with sessions := sessions } where
  sessions k s hd := by
    by_cases hk : k = key
    · subst hk
      exact ⟨fun h => absurd hd (hkey s h),fun h => absurd hd (hw s h)⟩
    · rw [hother k hk]
  nonce := currentNonce_congr rfl
  commands := rfl

theorem World.sparesDevice_insert (hw : w.FreeOf dev key) (hs : s.deviceID ≠ dev) :
    w.SparesDevice dev { w with sessions := w.sessions.insert key s } := by
  refine sparesDevice_sessions hw (fun s' h => ?_) fun _ hk => AList.lookup_insert_ne hk
  rw [AList.lookup_insert] at h
  cases h
  exact hs

theorem World.sparesDevice_nonce {record : NonceRecord} (hk : key ≠ nonceKey dev) :
    w.SparesDevice dev { w with nonces := w.nonces.insert key record } :=
  ⟨fun _ _ _ => .rfl,currentNonce_congr (AList.lookup_insert_ne hk.symm),rfl⟩

theorem World.sparesDevice_abandon {popped : Bool} (hw : w.FreeOf dev s.key) :
    w.SparesDevice dev { w with sessions := MemorySessions.abandon w.sessions s popped } := by
  unfold MemorySessions.abandon
  split
  · rename_i stored hs
    split
    · exact sparesDevice_insert hw (hw stored hs)
    · exact .refl dev w
  · exact .refl dev w

end Spared

section Foreign
variable {dev key : GoString} {w v v' : World}

theorem World.SparesDevice.hasSession (h : w.SparesDevice dev v) (hw : ¬w.HasSession dev key) :
    v.FreeOf dev key :=
  fun s hs hd => hw ⟨s,(h.sessions key s hd).mp hs,hd⟩

/-- What one call of a foreign message does to what the device had in `w`. -/
structure World.Fares (dev key : GoString) (w v : World) (x : (op : Op) × Ans op) (v' : World) : Prop where
  spares : ¬Takes dev key w x → w.SparesDevice dev v → w.SparesDevice dev v'
  takes : Takes dev key w x → StoresNew dev w x → w.Lost dev key v'
  lost : w.Lost dev key v → StoresNew dev w x → w.Lost dev key v'

variable {x : (op : Op) × Ans op}

theorem World.fares_queue (hx : ¬Takes dev key w x) {q : Queue} {n : Nat}
    (hq : q.commands dev = v.queue.commands dev) :
    w.Fares dev key v x { v with queue := q, nextAddr := n } where
  spares _ h := h.trans ⟨fun _ _ _ => .rfl,currentNonce_congr rfl,hq⟩
  takes h := absurd h hx
  lost h _ := h

theorem World.fares_still (hx : ¬Takes dev key w x) : w.Fares dev key v x v := fares_queue hx rfl

theorem World.fares_sessions (hx : Takes dev key w x ↔ w.HasSession dev key) {sessions : MemorySessions}
    (hfree : ∀ s, sessions.lookup key = some s → s.deviceID ≠ dev)
    (hother : ∀ k, k ≠ key → sessions.lookup k = v.sessions.lookup k) :
    w.Fares dev key v x { v with sessions := sessions } where
  spares h hs := hs.trans (sparesDevice_sessions (hs.hasSession fun hh => h (hx.mpr hh)) hfree hother)
  takes h _ := .inl ⟨hx.mp h,hfree⟩
  lost h _ := h.imp_left fun hh => ⟨hh.1,hfree⟩

theorem World.fares_abandon {popped : Bool} (hx : ¬Takes dev key w x)
    (hop : Op.Foreign dev key w (.abandon s popped)) :
    w.Fares dev key v x { v with sessions := MemorySessions.abandon v.sessions s popped } where
  spares _ hs := by
    obtain ⟨rfl,haddr⟩ := hop
    by_cases hfree : v.FreeOf dev s.key
    · exact hs.trans (sparesDevice_abandon hfree)
    unfold World.FreeOf at hfree
    push Not at hfree
    obtain ⟨stored,hl,hd⟩ := hfree
    have hne := haddr stored ((hs.sessions _ stored hd).mp hl) hd
    unfold MemorySessions.abandon
    rw [hl]
    dsimp only
    rw [if_neg hne]
    exact hs
  takes h := absurd h hx
  lost h _ := by
    obtain ⟨rfl,-⟩ := hop
    exact h.imp_left fun hh => ⟨hh.1,(sparesDevice_abandon hh.2).freeOf hh.2⟩

theorem World.fares_nonce {k : GoString} {value : Bytes} {ttl expiresAt : Time} :
    w.Fares dev key v ⟨.nonceUpdate k value ttl,.ok ()⟩
      { v with nonces := v.nonces.insert k { value := value, expiresAt := expiresAt } } where
  spares h hs := hs.trans (sparesDevice_nonce h)
  takes h hnew := by
    cases show k = nonceKey dev from h
    exact .inr ⟨_,AList.lookup_insert _,hnew rfl⟩
  lost h hnew := by
    by_cases hk : k = nonceKey dev
    · subst hk
      exact .inr ⟨_,AList.lookup_insert _,hnew rfl⟩
    · exact h.imp_right fun ⟨record,hr,hn⟩ => ⟨record,(AList.lookup_insert_ne (Ne.symm hk)).trans hr,hn⟩

theorem Env.handler_fares (env : Env) (hop : op.Foreign dev key w) (m : Machine) :
    w.Fares dev key m.world ⟨op,(env.handler op m).1⟩ (env.handler op m).2.world := by
  cases op with
  | lookup _ | trustCertificate _ _ | now | newNonce | newMaps | rangeOrder _ =>
    exact World.fares_queue id rfl
  | getSession k =>
    cases show k = key from hop
    simp only [Env.handler,Env.fallible]
    split
    · exact World.fares_still id
    unfold World.getSession MemorySessions.getSession
    cases hl : m.world.sessions.lookup key with
    | none => exact World.fares_sessions .rfl (by simp [hl]) fun _ _ => rfl
    | some stored =>
      dsimp only
      split
      · exact World.fares_sessions .rfl (by simp) fun _ hk => AList.lookup_erase_ne hk
      · exact World.fares_still id
  | putSession s =>
    obtain ⟨rfl,hd⟩ := hop
    simp only [Env.handler,Env.fallible]
    split
    · exact World.fares_still id
    refine World.fares_sessions .rfl (fun s' hs' => ?_) fun _ hk => AList.lookup_insert_ne hk
    rw [MemorySessions.putSession,AList.lookup_insert] at hs'
    cases hs'
    exact hd
  | deleteSession k =>
    cases show k = key from hop
    simp only [Env.handler,Env.fallible]
    split
    · exact World.fares_still id
    · exact World.fares_sessions .rfl (by simp [MemorySessions.deleteSession])
        fun _ hk => AList.lookup_erase_ne hk
  | abandon s popped => exact World.fares_abandon id hop
  | nonceUpdate k value ttl =>
    simp only [Env.handler,Env.fallible]
    split
    · exact World.fares_still id
    unfold World.putNonce
    split
    · exact World.fares_nonce
    · exact World.fares_still id
  | nonceGet _ | deliverable _ _ | hook _ =>
    simp only [Env.handler,Env.fallible]
    split
    · exact World.fares_still id
    · exact World.fares_still id
  | enqueue d cmd time =>
    simp only [Env.handler,Env.fallible]
    split
    · exact World.fares_still id
    · exact World.fares_queue id ((Queue.enqueue_grows _ _ _ _).other dev (Ne.symm hop))
  | markSent d ds =>
    simp only [Env.handler,Env.fallible]
    split
    · exact World.fares_still id
    · exact World.fares_queue id (Queue.commands_markSent_ne _ _ (Ne.symm hop))
  | storeResult d cid r =>
    simp only [Env.handler,Env.fallible]
    split
    · exact World.fares_still id
    · exact World.fares_queue id (Queue.commands_storeResult_ne _ _ _ (Ne.symm hop))

/-- The same over the calls made so far. -/
structure World.FaresAfter (dev key : GoString) (w : World) (cs : List ((op : Op) × Ans op)) (v : World) :
    Prop where
  spares : (∀ x ∈ cs, ¬Takes dev key w x) → w.SparesDevice dev v
  takes : (∀ x ∈ cs, StoresNew dev w x) → (∃ x ∈ cs, Takes dev key w x) → w.Lost dev key v

theorem World.FaresAfter.step {cs : List ((op : Op) × Ans op)} (h : w.FaresAfter dev key cs v)
    (hx : w.Fares dev key v x v') : w.FaresAfter dev key (cs ++ [x]) v' where
  spares hno := hx.spares (hno x (by simp)) (h.spares fun y hy => hno y (by simp [hy]))
  takes hnew := by
    rintro ⟨y,hy,htakes⟩
    have hnew' := hnew x (by simp)
    rcases List.mem_append.mp hy with hy | hy
    · exact hx.lost (h.takes (fun z hz => hnew z (by simp [hz])) ⟨y,hy,htakes⟩) hnew'
    · cases List.mem_singleton.mp hy
      exact hx.takes htakes hnew'

theorem World.FaresAfter.run {cs : List ((op : Op) × Ans op)} {α : Type} {p : Program Op Ans α} {m : Machine}
    (h : w.FaresAfter dev key cs m.world) (hp : p.Only (Op.Foreign dev key w)) (env : Env) :
    w.FaresAfter dev key (cs ++ p.calls env.handler m) (p.run env.handler m).2.world :=
  hp.run_calls (I := fun cs m => w.FaresAfter dev key cs m.world)
    (fun _ m _ hop hI => hI.step (env.handler_fares hop m)) h

end Foreign

def World.Keyed (w : World) : Prop := ∀ key s, w.sessions.lookup key = some s → s.key = key

theorem World.Keyed.erase (h : w.Keyed) (key : GoString) :
    World.Keyed { w with sessions := w.sessions.erase key } :=
  fun k s hs => h k s (GoMap.lookup_erase_some hs).2

theorem World.Keyed.insert (h : w.Keyed) (sess : Session) :
    World.Keyed { w with sessions := w.sessions.insert sess.key sess } := by
  intro k s hs
  by_cases hk : k = sess.key
  · rw [hk,AList.lookup_insert] at hs
    cases hs
    exact hk.symm
  · exact h k s (by rwa [AList.lookup_insert_ne hk] at hs)

theorem Op.Moves.keyed (hm : op.Moves w w') (h : w.Keyed) : w'.Keyed := by
  cases hm with
  | expire => exact h.erase _
  | putSession => exact h.insert _
  | deleteSession => exact h.erase _
  | @abandon s popped =>
    unfold MemorySessions.abandon
    split
    · rename_i stored hs
      split
      · rw [← h s.key stored hs]
        exact h.insert (MemorySessions.writeThrough stored s popped)
      · exact h
    · exact h
  | _ => exact h

theorem World.Reachable.keyed (h : w.Reachable) : w.Keyed := by
  induction h with
  | start _ hs =>
    intro key s h
    rw [hs,AList.lookup_empty] at h
    cases h
  | call env op _ ih => exact (env.handler_moves op _).keyed ih
  | enqueue _ _ _ _ ih | cancel _ _ _ _ ih | prune _ _ _ _ ih => exact ih

/-- The states of a service between its calls and in the midst of them: a session is put into
the store only with maps that were made for it before. -/
inductive World.Arisen : World → Prop where
  | start {w : World} (hs : w.sessions = ∅) : Arisen w
  | call {m : Machine} (env : Env) (op : Op) (h : Arisen m.world)
      (hop : ∀ s, op = .putSession s → s.addr < m.world.nextAddr) : Arisen (env.handler op m).2.world
  | queue {w : World} (q : Queue) (h : Arisen w) : Arisen { w with queue := q }

structure World.Addressed (w : World) : Prop where
  keyed : w.Keyed
  addr : w.Stores fun _ s => s.addr < w.nextAddr

theorem World.Arisen.addressed (h : w.Arisen) : w.Addressed := by
  induction h with
  | start hs => exact ⟨fun key s h => by simp [hs] at h,fun key s h => by simp [hs] at h⟩
  | queue _ _ ih => exact ⟨ih.keyed,ih.addr⟩
  | @call m env op h hop ih =>
    have hm := env.handler_moves op m
    refine ⟨hm.keyed ih.keyed,?_⟩
    generalize (env.handler op m).2.world = w' at hm
    cases hm with
    | newMaps => exact fun key s h => Nat.lt_succ_of_lt (ih.addr key s h)
    | expire | deleteSession => exact fun key s h => ih.addr key s (GoMap.lookup_erase_some h).2
    | @putSession s =>
      intro key s' h
      rcases GoMap.lookup_insert_cases h with ⟨-,rfl⟩ | ⟨-,h⟩
      · exact hop _ rfl
      · exact ih.addr key s' h
    | @abandon s popped =>
      intro key s' h
      unfold MemorySessions.abandon at h
      split at h
      · rename_i stored hs
        split at h
        · rcases GoMap.lookup_insert_cases h with ⟨-,rfl⟩ | ⟨-,h⟩
          · exact ih.addr _ stored hs
          · exact ih.addr key s' h
        · exact ih.addr key s' h
      · exact ih.addr key s' h
    | _ => exact ih.addr

section Arriving
variable {req : Message} {id : Identity} {t : Option Transport} {cfg : Config} {env : Env}

/-- A session the message may enter: it is not the device's, nor does it share its maps. -/
structure Session.Apart (dev : GoString) (req : Message) (w : World) (s : Session) : Prop where
  key : s.key = Message.sessionKey req
  deviceID : s.deviceID ≠ dev
  addr : ∀ stored, w.sessions.lookup (Message.sessionKey req) = some stored →
    stored.deviceID = dev → stored.addr ≠ s.addr

theorem Arrival.apart (h : Arrival req id t w s w') (hw : w.Addressed)
    (hd : req.header.source.locURI ≠ dev)
    (hid : ∀ stored, w.sessions.lookup (Message.sessionKey req) = some stored →
      stored.deviceID = dev → stored.enrollmentKey ≠ id.enrollmentKey) : s.Apart dev req w := by
  obtain ⟨base,now,mm,mo,uao,rfl,⟨hs,hk,-,rfl⟩ | ⟨sessions,start,hs,rfl,-,-,rfl⟩⟩ := h.shape
  · have hdev : base.deviceID ≠ dev := fun hdev => hid base hs hdev hk
    refine ⟨hw.keyed _ base hs,hdev,fun stored hl hdev' => ?_⟩
    cases hs.symm.trans hl
    exact absurd hdev' hdev
  · exact ⟨rfl,hd,fun stored hl _ => Nat.ne_of_lt (hw.addr _ stored hl)⟩

end Arriving

theorem World.Arisen.run {α : Type} {p : Program Op Ans α} {P : Op → Prop} {n : Nat} (env : Env) {m : Machine}
    (hp : p.Only P) (hP : ∀ s, P (.putSession s) → s.addr < n) (hn : n ≤ m.world.nextAddr)
    (h : m.world.Arisen) :
    (p.run env.handler m).2.world.Arisen ∧ n ≤ (p.run env.handler m).2.world.nextAddr := by
  refine Program.Only.run_rel (R := fun m m' : Machine => m.world.Arisen ∧ n ≤ m.world.nextAddr →
    m'.world.Arisen ∧ n ≤ m'.world.nextAddr) (fun _ h => h) (fun _ _ _ h₁ h₂ h => h₂ (h₁ h))
    (fun op m hop h => ⟨.call env op h.1 fun s hs => ?_,?_⟩) hp m ⟨h,hn⟩
  · subst hs
    exact (hP s hop).trans_le h.2
  · have hm := env.handler_moves op m
    generalize (env.handler op m).2.world = w' at hm
    cases hm with
    | newMaps => exact Nat.le_succ_of_le h.2
    | _ => exact h.2

theorem World.Arisen.newMaps (h : w.Arisen) : World.Arisen { w with nextAddr := w.nextAddr+1 } := by
  have hop : ∀ s, Op.newMaps = .putSession s → s.addr < w.nextAddr := fun _ hs => nomatch hs
  exact .call (m := ⟨w,0⟩) Sample.env .newMaps h hop

theorem World.Arisen.erase (h : w.Arisen) (key : GoString) :
    World.Arisen { w with sessions := w.sessions.erase key } := by
  have hop : ∀ s, Op.deleteSession key = .putSession s → s.addr < w.nextAddr := fun _ hs => nomatch hs
  exact .call (m := ⟨w,0⟩) Sample.env (.deleteSession key) h hop

theorem World.Arisen.abandon (h : w.Arisen) (s : Session) (popped : Bool) :
    World.Arisen { w with sessions := MemorySessions.abandon w.sessions s popped } := by
  have hop : ∀ s', Op.abandon s popped = .putSession s' → s'.addr < w.nextAddr := fun _ hs => nomatch hs
  exact .call (m := ⟨w,0⟩) Sample.env (.abandon s popped) h hop

theorem World.Arisen.serve (h : w.Arisen) (cfg : Config) (env : Env) (t : Option Transport)
    (req : Message) : (Mdm.serve cfg env t req w).2.Arisen := by
  have herase : ∀ sessions, sessions = w.sessions ∨ sessions = w.sessions.erase (Message.sessionKey req) →
      World.Arisen { w with sessions := sessions } := by
    rintro sessions (rfl | rfl)
    · exact h
    · exact h.erase _
  rcases serve_cases cfg env t req w with ⟨-,-,-,sessions,hs,he⟩ | ⟨⟨r⟩⟩
  · rw [he]
    exact herase sessions hs
  have hstart : r.start.world.Arisen ∧ r.arrived.addr < r.start.world.nextAddr := by
    obtain ⟨base,now,mm,mo,uao,ha,⟨hs,-,-,hw⟩ | ⟨sessions,start,hs,rfl,-,-,hw⟩⟩ := r.arrival.shape
    · rw [hw,ha]
      exact ⟨h,h.addressed.addr _ base hs⟩
    · rw [hw,ha]
      exact ⟨(herase sessions hs).newMaps,Nat.lt_succ_self _⟩
  obtain ⟨⟨a,ty,hsess⟩,hauthed⟩ := r.authenticated
  have haddr : r.sess.addr < r.authed.world.nextAddr := by
    rw [hauthed,hsess]
    exact hstart.2
  have hauthedArisen : r.authed.world.Arisen := by
    rw [hauthed]
    exact hstart.1
  have hserves := (respond_serves cfg req r.id r.outcome _ (.refl (startWork cfg req r.sess))).1
  have hresp := World.Arisen.run env (n := r.sess.addr+1) (m := r.authed) hserves (fun s hs => ?_) haddr
    hauthedArisen
  · have hrun : (respond cfg req r.id r.outcome (startWork cfg req r.sess)).run env.handler r.authed =
      ((r.result,r.work),r.stop) := r.responds
    rw [hrun] at hresp
    rw [r.after]
    unfold World.handedOver
    split
    · exact hresp.1
    · exact hresp.1.abandon _ _
  · rcases hs with hs | ⟨w₁,h₁,hs⟩ | hs
    · exact hs.elim
    · cases hs
      exact Nat.lt_succ_of_le (Nat.le_of_eq h₁.sess.addr)
    · cases hs

namespace Sample

def packageOneOf (dev sessionID : GoString) : Message :=
  { packageOne with
    header := { packageOne.header with sessionID := sessionID, source := { locURI := dev } } }

end Sample

set_option maxRecDepth 4000

end MicrosoftDM.Mdm
