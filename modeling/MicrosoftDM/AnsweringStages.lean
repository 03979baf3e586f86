import MicrosoftDM.EngineWorld

set_option autoImplicit false

namespace MicrosoftDM.Mdm
open Effect
open Effect.Action (exec exec_next exec_bind_ok)
open MicrosoftDM.Syncml (Item Alert Message ChunkError)

variable {env : Env} {m m' : Machine} {w w' : Work}

theorem orFail_ok {α : Type} {f : StoreError → Err} {r : Except StoreError α} {a : α}
    (h : exec env.handler (Eng.orFail f r) w m = ((.ok a,w'),m')) :
    r = .ok a ∧ w' = w ∧ m' = m := by
  cases r with
  | error e => cases h
  | ok b => cases h; exact ⟨rfl,rfl,rfl⟩

theorem hook_ok {hk : HookCall} (h : exec env.handler (Eng.hook hk) w m = ((.ok (),w'),m')) :
    w' = w ∧ m'.world = m.world := by
  obtain ⟨r,w₁,m₁,h₁,h₂⟩ := (exec_bind_ok _).mp h
  obtain ⟨hr,hw,hm⟩ := orFail_ok h₂
  cases h₁
  obtain ⟨-,hm₁⟩ := Env.fallible_ok (Prod.ext hr rfl)
  subst hw hm
  exact ⟨rfl,(congrArg Machine.world hm₁).trans rfl⟩

/-- What the items of an alert do to the session once the hooks have accepted them. -/
def Session.noteItems (code : Syncml.AlertCode) (sess : Session) (items : List Item) : Session :=
  if code = Syncml.alertGeneric then items.foldl Session.noteUnenroll sess else sess

variable {code : Syncml.AlertCode} {items : List Item} {q₁ q₂ q₃ : Queue} {id : GoString}
  {xs ys : List (Scope × Syncml.Command)}

theorem alertItem_ok {it : Item}
    (h : exec env.handler (alertItem code it) w m = ((.ok (),w'),m')) :
    w' = w.setSess (Session.noteItems code · [it]) ∧ m'.world = m.world := by
  replace h := exec_next _ h rfl
  by_cases hg : code = Syncml.alertGeneric
  · simp only [hg,if_true] at h
    replace h := (exec_bind_ok _).mp h
    obtain ⟨_,_,_,h₁,h⟩ := h
    obtain ⟨hw,hm⟩ := hook_ok h₁
    cases h
    subst hw
    exact ⟨by simp [Session.noteItems,hg],hm⟩
  · simp only [hg,if_false] at h
    have hn : w.setSess (Session.noteItems code · [it]) = w := by
      simp [Session.noteItems,hg,Work.setSess]
    rw [hn]
    split at h
    · exact hook_ok h
    · cases h
      exact ⟨rfl,rfl⟩

theorem alertItems_ok
    (h : exec env.handler (alertItems code items) w m = ((.ok (),w'),m')) :
    w' = w.setSess (Session.noteItems code · items) ∧ m'.world = m.world := by
  induction items generalizing w m with
  | nil =>
    cases h
    refine ⟨?_,rfl⟩
    simp [Session.noteItems,Work.setSess]
  | cons it rest ih =>
    replace h := (exec_bind_ok _).mp h
    obtain ⟨_,w₁,m₁,h₁,h⟩ := h
    obtain ⟨hw,hm⟩ := alertItem_ok h₁
    obtain ⟨hw',hm'⟩ := ih h
    subst hw
    refine ⟨?_,hm'.trans hm⟩
    rw [hw']
    simp only [Session.noteItems,Work.setSess,List.foldl_cons,List.foldl_nil]
    split <;> rfl

def Session.alerted (sess : Session) (hooks : Bool) (a : Alert) : Session :=
  if a.code ∈ [Syncml.alertNextMessage,Syncml.alertServerInitiated,Syncml.alertClientInitiated] then
    sess
  else if a.code = Syncml.alertSessionAbort then { sess with closed := true }
  else if a.code = Syncml.alertNoEndOfData then sess.resetUpload
  else if hooks then sess.noteItems a.code a.items
  else sess

def Work.ackAlert (w : Work) (cfg : Config) (a : Alert) : Work :=
  (w.reply fun cid => .status (alertStatus w.sess a cid)).setSess (·.alerted cfg.hooks a)

variable {cfg : Config}

theorem handleAlert_ok {a : Alert}
    (h : exec env.handler (handleAlert cfg a) w m = ((.ok (),w'),m')) :
    w' = w.ackAlert cfg a ∧ m'.world = m.world := by
  replace h := (exec_bind_ok _).mp h
  obtain ⟨_,w₁,_,h₁,h⟩ := h
  cases h₁
  unfold Work.ackAlert Session.alerted
  split at h
  · rename_i hc
    cases h
    exact ⟨by simp only [if_pos hc]; rfl,rfl⟩
  rename_i hc
  simp only [if_neg hc]
  split at h
  · rename_i ha
    cases h
    exact ⟨by simp only [if_pos ha],rfl⟩
  rename_i ha
  simp only [if_neg ha]
  split at h
  · rename_i hn
    cases h
    exact ⟨by simp only [if_pos hn],rfl⟩
  rename_i hn
  simp only [if_neg hn]
  split at h
  · rename_i hk
    simp only [if_pos hk]
    exact alertItems_ok h
  · rename_i hk
    cases h
    exact ⟨by simp only [if_neg hk]; rfl,rfl⟩

def Work.ack (cfg : Config) (req : Message) (w : Work) : Syncml.Command → Except ChunkError Work
  | .status _ => .ok w
  | .results res =>
    match fileResults cfg.maxRequestSize w.sess res with
    | (.ok _,sess) => .ok (w.setSess fun _ => sess)
    | (.error e,_) => .error e
  | .alert a => .ok (w.ackAlert cfg a)
  | c => .ok (w.reply fun cid => .status (Syncml.statusFor req c cid Syncml.statusOK))

def Work.ackAll (cfg : Config) (req : Message) : Work → List Syncml.Command → Except ChunkError Work
  | w, [] => .ok w
  | w, c :: cs =>
    match w.ack cfg req c with
    | .ok w => w.ackAll cfg req cs
    | .error e => .error e

variable {req : Message}

theorem ackCommand_ok {c : Syncml.Command}
    (h : exec env.handler (ackCommand cfg req c) w m = ((.ok (),w'),m')) :
    w.ack cfg req c = .ok w' ∧ m'.world = m.world := by
  cases c with
  | status _ | leaf _ _ | group _ _ _ _ _ => cases h; exact ⟨rfl,rfl⟩
  | alert a =>
    obtain ⟨hw,hm⟩ := handleAlert_ok h
    exact ⟨by simp [Work.ack,hw],hm⟩
  | results res =>
    replace h := exec_next _ h rfl
    replace h := exec_next _ h rfl
    simp only [Work.ack]
    rcases hf : fileResults cfg.maxRequestSize w.sess res with ⟨r,s⟩
    rw [hf] at h
    cases r with
    | error e => cases h
    | ok u =>
      cases h
      exact ⟨by simp [Work.setSess,hf],rfl⟩

theorem ackCommands_ok {cs : List Syncml.Command}
    (h : exec env.handler (ackCommands cfg req cs) w m = ((.ok (),w'),m')) :
    w.ackAll cfg req cs = .ok w' ∧ m'.world = m.world := by
  induction cs generalizing w m with
  | nil => cases h; exact ⟨rfl,rfl⟩
  | cons c cs ih =>
    replace h := (exec_bind_ok _).mp h
    obtain ⟨_,w₁,m₁,h₁,h⟩ := h
    obtain ⟨ha,hm⟩ := ackCommand_ok h₁
    obtain ⟨hb,hm'⟩ := ih h
    exact ⟨by simp [Work.ackAll,ha,hb],hm'.trans hm⟩

/-- Only the queue of the world has changed, and as `R` says. -/
def World.QueueStep (R : Queue → Queue → Prop) (w w' : World) : Prop :=
  ∃ q, R w.queue q ∧ w' = { w with queue := q }

theorem World.QueueStep.of_eq {R : Queue → Queue → Prop} {w w' : World} (hR : R w.queue w.queue)
    (h : w' = w) : w.QueueStep R w' := ⟨w.queue,hR,h⟩

/-- A command the engine queues on its own: a Get of some nodes. -/
def QueuedCommand.IsRead (qc : QueuedCommand) : Prop :=
  ∃ uris o get, newGet uris o = .ok get ∧ qc.command.body = get.body ∧
    qc.command.scope = get.scope

variable {uris : List GoString}

theorem getItems_data {scope : Scope} {o : Options}
    (h : getItems scope o uris = .ok items) : ∀ it ∈ items, it.data = none := by
  induction uris generalizing items with
  | nil =>
    cases h
    intro it hit
    cases hit
  | cons u us ih =>
    simp only [getItems] at h
    cases hi : item u none o with
    | error e => simp [hi] at h
    | ok x =>
      rw [hi] at h
      dsimp only at h
      split at h
      · cases h
      cases hr : getItems scope o us with
      | error e => simp [hr] at h
      | ok rest =>
        rw [hr] at h
        cases h
        intro it hit
        rcases List.mem_cons.mp hit with rfl | hit
        · unfold item at hi
          split at hi
          · cases hi
          · cases hi
            rfl
        · exact ih hr it hit

theorem QueuedCommand.IsRead.body {qc : QueuedCommand} (h : qc.IsRead) :
    ∃ items, qc.command.body = .leaf .get { items := items } ∧ ∀ it ∈ items, it.data = none := by
  obtain ⟨uris,o,get,hget,hb,-⟩ := h
  rw [hb]
  unfold newGet at hget
  split at hget
  · cases hget
  split at hget
  · rename_i items hi
    cases hget
    exact ⟨items,rfl,getItems_data hi⟩
  · cases hget

structure Queue.Reads (dev : GoString) (q q' : Queue) : Prop extends Queue.Grows dev q q' where
  isRead : ∀ qc ∈ q'.commands dev, qc ∈ q.commands dev ∨ qc.IsRead

theorem Queue.Reads.refl (dev : GoString) (q : Queue) : q.Reads dev q :=
  ⟨.refl dev q,fun _ h => .inl h⟩

variable {dev : GoString}

theorem Queue.Reads.trans (h₁ : q₁.Reads dev q₂) (h₂ : q₂.Reads dev q₃) :
    q₁.Reads dev q₃ := by
  refine ⟨h₁.toGrows.trans h₂.toGrows,fun qc h => ?_⟩
  rcases h₂.isRead qc h with h | h
  · exact h₁.isRead qc h
  · exact .inr h

/-- What the delivery loop reads of a queued command. -/
def QueuedCommand.scoped (qc : QueuedCommand) : Scope × Syncml.Command :=
  (qc.command.scope,qc.command.body)

def readsOf (uris : List GoString) : List (Scope × Syncml.Command) :=
  match newGet uris {} with
  | .ok get => [(get.scope,get.body)]
  | .error _ => []

/-- The Gets of `queueFirstSessionReads`: the first is not queued again while it is in the queue. -/
def engineReads (cfg : Config) (sess : Session) (q : Queue) : List (Scope × Syncml.Command) :=
  (if internalID sess "first-reads" ∈ (q.commands sess.deviceID).map QueuedCommand.id then []
    else readsOf firstReadURIs) ++
  if cfg.providerID ≠ [] then (channelReadURIs cfg.providerID).flatMap fun uri => readsOf [uri] else []

theorem getItems_id (scope : Scope) (id : GoString) (uris : List GoString) :
    getItems scope { id := id } uris = getItems scope {} uris := by
  induction uris with
  | nil => rfl
  | cons u us ih =>
    simp only [getItems,ih]
    rfl

theorem readsOf_of_newGet {get : Command} (h : newGet uris { id := id } = .ok get) :
    readsOf uris = [(get.scope,get.body)] ∧ get.id = id := by
  cases uris with
  | nil => cases h
  | cons u us =>
    simp only [newGet,getItems_id] at h
    simp only [readsOf,newGet]
    cases hi : getItems (scopeOf u) {} (u :: us) with
    | error e => simp [hi] at h
    | ok items =>
      rw [hi] at h
      cases h
      exact ⟨rfl,rfl⟩

/-- The given reads are added, in order. -/
structure Queue.ReadsOf (dev : GoString) (reads : List (Scope × Syncml.Command)) (q q' : Queue) : Prop
    extends Queue.Reads dev q q' where
  added : ∃ new, q'.commands dev = q.commands dev ++ new ∧ new.map QueuedCommand.scoped = reads ∧
    ∀ qc ∈ new, qc.deliverable = true

theorem Queue.ReadsOf.refl (dev : GoString) (q : Queue) : q.ReadsOf dev [] q :=
  ⟨.refl dev q,[],(List.append_nil _).symm,rfl,nofun⟩

theorem Queue.ReadsOf.trans
    (h₁ : q₁.ReadsOf dev xs q₂) (h₂ : q₂.ReadsOf dev ys q₃) : q₁.ReadsOf dev (xs ++ ys) q₃ := by
  obtain ⟨new₁,he₁,hs₁,hd₁⟩ := h₁.added
  obtain ⟨new₂,he₂,hs₂,hd₂⟩ := h₂.added
  refine ⟨h₁.toReads.trans h₂.toReads,new₁ ++ new₂,?_,?_,fun qc hqc => ?_⟩
  · rw [he₂,he₁,List.append_assoc]
  · rw [List.map_append,hs₁,hs₂]
  · exact (List.mem_append.mp hqc).elim (hd₁ qc) (hd₂ qc)

theorem World.QueueStep.reads_trans {w₁ w₂ w₃ : World}
    (h₁ : w₁.QueueStep (Queue.ReadsOf dev xs) w₂) (h₂ : w₂.QueueStep (Queue.ReadsOf dev ys) w₃) :
    w₁.QueueStep (Queue.ReadsOf dev (xs ++ ys)) w₃ := by
  obtain ⟨q,hq,rfl⟩ := h₁
  obtain ⟨q',hq',rfl⟩ := h₂
  exact ⟨q',hq.trans hq',rfl⟩

/-- What `Enqueue` of a read answers, and what it adds. -/
structure Queue.Queued (dev id : GoString) (uris : List GoString) (w : World)
    (x : Except StoreError QueuedCommand × World) : Prop where
  ok : ∀ qc, x.1 = .ok qc → (id ≠ [] → id ∉ (w.queue.commands dev).map QueuedCommand.id) ∧
    w.QueueStep (Queue.ReadsOf dev (readsOf uris)) x.2
  error : ∀ e, x.1 = .error e → (e = .conflict → id ≠ [] →
    id ∈ (w.queue.commands dev).map QueuedCommand.id) ∧ w.QueueStep (Queue.ReadsOf dev []) x.2

theorem Queue.queued_enqueue {get : Command} {w : World} {time : Time}
    (hget : newGet uris { id := id } = .ok get) :
    Queue.Queued dev id uris w (w.setQueue (w.queue.enqueue dev { get with internal := true } time)) := by
  obtain ⟨hreads,hgid⟩ := readsOf_of_newGet hget
  have hstored : id ≠ [] → w.queue.storedID { get with internal := true } = id := by
    intro hne
    rw [← hgid] at hne ⊢
    exact if_neg hne
  have hgrows : w.queue.Reads dev (w.queue.enqueue dev { get with internal := true } time).2 :=
    ⟨Queue.enqueue_grows _ _ _ _,fun qc hqc => (Queue.mem_enqueue hqc).imp_right fun hqc =>
      ⟨uris,{ id := id },get,hget,by rw [hqc],by rw [hqc]⟩⟩
  rcases w.queue.enqueue_added dev { get with internal := true } time with
    ⟨qc,hr,hnew,hq,hc,hd⟩ | ⟨e,hr,hold,hq⟩
  · refine ⟨fun qc' _ => ⟨fun hne => hstored hne ▸ hnew,_,⟨hgrows,[qc],hq,?_,?_⟩,rfl⟩,fun e he => ?_⟩
    · rw [hreads,List.map_singleton,QueuedCommand.scoped,hc]
    · intro x hx
      cases List.mem_singleton.mp hx
      exact hd
    · cases hr.symm.trans he
  · refine ⟨fun qc' hr' => ?_,fun e' he => ⟨fun hconf hne => ?_,_,⟨hgrows,[],?_,rfl,nofun⟩,rfl⟩⟩
    · cases hr.symm.trans hr'
    · cases hr.symm.trans he
      exact hstored hne ▸ hold hconf
    · rw [hq,List.append_nil]

theorem enqueueRead_ok {r : Except StoreError QueuedCommand}
    (h : exec env.handler (enqueueRead uris id) w m = ((.ok r,w'),m')) :
    w' = w ∧ Queue.Queued w.sess.deviceID id uris m.world (r,m'.world) := by
  unfold enqueueRead at h
  split at h
  · cases h
  rename_i get hget
  replace h := exec_next _ h rfl
  replace h := exec_next _ h rfl
  cases h
  refine ⟨rfl,?_⟩
  have hq : Queue.Queued w.sess.deviceID id uris m.world (m.world.setQueue (m.world.queue.enqueue
    w.sess.deviceID { get with internal := true } (env.clock m.tick))) := Queue.queued_enqueue hget
  have hx : ∀ x : Except StoreError QueuedCommand × Machine,
      x = (.error .unavailable,(m.step m.world).step m.world) ∨
        x = ((m.world.setQueue (m.world.queue.enqueue w.sess.deviceID { get with internal := true }
          (env.clock m.tick))).1,(m.step m.world).step (m.world.setQueue (m.world.queue.enqueue
            w.sess.deviceID { get with internal := true } (env.clock m.tick))).2) →
      Queue.Queued w.sess.deviceID id uris m.world (x.1,x.2.world) := by
    rintro x (rfl | rfl)
    · refine ⟨nofun,fun e he => ?_⟩
      cases he
      exact ⟨nofun,.of_eq (.refl _ _) rfl⟩
    · exact hq
  exact hx _ (Env.fallible_cases _ _ _)

theorem channelReads_ok (h : exec env.handler (channelReads uris) w m = ((.ok (),w'),m')) :
    w' = w ∧ m.world.QueueStep (Queue.ReadsOf w.sess.deviceID
      (uris.flatMap fun uri => readsOf [uri])) m'.world := by
  induction uris generalizing w m with
  | nil => cases h; exact ⟨rfl,.of_eq (.refl _ _) rfl⟩
  | cons uri uris ih =>
    replace h := (exec_bind_ok _).mp h
    obtain ⟨_,_,_,h₁,h⟩ := h
    obtain ⟨hw,hq⟩ := enqueueRead_ok h₁
    replace h := (exec_bind_ok _).mp h
    obtain ⟨_,_,_,h₂,h⟩ := h
    obtain ⟨hr,hw₂,hm₂⟩ := orFail_ok h₂
    subst hw hw₂ hm₂
    obtain ⟨hw,hq'⟩ := ih h
    exact ⟨hw,(hq.ok _ hr).2.reads_trans hq'⟩

theorem firstReads_ok (h : exec env.handler firstReads w m = ((.ok (),w'),m')) :
    w' = w ∧ m.world.QueueStep (Queue.ReadsOf w.sess.deviceID
      (if internalID w.sess "first-reads" ∈
          (m.world.queue.commands w.sess.deviceID).map QueuedCommand.id then []
        else readsOf firstReadURIs)) m'.world := by
  replace h := exec_next _ h rfl
  replace h := (exec_bind_ok _).mp h
  obtain ⟨r,w₁,m₁,h₁,h⟩ := h
  obtain ⟨hw,hq⟩ := enqueueRead_ok h₁
  have hid : internalID w.sess "first-reads" ≠ [] := by simp +decide [internalID]
  unfold unlessConflict at h
  split at h
  · rename_i qc
    cases h
    obtain ⟨hnew,hstep⟩ := hq.ok qc rfl
    rw [if_neg (hnew hid)]
    exact ⟨hw,hstep⟩
  · cases h
    obtain ⟨hold,hstep⟩ := hq.error _ rfl
    rw [if_pos (hold rfl hid)]
    exact ⟨hw,hstep⟩
  · cases h

theorem queueFirstSessionReads_ok
    (h : exec env.handler (queueFirstSessionReads cfg) w m = ((.ok (),w'),m')) :
    w' = w ∧ m.world.QueueStep (Queue.ReadsOf w.sess.deviceID
      (engineReads cfg w.sess m.world.queue)) m'.world := by
  replace h := (exec_bind_ok _).mp h
  obtain ⟨_,_,_,h₁,h⟩ := h
  obtain ⟨hw,hq⟩ := firstReads_ok h₁
  subst hw
  unfold engineReads
  split at h
  · rename_i hp
    obtain ⟨hw,hq'⟩ := channelReads_ok h
    rw [if_pos hp]
    exact ⟨hw,hq.reads_trans hq'⟩
  rename_i hp
  cases h
  rw [if_neg hp,List.append_nil]
  exact ⟨rfl,hq⟩

theorem packageOneHook_ok (h : exec env.handler (packageOneHook cfg) w m = ((.ok (),w'),m')) :
    w' = w ∧ m'.world = m.world := by
  replace h := exec_next _ h rfl
  split at h
  · exact hook_ok h
  · cases h
    exact ⟨rfl,rfl⟩

theorem recordPackageOne_ok
    (h : exec env.handler (recordPackageOne cfg req) w m = ((.ok (),w'),m')) :
    w' = w.setSess (·.recordFacts req) ∧
    m.world.QueueStep (Queue.ReadsOf w.sess.deviceID
      (if w.sess.closed then [] else engineReads cfg w.sess m.world.queue)) m'.world := by
  replace h := exec_next _ h rfl
  replace h := (exec_bind_ok _).mp h
  obtain ⟨_,_,_,h₁,h⟩ := h
  obtain ⟨hw,hm⟩ := packageOneHook_ok h₁
  subst hw
  replace h := exec_next _ h rfl
  split at h
  · rename_i hc
    have hc : w.sess.closed = true := hc
    cases h
    rw [if_pos hc]
    exact ⟨rfl,.of_eq (.refl _ _) hm⟩
  rename_i hc
  have hc : ¬w.sess.closed = true := hc
  obtain ⟨hw,hq⟩ := queueFirstSessionReads_ok h
  rw [hm] at hq
  rw [if_neg hc]
  exact ⟨hw,hq⟩

def Session.filed (sess : Session) (req : Message) : Session :=
  if Syncml.isPackageOne req ∧ (fileStatuses sess req.body.statuses).gotPackageOne = false then
    (fileStatuses sess req.body.statuses).recordFacts req
  else fileStatuses sess req.body.statuses

/-- The reads that filing the request queues. -/
def Session.readsFor (sess : Session) (cfg : Config) (req : Message) (q : Queue) :
    List (Scope × Syncml.Command) :=
  if Syncml.isPackageOne req ∧ sess.gotPackageOne = false ∧ sess.closed = false then
    engineReads cfg sess q
  else []

theorem ackAndFile_ok (h : exec env.handler (ackAndFile cfg req) w m = ((.ok (),w'),m')) :
    ∃ acked, w.ackAll cfg req req.body.commands = .ok acked ∧
      w' = acked.setSess (·.filed req) ∧
      m.world.QueueStep (Queue.ReadsOf acked.sess.deviceID
        ((fileStatuses acked.sess req.body.statuses).readsFor cfg req m.world.queue)) m'.world := by
  replace h := (exec_bind_ok _).mp h
  obtain ⟨_,acked,m₁,h₁,h⟩ := h
  obtain ⟨ha,hm⟩ := ackCommands_ok h₁
  replace h := (exec_bind_ok _).mp h
  obtain ⟨_,_,_,h₂,h⟩ := h
  cases h₂
  replace h := (exec_bind_ok _).mp h
  obtain ⟨_,_,_,h₂,h⟩ := h
  cases h₂
  refine ⟨acked,ha,?_⟩
  have hd := (fileStatuses_steady acked.sess req.body.statuses).deviceID
  split at h
  · rename_i hp
    obtain ⟨hw,hq⟩ := recordPackageOne_ok h
    rw [hm] at hq
    simp only [Work.setSess] at hp hq
    refine ⟨?_,?_⟩
    · rw [hw]
      simp only [Work.setSess,Session.filed]
      rw [if_pos hp]
    · rw [← hd,Session.readsFor]
      cases hc : (fileStatuses acked.sess req.body.statuses).closed with
      | true =>
        rw [if_neg (by simp)]
        simpa [hc] using hq
      | false =>
        rw [if_pos ⟨hp.1,hp.2,rfl⟩]
        simpa [hc] using hq
  · rename_i hp
    cases h
    simp only [Work.setSess,Session.filed] at hp ⊢
    refine ⟨by rw [if_neg hp],.of_eq ?_ hm⟩
    rw [Session.readsFor,if_neg fun hr => hp ⟨hr.1,hr.2.1⟩]
    exact .refl _ _

theorem stamp_ok {msgID : GoString} {ids : List GoString} {ds : List Delivery}
    (h : exec env.handler (stamp msgID ids) w m = ((.ok ds,w'),m')) :
    w' = w ∧ m'.world = m.world ∧ ds.map Delivery.commandID = ids := by
  induction ids generalizing ds w w' m m' with
  | nil => cases h; exact ⟨rfl,rfl,rfl⟩
  | cons id ids ih =>
    replace h := exec_next _ h rfl
    replace h := (exec_bind_ok _).mp h
    obtain ⟨rest,_,_,h₁,h⟩ := h
    obtain ⟨hw,hm,hr⟩ := ih h₁
    cases h
    exact ⟨hw,hm,by simp [hr]⟩

def Queue.MarksSent (dev : GoString) (ids : List GoString) (q q' : Queue) : Prop :=
  ∃ ds : List Delivery, ds.map Delivery.commandID = ids ∧
    q.Maps dev (fun qc => ds.foldl QueuedCommand.markSent qc) q'

theorem markDelivered_ok {sent : List GoString}
    (h : exec env.handler (markDelivered sent) w m = ((.ok (),w'),m')) :
    w' = w ∧ m.world.QueueStep (Queue.MarksSent w.sess.deviceID sent) m'.world := by
  unfold markDelivered at h
  split at h
  · rename_i hs
    cases h
    exact ⟨rfl,.of_eq ⟨[],hs.symm,.refl _ _⟩ rfl⟩
  replace h := (exec_bind_ok _).mp h
  obtain ⟨_,_,_,h₁,h⟩ := h
  cases h₁
  replace h := (exec_bind_ok _).mp h
  obtain ⟨ds,w₁,m₁,h₁,h⟩ := h
  obtain ⟨hw,hm,hds⟩ := stamp_ok h₁
  replace h := (exec_bind_ok _).mp h
  obtain ⟨r,w₂,m₂,h₂,h⟩ := h
  obtain ⟨hr,hw',hm'⟩ := orFail_ok h
  cases h₂
  obtain ⟨hr₁,hm₁⟩ := Env.fallible_ok (Prod.ext hr rfl)
  subst hw' hm'
  rw [← hm]
  exact ⟨hw,_,⟨ds,hds,Queue.markSent_ok hr₁⟩,(congrArg Machine.world hm₁).trans rfl⟩

/-- How a reply is completed once the request is filed: `w` becomes `w'` and
the queue `q` becomes `q'`. -/
inductive Built (cfg : Config) (req : Message) (w : Work) (q : Queue) : Work → Queue → Prop where
  | closing (hc : w.sess.closed = true) : Built cfg req w q (w.setFinal true) q
  | chunk {o : Outgoing} {next : Item} {rest : List Item} (hc : w.sess.closed = false)
      (hn : Syncml.isNextMessageRequest req = true ∧ req.body.statuses.length ≤ 1)
      (ho : w.sess.nextChunk = some (o,next,rest)) : Built cfg req w q (w.sendChunk o next rest) q
  | upload (hc : w.sess.closed = false)
      (hn : Syncml.isNextMessageRequest req = true ∧ req.body.statuses.length ≤ 1 →
        w.sess.nextChunk = none)
      (hu : w.sess.uploadPending = true) : Built cfg req w q w.askForMore q
  | deliver {through : List QueuedCommand} {q' : Queue} (hc : w.sess.closed = false)
      (hn : Syncml.isNextMessageRequest req = true ∧ req.body.statuses.length ≤ 1 →
        w.sess.nextChunk = none)
      (hu : w.sess.uploadPending = false)
      (hd : Delivered w.sess (q.deliverable w.sess.deviceID 256) through)
      (hall : through.map (·.firstBody w.sess.maxObjSize) = budgetCut w.sess.maxObjSize false (w.budget cfg)
        ((admitted w.sess.facts (q.deliverable w.sess.deviceID 256)).map fun qc => qc.command.body))
      (hq : q.MarksSent w.sess.deviceID (through.map QueuedCommand.id) q') :
      Built cfg req w q ((through.foldl Work.send w).setFinal
        (through.foldl Work.send w).sess.outgoing.isNone) q'

/-- `deliver` without an upload in the way: what goes out, and what the queue learns of it. -/
theorem deliver_sends (hu : w.sess.uploadPending = false)
    (h : exec env.handler (deliver cfg) w m = ((.ok (),w'),m')) :
    ∃ through, Delivered w.sess (m.world.queue.deliverable w.sess.deviceID 256) through ∧
      through.map (·.firstBody w.sess.maxObjSize) = budgetCut w.sess.maxObjSize false (w.budget cfg)
        ((admitted w.sess.facts (m.world.queue.deliverable w.sess.deviceID 256)).map
          fun qc => qc.command.body) ∧
      w' = (through.foldl Work.send w).setFinal (through.foldl Work.send w).sess.outgoing.isNone ∧
      m.world.QueueStep (Queue.MarksSent w.sess.deviceID (through.map QueuedCommand.id)) m'.world := by
  replace h := exec_next _ h rfl
  rw [if_neg (by simp [hu])] at h
  replace h := (exec_bind_ok _).mp h
  obtain ⟨r,_,_,h₁,h⟩ := h
  cases h₁
  replace h := (exec_bind_ok _).mp h
  obtain ⟨cmds,w₀,m₀,h₁,h⟩ := h
  obtain ⟨hr,hw,hm⟩ := orFail_ok h₁
  obtain ⟨hr₁,hm₁⟩ := Env.fallible_ok (Prod.ext hr rfl)
  subst hw hm
  cases hr₁
  replace h := exec_next _ h rfl
  replace h := (exec_bind_ok _).mp h
  obtain ⟨_,w₁,m₁,h₁,h⟩ := h
  obtain ⟨hw,q',hq,hm⟩ := markDelivered_ok h₁
  cases h
  obtain ⟨through,hd,he,hall⟩ := deliverLoop_eq w₀ (w₀.budget cfg) []
    (m.world.queue.deliverable w₀.sess.deviceID 256)
  subst hw
  simp only [he,List.nil_append] at hq ⊢
  have hdev := (foldl_send_sending w₀ through).steady.deviceID
  rw [hdev] at hq
  have hm₀ : (env.handler (Op.deliverable w₀.sess.deviceID 256) m).2.world = m.world :=
    (congrArg Machine.world hm₁).trans rfl
  rw [hm₀] at hq hm
  exact ⟨through,hd,hall,rfl,q',hq,hm⟩

theorem deliver_ok
    (hc : w.sess.closed = false)
    (hn : Syncml.isNextMessageRequest req = true ∧ req.body.statuses.length ≤ 1 →
      w.sess.nextChunk = none)
    (h : exec env.handler (deliver cfg) w m = ((.ok (),w'),m')) :
    m.world.QueueStep (Built cfg req w · w') m'.world := by
  cases hu : w.sess.uploadPending with
  | true =>
    replace h := exec_next _ h rfl
    rw [if_pos hu] at h
    cases h
    exact ⟨_,.upload hc hn hu,rfl⟩
  | false =>
    obtain ⟨through,hd,hall,hw,q',hq,hm⟩ := deliver_sends hu h
    rw [hw]
    exact ⟨q',.deliver hc hn hu hd hall hq,hm⟩

theorem continueOrNext_ok (hc : w.sess.closed = false)
    (hn : Syncml.isNextMessageRequest req = true ∧ req.body.statuses.length ≤ 1)
    (h : exec env.handler (continueOrNext cfg) w m = ((.ok (),w'),m')) :
    m.world.QueueStep (Built cfg req w · w') m'.world := by
  replace h := exec_next _ h rfl
  cases ho : w.sess.nextChunk with
  | some c =>
    obtain ⟨o,next,rest⟩ := c
    rw [ho] at h
    cases h
    exact ⟨_,.chunk hc hn ho,rfl⟩
  | none =>
    rw [ho] at h
    exact deliver_ok hc (fun _ => ho) h

theorem complete_ok (h : exec env.handler (complete cfg req) w m = ((.ok (),w'),m')) :
    m.world.QueueStep (Built cfg req w · w') m'.world := by
  replace h := exec_next _ h rfl
  split at h
  · rename_i hc
    cases h
    exact ⟨_,.closing hc,rfl⟩
  rename_i hc
  have hc : w.sess.closed = false := by simpa using hc
  split at h
  · rename_i hn
    exact continueOrNext_ok hc hn h
  · rename_i hn
    exact deliver_ok hc (fun hn' => absurd hn' hn) h

def greeted (cfg : Config) (req : Message) (sess : Session) : Work :=
  (startWork cfg req sess).reply fun cid =>
    .status (Syncml.statusForHeader req cid Syncml.statusOK)

theorem answer_ok {sess : Session}
    (h : exec env.handler (answer cfg req) (startWork cfg req sess) m = ((.ok (),w'),m')) :
    ∃ acked q₁ q₂, (greeted cfg req sess).ackAll cfg req req.body.commands = .ok acked ∧
      m.world.queue.ReadsOf acked.sess.deviceID
        ((fileStatuses acked.sess req.body.statuses).readsFor cfg req m.world.queue) q₁ ∧
      Built cfg req (acked.setSess (·.filed req)) q₁ w' q₂ ∧
      m'.world = { m.world with queue := q₂ } := by
  replace h := exec_next _ h rfl
  replace h := (exec_bind_ok _).mp h
  obtain ⟨_,w₁,m₁,h₁,h⟩ := h
  obtain ⟨acked,ha,hw,q₁,hg,hm₁⟩ := ackAndFile_ok h₁
  obtain ⟨q₂,hb,hm⟩ := complete_ok h
  rw [hm₁] at hm hb
  rw [hw] at hb
  exact ⟨acked,q₁,q₂,ha,hg,hb,hm⟩

theorem issueNonce_ok {nonce : Bytes}
    (h : exec env.handler (issueNonce cfg dev) w m = ((.ok nonce,w'),m')) :
    w' = w ∧ ∃ n, m'.world = { m.world with nonces := n } := by
  replace h := exec_next _ h rfl
  replace h := exec_next _ h rfl
  replace h := (exec_bind_ok _).mp h
  obtain ⟨_,_,_,h₁,h⟩ := h
  obtain ⟨hr,hw,hm⟩ := orFail_ok h₁
  obtain ⟨-,hm₁⟩ := Env.fallible_ok (Prod.ext hr rfl)
  cases h
  obtain ⟨n,hn⟩ := World.putNonce_frame m.world (nonceKey dev) (env.nonce m.tick)
    (env.clock (m.tick+1)+cfg.nonceTTL)
  refine ⟨hw,n,?_⟩
  rw [hm]
  exact (congrArg Machine.world hm₁).trans hn

theorem challenge_ok {id : Identity} {outcome : AuthOutcome}
    (h : exec env.handler (challenge cfg req id outcome) w m = ((.ok (),w'),m')) :
    (∃ chal, w' = w.challenge req outcome chal) ∧ ∃ n, m'.world = { m.world with nonces := n } := by
  unfold challenge at h
  split at h
  · cases h
    exact ⟨⟨_,rfl⟩,_,rfl⟩
  replace h := (exec_bind_ok _).mp h
  obtain ⟨_,_,_,h₁,h⟩ := h
  obtain ⟨hw,hm⟩ := issueNonce_ok h₁
  cases h
  exact ⟨⟨_,by rw [hw]⟩,hm⟩

end MicrosoftDM.Mdm
