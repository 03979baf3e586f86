import MicrosoftDM.DeliveredItems
import MicrosoftDM.TrustBoundary

set_option autoImplicit false

namespace MicrosoftDM.Mdm
open MicrosoftDM.Syncml (Item Message allItems)

structure Facts.Permits (facts : Facts) (target : GoString) : Prop where
  user : scopeOf target = .user →
    facts.loginStatus = Syncml.loginStatusUser ∧ facts.syncType ≠ syncTypeDevice
  device : scopeOf target = .device → facts.syncType ≠ Syncml.loginStatusUser

instance (facts : Facts) (target : GoString) : Decidable (facts.Permits target) :=
  decidable_of_iff
    ((scopeOf target = .user →
        facts.loginStatus = Syncml.loginStatusUser ∧ facts.syncType ≠ syncTypeDevice) ∧
      (scopeOf target = .device → facts.syncType ≠ Syncml.loginStatusUser))
    ⟨fun ⟨h₁,h₂⟩ => ⟨h₁,h₂⟩,fun h => ⟨h.user,h.device⟩⟩

variable {target : GoString} {it : Item} {req : Message} {t : Option Transport} {w : World}

theorem Facts.SameGate.permits {f g : Facts} (h : f.SameGate g)
    (hp : f.Permits target) : g.Permits target := by
  obtain ⟨hs,hl⟩ := h
  constructor
  · rw [hs,hl]
    exact hp.user
  · rw [hs]
    exact hp.device

theorem scopeAllows_permits {facts : Facts}
    (h : scopeAllows facts (scopeOf target) = true) : facts.Permits target := by
  unfold scopeAllows at h
  split at h
  · cases h
  rename_i hu
  split at h
  · cases h
  rename_i hd
  constructor
  · intro hs
    rw [if_pos hs] at h
    refine ⟨of_decide_eq_true h,fun ht => hd ⟨ht,?_⟩⟩
    rw [hs]
    decide
  · intro hs ht
    refine hu ⟨ht,?_⟩
    rw [hs]
    decide

theorem QueuedCommand.pieces_scope {qc : QueuedCommand} (h : validate qc.command = none) {n : Int} (hit : it ∈ qc.pieces n) : scopeOf it.target = qc.command.scope := by
  have hall : ∀ x ∈ allItems [qc.command.body], scopeOf x.target = qc.command.scope := by
    intro x hx
    rw [allItems_leaves,List.mem_flatMap] at hx
    obtain ⟨l,hl,hx⟩ := hx
    have hleaf := validate_leaves_isLeaf h l hl
    refine validate_leaves_scope h l hl x ?_
    cases l with
    | leaf v b => exact hx
    | group _ _ _ _ _ | alert _ | status _ | results _ => cases hleaf
  rcases qc.pieces_cases n with he | ⟨x,first,next,rest,hx,hs,he⟩
  · exact hall it (he ▸ hit)
  rw [he] at hit
  obtain ⟨d,hd⟩ := Syncml.splitItem_chunk hs
  obtain ⟨b,value,more,rfl,-⟩ := hd it hit
  exact hall x (by rw [hx]; exact List.mem_cons_self)

def Session.InScope (s : Session) : Prop :=
  ∀ o, s.outgoing = some o → ∀ it ∈ o.chunks, s.facts.Permits it.target

theorem inScope_writtenThrough : WrittenThrough fun _ s => s.InScope :=
  chunks_writtenThrough fun _ _ _ _ h => h

def Session.RecordFits (s : Session) (req : Message) : Prop :=
  Syncml.isPackageOne req = true → s.gotPackageOne = false →
    ∀ o, s.outgoing = some o → ∀ it ∈ o.chunks, (s.facts.record req).Permits it.target

instance (s : Session) (req : Message) : Decidable (s.RecordFits req) :=
  decidable_of_iff
    (Syncml.isPackageOne req = true → s.gotPackageOne = false →
      (s.outgoing.all fun o => decide (∀ it ∈ o.chunks, (s.facts.record req).Permits it.target)) = true)
    ⟨fun h hp hg => all_decide_iff.mp (h hp hg),fun h hp hg => all_decide_iff.mpr (h hp hg)⟩

section Gate
variable {cfg : Config} {req : Message} {s s' : Session} {w w' : World} {reply : Option Message}

theorem Answered.permits (a : Answered cfg req s w s' w' reply) (hs : s.InScope)
    (hf : s.RecordFits req)
    (h : ItemFrom (·.pieces a.filed.maxObjSize) a.filed a.reads it) :
    s'.facts.Permits it.target := by
  obtain ⟨hfinal,-,hfiled,-⟩ := a.final_facts
  rw [hfinal]
  rcases h with ⟨o,ho,hit⟩ | ⟨qc,hqc,hit⟩
  · rw [a.filedFrom.outgoing] at ho
    unfold Session.factsAfter
    split
    · rename_i hrec
      exact hf hrec.1 hrec.2 o ho it hit
    · exact hs o ho it hit
  · obtain ⟨hmem,hallow⟩ := List.mem_filter.mp hqc
    have hvalid := (a.reads.valid _ qc (Queue.mem_deliverable hmem).1).1
    rw [hfiled,← QueuedCommand.pieces_scope hvalid hit] at hallow
    exact scopeAllows_permits hallow

theorem Answered.inScope (a : Answered cfg req s w s' w' reply) (hs : s.InScope)
    (hf : s.RecordFits req) : s'.InScope :=
  fun _ ho _ hit => a.permits hs hf ((a.chunks ho hit).mono fun _ h => List.mem_append_right _ h)

theorem Challenged.inScope {outcome : AuthOutcome} (c : Challenged cfg req outcome s w s' w' reply)
    (hs : s.InScope) : s'.InScope := by
  obtain ⟨r,he⟩ := c.finished.final
  rw [he]
  exact hs

end Gate

theorem Arrival.inScope {id : Identity} {w' : World}
    {s : Session} (h : Arrival req id t w s w') (hw : w.Stores fun _ s => s.InScope) : s.InScope := by
  obtain ⟨base,now,mm,mo,uao,rfl,⟨hs,hk,hm,rfl⟩ | ⟨sessions,start,hs,rfl,hm,hp,rfl⟩⟩ := h.shape
  · intro o ho it hit
    have hgate : base.facts.SameGate { base.facts with userAgentOrigin := uao } := ⟨rfl,rfl⟩
    exact hgate.permits (hw _ base hs o ho it hit)
  · intro o ho
    cases ho

theorem Reached.inScope {cfg : Config} {env : Env}
    (r : Reached cfg env t req w) (hw : w.Stores fun _ s => s.InScope)
    (hf : r.arrived.RecordFits req) : r.sess.InScope ∧ r.sess.RecordFits req := by
  have hs := r.arrival.inScope hw
  obtain ⟨a,ty,he⟩ := r.authenticated.1
  rw [he]
  exact ⟨hs,hf⟩

/-- Along every run, no reply carries an item that the recorded facts forbid,
if no package 1 is recorded that forbids an object in flight. -/
theorem replies_in_scope {cfg : Config} {w w' : World} {calls : List Call}
    (hr : Run cfg w calls w') (hw : w.sessions = ∅)
    (hfit : ∀ c ∈ calls, ∀ s, c.entered = some s → s.RecordFits c.req) {c : Call} (hc : c ∈ calls)
    {m : Message} {s' : Session} (hm : c.message cfg = some m) (hs : (c.out cfg).sess = some s') :
    ∀ it ∈ allItems m.body.commands, s'.facts.Permits it.target := by
  have hstores : ∀ c ∈ calls, c.before.Stores fun _ s => s.InScope := by
    refine hr.stores (World.stores_empty hw) inScope_writtenThrough fun c hc hb r reply hdone _ => ?_
    obtain ⟨hin,hrec⟩ := r.inScope hb (hfit c hc _ r.entered_eq)
    rcases hdone.cases with ⟨⟨x⟩⟩ | ⟨⟨x⟩⟩
    · exact x.inScope hin hrec
    · exact x.inScope hin
  obtain ⟨r,hdone,hsess⟩ := Call.completed (Call.message_some hm)
  obtain ⟨hin,hrec⟩ := r.inScope (hstores c hc) (hfit c hc _ r.entered_eq)
  have he : s' = r.work.sess := Option.some.inj (hs.symm.trans hsess)
  intro it hit
  rcases hdone.cases with ⟨⟨x⟩⟩ | ⟨⟨x⟩⟩
  · rw [he]
    exact x.permits hin hrec (x.items hit)
  · rw [x.items] at hit
    cases hit

namespace Sample

def userPackageOne : Message :=
  request "3" (packageOne.body.commands ++
    [.alert { cmdID := "3", data := "1224", items := [
      { metinf := some { type := Syncml.alertTypeSyncType }, data := some { value := "user" } }] }])

def latePackageOne : List Message :=
  [smallPackageOne,
    { request "2" [status "1" "1" "0" "SyncHdr" "407"] with
      header := { (request "2" []).header with cred := some digestCred } },
    userPackageOne,nextMessage "4" []]

def largeCalls : List Call := callsOf cfg env (some transport) largeWorld silentRequests

def lateCalls : List Call := callsOf cfg digestEnv none largeWorld latePackageOne

end Sample

set_option maxRecDepth 4000

/-- The setting goes out in three chunks, all in scope. -/
theorem replies_in_scope_chunks : ∃ c ∈ Sample.largeCalls, ∃ m s', c.message Sample.cfg = some m ∧
    (c.out Sample.cfg).sess = some s' ∧ (allItems m.body.commands).length = 1 ∧
    ∀ it ∈ allItems m.body.commands, s'.facts.Permits it.target := by
  obtain ⟨w',hr⟩ := run_callsOf Sample.cfg Sample.env (some Sample.transport) Sample.largeWorld
    Sample.silentRequests
  obtain ⟨c,hc,m,hm,s',hs,hone⟩ : ∃ c ∈ Sample.largeCalls, ∃ m, c.message Sample.cfg = some m ∧
      ∃ s', (c.out Sample.cfg).sess = some s' ∧ (allItems m.body.commands).length = 1 := by
    decide +kernel
  exact ⟨c,hc,m,s',hm,hs,hone,
    fun it hit => replies_in_scope hr rfl (by decide +kernel) hc hm hs it hit⟩

/-- A chunk of a device setting goes out in a session for the user's settings. -/
theorem chunk_out_of_scope : (∃ w', Run Sample.cfg Sample.largeWorld Sample.lateCalls w') ∧
    Sample.largeWorld.sessions = ∅ ∧ ∃ c ∈ Sample.lateCalls, ∃ m s', c.message Sample.cfg = some m ∧
      (c.out Sample.cfg).sess = some s' ∧
      ¬∀ it ∈ allItems m.body.commands, s'.facts.Permits it.target := by
  refine ⟨run_callsOf _ _ _ _ _,rfl,?_⟩
  simp only [exists_and_left]
  decide +kernel

end MicrosoftDM.Mdm
