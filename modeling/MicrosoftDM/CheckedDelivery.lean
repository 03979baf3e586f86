import MicrosoftDM.ChunkedAnswers
import MicrosoftDM.HookFreeRuns
import MicrosoftDM.SchemaCheck

set_option autoImplicit false

namespace MicrosoftDM.Mdm
open Effect
open MicrosoftDM.Syncml (Item Alert Message)

/-- The call queues no command but those in `P`. -/
def Op.Queues (P : Command → Prop) : Op → Prop
  | .enqueue _ cmd _ => P cmd
  | _ => True

theorem Op.queues_of_opens {P : Command → Prop} {op : Op} (h : op.opens = true) : op.Queues P := by
  cases op with
  | enqueue dev cmd time => cases h
  | _ => trivial

abbrev Eng.Queues {α : Type} (P : Command → Prop) (x : Eng α) : Prop :=
  x.Stays (Op.Queues P) fun _ => True

section Queueing
variable {cfg : Config} {req : Message} {P : Command → Prop}

theorem update_queues (f : Work → Work) : Eng.Queues P (Action.update f) :=
  .update fun _ _ => trivial

theorem queues_allows : Eng.Allows (Op.Queues P) (fun _ => True) P where
  step _ _ _ := trivial
  now := trivial
  enqueue _ _ h := h
  deliverable _ _ := trivial
  markSent _ _ := trivial

theorem finish_queues : (finish cfg).Queues P := by
  refine .bind (queues_allows.flushResults (fun _ => trivial) fun _ _ _ => trivial) fun _ =>
    .bind (update_queues _) fun _ => .bind (.locals_bind fun w _ => ?_) fun _ =>
    .locals_bind fun w _ => encodeReply_stays _ _
  split
  · refine .bind (.operate trivial) fun r => .bind (orFail_stays _ r) fun _ =>
      .locals_bind fun w _ => ?_
    split
    · exact hook_stays trivial
    · exact .pure ()
  · exact .bind (.operate trivial) fun r => .bind (orFail_stays _ r) fun _ => update_queues _

theorem respond_queues (h : cfg.ReadsIn P) (id : Identity) (outcome : AuthOutcome) :
    (respond cfg req id outcome).Queues P :=
  .bind (queues_allows.build h (fun _ => trivial) trivial fun _ _ => trivial) fun _ => finish_queues

theorem handle_queues (h : cfg.ReadsIn P) (t : Option Transport) :
    (handle cfg t req).Only (Op.Queues P) := by
  have hopens : ∀ {α : Type} {p : Program Op Ans α}, p.Only (Op.opens · = true) →
      p.Only (Op.Queues P) := fun hp => hp.mono fun _ => Op.queues_of_opens
  unfold handle
  split
  · trivial
  refine ⟨trivial,fun found => ?_⟩
  change (handleFrom cfg t req found).Only _
  cases found with
  | none => trivial
  | some id =>
    refine .andThen (hopens (session_only req id t)) fun opened => ?_
    cases opened with
    | error e => trivial
    | ok sess =>
      refine .andThen (hopens (authenticate_only cfg req id sess t)) fun auth => ?_
      refine .andThen (respond_queues h id auth.1 _ trivial).1 fun r => ?_
      obtain ⟨r,w⟩ := r
      cases r with
      | ok reply => trivial
      | error e => exact ⟨trivial,fun _ => trivial⟩

end Queueing

def Queue.Within (P : Command → Prop) (q : Queue) : Prop :=
  ∀ dev, ∀ qc ∈ q.commands dev, P qc.command

section Stored
variable {P : Command → Prop} {q : Queue}

def OfBody (P : Command → Prop) : Prop :=
  ∀ c d : Command, c.scope = d.scope → c.body = d.body → P c → P d

theorem Queue.Within.modify (h : q.Within P) (dev : GoString) {f : QueuedCommand → QueuedCommand}
    (hf : ∀ qc, (f qc).command = qc.command) : (q.modify dev f hf).Within P := by
  intro d qc hqc
  by_cases hd : d = dev
  · subst hd
    rw [Queue.commands_modify_self] at hqc
    obtain ⟨x,hx,rfl⟩ := List.mem_map.mp hqc
    rw [hf]
    exact h d x hx
  · rw [Queue.commands_modify_ne _ _ _ hd] at hqc
    exact h d qc hqc

theorem Queue.Within.enqueue (h : q.Within P) (hP : OfBody P) {cmd : Command} (hc : P cmd)
    (dev : GoString) (time : Time) : (q.enqueue dev cmd time).2.Within P := by
  intro d qc hqc
  by_cases hd : d = dev
  · subst hd
    rcases Queue.mem_enqueue hqc with hqc | he
    · exact h d qc hqc
    · rw [he]
      exact hP cmd _ rfl rfl hc
  · rw [(q.enqueue_grows dev cmd time).other d hd] at hqc
    exact h d qc hqc

theorem Queue.Within.markSent (h : q.Within P) (dev : GoString) (ds : List Delivery) :
    (q.markSent dev ds).2.Within P := by
  induction ds generalizing q with
  | nil => exact h
  | cons d ds ih =>
    unfold Queue.markSent
    split
    · exact ih (h.modify dev (QueuedCommand.command_markSent d))
    · exact h

theorem Queue.Within.storeResult (h : q.Within P) (dev id : GoString) (r : Result) :
    (q.storeResult dev id r).2.Within P := by
  unfold Queue.storeResult
  split
  · exact h.modify dev (QueuedCommand.command_storeResult id r)
  · exact h

theorem Queue.Within.prune (h : q.Within P) (before : Time) (limit : Int) (r : RangeOrder) :
    (q.prune before limit r).1.Within P :=
  fun d qc hqc => h d qc ((q.prune_sublist before limit r d).subset hqc)

theorem Op.Moves.within {op : Op} {w w' : World} (hm : op.Moves w w') (hP : OfBody P)
    (hop : op.Queues P) (h : w.queue.Within P) : w'.queue.Within P := by
  cases hm with
  | enqueue => exact h.enqueue hP hop _ _
  | markSent => exact h.markSent _ _
  | storeResult => exact h.storeResult _ _ _
  | _ => exact h

theorem serve_within {cfg : Config} (hP : OfBody P) (hr : cfg.ReadsIn P) (env : Env)
    (t : Option Transport) (req : Message) {w : World} (h : w.queue.Within P) :
    (serve cfg env t req w).2.queue.Within P := by
  have hrun := Program.Only.run_rel (h := env.handler)
    (R := fun m m' : Machine => m.world.queue.Within P → m'.world.queue.Within P)
    (fun _ h => h) (fun _ _ _ h₁ h₂ h => h₂ (h₁ h)) (fun op m hop h => (env.handler_moves op m).within hP hop h)
    (@handle_queues cfg req P hr t) { world := w }
  exact hrun h

end Stored

def Input.Queues (P : Command → Prop) : Input → Prop
  | .enqueue _ cmd _ => P cmd
  | .request .. | .cancel .. | .prune .. => True

def World.through (cfg : Config) (w : World) (is : List Input) : World :=
  is.foldl (fun w i => (i.observe (serve cfg) w).2) w

theorem World.through_within {cfg : Config} {P : Command → Prop} (hP : OfBody P)
    (hr : cfg.ReadsIn P) {w : World} (h : w.queue.Within P) {is : List Input}
    (hi : ∀ i ∈ is, i.Queues P) : (w.through cfg is).queue.Within P := by
  induction is generalizing w with
  | nil => exact h
  | cons i is ih =>
    refine ih ?_ fun x hx => hi x (List.mem_cons_of_mem i hx)
    have hone := hi i List.mem_cons_self
    cases i with
    | request env t req => exact serve_within hP hr env t req h
    | enqueue dev cmd time => exact h.enqueue hP hone dev time
    | cancel dev ids time => exact h.modify dev (QueuedCommand.command_cancel ids time)
    | prune before limit r => exact h.prune before limit r

theorem check_ofBody (lib : Validation.Library) (reg : Csp.Registry) :
    OfBody fun c => check lib (some reg) c = none := by
  intro c d hs hb hc
  exact (check_congr (some reg) hs hb).symm.trans hc

def Config.ReadsPass (cfg : Config) (lib : Validation.Library) (reg : Csp.Registry) : Prop :=
  ∀ uris ∈ readLists cfg, ∀ get ∈ (newGet uris {}).toOption, check lib (some reg) get = none

instance (cfg : Config) (lib : Validation.Library) (reg : Csp.Registry) :
    Decidable (cfg.ReadsPass lib reg) :=
  inferInstanceAs (Decidable (∀ uris ∈ readLists cfg, ∀ get ∈ (newGet uris {}).toOption, _))

theorem newGet_id {uris : List GoString} {id : GoString} {get : Command}
    (h : newGet uris { id := id } = .ok get) :
    ∃ plain, newGet uris {} = .ok plain ∧ plain.scope = get.scope ∧ plain.body = get.body := by
  cases uris with
  | nil => cases h
  | cons u us =>
    simp only [newGet,getItems_id] at h ⊢
    cases hi : getItems (scopeOf u) {} (u :: us) with
    | error e => simp [hi] at h
    | ok items =>
      rw [hi] at h
      cases h
      exact ⟨_,rfl,rfl,rfl⟩

theorem Config.ReadsPass.readsIn {cfg : Config} {lib : Validation.Library} {reg : Csp.Registry}
    (h : cfg.ReadsPass lib reg) : cfg.ReadsIn fun c => check lib (some reg) c = none := by
  intro uris huris id get hget
  obtain ⟨plain,hplain,hs,hb⟩ := newGet_id hget
  have hpass := h uris huris plain (by rw [hplain]; rfl)
  exact (check_congr (some reg) (c := { get with internal := true }) hs.symm hb.symm).trans hpass

/-- If all that operators queue and the engine reads passes `Check`, so does every queued command
in a reply. -/
theorem replies_keep_to_schema {cfg : Config} {lib : Validation.Library} {reg : Csp.Registry}
    (hreads : cfg.ReadsPass lib reg) {w : World} {is : List Input}
    (hw : w.queue = Queue.empty) (hi : ∀ i ∈ is, i.Queues fun c => check lib (some reg) c = none)
    {c : Call} (hc : c.before = w.through cfg is) {key id : GoString} (hs : c.Sends cfg key id) :
    ∃ s', (c.out cfg).sess = some s' ∧ ∀ qc ∈ (c.after cfg).queue.commands s'.deviceID, qc.id = id →
      check lib (some reg) qc.command = none := by
  have hP := check_ofBody lib reg
  have hbefore : c.before.queue.Within fun c => check lib (some reg) c = none := by
    rw [hc]
    refine World.through_within hP hreads.readsIn ?_ hi
    rw [hw]
    intro dev qc hqc
    cases hqc
  obtain ⟨m,s',cmd,-,hsess,-,-,-⟩ := hs
  refine ⟨s',hsess,?_⟩
  intro qc hqc _
  exact serve_within hP hreads.readsIn c.env c.transport c.req hbefore s'.deviceID qc hqc

/-- Then all that a queue comes to hold is about nodes of the registry, and does what they allow. -/
theorem queued_commands_permitted {cfg : Config} {lib : Validation.Library} {reg : Csp.Registry}
    (hreads : cfg.ReadsPass lib reg) {w : World} {is : List Input} (hw : w.queue = Queue.empty)
    (hi : ∀ i ∈ is, i.Queues fun c => check lib (some reg) c = none) {dev : GoString}
    {qc : QueuedCommand} (hq : qc ∈ (w.through cfg is).queue.commands dev) {verb : Syncml.Verb}
    {b : Syncml.Leaf} (hl : .leaf verb b ∈ leaves qc.command.body) {it : Item} (hit : it ∈ b.items) :
    ∃ m t, reg.lookup lib.toFold it.target = some (m,t) ∧ t ∈ reg.trees ∧
      m.node.allows verb = true := by
  have hempty : w.queue.Within fun c => check lib (some reg) c = none := by
    rw [hw]
    intro dev qc hqc
    cases hqc
  exact check_permits (World.through_within (check_ofBody lib reg) hreads.readsIn hempty hi dev qc hq)
    hl hit

namespace Sample
open Csp (Node Registry)

def lower (s : GoString) : GoString := s.map fun b => (lowerASCII b.toNat).toUInt8

def lib : Validation.Library where
  equalFold a b := lower a == lower b
  toLower := lower
  compile _ := none
  parseFloat _ := false
  tokens _ := ([],true)

def readable (name uri : GoString) : Node :=
  { name := name, uri := uri, format := .chr, access := [.get] }

def folder (name uri : GoString) (children : List Node) : Node :=
  { name := name, uri := uri, format := .node, access := [.get], children := children }

def policyNode : Node :=
  { name := "Policy", uri := "./Vendor/MSFT/Policy", format := .chr, access := [.get,.replace],
    allowedValues := some { type := .enum, enum := ["on","off"] } }

def registry : Registry where
  trees := [
    { scope := .legacy, root := folder "DevDetail" "./DevDetail" [
        readable "SwV" "./DevDetail/SwV",readable "LrgObj" "./DevDetail/LrgObj",
        folder "URI" "./DevDetail/URI" [readable "MaxSegLen" "./DevDetail/URI/MaxSegLen"]] },
    { scope := .device, root := folder "DeviceManageability"
        "./Device/Vendor/MSFT/DeviceManageability" [
          folder "Capabilities" "./Device/Vendor/MSFT/DeviceManageability/Capabilities" [
            readable "CSPVersions"
              "./Device/Vendor/MSFT/DeviceManageability/Capabilities/CSPVersions"]] },
    { scope := .legacy, root := policyNode }]

def setting (value : GoString) : Command := replace "policy" "./Vendor/MSFT/Policy" value

def settingCall (value : GoString) : Call where
  before := ({} : World).through cfg [.enqueue "dev" (setting value) 0]
  env := env
  transport := some transport
  req := packageOne

end Sample

set_option maxRecDepth 4000

/-- A setting with an allowed value goes out. -/
theorem replies_keep_to_schema_policy :
    (Sample.settingCall "on").Sends Sample.cfg "1/4" "policy" ∧
    ∃ s', ((Sample.settingCall "on").out Sample.cfg).sess = some s' ∧
      ∀ qc ∈ ((Sample.settingCall "on").after Sample.cfg).queue.commands s'.deviceID,
        qc.id = utf8 "policy" → check Sample.lib (some Sample.registry) qc.command = none := by
  have hsends : (Sample.settingCall "on").Sends Sample.cfg "1/4" "policy" := by decide +kernel
  have hcheck : check Sample.lib (some Sample.registry) (Sample.setting "on") = none := by
    decide +kernel
  have hi : ∀ i ∈ [Input.enqueue "dev" (Sample.setting "on") 0],
      i.Queues fun c => check Sample.lib (some Sample.registry) c = none := by
    intro i hi
    rw [List.mem_singleton.mp hi]
    exact hcheck
  exact ⟨hsends,@replies_keep_to_schema Sample.cfg Sample.lib Sample.registry (by decide +kernel) {}
    _ rfl hi (Sample.settingCall "on") rfl _ _ hsends⟩

/-- The setting waits for the device. -/
theorem queued_commands_permitted_policy : ∃ m t,
    Sample.registry.lookup Sample.lib.toFold "./Vendor/MSFT/Policy" = some (m,t) ∧
      t ∈ Sample.registry.trees ∧ m.node.allows .replace = true := by
  have hi : ∀ i ∈ [Input.enqueue "dev" (Sample.setting "on") 0],
      i.Queues fun c => check Sample.lib (some Sample.registry) c = none := by
    intro i hi
    rw [List.mem_singleton.mp hi]
    show check Sample.lib (some Sample.registry) (Sample.setting "on") = none
    decide +kernel
  exact @queued_commands_permitted Sample.cfg Sample.lib Sample.registry (by decide +kernel) {} _ rfl
    hi "dev" _ List.mem_cons_self _ _ List.mem_cons_self _ List.mem_cons_self

/-- A value that the registry does not allow is queued, and goes out. -/
theorem forbidden_value_sent :
    (Sample.settingCall "maybe").Sends Sample.cfg "1/4" "policy" ∧
    ∃ s' qc, ((Sample.settingCall "maybe").out Sample.cfg).sess = some s' ∧
      qc ∈ ((Sample.settingCall "maybe").after Sample.cfg).queue.commands s'.deviceID ∧
      qc.id = utf8 "policy" ∧
      check Sample.lib (some Sample.registry) qc.command = some (.schema [[{
        rule := .value, msg := "%s: %q is not one of %s",
        args := ["./Vendor/MSFT/Policy","maybe","on, off"] }]]) := by
  refine ⟨by decide +kernel,?_⟩
  simp only [exists_and_left]
  decide +kernel

end MicrosoftDM.Mdm
