import MicrosoftDM.CallTrace

set_option autoImplicit false

namespace MicrosoftDM.Mdm
open Effect
open Effect.Action (exec exec_bind exec_locals exec_update)
open MicrosoftDM.Syncml (Item Alert Message)

def Op.isHook : Op → Bool
  | .hook _ => true
  | _ => false

theorem Op.isHook_of_opens {op : Op} (h : op.opens = true) : op.isHook = false := by
  cases op <;> first | rfl | cases h

abbrev Eng.Hookless {α : Type} (x : Eng α) : Prop :=
  x.Stays (fun op => op.isHook = false) fun _ => True

section Hookless
variable {cfg : Config} {req : Message}

theorem hookless_allows : Eng.Allows (fun op => op.isHook = false) (fun _ => True) fun _ => True where
  step _ _ _ := trivial
  now := rfl
  enqueue _ _ _ := rfl
  deliverable _ _ := rfl
  markSent _ _ := rfl

theorem queueFirstSessionReads_hookless : (queueFirstSessionReads cfg).Hookless :=
  hookless_allows.queueFirstSessionReads fun _ _ _ _ _ => trivial

theorem complete_hookless : (complete cfg req).Hookless := hookless_allows.complete

theorem challenge_hookless (id : Identity) (outcome : AuthOutcome) :
    (challenge cfg req id outcome).Hookless := hookless_allows.challenge rfl fun _ _ => rfl

theorem flushResults_hookless : flushResults.Hookless :=
  hookless_allows.flushResults (fun _ => rfl) fun _ _ _ => rfl

end Hookless

def Env.nopHooks (env : Env) : Handler Op Ans Machine
  | .hook _, m => (.ok (),m)
  | op, m => env.handler op m

def Config.withHooks (cfg : Config) : Config := { cfg with hooks := true }

def Config.withoutHooks (cfg : Config) : Config := { cfg with hooks := false }

/-- `Handle` of a service with `NopHooks`. -/
def serveNop (cfg : Config) (env : Env) (t : Option Transport) (req : Message) (w : World) :
    Handled × World :=
  let r := (handle cfg.withHooks t req).run env.nopHooks { world := w }
  (r.1,r.2.world)

def Message.AsksUnenroll (req : Message) : Prop :=
  ∃ a ∈ req.body.alerts, a.code = Syncml.alertGeneric ∧ ∃ it ∈ a.items, isUnenrollAlert it = true

instance (req : Message) : Decidable (Message.AsksUnenroll req) :=
  inferInstanceAs (Decidable (∃ a ∈ req.body.alerts,
    a.code = Syncml.alertGeneric ∧ ∃ it ∈ a.items, isUnenrollAlert it = true))

abbrev Eng.Matches {α : Type} (env : Env) (x y : Eng α) : Prop := x.Agrees env.nopHooks env.handler y

theorem Env.nopHooks_eq (env : Env) (op : Op) (h : op.isHook = false) :
    env.nopHooks op = env.handler op := by
  cases op <;> first | rfl | cases h

theorem Eng.Hookless.matches {α : Type} {env : Env} {x : Eng α} (hx : x.Hookless) :
    x.Matches env x := hx.agrees (fun _ => trivial) env.nopHooks_eq

variable {code : Syncml.AlertCode}

section Stages
variable {env : Env} {cfg : Config} {req : Message}

theorem hook_nop (hk : HookCall) (w : Work) (m : Machine) :
    exec env.nopHooks (Eng.hook hk) w m = ((.ok (),w),m) := rfl

theorem alertItem_nop {it : Item}
    (h : code = Syncml.alertGeneric → isUnenrollAlert it = false) (w : Work) (m : Machine) :
    exec env.nopHooks (alertItem code it) w m = ((.ok (),w),m) := by
  unfold alertItem
  rw [exec_bind,exec_locals]
  dsimp only
  split
  · rename_i hc
    rw [exec_bind,hook_nop]
    simp [Work.setSess,Session.noteUnenroll,h hc]
  · split
    · exact hook_nop _ w m
    · rfl

theorem alertItems_nop {items : List Item}
    (h : code = Syncml.alertGeneric → ∀ it ∈ items, isUnenrollAlert it = false) (w : Work)
    (m : Machine) : exec env.nopHooks (alertItems code items) w m = ((.ok (),w),m) := by
  induction items with
  | nil => rfl
  | cons it items ih =>
    rw [alertItems,exec_bind,alertItem_nop fun hc => h hc it List.mem_cons_self]
    exact ih fun hc x hx => h hc x (List.mem_cons_of_mem it hx)

theorem handleAlert_matches {a : Alert}
    (h : a.code = Syncml.alertGeneric → ∀ it ∈ a.items, isUnenrollAlert it = false) :
    (handleAlert cfg.withHooks a).Matches env (handleAlert cfg.withoutHooks a) := by
  refine .bind (.update _) fun _ => ?_
  split
  · exact .pure ()
  split
  · exact .update _
  split
  · exact .update _
  · exact fun w m => alertItems_nop h w m

theorem ackCommand_matches {c : Syncml.Command}
    (h : ∀ a, c.alert? = some a → a.code = Syncml.alertGeneric →
      ∀ it ∈ a.items, isUnenrollAlert it = false) :
    (ackCommand cfg.withHooks req c).Matches env (ackCommand cfg.withoutHooks req c) := by
  cases c with
  | alert a => exact handleAlert_matches (h a rfl)
  | status s => exact .pure ()
  | results res =>
    refine .bind .locals fun w => .bind (.update _) fun _ => ?_
    rw [show cfg.withHooks.maxRequestSize = cfg.withoutHooks.maxRequestSize from rfl]
    split
    · exact .pure ()
    · exact .fail _
  | leaf _ _ | group _ _ _ _ _ => exact .update _

theorem ackCommands_matches {cs : List Syncml.Command}
    (h : ∀ c ∈ cs, ∀ a, c.alert? = some a → a.code = Syncml.alertGeneric →
      ∀ it ∈ a.items, isUnenrollAlert it = false) :
    (ackCommands cfg.withHooks req cs).Matches env (ackCommands cfg.withoutHooks req cs) := by
  induction cs with
  | nil => exact .pure ()
  | cons c cs ih =>
    exact .bind (ackCommand_matches (h c List.mem_cons_self))
      fun _ => ih fun x hx => h x (List.mem_cons_of_mem c hx)

theorem recordPackageOne_matches :
    (recordPackageOne cfg.withHooks req).Matches env (recordPackageOne cfg.withoutHooks req) := by
  refine .bind (.update _) fun _ => .bind ?_ fun _ => .bind .locals fun w => ?_
  · exact fun w m => hook_nop _ w m
  split
  · exact .pure ()
  · exact queueFirstSessionReads_hookless.matches

theorem ackAndFile_matches (h : ¬Message.AsksUnenroll req) :
    (ackAndFile cfg.withHooks req).Matches env (ackAndFile cfg.withoutHooks req) := by
  refine .bind (ackCommands_matches ?_) fun _ => .bind (.update _) fun _ => .bind .locals fun w => ?_
  · intro c hc a ha hcode it hit
    by_contra hun
    exact h ⟨a,List.mem_filterMap.mpr ⟨c,hc,ha⟩,hcode,it,hit,by simpa using hun⟩
  · split
    · exact recordPackageOne_matches
    · exact .pure ()

theorem unenrolledHook_nop (w : Work) (m : Machine) :
    exec env.nopHooks (unenrolledHook cfg) w m = ((.ok (),w),m) := by
  unfold unenrolledHook
  rw [exec_bind,exec_locals]
  dsimp only
  split
  · exact hook_nop _ w m
  · rfl

theorem unenrolledHook_matches :
    (unenrolledHook cfg.withHooks).Matches env (unenrolledHook cfg.withoutHooks) := by
  intro w m
  have hoff : (w.sess.unenroll && cfg.withoutHooks.hooks) = false := Bool.and_false _
  show _ = exec env.handler (unenrolledHook cfg.withoutHooks) w m
  unfold unenrolledHook
  rw [exec_bind,exec_locals]
  simp only [hoff]
  exact unenrolledHook_nop w m

theorem storeSession_matches :
    (storeSession cfg.withHooks).Matches env (storeSession cfg.withoutHooks) := by
  refine .bind .locals fun w => ?_
  split
  · exact .bind (.operate rfl) fun r => .bind (Eng.Hookless.matches (orFail_stays _ r)) fun _ =>
      unenrolledHook_matches
  · exact .bind (.operate rfl) fun r => .bind (Eng.Hookless.matches (orFail_stays _ r)) fun _ =>
      .update _

theorem finish_matches : (finish cfg.withHooks).Matches env (finish cfg.withoutHooks) :=
  .bind flushResults_hookless.matches fun _ => .bind (.update _) fun _ =>
    .bind storeSession_matches fun _ => .bind .locals fun _ => Eng.Hookless.matches (encodeReply_stays _ _)

theorem respond_matches (h : ¬Message.AsksUnenroll req) (id : Identity) (outcome : AuthOutcome) :
    (respond cfg.withHooks req id outcome).Matches env (respond cfg.withoutHooks req id outcome) := by
  refine .bind ?_ fun _ => finish_matches
  unfold build
  split
  · exact .bind (.update _) fun _ => .bind (ackAndFile_matches h) fun _ =>
      complete_hookless.matches
  · exact (challenge_hookless id outcome).matches

theorem opens_agree {α : Type} {p : Program Op Ans α} (hp : p.Only (Op.opens · = true)) :
    p.Agrees env.nopHooks env.handler p :=
  hp.agrees fun op hop => env.nopHooks_eq op (Op.isHook_of_opens hop)

theorem authenticate_agrees (id : Identity) (sess : Session) (t : Option Transport) :
    (authenticate cfg.withHooks req id sess t).Agrees env.nopHooks env.handler
      (authenticate cfg.withoutHooks req id sess t) := by
  rw [show authenticate cfg.withHooks req id sess t = authenticate cfg.withoutHooks req id sess t
    from rfl]
  exact opens_agree (authenticate_only _ req id sess t)

theorem handle_matches (h : ¬Message.AsksUnenroll req) (t : Option Transport) :
    (handle cfg.withHooks t req).Agrees env.nopHooks env.handler (handle cfg.withoutHooks t req) := by
  unfold handle
  split
  · exact .pure _
  refine .bind (.perform rfl) fun found => ?_
  cases found with
  | none => exact .pure _
  | some id =>
    refine .bind (opens_agree (session_only req id t)) fun opened => ?_
    cases opened with
    | error e => exact .pure _
    | ok sess =>
      refine .bind (authenticate_agrees id sess t) fun auth => ?_
      refine .bind (respond_matches h id auth.1 _) fun r => ?_
      obtain ⟨r,w⟩ := r
      cases r with
      | ok reply => exact .pure _
      | error e => exact .bind (.perform rfl) fun _ => .pure _

end Stages

/-- What happens to a service, one thing after another. -/
inductive Input where
  | request (env : Env) (t : Option Transport) (req : Message)
  | enqueue (dev : GoString) (cmd : Command) (time : Time)
  | cancel (dev : GoString) (ids : List GoString) (time : Time)
  | prune (before : Time) (limit : Int) (r : RangeOrder)

def Input.AsksUnenroll : Input → Prop
  | .request _ _ req => Message.AsksUnenroll req
  | .enqueue .. | .cancel .. | .prune .. => False

section Observing
variable (answer : Env → Option Transport → Message → World → Handled × World)

def Input.observe (w : World) : Input → Option Handled × World
  | .request env t req => ((answer env t req w).1,(answer env t req w).2)
  | .enqueue dev cmd time => (none,{ w with queue := (w.queue.enqueue dev cmd time).2 })
  | .cancel dev ids time => (none,{ w with queue := w.queue.cancel dev ids time })
  | .prune before limit r => (none,{ w with queue := (w.queue.prune before limit r).1 })

def observe : World → List Input → List (Option Handled × World)
  | _, [] => []
  | w, i :: is => i.observe answer w :: observe (i.observe answer w).2 is

variable {answer}

theorem observe_congr {answer' : Env → Option Transport → Message → World → Handled × World}
    (ha : ∀ env t req w, ¬Message.AsksUnenroll req → answer env t req w = answer' env t req w)
    (w : World) {inputs : List Input} (h : ∀ i ∈ inputs, ¬i.AsksUnenroll) :
    observe answer w inputs = observe answer' w inputs := by
  induction inputs generalizing w with
  | nil => rfl
  | cons i inputs ih =>
    have hi : i.observe answer w = i.observe answer' w := by
      cases i with
      | request env t req =>
        have hreq : ¬Message.AsksUnenroll req := h _ List.mem_cons_self
        rw [Input.observe,Input.observe,ha env t req w hreq]
      | enqueue _ _ _ | cancel _ _ _ | prune _ _ _ => rfl
    rw [observe,observe,hi,ih _ fun x hx => h x (List.mem_cons_of_mem i hx)]

end Observing

theorem serveNop_eq (cfg : Config) (env : Env) (t : Option Transport) {req : Message}
    (h : ¬Message.AsksUnenroll req) (w : World) :
    serveNop cfg env t req w = serve cfg.withoutHooks env t req w := by
  have hrun : (handle cfg.withHooks t req).run env.nopHooks { world := w } =
      (handle cfg.withoutHooks t req).run env.handler { world := w } := handle_matches h t _
  unfold serveNop serve
  rw [hrun]

/-- A service with `NopHooks` and one without hooks do the same, in every run in which no request
asks to unenroll. -/
theorem nopHooks_like_none (cfg : Config) (w : World) (inputs : List Input)
    (h : ∀ i ∈ inputs, ¬i.AsksUnenroll) :
    observe (serveNop cfg) w inputs = observe (serve cfg.withoutHooks) w inputs :=
  observe_congr (fun env t _ w hreq => serveNop_eq cfg env t hreq w) w h

namespace Sample

def reported (code type : GoString) : List Input :=
  [.request env (some transport) packageOne,
    .request env (some transport) (request "2"
      [.alert { cmdID := "1", data := code, items := [{ metinf := some { type := type } }] }])]

def stored (seen : List (Option Handled × World)) : List Bool :=
  seen.map fun r => (r.2.sessions.lookup key).isSome

end Sample

theorem nopHooks_like_none_generic :
    Sample.stored (observe (serveNop Sample.cfg) {} (Sample.reported "1226" "com.example:alert")) =
      [true,true] ∧
    observe (serveNop Sample.cfg) {} (Sample.reported "1226" "com.example:alert") =
      observe (serve Sample.cfg.withoutHooks) {} (Sample.reported "1226" "com.example:alert") := by
  have hs : Sample.stored (observe (serveNop Sample.cfg) {}
      (Sample.reported "1226" "com.example:alert")) = [true,true] := by decide +kernel
  refine ⟨hs,nopHooks_like_none Sample.cfg {} _ ?_⟩
  intro i hi
  rcases List.mem_cons.mp hi with rfl | hi
  · exact show ¬Message.AsksUnenroll Sample.packageOne by decide +kernel
  · rw [List.mem_singleton.mp hi]
    exact show ¬Message.AsksUnenroll _ by decide +kernel

/-- An unenroll request ends the session of a service with `NopHooks`; without
hooks the session goes on. -/
theorem unenroll_without_hooks :
    Sample.stored (observe (serveNop Sample.cfg) {}
      (Sample.reported "1226" Syncml.alertTypeUnenrollmentUserRequest)) = [true,false] ∧
    Sample.stored (observe (serve Sample.cfg.withoutHooks) {}
      (Sample.reported "1226" Syncml.alertTypeUnenrollmentUserRequest)) = [true,true] := by
  decide +kernel

end MicrosoftDM.Mdm
