import MicrosoftDM.DeliveredItems
import MicrosoftDM.HookFreeRuns

set_option autoImplicit false

namespace MicrosoftDM.Mdm
open Effect
open Effect.Action (exec exec_bind_ok calls_bind_ok)
open MicrosoftDM.Syncml (Item Alert Message)

def clientEvent? : (op : Op) × Ans op → Option Event
  | ⟨.hook (.clientEvent e),_⟩ => some e
  | _ => none

def Op.isClientEvent : Op → Bool
  | .hook (.clientEvent _) => true
  | _ => false

theorem clientEvent?_none {x : (op : Op) × Ans op} (h : x.1.isClientEvent = false) :
    clientEvent? x = none := by
  obtain ⟨op,ans⟩ := x
  cases op with
  | hook hk =>
    cases hk with
    | clientEvent e => cases h
    | _ => rfl
  | _ => rfl

def Call.clientEvents (c : Call) (cfg : Config) : List Event := (c.trace cfg).filterMap clientEvent?

/-- The items of the client event alerts of a message, also of those inside groups. -/
def Message.eventItems (req : Message) : List Item :=
  ((Syncml.walkAll req.body.commands).filterMap Syncml.Command.alert?).flatMap
    Syncml.Alert.clientEventItems

def Message.topEventItems (req : Message) : List Item :=
  req.body.alerts.flatMap Syncml.Alert.clientEventItems

def Session.eventsOf (s : Session) (items : List Item) : List Event :=
  (items.filter fun it => !isConsumedEvent it).map (alertEvent s Syncml.alertClientEvent)

theorem Session.eventsOf_append (s : Session) (xs ys : List Item) :
    s.eventsOf (xs ++ ys) = s.eventsOf xs ++ s.eventsOf ys := by
  simp [eventsOf]

variable {s s' : Session} {code : Syncml.AlertCode} {items reported : List Item} {id : Identity}
  {reply : Option Message} {d type : GoString} {it : Item} {req : Message} {w w' : World}

theorem Session.Steady.eventsOf (h : s.Steady s') (items : List Item) :
    s'.eventsOf items = s.eventsOf items := by
  have he : alertEvent s' Syncml.alertClientEvent = alertEvent s Syncml.alertClientEvent := by
    funext it
    simp [alertEvent,h.deviceID,h.sessionID]
  rw [Session.eventsOf,he]
  rfl

section Routing
variable {env : Env} {cfg : Config} {req : Message} {w w' : Work} {m m' : Machine}

abbrev Eng.Silent {α : Type} (x : Eng α) : Prop :=
  x.Stays (fun op => op.isClientEvent = false) fun _ => True

theorem Eng.Hookless.silent {α : Type} {x : Eng α} (hx : x.Hookless) : x.Silent :=
  hx.mono fun op h => by cases op <;> first | rfl | cases h

theorem only_silent {α σ : Type} {p : Program Op Ans α} (hp : p.Only fun op => op.isClientEvent = false)
    (h : Handler Op Ans σ) (s : σ) : (p.calls h s).filterMap clientEvent? = [] :=
  List.filterMap_eq_nil_iff.mpr fun x hx => clientEvent?_none (hp.calls h s x hx)

theorem Eng.Silent.events {α : Type} {x : Eng α} (hx : x.Silent) (w : Work) (m : Machine) :
    ((x w).calls env.handler m).filterMap clientEvent? = [] :=
  only_silent (hx w trivial).1 env.handler m

theorem clientEventHook_events (e : Event) :
    ((Eng.hook (.clientEvent e) w).calls env.handler m).filterMap clientEvent? = [e] := by
  have hcalls : (Eng.hook (.clientEvent e) w).calls env.handler m =
      [⟨.hook (.clientEvent e),(env.handler (.hook (.clientEvent e)) m).1⟩] := by
    show _ :: Program.calls _ (Eng.orFail Err.hook (env.handler (.hook (.clientEvent e)) m).1 w) _ = _
    cases (env.handler (.hook (.clientEvent e)) m).1 <;> rfl
  rw [hcalls]
  rfl

theorem alertItem_events (code : Syncml.AlertCode) (it : Item) :
    ((alertItem code it w).calls env.handler m).filterMap clientEvent? =
      if code = Syncml.alertClientEvent then w.sess.eventsOf [it] else [] := by
  by_cases hc : code = Syncml.alertClientEvent ∧ isConsumedEvent it = false
  · have hg : code ≠ Syncml.alertGeneric := by rw [hc.1]; decide
    have hitem : alertItem code it w = Eng.hook (.clientEvent (alertEvent w.sess code it)) w := by
      show (if code = Syncml.alertGeneric then _ else _ : Eng Unit) w = _
      rw [if_neg hg,if_pos hc]
    rw [hitem,clientEventHook_events,if_pos hc.1,hc.1]
    simp [Session.eventsOf,hc.2]
  · have hnone : (if code = Syncml.alertClientEvent then w.sess.eventsOf [it] else []) = [] := by
      split
      · rename_i hcode
        have hcons : isConsumedEvent it = true := by simpa [hcode] using hc
        simp [Session.eventsOf,hcons]
      · rfl
    rw [hnone]
    refine Eng.Silent.events (.locals_bind fun w _ => ?_) w m
    split
    · exact .bind (hook_stays rfl) fun _ => .update fun _ _ => trivial
    · exact .pure ()

theorem alertItems_silent (hc : code ≠ Syncml.alertClientEvent)
    (items : List Item) : (alertItems code items).Silent := by
  induction items with
  | nil => exact .pure ()
  | cons it items ih =>
    refine .bind (.locals_bind fun w _ => ?_) fun _ => ih
    split
    · exact .bind (hook_stays rfl) fun _ => .update fun _ _ => trivial
    · rw [if_neg fun h => hc h.1]
      exact .pure ()

theorem alertItems_events
    (h : exec env.handler (alertItems code items) w m = ((.ok (),w'),m')) :
    ((alertItems code items w).calls env.handler m).filterMap clientEvent? =
      if code = Syncml.alertClientEvent then w.sess.eventsOf items else [] := by
  induction items generalizing w m with
  | nil => split <;> rfl
  | cons it items ih =>
    obtain ⟨_,w₁,m₁,h₁,h₂⟩ := (exec_bind_ok _).mp h
    rw [alertItems,calls_bind_ok env.handler h₁,List.filterMap_append,alertItem_events,ih h₂]
    split
    · rename_i hc
      have hw₁ : w₁ = w := by
        rw [(alertItem_ok h₁).1,hc]
        rfl
      rw [hw₁,← Session.eventsOf_append]
      rfl
    · rfl

theorem handleAlert_events {a : Alert} (hh : cfg.hooks = true)
    (h : exec env.handler (handleAlert cfg a) w m = ((.ok (),w'),m')) :
    ((handleAlert cfg a w).calls env.handler m).filterMap clientEvent? =
      w.sess.eventsOf a.clientEventItems := by
  by_cases hc : a.code = Syncml.alertClientEvent
  · have hrest : handleAlert cfg a =
        (Action.update fun w => w.reply fun cid => .status (alertStatus w.sess a cid)) >>=
          fun _ => alertItems a.code a.items := by
      unfold handleAlert
      simp [hc,hh,Syncml.alertClientEvent,Syncml.alertNextMessage,Syncml.alertServerInitiated,
        Syncml.alertClientInitiated,Syncml.alertSessionAbort,Syncml.alertNoEndOfData]
    rw [hrest] at h ⊢
    obtain ⟨_,w₁,m₁,h₁,h₂⟩ := (exec_bind_ok _).mp h
    rw [calls_bind_ok env.handler h₁,List.filterMap_append,alertItems_events h₂,if_pos hc]
    cases h₁
    rw [Syncml.Alert.clientEventItems,if_pos hc]
    rfl
  · rw [Syncml.Alert.clientEventItems,if_neg hc]
    refine Eng.Silent.events (.bind (.update fun _ _ => trivial) fun _ => ?_) w m
    split
    · exact .pure ()
    split
    · exact .update fun _ _ => trivial
    split
    · exact .update fun _ _ => trivial
    · exact alertItems_silent hc a.items

theorem ackCommand_events {c : Syncml.Command} (hh : cfg.hooks = true)
    (h : exec env.handler (ackCommand cfg req c) w m = ((.ok (),w'),m')) :
    ((ackCommand cfg req c w).calls env.handler m).filterMap clientEvent? =
      w.sess.eventsOf ([c].filterMap Syncml.Command.alert? |>.flatMap Syncml.Alert.clientEventItems) := by
  cases c with
  | alert a =>
    rw [show [Syncml.Command.alert a].filterMap Syncml.Command.alert? = [a] from rfl,
      List.flatMap_singleton]
    exact handleAlert_events hh h
  | status s => rfl
  | results res =>
    refine Eng.Silent.events (.locals_bind fun w _ => .bind (.update fun _ _ => trivial) fun _ => ?_) w m
    split
    · exact .pure ()
    · exact .fail _
  | leaf _ _ | group _ _ _ _ _ => rfl

theorem ackCommands_events {cs : List Syncml.Command} (hh : cfg.hooks = true)
    (h : exec env.handler (ackCommands cfg req cs) w m = ((.ok (),w'),m')) :
    ((ackCommands cfg req cs w).calls env.handler m).filterMap clientEvent? =
      w.sess.eventsOf (cs.filterMap Syncml.Command.alert? |>.flatMap Syncml.Alert.clientEventItems) := by
  induction cs generalizing w m with
  | nil => rfl
  | cons c cs ih =>
    obtain ⟨_,w₁,m₁,h₁,h₂⟩ := (exec_bind_ok _).mp h
    have hst : w.sess.Steady w₁.sess := (Session.take_taking (Work.ack_sess (ackCommand_ok h₁).1)).steady
    rw [ackCommands,calls_bind_ok env.handler h₁,List.filterMap_append,ackCommand_events hh h₁,
      ih h₂,hst.eventsOf,← Session.eventsOf_append,← List.flatMap_append,← List.filterMap_append]
    rfl

theorem recordPackageOne_silent : (recordPackageOne cfg req).Silent := by
  refine .bind (.update fun _ _ => trivial) fun _ => .bind (.locals_bind fun w _ => ?_) fun _ =>
    .locals_bind fun w _ => ?_
  · split
    · exact hook_stays rfl
    · exact .pure ()
  · split
    · exact .pure ()
    · exact queueFirstSessionReads_hookless.silent

theorem finish_silent : (finish cfg).Silent := by
  refine .bind flushResults_hookless.silent fun _ => .bind (.update fun _ _ => trivial) fun _ =>
    .bind (.locals_bind fun w _ => ?_) fun _ => .locals_bind fun w _ =>
      Eng.Hookless.silent (encodeReply_stays _ _)
  split
  · refine .bind (.operate rfl) fun r => .bind (orFail_stays _ r) fun _ => .locals_bind fun w _ => ?_
    split
    · exact hook_stays rfl
    · exact .pure ()
  · exact .bind (.operate rfl) fun r => .bind (orFail_stays _ r) fun _ => .update fun _ _ => trivial

theorem respond_events (hh : cfg.hooks = true)
    (h : exec env.handler (respond cfg req id .trusted) (startWork cfg req s) m =
      ((.ok reply,w'),m')) :
    ((respond cfg req id .trusted (startWork cfg req s)).calls env.handler m).filterMap clientEvent? =
      s.eventsOf (Message.topEventItems req) := by
  obtain ⟨_,w₁,m₁,h₁,h₂⟩ := (exec_bind_ok _).mp h
  rw [respond,calls_bind_ok env.handler h₁,List.filterMap_append,finish_silent.events,
    List.append_nil]
  have hb : build cfg req id .trusted = answer cfg req := if_pos rfl
  rw [hb] at h₁ ⊢
  obtain ⟨_,w₂,m₂,h₃,h₄⟩ := (exec_bind_ok _).mp h₁
  obtain ⟨_,w₃,m₃,h₅,h₆⟩ := (exec_bind_ok _).mp h₄
  rw [answer,calls_bind_ok env.handler h₃,calls_bind_ok env.handler h₅,List.filterMap_append,
    List.filterMap_append,complete_hookless.silent.events,List.append_nil]
  obtain ⟨_,w₄,m₄,h₇,h₈⟩ := (exec_bind_ok _).mp h₅
  rw [ackAndFile,calls_bind_ok env.handler h₇,List.filterMap_append,ackCommands_events hh h₇]
  have hlast : Eng.Silent (do
      Action.update (·.setSess (fileStatuses · req.body.statuses))
      let w ← Action.locals
      if Syncml.isPackageOne req ∧ w.sess.gotPackageOne = false then recordPackageOne cfg req
      else pure ()) := by
    refine .bind (.update fun _ _ => trivial) fun _ => .locals_bind fun w _ => ?_
    split
    · exact recordPackageOne_silent
    · exact .pure ()
  rw [hlast.events,List.append_nil]
  cases h₃
  rfl

end Routing

theorem Reached.clientEvents {cfg : Config} {c : Call} (hh : cfg.hooks = true)
    (r : Reached cfg c.env c.transport c.req c.before) (ho : r.outcome = .trusted) (hr : r.result = .ok reply) :
    c.clientEvents cfg = r.sess.eventsOf (Message.topEventItems c.req) := by
  obtain ⟨first,last,hcalls,hopens⟩ := r.calls
  have hquiet : ∀ xs : List ((op : Op) × Ans op), (∀ x ∈ xs, x.1.opens = true) →
      xs.filterMap clientEvent? = [] := by
    intro xs hxs
    refine List.filterMap_eq_nil_iff.mpr fun x hx => clientEvent?_none ?_
    have := hxs x hx
    cases hop : x.1 <;> first | rfl | (rw [hop] at this; cases this)
  have hresp := r.responds
  rw [ho,hr] at hresp
  rw [Call.clientEvents,Call.trace,hcalls]
  simp only [List.filterMap_append]
  rw [hquiet first fun x hx => hopens x (List.mem_append_left last hx),
    hquiet last fun x hx => hopens x (List.mem_append_right first hx),
    hquiet _ ((authenticate_only cfg c.req r.id r.arrived c.transport).calls c.env.handler r.start),
    ho,respond_events hh hresp]
  simp

def lastText (type d : GoString) (items : List Item) : GoString :=
  items.foldl (fun d it => if it.hasType type then Syncml.textOf it.data else d) d

theorem lastText_append (type d : GoString) (xs ys : List Item) :
    lastText type d (xs ++ ys) = lastText type (lastText type d xs) ys := List.foldl_append

theorem lastText_cases (type d : GoString) (items : List Item) :
    (∀ it ∈ items, it.hasType type = false) ∧ lastText type d items = d ∨
    ∃ it ∈ items, it.hasType type = true ∧ lastText type d items = Syncml.textOf it.data := by
  induction items generalizing d with
  | nil => exact .inl ⟨fun _ h => (List.not_mem_nil h).elim,rfl⟩
  | cons x items ih =>
    have hstep : lastText type d (x :: items) =
        lastText type (if x.hasType type then Syncml.textOf x.data else d) items := rfl
    rw [hstep]
    rcases ih (if x.hasType type then Syncml.textOf x.data else d) with ⟨hnone,he⟩ | ⟨it,hit,ht,he⟩
    · cases hx : x.hasType type with
      | true =>
        rw [hx] at he
        exact .inr ⟨x,List.mem_cons_self,hx,he⟩
      | false =>
        rw [hx] at he
        exact .inl ⟨by simpa [hx] using hnone,he⟩
    · exact .inr ⟨it,List.mem_cons_of_mem x hit,ht,he⟩

theorem lastText_of_none
    (h : ∀ it ∈ items, it.hasType type = false) : lastText type d items = d := by
  rcases lastText_cases type d items with ⟨-,he⟩ | ⟨it,hit,ht,-⟩
  · exact he
  · rw [h it hit] at ht
    cases ht

theorem lastText_of_same (hit : it ∈ items)
    (ht : it.hasType type = true)
    (hsame : ∀ x ∈ items, x.hasType type = true → Syncml.textOf x.data = Syncml.textOf it.data) :
    lastText type d items = Syncml.textOf it.data := by
  rcases lastText_cases type d items with ⟨hnone,-⟩ | ⟨x,hx,hxt,he⟩
  · rw [hnone it hit] at ht
    cases ht
  · exact he.trans (hsame x hx hxt)

section Recording

theorem eventFact_fields (facts : Facts) (it : Item) :
    (eventFact facts it).loginStatus = facts.loginStatus ∧
    (eventFact facts it).syncType = lastText Syncml.alertTypeSyncType facts.syncType [it] ∧
    (eventFact facts it).devicePrepSync =
      lastText Syncml.alertTypeDevicePrepSync facts.devicePrepSync [it] := by
  have hne : Syncml.alertTypeSyncType ≠ Syncml.alertTypeDevicePrepSync := by decide
  cases hm : it.metinf with
  | none => simp [eventFact,lastText,Syncml.Item.hasType,hm]
  | some m =>
    by_cases h₁ : m.type = Syncml.alertTypeSyncType
    · simp [eventFact,lastText,Syncml.Item.hasType,hm,h₁,hne]
    by_cases h₂ : m.type = Syncml.alertTypeDevicePrepSync
    · simp [eventFact,lastText,Syncml.Item.hasType,hm,h₂,hne.symm]
    · simp [eventFact,lastText,Syncml.Item.hasType,hm,h₁,h₂]

theorem foldl_eventFact (facts : Facts) (items : List Item) :
    (items.foldl eventFact facts).loginStatus = facts.loginStatus ∧
    (items.foldl eventFact facts).syncType =
      lastText Syncml.alertTypeSyncType facts.syncType items ∧
    (items.foldl eventFact facts).devicePrepSync =
      lastText Syncml.alertTypeDevicePrepSync facts.devicePrepSync items := by
  induction items generalizing facts with
  | nil => exact ⟨rfl,rfl,rfl⟩
  | cons it items ih =>
    obtain ⟨h₁,h₂,h₃⟩ := ih (eventFact facts it)
    obtain ⟨e₁,e₂,e₃⟩ := eventFact_fields facts it
    rw [e₁] at h₁
    rw [e₂,← lastText_append] at h₂
    rw [e₃,← lastText_append] at h₃
    exact ⟨h₁,h₂,h₃⟩

theorem Facts.record_fields (facts : Facts) (req : Message) :
    (facts.record req).loginStatus = Syncml.loginStatus req ∧
    (facts.record req).syncType =
      lastText Syncml.alertTypeSyncType facts.syncType (Message.topEventItems req) ∧
    (facts.record req).devicePrepSync =
      lastText Syncml.alertTypeDevicePrepSync facts.devicePrepSync (Message.topEventItems req) :=
  foldl_eventFact _ _

theorem loginStatus_cases (req : Message) :
    (∀ it ∈ Message.topEventItems req, it.hasType Syncml.alertTypeLoginStatus = false) ∧
      Syncml.loginStatus req = [] ∨
    ∃ it ∈ Message.topEventItems req, it.hasType Syncml.alertTypeLoginStatus = true ∧
      Syncml.loginStatus req = Syncml.textOf it.data := by
  unfold Syncml.loginStatus
  cases hf : (Message.topEventItems req).find? (fun it => it.hasType Syncml.alertTypeLoginStatus) with
  | none =>
    refine .inl ⟨fun it hit => ?_,by rw [show (req.body.alerts.flatMap _).find? _ = none from hf]⟩
    simpa using List.find?_eq_none.mp hf it hit
  | some it =>
    have ht := List.find?_some hf
    refine .inr ⟨it,List.mem_of_find?_eq_some hf,ht,?_⟩
    rw [show (req.body.alerts.flatMap _).find? _ = some it from hf]

end Recording

structure Facts.Hold (facts : Facts) (it : Item) : Prop where
  loginStatus : it.hasType Syncml.alertTypeLoginStatus = true →
    facts.loginStatus = Syncml.textOf it.data
  syncType : it.hasType Syncml.alertTypeSyncType = true → facts.syncType = Syncml.textOf it.data
  devicePrepSync : it.hasType Syncml.alertTypeDevicePrepSync = true →
    facts.devicePrepSync = Syncml.textOf it.data

def consumedTypes : List GoString :=
  [Syncml.alertTypeLoginStatus,Syncml.alertTypeSyncType,Syncml.alertTypeDevicePrepSync]

theorem hasType_consumed (h : it.hasType type = true)
    (ht : type ∈ consumedTypes) : isConsumedEvent it = true := by
  cases hm : it.metinf with
  | none =>
    rw [Syncml.Item.hasType,hm] at h
    cases h
  | some m =>
    rw [Syncml.Item.hasType,hm] at h
    rw [isConsumedEvent,hm]
    exact decide_eq_true (by rw [eq_of_beq h]; exact ht)

/-- The consumed items of the message all stand in a package 1 that is the
first to be recorded in `s`, outside groups and with one value for each type. -/
structure Message.ReportsFit (req : Message) (s : Session) : Prop where
  flat : Message.eventItems req = Message.topEventItems req
  recorded : ∀ it ∈ Message.topEventItems req, isConsumedEvent it = true →
    Syncml.isPackageOne req = true ∧ s.gotPackageOne = false
  single : ∀ type ∈ consumedTypes, ∀ it ∈ Message.topEventItems req,
    ∀ x ∈ Message.topEventItems req, it.hasType type = true → x.hasType type = true →
    Syncml.textOf x.data = Syncml.textOf it.data

instance (req : Message) (s : Session) : Decidable (Message.ReportsFit req s) :=
  decidable_of_iff (Message.eventItems req = Message.topEventItems req ∧
      (∀ it ∈ Message.topEventItems req, isConsumedEvent it = true →
        Syncml.isPackageOne req = true ∧ s.gotPackageOne = false) ∧
      ∀ type ∈ consumedTypes, ∀ it ∈ Message.topEventItems req,
        ∀ x ∈ Message.topEventItems req, it.hasType type = true → x.hasType type = true →
        Syncml.textOf x.data = Syncml.textOf it.data)
    ⟨fun h => ⟨h.1,h.2.1,h.2.2⟩,fun h => ⟨h.flat,h.recorded,h.single⟩⟩

structure Session.Follows (s : Session) (reported : List Item) : Prop where
  loginStatus : s.facts.loginStatus = lastText Syncml.alertTypeLoginStatus [] reported
  syncType : s.facts.syncType = lastText Syncml.alertTypeSyncType [] reported
  fresh : s.gotPackageOne = false → ∀ it ∈ reported, isConsumedEvent it = false

section Messages
variable {req : Message} {s s' : Session} {reported : List Item}

theorem not_hasType_of_not_consumed
    (ht : type ∈ consumedTypes) (h : ∀ it ∈ items, isConsumedEvent it = false) :
    ∀ it ∈ items, it.hasType type = false := by
  intro it hit
  cases hx : it.hasType type with
  | false => rfl
  | true => exact (hasType_consumed hx ht).symm.trans (h it hit)

theorem Message.ReportsFit.login (hf : Message.ReportsFit req s) :
    Syncml.loginStatus req = lastText Syncml.alertTypeLoginStatus [] (Message.topEventItems req) := by
  rcases loginStatus_cases req with ⟨hnone,he⟩ | ⟨it,hit,ht,he⟩
  · rw [he,lastText_of_none hnone]
  · rw [he,lastText_of_same hit ht fun x hx hxt => hf.single _ (by simp [consumedTypes]) it hit x hx ht hxt]

theorem Message.ReportsFit.hold (hf : Message.ReportsFit req s)
    (hit : it ∈ Message.topEventItems req) : (s.factsAfter req).Hold it := by
  have hrec : ∀ type ∈ consumedTypes, it.hasType type = true →
      s.factsAfter req = s.facts.record req := by
    intro type htype ht
    exact if_pos (hf.recorded it hit (hasType_consumed ht htype))
  obtain ⟨h₁,h₂,h₃⟩ := s.facts.record_fields req
  have hlast : ∀ type ∈ consumedTypes, ∀ d, it.hasType type = true →
      lastText type d (Message.topEventItems req) = Syncml.textOf it.data :=
    fun type htype d ht => lastText_of_same hit ht fun x hx hxt => hf.single type htype it hit x hx ht hxt
  refine ⟨fun ht => ?_,fun ht => ?_,fun ht => ?_⟩
  · rw [hrec _ (by simp [consumedTypes]) ht,h₁,hf.login]
    exact hlast _ (by simp [consumedTypes]) _ ht
  · rw [hrec _ (by simp [consumedTypes]) ht,h₂]
    exact hlast _ (by simp [consumedTypes]) _ ht
  · rw [hrec _ (by simp [consumedTypes]) ht,h₃]
    exact hlast _ (by simp [consumedTypes]) _ ht

theorem Session.Follows.answered (h : s.Follows reported) (hf : Message.ReportsFit req s)
    (hfacts : s'.facts = s.factsAfter req)
    (hgot : s'.gotPackageOne = (s.gotPackageOne || Syncml.isPackageOne req)) :
    s'.Follows (reported ++ Message.topEventItems req) := by
  by_cases hp : Syncml.isPackageOne req ∧ s.gotPackageOne = false
  · have hold := h.fresh hp.2
    obtain ⟨h₁,h₂,-⟩ := s.facts.record_fields req
    have hrec : s'.facts = s.facts.record req := hfacts.trans (if_pos hp)
    refine ⟨?_,?_,fun hg => ?_⟩
    · rw [hrec,h₁,hf.login,lastText_append,
        lastText_of_none (not_hasType_of_not_consumed (by simp [consumedTypes]) hold)]
    · rw [hrec,h₂,lastText_append,h.syncType]
    · rw [hgot,hp.1,Bool.or_true] at hg
      cases hg
  · have hnone : ∀ it ∈ Message.topEventItems req, isConsumedEvent it = false := by
      intro it hit
      cases hc : isConsumedEvent it with
      | false => rfl
      | true => exact absurd (hf.recorded it hit hc) hp
    have hrec : s'.facts = s.facts := hfacts.trans (if_neg hp)
    refine ⟨?_,?_,fun hg it hit => ?_⟩
    · rw [hrec,lastText_append,h.loginStatus,
        lastText_of_none (not_hasType_of_not_consumed (by simp [consumedTypes]) hnone)]
    · rw [hrec,lastText_append,h.syncType,
        lastText_of_none (not_hasType_of_not_consumed (by simp [consumedTypes]) hnone)]
    rw [hgot,Bool.or_eq_false_iff] at hg
    rcases List.mem_append.mp hit with hit | hit
    · exact h.fresh hg.1 it hit
    · exact hnone it hit

end Messages

/-- The items that the trusted calls have reported. -/
def reportedBy (cfg : Config) (calls : List Call) : List Item :=
  calls.flatMap fun c => if c.Trusted cfg then Message.topEventItems c.req else []

section Calls
variable {cfg : Config} {c : Call} {reply : Option Message}

theorem Answered.final_gotPackageOne
    (a : Answered cfg req s w s' w' reply) :
    s'.gotPackageOne = (s.gotPackageOne || Syncml.isPackageOne req) := by
  obtain ⟨r,he⟩ := a.finished.final
  have hfiled : a.built.sess.gotPackageOne = (a.acked.sess.filed req).gotPackageOne :=
    a.isBuilt.sending.1.gotPackageOne
  have hgot := (fileStatuses_filing a.acked.sess req.body.statuses).gotPackageOne.trans
    a.taking.gotPackageOne
  rw [he,show ({ a.built.sess with results := r, serverMsgID := atoiValue a.built.resp.header.msgID } :
    Session).gotPackageOne = a.built.sess.gotPackageOne from rfl,hfiled]
  unfold Session.filed
  rw [hgot]
  split
  · rename_i hp
    rw [hp.1,Bool.or_true]
    rfl
  rename_i hp
  rw [hgot]
  cases hg : s.gotPackageOne with
  | true => rfl
  | false =>
    cases hone : Syncml.isPackageOne req with
    | false => rfl
    | true => exact absurd ⟨hone,hg⟩ hp

theorem Reached.follows
    (r : Reached cfg c.env c.transport c.req c.before) (hr : r.result = .ok reply)
    (h : r.arrived.Follows reported)
    (hf : c.Trusted cfg → Message.ReportsFit c.req r.arrived) :
    r.work.sess.Follows
      (reported ++ if c.Trusted cfg then Message.topEventItems c.req else []) := by
  have htr : c.Trusted cfg ↔ r.outcome = .trusted := by
    unfold Call.Trusted Call.out
    rw [r.out]
    simp
  have hc := r.completed hr
  obtain ⟨auth,ty,hs⟩ := r.authenticated.1
  have hsess : r.sess.Follows reported := by
    rw [hs]
    exact ⟨h.loginStatus,h.syncType,h.fresh⟩
  by_cases ho : r.outcome = .trusted
  · obtain ⟨a⟩ := hc.answered ho
    have hfit : Message.ReportsFit c.req r.sess := by
      have := hf (htr.mpr ho)
      rw [hs]
      exact ⟨this.flat,this.recorded,this.single⟩
    rw [if_pos (htr.mpr ho)]
    exact hsess.answered hfit a.final_facts.1 a.final_gotPackageOne
  · obtain ⟨a⟩ := hc.challenged ho
    obtain ⟨x,he⟩ := a.finished.final
    rw [if_neg fun ht => ho (htr.mp ht),List.append_nil,he]
    exact ⟨hsess.loginStatus,hsess.syncType,hsess.fresh⟩

theorem Arrival.follows {t : Option Transport} (h : Arrival req id t w s w')
    (hstored : ∀ x, w.sessions.lookup (Message.sessionKey req) = some x → x.Follows reported)
    (hopen : atoiValue req.header.msgID = 1 → reported = []) : s.Follows reported := by
  obtain ⟨base,now,mm,mo,uao,rfl,⟨hs,hk,hm,rfl⟩ | ⟨sessions,start,hs,rfl,hm,hp,rfl⟩⟩ := h.shape
  · have hf := hstored base hs
    exact ⟨hf.loginStatus,hf.syncType,hf.fresh⟩
  · rw [hopen hm]
    exact ⟨rfl,rfl,fun _ _ hit => (List.not_mem_nil hit).elim⟩

theorem Reached.follows_stored
    (r : Reached cfg c.env c.transport c.req c.before) (hr : r.result = .ok reply)
    (hw : c.before.Sound) (hf : r.work.sess.Follows reported) :
    ∀ s, (c.after cfg).sessions.lookup (Message.sessionKey c.req) = some s → s.Follows reported := by
  have hkey : r.work.sess.key = Message.sessionKey c.req :=
    r.within.2.1.trans (r.arrival.entered hw).1.key
  have hl : (c.after cfg).sessions.lookup r.work.sess.key = none ∨
      (c.after cfg).sessions.lookup r.work.sess.key = some r.work.sess := by
    rcases (r.completed hr).cases with ⟨⟨a⟩⟩ | ⟨⟨a⟩⟩
    · exact a.finished.lookup
    · exact a.finished.lookup
  intro s hs
  rw [← hkey] at hs
  rcases hl with hn | hsome
  · rw [hn] at hs
    cases hs
  rw [hsome] at hs
  cases hs
  exact hf

end Calls

/-- In a session with hooks whose consumed items all stand in its recorded package 1, every client
event item is given to the hook once or is held by the facts. -/
theorem client_events_routed {cfg : Config} {key : GoString} {w w' : World} {calls : List Call}
    (hr : SessionRun cfg key w calls w') (hw : w.sessions = ∅) (hh : cfg.hooks = true)
    (hfit : ∀ c ∈ calls, c.Trusted cfg → ∀ s, c.entered = some s → Message.ReportsFit c.req s) :
    ∀ pre c post, calls = pre ++ c :: post → c.Trusted cfg →
      ∃ s, (c.out cfg).sess = some s ∧
        c.clientEvents cfg = s.eventsOf (Message.eventItems c.req) ∧
        (∀ it ∈ Message.eventItems c.req, isConsumedEvent it = true → s.facts.Hold it) ∧
        s.facts.loginStatus =
          lastText Syncml.alertTypeLoginStatus [] (reportedBy cfg (pre ++ [c])) ∧
        s.facts.syncType = lastText Syncml.alertTypeSyncType [] (reportedBy cfg (pre ++ [c])) := by
  have hsound := (hr.run.sound (World.sound_of_empty hw) hr.accepted).2
  -- one message: its session follows the reports before it, and then its own
  have hstep : ∀ pre c post, calls = pre ++ c :: post →
      (∀ s, c.before.sessions.lookup key = some s → s.Follows (reportedBy cfg pre)) →
      ∃ (r : Reached cfg c.env c.transport c.req c.before) (reply : Option Message),
        r.result = .ok reply ∧ r.work.sess.Follows (reportedBy cfg (pre ++ [c])) := by
    intro pre c post hcalls hP
    have hc : c ∈ calls := by rw [hcalls]; simp
    obtain ⟨reply,hreply⟩ := hr.accepted c hc
    rcases serve_cases cfg c.env c.transport c.req c.before with ⟨-,-,⟨e,he⟩,-⟩ | ⟨⟨r⟩⟩
    · rw [show (c.out cfg).reply = .error e from he] at hreply
      cases hreply
    have hres : r.result = .ok reply := by
      have h := hreply
      rw [Call.out,r.out] at h
      exact h
    have harr : r.arrived.Follows (reportedBy cfg pre) := by
      refine r.arrival.follows (by rw [hr.key c hc]; exact hP) fun h1 => ?_
      cases pre with
      | nil => rfl
      | cons p ps =>
        have htail : c ∈ calls.tail := by rw [hcalls]; simp
        exact absurd h1 (hr.continues c htail)
    refine ⟨r,reply,hres,?_⟩
    have hf := r.follows hres harr fun ht => hfit c hc ht r.arrived r.entered_eq
    rw [reportedBy,List.flatMap_append,List.flatMap_singleton]
    exact hf
  have hinv := hr.run.history (P := fun past w =>
      ∀ s, w.sessions.lookup key = some s → s.Follows (reportedBy cfg past)) []
    (by rw [hw]; intro s hs; cases hs) (fun _ => .of_queue fun _ _ h => h) (by
      intro pre c post hcalls hP
      have hc : c ∈ calls := by rw [hcalls]; simp
      obtain ⟨r,reply,hres,hf⟩ := hstep pre c post hcalls hP
      have hkey := hr.key c hc
      have hs := r.follows_stored hres (hsound c hc) hf
      rw [hkey] at hs
      exact hs)
  intro pre c post hcalls ht
  have hc : c ∈ calls := by rw [hcalls]; simp
  obtain ⟨r,reply,hres,hf⟩ := hstep pre c post hcalls (hinv.2 pre c post hcalls)
  have ho : r.outcome = .trusted := by
    rw [Call.Trusted,Call.out,r.out] at ht
    exact Option.some.inj ht
  obtain ⟨auth,ty,hs⟩ := r.authenticated.1
  obtain ⟨a⟩ := (r.completed hres).answered ho
  have hfit := hfit c hc ht r.arrived r.entered_eq
  obtain ⟨x,he⟩ := a.finished.final
  have hfits : Message.ReportsFit c.req r.sess := by
    rw [hs]
    exact ⟨hfit.flat,hfit.recorded,hfit.single⟩
  refine ⟨r.work.sess,by rw [Call.out,r.out],?_,?_,hf.loginStatus,hf.syncType⟩
  · rw [r.clientEvents hh ho hres,hfit.flat,he]
    exact (a.steady.eventsOf _).symm
  intro it hit _
  rw [a.final_facts.1]
  exact hfits.hold (by rw [← hfit.flat]; exact hit)

namespace Sample

def hookedCfg : Config := { cfg with hooks := true }

def event (cmdID type value : GoString) : Syncml.Command :=
  .alert {
    cmdID := cmdID, data := "1224"
    items := [{ metinf := some { type := type }, data := some { value := value } }] }

def eventCalls (first second : Syncml.Command) : List Call :=
  callsOf hookedCfg env (some transport) {}
    [{ packageOne with body := { packageOne.body with commands := packageOne.body.commands ++ [first] } },
      request "2" [second]]

def loginCalls : List Call :=
  eventCalls (event "3" Syncml.alertTypeLoginStatus "user") (event "1" "com.example:event" "e")

def lateLoginCalls : List Call :=
  eventCalls (event "3" "com.example:event" "e") (event "1" Syncml.alertTypeLoginStatus "user")

def told (calls : List Call) : List (List GoString × Option GoString) :=
  calls.map fun c => ((c.clientEvents hookedCfg).map Event.data,
    (c.out hookedCfg).sess.map fun s => s.facts.loginStatus)

end Sample

set_option maxRecDepth 4000 in
theorem client_events_routed_login :
    ∃ c₁ c₂ w', Sample.loginCalls = [c₁,c₂] ∧
      SessionRun Sample.hookedCfg Sample.key {} [c₁,c₂] w' ∧
      ∃ s, (c₁.out Sample.hookedCfg).sess = some s ∧
        c₁.clientEvents Sample.hookedCfg = s.eventsOf (Message.eventItems c₁.req) ∧
        (∀ it ∈ Message.eventItems c₁.req, isConsumedEvent it = true → s.facts.Hold it) ∧
        s.facts.loginStatus =
          lastText Syncml.alertTypeLoginStatus [] (reportedBy Sample.hookedCfg [c₁]) ∧
        s.facts.syncType =
          lastText Syncml.alertTypeSyncType [] (reportedBy Sample.hookedCfg [c₁]) := by
  have hfit : ∀ c ∈ Sample.loginCalls, ∀ s, c.entered = some s → Message.ReportsFit c.req s := by
    decide +kernel
  have htrust : ∀ c ∈ Sample.loginCalls, c.Trusted Sample.hookedCfg := by decide +kernel
  obtain ⟨w',hr⟩ := sessionRun_callsOf Sample.hookedCfg Sample.env (some Sample.transport) {} _
    Sample.key (show (∀ c ∈ Sample.loginCalls, _) ∧ ∀ c ∈ Sample.loginCalls.tail, _ by decide +kernel)
  refine ⟨_,_,w',rfl,hr,?_⟩
  exact client_events_routed hr rfl rfl (fun c hc _ => hfit c hc) [] _ _ rfl
    (htrust _ List.mem_cons_self)

/-- A LoginStatus that the client reports in its second message reaches neither
the hook nor the facts. -/
theorem later_login_dropped :
    Sample.told Sample.lateLoginCalls = [([utf8 "e"],some []),([],some [])] ∧
    ∀ c ∈ Sample.lateLoginCalls, c.Accepted Sample.hookedCfg ∧ c.Trusted Sample.hookedCfg := by
  decide +kernel

end MicrosoftDM.Mdm
