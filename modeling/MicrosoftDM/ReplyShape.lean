import MicrosoftDM.ReplyCommands
import MicrosoftDM.ChunkedAnswers
import MicrosoftDM.ValidationRules

set_option autoImplicit false

namespace MicrosoftDM.Mdm
open MicrosoftDM.Syncml (Item Status Message)

def Session.inFlight (s : Session) : Bool := s.nextChunk.isSome || s.uploadPending

def Session.ChunksLeft (s : Session) : Prop := ∀ o, s.outgoing = some o → o.chunks ≠ []

variable {s : Session} {w wk wk' : Work} {cfg : Config} {m req : Message} {q q' : Queue} {n : Int}
  {sts : List Status}

theorem Session.nextChunk_isSome (h : s.ChunksLeft) :
    s.nextChunk.isSome = s.outgoing.isSome := by
  unfold nextChunk
  cases ho : s.outgoing with
  | none => rfl
  | some o =>
    dsimp only
    cases hc : o.chunks with
    | nil => exact absurd hc (h o ho)
    | cons x xs => rfl

theorem Session.inFlight_congr {t : Session} (ho : t.outgoing = s.outgoing)
    (ha : t.assembler = s.assembler) : t.inFlight = s.inFlight := by
  unfold inFlight nextChunk uploadPending
  rw [ho,ha]

theorem Work.send_chunksLeft (h : w.sess.ChunksLeft) (qc : QueuedCommand) :
    (w.send qc).sess.ChunksLeft := by
  intro o ho
  rw [Work.send_sess] at ho
  dsimp only at ho
  split at ho
  · exact h o ho
  rename_i hc
  cases ho
  exact hc

theorem foldl_send_chunksLeft (h : w.sess.ChunksLeft) (through : List QueuedCommand) :
    (through.foldl Work.send w).sess.ChunksLeft := by
  induction through generalizing w with
  | nil => exact h
  | cons qc rest ih => exact ih (w.send_chunksLeft h qc)

theorem Finished.inFlight {w w' : World} {s' : Session} {reply : Option Message}
    (f : Finished wk w s' w' reply) : s'.inFlight = wk.sess.inFlight := by
  obtain ⟨r,he⟩ := f.final
  rw [he]
  rfl

def Session.SendsLast (s : Session) (req : Message) : Prop :=
  AsksForChunk req ∧ s.nextChunk.map (fun x => x.2.2) = some []

instance (s : Session) (req : Message) : Decidable (s.SendsLast req) :=
  inferInstanceAs (Decidable (_ ∧ _))

theorem Work.sendChunk_sess (w : Work) (o : Outgoing) (next : Item) (rest : List Item) :
    (w.sendChunk o next rest).sess.outgoing =
      (if rest = [] then none else some { o with chunks := rest }) ∧
    (w.sendChunk o next rest).sess.assembler = w.sess.assembler ∧
    (w.sendChunk o next rest).resp.body.final = (if rest = [] then true else w.resp.body.final) := by
  unfold Work.sendChunk
  dsimp only
  split
  · exact ⟨rfl,rfl,rfl⟩
  · exact ⟨rfl,rfl,rfl⟩

theorem Built.final_iff
    (hb : Built cfg req wk q wk' q') (h0 : wk.resp.body.final = false)
    (hl : wk.sess.ChunksLeft) :
    (wk'.resp.body.final = true ↔ wk'.sess.inFlight = false) ↔
      if wk.sess.closed then wk.sess.inFlight = false
      else wk.sess.SendsLast req → wk.sess.uploadPending = false := by
  cases hb with
  | closing hc =>
    rw [if_pos hc]
    change (true = true ↔ wk.sess.inFlight = false) ↔ _
    simp
  | chunk hc hn ho =>
    rename_i o next rest
    obtain ⟨hout,hasm,hfin⟩ := wk.sendChunk_sess o next rest
    have hup : (wk.sendChunk o next rest).sess.uploadPending = wk.sess.uploadPending := by
      unfold Session.uploadPending
      rw [hasm]
    have hnext : (wk.sendChunk o next rest).sess.nextChunk.isSome = decide (rest ≠ []) := by
      unfold Session.nextChunk
      rw [hout]
      cases rest <;> rfl
    rw [if_neg (by simp [hc]),hfin,h0]
    unfold Session.inFlight Session.SendsLast
    rw [hnext,hup,ho]
    cases rest with
    | nil => simp [AsksForChunk,hn]
    | cons x xs => simp
  | upload hc hn hu =>
    have hno : ¬wk.sess.SendsLast req := by
      rintro ⟨hask,hlast⟩
      rw [hn hask] at hlast
      cases hlast
    have hfl : wk.askForMore.sess.inFlight = true := by
      change wk.sess.inFlight = true
      simp [Session.inFlight,hu]
    rw [if_neg (by simp [hc]),hfl]
    change (false = true ↔ true = false) ↔ _
    simp [hno]
  | deliver hc hn hu hd hall hq =>
    rename_i through
    have hno : ¬wk.sess.SendsLast req := by
      rintro ⟨hask,hlast⟩
      rw [hn hask] at hlast
      cases hlast
    have hs := foldl_send_sending wk through
    have hup : (through.foldl Work.send wk).sess.uploadPending = false := by
      unfold Session.uploadPending at hu ⊢
      rw [hs.assembler]
      exact hu
    rw [if_neg (by simp [hc])]
    change ((through.foldl Work.send wk).sess.outgoing.isNone = true ↔
      (through.foldl Work.send wk).sess.inFlight = false) ↔ _
    unfold Session.inFlight
    rw [hup,Session.nextChunk_isSome (foldl_send_chunksLeft hl through)]
    simp [hno]

/-- When Final fits what is in flight after the call, with `s` the session the message enters. -/
structure Call.FinalFits (c : Call) (cfg : Config) (s : Session) : Prop where
  closing : c.Trusted cfg → s.closedBy cfg c.req = true →
    s.nextChunk = none ∧ s.uploadAfter cfg c.req = false
  sending : c.Trusted cfg → s.closedBy cfg c.req = false → s.SendsLast c.req →
    s.uploadAfter cfg c.req = false
  challenged : ¬c.Trusted cfg → s.inFlight = true

instance (c : Call) (cfg : Config) (s : Session) : Decidable (c.FinalFits cfg s) :=
  decidable_of_iff ((c.Trusted cfg → s.closedBy cfg c.req = true →
      s.nextChunk = none ∧ s.uploadAfter cfg c.req = false) ∧
    (c.Trusted cfg → s.closedBy cfg c.req = false → s.SendsLast c.req →
      s.uploadAfter cfg c.req = false) ∧ (¬c.Trusted cfg → s.inFlight = true))
    ⟨fun ⟨h₁,h₂,h₃⟩ => ⟨h₁,h₂,h₃⟩,fun h => ⟨h.closing,h.sending,h.challenged⟩⟩

/-- A reply carries Final exactly when nothing is in flight after the request, if and only if the
message is trusted, does not close the session, and no last chunk goes out during an upload; or it
closes the session with nothing in flight; or it is challenged with something in flight. -/
theorem final_iff_nothing_in_flight {cfg : Config} {c : Call} {s s' : Session} {m : Message}
    (hs : c.entered = some s) (hm : c.message cfg = some m)
    (hs' : (c.out cfg).sess = some s') (hl : s.ChunksLeft) :
    (m.body.final = true ↔ s'.inFlight = false) ↔ c.FinalFits cfg s := by
  obtain ⟨a,rfl⟩ := Call.accepted_in hs (Call.message_some hm)
  have he : a.sess' = s' := Option.some.inj (a.final.symm.trans hs')
  subst he
  have hauth : c.Trusted cfg ↔ a.outcome = .trusted := by
    unfold Call.Trusted
    rw [show (c.out cfg).auth = some a.outcome from a.auth]
    simp
  have hres := a.authChange.resumed
  by_cases ho : a.outcome = .trusted
  · obtain ⟨x⟩ := a.answered ho
    have hm : m.body.final = x.built.resp.body.final :=
      congrArg (fun m : Message => m.body.final) x.finished.message
    obtain ⟨hcl,hup,hch,-⟩ := x.filed_of_stored hres
    have hout : x.filed.outgoing = a.arrived.outgoing :=
      x.filedFrom.outgoing.trans hres.alike.outgoing
    have hfin : (x.acked.setSess (·.filed c.req)).resp.body.final = false :=
      (Work.ackAll_repliesOn x.isAcked).final
    have hb := x.isBuilt.final_iff hfin fun o h => hl o (hout ▸ h)
    rw [hm,x.finished.inFlight,hb]
    change (if x.filed.closed = true then x.filed.inFlight = false
      else x.filed.SendsLast c.req → x.filed.uploadPending = false) ↔ _
    have hsl : x.filed.SendsLast c.req ↔ a.arrived.SendsLast c.req := by
      unfold Session.SendsLast
      rw [hch]
    have hfl : x.filed.inFlight = false ↔
        a.arrived.nextChunk = none ∧ a.arrived.uploadAfter cfg c.req = false := by
      unfold Session.inFlight
      rw [hup,hch]
      cases a.arrived.nextChunk <;> simp
    rw [hcl,hup,hfl,hsl]
    constructor
    · intro h
      refine ⟨fun _ hc => ?_,fun _ hc => ?_,fun hn => absurd (hauth.mpr ho) hn⟩
      · rwa [if_pos hc] at h
      · rwa [if_neg (by simp [hc])] at h
    intro h
    split
    · rename_i hc
      exact h.closing (hauth.mpr ho) hc
    · rename_i hc
      exact h.sending (hauth.mpr ho) (Bool.not_eq_true _ ▸ hc)
  · have hn : ¬c.Trusted cfg := fun h => ho (hauth.mp h)
    obtain ⟨x⟩ := a.challenged ho
    have hm : m.body.final =
        ((startWork cfg c.req a.sess).challenge c.req a.outcome x.chal).resp.body.final :=
      congrArg (fun m : Message => m.body.final) x.finished.message
    have hfl : ((startWork cfg c.req a.sess).challenge c.req a.outcome x.chal).sess.inFlight =
        a.arrived.inFlight :=
      Session.inFlight_congr hres.alike.outgoing hres.alike.assembler
    rw [hm,x.finished.inFlight,hfl]
    change (false = true ↔ a.arrived.inFlight = false) ↔ _
    have hfits : c.FinalFits cfg a.arrived ↔ a.arrived.inFlight = true :=
      ⟨fun h => h.challenged hn,fun h => ⟨fun ht => absurd ht hn,fun ht => absurd ht hn,fun _ => h⟩⟩
    rw [hfits]
    cases a.arrived.inFlight <;> simp

namespace Sample

def chunkCall : Call where
  before := largeWorld
  env := env
  transport := some transport
  req := smallPackageOne

def strangerCall : Call where
  before := {}
  env := { env with trust := fun _ _ _ => false }
  transport := some transport
  req := packageOne

end Sample

set_option maxRecDepth 4000

/-- A first chunk goes out without Final. -/
theorem final_iff_nothing_in_flight_chunk : ∃ m s',
    Sample.chunkCall.message Sample.cfg = some m ∧
    (Sample.chunkCall.out Sample.cfg).sess = some s' ∧
    m.body.final = false ∧ (m.body.final = true ↔ s'.inFlight = false) := by
  obtain ⟨s,hs,hleft,hfits⟩ : ∃ s, Sample.chunkCall.entered = some s ∧ s.outgoing.isNone = true ∧
      Sample.chunkCall.FinalFits Sample.cfg s := by decide +kernel
  obtain ⟨m,hm,s',hs',hfinal⟩ : ∃ m, Sample.chunkCall.message Sample.cfg = some m ∧
      ∃ s', (Sample.chunkCall.out Sample.cfg).sess = some s' ∧ m.body.final = false := by
    decide +kernel
  have hl : s.ChunksLeft := by
    intro o ho
    simp [ho] at hleft
  exact ⟨m,s',hm,hs',hfinal,(final_iff_nothing_in_flight hs hm hs' hl).mpr hfits⟩

/-- A challenge goes out without Final although nothing is in flight. -/
theorem challenge_without_final : ∃ m s',
    Sample.strangerCall.message Sample.cfg = some m ∧
    (Sample.strangerCall.out Sample.cfg).sess = some s' ∧
    m.body.final = false ∧ s'.inFlight = false := by
  simp only [exists_and_left]
  decide +kernel

def acknowledged : Syncml.Command → Bool
  | .status _ => false
  | .results _ => false
  | _ => true

def Message.toAcknowledge (req : Message) : List Syncml.Command :=
  req.body.commands.filter acknowledged

def StatusOn (req : Message) (c : Syncml.Command) (st : Status) : Prop :=
  st.msgRef = req.header.msgID ∧ st.cmdRef = c.id ∧ st.cmd = c.name

def NamesIn (req : Message) (st : Status) : Prop :=
  st.cmdRef = utf8 "0" ∧ st.cmd = Syncml.cmdSyncHdr ∨
  ∃ c ∈ Syncml.walkAll req.body.commands, st.cmdRef = c.id ∧ st.cmd = c.name

def Message.refersTo (req : Message) (st : Status) : Bool :=
  decide (st.cmdRef ∈ (Message.toAcknowledge req).map Syncml.Command.id)

/-- The reply answers the header first, then each command once and in order,
and has no other Status that the request does not explain. -/
structure Acknowledges (req m : Message) : Prop where
  header : ∃ hdr, m.body.commands.head? = some (.status hdr) ∧ hdr.msgRef = req.header.msgID ∧
    hdr.cmdRef = utf8 "0" ∧ hdr.cmd = Syncml.cmdSyncHdr
  commands : List.Forall₂ (StatusOn req) (Message.toAcknowledge req)
    (m.body.statuses.tail.filter (Message.refersTo req))
  others : ∀ st ∈ m.body.statuses.tail, Message.refersTo req st = false →
    NamesIn req st ∧ ∀ p, (Syncml.Validator.status {} st p).errs = []

theorem Acknowledges.msgRef (h : Acknowledges req m) :
    ∀ st ∈ m.body.statuses.tail.filter (Message.refersTo req), st.msgRef = req.header.msgID := by
  have hc := h.commands
  revert hc
  generalize m.body.statuses.tail.filter (Message.refersTo req) = sts
  generalize Message.toAcknowledge req = cs
  intro hc st hst
  induction hc with
  | nil => cases hst
  | cons hon _ ih =>
    rcases List.mem_cons.mp hst with rfl | hst
    · exact hon.1
    · exact ih hst

/-- The Status on a command names it, and quotes the MsgID of the request,
unless the command is an Alert: then it is the number of the message. -/
theorem ackStatuses_refs (req : Message) (sess : Session) (n : Nat) (cs : List Syncml.Command) :
    List.Forall₂ (fun c st => st.cmdRef = c.id ∧ st.cmd = c.name ∧
      st.msgRef = if c.alert?.isSome then itoa sess.clientMsgID else req.header.msgID)
      (cs.filter acknowledged) (ackStatuses req sess n cs) := by
  induction cs generalizing n with
  | nil => exact .nil
  | cons c cs ih =>
    cases c with
    | status _ | results _ => exact ih n
    | alert _ | leaf _ _ | group _ _ _ _ _ => exact .cons ⟨rfl,rfl,rfl⟩ (ih (n+1))

def Session.AsksForMore (s : Session) (req : Message) : Prop :=
  s.closed = false ∧ s.uploadPending = true ∧ (AsksForChunk req → s.nextChunk = none)

theorem sentBodies_status {through : List QueuedCommand}
    (hv : ∀ qc ∈ through, validate qc.command = none) :
    (sentBodies w through).filterMap Syncml.Command.status? = [] := by
  induction through generalizing w with
  | nil => rfl
  | cons qc rest ih =>
    have hbody : (w.sentBody qc).status? = none := by
      rcases validate_body (hv qc List.mem_cons_self) with ⟨v,b,hb⟩ | ⟨kind,i,nr,mi,cs,hb,-⟩
      · obtain ⟨⟨items,hs⟩,-⟩ := Work.send_leaf (w := w) hb
        rw [hs]
        rfl
      · rw [(Work.send_group (w := w) hb).1]
        rfl
    rw [sentBodies,List.filterMap_cons_none hbody]
    exact ih fun x hx => hv x (List.mem_cons_of_mem _ hx)

theorem Built.statuses
    (hb : Built cfg req wk q wk' q') :
    ∃ added, wk'.resp.body.commands = wk.resp.body.commands ++ added ∧
      (∀ st ∈ added.filterMap Syncml.Command.status?,
        st.cmdRef = utf8 "0" ∧ st.cmd = Syncml.cmdResults) ∧
      (added.filterMap Syncml.Command.status? = [] ↔ ¬wk.sess.AsksForMore req) := by
  cases hb with
  | closing hc =>
    refine ⟨[],by simp,by simp,?_⟩
    simp [Session.AsksForMore,hc]
  | chunk hc hn ho =>
    rename_i o next rest
    refine ⟨_,wk.sendChunk_commands o next rest,by simp [Work.chunkCommand,Syncml.Command.status?],?_⟩
    refine ⟨fun _ h => ?_,fun _ => rfl⟩
    rw [h.2.2 hn] at ho
    cases ho
  | upload hc hn hu =>
    refine ⟨_,wk.askForMore_commands,?_,?_⟩
    · simp [Work.moreCommands,Syncml.Command.status?]
    · refine ⟨fun h => ?_,fun h => absurd ⟨hc,hu,hn⟩ h⟩
      simp [Work.moreCommands,Syncml.Command.status?] at h
  | deliver hc hn hu hd hall hq =>
    rename_i through
    have hnone := sentBodies_status (w := wk) hd.valid
    refine ⟨_,foldl_send_commands wk through,by simp [hnone],?_⟩
    simp [hnone,Session.AsksForMore,hu]

theorem exists_alert_iff (req : Message) :
    req.body.alerts ≠ [] ↔ ∃ c ∈ Message.toAcknowledge req, c.alert?.isSome = true := by
  unfold Syncml.Body.alerts Message.toAcknowledge
  rw [Ne,List.filterMap_eq_nil_iff]
  push Not
  constructor
  · rintro ⟨c,hc,ha⟩
    refine ⟨c,List.mem_filter.mpr ⟨hc,?_⟩,Option.isSome_iff_ne_none.mpr ha⟩
    cases c <;> first | rfl | exact absurd rfl ha
  · rintro ⟨c,hc,ha⟩
    exact ⟨c,(List.mem_filter.mp hc).1,Option.isSome_iff_ne_none.mp ha⟩

theorem forall₂_statusOn_iff {cs : List Syncml.Command}
    (h : List.Forall₂ (fun c st => st.cmdRef = c.id ∧ st.cmd = c.name ∧
      st.msgRef = if c.alert?.isSome then itoa n else req.header.msgID) cs sts) :
    List.Forall₂ (StatusOn req) cs sts ↔
      ∀ c ∈ cs, c.alert?.isSome = true → itoa n = req.header.msgID := by
  constructor
  · intro hs
    have hboth : List.Forall₂ (fun (c : Syncml.Command) (_ : Status) =>
        (c.alert?.isSome = true → itoa n = req.header.msgID) ∧ True) cs sts := by
      refine List.Forall₂.mp (fun c st hst hon => ⟨fun ha => ?_,trivial⟩) h hs
      rw [← hon.1,hst.2.2,if_pos ha]
    exact ((List.forall₂_and_left _ _).mp hboth).1
  · intro hp
    refine List.Forall₂.imp ?_ ((List.forall₂_and_left _ _).mpr ⟨hp,h⟩)
    rintro c st ⟨hc,hid,hname,hmsg⟩
    refine ⟨?_,hid,hname⟩
    rw [hmsg]
    split
    · rename_i ha
      exact hc ha
    · rfl

theorem acknowledges_iff {hdr : Status} {rest : List Syncml.Command}
    {extra : List Status} (hvalid : Syncml.validate req = [])
    (hcmds : m.body.commands = .status hdr :: rest)
    (hhdr : hdr.msgRef = req.header.msgID ∧ hdr.cmdRef = utf8 "0" ∧ hdr.cmd = Syncml.cmdSyncHdr)
    (hrest : rest.filterMap Syncml.Command.status? = sts ++ extra)
    (hrefs : List.Forall₂ (fun c st => st.cmdRef = c.id ∧ st.cmd = c.name ∧
      st.msgRef = if c.alert?.isSome then itoa n else req.header.msgID)
      (Message.toAcknowledge req) sts)
    (hextra : ∀ st ∈ extra, st.cmdRef = utf8 "0" ∧ st.cmd = Syncml.cmdResults) :
    Acknowledges req m ↔ (req.body.alerts ≠ [] → itoa n = req.header.msgID) ∧ extra = [] := by
  obtain ⟨-,hids⟩ := Syncml.validate_ids hvalid
  have hwalk : ∀ c ∈ req.body.commands, c ∈ Syncml.walkAll req.body.commands := by
    intro c hc
    rw [Syncml.walkAll_eq_flatMap]
    exact List.mem_flatMap.mpr ⟨c,hc,by cases c <;> simp [Syncml.Command.walk]⟩
  have htail : m.body.statuses.tail = sts ++ extra := by
    unfold Syncml.Body.statuses
    rw [hcmds]
    exact hrest
  have hown : ∀ st ∈ sts, Message.refersTo req st = true := by
    intro st hst
    obtain ⟨i,hi,rfl⟩ := List.getElem_of_mem hst
    have hlen := hrefs.length_eq
    have := (hrefs.get (by omega) hi).1
    simp only [List.get_eq_getElem] at this
    unfold Message.refersTo
    rw [decide_eq_true_iff,this]
    exact List.mem_map_of_mem (List.getElem_mem _)
  have hnone : ∀ st ∈ extra, Message.refersTo req st = false := by
    intro st hst
    unfold Message.refersTo
    rw [decide_eq_false_iff_not,(hextra st hst).1]
    intro hm
    obtain ⟨c,hc,he⟩ := List.mem_map.mp hm
    exact (hids c (hwalk c (List.mem_filter.mp hc).1)).2 he
  have hfilter : (sts ++ extra).filter (Message.refersTo req) = sts := by
    rw [List.filter_append,List.filter_eq_self.mpr hown,List.filter_eq_nil_iff.mpr (by simpa using hnone),
      List.append_nil]
  have hquote : (req.body.alerts ≠ [] → itoa n = req.header.msgID) ↔
      List.Forall₂ (StatusOn req) (Message.toAcknowledge req) sts := by
    rw [forall₂_statusOn_iff hrefs,exists_alert_iff]
    exact ⟨fun h c hc ha => h ⟨c,hc,ha⟩,fun h ⟨c,hc,ha⟩ => h c hc ha⟩
  rw [hquote]
  constructor
  · intro h
    have hc := h.commands
    rw [htail,hfilter] at hc
    refine ⟨hc,List.eq_nil_iff_forall_not_mem.mpr fun st hst => ?_⟩
    obtain ⟨hname,-⟩ := h.others st (by rw [htail]; exact List.mem_append_right _ hst) (hnone st hst)
    rcases hname with ⟨-,hname⟩ | ⟨c,hc,he,-⟩
    · rw [(hextra st hst).2] at hname
      exact absurd hname (by decide)
    · exact (hids c hc).2 (he.symm.trans (hextra st hst).1)
  · rintro ⟨hc,rfl⟩
    rw [List.append_nil] at htail hfilter
    refine ⟨⟨hdr,by rw [hcmds]; rfl,hhdr⟩,?_,?_⟩
    · rw [htail,hfilter]
      exact hc
    intro st hst hno
    rw [htail] at hst
    rw [hown st hst] at hno
    cases hno

/-- When the Statuses of the reply are right, with `s` the session the message enters. -/
structure Call.AcknowledgesFit (c : Call) (cfg : Config) (s : Session) : Prop where
  msgID : c.req.body.alerts ≠ [] → itoa (atoiValue c.req.header.msgID) = c.req.header.msgID
  upload : s.uploadAfter cfg c.req = true →
    s.closedBy cfg c.req = true ∨ AsksForChunk c.req ∧ s.nextChunk ≠ none

instance (c : Call) (cfg : Config) (s : Session) : Decidable (c.AcknowledgesFit cfg s) :=
  decidable_of_iff ((c.req.body.alerts ≠ [] →
      itoa (atoiValue c.req.header.msgID) = c.req.header.msgID) ∧
    (s.uploadAfter cfg c.req = true →
      s.closedBy cfg c.req = true ∨ AsksForChunk c.req ∧ s.nextChunk ≠ none))
    ⟨fun ⟨h₁,h₂⟩ => ⟨h₁,h₂⟩,fun h => ⟨h.msgID,h.upload⟩⟩

/-- A trusted request gets the right Statuses, if and only if its MsgID is
written as the number is or it holds no Alert, and the reply does not ask for
the rest of an upload. -/
theorem acknowledges_iff_fit {cfg : Config} {c : Call} {s : Session} {m : Message}
    (hs : c.entered = some s) (hm : c.message cfg = some m) (ht : c.Trusted cfg) :
    Acknowledges c.req m ↔ c.AcknowledgesFit cfg s := by
  obtain ⟨a,rfl⟩ := Call.accepted_in hs (Call.message_some hm)
  have ho : a.outcome = .trusted := Option.some.inj (a.auth.symm.trans ht)
  obtain ⟨x⟩ := a.answered ho
  have hclient : a.sess.clientMsgID = atoiValue c.req.header.msgID := by
    obtain ⟨b,ty,he⟩ := a.authChange
    rw [he]
    exact a.arrival.clientMsgID
  obtain ⟨added,hcmds,hextra,hnone⟩ := x.isBuilt.statuses
  obtain ⟨hacked,-⟩ := x.acked_reply
  obtain ⟨hcl,hup,hch,-⟩ := x.filed_of_stored a.authChange.resumed
  have hasks : x.filed.AsksForMore c.req ↔ a.arrived.closedBy cfg c.req = false ∧
      a.arrived.uploadAfter cfg c.req = true ∧ (AsksForChunk c.req → a.arrived.nextChunk = none) := by
    unfold Session.AsksForMore
    rw [hcl,hup,hch]
  have hm' : m.body.commands = .status (Syncml.statusForHeader c.req (itoa 1) Syncml.statusOK) ::
      ((ackStatuses c.req a.sess 1 c.req.body.commands).map Syncml.Command.status ++ added) := by
    refine (congrArg (fun m : Message => m.body.commands) x.finished.message).trans (hcmds.trans ?_)
    change x.acked.resp.body.commands ++ added = _
    rw [hacked]
    rfl
  have hrest : ((ackStatuses c.req a.sess 1 c.req.body.commands).map Syncml.Command.status ++
      added).filterMap Syncml.Command.status? = ackStatuses c.req a.sess 1 c.req.body.commands ++
        added.filterMap Syncml.Command.status? := by
    rw [List.filterMap_append,List.filterMap_map]
    congr 1
    exact List.filterMap_some
  rw [acknowledges_iff a.valid hm' ⟨rfl,rfl,rfl⟩ hrest (ackStatuses_refs c.req a.sess 1 _) hextra,
    hnone,hclient]
  change _ ∧ ¬x.filed.AsksForMore c.req ↔ _
  rw [hasks]
  constructor
  · rintro ⟨hid,hno⟩
    refine ⟨hid,fun hu => ?_⟩
    by_contra hn
    rw [not_or] at hn
    exact hno ⟨by simpa using hn.1,hu,fun hask => by_contra fun hne => hn.2 ⟨hask,hne⟩⟩
  · rintro ⟨hid,hu⟩
    refine ⟨hid,?_⟩
    rintro ⟨hc,hup,hn⟩
    rcases hu hup with hc' | ⟨hask,hne⟩
    · simp [hc] at hc'
    · exact hne (hn hask)

namespace Sample

def policyCall : Call where
  before := policyWorld
  env := env
  transport := some transport
  req := packageOne

def paddedCall : Call :=
  { policyCall with req := { packageOne with header := { packageOne.header with msgID := "01" } } }

end Sample

/-- Package 1 and the setting: the Alert and the Replace get their Statuses. -/
theorem acknowledges_iff_fit_policy : ∃ m, Sample.policyCall.message Sample.cfg = some m ∧
    Sample.policyCall.Trusted Sample.cfg ∧ Acknowledges Sample.policyCall.req m := by
  have htrusted : Sample.policyCall.Trusted Sample.cfg := by decide +kernel
  obtain ⟨m,hm,s,hs,hfit⟩ : ∃ m, Sample.policyCall.message Sample.cfg = some m ∧
      ∃ s, Sample.policyCall.entered = some s ∧ Sample.policyCall.AcknowledgesFit Sample.cfg s := by
    decide +kernel
  exact ⟨m,hm,htrusted,(acknowledges_iff_fit hs hm htrusted).mpr hfit⟩

/-- The Status on the Alert of message "01" refers to message "1". -/
theorem alert_status_misquotes_msgID : ∃ m, Sample.paddedCall.message Sample.cfg = some m ∧
    Sample.paddedCall.Trusted Sample.cfg ∧ ¬Acknowledges Sample.paddedCall.req m := by
  have htrusted : Sample.paddedCall.Trusted Sample.cfg := by decide +kernel
  obtain ⟨m,hm,st,hst,hne⟩ : ∃ m, Sample.paddedCall.message Sample.cfg = some m ∧
      ∃ st ∈ m.body.statuses.tail.filter (Message.refersTo Sample.paddedCall.req),
        st.msgRef ≠ Sample.paddedCall.req.header.msgID := by decide +kernel
  exact ⟨m,hm,htrusted,fun h => hne (h.msgRef st hst)⟩

end MicrosoftDM.Mdm
