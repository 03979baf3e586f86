import MicrosoftDM.CallDiscipline
import MicrosoftDM.ReplyShape

set_option autoImplicit false

namespace MicrosoftDM.Syncml

def Command.items : Command → List Item
  | .leaf _ b => b.items
  | .group _ _ _ _ _ => []
  | .alert a => a.items
  | .status s => s.items
  | .results r => r.items

def allItems (cs : List Command) : List Item := (walkAll cs).flatMap Command.items

theorem allItems_append (cs ds : List Command) : allItems (cs ++ ds) = allItems cs ++ allItems ds := by
  simp [allItems,walkAll_eq_flatMap]

theorem allItems_cons (c : Command) (cs : List Command) :
    allItems (c :: cs) = allItems [c] ++ allItems cs := allItems_append [c] cs

theorem allItems_group (k : GroupKind) (i : GoString) (n : Bool) (m : Option Meta)
    (cs : List Command) : allItems [.group k i n m cs] = allItems cs := by
  simp [allItems,walkAll,Command.walk,Command.items]

end MicrosoftDM.Syncml

namespace MicrosoftDM.Mdm
open MicrosoftDM.Syncml (Item Message allItems allItems_append allItems_cons allItems_group)

theorem allItems_assignID (id : GoString) (c : Syncml.Command) :
    allItems [assignID id c] = allItems [c] := by
  cases c with
  | group k i n m cs => rw [assignID,allItems_group,allItems_group]
  | leaf _ _ | alert _ | status _ | results _ => rfl

theorem allItems_numberFrom (n : Nat) (cs : List Syncml.Command) :
    allItems (numberFrom n cs) = allItems cs := by
  induction cs generalizing n with
  | nil => rfl
  | cons c cs ih => rw [numberFrom,allItems_cons,allItems_assignID,ih,← allItems_cons]

theorem allItems_mapChildren (sess : Session) (msgID id : GoString) (c : Syncml.Command) :
    allItems [(mapChildren sess msgID id c).1] = allItems [c] := by
  cases c with
  | group k i n m cs =>
    rw [mapChildren,allItems_group,mapMembers_fst,allItems_numberFrom,allItems_group]
  | leaf _ _ | alert _ | status _ | results _ => rfl

/-- The chunks that a delivery of the command leaves for later. -/
def QueuedCommand.chunksLeft (qc : QueuedCommand) (maxObjSize : Int) : List Item :=
  (prepare maxObjSize qc.command.body).2

/-- The items that a delivery of the command puts in replies: those of the
body and the chunks that follow it. -/
def QueuedCommand.pieces (qc : QueuedCommand) (maxObjSize : Int) : List Item :=
  allItems [(prepare maxObjSize qc.command.body).1] ++ qc.chunksLeft maxObjSize

/- The items at any depth are those of the leaves. -/
mutual
theorem allItems_leaves (c : Syncml.Command) :
    allItems [c] = (leaves c).flatMap Syncml.Command.items := by
  cases c with
  | group k i n m cs =>
    rw [allItems_group]
    exact allItems_leavesAll cs
  | leaf _ _ | alert _ | status _ | results _ => rfl

theorem allItems_leavesAll (cs : List Syncml.Command) :
    allItems cs = (leavesAll cs).flatMap Syncml.Command.items := by
  cases cs with
  | nil => rfl
  | cons c cs =>
    rw [allItems_cons,allItems_leaves c,allItems_leavesAll cs,leavesAll,List.flatMap_append]
end

theorem QueuedCommand.pieces_cases (qc : QueuedCommand) (n : Int) :
    qc.pieces n = allItems [qc.command.body] ∨
    ∃ it first next rest, allItems [qc.command.body] = [it] ∧
      Syncml.splitItem it n = .ok (first :: next :: rest) ∧ qc.pieces n = first :: next :: rest := by
  unfold pieces chunksLeft
  rcases prepare_cases n qc.command.body with h | ⟨v,b,it,first,next,rest,hb,hi,hs,h⟩
  · rw [h]
    exact .inl (List.append_nil _)
  refine .inr ⟨it,first,next,rest,?_,hs,?_⟩
  · rw [hb]
    exact (List.append_nil _).trans hi
  · rw [h]
    rfl

theorem mem_allItems_sentBodies {w : Work} {through : List QueuedCommand} {it : Item}
    (h : it ∈ allItems (sentBodies w through)) :
    ∃ qc ∈ through, it ∈ qc.pieces w.sess.maxObjSize := by
  induction through generalizing w with
  | nil => cases h
  | cons qc rest ih =>
    rw [sentBodies,allItems_cons] at h
    rcases List.mem_append.mp h with h | h
    · rw [Work.sentBody,allItems_mapChildren,Work.bodyFor,allItems_assignID] at h
      exact ⟨qc,List.mem_cons_self,List.mem_append_left _ h⟩
    obtain ⟨x,hx,hi⟩ := ih h
    rw [(w.send_sending qc).steady.maxObjSize] at hi
    exact ⟨x,List.mem_cons_of_mem qc hx,hi⟩

/-- An item of the object in flight, or one among the `pieces` of a command that may go out. -/
def ItemFrom (pieces : QueuedCommand → List Item) (s : Session) (q : Queue) (it : Item) : Prop :=
  (∃ o, s.outgoing = some o ∧ it ∈ o.chunks) ∨
  ∃ qc ∈ admitted s.facts (q.deliverable s.deviceID 256), it ∈ pieces qc


theorem ItemFrom.mono {P Q : QueuedCommand → List Item} {s : Session} {q : Queue} {it : Item}
    (h : ItemFrom P s q it) (hPQ : ∀ qc, it ∈ P qc → it ∈ Q qc) : ItemFrom Q s q it :=
  h.imp_right fun ⟨qc,hqc,hit⟩ => ⟨qc,hqc,hPQ qc hit⟩

section Building
variable {cfg : Config} {req : Message} {wk wk' : Work} {q q' : Queue} {it : Item}

theorem Built.items (hb : Built cfg req wk q wk' q')
    (h : it ∈ allItems wk'.resp.body.commands) :
    it ∈ allItems wk.resp.body.commands ∨ ItemFrom (·.pieces wk.sess.maxObjSize) wk.sess q it := by
  cases hb with
  | closing hc => exact .inl h
  | upload hc hn hu =>
    rw [Work.askForMore_commands,allItems_append] at h
    rcases List.mem_append.mp h with h | h
    · exact .inl h
    · cases h
  | chunk hc hn ho =>
    rename_i o next rest
    rw [Work.sendChunk_commands,allItems_append] at h
    rcases List.mem_append.mp h with h | h
    · exact .inl h
    obtain ⟨hout,hcs⟩ := Session.nextChunk_outgoing ho
    rw [show allItems [wk.chunkCommand next] = [next] from rfl,List.mem_singleton] at h
    exact .inr (.inl ⟨o,hout,by rw [hcs,h]; exact List.mem_cons_self⟩)
  | deliver hc hn hu hd hall hq =>
    rename_i through
    change it ∈ allItems (through.foldl Work.send wk).resp.body.commands at h
    rw [foldl_send_commands,allItems_append] at h
    rcases List.mem_append.mp h with h | h
    · exact .inl h
    · obtain ⟨qc,hqc,hi⟩ := mem_allItems_sentBodies h
      exact .inr (.inr ⟨qc,hd.initial.subset hqc,hi⟩)

theorem Built.chunks (hb : Built cfg req wk q wk' q') {o : Outgoing}
    (ho : wk'.sess.outgoing = some o) (h : it ∈ o.chunks) :
    ItemFrom (·.chunksLeft wk.sess.maxObjSize) wk.sess q it := by
  cases hb with
  | closing _ | upload _ _ _ => exact .inl ⟨o,ho,h⟩
  | chunk hc hn hx =>
    rename_i x next rest
    rw [(wk.sendChunk_sess x next rest).1] at ho
    split at ho
    · cases ho
    cases ho
    obtain ⟨hout,hcs⟩ := Session.nextChunk_outgoing hx
    exact .inl ⟨x,hout,by rw [hcs]; exact List.mem_cons_of_mem _ h⟩
  | deliver hc hn hu hd hall hq =>
    rcases foldl_send_outgoing ho with ho | ⟨qc,hqc,-,hcs⟩
    · exact .inl ⟨o,ho,h⟩
    · rw [hcs] at h
      exact .inr ⟨qc,hd.initial.subset hqc,h⟩

end Building

section Answering
variable {cfg : Config} {req : Message} {s s' : Session} {w w' : World} {reply : Option Message}

theorem allItems_statuses (sts : List Syncml.Status) (h : ∀ st ∈ sts, st.items = []) :
    allItems (sts.map Syncml.Command.status) = [] := by
  induction sts with
  | nil => rfl
  | cons st sts ih =>
    rw [List.map_cons,allItems_cons,ih fun x hx => h x (List.mem_cons_of_mem st hx)]
    simp [allItems,Syncml.walkAll,Syncml.Command.walk,Syncml.Command.items,h st List.mem_cons_self]

theorem ackStatuses_items (req : Message) (sess : Session) (n : Nat) (cs : List Syncml.Command) :
    ∀ st ∈ ackStatuses req sess n cs, st.items = [] := by
  induction cs generalizing n with
  | nil => intro st h; cases h
  | cons c cs ih =>
    intro st h
    cases c with
    | status _ | results _ => exact ih n st h
    | alert _ | leaf _ _ | group _ _ _ _ _ =>
      rcases List.mem_cons.mp h with rfl | h
      · rfl
      · exact ih _ st h

theorem Answered.acked_items (a : Answered cfg req s w s' w' reply) :
    allItems a.acked.resp.body.commands = [] := by
  rw [a.acked_reply.1,allItems_cons,allItems_statuses _ (ackStatuses_items _ _ _ _)]
  rfl

theorem Answered.items {m : Message} (a : Answered cfg req s w s' w' (some m)) {it : Item}
    (h : it ∈ allItems m.body.commands) :
    ItemFrom (·.pieces a.filed.maxObjSize) a.filed a.reads it := by
  rw [a.finished.message] at h
  rcases a.isBuilt.items h with h | h
  · rw [show (a.acked.setSess _).resp = a.acked.resp from rfl,a.acked_items] at h
    cases h
  · exact h

theorem Answered.chunks (a : Answered cfg req s w s' w' reply) {o : Outgoing} {it : Item}
    (ho : s'.outgoing = some o) (h : it ∈ o.chunks) :
    ItemFrom (·.chunksLeft a.filed.maxObjSize) a.filed a.reads it := by
  obtain ⟨r,he⟩ := a.finished.final
  rw [he] at ho
  exact a.isBuilt.chunks ho h

theorem Challenged.items {outcome : AuthOutcome} {m : Message}
    (c : Challenged cfg req outcome s w s' w' (some m)) : allItems m.body.commands = [] := by
  rw [c.finished.message]
  rfl

theorem Answered.final_facts (a : Answered cfg req s w s' w' reply) :
    s'.facts = s.factsAfter req ∧ s'.maxObjSize = s.maxObjSize ∧
    a.filed.facts = s.factsAfter req ∧ a.filed.maxObjSize = s.maxObjSize := by
  obtain ⟨r,he⟩ := a.finished.final
  have hsend := a.isBuilt.sending.1
  have hfacts : a.filed.facts = s.factsAfter req := by
    rw [a.filedBy.facts]
    unfold Session.factsAfter
    rw [a.taking.facts,a.taking.gotPackageOne]
  have hmax : a.filed.maxObjSize = s.maxObjSize := a.filedFrom.steady.maxObjSize
  refine ⟨?_,?_,hfacts,hmax⟩
  · rw [he]
    exact hsend.facts.trans hfacts
  · rw [he]
    exact hsend.steady.maxObjSize.trans hmax

end Answering

end MicrosoftDM.Mdm
