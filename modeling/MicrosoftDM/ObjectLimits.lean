import MicrosoftDM.DeliveredItems

set_option autoImplicit false

namespace MicrosoftDM.Mdm
open MicrosoftDM.Syncml (Item Message allItems)

def dataLength (it : Item) : Int := (Syncml.textOf it.data).length

/-- The command fits a limit: all of its items do, or it is a single item of
character data that can be cut. -/
def QueuedCommand.FitsLimit (qc : QueuedCommand) (limit : Int) : Prop :=
  (∀ it ∈ allItems [qc.command.body], dataLength it ≤ limit) ∨
  ∃ it ∈ itemsOf qc.command.body, itemsOf qc.command.body = [it] ∧ it.moreData = false ∧
    ∃ d ∈ it.data, d.xml = [] ∧ Syncml.Breakable d.value

instance (qc : QueuedCommand) (limit : Int) : Decidable (qc.FitsLimit limit) :=
  inferInstanceAs (Decidable (_ ∨ _))

variable {n : Int} {body : Syncml.Command} {first it next : Item} {rest : List Item}
  {qc : QueuedCommand}

theorem prepare_split
    (hn : 0 < n) (hi : itemsOf body = [it]) (hl : itemTooLarge n it = true)
    (hs : Syncml.splitItem it n = .ok (first :: next :: rest)) :
    prepare n body = (setItems [first] body,next :: rest) := by
  unfold prepare
  rw [if_neg (by omega),hi]
  dsimp only
  rw [if_pos hl,hs]

theorem dataLength_chunkOf (it : Item) (d : Syncml.Data) (b : Bool) (value : GoString) (more : Bool) :
    dataLength (Syncml.chunkOf it d b value more) = value.length := by
  simp [dataLength,Syncml.chunkOf,Syncml.textOf,Syncml.Data.text]

theorem splitItem_fits
    (h : Syncml.splitItem it n = .ok (first :: next :: rest)) :
    ∀ c ∈ first :: next :: rest, dataLength c ≤ n := by
  obtain ⟨d,hd⟩ := Syncml.splitItem_chunk h
  intro c hc
  obtain ⟨b,value,more,rfl,hv⟩ := hd c hc
  rw [dataLength_chunkOf]
  exact hv

theorem QueuedCommand.chunksLeft_fit (qc : QueuedCommand) (n : Int) :
    ∀ it ∈ qc.chunksLeft n, dataLength it ≤ n := by
  unfold chunksLeft
  rcases prepare_cases n qc.command.body with h | ⟨v,b,x,first,next,rest,-,-,hs,h⟩
  · rw [h]
    intro it hit
    cases hit
  · rw [h]
    exact fun it hit => splitItem_fits hs it (List.mem_cons_of_mem first hit)

theorem allItems_of_itemsOf (h : itemsOf body = [it]) :
    allItems [body] = [it] ∧ ∀ first, allItems [setItems [first] body] = [first] := by
  cases body with
  | leaf v b => exact ⟨(List.append_nil _).trans h,fun first => rfl⟩
  | group _ _ _ _ _ | alert _ | status _ | results _ => cases h

theorem QueuedCommand.FitsLimit.pieces (h : qc.FitsLimit n)
    (hn : 4 ≤ n) : ∀ it ∈ qc.pieces n, dataLength it ≤ n := by
  have hwhole : (∀ it ∈ allItems [qc.command.body], dataLength it ≤ n) →
      ∀ it ∈ qc.pieces n, dataLength it ≤ n := by
    intro hall
    rcases qc.pieces_cases n with he | ⟨x,first,next,rest,-,hs,he⟩
    · rw [he]
      exact hall
    · rw [he]
      exact splitItem_fits hs
  rcases h with h | ⟨x,-,hx,hm,d,hd,hxml,hb⟩
  · exact hwhole h
  obtain ⟨hone,hfirst⟩ := allItems_of_itemsOf hx
  by_cases hl : (d.value.length : Int) ≤ n
  · refine hwhole fun it hit => ?_
    rw [hone,List.mem_singleton] at hit
    rw [hit,dataLength,show x.data = some d from hd]
    simpa [Syncml.textOf,Syncml.Data.text,hxml] using hl
  obtain ⟨first,next,rest,hs⟩ := Syncml.splitItem_cuts hd hxml hm hb hn (by omega)
  have hlarge : itemTooLarge n x = true := by
    rw [itemTooLarge,show x.data = some d from hd]
    exact decide_eq_true (by omega)
  unfold QueuedCommand.pieces chunksLeft
  rw [prepare_split (by omega) hx hlarge hs,hfirst]
  exact splitItem_fits hs

theorem QueuedCommand.IsRead.fitsLimit (h : qc.IsRead) (hn : 0 ≤ n) :
    qc.FitsLimit n := by
  obtain ⟨items,hb,hdata⟩ := h.body
  refine .inl fun it hit => ?_
  rw [hb] at hit
  have hmem : it ∈ items := by simpa [allItems,Syncml.walkAll,Syncml.Command.walk,Syncml.Command.items] using hit
  rw [dataLength,hdata it hmem]
  exact hn

def Session.InLimit (s : Session) : Prop :=
  ∀ o, s.outgoing = some o → ∀ it ∈ o.chunks, dataLength it ≤ s.maxObjSize

theorem inLimit_writtenThrough : WrittenThrough fun _ s => s.InLimit :=
  chunks_writtenThrough fun _ _ _ _ h => h

/-- The client has not lowered its limit under an object in flight, and the commands that may go
out fit it. -/
structure Call.LimitFits (c : Call) (s : Session) : Prop where
  kept : s.outgoing ≠ none → ∀ stored,
    c.before.sessions.lookup (Message.sessionKey c.req) = some stored → stored.maxObjSize ≤ s.maxObjSize
  offered : ∀ qc ∈ c.offered s, qc.FitsLimit s.maxObjSize

instance (c : Call) (s : Session) : Decidable (c.LimitFits s) :=
  decidable_of_iff
    ((s.outgoing.isSome = true → ((c.before.sessions.lookup (Message.sessionKey c.req)).all
        fun stored => decide (stored.maxObjSize ≤ s.maxObjSize)) = true) ∧
      ∀ qc ∈ c.offered s, qc.FitsLimit s.maxObjSize)
    ⟨fun ⟨h₁,h₂⟩ => ⟨fun ho => all_decide_iff.mp (h₁ (Option.isSome_iff_ne_none.mpr ho)),h₂⟩,
      fun h => ⟨fun ho => all_decide_iff.mpr (h.kept (Option.isSome_iff_ne_none.mp ho)),h.offered⟩⟩

section Limit
variable {cfg : Config} {req : Message} {s s' : Session} {w w' : World} {reply : Option Message}

theorem Answered.inLimit (a : Answered cfg req s w s' w' reply) (hs : s.InLimit) : s'.InLimit := by
  obtain ⟨-,hfinal,-,hfiled⟩ := a.final_facts
  intro o ho it hit
  rw [hfinal]
  rcases a.chunks ho hit with ⟨o',ho',hit⟩ | ⟨qc,-,hit⟩
  · rw [a.filedFrom.outgoing] at ho'
    exact hs o' ho' it hit
  · rw [← hfiled]
    exact qc.chunksLeft_fit _ it hit

theorem Challenged.inLimit {outcome : AuthOutcome} (c : Challenged cfg req outcome s w s' w' reply)
    (hs : s.InLimit) : s'.InLimit := by
  obtain ⟨r,he⟩ := c.finished.final
  rw [he]
  exact hs

end Limit

theorem Arrival.inLimit {c : Call} {id : Identity} {w' : World} {s : Session}
    (h : Arrival c.req id c.transport c.before s w') (hw : c.before.Stores fun _ s => s.InLimit)
    (hf : c.LimitFits s) : s.InLimit := by
  intro o ho it hit
  have hkept := hf.kept (by rw [ho]; exact Option.some_ne_none o)
  obtain ⟨base,now,mm,mo,uao,rfl,⟨hs,hk,hm,rfl⟩ | ⟨sessions,start,hs,rfl,hm,hp,rfl⟩⟩ := h.shape
  · exact Int.le_trans (hw _ base hs o ho it hit) (hkept base hs)
  · cases ho

/-- No reply carries data over the client's limit, if it is not lowered under an object in flight
and the commands fit it. -/
theorem replies_in_limit {cfg : Config} {w w' : World} {calls : List Call}
    (hr : Run cfg w calls w') (hw : w.sessions = ∅)
    (hfit : ∀ c ∈ calls, ∀ s, c.entered = some s → c.LimitFits s) {c : Call} (hc : c ∈ calls)
    {m : Message} {s' : Session} (hm : c.message cfg = some m) (hs : (c.out cfg).sess = some s')
    (hlim : 4 ≤ s'.maxObjSize) : ∀ it ∈ allItems m.body.commands, dataLength it ≤ s'.maxObjSize := by
  have hsess : ∀ c ∈ calls, c.before.Stores (fun _ s => s.InLimit) →
      ∀ r : Reached cfg c.env c.transport c.req c.before, r.sess.InLimit := by
    intro c hc hb r
    have harr := r.arrival.inLimit hb (hfit c hc _ r.entered_eq)
    obtain ⟨a,ty,he⟩ := r.authenticated.1
    rw [he]
    exact harr
  have hstores : ∀ c ∈ calls, c.before.Stores fun _ s => s.InLimit := by
    refine hr.stores (World.stores_empty hw) inLimit_writtenThrough fun c hc hb r reply hdone _ => ?_
    rcases hdone.cases with ⟨⟨x⟩⟩ | ⟨⟨x⟩⟩
    · exact x.inLimit (hsess c hc hb r)
    · exact x.inLimit (hsess c hc hb r)
  obtain ⟨r,hdone,hout⟩ := Call.completed (Call.message_some hm)
  have he : s' = r.work.sess := Option.some.inj (hs.symm.trans hout)
  subst he
  intro it hit
  rcases hdone.cases with ⟨⟨x⟩⟩ | ⟨⟨x⟩⟩
  · obtain ⟨-,hfinal,-,hfiled⟩ := x.final_facts
    rw [hfinal] at hlim ⊢
    rcases x.items hit with ⟨o,hout,hit⟩ | ⟨qc,hqc,hit⟩
    · rw [x.filedFrom.outgoing] at hout
      exact hsess c hc (hstores c hc) r o hout it hit
    have hmax : r.sess.maxObjSize = r.arrived.maxObjSize := by
      obtain ⟨a,ty,he⟩ := r.authenticated.1
      rw [he]
    have hlimit : qc.FitsLimit r.sess.maxObjSize := by
      rcases x.offered r.authenticated.1.resumed hqc with hoff | hread
      · rw [r.arrival.queue] at hoff
        rw [hmax]
        exact (hfit c hc _ r.entered_eq).offered qc hoff
      · exact hread.fitsLimit (by omega)
    rw [hfiled] at hit
    exact hlimit.pieces hlim it hit
  · rw [x.items] at hit
    cases hit

namespace Sample

def fourBytePackageOne : Message :=
  { packageOne with header := { packageOne.header with metinf := some { maxObjSize := 4 } } }

def sequencedWorld : World :=
  world [{
    id := "sequence", scope := .device
    body := .group .sequence [] false none
      [.leaf .replace {
        items := [{ target := "./Vendor/MSFT/Policy", data := some { value := "enabled" } }] }] }]

def fourByteCalls (w : World) : List Call :=
  callsOf cfg env (some transport) w [fourBytePackageOne,nextMessage "2" []]

end Sample

set_option maxRecDepth 4000

/-- The setting goes out in two chunks. -/
theorem replies_in_limit_chunks : ∃ c ∈ Sample.fourByteCalls Sample.largeWorld, ∃ m s',
    c.message Sample.cfg = some m ∧ (c.out Sample.cfg).sess = some s' ∧ 4 ≤ s'.maxObjSize ∧
    (allItems m.body.commands).length = 1 ∧
    ∀ it ∈ allItems m.body.commands, dataLength it ≤ s'.maxObjSize := by
  obtain ⟨w',hr⟩ := run_callsOf Sample.cfg Sample.env (some Sample.transport) Sample.largeWorld
    [Sample.fourBytePackageOne,Sample.nextMessage "2" []]
  obtain ⟨c,hc,m,hm,s',hs,hlim,hone⟩ : ∃ c ∈ Sample.fourByteCalls Sample.largeWorld,
      ∃ m, c.message Sample.cfg = some m ∧ ∃ s', (c.out Sample.cfg).sess = some s' ∧
        4 ≤ s'.maxObjSize ∧ (allItems m.body.commands).length = 1 := by decide +kernel
  exact ⟨c,hc,m,s',hm,hs,hlim,hone,
    fun it hit => replies_in_limit hr rfl (by decide +kernel) hc hm hs hlim it hit⟩

/-- The same data in a Sequence goes out in one piece of seven bytes. -/
theorem grouped_data_over_limit :
    (∃ w', Run Sample.cfg Sample.sequencedWorld (Sample.fourByteCalls Sample.sequencedWorld) w') ∧
    Sample.sequencedWorld.sessions = ∅ ∧ ∃ c ∈ Sample.fourByteCalls Sample.sequencedWorld, ∃ m s',
      c.message Sample.cfg = some m ∧ (c.out Sample.cfg).sess = some s' ∧ s'.maxObjSize = 4 ∧
      ∃ it ∈ allItems m.body.commands, dataLength it = 7 := by
  refine ⟨run_callsOf _ _ _ _ _,rfl,?_⟩
  simp only [exists_and_left]
  decide +kernel

end MicrosoftDM.Mdm
