import MicrosoftDM.SyncMLEncode
import MicrosoftDM.Session

/-!
Putting queued commands into a reply (mdmprotocol/mdm/deliver.go, build.go):
the scope gate, chunking of a large item, CmdIDs, and the delivery loop.
-/

set_option autoImplicit false

namespace MicrosoftDM.Mdm
open MicrosoftDM.Syncml (Item Message splitItem)

/-- The variables of one `Handle` call once the session is found: the session
it works on, the reply, the counter of `CmdIDs`, and whether a chunk was taken
from an object the stored session also points to. -/
structure Work where
  sess : Session
  resp : Message
  ids : Nat := 0
  popped : Bool := false

def Work.reply (w : Work) (c : GoString → Syncml.Command) : Work :=
  { w with
    ids := w.ids+1
    resp := { w.resp with body :=
      { w.resp.body with commands := w.resp.body.commands ++ [c (itoa (w.ids+1))] } } }

def Work.setFinal (w : Work) (final : Bool) : Work :=
  { w with resp := { w.resp with body := { w.resp.body with final := final } } }

def syncTypeDevice : GoString := "device"

def scopeAllows (facts : Facts) (sc : Scope) : Bool :=
  if facts.syncType = Syncml.loginStatusUser ∧ sc ≠ .user then false
  else if facts.syncType = syncTypeDevice ∧ sc ≠ .device then false
  else if sc = .user then facts.loginStatus = Syncml.loginStatusUser
  else true

def assignID (id : GoString) : Syncml.Command → Syncml.Command
  | .leaf v b => .leaf v { b with cmdID := id }
  | .group k _ n m cs => .group k id n m cs
  | c => c

def setItems (items : List Item) : Syncml.Command → Syncml.Command
  | .leaf v b => .leaf v { b with items := items }
  | c => c

def mapMembers (msgID parentID : GoString) :
    Nat → List Syncml.Command → GoMap GoString → List Syncml.Command × GoMap GoString
  | _, [], children => ([],children)
  | next, m :: ms, children =>
    let cid := itoa (next+1 : Nat)
    let r := mapMembers msgID parentID (next+1) ms (children.insert (joinSlash msgID cid) parentID)
    (assignID cid m :: r.1,r.2)

def memberBase (sess : Session) : Nat := sess.sent.size+sess.children.size+1000

def mapChildren (sess : Session) (msgID parentID : GoString) :
    Syncml.Command → Syncml.Command × Session
  | .group k i n m cs =>
    let r := mapMembers msgID parentID (memberBase sess) cs sess.children
    (.group k i n m r.1,{ sess with children := r.2 })
  | c => (c,sess)

def commandSize (c : Syncml.Command) : Nat :=
  match Syncml.encodeCommand [] c with
  | .ok b => b.length
  | .error _ => 0

def itemTooLarge (limit : Int) (it : Item) : Bool :=
  match it.data with
  | some d => decide ((d.value.length : Int) > limit)
  | none => false

def prepare (maxObjSize : Int) (body : Syncml.Command) : Syncml.Command × List Item :=
  if maxObjSize ≤ 0 then (body,[])
  else
    match itemsOf body with
    | [it] =>
      if itemTooLarge maxObjSize it then
        match splitItem it maxObjSize with
        | .ok (first :: next :: rest) => (setItems [first] body,next :: rest)
        | _ => (body,[])
      else (body,[])
    | _ => (body,[])

theorem prepare_cases (n : Int) (body : Syncml.Command) :
    prepare n body = (body,[]) ∨
    ∃ v b it first next rest, body = .leaf v b ∧ b.items = [it] ∧
      splitItem it n = .ok (first :: next :: rest) ∧
      prepare n body = (.leaf v { b with items := [first] },next :: rest) := by
  unfold prepare
  split
  · exact .inl rfl
  split
  · rename_i it hit
    split
    · split
      · rename_i first next rest hs
        cases body with
        | leaf v b => exact .inr ⟨v,b,it,first,next,rest,rfl,hit,hs,rfl⟩
        | group _ _ _ _ _ | alert _ | status _ | results _ => cases hit
      · exact .inl rfl
    · exact .inl rfl
  · exact .inl rfl

def Work.bodyFor (w : Work) (qc : QueuedCommand) : Syncml.Command :=
  assignID (itoa (w.ids+1)) (prepare w.sess.maxObjSize qc.command.body).1

def Work.sentKey (w : Work) : GoString :=
  joinSlash (itoa (atoiValue w.resp.header.msgID)) (itoa (w.ids+1))

def Work.send (w : Work) (qc : QueuedCommand) : Work :=
  let sess := { w.sess with sent := w.sess.sent.insert w.sentKey qc.id }
  let (body,sess) := mapChildren sess w.resp.header.msgID qc.id (w.bodyFor qc)
  let chunks := (prepare w.sess.maxObjSize qc.command.body).2
  let sess := if chunks = [] then sess
    else { sess with outgoing := some { commandID := qc.id, chunks := chunks, name := body.name } }
  { w with sess := sess }.reply fun _ => body

def deliverLoop : Work → Int → List GoString → List QueuedCommand → Work × List GoString
  | w, _, sent, [] => (w,sent)
  | w, budget, sent, qc :: rest =>
    if scopeAllows w.sess.facts qc.command.scope = false then deliverLoop w budget sent rest
    else if budget ≤ 0 ∧ sent ≠ [] then (w,sent)
    else
      let (body,chunks) := prepare w.sess.maxObjSize qc.command.body
      if chunks = [] then
        deliverLoop (w.send qc) (budget-commandSize body) (sent ++ [qc.id]) rest
      else (w.send qc,sent ++ [qc.id])

@[simp] theorem Work.reply_ids (w : Work) (c : GoString → Syncml.Command) :
    (w.reply c).ids = w.ids+1 := rfl

@[simp] theorem Work.reply_commands (w : Work) (c : GoString → Syncml.Command) :
    (w.reply c).resp.body.commands = w.resp.body.commands ++ [c (itoa (w.ids+1))] := rfl

@[simp] theorem Work.setFinal_commands (w : Work) (b : Bool) :
    (w.setFinal b).resp.body.commands = w.resp.body.commands := rfl

/-- What sending a command leaves alone in the session. -/
structure Session.Sending (s s' : Session) : Prop where
  steady : s.Steady s'
  facts : s'.facts = s.facts
  closed : s'.closed = s.closed
  unenroll : s'.unenroll = s.unenroll
  gotPackageOne : s'.gotPackageOne = s.gotPackageOne
  assembler : s'.assembler = s.assembler
  assemblingCommand : s'.assemblingCommand = s.assemblingCommand
  results : s'.results = s.results

theorem Session.Sending.refl (s : Session) : s.Sending s :=
  ⟨.refl s,rfl,rfl,rfl,rfl,rfl,rfl,rfl⟩

theorem Session.Sending.trans {s₁ s₂ s₃ : Session} (h₁ : s₁.Sending s₂) (h₂ : s₂.Sending s₃) :
    s₁.Sending s₃ where
  steady := h₁.steady.trans h₂.steady
  facts := h₂.facts.trans h₁.facts
  closed := h₂.closed.trans h₁.closed
  unenroll := h₂.unenroll.trans h₁.unenroll
  gotPackageOne := h₂.gotPackageOne.trans h₁.gotPackageOne
  assembler := h₂.assembler.trans h₁.assembler
  assemblingCommand := h₂.assemblingCommand.trans h₁.assemblingCommand
  results := h₂.results.trans h₁.results

theorem Work.send_sess (w : Work) (qc : QueuedCommand) :
    (w.send qc).sess =
      { w.sess with
        sent := w.sess.sent.insert w.sentKey qc.id
        children := (mapChildren { w.sess with sent := w.sess.sent.insert w.sentKey qc.id }
          w.resp.header.msgID qc.id (w.bodyFor qc)).2.children
        outgoing := if (prepare w.sess.maxObjSize qc.command.body).2 = [] then w.sess.outgoing
          else some {
            commandID := qc.id, chunks := (prepare w.sess.maxObjSize qc.command.body).2,
            name := (mapChildren { w.sess with sent := w.sess.sent.insert w.sentKey qc.id }
              w.resp.header.msgID qc.id (w.bodyFor qc)).1.name } } := by
  unfold Work.send
  dsimp only
  cases hb : w.bodyFor qc <;> simp only [mapChildren,Work.reply] <;> split <;> rfl

theorem Work.send_sending (w : Work) (qc : QueuedCommand) : w.sess.Sending (w.send qc).sess := by
  rw [Work.send_sess]
  refine ⟨?_,rfl,rfl,rfl,rfl,rfl,rfl,rfl⟩
  constructor <;> rfl

@[simp] theorem Work.send_header (w : Work) (qc : QueuedCommand) :
    (w.send qc).resp.header = w.resp.header := rfl

@[simp] theorem Work.send_ids (w : Work) (qc : QueuedCommand) : (w.send qc).ids = w.ids+1 := rfl

theorem Work.send_commands (w : Work) (qc : QueuedCommand) :
    (w.send qc).resp.body.commands = w.resp.body.commands ++
      [(mapChildren { w.sess with sent := w.sess.sent.insert w.sentKey qc.id }
        w.resp.header.msgID qc.id (w.bodyFor qc)).1] := rfl

def admitted (facts : Facts) (cmds : List QueuedCommand) : List QueuedCommand :=
  cmds.filter fun qc => scopeAllows facts qc.command.scope

def QueuedCommand.chunked (qc : QueuedCommand) (maxObjSize : Int) : Bool :=
  !(prepare maxObjSize qc.command.body).2.isEmpty

def QueuedCommand.firstBody (qc : QueuedCommand) (maxObjSize : Int) : Syncml.Command :=
  (prepare maxObjSize qc.command.body).1

/-- What goes out of the bodies `b :: bs` with `budget` bytes to go. The budget is tested before a
command is taken from it, and the test does not hold for the first; a chunked command is the last. -/
def budgetCut (maxObjSize : Int) : Bool → Int → List Syncml.Command → List Syncml.Command
  | _, _, [] => []
  | started, budget, b :: bs =>
    if budget ≤ 0 ∧ started = true then []
    else if (prepare maxObjSize b).2 = [] then
      (prepare maxObjSize b).1 ::
        budgetCut maxObjSize true (budget-commandSize (prepare maxObjSize b).1) bs
    else [(prepare maxObjSize b).1]

theorem budgetCut_ne_nil {n budget : Int} {bs : List Syncml.Command} (h : bs ≠ []) :
    budgetCut n false budget bs ≠ [] := by
  cases bs with
  | nil => exact absurd rfl h
  | cons b bs =>
    simp only [budgetCut]
    split
    · rename_i hb
      cases hb.2
    · split <;> simp

/-- `through` is what the loop delivers: an initial segment of the admitted
commands in which only the last may be chunked. -/
structure Delivered (sess : Session) (cmds through : List QueuedCommand) : Prop where
  initial : through <+: admitted sess.facts cmds
  unchunked : ∀ qc ∈ through.dropLast, qc.chunked sess.maxObjSize = false

theorem Delivered.nil (sess : Session) (cmds : List QueuedCommand) : Delivered sess cmds [] :=
  ⟨List.nil_prefix,by simp⟩

theorem deliverLoop_eq (w : Work) (budget : Int) (sent : List GoString) (cmds : List QueuedCommand) :
    ∃ through, Delivered w.sess cmds through ∧
      deliverLoop w budget sent cmds =
        (through.foldl Work.send w,sent ++ through.map QueuedCommand.id) ∧
      through.map (·.firstBody w.sess.maxObjSize) = budgetCut w.sess.maxObjSize (decide (sent ≠ [])) budget
        ((admitted w.sess.facts cmds).map fun qc => qc.command.body) := by
  induction cmds generalizing w budget sent with
  | nil => exact ⟨[],.nil _ _,by simp [deliverLoop],rfl⟩
  | cons qc rest ih =>
    simp only [deliverLoop]
    split
    · rename_i ha
      obtain ⟨through,hd,he,hcut⟩ := ih w budget sent
      have hf : admitted w.sess.facts (qc :: rest) = admitted w.sess.facts rest := by
        simp [admitted,ha]
      exact ⟨through,⟨by rw [hf]; exact hd.initial,hd.unchunked⟩,he,by rw [hf]; exact hcut⟩
    · rename_i ha
      have hf : admitted w.sess.facts (qc :: rest) = qc :: admitted w.sess.facts rest := by
        simp only [admitted]
        exact List.filter_cons_of_pos (by simpa using ha)
      rw [hf,List.map_cons,budgetCut]
      simp only [decide_eq_true_eq]
      split
      · exact ⟨[],.nil _ _,by simp,rfl⟩
      split
      · rename_i hc
        obtain ⟨through,hd,he,hcut⟩ := ih (w.send qc) (budget-commandSize
          (prepare w.sess.maxObjSize qc.command.body).1) (sent ++ [qc.id])
        have hs := w.send_sending qc
        rw [hs.steady.maxObjSize,hs.facts] at hcut
        refine ⟨qc :: through,⟨?_,?_⟩,by rw [he]; simp,?_⟩
        · rw [hf,List.cons_prefix_cons]
          exact ⟨rfl,by simpa [hs.facts] using hd.initial⟩
        · intro x hx
          cases through with
          | nil => simp at hx
          | cons y ys =>
            rw [List.dropLast_cons_of_ne_nil (by simp)] at hx
            rcases List.mem_cons.mp hx with hx | hx
            · subst hx; simp [QueuedCommand.chunked,hc]
            · simpa [hs.steady.maxObjSize] using hd.unchunked x hx
        · rw [List.map_cons,hcut]
          simp [QueuedCommand.firstBody]
      · exact ⟨[qc],⟨by rw [hf]; simp,by simp⟩,by simp,rfl⟩

theorem foldl_send_sending (w : Work) (through : List QueuedCommand) :
    w.sess.Sending (through.foldl Work.send w).sess := by
  induction through generalizing w with
  | nil => exact .refl _
  | cons qc rest ih => exact (w.send_sending qc).trans (ih (w.send qc))

@[simp] theorem foldl_send_header (w : Work) (through : List QueuedCommand) :
    (through.foldl Work.send w).resp.header = w.resp.header := by
  induction through generalizing w with
  | nil => rfl
  | cons qc rest ih => simpa using ih (w.send qc)

def Work.askForMore (w : Work) : Work :=
  ((w.reply fun id => .status
      { cmdID := id, msgRef := itoa w.sess.clientMsgID, cmdRef := "0", cmd := Syncml.cmdResults,
        data := { value := itoa Syncml.statusChunkedItemAccepted } }).reply fun id => .alert
      { cmdID := id, data := itoa Syncml.alertNextMessage }).setFinal false

def Session.nextChunk (sess : Session) : Option (Outgoing × Item × List Item) :=
  match sess.outgoing with
  | some o =>
    match o.chunks with
    | next :: rest => some (o,next,rest)
    | [] => none
  | none => none

theorem Session.nextChunk_outgoing {sess : Session} {o : Outgoing} {next : Item} {rest : List Item}
    (h : sess.nextChunk = some (o,next,rest)) :
    sess.outgoing = some o ∧ o.chunks = next :: rest := by
  unfold nextChunk at h
  cases ho : sess.outgoing with
  | none => simp [ho] at h
  | some x =>
    rw [ho] at h
    dsimp only at h
    cases hc : x.chunks with
    | nil => simp [hc] at h
    | cons y ys =>
      rw [hc] at h
      cases h
      exact ⟨rfl,hc⟩

def Work.sendChunk (w : Work) (o : Outgoing) (next : Item) (rest : List Item) : Work :=
  let key := joinSlash w.resp.header.msgID (itoa (w.ids+1))
  let outgoing := if rest = [] then none else some { o with chunks := rest }
  let w : Work :=
    { w with
      sess := { w.sess with sent := w.sess.sent.insert key o.commandID, outgoing := outgoing }
      popped := true }
  let w := w.reply fun id => .leaf .replace { cmdID := id, items := [next] }
  if rest = [] then w.setFinal true else w

end MicrosoftDM.Mdm
