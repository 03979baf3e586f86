import MicrosoftDM.ReplyShape

set_option autoImplicit false

namespace MicrosoftDM.Syncml

/-- Where `e'` writes, `e` writes too, and `e'` at most `k` bytes more. -/
def Longer (k : Nat) (e e' : Except EncodeError GoString) : Prop :=
  ∀ b', e' = .ok b' → ∃ b, e = .ok b ∧ b.length ≤ b'.length ∧ b'.length ≤ b.length+k

section Longer
variable {ind : GoString} {d k ks : Nat} {c c' : Command} {cs cs' : List Command}
  {e e' : Except EncodeError GoString}

theorem Longer.refl (e : Except EncodeError GoString) : Longer 0 e e :=
  fun b h => ⟨b,h,Nat.le_refl _,Nat.le_refl _⟩

theorem Longer.mono (h : Longer k e e') (hk : k ≤ ks) : Longer ks e e' := by
  intro b' hb'
  obtain ⟨b,hb,hle,hge⟩ := h b' hb'
  exact ⟨b,hb,hle,by omega⟩

theorem Longer.bind {f f' : GoString → GoString} (h : Longer k e e')
    (hf : ∀ b b', b.length ≤ b'.length → b'.length ≤ b.length+k →
      (f b).length ≤ (f' b').length ∧ (f' b').length ≤ (f b).length+ks) :
    Longer ks (e >>= fun b => pure (f b)) (e' >>= fun b => pure (f' b)) := by
  intro x' hx'
  cases he : e' with
  | error err =>
    rw [he] at hx'
    cases hx'
  | ok b' =>
    obtain ⟨b,hb,hle,hge⟩ := h b' he
    rw [he] at hx'
    cases hx'
    exact ⟨f b,by rw [hb]; rfl,hf b b' hle hge⟩

end Longer

end MicrosoftDM.Syncml

namespace MicrosoftDM.Mdm
open MicrosoftDM.Syncml (Item Status Message Longer writeCommand writeCommands escapeText)

section Numbers
variable {ind : GoString} {d base k len : Nat} {cs cs' : List Syncml.Command}

def unnumbered : Syncml.Command → Syncml.Command
  | .group k _ n m cs => .group k [] n m (cs.map (assignID []))
  | c => assignID [] c

/-- Every number up to `n` is written with at most `k` digits. -/
def DigitsWithin (n k : Nat) : Prop := ∀ j : Nat, j ≤ n → (escapeText (itoa j)).length ≤ k

theorem DigitsWithin.mono {n n' k : Nat} (h : DigitsWithin n k) (hn : n' ≤ n) : DigitsWithin n' k :=
  fun j hj => h j (Nat.le_trans hj hn)

end Numbers

/-- The reads that are queued before the delivery, and what the queue holds before them. -/
def Call.waiting (c : Call) (cfg : Config) (s : Session) : List (Scope × Syncml.Command) :=
  ((c.before.queue.commands s.deviceID).filter QueuedCommand.deliverable).map QueuedCommand.scoped ++
    if Syncml.isPackageOne c.req ∧ s.gotPackageOne = false then engineReads cfg s c.before.queue else []

/-- The bodies that the loop is offered: of the first 256 the ones that the scope lets through. -/
def Call.bodies (c : Call) (cfg : Config) (s : Session) : List Syncml.Command :=
  (((c.waiting cfg s).take 256).filter fun x => scopeAllows (s.factsAfter c.req) x.1).map Prod.snd

def Call.acks (c : Call) (s : Session) : List Syncml.Command :=
  .status (Syncml.statusForHeader c.req (itoa 1) Syncml.statusOK) ::
    (ackStatuses c.req s 1 c.req.body.commands).map Syncml.Command.status

/-- The bodies that the budget lets out, with 128 bytes for each Status taken from it. -/
def Call.cut (c : Call) (cfg : Config) (s : Session) : List Syncml.Command :=
  budgetCut s.maxObjSize false (cfg.maxMessageBytes-(c.acks s).length*128) (c.bodies cfg s)

def Session.Fits (s : Session) (cfg : Config) (n : Nat) : Prop :=
  (n : Int) ≤ cfg.maxMessageBytes ∧ (0 < s.maxMsgSize → (n : Int) ≤ s.maxMsgSize)

instance (s : Session) (cfg : Config) (n : Nat) : Decidable (s.Fits cfg n) :=
  inferInstanceAs (Decidable (_ ∧ (_ → _)))

theorem Session.Fits.mono {s : Session} {cfg : Config} {n n' : Nat} (h : s.Fits cfg n) (hn : n' ≤ n) :
    s.Fits cfg n' :=
  ⟨Int.le_trans (Int.ofNat_le.mpr hn) h.1,fun hpos => Int.le_trans (Int.ofNat_le.mpr hn) (h.2 hpos)⟩

section Answering
variable {cfg : Config} {req : Message} {s entered s' : Session} {w w' : World}
  {reply : Option Message}

theorem Answered.readsFor (a : Answered cfg req entered w s' w' reply) (hr : s.Resumed entered)
    (hc : a.filed.closed = false) :
    (fileStatuses a.acked.sess req.body.statuses).readsFor cfg req w.queue =
      if Syncml.isPackageOne req ∧ s.gotPackageOne = false then engineReads cfg s w.queue else [] := by
  have hf := fileStatuses_filing a.acked.sess req.body.statuses
  have hgot : (fileStatuses a.acked.sess req.body.statuses).gotPackageOne = s.gotPackageOne := by
    rw [hf.gotPackageOne,a.taking.gotPackageOne,hr.gotPackageOne]
  have hclosed : (fileStatuses a.acked.sess req.body.statuses).closed = false := by
    rw [hf.closed,← a.filedBy.closed]
    exact hc
  have hdev : (fileStatuses a.acked.sess req.body.statuses).deviceID = s.deviceID := by
    rw [(fileStatuses_steady a.acked.sess req.body.statuses).deviceID,a.acked_deviceID,hr.deviceID]
  unfold Session.readsFor engineReads internalID
  rw [hgot,hclosed,hdev]
  simp

theorem Queue.ReadsOf.deliverable {q q' : Queue} {dev : GoString}
    {reads : List (Scope × Syncml.Command)} (h : q.ReadsOf dev reads q') :
    (q'.deliverable dev 256).map QueuedCommand.scoped =
      (((q.commands dev).filter QueuedCommand.deliverable).map QueuedCommand.scoped ++ reads).take 256 := by
  obtain ⟨new,he,hs,hd⟩ := h.added
  unfold Queue.deliverable
  rw [if_pos (by decide),he,List.filter_append,List.filter_eq_self.mpr hd,List.map_take,List.map_append,hs]
  rfl

theorem Answered.bodies {c : Call} (a : Answered cfg c.req entered w s' w' reply)
    (hr : s.Resumed entered) (hq : w.queue = c.before.queue) (hc : a.filed.closed = false) :
    ((admitted a.filed.facts (a.reads.deliverable a.filed.deviceID 256)).map fun qc => qc.command.body) =
      c.bodies cfg s := by
  obtain ⟨-,-,-,hgate⟩ := a.filed_of_stored hr
  have hdev : a.filed.deviceID = s.deviceID := a.filed_deviceID.trans hr.deviceID
  have hgrows := a.grows
  rw [a.readsFor hr hc,a.acked_deviceID,hr.deviceID,hq] at hgrows
  unfold Call.bodies Call.waiting
  rw [hgate.admitted,hdev,← hgrows.deliverable,List.filter_map,List.map_map]
  rfl

end Answering

namespace Sample

end Sample

set_option maxRecDepth 4000

end MicrosoftDM.Mdm
