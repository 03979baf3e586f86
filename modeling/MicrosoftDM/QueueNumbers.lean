import MicrosoftDM.DeliveryOrder
import MicrosoftDM.QueueLifecycle
import MicrosoftDM.QueueListing

set_option autoImplicit false

namespace MicrosoftDM.Mdm

section Enqueue
variable {q q' : Queue} {dev d : GoString} {cmd : Command} {time : Time} {qc : QueuedCommand}

structure Queue.Stored (q : Queue) (dev : GoString) (cmd : Command) (time : Time)
    (qc : QueuedCommand) (q' : Queue) : Prop where
  named : qc = { command := { cmd with id := q.storedID cmd }, seq := q.nextSeq dev,
                 state := .pending, enqueuedAt := time }
  own : q'.commands dev = q.commands dev ++ [qc]
  other : ∀ d, d ≠ dev → q'.commands d = q.commands d
  seq : ∀ d, q'.nextSeq d = if d = dev then q.nextSeq dev+1 else q.nextSeq d
  nextID : q'.nextID = (q.countID cmd).nextID

inductive Queue.Enqueued (q : Queue) (dev : GoString) (cmd : Command) (time : Time) :
    Except StoreError QueuedCommand × Queue → Prop where
  | nowhere (h : dev = []) : Enqueued q dev cmd time (.error .notFound,q)
  | invalid {e : CommandError} (hdev : dev ≠ []) (h : validate cmd = some e) :
      Enqueued q dev cmd time (.error (.invalid e),q)
  | conflict (hdev : dev ≠ []) (hv : validate cmd = none)
      (h : q.storedID cmd ∈ (q.commands dev).map QueuedCommand.id) :
      Enqueued q dev cmd time (.error .conflict,q.countID cmd)
  | stored {qc : QueuedCommand} {q' : Queue} (hdev : dev ≠ []) (hv : validate cmd = none)
      (h : q.storedID cmd ∉ (q.commands dev).map QueuedCommand.id)
      (hs : q.Stored dev cmd time qc q') : Enqueued q dev cmd time (.ok qc,q')

@[simp] theorem Queue.nextSeq_countID (q : Queue) (cmd : Command) (dev : GoString) :
    (q.countID cmd).nextSeq dev = q.nextSeq dev := by
  unfold countID
  split <;> rfl

theorem Queue.stored_append
    (hqc : qc = { command := { cmd with id := q.storedID cmd }, seq := q.nextSeq dev,
                  state := .pending, enqueuedAt := time })
    (hid : qc.id ∉ (((q.countID cmd).countSeq dev).commands dev).map QueuedCommand.id)
    (hv : validate qc.command = none ∧ qc.id ≠ []) :
    q.Stored dev cmd time qc (((q.countID cmd).countSeq dev).append dev qc hid hv) where
  named := hqc
  own := by rw [append,commands_setCommands_self,commands_countSeq,commands_countID]
  other d hd := by
    rw [append,commands_setCommands_ne _ _ _ _ hd,commands_countSeq,commands_countID]
  seq d := by
    rw [show (((q.countID cmd).countSeq dev).append dev qc hid hv).nextSeq d =
      ((q.countID cmd).countSeq dev).nextSeq d from rfl]
    rw [nextSeq_countSeq,nextSeq_countID,nextSeq_countID]
  nextID := rfl

theorem Queue.enqueue_cases (q : Queue) (dev : GoString) (cmd : Command) (time : Time) :
    q.Enqueued dev cmd time (q.enqueue dev cmd time) := by
  unfold enqueue
  split
  · rename_i hdev
    exact .nowhere hdev
  rename_i hdev
  split
  · rename_i e hv
    exact .invalid hdev hv
  rename_i hv
  split
  · rename_i hid
    rw [commands_countID] at hid
    exact .conflict hdev hv hid
  · rename_i hid
    exact .stored hdev hv (by rwa [commands_countID] at hid) (Queue.stored_append rfl hid _)

theorem Queue.stored_of_enqueue (h : (q.enqueue dev cmd time).1 = .ok qc) :
    q.Stored dev cmd time qc (q.enqueue dev cmd time).2 := by
  have hc := q.enqueue_cases dev cmd time
  generalize q.enqueue dev cmd time = r at h hc
  cases hc with
  | nowhere | invalid | conflict => cases h
  | stored hdev hv hid hs =>
    cases h
    exact hs

theorem Queue.enqueue_unnamed (hdev : dev ≠ []) (hv : validate cmd = none) (hid : cmd.id = []) :
    (∃ qc, (q.enqueue dev cmd time).1 = .ok qc) ↔
      utf8 "cmd-" ++ itoa (q.nextID+1) ∉ (q.commands dev).map QueuedCommand.id := by
  have hname : q.storedID cmd = utf8 "cmd-" ++ itoa (q.nextID+1) := if_pos hid
  rw [← hname]
  have hc := q.enqueue_cases dev cmd time
  generalize q.enqueue dev cmd time = r at hc
  cases hc with
  | nowhere h => exact absurd h hdev
  | invalid _ h =>
    rw [hv] at h
    cases h
  | conflict _ _ h => exact ⟨fun ⟨_,he⟩ => (nomatch he),fun hn => absurd h hn⟩
  | stored _ _ h hs => exact ⟨fun _ => h,fun _ => ⟨_,rfl⟩⟩

end Enqueue

section Counter
variable {q : Queue} {dev d : GoString}

theorem Queue.nextSeq_markSent (q : Queue) (dev d : GoString) (ds : List Delivery) :
    (q.markSent dev ds).2.nextSeq d = q.nextSeq d := by
  induction ds generalizing q with
  | nil => rfl
  | cons x ds ih =>
    unfold markSent
    split
    · exact ih _
    · rfl

theorem Queue.nextSeq_storeResult (q : Queue) (dev d id : GoString) (r : Result) :
    (q.storeResult dev id r).2.nextSeq d = q.nextSeq d := by
  unfold storeResult
  split <;> rfl

theorem Queue.nextSeq_apply (q : Queue) (d : GoString) (o : QueueOp RangeOrder) :
    q.nextSeq d ≤ (q.apply o).nextSeq d := by
  cases o with
  | enqueue dev cmd time =>
    have hc := q.enqueue_cases dev cmd time
    show q.nextSeq d ≤ (q.enqueue dev cmd time).2.nextSeq d
    generalize q.enqueue dev cmd time = r at hc
    cases hc with
    | nowhere | invalid => exact Nat.le_refl _
    | conflict => exact le_of_eq (q.nextSeq_countID cmd d).symm
    | stored _ _ _ hs =>
      rw [hs.seq]
      split
      · rename_i hd
        subst hd
        exact Nat.le_succ _
      · exact le_refl _
  | deliverable => exact le_refl _
  | markSent dev ds => exact le_of_eq (q.nextSeq_markSent dev d ds).symm
  | storeResult dev id r => exact le_of_eq (q.nextSeq_storeResult dev d id r).symm
  | cancel => exact le_refl _
  | prune before limit r => exact le_of_eq (q.nextSeq_pruneDevices d before limit 0 _).symm

theorem Queue.nextSeq_run (q : Queue) (d : GoString) (ops : List (QueueOp RangeOrder)) :
    q.nextSeq d ≤ (ops.foldl apply q).nextSeq d := by
  induction ops generalizing q with
  | nil => exact le_refl _
  | cons o ops ih => exact le_trans (q.nextSeq_apply d o) (ih (q.apply o))

theorem Queue.seq_lt {cmd cmd' : Command} {time time' : Time} {qc qc' : QueuedCommand}
    {mid : List (QueueOp RangeOrder)} (h : (q.enqueue dev cmd time).1 = .ok qc)
    (h' : ((mid.foldl apply (q.enqueue dev cmd time).2).enqueue dev cmd' time').1 = .ok qc') :
    qc.seq < qc'.seq := by
  have hs := Queue.stored_of_enqueue h
  have hs' := Queue.stored_of_enqueue h'
  have hseq := hs.seq dev
  rw [if_pos rfl] at hseq
  have hle := Queue.nextSeq_run (q.enqueue dev cmd time).2 dev mid
  rw [hseq] at hle
  rw [hs.named,hs'.named]
  exact hle

end Counter

section Order
variable {q : Queue}

theorem Queue.Ordered.apply (h : q.Ordered) (o : QueueOp RangeOrder) : (q.apply o).Ordered := by
  cases o with
  | enqueue dev cmd time => exact h.enqueue dev cmd time
  | deliverable => exact h
  | markSent dev ds => exact h.markSent dev ds
  | storeResult dev id r => exact h.storeResult dev id r
  | cancel dev ids time =>
    exact h.modify dev (QueuedCommand.command_cancel ids time) (QueuedCommand.seq_cancel ids time)
  | prune before limit r => exact h.prune before limit r

theorem Queue.ordered_run (ops : List (QueueOp RangeOrder)) : (ops.foldl apply .empty).Ordered := by
  suffices h : ∀ q : Queue, q.Ordered → (ops.foldl apply q).Ordered by
    exact h .empty fun dev => ⟨List.Pairwise.nil,fun qc hqc => nomatch hqc⟩
  induction ops with
  | nil => exact fun _ h => h
  | cons o ops ih => exact fun q h => ih (q.apply o) (h.apply o)

theorem Queue.Ordered.deliverable (h : q.Ordered) (dev : GoString) (limit : Int) :
    (q.deliverable dev limit).Pairwise fun a b => a.seq < b.seq := by
  have hf := (h dev).1.filter QueuedCommand.deliverable
  unfold Queue.deliverable
  dsimp only
  split
  · exact hf.sublist (List.take_sublist _ _)
  · exact hf

theorem Queue.Ordered.list (h : q.Ordered) {dev : GoString} {query : Query} {p : Paging.Page}
    {r : Paging.PageResult QueuedCommand} (hr : q.list dev query p = some r) :
    r.items.Pairwise fun a b => a.seq < b.seq := by
  unfold Queue.list Paging.page at hr
  split at hr
  · cases hr
  cases hr
  have hf := (h dev).1.filter fun qc =>
    query.keeps qc.state qc.command.internal qc.command.scope
  exact hf.sublist ((List.drop_sublist _ _).trans (List.take_sublist _ _))

end Order

/-- Numbers grow with every accepted command; IDs are distinct, and `Deliverable` and `List`
follow the numbers. A valid command without an ID is accepted unless the generated name is in use.
-/
theorem queue_numbering (ops : List (QueueOp RangeOrder)) :
    (∀ pre mid post dev cmd time cmd' time' qc qc',
      ops = pre ++ .enqueue dev cmd time :: (mid ++ .enqueue dev cmd' time' :: post) →
      ((pre.foldl Queue.apply .empty).enqueue dev cmd time).1 = .ok qc →
      (((pre ++ .enqueue dev cmd time :: mid).foldl Queue.apply .empty).enqueue dev cmd' time').1 =
        .ok qc' → qc.seq < qc'.seq) ∧
    ∀ q dev, q = ops.foldl Queue.apply .empty →
      ((q.commands dev).map QueuedCommand.id).Nodup ∧
      (∀ limit, (q.deliverable dev limit).Pairwise fun a b => a.seq < b.seq) ∧
      (∀ query p r, q.list dev query p = some r → r.items.Pairwise fun a b => a.seq < b.seq) ∧
      ∀ cmd time, dev ≠ [] → validate cmd = none → cmd.id = [] →
        ((∃ qc, (q.enqueue dev cmd time).1 = .ok qc) ↔
          utf8 "cmd-" ++ itoa (q.nextID+1) ∉ (q.commands dev).map QueuedCommand.id) := by
  refine ⟨?_,?_⟩
  · intro pre mid post dev cmd time cmd' time' qc qc' _ h h'
    rw [List.foldl_append,List.foldl_cons] at h'
    exact Queue.seq_lt h h'
  rintro q dev rfl
  have ho := Queue.ordered_run ops
  exact ⟨Queue.distinct _ dev,fun limit => ho.deliverable dev limit,fun query p r hr => ho.list hr,
    fun cmd time hdev hv hid => Queue.enqueue_unnamed hdev hv hid⟩

namespace Sample

def unnamed : Command := { policy with id := [] }

def pruned : List (QueueOp RangeOrder) :=
  [.cancel "dev" ["cmd-1"] 2,.prune 3 0 ⟨id,fun keys => .refl keys⟩]

def twice : List (QueueOp RangeOrder) :=
  .enqueue "dev" unnamed 1 :: (pruned ++ [.enqueue "dev" unnamed 4])

def named : List (QueueOp RangeOrder) := [.enqueue "dev" { policy with id := "cmd-1" } 1]

end Sample

theorem queue_numbering_twice : ∃ qc qc',
    (Queue.empty.enqueue "dev" Sample.unnamed 1).1 = .ok qc ∧
    (((.enqueue "dev" Sample.unnamed 1 :: Sample.pruned).foldl Queue.apply .empty).enqueue "dev"
      Sample.unnamed 4).1 = .ok qc' ∧ qc.seq < qc'.seq ∧
    ∃ qc'', ((Sample.twice.foldl Queue.apply .empty).enqueue "dev" Sample.unnamed 5).1 = .ok qc'' := by
  have hv : validate Sample.unnamed = none := by decide +kernel
  have hfirst : ∃ qc, (Queue.empty.enqueue "dev" Sample.unnamed 1).1 = .ok qc :=
    (Queue.enqueue_unnamed (by decide) hv rfl).mpr (by decide +kernel)
  have hsecond : ∃ qc, (((.enqueue "dev" Sample.unnamed 1 :: Sample.pruned).foldl Queue.apply
      .empty).enqueue "dev" Sample.unnamed 4).1 = .ok qc :=
    (Queue.enqueue_unnamed (by decide) hv rfl).mpr (by decide +kernel)
  obtain ⟨qc,h⟩ := hfirst
  obtain ⟨qc',h'⟩ := hsecond
  obtain ⟨hseq,hrest⟩ := queue_numbering Sample.twice
  refine ⟨qc,qc',h,h',hseq [] Sample.pruned [] _ _ _ _ _ qc qc' rfl h h',?_⟩
  exact ((hrest _ "dev" rfl).2.2.2 Sample.unnamed 5 (by decide) hv rfl).mpr (by decide +kernel)

/-- A caller has named a command "cmd-1": the first command without an ID is refused. -/
theorem unnamed_refused : ∃ (ops : List (QueueOp RangeOrder)) (dev : GoString) (cmd : Command)
    (time : Time), dev ≠ [] ∧ validate cmd = none ∧ cmd.id = [] ∧
    ∀ qc, ((ops.foldl Queue.apply .empty).enqueue dev cmd time).1 ≠ .ok qc := by
  refine ⟨Sample.named,"dev",Sample.unnamed,2,by decide,by decide +kernel,rfl,?_⟩
  intro qc h
  have hfree := (Queue.enqueue_unnamed (by decide) (by decide +kernel) rfl).mp ⟨qc,h⟩
  exact hfree (by decide +kernel)

end MicrosoftDM.Mdm
