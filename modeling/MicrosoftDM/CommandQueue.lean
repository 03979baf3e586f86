import MicrosoftDM.ManagementCommand

/-!
The per-device command queue: the records of mdmprotocol/mdm/queue.go and the in-memory
implementation of storage/inmem/queue.go. A queue carries the facts that every operation keeps.
-/

set_option autoImplicit false

namespace MicrosoftDM

/-- Instants, in nanoseconds. Zero is the zero `time.Time`. -/
abbrev Time := Int

namespace Mdm

inductive State where
  | pending | sent | acknowledged | failed | cancelled
  deriving DecidableEq

def State.terminal : State → Bool
  | .acknowledged | .failed | .cancelled => true
  | .pending | .sent => false

structure ChildResult where
  name : GoString
  target : GoString := []
  status : Syncml.StatusCode
  originalError : GoString
  items : List Syncml.Item := []
  deriving DecidableEq

structure Result where
  status : Syncml.StatusCode
  originalError : GoString
  items : List Syncml.Item
  children : List ChildResult
  receivedAt : Time
  deriving DecidableEq

structure QueuedCommand where
  command : Command
  seq : Nat
  state : State
  enqueuedAt : Time
  lastSentAt : Time := 0
  sentMsgID : GoString := []
  attempts : Nat := 0
  result : Option Result := none
  completedAt : Time := 0

def QueuedCommand.id (qc : QueuedCommand) : GoString := qc.command.id

def QueuedCommand.deliverable (qc : QueuedCommand) : Bool :=
  qc.state == .pending || qc.state == .sent

structure Delivery where
  commandID : GoString
  msgID : GoString
  time : Time
  deriving DecidableEq

/-- `unavailable` is any failure of a backing store. -/
inductive StoreError where
  | notFound | conflict | invalid (e : CommandError) | unavailable
  deriving DecidableEq

structure Queue where
  byDev : GoMap (List QueuedCommand) := ∅
  nextID : Nat := 0
  seq : GoMap Nat := ∅
  distinct : ∀ dev, (((byDev.lookup dev).getD []).map QueuedCommand.id).Nodup
  valid : ∀ dev, ∀ qc ∈ (byDev.lookup dev).getD [], validate qc.command = none ∧ qc.id ≠ []

def Queue.commands (q : Queue) (dev : GoString) : List QueuedCommand := (q.byDev.lookup dev).getD []

def Queue.empty : Queue where
  distinct := by intro dev; simp
  valid := by intro dev qc h; simp at h

def Queue.get (q : Queue) (dev id : GoString) : Option QueuedCommand :=
  (q.commands dev).find? (fun qc => qc.id == id)

def Queue.setCommands (q : Queue) (dev : GoString) (cs : List QueuedCommand)
    (hd : (cs.map QueuedCommand.id).Nodup)
    (hv : ∀ qc ∈ cs, validate qc.command = none ∧ qc.id ≠ []) : Queue where
  byDev := q.byDev.insert dev cs
  nextID := q.nextID
  seq := q.seq
  distinct := by
    intro d
    by_cases h : d = dev
    · subst h; simpa using hd
    · rw [AList.lookup_insert_ne h]; exact q.distinct d
  valid := by
    intro d
    by_cases h : d = dev
    · subst h; simpa using hv
    · rw [AList.lookup_insert_ne h]; exact q.valid d

def Queue.modify (q : Queue) (dev : GoString) (f : QueuedCommand → QueuedCommand)
    (hf : ∀ qc, (f qc).command = qc.command) : Queue :=
  q.setCommands dev ((q.commands dev).map f)
    (by
      have he : QueuedCommand.id ∘ f = QueuedCommand.id := by
        funext qc
        simp [QueuedCommand.id,hf]
      rw [List.map_map,he]
      exact q.distinct dev)
    (by
      intro qc h
      obtain ⟨qc',hm,he⟩ := List.mem_map.mp h
      rw [← he,QueuedCommand.id,hf]
      exact q.valid dev qc' hm)

@[simp] theorem Queue.commands_setCommands_self (q : Queue) (dev : GoString)
    (cs : List QueuedCommand) (hd : (cs.map QueuedCommand.id).Nodup)
    (hv : ∀ qc ∈ cs, validate qc.command = none ∧ qc.id ≠ []) :
    (q.setCommands dev cs hd hv).commands dev = cs := by
  simp [commands,setCommands]

variable {d dev id : GoString} {f g : QueuedCommand → QueuedCommand} {q q' q₁ q₂ q₃ : Queue}
  {qc : QueuedCommand}

theorem Queue.commands_setCommands_ne (q : Queue) (cs : List QueuedCommand)
    (hd : (cs.map QueuedCommand.id).Nodup)
    (hv : ∀ qc ∈ cs, validate qc.command = none ∧ qc.id ≠ []) (h : d ≠ dev) : (q.setCommands dev cs hd hv).commands d = q.commands d := by
  simp [commands,setCommands,AList.lookup_insert_ne h]

@[simp] theorem Queue.commands_modify_self (q : Queue) (dev : GoString)
    (f : QueuedCommand → QueuedCommand) (hf : ∀ qc, (f qc).command = qc.command) :
    (q.modify dev f hf).commands dev = (q.commands dev).map f := by
  simp [modify]

theorem Queue.commands_modify_ne (q : Queue)
    (f : QueuedCommand → QueuedCommand) (hf : ∀ qc, (f qc).command = qc.command) (h : d ≠ dev) :
    (q.modify dev f hf).commands d = q.commands d := by
  simp [modify,Queue.commands_setCommands_ne,h]

def Queue.append (q : Queue) (dev : GoString) (qc : QueuedCommand)
    (hid : qc.id ∉ (q.commands dev).map QueuedCommand.id)
    (hv : validate qc.command = none ∧ qc.id ≠ []) : Queue :=
  q.setCommands dev (q.commands dev ++ [qc])
    (by
      rw [List.map_append,List.nodup_append]
      refine ⟨q.distinct dev,by simp,?_⟩
      intro a ha b hb he
      simp only [List.map_cons,List.map_nil,List.mem_singleton] at hb
      exact hid (hb ▸ he ▸ ha))
    (by
      intro c hc
      rcases List.mem_append.mp hc with hc | hc
      · exact q.valid dev c hc
      · rw [List.mem_singleton.mp hc]
        exact hv)

def Queue.storedID (q : Queue) (cmd : Command) : GoString :=
  if cmd.id = [] then "cmd-" ++ itoa (q.nextID+1) else cmd.id

theorem Queue.storedID_ne_nil (q : Queue) (cmd : Command) : q.storedID cmd ≠ [] := by
  unfold storedID
  split
  · intro h
    exact absurd (List.append_eq_nil_iff.mp h).1 (by decide)
  · assumption

def Queue.countID (q : Queue) (cmd : Command) : Queue :=
  if cmd.id = [] then { q with nextID := q.nextID+1 } else q

@[simp] theorem Queue.commands_countID (q : Queue) (cmd : Command) (dev : GoString) :
    (q.countID cmd).commands dev = q.commands dev := by
  unfold countID
  split <;> rfl

def Queue.nextSeq (q : Queue) (dev : GoString) : Nat := (q.seq.lookup dev).getD 0 + 1

def Queue.countSeq (q : Queue) (dev : GoString) : Queue :=
  { q with seq := q.seq.insert dev (q.nextSeq dev) }

@[simp] theorem Queue.commands_countSeq (q : Queue) (dev d : GoString) :
    (q.countSeq dev).commands d = q.commands d := rfl

/-- `Enqueue`. A duplicate ID is refused after the counter of assigned IDs has
moved on. -/
def Queue.enqueue (q : Queue) (dev : GoString) (cmd : Command) (time : Time) :
    Except StoreError QueuedCommand × Queue :=
  if dev = [] then (.error .notFound,q)
  else
    match hv : validate cmd with
    | some e => (.error (.invalid e),q)
    | none =>
      if hid : q.storedID cmd ∈ ((q.countID cmd).commands dev).map QueuedCommand.id then
        (.error .conflict,q.countID cmd)
      else
        let qc : QueuedCommand :=
          { command := { cmd with id := q.storedID cmd }, seq := q.nextSeq dev, state := .pending,
            enqueuedAt := time }
        (.ok qc,((q.countID cmd).countSeq dev).append dev qc hid
          ⟨hv,q.storedID_ne_nil cmd⟩)

def Queue.deliverable (q : Queue) (dev : GoString) (limit : Int) : List QueuedCommand :=
  let all := (q.commands dev).filter QueuedCommand.deliverable
  if limit > 0 then all.take limit.toNat else all

def QueuedCommand.markSent (qc : QueuedCommand) (d : Delivery) : QueuedCommand :=
  if qc.id = d.commandID then
    { qc with state := .sent, lastSentAt := d.time, sentMsgID := d.msgID, attempts := qc.attempts+1 }
  else qc

theorem QueuedCommand.command_markSent (d : Delivery) (qc : QueuedCommand) :
    (qc.markSent d).command = qc.command := by
  unfold markSent
  split <;> rfl

/-- `MarkSent`. The deliveries before an unknown command stay recorded. -/
def Queue.markSent (q : Queue) (dev : GoString) : List Delivery → Except StoreError Unit × Queue
  | [] => (.ok (),q)
  | d :: ds =>
    if d.commandID ∈ (q.commands dev).map QueuedCommand.id then
      (q.modify dev (·.markSent d) (QueuedCommand.command_markSent d)).markSent dev ds
    else (.error .notFound,q)

def QueuedCommand.storeResult (qc : QueuedCommand) (id : GoString) (r : Result) : QueuedCommand :=
  if qc.id = id then
    { qc with
      result := some r
      completedAt := r.receivedAt
      state := if Syncml.StatusCode.success r.status then .acknowledged else .failed }
  else qc

theorem QueuedCommand.command_storeResult (id : GoString) (r : Result) (qc : QueuedCommand) :
    (qc.storeResult id r).command = qc.command := by
  unfold storeResult
  split <;> rfl

theorem QueuedCommand.id_storeResult (qc : QueuedCommand) (id : GoString) (r : Result) :
    (qc.storeResult id r).id = qc.id := by
  unfold QueuedCommand.id
  rw [QueuedCommand.command_storeResult]

def Queue.storeResult (q : Queue) (dev id : GoString) (r : Result) : Except StoreError Unit × Queue :=
  if id ∈ (q.commands dev).map QueuedCommand.id then
    (.ok (),q.modify dev (·.storeResult id r) (QueuedCommand.command_storeResult id r))
  else (.error .notFound,q)

def QueuedCommand.cancel (qc : QueuedCommand) (ids : List GoString) (time : Time) : QueuedCommand :=
  if qc.id ∈ ids ∧ qc.state.terminal = false then
    { qc with state := .cancelled, completedAt := time }
  else qc

theorem QueuedCommand.command_cancel (ids : List GoString) (time : Time) (qc : QueuedCommand) :
    (qc.cancel ids time).command = qc.command := by
  unfold cancel
  split <;> rfl

def Queue.cancel (q : Queue) (dev : GoString) (ids : List GoString) (time : Time) : Queue :=
  q.modify dev (·.cancel ids time) (QueuedCommand.command_cancel ids time)

def Queue.cancelCount (q : Queue) (dev : GoString) (ids : List GoString) : Nat :=
  ((q.commands dev).filter fun qc => decide (qc.id ∈ ids) && !qc.state.terminal).length

/-- An order in which Go may range over a map with the given keys. -/
structure RangeOrder where
  order : List GoString → List GoString
  perm : ∀ keys, (order keys).Perm keys

/-- What `Prune` may delete; a zero `CompletedAt` is never old enough. -/
def QueuedCommand.prunable (qc : QueuedCommand) (before : Time) : Bool :=
  qc.state.terminal && decide (qc.completedAt ≠ 0) && decide (qc.completedAt < before)

def pruneLoop (before : Time) (limit : Int) : Nat → List QueuedCommand → List QueuedCommand × Nat
  | n, [] => ([],n)
  | n, qc :: rest =>
    if qc.prunable before ∧ (limit ≤ 0 ∨ (n : Int) < limit) then pruneLoop before limit (n+1) rest
    else
      let r := pruneLoop before limit n rest
      (qc :: r.1,r.2)

theorem pruneLoop_sublist (before : Time) (limit : Int) (n : Nat) (cs : List QueuedCommand) :
    (pruneLoop before limit n cs).1.Sublist cs := by
  induction cs generalizing n with
  | nil => exact .slnil
  | cons qc rest ih =>
    unfold pruneLoop
    split
    · exact (ih (n+1)).cons qc
    · exact (ih n).cons_cons qc

def Queue.pruneDevice (q : Queue) (before : Time) (limit : Int) (n : Nat) (dev : GoString) :
    Queue × Nat :=
  have hsub := pruneLoop_sublist before limit n (q.commands dev)
  (q.setCommands dev (pruneLoop before limit n (q.commands dev)).1
    ((q.distinct dev).sublist (hsub.map _)) (fun qc h => q.valid dev qc (hsub.subset h)),
    (pruneLoop before limit n (q.commands dev)).2)

def Queue.pruneDevices (before : Time) (limit : Int) : Queue → Nat → List GoString → Queue × Nat
  | q, n, [] => (q,n)
  | q, n, dev :: devs =>
    let r := q.pruneDevice before limit n dev
    r.1.pruneDevices before limit r.2 devs

def Queue.prune (q : Queue) (before : Time) (limit : Int) (r : RangeOrder) : Queue × Nat :=
  q.pruneDevices before limit 0 (r.order q.byDev.keys)

theorem Queue.pruneDevice_sublist (q : Queue) (before : Time) (limit : Int) (n : Nat) (d dev : GoString) :
    ((q.pruneDevice before limit n d).1.commands dev).Sublist (q.commands dev) := by
  unfold pruneDevice
  by_cases hd : dev = d
  · subst hd
    simpa using pruneLoop_sublist before limit n (q.commands dev)
  · rw [q.commands_setCommands_ne _ _ _ hd]

theorem Queue.pruneDevices_sublist (q : Queue) (before : Time) (limit : Int) (n : Nat) (devs : List GoString)
    (dev : GoString) : ((q.pruneDevices before limit n devs).1.commands dev).Sublist (q.commands dev) := by
  induction devs generalizing q n with
  | nil => exact .refl _
  | cons d devs ih => exact (ih _ _).trans (q.pruneDevice_sublist before limit n d dev)

theorem Queue.prune_sublist (q : Queue) (before : Time) (limit : Int) (r : RangeOrder) (dev : GoString) :
    ((q.prune before limit r).1.commands dev).Sublist (q.commands dev) :=
  q.pruneDevices_sublist before limit 0 _ dev

def Queue.Maps (dev : GoString) (f : QueuedCommand → QueuedCommand) (q q' : Queue) : Prop :=
  q'.commands dev = (q.commands dev).map f ∧ ∀ d, d ≠ dev → q'.commands d = q.commands d

theorem Queue.Maps.refl (dev : GoString) (q : Queue) : q.Maps dev (fun qc => qc) q :=
  ⟨by simp,fun _ _ => rfl⟩

theorem Queue.Maps.trans
    (h₁ : q₁.Maps dev f q₂) (h₂ : q₂.Maps dev g q₃) : q₁.Maps dev (fun qc => g (f qc)) q₃ := by
  refine ⟨?_,fun d hd => (h₂.2 d hd).trans (h₁.2 d hd)⟩
  rw [h₂.1,h₁.1,List.map_map]
  rfl

theorem Queue.Maps.congr
    (h : q.Maps dev f q') (hfg : ∀ qc ∈ q.commands dev, f qc = g qc) : q.Maps dev g q' :=
  ⟨by rw [h.1]; exact List.map_congr_left hfg,h.2⟩

theorem Queue.maps_modify (q : Queue) (dev : GoString) (f : QueuedCommand → QueuedCommand)
    (hf : ∀ qc, (f qc).command = qc.command) : q.Maps dev f (q.modify dev f hf) :=
  ⟨by simp,fun _ hd => Queue.commands_modify_ne q f hf hd⟩

theorem Queue.markSent_ok {ds : List Delivery}
    (h : (q.markSent dev ds).1 = .ok ()) :
    q.Maps dev (fun qc => ds.foldl QueuedCommand.markSent qc) (q.markSent dev ds).2 := by
  induction ds generalizing q with
  | nil => exact .refl dev q
  | cons d ds ih =>
    simp only [markSent] at h ⊢
    split
    · rename_i hd
      rw [if_pos hd] at h
      exact (Queue.maps_modify q dev _ (QueuedCommand.command_markSent d)).trans (ih h)
    · rename_i hd
      rw [if_neg hd] at h
      cases h

theorem Queue.storeResult_ok {r : Result}
    (h : (q.storeResult dev id r).1 = .ok ()) :
    id ∈ (q.commands dev).map QueuedCommand.id ∧
    q.Maps dev (·.storeResult id r) (q.storeResult dev id r).2 := by
  unfold storeResult at h ⊢
  split
  · rename_i hid
    exact ⟨hid,Queue.maps_modify q dev _ (QueuedCommand.command_storeResult id r)⟩
  rename_i hid
  rw [if_neg hid] at h
  cases h

theorem Queue.commands_markSent_ne (q : Queue) (ds : List Delivery)
    (h : d ≠ dev) : (q.markSent dev ds).2.commands d = q.commands d := by
  induction ds generalizing q with
  | nil => rfl
  | cons x ds ih =>
    unfold markSent
    split
    · exact (ih _).trans (q.commands_modify_ne _ (QueuedCommand.command_markSent x) h)
    · rfl

theorem Queue.commands_storeResult_ne (q : Queue) (id : GoString) (r : Result)
    (h : d ≠ dev) : (q.storeResult dev id r).2.commands d = q.commands d := by
  unfold storeResult
  split
  · exact q.commands_modify_ne _ (QueuedCommand.command_storeResult id r) h
  · rfl

/-- Nothing but new pending commands at the end of the device's list. -/
structure Queue.Grows (dev : GoString) (q q' : Queue) : Prop where
  own : ∃ new, q'.commands dev = q.commands dev ++ new ∧
    ∀ qc ∈ new, qc.state = .pending ∧ qc.result = none
  other : ∀ d, d ≠ dev → q'.commands d = q.commands d

theorem Queue.Grows.refl (dev : GoString) (q : Queue) : q.Grows dev q where
  own := ⟨[],by simp,by simp⟩
  other := fun _ _ => rfl

theorem Queue.Grows.trans (h₁ : q₁.Grows dev q₂)
    (h₂ : q₂.Grows dev q₃) : q₁.Grows dev q₃ where
  own := by
    obtain ⟨n₁,he₁,hp₁⟩ := h₁.own
    obtain ⟨n₂,he₂,hp₂⟩ := h₂.own
    refine ⟨n₁ ++ n₂,by rw [he₂,he₁,List.append_assoc],?_⟩
    intro qc hqc
    rcases List.mem_append.mp hqc with hqc | hqc
    · exact hp₁ qc hqc
    · exact hp₂ qc hqc
  other := fun d hd => (h₂.other d hd).trans (h₁.other d hd)

theorem Queue.grows_append
    (hid : qc.id ∉ (q.commands dev).map QueuedCommand.id)
    (hv : validate qc.command = none ∧ qc.id ≠ [])
    (hs : qc.state = .pending ∧ qc.result = none) : q.Grows dev (q.append dev qc hid hv) where
  own := ⟨[qc],by simp [append],by simpa using hs⟩
  other := fun d hd => by simp [append,Queue.commands_setCommands_ne,hd]

theorem Queue.grows_countSeq (q : Queue) (dev : GoString) : q.Grows dev (q.countSeq dev) :=
  ⟨⟨[],by simp,by simp⟩,by simp⟩

theorem Queue.enqueue_grows (q : Queue) (dev : GoString) (cmd : Command) (time : Time) :
    q.Grows dev (q.enqueue dev cmd time).2 := by
  have hc : q.Grows dev (q.countID cmd) := ⟨⟨[],by simp,by simp⟩,by simp⟩
  unfold enqueue
  split
  · exact .refl dev q
  split
  · exact .refl dev q
  rename_i hv
  split
  · exact hc
  rename_i hid
  refine hc.trans ((grows_countSeq _ _).trans ?_)
  refine grows_append hid ?_ ⟨rfl,rfl⟩
  exact ⟨hv,q.storedID_ne_nil cmd⟩

theorem Queue.mem_enqueue {cmd : Command} {time : Time} (h : qc ∈ (q.enqueue dev cmd time).2.commands dev) :
    qc ∈ q.commands dev ∨ qc.command = { cmd with id := q.storedID cmd } := by
  unfold enqueue at h
  split at h
  · exact .inl h
  split at h
  · exact .inl h
  split at h
  · exact .inl (by simpa using h)
  simp only [Queue.append,commands_setCommands_self,List.mem_append,List.mem_singleton,
    commands_countSeq,commands_countID] at h
  rcases h with h | rfl
  · exact .inl h
  · exact .inr rfl

/-- What `Enqueue` does to the commands of the device: one more at the end, or nothing. -/
theorem Queue.enqueue_added (q : Queue) (dev : GoString) (cmd : Command) (time : Time) :
    (∃ qc, (q.enqueue dev cmd time).1 = .ok qc ∧
      q.storedID cmd ∉ (q.commands dev).map QueuedCommand.id ∧
      (q.enqueue dev cmd time).2.commands dev = q.commands dev ++ [qc] ∧
      qc.command = { cmd with id := q.storedID cmd } ∧ qc.deliverable = true) ∨
    ∃ e, (q.enqueue dev cmd time).1 = .error e ∧
      (e = .conflict → q.storedID cmd ∈ (q.commands dev).map QueuedCommand.id) ∧
      (q.enqueue dev cmd time).2.commands dev = q.commands dev := by
  unfold enqueue
  split
  · exact .inr ⟨_,rfl,nofun,rfl⟩
  split
  · exact .inr ⟨_,rfl,nofun,rfl⟩
  split
  · rename_i hid
    exact .inr ⟨_,rfl,fun _ => by simpa using hid,commands_countID q cmd dev⟩
  · rename_i hid
    refine .inl ⟨_,rfl,by simpa using hid,?_,rfl,rfl⟩
    simp only [Queue.append,commands_setCommands_self,commands_countSeq,commands_countID]

theorem Queue.eq_of_id (q : Queue) {qc' : QueuedCommand}
    (h : qc ∈ q.commands dev) (h' : qc' ∈ q.commands dev) (hid : qc.id = qc'.id) : qc = qc' :=
  List.inj_on_of_nodup_map (q.distinct dev) h h' hid

theorem Queue.mem_deliverable {limit : Int}
    (h : qc ∈ q.deliverable dev limit) : qc ∈ q.commands dev ∧ qc.deliverable = true := by
  have hf : qc ∈ (q.commands dev).filter QueuedCommand.deliverable := by
    unfold deliverable at h
    dsimp only at h
    split at h
    · exact List.mem_of_mem_take h
    · exact h
  exact List.mem_filter.mp hf

def Queue.Holds (P : QueuedCommand → Prop) (q : Queue) (dev id : GoString) : Prop :=
  ∃ qc ∈ q.commands dev, qc.id = id ∧ P qc

section Holding
variable {P : QueuedCommand → Prop} {q q' : Queue} {dev d id : GoString}

theorem Queue.Holds.grows (h : q.Holds P dev id) (hg : q.Grows d q') : q'.Holds P dev id := by
  obtain ⟨qc,hm,hid,hP⟩ := h
  by_cases hd : dev = d
  · subst hd
    obtain ⟨new,he,-⟩ := hg.own
    exact ⟨qc,by rw [he]; exact List.mem_append_left _ hm,hid,hP⟩
  · exact ⟨qc,by rw [hg.other dev hd]; exact hm,hid,hP⟩

theorem Queue.Holds.maps (h : q.Holds P dev id)
    (hm : q.Maps d f q')
    (hf : ∀ qc ∈ q.commands d, qc.id = id → P qc → (f qc).id = id ∧ P (f qc)) :
    q'.Holds P dev id := by
  obtain ⟨qc,hqc,hid,hP⟩ := h
  by_cases hd : dev = d
  · subst hd
    obtain ⟨h₁,h₂⟩ := hf qc hqc hid hP
    exact ⟨f qc,by rw [hm.1]; exact List.mem_map_of_mem hqc,h₁,h₂⟩
  · exact ⟨qc,by rw [hm.2 dev hd]; exact hqc,hid,hP⟩

theorem Queue.Holds.cancel (h : q.Holds P dev id) (hP : ∀ qc, P qc → qc.state.terminal = true)
    (d : GoString) (ids : List GoString) (time : Time) : (q.cancel d ids time).Holds P dev id := by
  refine h.maps (q.maps_modify d _ (QueuedCommand.command_cancel ids time)) ?_
  intro qc _ hid h
  have he : qc.cancel ids time = qc := by simp [QueuedCommand.cancel,hP qc h]
  rw [he]
  exact ⟨hid,h⟩

end Holding

def Queue.Done (q : Queue) (dev id : GoString) : Prop :=
  ∃ qc ∈ q.commands dev, qc.id = id ∧ qc.state.terminal = true

theorem Queue.Done.not_deliverable (h : q.Done dev id) (limit : Int) :
    ∀ qc ∈ q.deliverable dev limit, qc.id ≠ id := by
  intro qc hqc hid
  obtain ⟨hm,hd⟩ := Queue.mem_deliverable hqc
  obtain ⟨x,hx,hxid,ht⟩ := h
  have he : x = qc := q.eq_of_id hx hm (hxid.trans hid.symm)
  subst he
  cases hs : x.state <;> simp_all [State.terminal,QueuedCommand.deliverable]

theorem Queue.Done.grows (h : q.Done dev id)
    (hg : q.Grows d q') : q'.Done dev id := Queue.Holds.grows h hg

theorem Queue.Done.cancel (h : q.Done dev id) (d : GoString)
    (ids : List GoString) (time : Time) : (q.cancel d ids time).Done dev id :=
  Queue.Holds.cancel (P := (·.state.terminal = true)) h (fun _ h => h) d ids time

end Mdm

end MicrosoftDM
