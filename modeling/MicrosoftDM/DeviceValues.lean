import MicrosoftDM.Reconcile

set_option autoImplicit false

namespace MicrosoftDM.Mdm
open MicrosoftDM.Syncml (Item StatusCode checkLocURI)

abbrev Device := GoString → Option GoString

def covers (target uri : GoString) : Bool := target == uri || (target ++ [slash]).isPrefixOf uri

def Device.set (d : Device) (it : Item) : Device := fun uri =>
  match it.data with
  | some data => if it.target = uri then some data.text else d uri
  | none => d uri

def Device.delete (d : Device) (target : GoString) : Device := fun uri =>
  if covers target uri then none else d uri

def Device.apply (d : Device) : Syncml.Command → Device
  | .leaf .add b | .leaf .replace b => b.items.foldl Device.set d
  | .leaf .delete b => (b.items.map Item.target).foldl Device.delete d
  | _ => d

/-- An answer to a command: the result that is stored, whose status is that of
the command itself, and the statuses of the leaves of a group. -/
structure Answer where
  id : GoString
  result : Result
  members : List StatusCode := []

def Answer.codes (a : Answer) : Syncml.Command → List StatusCode
  | .group _ _ _ _ _ => a.members
  | _ => [a.result.status]

def Answer.applied (a : Answer) (body : Syncml.Command) : List Syncml.Command :=
  (((leaves body).zip (a.codes body)).filter fun x => StatusCode.success x.2).map Prod.fst

structure Managed where
  queue : Queue
  device : Device

def Managed.fresh : Managed := ⟨Queue.empty,fun _ => none⟩

/-- What happens to a device's queue; `deliver` marks those of the named
commands that `Deliverable` gives. -/
inductive DeviceEvent where
  | enqueue (cmd : Command) (time : Time)
  | deliver (ids : List GoString) (msgID : GoString) (time : Time)
  | answer (a : Answer)

def Queue.deliveries (q : Queue) (dev : GoString) (ids : List GoString) (msgID : GoString)
    (time : Time) : List Delivery :=
  ((q.deliverable dev 0).filter fun qc => qc.id ∈ ids).map fun qc => ⟨qc.id,msgID,time⟩

def Managed.step (dev : GoString) (m : Managed) : DeviceEvent → Managed
  | .enqueue cmd time => { m with queue := (m.queue.enqueue dev cmd time).2 }
  | .deliver ids msgID time =>
    { m with queue := (m.queue.markSent dev (m.queue.deliveries dev ids msgID time)).2 }
  | .answer a =>
    match m.queue.get dev a.id with
    | none => m
    | some qc => {
        queue := (m.queue.storeResult dev a.id a.result).2
        device := (a.applied qc.command.body).foldl Device.apply m.device }

def Managed.run (dev : GoString) (m : Managed) (es : List DeviceEvent) : Managed :=
  es.foldl (Managed.step dev) m

/-- A value that `AcknowledgedValues` records, and whether a Get has read it. -/
structure Entry where
  uri : GoString
  value : GoString
  read : Bool
  deriving DecidableEq

def itemEntry (uri : GoString) (read : Bool) (it : Item) : Option Entry :=
  if uri ≠ [] then it.data.map fun d => ⟨uri,d.text,read⟩ else none

def leafEntries : Syncml.Command → List Entry
  | .leaf .add b | .leaf .replace b => b.items.filterMap fun it => itemEntry it.target false it
  | _ => []

def leafDeletes : Syncml.Command → List GoString
  | .leaf .delete b => b.items.map Item.target
  | _ => []

def QueuedCommand.written (qc : QueuedCommand) : List Entry :=
  (leaves qc.command.body).flatMap leafEntries

def reportedBy? : Option Result → List Entry
  | some r => r.items.filterMap fun it => itemEntry it.locURI true it
  | none => []

def QueuedCommand.entries (qc : QueuedCommand) : List Entry :=
  qc.written ++ reportedBy? qc.result

def ackedEntries (cs : List QueuedCommand) : List Entry :=
  (cs.filter QueuedCommand.acked).flatMap QueuedCommand.entries

def lastEntry (es : List Entry) (uri : GoString) : Option Entry :=
  (es.filter fun e => e.uri = uri).getLast?

def Queue.FromGet (q : Queue) (dev uri : GoString) : Prop :=
  ∃ e, lastEntry (ackedEntries (q.commands dev)) uri = some e ∧ e.read = true

variable {e : Entry} {c : Syncml.Command} {qc : QueuedCommand} {cs : List QueuedCommand}

section Entries
variable {es es' : List Entry} {uri : GoString}

theorem lastEntry_append : lastEntry (es ++ es') uri = (lastEntry es' uri).or (lastEntry es uri) := by
  simp [lastEntry,List.filter_append,List.getLast?_append]

theorem lastEntry_some (h : lastEntry es uri = some e) : e ∈ es ∧ e.uri = uri := by
  have hm := List.mem_of_getLast? h
  simpa using hm

theorem lastEntry_none (h : uri ∉ es.map Entry.uri) : lastEntry es uri = none := by
  have hnil : (es.filter fun e => e.uri = uri) = [] := by
    rw [List.filter_eq_nil_iff]
    intro e he hu
    exact h (List.mem_map.mpr ⟨e,he,of_decide_eq_true hu⟩)
  rw [lastEntry,hnil]
  rfl

theorem itemEntry_some {read : Bool} {it : Item} (h : itemEntry uri read it = some e) :
    e.read = read ∧ e.uri ≠ [] := by
  unfold itemEntry at h
  split at h
  · rename_i hu
    obtain ⟨d,-,rfl⟩ := Option.map_eq_some_iff.mp h
    exact ⟨rfl,hu⟩
  · cases h

theorem mem_leafEntries (h : e ∈ leafEntries c) :
    e.read = false ∧ e.uri ≠ [] := by
  unfold leafEntries at h
  split at h
  · obtain ⟨it,-,he⟩ := List.mem_filterMap.mp h
    exact itemEntry_some he
  · obtain ⟨it,-,he⟩ := List.mem_filterMap.mp h
    exact itemEntry_some he
  · cases h

theorem mem_reported {r : Option Result} (h : e ∈ reportedBy? r) :
    e.read = true ∧ e.uri ≠ [] := by
  unfold reportedBy? at h
  split at h
  · obtain ⟨it,-,he⟩ := List.mem_filterMap.mp h
    exact itemEntry_some he
  · cases h

theorem QueuedCommand.written_uri_ne (h : e ∈ qc.written) :
    e.uri ≠ [] := by
  obtain ⟨c,-,he⟩ := List.mem_flatMap.mp h
  exact (mem_leafEntries he).2

theorem QueuedCommand.mem_written (h : e ∈ qc.entries)
    (hr : e.read = false) : e ∈ qc.written := by
  refine (List.mem_append.mp h).resolve_right ?_
  intro hm
  rw [(mem_reported hm).1] at hr
  cases hr

def putEntry (out : GoMap GoString) (e : Entry) : GoMap GoString := out.insert e.uri e.value

theorem recordValue_eq (read : Bool) (items : List Item) (f : Item → GoString)
    (out : GoMap GoString) :
    items.foldl (fun out it => recordValue (f it) out it) out =
      (items.filterMap fun it => itemEntry (f it) read it).foldl putEntry out := by
  induction items generalizing out with
  | nil => rfl
  | cons it rest ih =>
    rw [List.foldl_cons,ih,List.filterMap_cons]
    by_cases hu : f it = []
    · simp [recordValue,itemEntry,hu]
    cases hd : it.data with
    | none => simp [recordValue,itemEntry,hu,hd]
    | some d => simp [recordValue,itemEntry,hu,hd,putEntry]

theorem collectLeaf_eq (out : GoMap GoString) (c : Syncml.Command) :
    collectLeaf out c = (leafEntries c).foldl putEntry out := by
  cases c with
  | leaf verb b =>
    cases verb with
    | add | replace => exact recordValue_eq false b.items Item.target out
    | delete | get | exec => rfl
  | group | alert | status | results => rfl

theorem collectValues_eq (out : GoMap GoString) (qc : QueuedCommand) :
    collectValues out qc = qc.entries.foldl putEntry out := by
  have hleaves : (leaves qc.command.body).foldl collectLeaf out = qc.written.foldl putEntry out := by
    rw [QueuedCommand.written,List.foldl_flatMap]
    congr 1
    funext out c
    exact collectLeaf_eq out c
  unfold collectValues QueuedCommand.entries
  rw [List.foldl_append,hleaves]
  cases qc.result with
  | none => rfl
  | some r => exact recordValue_eq true _ _ _

theorem lookup_putEntries (es : List Entry) (out : GoMap GoString) (uri : GoString) :
    (es.foldl putEntry out).lookup uri = ((lastEntry es uri).map Entry.value).or (out.lookup uri) := by
  induction es generalizing out with
  | nil => simp [lastEntry]
  | cons e rest ih =>
    have hcons : lastEntry (e :: rest) uri = (lastEntry rest uri).or (lastEntry [e] uri) :=
      @lastEntry_append [e] rest uri
    rw [List.foldl_cons,ih,hcons]
    cases lastEntry rest uri with
    | some x => rfl
    | none =>
      by_cases hu : e.uri = uri
      · subst hu
        simp [lastEntry,putEntry]
      · simp [lastEntry,hu,putEntry,AList.lookup_insert_ne (Ne.symm hu)]

theorem acknowledgedValues_lookup {q : Queue} {dev : GoString} (hq : q.Sized dev) :
    ∃ acked, acknowledgedValues q dev = some (some acked) ∧
      ∀ uri, acked.lookup uri = (lastEntry (ackedEntries (q.commands dev)) uri).map Entry.value := by
  refine ⟨_,acknowledgedValues_eq hq,?_⟩
  intro uri
  have hfold : ((q.commands dev).filter QueuedCommand.acked).foldl collectValues ∅ =
      (ackedEntries (q.commands dev)).foldl putEntry ∅ := by
    rw [ackedEntries,List.foldl_flatMap]
    congr 1
    funext out qc
    exact collectValues_eq out qc
  rw [hfold,lookup_putEntries]
  simp

end Entries

section Applying
variable {d : Device} {uri : GoString}

theorem Device.foldl_set (hu : uri ≠ []) (items : List Item) :
    (items.foldl Device.set d) uri =
      ((lastEntry (items.filterMap fun it => itemEntry it.target false it) uri).map
        Entry.value).or (d uri) := by
  induction items generalizing d with
  | nil => simp [lastEntry]
  | cons it rest ih =>
    rw [List.foldl_cons,ih,List.filterMap_cons]
    cases hd : it.data with
    | none => simp [itemEntry,hd,set]
    | some data =>
      by_cases ht : it.target = []
      · simp [itemEntry,hd,ht,set,Ne.symm hu]
      have hone : itemEntry it.target false it = some ⟨it.target,data.text,false⟩ := by
        simp [itemEntry,hd,ht]
      rw [hone]
      dsimp only
      rw [← List.singleton_append,lastEntry_append]
      cases lastEntry (rest.filterMap fun it => itemEntry it.target false it) uri with
      | some x => rfl
      | none =>
        by_cases he : it.target = uri
        · simp [lastEntry,he,set,hd]
        · simp [lastEntry,he,set,hd]

theorem Device.foldl_delete {targets : List GoString} (h : ∀ t ∈ targets, covers t uri = false) :
    (targets.foldl Device.delete d) uri = d uri := by
  induction targets generalizing d with
  | nil => rfl
  | cons t rest ih =>
    rw [List.foldl_cons,ih (fun x hx => h x (List.mem_cons_of_mem t hx))]
    simp [delete,h t List.mem_cons_self]

theorem Device.apply_eq (hu : uri ≠ [])
    (h : ∀ t ∈ leafDeletes c, covers t uri = false) :
    d.apply c uri = ((lastEntry (leafEntries c) uri).map Entry.value).or (d uri) := by
  unfold apply
  split
  · exact foldl_set hu _
  · exact foldl_set hu _
  · refine (foldl_delete h).trans ?_
    simp [leafEntries,lastEntry]
  rename_i hadd hreplace _
  unfold leafEntries
  split
  · exact absurd rfl (hadd _)
  · exact absurd rfl (hreplace _)
  · simp [lastEntry]

theorem Device.foldl_apply (hu : uri ≠ []) {cs : List Syncml.Command}
    (h : ∀ t ∈ cs.flatMap leafDeletes, covers t uri = false) :
    (cs.foldl Device.apply d) uri =
      ((lastEntry (cs.flatMap leafEntries) uri).map Entry.value).or (d uri) := by
  induction cs generalizing d with
  | nil => simp [lastEntry]
  | cons c rest ih =>
    rw [List.flatMap_cons] at h
    rw [List.foldl_cons,ih (fun t ht => h t (List.mem_append_right _ ht)),
      apply_eq hu (fun t ht => h t (List.mem_append_left _ ht)),List.flatMap_cons,lastEntry_append]
    cases lastEntry (rest.flatMap leafEntries) uri with
    | some _ | none => rfl

end Applying

def Queue.behind (q : Queue) (dev id : GoString) : List QueuedCommand :=
  ((q.commands dev).dropWhile fun qc => qc.id != id).tail

def ackedURIs (cs : List QueuedCommand) : List GoString :=
  ((cs.filter QueuedCommand.acked).flatMap QueuedCommand.written).map Entry.uri

/-- An answer after which the acknowledged values are still the device's. -/
structure Answer.Orderly (q : Queue) (dev : GoString) (a : Answer) (qc : QueuedCommand) : Prop where
  /-- The command has not been acknowledged before. -/
  first : qc.acked = false
  /-- Nothing is deleted that an acknowledged command has set. -/
  keeps : ∀ t ∈ (a.applied qc.command.body).flatMap leafDeletes, ∀ uri ∈ ackedURIs (q.commands dev),
    covers t uri = false
  /-- Nothing is deleted that a command answered with success sets itself. -/
  keepsOwn : StatusCode.success a.result.status = true →
    ∀ t ∈ (a.applied qc.command.body).flatMap leafDeletes, ∀ e ∈ qc.written, covers t e.uri = false
  /-- All that a command answered with success sets is set. -/
  whole : StatusCode.success a.result.status = true →
    (a.applied qc.command.body).flatMap leafEntries = qc.written
  /-- A command answered with a failure sets no node that an acknowledged one has set. -/
  nothing : StatusCode.success a.result.status = false →
    ∀ e ∈ (a.applied qc.command.body).flatMap leafEntries, e.uri ∉ ackedURIs (q.commands dev)
  /-- No command behind it that sets the same node has been acknowledged already. -/
  inOrder : StatusCode.success a.result.status = true →
    ∀ e ∈ qc.written, e.uri ∉ ackedURIs (q.behind dev a.id)

instance (q : Queue) (dev : GoString) (a : Answer) (qc : QueuedCommand) :
    Decidable (a.Orderly q dev qc) :=
  decidable_of_iff (qc.acked = false ∧
    (∀ t ∈ (a.applied qc.command.body).flatMap leafDeletes, ∀ uri ∈ ackedURIs (q.commands dev),
      covers t uri = false) ∧
    (StatusCode.success a.result.status = true →
      ∀ t ∈ (a.applied qc.command.body).flatMap leafDeletes, ∀ e ∈ qc.written,
        covers t e.uri = false) ∧
    (StatusCode.success a.result.status = true →
      (a.applied qc.command.body).flatMap leafEntries = qc.written) ∧
    (StatusCode.success a.result.status = false →
      ∀ e ∈ (a.applied qc.command.body).flatMap leafEntries, e.uri ∉ ackedURIs (q.commands dev)) ∧
    (StatusCode.success a.result.status = true →
      ∀ e ∈ qc.written, e.uri ∉ ackedURIs (q.behind dev a.id)))
    ⟨fun ⟨h₁,h₂,h₃,h₄,h₅,h₆⟩ => ⟨h₁,h₂,h₃,h₄,h₅,h₆⟩,fun ⟨h₁,h₂,h₃,h₄,h₅,h₆⟩ => ⟨h₁,h₂,h₃,h₄,h₅,h₆⟩⟩

/-- Only answers can be out of order. -/
def Managed.Orderly (dev : GoString) (m : Managed) : DeviceEvent → Prop
  | .answer a => ∀ qc ∈ m.queue.get dev a.id, a.Orderly m.queue dev qc
  | _ => True

instance (dev : GoString) (m : Managed) : (e : DeviceEvent) → Decidable (m.Orderly dev e)
  | .answer a => inferInstanceAs (Decidable (∀ qc ∈ m.queue.get dev a.id, a.Orderly m.queue dev qc))
  | .enqueue _ _ => inferInstanceAs (Decidable True)
  | .deliver _ _ _ => inferInstanceAs (Decidable True)

def Managed.OrderlyRun (dev : GoString) : Managed → List DeviceEvent → Prop
  | _, [] => True
  | m, e :: es => m.Orderly dev e ∧ (m.step dev e).OrderlyRun dev es

instance decidableOrderlyRun (dev : GoString) :
    ∀ (m : Managed) (es : List DeviceEvent), Decidable (m.OrderlyRun dev es)
  | _, [] => inferInstanceAs (Decidable True)
  | m, e :: es =>
    have := decidableOrderlyRun dev (m.step dev e) es
    inferInstanceAs (Decidable (_ ∧ _))

def Managed.Faithful (dev : GoString) (m : Managed) : Prop :=
  ∀ uri e, lastEntry (ackedEntries (m.queue.commands dev)) uri = some e → e.read = false →
    m.device uri = some e.value

section Steps
variable {q : Queue} {dev : GoString} {m : Managed}

theorem ackedEntries_append (cs cs' : List QueuedCommand) :
    ackedEntries (cs ++ cs') = ackedEntries cs ++ ackedEntries cs' := by
  simp [ackedEntries]

theorem mem_ackedURIs (h : e ∈ ackedEntries cs)
    (hr : e.read = false) : e.uri ∈ ackedURIs cs := by
  obtain ⟨qc,hqc,he⟩ := List.mem_flatMap.mp h
  exact List.mem_map_of_mem (List.mem_flatMap.mpr ⟨qc,hqc,QueuedCommand.mem_written he hr⟩)

theorem filter_acked_enqueue (q : Queue) (dev : GoString) (cmd : Command) (time : Time) :
    ((q.enqueue dev cmd time).2.commands dev).filter QueuedCommand.acked =
      (q.commands dev).filter QueuedCommand.acked := by
  obtain ⟨new,hnew,hpending⟩ := (q.enqueue_grows dev cmd time).own
  have hnone : new.filter QueuedCommand.acked = [] := by
    rw [List.filter_eq_nil_iff]
    intro qc hqc
    simp [QueuedCommand.acked,(hpending qc hqc).1]
  rw [hnew,List.filter_append,hnone,List.append_nil]

theorem filter_acked_map {f : QueuedCommand → QueuedCommand}
    (h : ∀ qc ∈ cs, f qc = qc ∨ (qc.acked = false ∧ (f qc).acked = false)) :
    (cs.map f).filter QueuedCommand.acked = cs.filter QueuedCommand.acked := by
  induction cs with
  | nil => rfl
  | cons qc rest ih =>
    have hrest := ih fun x hx => h x (List.mem_cons_of_mem qc hx)
    rcases h qc List.mem_cons_self with hsame | ⟨hold,hnew⟩
    · rw [List.map_cons,hsame,List.filter_cons,List.filter_cons,hrest]
    · simp [hold,hnew,hrest]

theorem QueuedCommand.markSent_acked (qc : QueuedCommand) (d : Delivery) :
    qc.markSent d = qc ∨ (qc.id = d.commandID ∧ (qc.markSent d).acked = false) := by
  unfold markSent
  split
  · rename_i hid
    exact .inr ⟨hid,rfl⟩
  · exact .inl rfl

theorem filter_acked_markSent {ds : List Delivery}
    (h : ∀ qc ∈ q.commands dev, qc.id ∈ ds.map Delivery.commandID → qc.acked = false) :
    ((q.markSent dev ds).2.commands dev).filter QueuedCommand.acked =
      (q.commands dev).filter QueuedCommand.acked := by
  induction ds generalizing q with
  | nil => rfl
  | cons d ds ih =>
    unfold Queue.markSent
    split
    · rw [ih,Queue.commands_modify_self]
      · refine filter_acked_map ?_
        intro qc hqc
        refine (qc.markSent_acked d).imp_right ?_
        intro hid
        exact ⟨h qc hqc (by simp [hid.1]),hid.2⟩
      · intro x hx hid
        rw [Queue.commands_modify_self] at hx
        obtain ⟨qc,hqc,rfl⟩ := List.mem_map.mp hx
        rcases qc.markSent_acked d with hsame | hmarked
        · rw [hsame] at hid ⊢
          exact h qc hqc (List.mem_cons_of_mem _ hid)
        · exact hmarked.2
    · rfl

theorem Queue.storeResult_split {id : GoString} (h : q.get dev id = some qc)
    (r : Result) :
    ∃ front, q.commands dev = front ++ qc :: q.behind dev id ∧
      (q.storeResult dev id r).2.commands dev = front ++ qc.storeResult id r :: q.behind dev id := by
  have hid : qc.id = id := by simpa using List.find?_some h
  have hmem : qc ∈ q.commands dev := List.mem_of_find?_eq_some h
  obtain ⟨-,front,rest,hcs,hfront⟩ := List.find?_eq_some_iff_append.mp h
  have hbehind : q.behind dev id = rest := by
    rw [Queue.behind,hcs,List.dropWhile_append_of_pos]
    · simp [hid]
    · intro x hx
      simpa using hfront x hx
  refine ⟨front,by rw [hbehind]; exact hcs,?_⟩
  have hdist := q.distinct dev
  change ((q.commands dev).map QueuedCommand.id).Nodup at hdist
  rw [hcs,List.map_append,List.nodup_append,List.map_cons,List.nodup_cons] at hdist
  -- IDs are distinct, so no other command changes
  have hother : ∀ x : QueuedCommand, x.id ≠ id → x.storeResult id r = x := fun x hx => if_neg hx
  have hf : front.map (·.storeResult id r) = front := by
    refine (List.map_congr_left ?_).trans (List.map_id _)
    intro x hx
    exact hother x (by simpa using hfront x hx)
  have hr : rest.map (·.storeResult id r) = rest := by
    refine (List.map_congr_left ?_).trans (List.map_id _)
    intro x hx
    refine hother x ?_
    intro he
    exact hdist.2.1.1 (List.mem_map.mpr ⟨x,hx,he.trans hid.symm⟩)
  unfold Queue.storeResult
  rw [if_pos (List.mem_map.mpr ⟨qc,hmem,hid⟩),Queue.commands_modify_self,hcs,List.map_append,
    List.map_cons,hf,hr,hbehind]

theorem lastEntry_between {front own reads behind : List Entry} {uri : GoString}
    (h : lastEntry (front ++ (own ++ reads) ++ behind) uri = some e) (hr : e.read = false)
    (hreads : ∀ x ∈ reads, x.read = true)
    (hbehind : ∀ x ∈ behind, x.read = false → ∀ y ∈ own, y.uri ≠ x.uri) :
    lastEntry own uri = some e ∨
      (lastEntry own uri = none ∧ lastEntry (front ++ behind) uri = some e) := by
  rw [lastEntry_append,lastEntry_append,lastEntry_append] at h
  cases hb : lastEntry behind uri with
  | some x =>
    rw [hb] at h
    obtain rfl : x = e := Option.some.inj h
    obtain ⟨hx,hu⟩ := lastEntry_some hb
    refine .inr ⟨?_,by rw [lastEntry_append,hb]; rfl⟩
    refine lastEntry_none ?_
    intro hm
    obtain ⟨y,hy,hyu⟩ := List.mem_map.mp hm
    exact hbehind x hx hr y hy (hyu.trans hu.symm)
  | none =>
    rw [hb,Option.none_or] at h
    cases hg : lastEntry reads uri with
    | some x =>
      rw [hg] at h
      obtain rfl : x = e := Option.some.inj h
      rw [hreads x (lastEntry_some hg).1] at hr
      cases hr
    | none =>
      rw [hg,Option.none_or] at h
      cases ho : lastEntry own uri with
      | some x =>
        rw [ho] at h
        exact .inl h
      | none =>
        rw [ho,Option.none_or] at h
        exact .inr ⟨rfl,by rw [lastEntry_append,hb,h]; rfl⟩

theorem Managed.Faithful.answer (hm : m.Faithful dev) {a : Answer}
    (hget : m.queue.get dev a.id = some qc) (ho : a.Orderly m.queue dev qc) :
    Managed.Faithful dev ⟨(m.queue.storeResult dev a.id a.result).2,
      (a.applied qc.command.body).foldl Device.apply m.device⟩ := by
  have hid : qc.id = a.id := by simpa using List.find?_some hget
  obtain ⟨front,hcs,hcs'⟩ := Queue.storeResult_split hget a.result
  have hbefore : ackedEntries (m.queue.commands dev) =
      ackedEntries front ++ ackedEntries (m.queue.behind dev a.id) := by
    rw [hcs,ackedEntries_append]
    simp [ackedEntries,ho.first]
  -- an old entry is neither deleted nor set by the answer
  have hold : ∀ uri e, lastEntry (ackedEntries (m.queue.commands dev)) uri = some e →
      e.read = false → lastEntry ((a.applied qc.command.body).flatMap leafEntries) uri = none →
      ((a.applied qc.command.body).foldl Device.apply m.device) uri = some e.value := by
    intro uri e he hr hnone
    obtain ⟨hmem,hu⟩ := lastEntry_some he
    have huri := mem_ackedURIs hmem hr
    obtain ⟨x,hx,hxe⟩ := List.mem_flatMap.mp hmem
    have hne := QueuedCommand.written_uri_ne (QueuedCommand.mem_written hxe hr)
    rw [hu] at huri hne
    rw [Device.foldl_apply hne (fun t ht => ho.keeps t ht uri huri),hnone]
    exact hm uri e he hr
  intro uri e he hr
  dsimp only at he ⊢
  rw [hcs'] at he
  cases hs : StatusCode.success a.result.status with
  | false =>
    have hsame : ackedEntries (front ++ qc.storeResult a.id a.result :: m.queue.behind dev a.id) =
        ackedEntries (m.queue.commands dev) := by
      rw [hbefore,ackedEntries_append]
      simp [ackedEntries,QueuedCommand.acked,QueuedCommand.storeResult,hid,hs]
    rw [hsame] at he
    refine hold uri e he hr (lastEntry_none ?_)
    intro hmem
    obtain ⟨x,hx,hxu⟩ := List.mem_map.mp hmem
    obtain ⟨hmem',hu⟩ := lastEntry_some he
    refine ho.nothing hs x hx ?_
    rw [hxu,← hu]
    exact mem_ackedURIs hmem' hr
  | true =>
    have hafter : ackedEntries (front ++ qc.storeResult a.id a.result :: m.queue.behind dev a.id) =
        ackedEntries front ++ (qc.written ++ reportedBy? (some a.result)) ++
          ackedEntries (m.queue.behind dev a.id) := by
      rw [ackedEntries_append]
      simp [ackedEntries,QueuedCommand.acked,QueuedCommand.storeResult,hid,hs,
        QueuedCommand.entries,QueuedCommand.written]
    rw [hafter] at he
    have hwhole := ho.whole hs
    rcases lastEntry_between he hr (fun x hx => (mem_reported hx).1) (by
        intro x hx hxr y hy hyx
        refine ho.inOrder hs y hy ?_
        rw [hyx]
        exact mem_ackedURIs hx hxr) with hown | ⟨hnone,hlast⟩
    · obtain ⟨hmem,hu⟩ := lastEntry_some hown
      have hne := QueuedCommand.written_uri_ne hmem
      rw [hu] at hne
      rw [Device.foldl_apply hne (fun t ht => hu ▸ ho.keepsOwn hs t ht e hmem),hwhole,hown]
      rfl
    · refine hold uri e ?_ hr (hwhole ▸ hnone)
      rw [hbefore]
      exact hlast

theorem Managed.Faithful.step (hm : m.Faithful dev) {e : DeviceEvent} (ho : m.Orderly dev e) :
    (m.step dev e).Faithful dev := by
  cases e with
  | enqueue cmd time =>
    intro uri e he
    dsimp only [Managed.step] at he
    rw [ackedEntries,filter_acked_enqueue] at he
    exact hm uri e he
  | deliver ids msgID time =>
    intro uri e he
    dsimp only [Managed.step] at he
    rw [ackedEntries,filter_acked_markSent] at he
    · exact hm uri e he
    intro qc hqc hid
    obtain ⟨d,hd,hdid⟩ := List.mem_map.mp hid
    obtain ⟨x,hx,rfl⟩ := List.mem_map.mp hd
    obtain ⟨hx,hdel⟩ := Queue.mem_deliverable (List.mem_of_mem_filter hx)
    rw [m.queue.eq_of_id hqc hx hdid.symm]
    unfold QueuedCommand.deliverable at hdel
    cases hs : x.state with
    | pending | sent => simp [QueuedCommand.acked,hs]
    | acknowledged | failed | cancelled => simp [hs] at hdel
  | answer a =>
    dsimp only [Managed.step]
    cases hget : m.queue.get dev a.id with
    | none => exact hm
    | some qc => exact hm.answer hget (ho qc hget)

theorem Managed.Faithful.run (hm : m.Faithful dev) {es : List DeviceEvent}
    (ho : m.OrderlyRun dev es) : (m.run dev es).Faithful dev := by
  induction es generalizing m with
  | nil => exact hm
  | cons e es ih => exact ih (hm.step ho.1) ho.2

end Steps

/-- In a history of orderly answers, the acknowledged values that no Get has read are the
device's, and where `Diff` returns no command the device holds every desired value it can be asked
for. -/
theorem acknowledged_values_held {dev : GoString} {es : List DeviceEvent}
    (ho : Managed.fresh.OrderlyRun dev es) (hq : (Managed.fresh.run dev es).queue.Sized dev) :
    ∃ acked, acknowledgedValues (Managed.fresh.run dev es).queue dev = some (some acked) ∧
      (∀ uri v, acked.lookup uri = some v →
        ¬(Managed.fresh.run dev es).queue.FromGet dev uri →
        (Managed.fresh.run dev es).device uri = some v) ∧
      ∀ desired : List Setting, diff desired acked = [] → ∀ s ∈ desired,
        checkLocURI s.uri = none → ¬(Managed.fresh.run dev es).queue.FromGet dev s.uri →
        (Managed.fresh.run dev es).device s.uri = some s.value := by
  have hfaithful : (Managed.fresh.run dev es).Faithful dev := by
    refine Managed.Faithful.run ?_ ho
    intro uri e he
    cases he
  obtain ⟨acked,hacked,hlookup⟩ := acknowledgedValues_lookup hq
  have hheld : ∀ uri v, acked.lookup uri = some v →
      ¬(Managed.fresh.run dev es).queue.FromGet dev uri →
      (Managed.fresh.run dev es).device uri = some v := by
    intro uri v hv hget
    rw [hlookup] at hv
    obtain ⟨e,he,rfl⟩ := Option.map_eq_some_iff.mp hv
    refine hfaithful uri e he ?_
    rw [Bool.eq_false_iff]
    exact fun hr => hget ⟨e,he,hr⟩
  refine ⟨acked,hacked,hheld,?_⟩
  intro desired hdiff s hs hu hget
  refine hheld s.uri s.value ?_ hget
  rw [diff,diffLoop_eq,List.map_eq_nil_iff,List.filter_eq_nil_iff] at hdiff
  have hn := hdiff s ((List.perm_insertionSort _ desired).mem_iff.mpr hs)
  simpa [Setting.needed,hu] using hn

namespace Sample

def node : GoString := "./Vendor/MSFT/A"

def ask (id : GoString) (verb : Syncml.Verb) (value : Option Syncml.Data) : DeviceEvent :=
  .enqueue ⟨id,.device,.leaf verb { items := [{ target := node, data := value }] },false⟩ 1

def succeed (id : GoString) : DeviceEvent := .answer { id := id, result := applied }

def changed : List DeviceEvent :=
  [ask "a" .add (some { value := "1" }), ask "b" .replace (some { value := "2" }),
    .deliver ["a","b"] "1" 2, succeed "a", succeed "b"]

def removed : List DeviceEvent :=
  [ask "a" .add (some { value := "1" }), ask "b" .delete none,
    .deliver ["a","b"] "1" 2, succeed "a", succeed "b"]

end Sample

open Sample in
theorem acknowledged_values_held_changed :
    ∃ acked, acknowledgedValues (Managed.fresh.run "dev" changed).queue "dev" = some (some acked) ∧
      acked.lookup node = some "2" ∧
      (Managed.fresh.run "dev" changed).device node = some "2" := by
  have hlast : (lastEntry (ackedEntries ((Managed.fresh.run "dev" changed).queue.commands "dev"))
      node) = some ⟨node,"2",false⟩ := by
    decide +kernel
  obtain ⟨acked,hacked,hheld,-⟩ :=
    @acknowledged_values_held "dev" changed (by decide +kernel) (by decide +kernel)
  have hvalue : (acknowledgedValues (Managed.fresh.run "dev" changed).queue "dev").map
      (Option.map fun m => m.lookup node) = some (some (some (utf8 "2"))) := by
    decide +kernel
  rw [hacked] at hvalue
  have hv : acked.lookup node = some "2" := Option.some.inj (Option.some.inj hvalue)
  refine ⟨acked,hacked,hv,hheld node _ hv ?_⟩
  rintro ⟨e,he,hr⟩
  rw [hlast] at he
  cases he
  cases hr

open Sample in
/-- A value that was set and deleted again is still among the acknowledged
values, so `Diff` does not ask for it. -/
theorem deleted_value_acknowledged :
    ∃ acked, acknowledgedValues (Managed.fresh.run "dev" removed).queue "dev" = some (some acked) ∧
      acked.lookup node = some "1" ∧
      ¬(Managed.fresh.run "dev" removed).queue.FromGet "dev" node ∧
      (Managed.fresh.run "dev" removed).device node = none ∧
      diff [{ uri := node, value := "1" }] acked = [] := by
  have hlast : (lastEntry (ackedEntries ((Managed.fresh.run "dev" removed).queue.commands "dev"))
      node) = some ⟨node,"1",false⟩ := by
    decide +kernel
  have hsized : (Managed.fresh.run "dev" removed).queue.Sized "dev" := by decide +kernel
  obtain ⟨acked,hacked,hlookup⟩ := acknowledgedValues_lookup hsized
  have hv : acked.lookup node = some "1" := by rw [hlookup,hlast]; rfl
  refine ⟨acked,hacked,hv,?_,by decide +kernel,?_⟩
  · rintro ⟨e,he,hr⟩
    rw [hlast] at he
    cases he
    cases hr
  · rw [diff,diffLoop_eq]
    simp [Setting.needed,hv]

end MicrosoftDM.Mdm
