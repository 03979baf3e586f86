import MicrosoftDM.SideBySide

set_option autoImplicit false

namespace MicrosoftDM.Sqlstore
open Mdm (QueuedCommand Result Delivery Query RangeOrder)
open Paging (Page PageResult)

structure Paired (codec : Codec) (nextID : Nat) (issued : List Issue) (dev : GoString) (qc : QueuedCommand)
    (r : Row) : Prop where
  copy : Copy codec qc r
  device : r.deviceID = dev
  ids : SameID nextID r.seq qc.id r.id
  known : ⟨dev,qc.id,r.id⟩ ∈ issued
  names : ∀ x ∈ issued, x.dev = dev → (qc.id = x.memory ↔ r.id = x.sql)

/-- A returned ID is the caller's, or one that each queue has counted already. -/
inductive Counted (nextID nextSeq : Nat) : GoString → GoString → Prop where
  | named {id : GoString} (h : ¬Generated id) : Counted nextID nextSeq id id
  | generated {n seq : Nat} (hn : n ≤ nextID) (hseq : seq < nextSeq) :
      Counted nextID nextSeq (generatedID n) (generatedID seq)

structure Queues.Agree (codec : Codec) (σ : Queues) : Prop where
  ordered : σ.memory.Ordered
  counter : ∀ dev, σ.sql.seqOf dev = σ.memory.nextSeq dev
  pairs : ∀ dev, List.Forall₂ (Paired codec σ.memory.nextID σ.issued dev) (σ.memory.commands dev)
    (σ.sql.deviceRows dev)
  counted : ∀ x ∈ σ.issued, Counted σ.memory.nextID (σ.memory.nextSeq x.dev) x.memory x.sql

theorem Queues.agree_start (codec : Codec) : ({} : Queues).Agree codec where
  ordered _ := ⟨.nil,fun _ h => nomatch h⟩
  counter _ := rfl
  pairs _ := .nil
  counted _ h := nomatch h

variable {issued : List Issue} {qc : QueuedCommand} {r : Row}

variable {nextID : Nat} {c : ClientCall} {ds : List SentRef} {a₀ b₀ id : GoString} {codec : Codec}
  {σ : Queues}

section Reading
variable {codec : Codec} {σ : Queues} {dev : GoString}

theorem Paired.alike (h : Paired codec nextID issued dev qc r) :
    ∃ b, codec.scanCommand r = .ok b ∧ Alike codec issued dev qc b := by
  obtain ⟨b,hb,hid,hread⟩ := h.copy.scan
  exact ⟨b,hb,⟨⟨hid ▸ h.known,hid ▸ h.ids.text⟩,hread⟩⟩

theorem Queues.Agree.rows_ordered (h : σ.Agree codec) (dev : GoString) :
    (σ.sql.deviceRows dev).Pairwise fun a b => a.seq < b.seq := by
  have hm := (h.ordered dev).1
  have hp := h.pairs dev
  generalize σ.memory.commands dev = qcs,σ.sql.deviceRows dev = rows at hm hp
  induction hp with
  | nil => exact .nil
  | @cons qc r qcs rows hqr hrest ih =>
    obtain ⟨hlt,hm⟩ := List.pairwise_cons.mp hm
    refine List.pairwise_cons.mpr ⟨fun r' hr' => ?_,ih hm⟩
    obtain ⟨n,hn,rfl⟩ := List.mem_iff_getElem.mp hr'
    have hn' : n < qcs.length := hrest.length_eq ▸ hn
    have hpair := (List.forall₂_iff_get.mp hrest).2 n hn' hn
    rw [hqr.copy.seq]
    have hseq := hpair.copy.seq
    simp only [List.get_eq_getElem] at hseq
    rw [hseq]
    exact hlt _ (List.getElem_mem hn')

theorem Queues.Agree.select (h : σ.Agree codec) (dev : GoString) {p : QueuedCommand → Bool} {q : Row → Bool}
    (hpq : ∀ qc r, Copy codec qc r → p qc = q r) :
    bySeq (σ.sql.rows.filter fun r => r.deviceID == dev && q r) = (σ.sql.deviceRows dev).filter q ∧
    List.Forall₂ (Paired codec σ.memory.nextID σ.issued dev) ((σ.memory.commands dev).filter p)
      ((σ.sql.deviceRows dev).filter q) := by
  refine ⟨?_,forall₂_filter (h.pairs dev) fun qc r hqr => hpq qc r hqr.copy⟩
  rw [Queue.filter_device]
  exact bySeq_of_ordered ((h.rows_ordered dev).filter _)

theorem Queues.Agree.holdSame (h : σ.Agree codec) : σ.HoldSame codec := by
  intro dev
  rw [bySeq_of_ordered (h.rows_ordered dev)]
  exact forall₂_mapM (h.pairs dev) fun qc r hqr => hqr.alike

theorem Queues.Agree.deliverable (h : σ.Agree codec) (dev : GoString) (limit : Int) :
    ∃ bs, σ.sql.deliverable codec dev limit = .ok bs ∧
      List.Forall₂ (Alike codec σ.issued dev) (σ.memory.deliverable dev limit) bs := by
  obtain ⟨hrows,hall⟩ := h.select dev (p := QueuedCommand.deliverable)
    (q := fun r => r.state == .pending || r.state == .sent) fun qc r hqr => hqr.deliverable.symm
  unfold Queue.deliverable Queue.deliverableRows Mdm.Queue.deliverable
  dsimp only
  rw [hrows]
  split
  · exact forall₂_mapM (List.forall₂_take _ hall) fun qc r hqr => hqr.alike
  · exact forall₂_mapM hall fun qc r hqr => hqr.alike

theorem Queues.Agree.list (h : σ.Agree codec) (dev : GoString) (query : Query) (p : Page) :
    (σ.memory.list dev query p = none ∧ σ.sql.list codec dev query p = .ok none) ∨
    ∃ a b, σ.memory.list dev query p = some a ∧ σ.sql.list codec dev query p = .ok (some b) ∧
      List.Forall₂ (Alike codec σ.issued dev) a.items b.items ∧ a.nextCursor = b.nextCursor := by
  obtain ⟨hrows,hall⟩ := h.select dev
    (p := fun qc => query.keeps qc.state qc.command.internal qc.command.scope)
    (q := fun r => query.keeps r.state r.internal r.scope)
    fun qc r hqr => by rw [hqr.state,hqr.internal,hqr.scope]
  unfold Mdm.Queue.list Queue.list Queue.listRows
  cases hp : p.offset with
  | none =>
    refine .inl ⟨?_,rfl⟩
    unfold Paging.page
    rw [hp]
  | some offset =>
    obtain ⟨bs,hbs,hread⟩ := forall₂_mapM (f := codec.scanCommand)
      (List.forall₂_take (p.size+1) (List.forall₂_drop offset hall)) fun qc r hqr => hqr.alike
    obtain ⟨r,hr,hitems,hnext⟩ := Paging.page_alike hp hread
    dsimp only
    rw [hrows,hbs]
    exact .inr ⟨r,_,hr,rfl,hitems,hnext⟩

end Reading

variable {x : Ref}

section Names
variable {codec : Codec} {σ : Queues} {dev : GoString}

theorem Paired.named_by (hqr : Paired codec σ.memory.nextID σ.issued dev qc r)
    (hx : x.Clear σ dev) (hqc : qc ∈ σ.memory.commands dev) (hr : r ∈ σ.sql.deviceRows dev) :
    qc.id = x.memory σ.issued ↔ r.id = x.sql σ.issued := by
  cases x with
  | text id =>
    rcases hx with hid | ⟨hm,hs⟩
    · exact hqr.ids.eq_iff hid
    refine ⟨fun he => absurd ?_ hm,fun he => absurd ?_ hs⟩
    · exact List.mem_map.mpr ⟨qc,hqc,he⟩
    · rw [Queue.ids_eq]
      exact List.mem_map.mpr ⟨r,hr,he⟩
  | returned n =>
    obtain ⟨x,hn,hdev⟩ := Option.map_eq_some_iff.mp hx
    have hnames := hqr.names x (List.mem_of_getElem? hn) hdev
    unfold Ref.memory Ref.sql
    dsimp only
    rw [hn]
    exact hnames

theorem Queues.Agree.named (h : σ.Agree codec) (hx : x.Clear σ dev) :
    List.Forall₂ (fun qc r => Paired codec σ.memory.nextID σ.issued dev qc r ∧
      (qc.id = x.memory σ.issued ↔ r.id = x.sql σ.issued)) (σ.memory.commands dev) (σ.sql.deviceRows dev) :=
  (forall₂_mem (h.pairs dev)).imp fun _ _ ⟨hqc,hr,hqr⟩ => ⟨hqr,hqr.named_by hx hqc hr⟩

theorem Queues.Agree.names (h : σ.Agree codec) {refs : List Ref} (hrefs : ∀ x ∈ refs, x.Clear σ dev) :
    List.Forall₂ (fun qc r => Paired codec σ.memory.nextID σ.issued dev qc r ∧
      ∀ x ∈ refs, (qc.id = x.memory σ.issued ↔ r.id = x.sql σ.issued))
      (σ.memory.commands dev) (σ.sql.deviceRows dev) :=
  (forall₂_mem (h.pairs dev)).imp fun _ _ ⟨hqc,hr,hqr⟩ =>
    ⟨hqr,fun x hx => hqr.named_by (hrefs x hx) hqc hr⟩

theorem Queues.Agree.has_iff (h : σ.Agree codec) (hx : x.Clear σ dev) :
    σ.Has dev x ↔ (dev,x.sql σ.issued) ∈ σ.sql.rows.map Row.key := by
  have hany := forall₂_any (p := fun qc => decide (qc.id = x.memory σ.issued))
    (q := fun r => decide (r.id = x.sql σ.issued)) (h.named hx) fun qc r hqr => decide_eq_decide.mpr hqr.2
  unfold Queues.Has
  rw [Queue.mem_keys,List.mem_map,List.mem_map]
  rw [Bool.eq_iff_iff,List.any_eq_true,List.any_eq_true] at hany
  simpa only [decide_eq_true_eq] using hany

theorem Queues.Agree.get (h : σ.Agree codec) (hx : x.Clear σ dev) :
    (σ.memory.get dev (x.memory σ.issued) = none ∧ σ.sql.get codec dev (x.sql σ.issued) = .error .notFound) ∨
    ∃ a b, σ.memory.get dev (x.memory σ.issued) = some a ∧ σ.sql.get codec dev (x.sql σ.issued) = .ok b ∧
      Alike codec σ.issued dev a b := by
  have hfind := forall₂_find? (p := fun qc => qc.id == x.memory σ.issued)
    (q := fun r => r.id == x.sql σ.issued) (h.named hx) fun qc r hqr => by
      rw [Bool.eq_iff_iff,beq_iff_eq,beq_iff_eq]
      exact hqr.2
  unfold Mdm.Queue.get Queue.get
  rw [Queue.row_eq]
  rcases hfind with ⟨hm,hs⟩ | ⟨qc,r,hm,hs,hqr,-⟩
  · rw [hs]
    exact .inl ⟨hm,rfl⟩
  obtain ⟨b,hb,halike⟩ := hqr.alike
  rw [hs]
  exact .inr ⟨qc,b,hm,hb,halike⟩

end Names

variable {memory : Mdm.Queue} {sql : Queue}

section Updates
variable {codec : Codec} {σ : Queues} {dev : GoString}

theorem Queues.Agree.updated (h : σ.Agree codec)
    {f : QueuedCommand → QueuedCommand} {g : Row → Row} {P : QueuedCommand → Row → Prop}
    (hall : List.Forall₂ (fun qc r => Paired codec σ.memory.nextID σ.issued dev qc r ∧ P qc r)
      (σ.memory.commands dev) (σ.sql.deviceRows dev))
    (hmem : σ.memory.Maps dev f memory) (hord : memory.Ordered)
    (hcount : memory.nextID = σ.memory.nextID ∧ ∀ d, memory.nextSeq d = σ.memory.nextSeq d)
    (hrows : ∀ d, sql.deviceRows d = (σ.sql.deviceRows d).map g) (hseq : sql.nextSeq = σ.sql.nextSeq)
    (hid : ∀ qc, (f qc).id = qc.id) (hg : ∀ r, (g r).key = r.key ∧ (g r).seq = r.seq)
    (hother : ∀ r : Row, r.deviceID ≠ dev → g r = r)
    (hcopy : ∀ qc r, r.deviceID = dev → Copy codec qc r → P qc r → Copy codec (f qc) (g r)) :
    ({ memory := memory, sql := sql, issued := σ.issued } : Queues).Agree codec where
  ordered := hord
  counter d := by
    rw [hcount.2 d,← h.counter d]
    unfold Queue.seqOf
    rw [hseq]
  pairs d := by
    rw [hcount.1,hrows d]
    by_cases hd : d = dev
    · subst hd
      rw [hmem.1]
      refine forall₂_map hall fun qc r ⟨hqr,hP⟩ => ?_
      obtain ⟨hdev,hrid⟩ := Prod.mk.inj (hg r).1
      refine ⟨hcopy qc r hqr.device hqr.copy hP,hdev.trans hqr.device,?_,?_,fun x hx he => ?_⟩
      · rw [hid,(hg r).2,hrid]
        exact hqr.ids
      · rw [hid,hrid]
        exact hqr.known
      · rw [hid,hrid]
        exact hqr.names x hx he
    · rw [hmem.2 d hd]
      have hsame : (σ.sql.deviceRows d).map g = σ.sql.deviceRows d := by
        refine List.map_congr_left (g := id) (fun r hr => hother r ?_) |>.trans (List.map_id _)
        rw [(Queue.mem_deviceRows.mp hr).2]
        exact hd
      rw [hsame]
      exact h.pairs d
  counted x hx := by
    rw [hcount.1,hcount.2]
    exact h.counted x hx

def Queues.Served (codec : Codec) (σ : Queues) (c : ClientCall) : Prop :=
  Reply.Same codec (σ.step codec c).issued c.dev (σ.replies codec c).1 (σ.replies codec c).2 ∧
    (σ.step codec c).Agree codec

theorem Queues.served_of {a b : Reply} (hc : ∀ a b, c.issues a b = [])
    (hm : performMemory σ.issued σ.memory c = (a,memory))
    (hs : performSql codec σ.issued σ.sql c = (b,sql))
    (hsame : Reply.Same codec σ.issued c.dev a b)
    (hagree : ({ memory := memory, sql := sql, issued := σ.issued } : Queues).Agree codec) :
    σ.Served codec c := by
  unfold Queues.Served Queues.step Queues.replies
  rw [hm,hs,hc,List.append_nil]
  exact ⟨hsame,hagree⟩

theorem Queue.affected_iff {q : Queue} {f : Row → Row}
    (hchanged : codec.affected = .changed → (dev,id) ∈ q.rows.map Row.key →
      ∃ row ∈ q.rows, row.key = (dev,id) ∧ f row ≠ row) :
    q.affected codec dev id f = true ↔ (dev,id) ∈ q.rows.map Row.key := by
  unfold Queue.affected
  rw [List.any_eq_true]
  constructor
  · rintro ⟨row,hrow,hcounts⟩
    exact List.mem_map.mpr ⟨row,hrow,beq_iff_eq.mp (Bool.and_eq_true_iff.mp hcounts).1⟩
  intro hkey
  cases haff : codec.affected with
  | matched =>
    obtain ⟨row,hrow,hk⟩ := List.mem_map.mp hkey
    exact ⟨row,hrow,by simp [hk,Affected.counts]⟩
  | changed =>
    obtain ⟨row,hrow,hk,hne⟩ := hchanged haff hkey
    exact ⟨row,hrow,by simp [hk,hne,Affected.counts]⟩

theorem Queues.Agree.storeResult (h : σ.Agree codec) (hx : x.Clear σ dev) {r : Result}
    (ht : Storable r.receivedAt) (hr : codec.Stores r)
    (hchanges : codec.affected = .changed → σ.Changes codec dev x r) :
    σ.Served codec (.storeResult dev x r) := by
  have hiff := h.has_iff hx
  unfold Queues.Has at hiff
  unfold Codec.Stores at hr
  cases hm : codec.marshal r with
  | none =>
    rw [hm] at hr
    exact absurd hr id
  | some blob =>
    rw [hm] at hr
    have haffected := Queue.affected_iff (f := Row.complete blob r) fun hc hkey =>
      hchanges hc (hiff.mpr hkey) blob hm
    by_cases hhas : x.memory σ.issued ∈ (σ.memory.commands dev).map QueuedCommand.id
    · have hmem : performMemory σ.issued σ.memory (.storeResult dev x r) =
          (.done,σ.memory.modify dev (·.storeResult (x.memory σ.issued) r)
            (QueuedCommand.command_storeResult (x.memory σ.issued) r)) := by
        unfold performMemory Mdm.Queue.storeResult
        dsimp only
        rw [if_pos hhas]
      have hsql : performSql codec σ.issued σ.sql (.storeResult dev x r) =
          (.done,σ.sql.update (Row.updateAt dev (x.sql σ.issued) (Row.complete blob r))
            (Row.key_updateAt (Row.key_complete blob r))) := by
        unfold performSql Queue.storeResult
        dsimp only
        rw [hm]
        dsimp only
        rw [if_pos (haffected.mpr (hiff.mp hhas))]
      refine Queues.served_of (fun _ _ => rfl) hmem hsql .done (h.updated (h.named hx) (Mdm.Queue.maps_modify _ dev _ _)
        (h.ordered.modify dev (QueuedCommand.command_storeResult _ r) (QueuedCommand.seq_storeResult _ r))
        ⟨rfl,fun _ => rfl⟩ (Queue.deviceRows_update _ _) rfl
        (fun qc => qc.id_storeResult _ r)
        (fun row => ⟨Row.key_updateAt (Row.key_complete blob r) row,?_⟩)
        (fun row hd => Row.updateAt_other hd _) fun qc row hd hcopy hnames => ?_)
      · unfold Row.updateAt
        split
        · rfl
        · rfl
      rw [Row.updateAt_device hd]
      unfold QueuedCommand.storeResult
      by_cases hid : qc.id = x.memory σ.issued
      · rw [if_pos hid,if_pos (hnames.mp hid)]
        exact hcopy.complete ht hr.1 hr.2
      · rw [if_neg hid,if_neg fun he => hid (hnames.mpr he)]
        exact hcopy
    · have hmem : performMemory σ.issued σ.memory (.storeResult dev x r) = (.failed .notFound,σ.memory) := by
        unfold performMemory Mdm.Queue.storeResult
        dsimp only
        rw [if_neg hhas]
        rfl
      have hsql : performSql codec σ.issued σ.sql (.storeResult dev x r) = (.failed .notFound,σ.sql) := by
        unfold performSql Queue.storeResult
        dsimp only
        rw [hm]
        dsimp only
        rw [if_neg fun hk => hhas (hiff.mpr (haffected.mp hk))]
        rfl
      exact Queues.served_of (fun _ _ => rfl) hmem hsql (.failed .notFound) h

theorem Copy.sendAll (ht : ∀ d ∈ ds, Storable d.time) (hd : r.deviceID = dev)
    (hcopy : Copy codec qc r)
    (hnames : ∀ d ∈ ds, (qc.id = d.command.memory issued ↔ r.id = d.command.sql issued)) :
    Copy codec ((ds.map (SentRef.memory issued)).foldl QueuedCommand.markSent qc)
      ((ds.map (SentRef.sql issued)).foldl (fun r x => r.updateAt dev x.commandID (Row.send x)) r) := by
  induction ds generalizing qc r with
  | nil => exact hcopy
  | cons d ds ih =>
    have hd₀ := hnames d List.mem_cons_self
    have htail : ∀ x ∈ ds, (qc.id = x.command.memory issued ↔ r.id = x.command.sql issued) :=
      fun x hx => hnames x (List.mem_cons_of_mem _ hx)
    have ht' : ∀ x ∈ ds, Storable x.time := fun x hx => ht x (List.mem_cons_of_mem _ hx)
    rw [List.map_cons,List.map_cons,List.foldl_cons,List.foldl_cons,Row.updateAt_device hd]
    by_cases hid : qc.id = (d.memory issued).commandID
    · have hid' : r.id = (d.sql issued).commandID := hd₀.mp hid
      rw [if_pos hid',show qc.markSent (d.memory issued) = _ from if_pos hid]
      exact ih ht' hd (hcopy.send (d := d.memory issued) (ht d List.mem_cons_self) rfl rfl) htail
    · have hid' : r.id ≠ (d.sql issued).commandID := fun he => hid (hd₀.mpr he)
      rw [if_neg hid',show qc.markSent (d.memory issued) = _ from if_neg hid]
      exact ih ht' hd hcopy htail

theorem Queues.Agree.markSent (h : σ.Agree codec) (ht : ∀ d ∈ ds, Storable d.time)
    (hds : ∀ d ∈ ds, d.command.Clear σ dev)
    (hheld : (∀ d ∈ ds, σ.Has dev d.command) ∨ ∀ d ∈ ds.head?, ¬σ.Has dev d.command) :
    σ.Served codec (.markSent dev ds) := by
  rcases hheld with hheld | hmissing
  · have hclear : ∀ x ∈ ds.map SentRef.command, x.Clear σ dev := by
      intro x hx
      obtain ⟨d,hd,rfl⟩ := List.mem_map.mp hx
      exact hds d hd
    have hok : (σ.memory.markSent dev (ds.map (SentRef.memory σ.issued))).1 = .ok () := by
      refine Mdm.Queue.markSent_held fun x hx => ?_
      obtain ⟨d,hd,rfl⟩ := List.mem_map.mp hx
      exact hheld d hd
    have hkeys : ∀ x ∈ ds.map (SentRef.sql σ.issued), (dev,x.commandID) ∈ σ.sql.rows.map Row.key := by
      intro x hx
      obtain ⟨d,hd,rfl⟩ := List.mem_map.mp hx
      exact (h.has_iff (hds d hd)).mp (hheld d hd)
    obtain ⟨sql,hsql,hseq,hrows⟩ := Queue.markAll_held hkeys
    have hmem : performMemory σ.issued σ.memory (.markSent dev ds) =
        (.done,(σ.memory.markSent dev (ds.map (SentRef.memory σ.issued))).2) := by
      unfold performMemory
      dsimp only
      generalize hm : σ.memory.markSent dev (ds.map (SentRef.memory σ.issued)) = m at hok
      obtain ⟨a,m⟩ := m
      cases hok
      rfl
    have hsql' : performSql codec σ.issued σ.sql (.markSent dev ds) = (.done,sql) := by
      unfold performSql Queue.markSent
      dsimp only
      rw [hsql]
    refine Queues.served_of (fun _ _ => rfl) hmem hsql' .done (h.updated (h.names hclear) (Mdm.Queue.markSent_ok hok)
      (h.ordered.markSent dev _) ⟨Mdm.Queue.nextID_markSent _ _ _,fun d => Mdm.Queue.nextSeq_markSent _ _ d _⟩
      hrows hseq (fun qc => congrArg Mdm.Command.id (QueuedCommand.command_markAll _ qc))
      (fun r => Row.updateAll_key Delivery.commandID Row.send (fun _ _ => ⟨rfl,rfl⟩) dev _ r)
      (fun r hr => Row.updateAll_other _ _ hr _)
      fun qc r hd hcopy hnames => hcopy.sendAll ht hd fun d hd' => hnames _ (List.mem_map.mpr ⟨d,hd',rfl⟩))
  · cases ds with
    | nil =>
      exact Queues.served_of (fun _ _ => rfl) rfl rfl .done h
    | cons d ds =>
      have hnot : (d.memory σ.issued).commandID ∉ (σ.memory.commands dev).map QueuedCommand.id :=
        hmissing d rfl
      have hnot' : (dev,(d.sql σ.issued).commandID) ∉ σ.sql.rows.map Row.key := fun hk =>
        hnot ((h.has_iff (hds d List.mem_cons_self)).mpr hk)
      have hmem : performMemory σ.issued σ.memory (.markSent dev (d :: ds)) =
          (.failed .notFound,σ.memory) := by
        unfold performMemory
        dsimp only
        rw [List.map_cons,Mdm.Queue.markSent,if_neg hnot]
        rfl
      have hsql : performSql codec σ.issued σ.sql (.markSent dev (d :: ds)) =
          (.failed .notFound,σ.sql) := by
        unfold performSql Queue.markSent
        dsimp only
        rw [List.map_cons,Queue.markAll,if_neg hnot']
        rfl
      exact Queues.served_of (fun _ _ => rfl) hmem hsql (.failed .notFound) h

theorem Queues.Agree.cancel (h : σ.Agree codec) {ids : List Ref} {time : Time} (ht : Storable time)
    (hids : ∀ x ∈ ids, x.Clear σ dev) : σ.Served codec (.cancel dev ids time) := by
  have hall := h.names hids
  have hmem : ∀ {qc : QueuedCommand} {r : Row},
      (∀ x ∈ ids, (qc.id = x.memory σ.issued ↔ r.id = x.sql σ.issued)) →
      (qc.id ∈ ids.map (Ref.memory σ.issued) ↔ r.id ∈ ids.map (Ref.sql σ.issued)) := by
    intro qc r hn
    rw [List.mem_map,List.mem_map]
    constructor
    · rintro ⟨x,hx,he⟩
      exact ⟨x,hx,((hn x hx).mp he.symm).symm⟩
    · rintro ⟨x,hx,he⟩
      exact ⟨x,hx,((hn x hx).mpr he.symm).symm⟩
  have hcount : σ.memory.cancelCount dev (ids.map (Ref.memory σ.issued)) =
      σ.sql.cancelCount dev time (ids.map (Ref.sql σ.issued)) := by
    rw [Queue.cancelCount_eq]
    refine (forall₂_filter hall fun qc r hqr => ?_).length_eq
    rw [hqr.1.copy.state,decide_eq_decide.mpr (hmem hqr.2)]
  obtain ⟨hseq,hrows⟩ := σ.sql.cancel_rows dev (ids.map (Ref.sql σ.issued)) time
  refine Queues.served_of (a := .count _) (b := .count _) (fun _ _ => rfl) rfl rfl (hcount ▸ .count _)
    (h.updated hall (Mdm.Queue.maps_modify _ dev _ _)
      (h.ordered.modify dev (QueuedCommand.command_cancel _ time) (QueuedCommand.seq_cancel _ time))
      ⟨rfl,fun _ => rfl⟩ hrows hseq (fun qc => congrArg Mdm.Command.id (QueuedCommand.command_cancel _ time qc))
      (fun r => Row.updateAll_key id (fun _ => Row.cancel time) (fun _ r => r.cancel_kept time) dev _ r)
      (fun r hr => Row.updateAll_other id (fun _ => Row.cancel time) hr _)
      fun qc r hd hcopy hnames => ?_)
  rw [Row.cancel_foldl hd]
  unfold QueuedCommand.cancel
  by_cases hc : qc.id ∈ ids.map (Ref.memory σ.issued) ∧ qc.state.terminal = false
  · rw [if_pos hc,if_pos ⟨(hmem hnames).mp hc.1,by rw [hcopy.state]; exact hc.2⟩]
    exact hcopy.cancelled ht
  · rw [if_neg hc,if_neg fun hc' => hc ⟨(hmem hnames).mpr hc'.1,by rw [← hcopy.state]; exact hc'.2⟩]
    exact hcopy

theorem Queues.Agree.prune (h : σ.Agree codec) {before : Time} (ht : Storable before) (range : RangeOrder)
    (tie : Row → Nat) : σ.Served codec (.prune before range tie) := by
  obtain ⟨hsqlCount,hrows⟩ := σ.sql.prune_unlimited before tie
  have hnd : (range.order σ.memory.byDev.keys).Nodup := (range.perm _).nodup_iff.mpr σ.memory.byDev.nodupKeys
  have hprunable : ∀ dev, List.Forall₂ (Paired codec σ.memory.nextID σ.issued dev)
      ((σ.memory.commands dev).filter fun qc => qc.prunable before)
      ((σ.sql.deviceRows dev).filter fun r => r.prunable before) := fun dev =>
    forall₂_filter (h.pairs dev) fun qc r hqr => (hqr.copy.prunable ht).symm
  have hcommands : ∀ dev, (σ.memory.prune before 0 range).1.commands dev =
      (σ.memory.commands dev).filter fun qc => !qc.prunable before := by
    intro dev
    unfold Mdm.Queue.prune
    rw [Mdm.Queue.commands_pruneDevices]
    split
    · rfl
    rename_i hdev
    rw [Mdm.Queue.commands_of_notMem fun hk => hdev ((range.perm _).mem_iff.mpr hk)]
    rfl
  have hcount : (σ.memory.prune before 0 range).2 = (σ.sql.prune before 0 tie).2 := by
    unfold Mdm.Queue.prune
    rw [Mdm.Queue.pruneDevices_count before 0 hnd,hsqlCount,Nat.zero_add]
    rw [← sum_filter_device hnd]
    · refine congrArg List.sum (List.map_congr_left fun dev _ => ?_)
      rw [(hprunable dev).length_eq]
      unfold Queue.deviceRows
      rw [List.filter_filter,List.filter_filter]
      exact congrArg List.length (List.filter_congr fun r _ => Bool.and_comm _ _)
    · intro r hr
      obtain ⟨hmem,hp⟩ := List.mem_filter.mp hr
      refine (range.perm _).mem_iff.mpr ?_
      by_contra hdev
      -- a device that the map does not have has no rows
      have hnil := (h.pairs r.deviceID).length_eq
      rw [Mdm.Queue.commands_of_notMem hdev] at hnil
      have hrow := Queue.mem_deviceRows.mpr ⟨hmem,rfl⟩
      rw [List.length_eq_zero_iff.mp hnil.symm] at hrow
      cases hrow
  refine Queues.served_of (a := .count _) (b := .count _) (fun _ _ => rfl) rfl rfl (hcount ▸ .count _)
    ⟨h.ordered.prune before 0 range,fun d => ?_,fun d => ?_,fun x hx => ?_⟩
  · exact (h.counter d).trans (Mdm.Queue.nextSeq_pruneDevices _ d before 0 0 _).symm
  · rw [hcommands,hrows,show (σ.memory.prune before 0 range).1.nextID = σ.memory.nextID from
      Mdm.Queue.nextID_pruneDevices before 0 _]
    exact forall₂_filter (h.pairs d) fun qc r hqr => by rw [hqr.copy.prunable ht]
  rw [show (σ.memory.prune before 0 range).1.nextID = σ.memory.nextID from
    Mdm.Queue.nextID_pruneDevices before 0 _,show (σ.memory.prune before 0 range).1.nextSeq x.dev =
    σ.memory.nextSeq x.dev from Mdm.Queue.nextSeq_pruneDevices _ x.dev before 0 0 _]
  exact h.counted x hx

end Updates

section Enqueue
variable {codec : Codec} {σ : Queues} {dev : GoString} {cmd : Mdm.Command} {time : Time}

inductive NewID (nextID seq : Nat) : Nat → GoString → GoString → Prop where
  | named {id : GoString} (hne : id ≠ []) (h : ¬Generated id) : NewID nextID seq nextID id id
  | generated : NewID nextID seq (nextID+1) (generatedID (nextID+1)) (generatedID seq)

section IDs
variable {nextID seq nextID' : Nat} {a b : GoString}

theorem NewID.le (h : NewID nextID seq nextID' a b) : nextID ≤ nextID' := by
  cases h with
  | named => exact le_refl _
  | generated => exact Nat.le_succ _

theorem NewID.sameID (h : NewID nextID seq nextID' a b) : SameID nextID' seq a b := by
  cases h with
  | named hne hid => exact .named hne hid
  | generated => exact .generated (le_refl _)

theorem NewID.counted (h : NewID nextID seq nextID' a b) : Counted nextID' (seq+1) a b := by
  cases h with
  | named _ hid => exact .named hid
  | generated => exact .generated (le_refl _) (Nat.lt_succ_self _)

theorem NewID.old_iff (h : NewID nextID seq nextID' a b) {seq₀ : Nat}
    (h₀ : SameID nextID seq₀ a₀ b₀) (hlt : seq₀ < seq) : a₀ = a ↔ b₀ = b := by
  cases h with
  | named _ hid => exact h₀.eq_iff hid
  | generated =>
    obtain ⟨ha,hb⟩ := h₀.ne_generated (Nat.lt_succ_self nextID) hlt
    exact ⟨fun he => absurd he ha,fun he => absurd he hb⟩

theorem NewID.new_iff (h : NewID nextID seq nextID' a b)
    (h₀ : Counted nextID seq a₀ b₀) : a = a₀ ↔ b = b₀ := by
  cases h₀ with
  | named hid => exact h.sameID.eq_iff hid
  | @generated n seq₀ hn hlt =>
    cases h with
    | named _ hid =>
      exact ⟨fun he => absurd (he ▸ generated_generatedID _) hid,
        fun he => absurd (he ▸ generated_generatedID _) hid⟩
    | generated =>
      refine ⟨fun he => ?_,fun he => ?_⟩
      · have := generatedID_inj.mp he
        omega
      · have := generatedID_inj.mp he
        omega

theorem Counted.mono (h : Counted nextID seq a b) {m s : Nat} (hm : nextID ≤ m) (hs : seq ≤ s) :
    Counted m s a b := by
  cases h with
  | named hid => exact .named hid
  | generated hn hseq => exact .generated (le_trans hn hm) (lt_of_lt_of_le hseq hs)

end IDs

theorem Paired.issue {nextID' : Nat} {d : GoString} (h : Paired codec nextID issued d qc r)
    (hle : nextID ≤ nextID') {x : Issue} (hx : x.dev = d → (qc.id = x.memory ↔ r.id = x.sql)) :
    Paired codec nextID' (issued ++ [x]) d qc r where
  copy := h.copy
  device := h.device
  ids := h.ids.mono hle
  known := List.mem_append_left _ h.known
  names y hy := by
    rcases List.mem_append.mp hy with hy | hy
    · exact h.names y hy
    · rw [List.mem_singleton.mp hy]
      exact hx

theorem Queues.Agree.refused (h : σ.Agree codec) (dev : GoString) :
    ({ memory := σ.memory, sql := σ.sql, issued := σ.issued ++ [⟨dev,[],[]⟩] } : Queues).Agree codec where
  ordered := h.ordered
  counter := h.counter
  pairs d := (h.pairs d).imp fun qc r hqr => hqr.issue (le_refl _) fun _ => by
    obtain ⟨hm,hs⟩ := hqr.ids.ne_nil
    exact ⟨fun he => absurd he hm,fun he => absurd he hs⟩
  counted x hx := by
    rcases List.mem_append.mp hx with hx | hx
    · exact h.counted x hx
    have hnil : ¬Generated [] := by decide
    rw [List.mem_singleton.mp hx]
    exact .named hnil

theorem Queues.Agree.added (h : σ.Agree codec) (hs : σ.memory.Stored dev cmd time qc memory)
    (hord : memory.Ordered)
    (hids : NewID σ.memory.nextID (σ.sql.seqOf dev) memory.nextID qc.id r.id)
    (hcopy : Copy codec qc r) (hdev : r.deviceID = dev)
    (hrows : ∀ d, sql.deviceRows d = if r.deviceID = d then σ.sql.deviceRows d ++ [r] else σ.sql.deviceRows d)
    (hseq : ∀ d, sql.seqOf d = if d = dev then σ.sql.seqOf dev+1 else σ.sql.seqOf d) :
    ({ memory := memory, sql := sql, issued := σ.issued ++ [⟨dev,qc.id,r.id⟩] } : Queues).Agree codec := by
  have hcounter := h.counter dev
  have hrseq : r.seq = σ.sql.seqOf dev := by
    rw [hcopy.seq,hs.named]
    exact hcounter.symm
  have hold : ∀ d, List.Forall₂ (Paired codec memory.nextID (σ.issued ++ [⟨dev,qc.id,r.id⟩]) d)
      (σ.memory.commands d) (σ.sql.deviceRows d) := fun d =>
    (forall₂_mem (h.pairs d)).imp fun qc₀ r₀ ⟨hqc₀,_,hqr⟩ => hqr.issue hids.le fun hd => by
      subst hd
      refine hids.old_iff hqr.ids ?_
      rw [hqr.copy.seq,h.counter]
      exact (h.ordered _).2 qc₀ hqc₀
  refine ⟨hord,fun d => ?_,fun d => ?_,fun x hx => ?_⟩
  · rw [hseq,hs.seq]
    split
    · rw [hcounter]
    · exact h.counter d
  · rw [hrows]
    by_cases hd : d = dev
    · subst hd
      rw [if_pos hdev,hs.own]
      refine List.rel_append (hold d) (.cons ⟨hcopy,hdev,hrseq ▸ hids.sameID,?_,fun x hx he => ?_⟩ .nil)
      · exact List.mem_append_right _ List.mem_cons_self
      rcases List.mem_append.mp hx with hx | hx
      · have hc := h.counted x hx
        rw [he,← hcounter] at hc
        exact hids.new_iff hc
      · rw [List.mem_singleton.mp hx]
        exact ⟨fun _ => rfl,fun _ => rfl⟩
    · rw [if_neg fun he => hd (he.symm.trans hdev),hs.other d hd]
      exact hold d
  · rcases List.mem_append.mp hx with hx | hx
    · refine (h.counted x hx).mono hids.le ?_
      rw [hs.seq]
      split
      · rename_i he
        rw [he]
        exact Nat.le_succ _
      · exact le_refl _
    · rw [List.mem_singleton.mp hx,hs.seq,if_pos rfl,← hcounter]
      exact hids.counted

theorem Queues.Agree.generated_free (h : σ.Agree codec) (dev : GoString) :
    generatedID (σ.memory.nextID+1) ∉ (σ.memory.commands dev).map QueuedCommand.id ∧
      generatedID (σ.sql.seqOf dev) ∉ σ.sql.ids dev := by
  have hall : List.Forall₂ (fun qc r => qc.id ≠ generatedID (σ.memory.nextID+1) ∧
      r.id ≠ generatedID (σ.sql.seqOf dev)) (σ.memory.commands dev) (σ.sql.deviceRows dev) :=
    (forall₂_mem (h.pairs dev)).imp fun qc r ⟨hqc,_,hqr⟩ => hqr.ids.ne_generated (Nat.lt_succ_self _) (by
      rw [hqr.copy.seq,h.counter]
      exact (h.ordered dev).2 qc hqc)
  rw [Queue.ids_eq]
  generalize σ.memory.commands dev = qcs,σ.sql.deviceRows dev = rows at hall
  induction hall with
  | nil => exact ⟨fun hm => (nomatch hm),fun hm => (nomatch hm)⟩
  | cons hqr _ ih =>
    refine ⟨fun hm => ?_,fun hm => ?_⟩
    · rcases List.mem_cons.mp hm with he | hm
      · exact hqr.1 he.symm
      · exact ih.1 hm
    · rcases List.mem_cons.mp hm with he | hm
      · exact hqr.2 he.symm
      · exact ih.2 hm

theorem Queues.Agree.assignedID (h : σ.Agree codec) (dev : GoString) :
    σ.sql.assignedID dev = generatedID (σ.sql.seqOf dev) := by
  unfold Queue.assignedID
  have hfree := (h.generated_free dev).2
  cases (σ.sql.ids dev).length with
  | zero => rfl
  | succ n => exact if_neg hfree

theorem Queues.Agree.named_iff (h : σ.Agree codec) (hid : ¬Generated id) :
    id ∈ (σ.memory.commands dev).map QueuedCommand.id ↔ id ∈ σ.sql.ids dev := by
  have hclear : (Ref.text id).Clear σ dev := .inl hid
  have hiff := h.has_iff hclear
  rw [Queue.mem_keys,← Queue.ids_eq] at hiff
  exact hiff

/-- `Enqueue` of a command whose IDs are new. -/
theorem Queues.Agree.accepted (h : σ.Agree codec) {body : GoString} (hv : Mdm.validate cmd = none)
    (hdev : dev ≠ []) (ht : Storable time) (hbody : Syncml.encodeCommand [] cmd.body = .ok body)
    (hdec : (codec.decodeCommand body).isSome = true)
    (hm : σ.memory.storedID cmd ∉ (σ.memory.commands dev).map QueuedCommand.id) (hid : id ∉ σ.sql.ids dev)
    (hnew : NewID σ.memory.nextID (σ.sql.seqOf dev) (σ.memory.countID cmd).nextID (σ.memory.storedID cmd) id)
    (hsql : σ.sql.enqueue dev cmd time = (.ok (σ.sql.enqueueAs dev cmd body id time hid).1,
      (σ.sql.enqueueAs dev cmd body id time hid).2)) : σ.Served codec (.enqueue dev cmd time) := by
  have hc := σ.memory.enqueue_cases dev cmd time
  generalize hme : σ.memory.enqueue dev cmd time = m at hc
  cases hc with
  | nowhere he => exact absurd he hdev
  | invalid _ he =>
    rw [hv] at he
    cases he
  | conflict _ _ he => exact absurd he hm
  | @stored qc memory _ _ _ hs =>
    have hqc := hs.named
    have hord : memory.Ordered := by
      have ho := h.ordered.enqueue dev cmd time
      rwa [hme] at ho
    have hids : NewID σ.memory.nextID (σ.sql.seqOf dev) memory.nextID qc.id id := by
      rw [hs.nextID,hqc]
      exact hnew
    let row : Row :=
      { deviceID := dev, id := id, seq := σ.sql.seqOf dev, scope := cmd.scope, internal := cmd.internal,
        body := body, enqueuedAt := nanos time }
    have hagree := h.added (r := row) hs hord hids
      (by rw [hqc,← h.counter]; exact Copy.new hbody hdec ht) rfl (Queue.deviceRows_insert _ (Queue.notMem_keys hid))
      (fun d => by
        unfold Queue.seqOf Queue.insert
        dsimp only
        split
        · rename_i hd
          rw [hd,AList.lookup_insert]
          rfl
        · rename_i hd
          rw [AList.lookup_insert_ne hd])
    unfold Queues.Served Queues.step Queues.replies performMemory performSql
    dsimp only
    rw [hme,hsql]
    refine ⟨.stored ⟨List.mem_append_right _ List.mem_cons_self,?_⟩ ?_,hagree⟩
    · exact hids.sameID.text
    rw [hqc]
    unfold Queue.enqueueAs
    rw [h.counter]

theorem Queues.Agree.enqueue (h : σ.Agree codec) (ht : Storable time)
    (hfits : σ.Fits codec (.enqueue dev cmd time)) : σ.Served codec (.enqueue dev cmd time) := by
  have hrefused : ∀ {e : ErrorClass}, performMemory σ.issued σ.memory (.enqueue dev cmd time) = (.failed e,σ.memory) →
      performSql codec σ.issued σ.sql (.enqueue dev cmd time) = (.failed e,σ.sql) →
      σ.Served codec (.enqueue dev cmd time) := by
    intro e hm hs
    unfold Queues.Served Queues.step Queues.replies
    rw [hm,hs]
    exact ⟨.failed e,h.refused dev⟩
  by_cases hdev : dev = []
  · refine hrefused (e := .notFound) ?_ ?_
    · unfold performMemory Mdm.Queue.enqueue
      dsimp only
      rw [if_pos hdev]
      rfl
    unfold performSql Queue.enqueue
    dsimp only
    rw [if_pos hdev]
    rfl
  · cases hv : Mdm.validate cmd with
    | some e =>
      refine hrefused (e := .invalid e) ?_ ?_
      · have hc := σ.memory.enqueue_cases dev cmd time
        unfold performMemory
        dsimp only
        generalize σ.memory.enqueue dev cmd time = m at hc
        cases hc with
        | nowhere he => exact absurd he hdev
        | invalid _ he =>
          cases hv.symm.trans he
          rfl
        | conflict _ he _ | stored _ he _ _ => cases hv.symm.trans he
      · unfold performSql Queue.enqueue
        dsimp only
        rw [if_neg hdev,hv]
        rfl
    | none =>
      obtain ⟨hid,hnormal⟩ := hfits hdev hv
      unfold Codec.normal at hnormal
      cases hbody : Syncml.encodeCommand [] cmd.body with
      | error e =>
        rw [hbody] at hnormal
        cases hnormal
      | ok body =>
        rw [hbody] at hnormal
        by_cases hempty : cmd.id = []
        · -- both queues make up an ID, and neither has it yet
          have hstored : σ.memory.storedID cmd = generatedID (σ.memory.nextID+1) := if_pos hempty
          obtain ⟨hm,hs⟩ := h.generated_free dev
          refine h.accepted hv hdev ht hbody hnormal (hstored ▸ hm) (σ.sql.assignedID_fresh dev) ?_ ?_
          · rw [hstored,h.assignedID,show (σ.memory.countID cmd).nextID = σ.memory.nextID+1 from by
              rw [Mdm.Queue.countID,if_pos hempty]]
            exact .generated
          unfold Queue.enqueue
          rw [if_neg hdev,hv,hbody]
          dsimp only
          rw [if_pos hempty]
        · have hstored : σ.memory.storedID cmd = cmd.id := if_neg hempty
          have hcount : σ.memory.countID cmd = σ.memory := if_neg hempty
          by_cases htaken : cmd.id ∈ σ.sql.ids dev
          · refine hrefused (e := .conflict) ?_ ?_
            · have hc := σ.memory.enqueue_cases dev cmd time
              unfold performMemory
              dsimp only
              generalize σ.memory.enqueue dev cmd time = m at hc
              cases hc with
              | nowhere he => exact absurd he hdev
              | invalid _ he => cases hv.symm.trans he
              | conflict =>
                rw [hcount]
                rfl
              | stored _ _ he _ => exact absurd (hstored ▸ (h.named_iff hid).mpr htaken) he
            · unfold performSql Queue.enqueue
              dsimp only
              rw [if_neg hdev,hv,hbody]
              dsimp only
              rw [if_neg hempty,dif_pos htaken]
              rfl
          · refine h.accepted hv hdev ht hbody hnormal
              (hstored ▸ fun hm => htaken ((h.named_iff hid).mp hm)) htaken ?_ ?_
            · rw [hstored,hcount]
              exact .named hempty hid
            unfold Queue.enqueue
            rw [if_neg hdev,hv,hbody]
            dsimp only
            rw [if_neg hempty,dif_neg htaken]

end Enqueue

theorem Queues.Agree.serve (h : σ.Agree codec) (ht : c.Timely)
    (hfits : σ.Fits codec c) : σ.Served codec c := by
  cases c with
  | enqueue dev cmd time => exact h.enqueue ht hfits
  | deliverable dev limit =>
    obtain ⟨bs,hbs,hall⟩ := h.deliverable dev limit
    refine Queues.served_of (fun _ _ => rfl) rfl ?_ (.commands hall) h
    unfold performSql
    dsimp only
    rw [hbs]
  | markSent dev ds => exact h.markSent ht hfits.1 hfits.2
  | storeResult dev id r => exact h.storeResult hfits.1 ht hfits.2.1 hfits.2.2
  | get dev id =>
    rcases h.get hfits with ⟨hm,hs⟩ | ⟨a,b,hm,hs,halike⟩
    · refine Queues.served_of (fun _ _ => rfl) ?_ ?_ (.failed .notFound) h
      · unfold performMemory
        dsimp only
        rw [hm]
      unfold performSql
      dsimp only
      rw [hs]
      rfl
    · refine Queues.served_of (fun _ _ => rfl) ?_ ?_ (.found halike) h
      · unfold performMemory
        dsimp only
        rw [hm]
      · unfold performSql
        dsimp only
        rw [hs]
  | list dev query p =>
    rcases h.list dev query p with ⟨hm,hs⟩ | ⟨a,b,hm,hs,hitems,hnext⟩
    · refine Queues.served_of (fun _ _ => rfl) ?_ ?_ (.failed .cursor) h
      · unfold performMemory
        dsimp only
        rw [hm]
      · unfold performSql
        dsimp only
        rw [hs]
    · refine Queues.served_of (fun _ _ => rfl) ?_ ?_ (.page hitems hnext) h
      · unfold performMemory
        dsimp only
        rw [hm]
      · unfold performSql
        dsimp only
        rw [hs]
  | cancel dev ids time => exact h.cancel ht hfits
  | prune before range tie => exact h.prune ht range tie

theorem Queues.Agree.run {calls : List ClientCall} (h : σ.Agree codec)
    (ht : ∀ c ∈ calls, c.Timely)
    (hfits : Lifecycle.Allowed (Queues.step codec) (Queues.Fits codec) σ calls) :
    (calls.foldl (Queues.step codec) σ).Agree codec := by
  induction calls generalizing σ with
  | nil => exact h
  | cons c calls ih =>
    exact ih (h.serve (ht c List.mem_cons_self) hfits.1).2 (fun x hx => ht x (List.mem_cons_of_mem _ hx)) hfits.2

/-- Through calls that meet none of their differences both queues answer alike, and hold the same
commands. -/
theorem queues_agree (codec : Codec) (calls : List ClientCall) (ht : ∀ c ∈ calls, c.Timely)
    (hfits : Lifecycle.Allowed (Queues.step codec) (Queues.Fits codec) {} calls) :
    (∀ pre c post, calls = pre ++ c :: post →
      Reply.Same codec ((pre ++ [c]).foldl (Queues.step codec) {}).issued c.dev
        ((pre.foldl (Queues.step codec) {}).replies codec c).1
        ((pre.foldl (Queues.step codec) {}).replies codec c).2) ∧
    (calls.foldl (Queues.step codec) {}).HoldSame codec := by
  refine ⟨?_,((Queues.agree_start codec).run ht hfits).holdSame⟩
  rintro pre c post rfl
  obtain ⟨hpre,hc⟩ := (Lifecycle.allowed_append _).mp hfits
  have hagree := (Queues.agree_start codec).run (fun x hx => ht x (List.mem_append_left _ hx)) hpre
  rw [List.foldl_append]
  exact (hagree.serve (ht c (List.mem_append_right _ List.mem_cons_self)) hc.1).1

namespace Sample

def plainCodec : Codec :=
  ⟨fun _ => some Mdm.Sample.policy.body,fun _ => some "r",
    fun _ => some { Mdm.Sample.answer with receivedAt := unixEpoch+7 },.changed⟩

def twoDevices : List ClientCall :=
  [.enqueue "a" { Mdm.Sample.policy with id := [] } (unixEpoch+1),
    .enqueue "b" { Mdm.Sample.policy with id := [] } (unixEpoch+2),
    .markSent "b" [⟨.returned 1,"2",unixEpoch+3⟩],
    .storeResult "b" (.returned 1) { Mdm.Sample.answer with receivedAt := unixEpoch+7 },
    .cancel "a" [.returned 0,.text "p"] (unixEpoch+8),.get "b" (.returned 1)]

def halfKnown : List ClientCall :=
  [.enqueue "a" Mdm.Sample.policy (unixEpoch+1),
    .markSent "a" [⟨.text "p","2",unixEpoch+3⟩,⟨.text "q","2",unixEpoch+3⟩]]

end Sample

set_option maxRecDepth 4000

/-- The second command is "cmd-2" in memory and "cmd-1" in the table of the other device. -/
theorem queues_agree_two_devices :
    (Sample.twoDevices.foldl (Queues.step Sample.plainCodec) {}).issued =
      [⟨"a","cmd-1","cmd-1"⟩,⟨"b","cmd-2","cmd-1"⟩] ∧
    (Sample.twoDevices.foldl (Queues.step Sample.plainCodec) {}).HoldSame Sample.plainCodec := by
  refine ⟨by decide +kernel,(queues_agree Sample.plainCodec Sample.twoDevices ?_ ?_).2⟩
  · decide +kernel
  · decide +kernel

/-- `MarkSent` fails in both queues, and in memory the first delivery stays. -/
theorem half_marked : ∃ (codec : Codec) (calls : List ClientCall), (∀ c ∈ calls, c.Timely) ∧
    ¬(calls.foldl (Queues.step codec) {}).HoldSame codec := by
  refine ⟨Sample.plainCodec,Sample.halfKnown,by decide +kernel,fun h => ?_⟩
  obtain ⟨bs,hbs,hall⟩ := h "a"
  have hpending : ∃ b, (bySeq ((Sample.halfKnown.foldl (Queues.step Sample.plainCodec) {}).sql.deviceRows
      "a")).mapM Sample.plainCodec.scanCommand = .ok [b] ∧ b.state = .pending := ⟨_,rfl,rfl⟩
  have hsent : ∃ a, (Sample.halfKnown.foldl (Queues.step Sample.plainCodec) {}).memory.commands "a" = [a] ∧
      a.state = .sent := ⟨_,rfl,rfl⟩
  obtain ⟨b,hb,hstate⟩ := hpending
  obtain ⟨a,ha,hstate'⟩ := hsent
  cases hb.symm.trans hbs
  rw [ha] at hall
  obtain ⟨halike,-⟩ := List.forall₂_cons.mp hall
  have hsame : b.state = a.state := by rw [halike.read.rest]
  rw [hstate,hstate'] at hsame
  cases hsame

end MicrosoftDM.Sqlstore
