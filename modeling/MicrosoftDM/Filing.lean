import MicrosoftDM.AcceptedCalls

set_option autoImplicit false

namespace MicrosoftDM.Mdm
open MicrosoftDM.Syncml (Item Alert Status Results Message Assembler ChunkError)

theorem Session.pendingOf_updatePending (sess : Session) (id id' : GoString)
    (f : PendingResult → PendingResult) :
    (sess.updatePending id f).pendingOf id' =
      if id' = id then f (sess.pendingOf id) else sess.pendingOf id' := by
  unfold pendingOf updatePending
  by_cases h : id' = id
  · subst h; simp [pendingOf]
  · simp [h,AList.lookup_insert_ne h]

variable {s t : Session}

theorem Session.pendingOf_congr (h : s.results = t.results) (id : GoString) :
    s.pendingOf id = t.pendingOf id := by
  unfold pendingOf
  rw [h]

theorem assemble_results (id : GoString) (s : Session) (a : Assembler) (items : List Item) :
    (assemble id s a items).2.results = s.results := by
  induction items generalizing s a with
  | nil => rfl
  | cons it rest ih =>
    simp only [assemble]
    split
    · rfl
    · exact ih _ _
    rename_i a' _
    have h := ih s a'
    split
    · rename_i hr; rw [hr] at h; exact h
    · rename_i hr; rw [hr] at h; exact h

def Session.take (cfg : Config) (sess : Session) : Syncml.Command → Except ChunkError Session
  | .results res =>
    match fileResults cfg.maxRequestSize sess res with
    | (.ok _,sess) => .ok sess
    | (.error e,_) => .error e
  | .alert a => .ok (sess.alerted cfg.hooks a)
  | _ => .ok sess

def Session.takeAll (cfg : Config) : Session → List Syncml.Command → Except ChunkError Session
  | sess, [] => .ok sess
  | sess, c :: cs =>
    match sess.take cfg c with
    | .ok sess => sess.takeAll cfg cs
    | .error e => .error e

variable {cfg : Config} {c : Syncml.Command}

def Work.RepliesOn (w w' : Work) : Prop :=
  ∃ cs, w'.resp = { w.resp with body := { w.resp.body with commands := cs } }

section RepliesOn
variable {req : Message} {w w' w₁ w₂ w₃ : Work}

theorem Work.RepliesOn.trans (h₁ : w₁.RepliesOn w₂) (h₂ : w₂.RepliesOn w₃) : w₁.RepliesOn w₃ := by
  obtain ⟨cs,h₁⟩ := h₁
  obtain ⟨ds,h₂⟩ := h₂
  exact ⟨ds,by rw [h₂,h₁]⟩

theorem Work.RepliesOn.header (h : w.RepliesOn w') : w'.resp.header = w.resp.header := by
  obtain ⟨cs,h⟩ := h
  rw [h]

theorem Work.RepliesOn.final (h : w.RepliesOn w') : w'.resp.body.final = w.resp.body.final := by
  obtain ⟨cs,h⟩ := h
  rw [h]

theorem Work.ack_repliesOn (h : w.ack cfg req c = .ok w') : w.RepliesOn w' ∧ w'.popped = w.popped := by
  cases c with
  | status s => cases h; exact ⟨⟨_,rfl⟩,rfl⟩
  | results r =>
    simp only [Work.ack] at h
    split at h
    · cases h
      exact ⟨⟨_,rfl⟩,rfl⟩
    · cases h
  | alert _ | leaf _ _ | group _ _ _ _ _ => cases h; exact ⟨⟨_,rfl⟩,rfl⟩

theorem Work.ackAll_repliesOn {cs : List Syncml.Command} (h : w.ackAll cfg req cs = .ok w') :
    w.RepliesOn w' := by
  induction cs generalizing w with
  | nil => cases h; exact ⟨_,rfl⟩
  | cons c cs ih =>
    simp only [Work.ackAll] at h
    split at h
    · rename_i w₁ hc
      exact (Work.ack_repliesOn hc).1.trans (ih h)
    · cases h

end RepliesOn

variable {req : Message} {w w' : Work} {s₁ s₂ s₃ : Session}

theorem Work.ack_sess (h : w.ack cfg req c = .ok w') :
    w.sess.take cfg c = .ok w'.sess := by
  cases c with
  | status _ | leaf _ _ | group _ _ _ _ _ | alert _ => cases h; rfl
  | results res =>
    simp only [Work.ack,Session.take] at h ⊢
    rcases hf : fileResults cfg.maxRequestSize w.sess res with ⟨r,s⟩
    rw [hf] at h
    cases r with
    | error e => cases h
    | ok u => cases h; rfl

variable {cs : List Syncml.Command}

theorem Work.ackAll_sess (h : w.ackAll cfg req cs = .ok w') :
    w.sess.takeAll cfg cs = .ok w'.sess := by
  induction cs generalizing w with
  | nil => cases h; rfl
  | cons c cs ih =>
    simp only [Work.ackAll] at h
    cases hc : w.ack cfg req c with
    | error e => simp [hc] at h
    | ok w₁ =>
      rw [hc] at h
      simp [Session.takeAll,Work.ack_sess hc,ih h]

structure Session.Taking (s s' : Session) : Prop where
  steady : s.Steady s'
  facts : s'.facts = s.facts
  gotPackageOne : s'.gotPackageOne = s.gotPackageOne
  sent : s'.sent = s.sent
  children : s'.children = s.children
  outgoing : s'.outgoing = s.outgoing
  pending : ∀ id, ∃ items, s'.pendingOf id = { s.pendingOf id with items := items }

theorem Session.Taking.refl (s : Session) : s.Taking s :=
  ⟨.refl s,rfl,rfl,rfl,rfl,rfl,fun _ => ⟨_,rfl⟩⟩

theorem Session.Taking.trans (h₁ : s₁.Taking s₂) (h₂ : s₂.Taking s₃) :
    s₁.Taking s₃ where
  steady := h₁.steady.trans h₂.steady
  facts := h₂.facts.trans h₁.facts
  gotPackageOne := h₂.gotPackageOne.trans h₁.gotPackageOne
  sent := h₂.sent.trans h₁.sent
  children := h₂.children.trans h₁.children
  outgoing := h₂.outgoing.trans h₁.outgoing
  pending := by
    intro id
    obtain ⟨x,hx⟩ := h₁.pending id
    obtain ⟨y,hy⟩ := h₂.pending id
    exact ⟨y,by rw [hy,hx]⟩

theorem Session.Taking.status {s s' : Session} (h : s.Taking s') (id : GoString) :
    (s'.pendingOf id).status = (s.pendingOf id).status := by
  obtain ⟨items,hp⟩ := h.pending id
  rw [hp]

theorem Session.taking_of_writes (s : Session) (asm : Option Assembler) (ac : GoString) (c u : Bool) :
    s.Taking { s with assembler := asm, assemblingCommand := ac, closed := c, unenroll := u } :=
  ⟨by constructor <;> rfl,rfl,rfl,rfl,rfl,rfl,fun _ => ⟨_,rfl⟩⟩

theorem Session.stashResults_taking (s : Session) (id : GoString) (items : List Item) :
    s.Taking (s.stashResults id items) := by
  refine ⟨by constructor <;> rfl,rfl,rfl,rfl,rfl,rfl,fun x => ?_⟩
  unfold stashResults
  rw [pendingOf_updatePending]
  split
  · rename_i he
    rw [he]
    exact ⟨_,rfl⟩
  · exact ⟨_,rfl⟩

theorem assemble_taking (id : GoString) (sess : Session) (a : Assembler) (items : List Item) :
    sess.Taking (assemble id sess a items).2 := by
  induction items generalizing sess a with
  | nil => exact sess.taking_of_writes _ _ _ _
  | cons it rest ih =>
    simp only [assemble]
    split
    · exact sess.taking_of_writes _ _ _ _
    · rename_i a' _
      exact (sess.taking_of_writes _ _ _ _).trans (ih { sess with assemblingCommand := id } a')
    rename_i a' _
    have hs := ih sess a'
    split
    · rename_i h; rw [h] at hs; exact hs
    · rename_i h; rw [h] at hs; exact hs

theorem fileResults_taking (maxRequestSize : Int) (sess : Session) (res : Results) :
    sess.Taking (fileResults maxRequestSize sess res).2 := by
  unfold fileResults
  split
  · exact .refl sess
  rename_i id _
  have hs := assemble_taking id sess (sess.assembler.getD { maxSize := maxRequestSize }) res.items
  split
  · rename_i h; rw [h] at hs; exact hs
  rename_i s h
  rw [h] at hs
  split
  · exact hs
  · exact (hs.trans (s.taking_of_writes _ _ _ _)).trans (Session.stashResults_taking _ _ _)

theorem noteItems_eq (code : Syncml.AlertCode) (sess : Session) (items : List Item) :
    ∃ c u, sess.noteItems code items = { sess with closed := c, unenroll := u } := by
  unfold Session.noteItems
  split
  · induction items generalizing sess with
    | nil => exact ⟨_,_,rfl⟩
    | cons it rest ih =>
      obtain ⟨c,u,h⟩ := ih (sess.noteUnenroll it)
      refine ⟨c,u,h.trans ?_⟩
      unfold Session.noteUnenroll
      split <;> rfl
  · exact ⟨_,_,rfl⟩

theorem alerted_eq (sess : Session) (hooks : Bool) (a : Alert) :
    (∃ c u, sess.alerted hooks a = { sess with closed := c, unenroll := u }) ∨
    a.code = Syncml.alertNoEndOfData ∧ sess.alerted hooks a = sess.resetUpload := by
  unfold Session.alerted
  split
  · exact .inl ⟨_,_,rfl⟩
  split
  · exact .inl ⟨_,_,rfl⟩
  split
  · rename_i hc
    exact .inr ⟨hc,rfl⟩
  split
  · exact .inl (noteItems_eq _ _ _)
  · exact .inl ⟨_,_,rfl⟩

theorem alerted_taking (sess : Session) (hooks : Bool) (a : Alert) :
    sess.Taking (sess.alerted hooks a) := by
  rcases alerted_eq sess hooks a with ⟨c,u,h⟩ | ⟨-,h⟩
  · rw [h]; exact sess.taking_of_writes _ _ _ _
  · rw [h]; exact sess.taking_of_writes _ _ _ _

variable {s' : Session}

theorem Session.take_taking (h : s.take cfg c = .ok s') : s.Taking s' := by
  cases c with
  | status _ | leaf _ _ | group _ _ _ _ _ => cases h; exact .refl s
  | alert a => cases h; exact alerted_taking s _ a
  | results res =>
    have ht := fileResults_taking cfg.maxRequestSize s res
    simp only [take] at h
    rcases hf : fileResults cfg.maxRequestSize s res with ⟨r,s₁⟩
    rw [hf] at h ht
    cases r with
    | error e => cases h
    | ok u => cases h; exact ht

theorem Session.takeAll_taking (h : s.takeAll cfg cs = .ok s') : s.Taking s' := by
  induction cs generalizing s with
  | nil => cases h; exact .refl _
  | cons c cs ih =>
    simp only [takeAll] at h
    cases hc : s.take cfg c with
    | error e => simp [hc] at h
    | ok s₁ =>
      rw [hc] at h
      exact (take_taking hc).trans (ih h)

/-- What filing Statuses leaves alone. Entries of the maps only disappear. -/
structure Session.StatusFiling (s s' : Session) : Prop where
  steady : s.Steady s'
  facts : s'.facts = s.facts
  gotPackageOne : s'.gotPackageOne = s.gotPackageOne
  outgoing : s'.outgoing = s.outgoing
  assembler : s'.assembler = s.assembler
  assemblingCommand : s'.assemblingCommand = s.assemblingCommand
  closed : s'.closed = s.closed
  unenroll : s'.unenroll = s.unenroll
  sent : ∀ k id, s'.sent.lookup k = some id → s.sent.lookup k = some id
  children : ∀ k id, s'.children.lookup k = some id → s.children.lookup k = some id

theorem Session.StatusFiling.refl (s : Session) : s.StatusFiling s :=
  ⟨.refl s,rfl,rfl,rfl,rfl,rfl,rfl,rfl,fun _ _ h => h,fun _ _ h => h⟩

theorem Session.StatusFiling.trans (h₁ : s₁.StatusFiling s₂)
    (h₂ : s₂.StatusFiling s₃) : s₁.StatusFiling s₃ where
  steady := h₁.steady.trans h₂.steady
  facts := h₂.facts.trans h₁.facts
  gotPackageOne := h₂.gotPackageOne.trans h₁.gotPackageOne
  outgoing := h₂.outgoing.trans h₁.outgoing
  assembler := h₂.assembler.trans h₁.assembler
  assemblingCommand := h₂.assemblingCommand.trans h₁.assemblingCommand
  closed := h₂.closed.trans h₁.closed
  unenroll := h₂.unenroll.trans h₁.unenroll
  sent := fun k id h => h₁.sent k id (h₂.sent k id h)
  children := fun k id h => h₁.children k id (h₂.children k id h)

theorem fileStatus_filing (s : Session) (st : Status) : s.StatusFiling (fileStatus s st) := by
  unfold fileStatus
  split
  · exact .refl s
  split
  · exact ⟨by constructor <;> rfl,rfl,rfl,rfl,rfl,rfl,rfl,rfl,fun _ _ h => h,
      fun k id h => (GoMap.lookup_erase_some h).2⟩
  split
  · exact .refl s
  split
  · exact ⟨by constructor <;> rfl,rfl,rfl,rfl,rfl,rfl,rfl,rfl,fun _ _ h => h,fun _ _ h => h⟩
  · exact ⟨by constructor <;> rfl,rfl,rfl,rfl,rfl,rfl,rfl,rfl,
      fun k id h => (GoMap.lookup_erase_some h).2,fun _ _ h => h⟩

theorem fileStatuses_filing (s : Session) (sts : List Status) :
    s.StatusFiling (fileStatuses s sts) := by
  induction sts generalizing s with
  | nil => exact .refl s
  | cons st sts ih => exact (fileStatus_filing s st).trans (ih (fileStatus s st))

inductive StatusTarget where
  | ignored
  | member (parent : GoString)
  | command (id : GoString)
  deriving DecidableEq

def Session.statusTarget (s : Session) (st : Status) : StatusTarget :=
  if st.cmdRef = utf8 "0" then .ignored
  else
    match s.children.lookup (statusKey st) with
    | some parent => .member parent
    | none =>
      match s.sent.lookup (statusKey st) with
      | some id => .command id
      | none => .ignored

variable {id : GoString} {st : Status}

theorem Session.statusTarget_command (h : s.statusTarget st = .command id) :
    s.children.lookup (statusKey st) = none ∧ s.sent.lookup (statusKey st) = some id := by
  unfold statusTarget at h
  split at h
  · cases h
  split at h
  · cases h
  rename_i hc
  split at h
  · rename_i hs; cases h; exact ⟨hc,hs⟩
  · cases h

theorem Session.statusTarget_member (h : s.statusTarget st = .member id) :
    s.children.lookup (statusKey st) = some id := by
  unfold statusTarget at h
  split at h
  · cases h
  split at h
  · rename_i hc; cases h; exact hc
  · split at h <;> cases h

theorem pendingOf_fileStatus (s : Session) (st : Status) (id : GoString) :
    (fileStatus s st).pendingOf id =
      match s.statusTarget st with
      | .ignored => s.pendingOf id
      | .member p => if id = p then (s.pendingOf p).withChild st else s.pendingOf id
      | .command x => if id = x then (s.pendingOf x).withStatus st else s.pendingOf id := by
  unfold fileStatus Session.statusTarget
  split
  · rfl
  cases hc : s.children.lookup (statusKey st) with
  | some p => exact s.pendingOf_updatePending p id (·.withChild st)
  | none =>
    cases hs : s.sent.lookup (statusKey st) with
    | none => rfl
    | some x =>
      dsimp only
      split
      · exact s.pendingOf_updatePending x id (·.withStatus st)
      · exact s.pendingOf_updatePending x id (·.withStatus st)

theorem fileStatus_status_mono (h : (s.pendingOf id).status ≠ none) :
    ((fileStatus s st).pendingOf id).status ≠ none := by
  rw [pendingOf_fileStatus]
  split
  · exact h
  · split
    · rename_i he; exact he ▸ h
    · exact h
  · split
    · simp [PendingResult.withStatus]
    · exact h

variable {sts : List Status}

theorem fileStatuses_status_mono (h : (s.pendingOf id).status ≠ none) :
    ((fileStatuses s sts).pendingOf id).status ≠ none := by
  induction sts generalizing s with
  | nil => exact h
  | cons st sts ih => exact ih (fileStatus_status_mono h)

theorem fileStatus_files (h0 : st.cmdRef ≠ utf8 "0")
    (hc : s.children.lookup (statusKey st) = none) (hs : s.sent.lookup (statusKey st) = some id) :
    ((fileStatus s st).pendingOf id).status = some st.code := by
  rw [pendingOf_fileStatus]
  simp [Session.statusTarget,h0,hc,hs,PendingResult.withStatus]

variable {k : GoString}

theorem fileStatus_sent_ne (h : k ≠ statusKey st) :
    (fileStatus s st).sent.lookup k = s.sent.lookup k := by
  unfold fileStatus
  split
  · rfl
  split
  · rfl
  split
  · rfl
  split
  · rfl
  · exact AList.lookup_erase_ne h

theorem fileStatuses_sent_ne (h : ∀ st ∈ sts, k ≠ statusKey st) :
    (fileStatuses s sts).sent.lookup k = s.sent.lookup k := by
  induction sts generalizing s with
  | nil => rfl
  | cons st sts ih =>
    exact (ih fun x hx => h x (List.mem_cons_of_mem st hx)).trans
      (fileStatus_sent_ne (h st List.mem_cons_self))

theorem fileStatus_children_ne (h : k ≠ statusKey st) :
    (fileStatus s st).children.lookup k = s.children.lookup k := by
  unfold fileStatus
  split
  · rfl
  split
  · exact AList.lookup_erase_ne h
  split
  · rfl
  · split <;> rfl

theorem fileStatuses_children_ne (h : ∀ st ∈ sts, k ≠ statusKey st) :
    (fileStatuses s sts).children.lookup k = s.children.lookup k := by
  induction sts generalizing s with
  | nil => rfl
  | cons st sts ih =>
    exact (ih fun x hx => h x (List.mem_cons_of_mem st hx)).trans
      (fileStatus_children_ne (h st List.mem_cons_self))

theorem fileStatuses_append (s : Session) (xs ys : List Status) :
    fileStatuses s (xs ++ ys) = fileStatuses (fileStatuses s xs) ys := List.foldl_append

theorem Session.StatusFiling.children_none (h : s.StatusFiling s')
    (hk : s.children.lookup k = none) : s'.children.lookup k = none := by
  cases hl : s'.children.lookup k with
  | none => rfl
  | some p =>
    rw [h.children k p hl] at hk
    cases hk

theorem fileStatuses_files (hst : st ∈ sts) (hk : statusKey st = k)
    (h0 : ∀ x ∈ sts, statusKey x = k → x.cmdRef ≠ utf8 "0") (hc : s.children.lookup k = none)
    (hs : s.sent.lookup k = some id) : ((fileStatuses s sts).pendingOf id).status ≠ none := by
  induction sts generalizing s with
  | nil => cases hst
  | cons x xs ih =>
    change ((fileStatuses (fileStatus s x) xs).pendingOf id).status ≠ none
    by_cases hx : statusKey x = k
    · subst hx
      apply fileStatuses_status_mono
      rw [fileStatus_files (h0 x List.mem_cons_self rfl) hc hs]
      simp
    rcases List.mem_cons.mp hst with he | hst
    · exact absurd (he ▸ hk) hx
    refine ih hst (fun y hy => h0 y (List.mem_cons_of_mem x hy)) ?_ ?_
    · exact (fileStatus_filing s x).children_none hc
    · rw [fileStatus_sent_ne (Ne.symm hx),hs]

theorem fileStatuses_other {s : Session} {sts : List Status} {id : GoString}
    (h : ∀ st ∈ sts, s.sent.lookup (statusKey st) ≠ some id) :
    ∃ cs, (fileStatuses s sts).pendingOf id = { s.pendingOf id with children := cs } := by
  induction sts generalizing s with
  | nil => exact ⟨_,rfl⟩
  | cons st sts ih =>
    obtain ⟨cs,hcs⟩ := ih (s := fileStatus s st) fun x hx hl =>
      h x (List.mem_cons_of_mem st hx) ((fileStatus_filing s st).sent _ _ hl)
    have hone : ∃ cs, (fileStatus s st).pendingOf id = { s.pendingOf id with children := cs } := by
      rw [pendingOf_fileStatus]
      cases ht : s.statusTarget st with
      | ignored => exact ⟨_,rfl⟩
      | member p =>
        dsimp only
        split
        · rename_i he; rw [he]; exact ⟨_,rfl⟩
        · exact ⟨_,rfl⟩
      | command x =>
        dsimp only
        split
        · rename_i he
          subst he
          exact absurd (Session.statusTarget_command ht).2 (h st List.mem_cons_self)
        · exact ⟨_,rfl⟩
    obtain ⟨cs',hone⟩ := hone
    refine ⟨cs,hcs.trans ?_⟩
    rw [hone]

/-- The first Status on the key of a command that is not being uploaded is its answer. -/
theorem fileStatuses_first {s : Session} {sts : List Status} {k id : GoString} {st : Status}
    (hst : sts.find? (fun x => statusKey x = k) = some st) (h0 : st.cmdRef ≠ utf8 "0")
    (hc : s.children.lookup k = none) (hk : s.sent.lookup k = some id)
    (ha : s.assemblingCommand ≠ id)
    (honly : ∀ x ∈ sts, s.sent.lookup (statusKey x) = some id → statusKey x = k) :
    (fileStatuses s sts).sent.lookup k = none ∧
    ∃ cs, (fileStatuses s sts).pendingOf id =
      { (s.pendingOf id).withStatus st with children := cs } := by
  induction sts generalizing s with
  | nil => cases hst
  | cons x xs ih =>
    by_cases hx : statusKey x = k
    · subst hx
      have he : x = st := by simpa using hst
      subst he
      have hsent : (fileStatus s x).sent.lookup (statusKey x) = none := by
        unfold fileStatus
        rw [if_neg h0,hc]
        simp only [hk,if_neg ha]
        exact AList.lookup_erase _ _
      have hp : (fileStatus s x).pendingOf id = (s.pendingOf id).withStatus x := by
        rw [pendingOf_fileStatus]
        simp [Session.statusTarget,h0,hc,hk]
      obtain ⟨cs,hcs⟩ := @fileStatuses_other (fileStatus s x) xs id (by
        intro y hy hl
        have hyk := honly y (List.mem_cons_of_mem x hy) ((fileStatus_filing s x).sent _ _ hl)
        rw [hyk,hsent] at hl
        cases hl)
      refine ⟨?_,cs,by rw [← hp]; exact hcs⟩
      cases hl : (fileStatuses s (x :: xs)).sent.lookup (statusKey x) with
      | none => rfl
      | some v =>
        have := (fileStatuses_filing (fileStatus s x) xs).sent _ v hl
        rw [hsent] at this
        cases this
    · have hne : s.sent.lookup (statusKey x) ≠ some id := fun hl =>
        hx (honly x List.mem_cons_self hl)
      obtain ⟨cs,hp⟩ := @fileStatuses_other s [x] id (by simpa using hne)
      have hp : (fileStatus s x).pendingOf id = { s.pendingOf id with children := cs } := hp
      have hfil := fileStatus_filing s x
      obtain ⟨hsent,cs',hcs'⟩ := ih (s := fileStatus s x) (by simpa [hx] using hst)
        (hfil.children_none hc)
        (by rw [fileStatus_sent_ne (Ne.symm hx),hk]) (by rw [hfil.assemblingCommand]; exact ha)
        (fun y hy hl => honly y (List.mem_cons_of_mem x hy) (hfil.sent _ _ hl))
      refine ⟨hsent,cs',hcs'.trans ?_⟩
      rw [hp]
      rfl

/-- The Status goes to a group member, and no other of the message has its key. -/
def Session.Shadowed (s : Session) (sts : List Status) (x : Status) : Prop :=
  s.children.lookup (statusKey x) ≠ none ∧ (sts.map statusKey).count (statusKey x) = 1

instance (s : Session) (sts : List Status) (x : Status) : Decidable (s.Shadowed sts x) :=
  inferInstanceAs (Decidable (_ ∧ _))

theorem fileStatus_member {p : GoString} (hc : s.children.lookup (statusKey st) = some p) :
    (fileStatus s st).sent = s.sent ∧
    (st.cmdRef ≠ utf8 "0" → (fileStatus s st).children.lookup (statusKey st) = none) := by
  unfold fileStatus
  by_cases h0 : st.cmdRef = utf8 "0"
  · rw [if_pos h0]
    exact ⟨rfl,fun h => absurd h0 h⟩
  · rw [if_neg h0,hc]
    exact ⟨rfl,fun _ => AList.lookup_erase _ _⟩

theorem fileStatuses_sent_shadowed (h : ∀ x ∈ sts, statusKey x = k → s.Shadowed sts x) :
    (fileStatuses s sts).sent.lookup k = s.sent.lookup k := by
  cases hf : sts.filter (fun x => statusKey x = k) with
  | nil =>
    refine fileStatuses_sent_ne fun x hx he => ?_
    simpa [he] using List.filter_eq_nil_iff.mp hf x hx
  | cons st rest =>
    obtain ⟨pre,post,rfl,hpre,hkey,-⟩ := List.filter_eq_cons_iff.mp hf
    have hpre : ∀ x ∈ pre, k ≠ statusKey x := fun x hx he => by simpa [he] using hpre x hx
    have hkey : statusKey st = k := by simpa using hkey
    subst hkey
    obtain ⟨hc,hcount⟩ := h st (by simp) rfl
    have hpost : ∀ x ∈ post, statusKey st ≠ statusKey x := by
      intro x hx he
      have hpos : 0 < (post.map statusKey).count (statusKey st) :=
        List.count_pos_iff.mpr (he ▸ List.mem_map_of_mem hx)
      rw [List.map_append,List.map_cons,List.count_append,List.count_cons_self] at hcount
      omega
    obtain ⟨p,hp⟩ := Option.ne_none_iff_exists'.mp hc
    rw [← fileStatuses_children_ne hpre] at hp
    rw [fileStatuses_append]
    refine (fileStatuses_sent_ne (s := fileStatus (fileStatuses s pre) st) hpost).trans ?_
    rw [(fileStatus_member hp).1,fileStatuses_sent_ne hpre]

theorem fileStatuses_unshadowed {x : Status} (hx : x ∈ sts)
    (h0 : ∀ y ∈ sts, statusKey y = statusKey x → y.cmdRef ≠ utf8 "0")
    (hs : s.sent.lookup (statusKey x) = some id) (hn : ¬s.Shadowed sts x) :
    ((fileStatuses s sts).pendingOf id).status ≠ none := by
  cases hc : s.children.lookup (statusKey x) with
  | none => exact fileStatuses_files hx rfl h0 hc hs
  | some p =>
    -- the first Status uses the member's key up, so that the second reaches the command
    have hcount : (sts.map statusKey).count (statusKey x) ≠ 1 := fun h => hn ⟨by rw [hc]; simp,h⟩
    cases hf : sts.filter (fun y => statusKey y = statusKey x) with
    | nil => exact absurd (List.filter_eq_nil_iff.mp hf x hx) (by simp)
    | cons y rest =>
      obtain ⟨pre,post,rfl,hpre,hkey,-⟩ := List.filter_eq_cons_iff.mp hf
      have hpre : ∀ z ∈ pre, statusKey x ≠ statusKey z := fun z hz he => by simpa [he] using hpre z hz
      have hkey : statusKey y = statusKey x := by simpa using hkey
      have hzero : (pre.map statusKey).count (statusKey x) = 0 := by
        refine List.count_eq_zero.mpr fun hin => ?_
        obtain ⟨z,hz,he⟩ := List.mem_map.mp hin
        exact hpre z hz he.symm
      rw [List.map_append,List.map_cons,List.count_append,hkey,List.count_cons_self] at hcount
      have hpos : 0 < (post.map statusKey).count (statusKey x) := by omega
      obtain ⟨z,hz,hzk⟩ := List.mem_map.mp (List.count_pos_iff.mp hpos)
      rw [← fileStatuses_children_ne hpre,← hkey] at hc
      obtain ⟨hsent,hgone⟩ := fileStatus_member hc
      rw [fileStatuses_append]
      refine fileStatuses_files (s := fileStatus (fileStatuses s pre) y) hz hzk
        (fun v hv => h0 v (by simp [hv])) ?_ ?_
      · rw [← hkey]
        exact hgone (h0 y (by simp) hkey)
      · rw [hsent,fileStatuses_sent_ne hpre]
        exact hs

theorem fileStatuses_shadowed {s : Session} {sts : List Status} {id : GoString}
    (h : ∀ x ∈ sts, s.sent.lookup (statusKey x) = some id → s.Shadowed sts x) :
    ((fileStatuses s sts).pendingOf id).status = (s.pendingOf id).status := by
  induction sts generalizing s with
  | nil => rfl
  | cons x xs ih =>
    have hfil := fileStatus_filing s x
    have hrest : ((fileStatuses (fileStatus s x) xs).pendingOf id).status =
        ((fileStatus s x).pendingOf id).status := by
      refine ih fun y hy hl => ?_
      obtain ⟨hc,hcount⟩ := h y (List.mem_cons_of_mem x hy) (hfil.sent _ _ hl)
      have hpos : 0 < (xs.map statusKey).count (statusKey y) :=
        List.count_pos_iff.mpr (List.mem_map_of_mem hy)
      rw [List.map_cons,List.count_cons] at hcount
      have hne : statusKey y ≠ statusKey x := by
        intro he
        rw [if_pos (by simp [he])] at hcount
        omega
      refine ⟨by rw [fileStatus_children_ne hne]; exact hc,?_⟩
      rw [if_neg (by simpa using Ne.symm hne)] at hcount
      simpa using hcount
    change ((fileStatuses (fileStatus s x) xs).pendingOf id).status = _
    rw [hrest,pendingOf_fileStatus]
    cases ht : s.statusTarget x with
    | ignored => rfl
    | member p =>
      dsimp only
      split
      · rename_i he; rw [he]; rfl
      · rfl
    | command y =>
      dsimp only
      split
      · rename_i he
        subst he
        obtain ⟨hc,hl⟩ := Session.statusTarget_command ht
        exact absurd hc (h x List.mem_cons_self hl).1
      · rfl

/-- The only Status on the key of a command gives it its code, if the others
that name it reach members. -/
theorem fileStatuses_only (hst : sts.filter (fun x => statusKey x = k) = [st])
    (h0 : st.cmdRef ≠ utf8 "0") (hc : s.children.lookup k = none) (hk : s.sent.lookup k = some id)
    (hother : ∀ x ∈ sts, s.sent.lookup (statusKey x) = some id → statusKey x = k ∨ s.Shadowed sts x) :
    ((fileStatuses s sts).pendingOf id).status = some st.code := by
  obtain ⟨pre,post,rfl,hpre,hkey,hpost⟩ := List.filter_eq_cons_iff.mp hst
  have hkey : statusKey st = k := by simpa using hkey
  have hpost : ∀ x ∈ post, statusKey x ≠ k := by simpa using hpost
  have hf₁ := fileStatuses_filing s pre
  have hf₂ := fileStatus_filing (fileStatuses s pre) st
  have hk₁ : (fileStatuses s pre).sent.lookup (statusKey st) = some id := by
    rw [hkey,fileStatuses_sent_ne fun x hx he => by simpa [he] using hpre x hx]
    exact hk
  have hstatus := fileStatus_files h0 (hf₁.children_none (hkey ▸ hc)) hk₁
  have hlast := @fileStatuses_shadowed (fileStatus (fileStatuses s pre) st) post id (by
    intro y hy hl
    rcases hother y (by simp [hy]) (hf₁.sent _ _ (hf₂.sent _ _ hl)) with he | ⟨hcy,hcount⟩
    · exact absurd he (hpost y hy)
    have hne : statusKey y ≠ statusKey st := by rw [hkey]; exact hpost y hy
    have hpos : 0 < (post.map statusKey).count (statusKey y) :=
      List.count_pos_iff.mpr (List.mem_map_of_mem hy)
    rw [List.map_append,List.map_cons,List.count_append,List.count_cons,
      if_neg (by simpa using Ne.symm hne)] at hcount
    have hzero : statusKey y ∉ pre.map statusKey := List.count_eq_zero.mp (by omega)
    refine ⟨?_,by omega⟩
    rw [fileStatus_children_ne hne,fileStatuses_children_ne]
    · exact hcy
    · intro x hx he
      exact hzero (he ▸ List.mem_map_of_mem hx))
  rw [fileStatuses_append]
  change ((fileStatuses (fileStatus (fileStatuses s pre) st) post).pendingOf id).status = _
  rw [hlast]
  exact hstatus

structure Session.Alike (s t : Session) : Prop where
  sent : t.sent = s.sent
  children : t.children = s.children
  outgoing : t.outgoing = s.outgoing
  assembler : t.assembler = s.assembler
  assemblingCommand : t.assemblingCommand = s.assemblingCommand
  results : t.results = s.results
  closed : t.closed = s.closed

theorem Session.Alike.pendingOf (h : s.Alike t) (id : GoString) :
    t.pendingOf id = s.pendingOf id := by
  unfold Session.pendingOf
  rw [h.results]

theorem Session.Alike.uploadPending (h : s.Alike t) : t.uploadPending = s.uploadPending := by
  unfold Session.uploadPending
  rw [h.assembler]

theorem assemble_alike (h : s.Alike t) (id : GoString) (a : Assembler) (items : List Item) :
    (assemble id t a items).1 = (assemble id s a items).1 ∧
    (assemble id s a items).2.Alike (assemble id t a items).2 := by
  induction items generalizing s t a with
  | nil => exact ⟨rfl,h.sent,h.children,h.outgoing,rfl,h.assemblingCommand,h.results,h.closed⟩
  | cons it rest ih =>
    simp only [assemble]
    rcases a.add it with ⟨r,a'⟩
    cases r with
    | error e => exact ⟨rfl,h.sent,h.children,h.outgoing,rfl,h.assemblingCommand,h.results,h.closed⟩
    | ok r =>
      cases r with
      | none =>
        have h' : { s with assemblingCommand := id }.Alike { t with assemblingCommand := id } :=
          ⟨h.sent,h.children,h.outgoing,h.assembler,rfl,h.results,h.closed⟩
        exact ih h' a'
      | some out =>
        obtain ⟨h₁,h₂⟩ := ih h a'
        dsimp only
        rcases hs : assemble id s a' rest with ⟨rs,s'⟩
        rcases ht : assemble id t a' rest with ⟨rt,t'⟩
        rw [hs,ht] at h₁ h₂
        subst h₁
        cases rt with
        | error _ | ok _ => exact ⟨rfl,h₂⟩

theorem Session.Alike.updatePending (h : s.Alike t) (id : GoString)
    (f : PendingResult → PendingResult) : (s.updatePending id f).Alike (t.updatePending id f) :=
  ⟨h.sent,h.children,h.outgoing,h.assembler,h.assemblingCommand,
    by simp [Session.updatePending,h.results,h.pendingOf],h.closed⟩

theorem fileResults_alike (h : s.Alike t) (maxRequestSize : Int) (res : Results) :
    (fileResults maxRequestSize t res).1 = (fileResults maxRequestSize s res).1 ∧
    (fileResults maxRequestSize s res).2.Alike (fileResults maxRequestSize t res).2 := by
  have hc : t.resultsCommand res = s.resultsCommand res := by
    unfold Session.resultsCommand
    rw [h.sent,h.children]
  unfold fileResults
  rw [hc,h.assembler]
  cases s.resultsCommand res with
  | none => exact ⟨rfl,h⟩
  | some id =>
    dsimp only
    obtain ⟨h₁,h₂⟩ := assemble_alike h id (s.assembler.getD { maxSize := maxRequestSize }) res.items
    rcases hs : assemble id s (s.assembler.getD { maxSize := maxRequestSize }) res.items with ⟨rs,s'⟩
    rcases ht : assemble id t (s.assembler.getD { maxSize := maxRequestSize }) res.items with ⟨rt,t'⟩
    rw [hs,ht] at h₁ h₂
    subst h₁
    cases rt with
    | error e => exact ⟨rfl,h₂⟩
    | ok items =>
      dsimp only
      rw [h₂.uploadPending]
      split
      · exact ⟨rfl,h₂⟩
      have h' : { s' with assemblingCommand := [] }.Alike { t' with assemblingCommand := [] } :=
        ⟨h₂.sent,h₂.children,h₂.outgoing,h₂.assembler,rfl,h₂.results,h₂.closed⟩
      exact ⟨rfl,h'.updatePending id fun pr => { pr with items := pr.items ++ items }⟩

theorem noteItems_alike (h : s.Alike t) (code : Syncml.AlertCode) (items : List Item) :
    (s.noteItems code items).Alike (t.noteItems code items) := by
  unfold Session.noteItems
  split
  · induction items generalizing s t with
    | nil => exact h
    | cons it rest ih =>
      refine ih (s := s.noteUnenroll it) (t := t.noteUnenroll it) ?_
      unfold Session.noteUnenroll
      split
      · exact ⟨h.sent,h.children,h.outgoing,h.assembler,h.assemblingCommand,h.results,rfl⟩
      · exact h
  · exact h

theorem alerted_alike (h : s.Alike t) (hooks : Bool) (a : Alert) :
    (s.alerted hooks a).Alike (t.alerted hooks a) := by
  unfold Session.alerted
  split
  · exact h
  split
  · exact ⟨h.sent,h.children,h.outgoing,h.assembler,h.assemblingCommand,h.results,rfl⟩
  split
  · exact ⟨h.sent,h.children,h.outgoing,by simp [Session.resetUpload,h.assembler],rfl,h.results,
      h.closed⟩
  split
  · exact noteItems_alike h _ _
  · exact h

theorem Session.take_alike (h : s.Alike t) (hs : s.take cfg c = .ok s') :
    ∃ t', t.take cfg c = .ok t' ∧ s'.Alike t' := by
  cases c with
  | status _ | leaf _ _ | group _ _ _ _ _ => cases hs; exact ⟨t,rfl,h⟩
  | alert a => cases hs; exact ⟨_,rfl,alerted_alike h cfg.hooks a⟩
  | results res =>
    obtain ⟨h₁,h₂⟩ := fileResults_alike h cfg.maxRequestSize res
    simp only [take] at hs ⊢
    rcases hfs : fileResults cfg.maxRequestSize s res with ⟨rs,s₁⟩
    rcases hft : fileResults cfg.maxRequestSize t res with ⟨rt,t₁⟩
    rw [hfs,hft] at h₁ h₂
    rw [hfs] at hs
    subst h₁
    cases rt with
    | error e => cases hs
    | ok u => cases hs; exact ⟨_,rfl,h₂⟩

theorem Session.takeAll_alike (h : s.Alike t) (hs : s.takeAll cfg cs = .ok s') :
    ∃ t', t.takeAll cfg cs = .ok t' ∧ s'.Alike t' := by
  induction cs generalizing s t with
  | nil => cases hs; exact ⟨t,rfl,h⟩
  | cons c cs ih =>
    simp only [takeAll] at hs ⊢
    cases hc : s.take cfg c with
    | error e => simp [hc] at hs
    | ok s₁ =>
      rw [hc] at hs
      obtain ⟨t₁,ht₁,ha⟩ := take_alike h hc
      rw [ht₁]
      exact ih ha hs

end MicrosoftDM.Mdm
