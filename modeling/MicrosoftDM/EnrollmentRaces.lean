import MicrosoftDM.SqlEnrollment

set_option autoImplicit false

namespace MicrosoftDM.Sqlstore
open Storage (Enrollment)
open Sql (Op Server Session Follows)

inductive Position where
  | idle
  | found (deviceID serial : GoString)
  | changed
  | superseding (known : Bool) (deviceID serial : GoString) (left : List GoString)
  | activated (deviceID serial : GoString)

def Position.activating : Position → Bool
  | .superseding _ _ _ _ => true
  | .activated _ _ => true
  | _ => false

def Position.complete : Position → Bool
  | .superseding _ _ _ _ => false
  | _ => true

def KeepsDevice (f : Option EnrollmentRow → Option (Option EnrollmentRow)) : Prop :=
  f none = none ∧ ∀ r x, f (some r) = some x → ∃ r', x = some r' ∧ r'.deviceID = r.deviceID

inductive Moves : Position → (op : Op EnrollmentRows) → op.Ans → Position → Prop where
  | failed {g : Position} {op : Op EnrollmentRows} {f : Sql.Fault} (h : op.ends = false) :
      Moves g op (.error f) g
  | aborted {g : Position} {op : Op EnrollmentRows} {f : Sql.Fault} (h : op.ends = true) :
      Moves g op (.error f) .idle
  | rolledBack {g : Position} : Moves g .rollback (.ok ()) .idle
  | committed {g : Position} (h : g.complete = true) : Moves g .commit (.ok ()) .idle
  | selected {g : Position} {p : GoString → EnrollmentRow → Bool}
      {rows : List ((s : GoString) × EnrollmentRows s)} : Moves g (.select p) (.ok rows) g
  | foundRow {p : GoString → EnrollmentRow → Bool} {rows : List ((s : GoString) × EnrollmentRows s)}
      {serial : GoString} {r : EnrollmentRow} (h : ⟨serial,r⟩ ∈ rows) :
      Moves .idle (.select p) (.ok rows) (.found r.deviceID serial)
  /-- The database does not give such rows. -/
  | impossible {g g' : Position} {p : GoString → EnrollmentRow → Bool}
      {rows : List ((s : GoString) × EnrollmentRows s)} {x : (s : GoString) × EnrollmentRows s}
      (h : x ∈ rows) (hp : ¬p x.1 x.2 = true) : Moves g (.select p) (.ok rows) g'
  | rewritten {g : Position} {serial : GoString} {old : Option EnrollmentRow}
      {f : Option EnrollmentRow → Option (Option EnrollmentRow)} (hg : g.activating = false)
      (hf : KeepsDevice f)
      (hactive : ∀ r r', f (some r) = some (some r') → r'.state = .active → r.state = .active) :
      Moves g (.write serial f) (.ok old) .changed
  | started {deviceID serial : GoString} {p : GoString → EnrollmentRow → Bool} {left : List GoString}
      (hp : ∀ s r, r.deviceID = deviceID → r.state = .active → s ≠ serial → p s r = true) :
      Moves .idle (.scan p) (.ok left) (.superseding false deviceID serial left)
  | restarted {deviceID serial : GoString} {p : GoString → EnrollmentRow → Bool} {left : List GoString}
      (hp : ∀ s r, r.deviceID = deviceID → r.state = .active → s ≠ serial → p s r = true) :
      Moves (.found deviceID serial) (.scan p) (.ok left) (.superseding true deviceID serial left)
  | superseded {known : Bool} {deviceID serial s : GoString} {left : List GoString}
      {old : Option EnrollmentRow} {f : Option EnrollmentRow → Option (Option EnrollmentRow)}
      (hf : KeepsDevice f) (hskip : ∀ r, f (some r) = none → r.deviceID = deviceID →
        r.state = .active → s = serial)
      (hactive : ∀ r r', f (some r) = some (some r') → r'.state ≠ .active) :
      Moves (.superseding known deviceID serial (s :: left)) (.write s f) (.ok old)
        (.superseding known deviceID serial left)
  | inserted {known : Bool} {deviceID serial : GoString} {old : Option EnrollmentRow}
      {f : Option EnrollmentRow → Option (Option EnrollmentRow)}
      (hnew : ∀ x, f none = some x → ∃ r, x = some r ∧ r.deviceID = deviceID)
      (htaken : ∀ r, f (some r) = none) :
      Moves (.superseding known deviceID serial []) (.write serial f) (.ok old)
        (.activated deviceID serial)
  | reset {deviceID serial : GoString} {old : Option EnrollmentRow}
      {f : Option EnrollmentRow → Option (Option EnrollmentRow)} (hf : KeepsDevice f) :
      Moves (.superseding true deviceID serial []) (.write serial f) (.ok old)
        (.activated deviceID serial)

/-- A transaction may commit where it is. -/
def MayCommit (r : Except (Sql.Failure EnrollmentError) Unit) (g : Position) : Prop :=
  r = .ok () → g.complete = true

variable {p : GoString → EnrollmentRow → Bool} {f : EnrollmentRow → EnrollmentRow}
  {e : Sql.Failure EnrollmentError} {g' : Position} {known : Bool} {dev deviceID serial : GoString}
  {r : EnrollmentRow} {own : Sql.Writes EnrollmentRows} {db : EnrollmentTable}

section Protocol
variable {g : Position}

theorem follows_end {body : EnrollmentBody Unit} (h : Follows Moves MayCommit body .idle) (n : Nat) :
    Follows Moves (fun _ g => g = .idle) (Sql.tx body n) .idle := by
  refine Sql.follows_tx h (fun a g ans hg => ?_) (fun e g ans _ => ?_) n
  · cases ans with
    | ok u => exact .committed (hg rfl)
    | error f => exact .aborted rfl
  · cases ans with
    | ok u => exact .rolledBack
    | error f => exact .aborted rfl

theorem follows_select {α : Type}
    {f : List ((s : GoString) × EnrollmentRows s) → EnrollmentBody α}
    {Q : Except (Sql.Failure EnrollmentError) α → Position → Prop} (herr : ∀ e, Q (.error e) g)
    (hf : ∀ rows, Follows Moves Q (f rows) g) : Follows Moves Q (Sql.select p >>= f) g := by
  refine Follows.bind (Q := fun _ g' => g' = g) (Sql.follows_statement fun ans => ?_)
    (fun rows g' hg => hg ▸ hf rows) (fun e g' hg => hg ▸ herr e)
  cases ans with
  | ok rows => exact ⟨g,.selected,rfl⟩
  | error f => exact ⟨g,.failed rfl,rfl⟩

def EndsAt {α : Type} (g : Position) (r : Except (Sql.Failure EnrollmentError) α) (g' : Position) : Prop :=
  ∀ a, r = .ok a → g' = g

theorem endsAt_error {α : Type} {g : Position} :
    EndsAt g (.error e : Except _ α) g' := fun _ h => nomatch h

theorem mayCommit_error : MayCommit (.error e) g :=
  fun h => nomatch h

theorem keepsDevice_changing (st : Storage.State) (at' : Time)
    (s : GoString) : KeepsDevice (Sql.changing p (fun _ => EnrollmentRow.setState st at') s) := by
  refine ⟨rfl,fun r x hx => ?_⟩
  unfold Sql.changing at hx
  split at hx
  · rename_i h
    cases h
    split at hx
    · cases hx
      exact ⟨_,rfl,rfl⟩
    · cases hx
  · cases hx

theorem follows_visitAll
    (at' : Time) (hp : ∀ s r, r.deviceID = deviceID → r.state = .active → s ≠ serial → p s r = true)
    (left : List GoString) :
    Follows Moves (EndsAt (.superseding known deviceID serial []))
      (Sql.visitAll p (fun _ => EnrollmentRow.setState .superseded at') left : EnrollmentBody Unit)
      (.superseding known deviceID serial left) := by
  induction left with
  | nil => exact Sql.follows_pure fun _ _ => rfl
  | cons s left ih =>
    refine Follows.bind (Q := EndsAt (.superseding known deviceID serial left))
      (Sql.follows_statement fun ans => ?_) (fun _ g' hg => ?_) (fun e g' _ => endsAt_error)
    · cases ans with
      | error f => exact ⟨_,.failed rfl,endsAt_error⟩
      | ok old =>
        refine ⟨_,.superseded (keepsDevice_changing .superseded at' s) (fun r hr hdev hact => ?_)
          (fun r r' hr => ?_),fun _ _ => rfl⟩
        · by_contra hs
          have hyes : Sql.changing p (fun _ => EnrollmentRow.setState .superseded at') s (some r) =
            some (some (r.setState .superseded at')) := if_pos (hp s r hdev hact hs)
          rw [hyes] at hr
          cases hr
        · by_cases hps : p s r = true
          · cases (if_pos hps).symm.trans hr
            exact fun h => nomatch h
          · cases (if_neg hps).symm.trans hr
    · rw [hg _ rfl]
      exact ih

theorem follows_update
    (at' : Time) (hp : ∀ s r, r.deviceID = deviceID → r.state = .active → s ≠ serial → p s r = true)
    (hstart : ∀ left, Moves g (.scan p) (.ok left) (.superseding known deviceID serial left)) :
    Follows Moves (EndsAt (.superseding known deviceID serial []))
      (Sql.update p (fun _ => EnrollmentRow.setState .superseded at') : EnrollmentBody Unit) g := by
  refine Follows.bind (Q := fun r g' => ∀ left, r = .ok left → g' = .superseding known deviceID serial left)
    (Sql.follows_statement fun ans => ?_) (fun left g' hg => ?_) (fun e g' _ => endsAt_error)
  · cases ans with
    | ok left => exact ⟨_,hstart left,fun _ h => by cases h; rfl⟩
    | error f => exact ⟨g,.failed rfl,fun _ h => nomatch h⟩
  · rw [hg left rfl]
    exact follows_visitAll at' hp left

theorem follows_createBody (e : Enrollment) (context : GoString) :
    Follows Moves MayCommit (createBody e context) .idle := by
  refine follows_select (fun _ => mayCommit_error) fun found => ?_
  split
  · exact Sql.follows_fail mayCommit_error
  refine follows_select (fun _ => mayCommit_error) fun found => ?_
  split
  · exact Sql.follows_fail mayCommit_error
  have hp : ∀ (s : GoString) (r : EnrollmentRow), r.deviceID = e.deviceID → r.state = .active →
      s ≠ e.serial → decide (r.deviceID = e.deviceID ∧ r.state = .active) = true :=
    fun s r hdev hact _ => decide_eq_true ⟨hdev,hact⟩
  refine Follows.bind (follows_update e.enrolledAt hp fun left => .started hp)
    (fun _ g hg => ?_) (fun _ _ _ => mayCommit_error)
  rw [hg _ rfl]
  refine Follows.bind (Q := EndsAt (.activated e.deviceID e.serial))
    (Sql.follows_statement fun ans => ?_) (fun old g hg => ?_) (fun _ _ _ => mayCommit_error)
  · cases ans with
    | error f => exact ⟨_,.failed rfl,endsAt_error⟩
    | ok old =>
      refine ⟨_,.inserted (fun x hx => ?_) (fun r => rfl),fun _ _ => rfl⟩
      cases hx
      exact ⟨_,rfl,rfl⟩
  · rw [hg _ rfl]
    split
    · exact mayCommit_error
    · exact Sql.follows_pure fun _ => rfl

theorem follows_updateKey {p : EnrollmentRow → Bool} (h : ∀ old, Moves g (.write serial fun old => (old.filter p).map fun r => some (f r))
      (.ok old) g') :
    Follows Moves (EndsAt g') (Sql.updateKey serial p f : EnrollmentBody Bool) g := by
  refine Follows.bind (Q := EndsAt g') (Sql.follows_statement fun ans => ?_)
    (fun old g hg => ?_) (fun e g _ => endsAt_error)
  · cases ans with
    | ok old => exact ⟨g',h old,fun _ _ => rfl⟩
    | error f => exact ⟨g,.failed rfl,endsAt_error⟩
  · exact Sql.follows_pure fun _ _ => hg _ rfl

theorem keepsDevice_updateKey {p : EnrollmentRow → Bool}
    (hf : ∀ r, (f r).deviceID = r.deviceID) :
    KeepsDevice fun old => (old.filter p).map fun r => some (f r) := by
  refine ⟨rfl,fun r x hx => ?_⟩
  obtain ⟨r',hr',rfl⟩ := Option.map_eq_some_iff.mp hx
  obtain ⟨hr,-⟩ := Option.filter_eq_some_iff.mp hr'
  cases hr
  exact ⟨f r,rfl,hf r⟩

theorem updateKey_from {p : EnrollmentRow → Bool} {r' : EnrollmentRow}
    (h : ((some r).filter p).map (fun r => some (f r)) = some (some r')) : r' = f r := by
  obtain ⟨x,hx,he⟩ := Option.map_eq_some_iff.mp h
  obtain ⟨hr,-⟩ := Option.filter_eq_some_iff.mp hx
  cases hr
  exact (Option.some.inj he).symm

theorem follows_setStateBody (serial : GoString) (st : Storage.State) (at' : Time) :
    Follows Moves MayCommit (setStateBody serial st at') .idle := by
  refine Follows.bind (Q := fun r g => ∀ x rest, r = .ok (x :: rest) → g = .found x.2.deviceID serial)
    (Sql.follows_statement fun ans => ?_) (fun rows g hg => ?_) (fun _ _ _ => mayCommit_error)
  · cases ans with
    | error f => exact ⟨_,.failed rfl,fun _ _ h => nomatch h⟩
    | ok rows =>
      cases rows with
      | nil => exact ⟨_,.selected,fun _ _ h => nomatch h⟩
      | cons x rest =>
        refine ⟨.found x.2.deviceID serial,?_,fun y rest' h => by cases h; rfl⟩
        by_cases hx : x.1 = serial
        · obtain ⟨s,r⟩ := x
          cases hx
          exact .foundRow List.mem_cons_self
        · exact .impossible List.mem_cons_self fun h => hx (of_decide_eq_true h)
  · split
    · exact Sql.follows_fail mayCommit_error
    rename_i s row rest
    rw [hg _ _ rfl]
    unfold supersedeOthers
    by_cases hact : st = .active
    · have hp : ∀ (s : GoString) (r : EnrollmentRow), r.deviceID = row.deviceID → r.state = .active →
          s ≠ serial → decide (r.deviceID = row.deviceID ∧ r.state = .active ∧ s ≠ serial) = true :=
        fun s r hdev hact hs => decide_eq_true ⟨hdev,hact,hs⟩
      rw [if_pos hact]
      refine Follows.bind (follows_update at' hp fun left => .restarted hp)
        (fun _ g hg => ?_) (fun _ _ _ => mayCommit_error)
      rw [hg _ rfl]
      refine Follows.bind (follows_updateKey fun old => .reset (keepsDevice_updateKey fun _ => rfl))
        (fun _ g hg => ?_) (fun _ _ _ => mayCommit_error)
      rw [hg _ rfl]
      exact Sql.follows_pure fun _ => rfl
    · rw [if_neg hact]
      refine Follows.bind (Q := EndsAt (.found row.deviceID serial)) (Sql.follows_pure fun _ _ => rfl)
        (fun _ g hg => ?_) (fun _ _ _ => mayCommit_error)
      rw [hg _ rfl]
      refine Follows.bind (follows_updateKey fun old => .rewritten rfl
        (keepsDevice_updateKey fun _ => rfl) fun r r' h hr' => ?_)
        (fun _ g hg => ?_) (fun _ _ _ => mayCommit_error)
      · rw [updateKey_from h] at hr'
        exact absurd hr' hact
      · rw [hg _ rfl]
        exact Sql.follows_pure fun _ => rfl

theorem follows_touchLastSeen (serial : GoString) (at' : Time) :
    Follows Moves (fun _ _ => True) (touchLastSeen serial at') .idle := by
  have hupdate : Follows Moves (EndsAt .changed) (Sql.updateKey serial
      (fun r => decide (r.lastSeenAt < nanos at')) fun r => { r with lastSeenAt := nanos at' } :
        EnrollmentBody Bool) .idle := by
    refine follows_updateKey fun old => .rewritten rfl (keepsDevice_updateKey fun _ => rfl)
      fun r r' h hr' => ?_
    rw [updateKey_from h] at hr'
    exact hr'
  refine Follows.bind (Sql.follows_txOnce hupdate (fun a g ans hg => ?_) (fun e g ans _ => ?_))
    (fun changed g hg => ?_) (fun _ _ _ => trivial)
  · rw [hg a rfl]
    cases ans with
    | ok u => exact .committed rfl
    | error f => exact .aborted rfl
  · cases ans with
    | ok u => exact .rolledBack
    | error f => exact .aborted rfl
  rw [hg]
  split
  · refine follows_select (fun _ => trivial) fun found => ?_
    split
    · exact Sql.follows_fail trivial
    · exact Sql.follows_pure trivial
  · exact Sql.follows_pure trivial

theorem follows_perform (codec : ContextCodec) (c : Storage.Call) :
    Follows Moves (fun _ _ => True) (perform codec c) .idle := by
  cases c with
  | create e =>
    show Follows Moves _ (create codec e) .idle
    unfold create
    split
    · exact Sql.follows_fail trivial
    split
    · exact Sql.follows_fail trivial
    · exact (follows_end (follows_createBody e _) maxAttempts).mono fun _ _ _ => trivial
  | setState serial state at' =>
    show Follows Moves _ (setState serial state at') .idle
    unfold setState
    split
    · exact Sql.follows_fail trivial
    · exact (follows_end (follows_setStateBody serial _ at') maxAttempts).mono fun _ _ _ => trivial
  | touchLastSeen serial at' => exact follows_touchLastSeen serial at'

end Protocol

def Stable (db : EnrollmentTable) (own : Sql.Writes EnrollmentRows) : Prop :=
  ∀ s r x, db.lookup s = some r → own.lookup s = some x → ∃ r', x = some r' ∧ r'.deviceID = r.deviceID

def Position.Fits (db : EnrollmentTable) (own : Sql.Writes EnrollmentRows) : Position → Prop
  | .idle => own = ∅
  | .found deviceID serial => own = ∅ ∧ ∃ r, db.lookup serial = some r ∧ r.deviceID = deviceID
  | .changed => ∀ s r, own.lookup s = some (some r) → r.state = .active → ActiveRow db r.deviceID s
  | .superseding known deviceID serial left =>
      (known = true → ∃ r, db.lookup serial = some r ∧ r.deviceID = deviceID) ∧
      (∀ s r, own.lookup s = some (some r) → r.state ≠ .active) ∧
      ∀ s, ActiveRow db deviceID s → s = serial ∨ s ∈ left ∨ s ∈ own
  | .activated deviceID serial =>
      (∀ s r, own.lookup s = some (some r) → r.state = .active → s = serial ∧ r.deviceID = deviceID) ∧
      ∀ s, ActiveRow db deviceID s → s = serial ∨ s ∈ own

/-- No UPDATE starts while another transaction that has run one is open. -/
def Spaced {ι : Type} (s : Server ι EnrollmentRows) (i : ι) : Op EnrollmentRows → Prop
  | .scan _ => ∀ j, j ≠ i → ∀ e ∈ s.ran j, e.1.isScan = false
  | _ => True

instance {ι : Type} [Fintype ι] [DecidableEq ι] (s : Server ι EnrollmentRows) (i : ι)
    (op : Op EnrollmentRows) : Decidable (Spaced s i op) :=
  match op with
  | .scan _ => inferInstanceAs (Decidable (∀ j, j ≠ i → ∀ e ∈ s.ran j, e.1.isScan = false))
  | .select _ => .isTrue trivial
  | .write _ _ => .isTrue trivial
  | .commit => .isTrue trivial
  | .rollback => .isTrue trivial

structure Coherent {ι : Type} (s : Server ι EnrollmentRows) (g : ι → Position) : Prop where
  one : ∀ dev a b, ActiveRow s.db dev a → ActiveRow s.db dev b → a = b
  stable : ∀ i, Stable s.db (s.own i)
  fits : ∀ i, (g i).Fits s.db (s.own i)
  alone : ∀ i j, (g i).activating = true → (g j).activating = true → i = j
  scanned : ∀ i, (g i).activating = true → ∃ e ∈ s.ran i, e.1.isScan = true

section Invariant
variable {ι : Type} [DecidableEq ι] {s s' : Server ι EnrollmentRows} {g : ι → Position}
  {g' : Position} {i : ι} {op : Op EnrollmentRows} {ans : op.Ans}

theorem Coherent.uncommitted (h : Coherent s g) (hdb : s'.db = s.db)
    (hown : s'.own = Function.update s.own i own) (hlog : s.Logged s' i op ans)
    (hstable : Stable s.db own) (hfits : g'.Fits s.db own)
    (halone : g'.activating = true → ∀ j, j ≠ i → (g j).activating = false)
    (hscanned : g'.activating = true → op.ends = false ∧
      (op.isScan = true ∨ ∃ e ∈ s.ran i, e.1.isScan = true)) :
    Coherent s' (Function.update g i g') where
  one := by
    rw [hdb]
    exact h.one
  stable := by
    rw [hdb,hown]
    exact Effect.forall_update (P := fun _ own (_ : Position) => Stable s.db own) (t := g) (y := g')
      hstable fun j _ => h.stable j
  fits := by
    rw [hdb,hown]
    exact Effect.forall_update (P := fun _ own g => Position.Fits s.db own g) hfits fun j _ => h.fits j
  alone a b ha hb := by
    by_cases hai : a = i
    · by_cases hbi : b = i
      · rw [hai,hbi]
      rw [hai,Function.update_self] at ha
      rw [Function.update_of_ne hbi,halone ha b hbi] at hb
      cases hb
    · rw [Function.update_of_ne hai] at ha
      by_cases hbi : b = i
      · rw [hbi,Function.update_self] at hb
        rw [halone hb a hai] at ha
        cases ha
      · rw [Function.update_of_ne hbi] at hb
        exact h.alone a b ha hb
  scanned j hj := by
    by_cases hji : j = i
    · subst hji
      rw [Function.update_self] at hj
      obtain ⟨hends,hscan⟩ := hscanned hj
      rw [hlog.ran_self hends]
      rcases hscan with hscan | ⟨e,he,hs⟩
      · exact ⟨_,List.mem_cons_self,hscan⟩
      · exact ⟨e,List.mem_cons_of_mem _ he,hs⟩
    · rw [Function.update_of_ne hji] at hj
      rw [hlog.ran_others hji]
      exact h.scanned j hj

theorem Stable.get (h : Stable db own) (hr : db.lookup serial = some r) :
    ∃ r', (Session.mk db own).get serial = some r' ∧ r'.deviceID = r.deviceID := by
  rw [Session.get_eq]
  cases ho : own.lookup serial with
  | none => exact ⟨r,hr,rfl⟩
  | some x => exact h serial r x hr ho

theorem Stable.write (h : Stable db own) {f : Option EnrollmentRow → Option (Option EnrollmentRow)}
    (hf : ∀ r x, f (some r) = some x → ∃ r', x = some r' ∧ r'.deviceID = r.deviceID)
    {x : Option EnrollmentRow} (hx : f ((Session.mk db own).get serial) = some x) :
    Stable db (own.insert serial x) := by
  intro s r y hr hy
  by_cases hs : s = serial
  · subst hs
    rw [AList.lookup_insert] at hy
    cases hy
    obtain ⟨r₀,hget,hdev⟩ := h.get hr
    rw [hget] at hx
    obtain ⟨r',rfl,hdev'⟩ := hf r₀ _ hx
    exact ⟨r',rfl,hdev'.trans hdev⟩
  · rw [AList.lookup_insert_ne hs] at hy
    exact h s r y hr hy

section Writes
variable {db : EnrollmentTable} {own own' : Sql.Writes EnrollmentRows} {serial deviceID : GoString}
  {f : Option EnrollmentRow → Option (Option EnrollmentRow)} {known : Bool} {left : List GoString}

def Visited (db : EnrollmentTable) (own own' : Sql.Writes EnrollmentRows) (serial : GoString)
    (f : Option EnrollmentRow → Option (Option EnrollmentRow)) : Prop :=
  (f ((Session.mk db own).get serial) = none ∧ own' = own) ∨
    ∃ x, f ((Session.mk db own).get serial) = some x ∧ own' = own.insert serial x

theorem Visited.stable (h : Visited db own own' serial f) (hs : Stable db own)
    (hf : ∀ r x, f (some r) = some x → ∃ r', x = some r' ∧ r'.deviceID = r.deviceID) :
    Stable db own' := by
  rcases h with ⟨-,rfl⟩ | ⟨x,hx,rfl⟩
  · exact hs
  · exact hs.write hf hx

theorem Visited.mem (h : Visited db own own' serial f) {s : GoString} (hs : s ∈ own) : s ∈ own' := by
  rcases h with ⟨-,rfl⟩ | ⟨x,-,rfl⟩
  · exact hs
  · exact (AList.mem_insert _).mpr (.inr hs)

theorem Visited.lookup (h : Visited db own own' serial f) {s : GoString}
    (hr : own'.lookup s = some (some r)) :
    own.lookup s = some (some r) ∨ s = serial ∧ f ((Session.mk db own).get serial) = some (some r) := by
  rcases h with ⟨-,rfl⟩ | ⟨x,hx,rfl⟩
  · exact .inl hr
  by_cases hs : s = serial
  · subst hs
    rw [AList.lookup_insert] at hr
    exact .inr ⟨rfl,by rw [hx,Option.some.inj hr]⟩
  · rw [AList.lookup_insert_ne hs] at hr
    exact .inl hr

theorem Position.Fits.toChanged {g : Position} (h : g.Fits db own) (hg : g.activating = false) :
    Position.changed.Fits db own := by
  have hempty : own = ∅ → Position.changed.Fits db own := by
    rintro rfl s r hr
    cases hr
  cases g with
  | idle => exact hempty h
  | found dev serial => exact hempty h.1
  | changed => exact h
  | superseding _ _ _ _ | activated _ _ => cases hg

theorem Position.Fits.rewritten (h : Position.changed.Fits db own) (hv : Visited db own own' serial f)
    (hf : KeepsDevice f)
    (hactive : ∀ r r', f (some r) = some (some r') → r'.state = .active → r.state = .active) :
    Position.changed.Fits db own' := by
  intro s r hr hact
  rcases hv.lookup hr with hr | ⟨rfl,hr⟩
  · exact h s r hr hact
  rw [Session.get_eq] at hr
  cases ho : own.lookup s with
  | some x =>
    rw [show (Session.mk db own).own.lookup s = some x from ho,Option.getD_some] at hr
    cases x with
    | none =>
      rw [hf.1] at hr
      cases hr
    | some r₀ =>
      obtain ⟨_,he,hdev⟩ := hf.2 r₀ _ hr
      cases he
      have hrow := h s r₀ ho (hactive r₀ r hr hact)
      rwa [← hdev] at hrow
  | none =>
    rw [show (Session.mk db own).own.lookup s = none from ho,Option.getD_none] at hr
    cases hd : db.lookup s with
    | none =>
      rw [show (Session.mk db own).db.lookup s = none from hd,hf.1] at hr
      cases hr
    | some r₀ =>
      rw [show (Session.mk db own).db.lookup s = some r₀ from hd] at hr
      obtain ⟨_,he,hdev⟩ := hf.2 r₀ _ hr
      cases he
      exact ⟨r₀,hd,hdev.symm,hactive r₀ r hr hact⟩

theorem Position.Fits.superseded {s : GoString}
    (h : (Position.superseding known deviceID serial (s :: left)).Fits db own)
    (hv : Visited db own own' s f) (hf : KeepsDevice f)
    (hskip : ∀ r, f (some r) = none → r.deviceID = deviceID → r.state = .active → s = serial)
    (hactive : ∀ r r', f (some r) = some (some r') → r'.state ≠ .active) :
    (Position.superseding known deviceID serial left).Fits db own' := by
  obtain ⟨hknown,hrows,hcover⟩ := h
  refine ⟨hknown,fun t r hr => ?_,fun t ht => ?_⟩
  · rcases hv.lookup hr with hr | ⟨rfl,hr⟩
    · exact hrows t r hr
    cases hget : (Session.mk db own).get t with
    | none =>
      rw [hget,hf.1] at hr
      cases hr
    | some r₀ =>
      rw [hget] at hr
      exact hactive r₀ r hr
  · rcases hcover t ht with hts | hts | hts
    · exact .inl hts
    · rcases List.mem_cons.mp hts with rfl | hts
      · rcases hv with ⟨hnone,rfl⟩ | ⟨x,-,rfl⟩
        · by_cases hmem : t ∈ own'
          · exact .inr (.inr hmem)
          obtain ⟨r,hr,hdev,hact⟩ := ht
          rw [Session.get_eq,show (Session.mk db own').own.lookup t = none from
            AList.lookup_eq_none.mpr hmem,Option.getD_none,
            show (Session.mk db own').db.lookup t = some r from hr] at hnone
          exact .inl (hskip r hnone hdev hact)
        · exact .inr (.inr ((AList.mem_insert _).mpr (.inl rfl)))
      · exact .inr (.inl hts)
    · exact .inr (.inr (hv.mem hts))

theorem Position.Fits.activated (h : (Position.superseding known deviceID serial []).Fits db own)
    (hv : Visited db own own' serial f)
    (hnew : ∀ r, f ((Session.mk db own).get serial) = some (some r) → r.deviceID = deviceID) :
    (Position.activated deviceID serial).Fits db own' := by
  obtain ⟨-,hrows,hcover⟩ := h
  refine ⟨fun s r hr hact => ?_,fun s hs => ?_⟩
  · rcases hv.lookup hr with hr | ⟨rfl,hr⟩
    · exact absurd hact (hrows s r hr)
    · exact ⟨rfl,hnew r hr⟩
  rcases hcover s hs with hs | hs | hs
  · exact .inl hs
  · cases hs
  · exact .inr (hv.mem hs)

end Writes

section Commit
variable {db db' : EnrollmentTable} {own : Sql.Writes EnrollmentRows}

structure Survives (db db' : EnrollmentTable) (own : Sql.Writes EnrollmentRows) (g : Position) : Prop where
  rows : ∀ s r, db.lookup s = some r → ∃ r', db'.lookup s = some r' ∧ r'.deviceID = r.deviceID
  written : ∀ s, s ∈ own → db'.lookup s = db.lookup s
  active : g.activating = true → ∀ dev s, ActiveRow db' dev s → ActiveRow db dev s

theorem Survives.fits {g : Position} (h : Survives db db' own g) (hg : g.Fits db own) : g.Fits db' own := by
  have hrow : ∀ {dev serial}, (∃ r, db.lookup serial = some r ∧ r.deviceID = dev) →
      ∃ r, db'.lookup serial = some r ∧ r.deviceID = dev := by
    rintro dev serial ⟨r,hr,hdev⟩
    obtain ⟨r',hr',hdev'⟩ := h.rows serial r hr
    exact ⟨r',hr',hdev'.trans hdev⟩
  cases g with
  | idle => exact hg
  | found dev serial => exact ⟨hg.1,hrow hg.2⟩
  | changed =>
    intro s r hr hact
    obtain ⟨r₀,hr₀,hrest⟩ := hg s r hr hact
    have hmem : s ∈ own := AList.lookup_isSome.mp (by rw [hr]; rfl)
    exact ⟨r₀,(h.written s hmem).trans hr₀,hrest⟩
  | superseding known dev serial left =>
    exact ⟨fun hk => hrow (hg.1 hk),hg.2.1,fun s hs => hg.2.2 s (h.active rfl dev s hs)⟩
  | activated dev serial => exact ⟨hg.1,fun s hs => hg.2 s (h.active rfl dev s hs)⟩

theorem active_overlay {s : GoString} (h : ActiveRow (Sql.overlay own db) dev s) :
    (∃ r, own.lookup s = some (some r) ∧ r.deviceID = dev ∧ r.state = .active) ∨
      own.lookup s = none ∧ ActiveRow db dev s := by
  obtain ⟨r,hr,hrest⟩ := h
  rw [Sql.lookup_overlay] at hr
  cases ho : own.lookup s with
  | none =>
    rw [ho] at hr
    exact .inr ⟨rfl,r,hr,hrest⟩
  | some x =>
    rw [ho] at hr
    exact .inl ⟨r,congrArg some hr,hrest⟩

theorem active_of_quiet {g : Position} (hg : g.Fits db own) (hq : g.activating = false) {s : GoString}
    (h : ActiveRow (Sql.overlay own db) dev s) : ActiveRow db dev s := by
  rcases active_overlay h with ⟨r,hr,hdev,hact⟩ | ⟨-,h⟩
  · exact hdev ▸ hg.toChanged hq s r hr hact
  · exact h

theorem active_of_activated (hg : (Position.activated dev serial).Fits db own)
    {d s : GoString} (h : ActiveRow (Sql.overlay own db) d s) :
    (d = dev ∧ s = serial) ∨ (d ≠ dev ∧ ActiveRow db d s) := by
  rcases active_overlay h with ⟨r,hr,hdev,hact⟩ | ⟨hnone,h⟩
  · obtain ⟨hs,hd⟩ := hg.1 s r hr hact
    exact .inl ⟨hdev.symm.trans hd,hs⟩
  by_cases hd : d = dev
  · subst hd
    rcases hg.2 s h with hs | hs
    · exact .inl ⟨rfl,hs⟩
    · exact absurd hs (AList.lookup_eq_none.mp hnone)
  · exact .inr ⟨hd,h⟩

theorem one_overlay {g : Position} (hg : g.Fits db own) (hc : g.complete = true)
    (h : ∀ dev a b, ActiveRow db dev a → ActiveRow db dev b → a = b) {a b : GoString}
    (ha : ActiveRow (Sql.overlay own db) dev a) (hb : ActiveRow (Sql.overlay own db) dev b) : a = b := by
  by_cases hq : g.activating = false
  · exact h dev a b (active_of_quiet hg hq ha) (active_of_quiet hg hq hb)
  cases g with
  | idle | found _ _ | changed => exact absurd rfl hq
  | superseding known d serial left => cases hc
  | activated d serial =>
    rcases active_of_activated hg ha with ⟨hd,hs⟩ | ⟨hd,hrow⟩
    · rcases active_of_activated hg hb with ⟨-,hs'⟩ | ⟨hd',-⟩
      · rw [hs,hs']
      · exact absurd hd hd'
    · rcases active_of_activated hg hb with ⟨hd',-⟩ | ⟨-,hrow'⟩
      · exact absurd hd' hd
      · exact h dev a b hrow hrow'

theorem Coherent.commit (h : Coherent s g) (hc : (g i).complete = true)
    (hdb : s'.db = Sql.overlay (s.own i) s.db) (hown : s'.own = Function.update s.own i ∅)
    (hlog : s.Logged s' i op ans) : Coherent s' (Function.update g i .idle) where
  one dev a b ha hb := by
    rw [hdb] at ha hb
    exact one_overlay (h.fits i) hc h.one ha hb
  stable j := by
    rw [hown,hdb]
    by_cases hj : j = i
    · subst hj
      rw [Function.update_self]
      intro t r x _ hx
      cases hx
    rw [Function.update_of_ne hj]
    intro t r x hr hx
    have hfree : (s.own i).lookup t = none := AList.lookup_eq_none.mpr fun hmem =>
      hj (s.exclusive i j t hmem (AList.lookup_isSome.mp (by rw [hx]; rfl))).symm
    rw [Sql.lookup_overlay,hfree] at hr
    exact h.stable j t r x hr hx
  fits j := by
    rw [hown,hdb]
    by_cases hj : j = i
    · subst hj
      rw [Function.update_self,Function.update_self]
      rfl
    rw [Function.update_of_ne hj,Function.update_of_ne hj]
    refine Survives.fits ⟨fun t r hr => (h.stable i).get hr,fun t ht => ?_,fun hact dev t ht => ?_⟩ (h.fits j)
    · have hfree : (s.own i).lookup t = none := AList.lookup_eq_none.mpr fun hmem =>
        hj (s.exclusive i j t hmem ht).symm
      rw [Sql.lookup_overlay,hfree]
      rfl
    have hq : (g i).activating = false := by
      by_contra hi
      exact hj (h.alone j i hact (Bool.eq_true_of_not_eq_false hi))
    exact active_of_quiet (h.fits i) hq ht
  alone a b ha hb := by
    by_cases hai : a = i
    · subst hai
      rw [Function.update_self] at ha
      cases ha
    by_cases hbi : b = i
    · subst hbi
      rw [Function.update_self] at hb
      cases hb
    · rw [Function.update_of_ne hai] at ha
      rw [Function.update_of_ne hbi] at hb
      exact h.alone a b ha hb
  scanned j hj := by
    by_cases hji : j = i
    · subst hji
      rw [Function.update_self] at hj
      cases hj
    · rw [Function.update_of_ne hji] at hj
      rw [hlog.ran_others hji]
      exact h.scanned j hj

end Commit

section Steps
variable {c : Option Sql.Fault}

theorem Coherent.abandoned (h : Coherent s g) (hdb : s'.db = s.db)
    (hown : s'.own = Function.update s.own i ∅) (hlog : s.Logged s' i op ans) :
    Coherent s' (Function.update g i .idle) := by
  refine h.uncommitted hdb hown hlog ?_ rfl (fun hact => nomatch hact) fun hact => nomatch hact
  intro t r x _ hx
  cases hx

variable [Fintype ι]

theorem Coherent.failed {f : Sql.Fault} (h : Coherent s g)
    (hgate : Server.gate i c op s = some (.error f,s')) (hop : op.ends = false) :
    Coherent s' (Function.update g i (g i)) := by
  obtain ⟨hdb,hown,hlog⟩ := Server.gate_error hgate
  rw [hop,if_neg Bool.false_ne_true] at hown
  refine h.uncommitted hdb (hown.trans (Function.update_eq_self i s.own).symm) hlog (h.stable i) (h.fits i)
    (fun hact j hj => ?_) fun hact => ⟨hop,.inr (h.scanned i hact)⟩
  by_contra hj'
  exact hj (h.alone j i (Bool.eq_true_of_not_eq_false hj') hact)

theorem Coherent.selected {v : (Op.select p).Value} (h : Coherent s g)
    (hgate : Server.gate (ρ := EnrollmentRows) i c (.select p) s = some (.ok v,s'))
    (hfits : g'.Fits s.db (s.own i)) (hact : g'.activating = true → (g i).activating = true) :
    Coherent s' (Function.update g i g') := by
  obtain ⟨-,-,hdb,hown,hlog⟩ := Server.gate_ok hgate
  refine h.uncommitted hdb hown hlog (h.stable i) hfits (fun ha j hj => ?_)
    fun ha => ⟨rfl,.inr (h.scanned i (hact ha))⟩
  by_contra hj'
  exact hj (h.alone j i (Bool.eq_true_of_not_eq_false hj') (hact ha))

theorem Coherent.visited {f : Option EnrollmentRow → Option (Option EnrollmentRow)}
    {v : (Op.write (ρ := EnrollmentRows) serial f).Value} (h : Coherent s g)
    (hgate : Server.gate (ρ := EnrollmentRows) i c (.write serial f) s = some (.ok v,s'))
    (hf : ∀ r x, f (some r) = some x → ∃ r', x = some r' ∧ r'.deviceID = r.deviceID)
    (hfits : ∀ own', Visited s.db (s.own i) own' serial f → g'.Fits s.db own')
    (hact : g'.activating = true → (g i).activating = true) :
    Coherent s' (Function.update g i g') := by
  obtain ⟨-,-,hdb,hown,hlog⟩ := Server.gate_ok hgate
  obtain ⟨hdb',hv⟩ := Session.handle_write (ρ := EnrollmentRows) serial f (s.session i)
  have hvisited : Visited s.db (s.own i)
    (Session.handle (ρ := EnrollmentRows) (.write serial f) (s.session i)).2.own serial f := hv
  refine h.uncommitted (hdb.trans hdb') hown hlog (hvisited.stable (h.stable i) hf)
    (hfits _ hvisited) (fun ha j hj => ?_) fun ha => ⟨rfl,.inr (h.scanned i (hact ha))⟩
  by_contra hj'
  exact hj (h.alone j i (Bool.eq_true_of_not_eq_false hj') (hact ha))

theorem Coherent.scan {left : List GoString} (h : Coherent s g)
    (hgate : Server.gate (ρ := EnrollmentRows) i c (.scan p) s = some (.ok left,s'))
    (hok : Spaced s i (.scan p)) (hown : s.own i = ∅)
    (hknown : known = true → ∃ r, s.db.lookup serial = some r ∧ r.deviceID = deviceID)
    (hp : ∀ s r, r.deviceID = deviceID → r.state = .active → s ≠ serial → p s r = true) :
    Coherent s' (Function.update g i (.superseding known deviceID serial left)) := by
  obtain ⟨-,hv,hdb,hown',hlog⟩ := Server.gate_ok hgate
  have hleft : ((s.session i).rows p).map Sigma.fst = left := by
    cases hv
    rfl
  refine h.uncommitted hdb hown' hlog (h.stable i) ⟨hknown,fun t r hr => ?_,fun t ht => ?_⟩
    (fun _ j hj => ?_) fun _ => ⟨rfl,.inl rfl⟩
  · have hr' : (s.own i).lookup t = some (some r) := hr
    rw [hown] at hr'
    cases hr'
  · by_cases hts : t = serial
    · exact .inl hts
    obtain ⟨r,hr,hdev,hact⟩ := ht
    refine .inr (.inl ?_)
    rw [← hleft,Session.mem_scan]
    refine ⟨r,?_,hp t r hdev hact hts⟩
    rw [Session.get_eq,show (s.session i).own = ∅ from hown]
    exact hr
  · by_contra hj'
    obtain ⟨e,he,hscan⟩ := h.scanned j (Bool.eq_true_of_not_eq_false hj')
    rw [hok j hj e he] at hscan
    cases hscan

theorem Coherent.step (h : Coherent s g) (hok : Spaced s i op)
    (hgate : Server.gate i c op s = some (ans,s')) (hm : Moves (g i) op ans g') :
    Coherent s' (Function.update g i g') := by
  have hfits := h.fits i
  generalize hgi : g i = gi at hm hfits
  cases hm with
  | failed hop => exact hgi ▸ h.failed hgate hop
  | aborted hop =>
    obtain ⟨hdb,hown,hlog⟩ := Server.gate_error hgate
    rw [hop,if_pos rfl] at hown
    exact h.abandoned hdb hown hlog
  | rolledBack =>
    obtain ⟨-,-,hdb,hown,hlog⟩ := Server.gate_ok hgate
    exact h.abandoned hdb hown hlog
  | committed hc =>
    obtain ⟨-,-,hdb,hown,hlog⟩ := Server.gate_ok hgate
    exact h.commit (hgi ▸ hc) hdb hown hlog
  | selected => exact h.selected hgate hfits fun ha => hgi ▸ ha
  | foundRow hmem =>
    obtain ⟨-,hv,-⟩ := Server.gate_ok hgate
    cases hv
    have hrow := (Session.mem_rows.mp hmem).1
    rw [Session.get_eq,show (s.session i).own = ∅ from hfits] at hrow
    exact h.selected hgate ⟨hfits,_,hrow,rfl⟩ fun ha => nomatch ha
  | impossible hmem hp =>
    obtain ⟨-,hv,-⟩ := Server.gate_ok hgate
    cases hv
    exact absurd (Session.mem_rows.mp hmem).2 hp
  | rewritten hg hf hactive =>
    exact h.visited hgate hf.2 (fun own' hv => (hfits.toChanged hg).rewritten hv hf hactive)
      fun ha => nomatch ha
  | started hp => exact h.scan hgate hok hfits (fun hk => nomatch hk) hp
  | restarted hp => exact h.scan hgate hok hfits.1 (fun _ => hfits.2) hp
  | superseded hf hskip hactive =>
    exact h.visited hgate hf.2 (fun own' hv => hfits.superseded hv hf hskip hactive) fun _ => hgi ▸ rfl
  | inserted hnew htaken =>
    refine h.visited hgate (fun r x hx => nomatch (htaken r).symm.trans hx)
      (fun own' hv => hfits.activated hv fun r hr => ?_) fun _ => hgi ▸ rfl
    cases hget : (Session.mk s.db (s.own i)).get _ with
    | some r₀ =>
      rw [hget,htaken] at hr
      cases hr
    | none =>
      rw [hget] at hr
      obtain ⟨_,he,hdev⟩ := hnew _ hr
      cases he
      exact hdev
  | reset hf =>
    refine h.visited hgate hf.2 (fun own' hv => hfits.activated hv fun r hr => ?_) fun _ => hgi ▸ rfl
    obtain ⟨r₀,hr₀,hdev⟩ := hfits.1 rfl
    obtain ⟨r₁,hget,hdev₁⟩ := (h.stable i).get hr₀
    rw [hget] at hr
    obtain ⟨_,he,hdev'⟩ := hf.2 r₁ _ hr
    cases he
    rw [hdev',hdev₁,hdev]

end Steps

end Invariant

def concurrent {ι : Type} (codec : ContextCodec) (calls : ι → Storage.Call) (db : EnrollmentTable) :
    Effect.Pool (Op EnrollmentRows) Op.Ans ι (Server ι EnrollmentRows)
      (Except (Sql.Failure EnrollmentError) Unit) where
  state := .start db
  code i := perform codec (calls i)

theorem coherent_start {ι : Type}
    (h : ∀ dev a b, ActiveRow db dev a → ActiveRow db dev b → a = b) :
    Coherent (Server.start db : Server ι EnrollmentRows) fun _ => .idle where
  one := h
  stable _ _ _ _ _ hx := nomatch hx
  fits _ := rfl
  alone _ _ ha := nomatch ha
  scanned _ ha := nomatch ha

/-- However calls interleave, fail and are tried again: if no superseding UPDATE starts while
another transaction that has run one is open, each device always has at most one active
enrollment. -/
theorem one_active_of_spaced {ι : Type} [Fintype ι] [DecidableEq ι] (codec : ContextCodec)
    (calls : ι → Storage.Call) (db : EnrollmentTable)
    (hdb : ∀ dev a b, ActiveRow db dev a → ActiveRow db dev b → a = b)
    (events : List (ι × Option Sql.Fault))
    (hspaced : Lifecycle.Allowed (Effect.Pool.step Server.gate) (Effect.Pool.Allows Spaced)
      (concurrent codec calls db) events) (dev a b : GoString)
    (ha : ActiveRow (events.foldl (Effect.Pool.step Server.gate) (concurrent codec calls db)).state.db dev a)
    (hb : ActiveRow (events.foldl (Effect.Pool.step Server.gate) (concurrent codec calls db)).state.db dev b) :
    a = b := by
  have hstart : (concurrent codec calls db).Tracked Moves (fun p g => Coherent p.state g) :=
    ⟨fun _ => .idle,fun i => follows_perform codec (calls i),coherent_start hdb⟩
  obtain ⟨g,-,hg⟩ := hstart.run (fun p g e op k ans s' g' h hok hcall hgate hm =>
    h.step (hok.call hcall) hgate hm) hspaced
  exact hg.one dev a b ha hb

namespace Sample

def twoCreates : Bool → Storage.Call
  | false => .create (enrollment "1")
  | true => .create (enrollment "2")

def oneByOne : List (Bool × Option Sql.Fault) :=
  List.replicate 5 (false,none) ++ List.replicate 6 (true,none)

def crossed : List (Bool × Option Sql.Fault) :=
  List.replicate 4 (false,none) ++ List.replicate 4 (true,none) ++ [(false,none),(true,none)]

def committedAfter (events : List (Bool × Option Sql.Fault)) : EnrollmentTable :=
  (events.foldl (Effect.Pool.step Server.gate) (concurrent contexts twoCreates ∅)).state.db

end Sample

set_option maxRecDepth 4000

/-- One call after the other: the second enrollment is the active one. -/
theorem one_active_of_spaced_serial :
    ActiveRow (Sample.committedAfter Sample.oneByOne) "DEVICE-A" "2" ∧
    ∀ b, ActiveRow (Sample.committedAfter Sample.oneByOne) "DEVICE-A" b → b = utf8 "2" := by
  have hactive : ActiveRow (Sample.committedAfter Sample.oneByOne) "DEVICE-A" "2" := ⟨_,rfl,rfl,rfl⟩
  refine ⟨hactive,fun b hb => ?_⟩
  refine one_active_of_spaced Sample.contexts Sample.twoCreates ∅ (fun _ _ _ ha => ?_) Sample.oneByOne
    (by decide +kernel) "DEVICE-A" b "2" hb hactive
  obtain ⟨_,hr,_⟩ := ha
  cases hr

/-- Both calls find no enrollment to supersede, and both commit. -/
theorem two_active : ∃ (codec : ContextCodec) (calls : Bool → Storage.Call)
    (events : List (Bool × Option Sql.Fault)),
    (∀ i, ∃ e, calls i = .create e ∧ e.deviceID = utf8 "DEVICE-A") ∧
    ActiveRow (events.foldl (Effect.Pool.step Server.gate) (concurrent codec calls ∅)).state.db
      "DEVICE-A" "1" ∧
    ActiveRow (events.foldl (Effect.Pool.step Server.gate) (concurrent codec calls ∅)).state.db
      "DEVICE-A" "2" := by
  refine ⟨Sample.contexts,Sample.twoCreates,Sample.crossed,fun i => ?_,⟨_,rfl,rfl,rfl⟩,⟨_,rfl,rfl,rfl⟩⟩
  cases i with
  | false | true => exact ⟨_,rfl,rfl⟩

end MicrosoftDM.Sqlstore
