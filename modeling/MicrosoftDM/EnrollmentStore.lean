import Mathlib.Data.List.Sort
import MicrosoftDM.Enrollment

/-!
The enrollments and certificates of storage/storage.go, and the store of storage/inmem/inmem.go.
What the calls do to the enrollments is said once for every store, over a registry of
enrollments by serial.
-/

set_option autoImplicit false

namespace MicrosoftDM.Storage
open Enroll (AdditionalContext validEnrollmentType MDMCredential)
open Mdm (Bytes)

inductive State where
  | active | superseded | unenrolled
  deriving DecidableEq

/-- The state a text names; `none` is not `Valid`. -/
def State.ofText (text : GoString) : Option State :=
  if text = utf8 "active" then some .active
  else if text = utf8 "superseded" then some .superseded
  else if text = utf8 "unenrolled" then some .unenrolled
  else none

structure Enrollment where
  serial : GoString
  thumbprint : GoString
  deviceID : GoString
  hwDevID : GoString := []
  enrollmentType : GoString
  upn : GoString := []
  context : AdditionalContext
  state : State := .active
  enrolledAt : Time
  updatedAt : Time := 0
  lastSeenAt : Time := 0
  deriving DecidableEq

/-- `Validate`, with the text of its error. -/
def Enrollment.validate (e : Enrollment) : Option GoString :=
  if e.serial = [] then some "storage: enrollment needs a certificate serial"
  else if e.thumbprint = [] then some "storage: enrollment needs a certificate thumbprint"
  else if e.deviceID = [] then some "storage: enrollment needs a DeviceID"
  else if validEnrollmentType e.enrollmentType = false then
    some "storage: enrollment type must be Full or Device"
  else if e.enrolledAt = 0 then some "storage: enrollment needs EnrolledAt"
  else none

structure Certificate where
  serial : GoString
  thumbprint : GoString
  subject : GoString := []
  deviceID : GoString
  notBefore : Time
  notAfter : Time
  raw : Bytes
  revoked : Bool := false
  revokedAt : Time := 0
  deriving DecidableEq

/-- `Validate`, with the text of its error. -/
def Certificate.validate (c : Certificate) : Option GoString :=
  if c.serial = [] then some "storage: certificate needs a serial"
  else if c.thumbprint = [] then some "storage: certificate needs a thumbprint"
  else if c.raw = [] then some "storage: certificate needs its DER encoding"
  else if c.notBefore = 0 ∨ c.notAfter = 0 ∨ ¬c.notBefore < c.notAfter then
    some "storage: certificate needs a validity period"
  else none

/-- What an error of the store says after its class. -/
inductive Cause where
  | validation (text : GoString)
  | serial (serial : GoString)
  | thumbprint (thumbprint : GoString)
  | device (deviceID : GoString)
  | state (text : GoString)
  | emptyHWDevID
  | emptyDeviceID
  deriving DecidableEq

inductive Error where
  | notFound (cause : Cause)
  | conflict (cause : Cause)
  | invalid (cause : Cause)
  deriving DecidableEq

def Enrollment.setState (state : State) (at' : Time) (e : Enrollment) : Enrollment :=
  { e with state := state, updatedAt := at' }

def Enrollment.created (e : Enrollment) : Enrollment := e.setState .active e.enrolledAt

def Enrollment.supersede (deviceID : GoString) (at' : Time) (e : Enrollment) : Enrollment :=
  if e.deviceID = deviceID ∧ e.state = .active then e.setState .superseded at' else e

def Enrollment.touch (at' : Time) (e : Enrollment) : Enrollment :=
  if e.lastSeenAt < at' then { e with lastSeenAt := at' } else e

inductive Call where
  | create (e : Enrollment)
  | setState (serial state : GoString) (at' : Time)
  | touchLastSeen (serial : GoString) (at' : Time)

abbrev Registry := GoString → Option Enrollment

def Registry.activate (R : Registry) (serial : GoString) (e : Enrollment) (at' : Time) : Registry :=
  fun s => if s = serial then some e else (R s).map (Enrollment.supersede e.deviceID at')

def Registry.replace (R : Registry) (serial : GoString) (e : Enrollment) : Registry :=
  fun s => if s = serial then some e else R s

def Registry.create (R : Registry) (e : Enrollment) : Registry :=
  R.activate e.serial e.created e.enrolledAt

def Registry.setState (R : Registry) (e : Enrollment) (serial : GoString) (state : State)
    (at' : Time) : Registry :=
  if state = .active then R.activate serial (e.setState .active at') at'
  else R.replace serial (e.setState state at')

inductive Registry.Step (R : Registry) : Call → Except Error Unit → Registry → Prop where
  | invalid {e : Enrollment} {text : GoString} (h : e.validate = some text) :
      Step R (.create e) (.error (.invalid (.validation text))) R
  | serialTaken {e e' : Enrollment} (hv : e.validate = none) (h : R e.serial = some e') :
      Step R (.create e) (.error (.conflict (.serial e.serial))) R
  | thumbprintTaken {e e' : Enrollment} {s : GoString} (hv : e.validate = none)
      (hs : R e.serial = none) (h : R s = some e') (ht : e'.thumbprint = e.thumbprint) :
      Step R (.create e) (.error (.conflict (.thumbprint e.thumbprint))) R
  | created {e : Enrollment} (hv : e.validate = none) (hs : R e.serial = none)
      (ht : ∀ s e', R s = some e' → e'.thumbprint ≠ e.thumbprint) :
      Step R (.create e) (.ok ()) (R.create e)
  | badState {serial text : GoString} {at' : Time} (h : State.ofText text = none) :
      Step R (.setState serial text at') (.error (.invalid (.state text))) R
  | unknown {serial text : GoString} {at' : Time} {st : State} (h : State.ofText text = some st)
      (hs : R serial = none) : Step R (.setState serial text at') (.error (.notFound (.serial serial))) R
  | stateSet {serial text : GoString} {at' : Time} {st : State} {e : Enrollment}
      (h : State.ofText text = some st) (hs : R serial = some e) :
      Step R (.setState serial text at') (.ok ()) (R.setState e serial st at')
  | unseen {serial : GoString} {at' : Time} (hs : R serial = none) :
      Step R (.touchLastSeen serial at') (.error (.notFound (.serial serial))) R
  | touched {serial : GoString} {at' : Time} {e : Enrollment} (hs : R serial = some e) :
      Step R (.touchLastSeen serial at') (.ok ()) (R.replace serial (e.touch at'))

variable {R : Registry} {p : GoString}

theorem Registry.Step.unique {R₁ R₂ : Registry} {c : Call} {r₁ r₂ : Except Error Unit}
    (h₁ : R.Step c r₁ R₁) (h₂ : R.Step c r₂ R₂) : r₁ = r₂ ∧ R₁ = R₂ := by
  cases h₁ <;> cases h₂ <;> grind

section Supersede
variable {e : Enrollment} {dev : GoString} {at' : Time}

@[simp] theorem Enrollment.serial_supersede : (e.supersede dev at').serial = e.serial := by
  unfold supersede
  split <;> rfl

@[simp] theorem Enrollment.thumbprint_supersede : (e.supersede dev at').thumbprint = e.thumbprint := by
  unfold supersede
  split <;> rfl

@[simp] theorem Enrollment.deviceID_supersede : (e.supersede dev at').deviceID = e.deviceID := by
  unfold supersede
  split <;> rfl

theorem Enrollment.supersede_active :
    (e.supersede dev at').state = .active ↔ e.state = .active ∧ e.deviceID ≠ dev := by
  unfold supersede
  split
  · rename_i h
    simp [setState,h.1]
  rename_i h
  constructor
  · intro ha
    exact ⟨ha,fun hd => h ⟨hd,ha⟩⟩
  · exact fun ha => ha.1

theorem Enrollment.supersede_of_not (h : ¬(e.deviceID = dev ∧ e.state = .active)) :
    e.supersede dev at' = e := if_neg h

@[simp] theorem Enrollment.serial_touch : (e.touch at').serial = e.serial := by
  unfold touch
  split <;> rfl

@[simp] theorem Enrollment.thumbprint_touch : (e.touch at').thumbprint = e.thumbprint := by
  unfold touch
  split <;> rfl

@[simp] theorem Enrollment.deviceID_touch : (e.touch at').deviceID = e.deviceID := by
  unfold touch
  split <;> rfl

@[simp] theorem Enrollment.state_touch : (e.touch at').state = e.state := by
  unfold touch
  split <;> rfl

end Supersede

section Registry
variable {R : Registry} {e : Enrollment} {dev d s serial : GoString} {at' : Time} {st : State}

def Registry.Active (R : Registry) (dev s : GoString) : Prop :=
  ∃ e, R s = some e ∧ e.deviceID = dev ∧ e.state = .active

def Registry.Printed (R : Registry) (p s : GoString) : Prop := ∃ e, R s = some e ∧ e.thumbprint = p

theorem Registry.activate_active (ha : e.state = .active) :
    (R.activate serial e at').Active d s ↔
      if d = e.deviceID then s = serial else s ≠ serial ∧ R.Active d s := by
  unfold Active activate
  by_cases hserial : s = serial
  · subst hserial
    simp only [if_pos,Option.some.injEq,exists_eq_left',ha,and_true,ne_eq,not_true_eq_false,false_and]
    split
    · rename_i hd
      exact iff_of_true hd.symm trivial
    · rename_i hd
      exact iff_of_false (fun h => hd h.symm) not_false
  · rw [if_neg hserial]
    simp only [Option.map_eq_some_iff,exists_exists_and_eq_and,Enrollment.deviceID_supersede,
      Enrollment.supersede_active]
    split
    · rename_i hd
      subst hd
      exact iff_of_false (fun ⟨x,_,hx,_,hne⟩ => hne hx) hserial
    rename_i hd
    constructor
    · rintro ⟨x,hx,hdev,hact,-⟩
      exact ⟨hserial,x,hx,hdev,hact⟩
    · rintro ⟨-,x,hx,hdev,hact⟩
      exact ⟨x,hx,hdev,hact,fun h => hd (hdev.symm.trans h)⟩

theorem Registry.activate_printed :
    (R.activate serial e at').Printed p s ↔
      if s = serial then e.thumbprint = p else R.Printed p s := by
  unfold Printed activate
  split
  · simp
  · simp only [Option.map_eq_some_iff,exists_exists_and_eq_and,Enrollment.thumbprint_supersede]

theorem Registry.replace_active :
    (R.replace serial e).Active d s ↔
      if s = serial then e.deviceID = d ∧ e.state = .active else R.Active d s := by
  unfold Active replace
  split
  · simp only [Option.some.injEq,exists_eq_left']
  · rfl

theorem Registry.replace_printed :
    (R.replace serial e).Printed p s ↔ if s = serial then e.thumbprint = p else R.Printed p s := by
  unfold Printed replace
  split
  · simp only [Option.some.injEq,exists_eq_left']
  · rfl

end Registry

structure Tables where
  enrollments : GoMap Enrollment := ∅
  active : GoMap GoString := ∅
  byThumb : GoMap GoString := ∅
  certs : GoMap Certificate := ∅
  certThumb : GoMap GoString := ∅
  creds : GoMap MDMCredential := ∅

/-- `Create` once the enrollment is accepted. -/
def Tables.insert (t : Tables) (e : Enrollment) : Tables :=
  let enrollments := match t.active.lookup e.deviceID with
    | some prev => GoMap.modify t.enrollments prev (Enrollment.setState .superseded e.enrolledAt)
    | none => t.enrollments
  { t with
    enrollments := enrollments.insert e.serial e.created
    active := t.active.insert e.deviceID e.serial
    byThumb := t.byThumb.insert e.thumbprint e.serial }

def Tables.create (t : Tables) (e : Enrollment) : Except Error Unit × Tables :=
  match e.validate with
  | some text => (.error (.invalid (.validation text)),t)
  | none =>
    if (t.enrollments.lookup e.serial).isSome then (.error (.conflict (.serial e.serial)),t)
    else if (t.byThumb.lookup e.thumbprint).isSome then
      (.error (.conflict (.thumbprint e.thumbprint)),t)
    else (.ok (),t.insert e)

def Tables.get (t : Tables) (deviceID : GoString) : Except Error Enrollment :=
  match t.active.lookup deviceID with
  | none => .error (.notFound (.device deviceID))
  | some serial =>
    match t.enrollments.lookup serial with
    | some e => .ok e
    | none => .error (.notFound (.device deviceID))

def Tables.getBySerial (t : Tables) (serial : GoString) : Except Error Enrollment :=
  match t.enrollments.lookup serial with
  | some e => .ok e
  | none => .error (.notFound (.serial serial))

def Enrollment.before (a b : Enrollment) : Prop :=
  a.enrolledAt < b.enrolledAt ∨ a.enrolledAt = b.enrolledAt ∧ a.serial ≤ b.serial

instance (a b : Enrollment) : Decidable (a.before b) :=
  inferInstanceAs (Decidable (_ ∨ _ ∧ _))

def Tables.listByHWDevID (t : Tables) (hwDevID : GoString) : Except Error (List Enrollment) :=
  if hwDevID = [] then .error (.invalid .emptyHWDevID)
  else
    let all := t.enrollments.entries.map Sigma.snd
    .ok ((all.filter fun e => e.hwDevID = hwDevID).insertionSort Enrollment.before)

/-- `SetState` on an enrollment that exists. -/
def Tables.change (t : Tables) (e : Enrollment) (serial : GoString) (state : State) (at' : Time) :
    Tables :=
  let enrollments := GoMap.modify t.enrollments serial (Enrollment.setState state at')
  if state = .active then
    { t with
      enrollments := match t.active.lookup e.deviceID with
        | some prev =>
          if prev = serial then enrollments
          else GoMap.modify enrollments prev (Enrollment.setState .superseded at')
        | none => enrollments
      active := t.active.insert e.deviceID serial }
  else if (t.active.lookup e.deviceID).getD [] = serial then
    { t with enrollments := enrollments, active := t.active.erase e.deviceID }
  else { t with enrollments := enrollments }

def Tables.setState (t : Tables) (serial state : GoString) (at' : Time) : Except Error Unit × Tables :=
  match State.ofText state with
  | none => (.error (.invalid (.state state)),t)
  | some st =>
    match t.enrollments.lookup serial with
    | none => (.error (.notFound (.serial serial)),t)
    | some e => (.ok (),t.change e serial st at')

def Tables.touchLastSeen (t : Tables) (serial : GoString) (at' : Time) : Except Error Unit × Tables :=
  match t.enrollments.lookup serial with
  | none => (.error (.notFound (.serial serial)),t)
  | some _ => (.ok (),{ t with enrollments := GoMap.modify t.enrollments serial (Enrollment.touch at') })

def Tables.putCertificate (t : Tables) (c : Certificate) : Except Error Unit × Tables :=
  match c.validate with
  | some text => (.error (.invalid (.validation text)),t)
  | none =>
    if (t.certs.lookup c.serial).isSome then (.error (.conflict (.serial c.serial)),t)
    else if (t.certThumb.lookup c.thumbprint).isSome then
      (.error (.conflict (.thumbprint c.thumbprint)),t)
    else
      (.ok (),{ t with
        certs := t.certs.insert c.serial c
        certThumb := t.certThumb.insert c.thumbprint c.serial })

def Tables.putMDMCredential (t : Tables) (c : MDMCredential) : Except Error Unit × Tables :=
  if c.deviceID = [] then (.error (.invalid .emptyDeviceID),t)
  else (.ok (),{ t with creds := t.creds.insert c.deviceID c })

def Tables.registry (t : Tables) : Registry := fun s => t.enrollments.lookup s

/-- Enrollments and certificates are under their serials, and the indices are right. -/
structure Tables.Sound (t : Tables) : Prop where
  keyed : ∀ s e, t.registry s = some e → e.serial = s
  indexed : ∀ dev s, t.active.lookup dev = some s ↔ t.registry.Active dev s
  thumbs : ∀ p s, t.byThumb.lookup p = some s ↔ t.registry.Printed p s
  certKeyed : ∀ s c, t.certs.lookup s = some c → c.serial = s
  certThumbs : ∀ p s, t.certThumb.lookup p = some s ↔
    ∃ c, t.certs.lookup s = some c ∧ c.thumbprint = p

section Memory
variable {t : Tables} {e : Enrollment} {serial : GoString} {at' : Time} {st : State}

theorem Tables.Sound.supersede (h : t.Sound) (dev : GoString) (at' : Time) (s : GoString) :
    AList.lookup s (match t.active.lookup dev with
      | some prev => GoMap.modify t.enrollments prev (Enrollment.setState .superseded at')
      | none => t.enrollments) = (t.registry s).map (Enrollment.supersede dev at') := by
  have hnot : t.active.lookup dev ≠ some s → (t.registry s).map (Enrollment.supersede dev at') =
      t.registry s := by
    intro hne
    cases hs : t.registry s with
    | none => rfl
    | some e =>
      rw [Option.map_some,Enrollment.supersede_of_not fun ha =>
        hne ((h.indexed dev s).mpr ⟨e,hs,ha.1,ha.2⟩)]
  cases ha : t.active.lookup dev with
  | none => exact (hnot (by rw [ha]; exact Option.some_ne_none s |>.symm)).symm
  | some prev =>
    dsimp only
    rw [GoMap.lookup_modify]
    split
    · rename_i hs
      subst hs
      obtain ⟨e,he,hdev,hact⟩ := (h.indexed dev s).mp ha
      rw [show AList.lookup s t.enrollments = t.registry s from rfl,he,Option.map_some,
        Option.map_some,Enrollment.supersede,if_pos ⟨hdev,hact⟩]
    · rename_i hs
      rw [hnot fun he => hs (Option.some.inj (ha.symm.trans he)).symm]
      rfl

theorem Tables.Sound.registry_insert (h : t.Sound) (e : Enrollment) :
    (t.insert e).registry = t.registry.create e := by
  funext s
  show AList.lookup s (AList.insert e.serial e.created (_ : GoMap Enrollment)) = _
  rw [GoMap.lookup_insert_ite,h.supersede]
  rfl

theorem Tables.Sound.create_step (h : t.Sound) (e : Enrollment) :
    t.registry.Step (.create e) (t.create e).1 (t.create e).2.registry := by
  unfold create
  cases hv : e.validate with
  | some text => exact .invalid hv
  | none =>
    dsimp only
    split
    · rename_i hs
      obtain ⟨e',he'⟩ := Option.isSome_iff_exists.mp hs
      exact .serialTaken hv he'
    rename_i hs
    have hnone : t.registry e.serial = none := Option.not_isSome_iff_eq_none.mp hs
    split
    · rename_i ht
      obtain ⟨s,hts⟩ := Option.isSome_iff_exists.mp ht
      obtain ⟨e',he',hp⟩ := (h.thumbs e.thumbprint s).mp hts
      exact .thumbprintTaken hv hnone he' hp
    rename_i ht
    dsimp only
    rw [h.registry_insert]
    refine .created hv hnone fun s e' he' hp => ht ?_
    rw [(h.thumbs e.thumbprint s).mpr ⟨e',he',hp⟩]
    rfl

theorem Tables.Sound.insert (h : t.Sound) (hs : t.registry e.serial = none)
    (ht : t.byThumb.lookup e.thumbprint = none) : (t.insert e).Sound where
  keyed s x hx := by
    rw [h.registry_insert,Registry.create,Registry.activate] at hx
    split at hx
    · rename_i he
      cases hx
      exact he.symm
    · obtain ⟨y,hy,rfl⟩ := Option.map_eq_some_iff.mp hx
      rw [Enrollment.serial_supersede]
      exact h.keyed s y hy
  indexed dev s := by
    rw [h.registry_insert,Registry.create,Registry.activate_active rfl]
    show AList.lookup dev (AList.insert e.deviceID e.serial t.active) = some s ↔ _
    rw [GoMap.lookup_insert_ite]
    show _ ↔ if dev = e.deviceID then _ else _
    split
    · rw [Option.some.injEq]
      exact eq_comm
    rw [h.indexed]
    constructor
    · rintro ⟨x,hx,hrest⟩
      refine ⟨fun he => ?_,x,hx,hrest⟩
      rw [he,hs] at hx
      cases hx
    · exact fun hx => hx.2
  thumbs p s := by
    rw [h.registry_insert,Registry.create,Registry.activate_printed]
    show AList.lookup p (AList.insert e.thumbprint e.serial t.byThumb) = some s ↔ _
    rw [GoMap.lookup_insert_ite]
    by_cases hserial : s = e.serial
    · rw [if_pos hserial]
      split
      · rename_i hp
        exact iff_of_true (by rw [hserial]) hp.symm
      rename_i hp
      refine iff_of_false (fun hl => ?_) fun hp' => hp hp'.symm
      obtain ⟨x,hx,-⟩ := (h.thumbs p s).mp hl
      rw [hserial,hs] at hx
      cases hx
    · rw [if_neg hserial]
      split
      · rename_i hp
        refine iff_of_false (fun he => hserial (Option.some.inj he).symm) fun hx => ?_
        have := (h.thumbs p s).mpr hx
        rw [hp,ht] at this
        cases this
      · exact h.thumbs p s
  certKeyed := h.certKeyed
  certThumbs := h.certThumbs

theorem Tables.Sound.create (h : t.Sound) (e : Enrollment) : (t.create e).2.Sound := by
  unfold Tables.create
  cases hv : e.validate with
  | some text => exact h
  | none =>
    dsimp only
    split
    · exact h
    rename_i hs
    split
    · exact h
    · rename_i ht
      exact h.insert (Option.not_isSome_iff_eq_none.mp hs) (Option.not_isSome_iff_eq_none.mp ht)

theorem Tables.Sound.supersede_other (h : t.Sound) (he : t.registry serial = some e) (at' : Time)
    (s : GoString) :
    AList.lookup s (match t.active.lookup e.deviceID with
      | some prev =>
        if prev = serial then GoMap.modify t.enrollments serial (Enrollment.setState .active at')
        else GoMap.modify (GoMap.modify t.enrollments serial (Enrollment.setState .active at')) prev
          (Enrollment.setState .superseded at')
      | none => GoMap.modify t.enrollments serial (Enrollment.setState .active at')) =
    t.registry.activate serial (e.setState .active at') at' s := by
  have hsup := h.supersede e.deviceID at' s
  unfold Registry.activate
  have hdev : (e.setState .active at').deviceID = e.deviceID := rfl
  rw [hdev,← hsup]
  have hself : AList.lookup serial t.enrollments = some e := he
  cases ha : t.active.lookup e.deviceID with
  | none =>
    dsimp only
    rw [GoMap.lookup_modify]
    split
    · rename_i hs
      rw [hs,hself,Option.map_some]
    · rfl
  | some prev =>
    dsimp only
    by_cases hp : prev = serial
    · rw [if_pos hp,hp,GoMap.lookup_modify,GoMap.lookup_modify]
      split
      · rename_i hs
        rw [hs,hself,Option.map_some]
      · rfl
    · rw [if_neg hp,GoMap.lookup_modify,GoMap.lookup_modify,GoMap.lookup_modify]
      by_cases hs : s = serial
      · rw [if_pos hs,if_neg fun h => hp (h.symm.trans hs),if_pos hs,hs,hself,Option.map_some]
      · rw [if_neg hs,if_neg hs]

theorem Tables.Sound.registry_change (h : t.Sound) (he : t.registry serial = some e) (st : State)
    (at' : Time) : (t.change e serial st at').registry = t.registry.setState e serial st at' := by
  funext s
  unfold Registry.setState change
  split
  · rename_i hst
    subst hst
    exact h.supersede_other he at' s
  have hmodify : AList.lookup s (GoMap.modify t.enrollments serial (Enrollment.setState st at')) =
      t.registry.replace serial (e.setState st at') s := by
    rw [GoMap.lookup_modify,Registry.replace]
    split
    · rename_i hs
      rw [hs,show AList.lookup serial t.enrollments = some e from he,Option.map_some]
    · rfl
  split
  · exact hmodify
  · exact hmodify

theorem Tables.Sound.setState_step (h : t.Sound) (serial state : GoString) (at' : Time) :
    t.registry.Step (.setState serial state at') (t.setState serial state at').1
      (t.setState serial state at').2.registry := by
  unfold setState
  cases hst : State.ofText state with
  | none => exact .badState hst
  | some st =>
    dsimp only
    cases hs : t.enrollments.lookup serial with
    | none => exact .unknown hst hs
    | some e =>
      dsimp only
      rw [h.registry_change hs]
      exact .stateSet hst hs

theorem Registry.Printed.replace {e' : Enrollment} (he : R serial = some e)
    (ht : e'.thumbprint = e.thumbprint) (p s : GoString) :
    (if s = serial then e'.thumbprint = p else R.Printed p s) ↔ R.Printed p s := by
  split
  · rename_i hs
    unfold Printed
    rw [hs,he,ht]
    simp only [Option.some.injEq,exists_eq_left']
  · rfl

theorem Registry.setState_printed (he : R serial = some e) (st : State) (at' : Time)
    (p s : GoString) : (R.setState e serial st at').Printed p s ↔ R.Printed p s := by
  unfold Registry.setState
  split
  · rw [Registry.activate_printed]
    exact Registry.Printed.replace he rfl p s
  · rw [Registry.replace_printed]
    exact Registry.Printed.replace he rfl p s

theorem Tables.Sound.keyed_change (h : t.Sound) (he : t.registry serial = some e) (st : State)
    (at' : Time) {s : GoString} {x : Enrollment}
    (hx : t.registry.setState e serial st at' s = some x) : x.serial = s := by
  have hself : e.serial = serial := h.keyed serial e he
  unfold Registry.setState at hx
  split at hx
  · unfold Registry.activate at hx
    split at hx
    · rename_i hs
      cases hx
      exact hself.trans hs.symm
    · obtain ⟨y,hy,rfl⟩ := Option.map_eq_some_iff.mp hx
      rw [Enrollment.serial_supersede]
      exact h.keyed s y hy
  · unfold Registry.replace at hx
    split at hx
    · rename_i hs
      cases hx
      exact hself.trans hs.symm
    · exact h.keyed s x hx

theorem Tables.Sound.indexed_change (h : t.Sound) (he : t.registry serial = some e) (st : State)
    (at' : Time) (d s : GoString) :
    (t.change e serial st at').active.lookup d = some s ↔
      (t.registry.setState e serial st at').Active d s := by
  -- The enrollment itself is active only under its own device.
  have hown : t.registry.Active d serial → d = e.deviceID := by
    rintro ⟨x,hx,hdev,-⟩
    rw [he] at hx
    cases hx
    exact hdev.symm
  unfold Registry.setState change
  by_cases hst : st = .active
  · rw [if_pos hst,if_pos hst,Registry.activate_active rfl]
    show AList.lookup d (AList.insert e.deviceID serial t.active) = some s ↔
      if d = e.deviceID then _ else _
    rw [GoMap.lookup_insert_ite]
    split
    · rw [Option.some.injEq]
      exact eq_comm
    rename_i hd
    rw [h.indexed]
    exact ⟨fun hx => ⟨fun hs => hd (hown (hs ▸ hx)),hx⟩,fun hx => hx.2⟩
  · rw [if_neg hst,if_neg hst,Registry.replace_active]
    have hoff : (if s = serial then (e.setState st at').deviceID = d ∧
        (e.setState st at').state = .active else t.registry.Active d s) ↔
        s ≠ serial ∧ t.registry.Active d s := by
      split
      · rename_i hs
        exact iff_of_false (fun hx => hst hx.2) fun hx => hx.1 hs
      · rename_i hs
        exact ⟨fun hx => ⟨hs,hx⟩,fun hx => hx.2⟩
    rw [hoff,← h.indexed]
    split
    · rename_i hcur
      show AList.lookup d (AList.erase e.deviceID t.active) = some s ↔ _
      rw [GoMap.lookup_erase_ite]
      split
      · rename_i hd
        subst hd
        refine iff_of_false (fun hn => nomatch hn) fun ⟨hs,hl⟩ => hs ?_
        rw [hl,Option.getD_some] at hcur
        exact hcur
      · rename_i hd
        refine ⟨fun hl => ⟨fun hs => hd (hown ?_),hl⟩,fun hx => hx.2⟩
        exact (h.indexed d serial).mp (hs ▸ hl)
    · rename_i hcur
      refine ⟨fun hl => ⟨fun hs => hcur ?_,hl⟩,fun hx => hx.2⟩
      have hd := hown ((h.indexed d serial).mp (hs ▸ hl))
      rw [← hd,show t.active.lookup d = some s from hl,Option.getD_some,hs]

theorem Tables.Sound.change (h : t.Sound) (he : t.registry serial = some e) (st : State)
    (at' : Time) : (t.change e serial st at').Sound := by
  have hrest : (t.change e serial st at').byThumb = t.byThumb ∧
      (t.change e serial st at').certs = t.certs ∧
      (t.change e serial st at').certThumb = t.certThumb := by
    unfold Tables.change
    split
    · exact ⟨rfl,rfl,rfl⟩
    · split <;> exact ⟨rfl,rfl,rfl⟩
  refine ⟨?_,?_,?_,?_,?_⟩
  · intro s x hx
    rw [h.registry_change he] at hx
    exact h.keyed_change he st at' hx
  · intro d s
    rw [h.registry_change he]
    exact h.indexed_change he st at' d s
  · intro p s
    rw [h.registry_change he,hrest.1,Registry.setState_printed he]
    exact h.thumbs p s
  · rw [hrest.2.1]
    exact h.certKeyed
  · rw [hrest.2.1,hrest.2.2]
    exact h.certThumbs

theorem Tables.Sound.setState (h : t.Sound) (serial state : GoString) (at' : Time) :
    (t.setState serial state at').2.Sound := by
  unfold Tables.setState
  cases hst : State.ofText state with
  | none => exact h
  | some st =>
    dsimp only
    cases hs : t.enrollments.lookup serial with
    | none => exact h
    | some e => exact h.change hs st at'

theorem Tables.registry_touch (he : t.registry serial = some e) (at' : Time) :
    Tables.registry { t with
      enrollments := GoMap.modify t.enrollments serial (Enrollment.touch at') } =
    t.registry.replace serial (e.touch at') := by
  funext s
  show AList.lookup s (GoMap.modify t.enrollments serial (Enrollment.touch at')) = _
  rw [GoMap.lookup_modify,Registry.replace]
  split
  · rename_i hs
    rw [hs,show AList.lookup serial t.enrollments = some e from he,Option.map_some]
  · rfl

theorem Tables.touchLastSeen_step (t : Tables) (serial : GoString) (at' : Time) :
    t.registry.Step (.touchLastSeen serial at') (t.touchLastSeen serial at').1
      (t.touchLastSeen serial at').2.registry := by
  unfold touchLastSeen
  cases hs : t.enrollments.lookup serial with
  | none => exact .unseen hs
  | some e =>
    dsimp only
    rw [Tables.registry_touch hs]
    exact .touched hs

theorem Tables.Sound.touchLastSeen (h : t.Sound) (serial : GoString) (at' : Time) :
    (t.touchLastSeen serial at').2.Sound := by
  unfold Tables.touchLastSeen
  cases hs : t.enrollments.lookup serial with
  | none => exact h
  | some e =>
    have hreg := Tables.registry_touch (t := t) hs at'
    refine ⟨?_,?_,?_,h.certKeyed,h.certThumbs⟩
    · intro s x hx
      rw [hreg,Registry.replace] at hx
      split at hx
      · rename_i hself
        cases hx
        rw [Enrollment.serial_touch]
        exact (h.keyed serial e hs).trans hself.symm
      · exact h.keyed s x hx
    · intro d s
      rw [hreg,Registry.replace_active,Enrollment.deviceID_touch,Enrollment.state_touch]
      show t.active.lookup d = some s ↔ _
      rw [h.indexed]
      split
      · rename_i hself
        unfold Registry.Active
        rw [hself,show t.registry serial = some e from hs]
        simp only [Option.some.injEq,exists_eq_left']
      · rfl
    · intro p s
      rw [hreg,Registry.replace_printed,Registry.Printed.replace hs Enrollment.thumbprint_touch]
      exact h.thumbs p s

theorem Tables.Sound.putCertificate (h : t.Sound) (c : Certificate) : (t.putCertificate c).2.Sound := by
  unfold Tables.putCertificate
  cases hv : c.validate with
  | some text => exact h
  | none =>
    dsimp only
    split
    · exact h
    rename_i hs
    split
    · exact h
    rename_i ht
    have hserial := Option.not_isSome_iff_eq_none.mp hs
    have hthumb := Option.not_isSome_iff_eq_none.mp ht
    refine ⟨h.keyed,h.indexed,h.thumbs,?_,?_⟩
    · intro s x hx
      rcases GoMap.lookup_insert_cases hx with ⟨he,rfl⟩ | ⟨-,hx⟩
      · exact he.symm
      · exact h.certKeyed s x hx
    intro p s
    dsimp only
    rw [GoMap.lookup_insert_ite,GoMap.lookup_insert_ite]
    by_cases hs' : s = c.serial
    · rw [if_pos hs']
      simp only [Option.some.injEq,exists_eq_left']
      split
      · rename_i hp
        exact iff_of_true (by rw [hs']) hp.symm
      rename_i hp
      refine iff_of_false (fun hl => ?_) fun hp' => hp hp'.symm
      obtain ⟨x,hx,-⟩ := (h.certThumbs p s).mp hl
      rw [hs',hserial] at hx
      cases hx
    · rw [if_neg hs']
      split
      · rename_i hp
        refine iff_of_false (fun he => hs' (Option.some.inj he).symm) fun hx => ?_
        have := (h.certThumbs p s).mpr hx
        rw [hp,hthumb] at this
        cases this
      · exact h.certThumbs p s

theorem Tables.Sound.putMDMCredential (h : t.Sound) (c : MDMCredential) :
    (t.putMDMCredential c).2.Sound := by
  unfold Tables.putMDMCredential
  split
  · exact h
  · exact ⟨h.keyed,h.indexed,h.thumbs,h.certKeyed,h.certThumbs⟩

end Memory

structure Store extends Tables where
  sound : toTables.Sound

def Store.new : Store where
  sound := by
    refine ⟨?_,?_,?_,?_,?_⟩ <;> simp [Tables.registry,Registry.Active,Registry.Printed]

def Store.create (s : Store) (e : Enrollment) : Except Error Unit × Store :=
  ((s.toTables.create e).1,⟨(s.toTables.create e).2,s.sound.create e⟩)

def Store.setState (s : Store) (serial state : GoString) (at' : Time) : Except Error Unit × Store :=
  ((s.toTables.setState serial state at').1,
    ⟨(s.toTables.setState serial state at').2,s.sound.setState serial state at'⟩)

def Store.touchLastSeen (s : Store) (serial : GoString) (at' : Time) : Except Error Unit × Store :=
  ((s.toTables.touchLastSeen serial at').1,
    ⟨(s.toTables.touchLastSeen serial at').2,s.sound.touchLastSeen serial at'⟩)

def Store.putCertificate (s : Store) (c : Certificate) : Except Error Unit × Store :=
  ((s.toTables.putCertificate c).1,⟨(s.toTables.putCertificate c).2,s.sound.putCertificate c⟩)

def Store.putMDMCredential (s : Store) (c : MDMCredential) : Except Error Unit × Store :=
  ((s.toTables.putMDMCredential c).1,⟨(s.toTables.putMDMCredential c).2,s.sound.putMDMCredential c⟩)

def Store.apply (s : Store) : Call → Except Error Unit × Store
  | .create e => s.create e
  | .setState serial state at' => s.setState serial state at'
  | .touchLastSeen serial at' => s.touchLastSeen serial at'

theorem Store.apply_step (s : Store) (c : Call) :
    s.registry.Step c (s.apply c).1 (s.apply c).2.registry := by
  cases c with
  | create e => exact s.sound.create_step e
  | setState serial state at' => exact s.sound.setState_step serial state at'
  | touchLastSeen serial at' => exact Tables.touchLastSeen_step s.toTables serial at'

end MicrosoftDM.Storage
