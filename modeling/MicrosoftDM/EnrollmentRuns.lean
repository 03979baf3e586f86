import MicrosoftDM.EnrollService
import MicrosoftDM.Lifecycle

set_option autoImplicit false

namespace MicrosoftDM.Storage

def Certificate.revoke (at' : Time) (c : Certificate) : Certificate :=
  if c.revoked then c else { c with revoked := true, revokedAt := at' }

def Tables.revoke (t : Tables) (serial : GoString) (at' : Time) : Except Error Unit × Tables :=
  match t.certs.lookup serial with
  | none => (.error (.notFound (.validation ("certificate " ++ serial))),t)
  | some _ => (.ok (),{ t with certs := GoMap.modify t.certs serial (Certificate.revoke at') })

theorem Certificate.revoke_keys (at' : Time) (c : Certificate) :
    (c.revoke at').serial = c.serial ∧ (c.revoke at').thumbprint = c.thumbprint := by
  unfold revoke
  split
  · exact ⟨rfl,rfl⟩
  · exact ⟨rfl,rfl⟩

theorem Tables.Sound.revoke {t : Tables} (h : t.Sound) (serial : GoString) (at' : Time) :
    (t.revoke serial at').2.Sound := by
  unfold Tables.revoke
  split
  · exact h
  refine ⟨h.keyed,h.indexed,h.thumbs,fun s c hc => ?_,fun p s => ?_⟩
  · rw [GoMap.lookup_modify] at hc
    split at hc
    · obtain ⟨c',hc',rfl⟩ := Option.map_eq_some_iff.mp hc
      exact (c'.revoke_keys at').1.trans (h.certKeyed s c' hc')
    · exact h.certKeyed s c hc
  · rw [GoMap.lookup_modify]
    refine (h.certThumbs p s).trans ?_
    split
    · simp [Certificate.revoke_keys]
    · rfl

def Store.revoke (s : Store) (serial : GoString) (at' : Time) : Except Error Unit × Store :=
  ((s.toTables.revoke serial at').1,⟨(s.toTables.revoke serial at').2,s.sound.revoke serial at'⟩)

/-- `Unenroll`: an error of `Revoke` leaves the enrollment ended. -/
def Store.unenroll (s : Store) (serial : GoString) (at' : Time) : Except Error Unit × Store :=
  match s.setState serial "unenrolled" at' with
  | (.error e,s) => (.error e,s)
  | (.ok (),s) => s.revoke serial at'

/-- `Unenrolled` up to the event it logs, with the serial in it. -/
def Store.unenrolled (s : Store) (deviceID : GoString) (now : Time) :
    Except Error (Option GoString) × Store :=
  match s.get deviceID with
  | .error (.notFound _) => (.ok none,s)
  | .error e => (.error e,s)
  | .ok e =>
    match s.unenroll e.serial now with
    | (.error err,s) => (.error err,s)
    | (.ok (),s) => (.ok (some e.serial),s)

section Unenroll
variable {s : Store} {t : Tables} {dev serial : GoString} {e : Enrollment} {at' : Time}

theorem Store.get_ok (he : s.get dev = .ok e) : s.active.lookup dev = some e.serial ∧
    s.enrollments.lookup e.serial = some e ∧ e.deviceID = dev := by
  unfold Tables.get at he
  split at he
  · cases he
  rename_i serial ha
  obtain ⟨x,hx,hdev,-⟩ := (s.sound.indexed dev serial).mp ha
  have hlookup : s.enrollments.lookup serial = some x := hx
  rw [hlookup] at he
  cases he
  rw [s.sound.keyed _ _ hx]
  exact ⟨ha,hlookup,hdev⟩

theorem Store.unenroll_tables (h : s.toTables.setState serial "unenrolled" at' = (.ok (),t)) :
    ∃ certs, (s.unenroll serial at').2.toTables = { t with certs := certs } := by
  have hr : (s.setState serial "unenrolled" at').1 = .ok () := congrArg Prod.fst h
  have ht : (s.setState serial "unenrolled" at').2.toTables = t := congrArg Prod.snd h
  unfold unenroll
  cases hs : s.setState serial "unenrolled" at' with
  | mk r s₁ =>
    rw [hs] at hr ht
    cases hr
    cases ht
    show ∃ certs, (s₁.toTables.revoke serial at').2 = { s₁.toTables with certs := certs }
    unfold Tables.revoke
    split
    · exact ⟨_,rfl⟩
    · exact ⟨_,rfl⟩

/-- The device has no active enrollment, whatever `Revoke` answers. -/
theorem Store.unenrolled_get (s : Store) (dev : GoString) (now : Time) :
    (s.unenrolled dev now).2.creds = s.creds ∧ ∀ x, (s.unenrolled dev now).2.get x =
      if x = dev then .error (.notFound (.device x)) else s.get x := by
  cases he : s.get dev with
  | error err =>
    have hstore : (s.unenrolled dev now).2 = s := by
      unfold unenrolled
      rw [he]
      cases err <;> rfl
    refine ⟨by rw [hstore],fun x => ?_⟩
    rw [hstore]
    split
    · rename_i hx
      rw [hx,he]
      unfold Tables.get at he
      split at he
      · exact he.symm
      split at he
      · cases he
      · exact he.symm
    · rfl
  | ok e =>
    obtain ⟨ha,hl,rfl⟩ := Store.get_ok he
    have hset : s.toTables.setState e.serial "unenrolled" now = (.ok (),{ s.toTables with
        enrollments := GoMap.modify s.enrollments e.serial (Enrollment.setState .unenrolled now)
        active := s.active.erase e.deviceID }) := by
      have htext : State.ofText (utf8 "unenrolled") = some .unenrolled := by decide
      simp [Tables.setState,Tables.change,htext,hl,ha]
    have hstore : (s.unenrolled e.deviceID now).2 = (s.unenroll e.serial now).2 := by
      unfold unenrolled
      rw [he]
      dsimp only
      split <;> simp [*]
    obtain ⟨certs,hs⟩ := Store.unenroll_tables hset
    rw [hstore,hs]
    refine ⟨rfl,fun x => ?_⟩
    unfold Tables.get
    dsimp only
    by_cases hx : x = e.deviceID
    · rw [hx,AList.lookup_erase,if_pos rfl]
    rw [AList.lookup_erase_ne hx,if_neg hx]
    cases hax : s.active.lookup x with
    | none => rfl
    | some serial =>
      have hne : serial ≠ e.serial := by
        rintro rfl
        obtain ⟨y,hy,hdev,-⟩ := (s.sound.indexed x _).mp hax
        cases hl.symm.trans hy
        exact hx hdev.symm
      dsimp only
      rw [GoMap.lookup_modify,if_neg hne]

end Unenroll

end MicrosoftDM.Storage

namespace MicrosoftDM.Enroll
open Mdm (Identity)

inductive Event where
  | enroll (d : Deps) (h : Header) (rst : RequestSecurityToken)
  | unenrolled (deviceID : GoString) (now : Time)

def Event.after (s : Storage.Store) : Event → Storage.Store
  | .enroll d h rst => (d.enroll s (some (h,rst))).2
  | .unenrolled deviceID now => (s.unenrolled deviceID now).2

def Event.accepted (s : Storage.Store) : Event → Bool
  | .enroll d h rst => (d.enroll s (some (h,rst))).1.isOk
  | .unenrolled _ _ => true

abbrev Directory := GoString → Option Identity

/-- By the certificate issued and the first secret drawn. -/
def Deps.identity (d : Deps) (h : Header) (rst : RequestSecurityToken) : Option Identity :=
  match d.issue h rst,d.draw with
  | .ok (req,_,cert,_),some (serverSecret,_,_) => some (enrolledIdentity d.crypto req serverSecret
      (itoa cert.serialNumber) (d.recorder.thumbprint cert.raw))
  | _,_ => none

def Event.apply : Event → Directory → Directory
  | .enroll d h rst,D => fun dev => if dev = rst.context.deviceID then d.identity h rst else D dev
  | .unenrolled deviceID _,D => fun dev => if dev = deviceID then none else D dev

theorem Event.lookup_after {s : Storage.Store} {ev : Event} (h : ev.accepted s = true) :
    lookup (ev.after s) = ev.apply (lookup s) := by
  funext dev
  cases ev with
  | enroll d hd rst =>
    have hcases := d.enroll_cases s hd rst
    simp only [Event.accepted,Event.after,Event.apply] at h ⊢
    generalize d.enroll s (some (hd,rst)) = o at h hcases
    cases hcases with
    | early | minted => cases h
    | recorded hm hr hget hcreds =>
      have hdev := (Deps.issue_device hm.issued).1
      unfold lookup
      rw [hget,hcreds,GoMap.lookup_insert_ite]
      by_cases hx : dev = rst.context.deviceID
      · rw [if_pos hx,if_pos hx,if_pos hx,Deps.identity,hm.issued,hm.drawn,← hdev]
        rfl
      · rw [if_neg hx,if_neg hx,if_neg hx]
  | unenrolled deviceID now =>
    obtain ⟨hcreds,hget⟩ := s.unenrolled_get deviceID now
    simp only [Event.after,Event.apply,lookup,hget,hcreds]
    by_cases hx : dev = deviceID
    · rw [if_pos hx,if_pos hx]
    · rw [if_neg hx,if_neg hx]

/-- Through every run of accepted `Enroll` requests and devices leaving, a device authenticates
as the last of them says. -/
theorem lookup_run {s : Storage.Store} {evs : List Event}
    (h : Lifecycle.Allowed Event.after (fun s ev => ev.accepted s = true) s evs) :
    lookup (evs.foldl Event.after s) = evs.foldl (fun D ev => ev.apply D) (lookup s) := by
  induction evs generalizing s with
  | nil => rfl
  | cons ev evs ih => rw [List.foldl_cons,ih h.2,Event.lookup_after h.1,List.foldl_cons]

namespace Sample

def events : List Event := [.enroll (deps 1) header (plainRequest "DEVICE-A"),
  .enroll (deps 2) header (plainRequest "DEVICE-B"),.unenrolled "DEVICE-A" 12]

end Sample

/-- Of two devices that enroll the one that leaves does not authenticate any more. -/
theorem lookup_run_left : lookup (Sample.events.foldl Event.after .new) "DEVICE-A" = none ∧
    (lookup (Sample.events.foldl Event.after .new) "DEVICE-B").isSome = true := by
  rw [lookup_run (by decide +kernel)]
  decide +kernel

end MicrosoftDM.Enroll
