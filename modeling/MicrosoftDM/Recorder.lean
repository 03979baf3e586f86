import MicrosoftDM.EnrollmentStore

/-!
`Record` of storage/recorder.go: the certificate and the enrollment, written one after the
other, and a report when the hardware is known under another device.
-/

set_option autoImplicit false

namespace MicrosoftDM.Storage
open Enroll (Request)
open Mdm (Bytes)

/-- The fields of an `x509.Certificate` that are recorded. -/
structure X509 where
  serialNumber : Int
  subject : GoString := []
  notBefore : Time
  notAfter : Time
  raw : Bytes

/-- `enroll.Enrollment`, as far as it is recorded. -/
structure Issue where
  request : Option Request
  upn : GoString := []
  certificate : Option X509
  enrolledAt : Time

structure Conflict where
  hwDevID : GoString
  existing : List Enrollment
  new : Enrollment

/-- The calls that `Record` makes. -/
inductive RecordCall where
  | putCertificate | listByHWDevID | create | hwDevIDConflict
  deriving DecidableEq

inductive CallError where
  | store (e : Error) | unavailable
  deriving DecidableEq

/-- What `Record` returns, by the text that wraps the cause. -/
inductive RecordError where
  | invalid
  | recordCertificate (e : CallError)
  | lookUpHWDevID (e : CallError)
  | recordEnrollment (e : CallError)
  | conflict (e : CallError)
  deriving DecidableEq

/-- `thumbprint` is the hash of `wapprov.Thumbprint`, `conflicts` whether there is a sink. -/
structure Recorder where
  thumbprint : Bytes → GoString
  conflicts : Bool := true

def Recorder.enrollment (r : Recorder) (req : Request) (cert : X509) (i : Issue) : Enrollment where
  serial := itoa cert.serialNumber
  thumbprint := r.thumbprint cert.raw
  deviceID := req.context.deviceID
  hwDevID := req.context.hwDevID
  enrollmentType := req.context.enrollmentType
  upn := i.upn
  context := req.context
  enrolledAt := i.enrolledAt

def Recorder.certificate (r : Recorder) (req : Request) (cert : X509) : Certificate where
  serial := itoa cert.serialNumber
  thumbprint := r.thumbprint cert.raw
  subject := cert.subject
  deviceID := req.context.deviceID
  notBefore := cert.notBefore
  notAfter := cert.notAfter
  raw := cert.raw

def attempt (fault : Option RecordCall) (c : RecordCall) (s : Store)
    (write : Except Error Unit × Store) : Except CallError Unit × Store :=
  if fault = some c then (.error .unavailable,s)
  else
    match write with
    | (.ok (),s) => (.ok (),s)
    | (.error e,s) => (.error (.store e),s)

def Recorder.existing (fault : Option RecordCall) (s : Store) (e : Enrollment) :
    Except CallError (List Enrollment) :=
  if e.hwDevID = [] then .ok []
  else if fault = some .listByHWDevID then .error .unavailable
  else
    match s.listByHWDevID e.hwDevID with
    | .ok all => .ok (all.filter fun prev => prev.deviceID ≠ e.deviceID)
    | .error err => .error (.store err)

def Recorder.finish (r : Recorder) (fault : Option RecordCall) (s : Store) (e : Enrollment)
    (existing : List Enrollment) : Except RecordError Unit × Store :=
  match attempt fault .create s (s.create e) with
  | (.error err,s) => (.error (.recordEnrollment err),s)
  | (.ok (),s) =>
    if existing ≠ [] ∧ r.conflicts then
      if fault = some .hwDevIDConflict then (.error (.conflict .unavailable),s) else (.ok (),s)
    else (.ok (),s)

/-- `Record`; `fault` is the call that fails, if one does. -/
def Recorder.record (r : Recorder) (fault : Option RecordCall) (s : Store) (i : Issue) :
    Except RecordError Unit × Store :=
  match i.certificate,i.request with
  | some cert,some req =>
    match attempt fault .putCertificate s (s.putCertificate (r.certificate req cert)) with
    | (.error err,s) => (.error (.recordCertificate err),s)
    | (.ok (),s) =>
      match Recorder.existing fault s (r.enrollment req cert i) with
      | .error err => (.error (.lookUpHWDevID err),s)
      | .ok existing => r.finish fault s (r.enrollment req cert i) existing
  | _,_ => (.error .invalid,s)

section Calls
variable {s : Store} {c : Certificate} {e : Enrollment}

theorem Store.eq_of_tables {s s' : Store} (h : s.toTables = s'.toTables) : s = s' := by
  cases s
  cases s'
  cases h
  rfl

def Tables.TakesCertificate (t : Tables) (c : Certificate) : Prop :=
  c.validate = none ∧ t.certs.lookup c.serial = none ∧ t.certThumb.lookup c.thumbprint = none

def Tables.TakesEnrollment (t : Tables) (e : Enrollment) : Prop :=
  e.validate = none ∧ t.enrollments.lookup e.serial = none ∧ t.byThumb.lookup e.thumbprint = none

theorem Tables.putCertificate_cases (t : Tables) (c : Certificate) :
    (t.TakesCertificate c ∧ t.putCertificate c = (.ok (),{ t with
      certs := t.certs.insert c.serial c
      certThumb := t.certThumb.insert c.thumbprint c.serial })) ∨
    (¬t.TakesCertificate c ∧ ∃ err, t.putCertificate c = (.error err,t)) := by
  unfold TakesCertificate putCertificate
  cases hv : c.validate with
  | some text =>
    refine .inr ⟨fun h => ?_,_,rfl⟩
    cases h.1
  | none =>
    dsimp only
    split
    · rename_i hs
      refine .inr ⟨fun h => ?_,_,rfl⟩
      rw [h.2.1] at hs
      cases hs
    rename_i hs
    split
    · rename_i ht
      refine .inr ⟨fun h => ?_,_,rfl⟩
      rw [h.2.2] at ht
      cases ht
    · rename_i ht
      exact .inl ⟨⟨rfl,Option.not_isSome_iff_eq_none.mp hs,Option.not_isSome_iff_eq_none.mp ht⟩,rfl⟩

theorem Tables.create_cases (t : Tables) (e : Enrollment) :
    (t.TakesEnrollment e ∧ t.create e = (.ok (),t.insert e)) ∨
    (¬t.TakesEnrollment e ∧ ∃ err, t.create e = (.error err,t)) := by
  unfold TakesEnrollment create
  cases hv : e.validate with
  | some text =>
    refine .inr ⟨fun h => ?_,_,rfl⟩
    cases h.1
  | none =>
    dsimp only
    split
    · rename_i hs
      refine .inr ⟨fun h => ?_,_,rfl⟩
      rw [h.2.1] at hs
      cases hs
    rename_i hs
    split
    · rename_i ht
      refine .inr ⟨fun h => ?_,_,rfl⟩
      rw [h.2.2] at ht
      cases ht
    · rename_i ht
      exact .inl ⟨⟨rfl,Option.not_isSome_iff_eq_none.mp hs,Option.not_isSome_iff_eq_none.mp ht⟩,rfl⟩

/-- What `Record` leaves alone until it creates the enrollment. -/
structure Store.Keeps (s s' : Store) : Prop where
  enrollments : s'.enrollments = s.enrollments
  active : s'.active = s.active
  byThumb : s'.byThumb = s.byThumb
  creds : s'.creds = s.creds

theorem Store.Keeps.refl (s : Store) : s.Keeps s := ⟨rfl,rfl,rfl,rfl⟩

theorem Store.putCertificate_cases (s : Store) (c : Certificate) :
    (s.TakesCertificate c ∧ ∃ s', s.putCertificate c = (.ok (),s') ∧
      s'.certs = s.certs.insert c.serial c ∧ s.Keeps s') ∨
    (¬s.TakesCertificate c ∧ ∃ err, s.putCertificate c = (.error err,s)) := by
  rcases s.toTables.putCertificate_cases c with ⟨ht,hc⟩ | ⟨ht,err,hc⟩
  · have hr : (s.toTables.putCertificate c).1 = .ok () := by rw [hc]
    refine .inl ⟨ht,(s.putCertificate c).2,Prod.ext hr rfl,?_,?_,?_,?_,?_⟩
    · exact congrArg (·.2.certs) hc
    · exact congrArg (·.2.enrollments) hc
    · exact congrArg (·.2.active) hc
    · exact congrArg (·.2.byThumb) hc
    · exact congrArg (·.2.creds) hc
  · have hr : (s.toTables.putCertificate c).1 = .error err := by rw [hc]
    have hs : (s.toTables.putCertificate c).2 = s.toTables := by rw [hc]
    exact .inr ⟨ht,err,Prod.ext hr (Store.eq_of_tables hs)⟩

theorem Store.create_cases (s : Store) (e : Enrollment) :
    (s.TakesEnrollment e ∧ ∃ s', s.create e = (.ok (),s') ∧ s'.toTables = s.toTables.insert e) ∨
    (¬s.TakesEnrollment e ∧ ∃ err, s.create e = (.error err,s)) := by
  rcases s.toTables.create_cases e with ⟨ht,hc⟩ | ⟨ht,err,hc⟩
  · have hr : (s.toTables.create e).1 = .ok () := by rw [hc]
    exact .inl ⟨ht,(s.create e).2,Prod.ext hr rfl,congrArg (·.2) hc⟩
  have hr : (s.toTables.create e).1 = .error err := by rw [hc]
  have hs : (s.toTables.create e).2 = s.toTables := by rw [hc]
  exact .inr ⟨ht,err,Prod.ext hr (Store.eq_of_tables hs)⟩

theorem Store.get_insert (s : Store) {e : Enrollment} (h : s.TakesEnrollment e) (dev : GoString) :
    (s.toTables.insert e).get dev = if dev = e.deviceID then .ok e.created else s.get dev := by
  unfold Tables.get Tables.insert
  dsimp only
  by_cases hdev : dev = e.deviceID
  · rw [if_pos hdev,hdev,AList.lookup_insert]
    dsimp only
    rw [AList.lookup_insert]
  rw [if_neg hdev,AList.lookup_insert_ne hdev]
  cases ha : s.active.lookup dev with
  | none => rfl
  | some serial =>
    obtain ⟨x,hx,hxdev,-⟩ := (s.sound.indexed dev serial).mp ha
    have hserial : serial ≠ e.serial := fun heq => by
      rw [heq] at hx
      exact nomatch h.2.1.symm.trans hx
    have hother : x.supersede e.deviceID e.enrolledAt = x :=
      Enrollment.supersede_of_not fun hs => hdev (hxdev.symm.trans hs.1)
    dsimp only
    rw [AList.lookup_insert_ne hserial,s.sound.supersede,hx,Option.map_some,hother,
      show s.enrollments.lookup serial = some x from hx]

end Calls

structure Store.Same (s s' : Store) : Prop where
  get : ∀ deviceID, s'.get deviceID = s.get deviceID
  getBySerial : ∀ serial, s'.getBySerial serial = s.getBySerial serial
  listByHWDevID : ∀ hwDevID, s'.listByHWDevID hwDevID = s.listByHWDevID hwDevID
  certificate : ∀ serial, s'.certs.lookup serial = s.certs.lookup serial

def Recorder.Recordable (r : Recorder) (s : Store) (i : Issue) (req : Request) (cert : X509) : Prop :=
  i.certificate = some cert ∧ i.request = some req ∧
    s.TakesCertificate (r.certificate req cert) ∧ s.TakesEnrollment (r.enrollment req cert i)

def Recorder.Reports (r : Recorder) (s : Store) (e : Enrollment) : Prop :=
  r.conflicts = true ∧ e.hwDevID ≠ [] ∧
    ∃ serial prev, s.enrollments.lookup serial = some prev ∧ prev.hwDevID = e.hwDevID ∧
      prev.deviceID ≠ e.deviceID

def Recorder.Makes (r : Recorder) (s : Store) (e : Enrollment) : RecordCall → Prop
  | .putCertificate | .create => True
  | .listByHWDevID => e.hwDevID ≠ []
  | .hwDevIDConflict => r.Reports s e

section Record
variable {r : Recorder} {s s' : Store} {i : Issue} {req : Request} {cert : X509}
  {fault : Option RecordCall} {e : Enrollment}

theorem existing_of_enrollments (h : s'.enrollments = s.enrollments) :
    Recorder.existing fault s' e = Recorder.existing fault s e := by
  unfold Recorder.existing Tables.listByHWDevID
  rw [h]

theorem Tables.mem_listByHWDevID {t : Tables} {hwDevID : GoString} {all : List Enrollment}
    (h : t.listByHWDevID hwDevID = .ok all) (x : Enrollment) :
    x ∈ all ↔ (∃ serial, t.enrollments.lookup serial = some x) ∧ x.hwDevID = hwDevID := by
  unfold listByHWDevID at h
  split at h
  · cases h
  cases h
  rw [List.mem_insertionSort,List.mem_filter,List.mem_map,decide_eq_true_eq]
  refine and_congr_left fun _ => ?_
  constructor
  · rintro ⟨⟨serial,y⟩,hy,rfl⟩
    exact ⟨serial,AList.mem_lookup_iff.mpr hy⟩
  · rintro ⟨serial,hs⟩
    exact ⟨⟨serial,x⟩,AList.mem_lookup_iff.mp hs,rfl⟩

theorem existing_ok (r : Recorder) (s : Store)
    (hf : fault = some .listByHWDevID → e.hwDevID = []) :
    ∃ existing, Recorder.existing fault s e = .ok existing ∧
      ((existing ≠ [] ∧ r.conflicts = true) ↔ r.Reports s e) := by
  unfold Recorder.existing
  by_cases hhw : e.hwDevID = []
  · rw [if_pos hhw]
    exact ⟨[],rfl,iff_of_false (fun h => h.1 rfl) fun h => h.2.1 hhw⟩
  rw [if_neg hhw,if_neg fun h => hhw (hf h)]
  obtain ⟨all,hall⟩ : ∃ all, s.listByHWDevID e.hwDevID = .ok all := ⟨_,if_neg hhw⟩
  have hmem := Tables.mem_listByHWDevID hall
  rw [hall]
  refine ⟨_,rfl,?_⟩
  constructor
  · rintro ⟨hne,hconf⟩
    obtain ⟨x,hx⟩ := List.exists_mem_of_ne_nil _ hne
    obtain ⟨hx,hdev⟩ := List.mem_filter.mp hx
    obtain ⟨⟨serial,hs⟩,hhwx⟩ := (hmem x).mp hx
    exact ⟨hconf,hhw,serial,x,hs,hhwx,of_decide_eq_true hdev⟩
  · rintro ⟨hconf,-,serial,x,hs,hhwx,hdev⟩
    refine ⟨List.ne_nil_of_mem (a := x) (List.mem_filter.mpr ⟨?_,decide_eq_true hdev⟩),hconf⟩
    exact (hmem x).mpr ⟨⟨serial,hs⟩,hhwx⟩

/-- What `Record` comes to. Only a failure of its first call leaves the store as it was. -/
inductive Recorder.Recorded (r : Recorder) (fault : Option RecordCall) (s : Store) (i : Issue) :
    Except RecordError Unit × Store → Prop where
  | invalid (h : i.certificate = none ∨ i.request = none) : Recorded r fault s i (.error .invalid,s)
  | refused {req : Request} {cert : X509} {err : RecordError} (hc : i.certificate = some cert)
      (hr : i.request = some req)
      (h : fault = some .putCertificate ∨ ¬s.TakesCertificate (r.certificate req cert)) :
      Recorded r fault s i (.error err,s)
  | stopped {req : Request} {cert : X509} {err : RecordError} {s' : Store}
      (hc : i.certificate = some cert) (hr : i.request = some req)
      (hf : fault ≠ some .putCertificate)
      (hs : s'.certs.lookup (r.certificate req cert).serial = some (r.certificate req cert))
      (hk : s.Keeps s')
      (h : (∃ c, fault = some c ∧ c ≠ .hwDevIDConflict ∧ r.Makes s (r.enrollment req cert i) c) ∨
        ¬s.TakesEnrollment (r.enrollment req cert i)) : Recorded r fault s i (.error err,s')
  | reported {req : Request} {cert : X509} {err : RecordError} {s' : Store}
      (h : r.Recordable s i req cert) (hf : fault = some .hwDevIDConflict)
      (hm : r.Reports s (r.enrollment req cert i))
      (hs : s'.certs.lookup (r.certificate req cert).serial = some (r.certificate req cert))
      (hg : ∀ dev, s'.get dev =
        if dev = req.context.deviceID then .ok (r.enrollment req cert i).created else s.get dev)
      (hcreds : s'.creds = s.creds) : Recorded r fault s i (.error err,s')
  | done {req : Request} {cert : X509} {s' : Store} (h : r.Recordable s i req cert)
      (hf : ∀ c, fault = some c → ¬r.Makes s (r.enrollment req cert i) c)
      (hg : ∀ dev, s'.get dev =
        if dev = req.context.deviceID then .ok (r.enrollment req cert i).created else s.get dev)
      (hcreds : s'.creds = s.creds) : Recorded r fault s i (.ok (),s')

theorem Recorder.finish_recorded {s₁ : Store} {existing : List Enrollment}
    (hc : i.certificate = some cert) (hr : i.request = some req)
    (ht : s.TakesCertificate (r.certificate req cert)) (hf : fault ≠ some .putCertificate)
    (hlist : fault = some .listByHWDevID → (r.enrollment req cert i).hwDevID = [])
    (hcerts : s₁.certs.lookup (r.certificate req cert).serial = some (r.certificate req cert))
    (hk : s.Keeps s₁)
    (hreports : (existing ≠ [] ∧ r.conflicts = true) ↔ r.Reports s (r.enrollment req cert i)) :
    r.Recorded fault s i (r.finish fault s₁ (r.enrollment req cert i) existing) := by
  have htakes : s₁.TakesEnrollment (r.enrollment req cert i) ↔
      s.TakesEnrollment (r.enrollment req cert i) := by
    unfold Tables.TakesEnrollment
    rw [hk.enrollments,hk.byThumb]
  unfold finish attempt
  by_cases hfc : fault = some .create
  · rw [if_pos hfc]
    exact .stopped hc hr hf hcerts hk (.inl ⟨.create,hfc,by decide,trivial⟩)
  rw [if_neg hfc]
  rcases s₁.create_cases (r.enrollment req cert i) with ⟨htake,s₂,hcreate,hs₂⟩ | ⟨htake,err,hcreate⟩
  · rw [hcreate]
    have hrec : r.Recordable s i req cert := ⟨hc,hr,ht,htakes.mp htake⟩
    have hg : ∀ dev, s₂.get dev = if dev = req.context.deviceID then
        .ok (r.enrollment req cert i).created else s.get dev := fun dev => by
      have hsame : s.get dev = s₁.get dev := by
        unfold Tables.get
        rw [hk.active,hk.enrollments]
      rw [hs₂,hsame]
      exact s₁.get_insert htake dev
    have hcreds : s₂.creds = s.creds := (congrArg Tables.creds hs₂).trans hk.creds
    have hcerts₂ : s₂.certs = s₁.certs := by rw [hs₂]; rfl
    dsimp only
    by_cases hrep : existing ≠ [] ∧ r.conflicts = true
    · rw [if_pos hrep]
      by_cases hsink : fault = some .hwDevIDConflict
      · rw [if_pos hsink]
        exact .reported hrec hsink (hreports.mp hrep) (by rw [hcerts₂]; exact hcerts) hg hcreds
      rw [if_neg hsink]
      refine .done hrec (fun c hfault hmake => ?_) hg hcreds
      cases c with
      | putCertificate => exact hf hfault
      | create => exact hfc hfault
      | listByHWDevID => exact hmake (hlist hfault)
      | hwDevIDConflict => exact hsink hfault
    · rw [if_neg hrep]
      refine .done hrec (fun c hfault hmake => ?_) hg hcreds
      cases c with
      | putCertificate => exact hf hfault
      | create => exact hfc hfault
      | listByHWDevID => exact hmake (hlist hfault)
      | hwDevIDConflict => exact hrep (hreports.mpr hmake)
  · rw [hcreate]
    exact .stopped hc hr hf hcerts hk (.inr fun h => htake (htakes.mpr h))

theorem Recorder.record_cases (r : Recorder) (fault : Option RecordCall) (s : Store) (i : Issue) :
    r.Recorded fault s i (r.record fault s i) := by
  unfold record
  cases hc : i.certificate with
  | none => exact .invalid (.inl hc)
  | some cert =>
    cases hr : i.request with
    | none => exact .invalid (.inr hr)
    | some req =>
      dsimp only
      unfold attempt
      by_cases hf : fault = some .putCertificate
      · rw [if_pos hf]
        exact .refused hc hr (.inl hf)
      rw [if_neg hf]
      rcases s.putCertificate_cases (r.certificate req cert) with
        ⟨ht,s₁,hput,hcerts,hk⟩ | ⟨ht,err,hput⟩
      · rw [hput]
        dsimp only
        have hstored : s₁.certs.lookup (r.certificate req cert).serial =
            some (r.certificate req cert) := by rw [hcerts,AList.lookup_insert]
        rw [existing_of_enrollments hk.enrollments]
        by_cases hlist : fault = some .listByHWDevID → (r.enrollment req cert i).hwDevID = []
        · obtain ⟨existing,he,hreports⟩ := existing_ok r s hlist
          rw [he]
          exact Recorder.finish_recorded hc hr ht hf hlist hstored hk hreports
        · obtain ⟨hfault,hhw⟩ := Classical.not_imp.mp hlist
          rw [existing,if_neg hhw,if_pos hfault]
          exact .stopped hc hr hf hstored hk (.inl ⟨.listByHWDevID,hfault,by decide,hhw⟩)
      · rw [hput]
        exact .refused hc hr (.inr ht)

theorem Recorder.recordable_of_ok (h : r.record fault s i = (.ok (),s')) :
    ∃ req cert, r.Recordable s i req cert ∧
      ∀ c, fault = some c → ¬r.Makes s (r.enrollment req cert i) c := by
  have hc := r.record_cases fault s i
  rw [h] at hc
  cases hc with
  | done hrec hf _ _ => exact ⟨_,_,hrec,hf⟩

theorem Recorder.not_again {s'' : Store} (hcert : i.certificate = some cert)
    (hreq : i.request = some req)
    (hs : s.certs.lookup (r.certificate req cert).serial = some (r.certificate req cert)) :
    r.record fault s i ≠ (.ok (),s'') := by
  intro hagain
  obtain ⟨req',cert',hrec,-⟩ := Recorder.recordable_of_ok hagain
  cases hcert.symm.trans hrec.1
  cases hreq.symm.trans hrec.2.1
  rw [hrec.2.2.1.2.1] at hs
  cases hs

theorem Recorder.Recordable.ok (h : r.Recordable s i req cert)
    (hf : ∀ c, fault = some c → ¬r.Makes s (r.enrollment req cert i) c) :
    ∃ s', r.record fault s i = (.ok (),s') := by
  obtain ⟨hcert,hreq,htc,hte⟩ := h
  have hc := r.record_cases fault s i
  generalize r.record fault s i = res at hc
  cases hc with
  | invalid hn => simp [hcert,hreq] at hn
  | refused hcert' hreq' hn =>
    cases hcert.symm.trans hcert'
    cases hreq.symm.trans hreq'
    rcases hn with hn | hn
    · exact absurd trivial (hf _ hn)
    · exact absurd htc hn
  | stopped hcert' hreq' _ _ _ hn =>
    cases hcert.symm.trans hcert'
    cases hreq.symm.trans hreq'
    rcases hn with ⟨c,hfault,-,hmake⟩ | hn
    · exact absurd hmake (hf c hfault)
    · exact absurd hte hn
  | reported hrec hfault hmake _ _ _ =>
    cases hcert.symm.trans hrec.1
    cases hreq.symm.trans hrec.2.1
    exact absurd hmake (hf _ hfault)
  | done => exact ⟨_,rfl⟩

end Record

/-- An error of `Record` changes nothing that callers see, and a second call succeeds, if and only
if both records can be stored and the failing call is the one that stores the certificate. -/
theorem record_atomic_iff (r : Recorder) (fault : Option RecordCall) (s : Store) (i : Issue) :
    (∀ err s', r.record fault s i = (.error err,s') →
      s.Same s' ∧ ∃ s'', r.record none s' i = (.ok (),s'')) ↔
    ∃ req cert, r.Recordable s i req cert ∧
      ∀ c, fault = some c → r.Makes s (r.enrollment req cert i) c → c = .putCertificate := by
  constructor
  · intro h
    have hc := r.record_cases fault s i
    generalize r.record fault s i = res at h hc
    cases hc with
    | invalid hn =>
      obtain ⟨-,s'',hagain⟩ := h _ _ rfl
      obtain ⟨req,cert,⟨hcert,hreq,-⟩,-⟩ := Recorder.recordable_of_ok hagain
      simp [hcert,hreq] at hn
    | refused hcert hreq hn =>
      obtain ⟨-,s'',hagain⟩ := h _ _ rfl
      obtain ⟨req,cert,hrec,-⟩ := Recorder.recordable_of_ok hagain
      cases hcert.symm.trans hrec.1
      cases hreq.symm.trans hrec.2.1
      refine ⟨_,_,hrec,fun c hfault _ => ?_⟩
      rcases hn with hn | hn
      · exact Option.some.inj (hfault.symm.trans hn)
      · exact absurd hrec.2.2.1 hn
    | stopped hcert hreq _ hs _ _ =>
      obtain ⟨-,s'',hagain⟩ := h _ _ rfl
      exact absurd hagain (Recorder.not_again hcert hreq hs)
    | reported hrec _ _ hs _ _ =>
      obtain ⟨-,s'',hagain⟩ := h _ _ rfl
      exact absurd hagain (Recorder.not_again hrec.1 hrec.2.1 hs)
    | done hrec hf _ _ => exact ⟨_,_,hrec,fun c hfault hmake => absurd hmake (hf c hfault)⟩
  · rintro ⟨req,cert,hrec,hf⟩ err s' h
    have hc := r.record_cases fault s i
    rw [h] at hc
    cases hc with
    | invalid hn => simp [hrec.1,hrec.2.1] at hn
    | refused hcert hreq hn =>
      exact ⟨⟨fun _ => rfl,fun _ => rfl,fun _ => rfl,fun _ => rfl⟩,hrec.ok fun c hc => nomatch hc⟩
    | stopped hcert hreq hput _ _ hn =>
      cases hcert.symm.trans hrec.1
      cases hreq.symm.trans hrec.2.1
      rcases hn with ⟨c,hfault,-,hmake⟩ | hn
      · exact absurd (hf c hfault hmake ▸ hfault) hput
      · exact absurd hrec.2.2.2 hn
    | reported hrec' hfault hmake _ _ _ =>
      cases hrec.1.symm.trans hrec'.1
      cases hrec.2.1.symm.trans hrec'.2.1
      cases hf _ hfault hmake

namespace Sample

def recorder : Recorder := { thumbprint := fun raw => 84 :: raw }

def issue (deviceID : GoString) (serial : Nat) : Issue where
  request := some { csr := [1], context := {
    deviceID := deviceID, enrollmentType := "Full", hwDevID := "HW-1" } }
  certificate := some { serialNumber := serial, notBefore := 10, notAfter := 20, raw := [serial.toUInt8] }
  enrolledAt := 11

def known : Store := (recorder.record none .new (issue "DEVICE-A" 1)).2

def refused : Store := (recorder.record (some .hwDevIDConflict) known (issue "DEVICE-B" 2)).2

end Sample

set_option maxRecDepth 4000

/-- The certificate could not be stored: nothing has happened, and the next attempt succeeds. -/
theorem record_atomic_retry : ∃ err s', Sample.recorder.record (some .putCertificate) Sample.known
      (Sample.issue "DEVICE-B" 2) = (.error err,s') ∧
    Sample.known.Same s' ∧
    ∃ s'', Sample.recorder.record none s' (Sample.issue "DEVICE-B" 2) = (.ok (),s'') := by
  have h : Sample.recorder.record (some .putCertificate) Sample.known (Sample.issue "DEVICE-B" 2) =
    (.error (.recordCertificate .unavailable),Sample.known) := rfl
  refine ⟨_,_,h,(record_atomic_iff _ _ _ _).mpr ⟨_,_,⟨rfl,rfl,?_,?_⟩,?_⟩ _ _ h⟩
  · exact ⟨by decide +kernel,by decide +kernel,by decide +kernel⟩
  · exact ⟨by decide +kernel,by decide +kernel,by decide +kernel⟩
  · intro c hc _
    exact (Option.some.inj hc).symm

/-- The sink refuses the conflict: the enrollment is stored all the same, and
a second call fails because the certificate exists. -/
theorem record_not_aborted : ∃ (r : Recorder) (s s' : Store) (i : Issue) (err : RecordError),
    r.record (some .hwDevIDConflict) s i = (.error err,s') ∧
    (∃ e, s.get "DEVICE-B" = .error e) ∧ (∃ e, s'.get "DEVICE-B" = .ok e) ∧
    ∃ err', r.record none s' i = (.error err',s') := by
  refine ⟨Sample.recorder,Sample.known,Sample.refused,Sample.issue "DEVICE-B" 2,
    .conflict .unavailable,rfl,?_,?_,?_⟩
  · exact ⟨.notFound (.device "DEVICE-B"),by decide +kernel⟩
  · exact ⟨_,rfl⟩
  · exact ⟨_,rfl⟩

end MicrosoftDM.Storage
