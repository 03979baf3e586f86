import MicrosoftDM.CommandQueue

/-!
The certificates that a `Local` issuer of pki/ca signs. Of crypto/x509 it is
taken that a certificate is made as the template says, to the second.
-/

set_option autoImplicit false

namespace MicrosoftDM.Ca

inductive Curve where
  | p256 | p384 | p521 | other
  deriving DecidableEq

inductive PublicKey where
  | rsa (bits : Nat)
  | ecdsa (curve : Curve)
  | other
  deriving DecidableEq

inductive KeyKind where
  | rsa2048 | rsa3072 | rsa4096 | ecP256 | ecP384 | ecP521
  deriving DecidableEq

/-- `KindOf`. -/
def kindOf : PublicKey → Option KeyKind
  | .rsa 2048 => some .rsa2048
  | .rsa 3072 => some .rsa3072
  | .rsa 4096 => some .rsa4096
  | .ecdsa .p256 => some .ecP256
  | .ecdsa .p384 => some .ecP384
  | .ecdsa .p521 => some .ecP521
  | _ => none

/-- `Extensions` are the extra ones and the URLs of CRL and OCSP, which are only copied. -/
structure Policy (Extensions : Type) where
  validity : Int := 0
  notAfter : Time := 0
  keyUsage : Nat := 0
  extKeyUsage : List Nat := []
  minRSABits : Int := 0
  allowedKeys : List KeyKind := []
  subject : Option GoString := none
  extensions : Extensions

structure Template (Extensions : Type) where
  serialNumber : Nat
  subject : GoString
  notBefore : Time
  notAfter : Time
  keyUsage : Nat
  extKeyUsage : List Nat
  extensions : Extensions

structure Certificate where
  publicKey : PublicKey
  notBefore : Time
  notAfter : Time
  deriving DecidableEq

def second (t : Time) : Time := t-t%1000000000

/-- `CreateCertificate` and `ParseCertificate` of its result. -/
structure X509 (Extensions : Type) where
  create : Template Extensions → Certificate → PublicKey → Option Certificate
  faithful : ∀ {t parent key c}, create t parent key = some c →
    c = ⟨key,second t.notBefore,second t.notAfter⟩

inductive Error where
  | noPublicKey | smallRSA (bits : Nat) (minimum : Int) | keyType | keyKind (kind : Option KeyKind)
  | serial | passed (notAfter : Time) | request
  deriving DecidableEq

section
variable {Extensions : Type}

/-- `withDefaults`. -/
def Policy.withDefaults (p : Policy Extensions) : Policy Extensions :=
  { p with
    validity := if p.validity = 0 then 365*24*3600*1000000000 else p.validity
    extKeyUsage := if p.extKeyUsage = [] then [2] else p.extKeyUsage
    minRSABits := if p.minRSABits = 0 then 2048 else p.minRSABits }

/-- The key usage, digital signature and for RSA key encipherment, or why the key is refused. -/
def Policy.usage (p : Policy Extensions) : PublicKey → Except Error Nat
  | .rsa bits =>
    if (bits : Int) < p.minRSABits then .error (.smallRSA bits p.minRSABits)
    else .ok (if p.keyUsage = 0 then 5 else p.keyUsage)
  | .ecdsa _ => .ok (if p.keyUsage = 0 then 1 else p.keyUsage)
  | .other => .error .keyType

def Policy.ends (p : Policy Extensions) (now : Time) : Time :=
  if p.notAfter ≠ 0 ∧ p.notAfter < now+p.validity then p.notAfter else now+p.validity

structure Request (Extensions : Type) where
  publicKey : Option PublicKey
  subject : GoString := []
  policy : Option (Policy Extensions) := none

structure Local (Extensions : Type) where
  cert : Certificate
  policy : Policy Extensions

def Local.policyFor (l : Local Extensions) (req : Request Extensions) : Policy Extensions :=
  (req.policy.getD l.policy).withDefaults

/-- `Issue`, with the number that `SerialFrom` draws. -/
def Local.issue (x : X509 Extensions) (l : Local Extensions) (serial : Option Nat) (now : Time)
    (req : Request Extensions) : Except Error Certificate :=
  match req.publicKey with
  | none => .error .noPublicKey
  | some key =>
    let p := l.policyFor req
    match p.usage key with
    | .error e => .error e
    | .ok keyUsage =>
      if p.allowedKeys ≠ [] ∧ ¬(kindOf key).any (· ∈ p.allowedKeys) then .error (.keyKind (kindOf key))
      else
        match serial with
        | none => .error .serial
        | some serialNumber =>
          if p.ends now ≤ now then .error (.passed (p.ends now))
          else
            match x.create
              { serialNumber := serialNumber, subject := p.subject.getD req.subject
                notBefore := now, notAfter := p.ends now, keyUsage := keyUsage
                extKeyUsage := p.extKeyUsage, extensions := p.extensions } l.cert key with
            | none => .error .request
            | some c => .ok c

/-- What a policy and the life of the signing certificate ask of an issued one. -/
structure Certificate.Sound (c : Certificate) (issuer : Certificate) (p : Policy Extensions)
    (now : Time) : Prop where
  bits : ∀ n, c.publicKey = .rsa n → p.minRSABits ≤ n
  kind : p.allowedKeys ≠ [] → ∃ k ∈ p.allowedKeys, kindOf c.publicKey = some k
  starts : second now ≤ c.notBefore
  ends : c.notAfter ≤ now+p.validity
  capped : p.notAfter ≠ 0 → c.notAfter ≤ p.notAfter
  nonempty : c.notBefore < c.notAfter
  within : issuer.notBefore ≤ c.notBefore ∧ c.notAfter ≤ issuer.notAfter

variable {x : X509 Extensions} {l : Local Extensions} {serial : Option Nat} {now : Time}
  {req : Request Extensions} {c : Certificate}

theorem second_le (t : Time) : second t ≤ t := by
  have := Int.emod_nonneg t (show (1000000000 : Int) ≠ 0 by decide)
  unfold second Time at *
  omega

theorem issue_ok (h : l.issue x serial now req = .ok c) :
    c.notBefore = second now ∧ c.notAfter = second ((l.policyFor req).ends now) ∧
    (∀ n, c.publicKey = .rsa n → (l.policyFor req).minRSABits ≤ n) ∧
    ((l.policyFor req).allowedKeys ≠ [] →
      ∃ k ∈ (l.policyFor req).allowedKeys, kindOf c.publicKey = some k) := by
  unfold Local.issue at h
  cases hk : req.publicKey with
  | none => simp [hk] at h
  | some key =>
    rw [hk] at h
    dsimp only at h
    cases hu : (l.policyFor req).usage key with
    | error e => simp [hu] at h
    | ok keyUsage =>
      simp only [hu] at h
      split at h
      · cases h
      rename_i hkind
      split at h
      · cases h
      split at h
      · cases h
      split at h
      · cases h
      rename_i hc
      cases h
      cases x.faithful hc
      refine ⟨rfl,rfl,?_,fun hne => ?_⟩
      · rintro n rfl
        rw [Policy.usage] at hu
        split at hu
        · cases hu
        · rename_i hbits
          exact Int.not_lt.mp hbits
      · simpa [hne,Option.any_eq_true,and_comm] using hkind

/-- A certificate is as its policy asks. It can outlive the one that signs it, and when its
end is in the second it is issued in, it has no time at all. -/
theorem issue_sound_iff (h : l.issue x serial now req = .ok c) :
    c.Sound l.cert (l.policyFor req) now ↔
      second now < second ((l.policyFor req).ends now) ∧ l.cert.notBefore ≤ second now ∧
        second ((l.policyFor req).ends now) ≤ l.cert.notAfter := by
  obtain ⟨hb,ha,hbits,hkind⟩ := issue_ok h
  have hend := second_le ((l.policyFor req).ends now)
  have hle : (l.policyFor req).ends now ≤ now+(l.policyFor req).validity ∧
      ((l.policyFor req).notAfter ≠ 0 → (l.policyFor req).ends now ≤ (l.policyFor req).notAfter) := by
    unfold Policy.ends
    split
    · rename_i hp
      exact ⟨Int.le_of_lt hp.2,fun _ => Int.le_refl _⟩
    · rename_i hp
      exact ⟨Int.le_refl _,fun h0 => Int.not_lt.mp fun hlt => hp ⟨h0,hlt⟩⟩
  constructor
  · intro hs
    have hn := hs.nonempty
    have hw := hs.within
    rw [hb,ha] at hn hw
    exact ⟨hn,hw⟩
  · rintro ⟨hn,hw⟩
    refine ⟨hbits,hkind,Int.le_of_eq hb.symm,?_,fun h0 => ?_,by rw [hb,ha]; exact hn,by rw [hb,ha]; exact hw⟩
    · rw [ha]
      exact Int.le_trans hend hle.1
    · rw [ha]
      exact Int.le_trans hend (hle.2 h0)

end

namespace Sample

def x509 : X509 Unit where
  create t _ key := some ⟨key,second t.notBefore,second t.notAfter⟩
  faithful h := (Option.some.inj h).symm

def issuer (notAfter : Time) : Local Unit := ⟨⟨.rsa 4096,0,notAfter⟩,{ extensions := () }⟩

def request : Request Unit := { publicKey := some (.rsa 2048) }

end Sample

/-- An issuer that lives for two more years. -/
theorem issue_sound_year : (Certificate.mk (.rsa 2048) 1000000000 31536001000000000).Sound
    (Sample.issuer 63072001000000000).cert ((Sample.issuer 63072001000000000).policyFor Sample.request)
    1500000000 :=
  (@issue_sound_iff Unit Sample.x509 (Sample.issuer 63072001000000000) (some 1) 1500000000
    Sample.request ⟨.rsa 2048,1000000000,31536001000000000⟩ (by decide +kernel)).mpr (by decide +kernel)

/-- An issuer that lives for one more second signs for a year. -/
theorem issue_outlives_issuer : ∃ c,
    (Sample.issuer 2000000000).issue Sample.x509 (some 1) 1500000000 Sample.request = .ok c ∧
      (Sample.issuer 2000000000).cert.notAfter < c.notAfter :=
  ⟨⟨.rsa 2048,1000000000,31536001000000000⟩,by decide +kernel,by decide⟩

end MicrosoftDM.Ca
