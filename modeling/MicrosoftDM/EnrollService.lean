import MicrosoftDM.Provisioning
import MicrosoftDM.RateLimit
import MicrosoftDM.Recorder

/-!
`Enroll` of mdmprotocol/enroll/service.go over the store: the checks, the issuer, the
provisioning document with the credential it stores, and the record.
-/

set_option autoImplicit false

namespace MicrosoftDM.Enroll
open Mdm (Bytes Identity Crypto)
open Storage (X509 Issue Recorder RecordCall)
open Ratelimit (hexEncode)

def actionRST : GoString := "http://schemas.microsoft.com/windows/pki/2009/01/enrollment/RST/wstep"
def passwordText : GoString :=
  "http://docs.oasis-open.org/wss/2004/01/oasis-200401-wss-username-token-profile-1.0#PasswordText"

structure UsernameToken where
  username : GoString
  passwordType : GoString := []
  password : GoString := []

structure Security where
  usernameToken : Option UsernameToken
  binarySecurityToken : Bool := false

structure Header where
  action : GoString := []
  security : Option Security

inductive AuthError where
  | unauthenticated | unauthorized | fault (f : Fault) | other

inductive IssueError where
  | unauthorized | fault (f : Fault) | other

structure Issued where
  certificate : Option X509
  chain : List X509

structure ProvisionConfig where
  managementURL : GoString
  providerID : GoString
  name : GoString := []
  renew : Wapprov.Renew := {}
  poll : Wapprov.Poll := {}
  pushPFN : GoString := []
  application : Wapprov.ApplicationConfig := {}
  includeRootCATrusted : Bool := false
  entDMID : AdditionalContext → GoString := fun _ => []

inductive StoreCall where
  | putMDMCredential
  | record (c : RecordCall)
  deriving DecidableEq

/-- The collaborators of one request. `random` answers the reads of random
bytes in order; `fails` is the store call that fails, if one does. -/
structure Deps where
  crypto : Crypto
  recorder : Recorder
  provision : ProvisionConfig
  authenticator : GoString → GoString → Except AuthError GoString
  issuer : Request → GoString → Except IssueError (Option Issued)
  now : Time
  random : Nat → Option Bytes
  fails : Option StoreCall := none

def Deps.authenticate (d : Deps) (h : Header) : Except Fault GoString :=
  match h.security with
  | none => .error ⟨.invalidSecurity,"missing wsse:Security header",none⟩
  | some sec =>
    match sec.usernameToken with
    | none =>
      if sec.binarySecurityToken then
        .error ⟨.invalidSecurity,"this server accepts on-premise credentials, not a security token",none⟩
      else .error ⟨.invalidSecurity,"missing wsse:UsernameToken",none⟩
    | some ut =>
      if ut.passwordType ≠ [] ∧ ut.passwordType ≠ passwordText then
        .error ⟨.invalidSecurity,"unsupported password type " ++ ut.passwordType,none⟩
      else if ut.username = [] then .error ⟨.invalidSecurity,"empty wsse:Username",none⟩
      else
        match d.authenticator ut.username ut.password with
        | .ok upn => .ok upn
        | .error .unauthenticated => .error ⟨.authentication,"user not recognized",none⟩
        | .error .unauthorized => .error ⟨.authorization,"user not allowed to enroll",none⟩
        | .error (.fault f) => .error f
        | .error .other => .error ⟨.enrollmentServer,"authentication failed",none⟩

def issueFault : IssueError → Fault
  | .fault f => f
  | .unauthorized => ⟨.authorization,"device not allowed to enroll",none⟩
  | .other => ⟨.certificateRequest,"failed to get certificate",none⟩

/-- The checks of `Enroll` up to the certificate. -/
def Deps.issue (d : Deps) (h : Header) (rst : RequestSecurityToken) :
    Except Fault (Request × GoString × X509 × List X509) :=
  if h.action ≠ [] ∧ h.action ≠ actionRST then
    .error ⟨.messageFormat,"unexpected action " ++ h.action,none⟩
  else
    match d.authenticate h with
    | .error f => .error f
    | .ok upn =>
      match checkToken rst with
      | .error f => .error f
      | .ok req =>
        match d.issuer req upn with
        | .error e => .error (issueFault e)
        | .ok none => .error ⟨.certificateRequest,"issuer returned no certificate",none⟩
        | .ok (some issued) =>
          match issued.certificate with
          | none => .error ⟨.certificateRequest,"issuer returned no certificate",none⟩
          | some cert => .ok (req,upn,cert,issued.chain)

def splitChain (chain : List X509) : List Bytes × List Bytes :=
  match chain.getLast? with
  | none => ([],[])
  | some root => ([root.raw],chain.dropLast.map X509.raw)

def certificateStoreOf (req : Request) : Wapprov.Store :=
  if req.context.enrollmentType = enrollmentTypeDevice then .system else .user

inductive ProvisionError where
  | noRoot
  | invalid (e : Wapprov.Invalid)
  | credentials

def Deps.certificates (d : Deps) (req : Request) (cert : X509) (chain : List X509) :
    Except ProvisionError Wapprov.Characteristic :=
  if (splitChain chain).1 = [] then .error .noRoot
  else
    match Wapprov.certificateStore d.recorder.thumbprint {
        roots := (splitChain chain).1, intermediates := (splitChain chain).2, client := cert.raw,
        store := certificateStoreOf req, renew := some d.provision.renew } with
    | .error e => .error (.invalid e)
    | .ok c => .ok c

def Deps.draw (d : Deps) : Option (GoString × GoString × Bytes) :=
  match d.random 0,d.random 1,d.random 2 with
  | some a,some b,some n => some (hexEncode a,hexEncode b,n)
  | _,_,_ => none

def Deps.minted (d : Deps) (deviceID serverSecret : GoString) : MDMCredential where
  deviceID := deviceID
  authType := .digest
  credentialHash := credentialHash d.crypto deviceID serverSecret

def serverCredential (deviceID secret : GoString) (nonces : Bytes) : Wapprov.Credential :=
  { type := .digest, name := deviceID, secret := secret, nonce := nonces.take 16 }

def clientCredential (secret : GoString) (nonces : Bytes) : Wapprov.Credential :=
  { type := .digest, secret := secret, nonce := nonces.drop 16 }

def Deps.credentials (d : Deps) (s : Storage.Store) (deviceID : GoString) :
    Except ProvisionError (Wapprov.Credential × Wapprov.Credential) × Storage.Store :=
  match d.draw with
  | none => (.error .credentials,s)
  | some (serverSecret,clientSecret,nonces) =>
    if d.fails = some .putMDMCredential then (.error .credentials,s)
    else
      match s.putMDMCredential (d.minted deviceID serverSecret) with
      | (.error _,s) => (.error .credentials,s)
      | (.ok (),s) =>
        (.ok (serverCredential deviceID serverSecret nonces,clientCredential clientSecret nonces),s)

def Deps.document (d : Deps) (req : Request) (upn : GoString) (chain : List X509)
    (cs : Wapprov.Characteristic) (server client : Wapprov.Credential) :
    Except ProvisionError Wapprov.Document :=
  match Wapprov.application { d.provision.application with
      providerID := d.provision.providerID, name := d.provision.name,
      address := d.provision.managementURL } server client with
  | .error e => .error (.invalid e)
  | .ok app =>
    match Wapprov.dmClient {
        providerID := d.provision.providerID, entDeviceName := req.context.deviceName,
        poll := d.provision.poll, pushPFN := d.provision.pushPFN,
        upn := if req.context.enrollmentType = enrollmentTypeFull then upn else [],
        entDMID := d.provision.entDMID req.context } with
    | .error e => .error (.invalid e)
    | .ok dm =>
      if d.provision.includeRootCATrusted then
        match Wapprov.rootCATrustedCertificates d.recorder.thumbprint (splitChain chain).1 with
        | .error e => .error (.invalid e)
        | .ok rc => .ok ⟨"1.1",[cs,rc,app,dm]⟩
      else .ok ⟨"1.1",[cs,app,dm]⟩

/-- `Provision`. -/
def Deps.provisionDocument (d : Deps) (s : Storage.Store) (req : Request) (upn : GoString)
    (cert : X509) (chain : List X509) : Except ProvisionError Wapprov.Document × Storage.Store :=
  match d.certificates req cert chain with
  | .error e => (.error e,s)
  | .ok cs =>
    match d.credentials s req.context.deviceID with
    | (.error e,s) => (.error e,s)
    | (.ok (server,client),s) => (d.document req upn chain cs server client,s)

def StoreCall.recordCall : Option StoreCall → Option RecordCall
  | some (.record c) => some c
  | _ => none

def encodeTokenResponse (doc : GoString) : Except Fault GoString :=
  if trimSpace doc = [] then .error ⟨.internalServiceFault,"internal service fault",none⟩
  else .ok doc

/-- The end of `Enroll`: encoding and recording. -/
def Deps.finish (d : Deps) (s : Storage.Store) (i : Issue) (doc : Wapprov.Document) :
    Except Fault GoString × Storage.Store :=
  match doc.encode with
  | .error _ => (.error ⟨.enrollmentServer,"invalid provisioning document",none⟩,s)
  | .ok encoded =>
    match d.recorder.record (StoreCall.recordCall d.fails) s i with
    | (.error _,s) => (.error ⟨.enrollmentServer,"cannot record enrollment",none⟩,s)
    | (.ok (),s) => (encodeTokenResponse encoded,s)

def Deps.issued (d : Deps) (req : Request) (upn : GoString) (cert : X509) : Issue :=
  { request := some req, upn := upn, certificate := some cert, enrolledAt := d.now }

/-- `Enroll`; `none` is a body that cannot be parsed. -/
def Deps.enroll (d : Deps) (s : Storage.Store) (request : Option (Header × RequestSecurityToken)) :
    Except Fault GoString × Storage.Store :=
  match request with
  | none => (.error ⟨.messageFormat,"cannot parse RequestSecurityToken",none⟩,s)
  | some (h,rst) =>
    match d.issue h rst with
    | .error f => (.error f,s)
    | .ok (req,upn,cert,chain) =>
      match d.provisionDocument s req upn cert chain with
      | (.error _,s) => (.error ⟨.enrollmentServer,"cannot build provisioning document",none⟩,s)
      | (.ok doc,s) => d.finish s (d.issued req upn cert) doc

/-- `Lookup` of the authenticator over the store. -/
def lookup (s : Storage.Store) (deviceID : GoString) : Option Identity :=
  match s.get deviceID with
  | .error _ => none
  | .ok e =>
    match s.creds.lookup deviceID with
    | some c => some {
        deviceID := e.deviceID, enrollmentKey := e.serial, certificateThumbprint := e.thumbprint
        authType := c.authType, credentialHash := c.credentialHash }
    | none => some {
        deviceID := e.deviceID, enrollmentKey := e.serial, certificateThumbprint := e.thumbprint
        authType := .certificate }

/-- A request that gets as far as a stored credential, and what it has by then. -/
structure Deps.Mints (d : Deps) (h : Header) (rst : RequestSecurityToken) (req : Request)
    (upn : GoString) (cert : X509) (chain : List X509) (cs : Wapprov.Characteristic)
    (serverSecret clientSecret : GoString) (nonces : Bytes) : Prop where
  issued : d.issue h rst = .ok (req,upn,cert,chain)
  certificates : d.certificates req cert chain = .ok cs
  drawn : d.draw = some (serverSecret,clientSecret,nonces)
  put : d.fails ≠ some .putMDMCredential

/-- From the credential on nothing fails before the enrollment is stored. -/
def Deps.Records (d : Deps) (s : Storage.Store) (req : Request) (upn : GoString) (cert : X509)
    (chain : List X509) (cs : Wapprov.Characteristic) (serverSecret clientSecret : GoString)
    (nonces : Bytes) : Prop :=
  (∃ doc encoded, d.document req upn chain cs
      (serverCredential req.context.deviceID serverSecret nonces)
      (clientCredential clientSecret nonces) = .ok doc ∧ doc.encode = .ok encoded) ∧
  d.recorder.Recordable s (d.issued req upn cert) req cert ∧
  ∀ c, StoreCall.recordCall d.fails = some c →
    d.recorder.Makes s (d.recorder.enrollment req cert (d.issued req upn cert)) c → c = .hwDevIDConflict

variable {c : MDMCredential} {dev : GoString} {e : Storage.Enrollment}

section Enroll
variable {d : Deps} {s s' : Storage.Store} {h : Header} {rst : RequestSecurityToken} {req : Request}
  {upn : GoString} {cert : X509} {chain : List X509} {cs : Wapprov.Characteristic}
  {serverSecret clientSecret : GoString} {nonces : Bytes} {f : Fault}

theorem Deps.issue_checked (hi : d.issue h rst = .ok (req,upn,cert,chain)) :
    checkToken rst = .ok req := by
  unfold issue at hi
  split at hi
  · cases hi
  split at hi
  · cases hi
  split at hi
  · cases hi
  rename_i hreq
  split at hi
  · cases hi
  · cases hi
  split at hi
  · cases hi
  · cases hi
    exact hreq

theorem Deps.issue_device (hi : d.issue h rst = .ok (req,upn,cert,chain)) :
    req.context.deviceID = rst.context.deviceID ∧ req.context.deviceID ≠ [] := by
  have hc := Deps.issue_checked hi
  refine ⟨congrArg AdditionalContext.deviceID (checkToken_context hc).1,?_⟩
  exact (accepted_deviceID _).mp ⟨rst,req,hc,rfl⟩

theorem putMDMCredential_ok (hc : c.deviceID ≠ []) :
    ∃ s', s.putMDMCredential c = (.ok (),s') ∧
      s'.toTables = { s.toTables with creds := s.creds.insert c.deviceID c } := by
  have ht : s.toTables.putMDMCredential c =
    (.ok (),{ s.toTables with creds := s.creds.insert c.deviceID c }) := if_neg hc
  have hr : (s.toTables.putMDMCredential c).1 = .ok () := by rw [ht]
  exact ⟨(s.putMDMCredential c).2,Prod.ext hr rfl,congrArg Prod.snd ht⟩

inductive Deps.Enrolled (d : Deps) (s : Storage.Store) (h : Header) (rst : RequestSecurityToken) :
    Except Fault GoString × Storage.Store → Prop where
  | early {f : Fault}
      (hn : ∀ req upn cert chain cs serverSecret clientSecret nonces,
        ¬d.Mints h rst req upn cert chain cs serverSecret clientSecret nonces) :
      Enrolled d s h rst (.error f,s)
  | minted {req : Request} {upn : GoString} {cert : X509} {chain : List X509}
      {cs : Wapprov.Characteristic} {serverSecret clientSecret : GoString} {nonces : Bytes} {f : Fault}
      {s' : Storage.Store} (hm : d.Mints h rst req upn cert chain cs serverSecret clientSecret nonces)
      (hr : ¬d.Records s req upn cert chain cs serverSecret clientSecret nonces)
      (hget : s'.get rst.context.deviceID = s.get rst.context.deviceID)
      (hcreds : s'.creds = s.creds.insert rst.context.deviceID
        (d.minted rst.context.deviceID serverSecret)) :
      Enrolled d s h rst (.error f,s')
  | recorded {req : Request} {upn : GoString} {cert : X509} {chain : List X509}
      {cs : Wapprov.Characteristic} {serverSecret clientSecret : GoString} {nonces : Bytes}
      {r : Except Fault GoString} {s' : Storage.Store}
      (hm : d.Mints h rst req upn cert chain cs serverSecret clientSecret nonces)
      (hr : d.Records s req upn cert chain cs serverSecret clientSecret nonces)
      (hget : ∀ dev, s'.get dev = if dev = rst.context.deviceID then
        .ok (d.recorder.enrollment req cert (d.issued req upn cert)).created else s.get dev)
      (hcreds : s'.creds = s.creds.insert rst.context.deviceID
        (d.minted rst.context.deviceID serverSecret)) :
      Enrolled d s h rst (r,s')

theorem Deps.finish_cases (d : Deps) (s : Storage.Store) {s₁ : Storage.Store}
    (rst : RequestSecurityToken) (req : Request) (upn : GoString) (cert : X509)
    {creds : GoMap MDMCredential} (doc : Wapprov.Document)
    (hs : s₁.toTables = { s.toTables with creds := creds }) :
    (∃ f s', d.finish s₁ (d.issued req upn cert) doc = (.error f,s') ∧
      s'.get rst.context.deviceID = s.get rst.context.deviceID ∧ s'.creds = creds ∧
      ¬((∃ encoded, doc.encode = .ok encoded) ∧
        d.recorder.Recordable s (d.issued req upn cert) req cert ∧
        ∀ c, StoreCall.recordCall d.fails = some c →
          d.recorder.Makes s (d.recorder.enrollment req cert (d.issued req upn cert)) c →
          c = .hwDevIDConflict)) ∨
    (∃ r s', d.finish s₁ (d.issued req upn cert) doc = (r,s') ∧
      (∀ dev, s'.get dev = if dev = req.context.deviceID then
        .ok (d.recorder.enrollment req cert (d.issued req upn cert)).created else s.get dev) ∧
      s'.creds = creds ∧
      (∃ encoded, doc.encode = .ok encoded) ∧
      d.recorder.Recordable s (d.issued req upn cert) req cert ∧
      ∀ c, StoreCall.recordCall d.fails = some c →
        d.recorder.Makes s (d.recorder.enrollment req cert (d.issued req upn cert)) c →
        c = .hwDevIDConflict) := by
  have hget : ∀ dev, s₁.get dev = s.get dev := fun dev => by rw [hs]; rfl
  have hcreds : s₁.creds = creds := by rw [hs]
  have hrec : ∀ i req' cert', d.recorder.Recordable s₁ i req' cert' ↔
      d.recorder.Recordable s i req' cert' := fun i req' cert' => by
    unfold Recorder.Recordable
    rw [hs]
    exact Iff.rfl
  have hmakes : ∀ e c, d.recorder.Makes s₁ e c ↔ d.recorder.Makes s e c := fun e c => by
    cases c with
    | hwDevIDConflict =>
      unfold Recorder.Makes Recorder.Reports
      rw [hs]
    | putCertificate | create | listByHWDevID => exact Iff.rfl
  have hnew : ∀ {s₂ : Storage.Store}, (∀ dev, s₂.get dev = if dev = req.context.deviceID then
        .ok (d.recorder.enrollment req cert (d.issued req upn cert)).created else s₁.get dev) →
      ∀ dev, s₂.get dev = if dev = req.context.deviceID then
        .ok (d.recorder.enrollment req cert (d.issued req upn cert)).created else s.get dev := by
    intro s₂ hg dev
    rw [hg,hget]
  have hkept : ∀ {s₂ : Storage.Store}, s₁.Keeps s₂ →
      s₂.get rst.context.deviceID = s.get rst.context.deviceID ∧ s₂.creds = creds := by
    intro s₂ hk
    refine ⟨?_,hk.creds.trans hcreds⟩
    rw [← hget]
    unfold Storage.Tables.get
    rw [hk.active,hk.enrollments]
  unfold finish
  cases henc : doc.encode with
  | error e =>
    refine .inl ⟨_,s₁,rfl,hget _,hcreds,fun hr => ?_⟩
    obtain ⟨encoded,hok⟩ := hr.1
    cases hok
  | ok encoded =>
    dsimp only
    generalize ho : d.recorder.record (StoreCall.recordCall d.fails) s₁ (d.issued req upn cert) = o
    have hcases := d.recorder.record_cases (StoreCall.recordCall d.fails) s₁ (d.issued req upn cert)
    rw [ho] at hcases
    cases hcases with
    | invalid hn =>
      rcases hn with hn | hn
      · cases hn
      · cases hn
    | refused hcert hreq hn =>
      cases hcert
      cases hreq
      obtain ⟨hg,hc⟩ := hkept (Storage.Store.Keeps.refl s₁)
      refine .inl ⟨_,_,rfl,hg,hc,fun hr => ?_⟩
      rcases hn with hfault | hn
      · cases hr.2.2 _ hfault trivial
      · exact hn ((hrec _ _ _).mpr hr.2.1).2.2.1
    | stopped hcert hreq hput hs' hk hn =>
      cases hcert
      cases hreq
      obtain ⟨hg,hc⟩ := hkept hk
      refine .inl ⟨_,_,rfl,hg,hc,fun hr => ?_⟩
      rcases hn with ⟨c,hfault,hne,hmake⟩ | hn
      · exact hne (hr.2.2 c hfault ((hmakes _ _).mp hmake))
      · exact hn ((hrec _ _ _).mpr hr.2.1).2.2.2
    | reported hr hfault hm hs' hg hc =>
      cases hr.1
      cases hr.2.1
      refine .inr ⟨_,_,rfl,hnew hg,hc.trans hcreds,⟨encoded,rfl⟩,(hrec _ _ _).mp hr,fun c hc' _ => ?_⟩
      exact Option.some.inj (hc'.symm.trans hfault)
    | done hr hf hg hc =>
      cases hr.1
      cases hr.2.1
      refine .inr ⟨_,_,rfl,hnew hg,hc.trans hcreds,⟨encoded,rfl⟩,(hrec _ _ _).mp hr,fun c hc' hmake => ?_⟩
      exact absurd ((hmakes _ _).mpr hmake) (hf c hc')

theorem Deps.enroll_cases (d : Deps) (s : Storage.Store) (h : Header) (rst : RequestSecurityToken) :
    d.Enrolled s h rst (d.enroll s (some (h,rst))) := by
  unfold enroll
  dsimp only
  cases hi : d.issue h rst with
  | error f => exact .early fun _ _ _ _ _ _ _ _ hm => nomatch hi.symm.trans hm.issued
  | ok issued =>
    obtain ⟨req,upn,cert,chain⟩ := issued
    obtain ⟨hdev,hne⟩ := Deps.issue_device hi
    dsimp only
    unfold provisionDocument
    cases hcs : d.certificates req cert chain with
    | error e =>
      refine .early fun _ _ _ _ _ _ _ _ hm => ?_
      cases hi.symm.trans hm.issued
      exact nomatch hcs.symm.trans hm.certificates
    | ok cs =>
      dsimp only
      unfold credentials
      cases hdraw : d.draw with
      | none => exact .early fun _ _ _ _ _ _ _ _ hm => nomatch hdraw.symm.trans hm.drawn
      | some secrets =>
        obtain ⟨serverSecret,clientSecret,nonces⟩ := secrets
        dsimp only
        by_cases hput : d.fails = some .putMDMCredential
        · rw [if_pos hput]
          exact .early fun _ _ _ _ _ _ _ _ hm => hm.put hput
        rw [if_neg hput]
        have hm : d.Mints h rst req upn cert chain cs serverSecret clientSecret nonces :=
          ⟨hi,hcs,hdraw,hput⟩
        obtain ⟨s₁,hs₁,htables⟩ := putMDMCredential_ok (s := s)
          (c := d.minted req.context.deviceID serverSecret) hne
        have hcreds : s.creds.insert (d.minted req.context.deviceID serverSecret).deviceID
            (d.minted req.context.deviceID serverSecret) =
          s.creds.insert rst.context.deviceID (d.minted rst.context.deviceID serverSecret) := by
          rw [hdev]
          rfl
        rw [hcreds] at htables
        rw [hs₁]
        dsimp only
        cases hdoc : d.document req upn chain cs
            (serverCredential req.context.deviceID serverSecret nonces)
            (clientCredential clientSecret nonces) with
        | error e =>
          refine .minted hm (fun hr => ?_) (by rw [htables]; rfl) (by rw [htables])
          obtain ⟨⟨doc,encoded,hok,-⟩,-⟩ := hr
          exact nomatch hdoc.symm.trans hok
        | ok doc =>
          dsimp only
          rcases d.finish_cases s rst req upn cert doc htables with
            ⟨f,s',hf,hg,hc,hr⟩ | ⟨r,s',hf,hg,hc,henc,hr⟩
          · rw [hf]
            refine .minted hm (fun hrec => hr ⟨?_,hrec.2⟩) hg hc
            obtain ⟨⟨doc',encoded,hok,henc⟩,-⟩ := hrec
            cases hdoc.symm.trans hok
            exact ⟨encoded,henc⟩
          · rw [hf]
            obtain ⟨encoded,henc⟩ := henc
            exact .recorded hm ⟨⟨doc,encoded,hdoc,henc⟩,hr⟩ (by rw [← hdev]; exact hg) hc

theorem Deps.document_encodes {doc : Wapprov.Document} {server client : Wapprov.Credential}
    (ht : ∀ der, d.recorder.thumbprint der ≠ []) (hcs : d.certificates req cert chain = .ok cs)
    (hdoc : d.document req upn chain cs server client = .ok doc) :
    ∃ encoded, doc.encode = .ok encoded := by
  have hcs' : cs.Valid := by
    unfold certificates at hcs
    split at hcs
    · cases hcs
    split at hcs
    · cases hcs
    rename_i hstore
    cases hcs
    exact .of_type (by decide) (Wapprov.certificateStore_valid ht hstore)
  unfold document at hdoc
  split at hdoc
  · cases hdoc
  rename_i app happ
  split at hdoc
  · cases hdoc
  rename_i dm hdm
  have happ' : app.Valid := .of_type (by decide) (Wapprov.application_valid happ)
  have hdm' : dm.Valid := .of_type (by decide) (Wapprov.dmClient_valid hdm)
  split at hdoc
  · split at hdoc
    · cases hdoc
    rename_i rc hrc
    have hrc' : rc.Valid := .of_type (by decide) (Wapprov.rootCATrustedCertificates_valid ht hrc)
    cases hdoc
    exact Wapprov.Document.encode_ok (List.cons_ne_nil _ _) (List.cons_ne_nil _ _)
      (by simp [hcs',hrc',happ',hdm'])
  · cases hdoc
    exact Wapprov.Document.encode_ok (List.cons_ne_nil _ _) (List.cons_ne_nil _ _)
      (by simp [hcs',happ',hdm'])

/-- `Enroll` never has to refuse a document that `Provision` built. -/
theorem Deps.provisionDocument_encodes {doc : Wapprov.Document}
    (ht : ∀ der, d.recorder.thumbprint der ≠ [])
    (hp : d.provisionDocument s req upn cert chain = (.ok doc,s')) :
    ∃ encoded, doc.encode = .ok encoded := by
  unfold provisionDocument at hp
  split at hp
  · cases hp
  rename_i hcs
  split at hp
  · cases hp
  · exact document_encodes ht hcs (congrArg Prod.fst hp)

theorem lookup_eq
    (he : s.get dev = .ok e) (hc : s.creds.lookup dev = some c) :
    lookup s dev = some {
      deviceID := e.deviceID, enrollmentKey := e.serial, certificateThumbprint := e.thumbprint
      authType := c.authType, credentialHash := c.credentialHash } := by
  unfold lookup
  rw [he]
  dsimp only
  rw [hc]

theorem Deps.enroll_lookup {doc serverSecret clientSecret : GoString} {nonces : Bytes}
    (hok : d.enroll s (some (h,rst)) = (.ok doc,s'))
    (hdraw : d.draw = some (serverSecret,clientSecret,nonces)) :
    ∃ req serial thumbprint, req.context.deviceID = rst.context.deviceID ∧
      lookup s' rst.context.deviceID = some (enrolledIdentity d.crypto req serverSecret serial thumbprint) := by
  have hcases := d.enroll_cases s h rst
  rw [hok] at hcases
  cases hcases with
  | recorded hm hr hget hcreds =>
    cases hm.drawn.symm.trans hdraw
    rename_i req upn cert _ _
    have hdev := (Deps.issue_device hm.issued).1
    refine ⟨req,(d.recorder.enrollment req cert (d.issued req upn cert)).serial,
      (d.recorder.enrollment req cert (d.issued req upn cert)).thumbprint,hdev,?_⟩
    rw [lookup_eq ((hget _).trans (if_pos rfl)) (hcreds ▸ AList.lookup_insert s.creds),← hdev]
    rfl

theorem registered_of_get (he : s.get dev = .ok e) :
    s.enrollments.lookup e.serial = some e := by
  unfold Storage.Tables.get at he
  split at he
  · cases he
  split at he
  · rename_i hs
    cases he
    rw [s.sound.keyed _ _ hs]
    exact hs
  · cases he

end Enroll

/-- A request that fails leaves the identity of an enrolled device alone in just these cases: no
credential is stored, or the new one has the old hash and the enrollment is not stored either. -/
theorem fault_keeps_identity_iff (d : Deps) (s s' : Storage.Store) (h : Header)
    (rst : RequestSecurityToken) (f : Fault) (e : Storage.Enrollment) (c : MDMCredential)
    (he : s.get rst.context.deviceID = .ok e)
    (hc : s.creds.lookup rst.context.deviceID = some c) (hdigest : c.authType = .digest)
    (hfault : d.enroll s (some (h,rst)) = (.error f,s')) :
    lookup s' rst.context.deviceID = lookup s rst.context.deviceID ↔
      ∀ req upn cert chain cs serverSecret clientSecret nonces,
        d.Mints h rst req upn cert chain cs serverSecret clientSecret nonces →
        (d.minted rst.context.deviceID serverSecret).credentialHash = c.credentialHash ∧
        ¬d.Records s req upn cert chain cs serverSecret clientSecret nonces := by
  have hcases := d.enroll_cases s h rst
  rw [hfault] at hcases
  rw [lookup_eq he hc]
  cases hcases with
  | early hn =>
    rw [lookup_eq he hc]
    refine ⟨fun _ _ _ _ _ _ _ _ _ hm => absurd hm (hn _ _ _ _ _ _ _ _),fun _ => rfl⟩
  | minted hm hr hget hcreds =>
    rw [lookup_eq (hget.trans he) (hcreds ▸ AList.lookup_insert s.creds),hdigest]
    constructor
    · intro heq req' upn' cert' chain' cs' ss' cl' n' hm'
      cases hm.issued.symm.trans hm'.issued
      cases hm.certificates.symm.trans hm'.certificates
      cases hm.drawn.symm.trans hm'.drawn
      exact ⟨congrArg Identity.credentialHash (Option.some.inj heq),hr⟩
    · intro hall
      rw [(hall _ _ _ _ _ _ _ _ hm).1]
      rfl
  | recorded hm hr hget hcreds =>
    rw [lookup_eq ((hget _).trans (if_pos rfl)) (hcreds ▸ AList.lookup_insert s.creds)]
    constructor
    · intro heq
      have hserial := congrArg Identity.enrollmentKey (Option.some.inj heq)
      dsimp only at hserial
      have hnone := hr.2.1.2.2.2.2.1
      have hsome := registered_of_get he
      rw [← hserial] at hsome
      exact nomatch hnone.symm.trans hsome
    · intro hall
      exact absurd hr (hall _ _ _ _ _ _ _ _ hm).2

namespace Sample

def header : Header where
  security := some { usernameToken := some { username := "user" } }

def deps (serial : Nat) : Deps where
  crypto := { md5 := id, pbkdf2 := fun password _ => password }
  recorder := Storage.Sample.recorder
  provision := { managementURL := "https://mdm.example/manage", providerID := "TestMDM" }
  authenticator := fun username _ => .ok username
  issuer := fun _ _ => .ok (some {
    certificate := some { serialNumber := serial, notBefore := 10, notAfter := 20, raw := [serial.toUInt8] }
    chain := [{ serialNumber := 99, notBefore := 10, notAfter := 20, raw := [99] }] })
  now := 11
  random := fun _ => some [serial.toUInt8]

def enrolledOnce : Storage.Store := ((deps 1).enroll .new (some (header,plainRequest "DEVICE-A"))).2

def request : Option (Header × RequestSecurityToken) := some (header,plainRequest "DEVICE-A")

end Sample

set_option maxRecDepth 4000

/-- The document for a device whose chain is one root. -/
theorem provisionDocument_encodes_device : ∃ doc s' encoded,
    (Sample.deps 1).provisionDocument .new ⟨[1],(plainRequest "DEVICE-A").context⟩ "user"
      ⟨1,[],10,20,[1]⟩ [⟨99,[],10,20,[99]⟩] = (.ok doc,s') ∧ doc.encode = .ok encoded := by
  obtain ⟨doc,s',hp⟩ : ∃ doc s', (Sample.deps 1).provisionDocument .new
      ⟨[1],(plainRequest "DEVICE-A").context⟩ "user" ⟨1,[],10,20,[1]⟩ [⟨99,[],10,20,[99]⟩] =
        (.ok doc,s') := ⟨_,_,rfl⟩
  obtain ⟨encoded,h⟩ := Deps.provisionDocument_encodes (fun _ => List.cons_ne_nil _ _) hp
  exact ⟨doc,s',encoded,hp,h⟩

/-- No random bytes: the second request fails before it stores anything. -/
theorem fault_keeps_identity_random :
    lookup ({ Sample.deps 2 with random := fun _ => none }.enroll Sample.enrolledOnce Sample.request).2
      "DEVICE-A" = lookup Sample.enrolledOnce "DEVICE-A" := by
  refine (fault_keeps_identity_iff { Sample.deps 2 with random := fun _ => none } Sample.enrolledOnce _
    Sample.header (plainRequest "DEVICE-A") _ _ _ rfl rfl rfl rfl).mpr ?_
  intro _ _ _ _ _ _ _ _ hm
  cases hm.drawn

/-- The store refuses the certificate, and the device that has enrolled before is left with a
credential that it does not know. -/
theorem fault_replaces_credential : ∃ (d : Deps) (s s' : Storage.Store) (f : Fault) (id id' : Identity),
    d.enroll s Sample.request = (.error f,s') ∧ lookup s "DEVICE-A" = some id ∧
    id.authType = .digest ∧ lookup s' "DEVICE-A" = some id' ∧
    id'.enrollmentKey = id.enrollmentKey ∧ id'.credentialHash ≠ id.credentialHash := by
  refine ⟨{ Sample.deps 2 with fails := some (.record .putCertificate) },Sample.enrolledOnce,_,_,_,_,
    rfl,rfl,rfl,rfl,rfl,?_⟩
  decide +kernel

end MicrosoftDM.Enroll
