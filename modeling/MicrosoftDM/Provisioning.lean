import MicrosoftDM.Authentication
import MicrosoftDM.SyncMLEncode

/-!
Provisioning documents (mdmprotocol/wapprov): the characteristics an enrolled
client receives, the rules they keep, and their encoding. The SHA-1 thumbprint
is left open.
-/

set_option autoImplicit false

namespace MicrosoftDM.Wapprov
open Mdm (Bytes base64Encode)
open Syncml (escapeText)

/-- A `Flag` is written without a value. -/
structure Parm where
  name : GoString
  value : GoString := []
  dataType : GoString := []
  flag : Bool := false

inductive Characteristic where
  | mk (type : GoString) (parms : List Parm) (children : List Characteristic)

def Characteristic.type : Characteristic → GoString
  | .mk type _ _ => type

structure Document where
  version : GoString
  characteristics : List Characteristic

/-- `ErrInvalid`, with the rest of the text. -/
structure Invalid where
  format : GoString
  args : List GoString := []
  deriving DecidableEq

/-- `strings.ToUpper` on names in ASCII. -/
def toUpper (s : GoString) : GoString := s.map fun b => if 97 ≤ b ∧ b ≤ 122 then b-32 else b

def checkParm (path : GoString) (upper : Bool) (p : Parm) : Option Invalid :=
  if p.name = [] then some ⟨"parm in %q has no name",[path]⟩
  else if upper ∧ p.name ≠ toUpper p.name then
    some ⟨"parm %q in %q must be uppercase",[p.name,path]⟩
  else none

mutual

def validateCharacteristic (path : GoString) (upper : Bool) : Characteristic → Option Invalid
  | .mk type parms children =>
    if type = [] then some ⟨"characteristic under %q has no type",[path]⟩
    else if upper ∧ type ≠ toUpper type then
      some ⟨"characteristic %q under APPLICATION must be uppercase",[path]⟩
    else (parms.findSome? (checkParm path upper)).or (validateChildren path upper children)

/-- Its loop over the children. -/
def validateChildren (path : GoString) (upper : Bool) : List Characteristic → Option Invalid
  | [] => none
  | .mk type parms children :: rest =>
    (validateCharacteristic (path ++ "/" ++ type) upper (.mk type parms children)).or
      (validateChildren path upper rest)

end

def typeCertificateStore : GoString := "CertificateStore"
def typeApplication : GoString := "APPLICATION"
def typeDMClient : GoString := "DMClient"
def typeRootCATrustedCertificates : GoString := "RootCATrustedCertificates"

def Document.validate (d : Document) : Option Invalid :=
  if d.version = [] then some ⟨"version is required",[]⟩
  else if d.characteristics = [] then some ⟨"no characteristics",[]⟩
  else d.characteristics.findSome? fun c => validateCharacteristic c.type (c.type = typeApplication) c

def writeParm (p : Parm) : GoString :=
  utf8 "<parm name=\"" ++ escapeText p.name ++ utf8 "\"" ++
    (if p.flag then [] else utf8 " value=\"" ++ escapeText p.value ++ utf8 "\"") ++
    (if p.dataType = [] then [] else utf8 " datatype=\"" ++ escapeText p.dataType ++ utf8 "\"") ++
    utf8 "/>"

mutual

def writeCharacteristic : Characteristic → GoString
  | .mk type parms children =>
    utf8 "<characteristic type=\"" ++ escapeText type ++
      if parms = [] ∧ children = [] then utf8 "\"/>"
      else utf8 "\">" ++ parms.flatMap writeParm ++ writeChildren children ++ "</characteristic>"

def writeChildren : List Characteristic → GoString
  | [] => []
  | c :: rest => writeCharacteristic c ++ writeChildren rest

end

/-- `Encode`, without indentation or declaration. -/
def Document.encode (d : Document) : Except Invalid GoString :=
  match d.validate with
  | some e => .error e
  | none => .ok (utf8 "<wap-provisioningdoc version=\"" ++ escapeText d.version ++ "\">" ++
      writeChildren d.characteristics ++ "</wap-provisioningdoc>")

inductive Store where
  | user | system
  deriving DecidableEq

def Store.text : Store → GoString
  | .user => "User"
  | .system => "System"

def typeString : GoString := "string"
def typeInteger : GoString := "integer"
def typeBoolean : GoString := "boolean"

structure Renew where
  roboSupport : Bool := true
  renewPeriod : Int := 60
  retryInterval : Int := 4
  serverURL : GoString := []

structure CertificateStoreConfig where
  roots : List Bytes
  intermediates : List Bytes
  client : Bytes
  store : Store
  renew : Option Renew

section Certificates
variable (thumbprint : Bytes → GoString)

def certEntries (ders : List Bytes) : List Characteristic :=
  ders.map fun der =>
    .mk (thumbprint der) [{ name := "EncodedCertificate", value := base64Encode der }] []

def renewCharacteristic (r : Renew) : Characteristic :=
  .mk "Renew" ([
    { name := "ROBOSupport", value := if r.roboSupport then "true" else "false",
      dataType := typeBoolean },
    { name := "RenewPeriod", value := itoa r.renewPeriod, dataType := typeInteger },
    { name := "RetryInterval", value := itoa r.retryInterval, dataType := typeInteger }] ++
    (if r.serverURL = [] then []
     else [{ name := "ServerURL", value := r.serverURL, dataType := typeString }])) []

def certificateStore (cfg : CertificateStoreConfig) : Except Invalid Characteristic :=
  if cfg.roots = [] then .error ⟨"CertificateStore needs a root certificate",[]⟩
  else if cfg.intermediates.length > 1 then
    .error ⟨"CertificateStore carries at most one intermediate",[]⟩
  else if cfg.client = [] then .error ⟨"CertificateStore needs the client certificate",[]⟩
  else if (cfg.roots ++ cfg.intermediates).any (· = []) then .error ⟨"empty certificate",[]⟩
  else
    let root := Characteristic.mk "Root" [] [.mk "System" [] (certEntries thumbprint cfg.roots)]
    let ca := if cfg.intermediates = [] then []
      else [Characteristic.mk "CA" [] [.mk "System" [] (certEntries thumbprint cfg.intermediates)]]
    let client := Characteristic.mk cfg.store.text []
      (certEntries thumbprint [cfg.client] ++ [.mk "PrivateKeyContainer" [] []])
    let my (wstep : List Characteristic) : Characteristic :=
      .mk typeCertificateStore [] (root :: ca ++ [.mk "My" [] (client :: wstep)])
    match cfg.renew with
    | none => .ok (my [])
    | some r =>
      if r.renewPeriod ≤ 0 ∨ r.retryInterval ≤ 0 then
        .error ⟨"Renew periods must be positive days",[]⟩
      else .ok (my [.mk "WSTEP" [] [renewCharacteristic r]])

def rootCATrustedCertificates (roots : List Bytes) : Except Invalid Characteristic :=
  if roots = [] then .error ⟨"RootCATrustedCertificates needs a certificate",[]⟩
  else if roots.any (· = []) then .error ⟨"empty certificate",[]⟩
  else .ok (.mk typeRootCATrustedCertificates [] [.mk "Root" [] (certEntries thumbprint roots)])

end Certificates

inductive AuthType where
  | basic | digest
  deriving DecidableEq

def AuthType.text : AuthType → GoString
  | .basic => "BASIC"
  | .digest => "DIGEST"

structure Credential where
  type : AuthType
  name : GoString := []
  secret : GoString
  nonce : Bytes := []

inductive Level where
  | appsrv | client
  deriving DecidableEq

def Level.text : Level → GoString
  | .appsrv => "APPSRV"
  | .client => "CLIENT"

def appAuth (level : Level) (c : Credential) : Except Invalid Characteristic :=
  if level = .client ∧ c.type ≠ .digest then .error ⟨"CLIENT AAUTHTYPE must be DIGEST",[]⟩
  else if c.secret = [] then .error ⟨"%s AAUTHSECRET is required",[level.text]⟩
  else if level = .appsrv ∧ c.name = [] then .error ⟨"APPSRV AAUTHNAME is required",[]⟩
  else
    .ok (.mk "APPAUTH" ([
      { name := "AAUTHLEVEL", value := level.text },{ name := "AAUTHTYPE", value := c.type.text }] ++
      (if c.name = [] then [] else [{ name := "AAUTHNAME", value := c.name }]) ++
      [{ name := "AAUTHSECRET", value := c.secret }] ++
      (if c.nonce = [] then [] else [{ name := "AAUTHDATA", value := base64Encode c.nonce }])) [])

def encodingXML : GoString := "application/vnd.syncml.dm+xml"
def encodingWBXML : GoString := "application/vnd.syncml.dm+wbxml"

structure ApplicationConfig where
  providerID : GoString := []
  name : GoString := []
  address : GoString := []
  connRetryFreq : Int := 0
  initialBackoffTime : Int := 0
  maxBackoffTime : Int := 0
  backCompatRetryDisabled : Bool := false
  defaultEncoding : GoString := []
  protoVer : GoString := []
  useHWDevID : Bool := false
  sslClientCertSearchCriteria : GoString := []

def parmIf (name value : GoString) : List Parm :=
  if value = [] then [] else [{ name := name, value := value }]

def intParmIf (name : GoString) (n : Int) : List Parm :=
  if n > 0 then [{ name := name, value := itoa n }] else []

def flagIf (name : GoString) (b : Bool) : List Parm := if b then [{ name := name, flag := true }] else []

def application (cfg : ApplicationConfig) (server client : Credential) :
    Except Invalid Characteristic :=
  if cfg.providerID = [] then .error ⟨"PROVIDER-ID is required",[]⟩
  else if cfg.address = [] then .error ⟨"ADDR is required",[]⟩
  else if cfg.protoVer ≠ [] ∧ cfg.protoVer ≠ utf8 "1.1" ∧ cfg.protoVer ≠ utf8 "1.2" then
    .error ⟨"PROTOVER %q is not 1.1 or 1.2",[cfg.protoVer]⟩
  else if cfg.defaultEncoding ≠ [] ∧ cfg.defaultEncoding ≠ encodingXML ∧
      cfg.defaultEncoding ≠ encodingWBXML then
    .error ⟨"DEFAULTENCODING %q",[cfg.defaultEncoding]⟩
  else
    match appAuth .appsrv server,appAuth .client client with
    | .error e,_ => .error e
    | .ok _,.error e => .error e
    | .ok srv,.ok cli =>
      .ok (.mk typeApplication ([
        { name := "APPID", value := "w7" },{ name := "PROVIDER-ID", value := cfg.providerID }] ++
        parmIf "NAME" cfg.name ++ [{ name := "ADDR", value := cfg.address }] ++
        parmIf "PROTOVER" cfg.protoVer ++ intParmIf "CONNRETRYFREQ" cfg.connRetryFreq ++
        intParmIf "INITIALBACKOFFTIME" cfg.initialBackoffTime ++
        intParmIf "MAXBACKOFFTIME" cfg.maxBackoffTime ++
        flagIf "BACKCOMPATRETRYDISABLED" cfg.backCompatRetryDisabled ++
        parmIf "DEFAULTENCODING" cfg.defaultEncoding ++ flagIf "USEHWDEVID" cfg.useHWDevID ++
        parmIf "SSLCLIENTCERTSEARCHCRITERIA" cfg.sslClientCertSearchCriteria) [srv,cli])

structure Poll where
  intervalForFirstSetOfRetries : Int := 15
  numberOfFirstRetries : Int := 5
  intervalForSecondSetOfRetries : Int := 60
  numberOfSecondRetries : Int := 10
  intervalForRemainingScheduledRetries : Int := 1440
  numberOfRemainingScheduledRetries : Int := 0
  pollOnLogin : Bool := false
  allUsersPollOnFirstLogin : Bool := false

/-- `Validate` of a schedule. -/
def Poll.validate (p : Poll) : Option Invalid :=
  if p.numberOfFirstRetries = 0 then some ⟨"NumberOfFirstRetries must not be 0",[]⟩
  else if p.intervalForFirstSetOfRetries ≤ 0 ∨ p.intervalForSecondSetOfRetries < 0 ∨
      p.numberOfFirstRetries < 0 ∨ p.numberOfSecondRetries < 0 ∨
      p.numberOfRemainingScheduledRetries < 0 then
    some ⟨"poll intervals and counts must not be negative",[]⟩
  else if p.intervalForRemainingScheduledRetries < 1440 then
    some ⟨"IntervalForRemainingScheduledRetries must be at least 1440 minutes",[]⟩
  else none

def Poll.parms (p : Poll) : List Parm :=
  [("IntervalForFirstSetOfRetries",p.intervalForFirstSetOfRetries),
   ("NumberOfFirstRetries",p.numberOfFirstRetries),
   ("IntervalForSecondSetOfRetries",p.intervalForSecondSetOfRetries),
   ("NumberOfSecondRetries",p.numberOfSecondRetries),
   ("IntervalForRemainingScheduledRetries",p.intervalForRemainingScheduledRetries),
   ("NumberOfRemainingScheduledRetries",p.numberOfRemainingScheduledRetries)].map
    (fun x => { name := utf8 x.1, value := itoa x.2, dataType := typeInteger }) ++
  (if p.pollOnLogin then [{ name := "PollOnLogin", value := "true", dataType := typeBoolean }]
   else []) ++
  (if p.allUsersPollOnFirstLogin then
    [{ name := "AllUsersPollOnFirstLogin", value := "true", dataType := typeBoolean }] else [])

structure DMClientConfig where
  providerID : GoString
  upn : GoString := []
  entDeviceName : GoString := []
  entDMID : GoString := []
  poll : Poll := {}
  pushPFN : GoString := []

def stringIf (name value : GoString) : List Parm :=
  if value = [] then [] else [{ name := name, value := value, dataType := typeString }]

def dmClient (cfg : DMClientConfig) : Except Invalid Characteristic :=
  if cfg.providerID = [] then .error ⟨"DMClient ProviderID is required",[]⟩
  else
    match cfg.poll.validate with
    | some e => .error e
    | none =>
      let push := if cfg.pushPFN = [] then []
        else [Characteristic.mk "Push" [{ name := "PFN", value := cfg.pushPFN, dataType := typeString }] []]
      .ok (.mk typeDMClient [] [.mk "Provider" [] [.mk cfg.providerID
        (stringIf "UPN" cfg.upn ++ stringIf "EntDeviceName" cfg.entDeviceName ++
          stringIf "EntDMID" cfg.entDMID)
        (.mk "Poll" cfg.poll.parms [] :: push)]])

def Proper (upper : Bool) (name : GoString) : Prop := name ≠ [] ∧ (upper = true → name = toUpper name)

instance (upper : Bool) (name : GoString) : Decidable (Proper upper name) :=
  inferInstanceAs (Decidable (_ ∧ _))

def ProperParms (upper : Bool) (parms : List Parm) : Prop := ∀ p ∈ parms, Proper upper p.name

variable {p : Parm} {children cs : List Characteristic} {c : Characteristic}

section Rules
variable {upper : Bool} {path name value : GoString} {ps qs : List Parm}

theorem checkParm_none : checkParm path upper p = none ↔ Proper upper p.name := by
  unfold checkParm Proper
  split
  · rename_i h
    simp [h]
  rename_i h
  split
  · rename_i hu
    exact iff_of_false (fun hn => nomatch hn) fun hp => hu.2 (hp.2 hu.1)
  rename_i hu
  refine iff_of_true rfl ⟨h,fun hup => ?_⟩
  exact Classical.byContradiction fun hne => hu ⟨hup,hne⟩

@[simp] theorem validateCharacteristic_none :
    validateCharacteristic path upper (.mk name ps children) = none ↔
      Proper upper name ∧ ProperParms upper ps ∧ validateChildren path upper children = none := by
  unfold validateCharacteristic
  by_cases hname : name = []
  · rw [if_pos hname]
    exact iff_of_false (fun hn => nomatch hn) fun h => h.1.1 hname
  rw [if_neg hname]
  by_cases hupper : upper = true ∧ name ≠ toUpper name
  · rw [if_pos hupper]
    exact iff_of_false (fun hn => nomatch hn) fun h => hupper.2 (h.1.2 hupper.1)
  rw [if_neg hupper,Option.or_eq_none_iff,List.findSome?_eq_none_iff]
  have hproper : Proper upper name :=
    ⟨hname,fun hup => Classical.byContradiction fun hne => hupper ⟨hup,hne⟩⟩
  simp only [checkParm_none,ProperParms,hproper,true_and]

@[simp] theorem validateChildren_nil : validateChildren path upper [] = none := by
  unfold validateChildren
  rfl

@[simp] theorem validateChildren_cons :
    validateChildren path upper (c :: cs) = none ↔
      validateCharacteristic (path ++ utf8 "/" ++ c.type) upper c = none ∧
        validateChildren path upper cs = none := by
  cases c
  rw [validateChildren,Option.or_eq_none_iff]
  rfl

@[simp] theorem validateChildren_append {ds : List Characteristic} :
    validateChildren path upper (cs ++ ds) = none ↔
      validateChildren path upper cs = none ∧ validateChildren path upper ds = none := by
  induction cs with
  | nil => simp
  | cons c cs ih => rw [List.cons_append,validateChildren_cons,validateChildren_cons,ih,and_assoc]

@[simp] theorem validateChildren_ite {P : Prop} [Decidable P] {ds : List Characteristic} :
    validateChildren path upper (if P then cs else ds) = none ↔
      (P → validateChildren path upper cs = none) ∧ (¬P → validateChildren path upper ds = none) := by
  split <;> simp [*]

@[simp] theorem properParms_nil : ProperParms upper [] := by simp [ProperParms]

@[simp] theorem properParms_cons :
    ProperParms upper (p :: ps) ↔ Proper upper p.name ∧ ProperParms upper ps :=
  List.forall_mem_cons

@[simp] theorem properParms_append :
    ProperParms upper (ps ++ qs) ↔ ProperParms upper ps ∧ ProperParms upper qs :=
  List.forall_mem_append

@[simp] theorem properParms_ite {P : Prop} [Decidable P] :
    ProperParms upper (if P then ps else qs) ↔ (P → ProperParms upper ps) ∧ (¬P → ProperParms upper qs) := by
  split <;> simp [*]

end Rules

section Valid
variable {thumbprint : Bytes → GoString} {path : GoString} {c : Characteristic}

theorem certEntries_valid (ht : ∀ der, thumbprint der ≠ []) (ders : List Bytes) :
    validateChildren path false (certEntries thumbprint ders) = none := by
  unfold certEntries
  induction ders with
  | nil => exact validateChildren_nil
  | cons der ders ih => simp +decide [Proper,ht,ih]

theorem renewCharacteristic_valid (r : Renew) :
    validateCharacteristic path false (renewCharacteristic r) = none := by
  simp +decide [renewCharacteristic]

theorem certificateStore_valid {cfg : CertificateStoreConfig} (ht : ∀ der, thumbprint der ≠ [])
    (h : certificateStore thumbprint cfg = .ok c) :
    c.type = typeCertificateStore ∧ validateCharacteristic path false c = none := by
  have hstore : Proper false cfg.store.text := by
    cases cfg.store <;> decide
  unfold certificateStore at h
  split at h
  · cases h
  split at h
  · cases h
  split at h
  · cases h
  split at h
  · cases h
  dsimp only at h
  split at h
  · cases h
    exact ⟨rfl,by simp +decide [certEntries_valid ht,hstore]⟩
  split at h
  · cases h
  · cases h
    exact ⟨rfl,by simp +decide [certEntries_valid ht,renewCharacteristic_valid,hstore]⟩

theorem rootCATrustedCertificates_valid {roots : List Bytes} (ht : ∀ der, thumbprint der ≠ [])
    (h : rootCATrustedCertificates thumbprint roots = .ok c) :
    c.type = typeRootCATrustedCertificates ∧ validateCharacteristic path false c = none := by
  unfold rootCATrustedCertificates at h
  split at h
  · cases h
  split at h
  · cases h
  cases h
  exact ⟨rfl,by simp +decide [certEntries_valid ht]⟩

theorem appAuth_valid {level : Level} {cred : Credential} (h : appAuth level cred = .ok c) :
    validateCharacteristic path true c = none := by
  unfold appAuth at h
  split at h
  · cases h
  split at h
  · cases h
  split at h
  · cases h
  cases h
  simp +decide

theorem application_valid {cfg : ApplicationConfig} {server client : Credential}
    (h : application cfg server client = .ok c) :
    c.type = typeApplication ∧ validateCharacteristic path true c = none := by
  unfold application at h
  split at h
  · cases h
  split at h
  · cases h
  split at h
  · cases h
  split at h
  · cases h
  split at h
  · cases h
  · cases h
  rename_i srv cli hsrv hcli
  cases h
  exact ⟨rfl,by simp +decide [parmIf,intParmIf,flagIf,appAuth_valid hsrv,appAuth_valid hcli]⟩

theorem dmClient_valid {cfg : DMClientConfig} (h : dmClient cfg = .ok c) :
    c.type = typeDMClient ∧ validateCharacteristic path false c = none := by
  unfold dmClient at h
  split at h
  · cases h
  rename_i hprovider
  split at h
  · cases h
  cases h
  exact ⟨rfl,by simp +decide [stringIf,Poll.parms,Proper,hprovider]⟩

end Valid

/-- What `Validate` asks of a characteristic of the document. -/
def Characteristic.Valid (c : Characteristic) : Prop :=
  validateCharacteristic c.type (c.type = typeApplication) c = none

theorem Characteristic.Valid.of_type {type : GoString} {upper : Bool}
    (hu : decide (type = typeApplication) = upper)
    (h : c.type = type ∧ validateCharacteristic c.type upper c = none) : c.Valid := by
  unfold Valid
  rw [show decide (c.type = typeApplication) = upper from h.1 ▸ hu]
  exact h.2

theorem Document.encode_ok {d : Document} (hv : d.version ≠ []) (hne : d.characteristics ≠ [])
    (h : ∀ c ∈ d.characteristics, c.Valid) : ∃ encoded, d.encode = .ok encoded := by
  have hvalid : d.validate = none := by
    rw [validate,if_neg hv,if_neg hne]
    exact List.findSome?_eq_none_iff.mpr h
  unfold encode
  rw [hvalid]
  exact ⟨_,rfl⟩

end MicrosoftDM.Wapprov
