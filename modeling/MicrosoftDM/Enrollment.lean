import MicrosoftDM.Authentication

/-!
How a device comes to its credential: the checks of an enrollment request
(mdmprotocol/enroll/service.go), the credential the server mints for it
(server/service/credentials.go), and the identity the management session looks up
(storage/mdmauth.go).
-/

set_option autoImplicit false

namespace MicrosoftDM.Enroll
open Mdm (Bytes Identity Crypto base64Decode)

def tokenTypeDeviceEnrollment : GoString :=
  "http://schemas.microsoft.com/5.0.0.0/ConfigurationManager/Enrollment/DeviceEnrollmentToken"
def requestTypeIssue : GoString := "http://docs.oasis-open.org/ws-sx/ws-trust/200512/Issue"
def requestTypeRenew : GoString := "http://docs.oasis-open.org/ws-sx/ws-trust/200512/Renew"
def valueTypePKCS10 : GoString :=
  "http://schemas.microsoft.com/windows/pki/2009/01/enrollment#PKCS10"
def valueTypePKCS7 : GoString := "http://schemas.microsoft.com/windows/pki/2009/01/enrollment#PKCS7"
def encodingBase64 : GoString :=
  "http://docs.oasis-open.org/wss/2004/01/oasis-200401-wss-wssecurity-secext-1.0.xsd#base64binary"
def enrollmentTypeFull : GoString := "Full"
def enrollmentTypeDevice : GoString := "Device"

structure BinarySecurityToken where
  valueType : GoString
  encodingType : GoString := []
  value : GoString

structure AdditionalContext where
  deviceID : GoString
  enrollmentType : GoString
  requestVersion : GoString := []
  hwDevID : GoString := []
  deviceName : GoString := []
  deriving DecidableEq

structure RequestSecurityToken where
  tokenType : GoString
  requestType : GoString
  token : BinarySecurityToken
  context : AdditionalContext

inductive Subcode where
  | messageFormat | certificateRequest | invalidSecurity | authentication | authorization
  | enrollmentServer | internalServiceFault
  deriving DecidableEq

inductive Detail where
  | notEligibleToRenew | invalidEnrollmentData
  deriving DecidableEq

structure Fault where
  subcode : Subcode
  reason : GoString
  detail : Option Detail := none
  deriving DecidableEq

structure Request where
  csr : Bytes
  context : AdditionalContext

/-- `Bytes` of a token; `none` is any of its errors. -/
def BinarySecurityToken.bytes (t : BinarySecurityToken) : Option Bytes :=
  if t.encodingType ≠ [] ∧ t.encodingType ≠ encodingBase64 then none
  else base64Decode (t.value.filter fun b => b ≠ 32 ∧ b ≠ 9 ∧ b ≠ 13 ∧ b ≠ 10)

def validVersion (s : GoString) : Bool :=
  let s := trimSpace s
  let major := s.takeWhile (· ≠ 46)
  s.drop major.length = utf8 ".0" &&
    match atoi major with
    | some n => decide (1 ≤ n) && decide (n ≤ 9)
    | none => false

def validEnrollmentType (t : GoString) : Bool := t = enrollmentTypeFull ∨ t = enrollmentTypeDevice

/-- The end of `checkToken`: the context. -/
def checkContext (c : AdditionalContext) : Option Fault :=
  if c.deviceID = [] then
    some ⟨.messageFormat,"DeviceID is required",some .invalidEnrollmentData⟩
  else if validEnrollmentType c.enrollmentType = false then
    some ⟨.messageFormat,"EnrollmentType \"" ++ c.enrollmentType ++ "\" is not Full or Device",
      some .invalidEnrollmentData⟩
  else if c.requestVersion ≠ [] ∧ validVersion c.requestVersion = false then
    some ⟨.messageFormat,"RequestVersion must be 1.0 to 9.0",some .invalidEnrollmentData⟩
  else none

def checkToken (rst : RequestSecurityToken) : Except Fault Request :=
  if rst.tokenType ≠ tokenTypeDeviceEnrollment then
    .error ⟨.messageFormat,"unexpected TokenType " ++ rst.tokenType,none⟩
  else if rst.requestType = requestTypeRenew then
    .error ⟨.certificateRequest,"renewal is not supported",some .notEligibleToRenew⟩
  else if rst.requestType ≠ requestTypeIssue then
    .error ⟨.messageFormat,"unexpected RequestType " ++ rst.requestType,none⟩
  else if rst.token.valueType = valueTypePKCS7 then
    .error ⟨.certificateRequest,"PKCS#7 renewal tokens are not supported",some .notEligibleToRenew⟩
  else if rst.token.valueType = [] then
    .error ⟨.messageFormat,"missing BinarySecurityToken",none⟩
  else if rst.token.valueType ≠ valueTypePKCS10 then
    .error ⟨.messageFormat,"unexpected token ValueType " ++ rst.token.valueType,none⟩
  else
    match rst.token.bytes with
    | none | some [] => .error ⟨.messageFormat,"BinarySecurityToken is not base64",none⟩
    | some csr =>
      match checkContext rst.context with
      | some fault => .error fault
      | none => .ok { csr := csr, context := rst.context }

theorem checkToken_context {rst : RequestSecurityToken} {req : Request}
    (h : checkToken rst = .ok req) : req.context = rst.context ∧ checkContext rst.context = none := by
  unfold checkToken at h
  split at h
  · cases h
  split at h
  · cases h
  split at h
  · cases h
  split at h
  · cases h
  split at h
  · cases h
  split at h
  · cases h
  split at h
  · cases h
  · cases h
  split at h
  · cases h
  rename_i hc
  cases h
  exact ⟨rfl,hc⟩

def plainRequest (deviceID : GoString) : RequestSecurityToken where
  tokenType := tokenTypeDeviceEnrollment
  requestType := requestTypeIssue
  token := { valueType := valueTypePKCS10, value := "AAAA" }
  context := { deviceID := deviceID, enrollmentType := enrollmentTypeFull }

theorem checkToken_plainRequest {deviceID : GoString} (h : deviceID ≠ []) :
    checkToken (plainRequest deviceID) =
      .ok { csr := [0,0,0], context := (plainRequest deviceID).context } := by
  have hissue : requestTypeIssue ≠ requestTypeRenew := by decide +kernel
  have hpkcs7 : valueTypePKCS10 ≠ valueTypePKCS7 := by decide +kernel
  have hpkcs10 : valueTypePKCS10 ≠ [] := by decide +kernel
  have hbytes : (plainRequest deviceID).token.bytes = some [0,0,0] := by
    show BinarySecurityToken.bytes { valueType := valueTypePKCS10, value := "AAAA" } = _
    decide +kernel
  have hcontext : checkContext (plainRequest deviceID).context = none := by
    simp [checkContext,plainRequest,h,validEnrollmentType]
  unfold checkToken
  rw [hbytes,hcontext]
  simp [plainRequest,hissue,hpkcs7,hpkcs10]

theorem accepted_deviceID (deviceID : GoString) :
    (∃ rst req, checkToken rst = .ok req ∧ req.context.deviceID = deviceID) ↔ deviceID ≠ [] := by
  constructor
  · rintro ⟨rst,req,h,rfl⟩ hempty
    obtain ⟨he,hc⟩ := checkToken_context h
    rw [he] at hempty
    rw [checkContext,if_pos hempty] at hc
    cases hc
  · intro h
    exact ⟨plainRequest deviceID,_,checkToken_plainRequest h,rfl⟩

def credentialHash (cr : Crypto) (username password : GoString) : Bytes :=
  cr.md5 (username ++ Mdm.colon :: password)

structure MDMCredential where
  deviceID : GoString
  authType : Mdm.AuthType
  credentialHash : Bytes

def enrolledIdentity (cr : Crypto) (req : Request) (secret serial thumbprint : GoString) :
    Identity where
  deviceID := req.context.deviceID
  enrollmentKey := serial
  certificateThumbprint := thumbprint
  authType := .digest
  credentialHash := credentialHash cr req.context.deviceID secret

end MicrosoftDM.Enroll
