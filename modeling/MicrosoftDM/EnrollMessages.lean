import Mathlib.Data.List.Induction
import MicrosoftDM.CommandQueue

/-!
The AdditionalContext of a RequestSecurityToken (mdmprotocol/enroll/rst.go): the typed view of its
items and the raw one.
-/

set_option autoImplicit false

namespace MicrosoftDM.Enroll.Wire

structure ContextItem where
  name : GoString
  value : GoString
  deriving DecidableEq

structure AdditionalContext where
  osEdition : GoString := []
  osVersion : GoString := []
  deviceName : GoString := []
  enrollmentType : GoString := []
  deviceType : GoString := []
  applicationVersion : GoString := []
  deviceID : GoString := []
  enrollmentData : GoString := []
  mac : List GoString := []
  imei : List GoString := []
  targetedUserLoggedIn : Bool := false
  locale : GoString := []
  hwDevID : GoString := []
  bulkAADJ : Bool := false
  zeroTouchProvisioning : GoString := []
  offlineAutoPilotEnrollmentCorrelator : GoString := []
  uxInitiated : Bool := false
  externalMgmtAgentHint : GoString := []
  domainName : GoString := []
  bootstrapDomainJoin : Bool := false
  plugandForget : Bool := false
  whiteGlove : Bool := false
  whiteGloveHybridJoin : Bool := false
  notInOobe : Bool := false
  aikAttestationClaim : GoString := []
  aikPub : GoString := []
  aikCert : GoString := []
  aadAIKAttestationClaim : GoString := []
  aadPub : GoString := []
  emmDeviceID : GoString := []
  requestVersion : GoString := []
  azureAttestationBlob : GoString := []
  attestationStatus : GoString := []
  attestationStatusHResult : GoString := []
  azureAttestationCorrelationVector : GoString := []
  aikAlgorithm : GoString := []
  unknown : List ContextItem := []
  items : List ContextItem := []
  deriving DecidableEq

def isTrue (v : GoString) : Bool := equalFold v "true"

/-- A named item and what it sets. -/
def on (name : GoString) (set : AdditionalContext → GoString → AdditionalContext) :
    GoString × (AdditionalContext → GoString → AdditionalContext) := (name,set)

def contextItems : List (GoString × (AdditionalContext → GoString → AdditionalContext)) :=
  [on "OSEdition" fun c v => { c with osEdition := v },
    on "OSVersion" fun c v => { c with osVersion := v },
    on "DeviceName" fun c v => { c with deviceName := v },
    on "EnrollmentType" fun c v => { c with enrollmentType := v },
    on "DeviceType" fun c v => { c with deviceType := v },
    on "ApplicationVersion" fun c v => { c with applicationVersion := v },
    on "DeviceID" fun c v => { c with deviceID := v },
    on "EnrollmentData" fun c v => { c with enrollmentData := v },
    on "MAC" fun c v => { c with mac := c.mac ++ [v] },
    on "IMEI" fun c v => { c with imei := c.imei ++ [v] },
    on "TargetedUserLoggedIn" fun c v => { c with targetedUserLoggedIn := isTrue v },
    on "Locale" fun c v => { c with locale := v },
    on "HWDevID" fun c v => { c with hwDevID := v },
    on "BulkAADJ" fun c v => { c with bulkAADJ := isTrue v },
    on "ZeroTouchProvisioning" fun c v => { c with zeroTouchProvisioning := v },
    on "OfflineAutoPilotEnrollmentCorrelator" fun c v => { c with offlineAutoPilotEnrollmentCorrelator := v },
    on "UXInitiated" fun c v => { c with uxInitiated := isTrue v },
    on "ExternalMgmtAgentHint" fun c v => { c with externalMgmtAgentHint := v },
    on "DomainName" fun c v => { c with domainName := v },
    on "BootstrapDomainJoin" fun c v => { c with bootstrapDomainJoin := isTrue v },
    on "PlugandForget" fun c v => { c with plugandForget := isTrue v },
    on "WhiteGlove" fun c v => { c with whiteGlove := isTrue v },
    on "WhiteGloveHybridJoin" fun c v => { c with whiteGloveHybridJoin := isTrue v },
    on "NotInOobe" fun c v => { c with notInOobe := isTrue v },
    on "AIKAttestationClaim" fun c v => { c with aikAttestationClaim := v },
    on "AIKPub" fun c v => { c with aikPub := v },
    on "AIKCert" fun c v => { c with aikCert := v },
    on "AadAIKAttestationClaim" fun c v => { c with aadAIKAttestationClaim := v },
    on "AADPub" fun c v => { c with aadPub := v },
    on "EmmDeviceId" fun c v => { c with emmDeviceID := v },
    on "RequestVersion" fun c v => { c with requestVersion := v },
    on "AzureAttestationBlob" fun c v => { c with azureAttestationBlob := v },
    on "AttestationStatus" fun c v => { c with attestationStatus := v },
    on "AttestationStatusHResult" fun c v => { c with attestationStatusHResult := v },
    on "AzureAttestationCorrelationVector" fun c v => { c with azureAttestationCorrelationVector := v },
    on "AIKAlgorithm" fun c v => { c with aikAlgorithm := v }]

def AdditionalContext.set (c : AdditionalContext) (it : ContextItem) : AdditionalContext :=
  match contextItems.lookup it.name with
  | some set => set c it.value
  | none => { c with unknown := c.unknown ++ [it] }

def parseAdditionalContext (items : List ContextItem) : AdditionalContext :=
  let trimmed := items.map fun it => ContextItem.mk (trimSpace it.name) (trimSpace it.value)
  { trimmed.foldl AdditionalContext.set {} with items := trimmed }

/-- `Get`: the first item with the name. -/
def AdditionalContext.get (c : AdditionalContext) (name : GoString) : GoString × Bool :=
  match c.items.find? fun it => it.name = name with
  | some it => (it.value,true)
  | none => ([],false)

/-- The typed fields that hold one value, by the name of their item. -/
def typedFields : List (GoString × (AdditionalContext → GoString ⊕ Bool)) :=
  let text (name : GoString) (f : AdditionalContext → GoString) :
      GoString × (AdditionalContext → GoString ⊕ Bool) := (name,fun c => .inl (f c))
  let flag (name : GoString) (f : AdditionalContext → Bool) :
      GoString × (AdditionalContext → GoString ⊕ Bool) := (name,fun c => .inr (f c))
  [text "OSEdition" (·.osEdition),text "OSVersion" (·.osVersion),text "DeviceName" (·.deviceName),
    text "EnrollmentType" (·.enrollmentType),text "DeviceType" (·.deviceType),
    text "ApplicationVersion" (·.applicationVersion),text "DeviceID" (·.deviceID),
    text "EnrollmentData" (·.enrollmentData),flag "TargetedUserLoggedIn" (·.targetedUserLoggedIn),
    text "Locale" (·.locale),text "HWDevID" (·.hwDevID),flag "BulkAADJ" (·.bulkAADJ),
    text "ZeroTouchProvisioning" (·.zeroTouchProvisioning),
    text "OfflineAutoPilotEnrollmentCorrelator" (·.offlineAutoPilotEnrollmentCorrelator),
    flag "UXInitiated" (·.uxInitiated),text "ExternalMgmtAgentHint" (·.externalMgmtAgentHint),
    text "DomainName" (·.domainName),flag "BootstrapDomainJoin" (·.bootstrapDomainJoin),
    flag "PlugandForget" (·.plugandForget),flag "WhiteGlove" (·.whiteGlove),
    flag "WhiteGloveHybridJoin" (·.whiteGloveHybridJoin),flag "NotInOobe" (·.notInOobe),
    text "AIKAttestationClaim" (·.aikAttestationClaim),text "AIKPub" (·.aikPub),
    text "AIKCert" (·.aikCert),text "AadAIKAttestationClaim" (·.aadAIKAttestationClaim),
    text "AADPub" (·.aadPub),text "EmmDeviceId" (·.emmDeviceID),
    text "RequestVersion" (·.requestVersion),text "AzureAttestationBlob" (·.azureAttestationBlob),
    text "AttestationStatus" (·.attestationStatus),
    text "AttestationStatusHResult" (·.attestationStatusHResult),
    text "AzureAttestationCorrelationVector" (·.azureAttestationCorrelationVector),
    text "AIKAlgorithm" (·.aikAlgorithm)]

/-- A raw value as the field holds it. -/
def typed (field : AdditionalContext → GoString ⊕ Bool) (v : GoString) : GoString ⊕ Bool :=
  match field {} with
  | .inl _ => .inl v
  | .inr _ => .inr (isTrue v)

theorem typedFields_set (c : AdditionalContext) (v : GoString) : ∀ e ∈ typedFields,
    ∀ s ∈ contextItems, e.2 (s.2 c v) = if s.1 = e.1 then typed e.2 v else e.2 c := by
  have h : (typedFields.map fun e => contextItems.map fun s => e.2 (s.2 c v)) =
      typedFields.map fun e => contextItems.map fun s => if s.1 = e.1 then typed e.2 v else e.2 c := rfl
  exact fun e he s hs => List.map_inj_left.mp (List.map_inj_left.mp h e he) s hs

theorem typedFields_named : ∀ e ∈ typedFields, (contextItems.lookup e.1).isSome = true := by decide +kernel

theorem typedFields_start : ∀ e ∈ typedFields, e.2 {} = typed e.2 [] := by decide +kernel

theorem typedFields_rest (c : AdditionalContext) (unknown items : List ContextItem) :
    ∀ e ∈ typedFields, e.2 { c with unknown := unknown, items := items } = e.2 c := by
  have h : (typedFields.map fun e => e.2 { c with unknown := unknown, items := items }) =
      typedFields.map fun e => e.2 c := rfl
  exact List.map_inj_left.mp h

section Views
variable {e : GoString × (AdditionalContext → GoString ⊕ Bool)}

theorem AdditionalContext.set_field (he : e ∈ typedFields) (c : AdditionalContext) (it : ContextItem) :
    e.2 (c.set it) = if it.name = e.1 then typed e.2 it.value else e.2 c := by
  unfold AdditionalContext.set
  cases hs : contextItems.lookup it.name with
  | some set =>
    obtain ⟨l₁,l₂,hl,-⟩ := List.lookup_eq_some_iff.mp hs
    exact typedFields_set c it.value e he (it.name,set) (by rw [hl]; simp)
  | none =>
    have hne : it.name ≠ e.1 := by
      intro h
      have hnamed := typedFields_named e he
      rw [← h,hs] at hnamed
      cases hnamed
    rw [if_neg hne]
    exact typedFields_rest c _ c.items e he

theorem foldl_set_field (he : e ∈ typedFields) (items : List ContextItem) :
    e.2 (items.foldl AdditionalContext.set {}) =
      typed e.2 (((items.filter fun it => it.name = e.1).map (·.value)).getLast?.getD []) := by
  induction items using List.reverseRecOn with
  | nil => exact typedFields_start e he
  | append_singleton items it ih =>
    simp only [List.foldl_append,List.foldl_cons,List.foldl_nil]
    rw [AdditionalContext.set_field he,ih]
    by_cases h : it.name = e.1 <;> simp [h]

def valuesOf (items : List ContextItem) (name : GoString) : List GoString :=
  (items.filter fun it => trimSpace it.name = name).map fun it => trimSpace it.value

/-- The typed view takes the last item of a name and the raw view the first. -/
theorem typed_eq_get_iff (he : e ∈ typedFields) (items : List ContextItem) :
    e.2 (parseAdditionalContext items) = typed e.2 ((parseAdditionalContext items).get e.1).1 ↔
      typed e.2 ((valuesOf items e.1).getLast?.getD []) =
        typed e.2 ((valuesOf items e.1).head?.getD []) := by
  have hlast : e.2 (parseAdditionalContext items) =
      typed e.2 ((valuesOf items e.1).getLast?.getD []) := by
    unfold parseAdditionalContext valuesOf
    dsimp only
    rw [typedFields_rest _ _ _ e he,foldl_set_field he,List.filter_map,List.map_map]
    rfl
  have hfirst : ((parseAdditionalContext items).get e.1).1 = (valuesOf items e.1).head?.getD [] := by
    unfold parseAdditionalContext AdditionalContext.get valuesOf
    dsimp only
    rw [List.find?_map,List.head?_map,List.head?_filter]
    have hcomp : items.find? ((fun it => decide (it.name = e.1)) ∘
        fun it => (⟨trimSpace it.name,trimSpace it.value⟩ : ContextItem)) =
        items.find? fun it => decide (trimSpace it.name = e.1) := rfl
    rw [hcomp]
    cases items.find? fun it => decide (trimSpace it.name = e.1) <;> rfl
  rw [hlast,hfirst]

end Views

namespace Sample

def twoIDs : List ContextItem := [⟨"DeviceID","A"⟩,⟨" DeviceID ","B"⟩,⟨"NotInOobe","True"⟩]

end Sample

/-- A flag that is sent once is the same in both views. -/
theorem typed_eq_get_once : ∃ e ∈ typedFields, e.1 = utf8 "NotInOobe" ∧
    e.2 (parseAdditionalContext Sample.twoIDs) = .inr true ∧
    e.2 (parseAdditionalContext Sample.twoIDs) =
      typed e.2 ((parseAdditionalContext Sample.twoIDs).get e.1).1 :=
  ⟨(utf8 "NotInOobe",fun c => .inr c.notInOobe),by simp [typedFields],rfl,by decide +kernel,
    (typed_eq_get_iff (by simp [typedFields]) Sample.twoIDs).mpr (by decide +kernel)⟩

/-- Of two device IDs the request is enrolled under the second, and a hook that reads the
raw items sees the first. -/
theorem typed_ne_get_repeated : (utf8 "DeviceID",fun c => .inl c.deviceID) ∈ typedFields ∧
    (parseAdditionalContext Sample.twoIDs).deviceID = utf8 "B" ∧
    (parseAdditionalContext Sample.twoIDs).get "DeviceID" = (utf8 "A",true) :=
  ⟨by simp [typedFields],by decide +kernel,by decide +kernel⟩

end MicrosoftDM.Enroll.Wire
