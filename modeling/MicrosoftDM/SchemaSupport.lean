import MicrosoftDM.GoText

set_option autoImplicit false

namespace MicrosoftDM

structure Csp.Applicability where
  osBuildVersions : List GoString := []
  cspVersion : GoString := []
  editionAllowList : List GoString := []
  requiresAzureAd : Bool := false
  deriving DecidableEq

structure Csp.Deprecated where
  osBuildDeprecated : GoString
  deriving DecidableEq

variable {entry : GoString}

namespace Support

structure Build where
  major : Int
  minor : Int
  build : Int
  revision : Int
  deriving DecidableEq

/-- `ParseBuild`; `none` is `ErrBuild`. -/
def parseBuild (s : GoString) : Option Build :=
  match (splitAt 46 (trimSpace s)).mapM fun p => (atoi p).filter fun v => 0 ≤ v with
  | some [major,minor,build] => some ⟨major,minor,build,0⟩
  | some [major,minor,build,revision] => some ⟨major,minor,build,revision⟩
  | _ => none

/-- `String`. -/
def Build.text (b : Build) : GoString :=
  (utf8 ".").intercalate (itoa b.major :: itoa b.minor :: itoa b.build ::
    if b.revision = 0 then [] else [itoa b.revision])

inductive Kind where
  | released | insider | server | unreleased
  deriving DecidableEq

def classify (entry : GoString) : Option (Build × Kind) :=
  (parseBuild entry).map fun b =>
    if b.major ≥ 88 then (b,.unreleased)
    else
      let b := if b.major = 11 ∧ b.minor = 0 then { b with major := 10 } else b
      if b.build ∈ [20348,25398] then (b,.server)
      else if b.build ∈ [25000,26000,25145,25965] then (b,.insider)
      else (b,.released)

def branch (build : Int) : Int :=
  if build ∈ [26200,26300] then 26100
  else if build = 22631 then 22621
  else if build ∈ [19042,19043,19044,19045] then 19041
  else build

def buildName (build : Int) : GoString :=
  if build = 26100 then "24H2/25H2/26H2 (26100)"
  else if build = 22621 then "22H2/23H2 (22621)"
  else if build = 22000 then "21H2 (22000)"
  else if build = 19041 then "Windows 10 2004 to 22H2 (19041)"
  else itoa build

structure Result where
  supported : Bool := false
  reason : GoString := []
  matched : GoString := []
  deprecated : Bool := false
  deriving DecidableEq

/-- One entry of the loop of `SupportedOn`. -/
def admits (device : Build) (entry : GoString) : Option Result :=
  match classify entry with
  | some (b,.released) =>
    if branch b.build < branch device.build then
      some { supported := true, matched := entry, reason := "introduced in " ++ b.text ++
        ", before the device's " ++ buildName (branch device.build) ++ " branch" }
    else if branch b.build = branch device.build ∧ b.revision ≤ device.revision then
      some { supported := true, matched := entry,
             reason := "introduced in " ++ b.text ++ " on the device's branch" }
    else none
  | _ => none

def refusal (entries : List GoString) (device : Build) : GoString :=
  let kinds (k : Kind) : Bool := entries.any fun e => (classify e).any fun c => c.2 = k
  if kinds .unreleased && !kinds .released then "not in a released build (sentinel applicability)"
  else if kinds .server && !kinds .released then "Windows Server only"
  else if kinds .insider && !kinds .released then "Insider builds only"
  else "requires " ++ (utf8 " or ").intercalate entries ++ " or later; device is " ++ device.text

def deprecatedOn (device : Build) (d : Csp.Deprecated) : Bool :=
  if d.osBuildDeprecated = [] then true
  else
    (parseBuild d.osBuildDeprecated).any fun b => branch b.build < branch device.build ∨
      branch b.build = branch device.build ∧ b.revision ≤ device.revision

/-- `SupportedOn`, on the two fields of the node it reads. The early return without
applicability does not look at the deprecation. -/
def supportedOn (applicability : Option Csp.Applicability) (deprecated : Option Csp.Deprecated)
    (device : Build) : Result :=
  let entries := (applicability.map Csp.Applicability.osBuildVersions).getD []
  if entries = [] then { supported := true, reason := "no applicability recorded; assumed supported" }
  else
    let res := (entries.findSome? (admits device)).getD { reason := refusal entries device }
    { res with deprecated := deprecated.any (deprecatedOn device) }

def Build.Precedes (b c : Build) : Prop :=
  branch b.build < branch c.build ∨ branch b.build = branch c.build ∧ b.revision ≤ c.revision

section
variable {applicability : Option Csp.Applicability} {deprecated : Option Csp.Deprecated} {b c : Build}

theorem admits_iff : (∃ r, admits b entry = some r) ↔
    ∃ e, classify entry = some (e,.released) ∧ e.Precedes b := by
  unfold admits Build.Precedes
  split
  · rename_i e he
    simp only [he,Option.some.injEq,Prod.mk.injEq,and_true,exists_eq_left']
    split
    · simp [*]
    · split <;> simp [*]
  · rename_i hno
    simp only [reduceCtorEq,exists_false,false_iff]
    rintro ⟨e,he,-⟩
    exact hno e he

theorem admits_supported {r : Result} (h : admits b entry = some r) :
    r.supported = true := by
  unfold admits at h
  split at h
  · split at h
    · cases h; rfl
    · split at h <;> cases h
      rfl
  · cases h

theorem supportedOn_iff : (supportedOn applicability deprecated b).supported = true ↔
    (applicability.map Csp.Applicability.osBuildVersions).getD [] = [] ∨
    ∃ entry ∈ (applicability.map Csp.Applicability.osBuildVersions).getD [],
      ∃ e, classify entry = some (e,.released) ∧ e.Precedes b := by
  unfold supportedOn
  generalize (applicability.map Csp.Applicability.osBuildVersions).getD [] = entries
  dsimp only
  split
  · simp [*]
  rename_i hne
  simp only [hne,false_or,← admits_iff]
  cases hf : entries.findSome? (admits b) with
  | none =>
    rw [List.findSome?_eq_none_iff] at hf
    simp only [Option.getD_none,Bool.false_eq_true,false_iff]
    rintro ⟨entry,he,r,hr⟩
    rw [hf entry he] at hr
    cases hr
  | some r =>
    obtain ⟨entry,he,hr⟩ := List.exists_of_findSome?_eq_some hf
    simp only [Option.getD_some,admits_supported hr,true_iff]
    exact ⟨entry,he,r,hr⟩

theorem Build.Precedes.trans {e : Build} (h₁ : e.Precedes b) (h₂ : b.Precedes c) : e.Precedes c := by
  unfold Precedes at *
  omega

theorem deprecatedOn_mono {d : Csp.Deprecated} (h : b.Precedes c) (hd : deprecatedOn b d = true) :
    deprecatedOn c d = true := by
  unfold deprecatedOn at *
  split
  · rfl
  rename_i hne
  rw [if_neg hne,Option.any_eq_true] at hd
  obtain ⟨e,he,hafter⟩ := hd
  rw [Option.any_eq_true]
  have hb : e.Precedes b := by simpa [Build.Precedes] using hafter
  exact ⟨e,he,by simpa [Build.Precedes] using hb.trans h⟩

end

/-- The order of the entries does not matter, and what a build supports or has seen
deprecated, later builds do too. -/
theorem supportedOn_perm_mono (deprecated : Option Csp.Deprecated) :
    (∀ (a : Csp.Applicability) (entries : List GoString) (b : Build),
      entries.Perm a.osBuildVersions →
      (supportedOn (some { a with osBuildVersions := entries }) deprecated b).supported =
        (supportedOn (some a) deprecated b).supported) ∧
    ∀ (applicability : Option Csp.Applicability) (b c : Build), b.Precedes c →
      ((supportedOn applicability deprecated b).supported = true →
        (supportedOn applicability deprecated c).supported = true) ∧
      ((supportedOn applicability deprecated b).deprecated = true →
        (supportedOn applicability deprecated c).deprecated = true) := by
  refine ⟨fun a entries b hperm => ?_,fun applicability b c h => ⟨fun hs => ?_,fun hd => ?_⟩⟩
  · rw [Bool.eq_iff_iff,supportedOn_iff,supportedOn_iff]
    simp only [Option.map_some,Option.getD_some,hperm.mem_iff]
    rw [← List.length_eq_zero_iff,hperm.length_eq,List.length_eq_zero_iff]
  · rw [supportedOn_iff] at *
    refine hs.imp_right ?_
    rintro ⟨entry,hentry,e,he,hafter⟩
    exact ⟨entry,hentry,e,he,hafter.trans h⟩
  unfold supportedOn at *
  dsimp only at *
  split at hd
  · cases hd
  rename_i hne
  rw [if_neg hne]
  cases hdep : deprecated with
  | none => simp [hdep] at hd
  | some d => exact deprecatedOn_mono h (by simpa [hdep] using hd)

end Support

end MicrosoftDM
