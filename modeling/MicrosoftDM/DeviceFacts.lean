import Mathlib.Data.List.Induction
import MicrosoftDM.SqlQueue

/-!
The facts of a device as the SQL store keeps them (server/sqlstore/facts.go):
one row for each device, written by an INSERT that overwrites the columns on
a conflict. The JSON of DevInfo is left open.
-/

set_option autoImplicit false

namespace MicrosoftDM.Sqlstore

structure DeviceFacts where
  deviceID : GoString
  devInfo : GoMap GoString := ∅
  loginStatus : GoString := []
  syncType : GoString := []
  devicePrepSync : GoString := []
  channelURI : GoString := []
  updatedAt : Time := 0

structure FactsRow where
  devinfo : GoString
  loginStatus : GoString
  syncType : GoString
  devicePrepSync : GoString
  channelURI : GoString
  updatedAt : Int

inductive FactsColumn where
  | devinfo | loginStatus | syncType | devicePrepSync | channelURI | updatedAt

structure DevInfoCodec where
  marshal : GoMap GoString → Option GoString
  unmarshal : GoString → Option (GoMap GoString)

inductive FactsError where
  | emptyDeviceID
  | marshal
  | notFound (deviceID : GoString)
  | unmarshal

def FactsRow.assign (excluded r : FactsRow) : FactsColumn → FactsRow
  | .devinfo => { r with devinfo := excluded.devinfo }
  | .loginStatus => { r with loginStatus := excluded.loginStatus }
  | .syncType => { r with syncType := excluded.syncType }
  | .devicePrepSync => { r with devicePrepSync := excluded.devicePrepSync }
  | .channelURI => { r with channelURI := excluded.channelURI }
  | .updatedAt => { r with updatedAt := excluded.updatedAt }

def FactsRow.upsert (cols : List FactsColumn) (excluded : FactsRow) : Option FactsRow → FactsRow
  | none => excluded
  | some r => cols.foldl (fun r c => excluded.assign r c) r

def factsColumns : List FactsColumn :=
  [.devinfo,.loginStatus,.syncType,.devicePrepSync,.channelURI,.updatedAt]

abbrev FactsTable := GoMap FactsRow

def DeviceFacts.row (f : DeviceFacts) (devinfo : GoString) : FactsRow :=
  ⟨devinfo,f.loginStatus,f.syncType,f.devicePrepSync,f.channelURI,nanos f.updatedAt⟩

section Calls
variable (codec : DevInfoCodec)

def putFacts (f : DeviceFacts) (db : FactsTable) : Except FactsError Unit × FactsTable :=
  if f.deviceID = [] then (.error .emptyDeviceID,db)
  else
    match codec.marshal f.devInfo with
    | none => (.error .marshal,db)
    | some devinfo =>
      (.ok (),db.insert f.deviceID ((f.row devinfo).upsert factsColumns (db.lookup f.deviceID)))

def facts (deviceID : GoString) (db : FactsTable) : Except FactsError DeviceFacts :=
  match db.lookup deviceID with
  | none => .error (.notFound deviceID)
  | some r =>
    let f := DeviceFacts.mk deviceID ∅ r.loginStatus r.syncType r.devicePrepSync r.channelURI
      (fromNanos r.updatedAt)
    if r.devinfo = [] then .ok f
    else
      match codec.unmarshal r.devinfo with
      | none => .error .unmarshal
      | some devInfo => .ok { f with devInfo := devInfo }

def putAllFacts (calls : List DeviceFacts) (db : FactsTable) : FactsTable :=
  calls.foldl (fun db f => (putFacts codec f db).2) db

def recorded (deviceID : GoString) (calls : List DeviceFacts) : List DeviceFacts :=
  calls.filter fun f => f.deviceID = deviceID ∧ (codec.marshal f.devInfo).isSome

end Calls

inductive FactsScalar where
  | loginStatus | syncType | devicePrepSync | channelURI
  deriving DecidableEq

def DeviceFacts.scalar (f : DeviceFacts) : FactsScalar → GoString
  | .loginStatus => f.loginStatus
  | .syncType => f.syncType
  | .devicePrepSync => f.devicePrepSync
  | .channelURI => f.channelURI

def nonEmpty (s : GoString) : Option GoString := if s = [] then none else some s

/-- The facts that merging the calls gives: the last values, of the scalars those that are not
empty. -/
structure Merges (calls : List DeviceFacts) (f : DeviceFacts) : Prop where
  scalars : ∀ s, nonEmpty (f.scalar s) = (calls.filterMap fun g => nonEmpty (g.scalar s)).getLast?
  devInfo : ∀ k, f.devInfo.lookup k = (calls.filterMap fun g => g.devInfo.lookup k).getLast?

/-- The call carries every scalar and every key that some of the calls carry. -/
structure CarriesAll (calls : List DeviceFacts) (f : DeviceFacts) : Prop where
  scalars : ∀ s, ∀ g ∈ calls, g.scalar s ≠ [] → f.scalar s ≠ []
  devInfo : ∀ k, ∀ g ∈ calls, g.devInfo.lookup k ≠ none → f.devInfo.lookup k ≠ none

/-- Reading a DevInfo gives the keys and values that were written. -/
def DevInfoCodec.Faithful (codec : DevInfoCodec) : Prop :=
  ∀ m s, codec.marshal m = some s → s ≠ [] ∧ ∃ m', codec.unmarshal s = some m' ∧
    ∀ k, m'.lookup k = m.lookup k

section Runs
variable {codec : DevInfoCodec} {dev : GoString} {db : FactsTable} {calls : List DeviceFacts}
  {f : DeviceFacts}

theorem lookup_putFacts (hdev : dev ≠ []) (f : DeviceFacts) : (putFacts codec f db).2.lookup dev =
    if f.deviceID = dev ∧ (codec.marshal f.devInfo).isSome then (codec.marshal f.devInfo).map f.row
    else db.lookup dev := by
  unfold putFacts
  by_cases he : f.deviceID = []
  · rw [if_pos he,if_neg fun h => hdev (h.1.symm.trans he)]
  rw [if_neg he]
  cases hm : codec.marshal f.devInfo with
  | none => simp
  | some devinfo =>
    dsimp only
    rw [GoMap.lookup_insert_ite]
    by_cases hd : f.deviceID = dev
    · subst hd
      cases db.lookup f.deviceID <;> simp [FactsRow.upsert,factsColumns,FactsRow.assign]
    · rw [if_neg fun h => hd h.symm,if_neg fun h => hd h.1]

theorem lookup_putAllFacts (hdev : dev ≠ []) (hdb : db.lookup dev = none) :
    (putAllFacts codec calls db).lookup dev =
      (recorded codec dev calls).getLast?.bind fun f => (codec.marshal f.devInfo).map f.row := by
  induction calls using List.reverseRecOn with
  | nil => exact hdb
  | append_singleton calls f ih =>
    unfold putAllFacts recorded at ih ⊢
    rw [List.foldl_append,List.foldl_cons,List.foldl_nil,lookup_putFacts hdev,ih,List.filter_append]
    by_cases h : f.deviceID = dev ∧ (codec.marshal f.devInfo).isSome <;> simp [h]

theorem facts_last (hc : codec.Faithful) (hdev : dev ≠ []) (hdb : db.lookup dev = none)
    (hlast : (recorded codec dev calls).getLast? = some f) :
    ∃ g, facts codec dev (putAllFacts codec calls db) = .ok g ∧
      (∀ s, g.scalar s = f.scalar s) ∧ ∀ k, g.devInfo.lookup k = f.devInfo.lookup k := by
  have hrec := (List.mem_filter.mp (List.mem_of_getLast? hlast)).2
  obtain ⟨devinfo,hm⟩ := Option.isSome_iff_exists.mp (of_decide_eq_true hrec).2
  obtain ⟨hne,m,hu,hk⟩ := hc f.devInfo devinfo hm
  have hrow := @lookup_putAllFacts codec dev db calls hdev hdb
  rw [hlast,Option.bind_some,hm,Option.map_some] at hrow
  unfold facts
  rw [hrow]
  have hcolumn : (f.row devinfo).devinfo = devinfo := rfl
  dsimp only
  rw [hcolumn,if_neg hne,hu]
  exact ⟨_,rfl,fun s => by cases s <;> rfl,hk⟩

theorem getLast?_filterMap_iff {α β : Type} {l : List α} {a : α} (h : l.getLast? = some a)
    (v : α → Option β) : v a = (l.filterMap v).getLast? ↔ ∀ b ∈ l, v b ≠ none → v a ≠ none := by
  obtain ⟨front,rfl⟩ := List.getLast?_eq_some_iff.mp h
  cases hv : v a with
  | some x => simp [hv]
  | none =>
    simp only [List.filterMap_append,List.filterMap_cons,List.filterMap_nil,hv,List.append_nil]
    rw [eq_comm,List.getLast?_eq_none_iff,List.filterMap_eq_nil_iff]
    simp [or_imp,forall_and,hv]

/-- The facts are the merged ones if and only if the last call carries all that some
call has carried. -/
theorem facts_merged_iff (hc : codec.Faithful) (hdev : dev ≠ []) (hdb : db.lookup dev = none)
    (hlast : (recorded codec dev calls).getLast? = some f) :
    ∃ g, facts codec dev (putAllFacts codec calls db) = .ok g ∧
      (Merges (recorded codec dev calls) g ↔ CarriesAll (recorded codec dev calls) f) := by
  obtain ⟨g,hg,hscalar,hinfo⟩ := facts_last hc hdev hdb hlast
  have hempty : ∀ x, nonEmpty x ≠ none ↔ x ≠ [] := by simp [nonEmpty]
  have hscalars := fun s => getLast?_filterMap_iff hlast fun g => nonEmpty (g.scalar s)
  have hinfos := fun k => getLast?_filterMap_iff hlast fun g => g.devInfo.lookup k
  simp only [hempty] at hscalars
  refine ⟨g,hg,fun h => ⟨fun s => ?_,fun k => ?_⟩,fun h => ⟨fun s => ?_,fun k => ?_⟩⟩
  · exact (hscalars s).mp (hscalar s ▸ h.scalars s)
  · exact (hinfos k).mp (hinfo k ▸ h.devInfo k)
  · rw [hscalar]
    exact (hscalars s).mpr (h.scalars s)
  · rw [hinfo]
    exact (hinfos k).mpr (h.devInfo k)

end Runs

namespace Sample

/-- JSON of an object with at most the member DevId. -/
def devIDCodec : DevInfoCodec where
  marshal m := match m.entries with
    | [] => some "\x7b\x7d"
    | [⟨k,v⟩] => if k = utf8 "DevId" then some (utf8 "\x7b\"DevId\":\"" ++ v ++ "\"\x7d") else none
    | _ => none
  unmarshal s :=
    if s = utf8 "\x7b\x7d" then some ∅
    else some (AList.singleton (utf8 "DevId") (s.drop 10).dropLast.dropLast)

theorem devIDCodec_faithful : devIDCodec.Faithful := by
  rintro ⟨entries,hkeys⟩ s h
  cases entries with
  | nil =>
    cases h
    exact ⟨by decide,∅,rfl,fun k => rfl⟩
  | cons e rest =>
    obtain ⟨k,v⟩ := e
    cases rest with
    | cons e rest => cases h
    | nil =>
      simp only [devIDCodec,Option.ite_none_right_eq_some,Option.some.injEq] at h
      obtain ⟨rfl,rfl⟩ := h
      have hv : (utf8 "\x7b\"DevId\":\"" ++ v ++ utf8 "\"\x7d").drop 10 = v ++ utf8 "\"\x7d" := by
        rw [List.append_assoc]
        rfl
      have hlen : (utf8 "\x7b\"DevId\":\"" ++ v ++ utf8 "\"\x7d").length = 10+v.length+2 := by
        rw [List.length_append,List.length_append]
        rfl
      have hne : ∀ x : GoString, x.length < 12 → utf8 "\x7b\"DevId\":\"" ++ v ++ utf8 "\"\x7d" ≠ x := by
        rintro x hx rfl
        omega
      have hquote : v ++ utf8 "\"\x7d" = v ++ [34] ++ [125] := (List.append_assoc v [34] [125]).symm
      refine ⟨hne [] (by decide),AList.singleton (utf8 "DevId") v,?_,fun k => rfl⟩
      simp only [devIDCodec]
      rw [if_neg (hne _ (by decide)),hv,hquote,List.dropLast_concat,List.dropLast_concat]

def channelFacts : DeviceFacts := { deviceID := "d", channelURI := "https://wns/1" }

def loginFacts : DeviceFacts := { deviceID := "d", loginStatus := "user" }

def firstFacts : DeviceFacts :=
  { channelFacts with devInfo := AList.singleton (utf8 "DevId") (utf8 "urn:1") }

def renewedFacts : DeviceFacts :=
  { loginFacts with channelURI := "https://wns/2", devInfo := AList.singleton (utf8 "DevId") (utf8 "urn:2") }

end Sample

/-- The second call carries the channel and the key of the first, and the login with them. -/
theorem facts_merged_once : ∃ g, facts Sample.devIDCodec "d"
      (putAllFacts Sample.devIDCodec [Sample.firstFacts,Sample.renewedFacts] ∅) = .ok g ∧
    Merges [Sample.firstFacts,Sample.renewedFacts] g := by
  obtain ⟨g,hg,h⟩ := @facts_merged_iff Sample.devIDCodec "d" ∅ [Sample.firstFacts,Sample.renewedFacts]
    Sample.renewedFacts Sample.devIDCodec_faithful (by decide) rfl rfl
  have hcalls : ∀ x ∈ recorded Sample.devIDCodec "d" [Sample.firstFacts,Sample.renewedFacts],
      x = Sample.firstFacts ∨ x = Sample.renewedFacts := by
    simp [recorded]
  refine ⟨g,hg,h.mpr ⟨fun s x hx hs => ?_,fun k x hx hk => ?_⟩⟩
  · cases s with
    | loginStatus | channelURI => decide
    | syncType | devicePrepSync => rcases hcalls x hx with rfl | rfl <;> exact absurd rfl hs
  · have hkey : k = utf8 "DevId" := by
      by_contra hd
      have hnone : ∀ v, (AList.singleton (utf8 "DevId") v : GoMap GoString).lookup k = none :=
        fun v => List.dlookup_cons_ne [] (⟨utf8 "DevId",v⟩ : (_ : GoString) × GoString) hd
      rcases hcalls x hx with rfl | rfl <;> exact hk (hnone _)
    subst hkey
    decide

/-- A login report after the channel was reported clears the channel. -/
theorem facts_overwritten : ∃ g, facts Sample.devIDCodec "d"
      (putAllFacts Sample.devIDCodec [Sample.channelFacts,Sample.loginFacts] ∅) = .ok g ∧
    g.channelURI = [] ∧ ¬Merges [Sample.channelFacts,Sample.loginFacts] g := by
  refine ⟨{ deviceID := "d", loginStatus := "user", updatedAt := 0 },by rfl,rfl,fun h => ?_⟩
  have hchannel := h.scalars .channelURI
  revert hchannel
  decide +kernel

end MicrosoftDM.Sqlstore
