import Mathlib.Data.List.AList
import MicrosoftDM.GoText

set_option autoImplicit false

namespace MicrosoftDM

abbrev GoMap (α : Type) := AList (fun _ : GoString => α)

/-- `len(m)`. -/
def GoMap.size {α : Type} (m : GoMap α) : Nat := m.entries.length

variable {k k' : GoString}

theorem GoMap.size_insert_of_notMem {α : Type} {m : GoMap α} (v : α) (h : k ∉ m) :
    GoMap.size (AList.insert k v m) = GoMap.size m+1 := by
  rw [size,AList.entries_insert_of_notMem h,size,List.length_cons]

theorem GoMap.size_le_insert {α : Type} (m : GoMap α) (k : GoString) (v : α) :
    GoMap.size m ≤ GoMap.size (AList.insert k v m) := by
  by_cases h : k ∈ m
  · obtain ⟨b,l₁,l₂,-,he,hk⟩ := List.exists_of_kerase (AList.mem_keys.mp h)
    rw [size,size,AList.entries_insert,hk,he]
    simp only [List.length_cons,List.length_append]
    omega
  · rw [size_insert_of_notMem v h]
    omega

theorem GoMap.notMem_of_lookup_none {α : Type} {m : GoMap α}
    (h : m.lookup k = none) : k ∉ m := AList.lookup_eq_none.mp h

theorem GoMap.lookup_insert_cases {α : Type} {m : GoMap α} {v w : α}
    (h : (AList.insert k v m).lookup k' = some w) :
    (k' = k ∧ w = v) ∨ (k' ≠ k ∧ m.lookup k' = some w) := by
  by_cases hk : k' = k
  · subst hk
    rw [AList.lookup_insert] at h
    exact .inl ⟨rfl,(Option.some.inj h).symm⟩
  · rw [AList.lookup_insert_ne hk] at h
    exact .inr ⟨hk,h⟩

theorem GoMap.lookup_erase_some {α : Type} {m : GoMap α} {w : α}
    (h : (AList.erase k m).lookup k' = some w) : k' ≠ k ∧ m.lookup k' = some w := by
  by_cases hk : k' = k
  · subst hk
    simp at h
  · rw [AList.lookup_erase_ne hk] at h
    exact ⟨hk,h⟩

theorem GoMap.lookup_insert_ite {α : Type} (m : GoMap α) (k k' : GoString) (v : α) :
    (AList.insert k v m).lookup k' = if k' = k then some v else m.lookup k' := by
  split
  · rename_i h
    rw [h,AList.lookup_insert]
  · rename_i h
    exact AList.lookup_insert_ne h

theorem GoMap.lookup_erase_ite {α : Type} (m : GoMap α) (k k' : GoString) :
    (AList.erase k m).lookup k' = if k' = k then none else m.lookup k' := by
  split
  · rename_i h
    rw [h,AList.lookup_erase]
  · rename_i h
    exact AList.lookup_erase_ne h

def GoMap.modify {α : Type} (m : GoMap α) (k : GoString) (f : α → α) : GoMap α :=
  match m.lookup k with
  | some v => AList.insert k (f v) m
  | none => m

theorem GoMap.lookup_modify {α : Type} (m : GoMap α) (k k' : GoString) (f : α → α) :
    (GoMap.modify m k f).lookup k' = if k' = k then (m.lookup k').map f else m.lookup k' := by
  unfold modify
  cases h : m.lookup k with
  | none =>
    dsimp only
    split
    · rename_i he
      rw [he,h,Option.map_none]
    · rfl
  | some v =>
    dsimp only
    rw [lookup_insert_ite]
    split
    · rename_i he
      rw [he,h,Option.map_some]
    · rfl

theorem GoMap.mem_keys_of_lookup {α : Type} {m : GoMap α} {v : α}
    (h : m.lookup k = some v) : k ∈ m.keys := by
  have hs : (m.lookup k).isSome := by rw [h]; rfl
  exact AList.mem_keys.mp (AList.lookup_isSome.mp hs)

theorem GoMap.lookup_of_mem_keys {α : Type} {m : GoMap α} (h : k ∈ m.keys) :
    ∃ v, m.lookup k = some v :=
  Option.isSome_iff_exists.mp (AList.lookup_isSome.mpr (AList.mem_keys.mpr h))

end MicrosoftDM
