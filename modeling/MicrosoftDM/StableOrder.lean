import Mathlib.Data.List.Sort

set_option autoImplicit false

namespace StableOrder

variable {α : Type} (key : α → Nat)

/-- The earliest of the elements with the greatest key. -/
def firstMax : List α → Option α
  | [] => none
  | a :: as =>
    match firstMax as with
    | none => some a
    | some b => if key b ≤ key a then some a else some b

variable {key} {a : α} {l : List α}

theorem firstMax_eq_none : firstMax key l = none ↔ l = [] := by
  cases l with
  | nil => simp [firstMax]
  | cons b l =>
    simp only [firstMax,reduceCtorEq,iff_false]
    split
    · simp
    · split <;> simp

theorem firstMax_splits (h : firstMax key l = some a) :
    ∃ before after, l = before ++ a :: after ∧ (∀ x ∈ before, key x < key a) ∧
      ∀ x ∈ after, key x ≤ key a := by
  induction l generalizing a with
  | nil => cases h
  | cons b l ih =>
    unfold firstMax at h
    split at h
    · rename_i hnone
      cases h
      exact ⟨[],[],by rw [firstMax_eq_none.mp hnone]; rfl,by simp,by simp⟩
    rename_i c hc
    obtain ⟨before,after,rfl,hb,ha⟩ := ih hc
    split at h
    · rename_i hle
      cases h
      refine ⟨[],_,rfl,by simp,fun x hx => ?_⟩
      rcases List.mem_append.mp hx with hx | hx
      · exact (Nat.le_of_lt (hb x hx)).trans hle
      rcases List.mem_cons.mp hx with rfl | hx
      · exact hle
      · exact (ha x hx).trans hle
    · rename_i hlt
      cases h
      refine ⟨b :: before,after,rfl,?_,ha⟩
      simp only [List.mem_cons,forall_eq_or_imp]
      exact ⟨by omega,hb⟩

theorem firstMax_mem (h : firstMax key l = some a) : a ∈ l := by
  obtain ⟨before,after,rfl,-,-⟩ := firstMax_splits h
  simp

theorem firstMax_append {before after : List α} (hb : ∀ x ∈ before, key x < key a)
    (ha : ∀ x ∈ after, key x ≤ key a) : firstMax key (before ++ a :: after) = some a := by
  induction before with
  | nil =>
    rw [List.nil_append,firstMax]
    cases hm : firstMax key after with
    | none => rfl
    | some c =>
      exact if_pos (ha c (firstMax_mem hm))
  | cons b before ih =>
    rw [List.cons_append,firstMax,ih fun x hx => hb x (List.mem_cons_of_mem b hx)]
    exact if_neg (by simp [hb b List.mem_cons_self])

theorem firstMax_filter {p : α → Bool} (h : firstMax key l = some a) (ha : p a = true) :
    firstMax key (l.filter p) = some a := by
  obtain ⟨before,after,rfl,hb,hafter⟩ := firstMax_splits h
  rw [List.filter_append,List.filter_cons_of_pos ha]
  exact firstMax_append (fun x hx => hb x (List.mem_of_mem_filter hx))
    fun x hx => hafter x (List.mem_of_mem_filter hx)

theorem firstMax_append_right {more : List α} (h : firstMax key l = some a)
    (hmore : ∀ x ∈ more, key x ≤ key a) : firstMax key (l ++ more) = some a := by
  obtain ⟨before,after,rfl,hb,hafter⟩ := firstMax_splits h
  rw [List.append_assoc,List.cons_append]
  refine firstMax_append hb fun x hx => ?_
  rcases List.mem_append.mp hx with hx | hx
  · exact hafter x hx
  · exact hmore x hx

/-- Of what follows, only its own earliest greatest element counts. -/
theorem firstMax_append_of_some (front : List α) (h : firstMax key l = some a) :
    firstMax key (front ++ l) = firstMax key (front ++ [a]) := by
  induction front with
  | nil => exact h
  | cons b front ih => rw [List.cons_append,List.cons_append,firstMax,firstMax,ih]

section Sorting
variable (key)

abbrev longestFirst (a b : α) : Prop := key b ≤ key a

theorem head?_insertionSort (l : List α) :
    (l.insertionSort (longestFirst key)).head? = firstMax key l := by
  induction l with
  | nil => rfl
  | cons a l ih =>
    rw [List.insertionSort_cons,firstMax,← ih]
    cases l.insertionSort (longestFirst key) with
    | nil => rfl
    | cons b l =>
      rw [List.orderedInsert_cons]
      split <;> rename_i h <;> simp [h]

theorem filter_orderedInsert (p : α → Bool) (a : α) (l : List α)
    (h : l.Pairwise (longestFirst key)) : (l.orderedInsert (longestFirst key) a).filter p =
      if p a then (l.filter p).orderedInsert (longestFirst key) a else l.filter p := by
  induction l with
  | nil => simp [List.filter_cons]
  | cons b l ih =>
    have hb := (List.pairwise_cons.mp h).1
    rw [List.orderedInsert_cons]
    split
    · rename_i hab
      rw [List.filter_cons]
      split
      · cases hf : (b :: l).filter p with
        | nil => rfl
        | cons c rest =>
          have hc : key c ≤ key a := by
            have hmem : c ∈ b :: l := List.mem_of_mem_filter (hf ▸ List.mem_cons_self)
            rcases List.mem_cons.mp hmem with rfl | hmem
            · exact hab
            · exact (hb c hmem).trans hab
          rw [List.orderedInsert_cons,if_pos hc]
      · rfl
    · rename_i hab
      rw [List.filter_cons,ih (List.pairwise_cons.mp h).2,List.filter_cons]
      split <;> split <;> simp [hab]

theorem filter_insertionSort (p : α → Bool) (l : List α) :
    (l.insertionSort (longestFirst key)).filter p =
      (l.filter p).insertionSort (longestFirst key) := by
  have : IsTrans α (longestFirst key) := ⟨fun _ _ _ h h' => h'.trans h⟩
  have : Std.Total (longestFirst key) := ⟨fun a b => Nat.le_total (key b) (key a)⟩
  induction l with
  | nil => rfl
  | cons a l ih =>
    rw [List.insertionSort_cons,filter_orderedInsert key p a _ (List.pairwise_insertionSort _ l),ih,
      List.filter_cons]
    split <;> rfl

end Sorting

end StableOrder
