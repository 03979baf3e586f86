import MicrosoftDM.CredentialText
import MicrosoftDM.SchemaCheck

set_option autoImplicit false

namespace MicrosoftDM.Validation

structure Bound where
  negative : Bool := false
  parens : Bool := false
  digits : GoString
  valid : digits ≠ [] ∧ digits.all isDigit = true

def Bound.number (b : Bound) : GoString := if b.negative then 45 :: b.digits else b.digits

def Bound.text (b : Bound) : GoString := if b.parens then 40 :: (b.number ++ [41]) else b.number

def Bound.value (b : Bound) : Int :=
  if b.negative then -(parseDigits b.digits : Int) else parseDigits b.digits

/-- `[lo]` or `[lo-hi]`. -/
structure Alternative where
  lo : Bound
  hi : Option Bound

namespace Alternative

def ending (a : Alternative) : GoString :=
  match a.hi with
  | some hi => 45 :: (hi.text ++ [93])
  | none => [93]

def text (a : Alternative) : GoString := 91 :: (a.lo.text ++ a.ending)

def plain (a : Alternative) : Bool := !a.lo.parens && a.hi.all fun hi => !hi.parens

def top (a : Alternative) : Int := (a.hi.getD a.lo).value

def Contains (a : Alternative) (n : Int) : Prop := a.lo.value ≤ n ∧ n ≤ a.top

/-- The number is the greatest or the least of 64 bits, and a bound beyond it is cut to it. -/
def Cut (a : Alternative) (n : Int) : Prop :=
  n = maxInt ∧ maxInt < a.lo.value ∧ maxInt ≤ a.top ∨
  n = minInt ∧ a.top < minInt ∧ a.lo.value ≤ minInt

end Alternative

def rangeSpec : Alternative → List Alternative → GoString
  | a, [] => a.text
  | a, b :: as => a.text ++ 44 :: rangeSpec b as

theorem digit_visible {b : UInt8} (h : isDigit b = true) : visible b = true ∧ b ≠ 44 := by
  simp only [isDigit,Bool.and_eq_true,decide_eq_true_eq] at h
  refine ⟨by simp only [visible,Bool.and_eq_true,decide_eq_true_eq]; omega,?_⟩
  rintro rfl
  revert h
  decide

namespace Bound
variable (b : Bound)

theorem parseDecimal_number : parseDecimal b.number = some b.value := by
  obtain ⟨hne,hall⟩ := b.valid
  unfold number value
  cases b.negative with
  | true => simp [parseDecimal,hne,hall]
  | false =>
    cases hd : b.digits with
    | nil => exact absurd hd hne
    | cons c rest =>
      rw [hd] at hall
      have hc : isDigit c = true := (List.all_eq_true.mp hall) c List.mem_cons_self
      have h45 : c ≠ 45 := by rintro rfl; exact absurd hc (by decide)
      have h43 : c ≠ 43 := by rintro rfl; exact absurd hc (by decide)
      simp [parseDecimal,h45,h43,hall]

theorem number_ne_nil : b.number ≠ [] := by
  unfold number
  split
  · simp
  · exact b.valid.1

theorem text_visible : ∀ c ∈ b.text, visible c = true ∧ c ≠ 44 := by
  have hdigits : ∀ c ∈ b.digits, visible c = true ∧ c ≠ 44 := fun c hc =>
    digit_visible (List.all_eq_true.mp b.valid.2 c hc)
  have hnumber : ∀ c ∈ b.number, visible c = true ∧ c ≠ 44 := by
    unfold number
    split
    · exact List.forall_mem_cons.mpr ⟨by decide,hdigits⟩
    · exact hdigits
  unfold text
  split
  · refine List.forall_mem_cons.mpr ⟨by decide,fun c hc => ?_⟩
    rcases List.mem_append.mp hc with hc | hc
    · exact hnumber c hc
    · rw [List.mem_singleton.mp hc]
      decide
  · exact hnumber

/-- The expression finds the number, and nothing in parentheses. -/
theorem scanInt_text {c : UInt8} (hc : isDigit c = false) (rest : GoString) :
    scanInt ((b.text ++ c :: rest).dropWhile isBlank) =
      if b.parens then none else some (b.number,c :: rest) := by
  obtain ⟨hne,hall⟩ := b.valid
  have htake : (b.digits ++ c :: rest).takeWhile isDigit = b.digits := by
    rw [List.takeWhile_append_of_pos (List.all_eq_true.mp hall)]
    simp [hc]
  have hdrop : (b.digits ++ c :: rest).dropWhile isDigit = c :: rest := by
    rw [List.dropWhile_append_of_pos (List.all_eq_true.mp hall)]
    simp [hc]
  unfold text number
  cases b.parens with
  | true =>
    rw [if_pos rfl,if_pos rfl]
    rfl
  | false =>
    rw [if_neg Bool.false_ne_true,if_neg Bool.false_ne_true]
    cases b.negative with
    | true =>
      rw [if_pos rfl]
      have hscan : scanInt (45 :: (b.digits ++ c :: rest)) =
          if (b.digits ++ c :: rest).takeWhile isDigit = [] then none
          else some (45 :: (b.digits ++ c :: rest).takeWhile isDigit,
            (b.digits ++ c :: rest).dropWhile isDigit) := rfl
      rw [htake,hdrop,if_neg hne] at hscan
      exact hscan
    | false =>
      rw [if_neg Bool.false_ne_true]
      cases hd : b.digits with
      | nil => exact absurd hd hne
      | cons d ds =>
        rw [hd] at htake hdrop hall
        have hdigit : isDigit d = true := (List.all_eq_true.mp hall) d List.mem_cons_self
        have hblank : isBlank d = false := by
          simp only [isDigit,Bool.and_eq_true,decide_eq_true_eq] at hdigit
          simp only [isBlank,decide_eq_false_iff_not]
          rintro (rfl | rfl | rfl | rfl | rfl) <;> revert hdigit <;> decide
        have h45 : d ≠ 45 := by rintro rfl; exact absurd hdigit (by decide)
        rw [List.cons_append,List.dropWhile_cons_of_neg (by simp [hblank])]
        unfold scanInt
        split
        · rename_i heq
          exact absurd (List.cons.inj heq).1 h45
        · rw [← List.cons_append,htake,hdrop,if_neg (by simp)]

end Bound

namespace Alternative
variable (a : Alternative)

theorem text_visible : ∀ c ∈ a.text, visible c = true ∧ c ≠ 44 := by
  refine List.forall_mem_cons.mpr ⟨by decide,fun c hc => ?_⟩
  rcases List.mem_append.mp hc with hc | hc
  · exact a.lo.text_visible c hc
  unfold ending at hc
  split at hc
  · rename_i hi _
    rcases List.mem_cons.mp hc with rfl | hc
    · decide
    rcases List.mem_append.mp hc with hc | hc
    · exact hi.text_visible c hc
    · rw [List.mem_singleton.mp hc]
      decide
  · rw [List.mem_singleton.mp hc]
    decide

theorem scanRange_text : scanRange a.text =
    if a.plain then some (a.lo.number,(a.hi.map Bound.number).getD []) else none := by
  obtain ⟨lo,hi⟩ := a
  have hdash : isBlank 45 = false := by decide
  have hclose : isBlank 93 = false := by decide
  unfold text ending plain
  cases hi with
  | none =>
    dsimp only
    rw [scanRange,lo.scanInt_text (by decide)]
    cases lo.parens <;> simp [closes,hclose]
  | some hi =>
    dsimp only
    rw [scanRange,lo.scanInt_text (by decide)]
    cases lo.parens with
    | true => simp
    | false =>
      simp only [Bool.false_eq_true,if_false,List.dropWhile_cons_of_neg,hdash,not_false_eq_true]
      rw [hi.scanInt_text (by decide)]
      cases hp : hi.parens <;> simp [closes,hclose,hp]

/-- The comparison of `checkRange`, with both bounds cut to 64 bits. -/
theorem cut_iff {n : Int} (h₁ : minInt ≤ n) (h₂ : n ≤ maxInt) :
    (atoiValue a.lo.number ≤ n ∧
      n ≤ atoiValue (if (a.hi.map Bound.number).getD [] = [] then a.lo.number
        else (a.hi.map Bound.number).getD [])) ↔ a.Contains n ∨ a.Cut n := by
  have htop : atoiValue (if (a.hi.map Bound.number).getD [] = [] then a.lo.number
      else (a.hi.map Bound.number).getD []) = max minInt (min a.top maxInt) := by
    unfold top
    cases a.hi with
    | none => simp [atoiValue,Bound.parseDecimal_number]
    | some hi => simp [atoiValue,Bound.parseDecimal_number,Bound.number_ne_nil]
  rw [htop]
  simp only [atoiValue,Bound.parseDecimal_number,Contains,Cut]
  simp only [minInt,maxInt] at *
  omega

end Alternative

theorem splitAt_rangeSpec (a : Alternative) (as : List Alternative) :
    splitAt 44 (rangeSpec a as) = (a :: as).map Alternative.text := by
  have hone : ∀ a : Alternative, splitAt 44 a.text = [a.text] := fun a =>
    splitAt_of_notMem fun h => (a.text_visible 44 h).2 rfl
  induction as generalizing a with
  | nil => exact hone a
  | cons b as ih =>
    change splitAt 44 (a.text ++ 44 :: rangeSpec b as) = _
    rw [splitAt_append,hone,ih]
    rfl

/-- The alternatives up to the first one in parentheses are tried. -/
theorem rangeLoop_none_iff {spec : GoString} {n : Int} (h₁ : minInt ≤ n) (h₂ : n ≤ maxInt)
    (as : List Alternative) : rangeLoop spec n (as.map Alternative.text) = none ↔
      ∃ a ∈ as.takeWhile Alternative.plain, a.Contains n ∨ a.Cut n := by
  induction as with
  | nil => simp [rangeLoop]
  | cons a as ih =>
    rw [List.map_cons,rangeLoop,trimSpace_visible fun c hc => (a.text_visible c hc).1,
      a.scanRange_text]
    cases hp : a.plain with
    | false => simp [hp]
    | true =>
      rw [if_pos rfl,List.takeWhile_cons_of_pos hp,List.exists_mem_cons_iff,← ih]
      dsimp only
      by_cases htake : a.Contains n ∨ a.Cut n
      · rw [if_pos ((a.cut_iff h₁ h₂).mpr htake)]
        exact iff_of_true rfl (.inl htake)
      · rw [if_neg fun h => htake ((a.cut_iff h₁ h₂).mp h)]
        exact (or_iff_right htake).symm

/-- A value is checked as it should be, unless the alternative it lies in has parentheses
or comes after one that has, or a bound cut to 64 bits lets it in. -/
theorem checkRange_contains_iff (a : Alternative) (as : List Alternative) (v : GoString) :
    (checkRange (rangeSpec a as) v = none ↔
      ∃ n, parseInt (trimSpace v) = some n ∧ ∃ b ∈ a :: as, b.Contains n) ↔
    ∀ n, parseInt (trimSpace v) = some n →
      ((∃ b ∈ a :: as, b.Contains n) →
        ∃ b ∈ (a :: as).takeWhile Alternative.plain, b.Contains n ∨ b.Cut n) ∧
      ∀ b ∈ (a :: as).takeWhile Alternative.plain, b.Cut n → ∃ b ∈ a :: as, b.Contains n := by
  unfold checkRange
  cases hv : parseInt (trimSpace v) with
  | none => simp
  | some n =>
    obtain ⟨h₁,h₂⟩ : minInt ≤ n ∧ n ≤ maxInt := by
      unfold parseInt atoi at hv
      split at hv
      · split at hv
        · rename_i hfits
          cases hv
          exact hfits
        · cases hv
      · cases hv
    dsimp only
    rw [splitAt_rangeSpec,rangeLoop_none_iff h₁ h₂]
    simp only [Option.some.injEq,exists_eq_left',forall_eq']
    constructor
    · exact fun h => ⟨h.mpr,fun b hb hcut => h.mp ⟨b,hb,.inr hcut⟩⟩
    rintro ⟨hin,hcut⟩
    refine ⟨?_,hin⟩
    rintro ⟨b,hb,hc | hc⟩
    · exact ⟨b,List.takeWhile_subset _ hb,hc⟩
    · exact hcut b hb hc

namespace Sample

/-- The range of LINGER in the tree of EMAIL2. -/
def linger : Alternative where
  lo := { negative := true, parens := true, digits := "1", valid := by decide +kernel }
  hi := some { digits := "2147483647", valid := by decide +kernel }

end Sample

/-- No value is taken where the least one is written in parentheses. -/
theorem checkRange_parens : rangeSpec Sample.linger [] = utf8 "[(-1)-2147483647]" ∧
    Sample.linger.Contains 15 ∧ parseInt (trimSpace "15") = some 15 ∧
    checkRange (rangeSpec Sample.linger []) "15" ≠ none := by
  refine ⟨by decide +kernel,⟨by decide +kernel,by decide +kernel⟩,by decide +kernel,by decide +kernel⟩

end MicrosoftDM.Validation
