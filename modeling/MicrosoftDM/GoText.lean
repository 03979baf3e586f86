import Mathlib.Algebra.Group.Int.Defs
import Mathlib.Algebra.GroupWithZero.Nat
import Mathlib.Data.List.Basic
import Mathlib.Tactic.Common

/-!
Go strings and the parts of `strconv`, `strings` and `unicode/utf8` the
service uses. A Go string is a sequence of bytes, not of characters.
-/

set_option autoImplicit false

namespace MicrosoftDM

abbrev GoString := List UInt8

instance : LawfulBEq GoString := inferInstance

/-- The UTF-8 bytes of a literal. -/
def utf8 (s : String) : GoString := s.toByteArray.data.toList

instance : Coe String GoString := ⟨utf8⟩

def slash : UInt8 := 47

def isDigit (b : UInt8) : Bool := 48 ≤ b.toNat && b.toNat ≤ 57

def digitsLoop : Nat → Nat → GoString → GoString
  | 0, _, acc => acc
  | fuel+1, n, acc =>
    if n = 0 then acc else digitsLoop fuel (n/10) ((48+n%10).toUInt8 :: acc)

def digits (n : Nat) : GoString := if n = 0 then [48] else digitsLoop n n []

/-- `strconv.Itoa`, and the `itoa` of build.go. -/
def itoa : Int → GoString
  | .ofNat n => digits n
  | .negSucc n => 45 :: digits (n+1)

def parseDigits (s : GoString) : Nat := s.foldl (fun acc b => acc*10+(b.toNat-48)) 0

/-- The syntax `strconv.Atoi` accepts: an optional sign and decimal digits. -/
def parseDecimal : GoString → Option Int
  | [] => none
  | b :: rest =>
    if b = 45 then
      if rest ≠ [] ∧ rest.all isDigit then some (-(parseDigits rest : Int)) else none
    else if b = 43 then
      if rest ≠ [] ∧ rest.all isDigit then some (parseDigits rest) else none
    else if (b :: rest).all isDigit then some (parseDigits (b :: rest)) else none

def maxInt : Int := 2^63-1
def minInt : Int := -2^63

/-- `strconv.Atoi`; `none` is a syntax or a range error. -/
def atoi (s : GoString) : Option Int :=
  match parseDecimal s with
  | some n => if minInt ≤ n ∧ n ≤ maxInt then some n else none
  | none => none

/-- The value `strconv.Atoi` returns beside its error. -/
def atoiValue (s : GoString) : Int :=
  match parseDecimal s with
  | some n => max minInt (min n maxInt)
  | none => 0

theorem digitsLoop_append (fuel n : Nat) (acc : GoString) :
    digitsLoop fuel n acc = digitsLoop fuel n [] ++ acc := by
  induction fuel generalizing n acc with
  | zero => rfl
  | succ fuel ih =>
    simp only [digitsLoop]
    split
    · rfl
    · rw [ih,ih (n/10) [_],List.append_assoc]
      rfl

theorem digit_toNat (n : Nat) : ((48+n%10).toUInt8).toNat = 48+n%10 := by
  have h : n%10 < 10 := Nat.mod_lt _ (by omega)
  simp only [Nat.toUInt8,UInt8.toNat_ofNat']
  omega

theorem parseDigits_append_digit (s : GoString) (n : Nat) :
    parseDigits (s ++ [(48+n%10).toUInt8]) = parseDigits s*10+n%10 := by
  simp only [parseDigits,List.foldl_append,List.foldl_cons,List.foldl_nil,digit_toNat]
  omega

theorem parseDigits_digitsLoop (fuel n : Nat) (h : n ≤ fuel) :
    parseDigits (digitsLoop fuel n []) = n := by
  induction fuel generalizing n with
  | zero => have hn : n = 0 := by omega
            subst hn; rfl
  | succ fuel ih =>
    simp only [digitsLoop]
    split
    · rename_i hn
      subst hn; rfl
    · rw [digitsLoop_append,parseDigits_append_digit,ih (n/10) (by omega)]
      omega

theorem parseDigits_digits (n : Nat) : parseDigits (digits n) = n := by
  unfold digits
  split
  · rename_i hn
    subst hn; rfl
  · exact parseDigits_digitsLoop n n (Nat.le_refl n)

theorem isDigit_digit (n : Nat) : isDigit (48+n%10).toUInt8 = true := by
  have h : n%10 < 10 := Nat.mod_lt _ (by omega)
  simp only [isDigit,digit_toNat,Bool.and_eq_true,decide_eq_true_eq]
  omega

theorem digitsLoop_isDigit (fuel n : Nat) : (digitsLoop fuel n []).all isDigit = true := by
  induction fuel generalizing n with
  | zero => rfl
  | succ fuel ih =>
    simp only [digitsLoop]
    split
    · rfl
    · rw [digitsLoop_append]
      simp only [List.all_append,ih,List.all_cons,isDigit_digit,List.all_nil,Bool.and_self]

theorem digits_isDigit (n : Nat) : (digits n).all isDigit = true := by
  unfold digits
  split
  · rfl
  · exact digitsLoop_isDigit n n

theorem digits_ne_nil (n : Nat) : digits n ≠ [] := by
  unfold digits
  split
  · simp
  rename_i hn
  cases n with
  | zero => exact absurd rfl hn
  | succ n =>
    simp only [digitsLoop,hn,if_false]
    rw [digitsLoop_append]
    simp

variable {m : Nat} {i j n : Int} {a b : GoString}

theorem parseDecimal_digits (n : Nat) : parseDecimal (digits n) = some (n : Int) := by
  have hd := digits_isDigit n
  have hp := parseDigits_digits n
  cases hs : digits n with
  | nil => exact absurd hs (digits_ne_nil n)
  | cons b rest =>
    rw [hs] at hd hp
    have hb : isDigit b = true := by
      simp only [List.all_cons,Bool.and_eq_true] at hd
      exact hd.1
    have h45 : b ≠ 45 := by rintro rfl; exact absurd hb (by decide)
    have h43 : b ≠ 43 := by rintro rfl; exact absurd hb (by decide)
    simp only [parseDecimal,h45,h43,if_false,hd,if_true,hp]

theorem parseDecimal_itoa (n : Int) : parseDecimal (itoa n) = some n := by
  cases n with
  | ofNat n => exact parseDecimal_digits n
  | negSucc n =>
    simp only [itoa,parseDecimal,if_true,digits_isDigit,digits_ne_nil,ne_eq,not_false_eq_true,
      and_self,parseDigits_digits]
    rfl

theorem itoa_injective {m : Int} (h : itoa m = itoa n) : m = n := by
  have hm := parseDecimal_itoa m
  rw [h,parseDecimal_itoa] at hm
  exact (Option.some.inj hm).symm

theorem atoi_itoa (h₁ : minInt ≤ n) (h₂ : n ≤ maxInt) : atoi (itoa n) = some n := by
  simp [atoi,parseDecimal_itoa,h₁,h₂]

theorem atoiValue_itoa (h₁ : minInt ≤ n) (h₂ : n ≤ maxInt) : atoiValue (itoa n) = n := by
  simp only [atoiValue,parseDecimal_itoa]
  omega

theorem atoiValue_le_maxInt (s : GoString) : atoiValue s ≤ maxInt := by
  unfold atoiValue
  split
  · simp only [minInt,maxInt]; omega
  · decide

theorem itoa_ne_nil (n : Int) : itoa n ≠ [] := by
  cases n with
  | ofNat n => exact digits_ne_nil n
  | negSucc n => simp [itoa]

theorem slash_not_mem_digits (n : Nat) : slash ∉ digits n := by
  intro h
  have hd := List.all_eq_true.mp (digits_isDigit n) slash h
  exact absurd hd (by decide)

theorem slash_not_mem_itoa (n : Int) : slash ∉ itoa n := by
  cases n with
  | ofNat n => exact slash_not_mem_digits n
  | negSucc n =>
    intro h
    rcases List.mem_cons.mp h with h | h
    · exact absurd h (by decide)
    · exact slash_not_mem_digits _ h

def joinSlash (a b : GoString) : GoString := a ++ slash :: b

theorem joinSlash_inj {c d : GoString} (ha : slash ∉ a) (hc : slash ∉ c)
    (h : joinSlash a b = joinSlash c d) : a = c ∧ b = d := by
  induction a generalizing c with
  | nil =>
    cases c with
    | nil => simpa [joinSlash] using h
    | cons y ys =>
      simp only [joinSlash,List.nil_append,List.cons_append,List.cons.injEq] at h
      exact absurd (by simp [h.1]) hc
  | cons x xs ih =>
    cases c with
    | nil =>
      simp only [joinSlash,List.nil_append,List.cons_append,List.cons.injEq] at h
      exact absurd (by simp [← h.1]) ha
    | cons y ys =>
      simp only [joinSlash,List.cons_append,List.cons.injEq] at h
      obtain ⟨hxy,hrest⟩ := h
      have hh := ih (c := ys) (fun hm => ha (by simp [hm])) (fun hm => hc (by simp [hm])) hrest
      exact ⟨by rw [hxy,hh.1],hh.2⟩

/-- A key of two decimal numbers is joined in one way only. -/
theorem joinSlash_eq_itoa
    (h : joinSlash a b = joinSlash (itoa i) (itoa j)) : a = itoa i ∧ b = itoa j := by
  have hcount := congrArg (List.count slash) h
  simp only [joinSlash,List.count_append,List.count_cons_self,
    List.count_eq_zero_of_not_mem (slash_not_mem_itoa i),
    List.count_eq_zero_of_not_mem (slash_not_mem_itoa j)] at hcount
  have ha : slash ∉ a := List.count_eq_zero.mp (by omega)
  exact joinSlash_inj ha (slash_not_mem_itoa i) h

theorem joinSlash_itoa_inj
    (h : joinSlash a (itoa i) = joinSlash a (itoa j)) : i = j := by
  have h := List.append_cancel_left h
  exact itoa_injective (List.cons.inj h).2

/-- The rune error of `utf8.DecodeRune`, with width 1 for a broken sequence. -/
def runeError : Nat := 0xFFFD

def inRange (lo hi : Nat) (b : UInt8) : Bool := lo ≤ b.toNat && b.toNat ≤ hi

def continuation (b : UInt8) : Bool := inRange 0x80 0xBF b

def decodeRune : GoString → Nat × Nat
  | [] => (runeError,0)
  | b :: rest =>
    if b.toNat < 0x80 then (b.toNat,1)
    else if inRange 0xC2 0xDF b then
      match rest with
      | c :: _ => if continuation c then ((b.toNat-0xC0)*64+(c.toNat-0x80),2) else (runeError,1)
      | _ => (runeError,1)
    else if inRange 0xE0 0xEF b then
      match rest with
      | c :: d :: _ =>
        if inRange (if b = 0xE0 then 0xA0 else 0x80) (if b = 0xED then 0x9F else 0xBF) c &&
            continuation d then
          ((b.toNat-0xE0)*4096+(c.toNat-0x80)*64+(d.toNat-0x80),3)
        else (runeError,1)
      | _ => (runeError,1)
    else if inRange 0xF0 0xF4 b then
      match rest with
      | c :: d :: e :: _ =>
        if inRange (if b = 0xF0 then 0x90 else 0x80) (if b = 0xF4 then 0x8F else 0xBF) c &&
            continuation d && continuation e then
          ((b.toNat-0xF0)*262144+(c.toNat-0x80)*4096+(d.toNat-0x80)*64+(e.toNat-0x80),4)
        else (runeError,1)
      | _ => (runeError,1)
    else (runeError,1)

def runesFuel : Nat → GoString → List (Nat × GoString)
  | 0, _ => []
  | _+1, [] => []
  | fuel+1, s@(_ :: _) =>
    let (r,w) := decodeRune s
    (r,s.take w) :: runesFuel fuel (s.drop w)

def runes (s : GoString) : List (Nat × GoString) := runesFuel s.length s

def isSpace (r : Nat) : Bool :=
  (0x09 ≤ r && r ≤ 0x0D) || r == 0x20 || r == 0x85 || r == 0xA0 || r == 0x1680 ||
  (0x2000 ≤ r && r ≤ 0x200A) || r == 0x2028 || r == 0x2029 || r == 0x202F || r == 0x205F ||
  r == 0x3000

def trimSpace (s : GoString) : GoString :=
  let kept := (runes s).dropWhile (fun r => isSpace r.1)
  ((kept.reverse.dropWhile (fun r => isSpace r.1)).reverse.map Prod.snd).flatten

def lowerASCII (n : Nat) : Nat := if 65 ≤ n ∧ n ≤ 90 then n+32 else n

/-- Simple case folding of a rune against an ASCII byte. Beside the letters
themselves, U+017F folds to s and U+212A to k. -/
def foldsTo (r : Nat) (b : UInt8) : Bool :=
  lowerASCII r == lowerASCII b.toNat || (r == 0x17F && lowerASCII b.toNat == 115) ||
  (r == 0x212A && lowerASCII b.toNat == 107)

def equalFold (s ascii : GoString) : Bool :=
  let rs := (runes s).map Prod.fst
  rs.length == ascii.length && (rs.zip ascii).all (fun p => foldsTo p.1 p.2)

/-- `strings.Split` at one byte. -/
def splitAt (sep : UInt8) : GoString → List GoString
  | [] => [[]]
  | b :: rest =>
    if b = sep then [] :: splitAt sep rest
    else
      match splitAt sep rest with
      | [] => [[b]]
      | seg :: segs => (b :: seg) :: segs

theorem splitAt_ne_nil (sep : UInt8) (xs : GoString) : splitAt sep xs ≠ [] := by
  cases xs with
  | nil => simp [splitAt]
  | cons b rest =>
    simp only [splitAt]
    split
    · simp
    · split <;> simp

theorem splitAt_append (sep : UInt8) (xs ys : GoString) :
    splitAt sep (xs ++ sep :: ys) = splitAt sep xs ++ splitAt sep ys := by
  induction xs with
  | nil => simp [splitAt]
  | cons b rest ih =>
    simp only [List.cons_append,splitAt,ih]
    split
    · rfl
    cases hr : splitAt sep rest with
    | nil => exact absurd hr (splitAt_ne_nil sep rest)
    | cons seg segs => rfl

theorem splitAt_of_notMem {sep : UInt8} {xs : GoString} (h : sep ∉ xs) : splitAt sep xs = [xs] := by
  induction xs with
  | nil => rfl
  | cons b rest ih =>
    simp only [List.mem_cons,not_or] at h
    simp [splitAt,Ne.symm h.1,ih h.2]

end MicrosoftDM
