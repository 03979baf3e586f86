import MicrosoftDM.Utf8Text

set_option autoImplicit false

namespace MicrosoftDM

def codeUnits (bigEndian : Bool) : GoString → List Nat
  | a :: b :: rest =>
    (if bigEndian then a.toNat*256+b.toNat else b.toNat*256+a.toNat) :: codeUnits bigEndian rest
  | [_] => []
  | [] => []

def highSurrogate (u : Nat) : Bool := 0xD800 ≤ u && u < 0xDC00
def lowSurrogate (u : Nat) : Bool := 0xDC00 ≤ u && u < 0xE000

def loneUnit (u : Nat) : Nat := if highSurrogate u || lowSurrogate u then runeError else u

/-- `utf16.Decode`. -/
def decodeUnits : List Nat → List Nat
  | [] => []
  | [u] => [loneUnit u]
  | u :: v :: rest =>
    if highSurrogate u && lowSurrogate v then
      (0x10000+(u-0xD800)*1024+(v-0xDC00)) :: decodeUnits rest
    else loneUnit u :: decodeUnits (v :: rest)

def encodeUnits (r : Nat) : List Nat :=
  if r < 0x10000 then [r] else [0xD800+(r-0x10000)/1024,0xDC00+(r-0x10000)%1024]

def unitBytes (bigEndian : Bool) (u : Nat) : GoString :=
  if bigEndian then [(u/256).toUInt8,(u%256).toUInt8] else [(u%256).toUInt8,(u/256).toUInt8]

def encodeUTF16 (bigEndian : Bool) (rs : List Nat) : GoString :=
  (rs.flatMap encodeUnits).flatMap (unitBytes bigEndian)

variable {bigEndian : Bool} {rs us : List Nat} {r u : Nat}

theorem codeUnits_unitBytes (h : ∀ u ∈ us, u < 0x10000) :
    codeUnits bigEndian (us.flatMap (unitBytes bigEndian)) = us := by
  induction us with
  | nil => rfl
  | cons u us ih =>
    obtain ⟨hu,hus⟩ := List.forall_mem_cons.mp h
    have hhi : (u/256).toUInt8.toNat = u/256 := toNat_toUInt8 (by omega)
    have hlo : (u%256).toUInt8.toNat = u%256 := toNat_toUInt8 (by omega)
    cases bigEndian <;>
      simp only [List.flatMap_cons,unitBytes,Bool.false_eq_true,if_false,if_true,List.cons_append,
        List.nil_append,codeUnits,hhi,hlo,ih hus,List.cons.injEq,and_true] <;> omega

theorem loneUnit_of_scalar (h : IsScalar r) (hr : r < 0x10000) : loneUnit r = r := by
  unfold IsScalar at h
  have : (highSurrogate r || lowSurrogate r) = false := by
    simp only [highSurrogate,lowSurrogate,Bool.or_eq_false_iff,Bool.and_eq_false_iff,
      decide_eq_false_iff_not]
    omega
  rw [loneUnit,this]
  rfl

theorem decodeUnits_encodeUnits_append (h : IsScalar r) (us : List Nat) :
    decodeUnits (encodeUnits r ++ us) = r :: decodeUnits us := by
  by_cases hr : r < 0x10000
  · have hhigh : highSurrogate r = false := by
      unfold IsScalar at h
      simp only [highSurrogate,Bool.and_eq_false_iff,decide_eq_false_iff_not]
      omega
    rw [encodeUnits,if_pos hr]
    cases us with
    | nil => simp [decodeUnits,loneUnit_of_scalar h hr]
    | cons v us => simp [decodeUnits,hhigh,loneUnit_of_scalar h hr]
  · have hle : r ≤ 0x10FFFF := by
      unfold IsScalar at h
      omega
    have hhigh : highSurrogate (0xD800+(r-0x10000)/1024) = true := by
      simp only [highSurrogate,Bool.and_eq_true,decide_eq_true_eq]
      omega
    have hlow : lowSurrogate (0xDC00+(r-0x10000)%1024) = true := by
      simp only [lowSurrogate,Bool.and_eq_true,decide_eq_true_eq]
      omega
    rw [encodeUnits,if_neg hr]
    simp only [List.cons_append,List.nil_append,decodeUnits,hhigh,hlow,Bool.and_self,if_true,
      List.cons.injEq,and_true]
    omega

theorem decodeUnits_encodeUnits (h : ∀ r ∈ rs, IsScalar r) :
    decodeUnits (rs.flatMap encodeUnits) = rs := by
  induction rs with
  | nil => rfl
  | cons r rs ih =>
    obtain ⟨hr,hrs⟩ := List.forall_mem_cons.mp h
    rw [List.flatMap_cons,decodeUnits_encodeUnits_append hr,ih hrs]

theorem encodeUnits_lt (h : IsScalar r) (hu : u ∈ encodeUnits r) : u < 0x10000 := by
  unfold IsScalar at h
  unfold encodeUnits at hu
  split at hu
  · rw [List.mem_singleton] at hu
    omega
  · simp only [List.mem_cons,List.not_mem_nil,or_false] at hu
    omega

theorem decodeUnits_codeUnits (h : ∀ r ∈ rs, IsScalar r) :
    decodeUnits (codeUnits bigEndian (encodeUTF16 bigEndian rs)) = rs := by
  have hlt : ∀ u ∈ rs.flatMap encodeUnits, u < 0x10000 := by
    intro u hu
    obtain ⟨r,hr,hu⟩ := List.mem_flatMap.mp hu
    exact encodeUnits_lt (h r hr) hu
  rw [encodeUTF16,codeUnits_unitBytes hlt,decodeUnits_encodeUnits h]

theorem isScalar_loneUnit (h : u < 0x10000) : IsScalar (loneUnit u) := by
  unfold loneUnit
  split
  · decide
  rename_i hs
  simp only [highSurrogate,lowSurrogate,Bool.or_eq_true,Bool.and_eq_true,decide_eq_true_eq] at hs
  unfold IsScalar
  omega

theorem codeUnits_lt (bigEndian : Bool) (s : GoString) : ∀ u ∈ codeUnits bigEndian s, u < 0x10000 := by
  fun_induction codeUnits bigEndian s with
  | case1 a b rest ih =>
    have ha := a.toNat_lt
    have hb := b.toNat_lt
    refine List.forall_mem_cons.mpr ⟨?_,ih⟩
    split <;> omega
  | case2 => simp
  | case3 => simp

theorem length_codeUnits (bigEndian : Bool) (s : GoString) :
    2*(codeUnits bigEndian s).length ≤ s.length := by
  fun_induction codeUnits bigEndian s with
  | case1 a b rest ih =>
    simp only [List.length_cons]
    omega
  | case2 => simp
  | case3 => simp

theorem length_encodeRunes_decodeUnits (h : ∀ u ∈ us, u < 0x10000) :
    (encodeRunes (decodeUnits us)).length ≤ 3*us.length := by
  have hone : ∀ u, u < 0x10000 → (encodeRune (loneUnit u)).length ≤ 3 := by
    intro u hu
    have hr : loneUnit u < 0x10000 := by
      unfold loneUnit runeError
      split <;> omega
    unfold encodeRune
    split
    · simp
    split
    · simp
    · simp
  fun_induction decodeUnits us with
  | case1 => simp [encodeRunes]
  | case2 u => simpa [encodeRunes] using hone u (h u List.mem_cons_self)
  | case3 u v rest hp ih =>
    have := ih fun x hx => h x (by simp [hx])
    simp only [encodeRunes,List.flatMap_cons,List.length_append,List.length_cons] at this ⊢
    have hfour : ∀ r, (encodeRune r).length ≤ 4 := by
      intro r
      unfold encodeRune
      split
      · simp
      split
      · simp
      · split <;> simp
    have := hfour (0x10000+(u-0xD800)*1024+(v-0xDC00))
    omega
  | case4 u v rest hp ih =>
    have := ih fun x hx => h x (List.mem_cons_of_mem u hx)
    have := hone u (h u List.mem_cons_self)
    simp only [encodeRunes,List.flatMap_cons,List.length_append,List.length_cons] at *
    omega

theorem count_zero_encodeRune (h : IsScalar r) :
    (encodeRune r).count 0 = if r = 0 then 1 else 0 := by
  have hne : ∀ n, 0 < n → n < 256 → (n.toUInt8 == (0 : UInt8)) = false := by
    intro n hn hlt
    rw [beq_eq_false_iff_ne]
    intro he
    have := congrArg UInt8.toNat he
    rw [toNat_toUInt8 hlt] at this
    simp at this
    omega
  have htail : ∀ n, (tailByte n == (0 : UInt8)) = false := fun n => hne _ (by omega) (by omega)
  unfold IsScalar at h
  unfold encodeRune
  split
  · by_cases hr : r = 0
    · subst hr
      rfl
    · simp [List.count_cons,hne r (by omega) (by omega),hr]
  rw [if_neg (show ¬r = 0 by omega)]
  split
  · simp only [List.count_cons,htail,hne (0xC0+r/64) (by omega) (by omega)]
    rfl
  split
  · simp only [List.count_cons,htail,hne (0xE0+r/4096) (by omega) (by omega)]
    rfl
  · simp only [List.count_cons,htail,hne (0xF0+r/262144) (by omega) (by omega)]
    rfl

theorem loneUnit_eq_zero : loneUnit u = 0 ↔ u = 0 := by
  unfold loneUnit
  split
  · rename_i hs
    simp only [highSurrogate,lowSurrogate,Bool.or_eq_true,Bool.and_eq_true,decide_eq_true_eq] at hs
    simp only [runeError]
    omega
  · rfl

theorem count_zero_decodeUnits (h : ∀ u ∈ us, u < 0x10000) :
    (encodeRunes (decodeUnits us)).count 0 = us.count 0 := by
  have hone : ∀ u, u < 0x10000 → (encodeRune (loneUnit u)).count 0 = if u = 0 then 1 else 0 := by
    intro u hu
    rw [count_zero_encodeRune (isScalar_loneUnit hu)]
    simp only [loneUnit_eq_zero]
  fun_induction decodeUnits us with
  | case1 => simp [encodeRunes]
  | case2 u => simpa [encodeRunes,List.count_cons] using hone u (h u List.mem_cons_self)
  | case3 u v rest hp ih =>
    have := ih fun x hx => h x (by simp [hx])
    obtain ⟨hu,hv⟩ := Bool.and_eq_true_iff.mp hp
    simp only [highSurrogate,lowSurrogate,Bool.and_eq_true,decide_eq_true_eq] at hu hv
    simp only [encodeRunes,List.flatMap_cons,List.count_append,List.count_cons] at this ⊢
    rw [this,count_zero_encodeRune (by unfold IsScalar; omega),if_neg (by omega)]
    have hu0 : (u == 0) = false := by simp; omega
    have hv0 : (v == 0) = false := by simp; omega
    simp [hu0,hv0]
  | case4 u v rest hp ih =>
    have := ih fun x hx => h x (List.mem_cons_of_mem u hx)
    simp only [encodeRunes,List.flatMap_cons,List.count_append] at this ⊢
    have hcons : (u :: v :: rest).count 0 = (v :: rest).count 0+if u == 0 then 1 else 0 :=
      List.count_cons
    rw [this,hone u (h u List.mem_cons_self),hcons]
    simp [Nat.add_comm]

theorem count_zero_codeUnits (bigEndian : Bool) (s : GoString) :
    2*(codeUnits bigEndian s).count 0 ≤ s.count 0 := by
  fun_induction codeUnits bigEndian s with
  | case1 a b rest ih =>
    have ha : a.toNat = 0 → a = 0 := fun h => UInt8.toNat_inj.mp h
    have hb : b.toNat = 0 → b = 0 := fun h => UInt8.toNat_inj.mp h
    simp only [List.count_cons]
    by_cases hz : a.toNat = 0 ∧ b.toNat = 0
    · rw [ha hz.1,hb hz.2]
      simp
      omega
    have hn : ((if bigEndian = true then a.toNat*256+b.toNat else b.toNat*256+a.toNat) == 0) = false := by
      rw [beq_eq_false_iff_ne]
      split <;> omega
    rw [hn]
    simp only [Bool.false_eq_true,if_false]
    omega
  | case2 => simp
  | case3 => simp

end MicrosoftDM
