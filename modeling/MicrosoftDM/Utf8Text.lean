import MicrosoftDM.GoText

set_option autoImplicit false

namespace MicrosoftDM

/-- A Unicode scalar value: a code point that is not a surrogate. -/
def IsScalar (r : Nat) : Prop := r < 0xD800 ∨ (0xE000 ≤ r ∧ r ≤ 0x10FFFF)

instance (r : Nat) : Decidable (IsScalar r) :=
  inferInstanceAs (Decidable (r < 0xD800 ∨ (0xE000 ≤ r ∧ r ≤ 0x10FFFF)))

def tailByte (n : Nat) : UInt8 := (0x80+n%64).toUInt8

/-- `utf8.AppendRune` of a scalar value. -/
def encodeRune (r : Nat) : GoString :=
  if r < 0x80 then [r.toUInt8]
  else if r < 0x800 then [(0xC0+r/64).toUInt8,tailByte r]
  else if r < 0x10000 then [(0xE0+r/4096).toUInt8,tailByte (r/64),tailByte r]
  else [(0xF0+r/262144).toUInt8,tailByte (r/4096),tailByte (r/64),tailByte r]

def encodeRunes (rs : List Nat) : GoString := rs.flatMap encodeRune

def validString (s : GoString) : Bool :=
  (runes s).all fun r => !(r.1 == runeError && r.2.length == 1)

variable {n r : Nat} {b c d : UInt8} {s : GoString} {rs : List Nat}

theorem toNat_toUInt8 (h : n < 256) : n.toUInt8.toNat = n := by
  simp only [Nat.toUInt8,UInt8.toNat_ofNat']
  omega

theorem toUInt8_toNat (b : UInt8) : b.toNat.toUInt8 = b :=
  UInt8.toNat_inj.mp (toNat_toUInt8 b.toNat_lt)

theorem toNat_tailByte (n : Nat) : (tailByte n).toNat = 0x80+n%64 := toNat_toUInt8 (by omega)

theorem continuation_iff : continuation b = true ↔ 0x80 ≤ b.toNat ∧ b.toNat ≤ 0xBF := by
  simp [continuation,inRange]

@[simp]
theorem continuation_tailByte (n : Nat) : continuation (tailByte n) = true := by
  rw [continuation_iff,toNat_tailByte]
  omega

theorem inRange_iff {lo hi : Nat} :
    inRange lo hi b = true ↔ lo ≤ b.toNat ∧ b.toNat ≤ hi := by
  simp [inRange]

/-- The first byte of a rune is no continuation byte, the others are. -/
theorem encodeRune_shape (h : IsScalar r) :
    ∃ b tail, encodeRune r = b :: tail ∧ continuation b = false ∧
      (∀ c ∈ tail, continuation c = true) ∧ tail.length ≤ 3 := by
  have hlead : ∀ n, n < 0x80 ∨ (0xC0 ≤ n ∧ n < 256) → continuation n.toUInt8 = false := by
    intro n hn
    rw [← Bool.not_eq_true,continuation_iff,toNat_toUInt8 (by omega)]
    omega
  unfold IsScalar at h
  unfold encodeRune
  split
  · exact ⟨_,_,rfl,hlead _ (by omega),by simp,by simp⟩
  split
  · exact ⟨_,_,rfl,hlead _ (by omega),by simp,by simp⟩
  split
  · exact ⟨_,_,rfl,hlead _ (by omega),by simp,by simp⟩
  · exact ⟨_,_,rfl,hlead _ (by omega),by simp,by simp⟩

theorem encodeRune_ne_nil (r : Nat) : encodeRune r ≠ [] := by
  unfold encodeRune
  split
  · simp
  split
  · simp
  split
  · simp
  · simp

theorem inRange_second {x y : UInt8} {lo hi n : Nat} (hlo : b.toNat = x.toNat → lo ≤ 0x80+n%64)
    (hhi : b.toNat = y.toNat → 0x80+n%64 ≤ hi) :
    inRange (if b = x then lo else 0x80) (if b = y then hi else 0xBF) (tailByte n) = true := by
  rw [inRange_iff,toNat_tailByte]
  simp only [← UInt8.toNat_inj]
  split <;> split <;> omega

theorem decodeRune_encodeRune (h : IsScalar r) (rest : GoString) :
    decodeRune (encodeRune r ++ rest) = (r,(encodeRune r).length) := by
  unfold IsScalar at h
  unfold encodeRune
  split
  · rename_i h₁
    simp [decodeRune,toNat_toUInt8 (show r < 256 by omega),h₁]
  split
  · have hb := toNat_toUInt8 (show 0xC0+r/64 < 256 by omega)
    have hr : inRange 0xC2 0xDF (0xC0+r/64).toUInt8 = true := by
      rw [inRange_iff,hb]
      omega
    simp only [List.cons_append,List.nil_append,decodeRune,hb,hr,continuation_tailByte,if_true,
      toNat_tailByte,List.length_cons,List.length_nil]
    rw [if_neg (by omega)]
    simp only [Prod.mk.injEq,and_true]
    omega
  · split
    · have hb := toNat_toUInt8 (show 0xE0+r/4096 < 256 by omega)
      have h₂ : inRange 0xC2 0xDF (0xE0+r/4096).toUInt8 = false := by
        rw [← Bool.not_eq_true,inRange_iff,hb]
        omega
      have h₃ : inRange 0xE0 0xEF (0xE0+r/4096).toUInt8 = true := by
        rw [inRange_iff,hb]
        omega
      have hsecond : inRange (if (0xE0+r/4096).toUInt8 = 0xE0 then 0xA0 else 0x80)
          (if (0xE0+r/4096).toUInt8 = 0xED then 0x9F else 0xBF) (tailByte (r/64)) = true := by
        apply inRange_second <;> simp only [hb,UInt8.reduceToNat] <;> omega
      simp only [List.cons_append,List.nil_append,decodeRune,hb,h₂,h₃,hsecond,
        continuation_tailByte,Bool.and_self,if_true,toNat_tailByte,List.length_cons,
        List.length_nil,Bool.false_eq_true,if_false]
      rw [if_neg (by omega)]
      simp only [Prod.mk.injEq,and_true]
      omega
    · have hb := toNat_toUInt8 (show 0xF0+r/262144 < 256 by omega)
      have h₂ : inRange 0xC2 0xDF (0xF0+r/262144).toUInt8 = false := by
        rw [← Bool.not_eq_true,inRange_iff,hb]
        omega
      have h₃ : inRange 0xE0 0xEF (0xF0+r/262144).toUInt8 = false := by
        rw [← Bool.not_eq_true,inRange_iff,hb]
        omega
      have h₄ : inRange 0xF0 0xF4 (0xF0+r/262144).toUInt8 = true := by
        rw [inRange_iff,hb]
        omega
      have hsecond : inRange (if (0xF0+r/262144).toUInt8 = 0xF0 then 0x90 else 0x80)
          (if (0xF0+r/262144).toUInt8 = 0xF4 then 0x8F else 0xBF) (tailByte (r/4096)) = true := by
        apply inRange_second <;> simp only [hb,UInt8.reduceToNat] <;> omega
      simp only [List.cons_append,List.nil_append,decodeRune,hb,h₂,h₃,h₄,hsecond,
        continuation_tailByte,Bool.and_self,if_true,toNat_tailByte,List.length_cons,
        List.length_nil,Bool.false_eq_true,if_false]
      rw [if_neg (by omega)]
      simp only [Prod.mk.injEq,and_true]
      omega

theorem tailByte_eq (h : 0x80+n%64 = b.toNat) : tailByte n = b :=
  UInt8.toNat_inj.mp ((toNat_tailByte n).trans h)

theorem toUInt8_eq_byte (h : n = b.toNat) : n.toUInt8 = b := by
  rw [h,toUInt8_toNat]

theorem encodeRune_two (hb : inRange 0xC2 0xDF b = true)
    (hc : continuation c = true) : IsScalar ((b.toNat-0xC0)*64+(c.toNat-0x80)) ∧
      encodeRune ((b.toNat-0xC0)*64+(c.toNat-0x80)) = [b,c] := by
  rw [inRange_iff] at hb
  rw [continuation_iff] at hc
  refine ⟨.inl (by omega),?_⟩
  rw [encodeRune,if_neg (by omega),if_pos (by omega),toUInt8_eq_byte (show _ = b.toNat by omega),
    tailByte_eq (show _ = c.toNat by omega)]

theorem second_bounds {x y : UInt8} {lo hi : Nat} (hlo : 0x80 ≤ lo) (hhi : hi ≤ 0xBF)
    (h : inRange (if b = x then lo else 0x80) (if b = y then hi else 0xBF) c = true) :
    (b.toNat = x.toNat → lo ≤ c.toNat) ∧ (b.toNat = y.toNat → c.toNat ≤ hi) ∧
      0x80 ≤ c.toNat ∧ c.toNat ≤ 0xBF := by
  rw [inRange_iff] at h
  simp only [← UInt8.toNat_inj] at h
  refine ⟨fun hx => by simpa [hx] using h.1,fun hy => by simpa [hy] using h.2,?_,?_⟩
  · exact Nat.le_trans (by split <;> omega) h.1
  · exact Nat.le_trans h.2 (by split <;> omega)

theorem encodeRune_three (hb : inRange 0xE0 0xEF b = true)
    (hc : inRange (if b = 0xE0 then 0xA0 else 0x80) (if b = 0xED then 0x9F else 0xBF) c = true)
    (hd : continuation d = true) :
    IsScalar ((b.toNat-0xE0)*4096+(c.toNat-0x80)*64+(d.toNat-0x80)) ∧
      encodeRune ((b.toNat-0xE0)*4096+(c.toNat-0x80)*64+(d.toNat-0x80)) = [b,c,d] := by
  obtain ⟨hlo,hhi,hlo',hhi'⟩ := second_bounds (by decide) (by decide) hc
  rw [inRange_iff] at hb
  rw [continuation_iff] at hd
  simp at hlo hhi
  refine ⟨by unfold IsScalar; omega,?_⟩
  rw [encodeRune,if_neg (by omega),if_neg (by omega),if_pos (by omega),
    toUInt8_eq_byte (show _ = b.toNat by omega),tailByte_eq (show _ = c.toNat by omega),
    tailByte_eq (show _ = d.toNat by omega)]

theorem encodeRune_four {e : UInt8} (hb : inRange 0xF0 0xF4 b = true)
    (hc : inRange (if b = 0xF0 then 0x90 else 0x80) (if b = 0xF4 then 0x8F else 0xBF) c = true)
    (hd : continuation d = true) (he : continuation e = true) :
    IsScalar ((b.toNat-0xF0)*262144+(c.toNat-0x80)*4096+(d.toNat-0x80)*64+(e.toNat-0x80)) ∧
      encodeRune ((b.toNat-0xF0)*262144+(c.toNat-0x80)*4096+(d.toNat-0x80)*64+(e.toNat-0x80)) =
        [b,c,d,e] := by
  obtain ⟨hlo,hhi,hlo',hhi'⟩ := second_bounds (by decide) (by decide) hc
  rw [inRange_iff] at hb
  rw [continuation_iff] at hd he
  simp at hlo hhi
  refine ⟨by unfold IsScalar; omega,?_⟩
  rw [encodeRune,if_neg (by omega),if_neg (by omega),if_neg (by omega),
    toUInt8_eq_byte (show _ = b.toNat by omega),tailByte_eq (show _ = c.toNat by omega),
    tailByte_eq (show _ = d.toNat by omega),tailByte_eq (show _ = e.toNat by omega)]

/-- A string starts with the bytes of a rune, or its first byte is broken. -/
theorem decodeRune_cases (b : UInt8) (rest : GoString) :
    (∃ r tail, IsScalar r ∧ b :: rest = encodeRune r ++ tail) ∨
      decodeRune (b :: rest) = (runeError,1) := by
  simp only [decodeRune]
  split
  · rename_i hb
    refine .inl ⟨b.toNat,rest,.inl (by omega),?_⟩
    rw [encodeRune,if_pos hb,toUInt8_toNat]
    rfl
  split
  · rename_i hb
    cases rest with
    | nil => exact .inr rfl
    | cons c rest =>
      dsimp only
      split
      · rename_i hc
        obtain ⟨hs,he⟩ := encodeRune_two hb hc
        exact .inl ⟨_,rest,hs,by rw [he]; rfl⟩
      · exact .inr rfl
  · split
    · rename_i hb
      match rest with
      | [] => exact .inr rfl
      | [_] => exact .inr rfl
      | c :: d :: rest =>
        by_cases h : (inRange (if b = 0xE0 then 0xA0 else 0x80) (if b = 0xED then 0x9F else 0xBF) c &&
            continuation d) = true
        · obtain ⟨hc,hd⟩ := Bool.and_eq_true_iff.mp h
          obtain ⟨hs,he⟩ := encodeRune_three hb hc hd
          exact .inl ⟨_,rest,hs,by rw [he]; rfl⟩
        · exact .inr (if_neg h)
    · split
      · rename_i hb
        match rest with
        | [] => exact .inr rfl
        | [_] => exact .inr rfl
        | [_,_] => exact .inr rfl
        | c :: d :: e :: rest =>
          by_cases h : (inRange (if b = 0xF0 then 0x90 else 0x80) (if b = 0xF4 then 0x8F else 0xBF) c &&
              continuation d && continuation e) = true
          · obtain ⟨h,he⟩ := Bool.and_eq_true_iff.mp h
            obtain ⟨hc,hd⟩ := Bool.and_eq_true_iff.mp h
            obtain ⟨hs,heq⟩ := encodeRune_four hb hc hd he
            exact .inl ⟨_,rest,hs,by rw [heq]; rfl⟩
          · exact .inr (if_neg h)
      · exact .inr rfl

theorem decodeRune_width_pos (b : UInt8) (rest : GoString) : 0 < (decodeRune (b :: rest)).2 := by
  rcases decodeRune_cases b rest with ⟨r,tail,hr,he⟩ | he
  · rw [he,decodeRune_encodeRune hr]
    exact List.length_pos_iff.mpr (encodeRune_ne_nil r)
  · rw [he]
    exact Nat.one_pos

theorem length_drop_rune (b : UInt8) (rest : GoString) :
    ((b :: rest).drop (decodeRune (b :: rest)).2).length ≤ rest.length := by
  have hw := decodeRune_width_pos b rest
  rw [List.length_drop,List.length_cons]
  omega

theorem runesFuel_eq {f g : Nat} (hf : s.length ≤ f) (hg : s.length ≤ g) :
    runesFuel f s = runesFuel g s := by
  induction f generalizing g s with
  | zero =>
    rw [List.length_eq_zero_iff.mp (Nat.le_zero.mp hf)]
    cases g <;> rfl
  | succ f ih =>
    cases s with
    | nil => cases g <;> rfl
    | cons b rest =>
      cases g with
      | zero => simp at hg
      | succ g =>
        have hl := length_drop_rune b rest
        simp only [List.length_cons] at hf hg
        simp only [runesFuel]
        rw [ih (show _ ≤ f by omega) (show _ ≤ g by omega)]

theorem runes_cons (b : UInt8) (rest : GoString) :
    runes (b :: rest) = ((decodeRune (b :: rest)).1,(b :: rest).take (decodeRune (b :: rest)).2) ::
      runes ((b :: rest).drop (decodeRune (b :: rest)).2) := by
  unfold runes
  rw [runesFuel_eq (Nat.le_refl (List.length (List.drop _ _))) (length_drop_rune b rest)]
  rfl

theorem runes_encodeRune_append (h : IsScalar r) (rest : GoString) :
    runes (encodeRune r ++ rest) = (r,encodeRune r) :: runes rest := by
  cases hs : encodeRune r ++ rest with
  | nil => exact absurd (List.append_eq_nil_iff.mp hs).1 (encodeRune_ne_nil r)
  | cons b tail => rw [runes_cons,← hs,decodeRune_encodeRune h,List.take_left,List.drop_left]

theorem runes_encodeRunes (h : ∀ r ∈ rs, IsScalar r) :
    runes (encodeRunes rs) = rs.map fun r => (r,encodeRune r) := by
  induction rs with
  | nil => rfl
  | cons r rs ih =>
    simp only [encodeRunes,List.flatMap_cons,List.map_cons] at ih ⊢
    rw [runes_encodeRune_append (h r List.mem_cons_self),
      ih fun x hx => h x (List.mem_cons_of_mem r hx)]

theorem length_encodeRune_error : (encodeRune runeError).length = 3 := by decide

theorem validString_encodeRunes (h : ∀ r ∈ rs, IsScalar r) :
    validString (encodeRunes rs) = true := by
  rw [validString,runes_encodeRunes h,List.all_eq_true]
  intro p hp
  obtain ⟨r,hr,rfl⟩ := List.mem_map.mp hp
  by_cases he : r = runeError
  · subst he
    rw [length_encodeRune_error]
    rfl
  · simp [he]

theorem exists_runes_of_validString (h : validString s = true) :
    ∃ rs, (∀ r ∈ rs, IsScalar r) ∧ s = encodeRunes rs := by
  induction hn : s.length using Nat.strongRecOn generalizing s with
  | ind n ih =>
    cases s with
    | nil => exact ⟨[],by simp,rfl⟩
    | cons b rest =>
      rcases decodeRune_cases b rest with ⟨r,tail,hr,he⟩ | he
      · have hpos := List.length_pos_iff.mpr (encodeRune_ne_nil r)
        rw [he] at h hn
        rw [validString,runes_encodeRune_append hr,List.all_cons,Bool.and_eq_true] at h
        rw [List.length_append] at hn
        obtain ⟨rs,hrs,htail⟩ := ih tail.length (by omega) h.2 rfl
        refine ⟨r :: rs,List.forall_mem_cons.mpr ⟨hr,hrs⟩,?_⟩
        rw [he,htail]
        rfl
      · rw [validString,runes_cons,he] at h
        simp at h

@[simp]
theorem encodeRunes_append (rs ts : List Nat) :
    encodeRunes (rs ++ ts) = encodeRunes rs ++ encodeRunes ts := List.flatMap_append

theorem encodeRunes_eq_nil : encodeRunes rs = [] ↔ rs = [] := by
  constructor
  · intro h
    cases rs with
    | nil => rfl
    | cons r rs => exact absurd (List.append_eq_nil_iff.mp h).1 (encodeRune_ne_nil r)
  · rintro rfl
    rfl

theorem encodeRunes_cut (h : ∀ r ∈ rs, IsScalar r) {i : Nat}
    (hi : i < (encodeRunes rs).length) (hb : continuation ((encodeRunes rs).getD i 0) = false) :
    ∃ front back, rs = front ++ back ∧ (encodeRunes front).length = i := by
  induction rs generalizing i with
  | nil => simp [encodeRunes] at hi
  | cons r rs ih =>
    obtain ⟨hr,hrs⟩ := List.forall_mem_cons.mp h
    have hcons : encodeRunes (r :: rs) = encodeRune r ++ encodeRunes rs := rfl
    rw [hcons,List.getD_eq_getElem?_getD] at hb
    rw [hcons,List.length_append] at hi
    by_cases hlt : i < (encodeRune r).length
    · obtain ⟨b,tail,he,-,htail,-⟩ := encodeRune_shape hr
      rw [he] at hlt hb
      cases i with
      | zero => exact ⟨[],r :: rs,rfl,rfl⟩
      | succ i =>
        have hlt' : i < tail.length := Nat.lt_of_succ_lt_succ hlt
        rw [List.getElem?_append_left hlt,List.getElem?_cons_succ,List.getElem?_eq_getElem hlt',
          Option.getD_some,htail _ (List.getElem_mem hlt')] at hb
        cases hb
    · rw [List.getElem?_append_right (by omega),← List.getD_eq_getElem?_getD] at hb
      obtain ⟨front,back,rfl,hl⟩ := ih hrs (by omega) hb
      refine ⟨r :: front,back,rfl,?_⟩
      show (encodeRune r ++ encodeRunes front).length = i
      rw [List.length_append,hl]
      omega

end MicrosoftDM
