import MicrosoftDM.Authentication

set_option autoImplicit false

namespace MicrosoftDM

def visible (b : UInt8) : Bool := 33 ≤ b.toNat && b.toNat ≤ 126

variable {b : UInt8} {s : GoString} {n : Nat}

theorem decodeRune_visible (h : visible b = true) (rest : GoString) :
    decodeRune (b :: rest) = (b.toNat,1) := by
  have hb : b.toNat < 0x80 := by
    simp only [visible,Bool.and_eq_true,decide_eq_true_eq] at h
    omega
  simp [decodeRune,hb]

theorem runesFuel_visible (h : ∀ b ∈ s, visible b = true) {fuel : Nat}
    (hf : s.length ≤ fuel) : runesFuel fuel s = s.map fun b => (b.toNat,[b]) := by
  induction s generalizing fuel with
  | nil =>
    cases fuel with
    | zero | succ _ => rfl
  | cons b rest ih =>
    cases fuel with
    | zero => simp at hf
    | succ fuel =>
      have hb := decodeRune_visible (h b List.mem_cons_self) rest
      have hrest : runesFuel fuel rest = rest.map fun b => (b.toNat,[b]) :=
        ih (fun x hx => h x (List.mem_cons_of_mem b hx)) (by simpa using hf)
      simp [runesFuel,hb,hrest]

theorem not_isSpace_visible (h : visible b = true) : isSpace b.toNat = false := by
  simp only [visible,Bool.and_eq_true,decide_eq_true_eq] at h
  simp only [isSpace,Bool.or_eq_false_iff,Bool.and_eq_false_iff,decide_eq_false_iff_not,
    beq_eq_false_iff_ne]
  omega

theorem dropWhile_of_none {α : Type} {p : α → Bool} {xs : List α} (h : ∀ x ∈ xs, p x = false) :
    xs.dropWhile p = xs := by
  cases xs with
  | nil => rfl
  | cons x xs => simp [h x List.mem_cons_self]

theorem trimSpace_visible (h : ∀ b ∈ s, visible b = true) : trimSpace s = s := by
  have hspace : ∀ r ∈ s.map fun b => (b.toNat,[b]), isSpace r.1 = false := by
    intro r hr
    obtain ⟨b,hb,rfl⟩ := List.mem_map.mp hr
    exact not_isSpace_visible (h b hb)
  unfold trimSpace runes
  rw [runesFuel_visible h (le_refl _),dropWhile_of_none hspace]
  dsimp only
  rw [dropWhile_of_none (fun r hr => hspace r (List.mem_reverse.mp hr)),List.reverse_reverse,
    List.map_map]
  exact List.flatMap_singleton' s

namespace Mdm

theorem base64Value_char (h : n < 64) : base64Value (base64Char n) = some n := by
  have hall : ∀ n : Fin 64, base64Value (base64Char n) = some n.val := by decide +kernel
  exact hall ⟨n,h⟩

theorem base64Char_visible (n : Nat) : visible (base64Char n) = true := by
  by_cases h : n < 64
  · have hall : ∀ n : Fin 64, visible (base64Char n) = true := by decide +kernel
    exact hall ⟨n,h⟩
  have hchar : base64Char n = 47 := by
    unfold base64Char
    rw [if_neg (by omega),if_neg (by omega),if_neg (by omega),if_neg (by omega)]
  rw [hchar]
  rfl

theorem base64Char_ne_pad (h : n < 64) : base64Char n ≠ base64Pad := by
  have hall : ∀ n : Fin 64, base64Char n ≠ base64Pad := by decide +kernel
  exact hall ⟨n,h⟩

theorem base64Encode_visible (x : Bytes) : ∀ b ∈ base64Encode x, visible b = true := by
  have hpad : visible base64Pad = true := by decide
  induction x using base64Encode.induct with
  | case1 => intro b hb; cases hb
  | case2 _ | case3 _ _ => simp [base64Encode,base64Char_visible,hpad]
  | case4 a b c rest ih => simpa [base64Encode,base64Char_visible] using ih

theorem toUInt8_eq (h : n = b.toNat) : n.toUInt8 = b := by
  rw [h]
  exact UInt8.ofNat_toNat

theorem base64_group (a b c : UInt8) :
    (a.toNat/4*4+(a.toNat%4*16+b.toNat/16)/16).toUInt8 = a ∧
    ((a.toNat%4*16+b.toNat/16)%16*16+(b.toNat%16*4+c.toNat/64)/4).toUInt8 = b ∧
    ((b.toNat%16*4+c.toNat/64)%4*64+c.toNat%64).toUInt8 = c := by
  have ha := a.toNat_lt
  have hb := b.toNat_lt
  have hc := c.toNat_lt
  exact ⟨toUInt8_eq (by omega),toUInt8_eq (by omega),toUInt8_eq (by omega)⟩

theorem base64Quads_encode (x : Bytes) : base64Quads (base64Encode x) = some x := by
  induction x using base64Encode.induct with
  | case1 => rfl
  | case2 a =>
    have ha := a.toNat_lt
    have hbyte : (a.toNat/4*4+a.toNat%4*16/16).toUInt8 = a := toUInt8_eq (by omega)
    rw [base64Encode,base64Quads,base64Value_char (by omega),base64Value_char (by omega)]
    dsimp only
    rw [if_pos rfl,if_pos rfl,hbyte]
  | case3 a b =>
    have ha := a.toNat_lt
    have hb := b.toNat_lt
    have h₁ : (a.toNat/4*4+(a.toNat%4*16+b.toNat/16)/16).toUInt8 = a := toUInt8_eq (by omega)
    have h₂ : ((a.toNat%4*16+b.toNat/16)%16*16+b.toNat%16*4/4).toUInt8 = b := toUInt8_eq (by omega)
    have hpad := base64Char_ne_pad (show b.toNat%16*4 < 64 by omega)
    rw [base64Encode,base64Quads,base64Value_char (by omega),base64Value_char (by omega)]
    dsimp only
    rw [if_pos rfl,if_neg hpad,base64Value_char (by omega)]
    dsimp only
    rw [h₁,h₂]
  | case4 a b c rest ih =>
    have ha := a.toNat_lt
    have hb := b.toNat_lt
    have hc := c.toNat_lt
    obtain ⟨h₁,h₂,h₃⟩ := base64_group a b c
    have hpad := base64Char_ne_pad (show c.toNat%64 < 64 by omega)
    have v₁ := base64Value_char (show a.toNat/4 < 64 by omega)
    have v₂ := base64Value_char (show a.toNat%4*16+b.toNat/16 < 64 by omega)
    have v₃ := base64Value_char (show b.toNat%16*4+c.toNat/64 < 64 by omega)
    have v₄ := base64Value_char (show c.toNat%64 < 64 by omega)
    rw [base64Encode]
    cases hrest : base64Encode rest with
    | nil =>
      rw [hrest] at ih
      have hnil : rest = [] := (Option.some.inj ih).symm
      rw [base64Quads,v₁,v₂]
      dsimp only
      rw [if_neg hpad,v₃,v₄]
      dsimp only
      rw [h₁,h₂,h₃,hnil]
    | cons x xs =>
      rw [hrest] at ih
      rw [base64Quads,v₁,v₂,v₃,v₄,ih]
      · dsimp only
        rw [h₁,h₂,h₃]
      · intro h
        cases h

theorem base64Decode_encode (x : Bytes) : base64Decode (base64Encode x) = some x := by
  have hkeep : (base64Encode x).filter (fun b => b ≠ 10 ∧ b ≠ 13) = base64Encode x := by
    rw [List.filter_eq_self]
    intro b hb
    have hv := base64Encode_visible x b hb
    have h₁ : b ≠ 10 := by
      rintro rfl
      cases hv
    have h₂ : b ≠ 13 := by
      rintro rfl
      cases hv
    simp [h₁,h₂]
  rw [base64Decode,hkeep]
  exact base64Quads_encode x

end Mdm

end MicrosoftDM
