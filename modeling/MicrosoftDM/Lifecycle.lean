import Mathlib.Data.List.Basic

set_option autoImplicit false

namespace Lifecycle

section History
variable {σ ο κ ε : Type} (step : σ → ο → σ) (get : σ → κ → Option ε)

def Allowed (ok : σ → ο → Prop) : σ → List ο → Prop
  | _, [] => True
  | s, o :: ops => ok s o ∧ Allowed ok (step s o) ops

instance decidableAllowed (ok : σ → ο → Prop) [∀ s o, Decidable (ok s o)] :
    (s : σ) → (ops : List ο) → Decidable (Allowed step ok s ops)
  | _, [] => .isTrue trivial
  | s, o :: ops => @instDecidableAnd _ _ _ (decidableAllowed ok (step s o) ops)

theorem allowed_append {ok : σ → ο → Prop} {s : σ} {xs ys : List ο} :
    Allowed step ok s (xs ++ ys) ↔ Allowed step ok s xs ∧ Allowed step ok (xs.foldl step s) ys := by
  induction xs generalizing s with
  | nil => exact ⟨fun h => ⟨trivial,h⟩,fun h => h.2⟩
  | cons x xs ih =>
    refine ⟨fun ⟨hx,h⟩ => ?_,fun ⟨⟨hx,hxs⟩,hys⟩ => ⟨hx,ih.mpr ⟨hxs,hys⟩⟩⟩
    obtain ⟨hxs,hys⟩ := ih.mp h
    exact ⟨⟨hx,hxs⟩,hys⟩

/-- One of the operations, of the kind `removes`, takes away the record `e`
that `k` has had until then. -/
def Removed (removes : ο → Prop) (s : σ) (ops : List ο) (k : κ) (e : ε) : Prop :=
  ∃ pre o post, ops = pre ++ o :: post ∧ removes o ∧
    get (pre.foldl step s) k = some e ∧ get (step (pre.foldl step s) o) k = none

theorem kept_or_removed {ok : σ → ο → Prop} {removes : ο → Prop} {final : ε → Prop}
    (hstep : ∀ s o k e, ok s o → get s k = some e → final e →
      get (step s o) k = some e ∨ removes o ∧ get (step s o) k = none)
    {s : σ} {ops : List ο} (hok : Allowed step ok s ops) {k : κ} {e : ε} (h : get s k = some e)
    (he : final e) :
    get (ops.foldl step s) k = some e ∨ Removed step get removes s ops k e := by
  induction ops generalizing s with
  | nil => exact .inl h
  | cons o ops ih =>
    rcases hstep s o k e hok.1 h he with hs | ⟨hr,hn⟩
    · refine (ih hok.2 hs).imp_right ?_
      rintro ⟨pre,x,post,hops,hx,hpre,hgone⟩
      exact ⟨o :: pre,x,post,by rw [hops]; rfl,hx,hpre,hgone⟩
    · exact .inr ⟨[],o,ops,rfl,hr,h,hn⟩

end History

section Rows
variable {ρ : Type} {p : ρ → Bool}

theorem find?_map_of_keeps {f : ρ → ρ} (hf : ∀ r, p (f r) = p r) (rows : List ρ) :
    (rows.map f).find? p = (rows.find? p).map f := by
  rw [List.find?_map]
  exact congrArg (fun q => (rows.find? q).map f) (funext hf)

theorem map_kept {ε : Type} {f : ρ → ε} {P : Prop} {x : Option ρ} {r : ρ} (h : x = some r ∨ P ∧ x = none) :
    x.map f = some (f r) ∨ P ∧ x.map f = none :=
  h.imp (fun h => by rw [h]; rfl) (And.imp_right fun h => by rw [h]; rfl)

theorem find?_sublist_cases {rows rows' : List ρ} {r : ρ} (hsub : rows'.Sublist rows)
    (hone : ∀ x ∈ rows, p x = true → x = r) :
    rows'.find? p = some r ∨ rows'.find? p = none := by
  cases h : rows'.find? p with
  | none => exact .inr rfl
  | some x => exact .inl (congrArg some (hone x (hsub.subset (List.mem_of_find?_eq_some h))
      (List.find?_some h)))

end Rows

end Lifecycle
