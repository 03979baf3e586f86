import Mathlib.Logic.Function.Basic
import MicrosoftDM.EffectProgram
import MicrosoftDM.Lifecycle

/-!
Programs that run at the same time over one state. One event calls the next operation of one
thread; the state answers it, or makes the thread wait. The programs follow a protocol, and an
invariant over the positions of all threads is shown for one operation at a time.
-/

set_option autoImplicit false

namespace Effect

structure Pool (Op : Type) (Ans : Op → Type) (ι σ α : Type) where
  state : σ
  code : ι → Program Op Ans α

/-- What the state does with an operation of a thread; `none` makes it wait.
The answer may also depend on a choice `φ` that is not the program's. -/
abbrev Gate (Op : Type) (Ans : Op → Type) (ι φ σ : Type) :=
  ι → φ → (op : Op) → σ → Option (Ans op × σ)

section Steps
variable {Op : Type} {Ans : Op → Type} {ι φ σ α : Type}

/-- The operation that the event would call is one that `ok` lets the thread call. -/
def Pool.Allows (ok : σ → ι → Op → Prop) (p : Pool Op Ans ι σ α) (e : ι × φ) : Prop :=
  match p.code e.1 with
  | .done _ => True
  | .call op _ => ok p.state e.1 op

instance (ok : σ → ι → Op → Prop) [∀ s i op, Decidable (ok s i op)] (p : Pool Op Ans ι σ α)
    (e : ι × φ) : Decidable (p.Allows ok e) :=
  match hc : p.code e.1 with
  | .done _ => .isTrue (by rw [Pool.Allows,hc]; trivial)
  | .call op _ => decidable_of_iff (ok p.state e.1 op) (by rw [Pool.Allows,hc])

theorem Pool.Allows.call {ok : σ → ι → Op → Prop} {p : Pool Op Ans ι σ α} {e : ι × φ} {op : Op}
    {k : Ans op → Program Op Ans α} (h : p.Allows ok e) (hc : p.code e.1 = .call op k) :
    ok p.state e.1 op := by
  unfold Allows at h
  rwa [hc] at h

def Pool.Running (p : Pool Op Ans ι σ α) (i : ι) : Prop :=
  match p.code i with
  | .done _ => False
  | .call _ _ => True

instance (p : Pool Op Ans ι σ α) : DecidablePred p.Running := fun i =>
  match hc : p.code i with
  | .done _ => .isFalse (by rw [Pool.Running,hc]; exact id)
  | .call _ _ => .isTrue (by rw [Pool.Running,hc]; trivial)

theorem Pool.running_of_call {p : Pool Op Ans ι σ α} {i : ι} {op : Op} {k : Ans op → Program Op Ans α}
    (hc : p.code i = .call op k) : p.Running i := by
  rw [Running,hc]
  trivial

variable [DecidableEq ι]

def Pool.step (h : Gate Op Ans ι φ σ) (p : Pool Op Ans ι σ α) (e : ι × φ) : Pool Op Ans ι σ α :=
  match p.code e.1 with
  | .done _ => p
  | .call op k =>
    match h e.1 e.2 op p.state with
    | none => p
    | some (ans,s) => ⟨s,Function.update p.code e.1 (k ans)⟩

theorem Pool.running_update {p : Pool Op Ans ι σ α} {i j : ι} {op : Op}
    {k : Ans op → Program Op Ans α} {s : σ} {c : Program Op Ans α} (hc : p.code i = .call op k)
    (h : (Pool.mk s (Function.update p.code i c)).Running j) : p.Running j := by
  by_cases hj : j = i
  · subst hj
    exact running_of_call hc
  unfold Running at h ⊢
  rwa [show (Pool.mk s (Function.update p.code i c)).code j = p.code j from
    Function.update_of_ne hj _ _] at h

theorem Pool.step_cases (h : Gate Op Ans ι φ σ) (p : Pool Op Ans ι σ α) (e : ι × φ) :
    p.step h e = p ∨
    ∃ op k ans s, p.code e.1 = .call op k ∧ h e.1 e.2 op p.state = some (ans,s) ∧
      p.step h e = ⟨s,Function.update p.code e.1 (k ans)⟩ := by
  unfold step
  cases hc : p.code e.1 with
  | done a => exact .inl rfl
  | call op k =>
    dsimp only
    cases ho : h e.1 e.2 op p.state with
    | none => exact .inl rfl
    | some r => exact .inr ⟨op,k,r.1,r.2,rfl,ho,rfl⟩

end Steps

section Families
variable {ι γ δ : Type} [DecidableEq ι] {P : ι → γ → δ → Prop} {s : ι → γ} {t : ι → δ} {i : ι} {x : γ} {y : δ}

theorem forall_update (hi : P i x y) (h : ∀ j, j ≠ i → P j (s j) (t j)) (j : ι) :
    P j (Function.update s i x j) (Function.update t i y j) := by
  by_cases hj : j = i
  · subst hj
    rw [Function.update_self,Function.update_self]
    exact hi
  · rw [Function.update_of_ne hj,Function.update_of_ne hj]
    exact h j hj

end Families

section Protocol
variable {Op : Type} {Ans : Op → Type} {α β γ : Type} (next : γ → (op : Op) → Ans op → γ → Prop)

/-- From position `g` every operation of the program is a move of the
protocol, whatever the answer, and the program ends in `Q`. -/
def Program.Follows (Q : α → γ → Prop) : Program Op Ans α → γ → Prop
  | .done a, g => Q a g
  | .call op k, g => ∀ ans, ∃ g', next g op ans g' ∧ (k ans).Follows Q g'

variable {next} {Q : α → γ → Prop}

theorem Program.Follows.bind {R : β → γ → Prop} {p : Program Op Ans α} {f : α → Program Op Ans β} {g : γ}
    (hp : p.Follows next Q g) (hf : ∀ a g', Q a g' → (f a).Follows next R g') :
    (p.bind f).Follows next R g := by
  induction p generalizing g with
  | done a => exact hf a g hp
  | call op k ih =>
    intro ans
    obtain ⟨g',hn,hk⟩ := hp ans
    exact ⟨g',hn,ih ans hk⟩

theorem Program.Follows.mono {Q' : α → γ → Prop} {p : Program Op Ans α} {g : γ}
    (hp : p.Follows next Q g) (hQ : ∀ a g', Q a g' → Q' a g') : p.Follows next Q' g := by
  induction p generalizing g with
  | done a => exact hQ a g hp
  | call op k ih =>
    intro ans
    obtain ⟨g',hn,hk⟩ := hp ans
    exact ⟨g',hn,ih ans hk⟩

theorem Program.Only.follows {P : Op → Prop} {p : Program Op Ans α} {g : γ}
    (hP : ∀ op, P op → ∀ ans, next g op ans g) (hp : p.Only P) :
    p.Follows next (fun _ g' => g' = g) g := by
  induction p with
  | done a => exact rfl
  | call op k ih => exact fun ans => ⟨g,hP op hp.1 ans,ih ans (hp.2 ans)⟩

end Protocol

section Tracking
variable {Op : Type} {Ans : Op → Type} {ι φ σ α γ : Type} [DecidableEq ι]
  {next : γ → (op : Op) → Ans op → γ → Prop} {h : Gate Op Ans ι φ σ}
  {ok : Pool Op Ans ι σ α → ι × φ → Prop} {I : Pool Op Ans ι σ α → (ι → γ) → Prop}

def Pool.Tracked (next : γ → (op : Op) → Ans op → γ → Prop) (I : Pool Op Ans ι σ α → (ι → γ) → Prop)
    (p : Pool Op Ans ι σ α) : Prop :=
  ∃ g : ι → γ, (∀ i, (p.code i).Follows next (fun _ _ => True) (g i)) ∧ I p g

variable (hI : ∀ p g e op k ans s g', I p g → ok p e → p.code e.1 = .call op k →
  h e.1 e.2 op p.state = some (ans,s) → next (g e.1) op ans g' →
  I ⟨s,Function.update p.code e.1 (k ans)⟩ (Function.update g e.1 g'))
include hI

theorem Pool.Tracked.step {p : Pool Op Ans ι σ α} {e : ι × φ} (hp : p.Tracked next I) (hok : ok p e) :
    (p.step h e).Tracked next I := by
  rcases p.step_cases h e with hs | ⟨op,k,ans,s,hc,hh,hs⟩
  · rw [hs]
    exact hp
  obtain ⟨g,hg,hstate⟩ := hp
  have hcall := hg e.1
  rw [hc] at hcall
  obtain ⟨g',hn,hk⟩ := hcall ans
  rw [hs]
  exact ⟨Function.update g e.1 g',
    forall_update (P := fun _ c g => Program.Follows next (fun _ _ => True) c g) hk fun j _ => hg j,
    hI p g e op k ans s g' hstate hok hc hh hn⟩

/-- What one operation keeps, every run keeps. -/
theorem Pool.Tracked.run {p : Pool Op Ans ι σ α} {events : List (ι × φ)} (hp : p.Tracked next I)
    (hok : Lifecycle.Allowed (Pool.step h) ok p events) :
    (events.foldl (Pool.step h) p).Tracked next I := by
  induction events generalizing p with
  | nil => exact hp
  | cons e events ih => exact ih (hp.step hI hok.1) hok.2

end Tracking

end Effect
