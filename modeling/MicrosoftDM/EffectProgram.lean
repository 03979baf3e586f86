import Mathlib.Logic.Basic

/-!
Programs that act on the outside only through named operations. A program is a tree: it is
finished, or it calls one operation and goes on with the answer.
-/

set_option autoImplicit false

namespace Effect

inductive Program (Op : Type) (Ans : Op → Type) (α : Type) where
  | done : α → Program Op Ans α
  | call : (op : Op) → (Ans op → Program Op Ans α) → Program Op Ans α

abbrev Handler (Op : Type) (Ans : Op → Type) (σ : Type) := (op : Op) → σ → Ans op × σ

def Program.bind {Op : Type} {Ans : Op → Type} {α β : Type} :
    Program Op Ans α → (α → Program Op Ans β) → Program Op Ans β
  | .done a, f => f a
  | .call op k, f => .call op (fun ans => (k ans).bind f)

instance {Op : Type} {Ans : Op → Type} : Monad (Program Op Ans) where
  pure := .done
  bind := .bind

def perform {Op : Type} {Ans : Op → Type} (op : Op) : Program Op Ans (Ans op) := .call op .done

@[simp] theorem pure_eq_done {Op : Type} {Ans : Op → Type} {α : Type} (a : α) :
    (pure a : Program Op Ans α) = .done a := rfl

@[simp] theorem bind_eq_bind {Op : Type} {Ans : Op → Type} {α β : Type}
    (p : Program Op Ans α) (f : α → Program Op Ans β) : (p >>= f) = p.bind f := rfl

def Program.run {Op : Type} {Ans : Op → Type} {σ α : Type} (h : Handler Op Ans σ) :
    Program Op Ans α → σ → α × σ
  | .done a, s => (a,s)
  | .call op k, s => (k (h op s).1).run h (h op s).2

/-- The operations a run calls, each with its answer, in order. -/
def Program.calls {Op : Type} {Ans : Op → Type} {σ α : Type} (h : Handler Op Ans σ) :
    Program Op Ans α → σ → List ((op : Op) × Ans op)
  | .done _, _ => []
  | .call op k, s => ⟨op,(h op s).1⟩ :: (k (h op s).1).calls h (h op s).2

section Running
variable {Op : Type} {Ans : Op → Type} {σ α β : Type}

@[simp] theorem run_done (h : Handler Op Ans σ) (a : α) (s : σ) :
    (Program.done a : Program Op Ans α).run h s = (a,s) := rfl

@[simp] theorem run_call (h : Handler Op Ans σ) (op : Op) (k : Ans op → Program Op Ans α) (s : σ) :
    (Program.call op k).run h s = (k (h op s).1).run h (h op s).2 := rfl

@[simp] theorem run_perform (h : Handler Op Ans σ) (op : Op) (s : σ) :
    (perform op : Program Op Ans _).run h s = h op s := rfl

@[simp] theorem run_bind (h : Handler Op Ans σ) (p : Program Op Ans α)
    (f : α → Program Op Ans β) (s : σ) :
    (p.bind f).run h s = (f (p.run h s).1).run h (p.run h s).2 := by
  induction p generalizing s with
  | done a => rfl
  | call op k ih => exact ih (h op s).1 (h op s).2

@[simp] theorem calls_done (h : Handler Op Ans σ) (a : α) (s : σ) :
    (Program.done a : Program Op Ans α).calls h s = [] := rfl

@[simp] theorem calls_call (h : Handler Op Ans σ) (op : Op) (k : Ans op → Program Op Ans α)
    (s : σ) :
    (Program.call op k).calls h s = ⟨op,(h op s).1⟩ :: (k (h op s).1).calls h (h op s).2 := rfl

@[simp] theorem calls_perform (h : Handler Op Ans σ) (op : Op) (s : σ) :
    (perform op : Program Op Ans _).calls h s = [⟨op,(h op s).1⟩] := rfl

@[simp] theorem calls_bind (h : Handler Op Ans σ) (p : Program Op Ans α)
    (f : α → Program Op Ans β) (s : σ) :
    (p.bind f).calls h s = p.calls h s ++ (f (p.run h s).1).calls h (p.run h s).2 := by
  induction p generalizing s with
  | done a => rfl
  | call op k ih => simp [Program.bind,ih]

/-- What every operation keeps, every program keeps. -/
theorem run_invariant {h : Handler Op Ans σ} {I : σ → Prop} (hI : ∀ op s, I s → I (h op s).2)
    (p : Program Op Ans α) {s : σ} (hs : I s) : I (p.run h s).2 := by
  induction p generalizing s with
  | done a => exact hs
  | call op k ih => exact ih _ (hI op s hs)

end Running

section Rules
variable {Op : Type} {Ans : Op → Type} {σ α β : Type}

/-- Whatever the answers are, the program calls only operations in `P`. -/
def Program.Only (P : Op → Prop) : Program Op Ans α → Prop
  | .done _ => True
  | .call op k => P op ∧ ∀ ans, (k ans).Only P

/-- Whatever the answers are, the program ends with a value in `Q`. -/
def Program.Returns (Q : α → Prop) : Program Op Ans α → Prop
  | .done a => Q a
  | .call _ k => ∀ ans, (k ans).Returns Q

theorem Program.Only.mono {P P' : Op → Prop} {p : Program Op Ans α} (hp : p.Only P)
    (hP : ∀ op, P op → P' op) : p.Only P' := by
  induction p with
  | done a => trivial
  | call op k ih => exact ⟨hP op hp.1,fun ans => ih ans (hp.2 ans)⟩

theorem Program.Only.calls {P : Op → Prop} {p : Program Op Ans α} (hp : p.Only P)
    (h : Handler Op Ans σ) (s : σ) : ∀ x ∈ p.calls h s, P x.1 := by
  induction p generalizing s with
  | done a => simp
  | call op k ih =>
    intro x hx
    rcases List.mem_cons.mp hx with rfl | hx
    · exact hp.1
    · exact ih _ (hp.2 _) _ x hx

theorem Program.Returns.run {Q : α → Prop} {p : Program Op Ans α} (hp : p.Returns Q)
    (h : Handler Op Ans σ) (s : σ) : Q (p.run h s).1 := by
  induction p generalizing s with
  | done a => exact hp
  | call op k ih => exact ih _ (hp _) _

/-- A relation that each operation in `P` keeps to, a program that calls only such keeps to. -/
theorem Program.Only.run_rel {P : Op → Prop} {R : σ → σ → Prop} {h : Handler Op Ans σ}
    (hrefl : ∀ s, R s s) (htrans : ∀ s₁ s₂ s₃, R s₁ s₂ → R s₂ s₃ → R s₁ s₃)
    (hstep : ∀ op s, P op → R s (h op s).2) {p : Program Op Ans α} (hp : p.Only P) (s : σ) :
    R s (p.run h s).2 := by
  induction p generalizing s with
  | done a => exact hrefl s
  | call op k ih => exact htrans _ _ _ (hstep op s hp.1) (ih _ (hp.2 _) _)

/-- What holds of the calls made so far and of the state, after each operation in `P` again, holds
after a program that calls only such. -/
theorem Program.Only.run_calls {P : Op → Prop} {I : List ((op : Op) × Ans op) → σ → Prop}
    {h : Handler Op Ans σ}
    (hstep : ∀ op s cs, P op → I cs s → I (cs ++ [⟨op,(h op s).1⟩]) (h op s).2)
    {p : Program Op Ans α} (hp : p.Only P) {cs : List ((op : Op) × Ans op)} {s : σ} (hI : I cs s) :
    I (cs ++ p.calls h s) (p.run h s).2 := by
  induction p generalizing cs s with
  | done a =>
    rw [calls_done,List.append_nil]
    exact hI
  | call op k ih =>
    have hrest := ih (h op s).1 (hp.2 _) (hstep op s cs hp.1 hI)
    rwa [List.append_assoc,List.singleton_append] at hrest

theorem Program.Only.bind {P : Op → Prop} {Q : α → Prop} {p : Program Op Ans α}
    {f : α → Program Op Ans β} (hp : p.Only P) (hq : p.Returns Q) (hf : ∀ a, Q a → (f a).Only P) :
    (p.bind f).Only P := by
  induction p with
  | done a => exact hf a hq
  | call op k ih => exact ⟨hp.1,fun ans => ih ans (hp.2 ans) (hq ans)⟩

theorem Program.Only.andThen {P : Op → Prop} {p : Program Op Ans α} {f : α → Program Op Ans β}
    (hp : p.Only P) (hf : ∀ a, (f a).Only P) : (p.bind f).Only P := by
  induction p with
  | done a => exact hf a
  | call op k ih => exact ⟨hp.1,fun ans => ih ans (hp.2 ans)⟩

theorem Program.Returns.mono {Q R : α → Prop} {p : Program Op Ans α} (hp : p.Returns Q)
    (hQ : ∀ a, Q a → R a) : p.Returns R := by
  induction p with
  | done a => exact hQ a hp
  | call op k ih => exact fun ans => ih ans (hp ans)

theorem Program.Returns.bind {Q : α → Prop} {R : β → Prop} {p : Program Op Ans α}
    {f : α → Program Op Ans β} (hp : p.Returns Q) (hf : ∀ a, Q a → (f a).Returns R) :
    (p.bind f).Returns R := by
  induction p with
  | done a => exact hf a hp
  | call op k ih => exact fun ans => ih ans (hp ans)

end Rules

/-- A program with local variables `τ` that may stop with an error. The
variables keep what was written to them before the error. -/
def Action (Op : Type) (Ans : Op → Type) (τ ε α : Type) := τ → Program Op Ans (Except ε α × τ)

namespace Action

section Definitions
variable {Op : Type} {Ans : Op → Type} {τ ε α β : Type}

protected def pure (a : α) : Action Op Ans τ ε α := fun t => .done (.ok a,t)

protected def bind (x : Action Op Ans τ ε α) (f : α → Action Op Ans τ ε β) :
    Action Op Ans τ ε β := fun t =>
  (x t).bind fun r =>
    match r.1 with
    | .ok a => f a r.2
    | .error e => .done (.error e,r.2)

instance : Monad (Action Op Ans τ ε) where
  pure := Action.pure
  bind := Action.bind

def fail (e : ε) : Action Op Ans τ ε α := fun t => .done (.error e,t)

def locals : Action Op Ans τ ε τ := fun t => .done (.ok t,t)

def update (f : τ → τ) : Action Op Ans τ ε Unit := fun t => .done (.ok (),f t)

def operate (op : Op) : Action Op Ans τ ε (Ans op) := fun t =>
  .call op fun ans => .done (.ok ans,t)

end Definitions

section Running
variable {Op : Type} {Ans : Op → Type} {σ τ ε α β : Type} (h : Handler Op Ans σ)

def exec (x : Action Op Ans τ ε α) (t : τ) (s : σ) : (Except ε α × τ) × σ := (x t).run h s

@[simp] theorem exec_pure (a : α) (t : τ) (s : σ) :
    exec h (pure a : Action Op Ans τ ε α) t s = ((.ok a,t),s) := rfl

@[simp] theorem exec_fail (e : ε) (t : τ) (s : σ) :
    exec h (fail e : Action Op Ans τ ε α) t s = ((.error e,t),s) := rfl

@[simp] theorem exec_locals (t : τ) (s : σ) :
    exec h (locals : Action Op Ans τ ε τ) t s = ((.ok t,t),s) := rfl

@[simp] theorem exec_update (f : τ → τ) (t : τ) (s : σ) :
    exec h (update f : Action Op Ans τ ε Unit) t s = ((.ok (),f t),s) := rfl

@[simp] theorem exec_operate (op : Op) (t : τ) (s : σ) :
    exec h (operate op : Action Op Ans τ ε _) t s = ((.ok (h op s).1,t),(h op s).2) := rfl

theorem exec_bind (x : Action Op Ans τ ε α) (f : α → Action Op Ans τ ε β) (t : τ) (s : σ) :
    exec h (x >>= f) t s =
      match exec h x t s with
      | ((.ok a,t'),s') => exec h (f a) t' s'
      | ((.error e,t'),s') => ((.error e,t'),s') := by
  change ((x t).bind _).run h s = _
  rw [run_bind]
  simp only [exec]
  rcases (x t).run h s with ⟨⟨r,t'⟩,s'⟩
  cases r <;> rfl

/-- A sequence succeeds exactly when both halves do. -/
theorem exec_bind_ok {x : Action Op Ans τ ε α} {f : α → Action Op Ans τ ε β} {t t' : τ}
    {s s' : σ} {b : β} :
    exec h (x >>= f) t s = ((.ok b,t'),s') ↔
      ∃ a t₁ s₁, exec h x t s = ((.ok a,t₁),s₁) ∧ exec h (f a) t₁ s₁ = ((.ok b,t'),s') := by
  rw [exec_bind]
  rcases exec h x t s with ⟨⟨r,t₁⟩,s₁⟩
  cases r with
  | error e => simp
  | ok a =>
    constructor
    · intro hf
      exact ⟨a,t₁,s₁,rfl,hf⟩
    rintro ⟨_,_,_,he,hf⟩
    cases he
    exact hf

/-- A step whose first half is known to succeed. -/
theorem exec_next {x : Action Op Ans τ ε α} {f : α → Action Op Ans τ ε β} {t t₁ : τ} {s s₁ : σ} {a : α}
    {r : (Except ε β × τ) × σ} (hr : exec h (x >>= f) t s = r) (hx : exec h x t s = ((.ok a,t₁),s₁)) :
    exec h (f a) t₁ s₁ = r := by
  rw [← hr,exec_bind,hx]

/-- A sequence fails in its first half, or in its second after the first succeeded. -/
theorem exec_bind_error {x : Action Op Ans τ ε α} {f : α → Action Op Ans τ ε β} {t t' : τ}
    {s s' : σ} {e : ε} :
    exec h (x >>= f) t s = ((.error e,t'),s') ↔
      exec h x t s = ((.error e,t'),s') ∨
      ∃ a t₁ s₁, exec h x t s = ((.ok a,t₁),s₁) ∧ exec h (f a) t₁ s₁ = ((.error e,t'),s') := by
  rw [exec_bind]
  rcases exec h x t s with ⟨⟨r,t₁⟩,s₁⟩
  cases r with
  | error e => simp
  | ok a =>
    constructor
    · intro hf
      exact .inr ⟨a,t₁,s₁,rfl,hf⟩
    rintro (he | ⟨_,_,_,he,hf⟩)
    · cases he
    · cases he
      exact hf

theorem calls_bind_ok {x : Action Op Ans τ ε α} {f : α → Action Op Ans τ ε β} {t t₁ : τ} {s s₁ : σ}
    {a : α} (hx : exec h x t s = ((.ok a,t₁),s₁)) :
    ((x >>= f) t).calls h s = (x t).calls h s ++ (f a t₁).calls h s₁ := by
  change ((x t).bind _).calls h s = _
  rw [calls_bind,show (x t).run h s = _ from hx]

/-- A sequence calls what its first half calls, and what its second half does
from where the first has succeeded. -/
theorem mem_calls_bind {x : Action Op Ans τ ε α} {f : α → Action Op Ans τ ε β} {t : τ} {s : σ}
    {c : (op : Op) × Ans op} (hc : c ∈ ((x >>= f) t).calls h s) :
    c ∈ (x t).calls h s ∨
      ∃ a t₁ s₁, exec h x t s = ((.ok a,t₁),s₁) ∧ c ∈ (f a t₁).calls h s₁ := by
  change c ∈ ((x t).bind _).calls h s at hc
  rw [calls_bind] at hc
  rcases List.mem_append.mp hc with hc | hc
  · exact .inl hc
  rcases he : (x t).run h s with ⟨⟨r,t₁⟩,s₁⟩
  rw [he] at hc
  cases r with
  | ok a => exact .inr ⟨a,t₁,s₁,he,hc⟩
  | error e => cases hc

end Running

section Rules
variable {Op : Type} {Ans : Op → Type} {τ ε α β : Type}

/-- From variables `t` the action calls only operations in `P`, and where it
succeeds the value and the variables are in `Q`. -/
def Keeps (P : Op → Prop) (Q : α → τ → Prop) (x : Action Op Ans τ ε α) (t : τ) : Prop :=
  (x t).Only P ∧ (x t).Returns fun r => ∀ a, r.1 = .ok a → Q a r.2

theorem Keeps.bind {P : Op → Prop} {Q : α → τ → Prop} {R : β → τ → Prop} {x : Action Op Ans τ ε α}
    {f : α → Action Op Ans τ ε β} {t : τ} (hx : x.Keeps P Q t)
    (hf : ∀ a t', Q a t' → (f a).Keeps P R t') : (x >>= f).Keeps P R t := by
  constructor
  · refine hx.1.bind hx.2 ?_
    rintro ⟨r,t'⟩ hr
    cases r with
    | ok a => exact (hf a t' (hr a rfl)).1
    | error e => trivial
  · refine hx.2.bind ?_
    rintro ⟨r,t'⟩ hr
    cases r with
    | ok a => exact (hf a t' (hr a rfl)).2
    | error e => exact fun a ha => nomatch ha

theorem Keeps.pure {P : Op → Prop} {Q : α → τ → Prop} {t : τ} {a : α} (ht : Q a t) :
    (Pure.pure a : Action Op Ans τ ε α).Keeps P Q t := by
  refine ⟨trivial,fun b hb => ?_⟩
  cases hb
  exact ht

theorem Keeps.fail {P : Op → Prop} {Q : α → τ → Prop} {t : τ} (e : ε) :
    (Action.fail e : Action Op Ans τ ε α).Keeps P Q t := ⟨trivial,fun _ ha => nomatch ha⟩

theorem Keeps.locals {P : Op → Prop} {Q : τ → τ → Prop} {t : τ} (ht : Q t t) :
    (Action.locals : Action Op Ans τ ε τ).Keeps P Q t := Keeps.pure ht

theorem Keeps.update {P : Op → Prop} {Q : Unit → τ → Prop} {f : τ → τ} {t : τ} (ht : Q () (f t)) :
    (Action.update f : Action Op Ans τ ε Unit).Keeps P Q t := ⟨trivial,fun _ _ => ht⟩

theorem Keeps.operate {P : Op → Prop} {op : Op} {Q : Ans op → τ → Prop} {t : τ} (hop : P op)
    (ht : ∀ a, Q a t) : (Action.operate op : Action Op Ans τ ε _).Keeps P Q t := by
  refine ⟨⟨hop,fun _ => trivial⟩,fun a b hb => ?_⟩
  cases hb
  exact ht a

/-- From variables in `I` the action calls only operations in `P`, and leaves
the variables in `I` whether it succeeds or not. -/
def Stays (P : Op → Prop) (I : τ → Prop) (x : Action Op Ans τ ε α) : Prop :=
  ∀ t, I t → (x t).Only P ∧ (x t).Returns fun r => I r.2

theorem Stays.exec {σ : Type} {P : Op → Prop} {I : τ → Prop} {x : Action Op Ans τ ε α}
    (hx : x.Stays P I) {h : Handler Op Ans σ} {t t' : τ} {s s' : σ} {r : Except ε α} (ht : I t)
    (he : Action.exec h x t s = ((r,t'),s')) : I t' := by
  have hr := (hx t ht).2.run h s
  rwa [show (x t).run h s = _ from he] at hr

theorem Stays.mono {P P' : Op → Prop} {I : τ → Prop} {x : Action Op Ans τ ε α} (hx : x.Stays P I)
    (hP : ∀ op, P op → P' op) : x.Stays P' I :=
  fun t ht => ⟨(hx t ht).1.mono hP,(hx t ht).2⟩

theorem Stays.pure {P : Op → Prop} {I : τ → Prop} (a : α) :
    (Pure.pure a : Action Op Ans τ ε α).Stays P I := fun _ ht => ⟨trivial,ht⟩

theorem Stays.fail {P : Op → Prop} {I : τ → Prop} (e : ε) :
    (Action.fail e : Action Op Ans τ ε α).Stays P I := fun _ ht => ⟨trivial,ht⟩

theorem Stays.update {P : Op → Prop} {I : τ → Prop} {f : τ → τ} (hf : ∀ t, I t → I (f t)) :
    (Action.update f : Action Op Ans τ ε Unit).Stays P I := fun t ht => ⟨trivial,hf t ht⟩

theorem Stays.operate {P : Op → Prop} {I : τ → Prop} {op : Op} (hop : P op) :
    (Action.operate op : Action Op Ans τ ε _).Stays P I :=
  fun _ ht => ⟨⟨hop,fun _ => trivial⟩,fun _ => ht⟩

theorem Stays.bind {P : Op → Prop} {I : τ → Prop} {x : Action Op Ans τ ε α}
    {f : α → Action Op Ans τ ε β} (hx : x.Stays P I) (hf : ∀ a, (f a).Stays P I) :
    (x >>= f).Stays P I := by
  intro t ht
  obtain ⟨ho,hr⟩ := hx t ht
  constructor
  · refine ho.bind hr ?_
    rintro ⟨r,t'⟩ ht'
    cases r with
    | ok a => exact (hf a t' ht').1
    | error e => trivial
  · refine hr.bind ?_
    rintro ⟨r,t'⟩ ht'
    cases r with
    | ok a => exact (hf a t' ht').2
    | error e => exact ht'

theorem Stays.locals_bind {P : Op → Prop} {I : τ → Prop} {f : τ → Action Op Ans τ ε β}
    (hf : ∀ t, I t → (f t).Stays P I) : (Action.locals >>= f).Stays P I :=
  fun t ht => hf t ht t ht

theorem Stays.update_bind {P : Op → Prop} {I J : τ → Prop} {f : τ → τ}
    {x : Unit → Action Op Ans τ ε β} (hf : ∀ t, I t → J (f t)) (hJ : ∀ t, J t → I t)
    (hx : (x ()).Stays P J) : (Action.update f >>= x).Stays P I := by
  intro t ht
  obtain ⟨ho,hr⟩ := hx (f t) (hf t ht)
  exact ⟨ho,hr.mono fun r hr => hJ r.2 hr⟩

/-- Every error the action can stop with is in `P`. -/
def FailsOnly (P : ε → Prop) (x : Action Op Ans τ ε α) : Prop :=
  ∀ t, (x t).Returns fun r => ∀ e, r.1 = .error e → P e

theorem FailsOnly.exec {σ : Type} {P : ε → Prop} {x : Action Op Ans τ ε α} (hx : x.FailsOnly P)
    {h : Handler Op Ans σ} {t t' : τ} {s s' : σ} {e : ε}
    (he : Action.exec h x t s = ((.error e,t'),s')) : P e :=
  (hx t).run h s e (by rw [show (x t).run h s = _ from he])

theorem FailsOnly.pure {P : ε → Prop} (a : α) : (Pure.pure a : Action Op Ans τ ε α).FailsOnly P :=
  fun _ _ he => nomatch he

theorem FailsOnly.fail {P : ε → Prop} {e : ε} (h : P e) :
    (Action.fail e : Action Op Ans τ ε α).FailsOnly P := by
  intro t e' he
  cases he
  exact h

theorem FailsOnly.locals {P : ε → Prop} : (Action.locals : Action Op Ans τ ε τ).FailsOnly P :=
  fun _ _ he => nomatch he

theorem FailsOnly.update {P : ε → Prop} (f : τ → τ) :
    (Action.update f : Action Op Ans τ ε Unit).FailsOnly P := fun _ _ he => nomatch he

theorem FailsOnly.operate {P : ε → Prop} (op : Op) :
    (Action.operate op : Action Op Ans τ ε _).FailsOnly P := fun _ _ _ he => nomatch he

theorem FailsOnly.bind {P : ε → Prop} {x : Action Op Ans τ ε α} {f : α → Action Op Ans τ ε β}
    (hx : x.FailsOnly P) (hf : ∀ a, (f a).FailsOnly P) : (x >>= f).FailsOnly P := by
  intro t
  refine (hx t).bind ?_
  rintro ⟨r,t'⟩ hr
  cases r with
  | ok a => exact hf a t'
  | error e =>
    intro e' he
    cases he
    exact hr e rfl

end Rules

end Action

section Agreement
variable {Op : Type} {Ans : Op → Type} {σ τ ε α β : Type} {h h' : Handler Op Ans σ}

/-- `p` under the handler `h` does what `q` does under `h'`. -/
def Program.Agrees (h h' : Handler Op Ans σ) (p q : Program Op Ans α) : Prop :=
  ∀ s, p.run h s = q.run h' s

theorem Program.Agrees.pure (a : α) : Program.Agrees h h' (Pure.pure a) (Pure.pure a) :=
  fun _ => rfl

theorem Program.Agrees.perform {op : Op} (hop : h op = h' op) :
    Program.Agrees h h' (Effect.perform op) (Effect.perform op) := by
  intro s
  rw [run_perform,run_perform,hop]

theorem Program.Agrees.bind {p q : Program Op Ans α} {f g : α → Program Op Ans β}
    (hp : p.Agrees h h' q) (hf : ∀ a, (f a).Agrees h h' (g a)) :
    (p >>= f).Agrees h h' (q >>= g) := by
  intro s
  rw [bind_eq_bind,bind_eq_bind,run_bind,run_bind,hp s]
  exact hf _ _

def Action.Agrees (h h' : Handler Op Ans σ) (x y : Action Op Ans τ ε α) : Prop :=
  ∀ t, (x t).Agrees h h' (y t)

theorem Action.Agrees.pure (a : α) :
    Action.Agrees h h' (Pure.pure a : Action Op Ans τ ε α) (Pure.pure a) := fun _ _ => rfl

theorem Action.Agrees.fail (e : ε) :
    Action.Agrees h h' (Action.fail e : Action Op Ans τ ε α) (Action.fail e) := fun _ _ => rfl

theorem Action.Agrees.locals :
    Action.Agrees h h' (Action.locals : Action Op Ans τ ε τ) Action.locals := fun _ _ => rfl

theorem Action.Agrees.update (f : τ → τ) :
    Action.Agrees h h' (Action.update f : Action Op Ans τ ε Unit) (Action.update f) :=
  fun _ _ => rfl

theorem Action.Agrees.operate {op : Op} (hop : h op = h' op) :
    Action.Agrees h h' (Action.operate op : Action Op Ans τ ε _) (Action.operate op) := by
  intro t s
  show Action.exec h (Action.operate op) t s = Action.exec h' (Action.operate op) t s
  rw [Action.exec_operate,Action.exec_operate,hop]

theorem Action.Agrees.bind {x y : Action Op Ans τ ε α} {f g : α → Action Op Ans τ ε β}
    (hx : x.Agrees h h' y) (hf : ∀ a, (f a).Agrees h h' (g a)) :
    (x >>= f).Agrees h h' (y >>= g) := by
  intro t
  refine Program.Agrees.bind (hx t) ?_
  rintro ⟨r,t'⟩
  cases r with
  | ok a => exact hf a t'
  | error e => exact fun _ => rfl

theorem Program.Only.agrees {P : Op → Prop} {p : Program Op Ans α} (hp : p.Only P)
    (hop : ∀ op, P op → h op = h' op) : p.Agrees h h' p := by
  induction p with
  | done a => exact fun _ => rfl
  | call op k ih =>
    intro s
    rw [run_call,run_call,hop op hp.1]
    exact ih _ (hp.2 _) _

theorem Action.Stays.agrees {P : Op → Prop} {I : τ → Prop} {x : Action Op Ans τ ε α}
    (hx : x.Stays P I) (hI : ∀ t, I t) (hop : ∀ op, P op → h op = h' op) : x.Agrees h h' x :=
  fun t => (hx t (hI t)).1.agrees hop

end Agreement

end Effect
