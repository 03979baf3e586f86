import Mathlib.Data.Int.Order.Basic
import Mathlib.Order.Lattice
import Mathlib.Tactic.Common
import Mathlib.Tactic.Ring

set_option autoImplicit false

namespace Gcra

/-- One request per interval, at most `burst` of them saved up. -/
structure Quota where
  interval : Int
  burst : Int
  deriving DecidableEq

structure Quota.Valid (q : Quota) : Prop where
  interval : 0 < q.interval
  burst : 1 ≤ q.burst

/-- When a request that finds the arrival time `tat` is admitted. -/
def Quota.allowAt (q : Quota) (tat : Int) : Int := tat-(q.burst-1)*q.interval

def Quota.next (q : Quota) (tat now : Int) : Int := max tat now+q.interval

variable {q : Quota} {a cap j now t w : Int}

theorem Quota.Valid.allowAt_le (h : q.Valid) (tat : Int) : q.allowAt tat ≤ tat := by
  have hb : 0 ≤ (q.burst-1)*q.interval := by
    apply Int.mul_nonneg
    · have := h.burst
      omega
    · exact Int.le_of_lt h.interval
  unfold allowAt
  omega

structure Decision where
  allowed : Bool := true
  retryAfter : Int := 0
  deriving DecidableEq

def Decision.visit (d : Decision) (cap : Int) (q : Quota) (tat now : Int) : Decision :=
  if now < q.allowAt tat then
    { allowed := false, retryAfter := max d.retryAfter (min (q.allowAt tat-now) cap) }
  else d

abbrev Book (κ : Type) := κ → Option Int

section Books
variable {κ : Type}

/-- A key that is not in the book is whole now. -/
def Book.tat (book : Book κ) (now : Int) (k : κ) : Int := (book k).getD now

def Book.decide (book : Book κ) (cap now : Int) (charges : List (κ × Quota)) (d : Decision) :
    Decision :=
  charges.foldl (fun d c => d.visit cap c.2 (book.tat now c.1) now) d

variable [DecidableEq κ]

def quotaOf (k : κ) (charges : List (κ × Quota)) : Option Quota :=
  (charges.find? fun c => c.1 = k).map Prod.snd

def Book.charge (book : Book κ) (now : Int) (charges : List (κ × Quota)) : Book κ := fun k =>
  match quotaOf k charges with
  | some q => some (q.next (book.tat now k) now)
  | none => book k

def Book.step (book : Book κ) (cap now : Int) (charges : List (κ × Quota)) : Decision × Book κ :=
  let d := book.decide cap now charges {}
  (d,if d.allowed then book.charge now charges else book)

end Books

section Deciding
variable {κ : Type} {book : Book κ} {cap now : Int}

structure Book.Decided (book : Book κ) (cap now : Int) (charges : List (κ × Quota))
    (d d' : Decision) : Prop where
  allowed : d'.allowed = true ↔
    d.allowed = true ∧ ∀ c ∈ charges, c.2.allowAt (book.tat now c.1) ≤ now
  grows : d.retryAfter ≤ d'.retryAfter
  enough : ∀ c ∈ charges, now < c.2.allowAt (book.tat now c.1) →
    min (c.2.allowAt (book.tat now c.1)-now) cap ≤ d'.retryAfter
  reached : d'.retryAfter = d.retryAfter ∨
    ∃ c ∈ charges, now+d'.retryAfter ≤ c.2.allowAt (book.tat now c.1)

theorem Book.decided (charges : List (κ × Quota)) (d : Decision) :
    book.Decided cap now charges d (book.decide cap now charges d) := by
  induction charges generalizing d with
  | nil => exact ⟨by simp [decide],le_refl _,by simp,.inl rfl⟩
  | cons c rest ih =>
    have h := ih (d.visit cap c.2 (book.tat now c.1) now)
    change book.Decided cap now (c :: rest) d
      (book.decide cap now rest (d.visit cap c.2 (book.tat now c.1) now))
    by_cases hc : now < c.2.allowAt (book.tat now c.1)
    · rw [Decision.visit,if_pos hc] at h ⊢
      refine ⟨⟨fun ha => ?_,fun ha => ?_⟩,?_,?_,?_⟩
      · exact absurd (h.allowed.mp ha).1 (by simp)
      · exact absurd (ha.2 c (List.mem_cons_self)) (not_le.mpr hc)
      · exact (le_max_left _ _).trans h.grows
      · intro c' hc' hlt
        rcases List.mem_cons.mp hc' with rfl | hc'
        · exact (le_max_right d.retryAfter _).trans h.grows
        · exact h.enough c' hc' hlt
      rcases h.reached with he | ⟨c',hc',he⟩
      · rcases max_choice d.retryAfter (min (c.2.allowAt (book.tat now c.1)-now) cap) with hm | hm
        · exact .inl (he.trans hm)
        refine .inr ⟨c,List.mem_cons_self,?_⟩
        have hmin := min_le_left (c.2.allowAt (book.tat now c.1)-now) cap
        rw [he]
        simp only [hm]
        omega
      · exact .inr ⟨c',List.mem_cons_of_mem c hc',he⟩
    · rw [Decision.visit,if_neg hc] at h ⊢
      refine ⟨?_,h.grows,?_,?_⟩
      · rw [h.allowed]
        refine and_congr_right fun _ => ⟨fun ha c' hc' => ?_,fun ha c' hc' => ?_⟩
        · rcases List.mem_cons.mp hc' with rfl | hc'
          · exact not_lt.mp hc
          · exact ha c' hc'
        · exact ha c' (List.mem_cons_of_mem c hc')
      · intro c' hc' hlt
        rcases List.mem_cons.mp hc' with rfl | hc'
        · exact absurd hlt hc
        · exact h.enough c' hc' hlt
      · rcases h.reached with he | ⟨c',hc',he⟩
        · exact .inl he
        · exact .inr ⟨c',List.mem_cons_of_mem c hc',he⟩

theorem Book.allowAt_later {k : κ} (hq : q.Valid) (ht : now ≤ t) :
    q.allowAt (book.tat t k) ≤ t ↔ q.allowAt (book.tat now k) ≤ t := by
  unfold tat
  cases book k with
  | some x => exact Iff.rfl
  | none => exact ⟨fun _ => (hq.allowAt_le now).trans ht,fun _ => hq.allowAt_le t⟩

/-- A refused request has to wait, and before the time it is told it is refused again. -/
theorem Book.decide_refused {charges : List (κ × Quota)} (hq : ∀ c ∈ charges, c.2.Valid)
    (hcap : 0 < cap) (h : (book.decide cap now charges {}).allowed = false) :
    0 < (book.decide cap now charges {}).retryAfter ∧
    ∀ t, now ≤ t → t < now+(book.decide cap now charges {}).retryAfter →
      (book.decide cap t charges {}).allowed = false := by
  have hd := @decided κ book cap now charges {}
  obtain ⟨c₀,hc₀,hlt⟩ : ∃ c ∈ charges, now < c.2.allowAt (book.tat now c.1) := by
    by_contra hno
    push Not at hno
    rw [hd.allowed.mpr ⟨rfl,hno⟩] at h
    cases h
  have hpos : 0 < (book.decide cap now charges {}).retryAfter :=
    (lt_min (by omega) hcap).trans_le (hd.enough c₀ hc₀ hlt)
  refine ⟨hpos,fun t ht hbefore => ?_⟩
  rw [← Bool.not_eq_true,(@decided κ book cap t charges {}).allowed]
  rintro ⟨-,hall⟩
  rcases hd.reached with he | ⟨c,hc,he⟩
  · rw [he] at hpos
    exact absurd hpos (lt_irrefl 0)
  · have := (allowAt_later (hq c hc) ht).mp (hall c hc)
    omega

/-- From the time it is told on it is admitted, if no wait was cut at the cap. -/
theorem Book.decide_after {charges : List (κ × Quota)} (hq : ∀ c ∈ charges, c.2.Valid)
    (hnear : ∀ c ∈ charges, c.2.allowAt (book.tat now c.1) ≤ now+cap)
    (ht : now ≤ t) (hafter : now+(book.decide cap now charges {}).retryAfter ≤ t) :
    (book.decide cap t charges {}).allowed = true := by
  rw [(@decided κ book cap t charges {}).allowed]
  refine ⟨rfl,fun c hc => (allowAt_later (hq c hc) ht).mpr ?_⟩
  by_cases hcnow : now < c.2.allowAt (book.tat now c.1)
  · have henough := (@decided κ book cap now charges {}).enough c hc hcnow
    have := hnear c hc
    rw [min_eq_left (by omega)] at henough
    omega
  · exact (not_lt.mp hcnow).trans ht

theorem Book.decide_congr {book' : Book κ} {charges : List (κ × Quota)}
    (h : ∀ c ∈ charges, book c.1 = book' c.1) (d : Decision) :
    book.decide cap now charges d = book'.decide cap now charges d := by
  induction charges generalizing d with
  | nil => rfl
  | cons c rest ih =>
    have htat : book.tat now c.1 = book'.tat now c.1 := by
      rw [tat,tat,h c List.mem_cons_self]
    change book.decide cap now rest (d.visit cap c.2 (book.tat now c.1) now) =
      book'.decide cap now rest (d.visit cap c.2 (book'.tat now c.1) now)
    rw [htat]
    exact ih (fun c' hc' => h c' (List.mem_cons_of_mem c hc')) _

end Deciding

section Dropping
variable {κ : Type} {cap now : Int}

/-- `book` is `ideal` without some entries whose time has come by `now`. -/
def Book.Drops (now : Int) (ideal book : Book κ) : Prop :=
  ∀ k, book k = ideal k ∨ book k = none ∧ ∃ tat, ideal k = some tat ∧ tat ≤ now

theorem Book.Drops.later {ideal book : Book κ} (h : Book.Drops now ideal book)
    (ht : now ≤ t) : Book.Drops t ideal book := by
  intro k
  rcases h k with h | ⟨h,tat,hi,hle⟩
  · exact .inl h
  · exact .inr ⟨h,tat,hi,hle.trans ht⟩

theorem Book.Drops.drop {ideal book book' : Book κ} (h : Book.Drops now ideal book)
    (hd : ∀ k, book' k = book k ∨ book' k = none ∧ ∀ tat, book k = some tat → tat ≤ now) :
    Book.Drops now ideal book' := by
  intro k
  rcases hd k with he | ⟨he,hle⟩
  · rw [he]
    exact h k
  rcases h k with hk | ⟨-,hk⟩
  · cases hi : ideal k with
    | none => exact .inl (he.trans rfl)
    | some tat => exact .inr ⟨he,tat,rfl,hle tat (hk.trans hi)⟩
  · exact .inr ⟨he,hk⟩

theorem Book.Drops.tat_cases {ideal book : Book κ} (h : Book.Drops now ideal book) (k : κ) :
    book.tat now k = ideal.tat now k ∨ book.tat now k ≤ now ∧ ideal.tat now k ≤ now := by
  unfold Book.tat
  rcases h k with h | ⟨h,tat,hi,hle⟩
  · exact .inl (by rw [h])
  · rw [h,hi]
    exact .inr ⟨le_refl now,hle⟩

theorem Book.Drops.decide {ideal book : Book κ} (h : Book.Drops now ideal book)
    {charges : List (κ × Quota)} (hq : ∀ c ∈ charges, c.2.Valid) (d : Decision) :
    book.decide cap now charges d = ideal.decide cap now charges d := by
  induction charges generalizing d with
  | nil => rfl
  | cons c rest ih =>
    have hvisit : d.visit cap c.2 (book.tat now c.1) now =
        d.visit cap c.2 (ideal.tat now c.1) now := by
      rcases h.tat_cases c.1 with he | ⟨h₁,h₂⟩
      · rw [he]
      have hv := (hq c List.mem_cons_self).allowAt_le
      rw [Decision.visit,Decision.visit,if_neg (not_lt.mpr ((hv _).trans h₁)),
        if_neg (not_lt.mpr ((hv _).trans h₂))]
    change book.decide cap now rest (d.visit cap c.2 (book.tat now c.1) now) =
      ideal.decide cap now rest (d.visit cap c.2 (ideal.tat now c.1) now)
    rw [hvisit]
    exact ih (fun c' hc' => hq c' (List.mem_cons_of_mem c hc')) _

variable [DecidableEq κ]

theorem Book.Drops.charge {ideal book : Book κ} (h : Book.Drops now ideal book)
    (charges : List (κ × Quota)) :
    Book.Drops now (ideal.charge now charges) (book.charge now charges) := by
  intro k
  unfold Book.charge
  cases quotaOf k charges with
  | none => exact h k
  | some q =>
    left
    unfold Quota.next
    rcases h.tat_cases k with he | ⟨h₁,h₂⟩
    · simp only [he]
    · simp only [max_eq_right h₁,max_eq_right h₂]

end Dropping

structure Request (κ : Type) where
  now : Int
  charges : List (κ × Quota)

section Windows
variable {κ : Type}

/-- After `j` requests of the window the key is not whole before `j` intervals have passed. -/
def Book.Owes (book : Book κ) (q : Quota) (k : κ) (a last : Int) (j : Int) : Prop :=
  j = 0 ∨ a+j*q.interval ≤ max (book.tat last k) last

theorem Book.Owes.later {book : Book κ} {k : κ} {last : Int}
    (h : book.Owes q k a last j) (ht : last ≤ t) : book.Owes q k a t j := by
  refine h.imp_right fun h => h.trans ?_
  unfold tat
  cases book k with
  | none => exact (max_self last).le.trans (ht.trans (max_self t).ge)
  | some x => exact max_le_max_left x ht

variable [DecidableEq κ]

def Book.run (cap : Int) : Book κ → List (Request κ) → List (Request κ × Decision)
  | _, [] => []
  | book, r :: rs =>
    (r,(book.step cap r.now r.charges).1) :: run cap (book.step cap r.now r.charges).2 rs

def Admits (k : κ) (a w : Int) (x : Request κ × Decision) : Bool :=
  x.2.allowed && (quotaOf k x.1.charges).isSome && decide (a ≤ x.1.now) && decide (x.1.now ≤ a+w)

theorem mem_of_quotaOf {k : κ} {charges : List (κ × Quota)}
    (h : quotaOf k charges = some q) : (k,q) ∈ charges := by
  obtain ⟨c,hc,rfl⟩ := Option.map_eq_some_iff.mp h
  have hk : c.1 = k := by simpa using List.find?_some hc
  rw [← hk]
  exact List.mem_of_find?_eq_some hc

theorem Book.Owes.admit {book : Book κ} {k : κ} (hq : q.Valid)
    {charges : List (κ × Quota)} (h : book.Owes q k a now j)
    (hl : quotaOf k charges = some q) (ha : (book.decide cap now charges {}).allowed = true)
    (h₁ : a ≤ now) (h₂ : now ≤ a+w) :
    (book.charge now charges).Owes q k a now (j+1) ∧ j+1 ≤ q.burst+w/q.interval := by
  have hallow : q.allowAt (book.tat now k) ≤ now :=
    ((Book.decided charges {}).allowed.mp ha).2 (k,q) (mem_of_quotaOf hl)
  have hpaid : a+j*q.interval ≤ max (book.tat now k) now := by
    rcases h with rfl | h
    · exact (by omega : a+0*q.interval ≤ now).trans (le_max_right _ _)
    · exact h
  have hmax : max (book.tat now k) now ≤ now+(q.burst-1)*q.interval := by
    have hb := hq.allowAt_le (now+(q.burst-1)*q.interval)
    unfold Quota.allowAt at hallow hb
    exact max_le (by omega) (by omega)
  constructor
  · right
    have hnew : (book.charge now charges).tat now k = max (book.tat now k) now+q.interval := by
      simp [Book.tat,Book.charge,hl,Quota.next]
    rw [hnew,add_mul,one_mul]
    exact le_max_of_le_left (by omega)
  · have hmul : (j+1-q.burst)*q.interval ≤ w := by
      have : (j+1-q.burst)*q.interval = j*q.interval-(q.burst-1)*q.interval := by ring
      omega
    have := (Int.le_ediv_iff_mul_le hq.interval).mpr hmul
    omega

theorem Book.Owes.step {book : Book κ} {k : κ} (hq : q.Valid)
    {charges : List (κ × Quota)} (h : book.Owes q k a now j)
    (hquota : ∀ q', quotaOf k charges = some q' → q' = q) :
    (book.step cap now charges).2.Owes q k a now j := by
  unfold Book.step
  simp only
  split
  · refine h.imp_right fun h => h.trans ?_
    cases hl : quotaOf k charges with
    | none =>
      simp only [Book.tat,Book.charge,hl]
      exact le_refl _
    | some q' =>
      cases hquota q' hl
      have hi := hq.interval
      have hnew : (book.charge now charges).tat now k = max (book.tat now k) now+q.interval := by
        simp [Book.tat,Book.charge,hl,Quota.next]
      rw [hnew]
      exact le_max_of_le_left (by omega)
  · exact h

/-- In a window of length `w` at most `burst + w / interval` requests that charge a key are
admitted, if they come in order and always charge it with the same quota. -/
theorem Book.window {k : κ} (hq : q.Valid) (hw : 0 ≤ w)
    {requests : List (Request κ)} (hsorted : requests.Pairwise fun r r' => r.now ≤ r'.now)
    (hquota : ∀ r ∈ requests, ∀ q', quotaOf k r.charges = some q' → q' = q) (book : Book κ) :
    ((book.run cap requests).countP (Admits k a w) : Int) ≤ q.burst+w/q.interval := by
  suffices h : ∀ (book : Book κ) (last j : Int), book.Owes q k a last j →
      (∀ r ∈ requests, last ≤ r.now) → j ≤ q.burst+w/q.interval →
      j+((book.run cap requests).countP (Admits k a w) : Int) ≤ q.burst+w/q.interval by
    have hstart : (0 : Int) ≤ q.burst+w/q.interval := by
      have := Int.ediv_nonneg hw (Int.le_of_lt hq.interval)
      have := hq.burst
      omega
    cases requests with
    | nil => simpa [run] using hstart
    | cons r rest =>
      have hle : ∀ r' ∈ r :: rest, r.now ≤ r'.now := by
        intro r' hr'
        rcases List.mem_cons.mp hr' with rfl | hr'
        · exact le_refl _
        · exact List.rel_of_pairwise_cons hsorted hr'
      have := h book r.now 0 (.inl rfl) hle hstart
      omega
  induction requests with
  | nil =>
    intro book last j _ _ hj
    simpa [run] using hj
  | cons r rest ih =>
    intro book last j howes hlast hj
    have hnow := howes.later (hlast r List.mem_cons_self)
    have hlater : ∀ r' ∈ rest, r.now ≤ r'.now := fun r' hr' => List.rel_of_pairwise_cons hsorted hr'
    have hrest := ih (List.Pairwise.of_cons hsorted)
      fun r' hr' => hquota r' (List.mem_cons_of_mem r hr')
    rw [run,List.countP_cons]
    by_cases hadm : Admits k a w (r,(book.step cap r.now r.charges).1) = true
    · -- One more request of the window: the key owes one more interval.
      rw [if_pos hadm]
      simp only [Admits,Bool.and_eq_true,decide_eq_true_eq,Option.isSome_iff_exists] at hadm
      obtain ⟨⟨⟨hallowed,q',hl⟩,h₁⟩,h₂⟩ := hadm
      cases hquota r List.mem_cons_self q' hl
      obtain ⟨howes',hj'⟩ := hnow.admit hq hl hallowed h₁ h₂
      have hbook : (book.step cap r.now r.charges).2 = book.charge r.now r.charges := by
        simp only [step] at hallowed ⊢
        rw [if_pos hallowed]
      have := hrest _ r.now (j+1) (hbook ▸ howes') hlater hj'
      push_cast
      omega
    · rw [if_neg hadm]
      have hkept : (book.step cap r.now r.charges).2.Owes q k a r.now j :=
        hnow.step hq (hquota r List.mem_cons_self)
      have := hrest _ r.now j hkept hlater hj
      push_cast
      omega

end Windows

end Gcra
