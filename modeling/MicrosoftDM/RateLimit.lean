import MicrosoftDM.StateStore
import MicrosoftDM.CellRate

/-!
`Limiter.Check` of ratelimit/ratelimit.go over the store in memory. SHA-256 is a
parameter. Arithmetic on times and durations is that of Go: durations and Unix
microseconds have 64 bits, and `Sub` stops at the longest duration.
-/

set_option autoImplicit false

namespace MicrosoftDM.Ratelimit
open Mdm (Bytes validKey)
open State
open Gcra (Decision)

def microsecond : Int := 1000
def day : Int := 86400000000000

/-- The value of an integer in 64 bits with a sign. -/
def int64 (n : Int) : Int := n.bmod (2^64)

/-- The Unix epoch, counted from Go's zero time. -/
def unixEpoch : Time := 62135596800000000000

/-- `Truncate(time.Microsecond)`. -/
def truncate (t : Time) : Time := t-t%microsecond

def unixMicro (t : Time) : Int := int64 ((t-unixEpoch)/microsecond)

def ofUnixMicro (n : Int) : Time := unixEpoch+n*microsecond

/-- `Sub`, which returns the longest duration instead of a longer one. -/
def sub (t u : Time) : Int := max minInt (min (t-u) maxInt)

/-- `binary.BigEndian.PutUint64` of an `int64`. -/
def putUint64 (n : Int) : Bytes :=
  let u := (n%2^64).toNat
  [(u/2^56%256).toUInt8,(u/2^48%256).toUInt8,(u/2^40%256).toUInt8,(u/2^32%256).toUInt8,
    (u/2^24%256).toUInt8,(u/2^16%256).toUInt8,(u/2^8%256).toUInt8,(u%256).toUInt8]

/-- `int64` of `binary.BigEndian.Uint64`. -/
def getInt64 (b : Bytes) : Int := int64 (b.foldl (fun n d => n*256+d.toNat) 0 : Nat)

def hexChar (n : Nat) : UInt8 := if n < 10 then (48+n).toUInt8 else (87+n).toUInt8

/-- `hex.EncodeToString`. -/
def hexEncode (b : Bytes) : GoString := b.flatMap fun d => [hexChar (d.toNat/16),hexChar (d.toNat%16)]

theorem hexChar_inj : ∀ m < 16, ∀ n < 16, hexChar m = hexChar n → m = n := by decide

theorem hexEncode_injective : Function.Injective hexEncode := by
  intro a
  induction a with
  | nil =>
    intro b h
    cases b with
    | nil => rfl
    | cons y b => cases h
  | cons x a ih =>
    intro b h
    cases b with
    | nil => cases h
    | cons y b =>
      have hx := x.toNat_lt
      have hy := y.toNat_lt
      obtain ⟨hhi,hrest⟩ := List.cons.inj h
      obtain ⟨hlo,hrest⟩ := List.cons.inj hrest
      have hdiv := hexChar_inj _ (by omega) _ (by omega) hhi
      have hmod := hexChar_inj _ (by omega) _ (by omega) hlo
      have hxy : x = y := UInt8.toNat_inj.mp (by omega)
      rw [hxy,ih hrest]

structure Bucket where
  key : GoString
  interval : Int
  burst : Int
  deriving DecidableEq

/-- `Validate`, as a check. -/
def Bucket.validate (b : Bucket) : Bool :=
  !(decide (b.key = []) || decide (b.interval < microsecond) || decide (b.interval%microsecond ≠ 0) ||
    decide (b.interval > day) || decide (b.burst < 1) || decide (b.burst > 1000000) ||
    decide (b.burst > 30*day/b.interval))

structure Limiter where
  maxEntries : Int := 0
  ns : GoString := []
  deriving DecidableEq

inductive Cause where
  | store (e : State.Error)
  | corrupt
  | capacity
  deriving DecidableEq

inductive Failure where
  | invalid
  | unavailable (cause : Cause)
  deriving DecidableEq

section Check
variable (sha256 : Bytes → Bytes)

def hashKey (s : GoString) : GoString := hexEncode (sha256 s)

def Limiter.start (l : Limiter) : GoString := "rate/" ++ hashKey sha256 l.ns ++ "/"

def Limiter.limit (l : Limiter) : Int := if l.maxEntries = 0 then 4096 else l.maxEntries

def bucketKeys (start : GoString) : List GoString → List Bucket → Option (List GoString)
  | _, [] => some []
  | seen, b :: bs =>
    if b.validate = false then none
    else if start ++ hashKey sha256 b.key ∈ seen then none
    else
      (bucketKeys start ((start ++ hashKey sha256 b.key) :: seen) bs).map
        ((start ++ hashKey sha256 b.key) :: ·)

/-- The part of `Check` before the transaction. -/
def Limiter.keys (l : Limiter) (buckets : List Bucket) : Option (List GoString) :=
  if buckets.length = 0 ∨ buckets.length > 32 then none
  else if l.limit < 1 ∨ l.limit > 10000 then none
  else bucketKeys sha256 (l.start sha256) [] buckets

end Check

structure Progress where
  decision : Decision := {}
  pending : List Record := []
  newKeys : Nat := 0

structure Visit where
  /-- `-time.Duration(b.Burst-1) * b.Interval` -/
  offset : Int
  allowAt : Time
  next : Time

def visit (now : Time) (b : Bucket) (tat : Time) : Visit :=
  let offset := int64 (-(b.burst-1)*b.interval)
  { offset := offset, allowAt := tat+offset, next := (if tat < now then now else tat)+b.interval }

/-- One pass of the loop over the buckets. -/
def Progress.visit (p : Progress) (now : Time) (b : Bucket) (k : GoString) (tat : Time)
    (isNew : Bool) : Progress :=
  let v := Ratelimit.visit now b tat
  { decision :=
      if now < v.allowAt then
        { allowed := false, retryAfter := max p.decision.retryAfter (sub v.allowAt now) }
      else p.decision
    pending := p.pending ++ [⟨k,putUint64 (unixMicro v.next),v.next⟩]
    newKeys := if isNew then p.newKeys+1 else p.newKeys }

/-- The loop over the buckets, each with its key. -/
def examine (ctx : Context) (now : Time) :
    List (Bucket × GoString) → Progress → Tx → Except Cause Progress × Tx
  | [], p, t => (.ok p,t)
  | (b,k) :: rest, p, t =>
    match t.get ctx k with
    | (.error .notFound,t) => examine ctx now rest (p.visit now b k now true) t
    | (.error e,t) => (.error (.store e),t)
    | (.ok r,t) =>
      if r.value.length ≠ 8 then (.error .corrupt,t)
      else examine ctx now rest (p.visit now b k (ofUnixMicro (getInt64 r.value)) false) t

def dead (now : Time) (seen : List GoString) (r : Record) : Bool :=
  r.expired now && decide (r.key ∉ seen)

def reclaim (ctx : Context) (now : Time) (seen : List GoString) :
    List Record → Nat → Tx → Except Cause Nat × Tx
  | [], live, t => (.ok live,t)
  | r :: rs, live, t =>
    if dead now seen r then
      match t.delete ctx r.key with
      | (.error e,t) => (.error (.store e),t)
      | (.ok _,t) => reclaim ctx now seen rs live t
    else reclaim ctx now seen rs (live+1) t

def putAll (ctx : Context) : List Record → Tx → Except Cause Unit × Tx
  | [], t => (.ok (),t)
  | r :: rs, t =>
    match t.put ctx r with
    | (.error e,t) => (.error (.store e),t)
    | (.ok _,t) => putAll ctx rs t

/-- The capacity check, made when a key is new. -/
def makeRoom (ctx : Context) (now : Time) (start : GoString) (limit : Int) (ks : List GoString)
    (newKeys : Nat) (t : Tx) : Except Cause Unit × Tx :=
  if newKeys = 0 then (.ok (),t)
  else
    match t.list ctx start [] limit with
    | (.error e,t) => (.error (.store e),t)
    | (.ok records,t) =>
      match reclaim ctx now ks records 0 t with
      | (.error e,t) => (.error e,t)
      | (.ok live,t) =>
        if ((live+newKeys : Nat) : Int) > limit then (.error .capacity,t) else (.ok (),t)

/-- The callback of `Check`. -/
def account (ctx : Context) (start : GoString) (limit : Int) (buckets : List Bucket)
    (ks : List GoString) (t : Tx) : Except Cause Decision × Tx :=
  let now := truncate t.now
  match examine ctx now (buckets.zip ks) {} t with
  | (.error e,t) => (.error e,t)
  | (.ok p,t) =>
    if p.decision.allowed = false then (.ok p.decision,t)
    else
      match makeRoom ctx now start limit ks p.newKeys t with
      | (.error e,t) => (.error e,t)
      | (.ok _,t) =>
        match putAll ctx p.pending t with
        | (.error e,t) => (.error e,t)
        | (.ok _,t) => (.ok p.decision,t)

def Limiter.check (sha256 : Bytes → Bytes) (l : Limiter) (ctx : Context) (now : Time)
    (buckets : List Bucket) (m : Memory) : Except Failure Decision × Memory :=
  match l.keys sha256 buckets with
  | none => (.error .invalid,m)
  | some ks =>
    match m.update ctx now ((l.start sha256 ++ "capacity") :: ks) Cause.store
        (account ctx (l.start sha256) l.limit buckets ks) with
    | (.error e,m) => (.error (.unavailable e),m)
    | (.ok d,m) => (.ok d,m)

theorem int64_of_fits {n : Int} (h₁ : minInt ≤ n) (h₂ : n ≤ maxInt) : int64 n = n := by
  unfold int64 minInt maxInt at *
  rw [Int.bmod_def]
  omega

theorem getInt64_putUint64 (n : Int) : getInt64 (putUint64 n) = int64 n := by
  have hu : (n%2^64).toNat < 2^64 := by omega
  have hbyte : ∀ x : Nat, (x%256).toUInt8.toNat = x%256 := fun x => by simp [UInt8.toNat_ofNat']
  have hsum : (putUint64 n).foldl (fun n d => n*256+d.toNat) 0 = (n%2^64).toNat := by
    simp only [putUint64,List.foldl,hbyte]
    generalize (n%2^64).toNat = u at hu
    -- each byte completes the quotient read so far
    have hread : ∀ k, u/2^(k+8)*256+u/2^k%256 = u/2^k := by
      intro k
      rw [Nat.pow_add,← Nat.div_div_eq_div_mul]
      exact Nat.div_add_mod' (u/2^k) 256
    have h56 : 0*256+u/2^56%256 = u/2^56 := by omega
    have h0 : u/2^8*256+u%256 = u := Nat.div_add_mod' u 256
    rw [h56,hread 48,hread 40,hread 32,hread 24,hread 16,hread 8,h0]
  rw [getInt64,hsum,int64,int64,Int.toNat_of_nonneg (by omega)]
  exact Int.emod_bmod n (2^64)

theorem truncate_aligned (t : Time) : truncate t%microsecond = 0 := by
  unfold truncate microsecond Time
  omega

variable {t u : Time} {m : Memory} {start : GoString} {b : Bucket}

theorem truncate_mono (h : t ≤ u) : truncate t ≤ truncate u := by
  unfold truncate microsecond Time at *
  omega

theorem le_truncate (ha : t%microsecond = 0) : t ≤ truncate u ↔ t ≤ u := by
  unfold truncate microsecond Time at *
  omega

def Writable (t : Time) : Prop :=
  minInt ≤ (t-unixEpoch)/microsecond ∧ (t-unixEpoch)/microsecond ≤ maxInt

theorem Writable.between {v : Time} (ht : Writable t) (hv : Writable v) (h₁ : t ≤ u) (h₂ : u ≤ v) :
    Writable u := by
  unfold Writable microsecond Time at *
  omega

theorem int64_unixMicro (t : Time) : int64 (unixMicro t) = unixMicro t := Int.bmod_bmod

theorem ofUnixMicro_unixMicro (ha : t%microsecond = 0) (hw : Writable t) :
    ofUnixMicro (unixMicro t) = t := by
  rw [unixMicro,int64_of_fits hw.1 hw.2]
  unfold ofUnixMicro unixEpoch microsecond Time at *
  omega

def assess (m : Memory) (now : Time) : List (Bucket × GoString) → Progress → Except Cause Progress
  | [], p => .ok p
  | (b,k) :: rest, p =>
    match m.records.lookup k with
    | none => assess m now rest (p.visit now b k now true)
    | some r =>
      if r.value.length ≠ 8 then .error .corrupt
      else assess m now rest (p.visit now b k (ofUnixMicro (getInt64 r.value)) false)

section Transaction
variable {ctx : Context} {now : Time} {t : Tx}

theorem examine_spec {bks : List (Bucket × GoString)} (hk : ∀ x ∈ bks, validKey x.2 = true)
    (hf : ∀ k, t.find k = t.memory.records.lookup k) (p : Progress) :
    t.Asked (examine ctx now bks p t).2 ∧
    ctx.Cuts (.store .context) (examine ctx now bks p t).1 (assess t.memory now bks p) := by
  induction bks generalizing t p with
  | nil => exact ⟨.refl t,.inr rfl⟩
  | cons x rest ih =>
    obtain ⟨b,k⟩ := x
    obtain ⟨hasked,hget⟩ := @Tx.get_spec t ctx k (hk _ List.mem_cons_self)
    have hrest := fun p => @ih t.asked (fun x hx => hk x (List.mem_cons_of_mem _ hx)) hf p
    rcases hg : t.get ctx k with ⟨got,t₁⟩
    rw [hg] at hasked hget
    replace hasked : t₁ = t.asked := hasked
    subst hasked
    unfold examine assess
    rw [hg]
    rcases hget with ⟨he,hn⟩ | he
    · cases he
      exact ⟨.once t,.inl ⟨rfl,hn⟩⟩
    rw [Tx.getResult,hf k] at he
    cases hl : t.memory.records.lookup k with
    | none =>
      rw [hl] at he
      cases he
      obtain ⟨hask,hcut⟩ := hrest (p.visit now b k now true)
      exact ⟨(Tx.Asked.once t).trans hask,hcut⟩
    | some r =>
      rw [hl] at he
      cases he
      simp only
      split
      · exact ⟨.once t,.inr rfl⟩
      · obtain ⟨hask,hcut⟩ := hrest (p.visit now b k (ofUnixMicro (getInt64 r.value)) false)
        exact ⟨(Tx.Asked.once t).trans hask,hcut⟩

theorem reclaim_spec {seen : List GoString} {rs : List Record}
    (hk : ∀ r ∈ rs, validKey r.key = true) (live : Nat) :
    (reclaim ctx now seen rs live t).1 = .error (.store .context) ∧ (∃ n, ctx n = true) ∨
    (reclaim ctx now seen rs live t).1 =
        .ok (live+(rs.filter fun r => !dead now seen r).length) ∧
      (reclaim ctx now seen rs live t).2.memory = t.memory ∧
      ∀ j, (reclaim ctx now seen rs live t).2.find j =
        if j ∈ (rs.filter (dead now seen)).map Record.key then none else t.find j := by
  induction rs generalizing t live with
  | nil => exact .inr ⟨rfl,rfl,fun j => by simp [reclaim]⟩
  | cons r rest ih =>
    have hrest := fun x hx => hk x (List.mem_cons_of_mem r hx)
    unfold reclaim
    by_cases hd : dead now seen r = true
    · rw [if_pos hd]
      rcases hdel : t.delete ctx r.key with ⟨res,t₁⟩
      have hspec := @Tx.delete_spec t ctx r.key (hk r List.mem_cons_self)
      rw [hdel] at hspec
      rcases hspec with ⟨he,hn⟩ | ⟨he,hmem,hfind⟩
      · cases he
        exact .inl ⟨rfl,hn⟩
      cases he
      rcases @ih t₁ hrest live with h | ⟨hres,hmem',hfind'⟩
      · exact .inl h
      refine .inr ⟨?_,hmem'.trans hmem,fun j => ?_⟩
      · rw [List.filter_cons_of_neg (by simp [hd])]
        exact hres
      rw [List.filter_cons_of_pos hd,List.map_cons]
      refine (hfind' j).trans ?_
      by_cases hj : j = r.key
      · rw [if_pos (List.mem_cons.mpr (.inl hj))]
        split
        · rfl
        · exact (hfind j).trans (if_pos hj)
      · rw [show t₁.find j = t.find j from (hfind j).trans (if_neg hj)]
        simp only [List.mem_cons,hj,false_or]
    · rw [if_neg hd]
      rcases @ih t hrest (live+1) with h | ⟨hres,hmem',hfind'⟩
      · exact .inl h
      refine .inr ⟨?_,hmem',fun j => ?_⟩
      · rw [List.filter_cons_of_pos (by simp [hd]),List.length_cons,hres]
        congr 1
        omega
      · rw [List.filter_cons_of_neg hd]
        exact hfind' j

theorem putAll_spec {rs : List Record} (hk : ∀ r ∈ rs, validKey r.key = true)
    (hd : (rs.map Record.key).Nodup) :
    (putAll ctx rs t).1 = .error (.store .context) ∧ (∃ n, ctx n = true) ∨
    (putAll ctx rs t).1 = .ok () ∧ (putAll ctx rs t).2.memory = t.memory ∧
      ∀ j, (putAll ctx rs t).2.find j = (rs.find? (fun r => r.key = j)).or (t.find j) := by
  induction rs generalizing t with
  | nil => exact .inr ⟨rfl,rfl,fun j => rfl⟩
  | cons r rest ih =>
    obtain ⟨hne,hrest⟩ := List.nodup_cons.mp hd
    unfold putAll
    rcases hput : t.put ctx r with ⟨res,t₁⟩
    have hspec := @Tx.put_spec t ctx r (hk r List.mem_cons_self)
    rw [hput] at hspec
    rcases hspec with ⟨he,hn⟩ | ⟨he,hmem,hfind⟩
    · cases he
      exact .inl ⟨rfl,hn⟩
    cases he
    rcases @ih t₁ (fun x hx => hk x (List.mem_cons_of_mem r hx)) hrest with h | ⟨hres,hmem',hfind'⟩
    · exact .inl h
    refine .inr ⟨hres,hmem'.trans hmem,fun j => (hfind' j).trans ?_⟩
    by_cases hj : r.key = j
    · have hnone : rest.find? (fun r => r.key = j) = none := by
        rw [List.find?_eq_none]
        intro x hx hxj
        simp only [decide_eq_true_eq] at hxj
        exact hne (hj.trans hxj.symm ▸ List.mem_map_of_mem hx)
      rw [hnone,List.find?_cons_of_pos (by simpa using hj)]
      exact (hfind j).trans (if_pos hj.symm)
    · rw [List.find?_cons_of_neg (by simpa using hj)]
      rw [show t₁.find j = t.find j from (hfind j).trans (if_neg (Ne.symm hj))]

end Transaction

abbrev fresh (m : Memory) (now : Time) (polls : Nat) : Tx :=
  { memory := m, keyed := State.keyed_empty, now := now, polls := polls }

def listed (m : Memory) (start : GoString) (limit : Int) : List Record :=
  (((fresh m 0 0).keys start []).take limit.toNat).filterMap m.records.lookup

def gone (m : Memory) (start : GoString) (limit : Int) (now : Time) (ks : List GoString)
    (newKeys : Nat) : List GoString :=
  if newKeys = 0 then [] else ((listed m start limit).filter (dead now ks)).map Record.key

def Room (m : Memory) (start : GoString) (limit : Int) (now : Time) (ks : List GoString)
    (newKeys : Nat) : Prop :=
  newKeys ≠ 0 →
    ((((listed m start limit).filter fun r => !dead now ks r).length+newKeys : Nat) : Int) ≤ limit

theorem mem_listed {limit : Int} {r : Record}
    (h : r ∈ listed m start limit) : m.records.lookup r.key = some r ∧ start <+: r.key := by
  obtain ⟨k,hk,hr⟩ := List.mem_filterMap.mp h
  have hkey := (m.keyed k r hr).1
  rw [hkey]
  exact ⟨hr,(Tx.mem_keys.mp (List.mem_of_mem_take hk)).2.1⟩

section Transaction
variable {ctx : Context} {m : Memory} {now : Time} {n : Nat}

theorem makeRoom_spec {start : GoString} {limit : Int} {ks : List GoString} {newKeys : Nat}
    {clock : Time} (h₁ : 1 ≤ limit) (h₂ : limit ≤ 10000) :
    (makeRoom ctx now start limit ks newKeys (fresh m clock n)).1 = .error (.store .context) ∧
      (∃ n, ctx n = true) ∨
    (makeRoom ctx now start limit ks newKeys (fresh m clock n)).1 = .error .capacity ∧
      ¬Room m start limit now ks newKeys ∨
    (makeRoom ctx now start limit ks newKeys (fresh m clock n)).1 = .ok () ∧
      Room m start limit now ks newKeys ∧
      (makeRoom ctx now start limit ks newKeys (fresh m clock n)).2.memory = m ∧
      ∀ j, (makeRoom ctx now start limit ks newKeys (fresh m clock n)).2.find j =
        if j ∈ gone m start limit now ks newKeys then none else m.records.lookup j := by
  unfold makeRoom gone Room
  split
  · rename_i h0
    exact .inr (.inr ⟨rfl,fun h => absurd h0 h,rfl,fun j => by simp [Tx.find]⟩)
  rename_i h0
  rcases hlist : (fresh m clock n).list ctx start [] limit with ⟨res,t₁⟩
  have hspec := @Tx.list_spec (fresh m clock n) ctx start [] limit h₁ h₂
  rw [hlist] at hspec
  obtain ⟨⟨n₁,ht₁⟩,hcut⟩ := hspec
  replace ht₁ : t₁ = fresh m clock n₁ := ht₁
  subst ht₁
  rcases hcut with ⟨he,hn⟩ | he
  · cases he
    exact .inl ⟨rfl,hn⟩
  replace he : res = .ok (listed m start limit) := he
  subst he
  simp only
  rcases hrec : reclaim ctx now ks (listed m start limit) 0 (fresh m clock n₁) with ⟨res,t₂⟩
  have hspec := @reclaim_spec ctx now (fresh m clock n₁) ks (listed m start limit)
    (fun r hr => (m.keyed _ _ (mem_listed hr).1).2) 0
  rw [hrec] at hspec
  rcases hspec with ⟨he,hn⟩ | ⟨he,hmem,hfind⟩
  · cases he
    exact .inl ⟨rfl,hn⟩
  cases he
  simp only [Nat.zero_add]
  split
  · rename_i hover
    refine .inr (.inl ⟨rfl,fun hroom => ?_⟩)
    have := hroom h0
    omega
  · rename_i hroom
    exact .inr (.inr ⟨rfl,fun _ => by omega,hmem,hfind⟩)

end Transaction

def book (m : Memory) : Gcra.Book GoString := fun k =>
  (m.records.lookup k).map fun r => ofUnixMicro (getInt64 r.value)

def assessed (m : Memory) (now : Time) (bks : List (Bucket × GoString)) (p : Progress) : Progress :=
  bks.foldl (fun p x => p.visit now x.1 x.2 ((book m).tat now x.2) (m.records.lookup x.2).isNone) p

def Intact (m : Memory) (ks : List GoString) : Prop :=
  ∀ k ∈ ks, ∀ r, m.records.lookup k = some r → r.value.length = 8

theorem assess_eq (m : Memory) (now : Time) (bks : List (Bucket × GoString)) (p : Progress) :
    Intact m (bks.map Prod.snd) ∧ assess m now bks p = .ok (assessed m now bks p) ∨
    ¬Intact m (bks.map Prod.snd) ∧ assess m now bks p = .error .corrupt := by
  induction bks generalizing p with
  | nil => exact .inl ⟨fun k hk => absurd hk List.not_mem_nil,rfl⟩
  | cons x rest ih =>
    obtain ⟨b,k⟩ := x
    have hcons : Intact m (((b,k) :: rest).map Prod.snd) ↔
        (∀ r, m.records.lookup k = some r → r.value.length = 8) ∧ Intact m (rest.map Prod.snd) := by
      simp [Intact]
    rw [hcons]
    unfold assess
    cases hl : m.records.lookup k with
    | none =>
      have htat : (book m).tat now k = now := by simp [Gcra.Book.tat,book,hl]
      have hstep : assessed m now ((b,k) :: rest) p = assessed m now rest (p.visit now b k now true) := by
        simp [assessed,htat,hl]
      rw [hstep]
      rcases ih (p.visit now b k now true) with ⟨hi,he⟩ | ⟨hi,he⟩
      · exact .inl ⟨⟨by rintro r ⟨⟩,hi⟩,he⟩
      · exact .inr ⟨fun h => hi h.2,he⟩
    | some r =>
      have htat : (book m).tat now k = ofUnixMicro (getInt64 r.value) := by
        rw [Gcra.Book.tat,book,hl,Option.map_some,Option.getD_some]
      have hstep : assessed m now ((b,k) :: rest) p =
          assessed m now rest (p.visit now b k (ofUnixMicro (getInt64 r.value)) false) := by
        simp [assessed,htat,hl]
      rw [hstep]
      dsimp only
      by_cases h8 : r.value.length = 8
      · rw [if_neg (not_not.mpr h8)]
        rcases ih (p.visit now b k (ofUnixMicro (getInt64 r.value)) false) with ⟨hi,he⟩ | ⟨hi,he⟩
        · refine .inl ⟨⟨fun r' hr' => ?_,hi⟩,he⟩
          cases hr'
          exact h8
        · exact .inr ⟨fun h => hi h.2,he⟩
      · rw [if_pos h8]
        exact .inr ⟨fun h => h8 (h.1 r rfl),rfl⟩

inductive Checked (sha256 : Bytes → Bytes) (l : Limiter) (ctx : Context) (now : Time)
    (buckets : List Bucket) (m : Memory) : Except Failure Decision × Memory → Prop where
  | invalid (hk : l.keys sha256 buckets = none) : Checked sha256 l ctx now buckets m (.error .invalid,m)
  | badKey {ks : List GoString} (hk : l.keys sha256 buckets = some ks)
      (hv : ¬∀ k ∈ (l.start sha256 ++ utf8 "capacity") :: ks, validKey k = true) :
      Checked sha256 l ctx now buckets m (.error (.unavailable (.store .invalid)),m)
  | cancelled {ks : List GoString} (hk : l.keys sha256 buckets = some ks)
      (hc : ∃ n, ctx n = true) :
      Checked sha256 l ctx now buckets m (.error (.unavailable (.store .context)),m)
  | corrupt {ks : List GoString} (hk : l.keys sha256 buckets = some ks) (hi : ¬Intact m ks) :
      Checked sha256 l ctx now buckets m (.error (.unavailable .corrupt),m)
  | denied {ks : List GoString} (hk : l.keys sha256 buckets = some ks)
      (hv : ∀ k ∈ (l.start sha256 ++ utf8 "capacity") :: ks, validKey k = true) (hi : Intact m ks)
      (hd : (assessed m (truncate now) (buckets.zip ks) {}).decision.allowed = false) :
      Checked sha256 l ctx now buckets m
        (.ok (assessed m (truncate now) (buckets.zip ks) {}).decision,m)
  | full {ks : List GoString} (hk : l.keys sha256 buckets = some ks) (hi : Intact m ks)
      (hd : (assessed m (truncate now) (buckets.zip ks) {}).decision.allowed = true)
      (hroom : ¬Room m (l.start sha256) l.limit (truncate now) ks
        (assessed m (truncate now) (buckets.zip ks) {}).newKeys) :
      Checked sha256 l ctx now buckets m (.error (.unavailable .capacity),m)
  | charged {ks : List GoString} {m' : Memory} (hk : l.keys sha256 buckets = some ks)
      (hi : Intact m ks)
      (hd : (assessed m (truncate now) (buckets.zip ks) {}).decision.allowed = true)
      (hroom : Room m (l.start sha256) l.limit (truncate now) ks
        (assessed m (truncate now) (buckets.zip ks) {}).newKeys)
      (hm : ∀ j, m'.records.lookup j =
        ((assessed m (truncate now) (buckets.zip ks) {}).pending.find? fun r => r.key = j).or
          (if j ∈ gone m (l.start sha256) l.limit (truncate now) ks
            (assessed m (truncate now) (buckets.zip ks) {}).newKeys
          then none else m.records.lookup j)) :
      Checked sha256 l ctx now buckets m
        (.ok (assessed m (truncate now) (buckets.zip ks) {}).decision,m')

section Keys
variable {sha256 : Bytes → Bytes} {l : Limiter} {buckets : List Bucket} {ks : List GoString}

theorem bucketKeys_some {seen : List GoString}
    (h : bucketKeys sha256 start seen buckets = some ks) :
    ks = buckets.map (fun b => start ++ hashKey sha256 b.key) ∧ ks.Nodup ∧ (∀ k ∈ ks, k ∉ seen) ∧
      ∀ b ∈ buckets, b.validate = true := by
  induction buckets generalizing seen ks with
  | nil =>
    cases h
    exact ⟨rfl,.nil,by simp,by simp⟩
  | cons b rest ih =>
    unfold bucketKeys at h
    split at h
    · cases h
    rename_i hv
    split at h
    · cases h
    rename_i hseen
    obtain ⟨ks',hks',rfl⟩ := Option.map_eq_some_iff.mp h
    obtain ⟨he,hd,hns,hall⟩ := ih hks'
    refine ⟨by rw [List.map_cons,← he],List.nodup_cons.mpr ⟨fun hm => ?_,hd⟩,?_,?_⟩
    · exact hns _ hm List.mem_cons_self
    · intro k hk
      rcases List.mem_cons.mp hk with rfl | hk
      · exact hseen
      · exact fun hm => hns k hk (List.mem_cons_of_mem _ hm)
    intro b' hb'
    rcases List.mem_cons.mp hb' with rfl | hb'
    · simpa using hv
    · exact hall b' hb'

structure Limiter.Keyed (sha256 : Bytes → Bytes) (l : Limiter) (buckets : List Bucket)
    (ks : List GoString) : Prop where
  eq : ks = buckets.map fun b => l.start sha256 ++ hashKey sha256 b.key
  nodup : ks.Nodup
  valid : ∀ b ∈ buckets, b.validate = true
  low : 1 ≤ l.limit
  high : l.limit ≤ 10000

theorem Limiter.keys_some (h : l.keys sha256 buckets = some ks) : l.Keyed sha256 buckets ks := by
  unfold Limiter.keys at h
  split at h
  · cases h
  split at h
  · cases h
  · obtain ⟨he,hd,-,hv⟩ := bucketKeys_some h
    exact ⟨he,hd,hv,by omega,by omega⟩

theorem Limiter.Keyed.length (h : l.Keyed sha256 buckets ks) : buckets.length = ks.length := by
  rw [h.eq,List.length_map]

theorem Limiter.Keyed.zip_snd (h : l.Keyed sha256 buckets ks) : (buckets.zip ks).map Prod.snd = ks :=
  List.map_snd_zip h.length.ge

end Keys

def renewed (m : Memory) (now : Time) (x : Bucket × GoString) : Record :=
  let next := (visit now x.1 ((book m).tat now x.2)).next
  ⟨x.2,putUint64 (unixMicro next),next⟩

theorem assessed_pending (m : Memory) (now : Time) (bks : List (Bucket × GoString)) (p : Progress) :
    (assessed m now bks p).pending = p.pending ++ bks.map (renewed m now) := by
  induction bks generalizing p with
  | nil => exact (List.append_nil _).symm
  | cons x rest ih =>
    change (assessed m now rest _).pending = _
    rw [ih,List.map_cons]
    exact List.append_assoc _ [renewed m now x] _

theorem assessed_newKeys (m : Memory) (now : Time) (bks : List (Bucket × GoString)) (p : Progress) :
    (assessed m now bks p).newKeys =
      p.newKeys+(bks.filter fun x => (m.records.lookup x.2).isNone).length := by
  induction bks generalizing p with
  | nil => rfl
  | cons x rest ih =>
    change (assessed m now rest _).newKeys = _
    rw [ih,List.filter_cons]
    unfold Progress.visit
    dsimp only
    split
    · rw [List.length_cons]
      omega
    · rfl

theorem renewed_keys (m : Memory) (now : Time) (bks : List (Bucket × GoString)) :
    (bks.map (renewed m now)).map Record.key = bks.map Prod.snd := by
  rw [List.map_map]
  rfl

theorem account_spec {ctx : Context} {start : GoString} {limit : Int} {buckets : List Bucket}
    {ks : List GoString} {m : Memory} {now : Time} {n : Nat} (h₁ : 1 ≤ limit) (h₂ : limit ≤ 10000)
    (hv : ∀ k ∈ ks, validKey k = true) (hsnd : (buckets.zip ks).map Prod.snd = ks) (hd : ks.Nodup) :
    let p := assessed m (truncate now) (buckets.zip ks) {}
    let r := account ctx start limit buckets ks (fresh m now n)
    r.1 = .error (.store .context) ∧ (∃ n, ctx n = true) ∨
    r.1 = .error .corrupt ∧ ¬Intact m ks ∨
    Intact m ks ∧ p.decision.allowed = false ∧ r.1 = .ok p.decision ∧ r.2.commit = m ∨
    Intact m ks ∧ p.decision.allowed = true ∧
      (r.1 = .error .capacity ∧ ¬Room m start limit (truncate now) ks p.newKeys ∨
       r.1 = .ok p.decision ∧ Room m start limit (truncate now) ks p.newKeys ∧
        ∀ j, r.2.find j = (p.pending.find? fun x => x.key = j).or
          (if j ∈ gone m start limit (truncate now) ks p.newKeys then none
          else m.records.lookup j)) := by
  intro p r
  have hkeys : ∀ x ∈ buckets.zip ks, validKey x.2 = true := fun x hx =>
    hv x.2 (hsnd ▸ List.mem_map_of_mem hx)
  have hspec := @examine_spec ctx (truncate now) (fresh m now n) (buckets.zip ks) hkeys
    (fun _ => rfl) {}
  have hr : r = account ctx start limit buckets ks (fresh m now n) := rfl
  unfold account at hr
  dsimp only at hr
  rcases hex : examine ctx (truncate now) (buckets.zip ks) {} (fresh m now n) with ⟨res,t₁⟩
  rw [hex] at hspec hr
  obtain ⟨⟨n₁,ht₁⟩,hcut⟩ := hspec
  replace ht₁ : t₁ = fresh m now n₁ := ht₁
  subst ht₁
  rcases hcut with ⟨he,hn⟩ | he
  · cases he
    exact .inl ⟨by rw [hr],hn⟩
  have hassess := assess_eq m (truncate now) (buckets.zip ks) {}
  rw [hsnd] at hassess
  replace he : res = assess m (truncate now) (buckets.zip ks) {} := he
  rcases hassess with ⟨hi,ha⟩ | ⟨hi,ha⟩
  rotate_left
  · rw [he,ha] at hr
    exact .inr (.inl ⟨by rw [hr],hi⟩)
  rw [he,ha] at hr
  dsimp only at hr
  by_cases hall : p.decision.allowed = false
  · rw [if_pos hall] at hr
    exact .inr (.inr (.inl ⟨hi,hall,by rw [hr],by rw [hr]; rfl⟩))
  rw [if_neg hall] at hr
  replace hall : p.decision.allowed = true := by simpa using hall
  have hroom := @makeRoom_spec ctx m (truncate now) n₁ start limit ks p.newKeys now h₁ h₂
  rcases hmr : makeRoom ctx (truncate now) start limit ks p.newKeys (fresh m now n₁) with ⟨res,t₂⟩
  rw [hmr] at hroom hr
  rcases hroom with ⟨he,hn⟩ | ⟨he,hfull⟩ | ⟨he,hok,hmem,hfind⟩
  · cases he
    exact .inl ⟨by rw [hr],hn⟩
  · cases he
    exact .inr (.inr (.inr ⟨hi,hall,.inl ⟨by rw [hr],hfull⟩⟩))
  cases he
  dsimp only at hr
  have hpend : p.pending = (buckets.zip ks).map (renewed m (truncate now)) :=
    assessed_pending m (truncate now) (buckets.zip ks) {}
  have hpkeys : p.pending.map Record.key = ks := by
    rw [hpend,renewed_keys,hsnd]
  have hput := @putAll_spec ctx t₂ p.pending
    (fun x hx => hv x.key (hpkeys ▸ List.mem_map_of_mem hx)) (hpkeys ▸ hd)
  rcases hpa : putAll ctx p.pending t₂ with ⟨res,t₃⟩
  rw [hpa] at hput hr
  rcases hput with ⟨he,hn⟩ | ⟨he,-,hfind'⟩
  · cases he
    exact .inl ⟨by rw [hr],hn⟩
  cases he
  refine .inr (.inr (.inr ⟨hi,hall,.inr ⟨by rw [hr],hok,fun j => ?_⟩⟩))
  rw [hr]
  refine (hfind' j).trans ?_
  rw [show t₂.find j = _ from hfind j]

theorem check_cases (sha256 : Bytes → Bytes) (l : Limiter) (ctx : Context) (now : Time)
    (buckets : List Bucket) (m : Memory) :
    Checked sha256 l ctx now buckets m (l.check sha256 ctx now buckets m) := by
  unfold Limiter.check
  cases hk : l.keys sha256 buckets with
  | none => exact .invalid hk
  | some ks =>
    have hkeyed := Limiter.keys_some hk
    dsimp only
    unfold Memory.update
    rw [if_neg (List.cons_ne_nil _ _)]
    by_cases hv : ∀ k ∈ (l.start sha256 ++ utf8 "capacity") :: ks, validKey k = true
    rotate_left
    · obtain ⟨k,hmem,hbad⟩ : ∃ k ∈ (l.start sha256 ++ utf8 "capacity") :: ks, validKey k ≠ true := by
        push Not at hv
        exact hv
      rw [if_pos (List.any_eq_true.mpr ⟨k,hmem,by simpa using hbad⟩)]
      exact .badKey hk hv
    rw [if_neg (by simpa using hv)]
    by_cases hc : ctx 0 = true
    · rw [if_pos hc]
      exact .cancelled hk ⟨0,hc⟩
    rw [if_neg hc]
    have hspec := @account_spec ctx (l.start sha256) l.limit buckets ks m now 1 hkeyed.low hkeyed.high
      (fun k hk => hv k (List.mem_cons_of_mem _ hk)) hkeyed.zip_snd hkeyed.nodup
    dsimp only at hspec
    rcases hacc : account ctx (l.start sha256) l.limit buckets ks (fresh m now 1) with ⟨res,t⟩
    rw [hacc] at hspec
    rcases hspec with ⟨he,hn⟩ | ⟨he,hi⟩ | ⟨hi,hd,he,ht⟩ | ⟨hi,hd,⟨he,hfull⟩ | ⟨he,hroom,hfind⟩⟩
    · cases he
      exact .cancelled hk hn
    · cases he
      exact .corrupt hk hi
    · cases he
      dsimp only at ht ⊢
      by_cases hc' : ctx t.polls = true
      · rw [if_pos hc']
        exact .cancelled hk ⟨_,hc'⟩
      · rw [if_neg hc',ht]
        exact .denied hk hv hi hd
    · cases he
      exact .full hk hi hd hfull
    cases he
    dsimp only
    by_cases hc' : ctx t.polls = true
    · rw [if_pos hc']
      exact .cancelled hk ⟨_,hc'⟩
    · rw [if_neg hc']
      exact .charged hk hi hd hroom fun j => (t.lookup_commit j).trans (hfind j)

def Bucket.quota (b : Bucket) : Gcra.Quota := ⟨b.interval,b.burst⟩

def charges (bks : List (Bucket × GoString)) : List (GoString × Gcra.Quota) :=
  bks.map fun x => (x.2,x.1.quota)

structure Bucket.Valid (b : Bucket) : Prop where
  low : microsecond ≤ b.interval
  aligned : b.interval%microsecond = 0
  high : b.interval ≤ day
  burst : 1 ≤ b.burst
  total : b.burst*b.interval ≤ 30*day

theorem Bucket.valid (h : b.validate = true) : b.Valid := by
  simp only [validate,Bool.not_eq_true',Bool.or_eq_false_iff,decide_eq_false_iff_not,not_lt,not_not,
    gt_iff_lt] at h
  obtain ⟨⟨⟨⟨⟨⟨-,hlow⟩,haligned⟩,hhigh⟩,hburst⟩,-⟩,htotal⟩ := h
  have hpos : 0 < b.interval := by
    unfold microsecond at hlow
    omega
  exact ⟨hlow,haligned,hhigh,hburst,(Int.le_ediv_iff_mul_le hpos).mp htotal⟩

theorem Bucket.Valid.quota (h : b.Valid) : b.quota.Valid := by
  refine ⟨?_,h.burst⟩
  have := h.low
  unfold microsecond at this
  show 0 < b.interval
  omega

theorem Bucket.Valid.offset (h : b.Valid) :
    0 ≤ (b.burst-1)*b.interval ∧ (b.burst-1)*b.interval ≤ 30*day := by
  have hi : 0 ≤ b.interval := Int.le_of_lt h.quota.interval
  have hb := h.burst
  have ht := h.total
  refine ⟨Int.mul_nonneg (by omega) hi,?_⟩
  have : (b.burst-1)*b.interval = b.burst*b.interval-b.interval := by ring
  omega

theorem visit_spec (h : b.Valid) (now tat : Time) :
    visit now b tat = { offset := -((b.burst-1)*b.interval), allowAt := b.quota.allowAt tat,
                        next := b.quota.next tat now } := by
  have ho := h.offset
  have hoff : int64 (-(b.burst-1)*b.interval) = -((b.burst-1)*b.interval) := by
    rw [neg_mul]
    apply int64_of_fits
    · unfold day at ho
      unfold minInt
      omega
    · unfold maxInt
      omega
  have hnext : (if tat < now then now else tat) = max tat now := by
    split
    · rename_i hlt
      exact (max_eq_right hlt.le).symm
    · rename_i hge
      exact (max_eq_left (not_lt.mp hge)).symm
  simp only [visit,hoff,hnext,Gcra.Quota.allowAt,Gcra.Quota.next,Bucket.quota]
  rfl

theorem sub_pos {t u : Int} (h : u < t) : sub t u = min (t-u) maxInt := by
  unfold sub
  refine max_eq_right (le_min ?_ ?_)
  · unfold minInt
    omega
  · decide

theorem assessed_decision {now : Time} {bks : List (Bucket × GoString)}
    (hv : ∀ x ∈ bks, x.1.validate = true) (p : Progress) :
    (assessed m now bks p).decision = (book m).decide maxInt now (charges bks) p.decision := by
  induction bks generalizing p with
  | nil => rfl
  | cons x rest ih =>
    have hx := Bucket.valid (hv x List.mem_cons_self)
    change (assessed m now rest _).decision = (book m).decide maxInt now (charges rest)
      (p.decision.visit maxInt x.1.quota ((book m).tat now x.2) now)
    rw [ih fun y hy => hv y (List.mem_cons_of_mem x hy)]
    congr 1
    simp only [Progress.visit,visit_spec hx,Gcra.Decision.visit]
    split
    · rename_i hlt
      rw [sub_pos hlt]
    · rfl

section Retrying
variable {sha256 : Bytes → Bytes} {l : Limiter} {ctx : Context} {now : Time} {buckets : List Bucket}
  {m : Memory} {ks : List GoString}

theorem Limiter.Keyed.zip_valid (h : l.Keyed sha256 buckets ks) :
    ∀ x ∈ buckets.zip ks, x.1.validate = true :=
  fun x hx => h.valid x.1 (List.of_mem_zip hx).1

theorem Limiter.Keyed.charges_valid (h : l.Keyed sha256 buckets ks) :
    ∀ c ∈ charges (buckets.zip ks), c.2.Valid := by
  intro c hc
  obtain ⟨x,hx,rfl⟩ := List.mem_map.mp hc
  exact (Bucket.valid (h.zip_valid x hx)).quota

theorem Limiter.Keyed.zip_key (h : l.Keyed sha256 buckets ks) {x : Bucket × GoString}
    (hx : x ∈ buckets.zip ks) : x.1 ∈ buckets ∧ x.2 = l.start sha256 ++ hashKey sha256 x.1.key := by
  rw [h.eq] at hx
  refine ⟨(List.of_mem_zip hx).1,?_⟩
  generalize buckets = bs at hx
  induction bs with
  | nil => cases hx
  | cons b rest ih =>
    rcases List.mem_cons.mp hx with rfl | hx
    · rfl
    · exact ih hx

theorem Limiter.Keyed.near (h : l.Keyed sha256 buckets ks) {now : Int}
    (hnear : ∀ b ∈ buckets, ∀ r,
      m.records.lookup (l.start sha256 ++ hashKey sha256 b.key) = some r →
      b.quota.allowAt (ofUnixMicro (getInt64 r.value)) ≤ now+maxInt) :
    ∀ c ∈ charges (buckets.zip ks), c.2.allowAt ((book m).tat now c.1) ≤ now+maxInt := by
  intro c hc
  have hcv := h.charges_valid c hc
  obtain ⟨x,hx,rfl⟩ := List.mem_map.mp hc
  obtain ⟨hb,hkey⟩ := h.zip_key hx
  unfold Gcra.Book.tat book
  rw [hkey]
  cases hl : m.records.lookup (l.start sha256 ++ hashKey sha256 x.1.key) with
  | none =>
    rw [Option.map_none,Option.getD_none]
    exact (hcv.allowAt_le now).trans (le_add_of_nonneg_right (by decide))
  | some r =>
    rw [Option.map_some,Option.getD_some]
    exact hnear x.1 hb r hl

def verdict (m : Memory) (now : Time) (buckets : List Bucket) (ks : List GoString) : Decision :=
  (book m).decide maxInt (truncate now) (charges (buckets.zip ks)) {}

theorem Limiter.Keyed.decision (h : l.Keyed sha256 buckets ks) (m : Memory) (now : Time) :
    (assessed m (truncate now) (buckets.zip ks) {}).decision = verdict m now buckets ks :=
  assessed_decision h.zip_valid {}

theorem check_live (hk : l.keys sha256 buckets = some ks)
    (hv : ∀ k ∈ (l.start sha256 ++ utf8 "capacity") :: ks, validKey k = true) (hi : Intact m ks)
    (hl : ctx.Live) :
    (verdict m now buckets ks).allowed = false ∧
      l.check sha256 ctx now buckets m = (.ok (verdict m now buckets ks),m) ∨
    (verdict m now buckets ks).allowed = true ∧
      ((∃ m', l.check sha256 ctx now buckets m = (.ok (verdict m now buckets ks),m')) ∨
       l.check sha256 ctx now buckets m = (.error (.unavailable .capacity),m)) := by
  have hkeyed := Limiter.keys_some hk
  have hc := check_cases sha256 l ctx now buckets m
  generalize hr : l.check sha256 ctx now buckets m = r at hc
  cases hc with
  | invalid hk' => rw [hk] at hk'; cases hk'
  | badKey hk' hv' =>
    cases hk.symm.trans hk'
    exact absurd hv hv'
  | cancelled hk' hn =>
    obtain ⟨n,hn⟩ := hn
    rw [hl n] at hn
    cases hn
  | corrupt hk' hi' =>
    cases hk.symm.trans hk'
    exact absurd hi hi'
  | denied hk' hv' hi' hd =>
    cases hk.symm.trans hk'
    rw [hkeyed.decision] at hd ⊢
    exact .inl ⟨hd,rfl⟩
  | full hk' hi' hd hroom =>
    cases hk.symm.trans hk'
    rw [hkeyed.decision] at hd
    exact .inr ⟨hd,.inr rfl⟩
  | charged hk' hi' hd hroom hm =>
    cases hk.symm.trans hk'
    rw [hkeyed.decision] at hd ⊢
    exact .inr ⟨hd,.inl ⟨_,rfl⟩⟩

end Retrying

/-- A `Check` that fails or is denied leaves the store alone. Before the time it is told it is
denied again; at that time it is allowed unless there is no room, if no wait is longer than a
duration can be. -/
theorem check_retryAfter (sha256 : Bytes → Bytes) (l : Limiter) (ctx : Context) (now : Time)
    (buckets : List Bucket) (m : Memory) :
    (∀ e, (l.check sha256 ctx now buckets m).1 = .error e →
      (l.check sha256 ctx now buckets m).2 = m) ∧
    ∀ d, (l.check sha256 ctx now buckets m).1 = .ok d → d.allowed = false →
      (l.check sha256 ctx now buckets m).2 = m ∧ 0 < d.retryAfter ∧
      (∀ (ctx' : Context) (t : Time), ctx'.Live → truncate now ≤ truncate t →
        truncate t < truncate now+d.retryAfter →
        ∃ d', l.check sha256 ctx' t buckets m = (.ok d',m) ∧ d'.allowed = false) ∧
      ((∀ b ∈ buckets, ∀ r, m.records.lookup (l.start sha256 ++ hashKey sha256 b.key) = some r →
          b.quota.allowAt (ofUnixMicro (getInt64 r.value)) ≤ truncate now+maxInt) →
        ∀ (ctx' : Context) (t : Time), ctx'.Live → truncate t = truncate now+d.retryAfter →
          (∃ d' m', l.check sha256 ctx' t buckets m = (.ok d',m') ∧ d'.allowed = true) ∨
          l.check sha256 ctx' t buckets m = (.error (.unavailable .capacity),m)) := by
  have hc := check_cases sha256 l ctx now buckets m
  generalize hr : l.check sha256 ctx now buckets m = r at hc
  cases hc with
  | denied hk hv hi hd =>
    rename_i ks
    have hkeyed := Limiter.keys_some hk
    rw [hkeyed.decision] at hd ⊢
    refine ⟨(fun e he => nomatch he),fun d he hallowed => ?_⟩
    cases he
    obtain ⟨hpos,hbefore⟩ := Gcra.Book.decide_refused hkeyed.charges_valid (by decide) hd
    refine ⟨rfl,hpos,fun ctx' t hl ht hlt => ?_,fun hnear ctx' t hl ht => ?_⟩
    · have hdenied := hbefore _ ht hlt
      rcases check_live hk hv hi hl with ⟨h,he⟩ | ⟨h,-⟩
      · exact ⟨_,he,h⟩
      · exact absurd (hdenied.symm.trans h) (by decide)
    have hall := Gcra.Book.decide_after hkeyed.charges_valid (hkeyed.near hnear)
      (ht.symm ▸ (Int.le_add_of_nonneg_right hpos.le)) ht.ge
    rcases check_live hk hv hi hl with ⟨h,-⟩ | ⟨h,⟨m',he⟩ | he⟩
    · exact absurd (h.symm.trans hall) (by decide)
    · exact .inl ⟨_,m',he,h⟩
    · exact .inr he
  | invalid _ | badKey _ _ => exact ⟨fun _ _ => rfl,fun d he => nomatch he⟩
  | cancelled _ _ | corrupt _ _ | full _ _ _ _ => exact ⟨fun _ _ => rfl,fun d he => nomatch he⟩
  | charged hk hi hd hroom hm =>
    refine ⟨(fun e he => nomatch he),fun d he hallowed => ?_⟩
    cases he
    rw [hd] at hallowed
    cases hallowed

namespace Sample

def sha256 : Bytes → Bytes
  | [] =>
    [0xe3,0xb0,0xc4,0x42,0x98,0xfc,0x1c,0x14,0x9a,0xfb,0xf4,0xc8,0x99,0x6f,0xb9,0x24,
     0x27,0xae,0x41,0xe4,0x64,0x9b,0x93,0x4c,0xa4,0x95,0x99,0x1b,0x78,0x52,0xb8,0x55]
  | _ =>
    [0xca,0x97,0x81,0x12,0xca,0x1b,0xbd,0xca,0xfa,0xc2,0x31,0xb3,0x9a,0x23,0xdc,0x4d,
     0xa7,0x86,0xef,0xf8,0x14,0x7c,0x4e,0x72,0xb9,0x80,0x77,0x85,0xaf,0xee,0x48,0xbb]

def live : Context := fun _ => false

def bucket : Bucket := { key := "a", interval := 1000000000, burst := 1 }

def newYear : Time := unixEpoch+1767225600000000000

def used (t : Time) : Memory := (Limiter.check sha256 {} live t [bucket] {}).2

end Sample

set_option maxRecDepth 4000

/-- A second request half a second after the first has to wait for the other half. -/
theorem check_retryAfter_second : ∃ d, (Limiter.check Sample.sha256 {} Sample.live
      (Sample.newYear+500000000) [Sample.bucket] (Sample.used Sample.newYear)).1 = .ok d ∧
    d.retryAfter = 500000000 ∧
    ∃ d' m', Limiter.check Sample.sha256 {} Sample.live (Sample.newYear+1000000000) [Sample.bucket]
      (Sample.used Sample.newYear) = (.ok d',m') ∧ d'.allowed = true := by
  have hdenied : (Limiter.check Sample.sha256 {} Sample.live (Sample.newYear+500000000)
      [Sample.bucket] (Sample.used Sample.newYear)).1 = .ok ⟨false,500000000⟩ := by decide +kernel
  have hallowed : (Limiter.check Sample.sha256 {} Sample.live (Sample.newYear+1000000000)
      [Sample.bucket] (Sample.used Sample.newYear)).1 ≠ .error (.unavailable .capacity) := by
    decide +kernel
  have hnear : ∀ b ∈ [Sample.bucket], ∀ r ∈ (Sample.used Sample.newYear).records.lookup
      (Limiter.start Sample.sha256 {} ++ hashKey Sample.sha256 b.key),
      b.quota.allowAt (ofUnixMicro (getInt64 r.value)) ≤
        truncate (Sample.newYear+500000000)+maxInt := by decide +kernel
  refine ⟨_,hdenied,rfl,?_⟩
  obtain ⟨-,-,-,hafter⟩ := (check_retryAfter Sample.sha256 {} Sample.live
    (Sample.newYear+500000000) [Sample.bucket] (Sample.used Sample.newYear)).2 _ hdenied rfl
  rcases hafter hnear Sample.live (Sample.newYear+1000000000) (fun _ => rfl) (by decide +kernel) with
    h | h
  · exact h
  · rw [h] at hallowed
    exact absurd rfl hallowed

/-- After the clock was set back by 300 years the answer is the longest duration, and after it the
request is still denied. -/
theorem retryAfter_cut : ∃ (t₀ t : Time) (d : Decision),
    (Limiter.check Sample.sha256 {} Sample.live t [Sample.bucket] (Sample.used t₀)).1 = .ok d ∧
    d.allowed = false ∧
    ∃ d', (Limiter.check Sample.sha256 {} Sample.live (t+d.retryAfter) [Sample.bucket]
      (Sample.used t₀)).1 = .ok d' ∧ d'.allowed = false := by
  refine ⟨Sample.newYear+300*365*day,Sample.newYear,⟨false,maxInt⟩,?_,rfl,?_⟩
  · decide +kernel
  · exact ⟨⟨false,237427964145225000⟩,by decide +kernel,rfl⟩

end MicrosoftDM.Ratelimit
