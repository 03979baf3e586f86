import MicrosoftDM.RateLimit

set_option autoImplicit false

namespace MicrosoftDM.Ratelimit
open Mdm (Bytes validKey)
open State
open Gcra (Decision Book Request)

/-- A call on the limiter or on its store, with what Go does not determine. -/
inductive Event where
  | check (ctx : Context) (now : Time) (buckets : List Bucket)
  | prune (ctx : Context) (now : Time) (limit : Int) (order : List GoString)

def Event.now : Event → Time
  | .check _ now _ => now
  | .prune _ now _ _ => now

section Runs
variable (sha256 : Bytes → Bytes) (l : Limiter)

def Event.apply (m : Memory) : Event → Memory
  | .check ctx now buckets => (l.check sha256 ctx now buckets m).2
  | .prune ctx now limit order => (m.prune ctx now limit order).2

def Event.answer (m : Memory) : Event → Option (Request GoString × Decision)
  | .check ctx now buckets =>
    match l.keys sha256 buckets,(l.check sha256 ctx now buckets m).1 with
    | some ks,.ok d => some (⟨truncate now,charges (buckets.zip ks)⟩,d)
    | _,_ => none
  | .prune _ _ _ _ => none

def after (m : Memory) (events : List Event) : Memory := events.foldl (Event.apply sha256 l) m

def answers : Memory → List Event → List (Request GoString × Decision)
  | _, [] => []
  | m, e :: es => (e.answer sha256 l m).toList ++ answers (e.apply sha256 l m) es

def pool (m : Memory) : Book GoString := fun k =>
  if (l.start sha256).isPrefixOf k then book m k else none

def population (m : Memory) : Nat :=
  (m.records.keys.filter fun k => (l.start sha256).isPrefixOf k).length

/-- The limiter's records are its own: each holds the time it expires at, which
is at most 30 days away. -/
def Kept (m : Memory) (now : Int) : Prop :=
  ∀ k r, l.start sha256 <+: k → m.records.lookup k = some r →
    r.value.length = 8 ∧ ofUnixMicro (getInt64 r.value) = r.expiresAt ∧
    r.expiresAt%microsecond = 0 ∧ r.expiresAt ≤ now+30*day

end Runs

/-- The reading of the clock and the time 31 days later can be written in Unix
microseconds. -/
def InRange (now : Time) : Prop := Writable (truncate now) ∧ Writable (truncate now+31*day)

instance (now : Time) : Decidable (InRange now) :=
  inferInstanceAs (Decidable ((_ ∧ _) ∧ _ ∧ _))

variable {k : GoString}

variable {t : Time} {limit now : Int} {x : Bucket × GoString} {done rest : List Event}

section Steps
variable {sha256 : Bytes → Bytes} {l : Limiter} {m m' : Memory} {now : Int}

theorem Kept.later {t : Int} (h : Kept sha256 l m now) (ht : now ≤ t) : Kept sha256 l m t := by
  intro k r hk hl
  obtain ⟨h8,he,ha,hle⟩ := h k r hk hl
  exact ⟨h8,he,ha,le_trans hle (Int.add_le_add_right ht _)⟩

theorem pool_of_start (h : l.start sha256 <+: k) : pool sha256 l m k = book m k := by
  rw [pool,if_pos (List.isPrefixOf_iff_prefix.mpr h)]

theorem pool_of_not_start (h : ¬l.start sha256 <+: k) : pool sha256 l m k = none := by
  rw [pool,if_neg (fun hp => h (List.isPrefixOf_iff_prefix.mp hp))]

theorem Kept.book_eq (h : Kept sha256 l m now) (hk : l.start sha256 <+: k) :
    book m k = (m.records.lookup k).map Record.expiresAt := by
  unfold book
  cases hl : m.records.lookup k with
  | none => rw [Option.map_none,Option.map_none]
  | some r =>
    obtain ⟨-,he,-,-⟩ := h k r hk hl
    rw [Option.map_some,Option.map_some,he]

theorem start_ne_nil : l.start sha256 ≠ [] := by
  have hrate : utf8 "rate/" ≠ [] := by decide
  simp [Limiter.start,hrate]

theorem Kept.pruned (h : Kept sha256 l m now) (hnow : now ≤ truncate t)
    (hp : Memory.Pruned t m m') : Kept sha256 l m' (truncate t) ∧
    ∀ k, pool sha256 l m' k = pool sha256 l m k ∨
      pool sha256 l m' k = none ∧ ∀ tat, pool sha256 l m k = some tat → tat ≤ truncate t := by
  constructor
  · intro k r hk hl
    rcases hp k with he | ⟨he,-⟩
    · exact h.later hnow k r hk (he ▸ hl)
    · rw [he] at hl
      cases hl
  · intro k
    by_cases hk : l.start sha256 <+: k
    · rw [pool_of_start hk,pool_of_start hk,h.book_eq hk]
      rcases hp k with he | ⟨he,r,hr,hexp⟩
      · left
        rw [← h.book_eq hk]
        unfold book
        rw [he]
      right
      refine ⟨by rw [book,he]; rfl,fun tat htat => ?_⟩
      rw [hr] at htat
      cases htat
      simp only [Record.expired,Bool.and_eq_true,decide_eq_true_eq] at hexp
      exact (le_truncate (h k r hk hr).2.2.1).mpr hexp.2
    · exact .inl (by rw [pool_of_not_start hk,pool_of_not_start hk])

theorem population_mono (h : ∀ k r, m'.records.lookup k = some r → ∃ r', m.records.lookup k = some r') :
    population sha256 l m' ≤ population sha256 l m := by
  have hsub : (m'.records.keys.filter fun k => (l.start sha256).isPrefixOf k) ⊆
      m.records.keys.filter fun k => (l.start sha256).isPrefixOf k := by
    intro k hk
    obtain ⟨hk,hpre⟩ := List.mem_filter.mp hk
    obtain ⟨r,hr⟩ := GoMap.lookup_of_mem_keys hk
    obtain ⟨r',hr'⟩ := h k r hr
    exact List.mem_filter.mpr ⟨GoMap.mem_keys_of_lookup hr',hpre⟩
  exact (List.subperm_of_subset (m'.records.nodupKeys.filter _) hsub).length_le

theorem mem_listed_of_lookup (hpop : (population sha256 l m : Int) ≤ limit)
    {r : Record} (hk : l.start sha256 <+: k) (hl : m.records.lookup k = some r) :
    r ∈ listed m (l.start sha256) limit := by
  have hlen : ((fresh m 0 0).keys (l.start sha256) []).length ≤ population sha256 l m := by
    refine (List.subperm_of_subset (Tx.keys_nodup _ _) fun j hj => ?_).length_le
    obtain ⟨hsome,hpre,-⟩ := Tx.mem_keys.mp hj
    obtain ⟨r',hr'⟩ := Option.isSome_iff_exists.mp hsome
    exact List.mem_filter.mpr
      ⟨GoMap.mem_keys_of_lookup hr',List.isPrefixOf_iff_prefix.mpr hpre⟩
  have hlt : [] < k := by
    cases k with
    | nil => exact absurd (List.prefix_nil.mp hk) start_ne_nil
    | cons b rest => exact List.nil_lt_cons b rest
  have hmem : k ∈ (fresh m 0 0).keys (l.start sha256) [] := by
    refine Tx.mem_keys.mpr ⟨?_,hk,hlt⟩
    show (m.records.lookup k).isSome = true
    rw [hl]
    rfl
  unfold listed
  rw [List.take_of_length_le (by omega)]
  exact List.mem_filterMap.mpr ⟨k,hmem,hl⟩

theorem find_renewed (bks : List (Bucket × GoString)) (j : GoString) :
    (bks.map (renewed m now)).find? (fun r => r.key = j) =
      (bks.find? fun x => x.2 = j).map (renewed m now) := by
  rw [List.find?_map]
  rfl

theorem quotaOf_charges (bks : List (Bucket × GoString)) (j : GoString) :
    Gcra.quotaOf j (charges bks) = (bks.find? fun x => x.2 = j).map fun x => x.1.quota := by
  unfold Gcra.quotaOf charges
  rw [List.find?_map,Option.map_map]
  rfl

theorem next_bounds {b : Bucket} (hb : b.Valid) {tat : Int} (ha : tat%microsecond = 0)
    (hn : now%microsecond = 0) (hallow : b.quota.allowAt tat ≤ now) :
    (b.quota.next tat now)%microsecond = 0 ∧ now ≤ b.quota.next tat now ∧
      b.quota.next tat now ≤ now+30*day := by
  have hlow := hb.low
  have halign := hb.aligned
  have htotal := hb.total
  have hoff := hb.offset
  have hmul : b.burst*b.interval = (b.burst-1)*b.interval+b.interval := by ring
  unfold Gcra.Quota.allowAt Bucket.quota at hallow
  unfold Gcra.Quota.next Bucket.quota
  unfold microsecond at *
  dsimp only at hallow ⊢
  rcases max_cases tat now with ⟨he,hle⟩ | ⟨he,hle⟩
  · rw [he]
    omega
  · rw [he]
    omega

end Steps

section Charging
variable {sha256 : Bytes → Bytes} {l : Limiter} {m m' : Memory} {t : Time} {buckets : List Bucket}
  {ks : List GoString}

theorem Limiter.Keyed.start_prefix (h : l.Keyed sha256 buckets ks) (hk : k ∈ ks) :
    l.start sha256 <+: k := by
  rw [h.eq] at hk
  obtain ⟨b,-,rfl⟩ := List.mem_map.mp hk
  exact List.prefix_append _ _

theorem Kept.tat_aligned (h : Kept sha256 l m (truncate t)) (hk : l.start sha256 <+: k) :
    ((book m).tat (truncate t) k)%microsecond = 0 := by
  unfold Gcra.Book.tat
  rw [h.book_eq hk]
  cases hl : m.records.lookup k with
  | none => exact truncate_aligned t
  | some r => exact (h k r hk hl).2.2.1

theorem Limiter.Keyed.record_kept (h : l.Keyed sha256 buckets ks) (hkept : Kept sha256 l m (truncate t))
    (hr : InRange t) (hd : (verdict m t buckets ks).allowed = true)
    (hx : x ∈ buckets.zip ks) :
    (renewed m (truncate t) x).expiresAt =
        x.1.quota.next ((book m).tat (truncate t) x.2) (truncate t) ∧
      (renewed m (truncate t) x).value.length = 8 ∧
      ofUnixMicro (getInt64 (renewed m (truncate t) x).value) =
        (renewed m (truncate t) x).expiresAt ∧
      (renewed m (truncate t) x).expiresAt%microsecond = 0 ∧
      (renewed m (truncate t) x).expiresAt ≤ truncate t+30*day := by
  have hb := Bucket.valid (h.zip_valid x hx)
  have hpre : l.start sha256 <+: x.2 := h.start_prefix (List.of_mem_zip hx).2
  have hallow : x.1.quota.allowAt ((book m).tat (truncate t) x.2) ≤ truncate t :=
    ((Gcra.Book.decided (charges (buckets.zip ks)) {}).allowed.mp hd).2 (x.2,x.1.quota)
      (List.mem_map_of_mem hx)
  obtain ⟨ha,hge,hle⟩ := next_bounds hb (hkept.tat_aligned hpre) (truncate_aligned t) hallow
  have hnext : (renewed m (truncate t) x).expiresAt =
      x.1.quota.next ((book m).tat (truncate t) x.2) (truncate t) := by
    unfold renewed
    rw [visit_spec hb]
  have hvalue : (renewed m (truncate t) x).value =
      putUint64 (unixMicro (renewed m (truncate t) x).expiresAt) := rfl
  rw [hnext] at hvalue ⊢
  refine ⟨rfl,by rw [hvalue]; rfl,?_,ha,hle⟩
  rw [hvalue,getInt64_putUint64,int64_unixMicro]
  exact ofUnixMicro_unixMicro ha (hr.1.between hr.2 hge (hle.trans (Int.add_le_add_left (by decide) _)))

theorem mem_gone {start j : GoString} {n : Nat}
    (h : j ∈ gone m start limit now ks n) :
    j ∉ ks ∧ ∃ r, m.records.lookup j = some r ∧ r.expired now = true := by
  unfold gone at h
  split at h
  · cases h
  obtain ⟨r,hr,rfl⟩ := List.mem_map.mp h
  obtain ⟨hl,hdead⟩ := List.mem_filter.mp hr
  simp only [dead,Bool.and_eq_true,decide_eq_true_eq] at hdead
  exact ⟨hdead.2,r,(mem_listed hl).1,hdead.1⟩

structure Charged (sha256 : Bytes → Bytes) (l : Limiter) (t : Time) (buckets : List Bucket)
    (ks : List GoString) (m m' : Memory) : Prop where
  lookup : ∀ j, m'.records.lookup j =
    (((buckets.zip ks).find? fun x => x.2 = j).map (renewed m (truncate t))).or
      (if j ∈ gone m (l.start sha256) l.limit (truncate t) ks
        (assessed m (truncate t) (buckets.zip ks) {}).newKeys
      then none else m.records.lookup j)

theorem Charged.kept (hc : Charged sha256 l t buckets ks m m') (h : l.Keyed sha256 buckets ks)
    (hkept : Kept sha256 l m (truncate t)) (hr : InRange t)
    (hd : (verdict m t buckets ks).allowed = true) : Kept sha256 l m' (truncate t) := by
  intro k r hk hl
  rw [hc.lookup] at hl
  cases hf : (buckets.zip ks).find? fun x => x.2 = k with
  | some x =>
    rw [hf] at hl
    cases hl
    exact (h.record_kept hkept hr hd (List.mem_of_find?_eq_some hf)).2
  | none =>
    rw [hf] at hl
    replace hl : (if k ∈ gone m (l.start sha256) l.limit (truncate t) ks
        (assessed m (truncate t) (buckets.zip ks) {}).newKeys
      then none else m.records.lookup k) = some r := hl
    split at hl
    · cases hl
    · exact hkept k r hk hl

theorem Charged.pool (hc : Charged sha256 l t buckets ks m m') (h : l.Keyed sha256 buckets ks)
    (hkept : Kept sha256 l m (truncate t)) (hr : InRange t)
    (hd : (verdict m t buckets ks).allowed = true) (k : GoString) :
    let new := (pool sha256 l m).charge (truncate t) (charges (buckets.zip ks))
    pool sha256 l m' k = new k ∨
      pool sha256 l m' k = none ∧ ∀ tat, new k = some tat → tat ≤ truncate t := by
  intro new
  have hkept' := hc.kept h hkept hr hd
  have hnew : new k = match ((buckets.zip ks).find? fun x => x.2 = k) with
      | some x => some (x.1.quota.next ((Ratelimit.pool sha256 l m).tat (truncate t) k) (truncate t))
      | none => Ratelimit.pool sha256 l m k := by
    show Gcra.Book.charge _ _ _ k = _
    unfold Gcra.Book.charge
    rw [quotaOf_charges]
    cases (buckets.zip ks).find? fun x => x.2 = k <;> rfl
  by_cases hk : l.start sha256 <+: k
  · rw [pool_of_start hk,hkept'.book_eq hk,hc.lookup,hnew]
    cases hf : (buckets.zip ks).find? fun x => x.2 = k with
    | some x =>
      left
      have hx : x.2 = k := by simpa using List.find?_some hf
      obtain ⟨he,-⟩ := h.record_kept hkept hr hd (List.mem_of_find?_eq_some hf)
      have htat : (Ratelimit.pool sha256 l m).tat (truncate t) k = (book m).tat (truncate t) x.2 := by
        rw [Gcra.Book.tat,Gcra.Book.tat,pool_of_start hk,hx]
      rw [htat]
      exact congrArg some he
    | none =>
      dsimp only [Option.map_none,Option.none_or]
      split
      · rename_i hg
        obtain ⟨-,r,hl,hexp⟩ := mem_gone hg
        refine .inr ⟨rfl,fun tat htat => ?_⟩
        rw [pool_of_start hk,hkept.book_eq hk,hl] at htat
        cases htat
        simp only [Record.expired,Bool.and_eq_true,decide_eq_true_eq] at hexp
        exact hexp.2
      · left
        rw [pool_of_start hk,hkept.book_eq hk]
  · left
    rw [pool_of_not_start hk,hnew]
    cases hf : (buckets.zip ks).find? fun x => x.2 = k with
    | some x =>
      have hx : x.2 = k := by simpa using List.find?_some hf
      have hmem := (List.of_mem_zip (List.mem_of_find?_eq_some hf)).2
      exact absurd (h.start_prefix (hx ▸ hmem)) hk
    | none => exact (pool_of_not_start hk).symm

theorem Limiter.Keyed.newKeys (h : l.Keyed sha256 buckets ks) (m : Memory) (now : Int) :
    (assessed m now (buckets.zip ks) {}).newKeys =
      (ks.filter fun k => (m.records.lookup k).isNone).length := by
  have hzip := congrArg (List.filter fun k => (m.records.lookup k).isNone) h.zip_snd
  rw [List.filter_map] at hzip
  rw [assessed_newKeys,← hzip,List.length_map]
  exact Nat.zero_add _

theorem Charged.bounded (hc : Charged sha256 l t buckets ks m m') (h : l.Keyed sha256 buckets ks)
    (hroom : Room m (l.start sha256) l.limit (truncate t) ks
      (assessed m (truncate t) (buckets.zip ks) {}).newKeys)
    (hpop : (population sha256 l m : Int) ≤ l.limit) : (population sha256 l m' : Int) ≤ l.limit := by
  have hfound : ∀ k r, m'.records.lookup k = some r → k ∈ ks ∨
      k ∉ gone m (l.start sha256) l.limit (truncate t) ks
        (assessed m (truncate t) (buckets.zip ks) {}).newKeys ∧ m.records.lookup k = some r := by
    intro k r hl
    rw [hc.lookup] at hl
    cases hf : (buckets.zip ks).find? fun x => x.2 = k with
    | some x =>
      have hx : x.2 = k := by simpa using List.find?_some hf
      exact .inl (hx ▸ (List.of_mem_zip (List.mem_of_find?_eq_some hf)).2)
    | none =>
      rw [hf] at hl
      by_cases hg : k ∈ gone m (l.start sha256) l.limit (truncate t) ks
          (assessed m (truncate t) (buckets.zip ks) {}).newKeys
      · rw [if_pos hg] at hl
        cases hl
      · rw [if_neg hg] at hl
        exact .inr ⟨hg,hl⟩
  rw [h.newKeys] at hroom hfound
  by_cases hnone : (ks.filter fun k => (m.records.lookup k).isNone).length = 0
  · -- No key is new, so no record is.
    refine le_trans (Int.ofNat_le.mpr (population_mono fun k r hl => ?_)) hpop
    rcases hfound k r hl with hk | ⟨-,hl⟩
    · have hsome := List.filter_eq_nil_iff.mp (List.eq_nil_of_length_eq_zero hnone) k hk
      exact Option.ne_none_iff_exists'.mp (by simpa using hsome)
    · exact ⟨r,hl⟩
  · -- Every record is a new one, or one of those counted as live.
    have hlen := hroom hnone
    have hsub : (m'.records.keys.filter fun k => (l.start sha256).isPrefixOf k) ⊆
        ((listed m (l.start sha256) l.limit).filter fun r => !dead (truncate t) ks r).map Record.key ++
          ks.filter fun k => (m.records.lookup k).isNone := by
      intro k hk
      obtain ⟨hk,hpre⟩ := List.mem_filter.mp hk
      obtain ⟨r,hl⟩ := GoMap.lookup_of_mem_keys hk
      rw [List.isPrefixOf_iff_prefix] at hpre
      have hlive : ∀ r, m.records.lookup k = some r → dead (truncate t) ks r = false →
          k ∈ ((listed m (l.start sha256) l.limit).filter
            fun r => !dead (truncate t) ks r).map Record.key := by
        intro r hr hdead
        refine List.mem_map.mpr ⟨r,List.mem_filter.mpr ⟨?_,by simp [hdead]⟩,(m.keyed k r hr).1⟩
        exact mem_listed_of_lookup hpop hpre hr
      refine List.mem_append.mpr ?_
      rcases hfound k r hl with hks | ⟨hg,hl⟩
      · cases hold : m.records.lookup k with
        | none => exact .inr (List.mem_filter.mpr ⟨hks,by simp [hold]⟩)
        | some r' =>
          refine .inl (hlive r' hold ?_)
          simp [dead,(m.keyed k r' hold).1,hks]
      · refine .inl (hlive r hl ?_)
        by_contra hdead
        refine hg ?_
        rw [gone,if_neg hnone]
        exact List.mem_map.mpr ⟨r,List.mem_filter.mpr
          ⟨mem_listed_of_lookup hpop hpre hl,by simpa using hdead⟩,(m.keyed k r hl).1⟩
    have hle := (List.subperm_of_subset (m'.records.nodupKeys.filter _) hsub).length_le
    rw [List.length_append,List.length_map] at hle
    exact le_trans (Int.ofNat_le.mpr hle) hlen

end Charging

/-- The store stands for the ideal book at time `now`. -/
structure Simulates (sha256 : Bytes → Bytes) (l : Limiter) (ideal : Book GoString) (m : Memory)
    (now : Int) : Prop where
  kept : Kept sha256 l m now
  drops : Book.Drops now ideal (pool sha256 l m)
  bounded : population sha256 l m ≤ l.limit.toNat

/-- What an event does to the ideal limiter. -/
def Follows (ideal ideal' : Book GoString) (now : Int) :
    Option (Request GoString × Decision) → Prop
  | none => ideal' = ideal
  | some x => x.1.now = now ∧ ideal.step maxInt x.1.now x.1.charges = (x.2,ideal')

variable {e : Event} {buckets : List Bucket} {events : List Event} {ks : List GoString}

section Simulation
variable {sha256 : Bytes → Bytes} {l : Limiter} {ideal : Book GoString} {m : Memory} {last : Int}

theorem Simulates.later (h : Simulates sha256 l ideal m last) (hle : last ≤ now) :
    Simulates sha256 l ideal m now :=
  ⟨h.kept.later hle,h.drops.later hle,h.bounded⟩

theorem Simulates.intact (h : Simulates sha256 l ideal m last) (hk : l.Keyed sha256 buckets ks) :
    Intact m ks :=
  fun k hmem r hl => (h.kept k r (hk.start_prefix hmem) hl).1

theorem Simulates.verdict (h : Simulates sha256 l ideal m (truncate t))
    (hk : l.Keyed sha256 buckets ks) :
    verdict m t buckets ks = ideal.decide maxInt (truncate t) (charges (buckets.zip ks)) {} := by
  rw [← h.drops.decide hk.charges_valid]
  refine Book.decide_congr (fun c hc => ?_) {}
  obtain ⟨x,hx,rfl⟩ := List.mem_map.mp hc
  exact (pool_of_start (hk.start_prefix (List.of_mem_zip hx).2)).symm

theorem Simulates.prune (h : Simulates sha256 l ideal m last) (hle : last ≤ truncate t)
    {m' : Memory} (hp : Memory.Pruned t m m') : Simulates sha256 l ideal m' (truncate t) := by
  obtain ⟨hkept,hpool⟩ := h.kept.pruned hle hp
  refine ⟨hkept,(h.drops.later hle).drop hpool,le_trans (population_mono fun k r hl => ?_) h.bounded⟩
  rcases hp k with he | ⟨he,-⟩
  · exact ⟨r,he ▸ hl⟩
  · rw [he] at hl
    cases hl

theorem Simulates.check (h : Simulates sha256 l ideal m last) (hle : last ≤ truncate t)
    (hr : InRange t) (ctx : Context) (buckets : List Bucket) :
    ∃ ideal', Simulates sha256 l ideal' ((Event.check ctx t buckets).apply sha256 l m) (truncate t) ∧
      Follows ideal ideal' (truncate t) ((Event.check ctx t buckets).answer sha256 l m) := by
  replace h := h.later hle
  have hc := check_cases sha256 l ctx t buckets m
  unfold Event.apply Event.answer
  dsimp only
  generalize l.check sha256 ctx t buckets m = r at hc
  cases hc with
  | invalid hk | badKey hk _ | cancelled hk _ | corrupt hk _ | full hk _ _ _ =>
    rw [hk]
    exact ⟨ideal,h,rfl⟩
  | denied hk hv hi hd =>
    have hkeyed := Limiter.keys_some hk
    rw [hkeyed.decision,h.verdict hkeyed] at hd ⊢
    rw [hk]
    refine ⟨ideal,h,rfl,?_⟩
    simp only [Book.step,hd]
    rfl
  | charged hk hi hd hroom hm =>
    rename_i ks m'
    have hkeyed := Limiter.keys_some hk
    rw [hkeyed.decision] at hd
    have hcharged : Charged sha256 l t buckets ks m m' := by
      refine ⟨fun j => ?_⟩
      rw [hm j,assessed_pending,List.nil_append,find_renewed]
    have hlimit : (l.limit.toNat : Int) = l.limit := by
      have := hkeyed.low
      omega
    have hpop : (population sha256 l m' : Int) ≤ l.limit :=
      hcharged.bounded hkeyed hroom (by have := h.bounded; omega)
    rw [hk,hkeyed.decision]
    refine ⟨ideal.charge (truncate t) (charges (buckets.zip ks)),⟨?_,?_,?_⟩,rfl,?_⟩
    · exact hcharged.kept hkeyed h.kept hr hd
    · exact (h.drops.charge _).drop (hcharged.pool hkeyed h.kept hr hd)
    · exact Int.ofNat_le.mp (hpop.trans hlimit.ge)
    rw [h.verdict hkeyed] at hd ⊢
    simp only [Book.step,hd]
    rfl

theorem Simulates.step (h : Simulates sha256 l ideal m last) (hle : last ≤ truncate e.now)
    (hr : InRange e.now) :
    ∃ ideal', Simulates sha256 l ideal' (e.apply sha256 l m) (truncate e.now) ∧
      Follows ideal ideal' (truncate e.now) (e.answer sha256 l m) := by
  cases e with
  | check ctx t buckets => exact h.check hle hr ctx buckets
  | prune ctx t limit order => exact ⟨ideal,h.prune hle (m.prune_pruned ctx t limit order),rfl⟩

/-- The run of a limiter whose clock never goes back and stays in range. -/
structure Steady (last : Int) (events : List Event) : Prop where
  sorted : events.Pairwise fun e e' => e.now ≤ e'.now
  start : ∀ e ∈ events, last ≤ truncate e.now
  range : ∀ e ∈ events, InRange e.now

theorem Steady.tail {es : List Event} (h : Steady last (e :: es)) :
    Steady (truncate e.now) es where
  sorted := h.sorted.of_cons
  start _ he' := truncate_mono (List.rel_of_pairwise_cons h.sorted he')
  range e' he' := h.range e' (List.mem_cons_of_mem e he')

/-- After any events the store stands for the book of an ideal limiter that
has answered the same requests in the same way. -/
theorem Simulates.run (h : Simulates sha256 l ideal m last) (hs : Steady last events) :
    ideal.run maxInt ((answers sha256 l m events).map Prod.fst) = answers sha256 l m events ∧
    population sha256 l (after sha256 l m events) ≤ l.limit.toNat := by
  induction events generalizing ideal m last with
  | nil => exact ⟨rfl,h.bounded⟩
  | cons e es ih =>
    obtain ⟨ideal',h',hf⟩ := h.step (hs.start e List.mem_cons_self) (hs.range e List.mem_cons_self)
    obtain ⟨hrun,hpop⟩ := ih h' hs.tail
    refine ⟨?_,hpop⟩
    unfold answers
    cases ha : e.answer sha256 l m with
    | none =>
      rw [ha] at hf
      cases hf
      exact hrun
    | some x =>
      rw [ha] at hf
      obtain ⟨-,hstep⟩ := hf
      show (x.1,(ideal.step maxInt x.1.now x.1.charges).1) ::
        (ideal.step maxInt x.1.now x.1.charges).2.run maxInt _ = _
      rw [hstep]
      exact congrArg (x :: ·) hrun

theorem simulates_empty (h : ∀ k, l.start sha256 <+: k → m.records.lookup k = none) (now : Int) :
    Simulates sha256 l (fun _ => none) m now where
  kept k r hk hl := by
    rw [h k hk] at hl
    cases hl
  drops k := by
    left
    by_cases hk : l.start sha256 <+: k
    · rw [pool_of_start hk,book,h k hk,Option.map_none]
    · exact pool_of_not_start hk
  bounded := by
    have hnone : (m.records.keys.filter fun k => (l.start sha256).isPrefixOf k) = [] := by
      rw [List.filter_eq_nil_iff]
      intro k hk hpre
      obtain ⟨r,hr⟩ := GoMap.lookup_of_mem_keys hk
      rw [h k (List.isPrefixOf_iff_prefix.mp hpre)] at hr
      cases hr
    rw [population,hnone]
    exact Nat.zero_le _

theorem Simulates.before (h : Simulates sha256 l ideal m last)
    (hs : Steady last (done ++ e :: rest)) :
    ∃ ideal', Simulates sha256 l ideal' (after sha256 l m done) (truncate e.now) := by
  induction done generalizing ideal m last with
  | nil => exact ⟨ideal,h.later (hs.start e List.mem_cons_self)⟩
  | cons d done ih =>
    obtain ⟨ideal',h',-⟩ := h.step (hs.start d List.mem_cons_self) (hs.range d List.mem_cons_self)
    exact ih h' hs.tail

theorem Steady.append (hs : Steady last (done ++ rest)) :
    Steady last done where
  sorted := (List.pairwise_append.mp hs.sorted).1
  start e he := hs.start e (List.mem_append_left rest he)
  range e he := hs.range e (List.mem_append_left rest he)

end Simulation

def firstNow : List Event → Int
  | [] => 0
  | e :: _ => truncate e.now

theorem steady_firstNow (hsorted : events.Pairwise fun e e' => e.now ≤ e'.now)
    (hrange : ∀ e ∈ events, InRange e.now) : Steady (firstNow events) events := by
  refine ⟨hsorted,fun e he => ?_,hrange⟩
  cases events with
  | nil => cases he
  | cons e₀ es =>
    rcases List.mem_cons.mp he with rfl | he
    · exact le_refl _
    · exact truncate_mono (List.rel_of_pairwise_cons hsorted he)

/-- The limiter keeps no more records than its limit, and decides like an ideal limiter that keeps
all of them. A valid `Check` comes to no decision only if there is no room or its context is
cancelled. -/
theorem limiter_ideal {sha256 : Bytes → Bytes} {l : Limiter} {m : Memory} {events : List Event}
    (hempty : ∀ k, l.start sha256 <+: k → m.records.lookup k = none)
    (hsorted : events.Pairwise fun e e' => e.now ≤ e'.now) (hrange : ∀ e ∈ events, InRange e.now) :
    Book.run maxInt (fun _ => none) ((answers sha256 l m events).map Prod.fst) =
      answers sha256 l m events ∧
    (∀ done rest, events = done ++ rest →
      population sha256 l (after sha256 l m done) ≤ l.limit.toNat) ∧
    ∀ done rest ctx now buckets ks, events = done ++ .check ctx now buckets :: rest →
      l.keys sha256 buckets = some ks →
      (∀ k ∈ (l.start sha256 ++ utf8 "capacity") :: ks, validKey k = true) → ctx.Live →
      ∀ e, (l.check sha256 ctx now buckets (after sha256 l m done)).1 = .error e →
        e = .unavailable .capacity := by
  have hs := steady_firstNow hsorted hrange
  have hstart := simulates_empty hempty (firstNow events)
  refine ⟨(hstart.run hs).1,fun done rest he => ?_,?_⟩
  · rw [he] at hs hstart
    exact (hstart.run hs.append).2
  intro done rest ctx now buckets ks he hk hv hl e herr
  rw [he] at hs hstart
  obtain ⟨ideal',h⟩ := hstart.before hs
  rcases check_live hk hv (h.intact (Limiter.keys_some hk)) hl with ⟨-,hc⟩ | ⟨-,⟨m',hc⟩ | hc⟩
  · rw [hc] at herr
    cases herr
  · rw [hc] at herr
    cases herr
  rw [hc] at herr
  cases herr
  rfl

namespace Sample

def busy : List Event :=
  [.check live newYear [bucket],.check live (newYear+500000000) [bucket],
   .prune live (newYear+1000000000) 0 [],.check live (newYear+1000000000) [bucket]]

def lastMicrosecond : List Event :=
  [.check live (unixEpoch+maxInt*microsecond) [bucket],
   .check live (unixEpoch+maxInt*microsecond) [bucket]]

end Sample

set_option maxRecDepth 4000

theorem limiter_ideal_busy :
    (answers Sample.sha256 {} {} Sample.busy).map Prod.snd =
      [⟨true,0⟩,⟨false,500000000⟩,⟨true,0⟩] ∧
    Book.run maxInt (fun _ => none) ((answers Sample.sha256 {} {} Sample.busy).map Prod.fst) =
      answers Sample.sha256 {} {} Sample.busy :=
  ⟨by decide +kernel,
    (limiter_ideal (fun _ _ => rfl) (by decide +kernel) (by decide +kernel)).1⟩

/-- The arrival time written for the first request wraps around to the year
-290308, so the second is allowed; the ideal limiter denies it. -/
theorem ideal_denies_wrapped : ∃ (sha256 : Bytes → Bytes) (l : Limiter) (events : List Event),
    events.Pairwise (fun e e' => e.now ≤ e'.now) ∧
    Book.run maxInt (fun _ => none) ((answers sha256 l {} events).map Prod.fst) ≠
      answers sha256 l {} events :=
  ⟨Sample.sha256,{},Sample.lastMicrosecond,by decide +kernel,
    fun h => absurd (congrArg (List.map Prod.snd) h) (by decide +kernel)⟩

/-- The seconds of the time fit in 64 bits, as a `time.Time` counts them. -/
def Representable (t : Time) : Prop := minInt ≤ t/1000000000 ∧ t/1000000000 ≤ maxInt

/-- What `Check` computes for a bucket fits in the types it computes in. -/
structure Visit.Fits (now : Time) (b : Bucket) (v : Visit) : Prop where
  offset : v.offset = -((b.burst-1)*b.interval)
  allowAt : Representable v.allowAt
  wait : now < v.allowAt → v.allowAt-now ≤ maxInt
  next : Representable v.next
  micros : Writable v.next

section Window
variable (sha256 : Bytes → Bytes) (l : Limiter) (key : GoString) (a w : Int)

/-- A `Check` with the bucket that is allowed in the window from `a` to `a+w`. -/
def Event.admits (m : Memory) : Event → Bool
  | .check ctx now buckets =>
    (match (l.check sha256 ctx now buckets m).1 with
      | .ok d => d.allowed
      | .error _ => false) &&
    buckets.any (fun b => b.key = key) && decide (a ≤ truncate now) && decide (truncate now ≤ a+w)
  | .prune _ _ _ _ => false

def admissions : Memory → List Event → Nat
  | _, [] => 0
  | m, e :: es =>
    (if e.admits sha256 l key a w m then 1 else 0)+admissions (e.apply sha256 l m) es

end Window

section Window
variable {sha256 : Bytes → Bytes} {l : Limiter} {m : Memory} {key : GoString} {a w : Int}

theorem int64_bounds (n : Int) : minInt ≤ int64 n ∧ int64 n ≤ maxInt := by
  have h₁ := Int.le_bmod (x := n) (m := 2^64) (by decide)
  have h₂ := Int.bmod_lt (x := n) (m := 2^64) (by decide)
  unfold int64 minInt maxInt
  omega

theorem Kept.tat_bounds (h : Kept sha256 l m (truncate t)) (hr : InRange t)
    (hk : l.start sha256 <+: k) : unixEpoch+minInt*microsecond ≤ (book m).tat (truncate t) k ∧
      (book m).tat (truncate t) k ≤ truncate t+30*day := by
  unfold Gcra.Book.tat book
  cases hl : m.records.lookup k with
  | none =>
    have hlow := hr.1.1
    rw [Option.map_none,Option.getD_none]
    unfold microsecond day unixEpoch Time at *
    omega
  | some r =>
    obtain ⟨-,he,-,hle⟩ := h k r hk hl
    have hlow := (int64_bounds (r.value.foldl (fun n d => n*256+d.toNat) 0 : Nat)).1
    rw [Option.map_some,Option.getD_some]
    refine ⟨?_,le_of_eq_of_le he hle⟩
    unfold ofUnixMicro getInt64 microsecond Time
    omega

theorem Kept.visit_fits (h : Kept sha256 l m (truncate t)) (hr : InRange t)
    (hk : l.Keyed sha256 buckets ks) (hx : x ∈ buckets.zip ks) :
    Visit.Fits (truncate t) x.1 (visit (truncate t) x.1 ((book m).tat (truncate t) x.2)) := by
  have hb := Bucket.valid (hk.zip_valid x hx)
  have ho := hb.offset
  have hlow := hb.low
  have hhigh := hb.high
  obtain ⟨hmin,hmax⟩ := h.tat_bounds hr (hk.start_prefix (List.of_mem_zip hx).2)
  generalize (book m).tat (truncate t) x.2 = tat at hmin hmax
  have hnow := hr.1
  have hlast := hr.2
  have hmaxle : truncate t ≤ max tat (truncate t) := le_max_right _ _
  have hmaxge : max tat (truncate t) ≤ truncate t+30*day := by
    apply max_le hmax
    exact Int.le_add_of_nonneg_right (by decide)
  have hnext : Writable (max tat (truncate t)+x.1.interval) := by
    refine hnow.between hlast ?_ ?_
    · unfold microsecond Time at *
      omega
    · unfold day Time at *
      omega
  rw [visit_spec hb]
  refine ⟨rfl,?_,?_,?_,hnext⟩
  · unfold Representable Gcra.Quota.allowAt Bucket.quota
    unfold Writable microsecond unixEpoch minInt maxInt day Time at *
    dsimp only
    omega
  · intro _
    unfold Gcra.Quota.allowAt Bucket.quota
    unfold maxInt day Time at *
    dsimp only
    omega
  · unfold Representable Gcra.Quota.next Bucket.quota
    unfold Writable microsecond unixEpoch minInt maxInt day Time at *
    dsimp only
    omega

theorem Limiter.Keyed.isSome_quotaOf (h : l.Keyed sha256 buckets ks)
    (hdigest : ∀ b ∈ buckets, hashKey sha256 b.key = hashKey sha256 key → b.key = key) :
    (Gcra.quotaOf (l.start sha256 ++ hashKey sha256 key) (charges (buckets.zip ks))).isSome =
      buckets.any fun b => b.key = key := by
  rw [quotaOf_charges,Option.isSome_map,Bool.eq_iff_iff,List.find?_isSome,List.any_eq_true]
  constructor
  · rintro ⟨x,hx,hkey⟩
    obtain ⟨hb,he⟩ := h.zip_key hx
    rw [decide_eq_true_eq,he] at hkey
    exact ⟨x.1,hb,decide_eq_true (hdigest x.1 hb (List.append_cancel_left hkey))⟩
  rintro ⟨b,hb,hkey⟩
  have hmem : (b,l.start sha256 ++ hashKey sha256 b.key) ∈ buckets.zip ks := by
    rw [h.eq,← List.map_id buckets,List.map_map,List.zip_map']
    exact List.mem_map_of_mem (f := fun b => (b,l.start sha256 ++ hashKey sha256 b.key)) hb
  rw [decide_eq_true_eq] at hkey
  exact ⟨_,hmem,decide_eq_true (by rw [hkey])⟩

theorem Event.admits_eq (hdigest : ∀ ctx now buckets, e = .check ctx now buckets →
      ∀ b ∈ buckets, hashKey sha256 b.key = hashKey sha256 key → b.key = key) :
    e.admits sha256 l key a w m =
      (e.answer sha256 l m).any (Gcra.Admits (l.start sha256 ++ hashKey sha256 key) a w) := by
  cases e with
  | prune ctx now limit order => rfl
  | check ctx now buckets =>
    cases hk : l.keys sha256 buckets with
    | none => simp only [admits,answer,Limiter.check,hk,Bool.false_and,Option.any_none]
    | some ks =>
      cases hc : (l.check sha256 ctx now buckets m).1 with
      | error e => simp only [admits,answer,hk,hc,Bool.false_and,Option.any_none]
      | ok d =>
        have hsome := (Limiter.keys_some hk).isSome_quotaOf (hdigest ctx now buckets rfl)
        simp only [admits,answer,hk,hc,Option.any_some,Gcra.Admits,hsome]

theorem admissions_eq
    (hdigest : ∀ ctx now buckets, .check ctx now buckets ∈ events →
      ∀ b ∈ buckets, hashKey sha256 b.key = hashKey sha256 key → b.key = key) :
    admissions sha256 l key a w m events = (answers sha256 l m events).countP
      (Gcra.Admits (l.start sha256 ++ hashKey sha256 key) a w) := by
  induction events generalizing m with
  | nil => rfl
  | cons e es ih =>
    have he : e.admits sha256 l key a w m = _ := Event.admits_eq fun ctx now buckets he =>
      hdigest ctx now buckets (he ▸ List.mem_cons_self)
    rw [admissions,answers,List.countP_append,he,
      ih fun ctx now buckets hmem => hdigest ctx now buckets (List.mem_cons_of_mem e hmem)]
    congr 1
    cases e.answer sha256 l m with
    | none => rfl
    | some x => simp only [Option.any_some,Option.toList_some,List.countP_singleton]

theorem mem_answers {x : Request GoString × Decision} (h : x ∈ answers sha256 l m events) :
    ∃ ctx now buckets ks, .check ctx now buckets ∈ events ∧ l.keys sha256 buckets = some ks ∧
      x.1 = ⟨truncate now,charges (buckets.zip ks)⟩ := by
  induction events generalizing m with
  | nil => cases h
  | cons e es ih =>
    rcases List.mem_append.mp h with h | h
    · cases e with
      | prune ctx now limit order => cases h
      | check ctx now buckets =>
        rw [Option.mem_toList] at h
        simp only [Event.answer] at h
        split at h
        · rename_i ks d hk hc
          cases h
          exact ⟨ctx,now,buckets,ks,List.mem_cons_self,hk,rfl⟩
        · cases h
    · obtain ⟨ctx,now,buckets,ks,hmem,hrest⟩ := ih h
      exact ⟨ctx,now,buckets,ks,List.mem_cons_of_mem e hmem,hrest⟩

theorem answers_sorted (h : events.Pairwise fun e e' => e.now ≤ e'.now) :
    ((answers sha256 l m events).map Prod.fst).Pairwise fun r r' => r.now ≤ r'.now := by
  rw [List.pairwise_map]
  induction events generalizing m with
  | nil => exact .nil
  | cons e es ih =>
    refine List.pairwise_append.mpr ⟨?_,ih h.of_cons,fun x hx y hy => ?_⟩
    · cases e.answer sha256 l m with
      | none => exact .nil
      | some x => exact List.pairwise_singleton _ x
    have hx' : x ∈ answers sha256 l m [e] := List.mem_append_left _ hx
    obtain ⟨_,_,_,_,hmem,-,hxe⟩ := mem_answers hx'
    obtain ⟨_,_,_,_,hmem',-,hye⟩ := mem_answers hy
    rw [hxe,hye]
    rw [List.mem_singleton] at hmem
    subst hmem
    exact truncate_mono (List.rel_of_pairwise_cons h hmem')

end Window

/-- A bucket lets through at most `burst + w / interval` Checks in a window of length `w`, and
nothing that is computed overflows. The other keys have other digests. -/
theorem check_window {sha256 : Bytes → Bytes} {l : Limiter} {m : Memory} {events : List Event}
    (hempty : ∀ k, l.start sha256 <+: k → m.records.lookup k = none)
    (hsorted : events.Pairwise fun e e' => e.now ≤ e'.now) (hrange : ∀ e ∈ events, InRange e.now) :
    (∀ b : Bucket, b.validate = true →
      (∀ ctx now buckets, .check ctx now buckets ∈ events → ∀ b' ∈ buckets, b'.key = b.key →
        b'.interval = b.interval ∧ b'.burst = b.burst) →
      (∀ ctx now buckets, .check ctx now buckets ∈ events → ∀ b' ∈ buckets,
        hashKey sha256 b'.key = hashKey sha256 b.key → b'.key = b.key) →
      ∀ a w : Int, 0 ≤ w →
        (admissions sha256 l b.key a w m events : Int) ≤ b.burst+w/b.interval) ∧
    ∀ done rest ctx now buckets ks, events = done ++ .check ctx now buckets :: rest →
      l.keys sha256 buckets = some ks → ∀ x ∈ buckets.zip ks,
        Visit.Fits (truncate now) x.1
          (visit (truncate now) x.1 ((book (after sha256 l m done)).tat (truncate now) x.2)) := by
  have hs := steady_firstNow hsorted hrange
  have hstart := simulates_empty hempty (firstNow events)
  constructor
  · intro b hb hsame hdigest a w hw
    rw [admissions_eq hdigest,← (hstart.run hs).1]
    refine Book.window (Bucket.valid hb).quota hw (answers_sorted hsorted) (fun r hr q hq => ?_) _
    obtain ⟨x,hx,rfl⟩ := List.mem_map.mp hr
    obtain ⟨ctx,now,buckets,ks,hmem,hk,he⟩ := mem_answers hx
    rw [he] at hq
    obtain ⟨y,hy,hyq⟩ := List.mem_map.mp (Gcra.mem_of_quotaOf hq)
    obtain ⟨hyb,hykey⟩ := (Limiter.keys_some hk).zip_key hy
    obtain ⟨hstored,rfl⟩ := Prod.mk.inj hyq
    have hkey := hdigest ctx now buckets hmem y.1 hyb
      (List.append_cancel_left (hykey.symm.trans hstored))
    obtain ⟨hi,hburst⟩ := hsame ctx now buckets hmem y.1 hyb hkey
    rw [Bucket.quota,hi,hburst,Bucket.quota]
  · intro done rest ctx now buckets ks he hk x hx
    rw [he] at hs hstart
    obtain ⟨ideal',h⟩ := hstart.before hs
    have hr := hrange _ (he ▸ List.mem_append_right done List.mem_cons_self)
    exact h.kept.visit_fits hr (Limiter.keys_some hk) hx

theorem check_window_busy :
    admissions Sample.sha256 {} Sample.bucket.key Sample.newYear 1000000000 {} Sample.busy = 2 ∧
    (admissions Sample.sha256 {} Sample.bucket.key Sample.newYear 1000000000 {} Sample.busy : Int) ≤
      Sample.bucket.burst+1000000000/Sample.bucket.interval := by
  have honly : ∀ ctx now buckets, .check ctx now buckets ∈ Sample.busy → buckets = [Sample.bucket] := by
    intro ctx now buckets hmem
    simp only [Sample.busy,List.mem_cons,Event.check.injEq,reduceCtorEq,List.not_mem_nil,
      or_false,false_or] at hmem
    rcases hmem with h | h | h <;> exact h.2.2
  have hbucket : ∀ ctx now buckets, .check ctx now buckets ∈ Sample.busy →
      ∀ b ∈ buckets, b = Sample.bucket := by
    intro ctx now buckets hmem b hb
    rw [honly ctx now buckets hmem] at hb
    exact List.mem_singleton.mp hb
  refine ⟨by decide +kernel,(check_window (fun _ _ => rfl) (by decide +kernel) (by decide +kernel)).1
    Sample.bucket (by decide) ?_ ?_ _ _ (by decide)⟩
  · intro ctx now buckets hmem b hb _
    rw [hbucket ctx now buckets hmem b hb]
    exact ⟨rfl,rfl⟩
  · intro ctx now buckets hmem b hb _
    rw [hbucket ctx now buckets hmem b hb]

/-- At the last microsecond whose number fits in 64 bits the arrival time of a
bucket with a burst of one wraps around, and two Checks are allowed at once. -/
theorem window_exceeded : ∃ (sha256 : Bytes → Bytes) (l : Limiter) (events : List Event) (b : Bucket)
    (a : Int), events.Pairwise (fun e e' => e.now ≤ e'.now) ∧ b.validate = true ∧
    b.burst+0/b.interval < admissions sha256 l b.key a 0 {} events :=
  ⟨Sample.sha256,{},Sample.lastMicrosecond,Sample.bucket,unixEpoch+maxInt*microsecond,
    by decide +kernel,by decide +kernel,by decide +kernel⟩

end MicrosoftDM.Ratelimit
