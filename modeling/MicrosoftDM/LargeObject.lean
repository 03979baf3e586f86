import Mathlib.Data.List.Induction
import MicrosoftDM.SyncMLMessage

/-! Large objects (mdmprotocol/syncml/largeobject.go): `SplitItem` cuts an item
into chunks, `Assembler` puts the chunks a client sends together again. -/

set_option autoImplicit false

namespace MicrosoftDM.Syncml

inductive ChunkError where
  | chunkSize (n : Int)
  | alreadyMoreData
  | smallerThanCharacter (n : Int)
  | noData (uri : GoString)
  | declaredSize (size limit : Int)
  | whilePending (uri pending : GoString)
  | markup
  | tooLong (limit : Int)
  | sizeMismatch (declared received : Int)
  deriving DecidableEq

def runeStart (b : UInt8) : Bool := !continuation b

def backUp (s : GoString) : Nat → Nat
  | 0 => 0
  | n+1 => if runeStart (s.getD (n+1) 0) then n+1 else backUp s n

def cutAt (limit : Nat) (full : GoString) : Nat :=
  if limit ≥ full.length then full.length else backUp full limit

def chunkOf (it : Item) (d : Data) (first : Bool) (value : GoString) (more : Bool) : Item :=
  { it with
    data := some { value := value, originalError := d.originalError }
    metinf := if first then some { it.metinf.getD {} with size := d.value.length } else it.metinf
    moreData := more }

def splitLoop (it : Item) (d : Data) (limit : Nat) :
    Nat → Bool → GoString → Except ChunkError (List Item)
  | 0, _, _ => .ok []
  | fuel+1, first, full =>
    if full = [] then .ok []
    else
      let n := cutAt limit full
      if n = 0 then .error (.smallerThanCharacter limit)
      else
        match splitLoop it d limit fuel false (full.drop n) with
        | .ok rest => .ok (chunkOf it d first (full.take n) (full.drop n ≠ []) :: rest)
        | .error e => .error e

/-- `SplitItem`. Every pass takes at least one byte, so the length is enough fuel. -/
def splitItem (it : Item) (maxDataBytes : Int) : Except ChunkError (List Item) :=
  if maxDataBytes < 1 then .error (.chunkSize maxDataBytes)
  else
    match it.data with
    | none => .ok [it]
    | some d =>
      if d.xml ≠ [] ∨ (d.value.length : Int) ≤ maxDataBytes then .ok [it]
      else if it.moreData then .error .alreadyMoreData
      else splitLoop it d maxDataBytes.toNat d.value.length true d.value

def chunkValue (it : Item) : GoString :=
  match it.data with
  | some d => d.value
  | none => []

theorem backUp_le (s : GoString) (n : Nat) : backUp s n ≤ n := by
  induction n with
  | zero => exact Nat.le_refl 0
  | succ n ih =>
    simp only [backUp]
    split
    · exact Nat.le_refl _
    · omega

variable {chunks rest stream : List Item} {it : Item} {d : Data} {fuel : Nat} {first : Bool}
  {full s : GoString} {n : Int} {r : Option Item}

/-- One pass: the text is at its end, or a chunk is cut off and the rest is split. -/
theorem splitLoop_succ {limit : Nat} (h : splitLoop it d limit (fuel+1) first full = .ok chunks) :
    full = [] ∧ chunks = [] ∨ full ≠ [] ∧ cutAt limit full ≠ 0 ∧
      ∃ rest, splitLoop it d limit fuel false (full.drop (cutAt limit full)) = .ok rest ∧
        chunks = chunkOf it d first (full.take (cutAt limit full))
          (full.drop (cutAt limit full) ≠ []) :: rest := by
  simp only [splitLoop] at h
  split at h
  · rename_i hnil
    cases h
    exact .inl ⟨hnil,rfl⟩
  split at h
  · cases h
  rename_i hne hn
  split at h
  · rename_i rest hr
    cases h
    exact .inr ⟨hne,hn,rest,hr,rfl⟩
  · cases h

theorem splitLoop_concat (it : Item) (d : Data) (limit fuel : Nat) (first : Bool) (full : GoString)
    (hf : full.length ≤ fuel)
    (h : splitLoop it d limit fuel first full = .ok chunks) :
    (chunks.map chunkValue).flatten = full := by
  induction fuel generalizing first full chunks with
  | zero =>
    cases h
    have hl : full.length = 0 := by omega
    simp [List.length_eq_zero_iff.mp hl]
  | succ fuel ih =>
    rcases splitLoop_succ h with ⟨rfl,rfl⟩ | ⟨-,hn,rest,hr,rfl⟩
    · rfl
    have hd : (full.drop (cutAt limit full)).length ≤ fuel := by
      rw [List.length_drop]; omega
    have hrest := ih false _ hd hr
    simp [chunkOf,chunkValue] at hrest ⊢
    rw [hrest,List.take_append_drop]

def MoreDataMarks (chunks : List Item) : Prop :=
  ∀ i (h : i < chunks.length), (chunks.get ⟨i,h⟩).moreData = decide (i+1 < chunks.length)

theorem moreDataMarks_nil : MoreDataMarks [] := by
  intro i h
  simp at h

theorem moreDataMarks_cons {c : Item} (hc : c.moreData = decide (rest ≠ []))
    (h : MoreDataMarks rest) : MoreDataMarks (c :: rest) := by
  intro i hi
  cases i with
  | zero =>
    cases rest with
    | nil | cons _ _ => simpa using hc
  | succ i =>
    have hr := h i (by simpa using hi)
    simpa using hr

theorem splitLoop_nil_iff {limit : Nat} (hf : full.length ≤ fuel)
    (h : splitLoop it d limit fuel first full = .ok chunks) : chunks = [] ↔ full = [] := by
  cases fuel with
  | zero =>
    cases h
    have hl : full.length = 0 := by omega
    simp [List.length_eq_zero_iff.mp hl]
  | succ fuel =>
    rcases splitLoop_succ h with ⟨rfl,rfl⟩ | ⟨hne,-,rest,-,rfl⟩
    · simp
    · simp [hne]

theorem splitLoop_moreData (it : Item) (d : Data) (limit fuel : Nat) (first : Bool)
    (full : GoString) (hf : full.length ≤ fuel)
    (h : splitLoop it d limit fuel first full = .ok chunks) : MoreDataMarks chunks := by
  induction fuel generalizing first full chunks with
  | zero =>
    cases h
    exact moreDataMarks_nil
  | succ fuel ih =>
    rcases splitLoop_succ h with ⟨-,rfl⟩ | ⟨-,hn,rest,hr,rfl⟩
    · exact moreDataMarks_nil
    have hd : (full.drop (cutAt limit full)).length ≤ fuel := by
      rw [List.length_drop]; omega
    have hnil := splitLoop_nil_iff hd hr
    apply moreDataMarks_cons
    · simp only [chunkOf,ne_eq,hnil]
    · exact ih false _ hd hr

theorem cutAt_le (limit : Nat) (full : GoString) : cutAt limit full ≤ limit := by
  unfold cutAt
  split
  · assumption
  · exact backUp_le full limit

theorem splitLoop_chunk {limit : Nat} (h : splitLoop it d limit fuel first full = .ok chunks) :
    ∀ c ∈ chunks, ∃ b value more, c = chunkOf it d b value more ∧ value.length ≤ limit := by
  induction fuel generalizing first full chunks with
  | zero =>
    cases h
    intro c hc
    cases hc
  | succ fuel ih =>
    intro c hc
    rcases splitLoop_succ h with ⟨-,rfl⟩ | ⟨-,-,rest,hr,rfl⟩
    · cases hc
    rcases List.mem_cons.mp hc with rfl | hc
    · refine ⟨first,_,_,rfl,?_⟩
      rw [List.length_take]
      exact Nat.le_trans (Nat.min_le_left _ _) (cutAt_le limit full)
    · exact ih hr c hc

theorem splitItem_chunk {first next : Item}
    (h : splitItem it n = .ok (first :: next :: rest)) :
    ∃ d, ∀ c ∈ first :: next :: rest, ∃ b value more, c = chunkOf it d b value more ∧
      (value.length : Int) ≤ n := by
  unfold splitItem at h
  split at h
  · cases h
  rename_i hn
  split at h
  · cases h
  rename_i d hd
  split at h
  · cases h
  split at h
  · cases h
  refine ⟨d,fun c hc => ?_⟩
  obtain ⟨b,value,more,he,hl⟩ := splitLoop_chunk h c hc
  exact ⟨b,value,more,he,by omega⟩

theorem le_backUp {s : GoString} {k n : Nat} (hk : k ≤ n) (h : runeStart (s.getD k 0) = true) :
    k ≤ backUp s n := by
  induction n with
  | zero => omega
  | succ n ih =>
    simp only [backUp]
    split
    · exact hk
    rename_i hn
    refine ih (Nat.le_of_lt_succ (Nat.lt_of_le_of_ne hk fun he => ?_))
    rw [he] at h
    exact hn h

/-- Among any four bytes one starts a rune, as in every valid UTF-8 text. -/
def Breakable (s : GoString) : Prop := ∀ i < s.length, ∃ j < 4, runeStart (s.getD (i+j) 0) = true

instance (s : GoString) : Decidable (Breakable s) :=
  inferInstanceAs (Decidable (∀ i < s.length, ∃ j < 4, runeStart (s.getD (i+j) 0) = true))

theorem Breakable.drop (h : Breakable s) (n : Nat) : Breakable (s.drop n) := by
  intro i hi
  rw [List.length_drop] at hi
  obtain ⟨j,hj,hs⟩ := h (n+i) (by omega)
  refine ⟨j,hj,?_⟩
  rw [List.getD_eq_getElem?_getD] at hs ⊢
  rw [List.getElem?_drop,← Nat.add_assoc]
  exact hs

theorem Breakable.cutAt_pos (h : Breakable s) {limit : Nat} (hl : 4 ≤ limit)
    (hs : s ≠ []) : cutAt limit s ≠ 0 := by
  unfold cutAt
  split
  · exact fun h0 => hs (List.length_eq_zero_iff.mp h0)
  rename_i hlen
  obtain ⟨j,hj,hr⟩ := h (limit-3) (by omega)
  have := @le_backUp s (limit-3+j) limit (by omega) hr
  omega

theorem splitLoop_succeeds {it : Item} {d : Data} {limit fuel : Nat} {first : Bool}
    {full : GoString} (hl : 4 ≤ limit) (h : Breakable full) :
    ∃ chunks, splitLoop it d limit fuel first full = .ok chunks := by
  induction fuel generalizing first full with
  | zero => exact ⟨[],rfl⟩
  | succ fuel ih =>
    simp only [splitLoop]
    split
    · exact ⟨[],rfl⟩
    rename_i hne
    obtain ⟨rest,hr⟩ := @ih false (full.drop (cutAt limit full)) (h.drop _)
    rw [if_neg (h.cutAt_pos hl hne),hr]
    exact ⟨_,rfl⟩

theorem splitItem_cuts (hd : it.data = some d) (hx : d.xml = [])
    (hm : it.moreData = false) (hb : Breakable d.value) (hn : 4 ≤ n) (hl : n < d.value.length) :
    ∃ first next rest, splitItem it n = .ok (first :: next :: rest) := by
  obtain ⟨chunks,hc⟩ := @splitLoop_succeeds it d n.toNat d.value.length true d.value (by omega) hb
  have hs : splitItem it n = .ok chunks := by
    unfold splitItem
    rw [if_neg (by omega),hd]
    dsimp only
    have hno : ¬(d.xml ≠ [] ∨ (d.value.length : Int) ≤ n) := by
      rintro (h | h)
      · exact h hx
      · omega
    rw [if_neg hno,hm,if_neg (by decide)]
    exact hc
  have hcat := splitLoop_concat it d _ _ _ _ (Nat.le_refl _) hc
  have hsize := splitLoop_chunk hc
  match chunks,hs,hcat,hsize with
  | [],_,hcat,_ =>
    rw [← hcat] at hl
    simp at hl
    omega
  | [c],_,hcat,hsize =>
    obtain ⟨b,value,more,rfl,hv⟩ := hsize c List.mem_cons_self
    simp only [List.map_cons,List.map_nil,List.flatten_cons,List.flatten_nil,List.append_nil,
      chunkValue,chunkOf] at hcat
    rw [← hcat] at hl
    omega
  | first :: next :: rest,hs,_,_ => exact ⟨first,next,rest,hs⟩

structure Assembler where
  maxSize : Int := 0
  locURI : GoString := []
  pending : Bool := false
  buf : GoString := []
  first : Item := {}
  size : Int := 0
  deriving DecidableEq

def Assembler.limit (a : Assembler) : Int := if a.maxSize ≤ 0 then defaultMaxSize else a.maxSize

def Assembler.reset (a : Assembler) : Assembler := { maxSize := a.maxSize }

/-- The first chunk of an object opens it, unless the size it declares is too large. -/
def Assembler.start (a : Assembler) (it : Item) : Assembler :=
  { a with pending := true, locURI := it.locURI, first := it, buf := [],
           size := match it.metinf with
             | some m => m.size
             | none => a.size }

def Assembler.accept (a : Assembler) (it : Item) : Except ChunkError (Option Item) × Assembler :=
  match it.data with
  | some d =>
    if d.xml ≠ [] then (.error .markup,a.reset)
    else finish { a with buf := a.buf ++ d.value }
  | none => finish a
where
  finish (b : Assembler) : Except ChunkError (Option Item) × Assembler :=
    if (b.buf.length : Int) > a.limit then (.error (.tooLong a.limit),b.reset)
    else if it.moreData then (.ok none,b)
    else if b.size > 0 ∧ (b.buf.length : Int) ≠ b.size then
      (.error (.sizeMismatch b.size b.buf.length),b.reset)
    else
      (.ok (some { b.first with
        moreData := false
        data := some { value := b.buf
                       originalError := (b.first.data.map Data.originalError).getD [] } }),b.reset)

def Assembler.add (a : Assembler) (it : Item) : Except ChunkError (Option Item) × Assembler :=
  if a.pending then
    -- the message names the pending object after the reset has cleared it
    if it.locURI ≠ a.locURI then (.error (.whilePending it.locURI []),a.reset)
    else a.accept it
  else if !it.moreData then (.ok (some it),a)
  else if it.data.isNone then (.error (.noData it.locURI),a)
  else
    let b := a.start it
    if it.metinf.isSome ∧ b.size > a.limit then (.error (.declaredSize b.size a.limit),b.reset)
    else b.accept it

def joinChunks : List Item → Item
  | [] => {}
  | [it] => it
  | first :: rest =>
    { first with
      moreData := false
      data := some { value := ((first :: rest).map chunkValue).flatten
                     originalError := (first.data.map Data.originalError).getD [] } }

/-- The assembler holds exactly the chunks `stream` of an unfinished object. -/
structure Holds (a : Assembler) (stream : List Item) : Prop where
  pending : a.pending = decide (stream ≠ [])
  first : ∀ it rest, stream = it :: rest → a.first = it
  buf : a.pending = true → a.buf = (stream.map chunkValue).flatten

theorem holds_reset (a : Assembler) : Holds a.reset [] where
  pending := rfl
  first := by intro it rest h; cases h
  buf := by intro h; cases h

variable {a b : Assembler}

theorem accept_ok (hne : stream ++ [it] ≠ [it] ∨ it.moreData = true)
    (hp : a.pending = true) (hf : ∀ x rest, stream ++ [it] = x :: rest → a.first = x)
    (hb : a.buf = (stream.map chunkValue).flatten) (h : a.accept it = (.ok r,b)) :
    (it.moreData = true ∧ r = none ∧ Holds b (stream ++ [it])) ∨
    (it.moreData = false ∧ r = some (joinChunks (stream ++ [it])) ∧ Holds b []) := by
  have hbuf : ∀ c : Assembler, c.buf = ((stream ++ [it]).map chunkValue).flatten →
      c.pending = true → c.first = a.first → Assembler.accept.finish a it c = (.ok r,b) →
      (it.moreData = true ∧ r = none ∧ Holds b (stream ++ [it])) ∨
      (it.moreData = false ∧ r = some (joinChunks (stream ++ [it])) ∧ Holds b []) := by
    intro c hc hcp hcf hfin
    unfold Assembler.accept.finish at hfin
    split at hfin
    · cases hfin
    split at hfin
    · rename_i hm
      cases hfin
      refine .inl ⟨hm,rfl,?_,?_,?_⟩
      · simp [hcp]
      · intro x rest hx
        rw [hcf]
        exact hf x rest hx
      · intro _
        exact hc
    · rename_i hm
      split at hfin
      · cases hfin
      cases hfin
      refine .inr ⟨by simpa using hm,?_,holds_reset c⟩
      cases hs : stream ++ [it] with
      | nil => simp at hs
      | cons x rest =>
        have hx := hf x rest hs
        cases rest with
        | nil =>
          have hxi : stream ++ [it] = [it] := by
            cases stream with
            | nil => rfl
            | cons y ys => simp at hs
          rcases hne with hne | hne
          · exact absurd hxi hne
          · exact absurd hne hm
        | cons y ys =>
          rw [hs] at hc
          simp only [joinChunks,hc,hcf,hx]
  cases hd : it.data with
  | some d =>
    simp only [Assembler.accept,hd] at h
    split at h
    · cases h
    · refine hbuf { a with buf := a.buf ++ d.value } ?_ hp rfl h
      simp [hb,chunkValue,hd]
  | none =>
    simp only [Assembler.accept,hd] at h
    refine hbuf a ?_ hp rfl h
    simp [hb,chunkValue,hd]

theorem add_ok
    (ha : Holds a stream) (h : a.add it = (.ok r,b)) :
    (it.moreData = true ∧ r = none ∧ Holds b (stream ++ [it])) ∨
    (it.moreData = false ∧ r = some (joinChunks (stream ++ [it])) ∧ Holds b []) := by
  unfold Assembler.add at h
  split at h
  · rename_i hp
    have hs : stream ≠ [] := by simpa [ha.pending] using hp
    split at h
    · cases h
    refine accept_ok (.inl ?_) hp ?_ (ha.buf hp) h
    · intro he
      cases stream with
      | nil => exact hs rfl
      | cons x xs => simp at he
    intro x rest hx
    cases stream with
    | nil => exact absurd rfl hs
    | cons y ys =>
      simp only [List.cons_append,List.cons.injEq] at hx
      rw [← hx.1]
      exact ha.first y ys rfl
  · rename_i hp
    have hs : stream = [] := by simpa [ha.pending] using hp
    subst hs
    split at h
    · rename_i hm
      cases h
      exact .inr ⟨by simpa using hm,rfl,ha⟩
    rename_i hm
    split at h
    · cases h
    dsimp only at h
    split at h
    · cases h
    refine accept_ok (.inr (by simpa using hm)) rfl ?_ rfl h
    intro x rest hx
    cases hx
    rfl

theorem holds_nil (h : a.pending = false) : Holds a [] where
  pending := by simpa using h
  first := by intro it rest hc; cases hc
  buf := by intro hp; rw [h] at hp; cases hp

/-- Items in the order they arrive, joined to objects, with the chunks of the
object left open. `stream` are the chunks of the object open at the start. -/
def joinStreams : List Item → List Item → List Item × List Item
  | stream, [] => ([],stream)
  | stream, it :: rest =>
    if it.moreData then joinStreams (stream ++ [it]) rest
    else (joinChunks (stream ++ [it]) :: (joinStreams [] rest).1,(joinStreams [] rest).2)

theorem joinStreams_append (stream xs ys : List Item) :
    joinStreams stream (xs ++ ys) =
      ((joinStreams stream xs).1 ++ (joinStreams (joinStreams stream xs).2 ys).1,
        (joinStreams (joinStreams stream xs).2 ys).2) := by
  induction xs generalizing stream with
  | nil => simp [joinStreams]
  | cons it rest ih =>
    simp only [List.cons_append,joinStreams]
    split
    · exact ih (stream ++ [it])
    · simp [ih]

theorem joinStreams_of_moreData {items : List Item} (h : ∀ it ∈ items, it.moreData = true)
    (stream : List Item) : joinStreams stream items = ([],stream ++ items) := by
  induction items generalizing stream with
  | nil => simp [joinStreams]
  | cons it rest ih =>
    simp only [joinStreams,h it List.mem_cons_self,if_true]
    rw [ih fun x hx => h x (List.mem_cons_of_mem it hx)]
    simp

theorem joinStreams_closed (h : it.moreData = false) (stream items : List Item) :
    (joinStreams stream (items ++ [it])).2 = [] := by
  rw [joinStreams_append]
  simp [joinStreams,h]

theorem MoreDataMarks.split (h : MoreDataMarks stream) (hne : stream ≠ []) :
    ∃ init last, stream = init ++ [last] ∧ (∀ it ∈ init, it.moreData = true) ∧
      last.moreData = false := by
  rcases List.eq_nil_or_concat' stream with he | ⟨init,last,he⟩
  · exact absurd he hne
  subst he
  refine ⟨init,last,rfl,?_,?_⟩
  · intro it hit
    obtain ⟨i,hi,rfl⟩ := List.getElem_of_mem hit
    have := h i (by simp; omega)
    simpa [hi] using this
  · have := h init.length (by simp)
    simpa using this

theorem joinStreams_flatten {streams : List (List Item)}
    (h : ∀ s ∈ streams, s ≠ [] ∧ MoreDataMarks s) :
    joinStreams [] streams.flatten = (streams.map joinChunks,[]) := by
  induction streams with
  | nil => rfl
  | cons s rest ih =>
    obtain ⟨hne,hm⟩ := h s List.mem_cons_self
    obtain ⟨init,last,rfl,hinit,hlast⟩ := hm.split hne
    rw [List.flatten_cons,joinStreams_append,joinStreams_append,joinStreams_of_moreData hinit]
    simp [joinStreams,hlast,ih fun x hx => h x (List.mem_cons_of_mem _ hx)]

inductive AssemblerCall where
  | add (it : Item)
  | reset

def Assembler.call (a : Assembler) : AssemblerCall → Assembler
  | .add it => (a.add it).2
  | .reset => a.reset

def Assembler.after (maxSize : Int) (calls : List AssemblerCall) : Assembler :=
  calls.foldl Assembler.call { maxSize := maxSize }

def declaredSize (it : Item) : Int := (it.metinf.map Meta.size).getD 0

def chunkMarkup (it : Item) : GoString := (it.data.map Data.xml).getD []

def holding (maxSize : Int) (first : Item) (rest : List Item) : Assembler :=
  { maxSize := maxSize, locURI := first.locURI, pending := true, first := first
    buf := ((first :: rest).map chunkValue).flatten, size := declaredSize first }

/-- Chunks of one object that asks for more, within the limit. -/
structure Transfer (maxSize : Int) (first : Item) (rest : List Item) : Prop where
  each : ∀ c ∈ first :: rest, c.moreData = true ∧ chunkMarkup c = [] ∧ c.locURI = first.locURI
  fits : ((((first :: rest).map chunkValue).flatten.length : Nat) : Int) ≤
    ({ maxSize := maxSize } : Assembler).limit
  declared : declaredSize first ≤ ({ maxSize := maxSize } : Assembler).limit

section Runs
variable {k : Int} {it first : Item} {rest : List Item}

theorem limit_pos (a : Assembler) : 0 < a.limit := by
  unfold Assembler.limit
  split
  · decide
  · omega

theorem accept_eq (a : Assembler) (it : Item) : a.accept it =
    if chunkMarkup it ≠ [] then (.error .markup,a.reset)
    else Assembler.accept.finish a it { a with buf := a.buf ++ chunkValue it } := by
  cases hd : it.data with
  | none | some _ => simp [Assembler.accept,chunkMarkup,chunkValue,hd]

def completed (first : Item) (rest : List Item) (last : Item) : Item :=
  { first with
    moreData := false
    data := some { value := ((first :: rest ++ [last]).map chunkValue).flatten
                   originalError := (first.data.map Data.originalError).getD [] } }

theorem holding_add_eq (k : Int) (first : Item) (rest : List Item) (it : Item) :
    (holding k first rest).add it =
      if it.locURI ≠ first.locURI then (.error (.whilePending it.locURI []),{ maxSize := k })
      else (holding k first rest).accept it := rfl

theorem holding_add (h : Transfer k first rest) (it : Item) :
    (∃ e, (holding k first rest).add it = (.error e,{ maxSize := k })) ∨
    it.locURI = first.locURI ∧ chunkMarkup it = [] ∧
    (it.moreData = true ∧ Transfer k first (rest ++ [it]) ∧
        (holding k first rest).add it = (.ok none,holding k first (rest ++ [it])) ∨
      it.moreData = false ∧ (holding k first rest).add it =
          (.ok (some (completed first rest it)),{ maxSize := k }) ∧
        (0 < declaredSize first →
          ((((first :: rest ++ [it]).map chunkValue).flatten.length : Nat) : Int) = declaredSize first)) := by
  have hbuf : (holding k first rest).buf ++ chunkValue it =
      ((first :: (rest ++ [it])).map chunkValue).flatten := by simp [holding]
  by_cases hu : it.locURI = first.locURI
  · rw [holding_add_eq,if_neg (not_not_intro hu),accept_eq,hbuf]
    by_cases hx : chunkMarkup it = []
    · rw [if_neg (not_not_intro hx)]
      unfold Assembler.accept.finish
      dsimp only
      split
      · exact .inl ⟨_,rfl⟩
      rename_i hlen
      cases hm : it.moreData with
      | true =>
        refine .inr ⟨hu,hx,.inl ⟨rfl,⟨fun c hc => ?_,Int.not_lt.mp hlen,h.declared⟩,rfl⟩⟩
        rcases List.mem_append.mp (show c ∈ first :: rest ++ [it] from hc) with hc | hc
        · exact h.each c hc
        · rw [List.mem_singleton.mp hc]
          exact ⟨hm,hx,hu⟩
      | false =>
        rw [if_neg Bool.false_ne_true]
        split
        · exact .inl ⟨_,rfl⟩
        rename_i hsize
        refine .inr ⟨hu,hx,.inr ⟨rfl,rfl,fun hpos => ?_⟩⟩
        by_contra hne
        exact hsize ⟨hpos,hne⟩
    · exact .inl ⟨_,by rw [if_pos hx]; rfl⟩
  · exact .inl ⟨_,by rw [holding_add_eq,if_pos hu]⟩

theorem fresh_add (k : Int) (it : Item) :
    (∃ r, ({ maxSize := k } : Assembler).add it = (r,{ maxSize := k })) ∨
    Transfer k it [] ∧ ({ maxSize := k } : Assembler).add it = (.ok none,holding k it []) := by
  unfold Assembler.add
  rw [if_neg Bool.false_ne_true]
  cases hm : it.moreData with
  | false => exact .inl ⟨_,rfl⟩
  | true =>
    split
    · exact .inl ⟨_,rfl⟩
    split
    · exact .inl ⟨_,rfl⟩
    have hstart : ({ maxSize := k } : Assembler).start it =
        { holding k it [] with buf := [] } := by
      cases hmeta : it.metinf <;> simp [Assembler.start,holding,declaredSize,hmeta]
    dsimp only
    rw [hstart]
    split
    · exact .inl ⟨_,rfl⟩
    rename_i hsize
    rw [accept_eq]
    split
    · exact .inl ⟨_,rfl⟩
    rename_i hx
    unfold Assembler.accept.finish
    dsimp only
    split
    · exact .inl ⟨_,rfl⟩
    rename_i hlen
    refine .inr ⟨⟨?_,?_,?_⟩,?_⟩
    · simpa [hm] using hx
    · have hfits : ((chunkValue it).length : Int) ≤ ({ maxSize := k } : Assembler).limit :=
        Int.not_lt.mp hlen
      simpa using hfits
    · cases hmeta : it.metinf with
      | none =>
        have := limit_pos { maxSize := k }
        simp only [declaredSize,hmeta,Option.map_none,Option.getD_none]
        omega
      | some m => exact Int.not_lt.mp fun h => hsize ⟨by rw [hmeta]; rfl,h⟩
    · simp [holding]

theorem after_cases (k : Int) (calls : List AssemblerCall) :
    Assembler.after k calls = { maxSize := k } ∨
    ∃ pre first rest, calls = pre ++ (first :: rest).map .add ∧
      Assembler.after k pre = { maxSize := k } ∧ Transfer k first rest ∧
      Assembler.after k calls = holding k first rest := by
  induction calls using List.reverseRecOn with
  | nil => exact .inl rfl
  | append_singleton calls c ih =>
    have hstep : Assembler.after k (calls ++ [c]) = (Assembler.after k calls).call c := by
      simp [Assembler.after]
    rw [hstep]
    cases c with
    | reset =>
      rcases ih with h | ⟨pre,first,rest,-,-,-,h⟩ <;> exact .inl (by rw [h]; rfl)
    | add it =>
      rcases ih with h | ⟨pre,first,rest,hcalls,hpre,ht,h⟩
      · rw [h]
        rcases fresh_add k it with ⟨r,he⟩ | ⟨ht,he⟩
        · exact .inl (congrArg Prod.snd he)
        · exact .inr ⟨calls,it,[],rfl,h,ht,congrArg Prod.snd he⟩
      rw [h]
      rcases holding_add ht it with ⟨e,he⟩ | ⟨-,-,⟨-,ht',he⟩ | ⟨-,he,-⟩⟩
      · exact .inl (congrArg Prod.snd he)
      · exact .inr ⟨pre,first,rest ++ [it],by simp [hcalls],hpre,ht',congrArg Prod.snd he⟩
      · exact .inl (congrArg Prod.snd he)

/-- The assembler keeps what is pending within the limit, drops it with an error, and completes
exactly the chunks since the first. -/
theorem assembler_runs (k : Int) (calls : List AssemblerCall) :
    ((Assembler.after k calls).pending = true →
      ((Assembler.after k calls).buf.length : Int) ≤ ({ maxSize := k } : Assembler).limit ∧
      (Assembler.after k calls).size ≤ ({ maxSize := k } : Assembler).limit) ∧
    (∀ it e b, (Assembler.after k calls).add it = (.error e,b) → b.pending = false) ∧
    ∀ it out b, (Assembler.after k calls).add it = (.ok (some out),b) →
      (Assembler.after k calls).pending = true →
      ∃ pre first rest, calls = pre ++ (first :: rest).map .add ∧
        (Assembler.after k pre).pending = false ∧ it.moreData = false ∧
        (∀ c ∈ first :: rest, c.moreData = true) ∧
        (∀ c ∈ first :: rest ++ [it], chunkMarkup c = [] ∧ c.locURI = first.locURI) ∧
        out = completed first rest it ∧
        (0 < declaredSize first → ((chunkValue out).length : Int) = declaredSize first) := by
  rcases after_cases k calls with h | ⟨pre,first,rest,hcalls,hpre,ht,h⟩
  · rw [h]
    refine ⟨fun hp => (by cases hp),fun it e b he => ?_,fun _ _ _ _ hp => (by cases hp)⟩
    rcases fresh_add k it with ⟨r,hr⟩ | ⟨-,hr⟩
    · rw [hr] at he
      cases he
      rfl
    · rw [hr] at he
      cases he
  · rw [h]
    refine ⟨fun _ => ⟨ht.fits,ht.declared⟩,fun it e b he => ?_,fun it out b he _ => ?_⟩
    · rcases holding_add ht it with ⟨e,hr⟩ | ⟨-,-,⟨-,-,hr⟩ | ⟨-,hr,-⟩⟩
      · rw [hr] at he
        cases he
        rfl
      · rw [hr] at he
        cases he
      · rw [hr] at he
        cases he
    · rcases holding_add ht it with ⟨e,hr⟩ | ⟨hu,hx,⟨-,-,hr⟩ | ⟨hm,hr,hsize⟩⟩
      · rw [hr] at he
        cases he
      · rw [hr] at he
        cases he
      rw [hr] at he
      cases he
      refine ⟨pre,first,rest,hcalls,by rw [hpre],hm,fun c hc => (ht.each c hc).1,fun c hc => ?_,rfl,hsize⟩
      rcases List.mem_append.mp hc with hc | hc
      · exact (ht.each c hc).2
      · rw [List.mem_singleton.mp hc]
        exact ⟨hx,hu⟩

end Runs

namespace Sample

def negativeSize : List Item :=
  [{ metinf := some { size := -1 }, data := some { value := "a" }, moreData := true },
    { data := some { value := "b" } }]

end Sample

/-- A size below zero is taken for none, so two bytes complete it. -/
theorem assembler_negative_size : ∃ first last out b, Sample.negativeSize = [first,last] ∧
    (Assembler.after 0 [.add first]).pending = true ∧
    (Assembler.after 0 [.add first]).add last = (.ok (some out),b) ∧
    declaredSize first = -1 ∧ (chunkValue out).length = 2 :=
  ⟨_,_,_,_,rfl,by decide +kernel,rfl,rfl,rfl⟩

end MicrosoftDM.Syncml
