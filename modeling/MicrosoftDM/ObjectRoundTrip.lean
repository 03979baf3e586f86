import MicrosoftDM.LargeObject
import MicrosoftDM.Utf8Text

set_option autoImplicit false

namespace MicrosoftDM.Syncml

/-- `chunks` are the chunks of `full`, in order. -/
inductive Chunks (it : Item) (d : Data) : Bool → GoString → List Item → Prop where
  | last {first : Bool} {value : GoString} : value ≠ [] →
      Chunks it d first value [chunkOf it d first value false]
  | more {first : Bool} {value rest : GoString} {chunks : List Item} : value ≠ [] → rest ≠ [] →
      Chunks it d false rest chunks →
      Chunks it d first (value ++ rest) (chunkOf it d first value true :: chunks)

variable {first : Bool} {d : Data} {full : GoString} {it : Item} {chunks : List Item}

theorem splitLoop_chunks {limit fuel : Nat} (hf : full.length ≤ fuel) (hne : full ≠ [])
    (h : splitLoop it d limit fuel first full = .ok chunks) : Chunks it d first full chunks := by
  induction fuel generalizing first full chunks with
  | zero => exact absurd (List.length_eq_zero_iff.mp (Nat.le_zero.mp hf)) hne
  | succ fuel ih =>
    rcases splitLoop_succ h with ⟨h0,-⟩ | ⟨-,hn,rest,hr,rfl⟩
    · exact absurd h0 hne
    have hl : (full.drop (cutAt limit full)).length ≤ fuel := by
      rw [List.length_drop]
      omega
    have hvalue : full.take (cutAt limit full) ≠ [] := by simp [hn,hne]
    by_cases hrest : full.drop (cutAt limit full) = []
    · have hfull : full.take (cutAt limit full) = full :=
        List.take_of_length_le (List.drop_eq_nil_iff.mp hrest)
      have hnil := (splitLoop_nil_iff hl hr).mpr hrest
      simp only [hnil,hrest,hfull]
      exact .last hne
    · have hmore : decide (full.drop (cutAt limit full) ≠ []) = true := decide_eq_true hrest
      have hchunks : Chunks it d first _ _ := .more hvalue hrest (ih hl hrest hr)
      rw [List.take_append_drop] at hchunks
      rw [hmore]
      exact hchunks

theorem Chunks.ne_nil (h : Chunks it d first full chunks) : chunks ≠ [] := by
  cases h with
  | last | more => simp

/-- Several chunks: the first, and the chunks of what is left. -/
theorem Chunks.cut (h : Chunks it d first full chunks)
    (hsmall : ∀ c ∈ chunks, (chunkValue c).length < full.length) :
    ∃ value rest cs, full = value ++ rest ∧ chunks = chunkOf it d first value true :: cs ∧
      Chunks it d false rest cs := by
  cases h with
  | last => exact absurd (hsmall _ List.mem_cons_self) (Nat.lt_irrefl _)
  | more _ _ h => exact ⟨_,_,_,rfl,rfl,h⟩

theorem backUp_start (s : GoString) (n : Nat) :
    backUp s n = 0 ∨ continuation (s.getD (backUp s n) 0) = false := by
  induction n with
  | zero => exact .inl rfl
  | succ n ih =>
    simp only [backUp]
    split
    · rename_i h
      exact .inr (by simpa [runeStart] using h)
    · exact ih

theorem cutAt_encodeRunes {rs : List Nat} {limit : Nat} (h : ∀ r ∈ rs, IsScalar r)
    (hfit : ∀ r ∈ rs, (encodeRune r).length ≤ limit) (hne : rs ≠ []) :
    ∃ front back, rs = front ++ back ∧ front ≠ [] ∧
      cutAt limit (encodeRunes rs) = (encodeRunes front).length := by
  by_cases hle : limit ≥ (encodeRunes rs).length
  · exact ⟨rs,[],by simp,hne,by rw [cutAt,if_pos hle]⟩
  rw [cutAt,if_neg hle]
  match rs,hne with
  | [r],_ =>
    have := hfit r List.mem_cons_self
    simp [encodeRunes] at hle
    omega
  | r :: r' :: rs,_ =>
    have hr' := h r' (by simp)
    obtain ⟨b,tail,hb,hstart,-⟩ := encodeRune_shape hr'
    have htext : encodeRunes (r :: r' :: rs) = encodeRune r ++ (b :: (tail ++ encodeRunes rs)) := by
      rw [← List.cons_append,← hb]
      rfl
    have hsecond : runeStart ((encodeRunes (r :: r' :: rs)).getD (encodeRune r).length 0) = true := by
      rw [htext,List.getD_eq_getElem?_getD,List.getElem?_append_right (Nat.le_refl _)]
      simp [runeStart,hstart]
    have hk := le_backUp (hfit r List.mem_cons_self) hsecond
    have hpos := List.length_pos_iff.mpr (encodeRune_ne_nil r)
    have hlimit := backUp_le (encodeRunes (r :: r' :: rs)) limit
    rcases backUp_start (encodeRunes (r :: r' :: rs)) limit with h0 | hcut
    · omega
    obtain ⟨front,back,he,hl⟩ := encodeRunes_cut h (by omega) hcut
    refine ⟨front,back,he,?_,hl.symm⟩
    rintro rfl
    have h0 : backUp (encodeRunes (r :: r' :: rs)) limit = 0 := hl.symm
    omega

theorem splitLoop_encodeRunes {it : Item} {d : Data} {limit fuel : Nat} {first : Bool}
    {rs : List Nat} (h : ∀ r ∈ rs, IsScalar r) (hfit : ∀ r ∈ rs, (encodeRune r).length ≤ limit) :
    ∃ chunks, splitLoop it d limit fuel first (encodeRunes rs) = .ok chunks ∧
      ∀ c ∈ chunks, chunkValue c ≠ [] ∧ validString (chunkValue c) = true := by
  induction fuel generalizing first rs with
  | zero => exact ⟨[],rfl,by simp⟩
  | succ fuel ih =>
    simp only [splitLoop]
    by_cases hrs : rs = []
    · exact ⟨[],by rw [if_pos (encodeRunes_eq_nil.mpr hrs)],by simp⟩
    obtain ⟨front,back,rfl,hfront,hcut⟩ := cutAt_encodeRunes h hfit hrs
    have hne : encodeRunes front ≠ [] := fun h0 => hfront (encodeRunes_eq_nil.mp h0)
    rw [if_neg fun h0 => hrs (encodeRunes_eq_nil.mp h0),hcut,
      if_neg fun h0 => hne (List.length_eq_zero_iff.mp h0),encodeRunes_append,List.take_left,
      List.drop_left]
    obtain ⟨rest,hrest,hall⟩ := @ih false back (fun r hr => h r (List.mem_append_right _ hr))
      (fun r hr => hfit r (List.mem_append_right _ hr))
    rw [hrest]
    refine ⟨_,rfl,fun c hc => ?_⟩
    rcases List.mem_cons.mp hc with rfl | hc
    · exact ⟨hne,validString_encodeRunes fun r hr => h r (List.mem_append_left _ hr)⟩
    · exact hall c hc

def Assembler.addAll (a : Assembler) :
    List Item → List (Except ChunkError (Option Item)) × Assembler
  | [] => ([],a)
  | it :: rest => ((a.add it).1 :: ((a.add it).2.addAll rest).1,((a.add it).2.addAll rest).2)

def opened (k : Int) (it : Item) (d : Data) (value buf : GoString) : Assembler :=
  { maxSize := k, pending := true, locURI := it.locURI, buf := buf,
    first := chunkOf it d true value true, size := d.value.length }

def sized (it : Item) (d : Data) : Item :=
  { it with metinf := some { it.metinf.getD {} with size := d.value.length } }

variable {a : Assembler}

theorem add_pending (hp : a.pending = true) (hu : it.locURI = a.locURI) :
    a.add it = a.accept it := by
  unfold Assembler.add
  rw [if_pos hp,if_neg (not_not_intro hu)]

variable {v : GoString}

theorem accept_more (h : ((a.buf ++ v).length : Int) ≤ a.limit) :
    a.accept (chunkOf it d first v true) = (.ok none,{ a with buf := a.buf ++ v }) := by
  have hin : ¬a.limit < ((a.buf ++ v).length : Int) := Int.not_lt.mpr h
  simp only [Assembler.accept,Assembler.accept.finish,chunkOf,ne_eq,not_true_eq_false,if_false,
    if_true,gt_iff_lt]
  rw [if_neg hin]

theorem accept_last (h : ((a.buf ++ v).length : Int) ≤ a.limit)
    (hs : a.size = (a.buf ++ v).length) :
    a.accept (chunkOf it d first v false) = (.ok (some { a.first with
      moreData := false
      data := some { value := a.buf ++ v,
                     originalError := (a.first.data.map Data.originalError).getD [] } }),a.reset) := by
  have hin : ¬a.limit < ((a.buf ++ v).length : Int) := Int.not_lt.mpr h
  have hsame : ¬(a.size > 0 ∧ ((a.buf ++ v).length : Int) ≠ a.size) := fun h' => h'.2 hs.symm
  simp only [Assembler.accept,Assembler.accept.finish,chunkOf,ne_eq,not_true_eq_false,if_false,
    Bool.false_eq_true,gt_iff_lt]
  rw [if_neg hin,if_neg hsame]
  rfl

variable {buf value : GoString} {k : Int}

theorem opened_add_more (hlen : ((buf ++ v).length : Int) ≤ (opened k it d value buf).limit) :
    (opened k it d value buf).add (chunkOf it d false v true) =
      (.ok none,opened k it d value (buf ++ v)) := by
  rw [add_pending rfl rfl,accept_more hlen]
  rfl

theorem opened_add_last (hd : it.data = some d) (hx : d.xml = []) (hm : it.moreData = false)
    (hv : buf ++ v = d.value) (hlen : (d.value.length : Int) ≤ (opened k it d value buf).limit) :
    (opened k it d value buf).add (chunkOf it d false v false) =
      (.ok (some (sized it d)),{ maxSize := k }) := by
  rw [← hv] at hlen
  rw [add_pending rfl rfl,accept_last hlen (by simp [opened,← hv])]
  obtain ⟨dv,dx,de⟩ := d
  obtain ⟨t,s,m,data,more⟩ := it
  simp only at hd hx hm hv
  subst hd hx hm hv
  rfl

theorem Chunks.addAll (h : Chunks it d first full chunks) (hf : first = false)
    (hd : it.data = some d) (hx : d.xml = []) (hm : it.moreData = false)
    (hv : buf ++ full = d.value) (hlen : (d.value.length : Int) ≤ (opened k it d value buf).limit) :
    (opened k it d value buf).addAll chunks =
      (List.replicate (chunks.length-1) (.ok none) ++ [.ok (some (sized it d))],{ maxSize := k }) := by
  induction h generalizing buf with
  | last =>
    subst hf
    simp only [Assembler.addAll,opened_add_last hd hx hm hv hlen]
    rfl
  | @more _ v rest chunks _ _ hrest ih =>
    subst hf
    have hin : ((buf ++ v).length : Int) ≤ (opened k it d value buf).limit := by
      have hle : (buf ++ v).length ≤ d.value.length := by
        rw [← hv]
        simp only [List.length_append]
        omega
      omega
    have hnext := @ih (buf ++ v) rfl (by rw [List.append_assoc]; exact hv) hlen
    simp only [Assembler.addAll,opened_add_more hin,hnext]
    obtain ⟨n,hn⟩ := Nat.exists_eq_succ_of_ne_zero
      (fun h0 => hrest.ne_nil (List.length_eq_zero_iff.mp h0))
    simp [hn,List.replicate_succ]

theorem add_first (hlen : (d.value.length : Int) ≤ ({ maxSize := k } : Assembler).limit)
    (hv : v.length ≤ d.value.length) :
    ({ maxSize := k } : Assembler).add (chunkOf it d true v true) = (.ok none,opened k it d v v) := by
  have hsize : ¬((chunkOf it d true v true).metinf.isSome ∧
      (Assembler.start { maxSize := k } (chunkOf it d true v true)).size >
        ({ maxSize := k } : Assembler).limit) := by
    rintro ⟨-,hgt⟩
    exact absurd hlen (Int.not_le.mpr hgt)
  have hin : ((([] : GoString) ++ v).length : Int) ≤
      (Assembler.start { maxSize := k } (chunkOf it d true v true)).limit := by
    rw [List.nil_append]
    exact Int.le_trans (Int.ofNat_le.mpr hv) hlen
  unfold Assembler.add
  rw [if_neg (by simp),if_neg (by simp [chunkOf]),if_neg (by simp [chunkOf])]
  dsimp only
  rw [if_neg hsize]
  exact accept_more hin

/-- Splitting an item of text and assembling the chunks. -/
theorem splitItem_addAll {it : Item} {d : Data} {n k : Int} (hd : it.data = some d)
    (hx : d.xml = []) (hm : it.moreData = false) (hvalid : validString d.value = true)
    (hfit : ∀ r ∈ runes d.value, (r.2.length : Int) ≤ n) (hpos : d.value = [] → 0 < n)
    (hlimit : (d.value.length : Int) ≤ ({ maxSize := k } : Assembler).limit) :
    ∃ chunks, splitItem it n = .ok chunks ∧ MoreDataMarks chunks ∧
      (1 < chunks.length ↔ n < d.value.length) ∧
      (n < d.value.length → ∀ c ∈ chunks,
        chunkValue c ≠ [] ∧ validString (chunkValue c) = true ∧ ((chunkValue c).length : Int) ≤ n) ∧
      ({ maxSize := k } : Assembler).addAll chunks =
        (List.replicate (chunks.length-1) (.ok none) ++
          [.ok (some (if n < d.value.length then sized it d else it))],{ maxSize := k }) := by
  obtain ⟨rs,hrs,htext⟩ := exists_runes_of_validString hvalid
  rw [htext,runes_encodeRunes hrs] at hfit
  have hn : 1 ≤ n := by
    cases rs with
    | nil => exact hpos htext
    | cons r rs =>
      have hr : ((encodeRune r).length : Int) ≤ n := hfit _ List.mem_cons_self
      have := List.length_pos_iff.mpr (encodeRune_ne_nil r)
      omega
  by_cases hlong : n < d.value.length
  · have hsplit : splitItem it n = splitLoop it d n.toNat d.value.length true d.value := by
      unfold splitItem
      rw [if_neg (by omega),hd]
      dsimp only
      rw [if_neg (by simp only [hx,ne_eq,not_true_eq_false,false_or]; omega),hm]
      rfl
    have hfit' : ∀ r ∈ rs, (encodeRune r).length ≤ n.toNat := by
      intro r hr
      have : ((encodeRune r).length : Int) ≤ n := hfit _ (List.mem_map.mpr ⟨r,hr,rfl⟩)
      omega
    obtain ⟨chunks,hloop,htexts⟩ :=
      @splitLoop_encodeRunes it d n.toNat d.value.length true rs hrs hfit'
    rw [← htext] at hloop
    have hsizes : ∀ c ∈ chunks, ((chunkValue c).length : Int) ≤ n := by
      intro c hc
      obtain ⟨b,value,more,rfl,hl⟩ := splitLoop_chunk hloop c hc
      have : (chunkValue (chunkOf it d b value more)).length ≤ n.toNat := hl
      omega
    have hne : d.value ≠ [] := by
      intro h0
      simp only [h0,List.length_nil] at hlong
      omega
    obtain ⟨value,rest,cs,hcat,rfl,hcs⟩ := (splitLoop_chunks (Nat.le_refl _) hne hloop).cut
      fun c hc => by have := hsizes c hc; omega
    have hlen : value.length ≤ d.value.length := by
      rw [hcat,List.length_append]
      omega
    refine ⟨_,hsplit.trans hloop,splitLoop_moreData it d _ _ _ _ (Nat.le_refl _) hloop,
      iff_of_true ?_ hlong,fun _ c hc => ⟨(htexts c hc).1,(htexts c hc).2,hsizes c hc⟩,?_⟩
    · simpa using List.length_pos_iff.mpr hcs.ne_nil
    obtain ⟨m,hm'⟩ := Nat.exists_eq_succ_of_ne_zero
      (fun h0 => hcs.ne_nil (List.length_eq_zero_iff.mp h0))
    simp only [Assembler.addAll,add_first hlimit hlen,
      hcs.addAll rfl hd hx hm hcat.symm hlimit,if_pos hlong]
    simp [hm',List.replicate_succ]
  · have hsplit : splitItem it n = .ok [it] := by
      unfold splitItem
      rw [if_neg (by omega),hd]
      dsimp only
      rw [if_pos (.inr (by omega))]
    refine ⟨[it],hsplit,moreDataMarks_cons hm moreDataMarks_nil,?_,fun h => absurd h hlong,?_⟩
    · simp only [List.length_singleton,Nat.lt_irrefl,false_iff]
      exact hlong
    · rw [if_neg hlong]
      simp [Assembler.addAll,Assembler.add,hm]

namespace Sample

def accented : Item := { target := "./Vendor/MSFT/Name", data := some { value := "a\u00F1b" } }

end Sample

/-- Two bytes at a time, the item goes out in three chunks. -/
theorem splitItem_addAll_accented : ∃ chunks, splitItem Sample.accented 2 = .ok chunks ∧
    chunks.map chunkValue = [utf8 "a",utf8 "\u00F1",utf8 "b"] ∧
    (({ maxSize := 4 } : Assembler).addAll chunks).1 =
      [.ok none,.ok none,.ok (some { Sample.accented with metinf := some { size := 4 } })] := by
  obtain ⟨chunks,hsplit,-,-,-,hadd⟩ := @splitItem_addAll Sample.accented { value := "a\u00F1b" } 2 4
    rfl rfl rfl (by decide +kernel) (by decide +kernel) (by decide +kernel) (by decide +kernel)
  have hvalues : (splitItem Sample.accented 2).map (List.map chunkValue) =
      .ok [utf8 "a",utf8 "\u00F1",utf8 "b"] := by decide +kernel
  rw [hsplit] at hvalues
  have hmap : chunks.map chunkValue = [utf8 "a",utf8 "\u00F1",utf8 "b"] := Except.ok.inj hvalues
  have hlen : chunks.length = 3 := by
    rw [← List.length_map chunkValue,hmap]
    rfl
  refine ⟨chunks,hsplit,hmap,?_⟩
  rw [hadd,hlen]
  rfl

/-- No character is longer than a chunk of no bytes where there is no
character, and yet that chunk size is refused. -/
theorem splitItem_no_bytes : ∃ it d, it.data = some d ∧ d.xml = [] ∧ it.moreData = false ∧
    validString d.value = true ∧ (∀ r ∈ runes d.value, (r.2.length : Int) ≤ 0) ∧
    splitItem it 0 = .error (.chunkSize 0) :=
  ⟨{ data := some {} },{},rfl,rfl,rfl,rfl,by decide,rfl⟩

end MicrosoftDM.Syncml
