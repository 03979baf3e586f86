import Mathlib.Data.List.Perm.Basic
import MicrosoftDM.QueueListing

/-!
Desired settings against acknowledged values (mdmprotocol/mdm/reconcile.go): what
`AcknowledgedValues` reads from the queue, and what `Diff` makes of it.
-/

set_option autoImplicit false

namespace MicrosoftDM.Mdm
open Paging (Page PageResult)
open MicrosoftDM.Syncml (Item checkLocURI)

structure Setting where
  uri : GoString
  value : GoString
  format : GoString := []
  deriving DecidableEq

/-- The loop of `Diff`. -/
def diffLoop (acknowledged : GoMap GoString) : List Setting → List Command
  | [] => []
  | s :: rest =>
    if acknowledged.lookup s.uri = some s.value then diffLoop acknowledged rest
    else
      match newReplace s.uri s.value { format := s.format } with
      | .error _ => diffLoop acknowledged rest
      | .ok cmd => cmd :: diffLoop acknowledged rest

/-- `Diff`. Go compares strings byte by byte; settings with one URI may come
out of its sort in any order. -/
def diff (desired : List Setting) (acknowledged : GoMap GoString) : List Command :=
  diffLoop acknowledged (desired.insertionSort fun a b => a.uri ≤ b.uri)

def recordValue (uri : GoString) (out : GoMap GoString) (it : Item) : GoMap GoString :=
  if uri ≠ [] then
    match it.data with
    | some d => out.insert uri d.text
    | none => out
  else out

def collectLeaf (out : GoMap GoString) : Syncml.Command → GoMap GoString
  | .leaf .add b | .leaf .replace b => b.items.foldl (fun out it => recordValue it.target out it) out
  | _ => out

def collectValues (out : GoMap GoString) (qc : QueuedCommand) : GoMap GoString :=
  let out := (leaves qc.command.body).foldl collectLeaf out
  match qc.result with
  | some r => r.items.foldl (fun out it => recordValue it.locURI out it) out
  | none => out

def acknowledgedLoop (q : Queue) (dev : GoString) :
    Nat → Page → GoMap GoString → Option (Option (GoMap GoString))
  | 0, _, _ => none
  | fuel+1, p, out =>
    match q.list dev { states := [.acknowledged] } p with
    | none => some none
    | some res =>
      let out := res.items.foldl collectValues out
      if res.nextCursor = [] then some (some out)
      else acknowledgedLoop q dev fuel { p with cursor := res.nextCursor } out

def acknowledgedValues (q : Queue) (dev : GoString) : Option (Option (GoMap GoString)) :=
  acknowledgedLoop q dev ((q.commands dev).length+1) { limit := Paging.maxPageSize } ∅

section Collecting
variable {q : Queue} {dev : GoString}

def QueuedCommand.acked (qc : QueuedCommand) : Bool := qc.state == .acknowledged

theorem Queue.list_acked (q : Queue) (dev : GoString) (p : Page) :
    q.list dev { states := [.acknowledged] } p =
      Paging.page ((q.commands dev).filter QueuedCommand.acked) p := by
  unfold list
  congr 2
  funext qc
  simp [Query.keeps,QueuedCommand.acked,beq_eq_decide]

theorem acknowledgedLoop_eq {fuel n : Nat} {p : Page} (hp : p.offset = some n)
    (hn : n ≤ ((q.commands dev).filter QueuedCommand.acked).length)
    (hmax : (((q.commands dev).filter QueuedCommand.acked).length : Int) ≤ maxInt)
    (hfuel : ((q.commands dev).filter QueuedCommand.acked).length < fuel+n) (out : GoMap GoString) :
    acknowledgedLoop q dev fuel p out = some (some
      ((((q.commands dev).filter QueuedCommand.acked).drop n).foldl collectValues out)) := by
  generalize hall : (q.commands dev).filter QueuedCommand.acked = all at hn hmax hfuel
  induction fuel generalizing n p out with
  | zero => omega
  | succ fuel ih =>
    unfold acknowledgedLoop
    rw [q.list_acked,hall,Paging.page_offset hp hn]
    dsimp only
    by_cases hmore : n+p.size < all.length
    · have hpos := p.size_pos
      rw [if_pos hmore,if_neg (itoa_ne_nil _),ih (p.offset_itoa (by omega)) _ hmore.le (by omega),← List.drop_drop,← List.foldl_append,
        List.take_append_drop]
    · rw [if_neg hmore,if_pos rfl,List.take_of_length_le (by rw [List.length_drop]; omega)]

/-- `AcknowledgedValues` reads all pages: later acknowledged commands override earlier ones. -/
theorem acknowledgedValues_eq (hmax : ((q.commands dev).length : Int) ≤ maxInt) :
    acknowledgedValues q dev = some (some
      (((q.commands dev).filter QueuedCommand.acked).foldl collectValues ∅)) := by
  have hle : ((q.commands dev).filter QueuedCommand.acked).length ≤ (q.commands dev).length :=
    List.length_filter_le _ _
  unfold acknowledgedValues
  rw [acknowledgedLoop_eq rfl (Nat.zero_le _) (by omega) (by omega)]
  rfl

end Collecting

def Setting.replace (s : Setting) : Command where
  scope := scopeOf s.uri
  body := .leaf .replace { items := [{
    target := s.uri
    metinf := if s.format ≠ [] then some { format := s.format } else none
    data := some { value := s.value } }] }

def Setting.needed (acknowledged : GoMap GoString) (s : Setting) : Bool :=
  checkLocURI s.uri = none ∧ acknowledged.lookup s.uri ≠ some s.value

variable {desired : List Setting} {qc : QueuedCommand} {cmds : List (Command × Time)}
  {ids : List GoString} {results : List (GoString × Result)} {s : Setting}

section Diffing
variable {acknowledged : GoMap GoString} {s : Setting}

theorem newReplace_ok (h : checkLocURI s.uri = none) :
    newReplace s.uri s.value { format := s.format } = .ok s.replace := by
  simp [newReplace,newLeaf,item,h,Setting.replace]

theorem newReplace_error {err : GoString} (h : checkLocURI s.uri = some err) :
    newReplace s.uri s.value { format := s.format } = .error (.locURI err) := by
  simp [newReplace,newLeaf,item,h]

theorem diffLoop_eq (settings : List Setting) :
    diffLoop acknowledged settings =
      (settings.filter (Setting.needed acknowledged)).map Setting.replace := by
  induction settings with
  | nil => rfl
  | cons s rest ih =>
    unfold diffLoop
    by_cases hv : acknowledged.lookup s.uri = some s.value
    · simp [hv,Setting.needed,ih]
    cases hu : checkLocURI s.uri with
    | none => simp [hv,hu,newReplace_ok,Setting.needed,ih]
    | some err => simp [hv,hu,newReplace_error,Setting.needed,ih]

theorem sorted_settings (hd : (desired.map Setting.uri).Nodup) :
    (desired.insertionSort fun a b => a.uri ≤ b.uri).Perm desired ∧
      (desired.insertionSort fun a b => a.uri ≤ b.uri).Pairwise fun a b => a.uri < b.uri := by
  have hperm := List.perm_insertionSort (fun a b : Setting => a.uri ≤ b.uri) desired
  refine ⟨hperm,?_⟩
  have htotal : Std.Total fun a b : Setting => a.uri ≤ b.uri := ⟨fun a b => List.le_total a.uri b.uri⟩
  have htrans : IsTrans Setting fun a b => a.uri ≤ b.uri := ⟨fun _ _ _ h₁ h₂ => List.le_trans h₁ h₂⟩
  have hle := List.pairwise_insertionSort (fun a b : Setting => a.uri ≤ b.uri) desired
  have hne := List.pairwise_map.mp ((hperm.map Setting.uri).nodup_iff.mpr hd)
  refine (hle.and hne).imp ?_
  intro a b hab
  by_contra hlt
  exact hab.2 (List.le_antisymm hab.1 (List.not_lt.mp hlt))

end Diffing

/-- A slice's length is an int. -/
def Queue.Sized (q : Queue) (dev : GoString) : Prop := ((q.commands dev).length : Int) ≤ maxInt

instance (q : Queue) (dev : GoString) : Decidable (q.Sized dev) :=
  inferInstanceAs (Decidable (_ ≤ _))

def Queue.enqueueAll (dev : GoString) : Queue → List (Command × Time) → Option (List GoString × Queue)
  | q, [] => some ([],q)
  | q, (cmd,time) :: rest =>
    match q.enqueue dev cmd time with
    | (.ok qc,q') =>
      match q'.enqueueAll dev rest with
      | some (ids,q'') => some (qc.id :: ids,q'')
      | none => none
    | (.error _,_) => none

def Queue.storeAll (dev : GoString) : Queue → List (GoString × Result) → Option Queue
  | q, [] => some q
  | q, (id,r) :: rest =>
    match q.storeResult dev id r with
    | (.ok _,q') => q'.storeAll dev rest
    | (.error _,_) => none

section Converging
variable {q q' : Queue} {dev : GoString}

theorem Queue.enqueue_ok {cmd : Command} {time : Time}
    (h : q.enqueue dev cmd time = (.ok qc,q')) :
    q'.commands dev = q.commands dev ++ [qc] ∧ qc.command.body = cmd.body := by
  unfold enqueue at h
  split at h
  · cases h
  split at h
  · cases h
  split at h
  · cases h
  · cases h
    simp [append]

theorem Queue.enqueueAll_ok
    (h : q.enqueueAll dev cmds = some (ids,q')) :
    ∃ new, q'.commands dev = q.commands dev ++ new ∧ new.map QueuedCommand.id = ids ∧
      (new.map fun qc => qc.command.body) = cmds.map fun c => c.1.body := by
  induction cmds generalizing q ids with
  | nil =>
    cases h
    exact ⟨[],by simp,rfl,rfl⟩
  | cons c rest ih =>
    obtain ⟨cmd,time⟩ := c
    unfold enqueueAll at h
    split at h
    · rename_i qc q₁ he
      split at h
      · rename_i ids₁ q₂ hrest
        cases h
        obtain ⟨hone,hbody⟩ := enqueue_ok he
        obtain ⟨new,hnew,hids,hbodies⟩ := ih hrest
        exact ⟨qc :: new,by rw [hnew,hone]; simp,by simp [hids],by simp [hbody,hbodies]⟩
      · cases h
    · cases h

def QueuedCommand.storeAll (qc : QueuedCommand) (results : List (GoString × Result)) : QueuedCommand :=
  results.foldl (fun qc r => qc.storeResult r.1 r.2) qc

theorem Queue.storeAll_ok (h : q.storeAll dev results = some q') :
    q'.commands dev = (q.commands dev).map (·.storeAll results) := by
  induction results generalizing q with
  | nil =>
    cases h
    simp [QueuedCommand.storeAll]
  | cons r rest ih =>
    obtain ⟨id,r⟩ := r
    unfold storeAll at h
    split at h
    · rename_i q₁ hr
      have hok := storeResult_ok (q := q) (by rw [hr])
      rw [hr] at hok
      rw [ih h,hok.2.1,List.map_map]
      rfl
    · cases h

theorem QueuedCommand.command_storeAll (qc : QueuedCommand) (results : List (GoString × Result)) :
    (qc.storeAll results).command = qc.command := by
  induction results generalizing qc with
  | nil => rfl
  | cons r rest ih => exact (ih _).trans (command_storeResult r.1 r.2 qc)

theorem QueuedCommand.storeAll_of_not_mem
    (h : qc.id ∉ results.map Prod.fst) : qc.storeAll results = qc := by
  induction results with
  | nil => rfl
  | cons r rest ih =>
    rw [List.map_cons,List.mem_cons,not_or] at h
    have hone : qc.storeResult r.1 r.2 = qc := if_neg h.1
    show (qc.storeResult r.1 r.2).storeAll rest = qc
    rw [hone]
    exact ih h.2

def QueuedCommand.Confirmed (qc : QueuedCommand) : Prop :=
  qc.state = .acknowledged ∧ ∃ r, qc.result = some r ∧ r.items = []

theorem QueuedCommand.confirmed_storeAll
    (hres : ∀ r ∈ results, Syncml.StatusCode.success r.2.status = true ∧ r.2.items = [])
    (h : qc.Confirmed ∨ qc.id ∈ results.map Prod.fst) : (qc.storeAll results).Confirmed := by
  induction results generalizing qc with
  | nil => exact h.resolve_right (by simp)
  | cons r rest ih =>
    obtain ⟨hok,hitems⟩ := hres r List.mem_cons_self
    show ((qc.storeResult r.1 r.2).storeAll rest).Confirmed
    refine ih (fun x hx => hres x (List.mem_cons_of_mem r hx)) ?_
    by_cases hid : qc.id = r.1
    · refine .inl ⟨?_,r.2,?_,hitems⟩
      · simp [storeResult,hid,hok]
      · simp [storeResult,hid]
    rw [id_storeResult]
    have hsame : qc.storeResult r.1 r.2 = qc := if_neg hid
    rw [hsame]
    refine h.imp_right ?_
    intro hm
    exact (List.mem_cons.mp hm).resolve_left hid

theorem collectValues_replace (hc : qc.Confirmed)
    (hb : qc.command.body = s.replace.body) (hu : s.uri ≠ []) (out : GoMap GoString) :
    collectValues out qc = out.insert s.uri s.value := by
  obtain ⟨-,r,hr,hitems⟩ := hc
  unfold collectValues
  rw [hb,hr]
  simp [Setting.replace,leaves,collectLeaf,recordValue,hitems,hu,Syncml.Data.text]

theorem foldl_collectValues_replace {settings : List Setting} {qcs : List QueuedCommand}
    (hc : ∀ qc ∈ qcs, qc.Confirmed) (hu : ∀ s ∈ settings, s.uri ≠ [])
    (hb : (qcs.map fun qc => qc.command.body) = settings.map fun s => s.replace.body)
    (out : GoMap GoString) :
    qcs.foldl collectValues out = settings.foldl (fun out s => out.insert s.uri s.value) out := by
  induction settings generalizing qcs out with
  | nil =>
    rw [List.map_eq_nil_iff.mp hb]
    rfl
  | cons s rest ih =>
    cases qcs with
    | nil => cases hb
    | cons qc qcs =>
      obtain ⟨hone,hrest⟩ := List.cons.inj hb
      rw [List.foldl_cons,List.foldl_cons,
        collectValues_replace (hc qc List.mem_cons_self) hone (hu s List.mem_cons_self)]
      exact ih (fun x hx => hc x (List.mem_cons_of_mem qc hx))
        (fun x hx => hu x (List.mem_cons_of_mem s hx)) hrest _

theorem lookup_settings_of_not_mem {settings : List Setting} {uri : GoString}
    (h : uri ∉ settings.map Setting.uri) (out : GoMap GoString) :
    (settings.foldl (fun out s => out.insert s.uri s.value) out).lookup uri = out.lookup uri := by
  induction settings generalizing out with
  | nil => rfl
  | cons s rest ih =>
    rw [List.map_cons,List.mem_cons,not_or] at h
    rw [List.foldl_cons,ih h.2,AList.lookup_insert_ne h.1]

theorem lookup_settings_of_mem {settings : List Setting}
    (hd : (settings.map Setting.uri).Nodup) (h : s ∈ settings) (out : GoMap GoString) :
    (settings.foldl (fun out s => out.insert s.uri s.value) out).lookup s.uri = some s.value := by
  induction settings generalizing out with
  | nil => cases h
  | cons x rest ih =>
    obtain ⟨hx,hd⟩ := List.nodup_cons.mp hd
    rw [List.foldl_cons]
    rcases List.mem_cons.mp h with rfl | h
    · rw [lookup_settings_of_not_mem hx,AList.lookup_insert]
    · exact ih hd h _

theorem round_commands {q₁ q₂ : Queue} (hq : q.enqueueAll dev cmds = some (ids,q₁))
    (hids : (results.map Prod.fst).Perm ids)
    (hres : ∀ r ∈ results, Syncml.StatusCode.success r.2.status = true ∧ r.2.items = [])
    (hs : q₁.storeAll dev results = some q₂) :
    ∃ new, q₂.commands dev = q.commands dev ++ new ∧ (∀ qc ∈ new, qc.Confirmed) ∧
      (new.map fun qc => qc.command.body) = cmds.map fun c => c.1.body := by
  obtain ⟨new,hnew,rfl,hbodies⟩ := Queue.enqueueAll_ok hq
  have hdist := q₁.distinct dev
  change ((q₁.commands dev).map QueuedCommand.id).Nodup at hdist
  rw [hnew,List.map_append,List.nodup_append] at hdist
  refine ⟨new.map (·.storeAll results),?_,?_,?_⟩
  · rw [Queue.storeAll_ok hs,hnew,List.map_append]
    congr 1
    -- the IDs of the old commands are not among the new ones
    refine (List.map_congr_left ?_).trans (List.map_id _)
    intro qc hqc
    refine QueuedCommand.storeAll_of_not_mem ?_
    intro hm
    exact hdist.2.2 _ (List.mem_map_of_mem hqc) _ (hids.mem_iff.mp hm) rfl
  · intro qc hqc
    obtain ⟨x,hx,rfl⟩ := List.mem_map.mp hqc
    exact QueuedCommand.confirmed_storeAll hres (.inr (hids.mem_iff.mpr (List.mem_map_of_mem hx)))
  rw [← hbodies,List.map_map]
  refine List.map_congr_left ?_
  intro qc hqc
  rw [Function.comp_apply,QueuedCommand.command_storeAll]

theorem diff_eq_nil {settings : List Setting} {acked : GoMap GoString}
    (hd : (desired.map Setting.uri).Nodup) (hsub : settings.Perm (desired.filter (Setting.needed acked))) :
    diff desired (settings.foldl (fun out s => out.insert s.uri s.value) acked) = [] := by
  have hds : (settings.map Setting.uri).Nodup :=
    (hsub.map Setting.uri).nodup_iff.mpr (hd.sublist (List.filter_sublist.map _))
  rw [diff,diffLoop_eq,List.map_eq_nil_iff,List.filter_eq_nil_iff]
  intro s hs
  have hs : s ∈ desired := (List.perm_insertionSort _ desired).mem_iff.mp hs
  by_cases hn : s.needed acked = true
  · have hm : s ∈ settings := hsub.mem_iff.mpr (List.mem_filter.mpr ⟨hs,hn⟩)
    simp [Setting.needed,lookup_settings_of_mem hds hm]
  have hm : s.uri ∉ settings.map Setting.uri := by
    intro hm
    obtain ⟨x,hx,hu⟩ := List.mem_map.mp hm
    obtain ⟨hxd,hxn⟩ := List.mem_filter.mp (hsub.mem_iff.mp hx)
    rw [List.inj_on_of_nodup_map hd hxd hs hu] at hxn
    exact hn hxn
  rw [Setting.needed,lookup_settings_of_not_mem hm]
  exact hn

end Converging

/-- `Diff` over `AcknowledgedValues` gives one Replace for each setting with a well-formed URI
whose value is not acknowledged, in order; and nothing once these have each been stored a success
without items. -/
theorem diff_converges {q : Queue} {dev : GoString} {desired : List Setting} (hq : q.Sized dev)
    (hd : (desired.map Setting.uri).Nodup) :
    ∃ acked, acknowledgedValues q dev = some (some acked) ∧
      (∃ order : List Setting, order.Perm desired ∧ (order.Pairwise fun a b => a.uri < b.uri) ∧
        diff desired acked = (order.filter (Setting.needed acked)).map Setting.replace) ∧
      ∀ {cmds : List (Command × Time)} {ids : List GoString} {q₁ q₂ : Queue}
        {results : List (GoString × Result)},
        (cmds.map Prod.fst).Perm (diff desired acked) →
        q.enqueueAll dev cmds = some (ids,q₁) → (results.map Prod.fst).Perm ids →
        (∀ r ∈ results, Syncml.StatusCode.success r.2.status = true ∧ r.2.items = []) →
        q₁.storeAll dev results = some q₂ → q₂.Sized dev →
        ∃ acked', acknowledgedValues q₂ dev = some (some acked') ∧ diff desired acked' = [] := by
  obtain ⟨hperm,hsorted⟩ := sorted_settings hd
  refine ⟨_,acknowledgedValues_eq hq,⟨_,hperm,hsorted,diffLoop_eq _⟩,?_⟩
  intro cmds ids q₁ q₂ results hcmds henq hids hres hstore hq₂
  refine ⟨_,acknowledgedValues_eq hq₂,?_⟩
  rw [diff,diffLoop_eq] at hcmds
  obtain ⟨settings,hmap,hsettings⟩ :=
    (congrFun (congrFun (List.eq_map_comp_perm Setting.replace) (cmds.map Prod.fst)) _).mpr hcmds
  obtain ⟨new,hnew,hconf,hbodies⟩ := round_commands henq hids hres hstore
  have hsub := hsettings.trans (hperm.filter _)
  have hbodies' : (new.map fun qc => qc.command.body) = settings.map fun s => s.replace.body := by
    have h := congrArg (List.map Command.body) hmap
    rw [List.map_map,List.map_map] at h
    exact hbodies.trans h
  have hacked : ∀ qc ∈ new, qc.acked = true := by
    intro qc hqc
    simp [QueuedCommand.acked,(hconf qc hqc).1]
  have huri : ∀ s ∈ settings, s.uri ≠ [] := by
    intro s hs hu
    have hn := (List.mem_filter.mp (hsub.mem_iff.mp hs)).2
    simp [Setting.needed,hu,checkLocURI] at hn
  rw [hnew,List.filter_append,List.filter_eq_self.mpr hacked,List.foldl_append,
    foldl_collectValues_replace hconf huri hbodies']
  exact diff_eq_nil hd hsub

namespace Sample

def settings : List Setting :=
  [{ uri := "./Vendor/MSFT/B", value := "2", format := "int" }, { uri := "./Vendor/MSFT/A", value := "1" }]

def applied : Result where
  status := Syncml.statusOK
  originalError := []
  items := []
  children := []
  receivedAt := 7

def asked : List (Command × Time) := (diff settings ∅).map fun c => (c,5)

end Sample

open Sample in
/-- Two settings of a new device, queued and confirmed in reverse. -/
theorem diff_converges_two :
    ∃ q₁ q₂ acked, Queue.empty.enqueueAll "dev" asked = some ([utf8 "cmd-1",utf8 "cmd-2"],q₁) ∧
      q₁.storeAll "dev" [("cmd-2",applied),("cmd-1",applied)] = some q₂ ∧
      acknowledgedValues q₂ "dev" = some (some acked) ∧ diff settings acked = [] := by
  have hids : (Queue.empty.enqueueAll "dev" asked).map Prod.fst = some [utf8 "cmd-1",utf8 "cmd-2"] := by
    decide +kernel
  obtain ⟨⟨ids,q₁⟩,hq₁,rfl⟩ := Option.map_eq_some_iff.mp hids
  have hround : ((Queue.empty.enqueueAll "dev" asked).bind fun r =>
      (r.2.storeAll "dev" [("cmd-2",applied),("cmd-1",applied)]).map fun q =>
        (q.commands "dev").length) = some 2 := by
    decide +kernel
  rw [hq₁] at hround
  obtain ⟨q₂,hq₂,hlen⟩ := Option.map_eq_some_iff.mp hround
  obtain ⟨acked,hacked,-,hnext⟩ := @diff_converges Queue.empty "dev" settings (by decide) (by decide)
  have hnone : acknowledgedValues Queue.empty "dev" = some (some ∅) := rfl
  rw [hnone] at hacked
  cases hacked
  have hasked : asked.map Prod.fst = diff settings ∅ := by
    rw [asked,List.map_map]
    exact List.map_id _
  have hperm : (List.map Prod.fst [(utf8 "cmd-2",applied),(utf8 "cmd-1",applied)]).Perm
      [utf8 "cmd-1",utf8 "cmd-2"] := .swap _ _ _
  obtain ⟨acked',hacked',hdiff⟩ := hnext (hasked ▸ .refl _) hq₁ hperm (by decide) hq₂
    (by rw [Queue.Sized,hlen]; decide)
  exact ⟨q₁,q₂,acked',hq₁,hq₂,hacked',hdiff⟩

end MicrosoftDM.Mdm
