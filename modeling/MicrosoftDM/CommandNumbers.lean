import MicrosoftDM.GroupResults
import MicrosoftDM.ReplyShape

set_option autoImplicit false

namespace MicrosoftDM.Mdm
open MicrosoftDM.Syncml (Item Status Message walkAll)

/-- Every command has a CmdID of its own that can be referred to. -/
structure WellNumbered (m : Message) : Prop where
  present : ∀ c ∈ walkAll m.body.commands, c.id ≠ [] ∧ c.id ≠ utf8 "0"
  distinct : ((walkAll m.body.commands).map Syncml.Command.id).Nodup

def memberless : Syncml.Command → Bool
  | .group _ _ _ _ cs => cs.isEmpty
  | _ => true

def flat : Syncml.Command → Bool
  | .group _ _ _ _ cs => cs.all memberless
  | _ => true

theorem walk_of_memberless {c : Syncml.Command} (h : memberless c = true) : c.walk = [c] := by
  cases c with
  | group kind i nr m cs =>
    cases cs with
    | nil => rfl
    | cons x xs => cases h
  | _ => rfl

variable {cs : List Syncml.Command} {n : Int} {w : Work} {through : List QueuedCommand}

theorem walkAll_of_memberless (h : ∀ c ∈ cs, memberless c = true) :
    walkAll cs = cs := by
  induction cs with
  | nil => rfl
  | cons c cs ih =>
    rw [walkAll,walk_of_memberless (h c List.mem_cons_self),
      ih fun x hx => h x (List.mem_cons_of_mem c hx)]
    rfl

theorem memberless_assignID (id : GoString) (c : Syncml.Command) :
    memberless (assignID id c) = memberless c := by
  cases c <;> rfl

theorem memberless_numberFrom {n : Nat}
    (h : ∀ c ∈ cs, memberless c = true) : ∀ c ∈ numberFrom n cs, memberless c = true := by
  induction cs generalizing n with
  | nil => simp [numberFrom]
  | cons x xs ih =>
    intro c hc
    rcases List.mem_cons.mp hc with rfl | hc
    · rw [memberless_assignID]
      exact h x List.mem_cons_self
    · exact ih (fun y hy => h y (List.mem_cons_of_mem x hy)) c hc

def memberNumbers : Work → List QueuedCommand → List Nat
  | _, [] => []
  | w, qc :: rest =>
    (match qc.command.body with
      | .group _ _ _ _ cs => List.range' (w.memberBase qc+1) cs.length
      | _ => []) ++ memberNumbers (w.send qc) rest

theorem walk_sentBody {qc : QueuedCommand} (hv : validate qc.command = none)
    (hf : flat qc.command.body = true) :
    (w.sentBody qc).walk.map Syncml.Command.id = itoa (w.ids+1) ::
      ((match qc.command.body with
        | .group _ _ _ _ cs => List.range' (w.memberBase qc+1) cs.length
        | _ => []).map fun j : Nat => itoa j) := by
  rcases validate_body hv with ⟨v,b,hb⟩ | ⟨kind,i,nr,m,cs,hb,hassign⟩
  · obtain ⟨⟨items,hs⟩,-⟩ := Work.send_leaf (w := w) hb
    rw [hs,hb]
    rfl
  rw [(Work.send_group (w := w) hb).1,hb]
  rw [hb] at hf
  have hless := List.all_eq_true.mp hf
  change itoa (w.ids+1) :: (walkAll (numberFrom (w.memberBase qc) cs)).map Syncml.Command.id = _
  rw [walkAll_of_memberless (memberless_numberFrom hless),numberFrom_ids hassign]

theorem sentBodies_ids
    (hv : ∀ qc ∈ through, validate qc.command = none)
    (hf : ∀ qc ∈ through, flat qc.command.body = true) :
    ((walkAll (sentBodies w through)).map Syncml.Command.id).Perm
      ((List.range' (w.ids+1) through.length ++ memberNumbers w through).map
        fun j : Nat => itoa j) := by
  induction through generalizing w with
  | nil => exact .refl _
  | cons qc rest ih =>
    have hrest := ih (w := w.send qc) (fun x hx => hv x (List.mem_cons_of_mem _ hx))
      fun x hx => hf x (List.mem_cons_of_mem _ hx)
    rw [sentBodies,walkAll,List.map_append,
      walk_sentBody (hv qc List.mem_cons_self) (hf qc List.mem_cons_self)]
    rw [memberNumbers,List.length_cons,List.range'_succ]
    simp only [List.map_append,List.map_cons,List.cons_append] at hrest ⊢
    refine .cons _ ((hrest.append_left _).trans ?_)
    exact List.perm_append_comm_assoc _ _ _

theorem memberNumbers_sorted
    (hn : w.resp.header.msgID = itoa n) (hm : w.MembersBelow n)
    (hv : ∀ qc ∈ through, validate qc.command = none) :
    (memberNumbers w through).Pairwise (· < ·) ∧
    ∀ j ∈ memberNumbers w through, Mdm.memberBase w.sess < j := by
  induction through generalizing w with
  | nil => exact ⟨.nil,by simp [memberNumbers]⟩
  | cons qc rest ih =>
    have hkept := Work.send_members hn hm (hv qc List.mem_cons_self)
    obtain ⟨hs,hb⟩ := ih (w := w.send qc) hn hkept.below fun x hx => hv x (List.mem_cons_of_mem _ hx)
    have hle := w.memberBase_le qc
    have hmono := hkept.mono
    rw [memberNumbers]
    rcases validate_body (hv qc List.mem_cons_self) with ⟨v,b,hbody⟩ | ⟨kind,i,nr,m,cs,hbody,-⟩
    · rw [hbody]
      refine ⟨hs,fun j hj => ?_⟩
      have := hb j hj
      omega
    rw [hbody]
    have hbase := Work.memberBase_send_group hn hm hbody
    refine ⟨List.pairwise_append.mpr ⟨List.pairwise_lt_range',hs,?_⟩,?_⟩
    · intro x hx y hy
      have := (List.mem_range'_1.mp hx).2
      have := hb y hy
      omega
    intro j hj
    rcases List.mem_append.mp hj with hj | hj
    · have := (List.mem_range'_1.mp hj).1
      omega
    · have := hb j hj
      omega

theorem memberNumbers_pos {j : Nat}
    (h : j ∈ memberNumbers w through) : 1 ≤ j := by
  induction through generalizing w with
  | nil => cases h
  | cons qc rest ih =>
    rw [memberNumbers] at h
    rcases List.mem_append.mp h with h | h
    · split at h
      · have := (List.mem_range'_1.mp h).1
        omega
      · cases h
    · exact ih h

theorem memberNumbers_of_leaves
    (h : ∀ qc ∈ through, isGroup qc.command.body = false) : memberNumbers w through = [] := by
  induction through generalizing w with
  | nil => rfl
  | cons qc rest ih =>
    have hqc := h qc List.mem_cons_self
    rw [memberNumbers,ih fun x hx => h x (List.mem_cons_of_mem _ hx)]
    cases hb : qc.command.body with
    | group kind i nr m cs => rw [hb] at hqc; cases hqc
    | _ => rfl

theorem ackStatuses_ids (req : Message) (sess : Session) (n : Nat) (cs : List Syncml.Command) :
    (ackStatuses req sess n cs).map Status.cmdID =
      (List.range' (n+1) (ackStatuses req sess n cs).length).map fun j : Nat => itoa j := by
  induction cs generalizing n with
  | nil => rfl
  | cons c cs ih =>
    cases c with
    | status _ | results _ => exact ih n
    | alert _ | leaf _ _ | group _ _ _ _ _ =>
      simp only [ackStatuses,List.map_cons,List.length_cons,List.range'_succ,ih (n+1)]
      rfl

theorem wellNumbered_of_perm {m : Message} {js : List Nat}
    (h : ((walkAll m.body.commands).map Syncml.Command.id).Perm (js.map fun j : Nat => itoa j))
    (hd : js.Nodup) (hpos : ∀ j ∈ js, 1 ≤ j) : WellNumbered m := by
  refine ⟨fun c hc => ?_,?_⟩
  · obtain ⟨j,hj,he⟩ := List.mem_map.mp (h.mem_iff.mp (List.mem_map_of_mem hc))
    rw [← he]
    refine ⟨itoa_ne_nil _,fun h0 => ?_⟩
    have := hpos j hj
    have h0 : itoa (j : Int) = itoa 0 := h0
    have := itoa_injective h0
    omega
  · refine h.nodup_iff.mpr (hd.map fun i j hij => ?_)
    exact Int.ofNat.inj (itoa_injective hij)

theorem length_deliverable_le (q : Queue) (dev : GoString) :
    (q.deliverable dev 256).length ≤ 256 := by
  unfold Queue.deliverable
  dsimp only
  rw [if_pos (by decide),List.length_take]
  exact Nat.min_le_left _ _

/-- One level of members is numbered, and the members of a group start above all other commands of
the reply. -/
structure Call.GroupsFit (c : Call) (s : Session) : Prop where
  flat : ∀ qc ∈ c.offered s, flat qc.command.body = true
  room : (∃ qc ∈ c.offered s, isGroup qc.command.body = true) →
    (Message.toAcknowledge c.req).length ≤ 743

/-- When the delivery loop numbers well. -/
structure Call.NumbersFit (c : Call) (s : Session) : Prop extends c.GroupsFit s where
  fresh : (∃ qc ∈ c.offered s, isGroup qc.command.body = true) →
    ∀ k ∈ s.children.keys, ¬joinSlash (itoa (s.serverMsgID+1)) [] <+: k

instance (c : Call) (s : Session) : Decidable (c.NumbersFit s) :=
  decidable_of_iff ((∀ qc ∈ c.offered s, Mdm.flat qc.command.body = true) ∧
    ((∃ qc ∈ c.offered s, isGroup qc.command.body = true) →
      (Message.toAcknowledge c.req).length ≤ 743) ∧
    ((∃ qc ∈ c.offered s, isGroup qc.command.body = true) →
      ∀ k ∈ s.children.keys, ¬joinSlash (itoa (s.serverMsgID+1)) [] <+: k))
    ⟨fun ⟨h₁,h₂,h₃⟩ => ⟨⟨h₁,h₂⟩,h₃⟩,fun h => ⟨h.flat,h.room,h.fresh⟩⟩

section Answering
variable {cfg : Config} {req : Message} {s s' : Session} {w w' : World} {reply : Option Message}

theorem Answered.acked_ids (a : Answered cfg req s w s' w' reply) :
    (walkAll a.acked.resp.body.commands).map Syncml.Command.id =
      (List.range' 1 a.acked.ids).map fun j : Nat => itoa j := by
  obtain ⟨hc,hids⟩ := a.acked_reply
  have hwalk : walkAll ((ackStatuses req s 1 req.body.commands).map Syncml.Command.status) =
      (ackStatuses req s 1 req.body.commands).map Syncml.Command.status := by
    refine walkAll_of_memberless fun c hc => ?_
    obtain ⟨st,-,rfl⟩ := List.mem_map.mp hc
    rfl
  rw [hc,hids,walkAll,hwalk,Nat.add_comm,List.range'_succ]
  change itoa 1 :: ((ackStatuses req s 1 req.body.commands).map Syncml.Command.status).map
    Syncml.Command.id = _
  rw [List.map_map]
  change itoa 1 :: (ackStatuses req s 1 req.body.commands).map Status.cmdID = _
  rw [ackStatuses_ids]
  rfl

theorem ackStatuses_length (n : Nat) :
    (ackStatuses req s n req.body.commands).length = (Message.toAcknowledge req).length :=
  (ackStatuses_refs req s n req.body.commands).length_eq.symm

theorem Built.wellNumbered {wk wk' : Work} {q q' : Queue}
    (hb : Built cfg req wk q wk' q') (hn : wk.resp.header.msgID = itoa n)
    (hids : (walkAll wk.resp.body.commands).map Syncml.Command.id =
      (List.range' 1 wk.ids).map fun j : Nat => itoa j)
    (hflat : wk.sess.closed = false → wk.sess.uploadPending = false →
      (AsksForChunk req → wk.sess.nextChunk = none) →
      ∀ qc ∈ admitted wk.sess.facts (q.deliverable wk.sess.deviceID 256),
        flat qc.command.body = true ∧
        (isGroup qc.command.body = true → wk.ids ≤ 744 ∧ wk.MembersBelow n)) :
    WellNumbered wk'.resp := by
  have hadd : ∀ (added : List Syncml.Command) (js : List Nat),
      wk'.resp.body.commands = wk.resp.body.commands ++ added →
      ((walkAll added).map Syncml.Command.id).Perm (js.map fun j : Nat => itoa j) →
      (List.range' 1 wk.ids ++ js).Nodup → (∀ j ∈ js, 1 ≤ j) → WellNumbered wk'.resp := by
    intro added js hc hp hd hpos
    refine @wellNumbered_of_perm _ (List.range' 1 wk.ids ++ js) ?_ hd ?_
    · rw [hc,Syncml.walkAll_eq_flatMap,List.flatMap_append,← Syncml.walkAll_eq_flatMap,
        ← Syncml.walkAll_eq_flatMap,List.map_append,List.map_append,hids]
      exact hp.append_left _
    intro j hj
    rcases List.mem_append.mp hj with hj | hj
    · exact (List.mem_range'_1.mp hj).1
    · exact hpos j hj
  have hmore : ∀ k : Nat, (List.range' 1 wk.ids ++ List.range' (wk.ids+1) k).Nodup := by
    intro k
    rw [Nat.add_comm wk.ids 1,List.range'_append_1]
    exact List.nodup_range'
  have hpos : ∀ k : Nat, ∀ j ∈ List.range' (wk.ids+1) k, 1 ≤ j := by
    intro k j hj
    have := (List.mem_range'_1.mp hj).1
    omega
  cases hb with
  | closing hc => exact hadd [] [] (by simp) (.refl _) (by simpa using hmore 0) (by simp)
  | chunk hc hn ho =>
    rename_i o next rest
    exact hadd _ _ (wk.sendChunk_commands o next rest) (.refl _) (hmore 1) (hpos 1)
  | upload hc hn hu =>
    exact hadd _ _ wk.askForMore_commands (.refl _) (hmore 2) (hpos 2)
  | deliver hc hask hu hd hall hq =>
    rename_i through
    have hoff := hflat hc hu hask
    have hmem : ∀ qc ∈ through, qc ∈ admitted wk.sess.facts (q.deliverable wk.sess.deviceID 256) :=
      fun qc hqc => hd.initial.subset hqc
    have hlen : through.length ≤ 256 := by
      have h₁ := hd.initial.length_le
      have h₂ := List.length_filter_le (fun qc : QueuedCommand =>
        scopeAllows wk.sess.facts qc.command.scope) (q.deliverable wk.sess.deviceID 256)
      have h₃ := length_deliverable_le q wk.sess.deviceID
      unfold admitted at h₁
      omega
    refine hadd _ (List.range' (wk.ids+1) through.length ++ memberNumbers wk through)
      (foldl_send_commands wk through) (sentBodies_ids hd.valid fun qc hqc => (hoff qc (hmem qc hqc)).1)
      ?_ ?_
    · by_cases hg : ∃ qc ∈ through, isGroup qc.command.body = true
      · obtain ⟨qc,hqc,hgroup⟩ := hg
        obtain ⟨hroom,hbelow⟩ := (hoff qc (hmem qc hqc)).2 hgroup
        obtain ⟨hsorted,habove⟩ := memberNumbers_sorted hn hbelow hd.valid
        rw [← List.append_assoc]
        refine List.nodup_append.mpr ⟨hmore _,hsorted.imp fun h => Nat.ne_of_lt h,?_⟩
        intro x hx y hy hxy
        have hbase := habove y hy
        have hx : x ≤ wk.ids+through.length := by
          rcases List.mem_append.mp hx with hx | hx
          · have := (List.mem_range'_1.mp hx).2
            omega
          · have := (List.mem_range'_1.mp hx).2
            omega
        unfold memberBase at hbase
        omega
      · rw [memberNumbers_of_leaves (by simpa using hg),List.append_nil]
        exact hmore _
    · intro j hj
      rcases List.mem_append.mp hj with hj | hj
      · exact hpos _ j hj
      · exact memberNumbers_pos hj

end Answering

theorem Accepted.wellNumbered {cfg : Config} {c : Call} {m : Message}
    (a : Accepted cfg c.transport c.req c.before (c.out cfg) (c.after cfg) (some m))
    (hfit : c.Trusted cfg → a.arrived.Delivers cfg c.req → c.NumbersFit a.arrived) : WellNumbered m := by
  have hres := a.authChange.resumed
  by_cases ho : a.outcome = .trusted
  · have ht : c.Trusted cfg := a.auth.trans (congrArg some ho)
    obtain ⟨x⟩ := a.answered ho
    rw [x.finished.message]
    have hserver : a.sess.serverMsgID = a.arrived.serverMsgID := hres.serverMsgID
    have hmsgID : (x.acked.setSess (·.filed c.req)).resp.header.msgID =
        itoa (a.arrived.serverMsgID+1) := by
      change x.acked.resp.header.msgID = _
      rw [(Work.ackAll_repliesOn x.isAcked).header,← hserver]
      rfl
    obtain ⟨hcl,hup,hch,-⟩ := x.filed_of_stored hres
    refine x.isBuilt.wellNumbered hmsgID x.acked_ids ?_
    intro hc hu hask qc hqc
    change x.filed.closed = false at hc
    change x.filed.uploadPending = false at hu
    change AsksForChunk c.req → x.filed.nextChunk = none at hask
    rw [hcl] at hc
    rw [hup] at hu
    rw [hch] at hask
    have hf := hfit ht ⟨hc,hu,hask⟩
    have hoff := x.offered hres hqc
    rw [a.arrival.queue] at hoff
    rcases hoff with hoff | hread
    · refine ⟨hf.flat qc hoff,fun hg => ⟨?_,?_⟩⟩
      · have hlen := hf.room ⟨qc,hoff,hg⟩
        change x.acked.ids ≤ 744
        rw [x.acked_reply.2,ackStatuses_length]
        omega
      intro j _
      change x.filed.children.lookup _ = none
      cases hl : x.filed.children.lookup
          (joinSlash (itoa (a.arrived.serverMsgID+1)) (itoa j)) with
      | none => rfl
      | some p =>
        have hsub := x.filedFrom.children _ _ hl
        rw [hres.alike.children] at hsub
        refine absurd ?_ (hf.fresh ⟨qc,hoff,hg⟩ _ (GoMap.mem_keys_of_lookup hsub))
        exact ⟨itoa j,by simp [joinSlash]⟩
    · obtain ⟨items,hbody,-⟩ := hread.body
      rw [hbody]
      exact ⟨rfl,by rintro ⟨⟩⟩
  · obtain ⟨x⟩ := a.challenged ho
    rw [x.finished.message]
    exact @wellNumbered_of_perm _ [1] (.refl _) (by simp) (by simp)

/-- In a reply that is made where the numbers fit, every command at every depth
has a CmdID of its own that is neither empty nor "0". -/
theorem reply_wellNumbered {cfg : Config} {c : Call} {s : Session} {m : Message}
    (hs : c.entered = some s) (hm : c.message cfg = some m)
    (hfit : c.Trusted cfg → s.Delivers cfg c.req → c.NumbersFit s) : WellNumbered m := by
  obtain ⟨a,rfl⟩ := Call.accepted_in hs (Call.message_some hm)
  exact a.wellNumbered hfit

/-- In a run of accepted calls the keys in `Children` are of earlier replies, so that nothing but the
groups has to fit. -/
theorem Run.wellNumbered {cfg : Config} {w w' : World} {calls : List Call} (hr : Run cfg w calls w')
    (hw : w.sessions = ∅) (hacc : ∀ c ∈ calls, c.Accepted cfg)
    (hfit : ∀ c ∈ calls, ∀ s, c.entered = some s → c.Trusted cfg → s.Delivers cfg c.req → c.GroupsFit s) :
    ∀ c ∈ calls, ∀ m, c.message cfg = some m → WellNumbered m := by
  intro c hc m hm
  rcases serve_cases cfg c.env c.transport c.req c.before with ⟨-,-,⟨e,he⟩,-⟩ | ⟨⟨r⟩⟩
  · exact nomatch he.symm.trans (Call.message_some hm)
  obtain ⟨a,ha⟩ := Call.accepted_in r.entered_eq (Call.message_some hm)
  have hent := (a.sound ((hr.sound (World.sound_of_empty hw) hacc).2 c hc)).1
  have hres := a.authChange.resumed
  refine a.wellNumbered fun ht hd => ⟨hfit c hc _ (ha ▸ r.entered_eq) ht hd,fun _ k hk hpre => ?_⟩
  obtain ⟨id,hid⟩ := Option.isSome_iff_exists.mp (AList.lookup_isSome.mpr (AList.mem_keys.mpr hk))
  obtain ⟨number,rfl⟩ := hpre
  have hup := hent.children _ id (by rw [hres.alike.children]; exact hid)
  rw [hres.serverMsgID] at hup
  exact hup.ne_of_lt (Int.lt_succ _) (List.append_assoc _ _ _)

namespace Sample

def nestedWorld : World :=
  world [{
    id := "nested", scope := .device
    body := .group .atomic [] false none
      [(sequence [] [replace [] "./Vendor/MSFT/A" "1",replace [] "./Vendor/MSFT/B" "2"]).body] }]

def nestedCall : Call := { groupCall with before := nestedWorld }

end Sample

set_option maxRecDepth 4000

/-- The group of two settings. -/
theorem reply_wellNumbered_group : ∃ m, Sample.groupCall.message Sample.cfg = some m ∧
    (∃ c ∈ m.body.commands, isGroup c = true) ∧ WellNumbered m := by
  obtain ⟨m,hm,s,hs,hgroup,hfit⟩ : ∃ m, Sample.groupCall.message Sample.cfg = some m ∧
      ∃ s, Sample.groupCall.entered = some s ∧ (∃ c ∈ m.body.commands, isGroup c = true) ∧
        Sample.groupCall.NumbersFit s := by decide +kernel
  exact ⟨m,hm,hgroup,reply_wellNumbered hs hm fun _ _ => hfit⟩

/-- The settings inside the inner group go out without CmdIDs. -/
theorem nested_members_unnumbered : ∃ m, Sample.nestedCall.message Sample.cfg = some m ∧
    ¬WellNumbered m := by
  obtain ⟨m,hm,c,hc,hid⟩ : ∃ m, Sample.nestedCall.message Sample.cfg = some m ∧
      ∃ c ∈ walkAll m.body.commands, c.id = [] := by decide +kernel
  exact ⟨m,hm,fun h => (h.present c hc).1 hid⟩

end MicrosoftDM.Mdm
