import MicrosoftDM.AnsweredCommands

set_option autoImplicit false

namespace MicrosoftDM.Mdm
open MicrosoftDM.Syncml (Item Alert Status Results Message Assembler Holds joinStreams joinChunks
  MoreDataMarks holds_nil add_ok joinStreams_append joinStreams_of_moreData joinStreams_closed
  joinStreams_flatten)

/-- The items that a command of the request reports under the key. -/
def itemsFor (k : GoString) : Syncml.Command → List Item
  | .results res => if resultsKey res = k then res.items else []
  | _ => []

def Call.itemsFor (c : Call) (k : GoString) : List Item :=
  c.req.body.commands.flatMap (Mdm.itemsFor k)

def itemsOn (k : GoString) (calls : List Call) : List Item := calls.flatMap (·.itemsFor k)

/-- `id` is answered by the items `got` so far, and the chunks `stream` of one
more wait in the assembler. -/
structure Session.Collecting (id : GoString) (got stream : List Item) (s : Session) : Prop where
  items : (s.pendingOf id).items = got
  status : (s.pendingOf id).status = none
  upload : stream ≠ [] → s.assemblingCommand = id ∧ ∃ a, s.assembler = some a ∧ Holds a stream
  idle : stream = [] → s.assemblingCommand ≠ id

/-- Before a command of the request: it does not break into the upload of the answer to `id`, and
Results on the key leave no chunk open among others. -/
def Session.Suits (s : Session) (k id : GoString) : Syncml.Command → Prop
  | .results res =>
    if resultsKey res = k then
      ((∀ it ∈ res.items, it.moreData = true) ∨
        res.items.getLast?.map Item.moreData = some false) ∧
      (s.uploadPending = true → s.assemblingCommand = id)
    else s.resultsCommand res ≠ none →
      s.resultsCommand res ≠ some id ∧ (s.uploadPending = true → s.assemblingCommand ≠ id)
  | .alert a =>
    a.code = Syncml.alertNoEndOfData → s.uploadPending = true → s.assemblingCommand ≠ id
  | _ => True

instance (s : Session) (k id : GoString) (c : Syncml.Command) : Decidable (s.Suits k id c) := by
  cases c <;> unfold Session.Suits <;> infer_instance

def Session.SuitsAll (cfg : Config) (k id : GoString) : Session → List Syncml.Command → Prop
  | _, [] => True
  | s, c :: cs => s.Suits k id c ∧
    match s.take cfg c with
    | .ok s' => s'.SuitsAll cfg k id cs
    | .error _ => True

instance Session.decidableSuitsAll (cfg : Config) (k id : GoString) (s : Session)
    (cs : List Syncml.Command) : Decidable (s.SuitsAll cfg k id cs) :=
  match cs with
  | [] => isTrue trivial
  | c :: cs =>
    have : Decidable (match s.take cfg c with
        | .ok s' => s'.SuitsAll cfg k id cs
        | .error _ => True) :=
      match s.take cfg c with
      | .ok s' => Session.decidableSuitsAll cfg k id s' cs
      | .error _ => isTrue trivial
    inferInstanceAs (Decidable (_ ∧ _))

variable {s s' : Session} {res : Results} {c : Syncml.Command} {cs : List Syncml.Command}

theorem assemble_joins {id : GoString} {a : Assembler} {items out stream : List Item}
    (ha : Holds a stream) (hs : stream ≠ [] → s.assemblingCommand = id)
    (h : assemble id s a items = (.ok out,s')) :
    out = (joinStreams stream items).1 ∧
    (∃ b, s'.assembler = some b ∧ Holds b (joinStreams stream items).2) ∧
    ((joinStreams stream items).2 ≠ [] → s'.assemblingCommand = id) := by
  induction items generalizing s a stream out with
  | nil =>
    cases h
    exact ⟨rfl,⟨a,rfl,ha⟩,hs⟩
  | cons it rest ih =>
    simp only [assemble] at h
    rcases hadd : a.add it with ⟨r,b⟩
    rw [hadd] at h
    cases r with
    | error e => cases h
    | ok r =>
      rcases add_ok ha hadd with ⟨hm,rfl,hb⟩ | ⟨hm,rfl,hb⟩
      · simp only [joinStreams,hm,if_true]
        exact ih hb (fun _ => rfl) h
      dsimp only at h
      rcases hr : assemble id s b rest with ⟨r,s₁⟩
      rw [hr] at h
      cases r with
      | error e => cases h
      | ok items =>
        cases h
        obtain ⟨ho,hb',hc⟩ := ih hb (fun hn => absurd rfl hn) hr
        simp only [joinStreams,hm]
        exact ⟨by rw [ho]; rfl,hb',hc⟩

theorem assemble_command (id : GoString) (s : Session) (a : Assembler) (items : List Item) :
    (assemble id s a items).2.assemblingCommand = s.assemblingCommand ∨
    (assemble id s a items).2.assemblingCommand = id := by
  induction items generalizing s a with
  | nil => exact .inl rfl
  | cons it rest ih =>
    simp only [assemble]
    split
    · exact .inl rfl
    · rename_i a' _
      rcases ih { s with assemblingCommand := id } a' with h | h
      · exact .inr h
      · exact .inr h
    rename_i a' _
    have h := ih s a'
    split
    · rename_i hr; rw [hr] at h; exact h
    · rename_i hr; rw [hr] at h; exact h

section Taking
variable {cfg : Config} {s s' t : Session} {k id : GoString} {got stream : List Item}

theorem Session.Collecting.congr (h : s.Collecting id got stream)
    (hp : (t.pendingOf id).items = (s.pendingOf id).items ∧
      (t.pendingOf id).status = (s.pendingOf id).status)
    (ha : t.assembler = s.assembler) (hc : t.assemblingCommand = s.assemblingCommand) :
    t.Collecting id got stream :=
  ⟨hp.1.trans h.items,hp.2.trans h.status,by rw [ha,hc]; exact h.upload,by rw [hc]; exact h.idle⟩

theorem Session.Collecting.uploading (h : s.Collecting id got stream) (hs : stream ≠ []) :
    s.uploadPending = true := by
  obtain ⟨-,a,ha,hh⟩ := h.upload hs
  unfold uploadPending
  rw [ha]
  simpa [hs] using hh.pending

theorem Session.Collecting.results_own (h : s.Collecting id got stream) (hid : id ≠ [])
    (hk : s.sent.lookup k = some id) (hres : resultsKey res = k)
    (hsuit : s.Suits k id (.results res)) (ht : s.take cfg (.results res) = .ok s') :
    s'.Collecting id (got ++ (joinStreams stream res.items).1) (joinStreams stream res.items).2 := by
  have hcmd : s.resultsCommand res = some id := by
    unfold resultsCommand
    rw [hres,hk]
  simp only [Suits,if_pos hres] at hsuit
  obtain ⟨hshape,hown⟩ := hsuit
  have hholds : Holds (s.assembler.getD { maxSize := cfg.maxRequestSize }) stream := by
    by_cases hs : stream = []
    · subst hs
      apply holds_nil
      have hn : s.uploadPending = false := by
        cases hu : s.uploadPending with
        | false => rfl
        | true => exact absurd (hown hu) (h.idle rfl)
      unfold uploadPending at hn
      cases ha : s.assembler with
      | none => rfl
      | some a => rw [ha] at hn; exact hn
    · obtain ⟨-,a,ha,hh⟩ := h.upload hs
      rw [ha]
      exact hh
  simp only [take,fileResults,hcmd] at ht
  rcases hasm : assemble id s (s.assembler.getD { maxSize := cfg.maxRequestSize }) res.items with
    ⟨r,s₁⟩
  have hres' := assemble_results id s (s.assembler.getD { maxSize := cfg.maxRequestSize }) res.items
  rw [hasm] at ht hres'
  cases r with
  | error e => cases ht
  | ok out =>
    obtain ⟨hout,⟨b,hb,hhb⟩,hac⟩ := assemble_joins hholds (fun hs => (h.upload hs).1) hasm
    have hp : s₁.pendingOf id = s.pendingOf id := pendingOf_congr hres' id
    have hpend : s₁.uploadPending = decide ((joinStreams stream res.items).2 ≠ []) := by
      unfold uploadPending
      rw [hb]
      exact hhb.pending
    dsimp only at ht
    by_cases hopen : (joinStreams stream res.items).2 = []
    · rw [if_neg (by rw [hpend]; simp [hopen])] at ht
      cases ht
      rw [← hout]
      have hself : (({ s₁ with assemblingCommand := [] } : Session).stashResults id out).pendingOf id =
          { s₁.pendingOf id with items := (s₁.pendingOf id).items ++ out } := by
        unfold stashResults
        rw [pendingOf_updatePending,if_pos rfl]
        rfl
      refine ⟨?_,?_,fun hn => absurd hopen hn,fun _ => hid.symm⟩
      · rw [hself,hp,← h.items]
      · rw [hself,hp]; exact h.status
    · rw [if_pos (by rw [hpend]; simp [hopen])] at ht
      cases ht
      have hmore : (joinStreams stream res.items).1 = [] := by
        rcases hshape with hm | hl
        · rw [joinStreams_of_moreData hm]
        rw [Option.map_eq_some_iff] at hl
        obtain ⟨it,hit,hf⟩ := hl
        obtain ⟨ys,hys⟩ := List.getLast?_eq_some_iff.mp hit
        rw [hys] at hopen
        exact absurd (joinStreams_closed hf stream ys) hopen
      refine ⟨?_,by rw [hp]; exact h.status,fun _ => ⟨hac hopen,b,hb,hhb⟩,fun hn => absurd hn hopen⟩
      rw [hp,hmore,List.append_nil]
      exact h.items

theorem Session.Collecting.results_other (h : s.Collecting id got stream) (hid : id ≠ []) (hres : resultsKey res ≠ k) (hsuit : s.Suits k id (.results res))
    (ht : s.take cfg (.results res) = .ok s') : s'.Collecting id got stream := by
  simp only [Suits,if_neg hres] at hsuit
  simp only [take,fileResults] at ht
  cases hcmd : s.resultsCommand res with
  | none =>
    rw [hcmd] at ht
    cases ht
    exact h
  | some x =>
    obtain ⟨hx,hup⟩ := hsuit (by rw [hcmd]; simp)
    have hx : id ≠ x := fun he => hx (by rw [hcmd,he])
    have hs : stream = [] := by
      by_contra hs
      exact hup (h.uploading hs) (h.upload hs).1
    subst hs
    rw [hcmd] at ht
    dsimp only at ht
    have hac := assemble_command x s (s.assembler.getD { maxSize := cfg.maxRequestSize }) res.items
    have hre := assemble_results x s (s.assembler.getD { maxSize := cfg.maxRequestSize }) res.items
    rcases hasm : assemble x s (s.assembler.getD { maxSize := cfg.maxRequestSize }) res.items with
      ⟨r,s₁⟩
    rw [hasm] at ht hac hre
    have hp : s₁.pendingOf id = s.pendingOf id := pendingOf_congr hre id
    cases r with
    | error e => cases ht
    | ok out =>
      dsimp only at ht
      by_cases hu : s₁.uploadPending = true
      · rw [if_pos hu] at ht
        cases ht
        refine ⟨by rw [hp]; exact h.items,by rw [hp]; exact h.status,fun hn => absurd rfl hn,?_⟩
        intro _
        rcases hac with hac | hac
        · rw [hac]; exact h.idle rfl
        · rw [hac]; exact Ne.symm hx
      · rw [if_neg hu] at ht
        cases ht
        have hother : (({ s₁ with assemblingCommand := [] } : Session).stashResults x out).pendingOf
            id = s₁.pendingOf id := by
          unfold stashResults
          rw [pendingOf_updatePending,if_neg hx]
          rfl
        exact ⟨by rw [hother,hp]; exact h.items,by rw [hother,hp]; exact h.status,
          fun hn => absurd rfl hn,fun _ => hid.symm⟩

theorem Session.Collecting.alerted (h : s.Collecting id got stream) (hid : id ≠ []) {a : Alert}
    (hsuit : s.Suits k id (.alert a)) : (s.alerted cfg.hooks a).Collecting id got stream := by
  rcases alerted_eq s cfg.hooks a with ⟨c,u,he⟩ | ⟨hc,he⟩
  · rw [he]
    exact h.congr ⟨rfl,rfl⟩ rfl rfl
  have hs : stream = [] := by
    by_contra hs
    exact hsuit hc (h.uploading hs) (h.upload hs).1
  subst hs
  rw [he]
  exact ⟨h.items,h.status,fun hn => absurd rfl hn,fun _ => hid.symm⟩

theorem Session.Collecting.take (h : s.Collecting id got stream) (hid : id ≠ [])
    (hk : s.sent.lookup k = some id) (hsuit : s.Suits k id c)
    (ht : s.take cfg c = .ok s') :
    s'.Collecting id (got ++ (joinStreams stream (itemsFor k c)).1)
      (joinStreams stream (itemsFor k c)).2 := by
  have hnone : s'.Collecting id got stream → itemsFor k c = [] →
      s'.Collecting id (got ++ (joinStreams stream (itemsFor k c)).1)
        (joinStreams stream (itemsFor k c)).2 := by
    intro h' hi
    rw [hi]
    simpa [joinStreams] using h'
  cases c with
  | status _ | leaf _ _ | group _ _ _ _ _ => cases ht; exact hnone h rfl
  | alert a => cases ht; exact hnone (h.alerted hid hsuit) rfl
  | results res =>
    by_cases hres : resultsKey res = k
    · simp only [itemsFor,if_pos hres]
      exact h.results_own hid hk hres hsuit ht
    · exact hnone (h.results_other hid hres hsuit ht) (if_neg hres)

theorem Session.Collecting.takeAll (h : s.Collecting id got stream) (hid : id ≠ [])
    (hk : s.sent.lookup k = some id) (hsuit : s.SuitsAll cfg k id cs)
    (ht : s.takeAll cfg cs = .ok s') :
    s'.Collecting id (got ++ (joinStreams stream (cs.flatMap (itemsFor k))).1)
      (joinStreams stream (cs.flatMap (itemsFor k))).2 := by
  induction cs generalizing s got stream with
  | nil =>
    cases ht
    simpa [joinStreams] using h
  | cons c cs ih =>
    simp only [SuitsAll,Session.takeAll] at hsuit ht
    cases hc : s.take cfg c with
    | error e => simp [hc] at ht
    | ok s₁ =>
      rw [hc] at ht hsuit
      have h₁ := h.take hid hk hsuit.1 hc
      have hk₁ : s₁.sent.lookup k = some id := by rw [(take_taking hc).sent]; exact hk
      have h₂ := ih h₁ hk₁ hsuit.2 ht
      rw [List.flatMap_cons,joinStreams_append,← List.append_assoc]
      exact h₂

theorem Session.Alike.suits (h : s.Alike t) (hs : s.Suits k id c) :
    t.Suits k id c := by
  have hcmd : ∀ res, t.resultsCommand res = s.resultsCommand res := by
    intro res
    unfold resultsCommand
    rw [h.sent,h.children]
  cases c with
  | status _ | leaf _ _ | group _ _ _ _ _ => trivial
  | alert a =>
    simp only [Suits,h.uploadPending,h.assemblingCommand]
    exact hs
  | results res =>
    simp only [Suits,hcmd,h.uploadPending,h.assemblingCommand]
    exact hs

theorem Session.Alike.suitsAll (h : s.Alike t)
    (hs : s.SuitsAll cfg k id cs) : t.SuitsAll cfg k id cs := by
  induction cs generalizing s t with
  | nil => trivial
  | cons c cs ih =>
    simp only [SuitsAll] at hs ⊢
    refine ⟨h.suits hs.1,?_⟩
    cases hc : t.take cfg c with
    | error e => trivial
    | ok t₁ =>
      obtain ⟨s₁,hs₁,ha⟩ := take_alike h.symm hc
      have h₂ := hs.2
      rw [hs₁] at h₂
      exact ih ha.symm h₂

end Taking

/-- Before the call, with `s` the stored session: the request speaks of the
command `id` under the key `k` alone, and keeps its upload in one piece. -/
structure Call.Suits (c : Call) (cfg : Config) (s : Session) (k id : GoString) : Prop where
  noMember : s.children.lookup k = none
  statuses : ∀ st ∈ c.req.body.statuses, s.sent.lookup (statusKey st) = some id → statusKey st = k
  commands : s.SuitsAll cfg k id c.req.body.commands

instance (c : Call) (cfg : Config) (s : Session) (k id : GoString) :
    Decidable (c.Suits cfg s k id) :=
  decidable_of_iff (s.children.lookup k = none ∧
    (∀ st ∈ c.req.body.statuses, s.sent.lookup (statusKey st) = some id → statusKey st = k) ∧
    s.SuitsAll cfg k id c.req.body.commands)
    ⟨fun ⟨h₁,h₂,h₃⟩ => ⟨h₁,h₂,h₃⟩,fun h => ⟨h.noMember,h.statuses,h.commands⟩⟩

/-- After the call the queue holds this answer to `id`, and the stored session has nothing under
`k` any more. -/
def Call.Stores (c : Call) (cfg : Config) (k id : GoString) (st : Status) (items : List Item) : Prop :=
  ∃ sess qc r, (c.out cfg).sess = some sess ∧ sess.sent.lookup k = none ∧
    ((c.after cfg).sessions.lookup (Message.sessionKey c.req) = none ∨
      (c.after cfg).sessions.lookup (Message.sessionKey c.req) = some sess) ∧
    qc ∈ (c.after cfg).queue.commands sess.deviceID ∧ qc.id = id ∧ qc.result = some r ∧
    r.status = st.code ∧ r.originalError = st.data.originalError ∧ r.items = items

section Steps
variable {cfg : Config} {c : Call} {s s' : Session} {k id : GoString} {got stream : List Item}

theorem Call.Exchange.collected (x : c.Exchange cfg s s')
    (a : Answered cfg c.req x.entered c.before s' (c.after cfg) x.reply) (hid : id ≠ [])
    (hk : s.sent.lookup k = some id) (hs : c.Suits cfg s k id) (h : s.Collecting id got stream) :
    a.acked.sess.Collecting id (got ++ (joinStreams stream (c.itemsFor k)).1)
      (joinStreams stream (c.itemsFor k)).2 := by
  have hal := x.resumed.alike
  have he : x.entered.Collecting id got stream := by
    refine h.congr ?_ hal.assembler hal.assemblingCommand
    rw [hal.pendingOf]
    exact ⟨rfl,rfl⟩
  exact he.takeAll hid (by rw [hal.sent]; exact hk) (hal.suitsAll hs.commands)
    (Work.ackAll_sess a.isAcked)

theorem Call.Exchange.collects (x : c.Exchange cfg s s') (ht : c.Trusted cfg) (hid : id ≠ [])
    (hk : s.sent.lookup k = some id) (hn : ¬c.Names k) (hs : c.Suits cfg s k id)
    (h : s.Collecting id got stream) :
    s'.Collecting id (got ++ (joinStreams stream (c.itemsFor k)).1)
      (joinStreams stream (c.itemsFor k)).2 := by
  obtain ⟨a⟩ := x.answered ht
  have hacked := x.collected a hid hk hs h
  obtain ⟨cs,hother⟩ := @fileStatuses_other a.acked.sess c.req.body.statuses id (by
    intro st hst hl
    rw [a.taking.sent,x.resumed.alike.sent] at hl
    exact hn ⟨st,hst,hs.statuses st hst hl⟩)
  have hfiled : a.filed.pendingOf id = { a.acked.sess.pendingOf id with children := cs } :=
    (Session.pendingOf_congr a.filedBy.results id).trans hother
  have hfinal : s'.pendingOf id = a.filed.pendingOf id :=
    (a.pendingOf_final id).trans (if_pos (by rw [hfiled]; exact hacked.status))
  obtain ⟨r,he⟩ := a.final x.isEntered
  have hsend := a.isBuilt.sending.1
  refine hacked.congr ?_ ?_ ?_
  · rw [hfinal,hfiled]
    exact ⟨rfl,rfl⟩
  · exact (congrArg Session.assembler he).trans (hsend.assembler.trans a.filedBy.assembler)
  · exact (congrArg Session.assemblingCommand he).trans
      (hsend.assemblingCommand.trans a.filedBy.assemblingCommand)

theorem Call.Exchange.stores (x : c.Exchange cfg s s') (hacc : c.Accepted cfg)
    (hw : c.before.Sound)
    (ht : c.Trusted cfg) (hid : id ≠ []) (hk : s.sent.lookup k = some id) {st : Status}
    (hst : c.req.body.statuses.find? (fun y => statusKey y = k) = some st)
    (hs : c.Suits cfg s k id) (h : s.Collecting id got stream)
    (hdone : (joinStreams stream (c.itemsFor k)).2 = []) :
    c.Stores cfg k id st (got ++ (joinStreams stream (c.itemsFor k)).1) := by
  obtain ⟨a⟩ := x.answered ht
  have hacked := x.collected a hid hk hs h
  have hkey : statusKey st = k := by simpa using List.find?_some hst
  have hup := (hw _ _ x.stored).sent k id hk
  have hsent : a.acked.sess.sent = s.sent := a.taking.sent.trans x.resumed.alike.sent
  obtain ⟨hgone,cs,hp⟩ := @fileStatuses_first a.acked.sess _ k id st hst
    (KeyUpTo.cmdRef_ne (hkey ▸ hup))
    (by rw [a.taking.children,x.resumed.alike.children]; exact hs.noMember)
    (by rw [hsent]; exact hk) (hacked.idle hdone) (by rw [hsent]; exact hs.statuses)
  have hfiled : a.filed.pendingOf id =
      { (a.acked.sess.pendingOf id).withStatus st with children := cs } :=
    (Session.pendingOf_congr a.filedBy.results id).trans hp
  obtain ⟨qc,hqc,hqid,⟨now,hres⟩,-⟩ :=
    @Answered.stored _ _ _ _ _ _ _ a id st.code (by rw [hfiled]; rfl)
  rw [hfiled] at hres
  refine ⟨s',qc,_,x.final,?_,x.lookup_after hacc hw,?_,hqid,hres,rfl,rfl,hacked.items⟩
  · rw [a.sent_earlier x.isEntered (by rw [x.resumed.serverMsgID]; exact hup),a.filedBy.sent]
    exact hgone
  · rw [(a.final_key x.isEntered).2]
    exact hqc

end Steps

theorem itemsOn_snoc (k : GoString) (past : List Call) (c : Call) :
    itemsOn k (past ++ [c]) = itemsOn k past ++ c.itemsFor k := by
  simp [itemsOn]

section Run
variable {cfg : Config} {key k id : GoString}

theorem Call.Exchange.id_ne_nil {c : Call} (x : c.Exchange cfg s s')
    (hs : s.Sound (Message.sessionKey c.req)) (ht : c.Trusted cfg) (hn : c.Names k)
    (hk : s.sent.lookup k = some id) (hc : s.children.lookup k = none) : id ≠ [] := by
  obtain ⟨a⟩ := x.answered ht
  obtain ⟨qc,hqc,rfl,-⟩ := a.settled (x.files_status hs a hn hk hc)
  exact ((c.after cfg).queue.valid _ qc hqc).2

/-- The answer to a command that went out under `k` is stored whole by the message with the first
Status on `k`, when no items come after it. `streams` are the chunk streams the client sends. -/
theorem get_answer_stored {w w' : World} {pre mid : List Call} {ci cj : Call} {st : Status}
    {streams : List (List Item)} (hr : SessionRun cfg key w (pre ++ ci :: (mid ++ [cj])) w')
    (hw : w.sessions = ∅) (hsent : ci.Sends cfg k id)
    (ht : ∀ x ∈ mid ++ [cj], x.Trusted cfg) (hn : ∀ x ∈ mid, ¬x.Names k)
    (hst : cj.req.body.statuses.find? (fun y => statusKey y = k) = some st)
    (hstreams : ∀ s ∈ streams, s ≠ [] ∧ MoreDataMarks s)
    (hitems : itemsOn k (mid ++ [cj]) = streams.flatten)
    (hfresh : ∀ s, (ci.after cfg).sessions.lookup key = some s →
      (s.pendingOf id).items = [] ∧ s.assemblingCommand ≠ id)
    (hs : ∀ x ∈ mid ++ [cj], ∀ s, x.before.sessions.lookup key = some s → x.Suits cfg s k id) :
    cj.Stores cfg k id st (streams.map joinChunks) := by
  -- the session waits under `k` and has collected what the calls reported
  obtain ⟨hacc,hsd,s,s',⟨e⟩,hl,hk,hcol⟩ := hr.kept hw
    (R := fun past s => s.sent.lookup k = some id ∧ (id ≠ [] →
      s.Collecting id (joinStreams [] (itemsOn k past)).1 (joinStreams [] (itemsOn k past)).2))
    (by
      intro hacc hsound hkey s hl
      obtain ⟨hi,ha⟩ := hfresh s hl
      obtain ⟨acc⟩ := serve_accepted hacc.choose_spec
      have hafter := (acc.sound hsound).2.2
      exact ⟨hsent.sent hacc hsound (hkey ▸ hl),fun _ =>
        ⟨hi,(hafter _ _ hl).unanswered id,fun hne => absurd rfl hne,fun _ => ha⟩⟩)
    (by
      rintro past x later s s' he e hsd hl ⟨hk,hcol⟩
      have hx : x ∈ mid := by simp [he]
      have hin := List.mem_append_left [cj] hx
      refine ⟨e.awaits (hsd _ _ e.stored) (fun _ st hst he => absurd ⟨st,hst,he⟩ (hn x hx)) hk,?_⟩
      intro hid
      rw [itemsOn_snoc,joinStreams_append]
      exact e.collects (ht x hin) hid hk (hn x hx) (hs x hin s hl) (hcol hid))
  have hfit := hs cj (by simp) s hl
  have htj := ht cj (by simp)
  have hnames : cj.Names k := ⟨st,List.mem_of_find?_eq_some hst,by simpa using List.find?_some hst⟩
  have hid := e.id_ne_nil (hsd _ _ e.stored) htj hnames hk hfit.noMember
  have hall := joinStreams_flatten hstreams
  rw [← hitems,itemsOn_snoc,joinStreams_append] at hall
  have hstores := e.stores hacc hsd htj hid hk hst hfit (hcol hid)
    (congrArg Prod.snd hall)
  have hfst := congrArg Prod.fst hall
  dsimp only at hfst
  rw [← hfst]
  exact hstores

end Run

namespace Sample

def readID : GoString := "mdm-internal/dev/first-reads"

def readStatus : Syncml.Command := status "2" "1" "4" "Get" "200"

def readRequests : List Message :=
  [packageOne,
    request "2" [status "1" "1" "0" "SyncHdr" "200",
      uploadOf "4" [uploadItem { value := "10" } 4 true]],
    request "3" [status "1" "2" "0" "SyncHdr" "200",readStatus,
      uploadOf "4" [uploadItem { value := ".0" } 0 false]]]

def lateRequests : List Message :=
  [packageOne,request "2" [status "1" "1" "0" "SyncHdr" "200",readStatus],
    request "3" [status "1" "2" "0" "SyncHdr" "200",
      uploadOf "4" [uploadItem { value := "10.0" } 0 false]]]

end Sample

set_option maxRecDepth 4000

/-- The version of the device, read in two pieces. -/
theorem get_answer_stored_chunks : ∃ c₁ c₂ c₃ w' st,
    SessionRun Sample.cfg Sample.key {} [c₁,c₂,c₃] w' ∧
    c₁.Sends Sample.cfg "1/4" Sample.readID ∧ Syncml.Command.status st = Sample.readStatus ∧
    c₃.Stores Sample.cfg "1/4" Sample.readID st
      [Sample.uploadItem { value := "10.0" } 4 false] := by
  obtain ⟨w',h⟩ := sessionRun_callsOf Sample.cfg Sample.env (some Sample.transport) {}
    Sample.readRequests Sample.key (by decide +kernel)
  refine ⟨_,_,_,w',_,h,by decide +kernel,rfl,?_⟩
  refine @get_answer_stored Sample.cfg Sample.key "1/4" Sample.readID _ _ [] [_] _ _ _
    [[Sample.uploadItem { value := "10" } 4 true,Sample.uploadItem { value := ".0" } 0 false]]
    h rfl (by decide +kernel) (by decide +kernel) (by decide +kernel) rfl ?_ (by decide +kernel)
    (by decide +kernel) (by decide +kernel)
  intro s hs
  rw [List.mem_singleton.mp hs]
  exact ⟨by simp,Syncml.moreDataMarks_cons rfl
    (Syncml.moreDataMarks_cons rfl Syncml.moreDataMarks_nil)⟩

/-- A Status that comes before the items closes the answer without them. -/
theorem get_answer_without_items : ∃ c₁ c₂ c₃ w',
    SessionRun Sample.cfg Sample.key {} [c₁,c₂,c₃] w' ∧
    c₁.Sends Sample.cfg "1/4" Sample.readID ∧ (∀ x ∈ [c₂,c₃], x.Trusted Sample.cfg) ∧
    c₂.Names "1/4" ∧ itemsOn "1/4" [c₂,c₃] = [Sample.uploadItem { value := "10.0" } 0 false] ∧
    ((c₃.after Sample.cfg).queue.get "dev" Sample.readID).map
      (fun qc => qc.result.map Result.items) = some (some []) := by
  obtain ⟨w',h⟩ := sessionRun_callsOf Sample.cfg Sample.env (some Sample.transport) {}
    Sample.lateRequests Sample.key (by decide +kernel)
  exact ⟨_,_,_,w',h,by decide +kernel,by decide +kernel,by decide +kernel,by decide +kernel,
    by decide +kernel⟩

end MicrosoftDM.Mdm
