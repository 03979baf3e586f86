import MicrosoftDM.ReplyShape

set_option autoImplicit false

namespace MicrosoftDM.Mdm
open Effect
open Effect.Action (exec)
open MicrosoftDM.Syncml (Message)

/-- The states a service gets into from an empty queue and no session. -/
inductive World.Reachable : World → Prop where
  | start {w : World} (hq : w.queue = .empty) (hs : w.sessions = ∅) : Reachable w
  | call {m : Machine} (env : Env) (op : Op) (h : Reachable m.world) :
      Reachable (env.handler op m).2.world
  | enqueue {w : World} (dev : GoString) (cmd : Command) (time : Time) (h : Reachable w) :
      Reachable { w with queue := (w.queue.enqueue dev cmd time).2 }
  | cancel {w : World} (dev : GoString) (ids : List GoString) (time : Time) (h : Reachable w) :
      Reachable { w with queue := w.queue.cancel dev ids time }
  | prune {w : World} (before : Time) (limit : Int) (range : RangeOrder) (h : Reachable w) :
      Reachable { w with queue := (w.queue.prune before limit range).1 }

variable {w w' : World} {q : Queue}

theorem World.Reachable.serve (h : w.Reachable) (cfg : Config) (env : Env)
    (t : Option Transport) (req : Message) : (Mdm.serve cfg env t req w).2.Reachable :=
  run_invariant (I := fun m : Machine => m.world.Reachable) (fun op _ hm => .call env op hm)
    (handle cfg t req) (s := { world := w }) h

theorem World.reachable_operated : Operated World.Reachable where
  enqueue _ dev cmd time h := .enqueue dev cmd time h
  cancel _ dev ids time h := .cancel dev ids time h
  prune _ before limit range _ h := .prune before limit range h

theorem Run.reachable {cfg : Config} {calls : List Call} (hr : Run cfg w calls w')
    (hw : w.Reachable) : w'.Reachable ∧ ∀ c ∈ calls, c.before.Reachable :=
  hr.invariant hw World.reachable_operated fun c _ h => h.serve cfg c.env c.transport c.req

/-- The commands of each device are in the order of their numbers, and the next number is new. -/
def Queue.Ordered (q : Queue) : Prop :=
  ∀ dev, (q.commands dev).Pairwise (fun a b => a.seq < b.seq) ∧
    ∀ qc ∈ q.commands dev, qc.seq < q.nextSeq dev

theorem Queue.Ordered.modify (h : q.Ordered) (dev : GoString)
    {f : QueuedCommand → QueuedCommand} (hf : ∀ qc, (f qc).command = qc.command)
    (hseq : ∀ qc, (f qc).seq = qc.seq) : (q.modify dev f hf).Ordered := by
  intro d
  obtain ⟨hp,hb⟩ := h d
  by_cases hd : d = dev
  · subst hd
    rw [Queue.commands_modify_self]
    refine ⟨List.pairwise_map.mpr (hp.imp fun hab => by rwa [hseq,hseq]),?_⟩
    intro qc hqc
    obtain ⟨x,hx,rfl⟩ := List.mem_map.mp hqc
    rw [hseq]
    exact hb x hx
  · rw [Queue.commands_modify_ne q f hf hd]
    exact ⟨hp,hb⟩

theorem Queue.Ordered.countID (h : q.Ordered) (cmd : Command) :
    (q.countID cmd).Ordered := by
  intro dev
  rw [Queue.commands_countID]
  unfold Queue.countID
  split
  · exact h dev
  · exact h dev

theorem Queue.nextSeq_countSeq (q : Queue) (dev d : GoString) :
    (q.countSeq dev).nextSeq d = if d = dev then q.nextSeq dev+1 else q.nextSeq d := by
  unfold Queue.countSeq Queue.nextSeq
  split
  · rename_i h
    subst h
    simp
  · rename_i h
    simp [AList.lookup_insert_ne h]

theorem Queue.Ordered.append (h : q.Ordered) {dev : GoString} {qc : QueuedCommand}
    (hid : qc.id ∉ ((q.countSeq dev).commands dev).map QueuedCommand.id)
    (hv : validate qc.command = none ∧ qc.id ≠ []) (hseq : qc.seq = q.nextSeq dev) :
    ((q.countSeq dev).append dev qc hid hv).Ordered := by
  intro d
  obtain ⟨hp,hb⟩ := h d
  have hnext : ((q.countSeq dev).append dev qc hid hv).nextSeq d = (q.countSeq dev).nextSeq d := rfl
  rw [hnext,Queue.nextSeq_countSeq]
  by_cases hd : d = dev
  · subst hd
    rw [if_pos rfl,Queue.append,Queue.commands_setCommands_self,Queue.commands_countSeq]
    refine ⟨List.pairwise_append.mpr ⟨hp,List.pairwise_singleton _ _,?_⟩,?_⟩
    · intro x hx y hy
      rw [List.mem_singleton.mp hy,hseq]
      exact hb x hx
    intro x hx
    rcases List.mem_append.mp hx with hx | hx
    · exact Nat.lt_succ_of_lt (hb x hx)
    · rw [List.mem_singleton.mp hx,hseq]
      exact Nat.lt_succ_self _
  · rw [if_neg hd,Queue.append,Queue.commands_setCommands_ne _ _ _ _ hd,Queue.commands_countSeq]
    exact ⟨hp,hb⟩

theorem Queue.Ordered.enqueue (h : q.Ordered) (dev : GoString) (cmd : Command)
    (time : Time) : (q.enqueue dev cmd time).2.Ordered := by
  unfold Queue.enqueue
  split
  · exact h
  split
  · exact h
  split
  · exact h.countID cmd
  rename_i hv hid
  apply (h.countID cmd).append
  · exact hid
  · exact ⟨hv,q.storedID_ne_nil cmd⟩
  · unfold Queue.countID Queue.nextSeq
    split <;> rfl

theorem QueuedCommand.seq_markSent (d : Delivery) (qc : QueuedCommand) :
    (qc.markSent d).seq = qc.seq := by
  unfold markSent
  split <;> rfl

theorem QueuedCommand.seq_storeResult (id : GoString) (r : Result) (qc : QueuedCommand) :
    (qc.storeResult id r).seq = qc.seq := by
  unfold storeResult
  split <;> rfl

theorem QueuedCommand.seq_cancel (ids : List GoString) (time : Time) (qc : QueuedCommand) :
    (qc.cancel ids time).seq = qc.seq := by
  unfold cancel
  split <;> rfl

theorem Queue.Ordered.markSent (h : q.Ordered) (dev : GoString) (ds : List Delivery) :
    (q.markSent dev ds).2.Ordered := by
  induction ds generalizing q with
  | nil => exact h
  | cons d ds ih =>
    unfold Queue.markSent
    split
    · exact ih (h.modify dev _ (QueuedCommand.seq_markSent d))
    · exact h

theorem Queue.Ordered.storeResult (h : q.Ordered) (dev id : GoString) (r : Result) :
    (q.storeResult dev id r).2.Ordered := by
  unfold Queue.storeResult
  split
  · exact h.modify dev (QueuedCommand.command_storeResult id r) (QueuedCommand.seq_storeResult id r)
  · exact h

theorem Queue.nextSeq_pruneDevices (q : Queue) (d : GoString) (before : Time) (limit : Int) (n : Nat)
    (devs : List GoString) : (q.pruneDevices before limit n devs).1.nextSeq d = q.nextSeq d := by
  induction devs generalizing q n with
  | nil => rfl
  | cons dev devs ih => exact ih _ _

theorem Queue.Ordered.prune (h : q.Ordered) (before : Time) (limit : Int) (range : RangeOrder) :
    (q.prune before limit range).1.Ordered := by
  intro dev
  have hsub := q.prune_sublist before limit range dev
  have hseq : (q.prune before limit range).1.nextSeq dev = q.nextSeq dev :=
    q.nextSeq_pruneDevices dev before limit 0 _
  refine ⟨(h dev).1.sublist hsub,fun qc hqc => ?_⟩
  rw [hseq]
  exact (h dev).2 qc (hsub.subset hqc)

theorem Op.Moves.ordered {op : Op} (hm : op.Moves w w') (h : w.queue.Ordered) :
    w'.queue.Ordered := by
  cases hm with
  | enqueue => exact h.enqueue _ _ _
  | markSent => exact h.markSent _ _
  | storeResult => exact h.storeResult _ _ _
  | _ => exact h

theorem World.Reachable.ordered (h : w.Reachable) : w.queue.Ordered := by
  induction h with
  | start hq _ =>
    intro dev
    rw [hq]
    simp [Queue.commands,Queue.empty]
  | call env op _ ih => exact (env.handler_moves op _).ordered ih
  | enqueue dev cmd time _ ih => exact ih.enqueue dev cmd time
  | cancel dev ids time _ ih =>
    exact ih.modify dev (QueuedCommand.command_cancel ids time) (QueuedCommand.seq_cancel ids time)
  | prune before limit range _ ih => exact ih.prune before limit range

def Queue.waiting (q : Queue) (dev : GoString) : List QueuedCommand :=
  (q.commands dev).filter QueuedCommand.deliverable

theorem Queue.deliverable_eq_take (q : Queue) (dev : GoString) :
    q.deliverable dev 256 = (q.waiting dev).take 256 := by
  unfold Queue.deliverable Queue.waiting
  exact if_pos (by decide)

/-- `w'` is `w` with an initial segment of the waiting commands that may go
out, in the order of their numbers, and with one at least if there is one. -/
def SegmentDelivered (w : Work) (q : Queue) (w' : Work) : Prop :=
  ∃ through : List QueuedCommand,
    w'.resp.body.commands = w.resp.body.commands ++ sentBodies w through ∧
    through <+: admitted w.sess.facts (q.waiting w.sess.deviceID) ∧
    through.Pairwise (fun a b => a.seq < b.seq) ∧
    (admitted w.sess.facts (q.waiting w.sess.deviceID) ≠ [] → through ≠ [])

theorem sentBodies_length (w : Work) (through : List QueuedCommand) :
    (sentBodies w through).length = through.length := by
  induction through generalizing w with
  | nil => rfl
  | cons qc rest ih => simp [sentBodies,ih]

theorem length_eq_of_sentBodies {w : Work} {xs ys : List QueuedCommand}
    {cs : List Syncml.Command} (hx : cs = w.resp.body.commands ++ sentBodies w xs)
    (hy : cs = w.resp.body.commands ++ sentBodies w ys) : xs.length = ys.length := by
  have := congrArg List.length (List.append_cancel_left (hx.symm.trans hy))
  simpa [sentBodies_length] using this

theorem admitted_take (facts : Facts) (cmds : List QueuedCommand) (n : Nat) :
    admitted facts (cmds.take n) <+: admitted facts cmds :=
  (List.take_prefix n cmds).filter _

/-- `deliver` sends an initial segment that is not empty when something may go
out, if and only if something that may go out is among the first 256. -/
theorem deliver_segment_iff {cfg : Config} {env : Env} {w w' : Work} {m m' : Machine}
    (hm : m.world.Reachable) (hu : w.sess.uploadPending = false)
    (h : exec env.handler (deliver cfg) w m = ((.ok (),w'),m')) :
    SegmentDelivered w m.world.queue w' ↔
      (admitted w.sess.facts (m.world.queue.waiting w.sess.deviceID) ≠ [] →
        admitted w.sess.facts ((m.world.queue.waiting w.sess.deviceID).take 256) ≠ []) := by
  obtain ⟨through,hd,hall,hw,-⟩ := deliver_sends hu h
  rw [Queue.deliverable_eq_take] at hd hall
  have hcmds : w'.resp.body.commands = w.resp.body.commands ++ sentBodies w through := by
    rw [hw]
    exact foldl_send_commands w through
  have hpre := hd.initial.trans (admitted_take w.sess.facts _ 256)
  constructor
  · rintro ⟨through',hcmds',hpre',-,hsome⟩ hne
    have hlen := length_eq_of_sentBodies hcmds' hcmds
    have hsame : through' = through :=
      (List.prefix_of_prefix_length_le hpre' hpre (by omega)).eq_of_length hlen
    intro hnone
    have hnil := hd.initial
    rw [hnone,List.prefix_nil] at hnil
    exact hsome hne (hsame.trans hnil)
  · intro hfirst
    refine ⟨through,hcmds,hpre,?_,fun hne hnil => ?_⟩
    on_goal 2 =>
      rw [hnil] at hall
      exact budgetCut_ne_nil (by simpa using hfirst hne) hall.symm
    refine List.Pairwise.sublist ?_ (hm.ordered w.sess.deviceID).1
    exact hpre.sublist.trans (List.filter_sublist.trans List.filter_sublist)

theorem commands_enqueue_new {q : Queue} {dev : GoString} {cmd : Command} {time : Time}
    (hdev : dev ≠ []) (hv : validate cmd = none) (hid : cmd.id ≠ [])
    (hnew : cmd.id ∉ (q.commands dev).map QueuedCommand.id) :
    (q.enqueue dev cmd time).2.commands dev = q.commands dev ++
      [{ command := cmd, seq := q.nextSeq dev, state := .pending, enqueuedAt := time }] := by
  have hstored : q.storedID cmd = cmd.id := if_neg hid
  have hcount : q.countID cmd = q := if_neg hid
  unfold Queue.enqueue
  rw [if_neg hdev]
  split
  · rename_i e he
    rw [hv] at he
    cases he
  rename_i hv'
  split
  · rename_i hmem
    rw [hstored,hcount] at hmem
    exact absurd hmem hnew
  · simp only [Queue.append,Queue.commands_setCommands_self,Queue.commands_countSeq,
      Queue.commands_countID,hstored]

theorem commands_foldl_enqueue {q : Queue} {dev : GoString} {cmds : List Command} {time : Time}
    (hdev : dev ≠ []) (hv : ∀ c ∈ cmds, validate c = none ∧ c.id ≠ [])
    (hd : ((q.commands dev).map QueuedCommand.id ++ cmds.map Command.id).Nodup) :
    ∃ new, (cmds.foldl (fun q cmd => (q.enqueue dev cmd time).2) q).commands dev =
        q.commands dev ++ new ∧ new.map QueuedCommand.command = cmds ∧
      ∀ qc ∈ new, qc.deliverable = true := by
  induction cmds generalizing q with
  | nil => exact ⟨[],by simp,rfl,by simp⟩
  | cons c cs ih =>
    obtain ⟨hvc,hidc⟩ := hv c List.mem_cons_self
    have hone := @commands_enqueue_new q dev c time hdev hvc hidc fun hm =>
      (List.nodup_append.mp hd).2.2 _ hm _ List.mem_cons_self rfl
    obtain ⟨new,hnew,hcmds,hdel⟩ := ih (q := (q.enqueue dev c time).2)
      (fun x hx => hv x (List.mem_cons_of_mem c hx)) (by rw [hone]; simpa [QueuedCommand.id] using hd)
    let qc : QueuedCommand :=
      { command := c, seq := q.nextSeq dev, state := .pending, enqueuedAt := time }
    refine ⟨qc :: new,?_,?_,?_⟩
    · rw [List.foldl_cons,hnew,hone,List.append_assoc]
      rfl
    · rw [List.map_cons,hcmds]
    intro x hx
    rcases List.mem_cons.mp hx with rfl | hx
    · rfl
    · exact hdel x hx

namespace Sample

def deliverWork : Work := startWork cfg packageOne (newSession packageOne identity 0 1)

def userSetting (id : GoString) : Command where
  id := id
  scope := .user
  body := .leaf .replace { items := [{ target := "./User/Vendor/MSFT/A", data := some { value := "1" } }] }

def crowd : List Command :=
  (List.range' 1 256).map (fun i : Nat => userSetting (itoa i)) ++
    [replace (itoa 257) "./Vendor/MSFT/Policy" "on"]

theorem world_reachable (cmds : List Command) : (world cmds).Reachable := by
  have hfold : ∀ w : World, w.Reachable → World.Reachable
      { w with queue := cmds.foldl (fun q cmd => (q.enqueue "dev" cmd 0).2) w.queue } := by
    induction cmds with
    | nil => exact fun w h => h
    | cons c cs ih => exact fun w h => ih _ (.enqueue "dev" c 0 h)
  exact hfold {} (.start rfl rfl)

theorem world_waiting {cmds : List Command} (hv : ∀ c ∈ cmds, validate c = none ∧ c.id ≠ [])
    (hd : (cmds.map Command.id).Nodup) :
    ((world cmds).queue.waiting "dev").map QueuedCommand.command = cmds := by
  have hempty : Queue.empty.commands "dev" = [] := rfl
  obtain ⟨new,hnew,hcmds,hdel⟩ := @commands_foldl_enqueue .empty "dev" cmds 0 (by decide) hv
    (by rw [hempty]; exact hd)
  rw [hempty,List.nil_append] at hnew
  unfold Queue.waiting world
  rw [hnew,List.filter_eq_self.mpr hdel,hcmds]

end Sample

set_option maxRecDepth 4000

/-- The setting, the only command, is delivered. -/
theorem deliver_segment_iff_policy : ∃ w' m',
    exec Sample.env.handler (deliver Sample.cfg) Sample.deliverWork { world := Sample.policyWorld } =
      ((.ok (),w'),m') ∧
    SegmentDelivered Sample.deliverWork Sample.policyWorld.queue w' := by
  have hok : (match (exec Sample.env.handler (deliver Sample.cfg) Sample.deliverWork
    { world := Sample.policyWorld }).1.1 with
    | .ok _ => true
    | .error _ => false) = true := by decide +kernel
  have hfirst : admitted Sample.deliverWork.sess.facts
    ((Sample.policyWorld.queue.waiting Sample.deliverWork.sess.deviceID).take 256) ≠ [] := by
    decide +kernel
  rcases he : exec Sample.env.handler (deliver Sample.cfg) Sample.deliverWork
    { world := Sample.policyWorld } with ⟨⟨r,w'⟩,m'⟩
  rw [he] at hok
  cases r with
  | error e => cases hok
  | ok u =>
    exact ⟨w',m',rfl,(deliver_segment_iff (Sample.world_reachable _) rfl he).mpr fun _ => hfirst⟩

theorem deliver_nothing {cfg : Config} {env : Env} {w : Work} {m : Machine}
    (hu : w.sess.uploadPending = false) (hf : env.fails m.tick = false)
    (hn : admitted w.sess.facts (m.world.queue.deliverable w.sess.deviceID 256) = []) :
    ∃ w' m', exec env.handler (deliver cfg) w m = ((.ok (),w'),m') ∧
      w'.resp.body.commands = w.resp.body.commands := by
  obtain ⟨through,hd,he,-⟩ := deliverLoop_eq w (w.budget cfg) []
    (m.world.queue.deliverable w.sess.deviceID 256)
  have hnil := hd.initial
  rw [hn,List.prefix_nil] at hnil
  subst hnil
  have hop : env.handler (Op.deliverable w.sess.deviceID 256) m =
      (.ok (m.world.queue.deliverable w.sess.deviceID 256),m.step m.world) := if_neg (by simp [hf])
  refine ⟨w.setFinal w.sess.outgoing.isNone,m.step m.world,?_,rfl⟩
  simp [deliver,Action.exec_bind,hu,hop,he,markDelivered,Eng.orFail]

theorem Sample.crowd_valid (c : Command) (h : c ∈ crowd) : validate c = none ∧ c.id ≠ [] := by
  rcases List.mem_append.mp h with h | h
  · obtain ⟨i,-,rfl⟩ := List.mem_map.mp h
    have hv : ∀ id, validate (userSetting id) = validate (userSetting []) := fun id => rfl
    exact ⟨(hv _).trans (by decide +kernel),itoa_ne_nil i⟩
  · rw [List.mem_singleton.mp h]
    exact ⟨by decide +kernel,itoa_ne_nil 257⟩

theorem Sample.crowd_ids : (crowd.map Command.id).Nodup := by
  have hids : crowd.map Command.id = (List.range' 1 257).map fun j : Nat => itoa j := by
    rw [show 257 = 256+1 from rfl,List.range'_concat]
    simp [crowd,userSetting,replace]
  rw [hids]
  exact nodup_range'_itoa 1 257

/-- The device setting waits behind the 256 user settings, and nothing is delivered. -/
theorem deliver_starves : ∃ (w' : Work) (m' : Machine),
    (Sample.world Sample.crowd).Reachable ∧ Sample.deliverWork.sess.uploadPending = false ∧
    exec Sample.env.handler (deliver Sample.cfg) Sample.deliverWork
      { world := Sample.world Sample.crowd } = ((.ok (),w'),m') ∧
    ¬SegmentDelivered Sample.deliverWork (Sample.world Sample.crowd).queue w' := by
  have hscope (qc : QueuedCommand) : scopeAllows Sample.deliverWork.sess.facts qc.command.scope =
      decide (qc.command.scope = .device) := by
    cases qc.command.scope <;> decide +kernel
  have hwaiting := Sample.world_waiting Sample.crowd_valid Sample.crowd_ids
  have hwindow : admitted Sample.deliverWork.sess.facts
      ((Sample.world Sample.crowd).queue.deliverable "dev" 256) = [] := by
    refine List.filter_eq_nil_iff.mpr fun qc hqc => ?_
    rw [Queue.deliverable_eq_take] at hqc
    have hmem := List.mem_map_of_mem (f := QueuedCommand.command) hqc
    rw [List.map_take,hwaiting,Sample.crowd,List.take_left' (by simp)] at hmem
    obtain ⟨i,-,hi⟩ := List.mem_map.mp hmem
    rw [hscope,← hi]
    exact Bool.false_ne_true
  have hwaits : admitted Sample.deliverWork.sess.facts
      ((Sample.world Sample.crowd).queue.waiting "dev") ≠ [] := by
    have hlast : Sample.replace (itoa 257) "./Vendor/MSFT/Policy" "on" ∈ Sample.crowd :=
      List.mem_append_right _ List.mem_cons_self
    rw [← hwaiting] at hlast
    obtain ⟨qc,hqc,hc⟩ := List.mem_map.mp hlast
    refine List.ne_nil_of_mem (List.mem_filter.mpr ⟨hqc,?_⟩)
    rw [hscope,hc]
    rfl
  obtain ⟨w',m',he,hcmds⟩ := @deliver_nothing Sample.cfg Sample.env Sample.deliverWork
    { world := Sample.world Sample.crowd } rfl rfl hwindow
  refine ⟨w',m',Sample.world_reachable _,rfl,he,?_⟩
  rintro ⟨through,hsent,-,-,hsome⟩
  have hlen := @length_eq_of_sentBodies _ _ [] _ hsent (by simpa [sentBodies] using hcmds)
  exact hsome hwaits (List.length_eq_zero_iff.mp hlen)

end MicrosoftDM.Mdm
