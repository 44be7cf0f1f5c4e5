import SnowTG.Owner.CommandSafety

/-!
# What becomes of a command

An owner can be shut down from every state it can be in, and a shutdown that is through
has completed every command submitted to it.  With the invariant of every run this
settles the life of a command: it is completed once, freed with its last holder, not
carried out once it has been cancelled, and answers what the transport answered.
-/

namespace SnowTG.Owner

open List

variable {l' : Life} {f : Frame} {result : Int} {error : Nat}

section Work

/-- What an owner still has to do before a shutdown is through. -/
def Frame.work : Frame → Nat
  | .completing _ _ _ => 1
  | _ => 2

@[inherit_doc Frame.work]
def OwnerPc.work : OwnerPc → Nat
  | .stopped => 0
  | .stopCancel cancel => 1 + cancel.length
  | .stopControl control cancel => 2 + control.length + cancel.length
  | .stopActive control cancel => 3 + control.length + cancel.length
  | .stopRings control cancel => 4 + control.length + cancel.length
  | .polling => 5
  | .cancelPut _ => 6
  | .cancelling _ => 7
  | .controls list deferred => 6 + 4 * list.length + deferred.length
  | .reaped _ list deferred => 7 + 4 * list.length + deferred.length
  | .reaping _ list deferred => 8 + 4 * list.length + deferred.length

@[inherit_doc Frame.work]
def SockCmd.work (cmd : SockCmd) : Nat := if cmd.done then 1 else 2

namespace CommandOwner

variable (st : CommandOwner)

def activeWork : Nat := (st.active.map fun c => (st.cmd c).work).sum

def callWork : Nat := (st.frames.map Frame.work).sum

@[inherit_doc Frame.work]
def work : Nat :=
  st.callWork + 6 * (st.closeRing.length + st.commandRing.length) + 5 * st.batch.length +
    st.activeWork + st.control.length + st.cancel.length + st.pc.work

/-- What an owner that is to shut down does next, with a transport that answers at once. -/
def next : CmdEvent :=
  match st.frames, st.batch, st.pc with
  | .completing _ _ _ :: _, _, _ => .completed
  | _ :: _, _, _ => .answered (.result 0 0)
  | [], _ :: _, _ => .start false true
  | [], [], .polling => .shutdown
  | [], [], _ => .advance

end CommandOwner

open CommandOwner (activeWork answered callWork nextControl taken work)
variable {st st' : CommandOwner} {c : Nat} {l : Life} {calls : List Frame} {rest : List Nat}

theorem SockCmd.work_pos (cmd : SockCmd) : 1 ≤ cmd.work ∧ cmd.work ≤ 2 := by
  rw [work]
  split_ifs <;> omega

/-- Commands that are done stay done. -/
def KeepsDone (st st' : CommandOwner) : Prop := ∀ c, (st.cmd c).done = true → (st'.cmd c).done = true

theorem KeepsDone.work (h : KeepsDone st st') (c : Nat) : (st'.cmd c).work ≤ (st.cmd c).work := by
  rw [SockCmd.work, SockCmd.work]
  by_cases hdone : (st.cmd c).done = true
  · rw [if_pos hdone, if_pos (h c hdone)]
  · rw [if_neg hdone]
    split_ifs <;> omega

theorem KeepsDone.sum (h : KeepsDone st st') (list : List Nat) :
    (list.map fun c => (st'.cmd c).work).sum ≤ (list.map fun c => (st.cmd c).work).sum :=
  sum_le_sum fun c _ => h.work c

/-- A command that is done stays done, and a submitted one was submitted. -/
theorem LifeStep.lasting (h : LifeStep l l') (hinv : l.Inv) :
    (l.cmd.done = true → l'.cmd.done = true) ∧
      (l.cmd.submitted = true → l'.cmd.submitted = true) := by
  have hcomplete : ∀ (cmd : SockCmd) result error,
      (cmd.complete result error).submitted = cmd.submitted := by
    intro cmd result error
    rw [SockCmd.complete]
    split_ifs <;> rfl
  cases h with
  | call type handle nonblock dontwait deadline hplace =>
    have hmarks := hinv.marks
    rw [hplace] at hmarks
    exact ⟨fun hdone => absurd (hmarks.1.1.symm.trans hdone) Bool.false_ne_true,
      fun hsubmitted => absurd (hmarks.2.1.symm.trans hsubmitted) Bool.false_ne_true⟩
  | submit hcaller haccepting => exact ⟨id, fun _ => rfl⟩
  | refuse error hplace | complete result error hplace | cancel error hplace
  | connected result error hplace =>
    exact ⟨fun _ => Life.complete_done _ _ _, fun hsubmitted => (hcomplete _ _ _).trans hsubmitted⟩
  | _ => exact ⟨id, id⟩

theorem LifeStep.lasting_run (h : Relation.ReflTransGen LifeStep l l') (hinv : l.Inv) :
    (l.cmd.done = true → l'.cmd.done = true) ∧
      (l.cmd.submitted = true → l'.cmd.submitted = true) := by
  induction h with
  | refl => exact ⟨id, id⟩
  | tail hrun hstep ih =>
    obtain ⟨hdone, hsubmitted⟩ := hstep.lasting (hinv.run hrun)
    exact ⟨hdone ∘ ih.1, hsubmitted ∘ ih.2⟩

theorem CommandOwner.Inv.keepsDone (h : st.Inv) {e : CmdEvent} (hen : st.enabled e) :
    KeepsDone st (st.step e) := by
  intro c hdone
  obtain ⟨l, hinv, hsim⟩ := h.lives c
  obtain ⟨l', hrun, hsim'⟩ := h.lives_step hen c hinv hsim
  rw [hsim.cmd] at hdone
  rw [hsim'.cmd]
  exact (LifeStep.lasting_run hrun hinv).1 hdone

/-- A step that only works on calls, sockets and commands has as much to do for the lists. -/
theorem work_lt_of_callWork (hlists : SameLists st st') (hdone : KeepsDone st st')
    (hcalls : st'.callWork < st.callWork) : st'.work < st.work := by
  have hactive := hdone.sum st.active
  simp only [work, activeWork, hlists.closeRing, hlists.commandRing,
    hlists.batch, hlists.active, hlists.control, hlists.cancel, hlists.pc]
  omega

theorem Returned.callWork (h : Returned st st' calls) (hframes : st.frames = f :: calls)
    (hf : f.work = 2) : st'.callWork < st.callWork := by
  rw [CommandOwner.callWork, CommandOwner.callWork, hframes, map_cons, sum_cons, hf]
  rcases h.frames with hnext | ⟨c, result, error, hnext⟩
  · rw [hnext]
    omega
  · rw [hnext, map_cons, sum_cons, Frame.work]
    omega

theorem work_lt_answered (hframes : st.frames = f :: calls) (hcall : f.Inv st) (hf : f.work = 2)
    (hdone : KeepsDone st (st.answered (.result 0 0))) :
    (st.answered (.result 0 0)).work < st.work := by
  have hreturned : Returned st (st.answered (.result 0 0)) calls := by
    rcases Answered.of_frames hframes hcall (.result 0 0) with
      hanswered | ⟨_, ⟨error, hrefuse⟩ | ⟨c, result, error, rfl⟩⟩
    · exact hanswered.returned
    · cases hrefuse
    · cases hf
  exact work_lt_of_callWork hreturned.lists hdone (hreturned.callWork hframes hf)

theorem work_lt_completed (hframes : st.frames = .completing c result error :: calls)
    (hdone : KeepsDone st st.completed) : st.completed.work < st.work := by
  have hstep : st.completed = { st.modify c (·.complete result error) with frames := calls } := by
    rw [CommandOwner.completed, hframes]
  rw [hstep] at hdone ⊢
  refine work_lt_of_callWork ((SameLists.modify _ _ _).trans (.setFrames _ _)) hdone ?_
  show (calls.map Frame.work).sum < st.callWork
  rw [callWork, hframes, map_cons, sum_cons, Frame.work]
  omega

theorem callWork_nil (h : st.frames = []) : st.callWork = 0 := by
  rw [callWork, h]
  rfl

/-- The lists and the calls open after a command has been started. -/
theorem start_lists (hframes : st.frames = []) (c : Nat) (rest : List Nat) (expired armed : Bool) :
    SameLists (st.taken c rest) (st.start c rest expired armed) ∧
      (st.start c rest expired armed).callWork ≤ 2 := by
  have hnone : ∀ {st' : CommandOwner}, st'.frames = st.frames → st'.callWork ≤ 2 := by
    intro st' hsame
    rw [callWork_nil (hsame.trans hframes)]
    omega
  rw [CommandOwner.start]
  split_ifs
  · exact ⟨.cancelLocal _ _ _, hnone (cancelLocal_frames _ _ _)⟩
  · exact ⟨.cancelLocal _ _ _, hnone (cancelLocal_frames _ _ _)⟩
  · exact ⟨.modify _ _ _, hnone rfl⟩
  · refine ⟨(SameLists.modify (st.taken c rest) c _).trans (.setFrames _ _), ?_⟩
    rw [callWork, hframes]
    exact Nat.le_refl 2

theorem work_lt_start (hframes : st.frames = []) (hbatch : st.batch = c :: rest)
    {expired armed : Bool} (hdone : KeepsDone st (st.start c rest expired armed)) :
    (st.start c rest expired armed).work < st.work := by
  obtain ⟨hlists, hcalls⟩ := start_lists hframes c rest expired armed
  have hactive := hdone.sum st.active
  have hone := (((st.start c rest expired armed).cmd c).work_pos).2
  have hnew : (st.start c rest expired armed).active = c :: st.active := hlists.active
  have hsum : (st.start c rest expired armed).activeWork ≤ 2 + st.activeWork := by
    rw [activeWork, activeWork, hnew, map_cons, sum_cons]
    omega
  simp only [work, hlists.closeRing, hlists.commandRing, hlists.batch, hlists.control,
    hlists.cancel, hlists.pc, callWork_nil hframes]
  simp only [taken, CommandOwner.modify, hbatch, length_cons]
  omega

theorem work_lt_shutdown (hpc : st.pc = .polling) : (st.step .shutdown).work < st.work := by
  have hsame : (st.step .shutdown).callWork = st.callWork ∧
      (st.step .shutdown).activeWork = st.activeWork := ⟨rfl, rfl⟩
  simp only [work, hsame, hpc]
  simp only [CommandOwner.step, OwnerPc.work, length_nil]
  omega

/-- The owner has gone on in its lists, and the active commands have not become more work. -/
theorem work_lt_of_lists (hframes : st'.frames = st.frames) (hclose : st'.closeRing = st.closeRing)
    (hcommand : st'.commandRing = st.commandRing) (hbatch : st'.batch = st.batch)
    (hactive : st'.activeWork ≤ st.activeWork)
    (hpc : st'.control.length + st'.cancel.length + st'.pc.work <
      st.control.length + st.cancel.length + st.pc.work) : st'.work < st.work := by
  simp only [work, callWork, hframes, hclose, hcommand, hbatch]
  omega

theorem KeepsDone.activeWork (h : KeepsDone st st') (hactive : st'.active.Sublist st.active) :
    st'.activeWork ≤ st.activeWork := by
  calc st'.activeWork ≤ (st'.active.map fun c => (st.cmd c).work).sum := h.sum st'.active
    _ ≤ st.activeWork := (hactive.map _).sum_le_sum fun _ _ => zero_le

/-- The same after a command has been cancelled. -/
theorem work_lt_cancelLocal {pc : OwnerPc}
    (hdone : KeepsDone st { st.cancelLocal c error with pc := pc }) (hpc : pc.work < st.pc.work) :
    ({ st.cancelLocal c error with pc := pc } : CommandOwner).work < st.work := by
  have hlists := SameLists.cancelLocal st c error
  refine work_lt_of_lists (cancelLocal_frames st c error) hlists.closeRing hlists.commandRing
    hlists.batch (hdone.activeWork ?_) ?_
  · show (st.cancelLocal c error).active.Sublist st.active
    rw [hlists.active]
  · show (st.cancelLocal c error).control.length + (st.cancelLocal c error).cancel.length +
      pc.work < _
    rw [hlists.control, hlists.cancel]
    omega

/-- A command that is cancelled ends with the error, and nothing has been carried out for it. -/
theorem cancelLocal_ends (error : Nat) (hopen : (st.cmd c).done = false) :
    ((st.cancelLocal c error).cmd c).done = true ∧ ((st.cancelLocal c error).cmd c).result = -1 ∧
      ((st.cancelLocal c error).cmd c).error = error ∧
      ((st.cancelLocal c error).cmd c).effects = (st.cmd c).effects := by
  have hnot : ¬(st.cmd c).done = true := by simp [hopen]
  rw [CommandOwner.cancelLocal, if_neg hnot]
  split <;> rw [modify_cmd_self, SockCmd.complete, if_neg (by exact hnot)] <;>
    exact ⟨rfl, rfl, rfl, rfl⟩

theorem work_lt_stopActive (hactive : st.active = c :: rest) (hopen : (st.cmd c).done = false)
    (hdone : KeepsDone st (st.cancelLocal c error)) : (st.cancelLocal c error).work < st.work := by
  have hlists := SameLists.cancelLocal st c error
  have hrest := hdone.sum rest
  have hold : (st.cmd c).work = 2 := by
    rw [SockCmd.work, hopen]
    rfl
  have hnew : ((st.cancelLocal c error).cmd c).work = 1 := by
    rw [SockCmd.work, (cancelLocal_ends error hopen).1]
    rfl
  have hless : (st.cancelLocal c error).activeWork < st.activeWork := by
    rw [activeWork, activeWork, hlists.active, hactive, map_cons,
      map_cons, sum_cons, sum_cons, hold, hnew]
    omega
  simp only [work, callWork, cancelLocal_frames, hlists.closeRing,
    hlists.commandRing, hlists.batch, hlists.control, hlists.cancel, hlists.pc]
  omega

theorem work_lt_advance (hbatch : st.batch = []) (hpolling : st.pc ≠ .polling)
    (hstopped : st.pc ≠ .stopped) (hdone : KeepsDone st st.advance) : st.advance.work < st.work := by
  have hrefl : st.active.Sublist st.active := List.Sublist.refl _
  rw [CommandOwner.advance.eq_def] at hdone ⊢
  split at hdone <;> rename_i hpc
  case h_1 =>
    rw [CommandOwner.handleCancel] at hdone ⊢
    split_ifs at hdone ⊢
    · exact work_lt_of_lists rfl rfl rfl rfl (hdone.activeWork hrefl)
        (by simp only [hpc, OwnerPc.work]; omega)
    · exact work_lt_cancelLocal hdone (by simp only [hpc, OwnerPc.work]; omega)
  case h_3 =>
    rw [nextControl] at hdone ⊢
    split at hdone
    · rw [if_pos ‹_›]
      refine work_lt_of_lists rfl rfl rfl rfl (hdone.activeWork hrefl) ?_
      simp only [hpc, OwnerPc.work, length_cons]
      omega
    · rw [if_neg ‹_›]
      refine work_lt_cancelLocal hdone ?_
      simp only [hpc, OwnerPc.work, length_cons]
      omega
  case h_5 =>
    refine work_lt_of_lists rfl rfl rfl rfl (hdone.activeWork erase_sublist) ?_
    simp only [CommandOwner.modify, hpc, OwnerPc.work]
    omega
  case h_7 =>
    split at hdone
    · rename_i c rest hring
      have hactive := hdone.activeWork hrefl
      simp only [work, callWork, CommandOwner.modify, hring, hbatch,
        length_cons, length_nil] at hactive ⊢
      omega
    · rename_i c rest hclose hring
      have hactive := hdone.activeWork hrefl
      simp only [work, callWork, CommandOwner.modify, hclose, hring, hbatch,
        length_cons, length_nil] at hactive ⊢
      omega
    · refine work_lt_of_lists rfl rfl rfl rfl (hdone.activeWork hrefl) ?_
      simp only [hpc, OwnerPc.work]
      omega
  case h_8 =>
    split at hdone
    · refine work_lt_of_lists rfl rfl rfl rfl (hdone.activeWork hrefl) ?_
      simp only [hpc, OwnerPc.work]
      omega
    · rename_i c rest hactive
      split at hdone
      · rw [if_pos ‹_›]
        have hrest := hdone.sum rest
        have hone := (st.cmd c).work_pos.1
        simp only [work, callWork, activeWork,
          CommandOwner.modify, hactive, map_cons, sum_cons] at hrest ⊢
        omega
      · rename_i hopen
        rw [if_neg hopen]
        exact work_lt_stopActive hactive (by simpa using hopen) hdone
  case h_13 => exact absurd hpc hpolling
  case h_14 => exact absurd hpc hstopped
  all_goals
    refine work_lt_of_lists rfl rfl rfl rfl (hdone.activeWork hrefl) ?_
    simp only [CommandOwner.modify, hpc, OwnerPc.work, length_cons, length_nil, length_append]
    omega

/-- The next event of an owner that is to shut down can happen, and leaves it less to do. -/
theorem CommandOwner.Inv.next (h : st.Inv) (hstopped : st.pc ≠ .stopped) :
    st.enabled st.next ∧ (st.step st.next).work < st.work := by
  rw [CommandOwner.next]
  split
  · rename_i c result error calls hframes
    have hen : st.enabled .completed := by
      show st.frames ≠ []
      rw [hframes]
      exact nofun
    exact ⟨hen, work_lt_completed hframes (h.keepsDone hen)⟩
  · rename_i f calls hnot hframes
    have hen : st.enabled (.answered (.result 0 0)) := by
      show st.frames ≠ []
      rw [hframes]
      exact nofun
    have hf : f.work = 2 := by
      cases f with
      | completing c result error => exact absurd rfl (hnot c result error)
      | _ => rfl
    have hcall := h.nested.calls f (by rw [hframes]; exact mem_cons_self)
    exact ⟨hen, work_lt_answered hframes hcall hf (h.keepsDone hen)⟩
  · rename_i c rest hframes hbatch
    have hen : st.enabled (.start false true) := by
      refine ⟨hframes, ?_⟩
      rw [hbatch]
      exact nofun
    have hdone := h.keepsDone hen
    have hstep : st.step (.start false true) = st.start c rest false true := by
      rw [CommandOwner.step, hbatch]
    rw [hstep] at hdone ⊢
    exact ⟨hen, work_lt_start hframes hbatch hdone⟩
  · rename_i hframes hbatch hpc
    exact ⟨⟨⟨hframes, hbatch⟩, hpc⟩, work_lt_shutdown hpc⟩
  · rename_i hframes hbatch hpolling
    have hen : st.enabled .advance := ⟨hframes, hbatch⟩
    exact ⟨hen, work_lt_advance hbatch hpolling hstopped (h.keepsDone hen)⟩

/-- Every owner can be shut down. -/
theorem CommandOwner.Inv.shuts_down (h : st.Inv) :
    ∃ events, commandSystem.Admissible (fun _ _ => True) st events ∧
      (commandSystem.run st events).pc = .stopped := by
  -- on the work left; the owner's next event leaves less
  induction hwork : st.work using Nat.strong_induction_on generalizing st with
  | _ n ih =>
    by_cases hstopped : st.pc = .stopped
    · exact ⟨[], trivial, hstopped⟩
    · obtain ⟨hen, hless⟩ := h.next hstopped
      obtain ⟨events, hadmissible, hend⟩ := ih _ (hwork ▸ hless) (h.step hen) rfl
      exact ⟨st.next :: events, ⟨hen, trivial, hadmissible⟩, hend⟩

end Work

section Outcome

variable {st : CommandOwner} {c : Nat} {l : Life}

/-- The number of holders of a command: its caller, the owner with the caller's reference, a ring or
burst, the list of active commands, and a notification of its cancellation. -/
def CommandOwner.holders (st : CommandOwner) (c : Nat) : Nat :=
  (st.cmd c).caller.held +
    (st.control ++ st.pc.listed ++ st.pc.reapingNow ++ st.pc.reapedNow ++ st.pc.detached).count c +
    (st.closeRing ++ st.commandRing ++ st.batch).count c + st.active.count c +
    (st.cancel ++ st.pc.notices).count c

theorem Transfer.held_eq (t : Transfer) :
    t.at .listed + t.at .reaping + t.at .reaped + t.at .detached = t.held := by
  cases t <;> rfl

theorem Sim.holders (h : Sim st c l) : st.holders c = l.holders := by
  have htransfer := l.transfer.held_eq
  have hring := h.ring
  have hlisted := h.listed
  have hreaping := h.reaping
  have hreaped := h.reaped
  have hdetached := h.detached
  have hnotice := h.notice
  simp only [CommandOwner.holders, Life.holders, count_append, h.cmd, h.active]
  omega

/-- Where a command is that was submitted and is not done: in a ring or burst, in an open call, or in
a queue of its socket. -/
def CommandOwner.Pending (st : CommandOwner) (c : Nat) : Prop :=
  c ∈ st.closeRing ++ st.commandRing ++ st.batch ∨ (∃ f ∈ st.frames, f.cmd = c) ∨
    ∃ w, st.sockets (st.cmd c).handle = some w ∧ c ∈ w.all

/-- The transport may be carrying the command out. -/
def CommandOwner.InTransport (st : CommandOwner) (c : Nat) : Prop :=
  ∃ f ∈ st.frames, f.cmd = c ∧ f.place.inTransport = true

/-- The owner finds that the deadline of the command has passed: when it starts the command, or by
its timer. -/
def CommandOwner.Expires (st : CommandOwner) (c : Nat) : CmdEvent → Prop
  | .start true _ => (∃ rest, st.batch = c :: rest) ∧ (st.cmd c).deadline = true
  | .timeout i => i = c
  | _ => False

/-- A command whose deadline has passed ends there, and the transport is not called for it. -/
theorem CommandOwner.Expires.ends {e : CmdEvent} (h : st.Expires c e) (hen : st.enabled e)
    (hopen : (st.cmd c).done = false) :
    (((st.step e).cmd c).done = true ∧ ((st.step e).cmd c).result = -1 ∧
      ((st.cmd c).cancelError = 0 → ((st.step e).cmd c).error = etimedout) ∧
      ((st.step e).cmd c).effects = (st.cmd c).effects) ∧ (st.step e).frames = [] := by
  cases e with
  | timeout i =>
    obtain rfl : i = c := h
    obtain ⟨hdone, hresult, herror, heffects⟩ := cancelLocal_ends etimedout hopen
    exact ⟨⟨hdone, hresult, fun _ => herror, heffects⟩,
      (cancelLocal_frames _ _ _).trans hen.1.1.1⟩
  | start expired armed =>
    cases expired with
    | false => exact h.elim
    | true =>
      obtain ⟨⟨rest, hbatch⟩, hdeadline⟩ := h
      rw [CommandOwner.step, hbatch]
      dsimp only
      rw [CommandOwner.start]
      dsimp only
      -- the command is marked as running and joins the active ones before its deadline is checked
      generalize hst' : ({ st.modify c fun cmd => { cmd with state := .running } with
        batch := rest, active := c :: st.active } : CommandOwner) = st'
      have hcmd : st'.cmd c = { st.cmd c with state := .running } := by
        rw [← hst']
        exact if_pos rfl
      have hframes : st'.frames = [] := by
        rw [← hst']
        exact hen.1
      have hopen' : (st'.cmd c).done = false := by rw [hcmd]; exact hopen
      split_ifs with hcancelled hexpired
      · obtain ⟨hdone, hresult, _, heffects⟩ := cancelLocal_ends (st.cmd c).cancelError hopen'
        exact ⟨⟨hdone, hresult, fun hnone => absurd hnone hcancelled, by rw [heffects, hcmd]⟩,
          (cancelLocal_frames _ _ _).trans hframes⟩
      · obtain ⟨hdone, hresult, herror, heffects⟩ := cancelLocal_ends etimedout hopen'
        exact ⟨⟨hdone, hresult, fun _ => herror, by rw [heffects, hcmd]⟩,
          (cancelLocal_frames _ _ _).trans hframes⟩
      · exact absurd (by simp [hdeadline]) hexpired
      · exact absurd (by simp [hdeadline]) hexpired
  | _ => exact h.elim

theorem Sim.calls_mem (h : Sim st c l) {place : Place} (hcalls : place ∈ l.place.calls) :
    ∃ f ∈ st.frames, f.cmd = c ∧ f.place = place := by
  rw [← h.calls] at hcalls
  obtain ⟨f, hf, hplace⟩ := mem_map.mp hcalls
  obtain ⟨hin, hcmd⟩ := mem_filter.mp hf
  exact ⟨f, hin, by simpa using hcmd, hplace⟩

theorem Sim.pending (h : Sim st c l) (hmarks : l.place.Marks l.cmd)
    (hsubmitted : (st.cmd c).submitted = true) (hopen : (st.cmd c).done = false) : st.Pending c := by
  rw [h.cmd] at hsubmitted hopen
  have hring := h.ring
  have hwaits := h.waits l.cmd.handle
  rw [if_pos rfl] at hwaits
  have hcall : ∀ {place : Place}, place ∈ l.place.calls → st.Pending c := by
    intro place hplace
    obtain ⟨f, hf, hcmd, _⟩ := h.calls_mem hplace
    exact .inr (.inl ⟨f, hf, hcmd⟩)
  cases hplace : l.place with
  | unborn | caller =>
    rw [hplace] at hmarks
    cases hmarks.2.1.symm.trans hsubmitted
  | finished =>
    rw [hplace] at hmarks
    cases hopen.symm.trans hmarks.1
  | queued =>
    refine .inl (count_pos_iff.mp ?_)
    rw [count_append, count_append, hring, hplace]
    exact Nat.one_pos
  | parked =>
    rw [hplace] at hwaits
    refine .inr (.inr ?_)
    rw [h.cmd]
    cases hs : st.sockets l.cmd.handle with
    | none =>
      rw [hs] at hwaits
      cases hwaits
    | some w =>
      rw [hs] at hwaits
      refine ⟨w, rfl, count_pos_iff.mp ?_⟩
      rw [show w.all.count c = 1 from hwaits]
      exact Nat.one_pos
  | running | trying | completing result error =>
    exact hcall (by rw [hplace]; exact mem_singleton_self _)

theorem Sim.inTransport (h : Sim st c l) (hnot : ¬ st.InTransport c) :
    l.place.inTransport = false := by
  by_contra htrue
  rw [Bool.not_eq_false] at htrue
  have hin : l.place ∈ l.place.calls := by
    cases hplace : l.place <;> rw [hplace] at htrue <;>
      first | exact mem_singleton_self _ | exact absurd htrue (by decide)
  obtain ⟨f, hf, hcmd, hplace⟩ := h.calls_mem hin
  exact hnot ⟨f, hf, hcmd, by rw [hplace]; exact htrue⟩

/-- A command that was submitted and that its owner does not hold is done. -/
theorem Life.Inv.finished_of_idle (h : l.Inv) (hsubmitted : l.cmd.submitted = true)
    (hring : l.place ≠ .queued) (hactive : l.active = false) : l.place = .finished := by
  have hmarks := h.marks
  cases hplace : l.place with
  | finished => rfl
  | unborn | caller =>
    rw [hplace] at hmarks
    cases hmarks.2.1.symm.trans hsubmitted
  | queued => exact absurd hplace hring
  | _ =>
    have hwork := h.arranged.atWork (by rw [hplace]; rfl)
    cases hactive.symm.trans hwork.2.1

/-- A shutdown that is through has completed every command submitted. -/
theorem Sim.stopped (h : Sim st c l) (hinv : l.Inv) (hphase : st.Phase) (hpc : st.pc = .stopped)
    (hsubmitted : l.cmd.submitted = true) : l.place = .finished := by
  rw [CommandOwner.Phase, hpc] at hphase
  obtain ⟨_, ⟨hclose, hcommand, hbatch⟩, hactive⟩ := hphase
  have hring := h.ring
  have hcount := h.active
  rw [hclose, hcommand, hbatch] at hring
  rw [hactive] at hcount
  refine hinv.finished_of_idle hsubmitted (fun hplace => ?_) ?_
  · rw [hplace] at hring
    cases hring
  · cases hl : l.active with
    | false => rfl
    | true =>
      rw [hl] at hcount
      cases hcount

/-- The events of an owner are a run in the life of each command. -/
theorem CommandOwner.Inv.lives_run (h : st.Inv) {events : List CmdEvent}
    (hrun : commandSystem.Admissible (fun _ _ => True) st events) (hinv : l.Inv)
    (hsim : Sim st c l) :
    (commandSystem.run st events).Inv ∧
      ∃ l', Relation.ReflTransGen LifeStep l l' ∧ Sim (commandSystem.run st events) c l' := by
  induction events generalizing st l with
  | nil => exact ⟨h, l, .refl, hsim⟩
  | cons e rest ih =>
    obtain ⟨hen, _, hrest⟩ := hrun
    obtain ⟨l', hfirst, hsim'⟩ := h.lives_step hen c hinv hsim
    obtain ⟨hend, l'', hlast, hsim''⟩ := ih (h.step hen) hrest (hinv.run hfirst) hsim'
    exact ⟨hend, l'', hfirst.trans hlast, hsim''⟩

theorem Life.Inv.completions (h : l.Inv) :
    l.cmd.completions ≤ 1 ∧ (l.cmd.done = true ↔ l.cmd.completions = 1) := by
  have hmarks := h.marks
  cases hplace : l.place with
  | finished | completing result error =>
    rw [hplace] at hmarks
    simp [hmarks.1, hmarks.2.1]
  | _ =>
    rw [hplace] at hmarks
    simp [hmarks.1.1, hmarks.1.2.1]

/-- A command without holders is done, if it was submitted. -/
theorem Life.Inv.finished_of_holders (h : l.Inv) (hsubmitted : l.cmd.submitted = true)
    (hnone : l.holders = 0) : l.place = .finished := by
  rw [Life.holders] at hnone
  refine h.finished_of_idle hsubmitted (fun hplace => ?_) (Bool.toNat_eq_zero.mp (by omega))
  rw [hplace, Place.held] at hnone
  omega

/-- What the transport answered is what the command answers, or will. -/
theorem Life.Inv.outcome (h : l.Inv) (houtcome : l.cmd.outcome = some (result, error)) :
    l.place = .finished ∧ l.cmd.result = result ∧ l.cmd.error = error ∨
      l.place = .completing result error ∧ l.cmd.done = false := by
  have hmarks := h.marks
  cases hplace : l.place with
  | finished =>
    rw [hplace] at hmarks
    have hsome := hmarks.2.2.1.resolve_left (by rw [houtcome]; exact nofun)
    obtain ⟨hresult, herror⟩ := Prod.mk.inj (Option.some.inj (houtcome.symm.trans hsome))
    exact .inl ⟨rfl, hresult.symm, herror.symm⟩
  | completing r e =>
    rw [hplace] at hmarks
    have hsome := hmarks.2.2.1.resolve_left (by rw [houtcome]; exact nofun)
    obtain ⟨rfl, rfl⟩ := Prod.mk.inj (Option.some.inj (houtcome.symm.trans hsome))
    exact .inr ⟨rfl, hmarks.1⟩
  | _ =>
    rw [hplace] at hmarks
    cases houtcome.symm.trans hmarks.1.2.2

theorem Frame.eq_completing (h : f.place = .completing result error) :
    f = .completing f.cmd result error := by
  cases f with
  | completing c r e =>
    obtain ⟨rfl, rfl⟩ := Place.completing.inj h
    rfl
  | _ => cases h

/-- A submitted command can always be completed: at the latest by a shutdown. -/
theorem CommandOwner.Inv.completable (h : st.Inv) (hsubmitted : (st.cmd c).submitted = true) :
    ∃ events, commandSystem.Admissible (fun _ _ => True) st events ∧
      ((commandSystem.run st events).cmd c).completions = 1 := by
  obtain ⟨l, hinv, hsim⟩ := h.lives c
  obtain ⟨events, hrun, hstopped⟩ := h.shuts_down
  obtain ⟨hend, l', hlife, hsim'⟩ := h.lives_run hrun hinv hsim
  rw [hsim.cmd] at hsubmitted
  have hinv' := hinv.run hlife
  have hplace := hsim'.stopped hinv' hend.phase hstopped
    ((LifeStep.lasting_run hlife hinv).2 hsubmitted)
  have hmarks := hinv'.marks
  rw [hplace] at hmarks
  refine ⟨events, hrun, ?_⟩
  rw [hsim'.cmd]
  exact hmarks.2.1

/-- What was cancelled or completed outside a call of the transport is not carried out later. -/
theorem CommandOwner.Inv.effects_run (h : st.Inv)
    (hbar : (st.cmd c).done = true ∨ (st.cmd c).cancelError ≠ 0) (hnot : ¬ st.InTransport c)
    {events : List CmdEvent} (hrun : commandSystem.Admissible (fun _ _ => True) st events) :
    ((commandSystem.run st events).cmd c).effects = (st.cmd c).effects := by
  obtain ⟨l, hinv, hsim⟩ := h.lives c
  obtain ⟨_, l', hlife, hsim'⟩ := h.lives_run hrun hinv hsim
  rw [hsim.cmd] at hbar
  have hbarred : l.Barred := ⟨hbar, hsim.inTransport hnot⟩
  rw [hsim'.cmd, hsim.cmd]
  exact (hbarred.run hinv hlife).2

/-- The life of every command, in every run of callers, owner and transport.  It is completed at
most once, and a submitted one that is not done is still on its way: it can always be completed, and
is when the owner has stopped.  Its references are those of its holders, and it is freed, once, with
the last of them, after its completion if it was submitted.  What the transport answered for it is
what it answers.  Once it is done or cancelled, outside a call of the transport, the transport does
not carry it out any more.  A deadline that has passed when the command is started, or while it
waits, ends the command with `ETIMEDOUT` and nothing more is carried out for it. -/
theorem command_lifecycle (h : commandSystem.Reach (fun _ _ => True) st) (hc : c < st.count) :
    ((st.cmd c).completions ≤ 1 ∧ ((st.cmd c).done = true ↔ (st.cmd c).completions = 1)) ∧
    ((st.cmd c).submitted = true →
      ((st.cmd c).done = false → st.Pending c) ∧
      (st.pc = .stopped → (st.cmd c).completions = 1) ∧
      ∃ events, commandSystem.Admissible (fun _ _ => True) st events ∧
        ((commandSystem.run st events).cmd c).completions = 1) ∧
    ((st.cmd c).refs = st.holders c ∧
      (st.cmd c).freed = (if st.holders c = 0 then 1 else 0) ∧
      ((st.cmd c).submitted = true → (st.cmd c).freed = 1 → (st.cmd c).completions = 1)) ∧
    (∀ result error, (st.cmd c).outcome = some (result, error) →
      (st.cmd c).done = true ∧ (st.cmd c).result = result ∧ (st.cmd c).error = error ∨
      (st.cmd c).done = false ∧ Frame.completing c result error ∈ st.frames) ∧
    ((st.cmd c).done = true ∨ (st.cmd c).cancelError ≠ 0 → ¬ st.InTransport c →
      ∀ events, commandSystem.Admissible (fun _ _ => True) st events →
        ((commandSystem.run st events).cmd c).effects = (st.cmd c).effects) ∧
    (∀ e, st.enabled e → st.Expires c e → (st.cmd c).done = false →
      ((st.step e).cmd c).done = true ∧ ((st.step e).cmd c).result = -1 ∧
      ((st.cmd c).cancelError = 0 → ((st.step e).cmd c).error = etimedout) ∧
      ∀ events, commandSystem.Admissible (fun _ _ => True) (st.step e) events →
        ((commandSystem.run (st.step e) events).cmd c).effects = (st.cmd c).effects) := by
  have howner := reach_inv h
  obtain ⟨l, hinv, hsim⟩ := howner.lives c
  have hborn := hsim.born.mp hc
  have hrefs : (st.cmd c).refs = st.holders c := by
    rw [hsim.holders, hsim.cmd]
    exact hinv.counted.refs
  have hfreed : (st.cmd c).freed = if st.holders c = 0 then 1 else 0 := by
    have hcount := hinv.counted.freed
    rw [← hsim.cmd, hrefs] at hcount
    rw [hcount]
    simp only [hborn, ne_eq, not_false_eq_true, and_true]
  refine ⟨?_, fun hsubmitted => ⟨hsim.pending hinv.marks hsubmitted, fun hpc => ?_,
    howner.completable hsubmitted⟩, ⟨hrefs, hfreed, fun hsubmitted hone => ?_⟩,
    fun result error houtcome => ?_, fun hbar hnot events hrun => howner.effects_run hbar hnot hrun,
    fun e hen hexpires hopen => ?_⟩
  · rw [hsim.cmd]
    exact hinv.completions
  · rw [hsim.cmd] at hsubmitted ⊢
    have hmarks := hinv.marks
    rw [hsim.stopped hinv howner.phase hpc hsubmitted] at hmarks
    exact hmarks.2.1
  · have hnone : l.holders = 0 := by
      rw [← hsim.holders]
      by_contra hheld
      rw [if_neg hheld] at hfreed
      omega
    rw [hsim.cmd] at hsubmitted ⊢
    have hmarks := hinv.marks
    rw [hinv.finished_of_holders hsubmitted hnone] at hmarks
    exact hmarks.2.1
  · rw [hsim.cmd] at houtcome ⊢
    rcases hinv.outcome houtcome with ⟨hplace, hresult, herror⟩ | ⟨hplace, hopen⟩
    · have hmarks := hinv.marks
      rw [hplace] at hmarks
      exact .inl ⟨hmarks.1, hresult, herror⟩
    · have hcall : Place.completing result error ∈ l.place.calls := by
        rw [hplace]
        exact mem_singleton_self _
      obtain ⟨f, hf, hcmd, hfplace⟩ := hsim.calls_mem hcall
      rw [Frame.eq_completing hfplace, hcmd] at hf
      exact .inr ⟨hopen, hf⟩
  · obtain ⟨⟨hdone, hresult, herror, heffects⟩, hframes⟩ := hexpires.ends hen hopen
    refine ⟨hdone, hresult, herror, fun events hrun => ?_⟩
    rw [← heffects]
    refine (howner.step hen).effects_run (.inl hdone) ?_ hrun
    rintro ⟨f, hf, _⟩
    rw [hframes] at hf
    cases hf

/-- Three commands are submitted and taken in one burst; the second was cancelled before. -/
def takenBurst : CommandOwner :=
  commandSystem.run {}
    [.call .send 5 false false true, .submit 0 false, .call .create 0 false false false,
      .submit 1 false, .call .create 0 false false false, .submit 2 false,
      .requestCancel 1 0 false, .notifyCancel 1, .dequeue false]

/-- The rest of the burst behind the first command, and the release and the reaping of that one. -/
def burstServed : List CmdEvent :=
  [.start false true, .start false true, .answered (.result 3 0), .completed, .observe 0, .leave 0,
    .release 0, .takeControls, .advance, .advance, .advance, .advance]

/-- The deadline of the first command has passed when the owner comes to it, the second is found
cancelled, the third is carried out; the first is then released and freed. -/
theorem command_lifecycle_expired :
    ∃ st : CommandOwner, (st.cmd 0).error = etimedout ∧ (st.cmd 0).effects = 0 ∧
      (st.cmd 0).freed = 1 ∧ (st.cmd 1).error = ecanceled ∧ (st.cmd 1).effects = 0 ∧
      (st.cmd 2).result = 3 ∧ (st.cmd 2).effects = 1 := by
  have hreach : commandSystem.Reach (fun _ _ => True) takenBurst :=
    Lib.System.Reach.run (.init rfl) ⟨trivial, trivial, ⟨by decide, rfl⟩, trivial, trivial, trivial,
      ⟨by decide, rfl⟩, trivial, trivial, trivial, ⟨by decide, rfl⟩, trivial, ⟨by decide, rfl⟩,
      trivial, ⟨by decide, false, rfl⟩, trivial, ⟨⟨rfl, rfl⟩, rfl⟩, trivial, trivial⟩
  have hstart : commandSystem.enabled takenBurst (.start true true) :=
    ⟨by decide +kernel, by decide +kernel⟩
  have hcalled : ∀ {st : CommandOwner}, st.frames ≠ [] → st.frames ≠ [] := id
  have hrest : commandSystem.Admissible (fun _ _ => True) (takenBurst.step (.start true true))
      burstServed := by
    refine ⟨⟨?_, ?_⟩, trivial, ⟨?_, ?_⟩, trivial, hcalled ?_, trivial, hcalled ?_, trivial,
      ⟨?_, ?_, ?_⟩, trivial, ⟨?_, ?_⟩, trivial, ⟨?_, ?_⟩, trivial, ⟨⟨?_, ?_⟩, ?_⟩, trivial,
      ⟨?_, ?_⟩, trivial, ⟨?_, ?_⟩, trivial, ⟨?_, ?_⟩, trivial, ⟨?_, ?_⟩, trivial, trivial⟩ <;>
      decide +kernel
  have hreach' : commandSystem.Reach (fun _ _ => True) (takenBurst.step (.start true true)) :=
    hreach.step hstart trivial
  have hexpires : takenBurst.Expires 0 (.start true true) :=
    ⟨⟨[1, 2], by decide +kernel⟩, by decide +kernel⟩
  obtain ⟨_, _, _, hexpired⟩ := (command_lifecycle (c := 0) hreach (by decide +kernel)).2.2.2.2.2
    (.start true true) hstart hexpires (by decide +kernel)
  have hcancelled := (command_lifecycle (c := 1) hreach' (by decide +kernel)).2.2.2.2.1
    (.inr (by decide +kernel)) (by rintro ⟨f, hf, _⟩; cases hf) burstServed hrest
  have hfreed := (command_lifecycle (c := 0) (hreach'.run hrest) (by decide +kernel)).2.2.1.2.1
  refine ⟨_, by decide +kernel, (hexpired _ hrest).trans (by decide +kernel),
    hfreed.trans (if_pos (by decide +kernel)), by decide +kernel,
    hcancelled.trans (by decide +kernel), by decide +kernel, by decide +kernel⟩

end Outcome

end SnowTG.Owner
