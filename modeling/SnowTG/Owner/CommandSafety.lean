import SnowTG.Owner.CommandLoop

/-!
# What every run of an owner keeps

The open calls of an owner are nested as the transport nests them, and a shutdown goes
through its phases in order.  With the lives of the commands this is an invariant of
every run, and the properties of a life become properties of the owner's commands.
-/

namespace SnowTG.Owner

open List

section Calls

variable {st st' : CommandOwner} {c s : Nat} {calls : List Frame}

/-- The step has left every socket there. -/
def KeepsSockets (st st' : CommandOwner) : Prop := ∀ i, st.sockets i ≠ none → st'.sockets i ≠ none

theorem KeepsSockets.refl (st : CommandOwner) : KeepsSockets st st := fun _ h => h

theorem KeepsSockets.setSocket (st : CommandOwner) (s : Nat) (w : SockWaits) :
    KeepsSockets st (st.setSocket s (some w)) := by
  intro i hi
  show (if i = s then some w else st.sockets i) ≠ none
  split_ifs
  · exact nofun
  · exact hi

/-- The call on top has returned, or its command is completed next. -/
structure Returned (st st' : CommandOwner) (calls : List Frame) : Prop where
  lists : SameLists st st'
  sockets : KeepsSockets st st'
  frames : st'.frames = calls ∨ ∃ c result error, st'.frames = .completing c result error :: calls

theorem Returned.reject (c error : Nat) : Returned st (st.reject c calls error) calls :=
  ⟨.setFrames _ _, .refl st, .inr ⟨c, -1, error, rfl⟩⟩

theorem Returned.finish (c : Nat) (value : Int) (errno : Nat) :
    Returned st (st.finish c calls value errno) calls :=
  ⟨(SameLists.modify _ _ _).trans (.setFrames _ _), .refl st, .inr ⟨c, value, _, rfl⟩⟩

theorem Returned.finishAfter (s : Nat) (w : SockWaits) (c : Nat) (value : Int) (errno : Nat) :
    Returned st ((st.setSocket s (some w)).finish c calls value errno) calls :=
  ⟨(SameLists.setSocket _ _ _).trans (Returned.finish c value errno).lists, .setSocket st s w,
    .inr ⟨c, value, _, rfl⟩⟩

theorem Returned.park (c s : Nat) (w : SockWaits) (effects : Nat) :
    Returned st (st.park c s w calls effects) calls :=
  ⟨(SameLists.setSocket _ _ _).trans ((SameLists.modify _ _ _).trans (.setFrames _ _)),
    .setSocket st s w, .inl rfl⟩

theorem Returned.stay : Returned st { st with frames := calls } calls :=
  ⟨.setFrames _ _, .refl st, .inl rfl⟩

theorem Answered.returned {f : Frame} (h : Answered st f calls st') : Returned st st' calls := by
  cases h with
  | reject htop error => exact .reject f.cmd error
  | finish htop value errno => exact .finish f.cmd value errno
  | park htop hs hhandle hadds effects => exact .park f.cmd _ _ effects
  | close htop hs value errno => exact .finishAfter _ _ f.cmd value errno
  | unqueue htop hs hhandle hadds value errno => exact .finishAfter _ _ f.cmd value errno
  | stay htop => exact .stay

theorem completed_returned (st : CommandOwner) :
    st.completed = st ∨ ∃ f calls, st.frames = f :: calls ∧ Returned st st.completed calls := by
  rw [CommandOwner.completed]
  split
  · rename_i c result error calls hframes
    exact .inr ⟨_, calls, hframes, (SameLists.modify _ _ _).trans (.setFrames _ _), .refl st,
      .inl rfl⟩
  · exact .inl rfl

end Calls

section Turns

variable {st st' : CommandOwner} {c s : Nat}

/-- A turn of the owner that is not an answer to an open call, and that may open one. -/
structure Turned (st st' : CommandOwner) : Prop where
  lists : SameLists st st'
  sockets : KeepsSockets st st'
  frames : st'.frames = st.frames ∨ ∃ f, st'.frames = f :: st.frames ∧ f.Inv st'

theorem Turned.refl (st : CommandOwner) : Turned st st :=
  ⟨⟨rfl, rfl, rfl, rfl, rfl, rfl, rfl, rfl, rfl⟩, .refl st, .inl rfl⟩

theorem cancelLocal_frames (st : CommandOwner) (c error : Nat) :
    (st.cancelLocal c error).frames = st.frames := by
  rw [CommandOwner.cancelLocal]
  split_ifs
  · rfl
  · split <;> rfl

theorem cancelLocal_sockets (st : CommandOwner) (c error : Nat) :
    KeepsSockets st (st.cancelLocal c error) := by
  rw [CommandOwner.cancelLocal]
  split_ifs
  · exact .refl st
  · split
    · exact .refl st
    · exact .setSocket st _ _

theorem Turned.cancelLocal (st : CommandOwner) (c error : Nat) :
    Turned st (st.cancelLocal c error) :=
  ⟨.cancelLocal st c error, cancelLocal_sockets st c error, .inl (cancelLocal_frames st c error)⟩

/-- The commands in the queues of a socket are commands for this socket. -/
def QueuesOwn (st : CommandOwner) : Prop :=
  ∀ s w, st.sockets s = some w → ∀ c ∈ w.all, (st.cmd c).handle = s

theorem Turned.wakeRecv (hown : QueuesOwn st) (s : Nat) : Turned st (st.wakeRecv s) := by
  rw [CommandOwner.wakeRecv]
  split
  · exact .refl st
  · rename_i w hs
    split
    · exact .refl st
    · rename_i c rest hqueue
      have hhandle := hown s w hs c (by simp [SockWaits.all, hqueue])
      have hset := KeepsSockets.setSocket st s { w with recvWait := rest }
      simp only
      split_ifs
      · refine ⟨(SameLists.setSocket _ _ _).trans (.cancelLocal _ _ _), fun i hi => ?_, .inl ?_⟩
        · exact cancelLocal_sockets _ _ _ i (hset i hi)
        · exact cancelLocal_frames _ _ _
      · refine ⟨(SameLists.setSocket _ _ _).trans ((SameLists.modify _ _ _).trans (.setFrames _ _)),
          hset, .inr ⟨_, rfl, ?_, hset s (by simp [hs])⟩⟩
        show (if c = c then { st.cmd c with state := CmdState.running } else st.cmd c).handle = s
        rw [if_pos rfl]
        exact hhandle

/-- A turn that tries the command at the head of a queue, if it has not been cancelled. -/
theorem Turned.attempt {f : Frame} (c : Nat) (hf : f.Inv st) :
    Turned st (if (st.cmd c).cancelError ≠ 0 then st.cancelLocal c (st.cmd c).cancelError
      else { st with frames := f :: st.frames }) := by
  split_ifs
  · exact .cancelLocal st c _
  · refine ⟨.setFrames _ _, .refl st, .inr ⟨f, rfl, ?_⟩⟩
    cases f <;> exact hf

theorem Turned.wakeSend (hown : QueuesOwn st) (s : Nat) : Turned st (st.wakeSend s) := by
  rw [CommandOwner.wakeSend]
  split
  · exact .refl st
  · rename_i w hs
    split
    · exact .refl st
    · rename_i c rest hqueue
      exact .attempt c ⟨hown s w hs c (by simp [SockWaits.all, hqueue]), w, rest, hs, hqueue⟩

theorem Turned.wakeAccept (hown : QueuesOwn st) (s : Nat) : Turned st (st.wakeAccept s) := by
  rw [CommandOwner.wakeAccept]
  split
  · exact .refl st
  · rename_i w hs
    split
    · exact .refl st
    · rename_i c rest hqueue
      exact .attempt c ⟨hown s w hs c (by simp [SockWaits.all, hqueue]), w, rest, hs, hqueue⟩

theorem Turned.completeConnect (s error : Nat) : Turned st (st.completeConnect s error) := by
  rw [CommandOwner.completeConnect]
  split
  · exact .refl st
  · split
    · exact .refl st
    · exact ⟨(SameLists.setSocket _ _ _).trans (.modify _ _ _), .setSocket st _ _, .inl rfl⟩

theorem Turned.abortWaiter (s error : Nat) : Turned st (st.abortWaiter s error) := by
  rw [CommandOwner.abortWaiter]
  split
  · exact .refl st
  · split
    · exact .refl st
    · exact ⟨(SameLists.setSocket _ _ _).trans (.modify _ _ _), .setSocket st _ _, .inl rfl⟩

theorem Turned.adopt (s : Nat) : Turned st (st.setSocket s (some {})) :=
  ⟨.setSocket _ _ _, .setSocket st _ _, .inl rfl⟩

end Turns

/-- The open calls are nested as the transport nests them, and each has what it relies on. -/
structure CommandOwner.Nested (st : CommandOwner) : Prop where
  calls : ∀ f ∈ st.frames, f.Inv st
  below : ∀ f ∈ st.frames.tail, f.nesting = true

section Nesting

variable {st st' : CommandOwner} {f : Frame} {calls : List Frame}

/-- The commands of the open calls are for the same sockets as before. -/
def KeepsHandles (st st' : CommandOwner) : Prop :=
  ∀ f ∈ st.frames, (st'.cmd f.cmd).handle = (st.cmd f.cmd).handle

theorem Frame.Inv.same (h : f.Inv st)
    (hhandle : (st'.cmd f.cmd).handle = (st.cmd f.cmd).handle) (hsockets : st'.sockets = st.sockets) :
    f.Inv st' := by
  cases f with
  | process c | completing c result error => trivial
  | receiving s c | sending s c | accepting s c =>
    exact ⟨hhandle.trans h.1, by rw [hsockets]; exact h.2⟩

theorem Frame.Inv.kept (h : f.Inv st) (hnesting : f.nesting = true)
    (hhandle : (st'.cmd f.cmd).handle = (st.cmd f.cmd).handle) (hsockets : KeepsSockets st st') :
    f.Inv st' := by
  cases f with
  | process c => trivial
  | receiving s c => exact ⟨hhandle.trans h.1, hsockets s h.2⟩
  | _ => cases hnesting

theorem CommandOwner.Nested.same (h : st.Nested) (hhandles : KeepsHandles st st')
    (hframes : st'.frames = st.frames) (hsockets : st'.sockets = st.sockets) : st'.Nested := by
  refine ⟨fun f hf => ?_, ?_⟩
  · rw [hframes] at hf
    exact (h.calls f hf).same (hhandles f hf) hsockets
  · rw [hframes]
    exact h.below

/-- The calls below the one that returned are as they were. -/
theorem CommandOwner.Nested.returned (h : st.Nested) (hhandles : KeepsHandles st st')
    (hframes : st.frames = f :: calls) (hreturned : Returned st st' calls) : st'.Nested := by
  have hbelow := h.below
  rw [hframes, tail_cons] at hbelow
  have hcalls : ∀ g ∈ calls, g.Inv st' := by
    intro g hg
    have hin : g ∈ st.frames := by
      rw [hframes]
      exact mem_cons_of_mem f hg
    exact (h.calls g hin).kept (hbelow g hg) (hhandles g hin) hreturned.sockets
  rcases hreturned.frames with hnext | ⟨c, result, error, hnext⟩
  · refine ⟨fun g hg => hcalls g (hnext ▸ hg), fun g hg => hbelow g ?_⟩
    rw [hnext] at hg
    exact mem_of_mem_tail hg
  · refine ⟨fun g hg => ?_, fun g hg => hbelow g ?_⟩
    · rw [hnext] at hg
      rcases mem_cons.mp hg with rfl | hg
      · trivial
      · exact hcalls g hg
    · rw [hnext] at hg
      exact hg

/-- A turn may open one more call, when those that are open nest. -/
theorem CommandOwner.Nested.turned (h : st.Nested) (hhandles : KeepsHandles st st')
    (hnests : st.nests = true) (hturned : Turned st st') : st'.Nested := by
  have hnesting := all_nesting hnests h.below
  have hcalls : ∀ g ∈ st.frames, g.Inv st' :=
    fun g hg => (h.calls g hg).kept (hnesting g hg) (hhandles g hg) hturned.sockets
  rcases hturned.frames with hframes | ⟨f, hframes, hf⟩
  · refine ⟨fun g hg => hcalls g (hframes ▸ hg), ?_⟩
    rw [hframes]
    exact h.below
  · refine ⟨fun g hg => ?_, fun g hg => hnesting g ?_⟩
    · rw [hframes] at hg
      rcases mem_cons.mp hg with rfl | hg
      · exact hf
      · exact hcalls g hg
    · rw [hframes] at hg
      exact hg

/-- A socket is retired when no open call goes on with it. -/
theorem CommandOwner.Nested.retire (h : st.Nested) {s : Nat} (hnests : st.nests = true)
    (hunused : st.Unused s) : (st.setSocket s none).Nested := by
  have hnesting := all_nesting hnests h.below
  refine ⟨fun g hg => ?_, h.below⟩
  have hinv := h.calls g hg
  have hnest := hnesting g hg
  cases g with
  | process c => trivial
  | receiving i c =>
    refine ⟨hinv.1, ?_⟩
    have hne : i ≠ s := by
      rintro rfl
      exact (hunused _ hg c).1 rfl
    show (if i = s then none else st.sockets i) ≠ none
    rw [if_neg hne]
    exact hinv.2
  | _ => cases hnest

end Nesting

variable {c : Nat}

section Phases

variable {st st' : CommandOwner}

theorem CommandOwner.Phase.same (h : st.Phase) (hpc : st'.pc = st.pc)
    (haccepting : st'.accepting = st.accepting) (hclose : st'.closeRing = st.closeRing)
    (hcommand : st'.commandRing = st.commandRing) (hbatch : st'.batch = st.batch)
    (hactive : st'.active = st.active) : st'.Phase := by
  simp only [Phase, Drained, hpc, haccepting, hclose, hcommand, hbatch, hactive]
  exact h

theorem CommandOwner.Phase.sameLists (h : st.Phase) (hlists : SameLists st st') : st'.Phase :=
  h.same hlists.pc hlists.accepting hlists.closeRing hlists.commandRing hlists.batch hlists.active

/-- An owner that accepts commands is not shutting down. -/
theorem CommandOwner.Phase.running (h : st.Phase) (haccepting : st.accepting = true)
    (hpc : st'.pc = st.pc) (haccepting' : st'.accepting = true) : st'.Phase := by
  rw [Phase] at h ⊢
  rw [hpc]
  split at h <;> simp_all

theorem CommandOwner.Phase.submit (h : st.Phase) (c : Nat) (full : Bool) : (st.submit c full).Phase := by
  rw [CommandOwner.submit]
  split_ifs with hstopped
  · exact h.sameLists (.modify _ _ _)
  · exact h.sameLists (.modify _ _ _)
  all_goals
    have haccepting : st.accepting = true := by simpa using hstopped
    exact h.running haccepting rfl haccepting

theorem CommandOwner.Phase.notifyCancel (h : st.Phase) (c : Nat) (leaving : Bool) :
    (st.notifyCancel c leaving).Phase := by
  rw [CommandOwner.notifyCancel]
  split_ifs
  · exact h.same rfl rfl rfl rfl rfl rfl
  · exact h.sameLists (.modify _ _ _)

theorem CommandOwner.Phase.release (h : st.Phase) (c : Nat) : (st.release c).Phase := by
  rw [CommandOwner.release]
  split_ifs
  · exact h.same rfl rfl rfl rfl rfl rfl
  · exact h.sameLists (.modify _ _ _)

theorem start_pc (st : CommandOwner) (c : Nat) (rest : List Nat) (expired armed : Bool) :
    (st.start c rest expired armed).pc = st.pc ∧
      (st.start c rest expired armed).accepting = st.accepting := by
  rw [CommandOwner.start]
  split_ifs
  · exact ⟨(SameLists.cancelLocal _ _ _).pc, (SameLists.cancelLocal _ _ _).accepting⟩
  · exact ⟨(SameLists.cancelLocal _ _ _).pc, (SameLists.cancelLocal _ _ _).accepting⟩
  · exact ⟨rfl, rfl⟩
  · exact ⟨rfl, rfl⟩

/-- A command is started before the rings have been found empty. -/
theorem CommandOwner.Phase.start (h : st.Phase) {rest : List Nat} (hbatch : st.batch = c :: rest)
    (expired armed : Bool) : (st.start c rest expired armed).Phase := by
  have hnot : ¬ st.Drained := by
    rintro ⟨_, _, hnil⟩
    rw [hbatch] at hnil
    cases hnil
  obtain ⟨hpc, haccepting⟩ := start_pc st c rest expired armed
  rw [Phase] at h ⊢
  rw [hpc, haccepting]
  split at h <;> simp_all

theorem CommandOwner.Phase.advance (h : st.Phase) (hbatch : st.batch = []) : st.advance.Phase := by
  rw [CommandOwner.advance.eq_def]
  rw [Phase] at h
  split <;> rename_i hpc <;> rw [hpc] at h
  case h_1 =>
    rw [CommandOwner.handleCancel]
    split_ifs
    · exact h
    · exact (SameLists.cancelLocal _ _ _).accepting.trans h
  case h_3 =>
    rw [CommandOwner.nextControl]
    split
    · exact h
    · exact (SameLists.cancelLocal _ _ _).accepting.trans h
  case h_7 =>
    split
    · simp only [Phase, CommandOwner.modify, hpc]
      exact h
    · simp only [Phase, CommandOwner.modify, hpc]
      exact h
    · rename_i hclose hcommand
      exact ⟨h, hclose, hcommand, hbatch⟩
  case h_8 =>
    split
    · exact ⟨h.1, h.2, ‹_›⟩
    · split
      · simp only [Phase, CommandOwner.modify, hpc]
        exact h
      · have hlists := SameLists.cancelLocal st ‹_› enetdown
        rw [Phase, hlists.pc, hpc]
        refine ⟨hlists.accepting.trans h.1, hlists.closeRing.trans h.2.1,
          hlists.commandRing.trans h.2.2.1, hlists.batch.trans h.2.2.2⟩
  case h_13 | h_14 =>
    rw [Phase, hpc]
    exact h
  all_goals exact h

theorem advance_frames (st : CommandOwner) : st.advance.frames = st.frames := by
  rw [CommandOwner.advance.eq_def]
  split
  · rw [CommandOwner.handleCancel]
    split_ifs
    · rfl
    · exact cancelLocal_frames _ _ _
  · rfl
  · rw [CommandOwner.nextControl]
    split
    · rfl
    · exact cancelLocal_frames _ _ _
  · rfl
  · rfl
  · rfl
  · split <;> rfl
  · split
    · rfl
    · split
      · rfl
      · exact cancelLocal_frames _ _ _
  all_goals rfl

end Phases

section Lives

variable {l l' : Life}

/-- A command stays for the socket it was created for. -/
theorem LifeStep.handle (h : LifeStep l l') (hborn : l.place ≠ .unborn) :
    l'.cmd.handle = l.cmd.handle ∧ l'.place ≠ .unborn := by
  cases h with
  | call type handle nonblock dontwait deadline hplace => exact absurd hplace hborn
  | refuse error hplace | complete result error hplace | cancel error hplace
  | connected result error hplace => exact ⟨complete_handle _ _ _, nofun⟩
  | submit hcaller haccepting | run timer hplace hzero | reject error hplace
  | finish result error hplace | park effects hplace | stay hplace | wake hplace hzero
  | attempt hplace hzero => exact ⟨rfl, nofun⟩
  | _ => exact ⟨rfl, hborn⟩

theorem LifeStep.handle_run (h : Relation.ReflTransGen LifeStep l l') (hborn : l.place ≠ .unborn) :
    l'.cmd.handle = l.cmd.handle ∧ l'.place ≠ .unborn := by
  induction h with
  | refl => exact ⟨rfl, hborn⟩
  | tail _ hstep ih =>
    obtain ⟨hhandle, hborn'⟩ := hstep.handle ih.2
    exact ⟨hhandle.trans ih.1, hborn'⟩

theorem Life.Inv.run (h : l.Inv) (hrun : Relation.ReflTransGen LifeStep l l') : l'.Inv := by
  induction hrun with
  | refl => exact h
  | tail _ hstep ih => exact ih.step hstep

theorem Life.Barred.run (h : l.Barred) (hinv : l.Inv) (hrun : Relation.ReflTransGen LifeStep l l') :
    l'.Barred ∧ l'.cmd.effects = l.cmd.effects := by
  induction hrun with
  | refl => exact ⟨h, rfl⟩
  | tail hrun hstep ih =>
    obtain ⟨hbarred, heffects⟩ := ih.1.step (hinv.run hrun) hstep
    exact ⟨hbarred, heffects.trans ih.2⟩

end Lives

/-- What holds of an owner in every run. -/
structure CommandOwner.Inv (st : CommandOwner) : Prop where
  lives : ∀ c, ∃ l : Life, l.Inv ∧ Sim st c l
  nested : st.Nested
  phase : st.Phase

section Invariant

variable {st : CommandOwner} {e : CmdEvent} {l : Life}

theorem CommandOwner.Inv.initial : ({} : CommandOwner).Inv := by
  refine ⟨fun c => ?_, ⟨nofun, nofun⟩, rfl⟩
  refine ⟨{ cmd := { type := .create, handle := 0, refs := 0, caller := .gone }, place := .unborn },
    ⟨⟨⟨rfl, rfl, rfl⟩, rfl, rfl⟩, ⟨rfl, rfl, rfl, rfl, rfl⟩, rfl, rfl⟩, ?_⟩
  refine ⟨rfl, rfl, ⟨fun h => absurd h (Nat.not_lt_zero c), fun h => absurd rfl h⟩, rfl, rfl, rfl, rfl,
    rfl, rfl, rfl, rfl, fun s => ?_⟩
  split_ifs <;> rfl

/-- A command waits only in its own socket. -/
theorem CommandOwner.Inv.queuesOwn (h : st.Inv) : QueuesOwn st := by
  intro s w hs c hc
  obtain ⟨l, _, hsim⟩ := h.lives c
  rw [hsim.cmd]
  exact (hsim.waiting hs (count_pos_iff.mpr hc)).1.symm

/-- The commands of open calls exist. -/
theorem Sim.called (h : Sim st c l) {f : Frame} (hf : f ∈ st.frames) (hc : f.cmd = c) :
    l.place.calls ≠ [] := by
  rw [← h.calls]
  intro hnil
  have hin : f ∈ st.frames.filter (·.cmd = c) := by
    rw [mem_filter]
    exact ⟨hf, by simpa using hc⟩
  rw [map_eq_nil_iff.mp hnil] at hin
  exact absurd hin not_mem_nil

/-- Every event is a sequence of steps in the life of each command. -/
theorem CommandOwner.Inv.lives_step (h : st.Inv) (hen : st.enabled e) (c : Nat) (hinv : l.Inv)
    (hsim : Sim st c l) : ∃ l', Relation.ReflTransGen LifeStep l l' ∧ Sim (st.step e) c l' :=
  hsim.step hinv h.nested.calls h.nested.below h.phase hen

theorem CommandOwner.Inv.keepsHandles (h : st.Inv) (hen : st.enabled e) :
    KeepsHandles st (st.step e) := by
  intro f hf
  obtain ⟨l, hinv, hsim⟩ := h.lives f.cmd
  obtain ⟨l', hrun, hsim'⟩ := h.lives_step hen f.cmd hinv hsim
  have hborn : l.place ≠ .unborn := by
    intro hplace
    refine hsim.called hf rfl ?_
    rw [hplace]
    rfl
  rw [hsim'.cmd, hsim.cmd]
  exact (LifeStep.handle_run hrun hborn).1

theorem CommandOwner.Nested.of_nil (h : st.frames = []) : st.Nested := by
  refine ⟨fun f hf => ?_, fun f hf => ?_⟩
  · rw [h] at hf
    exact absurd hf not_mem_nil
  · rw [h] at hf
    exact absurd hf not_mem_nil

theorem CommandOwner.Nested.start (hframes : st.frames = []) (c : Nat) (rest : List Nat)
    (expired armed : Bool) : (st.start c rest expired armed).Nested := by
  rw [CommandOwner.start]
  split_ifs
  · exact .of_nil ((cancelLocal_frames _ _ _).trans hframes)
  · exact .of_nil ((cancelLocal_frames _ _ _).trans hframes)
  · exact .of_nil hframes
  · rw [hframes]
    refine ⟨fun f hf => ?_, fun _ hf => absurd hf not_mem_nil⟩
    rw [mem_singleton.mp hf]
    trivial

theorem submit_frames (c : Nat) (full : Bool) :
    (st.submit c full).frames = st.frames ∧ (st.submit c full).sockets = st.sockets := by
  rw [CommandOwner.submit]
  split_ifs <;> exact ⟨rfl, rfl⟩

theorem notifyCancel_frames (c : Nat) (leaving : Bool) :
    (st.notifyCancel c leaving).frames = st.frames ∧
      (st.notifyCancel c leaving).sockets = st.sockets := by
  rw [CommandOwner.notifyCancel]
  split_ifs <;> exact ⟨rfl, rfl⟩

theorem release_frames (c : Nat) :
    (st.release c).frames = st.frames ∧ (st.release c).sockets = st.sockets := by
  rw [CommandOwner.release]
  split_ifs <;> exact ⟨rfl, rfl⟩

theorem dequeue_frames (close : Bool) :
    (st.dequeue close).frames = st.frames ∧ (st.dequeue close).sockets = st.sockets := by
  rw [CommandOwner.dequeue]
  split_ifs <;> exact ⟨rfl, rfl⟩

/-- The calls that are open after an event, and the phase of the owner. -/
theorem CommandOwner.Inv.nested_phase_step (h : st.Inv) (hen : st.enabled e) :
    (st.step e).Nested ∧ (st.step e).Phase := by
  have hphase := h.phase
  have hhandles := h.keepsHandles hen
  have hsame := h.nested.same hhandles
  have hreturned : ∀ {f calls}, st.frames = f :: calls → Returned st (st.step e) calls →
      (st.step e).Nested ∧ (st.step e).Phase := fun hframes hreturned =>
    ⟨h.nested.returned hhandles hframes hreturned, hphase.sameLists hreturned.lists⟩
  have hturned : st.nests = true → Turned st (st.step e) →
      (st.step e).Nested ∧ (st.step e).Phase := fun hnests hturned =>
    ⟨h.nested.turned hhandles hnests hturned, hphase.sameLists hturned.lists⟩
  cases e with
  | call type handle nonblock dontwait deadline | giveUp c | requestCancel c error leaving
  | observe c | leave c | drop c => exact ⟨hsame rfl rfl, hphase.same rfl rfl rfl rfl rfl rfl⟩
  | submit c full =>
    exact ⟨hsame (submit_frames c full).1 (submit_frames c full).2, hphase.submit c full⟩
  | notifyCancel c =>
    obtain ⟨_, leaving, hcaller⟩ := hen
    have hstep : st.step (.notifyCancel c) = st.notifyCancel c leaving := by
      rw [CommandOwner.step, hcaller]
    rw [hstep] at hsame ⊢
    exact ⟨hsame (notifyCancel_frames c leaving).1 (notifyCancel_frames c leaving).2,
      hphase.notifyCancel c leaving⟩
  | release c => exact ⟨hsame (release_frames c).1 (release_frames c).2, hphase.release c⟩
  | dequeue close =>
    have hpolling : st.pc = .polling := hen.2
    refine ⟨hsame (dequeue_frames close).1 (dequeue_frames close).2, ?_⟩
    rw [Phase, hpolling] at hphase
    cases close <;> rw [CommandOwner.step, CommandOwner.dequeue, Phase] <;>
      simp only [if_true, Bool.false_eq_true, if_false, hpolling] <;> exact hphase
  | start expired armed =>
    obtain ⟨hframes, hbatch⟩ := hen
    obtain ⟨c, rest, hbatch⟩ := exists_cons_of_ne_nil hbatch
    rw [CommandOwner.step, hbatch]
    exact ⟨.start hframes c rest expired armed, hphase.start hbatch expired armed⟩
  | answered answer =>
    obtain ⟨f, calls, hframes⟩ := exists_cons_of_ne_nil hen
    have hcall := h.nested.calls f (by rw [hframes]; exact mem_cons_self)
    rcases Answered.of_frames hframes hcall answer with hanswered | ⟨heq, _⟩
    · exact hreturned hframes hanswered.returned
    · rw [CommandOwner.step, heq]
      exact ⟨h.nested, hphase⟩
  | completed =>
    rcases completed_returned st with heq | ⟨f, calls, hframes, hcompleted⟩
    · rw [CommandOwner.step, heq]
      exact ⟨h.nested, hphase⟩
    · exact hreturned hframes hcompleted
  | wakeRecv s => exact hturned hen (.wakeRecv h.queuesOwn s)
  | wakeSend s => exact hturned hen (.wakeSend h.queuesOwn s)
  | wakeAccept s => exact hturned hen (.wakeAccept h.queuesOwn s)
  | completeConnect s error => exact hturned hen (.completeConnect s error)
  | abortWaiter s error => exact hturned hen (.abortWaiter s error)
  | adopt s => exact hturned hen.1 (.adopt s)
  | retire s => exact ⟨h.nested.retire hen.1 hen.2.1, hphase.sameLists (.setSocket _ _ _)⟩
  | timeout c =>
    exact ⟨.of_nil ((cancelLocal_frames _ _ _).trans hen.1.1.1),
      hphase.sameLists (.cancelLocal _ _ _)⟩
  | takeCancel =>
    obtain ⟨⟨⟨hframes, hbatch⟩, hpc⟩, hcancel⟩ := hen
    obtain ⟨c, rest, hcancel⟩ := exists_cons_of_ne_nil hcancel
    rw [CommandOwner.step, hcancel]
    rw [Phase, hpc] at hphase
    exact ⟨.of_nil hframes, hphase⟩
  | takeControls =>
    have hpolling : st.pc = .polling := hen.2
    rw [Phase, hpolling] at hphase
    exact ⟨hsame rfl rfl, hphase⟩
  | shutdown => exact ⟨hsame rfl rfl, rfl⟩
  | advance => exact ⟨.of_nil ((advance_frames st).trans hen.1), hphase.advance hen.2⟩

/-- Every event keeps the invariant. -/
theorem CommandOwner.Inv.step (h : st.Inv) (hen : st.enabled e) : (st.step e).Inv := by
  obtain ⟨hnested, hphase⟩ := h.nested_phase_step hen
  refine ⟨fun c => ?_, hnested, hphase⟩
  obtain ⟨l, hinv, hsim⟩ := h.lives c
  obtain ⟨l', hrun, hsim'⟩ := h.lives_step hen c hinv hsim
  exact ⟨l', hinv.run hrun, hsim'⟩

theorem reach_inv (h : commandSystem.Reach (fun _ _ => True) st) : st.Inv := by
  refine h.invariant (fun s hinit => ?_) fun s e hinv hen _ => hinv.step hen
  have hs : s = {} := hinit
  rw [hs]
  exact .initial

end Invariant

end SnowTG.Owner
