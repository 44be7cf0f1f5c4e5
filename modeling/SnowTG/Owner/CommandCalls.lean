import SnowTG.Owner.CommandRefinement

/-!
# Calls of the transport

The transport answers the call on top, or leads back into the owner, which looks at the
commands in the queues of a socket.  Each turn of this is a step in the life of the
command it is about.
-/

namespace SnowTG.Owner

open List Option

section Queues

variable {w : SockWaits} {c : Nat} {rest : List Nat} {queue queue' : List Nat}

section

variable (h : ∀ i, queue'.count i = queue.count i + if i = c then 1 else 0)
include h

theorem SockWaits.Adds.of_queue :
    ({ w with recvWait := queue } : SockWaits).Adds { w with recvWait := queue' } c ∧
      ({ w with sendWait := queue } : SockWaits).Adds { w with sendWait := queue' } c ∧
      ({ w with acceptWait := queue } : SockWaits).Adds { w with acceptWait := queue' } c := by
  refine ⟨fun i => ?_, fun i => ?_, fun i => ?_⟩
  all_goals
    have hi := h i
    simp only [all, count_append]
    omega

end

theorem count_cons_one (queue : List Nat) (i : Nat) :
    (c :: queue).count i = queue.count i + if i = c then 1 else 0 := by
  rw [count_cons]
  simp only [beq_iff_eq, eq_comm (a := c)]

theorem count_concat_one (queue : List Nat) (i : Nat) :
    (queue ++ [c]).count i = queue.count i + if i = c then 1 else 0 := by
  rw [count_append, count_cons_one, count_nil, Nat.zero_add]

theorem SockWaits.Adds.connect (h : w.connectWaiter = none) :
    w.Adds { w with connectWaiter := some c } c := by
  intro i
  have hone := count_cons_one (c := c) [] i
  simp only [all, count_append, h, toList_some, toList_none, hone, count_nil]
  omega

theorem SockWaits.Adds.recv_head (h : w.recvWait = c :: rest) :
    ({ w with recvWait := rest } : SockWaits).Adds w c := by
  have hadds := (Adds.of_queue (w := w) (count_cons_one (c := c) rest)).1
  rw [← h] at hadds
  exact hadds

theorem SockWaits.Adds.send_head (h : w.sendWait = c :: rest) :
    ({ w with sendWait := rest } : SockWaits).Adds w c := by
  have hadds := (Adds.of_queue (w := w) (count_cons_one (c := c) rest)).2.1
  rw [← h] at hadds
  exact hadds

theorem SockWaits.Adds.accept_head (h : w.acceptWait = c :: rest) :
    ({ w with acceptWait := rest } : SockWaits).Adds w c := by
  have hadds := (Adds.of_queue (w := w) (count_cons_one (c := c) rest)).2.2
  rw [← h] at hadds
  exact hadds

theorem SockWaits.Adds.connect_waiter (h : w.connectWaiter = some c) :
    ({ w with connectWaiter := none } : SockWaits).Adds w c := by
  have hadds := Adds.connect (w := { w with connectWaiter := none }) (c := c) rfl
  change SockWaits.Adds _ { w with connectWaiter := some c } c at hadds
  rw [← h] at hadds
  exact hadds

/-- The waiter that is aborted next was in the queues once more than it is then. -/
theorem SockWaits.Adds.nextAborted {w' : SockWaits} (h : w.nextAborted = some (c, w')) :
    w'.Adds w c := by
  rw [SockWaits.nextAborted] at h
  split at h
  · rename_i hconnect
    cases h
    exact .connect_waiter hconnect
  · rename_i hrecv
    cases h
    exact .recv_head hrecv
  · rename_i hsend
    cases h
    exact .send_head hsend
  · rename_i haccept
    cases h
    exact .accept_head haccept
  · cases h

/-- A socket is retired with empty queues. -/
theorem SockWaits.all_eq_nil (h : w.nextAborted = none) : w.all = [] := by
  rw [SockWaits.nextAborted] at h
  split at h
  case h_5 hconnect hrecv hsend haccept =>
    simp only [all, hconnect, hrecv, hsend, haccept, toList_none, append_nil]
  all_goals cases h

end Queues

/-- What the owner does when the transport has answered the call `f` on top. -/
inductive Answered (st : CommandOwner) (f : Frame) (calls : List Frame) : CommandOwner → Prop where
  | reject (htop : f.place = .running) (error : Nat) :
      Answered st f calls (st.reject f.cmd calls error)
  | finish (htop : f.place = .running) (value : Int) (errno : Nat) :
      Answered st f calls (st.finish f.cmd calls value errno)
  | park {s : Nat} {w w' : SockWaits} (htop : f.place = .running) (hs : st.sockets s = some w)
      (hhandle : (st.cmd f.cmd).handle = s) (hadds : w.Adds w' f.cmd) (effects : Nat) :
      Answered st f calls (st.park f.cmd s w' calls effects)
  | close {s : Nat} {w : SockWaits} (htop : f.place = .running) (hs : st.sockets s = some w)
      (value : Int) (errno : Nat) : Answered st f calls
        ((st.setSocket s (some { w with appClosed := true })).finish f.cmd calls value errno)
  | unqueue {s : Nat} {w w' : SockWaits} (htop : f.place = .trying) (hs : st.sockets s = some w)
      (hhandle : (st.cmd f.cmd).handle = s) (hadds : w'.Adds w f.cmd) (value : Int) (errno : Nat) :
      Answered st f calls ((st.setSocket s (some w')).finish f.cmd calls value errno)
  | stay (htop : f.place = .trying) : Answered st f calls { st with frames := calls }

namespace Answered

variable {st : CommandOwner} {c s : Nat} {calls : List Frame}

/-- `owner_process_one` with any answer. -/
theorem processOne (answer : Answer) :
    Answered st (.process c) calls (st.processOne c calls answer) := by
  rw [CommandOwner.processOne.eq_def]
  simp only
  split
  · cases answer with
    | refuse error => exact .reject rfl error
    | result value errno => exact .finish rfl value errno
  split
  · exact .reject rfl ebadf
  rename_i w hs
  split
  · exact .reject rfl ebadf
  cases answer with
  | refuse error => exact .reject rfl error
  | result value errno =>
    have hsend : w.Adds { w with sendWait := w.sendWait ++ [c] } c :=
      (SockWaits.Adds.of_queue (count_concat_one _)).2.1
    simp only
    split
    · exact .park rfl hs rfl (SockWaits.Adds.of_queue (count_concat_one _)).1 0
    · exact .park rfl hs rfl (SockWaits.Adds.of_queue (count_concat_one _)).1 0
    · exact .park rfl hs rfl (SockWaits.Adds.of_queue (count_concat_one _)).2.2 0
    · split_ifs
      · exact .park rfl hs rfl hsend 0
      · exact .finish rfl value errno
    · split_ifs
      · exact .park rfl hs rfl hsend 0
      · exact .finish rfl value errno
    · split_ifs with hwaiter
      · exact .reject rfl ealready
      · exact .park rfl hs rfl (.connect (by simpa using hwaiter)) 1
      · exact .finish rfl value errno
    · exact .close rfl hs value errno
    · exact .finish rfl value errno

theorem received (hcall : (Frame.receiving s c).Inv st) (value : Int) (errno : Nat) :
    Answered st (.receiving s c) calls (st.received s c calls value errno) := by
  obtain ⟨hhandle, hsocket⟩ := hcall
  obtain ⟨w, hs⟩ := ne_none_iff_exists'.mp hsocket
  rw [CommandOwner.received]
  split_ifs
  · rw [hs]
    exact .park (f := .receiving s c) rfl hs hhandle
      (SockWaits.Adds.of_queue (count_cons_one _)).1 0
  · exact .finish rfl value errno

theorem sent (hcall : (Frame.sending s c).Inv st) (value : Int) (errno : Nat) :
    Answered st (.sending s c) calls (st.sent s c calls value errno) := by
  obtain ⟨hhandle, w, rest, hs, hqueue⟩ := hcall
  rw [CommandOwner.sent]
  split_ifs
  · exact .stay rfl
  · rw [hs]
    refine .unqueue (f := .sending s c) rfl hs hhandle ?_ value errno
    rw [hqueue]
    exact .send_head hqueue

theorem accepted (hcall : (Frame.accepting s c).Inv st) (value : Int) (errno : Nat) :
    Answered st (.accepting s c) calls (st.accepted s c calls value errno) := by
  obtain ⟨hhandle, w, rest, hs, hqueue⟩ := hcall
  rw [CommandOwner.accepted]
  split_ifs
  · exact .stay rfl
  · rw [hs]
    refine .unqueue (f := .accepting s c) rfl hs hhandle ?_ value errno
    rw [hqueue]
    exact .accept_head hqueue

/-- An answer is taken by the call on top, unless this is a completion or has no use for it. -/
theorem of_frames {f : Frame} (hframes : st.frames = f :: calls) (hcall : f.Inv st)
    (answer : Answer) : Answered st f calls (st.answered answer) ∨ st.answered answer = st ∧
      ((∃ error, answer = .refuse error) ∨ ∃ c result error, f = .completing c result error) := by
  rw [CommandOwner.answered, hframes]
  cases f with
  | process c => exact .inl (.processOne answer)
  | completing c result error => exact .inr ⟨rfl, .inr ⟨c, result, error, rfl⟩⟩
  | receiving s c =>
    cases answer with
    | refuse error => exact .inr ⟨rfl, .inl ⟨error, rfl⟩⟩
    | result value errno => exact .inl (.received hcall value errno)
  | sending s c =>
    cases answer with
    | refuse error => exact .inr ⟨rfl, .inl ⟨error, rfl⟩⟩
    | result value errno => exact .inl (.sent hcall value errno)
  | accepting s c =>
    cases answer with
    | refuse error => exact .inr ⟨rfl, .inl ⟨error, rfl⟩⟩
    | result value errno => exact .inl (.accepted hcall value errno)

end Answered

theorem Sim.follows {st : CommandOwner} {c : Nat} {l : Life} (h : Sim st c l) : Follows st c l :=
  ⟨l, .inl rfl, h⟩

section Answers

variable {st : CommandOwner} {c c₀ s : Nat} {l : Life} {w w' : SockWaits}
variable {f : Frame} {calls : List Frame}

section

variable (h : Sim st c l)
include h

/-- The command of the call on top leaves the queue it was in and is completed next. -/
theorem Sim.finishTrying (hframes : st.frames = f :: calls) (htop : f.place = .trying)
    (hs : st.sockets s = some w) (hhandle : (st.cmd f.cmd).handle = s) (hadds : w'.Adds w f.cmd)
    (value : Int) (errno : Nat) :
    Follows ((st.setSocket s (some w')).finish f.cmd calls value errno) c l := by
  have hcount := hadds c
  refine h.finish hframes (by rw [htop]; rfl) (.setSocket st s (some w')) rfl (fun hc i => ?_)
    (fun hc i => ?_) value errno
  · rw [if_pos hc.symm] at hcount
    obtain ⟨hplace, _⟩ := h.top hframes hc
    rw [hc, h.cmd] at hhandle
    obtain ⟨_, _, hone⟩ := h.waiting hs (by omega)
    rw [waitCount_setSocket]
    split_ifs with hi
    · show w'.all.count c = 0
      omega
    · rw [h.waits, if_neg fun heq => hi (heq.trans hhandle)]
  · rw [if_neg fun heq => hc heq.symm] at hcount
    rw [waitCount_setSocket]
    split_ifs with hi
    · rw [hi, hs]
      exact hcount.symm
    · rfl

/-- The command of the call on top stays in the queue it is in. -/
theorem Sim.stay (hframes : st.frames = f :: calls) (htop : f.place = .trying) :
    Follows { st with frames := calls } c l := by
  by_cases hc : f.cmd = c
  · obtain ⟨hplace, _⟩ := h.top hframes hc
    rw [htop] at hplace
    have hborn : Place.parked ≠ .unborn := nofun
    refine ⟨_, .inr (.stay hplace), h.returned hframes hc (.setFrames _ _) (nil_append _).symm
       nofun rfl h.cmd hborn rfl fun i => (h.waits i).trans ?_⟩
    rw [hplace]
    rfl
  · exact ⟨l, .inl rfl, Apart.returned hframes hc (.setFrames _ _) (nil_append _).symm nofun rfl
      (fun _ => rfl) h⟩

/-- The transport answers the call on top. -/
theorem Sim.answered (hframes : st.frames = f :: calls) (hcall : f.Inv st) (answer : Answer) :
    Follows (st.answered answer) c l := by
  rcases Answered.of_frames hframes hcall answer with hanswered | ⟨heq, _⟩
  swap
  · rw [heq]
    exact h.follows
  generalize st.answered answer = st' at hanswered ⊢
  cases hanswered with
  | reject htop error => exact h.reject hframes htop error
  | finish htop value errno => exact h.finishRunning hframes htop value errno
  | park htop hs hhandle hadds effects => exact h.park hframes htop hs hhandle hadds effects
  | unqueue htop hs hhandle hadds value errno =>
    exact h.finishTrying hframes htop hs hhandle hadds value errno
  | stay htop => exact h.stay hframes htop
  | @close s w htop hs value errno =>
    refine h.finish hframes (by rw [htop]; rfl) (.setSocket st _ _) rfl (fun hc i => ?_)
      (fun hc i => ?_) value errno
    · have hnone : ∀ i, waitCount (st.sockets i) c = 0 :=
        h.no_waits (by rw [(h.top hframes hc).1, htop]; rfl)
      have hself := hnone s
      rw [hs] at hself
      rw [waitCount_setSocket]
      split_ifs
      · exact hself
      · exact hnone i
    · rw [waitCount_setSocket]
      split_ifs with hi
      · rw [hi, hs]
        rfl
      · rfl

/-- The completion on top of the calls is carried out. -/
theorem Sim.completed : Follows st.completed c l := by
  rw [CommandOwner.completed]
  split
  · rename_i c₀ result error calls hframes
    by_cases hc : c₀ = c
    · subst hc
      obtain ⟨hplace, _⟩ := h.top hframes rfl
      have hborn : Place.finished ≠ .unborn := nofun
      refine ⟨_, .inr (.complete result error hplace), h.returned hframes rfl
        ((SameLists.modify _ _ _).trans (.setFrames _ _)) (nil_append _).symm nofun rfl
        ((if_pos rfl).trans (by rw [h.cmd])) hborn rfl fun i => ?_⟩
      rw [complete_handle]
      exact (h.waits i).trans (by rw [hplace]; rfl)
    · exact ⟨l, .inl rfl, Apart.returned hframes hc
        ((SameLists.modify _ _ _).trans (.setFrames _ _)) (nil_append _).symm nofun
        (if_neg fun heq => hc heq.symm) (fun _ => rfl) h⟩
  · exact h.follows

end

end Answers

section Wakes

variable {st : CommandOwner} {c c₀ s : Nat} {l : Life} {w w' : SockWaits}

theorem Apart.unqueued (hne : c ≠ c₀) (hs : st.sockets s = some w) (hadds : w'.Adds w c₀) :
    Apart c st (st.setSocket s (some w')) := by
  have hcount := hadds c
  rw [if_neg hne] at hcount
  refine .setSocket ?_
  rw [hs]
  exact hcount.symm

section

variable (h : Sim st c l) (hmarks : l.place.Marks l.cmd)
variable (hnest : ∀ f ∈ st.frames, f.nesting = true)
include h hnest

/-- The command is taken out of the queue it is in. -/
theorem Sim.unqueued (hs : st.sockets s = some w) (hadds : w'.Adds w c) :
    l.place = .parked ∧ Sim (st.setSocket s (some w')) c { l with place := .finished } := by
  have hcount := hadds c
  rw [if_pos rfl] at hcount
  obtain ⟨hhandle, hwaits, hone⟩ := h.waiting hs (by omega)
  have hplace := h.parked hnest hwaits
  have hborn : Place.finished ≠ .unborn := nofun
  refine ⟨hplace, h.relocate (.setSocket _ _ _) h.cmd ?_ hborn ?_ ?_ (h.setWaits hhandle ?_)⟩
  · rw [hplace]
    exact nofun
  · rw [hplace]
    rfl
  · exact h.calls.trans (by rw [hplace]; rfl)
  · show w'.all.count c = 0
    omega

/-- A turn that takes a command out of its queue and completes it. -/
theorem Sim.unqueuedComplete (hs : st.sockets s = some w) (hadds : w'.Adds w c₀) {f : SockCmd → SockCmd}
    (hhandle : (f l.cmd).handle = l.cmd.handle)
    (hstep : c = c₀ → l.place = .parked →
      LifeStep l { l with place := .finished, cmd := f l.cmd }) :
    Follows ((st.setSocket s (some w')).modify c₀ f) c l := by
  by_cases hc : c = c₀
  · subst hc
    obtain ⟨hplace, hsim⟩ := h.unqueued hnest hs hadds
    exact ⟨_, .inr (hstep rfl hplace), hsim.modify f hhandle⟩
  · exact ⟨l, .inl rfl, Apart.modify hc f (Apart.unqueued hc hs hadds h)⟩

/-- The waiter of a connect is completed. -/
theorem Sim.completeConnect (s error : Nat) : Follows (st.completeConnect s error) c l := by
  rw [CommandOwner.completeConnect]
  split
  · exact h.follows
  · rename_i w hs
    split
    · exact h.follows
    · rename_i c₀ hwaiter
      exact h.unqueuedComplete hnest hs (.connect_waiter hwaiter) (complete_handle _ _ _)
        fun _ hplace => .connected _ error hplace

theorem Sim.abortWaiter (s error : Nat) : Follows (st.abortWaiter s error) c l := by
  rw [CommandOwner.abortWaiter]
  split
  · exact h.follows
  · rename_i w hs
    split
    · exact h.follows
    · rename_i c₀ w' hnext
      exact h.unqueuedComplete hnest hs (.nextAborted hnext) (complete_handle _ _ _)
        fun _ hplace => .cancel error hplace

include hmarks

/-- The first receiver is called, or taken off if it was cancelled. -/
theorem Sim.wakeRecv (s : Nat) : Follows (st.wakeRecv s) c l := by
  rw [CommandOwner.wakeRecv]
  split
  · exact h.follows
  · rename_i w hs
    split
    · exact h.follows
    · rename_i c₀ rest hqueue
      have hadds := SockWaits.Adds.recv_head hqueue
      by_cases hc : c = c₀
      · subst hc
        obtain ⟨hplace, hsim⟩ := h.unqueued hnest hs hadds
        have hborn : Place.finished ≠ .unborn := nofun
        rw [hplace] at hmarks
        simp only
        split_ifs with hcancel
        · exact ⟨_, .inr (.cancel _ hplace), hsim.cancelLocal hmarks.1.1 hborn hborn rfl rfl rfl _⟩
        · rw [h.cmd, ne_eq, not_not] at hcancel
          have hrun := hsim.modify (fun cmd => { cmd with state := .running }) rfl
          have hborn' : Place.running ≠ .unborn := nofun
          refine ⟨_, .inr (.wake hplace hcancel),
            hrun.relocate (.setFrames _ _) hrun.cmd hborn hborn' rfl ?_ hrun.waits⟩
          have hcalls := hsim.calls
          have hself : (Frame.receiving s c).cmd = c := rfl
          change (st.frames.filter _).map _ = [] at hcalls
          show ((Frame.receiving s c :: st.frames).filter _).map _ = _
          rw [filter_call_self hself, map_cons, hcalls]
          rfl
      · have hapart := Apart.unqueued hc hs hadds h
        refine ⟨l, .inl rfl, ?_⟩
        simp only
        split_ifs
        · exact Apart.cancelLocal hc _ hapart
        · refine Apart.relocate ((SameLists.modify _ c₀ _).trans (.setFrames _ _)) (if_neg hc) ?_
            (fun _ => rfl) hapart
          exact filter_call_ne fun heq => hc heq.symm

/-- A turn that tries a command at the head of its queue, or takes it off there if it has been
cancelled. -/
theorem Sim.attempted (hs : st.sockets s = some w) (hc₀ : c₀ ∈ w.all) {f : Frame} (hf : f.cmd = c₀)
    (hplace : f.place = .trying) :
    Follows (if (st.cmd c₀).cancelError ≠ 0 then
      st.cancelLocal c₀ (st.cmd c₀).cancelError else { st with frames := f :: st.frames }) c l := by
  have hparked : c = c₀ → l.place = .parked := by
    rintro rfl
    exact h.parked hnest (h.waiting hs (count_pos_iff.mpr hc₀)).2.1
  split_ifs with hcancel
  · obtain ⟨l', hmoves, hsim, _⟩ := h.cancelled hmarks (fun hc => .inl (hparked hc)) _
    exact ⟨l', hmoves, hsim⟩
  · by_cases hc : c = c₀
    · subst hc
      rw [h.cmd, ne_eq, not_not] at hcancel
      have hwas := hparked rfl
      have hborn : Place.trying ≠ .unborn := nofun
      refine ⟨_, .inr (.attempt hwas hcancel), h.relocate (.setFrames _ _) h.cmd ?_ hborn ?_ ?_
        fun i => ?_⟩
      · rw [hwas]
        exact nofun
      · rw [hwas]
        rfl
      · have hcalls := h.calls
        rw [hwas] at hcalls
        show ((f :: st.frames).filter _).map _ = _
        rw [filter_call_self hf, map_cons, hcalls, hplace]
        rfl
      · exact (h.waits i).trans (by rw [hwas]; rfl)
    · refine ⟨l, .inl rfl, Apart.relocate (.setFrames _ _) rfl ?_ (fun _ => rfl) h⟩
      exact filter_call_ne fun heq => hc (heq.symm.trans hf)

theorem Sim.wakeSend (s : Nat) : Follows (st.wakeSend s) c l := by
  rw [CommandOwner.wakeSend]
  split
  · exact h.follows
  · rename_i w hs
    split
    · exact h.follows
    · rename_i c₀ rest hqueue
      exact h.attempted hmarks hnest hs (by simp [SockWaits.all, hqueue]) rfl rfl

theorem Sim.wakeAccept (s : Nat) : Follows (st.wakeAccept s) c l := by
  rw [CommandOwner.wakeAccept]
  split
  · exact h.follows
  · rename_i w hs
    split
    · exact h.follows
    · rename_i c₀ rest hqueue
      exact h.attempted hmarks hnest hs (by simp [SockWaits.all, hqueue]) rfl rfl

omit hmarks hnest

/-- Sockets come and go with empty queues. -/
theorem Sim.adopt (hs : st.sockets s = none) : Sim (st.setSocket s (some {})) c l := by
  refine Apart.setSocket ?_ h
  rw [hs]
  rfl

/-- A socket without waiting commands goes away. -/
theorem Sim.retire (hs : st.sockets s = some w) (hnone : w.nextAborted = none) :
    Sim (st.setSocket s none) c l := by
  refine Apart.setSocket ?_ h
  rw [hs, waitCount, waitCount, SockWaits.all_eq_nil hnone]
  rfl

end

end Wakes

end SnowTG.Owner
