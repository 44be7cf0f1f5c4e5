import SnowTG.Owner.CommandLife

/-!
# The owner refines the lives of its commands

Each command of an owner is in the place its life says: as often as a ring, a burst,
a list, an open call or a queue of a socket holds it, its life counts it there.  Every
step of callers, owner and transport is a step in the life of one command, or of none.
-/

namespace SnowTG.Owner

open List Option

namespace Frame

def cmd : Frame → Nat
  | .process c | .receiving _ c | .sending _ c | .accepting _ c | .completing c _ _ => c

def place : Frame → Place
  | .process _ | .receiving _ _ => .running
  | .sending _ _ | .accepting _ _ => .trying
  | .completing _ result error => .completing result error

/-- The call can lead back into the owner. -/
def nesting : Frame → Bool
  | .process _ | .receiving _ _ => true
  | _ => false

end Frame

namespace OwnerPc

/-- The commands whose callers have left, with an owner that is running. -/
def listed : OwnerPc → List Nat
  | .controls list deferred | .reaping _ list deferred | .reaped _ list deferred => list ++ deferred
  | _ => []

def reapingNow : OwnerPc → List Nat
  | .reaping c _ _ => [c]
  | _ => []

def reapedNow : OwnerPc → List Nat
  | .reaped c _ _ => [c]
  | _ => []

/-- Those with an owner that is shutting down. -/
def detached : OwnerPc → List Nat
  | .stopRings control _ | .stopActive control _ | .stopControl control _ => control
  | _ => []

/-- The notifications the owner has taken. -/
def notices : OwnerPc → List Nat
  | .cancelling c | .cancelPut c => [c]
  | .stopRings _ cancel | .stopActive _ cancel | .stopControl _ cancel | .stopCancel cancel => cancel
  | _ => []

end OwnerPc

/-- The commands in the queues of a socket. -/
def SockWaits.all (w : SockWaits) : List Nat :=
  w.recvWait ++ w.sendWait ++ w.acceptWait ++ w.connectWaiter.toList

/-- The queues `w'` hold the command once more than `w`. -/
def SockWaits.Adds (w w' : SockWaits) (c : Nat) : Prop :=
  ∀ i, w'.all.count i = w.all.count i + if i = c then 1 else 0

/-- How often a socket holds a command. -/
def waitCount (w : Option SockWaits) (c : Nat) : Nat :=
  match w with
  | none => 0
  | some w => w.all.count c

/-- The open calls for a command in this place. -/
def Place.calls : Place → List Place
  | .running => [.running]
  | .trying => [.trying]
  | .completing result error => [.completing result error]
  | _ => []

/-- How often a command in this place is in a queue of its socket. -/
def Place.waits : Place → Nat
  | .trying | .parked => 1
  | _ => 0

def Transfer.at (transfer : Transfer) (t : Transfer) : Nat := if transfer = t then 1 else 0

/-- The owner has the command as its life says. -/
structure Sim (st : CommandOwner) (c : Nat) (l : Life) : Prop where
  cmd : st.cmd c = l.cmd
  accepting : st.accepting = l.accepting
  born : c < st.count ↔ l.place ≠ .unborn
  ring : st.closeRing.count c + st.commandRing.count c + st.batch.count c = l.place.held
  active : st.active.count c = l.active.toNat
  listed : st.control.count c + st.pc.listed.count c = l.transfer.at .listed
  reaping : st.pc.reapingNow.count c = l.transfer.at .reaping
  reaped : st.pc.reapedNow.count c = l.transfer.at .reaped
  detached : st.pc.detached.count c = l.transfer.at .detached
  notice : st.cancel.count c + st.pc.notices.count c = l.notice.toNat
  calls : (st.frames.filter (·.cmd = c)).map Frame.place = l.place.calls
  waits : ∀ s, waitCount (st.sockets s) c = if s = l.cmd.handle then l.place.waits else 0

/-- The life goes on by at most one step. -/
def Life.Moves (l l' : Life) : Prop := l' = l ∨ LifeStep l l'

/-- The owner keeps to a life that has gone on by at most one step. -/
abbrev Follows (st : CommandOwner) (c : Nat) (l : Life) : Prop := ∃ l', l.Moves l' ∧ Sim st c l'

/-- What the open calls of an owner rely on. -/
def Frame.Inv (st : CommandOwner) : Frame → Prop
  | .receiving s c => (st.cmd c).handle = s ∧ st.sockets s ≠ none
  | .sending s c => (st.cmd c).handle = s ∧
      ∃ w rest, st.sockets s = some w ∧ w.sendWait = c :: rest
  | .accepting s c => (st.cmd c).handle = s ∧
      ∃ w rest, st.sockets s = some w ∧ w.acceptWait = c :: rest
  | _ => True

variable {st'' : CommandOwner}

section Observation

variable {st st' : CommandOwner} {c c₀ s : Nat} {l : Life}

/-- Nothing has changed for the command. -/
def Apart (c : Nat) (st st' : CommandOwner) : Prop := ∀ ⦃l⦄, Sim st c l → Sim st' c l

theorem Apart.trans (h : Apart c st st') (h' : Apart c st' st'') : Apart c st st'' :=
  fun _ hsim => h' (h hsim)

theorem Apart.modify (hne : c ≠ c₀) (f : SockCmd → SockCmd) : Apart c st (st.modify c₀ f) :=
  fun _ h => { h with cmd := (if_neg hne).trans h.cmd }

/-- The queues of a socket change, but not for this command. -/
theorem Apart.setSocket {w : Option SockWaits}
    (hcount : waitCount w c = waitCount (st.sockets s) c) : Apart c st (st.setSocket s w) := by
  intro l h
  refine { h with waits := fun i => Eq.trans ?_ (h.waits i) }
  show waitCount (if i = s then w else st.sockets i) c = _
  split_ifs with hi
  · rw [hi, hcount]
  · rfl

@[simp] theorem modify_cmd_self (f : SockCmd → SockCmd) : (st.modify c f).cmd c = f (st.cmd c) :=
  if_pos rfl

/-- A step that changes only the fields of one command. -/
theorem Sim.modify (h : Sim st c l) (f : SockCmd → SockCmd)
    (hhandle : (f l.cmd).handle = l.cmd.handle) :
    Sim (st.modify c f) c { l with cmd := f l.cmd } :=
  { h with
    cmd := (modify_cmd_self f).trans (congrArg f h.cmd)
    waits := fun s => hhandle ▸ h.waits s }

/-- The life of each command after such a step. -/
theorem Sim.modified (h : Sim st c l) {f : SockCmd → SockCmd}
    (hhandle : c = c₀ → (f l.cmd).handle = l.cmd.handle)
    (hstep : c = c₀ → LifeStep l { l with cmd := f l.cmd }) : Follows (st.modify c₀ f) c l := by
  by_cases hc : c = c₀
  · subst hc
    exact ⟨_, .inr (hstep rfl), h.modify f (hhandle rfl)⟩
  · exact ⟨l, .inl rfl, Apart.modify hc f h⟩

end Observation

section Callers

variable {st : CommandOwner} {c c₀ : Nat} {l : Life}

/-- A call creates this command or another one. -/
theorem Sim.call (h : Sim st c l) (type : CmdType) (handle : Nat)
    (nonblock dontwait deadline : Bool) :
    Follows (st.call type handle nonblock dontwait deadline) c l := by
  by_cases hc : c = st.count
  · subst hc
    have hplace : l.place = .unborn := by
      by_contra hborn
      exact absurd (h.born.mpr hborn) (Nat.lt_irrefl _)
    refine ⟨_, .inr (.call type handle nonblock dontwait deadline hplace), if_pos rfl,
      h.accepting, ⟨fun _ => nofun, fun _ => Nat.lt_succ_self _⟩, ?_, h.active, h.listed, h.reaping,
      h.reaped, h.detached, h.notice, ?_, fun s => ?_⟩
    · exact h.ring.trans (by rw [hplace]; rfl)
    · exact h.calls.trans (by rw [hplace]; rfl)
    · refine (h.waits s).trans ?_
      rw [hplace]
      split_ifs <;> rfl
  · refine ⟨l, .inl rfl, { h with cmd := (if_neg hc).trans h.cmd, born := Iff.trans ?_ h.born }⟩
    show c < st.count + 1 ↔ c < st.count
    omega

/-- The command goes to the end of one of the rings. -/
theorem Sim.enqueue (h : Sim st c l) (ha : l.Arranged)
    (hcaller : (st.cmd c₀).caller = .submitting) (haccepting : st.accepting = true)
    {closeRing commandRing : List Nat}
    (hring : ∀ i, closeRing.count i + commandRing.count i =
      st.closeRing.count i + st.commandRing.count i + if i = c₀ then 1 else 0) :
    Follows { st.modify c₀ fun cmd =>
      { cmd with state := .queued, refs := cmd.refs + 1, caller := .waiting, submitted := true } with
        closeRing := closeRing, commandRing := commandRing } c l := by
  have hsum := hring c
  have hold := h.ring
  by_cases hc : c = c₀
  · subst hc
    rw [h.cmd] at hcaller
    have hplace := ha.submitting hcaller
    rw [hplace] at hold
    rw [if_pos rfl] at hsum
    refine ⟨_, .inr (.submit hcaller (h.accepting.symm.trans haccepting)),
      (if_pos rfl).trans (by rw [h.cmd]), h.accepting, ⟨fun _ => nofun, fun _ => ?_⟩, ?_, h.active,
      h.listed, h.reaping, h.reaped, h.detached, h.notice, ?_, fun s => ?_⟩
    · exact h.born.mpr (by rw [hplace]; exact nofun)
    · show closeRing.count c + commandRing.count c + st.batch.count c = 1
      simp only [Place.held] at hold
      omega
    · exact h.calls.trans (by rw [hplace]; rfl)
    · exact (h.waits s).trans (by rw [hplace]; rfl)
  · rw [if_neg hc] at hsum
    refine ⟨l, .inl rfl, { h with cmd := (if_neg hc).trans h.cmd, ring := ?_ }⟩
    show closeRing.count c + commandRing.count c + st.batch.count c = _
    omega

/-- The caller puts a command on a ring that has room, while the owner accepts commands. -/
theorem Sim.submit (h : Sim st c l) (ha : l.Arranged) (full : Bool)
    (hcaller : (st.cmd c₀).caller = .submitting) : Follows (st.submit c₀ full) c l := by
  have hlife : c = c₀ → l.cmd.caller = .submitting := by
    rintro rfl
    rw [← h.cmd]
    exact hcaller
  have hone : ∀ i, [c₀].count i = if i = c₀ then 1 else 0 := by
    intro i
    by_cases hi : i = c₀
    · rw [if_pos hi, hi, count_singleton_self]
    · rw [if_neg hi, count_singleton, if_neg (by simpa using fun heq => hi heq.symm)]
  rw [CommandOwner.submit]
  split_ifs with haccepting hfull hclose
  · exact h.modified (fun _ => rfl) fun hc => .giveUp (hlife hc)
  · exact h.modified (fun _ => rfl) fun hc => .retry (hlife hc)
  · refine h.enqueue ha hcaller (by simpa using haccepting) fun i => ?_
    rw [count_append, hone, Nat.add_right_comm]
    rfl
  · refine h.enqueue ha hcaller (by simpa using haccepting) fun i => ?_
    rw [count_append, hone, Nat.add_assoc]
    rfl

/-- The caller asks for the cancellation, unless it was asked for before. -/
theorem Sim.requestCancel (h : Sim st c l) (hcaller : (st.cmd c₀).caller = .waiting) (error : Nat)
    (leaving : Bool) : Follows (st.requestCancel c₀ error leaving) c l := by
  by_cases hc : c = c₀
  · subst hc
    rw [h.cmd] at hcaller
    have hsim := h.modify (fun cmd =>
      if cmd.cancelError = 0 then
        { cmd with
          cancelError := if error = 0 then ecanceled else error
          caller := .notifying leaving }
      else { cmd with caller := .afterCancel leaving })
      (by split_ifs <;> rfl)
    by_cases hzero : l.cmd.cancelError = 0
    · refine ⟨_, .inr ?_, hsim⟩
      simp only [if_pos hzero]
      refine .requestCancel _ leaving hcaller hzero ?_
      split_ifs with herror
      · decide
      · exact herror
    · cases leaving with
      | true =>
        refine ⟨_, .inr ?_, hsim⟩
        simp only [if_neg hzero]
        exact .cancelledBefore hcaller
      | false =>
        refine ⟨_, .inl ?_, hsim⟩
        simp only [if_neg hzero, CallerPc.afterCancel, Bool.false_eq_true, if_false, ← hcaller]
  · exact ⟨l, .inl rfl, Apart.modify hc _ h⟩

theorem count_cons_ne (hc : c ≠ c₀) (list : List Nat) : (c₀ :: list).count c = list.count c :=
  count_cons_of_ne (fun heq => hc heq.symm)

/-- The caller puts a command on the list of cancellations. -/
theorem Sim.notifyCancel (h : Sim st c l) (ha : l.Arranged) {leaving : Bool}
    (hcaller : (st.cmd c₀).caller = .notifying leaving) :
    Follows (st.notifyCancel c₀ leaving) c l := by
  rw [CommandOwner.notifyCancel]
  split_ifs with haccepting
  · by_cases hc : c = c₀
    · subst hc
      rw [h.cmd] at hcaller
      obtain ⟨_, _, hsent, _⟩ := ha.calling (by rw [hcaller]; rfl)
      have hnone : l.notice = false := by
        rw [← Bool.not_eq_true]
        exact fun htold => (hsent.notice htold).2 leaving hcaller
      have hnotice := h.notice
      rw [hnone] at hnotice
      have hsim := h.modify (fun cmd =>
        { cmd with refs := cmd.refs + 1, caller := .afterCancel leaving }) rfl
      refine ⟨_, .inr (.notify leaving hcaller (h.accepting.symm.trans haccepting)),
        { h with cmd := hsim.cmd, notice := ?_, waits := hsim.waits }⟩
      show (c :: st.cancel).count c + st.pc.notices.count c = 1
      rw [count_cons_self]
      simp only [Bool.toNat_false] at hnotice
      omega
    · refine ⟨l, .inl rfl, { h with cmd := (if_neg hc).trans h.cmd, notice := ?_ }⟩
      rw [count_cons_ne hc]
      exact h.notice
  · refine h.modified (fun _ => rfl) fun hc => ?_
    subst hc
    rw [h.cmd] at hcaller
    exact .skipNotice leaving hcaller

/-- The caller leaves its reference to the owner, while this accepts commands. -/
theorem Sim.release (h : Sim st c l) (ha : l.Arranged) (hcaller : (st.cmd c₀).caller = .releasing) :
    Follows (st.release c₀) c l := by
  rw [CommandOwner.release]
  split_ifs with haccepting
  · by_cases hc : c = c₀
    · subst hc
      rw [h.cmd] at hcaller
      obtain ⟨_, _, _, hkept⟩ := ha.calling (by rw [hcaller]; rfl)
      have hsim := h.modify (fun cmd => { cmd with caller := .gone }) rfl
      have hlisted := h.listed
      have hreaping := h.reaping
      have hreaped := h.reaped
      have hdetached := h.detached
      rw [hkept] at hlisted hreaping hreaped hdetached
      refine ⟨_, .inr (.transfer hcaller (h.accepting.symm.trans haccepting)), hsim.cmd,
        h.accepting, h.born, h.ring, h.active, ?_, hreaping, hreaped, hdetached, h.notice, h.calls,
        hsim.waits⟩
      show (c :: st.control).count c + st.pc.listed.count c = 1
      rw [count_cons_self]
      simp only [Transfer.at, reduceCtorEq, if_false] at hlisted
      omega
    · refine ⟨l, .inl rfl, { h with cmd := (if_neg hc).trans h.cmd, listed := ?_ }⟩
      rw [count_cons_ne hc]
      exact h.listed
  · refine h.modified (fun _ => rfl) fun hc => ?_
    subst hc
    rw [h.cmd] at hcaller
    exact .keep hcaller

end Callers

/-- The step works on open calls, sockets and fields of commands only. -/
structure SameLists (st st' : CommandOwner) : Prop where
  count : st'.count = st.count
  accepting : st'.accepting = st.accepting
  closeRing : st'.closeRing = st.closeRing
  commandRing : st'.commandRing = st.commandRing
  batch : st'.batch = st.batch
  active : st'.active = st.active
  control : st'.control = st.control
  cancel : st'.cancel = st.cancel
  pc : st'.pc = st.pc

variable {cmd : SockCmd} {place : Place}

section Places

variable {st st' : CommandOwner} {c c₀ s : Nat} {l : Life} {w w' : SockWaits} {calls : List Frame}

theorem SameLists.trans (h : SameLists st st') (h' : SameLists st' st'') : SameLists st st'' :=
  ⟨h'.count.trans h.count, h'.accepting.trans h.accepting, h'.closeRing.trans h.closeRing,
    h'.commandRing.trans h.commandRing, h'.batch.trans h.batch, h'.active.trans h.active,
    h'.control.trans h.control, h'.cancel.trans h.cancel, h'.pc.trans h.pc⟩

/-- A change of a command leaves the lists as they are. -/
theorem SameLists.modify (st : CommandOwner) (c : Nat) (f : SockCmd → SockCmd) :
    SameLists st (st.modify c f) :=
  ⟨rfl, rfl, rfl, rfl, rfl, rfl, rfl, rfl, rfl⟩

theorem SameLists.setSocket (st : CommandOwner) (s : Nat) (w : Option SockWaits) :
    SameLists st (st.setSocket s w) :=
  ⟨rfl, rfl, rfl, rfl, rfl, rfl, rfl, rfl, rfl⟩

theorem SameLists.setFrames (st : CommandOwner) (frames : List Frame) :
    SameLists st { st with frames := frames } :=
  ⟨rfl, rfl, rfl, rfl, rfl, rfl, rfl, rfl, rfl⟩

/-- The command, and where it is, may change when the lists do not. -/
theorem SameLists.sim (hlists : SameLists st st') (h : Sim st c l) (hcmd : st'.cmd c = cmd)
    (hborn : l.place ≠ .unborn ↔ place ≠ .unborn) (hheld : place.held = l.place.held)
    (hcalls : (st'.frames.filter (·.cmd = c)).map Frame.place = place.calls)
    (hwaits : ∀ s, waitCount (st'.sockets s) c = if s = cmd.handle then place.waits else 0) :
    Sim st' c { l with place := place, cmd := cmd } where
  cmd := hcmd
  accepting := hlists.accepting.trans h.accepting
  born := by rw [hlists.count, h.born, hborn]
  ring := by rw [hlists.closeRing, hlists.commandRing, hlists.batch, hheld, h.ring]
  active := by rw [hlists.active, h.active]
  listed := by rw [hlists.control, hlists.pc, h.listed]
  reaping := by rw [hlists.pc, h.reaping]
  reaped := by rw [hlists.pc, h.reaped]
  detached := by rw [hlists.pc, h.detached]
  notice := by rw [hlists.cancel, hlists.pc, h.notice]
  calls := hcalls
  waits := hwaits

/-- `SameLists.sim` for a command that exists before and after. -/
theorem Sim.relocate (h : Sim st c l) (hlists : SameLists st st') (hcmd : st'.cmd c = cmd)
    (hborn : l.place ≠ .unborn) (hborn' : place ≠ .unborn) (hheld : place.held = l.place.held)
    (hcalls : (st'.frames.filter (·.cmd = c)).map Frame.place = place.calls)
    (hwaits : ∀ s, waitCount (st'.sockets s) c = if s = cmd.handle then place.waits else 0) :
    Sim st' c { l with place := place, cmd := cmd } :=
  hlists.sim h hcmd (iff_of_true hborn hborn') hheld hcalls hwaits

/-- `SameLists.sim` for a command that keeps its place. -/
theorem Apart.relocate (hlists : SameLists st st') (hcmd : st'.cmd c = st.cmd c)
    (hcalls : st'.frames.filter (·.cmd = c) = st.frames.filter (·.cmd = c))
    (hwaits : ∀ s, waitCount (st'.sockets s) c = waitCount (st.sockets s) c) : Apart c st st' :=
  fun _ h => hlists.sim h (hcmd.trans h.cmd) Iff.rfl rfl (by rw [hcalls, h.calls])
    fun s => (hwaits s).trans (h.waits s)

theorem waitCount_setSocket (w : Option SockWaits) (i : Nat) :
    waitCount ((st.setSocket s w).sockets i) c =
      if i = s then waitCount w c else waitCount (st.sockets i) c := by
  show waitCount (if i = s then w else st.sockets i) c = _
  split_ifs <;> rfl

/-- The queues of the command's own socket have changed. -/
theorem Sim.setWaits (h : Sim st c l) (hs : s = l.cmd.handle)
    (hcount : w'.all.count c = place.waits) (i : Nat) :
    waitCount ((st.setSocket s (some w')).sockets i) c =
      if i = l.cmd.handle then place.waits else 0 := by
  rw [waitCount_setSocket, hs]
  split_ifs with hi
  · exact hcount
  · rw [h.waits, if_neg hi]

/-- A command in a queue of a socket is one for this socket that waits. -/
theorem Sim.waiting (h : Sim st c l) (hs : st.sockets s = some w) (hc : 0 < w.all.count c) :
    s = l.cmd.handle ∧ l.place.waits = 1 ∧ w.all.count c = 1 := by
  have hwaits := h.waits s
  rw [hs] at hwaits
  change w.all.count c = _ at hwaits
  split_ifs at hwaits with hhandle
  · have hle : l.place.waits ≤ 1 := by
      cases l.place <;> simp [Place.waits]
    omega
  · omega

/-- Without open calls for it, a command that waits is parked. -/
theorem Sim.parked (h : Sim st c l) (hnest : ∀ f ∈ st.frames, f.nesting = true)
    (hwaits : l.place.waits = 1) : l.place = .parked := by
  have hcalls := h.calls
  cases hplace : l.place with
  | parked => rfl
  | trying =>
    rw [hplace] at hcalls
    have hin : Place.trying ∈ (st.frames.filter (·.cmd = c)).map Frame.place := by
      rw [hcalls]
      exact mem_singleton_self _
    obtain ⟨f, hf, hfplace⟩ := mem_map.mp hin
    have hnesting := hnest f (mem_filter.mp hf).1
    cases f <;> simp [Frame.place, Frame.nesting] at hfplace hnesting
  | _ =>
    rw [hplace] at hwaits
    cases hwaits

/-- The calls for a command, when the call on top is for it. -/
theorem Sim.top (h : Sim st c l) {f : Frame} {rest : List Frame} (hframes : st.frames = f :: rest)
    (hcmd : f.cmd = c) : l.place = f.place ∧ rest.filter (·.cmd = c) = [] := by
  have hcalls := h.calls
  rw [hframes, filter_cons_of_pos (by simpa using hcmd), map_cons] at hcalls
  cases hplace : l.place <;> rw [hplace] at hcalls <;>
    simp only [Place.calls, List.cons.injEq, map_eq_nil_iff, reduceCtorEq] at hcalls
  · exact ⟨hcalls.1.symm, hcalls.2⟩
  · exact ⟨hcalls.1.symm, hcalls.2⟩
  · exact ⟨hcalls.1.symm, hcalls.2⟩

theorem filter_call_ne {f : Frame} (hne : f.cmd ≠ c) :
    (f :: calls).filter (·.cmd = c) = calls.filter (·.cmd = c) :=
  filter_cons_of_neg (by simpa using hne)

theorem filter_call_self {f : Frame} (heq : f.cmd = c) :
    (f :: calls).filter (·.cmd = c) = f :: calls.filter (·.cmd = c) :=
  filter_cons_of_pos (by simpa using heq)

theorem erase_count_self {list : List Nat} (h : c ∈ list) : (list.erase c).count c + 1 = list.count c := by
  rw [count_erase_self]
  have := count_pos_iff.mpr h
  omega

theorem unlink_count_ne (hne : c ≠ c₀) (w : SockWaits) : (w.unlink c₀).all.count c = w.all.count c := by
  have herase : ∀ list : List Nat, (list.erase c₀).count c = list.count c :=
    fun list => count_erase_of_ne hne
  rw [SockWaits.unlink]
  split_ifs with h₁ h₂ h₃ h₄
  · simp only [SockWaits.all, count_append, herase]
  · simp only [SockWaits.all, count_append, herase]
  · simp only [SockWaits.all, count_append, herase]
  · simp only [SockWaits.all, count_append, h₄, toList_some, toList_none,
      count_nil, count_cons_ne hne]
  · rfl

/-- Unlinking takes one entry of the command out of the queues. -/
theorem unlink_count_self (w : SockWaits) (c : Nat) :
    (w.unlink c).all.count c = w.all.count c - 1 := by
  rw [SockWaits.unlink]
  split_ifs with h₁ h₂ h₃ h₄
  · have := erase_count_self h₁
    simp only [SockWaits.all, count_append]
    omega
  · have := erase_count_self h₂
    simp only [SockWaits.all, count_append]
    omega
  · have := erase_count_self h₃
    simp only [SockWaits.all, count_append]
    omega
  · simp only [SockWaits.all, count_append, h₄, toList_some, toList_none,
      count_nil, count_cons_self]
    omega
  · have hnone : w.connectWaiter.toList.count c = 0 := by
      rw [count_eq_zero, mem_toList]
      exact h₄
    simp only [SockWaits.all, count_append, hnone, count_eq_zero.mpr h₁,
      count_eq_zero.mpr h₂, count_eq_zero.mpr h₃]

theorem Apart.cancelLocal (hne : c ≠ c₀) (error : Nat) : Apart c st (st.cancelLocal c₀ error) := by
  rw [CommandOwner.cancelLocal]
  split_ifs with hdone
  · exact fun _ h => h
  · split
    · exact .modify hne _
    · rename_i w hw
      refine Apart.trans (.setSocket ?_) (.modify hne _)
      rw [hw]
      exact unlink_count_ne hne w

theorem complete_handle (cmd : SockCmd) (result : Int) (error : Nat) :
    (cmd.complete result error).handle = cmd.handle := by
  rw [SockCmd.complete]
  split_ifs <;> rfl

/-- A command that is cancelled leaves the queue it is in. -/
theorem Sim.cancelLocal (h : Sim st c l) (hdone : l.cmd.done = false)
    (hborn : l.place ≠ .unborn) (hborn' : place ≠ .unborn) (hheld : place.held = l.place.held)
    (hcalls : place.calls = l.place.calls) (hwaits : place.waits = l.place.waits - 1) (error : Nat) :
    Sim (st.cancelLocal c error) c { l with place := place, cmd := l.cmd.complete (-1) error } := by
  have hopen : ¬ (st.cmd c).done = true := by
    rw [h.cmd, hdone]
    exact nofun
  have hcount := h.waits l.cmd.handle
  rw [if_pos rfl] at hcount
  rw [CommandOwner.cancelLocal, if_neg hopen, h.cmd]
  split
  · rename_i hnone
    rw [hnone] at hcount
    refine h.relocate (.modify st c _) ((modify_cmd_self _).trans (by rw [h.cmd])) hborn hborn' hheld
      (h.calls.trans hcalls.symm) fun i => ?_
    rw [complete_handle]
    refine (h.waits i).trans ?_
    change 0 = _ at hcount
    rw [hwaits, ← hcount]
  · rename_i w hw
    rw [hw] at hcount
    refine h.relocate ((SameLists.setSocket st _ _).trans (.modify _ c _))
      ((modify_cmd_self _).trans ?_) hborn hborn' hheld (h.calls.trans hcalls.symm) fun i => ?_
    · show (st.cmd c).complete (-1) error = _
      rw [h.cmd]
    · rw [complete_handle]
      refine h.setWaits rfl ?_ i
      rw [unlink_count_self, hwaits, ← hcount]
      rfl

/-- A command that is done is not cancelled again. -/
theorem cancelLocal_done (hdone : (st.cmd c).done = true) (error : Nat) :
    st.cancelLocal c error = st := by
  rw [CommandOwner.cancelLocal, if_pos hdone]

/-- A command that is parked or finished is cancelled, if it is not done. -/
theorem Sim.cancelled (h : Sim st c l) (hmarks : l.place.Marks l.cmd)
    (hplace : c = c₀ → l.place = .parked ∨ l.place = .finished) (error : Nat) :
    ∃ l', l.Moves l' ∧ Sim (st.cancelLocal c₀ error) c l' ∧ (c = c₀ → l'.place = .finished) ∧
      l'.transfer = l.transfer ∧ l'.notice = l.notice ∧ l'.active = l.active := by
  by_cases hc : c = c₀
  · subst hc
    rcases hplace rfl with hparked | hfinished
    · have hdone : l.cmd.done = false := by
        rw [hparked] at hmarks
        exact hmarks.1.1
      have hborn : Place.finished ≠ .unborn := nofun
      refine ⟨_, .inr (.cancel error hparked), h.cancelLocal hdone ?_ hborn ?_ ?_ ?_ error,
        fun _ => rfl, rfl, rfl, rfl⟩
      · rw [hparked]
        exact nofun
      all_goals rw [hparked]; rfl
    · rw [hfinished] at hmarks
      rw [cancelLocal_done (by rw [h.cmd]; exact hmarks.1)]
      exact ⟨l, .inl rfl, h, fun _ => hfinished, rfl, rfl, rfl⟩
  · exact ⟨l, .inl rfl, Apart.cancelLocal hc error h, fun heq => absurd heq hc, rfl, rfl, rfl⟩

end Places

section Owner

variable {st : CommandOwner} {c c₀ : Nat} {l : Life} {rest : List Nat}

/-- A burst from one of the rings leaves every command among the queued ones. -/
theorem Sim.dequeue (h : Sim st c l) (hbatch : st.batch = []) (close : Bool) :
    Sim (st.dequeue close) c l := by
  have hsplit : ∀ ring : List Nat,
      (ring.take burstSize).count c + (ring.drop burstSize).count c = ring.count c := by
    intro ring
    rw [← count_append, take_append_drop]
  have hring := h.ring
  rw [hbatch, count_nil] at hring
  cases close with
  | true =>
    refine { h with ring := ?_ }
    have hclose := hsplit st.closeRing
    show (st.closeRing.drop burstSize).count c + st.commandRing.count c +
      (st.closeRing.take burstSize).count c = _
    omega
  | false =>
    refine { h with ring := ?_ }
    have hcommand := hsplit st.commandRing
    show st.closeRing.count c + (st.commandRing.drop burstSize).count c +
      (st.commandRing.take burstSize).count c = _
    omega

/-- A command on a ring, or in the burst, is queued. -/
theorem Sim.queued (h : Sim st c l)
    (hc : c ∈ st.closeRing ∨ c ∈ st.commandRing ∨ c ∈ st.batch) : l.place = .queued := by
  have hring := h.ring
  have hpos : 0 < st.closeRing.count c + st.commandRing.count c + st.batch.count c := by
    rcases hc with hc | hc | hc <;> have := count_pos_iff.mpr hc <;> omega
  cases hplace : l.place with
  | queued => rfl
  | _ =>
    rw [hplace] at hring
    simp only [Place.held] at hring
    omega

/-- The owner has taken the command out of the burst and put it on the list of active ones. -/
def CommandOwner.taken (st : CommandOwner) (c : Nat) (rest : List Nat) : CommandOwner :=
  { st.modify c fun cmd => { cmd with state := .running } with
    batch := rest, active := c :: st.active }

theorem Apart.taken (hne : c ≠ c₀) (hbatch : st.batch = c₀ :: rest) :
    Apart c st (st.taken c₀ rest) := by
  intro l h
  have hring := h.ring
  rw [hbatch, count_cons_ne hne] at hring
  exact { h with
    cmd := (if_neg hne).trans h.cmd, ring := hring, active := (count_cons_ne hne _).trans h.active }

/-- The command that is taken is active and has left the burst. -/
theorem Sim.taken (h : Sim st c l) (ha : l.Arranged) (hbatch : st.batch = c :: rest) :
    Sim (st.taken c rest) c { l with
      place := .finished, active := true, cmd := { l.cmd with state := .running } } := by
  have hplace := h.queued (.inr (.inr (by rw [hbatch]; exact mem_cons_self)))
  have hring := h.ring
  have hactive := h.active
  have hcalls := h.calls
  have hwaits := h.waits
  rw [Life.Arranged, hplace] at ha
  rw [hplace] at hring hcalls hwaits
  rw [ha.2.1] at hactive
  have hsim := h.modify (fun cmd => { cmd with state := .running }) rfl
  refine ⟨hsim.cmd, h.accepting, ⟨fun _ => by simp, fun _ => ?_⟩, ?_, ?_, h.listed, h.reaping,
    h.reaped, h.detached, h.notice, hcalls, hwaits⟩
  · exact h.born.mpr (by simp [hplace])
  · show st.closeRing.count c + st.commandRing.count c + rest.count c = 0
    rw [hbatch, count_cons_self] at hring
    simp only [Place.held] at hring
    omega
  · show (c :: st.active).count c = 1
    rw [count_cons_self, hactive]
    rfl

/-- The owner starts the next command of the burst: it runs it, or refuses it because it was
cancelled, has expired or gets no timer. -/
theorem Sim.start (h : Sim st c l) (hinv : l.Inv) (hbatch : st.batch = c₀ :: rest)
    (hframes : st.frames = []) (expired armed : Bool) :
    Follows (st.start c₀ rest expired armed) c l := by
  by_cases hc : c = c₀
  · subst hc
    have hplace := h.queued (.inr (.inr (by rw [hbatch]; exact mem_cons_self)))
    have htaken := h.taken hinv.arranged hbatch
    have hdone : l.cmd.done = false := by
      have hmarks := hinv.marks
      rw [hplace] at hmarks
      exact hmarks.1.1
    have hrefuse : ∀ error, Follows ((st.taken c rest).cancelLocal c error) c l := by
      intro error
      have hborn : Place.finished ≠ .unborn := nofun
      exact ⟨_, .inr (.refuse error hplace), htaken.cancelLocal hdone hborn hborn rfl rfl rfl error⟩
    rw [CommandOwner.start]
    split_ifs with hcancel hexpired harmed
    · exact hrefuse _
    · exact hrefuse _
    · exact ⟨_, .inr (.refuse enobufs hplace), htaken.modify _ (complete_handle _ _ _)⟩
    · rw [h.cmd, ne_eq, not_not] at hcancel
      have hborn : Place.running ≠ .unborn := nofun
      refine ⟨_, .inr (.run l.cmd.deadline hplace hcancel), ?_⟩
      have harm := htaken.modify (fun cmd => { cmd with timer := cmd.deadline }) rfl
      refine harm.relocate (.setFrames _ _) harm.cmd nofun hborn rfl ?_ harm.waits
      rw [hframes]
      simp [Frame.cmd, Frame.place, Place.calls]
  · refine ⟨l, .inl rfl, ?_⟩
    have htaken := Apart.taken hc hbatch h
    rw [CommandOwner.start]
    split_ifs
    · exact Apart.cancelLocal hc _ htaken
    · exact Apart.cancelLocal hc _ htaken
    · exact Apart.modify hc _ htaken
    · refine Apart.relocate ((SameLists.modify _ c₀ _).trans (.setFrames _ _)) (if_neg hc) ?_
        (fun _ => rfl) htaken
      exact filter_call_ne fun heq => hc heq.symm

end Owner

section Transport

variable {st st' : CommandOwner} {c c₀ s : Nat} {l : Life} {w w' : SockWaits}
variable {f : Frame} {calls : List Frame} {next : List Frame}

theorem Frame.place_born (f : Frame) : f.place ≠ .unborn ∧ f.place.held = 0 := by
  cases f <;> exact ⟨nofun, rfl⟩

/-- The call on top returns, or goes on to the completion, and its command changes its place. -/
theorem Sim.returned (h : Sim st c l) (hframes : st.frames = f :: calls) (hf : f.cmd = c)
    (hlists : SameLists st st') (hnext : st'.frames = next ++ calls) (hcmds : ∀ g ∈ next, g.cmd = c)
    (hplaces : next.map Frame.place = place.calls) (hcmd : st'.cmd c = cmd)
    (hborn : place ≠ .unborn) (hheld : place.held = 0)
    (hwaits : ∀ i, waitCount (st'.sockets i) c = if i = cmd.handle then place.waits else 0) :
    Sim st' c { l with place := place, cmd := cmd } := by
  obtain ⟨hplace, hrest⟩ := h.top hframes hf
  obtain ⟨hborn', hheld'⟩ := f.place_born
  refine h.relocate hlists hcmd (by rw [hplace]; exact hborn') hborn
    (by rw [hplace, hheld, hheld']) ?_ hwaits
  have hall : next.filter (·.cmd = c) = next := by
    rw [filter_eq_self]
    intro g hg
    simpa using hcmds g hg
  rw [hnext, filter_append, hrest, append_nil, hall, hplaces]

/-- The call on top belongs to another command. -/
theorem Apart.returned (hframes : st.frames = f :: calls) (hf : f.cmd ≠ c)
    (hlists : SameLists st st') (hnext : st'.frames = next ++ calls)
    (hcmds : ∀ g ∈ next, g.cmd = f.cmd) (hcmd : st'.cmd c = st.cmd c)
    (hwaits : ∀ i, waitCount (st'.sockets i) c = waitCount (st.sockets i) c) : Apart c st st' := by
  refine .relocate hlists hcmd ?_ hwaits
  have hnone : next.filter (·.cmd = c) = [] := by
    rw [filter_eq_nil_iff]
    intro g hg
    rw [hcmds g hg]
    simpa using hf
  rw [hnext, hframes, filter_append, hnone, filter_call_ne hf, nil_append]

/-- The command is completed next, and the transport was not called. -/
theorem Sim.reject (h : Sim st c l) (hframes : st.frames = f :: calls) (htop : f.place = .running)
    (error : Nat) : Follows (st.reject f.cmd calls error) c l := by
  have hcmds : ∀ g ∈ [Frame.completing f.cmd (-1) error], g.cmd = f.cmd := by
    rintro g hg
    rw [mem_singleton.mp hg]
    rfl
  by_cases hc : f.cmd = c
  · obtain ⟨hplace, _⟩ := h.top hframes hc
    have hborn : Place.completing (-1) error ≠ .unborn := nofun
    refine ⟨_, .inr (.reject error (hplace.trans htop)), h.returned hframes hc (.setFrames st _)
      (singleton_append).symm (hc ▸ hcmds) rfl h.cmd hborn rfl fun i => ?_⟩
    exact (h.waits i).trans (by rw [hplace, htop]; rfl)
  · exact ⟨l, .inl rfl, Apart.returned hframes hc (.setFrames st _) (singleton_append).symm hcmds
      rfl (fun _ => rfl) h⟩

/-- The transport has carried the command out. -/
theorem Sim.finish (h : Sim st c l) (hframes : st.frames = f :: calls)
    (htop : f.place.inTransport = true) (hlists : SameLists st st') (hcmds : st'.cmd = st.cmd)
    (hself : f.cmd = c → ∀ i, waitCount (st'.sockets i) c = 0)
    (hother : f.cmd ≠ c → ∀ i, waitCount (st'.sockets i) c = waitCount (st.sockets i) c)
    (value : Int) (errno : Nat) : Follows (st'.finish f.cmd calls value errno) c l := by
  have hlists' : SameLists st (st'.finish f.cmd calls value errno) :=
    hlists.trans ((SameLists.modify _ _ _).trans (.setFrames _ _))
  by_cases hc : f.cmd = c
  · obtain ⟨hplace, _⟩ := h.top hframes hc
    rw [hc] at hlists' ⊢
    have hborn : Place.completing value (transportError value errno) ≠ .unborn := nofun
    refine ⟨_, .inr (.finish value (transportError value errno) (by rw [hplace]; exact htop)),
      h.returned hframes hc hlists' (singleton_append).symm ?_ rfl ?_ hborn rfl fun i => ?_⟩
    · rintro g hg
      rw [mem_singleton.mp hg]
      rfl
    · refine (if_pos rfl).trans ?_
      rw [hcmds, h.cmd]
    · refine (hself hc i).trans ?_
      split_ifs <;> rfl
  · refine ⟨l, .inl rfl, Apart.returned hframes hc hlists' (singleton_append).symm ?_ ?_ (hother hc)
      h⟩
    · rintro g hg
      rw [mem_singleton.mp hg]
      rfl
    · refine (if_neg fun heq => hc heq.symm).trans ?_
      rw [hcmds]

/-- A command that is not in a queue. -/
theorem Sim.no_waits (h : Sim st c l) (hwaits : l.place.waits = 0) (i : Nat) :
    waitCount (st.sockets i) c = 0 := by
  rw [h.waits, hwaits]
  split_ifs <;> rfl

/-- The call on top was not from a queue. -/
theorem Sim.finishRunning (h : Sim st c l) (hframes : st.frames = f :: calls)
    (htop : f.place = .running) (value : Int) (errno : Nat) :
    Follows (st.finish f.cmd calls value errno) c l := by
  refine h.finish hframes (by rw [htop]; rfl) ⟨rfl, rfl, rfl, rfl, rfl, rfl, rfl, rfl, rfl⟩ rfl
    (fun hc i => h.no_waits ?_ i) (fun _ _ => rfl) value errno
  rw [(h.top hframes hc).1, htop]
  rfl

/-- The command of the call on top is parked in its socket. -/
theorem Sim.park (h : Sim st c l) (hframes : st.frames = f :: calls) (htop : f.place = .running)
    (hs : st.sockets s = some w) (hhandle : (st.cmd f.cmd).handle = s) (hadds : w.Adds w' f.cmd)
    (effects : Nat) :
    Follows (st.park f.cmd s w' calls effects) c l := by
  have hlists : SameLists st (st.park f.cmd s w' calls effects) :=
    (SameLists.setSocket _ _ _).trans ((SameLists.modify _ _ _).trans (.setFrames _ _))
  have hcount := hadds c
  by_cases hc : f.cmd = c
  · obtain ⟨hplace, _⟩ := h.top hframes hc
    rw [hc, h.cmd] at hhandle
    rw [if_pos hc.symm] at hcount
    have hborn : Place.parked ≠ .unborn := nofun
    refine ⟨_, .inr (.park effects (hplace.trans htop)), h.returned hframes hc hlists
      (nil_append _).symm nofun rfl ((if_pos hc.symm).trans ?_) hborn rfl fun i => ?_⟩
    · exact congrArg
        (fun cmd : SockCmd => { cmd with state := .parked, effects := cmd.effects + effects }) h.cmd
    refine h.setWaits hhandle.symm ?_ i
    have hnone := h.no_waits (by rw [hplace, htop]; rfl) s
    rw [hs] at hnone
    change w.all.count c = 0 at hnone
    rw [hcount, hnone]
    rfl
  · have hne : c ≠ f.cmd := fun heq => hc heq.symm
    refine ⟨l, .inl rfl, Apart.returned hframes hc hlists (nil_append _).symm nofun (if_neg hne)
      (fun i => ?_) h⟩
    rw [if_neg hne] at hcount
    refine (waitCount_setSocket (some w') i).trans ?_
    split_ifs with hi
    · rw [hi, hs]
      exact hcount
    · rfl

end Transport

end SnowTG.Owner
