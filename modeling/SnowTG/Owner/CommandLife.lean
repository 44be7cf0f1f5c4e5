import SnowTG.Owner.Commands

/-!
# The life of one command

What can happen to a command, without the rings and lists of the owner and without
the other commands: who holds it, where it is, and what its fields say.  A command is
completed once, freed with its last holder, and not carried out once it has been
cancelled in a place where it waits.
-/

namespace SnowTG.Owner

/-- Where a command is. -/
inductive Place where
  | unborn
  /-- with its caller, not submitted -/
  | caller
  /-- in a ring or in a burst taken from one -/
  | queued
  /-- in a call of the transport -/
  | running
  /-- in a call of the transport, and still in a queue of its socket -/
  | trying
  | completing (result : Int) (error : Nat)
  /-- in a queue of its socket -/
  | parked
  | finished
  deriving DecidableEq, Repr

/-- What became of the caller's reference after the caller gave it away. -/
inductive Transfer where
  | kept
  /-- in the control list of an owner that is running -/
  | listed
  | reaping
  | reaped
  /-- in the control list of an owner that is shutting down -/
  | detached
  deriving DecidableEq, Repr

structure Life where
  cmd : SockCmd
  place : Place
  transfer : Transfer := .kept
  active : Bool := false
  notice : Bool := false
  accepting : Bool := true

/-- The owner is at work on the command or keeps it waiting. -/
def Place.atWork : Place → Bool
  | .running | .trying | .completing _ _ | .parked => true
  | _ => false

/-- The transport may be carrying the command out. -/
def Place.inTransport : Place → Bool
  | .running | .trying => true
  | _ => false

/-- The caller of a submitted command, until it drops its reference or gives it away. -/
def CallerPc.calling : CallerPc → Bool
  | .waiting | .notifying _ | .claiming | .releasing => true
  | _ => false

/-- The references that a caller, a transfer and a ring stand for. -/
def CallerPc.held : CallerPc → Nat
  | .gone => 0
  | _ => 1

@[inherit_doc CallerPc.held]
def Transfer.held : Transfer → Nat
  | .kept => 0
  | _ => 1

@[inherit_doc CallerPc.held]
def Place.held : Place → Nat
  | .queued => 1
  | _ => 0

/-- One step in the life of a command. -/
inductive LifeStep : Life → Life → Prop
  | call {l : Life} (type : CmdType) (handle : Nat) (nonblock dontwait deadline : Bool) :
      l.place = .unborn → LifeStep l { l with
        place := .caller
        cmd := { type := type, handle := handle, nonblock := nonblock, dontwait := dontwait,
                 deadline := deadline } }
  | retry {l : Life} : l.cmd.caller = .submitting →
      LifeStep l { l with cmd := { l.cmd with state := .queued } }
  | giveUp {l : Life} : l.cmd.caller = .submitting →
      LifeStep l { l with cmd := { l.cmd with caller := .dropping } }
  | submit {l : Life} : l.cmd.caller = .submitting → l.accepting = true →
      LifeStep l { l with
        place := .queued
        cmd := { l.cmd with
          state := .queued, refs := l.cmd.refs + 1, caller := .waiting, submitted := true } }
  | requestCancel {l : Life} (error : Nat) (leaving : Bool) : l.cmd.caller = .waiting →
      l.cmd.cancelError = 0 → error ≠ 0 →
      LifeStep l { l with
        cmd := { l.cmd with cancelError := error, caller := .notifying leaving } }
  | cancelledBefore {l : Life} : l.cmd.caller = .waiting →
      LifeStep l { l with cmd := { l.cmd with caller := .releasing } }
  | notify {l : Life} (leaving : Bool) : l.cmd.caller = .notifying leaving →
      l.accepting = true →
      LifeStep l { l with
        notice := true
        cmd := { l.cmd with
          refs := l.cmd.refs + 1, caller := .afterCancel leaving } }
  | skipNotice {l : Life} (leaving : Bool) : l.cmd.caller = .notifying leaving →
      LifeStep l { l with
        cmd := { l.cmd with caller := .afterCancel leaving } }
  | observe {l : Life} : l.cmd.caller = .waiting → l.cmd.done = true →
      LifeStep l { l with cmd := { l.cmd with caller := .claiming } }
  | leave {l : Life} : l.cmd.caller = .claiming →
      LifeStep l { l with cmd := { l.cmd with caller := .releasing } }
  | transfer {l : Life} : l.cmd.caller = .releasing → l.accepting = true →
      LifeStep l { l with transfer := .listed, cmd := { l.cmd with caller := .gone } }
  | keep {l : Life} : l.cmd.caller = .releasing →
      LifeStep l { l with cmd := { l.cmd with caller := .dropping } }
  | drop {l : Life} : l.cmd.caller = .dropping →
      LifeStep l { l with cmd := { l.cmd.put with caller := .gone } }
  | run {l : Life} (timer : Bool) : l.place = .queued → l.cmd.cancelError = 0 →
      LifeStep l { l with
        place := .running, active := true
        cmd := { l.cmd with state := .running, timer := timer } }
  | refuse {l : Life} (error : Nat) : l.place = .queued →
      LifeStep l { l with
        place := .finished, active := true
        cmd := { l.cmd with state := .running }.complete (-1) error }
  | reject {l : Life} (error : Nat) : l.place = .running →
      LifeStep l { l with place := .completing (-1) error }
  | finish {l : Life} (result : Int) (error : Nat) : l.place.inTransport = true →
      LifeStep l { l with place := .completing result error, cmd := l.cmd.carriedOut result error }
  | park {l : Life} (effects : Nat) : l.place = .running →
      LifeStep l { l with
        place := .parked
        cmd := { l.cmd with state := .parked, effects := l.cmd.effects + effects } }
  | stay {l : Life} : l.place = .trying → LifeStep l { l with place := .parked }
  | wake {l : Life} : l.place = .parked → l.cmd.cancelError = 0 →
      LifeStep l { l with place := .running, cmd := { l.cmd with state := .running } }
  | attempt {l : Life} : l.place = .parked → l.cmd.cancelError = 0 →
      LifeStep l { l with place := .trying }
  | complete {l : Life} (result : Int) (error : Nat) : l.place = .completing result error →
      LifeStep l { l with place := .finished, cmd := l.cmd.complete result error }
  | cancel {l : Life} (error : Nat) : l.place = .parked →
      LifeStep l { l with place := .finished, cmd := l.cmd.complete (-1) error }
  | connected {l : Life} (result : Int) (error : Nat) : l.place = .parked →
      LifeStep l { l with
        place := .finished
        cmd := { l.cmd with outcome := some (result, error) }.complete result error }
  | dropNotice {l : Life} : l.notice = true →
      LifeStep l { l with notice := false, cmd := l.cmd.put }
  | reap {l : Life} : l.transfer = .listed → l.place = .finished →
      LifeStep l { l with transfer := .reaping }
  | reapOwner {l : Life} : l.transfer = .reaping →
      LifeStep l { l with transfer := .reaped, active := false, cmd := l.cmd.put }
  | reapCaller {l : Life} : l.transfer = .reaped →
      LifeStep l { l with transfer := .kept, cmd := l.cmd.put }
  | shutdown {l : Life} : l.accepting = true → l.transfer ≠ .reaping → l.transfer ≠ .reaped →
      LifeStep l { l with
        accepting := false
        transfer := if l.transfer = .listed then .detached else l.transfer }
  | stopCancel {l : Life} : l.place = .queued → l.accepting = false → l.cmd.cancelError = 0 →
      LifeStep l { l with cmd := { l.cmd with cancelError := enetdown } }
  | stopOwner {l : Life} : l.active = true → l.place = .finished → l.accepting = false →
      LifeStep l { l with active := false, cmd := l.cmd.put }
  | stopCaller {l : Life} : l.transfer = .detached →
      LifeStep l { l with transfer := .kept, cmd := l.cmd.put }

/-- The transport has not answered for the command, and it is not done. -/
def SockCmd.Open (cmd : SockCmd) : Prop :=
  cmd.done = false ∧ cmd.completions = 0 ∧ cmd.outcome = none

/-- What the fields of a command say in each place. -/
def Place.Marks : Place → SockCmd → Prop
  | .unborn, cmd | .caller, cmd => cmd.Open ∧ cmd.submitted = false ∧ cmd.timer = false
  | .queued, cmd => cmd.Open ∧ cmd.submitted = true ∧ cmd.timer = false ∧ cmd.state = .queued
  | .running, cmd | .trying, cmd | .parked, cmd =>
    cmd.Open ∧ cmd.submitted = true ∧ cmd.state ≠ .queued
  | .completing result error, cmd => cmd.done = false ∧ cmd.completions = 0 ∧
      (cmd.outcome = none ∨ cmd.outcome = some (result, error)) ∧ cmd.submitted = true ∧
      cmd.state ≠ .queued
  | .finished, cmd => cmd.done = true ∧ cmd.completions = 1 ∧
      (cmd.outcome = none ∨ cmd.outcome = some (cmd.result, cmd.error)) ∧ cmd.submitted = true ∧
      cmd.timer = false ∧ cmd.state ≠ .queued

section Marks

variable {place : Place} {cmd : SockCmd}

/-- Neither who holds the command nor how often it was carried out matters. -/
theorem Place.Marks.holders (h : place.Marks cmd) (refs freed cancelError effects : Nat)
    (caller : CallerPc) :
    place.Marks { cmd with
      refs := refs, freed := freed, cancelError := cancelError, effects := effects,
      caller := caller } := by
  cases place <;> exact h

theorem Place.Marks.inTransport (h : place.Marks cmd) (hplace : place.inTransport = true) :
    cmd.Open ∧ cmd.submitted = true ∧ cmd.state ≠ .queued := by
  cases place with
  | running => exact h
  | trying => exact h
  | _ => cases hplace

theorem SockCmd.complete_eq (h : cmd.done = false) (result : Int) (error : Nat) :
    cmd.complete result error =
      { cmd with
        timer := false
        result := result
        error := error
        state :=
          if result < 0 && (error = ecanceled || error = etimedout) then .cancelled else .done
        done := true
        completions := cmd.completions + 1 } := by
  rw [SockCmd.complete, if_neg (by rw [h]; exact nofun)]

/-- A completion finishes a command, with what the transport answered if it did. -/
theorem Place.Marks.complete {result : Int} {error : Nat} (hdone : cmd.done = false)
    (hcompletions : cmd.completions = 0) (hsubmitted : cmd.submitted = true)
    (houtcome : cmd.outcome = none ∨ cmd.outcome = some (result, error)) :
    Place.finished.Marks (cmd.complete result error) := by
  rw [SockCmd.complete_eq hdone]
  refine ⟨rfl, by rw [hcompletions], houtcome, hsubmitted, rfl, ?_⟩
  split_ifs <;> exact nofun

/-- The place of a command is one that its fields allow. -/
theorem LifeStep.marks {l l' : Life} (h : LifeStep l l') (hmarks : l.place.Marks l.cmd)
    (hcaller : l.cmd.caller = .submitting → l.place = .caller) : l'.place.Marks l'.cmd := by
  cases h with
  | call type handle nonblock dontwait deadline hplace => exact ⟨⟨rfl, rfl, rfl⟩, rfl, rfl⟩
  | retry hsubmitting =>
    rw [hcaller hsubmitting] at hmarks ⊢
    exact hmarks
  | submit hsubmitting haccepting =>
    rw [hcaller hsubmitting] at hmarks
    exact ⟨hmarks.1, rfl, hmarks.2.2, rfl⟩
  | run timer hplace hzero | park effects hplace | wake hplace hzero =>
    rw [hplace] at hmarks
    exact ⟨hmarks.1, hmarks.2.1, nofun⟩
  | refuse error hplace | cancel error hplace =>
    rw [hplace] at hmarks
    obtain ⟨⟨hdone, hcompletions, houtcome⟩, hsubmitted, _⟩ := hmarks
    exact .complete hdone hcompletions hsubmitted (.inl houtcome)
  | reject error hplace =>
    rw [hplace] at hmarks
    obtain ⟨⟨hdone, hcompletions, houtcome⟩, hsubmitted, hstate⟩ := hmarks
    exact ⟨hdone, hcompletions, .inl houtcome, hsubmitted, hstate⟩
  | finish result error hplace =>
    obtain ⟨⟨hdone, hcompletions, _⟩, hsubmitted, hstate⟩ := hmarks.inTransport hplace
    exact ⟨hdone, hcompletions, .inr rfl, hsubmitted, hstate⟩
  | stay hplace | attempt hplace hzero =>
    rw [hplace] at hmarks
    exact hmarks
  | complete result error hplace =>
    rw [hplace] at hmarks
    obtain ⟨hdone, hcompletions, houtcome, hsubmitted, _⟩ := hmarks
    exact .complete hdone hcompletions hsubmitted houtcome
  | connected result error hplace =>
    rw [hplace] at hmarks
    obtain ⟨⟨hdone, hcompletions, _⟩, hsubmitted, _⟩ := hmarks
    exact .complete hdone hcompletions hsubmitted (.inr rfl)
  | reap hlisted hplace | shutdown haccepting hreaping hreaped => exact hmarks
  | _ => exact hmarks.holders _ _ _ _ _

end Marks

namespace Life

/-- What holds before a command is submitted. -/
structure Unsent (l : Life) : Prop where
  transfer : l.transfer = .kept
  active : l.active = false
  notice : l.notice = false
  cancelError : l.cmd.cancelError = 0

/-- What holds once it is. -/
structure Sent (l : Life) : Prop where
  caller : l.cmd.caller ≠ .submitting
  given : l.transfer ≠ .kept → l.cmd.caller = .gone
  listed : l.transfer ≠ .kept → l.transfer ≠ .detached → l.accepting = true
  notice : l.notice = true → l.cmd.cancelError ≠ 0 ∧ ∀ leaving, l.cmd.caller ≠ .notifying leaving
  notifying : ∀ leaving, l.cmd.caller = .notifying leaving → l.cmd.cancelError ≠ 0

/-- The references of a finished command: while the owner is running, it keeps its own one until the
caller's one has come to it. -/
structure Settled (l : Life) : Prop where
  reaping : l.transfer = .reaping → l.active = true
  reaped : l.transfer = .reaped → l.active = false
  owned : l.accepting = true → l.cmd.caller ≠ .gone ∨ l.transfer = .listed → l.active = true

/-- Who holds the command in each place. -/
def Arranged (l : Life) : Prop :=
  match l.place with
  | .unborn => l.cmd.caller = .gone ∧ l.Unsent
  | .caller => (l.cmd.caller = .submitting ∨ l.cmd.caller = .dropping ∨ l.cmd.caller = .gone) ∧
      l.Unsent
  | .queued => l.Sent ∧ l.active = false ∧ l.transfer ≠ .reaping ∧ l.transfer ≠ .reaped
  | .finished => l.Sent ∧ l.Settled
  | _ => l.Sent ∧ l.active = true ∧ l.transfer ≠ .reaping ∧ l.transfer ≠ .reaped

/-- The number of holders: the caller, the owner with the caller's reference, the ring, the list of
active commands, and the notification of a cancellation. -/
def holders (l : Life) : Nat :=
  l.cmd.caller.held + l.transfer.held + l.place.held + l.active.toNat + l.notice.toNat

/-- The references are those of the holders, and the command is freed with the last one. -/
structure Counted (l : Life) : Prop where
  refs : l.cmd.refs = l.holders
  freed : l.cmd.freed = if l.cmd.refs = 0 ∧ l.place ≠ .unborn then 1 else 0

/-- What holds in every state of a life. -/
structure Inv (l : Life) : Prop where
  marks : l.place.Marks l.cmd
  arranged : l.Arranged
  counted : l.Counted

variable {l l' : Life} {place : Place} {cmd : SockCmd}

section

variable (h : l.Arranged)
include h

theorem Arranged.atWork (hplace : l.place.atWork = true) :
    l.Sent ∧ l.active = true ∧ l.transfer ≠ .reaping ∧ l.transfer ≠ .reaped := by
  rw [Arranged] at h
  cases hp : l.place <;> simp only [hp] at h hplace <;> first | exact h | cases hplace

/-- A command that was submitted: its caller, or a reference given away, shows it. -/
theorem Arranged.sent (hplace : l.place ≠ .unborn) (hplace' : l.place ≠ .caller) : l.Sent := by
  rw [Arranged] at h
  cases hp : l.place <;> simp only [hp] at h <;> first | exact h.1 | exact absurd hp ‹_›

theorem Arranged.submitting (hcaller : l.cmd.caller = .submitting) : l.place = .caller := by
  by_contra hplace
  by_cases hunborn : l.place = .unborn
  · rw [Arranged, hunborn] at h
    rw [h.1] at hcaller
    cases hcaller
  · exact (h.sent hunborn hplace).caller hcaller

theorem Arranged.born
    (hheld : l.cmd.caller ≠ .gone ∨ l.transfer ≠ .kept ∨ l.active = true ∨ l.notice = true) :
    l.place ≠ .unborn := by
  intro hplace
  rw [Arranged, hplace] at h
  obtain ⟨hgone, hunsent⟩ := h
  rcases hheld with hcaller | htransfer | hactive | hnotice
  · exact hcaller hgone
  · exact htransfer hunsent.transfer
  · rw [hunsent.active] at hactive
    cases hactive
  · rw [hunsent.notice] at hnotice
    cases hnotice

theorem Arranged.given_or_notice (hheld : l.transfer ≠ .kept ∨ l.notice = true) :
    l.place ≠ .unborn ∧ l.place ≠ .caller := by
  refine ⟨h.born (.inr (hheld.imp_right .inr)), fun hplace => ?_⟩
  rw [Arranged, hplace] at h
  rcases hheld with htransfer | hnotice
  · exact htransfer h.2.transfer
  · rw [h.2.notice] at hnotice
    cases hnotice

/-- The command has stayed in its place and with its owner. -/
theorem Arranged.update (hplace : l.place ≠ .unborn) (hplace' : l.place ≠ .caller) (hsent : l'.Sent)
    (hsame : l'.place = l.place) (hactive : l'.active = l.active)
    (htransfer : l'.transfer ≠ .reaping ∧ l'.transfer ≠ .reaped ∨ l'.transfer = l.transfer)
    (howned : l'.accepting = true → l'.cmd.caller ≠ .gone ∨ l'.transfer = .listed →
      l.accepting = true ∧ (l.cmd.caller ≠ .gone ∨ l.transfer = .listed)) : l'.Arranged := by
  have hother : l.transfer ≠ .reaping ∧ l.transfer ≠ .reaped →
      l'.transfer ≠ .reaping ∧ l'.transfer ≠ .reaped := by
    intro hold
    rcases htransfer with hnew | hkept
    · exact hnew
    · rw [hkept]
      exact hold
  have hsettled : l.Settled → l'.Settled := by
    intro hold
    refine ⟨fun hreaping => ?_, fun hreaped => ?_, fun haccepting hheld => ?_⟩
    · rw [hactive]
      rcases htransfer with hnew | hkept
      · exact absurd hreaping hnew.1
      · exact hold.reaping (hkept ▸ hreaping)
    · rw [hactive]
      rcases htransfer with hnew | hkept
      · exact absurd hreaped hnew.2
      · exact hold.reaped (hkept ▸ hreaped)
    · rw [hactive]
      obtain ⟨haccepting, hheld⟩ := howned haccepting hheld
      exact hold.owned haccepting hheld
  rw [Arranged, hsame]
  rw [Arranged] at h
  cases hp : l.place with
  | unborn => exact absurd hp hplace
  | caller => exact absurd hp hplace'
  | finished =>
    simp only [hp] at h
    exact ⟨hsent, hsettled h.2⟩
  | _ =>
    simp only [hp] at h
    exact ⟨hsent, hactive.trans h.2.1, hother h.2.2⟩

end

/-- The command has gone on at its owner, from a place where the owner has it. -/
theorem Arranged.move (hsent : l.Sent) (htransfer : l.transfer ≠ .reaping ∧ l.transfer ≠ .reaped)
    (hplace : place.atWork = true ∨ place = .finished) (hcaller : cmd.caller = l.cmd.caller)
    (hcancel : cmd.cancelError = l.cmd.cancelError) :
    Arranged { l with place := place, cmd := cmd, active := true } := by
  have hsent' : Sent { l with place := place, cmd := cmd, active := true } := by
    obtain ⟨h1, h2, h3, h4, h5⟩ := hsent
    rw [← hcaller] at h1 h2 h4 h5
    rw [← hcancel] at h4 h5
    exact ⟨h1, h2, h3, h4, h5⟩
  rcases hplace with hwork | rfl
  · cases place with
    | running | trying | parked | completing result error => exact ⟨hsent', rfl, htransfer⟩
    | _ => cases hwork
  · exact ⟨hsent', fun h => absurd h htransfer.1, fun h => absurd h htransfer.2, fun _ _ => rfl⟩

theorem Arranged.moveAtWork (h : l.Arranged) (hwork : l.place.atWork = true)
    (hplace : place.atWork = true ∨ place = .finished) (hcaller : cmd.caller = l.cmd.caller)
    (hcancel : cmd.cancelError = l.cmd.cancelError) :
    Arranged { l with place := place, cmd := cmd } := by
  obtain ⟨hsent, hactive, htransfer⟩ := h.atWork hwork
  have hmoved := Arranged.move hsent htransfer hplace hcaller hcancel
  rw [← hactive] at hmoved
  exact hmoved

/-- A completion changes neither who holds the command nor how often it was carried out. -/
theorem complete_keeps (cmd : SockCmd) (result : Int) (error : Nat) :
    ((cmd.complete result error).caller = cmd.caller ∧
      (cmd.complete result error).cancelError = cmd.cancelError) ∧
      ((cmd.complete result error).refs = cmd.refs ∧
        (cmd.complete result error).freed = cmd.freed) ∧
      (cmd.complete result error).effects = cmd.effects := by
  rw [SockCmd.complete]
  split_ifs <;> exact ⟨⟨rfl, rfl⟩, ⟨rfl, rfl⟩, rfl⟩

theorem inTransport_atWork (h : place.inTransport = true) : place.atWork = true := by
  cases place <;> first | rfl | exact absurd h (by decide)

/-- A caller that is waiting or leaving has not given its reference away. -/
theorem Arranged.calling (h : l.Arranged) (hcaller : l.cmd.caller.calling = true) :
    l.place ≠ .unborn ∧ l.place ≠ .caller ∧ l.Sent ∧ l.transfer = .kept := by
  have hgone : l.cmd.caller ≠ .gone := by
    intro hgone
    rw [hgone] at hcaller
    cases hcaller
  have hborn := h.born (.inl hgone)
  have hsubmitted : l.place ≠ .caller := by
    intro hplace
    rw [Arranged, hplace] at h
    rcases h.1 with heq | heq | heq <;> rw [heq] at hcaller <;> exact absurd hcaller (by decide)
  have hsent := h.sent hborn hsubmitted
  refine ⟨hborn, hsubmitted, hsent, ?_⟩
  by_contra hgiven
  exact hgone (hsent.given hgiven)

theorem Sent.of_kept (htransfer : l.transfer = .kept) (hcaller : l.cmd.caller ≠ .submitting)
    (hnotice : l.notice = true → l.cmd.cancelError ≠ 0 ∧ ∀ leaving, l.cmd.caller ≠ .notifying leaving)
    (hnotifying : ∀ leaving, l.cmd.caller = .notifying leaving → l.cmd.cancelError ≠ 0) : l.Sent :=
  ⟨hcaller, fun hgiven => absurd htransfer hgiven, fun hgiven => absurd htransfer hgiven, hnotice,
    hnotifying⟩

/-- A step of the caller that neither submits the command nor gives its reference away. -/
theorem Arranged.callerStep (h : l.Arranged) (hcaller : l.cmd.caller.calling = true) {notice : Bool}
    (hnext : cmd.caller ≠ .submitting)
    (hnotice : notice = true → cmd.cancelError ≠ 0 ∧ ∀ leaving, cmd.caller ≠ .notifying leaving)
    (hnotifying : ∀ leaving, cmd.caller = .notifying leaving → cmd.cancelError ≠ 0) :
    Arranged { l with cmd := cmd, notice := notice } := by
  obtain ⟨hborn, hsubmitted, _, hkept⟩ := h.calling hcaller
  refine h.update hborn hsubmitted (.of_kept hkept hnext hnotice hnotifying) rfl rfl (.inr rfl) ?_
  refine fun haccepting _ => ⟨haccepting, .inl fun hgone => ?_⟩
  rw [hgone] at hcaller
  cases hcaller

theorem Arranged.reaping (h : l.Arranged) (htransfer : l.transfer = .reaping ∨ l.transfer = .reaped) :
    l.place = .finished ∧ l.Sent ∧ l.Settled := by
  have hplace := h.given_or_notice
    (.inl (by rcases htransfer with heq | heq <;> rw [heq] <;> exact nofun))
  rw [Arranged] at h
  cases hp : l.place with
  | finished =>
    rw [hp] at h
    exact ⟨rfl, h⟩
  | unborn => exact absurd hp hplace.1
  | caller => exact absurd hp hplace.2
  | _ =>
    rw [hp] at h
    exact htransfer.elim (fun heq => absurd heq h.2.2.1) fun heq => absurd heq h.2.2.2

/-- Caller, owner and lists keep to their order in every step. -/
theorem Arranged.step (h : l.Arranged) (hstep : LifeStep l l') : l'.Arranged := by
  cases hstep with
  | call type handle nonblock dontwait deadline hplace =>
    rw [Arranged, hplace] at h
    exact ⟨.inl rfl, h.2.transfer, h.2.active, h.2.notice, rfl⟩
  | retry hcaller =>
    have hplace := h.submitting hcaller
    rw [Arranged, hplace] at h ⊢
    exact ⟨.inl hcaller, { h.2 with }⟩
  | giveUp hcaller =>
    have hplace := h.submitting hcaller
    rw [Arranged, hplace] at h ⊢
    exact ⟨.inr (.inl rfl), { h.2 with }⟩
  | submit hcaller haccepting =>
    have hplace := h.submitting hcaller
    rw [Arranged, hplace] at h
    obtain ⟨_, htransfer, hactive, hnotice, _⟩ := h
    refine ⟨.of_kept htransfer nofun (fun htold => ?_) nofun, hactive, ?_, ?_⟩
    · rw [hnotice] at htold
      cases htold
    · rw [htransfer]
      exact nofun
    · rw [htransfer]
      exact nofun
  | requestCancel error leaving hcaller hzero herror =>
    obtain ⟨_, _, hsent, _⟩ := h.calling (by rw [hcaller]; rfl)
    refine h.callerStep (by rw [hcaller]; rfl) nofun
      (fun htold => absurd hzero (hsent.notice htold).1) fun _ _ => herror
  | cancelledBefore hcaller | observe hcaller hdone | leave hcaller | keep hcaller =>
    obtain ⟨_, _, hsent, _⟩ := h.calling (by rw [hcaller]; rfl)
    exact h.callerStep (by rw [hcaller]; rfl) nofun
      (fun htold => ⟨(hsent.notice htold).1, nofun⟩) nofun
  | notify leaving hcaller haccepting =>
    obtain ⟨_, _, hsent, _⟩ := h.calling (by rw [hcaller]; rfl)
    refine h.callerStep (by rw [hcaller]; rfl) ?_
      (fun _ => ⟨hsent.notifying leaving hcaller, ?_⟩) ?_
    · cases leaving <;> exact nofun
    · cases leaving <;> exact nofun
    · cases leaving <;> exact nofun
  | skipNotice leaving hcaller =>
    obtain ⟨_, _, hsent, _⟩ := h.calling (by rw [hcaller]; rfl)
    refine h.callerStep (by rw [hcaller]; rfl) ?_
      (fun htold => absurd hcaller ((hsent.notice htold).2 leaving)) ?_
    · cases leaving <;> exact nofun
    · cases leaving <;> exact nofun
  | transfer hcaller haccepting =>
    obtain ⟨hborn, hsubmitted, hsent, hkept⟩ :=
      h.calling (by rw [hcaller]; rfl)
    refine h.update hborn hsubmitted ⟨nofun, fun _ => rfl, fun _ _ => haccepting,
      fun htold => ⟨(hsent.notice htold).1, nofun⟩, nofun⟩ rfl rfl (.inl ⟨nofun, nofun⟩) ?_
    exact fun _ _ => ⟨haccepting, .inl (by simp [hcaller])⟩
  | drop hcaller =>
    by_cases hplace : l.place = .caller
    · rw [Arranged, hplace] at h ⊢
      exact ⟨.inr (.inr rfl), { h.2 with }⟩
    · have hborn := h.born (.inl (by simp [hcaller]))
      have hsent := h.sent hborn hplace
      refine h.update hborn hplace ⟨nofun, fun _ => rfl, hsent.listed,
        fun htold => ⟨(hsent.notice htold).1, nofun⟩, nofun⟩ rfl rfl (.inr rfl) ?_
      exact fun haccepting _ => ⟨haccepting, .inl (by simp [hcaller])⟩
  | run timer hplace hzero =>
    rw [Arranged, hplace] at h
    exact .move h.1 h.2.2 (.inl rfl) rfl rfl
  | refuse error hplace =>
    rw [Arranged, hplace] at h
    exact .move h.1 h.2.2 (.inr rfl) (complete_keeps ..).1.1 (complete_keeps ..).1.2
  | reject error hplace | park effects hplace | stay hplace | wake hplace hzero
  | attempt hplace hzero =>
    exact h.moveAtWork (by rw [hplace]; rfl) (.inl rfl) rfl rfl
  | finish result error hplace =>
    exact h.moveAtWork (inTransport_atWork hplace) (.inl rfl) rfl rfl
  | complete result error hplace | cancel error hplace | connected result error hplace =>
    exact h.moveAtWork (by rw [hplace]; rfl) (.inr rfl) (complete_keeps ..).1.1
      (complete_keeps ..).1.2
  | dropNotice hnotice =>
    obtain ⟨hborn, hsubmitted⟩ := h.given_or_notice (.inr hnotice)
    have hsent := h.sent hborn hsubmitted
    exact h.update hborn hsubmitted { hsent with notice := nofun } rfl rfl (.inr rfl)
      fun haccepting hheld => ⟨haccepting, hheld⟩
  | reap hlisted hplace =>
    rw [Arranged, hplace] at h ⊢
    obtain ⟨hsent, hsettled⟩ := h
    have haccepting := hsent.listed (by simp [hlisted]) (by simp [hlisted])
    refine ⟨{ hsent with
      given := fun _ => hsent.given (by simp [hlisted]), listed := fun _ _ => haccepting },
      fun _ => ?_, nofun, fun _ _ => ?_⟩
    · exact hsettled.owned haccepting (.inr hlisted)
    · exact hsettled.owned haccepting (.inr hlisted)
  | reapOwner hreaping =>
    obtain ⟨hplace, hsent, hsettled⟩ := h.reaping (.inl hreaping)
    rw [Arranged, hplace]
    have hgone := hsent.given (by simp [hreaping])
    refine ⟨{ hsent with given := fun _ => hgone, listed := fun _ _ => ?_ }, nofun,
      fun _ => rfl, fun _ hheld => ?_⟩
    · exact hsent.listed (by simp [hreaping]) (by simp [hreaping])
    · exact hheld.elim (fun hcaller => absurd hgone hcaller) nofun
  | reapCaller hreaped =>
    obtain ⟨hplace, hsent, hsettled⟩ := h.reaping (.inr hreaped)
    rw [Arranged, hplace]
    have hgone := hsent.given (by simp [hreaped])
    refine ⟨.of_kept rfl hsent.caller hsent.notice hsent.notifying, nofun, nofun, fun _ hheld => ?_⟩
    exact hheld.elim (fun hcaller => absurd hgone hcaller) nofun
  | shutdown haccepting hreaping hreaped =>
    by_cases hplace : l.place = .unborn ∨ l.place = .caller
    · have hunsent : l.Unsent := by
        rw [Arranged] at h
        rcases hplace with hp | hp <;> rw [hp] at h <;> exact h.2
      have hkept : (if l.transfer = .listed then .detached else l.transfer) = Transfer.kept := by
        rw [hunsent.transfer]
        rfl
      rw [Arranged] at h ⊢
      rcases hplace with hp | hp <;> rw [hp] at h ⊢ <;>
        exact ⟨h.1, hkept, hunsent.active, hunsent.notice, hunsent.cancelError⟩
    · rw [not_or] at hplace
      have hsent := h.sent hplace.1 hplace.2
      refine h.update hplace.1 hplace.2 { hsent with
        given := fun hgiven => hsent.given ?_, listed := ?_ } rfl rfl (.inl ?_) nofun
      · intro hkept
        rw [hkept] at hgiven
        exact hgiven rfl
      · intro hgiven hdetached
        cases htransfer : l.transfer <;> simp_all
      · cases htransfer : l.transfer <;> simp_all
  | stopCancel hplace haccepting hzero =>
    rw [Arranged, hplace] at h ⊢
    obtain ⟨hsent, hrest⟩ := h
    have herror : enetdown ≠ 0 := by decide
    exact ⟨⟨hsent.caller, hsent.given, hsent.listed,
      fun htold => ⟨herror, (hsent.notice htold).2⟩, fun _ _ => herror⟩, hrest⟩
  | stopOwner hactive hplace haccepting =>
    rw [Arranged, hplace] at h ⊢
    obtain ⟨hsent, hsettled⟩ := h
    refine ⟨{ hsent with }, fun hreaping => ?_, fun _ => rfl, fun hwrong => ?_⟩
    · replace hreaping : l.transfer = .reaping := hreaping
      have htrue := hsent.listed (by simp [hreaping]) (by simp [hreaping])
      rw [haccepting] at htrue
      cases htrue
    · rw [haccepting] at hwrong
      cases hwrong
  | stopCaller hdetached =>
    obtain ⟨hborn, hsubmitted⟩ := h.given_or_notice (.inl (by simp [hdetached]))
    have hsent := h.sent hborn hsubmitted
    refine h.update hborn hsubmitted (.of_kept rfl hsent.caller hsent.notice hsent.notifying) rfl
      rfl (.inl ⟨nofun, nofun⟩) fun _ hheld => ?_
    have hgone := hsent.given (by simp [hdetached])
    exact hheld.elim (fun hcaller => absurd hgone hcaller) nofun

theorem Counted.same (h : l.Counted) (hplace : l'.place = .unborn ↔ l.place = .unborn)
    (hrefs : l'.cmd.refs = l.cmd.refs) (hfreed : l'.cmd.freed = l.cmd.freed)
    (hholders : l'.holders = l.holders) : l'.Counted := by
  refine ⟨?_, ?_⟩
  · rw [hrefs, h.refs, hholders]
  · rw [hfreed, h.freed, hrefs]
    simp only [ne_eq, hplace]

theorem Counted.add (h : l.Counted) (hheld : l.holders ≠ 0) (hrefs : l'.cmd.refs = l.cmd.refs + 1)
    (hfreed : l'.cmd.freed = l.cmd.freed) (hholders : l'.holders = l.holders + 1) : l'.Counted := by
  have hold := h.refs
  refine ⟨by rw [hrefs, hold, hholders], ?_⟩
  rw [hfreed, h.freed, if_neg (by omega), if_neg (by omega)]

theorem Counted.drop (h : l.Counted) (hborn : l'.place ≠ .unborn)
    (hrefs : l'.cmd.refs = l.cmd.put.refs) (hfreed : l'.cmd.freed = l.cmd.put.freed)
    (hholders : l'.holders + 1 = l.holders) : l'.Counted := by
  have hold := h.refs
  have hnot : l.cmd.freed = 0 := by rw [h.freed, if_neg (by omega)]
  rw [SockCmd.put] at hrefs hfreed
  simp only [hnot, Nat.zero_add] at hrefs hfreed
  refine ⟨by omega, ?_⟩
  rw [hfreed]
  by_cases hlast : l.cmd.refs = 1
  · rw [if_pos hlast, if_pos ⟨by omega, hborn⟩]
  · rw [if_neg hlast, if_neg (by omega)]

/-- A command that goes on at its owner keeps its holders. -/
theorem Counted.move (h : l.Counted) (hold : l.place.atWork = true)
    (hnew : place.atWork = true ∨ place = .finished) (hcaller : cmd.caller = l.cmd.caller)
    (hrefs : cmd.refs = l.cmd.refs) (hfreed : cmd.freed = l.cmd.freed) :
    Counted { l with place := place, cmd := cmd } := by
  have hwork : ∀ {p : Place}, p.atWork = true ∨ p = .finished → p ≠ .unborn ∧ p.held = 0 := by
    intro p hp
    cases p <;> simp_all [Place.atWork, Place.held]
  obtain ⟨hborn, hout⟩ := hwork (.inl hold)
  obtain ⟨hborn', hout'⟩ := hwork hnew
  refine h.same ⟨fun heq => absurd heq hborn', fun heq => absurd heq hborn⟩ hrefs hfreed ?_
  simp only [holders, hcaller, hout, hout']

/-- A command that its owner takes out of a ring is held by the owner as before. -/
theorem Counted.take (h : l.Counted) (hplace : l.place = .queued) (hactive : l.active = false)
    (hnew : place ≠ .unborn ∧ place.held = 0) (hcaller : cmd.caller = l.cmd.caller)
    (hrefs : cmd.refs = l.cmd.refs) (hfreed : cmd.freed = l.cmd.freed) :
    Counted { l with place := place, cmd := cmd, active := true } := by
  refine h.same ⟨fun heq => absurd heq hnew.1, fun heq => ?_⟩ hrefs hfreed ?_
  · rw [hplace] at heq
    cases heq
  · have hqueued : l.place.held = 1 := by rw [hplace]; rfl
    simp only [holders, hcaller, hnew.2, hqueued, hactive, Bool.toNat_true, Bool.toNat_false]

/-- Every step keeps the references those of the holders. -/
theorem Counted.step (h : l.Counted) (ha : l.Arranged) (hstep : LifeStep l l') : l'.Counted := by
  cases hstep with
  | call type handle nonblock dontwait deadline hplace =>
    rw [Arranged, hplace] at ha
    obtain ⟨_, htransfer, hactive, hnotice, _⟩ := ha
    refine ⟨?_, rfl⟩
    simp [holders, htransfer, hactive, hnotice, CallerPc.held, Transfer.held, Place.held]
  | retry hcaller | stopCancel hplace haccepting hzero => exact h.same Iff.rfl rfl rfl rfl
  | giveUp hcaller | requestCancel error leaving hcaller hzero herror | cancelledBefore hcaller
  | observe hcaller hdone | leave hcaller | keep hcaller =>
    refine h.same Iff.rfl rfl rfl ?_
    simp only [holders, hcaller, CallerPc.held]
  | submit hcaller haccepting =>
    have hplace := ha.submitting hcaller
    refine h.add ?_ rfl rfl ?_
    · simp only [holders, hcaller, CallerPc.held]
      omega
    · simp only [holders, hcaller, hplace, CallerPc.held, Place.held]
      omega
  | notify leaving hcaller haccepting =>
    obtain ⟨hborn, _, hsent, _⟩ := ha.calling (by rw [hcaller]; rfl)
    have hnone : l.notice = false := by
      rw [← Bool.not_eq_true]
      exact fun htold => (hsent.notice htold).2 leaving hcaller
    have hold : l.cmd.caller.held = 1 := by rw [hcaller]; rfl
    have hnext : (CallerPc.afterCancel leaving).held = 1 := by
      cases leaving <;> rfl
    refine h.add ?_ rfl rfl ?_
    · simp only [holders, hcaller, CallerPc.held]
      omega
    · simp only [holders, hold, hnone, hnext, Bool.toNat_true, Bool.toNat_false]
  | skipNotice leaving hcaller =>
    have hold : l.cmd.caller.held = 1 := by rw [hcaller]; rfl
    have hnext : (CallerPc.afterCancel leaving).held = 1 := by
      cases leaving <;> rfl
    refine h.same Iff.rfl rfl rfl ?_
    simp only [holders, hold, hnext]
  | transfer hcaller haccepting =>
    obtain ⟨_, _, _, hkept⟩ := ha.calling (by rw [hcaller]; rfl)
    refine h.same Iff.rfl rfl rfl ?_
    simp only [holders, hcaller, hkept, CallerPc.held, Transfer.held]
  | drop hcaller =>
    refine h.drop (ha.born (.inl (by simp [hcaller]))) rfl rfl ?_
    simp only [holders, hcaller, CallerPc.held]
    omega
  | run timer hplace hzero =>
    rw [Arranged, hplace] at ha
    exact h.take hplace ha.2.1 ⟨nofun, rfl⟩ rfl rfl rfl
  | refuse error hplace =>
    rw [Arranged, hplace] at ha
    exact h.take hplace ha.2.1 ⟨nofun, rfl⟩ (complete_keeps ..).1.1 (complete_keeps ..).2.1.1
      (complete_keeps ..).2.1.2
  | reject error hplace | park effects hplace | stay hplace | wake hplace hzero
  | attempt hplace hzero =>
    exact h.move (by rw [hplace]; rfl) (.inl rfl) rfl rfl rfl
  | finish result error hplace =>
    exact h.move (inTransport_atWork hplace) (.inl rfl) rfl rfl rfl
  | complete result error hplace | cancel error hplace | connected result error hplace =>
    exact h.move (by rw [hplace]; rfl) (.inr rfl) (complete_keeps ..).1.1 (complete_keeps ..).2.1.1
      (complete_keeps ..).2.1.2
  | dropNotice hnotice =>
    refine h.drop (ha.given_or_notice (.inr hnotice)).1 rfl rfl ?_
    simp only [holders, hnotice, SockCmd.put, Bool.toNat_true, Bool.toNat_false]
  | reap hlisted hplace =>
    refine h.same Iff.rfl rfl rfl ?_
    simp only [holders, hlisted, Transfer.held]
  | reapOwner hreaping =>
    obtain ⟨hplace, _, hsettled⟩ := ha.reaping (.inl hreaping)
    refine h.drop (by rw [hplace]; exact nofun) rfl rfl ?_
    simp only [holders, hreaping, hsettled.reaping hreaping, SockCmd.put, Transfer.held,
      Bool.toNat_true, Bool.toNat_false]
    omega
  | reapCaller hreaped =>
    obtain ⟨hplace, _⟩ := ha.reaping (.inr hreaped)
    refine h.drop (by rw [hplace]; exact nofun) rfl rfl ?_
    simp only [holders, hreaped, SockCmd.put, Transfer.held]
    omega
  | shutdown haccepting hreaping hreaped =>
    refine h.same Iff.rfl rfl rfl ?_
    have hsame : (if l.transfer = .listed then .detached else l.transfer).held =
        l.transfer.held := by
      cases l.transfer <;> rfl
    simp only [holders, hsame]
  | stopOwner hactive hplace haccepting =>
    refine h.drop (by rw [hplace]; exact nofun) rfl rfl ?_
    simp only [holders, hactive, SockCmd.put, Bool.toNat_true, Bool.toNat_false]
    omega
  | stopCaller hdetached =>
    refine h.drop (ha.given_or_notice (.inl (by simp [hdetached]))).1 rfl rfl ?_
    simp only [holders, hdetached, SockCmd.put, Transfer.held]
    omega

theorem Inv.step (h : l.Inv) (hstep : LifeStep l l') : l'.Inv :=
  ⟨hstep.marks h.marks h.arranged.submitting, h.arranged.step hstep,
    h.counted.step h.arranged hstep⟩

/-- The command was cancelled or is done, and the transport is not carrying it out. -/
def Barred (l : Life) : Prop :=
  (l.cmd.done = true ∨ l.cmd.cancelError ≠ 0) ∧ l.place.inTransport = false

theorem complete_done (cmd : SockCmd) (result : Int) (error : Nat) :
    (cmd.complete result error).done = true := by
  cases hdone : cmd.done with
  | true =>
    rw [SockCmd.complete, if_pos hdone]
    exact hdone
  | false => rw [SockCmd.complete_eq hdone]

/-- Such a command is never carried out again. -/
theorem Barred.step (h : l.Barred) (hinv : l.Inv) (hstep : LifeStep l l') :
    l'.Barred ∧ l'.cmd.effects = l.cmd.effects := by
  obtain ⟨hbar, hplace⟩ := h
  have hmarks := hinv.marks
  cases hstep with
  | call type handle nonblock dontwait deadline hunborn =>
    have harranged := hinv.arranged
    rw [Arranged, hunborn] at harranged
    rw [hunborn] at hmarks
    exact absurd harranged.2.cancelError (hbar.resolve_left (by rw [hmarks.1.1]; exact nofun))
  | run timer hqueued hzero =>
    rw [hqueued] at hmarks
    exact absurd hzero (hbar.resolve_left (by rw [hmarks.1.1]; exact nofun))
  | wake hparked hzero | attempt hparked hzero =>
    rw [hparked] at hmarks
    exact absurd hzero (hbar.resolve_left (by rw [hmarks.1.1]; exact nofun))
  | reject error hrunning | park effects hrunning | stay hrunning =>
    rw [hrunning] at hplace
    cases hplace
  | finish result error htransport =>
    rw [hplace] at htransport
    cases htransport
  | submit hcaller haccepting => exact ⟨⟨hbar, rfl⟩, rfl⟩
  | requestCancel error leaving hcaller hzero herror => exact ⟨⟨.inr herror, hplace⟩, rfl⟩
  | refuse error hqueued | complete result error hcompleting | cancel error hparked
  | connected result error hparked =>
    exact ⟨⟨.inl (complete_done _ _ _), rfl⟩, (complete_keeps ..).2.2⟩
  | stopCancel hqueued haccepting hzero =>
    have herror : enetdown ≠ 0 := by decide
    exact ⟨⟨.inr herror, hplace⟩, rfl⟩
  | _ => exact ⟨⟨hbar, hplace⟩, rfl⟩

end Life

end SnowTG.Owner
