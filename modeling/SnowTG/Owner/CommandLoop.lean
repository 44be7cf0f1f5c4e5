import SnowTG.Owner.CommandCalls

/-!
# The owner's loop

Between calls of the transport the owner handles cancellations, reaps the commands whose
callers have left, and shuts down.  Together with the steps of the callers and of the
transport this gives the refinement: an event of the owner is a run in the life of each
command.
-/

namespace SnowTG.Owner

open List

section Loop

variable {st : CommandOwner} {c c₀ : Nat} {l : Life} {pc : OwnerPc} {t t' : Transfer} {l' : Life}

/-- Without open calls, a submitted command that is in no ring is parked or finished. -/
theorem Sim.idle (h : Sim st c l) (hinv : l.Inv) (hframes : st.frames = [])
    (hsent : l.place ≠ .unborn ∧ l.place ≠ .caller) (hstate : l.cmd.state ≠ .queued) :
    l.place = .parked ∨ l.place = .finished := by
  have hcalls := h.calls
  have hmarks := hinv.marks
  rw [hframes] at hcalls
  cases hplace : l.place with
  | unborn => exact absurd hplace hsent.1
  | caller => exact absurd hplace hsent.2
  | queued =>
    rw [hplace] at hmarks
    exact absurd hmarks.2.2.2 hstate
  | parked => exact .inl rfl
  | finished => exact .inr rfl
  | _ =>
    rw [hplace] at hcalls
    cases hcalls

theorem Sim.timeout (h : Sim st c l) (hinv : l.Inv) (hframes : st.frames = [])
    (htimer : (st.cmd c₀).timer = true) : Follows (st.cancelLocal c₀ etimedout) c l := by
  have hplace : c = c₀ → l.place = .parked ∨ l.place = .finished := by
    rintro rfl
    rw [h.cmd] at htimer
    have hmarks := hinv.marks
    refine h.idle hinv hframes ⟨fun hplace => ?_, fun hplace => ?_⟩ fun hstate => ?_
    · rw [hplace] at hmarks
      cases hmarks.2.2.symm.trans htimer
    · rw [hplace] at hmarks
      cases hmarks.2.2.symm.trans htimer
    · cases hplace : l.place <;> rw [hplace] at hmarks <;>
        simp only [Place.Marks, htimer, hstate] at hmarks <;> simp at hmarks
  obtain ⟨l', hmoves, hsim, _⟩ := h.cancelled hinv.marks hplace etimedout
  exact ⟨l', hmoves, hsim⟩

/-- How often the owner's loop has the command in hand. -/
def OwnerPc.inHand (pc : OwnerPc) (c : Nat) : Nat × Nat × Nat :=
  (pc.reapingNow.count c, pc.reapedNow.count c, pc.detached.count c)

/-- The owner has gone on with its lists, none of which has changed for the command. -/
theorem Sim.goOn (h : Sim st c l) {control cancel : List Nat}
    (hlisted : control.count c + pc.listed.count c = st.control.count c + st.pc.listed.count c)
    (hhand : pc.inHand c = st.pc.inHand c)
    (hnotice : cancel.count c + pc.notices.count c = st.cancel.count c + st.pc.notices.count c) :
    Sim { st with control := control, cancel := cancel, pc := pc } c l := by
  simp only [OwnerPc.inHand, Prod.mk.injEq] at hhand
  exact { h with
    listed := hlisted.trans h.listed, reaping := hhand.1.trans h.reaping
    reaped := hhand.2.1.trans h.reaped, detached := hhand.2.2.trans h.detached
    notice := hnotice.trans h.notice }

theorem Sim.setPc (h : Sim st c l) (hpc : (pc.listed, pc.inHand c, pc.notices) =
    (st.pc.listed, st.pc.inHand c, st.pc.notices)) : Sim { st with pc := pc } c l := by
  simp only [Prod.mk.injEq] at hpc
  obtain ⟨hlisted, hhand, hnotices⟩ := hpc
  exact h.goOn (by rw [hlisted]) hhand (by rw [hnotices])

theorem Sim.takeCancel (h : Sim st c l) {rest : List Nat} (hpc : st.pc = .polling)
    (hcancel : st.cancel = c₀ :: rest) :
    Sim { st with cancel := rest, pc := .cancelling c₀ } c l := by
  refine h.goOn (by rw [hpc]; rfl) (by rw [hpc]; rfl) ?_
  rw [hpc, hcancel]
  simp only [OwnerPc.notices, count_cons_one, count_nil]
  omega

theorem Sim.takeControls (h : Sim st c l) (hpc : st.pc = .polling) :
    Sim { st with
      control := st.control.drop burstSize, pc := .controls (st.control.take burstSize) [] } c l := by
  refine h.goOn ?_ (by rw [hpc]; rfl) (by rw [hpc]; rfl)
  have hsplit : (st.control.take burstSize).count c + (st.control.drop burstSize).count c =
      st.control.count c := by
    rw [← count_append, take_append_drop]
  rw [hpc]
  simp only [OwnerPc.listed, append_nil, count_nil]
  omega

theorem Transfer.at_of_ne (h : t ≠ t') : t.at t' = 0 :=
  if_neg h

theorem Transfer.at_self (t : Transfer) : t.at t = 1 :=
  if_pos rfl

theorem Transfer.eq_of_count (h : 0 < t.at t') : t = t' := by
  by_contra hne
  rw [at_of_ne hne] at h
  exact absurd h (Nat.lt_irrefl 0)

theorem Transfer.ne_of_count (h : t.at t' = 0) : t ≠ t' := by
  rintro rfl
  rw [at_self] at h
  cases h

theorem Sim.shutdown (h : Sim st c l) (hpc : st.pc = .polling) (haccepting : st.accepting = true) :
    Follows { st with
      accepting := false, control := [], cancel := [], pc := .stopRings st.control st.cancel } c l := by
  have hlisted := h.listed
  have hreaping := h.reaping
  have hreaped := h.reaped
  have hdetached := h.detached
  have hnotice := h.notice
  rw [hpc] at hlisted hreaping hreaped hdetached hnotice
  refine ⟨_, .inr (.shutdown (h.accepting.symm.trans haccepting)
    (Transfer.ne_of_count hreaping.symm) (Transfer.ne_of_count hreaped.symm)), h.cmd, rfl, h.born,
    h.ring, h.active, ?_, ?_, ?_, ?_, ?_, h.calls, h.waits⟩
  · split_ifs with hwas
    · rfl
    · exact (Transfer.at_of_ne hwas).symm
  · split_ifs with hwas
    · rfl
    · exact hreaping
  · split_ifs with hwas
    · rfl
    · exact hreaped
  · split_ifs with hwas
    · rw [hwas, Transfer.at_self] at hlisted
      exact hlisted
    · rw [Transfer.at_of_ne hwas] at hlisted
      exact (Nat.eq_zero_of_add_eq_zero hlisted).1.trans hdetached
  · rw [count_nil, Nat.zero_add]
    exact hnotice

theorem SameLists.cancelLocal (st : CommandOwner) (c error : Nat) :
    SameLists st (st.cancelLocal c error) := by
  rw [CommandOwner.cancelLocal]
  split_ifs
  · exact ⟨rfl, rfl, rfl, rfl, rfl, rfl, rfl, rfl, rfl⟩
  · split
    · exact .modify _ _ _
    · exact (SameLists.setSocket _ _ _).trans (.modify _ _ _)

/-- A notification says that its command was submitted. -/
theorem Sim.noticed (h : Sim st c l) (ha : l.Arranged) (hc : c ∈ st.pc.notices) :
    l.notice = true ∧ l.place ≠ .unborn ∧ l.place ≠ .caller := by
  have hpos := count_pos_iff.mpr hc
  have hnotice := h.notice
  have htrue : l.notice = true := by
    by_contra hfalse
    rw [Bool.not_eq_true] at hfalse
    rw [hfalse, Bool.toNat_false] at hnotice
    omega
  exact ⟨htrue, ha.given_or_notice (.inr htrue)⟩

theorem Sim.handleCancel (h : Sim st c l) (hinv : l.Inv) (hframes : st.frames = [])
    (hpc : st.pc = .cancelling c₀) : Follows (st.handleCancel c₀) c l := by
  rw [CommandOwner.handleCancel]
  split_ifs with hstate
  · exact ⟨l, .inl rfl, h.setPc (by rw [hpc]; rfl)⟩
  · have hplace : c = c₀ → l.place = .parked ∨ l.place = .finished := by
      rintro rfl
      rw [h.cmd] at hstate
      obtain ⟨_, hsent⟩ := h.noticed hinv.arranged (by rw [hpc]; exact mem_singleton_self c)
      exact h.idle hinv hframes hsent hstate
    obtain ⟨l', hmoves, hsim, _⟩ := h.cancelled hinv.marks hplace (st.cmd c₀).cancelError
    have hsame : (st.cancelLocal c₀ (st.cmd c₀).cancelError).pc = .cancelling c₀ :=
      (SameLists.cancelLocal st c₀ _).pc.trans hpc
    exact ⟨l', hmoves, hsim.setPc (by rw [hsame]; rfl)⟩

/-- The owner drops the reference of a notification. -/
theorem Sim.dropNotice (h : Sim st c l) (ha : l.Arranged)
    (hnotices : st.pc.notices = c₀ :: pc.notices)
    (hpc : (pc.listed, pc.inHand c) = (st.pc.listed, st.pc.inHand c)) :
    Follows { st.modify c₀ (·.put) with pc := pc } c l := by
  simp only [Prod.mk.injEq] at hpc
  obtain ⟨hlisted, hhand⟩ := hpc
  have hnotice := h.notice
  rw [hnotices, count_cons_one] at hnotice
  by_cases hc : c = c₀
  · subst hc
    obtain ⟨htrue, _⟩ := h.noticed ha (by rw [hnotices]; exact mem_cons_self)
    have hsim := h.modify (·.put) rfl
    simp only [OwnerPc.inHand, Prod.mk.injEq] at hhand
    refine ⟨_, .inr (.dropNotice htrue), hsim.cmd, h.accepting, h.born, h.ring, h.active, ?_,
      hhand.1.trans h.reaping, hhand.2.1.trans h.reaped, hhand.2.2.trans h.detached, ?_, h.calls,
      hsim.waits⟩
    · rw [hlisted]
      exact h.listed
    · show st.cancel.count c + pc.notices.count c = 0
      rw [if_pos rfl, htrue, Bool.toNat_true] at hnotice
      omega
  · have hsim := Apart.modify hc (·.put) h
    refine ⟨l, .inl rfl, hsim.goOn (congrArg _ (congrArg _ hlisted)) hhand ?_⟩
    show _ = st.cancel.count c + st.pc.notices.count c
    rw [hnotices, count_cons_one, if_neg hc]
    rfl

theorem Life.Moves.trans_step {l'' : Life} (h : l.Moves l') (hstep : LifeStep l' l'') :
    Relation.ReflTransGen LifeStep l l'' := by
  rcases h with rfl | hfirst
  · exact .single hstep
  · exact (Relation.ReflTransGen.single hfirst).tail hstep

theorem Life.Moves.runs (h : l.Moves l') : Relation.ReflTransGen LifeStep l l' := by
  rcases h with rfl | hstep
  · exact .refl
  · exact .single hstep

variable {list deferred control cancel rest : List Nat}

section

variable (h : Sim st c l)
include h

/-- A command that is reaped is cancelled first, if it is parked. -/
theorem Sim.reap (hinv : l.Inv) (hframes : st.frames = [])
    (hpc : st.pc = .controls (c₀ :: list) deferred) (hstate : (st.cmd c₀).state ≠ .queued)
    (error : Nat) :
    ∃ l', Relation.ReflTransGen LifeStep l l' ∧
      Sim { st.cancelLocal c₀ error with pc := .reaping c₀ list deferred } c l' := by
  have hlisted := h.listed
  rw [hpc] at hlisted
  simp only [OwnerPc.listed, count_append, count_cons_one] at hlisted
  have htransfer : c = c₀ → l.transfer = .listed := by
    rintro rfl
    rw [if_pos rfl] at hlisted
    exact Transfer.eq_of_count (by omega)
  have hplace : c = c₀ → l.place = .parked ∨ l.place = .finished := by
    intro hc
    have hgiven : l.transfer ≠ .kept := by
      rw [htransfer hc]
      exact nofun
    subst hc
    rw [h.cmd] at hstate
    exact h.idle hinv hframes (hinv.arranged.given_or_notice (.inl hgiven)) hstate
  obtain ⟨l', hmoves, hsim, hfinished, hsame, _⟩ := h.cancelled hinv.marks hplace error
  have hlists := SameLists.cancelLocal st c₀ error
  have hpc' := hlists.pc.trans hpc
  by_cases hc : c = c₀
  · subst hc
    have hwas := hsame.trans (htransfer rfl)
    rw [if_pos rfl, htransfer rfl, Transfer.at_self] at hlisted
    have hdetached := hsim.detached
    have hreaped := hsim.reaped
    have hnotice := hsim.notice
    rw [hwas] at hdetached hreaped
    rw [hpc'] at hdetached hreaped hnotice
    refine ⟨_, hmoves.trans_step (.reap hwas (hfinished rfl)), hsim.cmd, hsim.accepting, hsim.born,
      hsim.ring, hsim.active, ?_, count_singleton_self, hreaped, hdetached, hnotice, hsim.calls,
      hsim.waits⟩
    show (st.cancelLocal c _).control.count c + (list ++ deferred).count c = 0
    rw [hlists.control, count_append]
    omega
  · refine ⟨l', hmoves.runs, hsim.goOn ?_ ?_ (by rw [hpc']; rfl)⟩
    · rw [hpc']
      simp only [OwnerPc.listed, count_append, count_cons_one, if_neg hc]
      rfl
    · rw [hpc']
      exact congrArg (·, 0, 0) (count_cons_ne hc [])

theorem Sim.nextControl (hinv : l.Inv) (hframes : st.frames = [])
    (hpc : st.pc = .controls (c₀ :: list) deferred) :
    ∃ l', Relation.ReflTransGen LifeStep l l' ∧ Sim (st.nextControl c₀ list deferred) c l' := by
  rw [CommandOwner.nextControl]
  split
  · refine ⟨l, .refl, h.goOn ?_ (by rw [hpc]; rfl) (by rw [hpc]; rfl)⟩
    rw [hpc]
    simp only [OwnerPc.listed, count_append, count_cons_one]
    omega
  · exact h.reap hinv hframes hpc ‹_› _

/-- The owner drops its own reference of a command whose caller has left. -/
theorem Sim.reapOwner (hpc : st.pc = .reaping c₀ list deferred) :
    Follows { st.modify c₀ (·.put) with
      active := st.active.erase c₀, pc := .reaped c₀ list deferred } c l := by
  by_cases hc : c = c₀
  · subst hc
    have hlisted := h.listed
    have hreaping := h.reaping
    have hdetached := h.detached
    have hnotice := h.notice
    have hactive := h.active
    rw [hpc] at hlisted hreaping hdetached hnotice
    have htransfer : l.transfer = .reaping := by
      refine Transfer.eq_of_count ?_
      rw [← hreaping, OwnerPc.reapingNow, count_singleton_self]
      exact Nat.one_pos
    rw [htransfer] at hlisted hdetached
    have hsim := h.modify (·.put) rfl
    refine ⟨_, .inr (.reapOwner htransfer), hsim.cmd, h.accepting, h.born, h.ring, ?_, hlisted, rfl,
      count_singleton_self, hdetached, hnotice, h.calls, hsim.waits⟩
    show (st.active.erase c).count c = 0
    have hle := Bool.toNat_le l.active
    rw [count_erase_self]
    omega
  · have hsim : Sim { st.modify c₀ (·.put) with active := st.active.erase c₀ } c l :=
      { Apart.modify hc (·.put) h with active := (count_erase_of_ne hc).trans h.active }
    have hsame : CommandOwner.pc { st.modify c₀ (·.put) with active := st.active.erase c₀ } =
        .reaping c₀ list deferred := hpc
    refine ⟨l, .inl rfl, hsim.goOn (by rw [hsame]; rfl) ?_ (by rw [hsame]; rfl)⟩
    have hnone := count_cons_ne hc []
    rw [hsame]
    exact congrArg₂ (·, ·, 0) hnone.symm hnone

/-- The owner drops the reference that the caller has left it. -/
theorem Sim.reapCaller (hpc : st.pc = .reaped c₀ list deferred) :
    Follows { st.modify c₀ (·.put) with pc := .controls list deferred } c l := by
  by_cases hc : c = c₀
  · subst hc
    have hlisted := h.listed
    have hreaped := h.reaped
    have hdetached := h.detached
    have hnotice := h.notice
    rw [hpc] at hlisted hreaped hdetached hnotice
    have htransfer : l.transfer = .reaped := by
      refine Transfer.eq_of_count ?_
      rw [← hreaped, OwnerPc.reapedNow, count_singleton_self]
      exact Nat.one_pos
    rw [htransfer] at hlisted hdetached
    have hsim := h.modify (·.put) rfl
    exact ⟨_, .inr (.reapCaller htransfer), hsim.cmd, h.accepting, h.born, h.ring, h.active,
      hlisted,
      rfl, rfl, hdetached, hnotice, h.calls, hsim.waits⟩
  · have hsim := Apart.modify hc (·.put) h
    have hsame : (st.modify c₀ (·.put)).pc = .reaped c₀ list deferred := hpc
    refine ⟨l, .inl rfl, hsim.goOn (by rw [hsame]; rfl) ?_ (by rw [hsame]; rfl)⟩
    rw [hsame]
    exact congrArg (0, ·, 0) (count_cons_ne hc []).symm

/-- The same while the owner is shutting down. -/
theorem Sim.stopCaller (hpc : st.pc = .stopControl (c₀ :: control) cancel) :
    Follows { st.modify c₀ (·.put) with pc := .stopControl control cancel } c l := by
  have hdetached := h.detached
  rw [hpc] at hdetached
  change (c₀ :: control).count c = _ at hdetached
  rw [count_cons_one] at hdetached
  by_cases hc : c = c₀
  · subst hc
    rw [if_pos rfl] at hdetached
    have htransfer : l.transfer = .detached := Transfer.eq_of_count (by omega)
    have hlisted := h.listed
    have hnotice := h.notice
    rw [hpc] at hlisted hnotice
    rw [htransfer] at hlisted hdetached
    have hsim := h.modify (·.put) rfl
    refine ⟨_, .inr (.stopCaller htransfer), hsim.cmd, h.accepting, h.born, h.ring, h.active,
      hlisted, rfl, rfl, ?_, hnotice, h.calls, hsim.waits⟩
    exact Nat.succ.inj hdetached
  · have hsim := Apart.modify hc (·.put) h
    have hsame : (st.modify c₀ (·.put)).pc = .stopControl (c₀ :: control) cancel := hpc
    refine ⟨l, .inl rfl, hsim.goOn (by rw [hsame]; rfl) ?_ (by rw [hsame]; rfl)⟩
    rw [hsame]
    exact congrArg (0, 0, ·) (count_cons_ne hc control).symm

/-- The owner that is shutting down takes a command out of a ring and cancels it. -/
theorem Sim.stopRing (haccepting : st.accepting = false) (closeRing commandRing : List Nat)
    (hring : ∀ i, st.closeRing.count i + st.commandRing.count i + st.batch.count i =
      closeRing.count i + commandRing.count i + if i = c₀ then 1 else 0) :
    Follows { st.modify c₀ fun cmd =>
      { cmd with cancelError := if cmd.cancelError = 0 then enetdown else cmd.cancelError } with
        closeRing := closeRing, commandRing := commandRing, batch := [c₀] } c l := by
  have hsum := hring c
  have hold := h.ring
  have hone := count_cons_one (c := c₀) [] c
  by_cases hc : c = c₀
  · subst hc
    have hplace : l.place = .queued := by
      rw [if_pos rfl] at hsum
      cases hplace : l.place with
      | queued => rfl
      | _ =>
        rw [hplace] at hold
        simp only [Place.held] at hold
        omega
    have hsim := h.modify (fun cmd =>
      { cmd with cancelError := if cmd.cancelError = 0 then enetdown else cmd.cancelError }) rfl
    have hnew : closeRing.count c + commandRing.count c + [c].count c = l.place.held := by
      rw [hone, count_nil]
      omega
    by_cases hzero : l.cmd.cancelError = 0
    · refine ⟨{ l with cmd := { l.cmd with cancelError := enetdown } },
      .inr (.stopCancel hplace (h.accepting.symm.trans haccepting) hzero),
      { h with cmd := ?_, ring := hnew }⟩
      refine hsim.cmd.trans ?_
      rw [if_pos hzero]
    · refine ⟨l, .inl rfl, { h with cmd := ?_, ring := hnew }⟩
      refine hsim.cmd.trans ?_
      rw [if_neg hzero]
  · refine ⟨l, .inl rfl, { h with cmd := (if_neg hc).trans h.cmd, ring := ?_ }⟩
    show closeRing.count c + commandRing.count c + [c₀].count c = _
    rw [if_neg hc] at hsum
    rw [hone, if_neg hc, count_nil]
    omega

theorem Sim.listedActive (hc : c ∈ st.active) : l.active = true := by
  have hpos := count_pos_iff.mpr hc
  have hactive := h.active
  by_contra hfalse
  rw [Bool.not_eq_true] at hfalse
  rw [hfalse, Bool.toNat_false] at hactive
  omega

/-- Without open calls, an active command is parked or finished. -/
theorem Sim.activeIdle (hinv : l.Inv) (hframes : st.frames = []) (hactive : l.active = true) :
    l.place = .parked ∨ l.place = .finished := by
  have harranged := hinv.arranged
  have hcalls := h.calls
  rw [hframes] at hcalls
  rw [Life.Arranged] at harranged
  cases hplace : l.place with
  | parked => exact .inl rfl
  | finished => exact .inr rfl
  | unborn | caller =>
    rw [hplace] at harranged
    cases harranged.2.active.symm.trans hactive
  | queued =>
    rw [hplace] at harranged
    cases harranged.2.1.symm.trans hactive
  | _ =>
    rw [hplace] at hcalls
    cases hcalls

/-- The owner that is shutting down drops its reference of a command that is done. -/
theorem Sim.stopOwner (hinv : l.Inv) (hframes : st.frames = []) (haccepting : st.accepting = false)
    (hactive : st.active = c₀ :: rest) (hdone : (st.cmd c₀).done = true) :
    Follows { st.modify c₀ (·.put) with active := rest } c l := by
  by_cases hc : c = c₀
  · subst hc
    have htrue := h.listedActive (by rw [hactive]; exact mem_cons_self)
    have hplace : l.place = .finished := by
      refine (h.activeIdle hinv hframes htrue).resolve_left fun hparked => ?_
      have hmarks := hinv.marks
      rw [hparked] at hmarks
      rw [h.cmd, hmarks.1.1] at hdone
      cases hdone
    have hcount := h.active
    have hsim := h.modify (·.put) rfl
    rw [hactive, count_cons_self, htrue] at hcount
    exact ⟨_, .inr (.stopOwner htrue hplace (h.accepting.symm.trans haccepting)),
      { h with cmd := hsim.cmd, active := Nat.succ.inj hcount, waits := hsim.waits }⟩
  · have hcount := h.active
    rw [hactive, count_cons_ne hc] at hcount
    exact ⟨l, .inl rfl, { h with cmd := (if_neg hc).trans h.cmd, active := hcount }⟩

end

end Loop

/-- The rings are empty, and so is the burst taken from one. -/
def CommandOwner.Drained (st : CommandOwner) : Prop :=
  st.closeRing = [] ∧ st.commandRing = [] ∧ st.batch = []

/-- What an owner that is shutting down is through with. -/
def CommandOwner.Phase (st : CommandOwner) : Prop :=
  match st.pc with
  | .stopRings _ _ => st.accepting = false
  | .stopActive _ _ => st.accepting = false ∧ st.Drained
  | .stopControl _ _ | .stopCancel _ | .stopped =>
    st.accepting = false ∧ st.Drained ∧ st.active = []
  | _ => st.accepting = true

section Step

variable {st : CommandOwner} {c : Nat} {l : Life}

theorem Sim.runs (h : Follows st c l) : ∃ l', Relation.ReflTransGen LifeStep l l' ∧ Sim st c l' :=
  h.imp fun _ hmove => ⟨hmove.1.runs, hmove.2⟩

theorem Sim.advance (h : Sim st c l) (hinv : l.Inv) (hphase : st.Phase) (hbetween : st.Between) :
    ∃ l', Relation.ReflTransGen LifeStep l l' ∧ Sim st.advance c l' := by
  obtain ⟨hframes, hbatch⟩ := hbetween
  rw [CommandOwner.advance.eq_def]
  split
  · exact Sim.runs (h.handleCancel hinv hframes ‹_›)
  · rename_i c₀ hpc
    exact Sim.runs (h.dropNotice hinv.arranged (by rw [hpc]; rfl) (by rw [hpc]; rfl))
  · exact h.nextControl hinv hframes ‹_›
  · rename_i deferred hpc
    refine ⟨l, .refl, h.goOn ?_ (by rw [hpc]; rfl) (by rw [hpc]; rfl)⟩
    rw [hpc, count_append, Nat.add_comm (deferred.count c)]
    rfl
  · exact Sim.runs (h.reapOwner ‹_›)
  · exact Sim.runs (h.reapCaller ‹_›)
  · rename_i control cancel hpc
    rw [CommandOwner.Phase, hpc] at hphase
    split
    · rename_i c₀ rest hring
      refine Sim.runs (h.stopRing hphase rest st.commandRing fun i => ?_)
      rw [hbatch, hring, count_cons_one, count_nil]
      omega
    · rename_i c₀ rest hclose hring
      refine Sim.runs (h.stopRing hphase st.closeRing rest fun i => ?_)
      rw [hbatch, hring, count_cons_one, count_nil]
      omega
    · exact ⟨l, .refl, h.setPc (by rw [hpc]; rfl)⟩
  · rename_i control cancel hpc
    rw [CommandOwner.Phase, hpc] at hphase
    split
    · exact ⟨l, .refl, h.setPc (by rw [hpc]; rfl)⟩
    · rename_i c₀ rest hactive
      split
      · exact Sim.runs (h.stopOwner hinv hframes hphase.1 hactive ‹_›)
      · obtain ⟨l', hlife, hsim, _⟩ := h.cancelled hinv.marks (fun hc => h.activeIdle hinv hframes
          (h.listedActive (by rw [hactive, hc]; exact mem_cons_self))) enetdown
        exact ⟨l', hlife.runs, hsim⟩
  · exact Sim.runs (h.stopCaller ‹_›)
  · rename_i cancel hpc
    exact ⟨l, .refl, h.setPc (by rw [hpc]; rfl)⟩
  · rename_i c₀ cancel hpc
    exact Sim.runs (h.dropNotice hinv.arranged (by rw [hpc]; rfl) (by rw [hpc]; rfl))
  · rename_i hpc
    exact ⟨l, .refl, h.setPc (by rw [hpc]; rfl)⟩
  · exact ⟨l, .refl, h⟩
  · exact ⟨l, .refl, h⟩

/-- All open calls can lead back into the owner. -/
theorem all_nesting (hnests : st.nests = true) (hnested : ∀ f ∈ st.frames.tail, f.nesting = true) :
    ∀ f ∈ st.frames, f.nesting = true := by
  intro f hf
  rw [CommandOwner.nests] at hnests
  cases hframes : st.frames with
  | nil =>
    rw [hframes] at hf
    exact absurd hf not_mem_nil
  | cons g calls =>
    rw [hframes] at hf hnested hnests
    rcases mem_cons.mp hf with rfl | hf
    · cases f <;> simp [Frame.nesting] at hnests ⊢
    · exact hnested f hf

/-- An event of the owner is a run in the life of each command. -/
theorem Sim.step (h : Sim st c l) (hinv : l.Inv) (hcalls : ∀ f ∈ st.frames, f.Inv st)
    (hnested : ∀ f ∈ st.frames.tail, f.nesting = true) (hphase : st.Phase) {e : CmdEvent}
    (hen : st.enabled e) : ∃ l', Relation.ReflTransGen LifeStep l l' ∧ Sim (st.step e) c l' := by
  have hlife : ∀ {c₀ : Nat} {caller : CallerPc}, (st.cmd c₀).caller = caller → c = c₀ →
      l.cmd.caller = caller := by
    rintro c₀ caller hcaller rfl
    rw [← h.cmd]
    exact hcaller
  have hpolling : st.pc = .polling → st.accepting = true := by
    intro hpc
    rw [CommandOwner.Phase, hpc] at hphase
    exact hphase
  cases e with
  | call type handle nonblock dontwait deadline =>
    exact Sim.runs (h.call type handle nonblock dontwait deadline)
  | submit c₀ full => exact Sim.runs (h.submit hinv.arranged full hen.2)
  | giveUp c₀ =>
    exact Sim.runs (h.modified (f := fun cmd => { cmd with caller := .dropping }) (fun _ => rfl)
      fun hc => .giveUp (hlife hen.2 hc))
  | requestCancel c₀ error leaving => exact Sim.runs (h.requestCancel hen.2 error leaving)
  | notifyCancel c₀ =>
    obtain ⟨_, leaving, hcaller⟩ := hen
    rw [CommandOwner.step, hcaller]
    exact Sim.runs (h.notifyCancel hinv.arranged hcaller)
  | observe c₀ =>
    obtain ⟨_, hcaller, hdone⟩ := hen
    refine Sim.runs (h.modified (f := fun cmd => { cmd with caller := .claiming }) (fun _ => rfl)
      fun hc => .observe (hlife hcaller hc) ?_)
    subst hc
    rw [← h.cmd]
    exact hdone
  | leave c₀ =>
    exact Sim.runs (h.modified (f := fun cmd => { cmd with caller := .releasing }) (fun _ => rfl)
      fun hc => .leave (hlife hen.2 hc))
  | release c₀ => exact Sim.runs (h.release hinv.arranged hen.2)
  | drop c₀ =>
    exact Sim.runs (h.modified (f := fun cmd => { cmd.put with caller := .gone }) (fun _ => rfl)
      fun hc => .drop (hlife hen.2 hc))
  | dequeue close => exact ⟨l, .refl, h.dequeue hen.1.2 close⟩
  | start expired armed =>
    obtain ⟨hframes, hbatch⟩ := hen
    obtain ⟨c₀, rest, hbatch⟩ := exists_cons_of_ne_nil hbatch
    rw [CommandOwner.step, hbatch]
    exact Sim.runs (h.start hinv hbatch hframes expired armed)
  | answered answer =>
    obtain ⟨f, calls, hframes⟩ := exists_cons_of_ne_nil hen
    exact Sim.runs (h.answered hframes (hcalls f (by rw [hframes]; exact mem_cons_self)) answer)
  | completed => exact Sim.runs h.completed
  | wakeRecv s => exact Sim.runs (h.wakeRecv hinv.marks (all_nesting hen hnested) s)
  | wakeSend s => exact Sim.runs (h.wakeSend hinv.marks (all_nesting hen hnested) s)
  | wakeAccept s => exact Sim.runs (h.wakeAccept hinv.marks (all_nesting hen hnested) s)
  | completeConnect s error => exact Sim.runs (h.completeConnect (all_nesting hen hnested) s error)
  | abortWaiter s error => exact Sim.runs (h.abortWaiter (all_nesting hen hnested) s error)
  | adopt s => exact ⟨l, .refl, h.adopt hen.2⟩
  | retire s =>
    obtain ⟨_, _, w, hs, hnone⟩ := hen
    exact ⟨l, .refl, h.retire hs hnone⟩
  | timeout c₀ => exact Sim.runs (h.timeout hinv hen.1.1.1 hen.2)
  | takeCancel =>
    obtain ⟨⟨_, hpc⟩, hcancel⟩ := hen
    obtain ⟨c₀, rest, hcancel⟩ := exists_cons_of_ne_nil hcancel
    rw [CommandOwner.step, hcancel]
    exact ⟨l, .refl, h.takeCancel hpc hcancel⟩
  | takeControls => exact ⟨l, .refl, h.takeControls hen.2⟩
  | shutdown => exact Sim.runs (h.shutdown hen.2 (hpolling hen.2))
  | advance => exact h.advance hinv hphase hen

end Step

end SnowTG.Owner
