import SnowTG.Owner.Ready

/-!
# No readiness is lost

A pending bit is announced: by the queued event of its socket or by the overflow
flag.  A burst takes bits out of a socket only to hand them out.  Both together
give that every posted bit has been handed out since or is still pending.
-/

namespace SnowTG.Owner

open SnowTG.Lib List

namespace SocketOwner

variable {o o' o'' : SocketOwner} {id : Nat} {sk : Nsock} {ring : List Handle} {sk' : Nsock}
  {out : List IoEvent}

theorem at?_some_lt (h : o.at? id = some sk) : id < o.slots.length := by
  by_contra hge
  rw [at?, List.getElem?_eq_none (by omega)] at h
  simp at h

theorem at?_update (h : id < o.slots.length) (sk : Nsock) (j : Nat) :
    (o.update id sk).at? j = if j = id then some sk else o.at? j := by
  rw [at?, update, List.getElem?_set, at?]
  by_cases hj : j = id
  · subst hj
    simp [h]
  · rw [if_neg hj, if_neg (fun heq => hj heq.symm)]

/-- What is found after a slot was overwritten stood there before, in another slot, or was written. -/
theorem at?_of_set {entry : Option Nsock} {j : Nat}
    (h : ((o.slots.set id entry)[j]?).join = some sk) :
    j = id ∧ entry = some sk ∨ j ≠ id ∧ o.at? j = some sk := by
  rw [List.getElem?_set] at h
  split_ifs at h with hj hlt
  · exact .inl ⟨hj.symm, h⟩
  · cases h
  · exact .inr ⟨fun heq => hj heq.symm, h⟩

/-- The handle of a socket finds it. -/
structure Homed (o : SocketOwner) : Prop where
  home : ∀ {id sk}, o.at? id = some sk → sk.id = id ∧ sk.ownerLcore = o.lcoreId

theorem Homed.lookup_handle (h : o.Homed) (hat : o.at? id = some sk) :
    o.lookup (socketOwnerHandle sk) = some sk := by
  obtain ⟨hid, hlcore⟩ := h.home hat
  have hlt := at?_some_lt hat
  simp only [lookup, socketOwnerHandle, hid, hlcore, slotCapacity, hat]
  simp [hlt]

theorem Homed.handle_of_lookup (h : o.Homed) {handle : Handle} (hfound : o.lookup handle = some sk) :
    o.at? handle.id = some sk ∧ socketOwnerHandle sk = handle := by
  rw [lookup] at hfound
  split_ifs at hfound with hbad
  cases hat : o.at? handle.id with
  | none => simp [hat] at hfound
  | some found =>
    rw [hat] at hfound
    simp only at hfound
    split_ifs at hfound with hstale
    obtain rfl := Option.some.inj hfound
    obtain ⟨hid, hlcore⟩ := h.home hat
    simp only [ge_iff_le, ne_eq, Bool.or_eq_true, decide_eq_true_eq, not_or, not_not] at hbad hstale
    refine ⟨rfl, ?_⟩
    rw [socketOwnerHandle, hid, hlcore, hstale.1, hstale.2, ← hbad.2]

/-- Sockets are only replaced by themselves with other readiness fields. -/
theorem Homed.update (h : o.Homed) (hat : o.at? id = some sk)
    (hsame : socketOwnerHandle sk' = socketOwnerHandle sk) : (o.update id sk').Homed := by
  refine ⟨fun {j other} hother => ?_⟩
  rcases at?_of_set hother with ⟨rfl, hnew⟩ | ⟨-, hother⟩
  · obtain rfl := Option.some.inj hnew
    simp only [socketOwnerHandle, Handle.mk.injEq] at hsame
    obtain ⟨hid, hlcore⟩ := h.home hat
    exact ⟨hsame.1.trans hid, hsame.2.2.1.trans hlcore⟩
  · exact h.home hother

/-- Every pending bit is announced by an event in `ring` or by the overflow flag. -/
structure Announced (o : SocketOwner) (ring : List Handle) : Prop where
  flagged : ∀ {id sk}, o.at? id = some sk → sk.readyMask ≠ 0 → sk.readyQueued = false →
    o.readyOverflow = true
  queued : ∀ {id sk}, o.at? id = some sk → sk.readyQueued = true → socketOwnerHandle sk ∈ ring

/-- The sockets of `o'` are those of `o`, each with its bits or with all of them handed out. -/
structure Served (o o' : SocketOwner) (out : List IoEvent) : Prop where
  lcoreId : o'.lcoreId = o.lcoreId
  slots : o'.slots.length = o.slots.length
  freeIds : o'.freeIds = o.freeIds
  empty : ∀ {id}, o.at? id = none → o'.at? id = none
  kept : ∀ {id sk}, o.at? id = some sk → ∃ sk', o'.at? id = some sk' ∧
    socketOwnerHandle sk' = socketOwnerHandle sk ∧
    (sk' = sk ∨ sk'.readyMask = 0 ∧
      (sk.readyMask = 0 ∨ (⟨socketOwnerHandle sk, sk.readyMask⟩ : IoEvent) ∈ out))

theorem Served.of_slots (hlcore : o'.lcoreId = o.lcoreId) (hslots : o'.slots = o.slots)
    (hfree : o'.freeIds = o.freeIds) (out : List IoEvent) : Served o o' out := by
  have hat : ∀ id, o'.at? id = o.at? id := fun id => by rw [at?, at?, hslots]
  refine ⟨hlcore, by rw [hslots], hfree, fun h => (hat _).trans h, fun {id sk} h => ?_⟩
  exact ⟨sk, (hat id).trans h, rfl, .inl rfl⟩

theorem Served.trans {out' : List IoEvent} (h : Served o o' out) (h' : Served o' o'' out') :
    Served o o'' (out ++ out') := by
  refine ⟨h'.lcoreId.trans h.lcoreId, h'.slots.trans h.slots, h'.freeIds.trans h.freeIds,
    fun hnone => h'.empty (h.empty hnone), fun {id sk} hsome => ?_⟩
  obtain ⟨sk', hat', hhandle', hcase⟩ := h.kept hsome
  obtain ⟨sk'', hat'', hhandle'', hcase'⟩ := h'.kept hat'
  refine ⟨sk'', hat'', hhandle''.trans hhandle', ?_⟩
  rcases hcase with rfl | ⟨hzero, hout⟩
  · refine hcase'.imp_right fun hserved => ⟨hserved.1, hserved.2.imp_right ?_⟩
    exact mem_append_right out
  · have hout' := hout.imp_right (mem_append_left out')
    rcases hcase' with rfl | hserved
    · exact .inr ⟨hzero, hout'⟩
    · exact .inr ⟨hserved.1, hout'⟩

/-- Handing out the bits of one socket. -/
theorem Served.update (hat : o.at? id = some sk)
    (hsame : socketOwnerHandle sk' = socketOwnerHandle sk) (hzero : sk'.readyMask = 0)
    (hout : sk.readyMask = 0 ∨ (⟨socketOwnerHandle sk, sk.readyMask⟩ : IoEvent) ∈ out) :
    Served o (o.update id sk') out := by
  have hlt := at?_some_lt hat
  refine ⟨rfl, length_set, rfl, fun {j} hnone => ?_, fun {j other} hother => ?_⟩
  · rw [at?_update hlt, if_neg ?_]
    · exact hnone
    · rintro rfl
      rw [hat] at hnone
      simp at hnone
  · by_cases hj : j = id
    · subst hj
      obtain rfl := Option.some.inj (hat.symm.trans hother)
      exact ⟨sk', by rw [at?_update hlt, if_pos rfl], hsame, .inr ⟨hzero, hout⟩⟩
    · exact ⟨other, by rw [at?_update hlt, if_neg hj]; exact hother, rfl, .inl rfl⟩

theorem Homed.served (h : o.Homed) (hserved : Served o o' out) : o'.Homed := by
  refine ⟨fun {id sk'} hat' => ?_⟩
  cases hat : o.at? id with
  | none =>
    rw [hserved.empty hat] at hat'
    simp at hat'
  | some sk =>
    obtain ⟨sk'', hat'', hhandle, -⟩ := hserved.kept hat
    obtain rfl := Option.some.inj (hat''.symm.trans hat')
    simp only [socketOwnerHandle, Handle.mk.injEq] at hhandle
    obtain ⟨hid, hlcore⟩ := h.home hat
    exact ⟨hhandle.1.trans hid, by rw [hhandle.2.2.1, hlcore, hserved.lcoreId]⟩

/-- Events were added to `out` for the bits that were taken out of the sockets. -/
def Hands (o : SocketOwner) (out : List IoEvent) (r : SocketOwner × List IoEvent) : Prop :=
  ∃ extra, r.2 = out ++ extra ∧ Served o r.1 extra

theorem Hands.of_slots (hlcore : o'.lcoreId = o.lcoreId) (hslots : o'.slots = o.slots)
    (hfree : o'.freeIds = o.freeIds) : Hands o out (o', out) :=
  ⟨[], (append_nil out).symm, .of_slots hlcore hslots hfree []⟩

theorem Served.hands {handed : List IoEvent} {r : SocketOwner × List IoEvent}
    (h : Served o o' handed) (hhands : Hands o' (out ++ handed) r) : Hands o out r := by
  obtain ⟨extra, hout, hserved⟩ := hhands
  exact ⟨handed ++ extra, by rw [hout, append_assoc], h.trans hserved⟩

/-- Taking the event of `handle` off the ring. -/
theorem Announced.take (h : o.Announced (handle :: ring)) (hhome : o.Homed) (sk : Nsock) :
    (o.update handle.id { sk with readyMask := 0, readyQueued := false }).Announced ring := by
  refine ⟨fun {j other} hother hmask hqueued => ?_, fun {j other} hother hqueued => ?_⟩
  · rcases at?_of_set hother with ⟨-, hnew⟩ | ⟨-, hother⟩
    · obtain rfl := Option.some.inj hnew
      exact absurd rfl hmask
    · exact h.flagged hother hmask hqueued
  · rcases at?_of_set hother with ⟨-, hnew⟩ | ⟨hj, hother⟩
    · obtain rfl := Option.some.inj hnew
      simp at hqueued
    · rcases mem_cons.mp (h.queued hother hqueued) with heq | hmem
      · -- the event belongs to the socket in its own slot only
        have hid := (hhome.home hother).1
        rw [← heq] at hj
        exact absurd hid.symm hj
      · exact hmem

/-- The loop over the ring hands out what it takes, and what is left stays announced. -/
theorem burstRing_spec (handles : List Handle) (room : Nat) (out : List IoEvent) (hhome : o.Homed)
    (h : o.Announced handles) :
    Hands o out (burstRing o handles room out) ∧
      (burstRing o handles room out).1.Announced (burstRing o handles room out).1.readyRing ∧
      (burstRing o handles room out).1.readyScan = o.readyScan := by
  induction handles generalizing o room out with
  | nil =>
    rw [burstRing]
    exact ⟨.of_slots rfl rfl rfl, ⟨h.flagged, h.queued⟩, rfl⟩
  | cons handle rest ih =>
    cases room with
    | zero =>
      rw [burstRing]
      exact ⟨.of_slots rfl rfl rfl, ⟨h.flagged, h.queued⟩, rfl⟩
    | succ room =>
      rw [burstRing]
      cases hfound : o.lookup handle with
      | none =>
        -- nobody answers to this handle any more
        refine ih (room + 1) out hhome ⟨h.flagged, fun hat hqueued => ?_⟩
        rcases mem_cons.mp (h.queued hat hqueued) with heq | hmem
        · rw [← heq, hhome.lookup_handle hat] at hfound
          simp at hfound
        · exact hmem
      | some sk =>
        obtain ⟨hat, hhandle⟩ := hhome.handle_of_lookup hfound
        have hrest := h.take hhome sk
        have hserve : ∀ {handed : List IoEvent}, (sk.readyMask = 0 ∨
            (⟨handle, sk.readyMask⟩ : IoEvent) ∈ handed) →
            Served o (o.update handle.id { sk with readyMask := 0, readyQueued := false })
              handed := fun hout => .update hat rfl rfl (hhandle ▸ hout)
        dsimp only
        split_ifs with hmask
        · have htaken := @hserve [] (.inl hmask)
          obtain ⟨hhands, hkept⟩ := ih (room + 1) out (hhome.served htaken) hrest
          exact ⟨htaken.hands (by rwa [append_nil]), hkept⟩
        · have htaken := @hserve [⟨handle, sk.readyMask⟩] (.inr (mem_singleton_self _))
          obtain ⟨hhands, hkept⟩ := ih room _ (hhome.served htaken) hrest
          exact ⟨htaken.hands hhands, hkept⟩

/-- No pending bit without a queued event in this slot. -/
def Clean (o : SocketOwner) (id : Nat) : Prop :=
  ∀ sk, o.at? id = some sk → sk.readyQueued = false → sk.readyMask = 0

/-- The scan stands at a slot of the table. -/
def ScanInside (o : SocketOwner) : Prop := o.slotCapacity ≠ 0 → o.readyScan < o.slotCapacity

/-- The loop over the slots hands out what it takes.  When it gets round, nothing is left behind. -/
theorem burstScan_spec (left : Nat) (room : Nat) (out : List IoEvent)
    (hscan : o.ScanInside) (hleft : left ≤ o.slotCapacity)
    (hclean : ∀ id < o.slotCapacity, (∀ j < left, id ≠ (o.readyScan + j) % o.slotCapacity) →
      o.Clean id)
    (h : o.Announced ring) (hflag : o.readyOverflow = true) :
    Hands o out (burstScan left o room out) ∧ (burstScan left o room out).1.Announced ring ∧
      (burstScan left o room out).1.readyRing = o.readyRing ∧
      (burstScan left o room out).1.ScanInside := by
  induction left generalizing o room out with
  | zero =>
    rw [burstScan]
    refine ⟨.of_slots rfl rfl rfl, ⟨?_, h.queued⟩, rfl, hscan⟩
    intro id sk hat hmask hqueued
    have hlt := at?_some_lt (o := o) hat
    exact absurd (hclean id hlt (by simp) sk hat hqueued) hmask
  | succ left ih =>
    cases room with
    | zero =>
      rw [burstScan]
      exact ⟨.of_slots rfl rfl rfl, h, rfl, hscan⟩
    | succ room =>
      rw [burstScan]
      have hlt := hscan (by omega)
      -- what was scanned before, and the slot scanned now
      have hbehind : ∀ {o' : SocketOwner}, o'.slotCapacity = o.slotCapacity →
          o'.readyScan = (o.readyScan + 1) % o.slotCapacity →
          (∀ id, id ≠ o.readyScan → o'.at? id = o.at? id) → o'.Clean o.readyScan →
          ∀ id < o'.slotCapacity, (∀ j < left, id ≠ (o'.readyScan + j) % o'.slotCapacity) →
            o'.Clean id := by
        intro o' hcap hscan' hother hhere id hid hnot
        by_cases heq : id = o.readyScan
        · rw [heq]
          exact hhere
        · intro sk hat
          rw [hother id heq] at hat
          refine hclean id (hcap ▸ hid) ?_ sk hat
          intro j hj
          cases j with
          | zero => rwa [Nat.add_zero, Nat.mod_eq_of_lt hlt]
          | succ j =>
            have := hnot j (by omega)
            rwa [hscan', hcap, Nat.mod_add_mod, Nat.add_assoc, Nat.add_comm 1] at this
      have hscan' : (o.readyScan + 1) % o.slotCapacity < o.slotCapacity :=
        Nat.mod_lt _ (by omega)
      have hmoved : Served o o.scanNext [] := .of_slots (by rfl) (by rfl) (by rfl) []
      -- a slot with nothing to hand out
      have hpass : o.Clean o.readyScan → Hands o out (burstScan left o.scanNext (room + 1) out) ∧
          (burstScan left o.scanNext (room + 1) out).1.Announced ring ∧
          (burstScan left o.scanNext (room + 1) out).1.readyRing = o.readyRing ∧
          (burstScan left o.scanNext (room + 1) out).1.ScanInside := by
        intro hhere
        obtain ⟨hhands, hkept⟩ := ih (o := o.scanNext) (room + 1) out
          (fun _ => hscan') (Nat.le_of_succ_le hleft) (@hbehind o.scanNext rfl rfl (fun _ _ => rfl) hhere)
          ⟨h.flagged, h.queued⟩ hflag
        exact ⟨hmoved.hands (by rwa [append_nil]), hkept⟩
      cases hat : o.at? o.readyScan with
      | none => exact hpass fun sk hsome => absurd (hat.symm.trans hsome) (by simp)
      | some sk =>
        dsimp only
        split_ifs with hpending
        · simp only [ne_eq, Bool.and_eq_true, decide_eq_true_eq, Bool.not_eq_true'] at hpending
          have hserve : Served o.scanNext
              (o.scanNext.update o.readyScan { sk with readyMask := 0 })
              [⟨socketOwnerHandle sk, sk.readyMask⟩] :=
            .update hat rfl rfl (.inr (mem_singleton_self _))
          have hupdate := at?_update (o := o.scanNext) hlt { sk with readyMask := 0 }
          have hcap : (o.scanNext.update o.readyScan
              { sk with readyMask := 0 }).slotCapacity = o.slotCapacity := hserve.slots
          have hhere : (o.scanNext.update o.readyScan { sk with readyMask := 0 }).Clean
              o.readyScan := by
            intro sk' hsome _
            rw [hupdate, if_pos rfl] at hsome
            obtain rfl := Option.some.inj hsome
            rfl
          have hstill : (o.scanNext.update o.readyScan
              { sk with readyMask := 0 }).Announced ring := by
            refine ⟨fun _ _ _ => hflag, fun {id sk'} hsome hqueued => ?_⟩
            rcases at?_of_set hsome with ⟨-, hnew⟩ | ⟨-, hsome⟩
            · obtain rfl := Option.some.inj hnew
              exact absurd (hpending.2.symm.trans hqueued) Bool.false_ne_true
            · exact h.queued hsome hqueued
          obtain ⟨hhands, hkept⟩ := ih room
            (out ++ [⟨socketOwnerHandle sk, sk.readyMask⟩]) (fun _ => by rw [hcap]; exact hscan')
            (by rw [hcap]; omega) (hbehind hcap rfl
              (fun id hid => by rw [hupdate, if_neg hid]; rfl) hhere) hstill hflag
          exact ⟨(hmoved.trans hserve).hands hhands, hkept⟩
        · refine hpass fun sk' hsome hqueued => ?_
          obtain rfl := Option.some.inj (hat.symm.trans hsome)
          simpa [hqueued] using hpending

theorem ScanInside.same (h : o.ScanInside) (hslots : o'.slots.length = o.slots.length)
    (hscan : o'.readyScan = o.readyScan) : o'.ScanInside := by
  rw [ScanInside, slotCapacity, hslots, hscan]
  exact h

/-- What holds of an owner between two calls. -/
structure Inv (o : SocketOwner) : Prop extends o.Homed where
  announced : o.Announced o.readyRing
  scan : o.ScanInside
  freeNodup : o.freeIds.Nodup
  freeEmpty : ∀ {id}, id ∈ o.freeIds → o.at? id = none

/-- A burst clears only bits that it hands out. -/
theorem Inv.readyBurst (h : o.Inv) (maxEvents : Nat) :
    (o.readyBurst maxEvents).1.Inv ∧
      Served o (o.readyBurst maxEvents).1 (o.readyBurst maxEvents).2 := by
  rw [SocketOwner.readyBurst]
  split_ifs with hmax
  · exact ⟨h, .of_slots rfl rfl rfl []⟩
  obtain ⟨⟨extra, hout, hserved⟩, hannounced, hscan⟩ :=
    burstRing_spec o.readyRing maxEvents [] h.toHomed h.announced
  generalize burstRing o o.readyRing maxEvents [] = result at hout hserved hannounced hscan ⊢
  obtain ⟨o', out⟩ := result
  obtain rfl : out = extra := hout
  have hinside : o'.ScanInside := h.scan.same hserved.slots hscan
  have hinv : ∀ {o'' : SocketOwner} {out' : List IoEvent}, Served o o'' out' →
      o''.Announced o''.readyRing → o''.ScanInside → o''.Inv := by
    intro o'' out' hserved' hannounced' hscan'
    refine ⟨h.toHomed.served hserved', hannounced', hscan', ?_, fun {id} hid => ?_⟩
    · rw [hserved'.freeIds]
      exact h.freeNodup
    · rw [hserved'.freeIds] at hid
      exact hserved'.empty (h.freeEmpty hid)
  dsimp only
  split_ifs with hoverflow
  · have hall : ∀ id < o'.slotCapacity,
        (∀ j < o'.slotCapacity, id ≠ (o'.readyScan + j) % o'.slotCapacity) → o'.Clean id := by
      intro id hid hnot
      have hlt := hinside (by omega)
      -- the scan gets to every slot: to this one after as many steps as it is ahead
      refine absurd ?_ (hnot ((id + o'.slotCapacity - o'.readyScan) % o'.slotCapacity)
        (Nat.mod_lt _ (by omega)))
      rw [Nat.add_mod_mod, show o'.readyScan + (id + o'.slotCapacity - o'.readyScan) =
        id + o'.slotCapacity by omega, Nat.add_mod_right, Nat.mod_eq_of_lt hid]
    obtain ⟨⟨extra', hout', hserved'⟩, hannounced', hring, hscan'⟩ :=
      burstScan_spec o'.slotCapacity (maxEvents - out.length) out hinside (Nat.le_refl _) hall hannounced
        hoverflow
    rw [← hring] at hannounced'
    rw [hout']
    exact ⟨hinv (hserved.trans hserved') hannounced' hscan', hserved.trans hserved'⟩
  · exact ⟨hinv hserved hannounced hinside, hserved⟩

theorem at?_init (lcoreId capacity id : Nat) : (init lcoreId capacity).at? id = none := by
  rw [at?, init, List.getElem?_replicate]
  split_ifs <;> rfl

theorem init_inv (lcoreId capacity : Nat) : (init lcoreId capacity).Inv := by
  have hnone : ∀ {id sk}, (init lcoreId capacity).at? id ≠ some sk := by
    intro id sk
    rw [at?_init]
    exact nofun
  refine ⟨⟨fun h => absurd h hnone⟩, ⟨fun h => absurd h hnone, fun h => absurd h hnone⟩, ?_, ?_,
    fun {id} _ => at?_init _ _ _⟩
  · intro hcapacity
    exact Nat.pos_of_ne_zero hcapacity
  · exact nodup_range

theorem adopt_cases (o : SocketOwner) (protocol : BitVec 8) :
    o.adopt protocol = o ∨ ∃ id rest sk generations, o.freeIds = id :: rest ∧
      o.adopt protocol =
        { o.update id sk with freeIds := rest, generations := generations } ∧
      sk.id = id ∧ sk.ownerLcore = o.lcoreId ∧ sk.readyMask = 0 ∧ sk.readyQueued = false := by
  rw [adopt]
  cases o.freeIds with
  | nil => exact .inl rfl
  | cons id rest => exact .inr ⟨id, rest, _, _, rfl, rfl, rfl, rfl, rfl, rfl⟩

theorem Inv.adopt (h : o.Inv) (protocol : BitVec 8) : (o.adopt protocol).Inv := by
  rcases adopt_cases o protocol with hsame | ⟨id, rest, sk, generations, hfree, hadopt, hid, hlcore,
    hmask, hqueued⟩
  · rw [hsame]
    exact h
  have hnodup := h.freeNodup
  rw [hfree, nodup_cons] at hnodup
  have hold : ∀ {j other}, (o.update id sk).at? j = some other →
      o.at? j = some other ∨ j = id ∧ other = sk := by
    intro j other hother
    rcases at?_of_set hother with ⟨hj, hnew⟩ | ⟨-, hold⟩
    · exact .inr ⟨hj, (Option.some.inj hnew).symm⟩
    · exact .inl hold
  rw [hadopt]
  refine ⟨⟨fun {j other} hother => ?_⟩, ⟨fun {j other} hother hbits hnot => ?_,
    fun {j other} hother hin => ?_⟩, ?_, hnodup.2, fun {j} hj => ?_⟩
  · rcases hold hother with hother | ⟨rfl, rfl⟩
    · exact h.home hother
    · exact ⟨hid, hlcore⟩
  · rcases hold hother with hother | ⟨rfl, rfl⟩
    · exact h.announced.flagged hother hbits hnot
    · exact absurd hmask hbits
  · rcases hold hother with hother | ⟨rfl, rfl⟩
    · exact h.announced.queued hother hin
    · rw [hqueued] at hin
      cases hin
  · exact h.scan.same length_set rfl
  · -- the popped slot is on the stack once only
    cases hat : (o.update id sk).at? j with
    | none => exact hat
    | some other =>
      rcases hold hat with hother | ⟨rfl, _⟩
      · rw [h.freeEmpty (by rw [hfree]; exact mem_cons_of_mem id hj)] at hother
        cases hother
      · exact absurd hj hnodup.1

theorem retire_cases (o : SocketOwner) (id : Nat) :
    o.at? id = none ∧ o.retire id = o ∨
      (∃ sk, o.at? id = some sk) ∧ ∃ generations freeIds,
        (freeIds = o.freeIds ∨ freeIds = id :: o.freeIds) ∧
        o.retire id = { { o with slots := o.slots.set id none } with
          freeIds := freeIds, generations := generations } := by
  rw [retire]
  cases hat : o.at? id with
  | none => exact .inl ⟨rfl, rfl⟩
  | some sk =>
    refine .inr ⟨⟨sk, rfl⟩, _, _, ?_, rfl⟩
    split_ifs
    · exact .inr rfl
    · exact .inl rfl

theorem Inv.retire (h : o.Inv) (id : Nat) : (o.retire id).Inv := by
  rcases retire_cases o id with ⟨_, hsame⟩ | ⟨⟨sk, hat⟩, generations, freeIds, hfree, hretire⟩
  · rw [hsame]
    exact h
  have hold : ∀ {j other}, ({ o with slots := o.slots.set id none } : SocketOwner).at? j =
      some other → o.at? j = some other := by
    intro j other hother
    rcases at?_of_set hother with ⟨-, hnew⟩ | ⟨-, hold⟩
    · cases hnew
    · exact hold
  have hfresh : id ∉ o.freeIds := by
    intro hin
    rw [h.freeEmpty hin] at hat
    cases hat
  rw [hretire]
  refine ⟨⟨fun hother => h.home (hold hother)⟩, ⟨fun hother => h.announced.flagged (hold hother),
    fun hother => h.announced.queued (hold hother)⟩, ?_, ?_, fun {j} hj => ?_⟩
  · exact h.scan.same length_set rfl
  · rcases hfree with rfl | rfl
    · exact h.freeNodup
    · exact nodup_cons.mpr ⟨hfresh, h.freeNodup⟩
  · apply Option.eq_none_iff_forall_ne_some.mpr
    intro other hother
    rcases at?_of_set hother with ⟨-, hnew⟩ | ⟨hne, hother⟩
    · cases hnew
    · have hnone : o.at? j = none := by
        rcases hfree with rfl | rfl
        · exact h.freeEmpty hj
        · exact h.freeEmpty ((mem_cons.mp hj).resolve_left hne)
      cases hnone.symm.trans hother

/-- A post adds its bits to the socket and changes no other one. -/
theorem readyPost_cases (o : SocketOwner) (id : Nat) (events : BitVec 32) (poolOk ringOk : Bool) :
    o.at? id = none ∧ o.readyPost id events poolOk ringOk = o ∨
      ∃ sk, o.at? id = some sk ∧ (events = 0 ∧ o.readyPost id events poolOk ringOk = o ∨
        ∃ queued ring overflow,
          o.readyPost id events poolOk ringOk =
            { o.update id { sk with readyMask := sk.readyMask ||| events, readyQueued := queued } with
              readyRing := o.readyRing ++ ring, readyOverflow := overflow } ∧
          (o.readyOverflow = true → overflow = true) ∧
          (queued = false → overflow = true) ∧
          (queued = true → sk.readyQueued = true ∨ socketOwnerHandle sk ∈ ring)) := by
  rw [readyPost]
  cases hat : o.at? id with
  | none => exact .inl ⟨rfl, rfl⟩
  | some sk =>
    refine .inr ⟨sk, rfl, ?_⟩
    dsimp only
    split_ifs with hzero hqueued hfail
    · exact .inl ⟨hzero, rfl⟩
    · refine .inr ⟨true, [], o.readyOverflow, ?_, fun h => h, nofun, fun _ => .inl hqueued⟩
      rw [← hqueued, append_nil]
      rfl
    · have hnot : sk.readyQueued = false := by simpa using hqueued
      refine .inr ⟨false, [], true, ?_, fun _ => rfl, fun _ => rfl, nofun⟩
      rw [← hnot, append_nil]
      rfl
    · exact .inr ⟨true, [socketOwnerHandle sk], o.readyOverflow, rfl, fun h => h, nofun,
        fun _ => .inr (mem_singleton_self _)⟩

theorem Inv.readyPost (h : o.Inv) (id : Nat) (events : BitVec 32) (poolOk ringOk : Bool) :
    (o.readyPost id events poolOk ringOk).Inv := by
  rcases readyPost_cases o id events poolOk ringOk with ⟨_, hsame⟩ | ⟨sk, hat, ⟨_, hsame⟩ |
    ⟨queued, ring, overflow, hpost, hkeep, hflag, hin⟩⟩
  · rw [hsame]
    exact h
  · rw [hsame]
    exact h
  rw [hpost]
  have hhome : (o.update id { sk with
    readyMask := sk.readyMask ||| events, readyQueued := queued }).Homed := h.toHomed.update hat rfl
  refine ⟨⟨hhome.home⟩, ⟨fun {j other} hother hbits hnot => ?_, fun {j other} hother hqueued => ?_⟩,
    ?_, h.freeNodup, fun {j} hj => ?_⟩
  · rcases at?_of_set hother with ⟨-, hnew⟩ | ⟨-, hold⟩
    · obtain rfl := Option.some.inj hnew
      exact hflag hnot
    · exact hkeep (h.announced.flagged hold hbits hnot)
  · rcases at?_of_set hother with ⟨-, hnew⟩ | ⟨-, hold⟩
    · obtain rfl := Option.some.inj hnew
      rcases hin hqueued with hold | hring
      · have hring : socketOwnerHandle sk ∈ o.readyRing := h.announced.queued hat hold
        exact mem_append_left ring hring
      · exact mem_append_right o.readyRing hring
    · exact mem_append_left ring (h.announced.queued hold hqueued)
  · exact h.scan.same length_set rfl
  · refine (at?_update (at?_some_lt hat) _ j).trans ?_
    rw [if_neg]
    · exact h.freeEmpty hj
    · rintro rfl
      rw [h.freeEmpty hj] at hat
      cases hat

end SocketOwner

/-- The bit `i` of what was posted has been handed out since. -/
def Posted.HandedOut (p : Posted) (returned : List IoEvent) (i : Nat) : Prop :=
  ∃ event ∈ returned.drop p.since, event.handle = p.handle ∧ event.events.getLsbD i = true

/-- The socket of a post is still adopted, and each posted bit was handed out or is pending. -/
structure Posted.Tracked (p : Posted) (o : SocketOwner) (returned : List IoEvent) : Prop where
  since : p.since ≤ returned.length
  bits : ∃ sk, o.lookup p.handle = some sk ∧ ∀ i, p.events.getLsbD i = true →
    p.HandedOut returned i ∨ sk.readyMask.getLsbD i = true

section Tracked

open SocketOwner

variable {o o' : SocketOwner} {p : Posted} {returned out : List IoEvent}

/-- Posts stay tracked when the bits of the socket are kept or handed out. -/
theorem Posted.Tracked.step (h : p.Tracked o returned) (hhome : o.Homed) (hhome' : o'.Homed)
    (hkept : ∀ {sk}, o.at? p.handle.id = some sk → ∃ sk', o'.at? p.handle.id = some sk' ∧
      socketOwnerHandle sk' = socketOwnerHandle sk ∧ ∀ i, sk.readyMask.getLsbD i = true →
        sk'.readyMask.getLsbD i = true ∨
          ∃ event ∈ out, event.handle = socketOwnerHandle sk ∧ event.events.getLsbD i = true) :
    p.Tracked o' (returned ++ out) := by
  obtain ⟨hsince, sk, hfound, hbits⟩ := h
  obtain ⟨hat, hhandle⟩ := hhome.handle_of_lookup hfound
  obtain ⟨sk', hat', hsame, hmask⟩ := hkept hat
  have hdrop : (returned ++ out).drop p.since = returned.drop p.since ++ out :=
    drop_append_of_le_length hsince
  refine ⟨by rw [length_append]; omega, sk', ?_, fun i hi => ?_⟩
  · rw [← hhandle, ← hsame]
    exact hhome'.lookup_handle hat'
  · rw [Posted.HandedOut, hdrop]
    rcases hbits i hi with ⟨event, hin, hout⟩ | hpending
    · exact .inl ⟨event, mem_append_left out hin, hout⟩
    · rcases hmask i hpending with hstill | ⟨event, hin, hto, hbit⟩
      · exact .inr hstill
      · exact .inl ⟨event, mem_append_right _ hin, hto.trans hhandle, hbit⟩

theorem Posted.Tracked.readyBurst (h : p.Tracked o returned) (hinv : o.Inv) (maxEvents : Nat) :
    p.Tracked (o.readyBurst maxEvents).1 (returned ++ (o.readyBurst maxEvents).2) := by
  obtain ⟨hinv', hserved⟩ := hinv.readyBurst maxEvents
  refine h.step hinv.toHomed hinv'.toHomed fun {sk} hat => ?_
  obtain ⟨sk', hat', hsame, hcase⟩ := hserved.kept hat
  refine ⟨sk', hat', hsame, fun i hi => ?_⟩
  rcases hcase with rfl | ⟨_, hzero | hout⟩
  · exact .inl hi
  · rw [hzero] at hi
    simp at hi
  · exact .inr ⟨_, hout, rfl, hi⟩

/-- What is posted is tracked at once. -/
theorem Posted.tracked_post (hinv : o.Inv) {id : Nat} {sk : Nsock} (hat : o.at? id = some sk)
    (events : BitVec 32) (poolOk ringOk : Bool) :
    Posted.Tracked ⟨socketOwnerHandle sk, events, returned.length⟩
      (o.readyPost id events poolOk ringOk) returned := by
  refine ⟨Nat.le_refl _, ?_⟩
  rcases readyPost_cases o id events poolOk ringOk with ⟨hnone, _⟩ | ⟨sk', hat', ⟨hzero, hsame⟩ |
    ⟨queued, ring, overflow, hpost, _⟩⟩
  · rw [hnone] at hat
    cases hat
  · refine ⟨sk, ?_, fun i hi => ?_⟩
    · rw [hsame]
      exact hinv.toHomed.lookup_handle hat
    · rw [hzero] at hi
      simp at hi
  · obtain rfl : sk' = sk := Option.some.inj (hat'.symm.trans hat)
    have hhome := (hinv.readyPost id events poolOk ringOk).toHomed
    have hnew : (o.readyPost id events poolOk ringOk).at? id = some { sk' with
        readyMask := sk'.readyMask ||| events, readyQueued := queued } := by
      rw [hpost]
      refine (at?_update (at?_some_lt hat) _ id).trans ?_
      rw [if_pos rfl]
    have hfound := hhome.lookup_handle hnew
    refine ⟨_, hfound, fun i hi => .inr ?_⟩
    rw [BitVec.getLsbD_or, hi, Bool.or_true]

end Tracked

/-- What holds in every state of a run. -/
structure Readiness.Inv (st : Readiness) : Prop where
  owner : st.owner.Inv
  tracked : ∀ p ∈ st.posted, p.Tracked st.owner st.returned

section Steps

open SocketOwner

variable {st : Readiness}

theorem Readiness.Inv.adopt (h : st.Inv) (protocol : BitVec 8) :
    (readinessStep st (.adopt protocol)).Inv := by
  have hinv := h.owner.adopt protocol
  refine ⟨hinv, fun p hp => ?_⟩
  show p.Tracked (st.owner.adopt protocol) st.returned
  rw [← append_nil st.returned]
  refine (h.tracked p hp).step h.owner.toHomed hinv.toHomed fun {sk} hat => ?_
  refine ⟨sk, ?_, rfl, fun i hi => .inl hi⟩
  rcases adopt_cases st.owner protocol with hsame | ⟨id, rest, new, generations, hfree, hadopt, _⟩
  · rw [hsame]
    exact hat
  · -- the slot of a new socket was empty
    have hne : p.handle.id ≠ id := by
      rintro rfl
      rw [h.owner.freeEmpty (by rw [hfree]; exact mem_cons_self)] at hat
      cases hat
    rw [hadopt, at?, SocketOwner.update, List.getElem?_set_ne (fun heq => hne heq.symm)]
    exact hat

theorem Readiness.Inv.retire (h : st.Inv) (id : Nat) : (readinessStep st (.retire id)).Inv := by
  have hinv := h.owner.retire id
  refine ⟨hinv, fun p hp => ?_⟩
  obtain ⟨hp, hne⟩ := mem_filter.mp hp
  show p.Tracked (st.owner.retire id) st.returned
  rw [← append_nil st.returned]
  refine (h.tracked p hp).step h.owner.toHomed hinv.toHomed fun {sk} hat => ?_
  refine ⟨sk, ?_, rfl, fun i hi => .inl hi⟩
  rcases retire_cases st.owner id with ⟨_, hsame⟩ | ⟨_, generations, freeIds, _, hretire⟩
  · rw [hsame]
    exact hat
  · have hother : id ≠ p.handle.id := Ne.symm (of_decide_eq_true hne)
    rw [hretire, at?, List.getElem?_set_ne hother]
    exact hat

/-- A post is remembered whether or not it gets into the ring. -/
theorem Readiness.Inv.post (h : st.Inv) (id : Nat) (events : BitVec 32) (poolOk ringOk : Bool) :
    (readinessStep st (.post id events poolOk ringOk)).Inv := by
  have hinv := h.owner.readyPost id events poolOk ringOk
  have hold : ∀ p ∈ st.posted,
      p.Tracked (st.owner.readyPost id events poolOk ringOk) st.returned := by
    intro p hp
    rw [← append_nil st.returned]
    refine (h.tracked p hp).step h.owner.toHomed hinv.toHomed fun {sk} hat => ?_
    rcases readyPost_cases st.owner id events poolOk ringOk with ⟨_, hsame⟩ | ⟨sk', hat',
      ⟨_, hsame⟩ | ⟨queued, ring, overflow, hpost, _⟩⟩
    · rw [hsame]
      exact ⟨sk, hat, rfl, fun i hi => .inl hi⟩
    · rw [hsame]
      exact ⟨sk, hat, rfl, fun i hi => .inl hi⟩
    · have hnew := at?_update (at?_some_lt hat') { sk' with
        readyMask := sk'.readyMask ||| events, readyQueued := queued } p.handle.id
      rw [hpost]
      split_ifs at hnew with hid
      · obtain rfl : sk' = sk := Option.some.inj (hat'.symm.trans (hid ▸ hat))
        refine ⟨_, hnew, rfl, fun i hi => .inl ?_⟩
        rw [BitVec.getLsbD_or, hi, Bool.true_or]
      · exact ⟨sk, hnew.trans hat, rfl, fun i hi => .inl hi⟩
  refine ⟨hinv, fun p hp => ?_⟩
  simp only [readinessStep] at hp
  cases hat : st.owner.at? id with
  | none =>
    rw [hat] at hp
    exact hold p hp
  | some sk =>
    rw [hat, mem_append, mem_singleton] at hp
    rcases hp with hp | rfl
    · exact hold p hp
    · exact Posted.tracked_post h.owner hat events poolOk ringOk

theorem Readiness.Inv.burst (h : st.Inv) (maxEvents : Nat) :
    (readinessStep st (.burst maxEvents)).Inv :=
  ⟨(h.owner.readyBurst maxEvents).1, fun p hp => (h.tracked p hp).readyBurst h.owner maxEvents⟩

theorem readiness_inv {ok : Readiness → OwnerEvent → Prop} (h : readinessSystem.Reach ok st) :
    st.Inv := by
  refine h.invariant ?_ ?_
  · rintro _ ⟨lcoreId, capacity, rfl⟩
    exact ⟨init_inv lcoreId capacity, nofun⟩
  · intro st event hinv _ _
    cases event with
    | adopt protocol => exact hinv.adopt protocol
    | retire id => exact hinv.retire id
    | post id events poolOk ringOk => exact hinv.post id events poolOk ringOk
    | burst maxEvents => exact hinv.burst maxEvents

end Steps

/-- Bits of a live socket are waiting: for the queued event, or for the scan of all slots. -/
def SocketOwner.Pending (o : SocketOwner) (sk : Nsock) : Prop :=
  sk.readyQueued = true ∧ socketOwnerHandle sk ∈ o.readyRing ∨ o.readyOverflow = true

/-- In every state of every run: bits without a queued event are under the overflow flag, and every
bit posted for a socket that has stayed adopted was handed out later or is pending. -/
theorem readiness_not_lost {st : Readiness}
    (h : readinessSystem.Reach (fun _ _ => True) st) :
    (∀ id sk, st.owner.at? id = some sk → sk.readyMask ≠ 0 → sk.readyQueued = false →
      st.owner.readyOverflow = true) ∧
    ∀ p ∈ st.posted, ∃ sk, st.owner.lookup p.handle = some sk ∧
      ∀ i, p.events.getLsbD i = true → p.HandedOut st.returned i ∨
        sk.readyMask.getLsbD i = true ∧ st.owner.Pending sk := by
  have hinv := readiness_inv h
  refine ⟨fun id sk hat => hinv.owner.announced.flagged hat, fun p hp => ?_⟩
  obtain ⟨sk, hfound, hbits⟩ := (hinv.tracked p hp).bits
  obtain ⟨hat, _⟩ := hinv.owner.toHomed.handle_of_lookup hfound
  refine ⟨sk, hfound, fun i hi => (hbits i hi).imp_right fun hbit => ⟨hbit, ?_⟩⟩
  cases hqueued : sk.readyQueued with
  | true => exact .inl ⟨hqueued, hinv.owner.announced.queued hat hqueued⟩
  | false =>
    refine .inr (hinv.owner.announced.flagged hat ?_ hqueued)
    intro hzero
    rw [hzero] at hbit
    simp at hbit

/-- Two sockets, no event object for the second one, and a burst with room for one event: bit 0 of
the first socket has been handed out, bit 2 of the second one is pending. -/
theorem readiness_not_lost_after_full_pool :
    ∃ st, st = readinessSystem.run { owner := .init 3 2 }
        [.adopt 6, .adopt 6, .post 0 1 true true, .post 1 4 false true, .burst 1] ∧
      st.posted = [⟨⟨0, 1, 3, 6⟩, 1, 0⟩, ⟨⟨1, 1, 3, 6⟩, 4, 0⟩] ∧
      st.returned = [⟨⟨0, 1, 3, 6⟩, 1⟩] ∧
      ∀ p ∈ st.posted, ∃ sk, st.owner.lookup p.handle = some sk ∧
        ∀ i, p.events.getLsbD i = true → p.HandedOut st.returned i ∨
          sk.readyMask.getLsbD i = true ∧ st.owner.Pending sk := by
  refine ⟨_, rfl, by decide, by decide, (readiness_not_lost ?_).2⟩
  refine System.Reach.run (.init ⟨3, 2, rfl⟩) ?_
  simp only [System.Admissible, readinessSystem, and_self]

end SnowTG.Owner
