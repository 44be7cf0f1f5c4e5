import SnowTG.Dispatch.FlowPlacement

/-!
# Lookups without the lock

A lookup that meets no cleared slot before the entry of its key gets to it, whatever
the operations on other keys do meanwhile.  The only operation that can stop it short
is a registration that takes over a tombstone on the way: it stores a zero there
before it fills the slot.
-/

namespace SnowTG.Dispatch

open SnowTG.Lib Option

/-- What holds of the running operation. -/
def Writer.Inv (workers : List (BitVec 32)) (t : FlowTable) : Writer → Prop
  | .idle => True
  | .registering key owner pc => registerValid workers key owner ∧ pc.Inv t key
  | .unregistering key owner pc => owner ≤ 0xffff ∧ pc.Inv t key owner

/-- What holds where a lookup is, when the key lies at probe `d`. -/
def LookupPc.Inv (t : FlowTable) (target : FlowKey) (owner : BitVec 32) (d loads : Nat) :
    LookupPc → Prop
  | .load n => n ≤ d ∧ loads ≤ 3 * n
  | .addresses n value => n ≤ d ∧ loads ≤ 3 * n + 1 ∧
      (value = target.value owner ∨ (t (target.slot n)).addresses ≠ target.addresses) ∧
      (n = d → value = target.value owner)
  | .verify n value entryAddresses => n ≤ d ∧ loads ≤ 3 * n + 2 ∧
      (value = target.value owner ∨ entryAddresses ≠ target.addresses) ∧
      (n = d → value = target.value owner ∧ entryAddresses = target.addresses)

/-- What holds of the lookup. -/
def Dispatcher.ReaderInv (workers : List (BitVec 32)) (target : FlowKey) (st : Dispatcher) : Prop :=
  match st.reader with
  | .idle => True
  | .looking pc => st.registered = some st.owner ∧ st.writerKey ≠ some target ∧
      ∃ d, Placed st.table target st.owner none d ∧ pc.Inv st.table target st.owner d st.loads
  | .found result => ∃ worker, workerIndex workers st.owner = some worker ∧ result = some worker

structure Dispatcher.Inv (workers : List (BitVec 32)) (target : FlowKey) (st : Dispatcher) :
    Prop where
  table : st.table.Sound st.writer.hole
  writer : st.writer.Inv workers st.table
  registered : Registered workers st.table target st.registered
  reader : st.ReaderInv workers target

section Lookup

variable {t t' : FlowTable} {key target : FlowKey} {owner : BitVec 32} {hole hole' : Option Nat}
variable {d loads s : Nat} {pc : LookupPc}

theorem lookupProbe_le (hplaced : Placed t target owner none d) {n : Nat} (hn : n < d) :
    lookupProbe (n + 1) = .goto (.load (n + 1)) := by
  have hlt := hplaced.lt
  rw [lookupProbe, if_pos (by omega)]

/-- One load of a lookup: it goes on, or returns the owner's worker. -/
theorem lookupStep_spec (workers : List (BitVec 32)) (hplaced : Placed t target owner none d)
    (h : pc.Inv t target owner d loads) :
    (∃ pc', lookupStep workers t target pc = .goto pc' ∧
      pc'.Inv t target owner d (loads + 1)) ∨
    lookupStep workers t target pc = .returned (workerIndex workers owner) := by
  cases pc with
  | load n =>
    obtain ⟨hn, hloads⟩ := h
    have hhere : n = d → (t (target.slot n)).portsProtocolOwner = target.value owner := by
      rintro rfl
      rw [hplaced.entry]
    simp only [lookupStep, if_neg (hplaced.occupied hn)]
    split_ifs with hskip
    · have hne : n ≠ d := by
        intro heq
        rw [hhere heq, FlowKey.identityBits_value target hplaced.small] at hskip
        simp [FlowKey.value_ne_tombstone target hplaced.small] at hskip
      have hlt : n < d := Nat.lt_of_le_of_ne hn hne
      exact .inl ⟨_, lookupProbe_le hplaced hlt, hlt, by omega⟩
    · refine .inl ⟨_, rfl, hn, by omega, ?_, hhere⟩
      simp only [ne_eq, Bool.or_eq_true, decide_eq_true_eq, not_or, not_not] at hskip
      by_cases haddresses : (t (target.slot n)).addresses = target.addresses
      · -- only one slot holds the key
        have hslot := hplaced.sole ⟨hskip.2, haddresses⟩
        exact .inl (hhere (FlowKey.slot_inj (lt_of_le_of_lt hn hplaced.lt) hplaced.lt hslot))
      · exact .inr haddresses
  | addresses n value =>
    obtain ⟨hn, hloads, hvalue, hhere⟩ := h
    refine .inl ⟨_, rfl, hn, by omega, hvalue, fun heq => ⟨hhere heq, ?_⟩⟩
    rw [heq, hplaced.entry]
  | verify n value entryAddresses =>
    obtain ⟨hn, hloads, hvalue, hhere⟩ := h
    simp only [lookupStep]
    split_ifs with hmatch
    · simp only [Bool.and_eq_true, decide_eq_true_eq] at hmatch
      have howner : value = target.value owner := hvalue.resolve_right (fun hne => hne hmatch.2)
      rw [howner, FlowKey.value_owner target hplaced.small]
      exact .inr rfl
    · have hne : n ≠ d := by
        intro heq
        obtain ⟨hown, haddresses⟩ := hhere heq
        rw [heq, hplaced.entry, hown, haddresses] at hmatch
        simp at hmatch
      have hlt : n < d := Nat.lt_of_le_of_ne hn hne
      exact .inl ⟨_, lookupProbe_le hplaced hlt, hlt, by omega⟩

/-- What a lookup has loaded depends on the addresses of the slots up to the entry. -/
theorem LookupPc.Inv.store (h : pc.Inv t target owner d loads)
    (hsame : ∀ n ≤ d, (t' (target.slot n)).addresses = (t (target.slot n)).addresses) :
    pc.Inv t' target owner d loads := by
  cases pc with
  | load n => exact h
  | addresses n loaded =>
    rw [LookupPc.Inv, hsame n h.1]
    exact h
  | verify n loaded entryAddresses => exact h

/-- During a lookup no step of another key's operation frees a slot before the entry, unless it
clears a tombstone there. -/
theorem WriterStore.lookup (h : WriterStore t key hole t' hole') (hne : target ≠ key)
    (hclear : ∀ s, hole = none → hole' = some s → ∀ j < d, target.slot j ≠ s)
    (hplaced : Placed t target owner none d) {pc : LookupPc} (hpc : pc.Inv t target owner d loads) :
    Placed t' target owner none d ∧ pc.Inv t' target owner d loads := by
  refine ⟨⟨hplaced.small, hplaced.cell.of_entries (h.untouched hne) fun j hj hempty => ?_⟩,
    hpc.store fun n hn => h.addresses (hplaced.occupied hn)⟩
  rcases h.freed hempty with hold | ⟨hnone, hsome⟩
  · exact .inl ⟨hold, nofun⟩
  · exact absurd rfl (hclear _ hnone hsome j hj)

end Lookup

/-- The probes of the key come to slot `s` before they come to its entry: from `probe` on, for
`fuel` probes. -/
def beforeEntry (t : FlowTable) (target : FlowKey) (s : Nat) : Nat → Nat → Bool
  | 0, _ => false
  | fuel + 1, probe =>
    if target.Holds (t (target.slot probe)) then false
    else target.slot probe = s || beforeEntry t target s fuel (probe + 1)

/-- A registration clears a slot before the entry of the key that is being looked up, or has done so
and not filled it yet when the lookup begins. -/
def clearsBefore (target : FlowKey) (st : Dispatcher) : DispatchEvent → Bool
  | .writer =>
    match st.writer with
    | .registering _ _ (.clear s) =>
      st.isLooking && beforeEntry st.table target s flowTableSize 0
    | _ => false
  | .lookup =>
    match st.writer.hole with
    | some s => beforeEntry st.table target s flowTableSize 0
    | none => false
  | _ => false

/-- No registration that overlaps the lookup takes a slot before the entry of the key. -/
def NoReuseBefore (target : FlowKey) (st : Dispatcher) (event : DispatchEvent) : Prop :=
  clearsBefore target st event = false

instance (target : FlowKey) (st : Dispatcher) (event : DispatchEvent) :
    Decidable (NoReuseBefore target st event) :=
  inferInstanceAs (Decidable (_ = _))

section Run

variable {workers : List (BitVec 32)} {target : FlowKey} {t : FlowTable} {owner : BitVec 32}
variable {hole : Option Nat} {d s : Nat} {st : Dispatcher} {registered : Option (BitVec 32)}
  {key : FlowKey}

theorem Placed.not_before (h : Placed t target owner hole d) {fuel probe : Nat}
    (hfuel : d < fuel + probe) (hnot : beforeEntry t target s fuel probe = false) :
    ∀ j < d, probe ≤ j → target.slot j ≠ s := by
  induction fuel generalizing probe with
  | zero => omega
  | succ fuel ih =>
    intro j hj hle
    rw [beforeEntry] at hnot
    split_ifs at hnot with hholds
    · have hslot := h.sole hholds
      have hd := FlowKey.slot_inj (by have := h.lt; omega) h.lt hslot
      omega
    · rw [Bool.or_eq_false_iff] at hnot
      rcases Nat.lt_or_eq_of_le hle with hlt | rfl
      · exact ih (by omega) hnot.2 j hj hlt
      · exact of_decide_eq_false hnot.1

theorem Placed.without_hole (h : Placed t target owner hole d)
    (hnot : ∀ s, hole = some s → ∀ j < d, target.slot j ≠ s) : Placed t target owner none d := by
  refine ⟨h.small, { h.cell with path := fun j hj hempty => ?_ }⟩
  exact absurd rfl (hnot _ (h.cell.path j hj hempty) j hj)

/-- A registered key is in the table with its owner. -/
theorem Registered.placed (h : Registered workers t target registered) (hsound : t.Sound hole)
    (howner : registered = some owner) : ∃ d, Placed t target owner hole d := by
  obtain ⟨⟨s, hentry⟩, hsmall, _⟩ := h.live owner howner
  obtain ⟨d, hplaced⟩ := hsound s _ _ hentry
  exact ⟨d, hsmall, hplaced⟩

theorem registerValid_owner (h : registerValid workers key owner) :
    owner ≤ 0xffff ∧ (workerIndex workers owner).isSome := by
  simp only [registerValid, Bool.and_eq_true, decide_eq_true_eq] at h
  exact ⟨h.1.2, h.2⟩

namespace Dispatcher

variable {writer : Writer}

/-- An operation on another key begins. -/
theorem ReaderInv.begin (h : st.ReaderInv workers target)
    (hkey : st.isLooking → ({ st with writer := writer } : Dispatcher).writerKey ≠ some target) :
    ({ st with writer := writer } : Dispatcher).ReaderInv workers target := by
  rw [ReaderInv] at h ⊢
  rw [isLooking] at hkey
  cases hpc : st.reader with
  | idle => trivial
  | found result =>
    rw [hpc] at h
    exact h
  | looking pc =>
    rw [hpc] at h hkey
    exact ⟨h.1, hkey rfl, h.2.2⟩

section

variable (h : st.Inv workers target)
include h

theorem Inv.register (key : FlowKey) (hen : st.enabled target (.register key owner)) :
    (st.step workers target (.register key owner)).Inv workers target := by
  obtain ⟨hidle, hother⟩ := hen
  have hsound := h.table
  rw [hidle] at hsound
  rw [step]
  split_ifs with hvalid
  · refine ⟨hsound, ⟨hvalid, by decide, .start⟩, h.registered, ?_⟩
    exact h.reader.begin fun hlooking hkey => hother hlooking (Option.some.inj hkey)
  · exact h

theorem Inv.unregister (key : FlowKey) (hen : st.enabled target (.unregister key owner)) :
    (st.step workers target (.unregister key owner)).Inv workers target := by
  obtain ⟨hidle, hother⟩ := hen
  have hsound := h.table
  rw [hidle] at hsound
  rw [step]
  split_ifs with hsmall
  · refine ⟨hsound, ⟨hsmall, by decide, fun j hj => absurd hj (Nat.not_lt_zero j)⟩, h.registered, ?_⟩
    exact h.reader.begin fun hlooking hkey => hother hlooking (Option.some.inj hkey)
  · exact h

theorem Inv.lookup (hen : st.enabled target .lookup) (hok : NoReuseBefore target st .lookup) :
    (st.step workers target .lookup).Inv workers target := by
  obtain ⟨_, hsome, hkey⟩ := hen
  obtain ⟨owner, howner⟩ := isSome_iff_exists.mp hsome
  refine ⟨h.table, h.writer, h.registered, ?_, hkey, ?_⟩
  · show st.registered = some (st.registered.getD 0)
    rw [howner, getD_some]
  · obtain ⟨d, hplaced⟩ := h.registered.placed h.table howner
    have hclear : Placed st.table target owner none d := by
      refine hplaced.without_hole fun s hs j hj => ?_
      simp only [NoReuseBefore, clearsBefore, hs] at hok
      exact hplaced.not_before (Nat.lt_add_right 0 hplaced.lt) hok j hj (Nat.zero_le j)
    refine ⟨d, ?_, Nat.zero_le d, Nat.zero_le _⟩
    show Placed st.table target (st.registered.getD 0) none d
    rw [howner, getD_some]
    exact hclear

theorem Inv.readerStep : (st.readerStep workers target).Inv workers target := by
  have hreader := h.reader
  rw [ReaderInv] at hreader
  rw [Dispatcher.readerStep]
  cases hpc : st.reader with
  | idle => exact h
  | found result => exact h
  | looking pc =>
    rw [hpc] at hreader
    obtain ⟨howner, hkey, d, hplaced, hinv⟩ := hreader
    refine { h with reader := ?_ }
    rcases lookupStep_spec workers hplaced hinv with ⟨pc', hgoto, hinv'⟩ | hreturned
    · simp only [ReaderInv, hgoto]
      exact ⟨howner, hkey, d, hplaced, hinv'⟩
    · obtain ⟨worker, hworker⟩ := isSome_iff_exists.mp (h.registered.live _ howner).2.2
      simp only [ReaderInv, hreturned]
      exact ⟨worker, hworker, hworker⟩

end

variable {t' : FlowTable}

/-- The lookup after a step of another key's operation. -/
theorem ReaderInv.store (h : st.ReaderInv workers target) (hkey : st.writerKey = some key)
    (hstore : WriterStore st.table key st.writer.hole t' writer.hole)
    (hwriter : writer = .idle ∨ ({ st with writer := writer } : Dispatcher).writerKey = some key)
    (hregistered : key ≠ target → registered = st.registered)
    (hok : NoReuseBefore target st .writer)
    (hclear : ∀ s, st.writer.hole = none → writer.hole = some s →
      ∃ owner, st.writer = .registering key owner (.clear s)) :
    ({ st with table := t', writer := writer, registered := registered } : Dispatcher).ReaderInv
      workers target := by
  rw [ReaderInv] at h ⊢
  cases hpc : st.reader with
  | idle => trivial
  | found result =>
    rw [hpc] at h
    exact h
  | looking pc =>
    rw [hpc] at h
    obtain ⟨howner, hother, d, hplaced, hinv⟩ := h
    have hne : key ≠ target := fun heq => hother (hkey.trans (congrArg some heq))
    have hpath : ∀ s, st.writer.hole = none → writer.hole = some s →
        ∀ j < d, target.slot j ≠ s := by
      intro s hnone hsome j hj
      obtain ⟨owner, hwriting⟩ := hclear s hnone hsome
      simp only [NoReuseBefore, clearsBefore, hwriting, isLooking, hpc, Bool.true_and] at hok
      exact hplaced.not_before (Nat.lt_add_right 0 hplaced.lt) hok j hj (Nat.zero_le j)
    obtain ⟨hplaced', hinv'⟩ := hstore.lookup hne.symm hpath hplaced hinv
    refine ⟨(hregistered hne).trans howner, ?_, d, hplaced', hinv'⟩
    rcases hwriter with rfl | hsame
    · exact nofun
    · intro heq
      exact hne (Option.some.inj (hsame.symm.trans heq))

theorem hole_of_clear {pc pc' : RegisterPc}
    (hresult : registerStep t key owner pc = (t', .goto pc'))
    (hnone : (Writer.registering key owner pc).hole = none)
    (hsome : (Writer.registering key owner pc').hole = some s) : pc = .clear s := by
  have hprobe : ∀ {n : Nat} {reuse : Option Nat},
      (t, registerProbe n reuse) = (t', .goto pc') → pc = .clear s := by
    intro n reuse h
    have hgoto := congrArg Prod.snd h
    rw [registerProbe.eq_def] at hgoto
    split_ifs at hgoto
    · cases hgoto
      cases hsome
    · cases reuse with
      | none => cases hgoto
      | some slot =>
        cases hgoto
        cases hsome
  cases pc with
  | probe n reuse =>
    simp only [registerStep] at hresult
    split_ifs at hresult
    · exact hprobe hresult
    · cases hresult
      cases hsome
    · cases hresult
      cases hsome
    · exact hprobe hresult
  | compare n reuse entry =>
    simp only [registerStep] at hresult
    split_ifs at hresult
    · cases hresult
    · cases hresult
    · exact hprobe hresult
  | clear slot =>
    cases hresult
    rw [Option.some.inj hsome]
  | address slot | publish slot => cases hnone

/-- One load or store of a registration. -/
theorem Inv.registering (h : st.Inv workers target) (hok : NoReuseBefore target st .writer)
    {pc : RegisterPc} (hwriter : st.writer = .registering key owner pc) :
    (st.writerStep target).Inv workers target := by
  have hsound := h.table
  have hinv := h.writer
  rw [hwriter] at hsound hinv
  obtain ⟨hvalid, hpc⟩ := hinv
  obtain ⟨hsmall, hworker⟩ := registerValid_owner hvalid
  have houtcome := registerStep_outcome hsound hsmall hpc
  have hkey : st.writerKey = some key := by rw [writerKey, hwriter]
  rcases hresult : registerStep st.table key owner pc with ⟨t', pc' | result⟩
  · rw [hresult] at houtcome
    obtain ⟨hstore, hsame, hpc'⟩ := houtcome
    have hregistered : Untouched target st.table t' := by
      by_cases hne : target = key
      · rw [hne]
        exact hsame
      · exact hstore.untouched hne
    simp only [Dispatcher.writerStep, hwriter, hresult]
    refine ⟨hstore.sound hsound, ⟨hvalid, hpc'⟩, h.registered.untouched hregistered, ?_⟩
    refine h.reader.store hkey (hwriter ▸ hstore) (.inr rfl) (fun _ => rfl) hok ?_
    intro s hnone hsome
    rw [hwriter] at hnone
    rw [hwriter, hole_of_clear hresult hnone hsome]
    exact ⟨owner, rfl⟩
  · rw [hresult] at houtcome
    obtain ⟨hstore, hplaced, hfailed⟩ := houtcome
    simp only [Dispatcher.writerStep, hwriter, hresult]
    refine ⟨hstore.sound hsound, trivial, ?_, ?_⟩
    · by_cases hne : target = key
      · subst hne
        by_cases hreturned : result = .ok
        · rw [if_pos ⟨rfl, hreturned⟩]
          obtain ⟨d, hplaced⟩ := hplaced hreturned
          exact .of_placed hplaced hworker
        · rw [if_neg fun hboth => hreturned hboth.2]
          rw [show t' = st.table from hfailed hreturned]
          exact h.registered
      · rw [if_neg fun hboth => hne hboth.1.symm]
        exact h.registered.untouched (hstore.untouched hne)
    · refine h.reader.store hkey (hwriter ▸ hstore) (.inl rfl) (fun hne => ?_) hok nofun
      exact if_neg fun hboth => hne hboth.1

/-- One load or store of an unregistration. -/
theorem Inv.unregistering (h : st.Inv workers target) (hok : NoReuseBefore target st .writer)
    {pc : UnregisterPc} (hwriter : st.writer = .unregistering key owner pc) :
    (st.writerStep target).Inv workers target := by
  have hsound := h.table
  have hinv := h.writer
  rw [hwriter] at hsound hinv
  obtain ⟨hsmall, hpc⟩ := hinv
  have houtcome := unregisterStep_outcome hsound hsmall hpc
  have hkey : st.writerKey = some key := by rw [writerKey, hwriter]
  rcases hresult : unregisterStep st.table key owner pc with ⟨t', pc' | result⟩
  · rw [hresult] at houtcome
    obtain ⟨rfl, hpc'⟩ : t' = st.table ∧ pc'.Inv st.table key owner := houtcome
    simp only [Dispatcher.writerStep, hwriter, hresult]
    refine ⟨hsound, ⟨hsmall, hpc'⟩, h.registered, ?_⟩
    exact h.reader.store hkey (hwriter ▸ .load) (.inr rfl) (fun _ => rfl) hok nofun
  · rw [hresult] at houtcome
    obtain ⟨hstore, hcase⟩ := houtcome
    simp only [Dispatcher.writerStep, hwriter, hresult]
    refine ⟨hstore.sound hsound, trivial, ?_, ?_⟩
    · by_cases hne : target = key
      · subst hne
        rcases hcase with ⟨hsame, hnowhere⟩ | ⟨⟨s, hentry⟩, hgone⟩
        · have hnot : st.registered ≠ some owner := by
            intro howner
            obtain ⟨d, hplaced⟩ := h.registered.placed hsound howner
            exact hnowhere _ hplaced.entry
          rw [if_neg fun hboth => hnot hboth.2, show t' = st.table from hsame]
          exact h.registered
        · have howner :=
            h.registered.agree s _ ((FlowTable.cells_eq_value_iff hsmall).mpr hentry)
          rw [setWidth_owner (Nat.lt_succ_of_le hsmall)] at howner
          rw [if_pos ⟨rfl, howner⟩]
          exact .of_absent hgone
      · rw [if_neg fun hboth => hne hboth.1.symm]
        exact h.registered.untouched (hstore.untouched hne)
    · refine h.reader.store hkey (hwriter ▸ hstore) (.inl rfl) (fun hne => ?_) hok nofun
      exact if_neg fun hboth => hne hboth.1

theorem Inv.writerStep (h : st.Inv workers target) (hok : NoReuseBefore target st .writer) :
    (st.writerStep target).Inv workers target := by
  cases hwriter : st.writer with
  | idle =>
    rw [Dispatcher.writerStep, hwriter]
    exact h
  | registering key owner pc => exact h.registering hok hwriter
  | unregistering key owner pc => exact h.unregistering hok hwriter

end Dispatcher

/-- The invariant holds in every run that reuses no slot before the entry. -/
theorem dispatch_inv (h : (dispatchSystem workers target).Reach (NoReuseBefore target) st) :
    st.Inv workers target := by
  refine h.invariant ?_ ?_
  · rintro _ ⟨_, rfl⟩
    exact ⟨ProbeTable.sound_empty, trivial, .of_absent fun _ _ => nofun, trivial⟩
  · intro st event hinv hen hok
    cases event with
    | register key owner => exact hinv.register key hen
    | unregister key owner => exact hinv.unregister key hen
    | writer => exact hinv.writerStep hok
    | lookup => exact hinv.lookup hen hok
    | reader => exact hinv.readerStep

end Run

instance (target : FlowKey) (st : Dispatcher) :
    ∀ event, Decidable (Dispatcher.enabled target st event)
  | .register key _ =>
    inferInstanceAs (Decidable (st.writer = .idle ∧ (st.isLooking → key ≠ target)))
  | .unregister key _ =>
    inferInstanceAs (Decidable (st.writer = .idle ∧ (st.isLooking → key ≠ target)))
  | .writer => inferInstanceAs (Decidable (st.writer ≠ .idle))
  | .lookup => inferInstanceAs
      (Decidable (st.isLooking = false ∧ st.registered.isSome ∧ st.writerKey ≠ some target))
  | .reader => inferInstanceAs (Decidable (st.isLooking = true))

instance (workers : List (BitVec 32)) (target : FlowKey) (st : Dispatcher) (event : DispatchEvent) :
    Decidable ((dispatchSystem workers target).enabled st event) :=
  inferInstanceAs (Decidable (Dispatcher.enabled target st event))

theorem getElem?_of_workerIndex {workers : List (BitVec 32)} {owner : BitVec 32} {worker : Nat}
    (h : workerIndex workers owner = some worker) : workers[worker]? = some owner := by
  rw [workerIndex, List.findIdx?_eq_some_iff_getElem] at h
  obtain ⟨hlt, howner, _⟩ := h
  rw [List.getElem?_eq_getElem hlt, of_decide_eq_true howner]

/-- In every run in which no registration takes a slot before the entry of the key while it is looked
up, the lookup returns within three loads a slot, and returns the worker of the owner the key has
been registered with throughout. -/
theorem lookup_returns_owner {workers : List (BitVec 32)} {target : FlowKey} {st : Dispatcher}
    (h : (dispatchSystem workers target).Reach (NoReuseBefore target) st) :
    (∀ result, st.reader = .found result →
      ∃ worker, result = some worker ∧ workers[worker]? = some st.owner) ∧
    ∀ pc, st.reader = .looking pc →
      st.registered = some st.owner ∧ st.loads < 3 * flowTableSize := by
  have hreader := (dispatch_inv h).reader
  rw [Dispatcher.ReaderInv] at hreader
  refine ⟨fun result hfound => ?_, fun pc hlooking => ?_⟩
  · rw [hfound] at hreader
    obtain ⟨worker, hindex, hresult⟩ := hreader
    exact ⟨worker, hresult, getElem?_of_workerIndex hindex⟩
  · rw [hlooking] at hreader
    obtain ⟨howner, _, d, hplaced, hinv⟩ := hreader
    have hlt := hplaced.lt
    refine ⟨howner, ?_⟩
    cases pc with
    | load n =>
      obtain ⟨hn, hloads⟩ := hinv
      omega
    | addresses n value | verify n value entryAddresses =>
      obtain ⟨hn, hloads, _⟩ := hinv
      omega

/-- The key of the examples below, and one whose probes begin at the same slot. -/
def sampleKey : FlowKey := ⟨0x0a000001, 0x0a000002, 1024, 80⟩

@[inherit_doc sampleKey]
def collidingKey : FlowKey := ⟨0x0a000001, 0x0a000002, 16172, 80⟩

theorem dispatch_run (ok : Dispatcher → DispatchEvent → Prop) [∀ st e, Decidable (ok st e)]
    (workers : List (BitVec 32)) (target : FlowKey) (events : List DispatchEvent)
    (hworkers : workersValid workers)
    (h : (dispatchSystem workers target).Admissible ok { table := fun _ => {} } events) :
    (dispatchSystem workers target).Reach ok
      ((dispatchSystem workers target).run { table := fun _ => {} } events) :=
  System.Reach.run (.init ⟨hworkers, rfl⟩) h

/-- The colliding key is erased while the lookup is running. -/
theorem lookup_returns_owner_past_erasure :
    ∃ st, (dispatchSystem [3] sampleKey).Reach (NoReuseBefore sampleKey) st ∧
      st.reader = .found (some 0) ∧
      ∃ worker, some 0 = some worker ∧ [3][worker]? = some st.owner := by
  have hrun := dispatch_run (NoReuseBefore sampleKey) [3] sampleKey
    [.register collidingKey 3, .writer, .writer, .writer, .writer,
      .register sampleKey 3, .writer, .writer, .writer, .writer, .writer,
      .unregister collidingKey 3, .writer, .lookup, .reader, .writer, .writer,
      .reader, .reader, .reader] (by decide) (by decide +kernel)
  exact ⟨_, hrun, by decide +kernel, (lookup_returns_owner hrun).1 _ (by decide +kernel)⟩

/-- The colliding key is registered again: it takes its old slot, and the lookup finds that slot
free and gives up. -/
theorem lookup_misses_behind_cleared_slot :
    ∃ st, (dispatchSystem [3] sampleKey).Reach (fun _ _ => True) st ∧
      st.reader = .found none ∧ st.registered = some 3 ∧ st.owner = 3 :=
  ⟨_, dispatch_run (fun _ _ => True) [3] sampleKey
    [.register collidingKey 3, .writer, .writer, .writer, .writer,
      .register sampleKey 3, .writer, .writer, .writer, .writer, .writer,
      .unregister collidingKey 3, .writer, .writer, .writer,
      .register collidingKey 3, .writer, .writer, .writer, .lookup, .writer, .reader]
    (by decide) (by decide +kernel), by decide +kernel, by decide +kernel, by decide +kernel⟩

end SnowTG.Dispatch
