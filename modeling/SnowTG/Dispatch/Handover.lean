import SnowTG.Dispatch.Forwarding

/-!
# Hand-overs between workers

Classifying a packet again at the worker it was handed to names the same worker:
the tables give one answer everywhere, and the receive queue decides only in
favour of the worker that asks.  So a packet moves on from the worker it was
classified for only if that is worker zero and the packet went there to be
reassembled or fanned out.
-/

namespace SnowTG.Dispatch

open SnowTG.Owner List Option

/-- A worker that a verdict sends a packet to from elsewhere keeps it. -/
def Steady (verdict : Nat → DispatchVerdict) : Prop :=
  ∀ w, (verdict w).workerIndex ≠ w →
    (verdict (verdict w).workerIndex).workerIndex = (verdict w).workerIndex

theorem steady_const (verdict : DispatchVerdict) : Steady fun _ => verdict := fun _ _ => rfl

variable {m : Mbuf}

namespace Classifier

/-- The receive queue decides only in favour of the worker that asks, and the software hash knows no
worker. -/
theorem hashOrHardware_steady (c : Classifier) (protocol : BitVec 8) (remoteIp localIp : BitVec 32)
    (remotePort localPort : BitVec 16) :
    Steady (c.hashOrHardware protocol remoteIp localIp remotePort localPort) := by
  intro w hother
  generalize hr : (c.hashOrHardware protocol remoteIp localIp remotePort localPort w).workerIndex = r
    at hother ⊢
  by_cases hasked : (c.port.usesHardwareRss protocol &&
      decide (w < c.registry.workers.length)) = true
  · rw [hashOrHardware, if_pos hasked] at hr
    exact absurd hr.symm hother
  · by_cases hthere : (c.port.usesHardwareRss protocol &&
        decide (r < c.registry.workers.length)) = true
    · rw [hashOrHardware, if_pos hthere]
    · rw [hashOrHardware, if_neg hasked] at hr
      rw [hashOrHardware, if_neg hthere]
      exact hr

theorem udpOwner_packet (c : Classifier) (m : Mbuf) :
    ∃ tag, (c.udpOwner m).2 = { m with tag := tag } := by
  rw [udpOwner]
  cases m.tag.bind c.handleWorker with
  | some worker => exact ⟨m.tag, rfl⟩
  | none =>
    dsimp only
    cases hshared : c.sharedSocket m with
    | none => exact ⟨m.tag, by cases (none : Option Handle).bind c.handleWorker <;> rfl⟩
    | some handle => exact ⟨some handle, by cases (some handle).bind c.handleWorker <;> rfl⟩

/-- Looking the owner of a UDP packet up again gives the same one. -/
theorem udpOwner_idem (c : Classifier) (m : Mbuf) : c.udpOwner (c.udpOwner m).2 = c.udpOwner m := by
  cases htag : m.tag.bind c.handleWorker with
  | some worker => simp only [udpOwner, htag]
  | none =>
    cases hshared : c.sharedSocket m with
    | none => simp only [udpOwner, htag, hshared, bind_none]
    | some handle =>
      have hagain : c.sharedSocket { m with tag := some handle } = some handle := hshared
      cases hworker : c.handleWorker handle with
      | some worker =>
        simp only [udpOwner, htag, hshared, bind_some, hworker]
      | none =>
        simp only [udpOwner, htag, hshared, hagain, bind_some, hworker]

/-- What a classification does at every queue: it tags the packet at most, gives the tagged packet
the same verdicts, and these are steady. -/
def Classifies (m : Mbuf) (classify : Mbuf → Nat → DispatchVerdict × Mbuf) : Prop :=
  ∃ (tag : Option Handle) (verdict : Nat → DispatchVerdict), Steady verdict ∧
    ∀ q, classify m q = (verdict q, { m with tag := tag }) ∧
      classify { m with tag := tag } q = (verdict q, { m with tag := tag })

theorem classifies_of_same {classify : Mbuf → Nat → DispatchVerdict × Mbuf}
    {verdict : Nat → DispatchVerdict} (hsteady : Steady verdict)
    (h : ∀ q, classify m q = (verdict q, m)) : Classifies m classify :=
  ⟨m.tag, verdict, hsteady, fun q => ⟨h q, h q⟩⟩

theorem classifyIpv4_classifies (c : Classifier) (m : Mbuf) (available : Nat) :
    Classifies m fun m q => c.classifyIpv4 m available q := by
  by_cases htcp : m.protocol = ipprotoTcp
  · by_cases hshort : available < 20
    · apply classifies_of_same (steady_const { parseFallback := true })
      intro q
      rw [classifyIpv4, if_pos htcp, if_pos hshort]
    · cases howner : c.tcpOwner m with
      | some worker =>
        apply classifies_of_same (steady_const (applyOwner worker))
        intro q
        rw [classifyIpv4, if_pos htcp, if_neg hshort, howner]
      | none =>
        apply classifies_of_same (c.hashOrHardware_steady ipprotoTcp m.srcAddr m.dstAddr m.srcPort
          m.dstPort)
        intro q
        rw [classifyIpv4, if_pos htcp, if_neg hshort, howner]
  · by_cases hudp : m.protocol = ipprotoUdp
    · by_cases hshort : available < 8
      · apply classifies_of_same (steady_const { parseFallback := true })
        intro q
        rw [classifyIpv4, if_neg htcp, if_pos hudp, if_pos hshort]
      · obtain ⟨tag, hpacket⟩ := c.udpOwner_packet m
        have hagain := c.udpOwner_idem m
        rw [hpacket] at hagain
        have hfirst : c.udpOwner m = ((c.udpOwner m).1, { m with tag := tag }) :=
          Prod.ext rfl hpacket
        rw [hfirst] at hagain
        cases howner : (c.udpOwner m).1 with
        | some worker =>
          rw [howner] at hfirst hagain
          refine ⟨tag, fun _ => applyOwner worker, steady_const _, fun q => ⟨?_, ?_⟩⟩
          · simp only [classifyIpv4, if_neg htcp, if_pos hudp, if_neg hshort, hfirst]
          · simp only [classifyIpv4, if_neg htcp, if_pos hudp, if_neg hshort, hagain]
        | none =>
          rw [howner] at hfirst hagain
          refine ⟨tag, _, c.hashOrHardware_steady ipprotoUdp m.srcAddr m.dstAddr m.srcPort
            m.dstPort, fun q => ⟨?_, ?_⟩⟩
          · simp only [classifyIpv4, if_neg htcp, if_pos hudp, if_neg hshort, hfirst]
          · simp only [classifyIpv4, if_neg htcp, if_pos hudp, if_neg hshort, hagain]
    · by_cases hicmp : m.protocol = ipprotoIcmp ∧ available ≥ 6
      · apply classifies_of_same (c.hashOrHardware_steady ipprotoIcmp m.srcAddr m.dstAddr
          m.identifier m.typeCode)
        intro q
        rw [classifyIpv4, if_neg htcp, if_neg hudp, if_pos hicmp]
      · apply classifies_of_same (c.hashOrHardware_steady m.protocol m.srcAddr m.dstAddr 0 0)
        intro q
        rw [classifyIpv4, if_neg htcp, if_neg hudp, if_neg hicmp]

theorem rxDispatchClassify_classifies (c : Classifier) (m : Mbuf) :
    Classifies m c.rxDispatchClassify := by
  by_cases hnone : c.registry.workers = []
  · apply classifies_of_same (steady_const {})
    intro q
    rw [rxDispatchClassify, if_pos hnone]
  · by_cases hshort : m.dataLen < ethLen ∨ m.pktLen < ethLen
    · apply classifies_of_same (steady_const { parseFallback := true })
      intro q
      rw [rxDispatchClassify, if_neg hnone, if_pos hshort]
    · cases htype : m.etherType with
      | arp =>
        apply classifies_of_same (steady_const { fanout := true })
        intro q
        rw [rxDispatchClassify, if_neg hnone, if_neg hshort, htype]
      | other =>
        apply classifies_of_same (steady_const { parseFallback := true })
        intro q
        rw [rxDispatchClassify, if_neg hnone, if_neg hshort, htype]
      | ipv4 =>
        by_cases hheader : m.dataLen < ethLen + ipLen ∨ m.pktLen < ethLen + ipLen
        · apply classifies_of_same (steady_const { parseFallback := true })
          intro q
          simp only [rxDispatchClassify, if_neg hnone, if_neg hshort, htype, if_pos hheader]
        · by_cases hodd : (!m.plainHeader ||
              decide (m.fragmentOffset &&& (ipv4OffsetMask ||| ipv4MfFlag) ≠ 0)) = true
          · apply classifies_of_same (steady_const { parseFallback := true })
            intro q
            simp only [rxDispatchClassify, if_neg hnone, if_neg hshort, htype, if_neg hheader]
            rw [if_pos hodd]
          · obtain ⟨tag, verdict, hsteady, hboth⟩ :=
              c.classifyIpv4_classifies m (m.dataLen - ethLen - ipLen)
            refine ⟨tag, verdict, hsteady, fun q => ?_⟩
            have hplain : ∀ m' : Mbuf, (∃ tag, m' = { m with tag := tag }) →
                c.rxDispatchClassify m' q =
                  c.classifyIpv4 m' (m.dataLen - ethLen - ipLen) q := by
              rintro m' ⟨tag, rfl⟩
              simp only [rxDispatchClassify, if_neg hnone, if_neg hshort, htype, if_neg hheader]
              exact if_neg hodd
            rw [hplain m ⟨m.tag, rfl⟩, hplain _ ⟨tag, rfl⟩]
            exact hboth q

end Classifier

/-- A packet the ARP branch of the receive path takes. -/
def Mbuf.isArp (m : Mbuf) : Prop := m.dataLen ≥ ethLen ∧ m.etherType = .arp

/-- A packet that is sent to worker zero to be reassembled. -/
def Mbuf.isFragment (m : Mbuf) : Prop :=
  m.dataLen ≥ ethLen + ipLen ∧ m.etherType = .ipv4 ∧ m.fragmented = true

/-- An ARP packet is classified for worker zero. -/
theorem Mbuf.not_isArp_of_classified {c : Classifier} {q : Nat}
    (h : (c.rxDispatchClassify m q).1.workerIndex ≠ 0) : ¬ m.isArp := by
  rintro ⟨hlen, htype⟩
  apply h
  simp only [Classifier.rxDispatchClassify, htype]
  split_ifs <;> rfl

section Reassembly

variable {m whole : Mbuf} {completed : Option Mbuf}

/-- What leaves reassembly is no fragment. -/
theorem reassembled_not_fragment (h : ipv4ReassemblyProcess m completed = some whole) :
    ¬ whole.isFragment := by
  rintro ⟨hlen, htype, hfragmented⟩
  rw [ipv4ReassemblyProcess] at h
  split_ifs at h with hshort hother hheader hwhole
  · cases h
    exact hother htype
  · cases h
    rw [hfragmented] at hwhole
    exact Bool.noConfusion hwhole
  · obtain ⟨found, -, rfl⟩ := map_eq_some_iff.mp h
    have hclear : (found.fragmentOffset &&& ipv4DfFlag) &&&
        (ipv4OffsetMask ||| ipv4MfFlag ||| ipv4ReservedFlag) = 0 := by
      rw [BitVec.and_assoc]
      have hmasks : ipv4DfFlag &&& (ipv4OffsetMask ||| ipv4MfFlag ||| ipv4ReservedFlag) = 0 := by
        decide
      rw [hmasks]
      exact BitVec.and_zero
    simp only [Mbuf.fragmented, hclear] at hfragmented
    simp at hfragmented

/-- Reassembly keeps a packet that is no fragment, or drops it. -/
theorem reassembly_of_not_fragment (h : ¬ m.isFragment) :
    ipv4ReassemblyProcess m completed = none ∨ ipv4ReassemblyProcess m completed = some m := by
  rw [ipv4ReassemblyProcess]
  split_ifs with hshort hother hheader hwhole
  · exact .inl rfl
  · exact .inr rfl
  · exact .inl rfl
  · exact .inr rfl
  all_goals
    refine absurd ⟨?_, ?_, ?_⟩ h
    · exact Nat.not_lt.mp fun hlt => hheader (.inl hlt)
    · exact not_not.mp hother
    · simpa using hwhole

end Reassembly

namespace RxNetwork

variable {net : RxNetwork} {a : RxAnswers} {q w : Nat} {m m' : Mbuf} {worker : RxWorker}

/-- The worker of the queue hands the packet on under no answers. -/
def Home (net : RxNetwork) (q : Nat) (m : Mbuf) : Prop :=
  ∀ a, (net.process a q m).handed = [] ∧ (net.process a q m).fate ≠ .handed

/-- What is left of a packet when it comes to its classification: worker zero reassembles first. -/
def admitted (a : RxAnswers) (q : Nat) (m : Mbuf) : Option Mbuf :=
  if q = 0 then ipv4ReassemblyProcess m a.completed else some m

/-- A packet that is neither ARP nor a fragment to be passed on is classified. -/
theorem process_classified (hworker : net.workers q = some worker) (harp : ¬ m.isArp)
    (hfragment : q = 0 ∨ ¬ m.isFragment) (a : RxAnswers) :
    net.process a q m =
      match admitted a q m with
      | none => { fate := .absorbed }
      | some m => net.rxDeliver a worker m := by
  have hid := net.queueId q worker hworker
  have hpass : ¬ (m.dataLen ≥ ethLen + ipLen ∧ worker.queueId ≠ 0 ∧ m.etherType = .ipv4 ∧
      m.fragmented = true) := by
    rintro ⟨hlen, hne, htype, hbits⟩
    rcases hfragment with hzero | hwhole
    · exact hne (hid.trans hzero)
    · exact hwhole ⟨hlen, htype, hbits⟩
  have hsame : (if worker.reassembly then ipv4ReassemblyProcess m a.completed else some m) =
      admitted a q m := by
    rw [net.reassembly q worker hworker, admitted]
    simp only [decide_eq_true_eq]
  rw [process, hworker]
  simp only [stackRuntimeRxProcess]
  cases hadmitted : admitted a q m <;>
    simp only [if_neg (show ¬ (m.dataLen ≥ ethLen ∧ m.etherType = .arp) from harp), if_neg hpass,
      hsame, hadmitted]

theorem rxForward_handed {queue : Nat} (h : (q, m') ∈ (net.rxForward a queue m).handed) :
    q = queue ∧ m' = m := by
  rw [rxForward] at h
  split_ifs at h
  · cases mem_singleton.mp h
    exact ⟨rfl, rfl⟩
  · cases h

/-- The worker a packet is classified for delivers it. -/
theorem rxDeliver_here (hworker : net.workers q = some worker)
    (h : (net.rxDispatchClassify m q).1.workerIndex = q) (a : RxAnswers) :
    net.rxDeliver a worker m = { fate := .delivered } := by
  have hid := net.queueId q worker hworker
  have hrx := (net.rxQueueId q worker hworker).trans hid
  rw [rxDeliver, hrx, hid]
  exact if_neg (not_not.mpr h)

/-- A packet is at home with the worker it was classified for elsewhere. -/
theorem home_of_classified (harp : ¬ m.isArp) (hfragment : ¬ m.isFragment)
    (hother : (net.rxDispatchClassify m w).1.workerIndex ≠ w) :
    net.Home (net.rxDispatchClassify m w).1.workerIndex (net.rxDispatchClassify m w).2 := by
  intro a
  obtain ⟨tag, verdict, hsteady, hboth⟩ := net.rxDispatchClassify_classifies m
  have hstay := hsteady w
  rw [(hboth w).1] at hother ⊢
  generalize hr : (verdict w).workerIndex = r at hstay hother ⊢
  have harp' : ¬ ({ m with tag := tag } : Mbuf).isArp := harp
  have hfragment' : ¬ ({ m with tag := tag } : Mbuf).isFragment := hfragment
  dsimp only
  generalize ({ m with tag := tag } : Mbuf) = m' at hboth harp' hfragment' ⊢
  cases hworker : net.workers r with
  | none =>
    rw [process, hworker]
    exact ⟨rfl, nofun⟩
  | some worker =>
    have hhere : (net.rxDispatchClassify m' r).1.workerIndex = r := by
      rw [(hboth r).2]
      exact hstay hother
    have hadmitted : admitted a r m' = none ∨ admitted a r m' = some m' := by
      rw [admitted]
      split_ifs
      · exact reassembly_of_not_fragment hfragment'
      · exact .inr rfl
    rw [process_classified hworker harp' (.inr hfragment')]
    rcases hadmitted with hnone | hsame
    · rw [hnone]
      exact ⟨rfl, nofun⟩
    · rw [hsame]
      dsimp only
      rw [rxDeliver_here hworker hhere]
      exact ⟨rfl, nofun⟩

theorem rxDeliver_handed (hworker : net.workers w = some worker)
    (h : (q, m') ∈ (net.rxDeliver a worker m).handed) :
    (net.rxDispatchClassify m w).1.workerIndex ≠ w ∧
      q = (net.rxDispatchClassify m w).1.workerIndex ∧ m' = (net.rxDispatchClassify m w).2 := by
  have hid := net.queueId w worker hworker
  have hrx := (net.rxQueueId w worker hworker).trans hid
  rw [rxDeliver, hrx, hid] at h
  dsimp only at h
  split_ifs at h with hother
  · exact ⟨hother, rxForward_handed h⟩
  · cases h

/-- A clone that only teaches its worker an address is at home. -/
theorem home_of_learnOnly (harp : m.isArp) (hlearn : m.learnOnly = true) : net.Home q m := by
  intro a
  rw [process]
  cases net.workers q with
  | none => exact ⟨rfl, nofun⟩
  | some worker =>
    dsimp only
    rw [stackRuntimeRxProcess, if_pos (show m.dataLen ≥ ethLen ∧ m.etherType = .arp from harp),
      if_pos hlearn]
    exact ⟨rfl, nofun⟩

theorem rxFanout_handed (h : (q, m') ∈ net.rxFanout a m) :
    q ≠ 0 ∧ m' = { m with learnOnly := true } := by
  obtain ⟨queue, hqueue, hforward⟩ := mem_flatMap.mp h
  obtain ⟨rfl, rfl⟩ := rxForward_handed hforward
  have hchosen := (mem_filter.mp hqueue).2
  simp only [Bool.and_eq_true, decide_eq_true_eq] at hchosen
  exact ⟨hchosen.1.1, rfl⟩

/-- What a worker can hand on: worker zero the clones of an ARP packet, another worker an ARP packet
or a fragment to worker zero, and every worker a packet it classified for somebody else, who keeps
it. -/
theorem handed_cases (h : (q, m') ∈ (net.process a w m).handed) :
    m.isArp ∧ w = 0 ∧ q ≠ 0 ∧ m' = { m with learnOnly := true } ∨
      (m.isArp ∨ m.isFragment) ∧ w ≠ 0 ∧ q = 0 ∧ m' = m ∨
      ¬ m.isArp ∧ net.Home q m' ∧ q ≠ w ∧
        ∃ whole tag, admitted a w m = some whole ∧ m' = { whole with tag := tag } := by
  cases hworker : net.workers w with
  | none =>
    rw [process, hworker] at h
    cases h
  | some worker =>
    have hid := net.queueId w worker hworker
    by_cases harp : m.isArp
    · rw [process, hworker] at h
      dsimp only at h
      rw [stackRuntimeRxProcess,
        if_pos (show m.dataLen ≥ ethLen ∧ m.etherType = .arp from harp)] at h
      split_ifs at h with hlearn hne
      · cases h
      · obtain ⟨rfl, rfl⟩ := rxForward_handed h
        exact .inr (.inl ⟨.inl harp, hid ▸ hne, rfl, rfl⟩)
      · obtain ⟨hq, rfl⟩ := rxFanout_handed h
        exact .inl ⟨harp, hid.symm.trans (not_not.mp hne), hq, rfl⟩
    · by_cases hpass : m.isFragment ∧ w ≠ 0
      · obtain ⟨hfragment, hw⟩ := hpass
        rw [process, hworker] at h
        dsimp only at h
        rw [stackRuntimeRxProcess,
          if_neg (show ¬ (m.dataLen ≥ ethLen ∧ m.etherType = .arp) from harp),
          if_pos ⟨hfragment.1, hid ▸ hw, hfragment.2⟩] at h
        obtain ⟨rfl, rfl⟩ := rxForward_handed h
        exact .inr (.inl ⟨.inr hfragment, hw, rfl, rfl⟩)
      · have hhere : w = 0 ∨ ¬ m.isFragment :=
          (not_and_or.mp hpass).symm.imp_left not_not.mp
        rw [process_classified hworker harp hhere] at h
        cases hadmitted : admitted a w m with
        | none =>
          rw [hadmitted] at h
          cases h
        | some whole =>
          rw [hadmitted] at h
          obtain ⟨hother, rfl, rfl⟩ := rxDeliver_handed hworker h
          obtain ⟨tag, _, -, hboth⟩ := net.rxDispatchClassify_classifies whole
          refine .inr (.inr ⟨harp, ?_, hother, whole, tag, rfl, congrArg Prod.snd (hboth w).1⟩)
          by_cases hw : w = 0
          · subst hw
            have hwhole : ¬ whole.isFragment := reassembled_not_fragment hadmitted
            exact home_of_classified (Mbuf.not_isArp_of_classified hother) hwhole hother
          · rw [admitted, if_neg hw] at hadmitted
            obtain rfl := Option.some.inj hadmitted
            exact home_of_classified harp (hhere.resolve_left hw) hother

end RxNetwork

/-- What worker zero makes of a packet it got from another worker: the clone of an ARP packet, or
what reassembly returned for a fragment, tagged with the handle of its socket. -/
def Mbuf.Returned (m m' : Mbuf) : Prop :=
  m.isArp ∧ m' = { m with learnOnly := true } ∨
    m.isFragment ∧ ∃ completed whole tag, ipv4ReassemblyProcess m completed = some whole ∧
      m' = { whole with tag := tag }

/-- Where a copy of the packet `m` can be: with the worker that received it, at home, or with worker
zero to be fanned out or reassembled and then at home. -/
inductive RxCopy.Travels (net : RxNetwork) (m : Mbuf) : RxCopy → Prop
  | received (q : Nat) : Travels net m { queue := q, mbuf := m }
  | home {q w : Nat} {m' : Mbuf} (hhome : net.Home q m') (hother : q ≠ w) :
      Travels net m { queue := q, mbuf := m', path := [w] }
  | relayed {w : Nat} (hother : w ≠ 0) (hkind : m.isArp ∨ m.isFragment) :
      Travels net m { queue := 0, mbuf := m, path := [w] }
  | back {q w : Nat} {m' : Mbuf} (hhome : net.Home q m') (hother : q ≠ 0)
      (hkind : m.Returned m') :
      Travels net m { queue := q, mbuf := m', path := [w, 0] }

theorem RxCopy.Travels.hands {net : RxNetwork} {c c' : RxCopy} (h : c.Travels net m)
    (hhands : net.Hands c c') : c'.Travels net m := by
  obtain ⟨a, hhanded, hpath⟩ := hhands
  obtain ⟨q', m', path'⟩ := c'
  cases h with
  | received q =>
    subst hpath
    dsimp only at hhanded
    rcases RxNetwork.handed_cases hhanded with
      ⟨harp, rfl, hother, rfl⟩ | ⟨hkind, hother, rfl, rfl⟩ | ⟨-, hhome, hother, -⟩
    · exact .home (RxNetwork.home_of_learnOnly harp rfl) hother
    · exact .relayed hother hkind
    · exact .home hhome hother
  | home hhome _ | back hhome _ _ =>
    rw [(hhome a).1] at hhanded
    cases hhanded
  | relayed hother hkind =>
    subst hpath
    rcases RxNetwork.handed_cases hhanded with
      ⟨harp, -, hother', rfl⟩ | ⟨-, hself, -⟩ | ⟨harp, hhome, hother', whole, tag, hwhole, rfl⟩
    · exact .back (RxNetwork.home_of_learnOnly harp rfl) hother' (.inl ⟨harp, rfl⟩)
    · exact absurd rfl hself
    · refine .back hhome hother' (.inr ⟨hkind.resolve_left harp, a.completed, whole, tag, ?_, rfl⟩)
      rwa [RxNetwork.admitted, if_pos rfl] at hwhole

/-- A packet that is handed from worker to worker is handed twice at most, and stays with the second
one.  It comes back to the worker that received it only from worker zero, as the clone of an ARP
packet or as what reassembly returned for its fragment. -/
theorem rx_handed_at_most_twice (net : RxNetwork) (q : Nat) (m : Mbuf) (c : RxCopy)
    (h : Relation.ReflTransGen net.Hands (.received q m) c) :
    c.path.length ≤ 2 ∧
      (c.path.length = 2 → ∀ a, (net.process a c.queue c.mbuf).handed = [] ∧
        (net.process a c.queue c.mbuf).fate ≠ .handed) ∧
      (c.queue ∈ c.path → c.path = [c.queue, 0] ∧ (RxCopy.received q m).mbuf.Returned c.mbuf) := by
  have htravels : c.Travels net (RxCopy.received q m).mbuf := by
    induction h with
    | refl => exact .received q
    | tail _ hhands ih => exact ih.hands hhands
  cases htravels with
  | received q => exact ⟨Nat.zero_le 2, nofun, nofun⟩
  | home hhome hother =>
    refine ⟨Nat.le_succ 1, fun _ => hhome, fun hback => ?_⟩
    exact absurd (mem_singleton.mp hback) hother
  | relayed hother hkind =>
    refine ⟨Nat.le_succ 1, nofun, fun hback => ?_⟩
    exact absurd (mem_singleton.mp hback).symm hother
  | back hhome hother hkind =>
    refine ⟨le_rfl, fun _ => hhome, fun hback => ?_⟩
    rcases mem_cons.mp hback with hsame | hzero
    · exact ⟨congrArg (fun w => [w, 0]) hsame.symm, hkind⟩
    · exact absurd (mem_singleton.mp hzero) hother

/-- Two workers and a software hash that gives every packet to the second one. -/
def hashedPair : RxNetwork where
  registry := .configureWorkers [10, 11]
  bindings := {}
  port := { rssEnabled := true, reta := [1] }
  workers q :=
    if q = 0 then some ⟨0, 0, true, true⟩
    else if q = 1 then some ⟨1, 1, false, true⟩
    else none
  queueId q w h := by
    split_ifs at h <;> cases h <;> simp_all
  rxQueueId q w h := by
    split_ifs at h <;> cases h <;> rfl
  reassembly q w h := by
    split_ifs at h with hzero hone
    · cases h
      simp [hzero]
    · cases h
      simp [hone]

/-- A ping of eight bytes of payload, and its first fragment. -/
def wholePing : Mbuf :=
  { dataLen := 50, pktLen := 50, etherType := .ipv4, totalLength := 36, protocol := ipprotoIcmp }

def pingFragment : Mbuf :=
  { dataLen := 42, pktLen := 42, etherType := .ipv4, totalLength := 28, fragmentOffset := 0x2000,
    protocol := ipprotoIcmp }

/-- An ARP packet that the second worker receives is handed to the first one, and its clone comes
back and stays. -/
theorem rx_handed_at_most_twice_arp :
    ∃ m clone, Relation.ReflTransGen hashedPair.Hands (.received 1 m)
        { queue := 1, mbuf := clone, path := [1, 0] } ∧
      (∀ a, (hashedPair.process a 1 clone).handed = [] ∧
        (hashedPair.process a 1 clone).fate ≠ .handed) ∧
      m.Returned clone := by
  let arp : Mbuf := { dataLen := 42, pktLen := 42, etherType := .arp }
  have hzero : hashedPair.Hands (.received 1 arp) { queue := 0, mbuf := arp, path := [1] } :=
    ⟨⟨fun _ => true, fun _ => true, none⟩, by decide, rfl⟩
  have hback : hashedPair.Hands { queue := 0, mbuf := arp, path := [1] }
      { queue := 1, mbuf := { arp with learnOnly := true }, path := [1, 0] } :=
    ⟨⟨fun _ => true, fun _ => true, none⟩, by decide, rfl⟩
  have hreach := (Relation.ReflTransGen.single hzero).tail hback
  obtain ⟨-, hstays, hreturned⟩ := rx_handed_at_most_twice hashedPair 1 arp _ hreach
  exact ⟨arp, _, hreach, hstays rfl, (hreturned (by decide)).2⟩

/-- The second worker receives the fragment that completes a packet of its own: it hands it to the
first one, which hands the completed packet back. -/
theorem completed_packet_handed_back :
    hashedPair.Hands (.received 1 pingFragment)
        { queue := 0, mbuf := pingFragment, path := [1] } ∧
      hashedPair.Hands { queue := 0, mbuf := pingFragment, path := [1] }
        { queue := 1, mbuf := wholePing, path := [1, 0] } :=
  ⟨⟨⟨fun _ => true, fun _ => true, none⟩, by decide, rfl⟩,
    ⟨⟨fun _ => true, fun _ => true, some wholePing⟩, by decide, rfl⟩⟩

end SnowTG.Dispatch
