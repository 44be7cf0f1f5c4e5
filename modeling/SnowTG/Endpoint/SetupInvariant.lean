import SnowTG.Endpoint.SetupMoves

/-!
# Tables and sockets agree

Every reservation is held by the one live socket that has its handle, every entry
of the UDP hashes stands for a reservation of its owner, every entry of the
listener hashes for a listener, and every connection that is registered with the
dispatcher has an entry in the hash of its owner.  Every event keeps this.
-/

namespace SnowTG.Endpoint

open SnowTG.Dispatch SnowTG.Lib SnowTG.Owner Function List

/-- A reservation is the one of a socket. -/
structure Nsock.Holds (sk : Nsock) (b : Binding) : Prop where
  handle : b.handle = sk.handle
  port : b.port = sk.localPort
  portNe : b.port ≠ 0
  bound : ¬ sk.unbound
  ip : sk.isUdp → b.ip = sk.localIp
  reuse : b.reuse = sk.reuseaddr
  listener : b.listener → sk.status = .listen

/-- What the fields of a socket say of each other. -/
structure Nsock.WellFormed (sk : Nsock) : Prop where
  udp : sk.udpBind → sk.isUdp
  tcp : sk.tcpBind → sk.isTcp
  zero : sk.isUdp → sk.udpBind = false → sk.localIp = 0 ∧ sk.localPort = 0
  listener : sk.tcpListener ↔ sk.status = .listen
  bound : sk.status = .listen → sk.tcpBind
  portNe : ¬ sk.unbound → sk.localPort ≠ 0

variable {sk : Nsock}

/-- A listener is bound. -/
theorem Nsock.WellFormed.not_unbound (h : sk.WellFormed) (hlisten : sk.status = .listen) :
    ¬ sk.unbound := by
  intro hunbound
  have hbound := h.bound hlisten
  have htcp := h.tcp hbound
  have hudp := Nsock.not_udp htcp
  rw [Nsock.unbound, hudp, hbound] at hunbound
  simp at hunbound

/-- The reservation that an entry of a UDP hash stands for. -/
structure Binding.OfUdp (b : Binding) (owner : BitVec 32) (key : LocalKey) : Prop where
  protocol : b.handle.protocol = ipprotoUdp
  port : b.port = key.port
  ip : b.ip = key.ip
  reuse : b.reuse = false
  owner : BitVec.ofNat 32 b.handle.ownerLcore = owner

/-- The tables and the sockets of a process with the given workers agree. -/
structure Consistent (workers : List (BitVec 32)) (t : Tables) (socks : Nat → Option Nsock) :
    Prop where
  handles : ∀ {p q sk sk'}, socks p = some sk → socks q = some sk' → sk.handle = sk'.handle → p = q
  wellFormed : ∀ {p sk}, socks p = some sk → sk.WellFormed
  placed : ∀ {i b}, b ∈ t.index.bindings i → i = bucket b.handle.protocol b.port
  unique : ∀ i, ((t.index.bindings i).map Binding.handle).Nodup
  held : ∀ {i b}, b ∈ t.index.bindings i → ∃ p sk, socks p = some sk ∧ sk.Holds b
  udpBind : ∀ {o key q}, t.udpBindHash o key = some q →
    ∃ i, ∃ b ∈ t.index.bindings i, b.OfUdp o key
  tcpListener : ∀ {o key q}, t.tcpListenerHash o key = some q →
    ∃ sk, socks q = some sk ∧ sk.status = .listen ∧ sk.owner = o ∧ sk.localKey = key
  tcpConn : ∀ {key o}, t.dispatch.flows key = some o → (t.tcpConnHash o key).isSome
  valid : ∀ {key o}, t.dispatch.flows key = some o → registerValid workers key o

theorem consistent_empty (workers : List (BitVec 32)) : Consistent workers {} fun _ => none := by
  constructor <;> simp

/-! ## Reservations after an operation -/

namespace BindIndex

variable {x : BindIndex} {sk : Nsock} {b : Binding} {i : Nat}

theorem withBinding_bindings (x : BindIndex) (new : Binding) (i : Nat) :
    (x.withBinding new).bindings i =
      if i = bucket new.handle.protocol new.port then new :: x.bindings i else x.bindings i := by
  dsimp only [withBinding]
  by_cases hi : i = bucket new.handle.protocol new.port
  · rw [if_pos hi, hi, update_self]
  · rw [if_neg hi, update_of_ne hi]

theorem mem_withBinding {new : Binding} :
    b ∈ (x.withBinding new).bindings i ↔
      i = bucket new.handle.protocol new.port ∧ b = new ∨ b ∈ x.bindings i := by
  rw [withBinding_bindings]
  split_ifs with hi
  · simp [hi]
  · simp [hi]

/-- The reservations after a mark are those before it, but for the mark. -/
theorem socketBindListen_members {index : BindIndex} {enabled : Bool}
    (h : x.socketBindListen sk enabled = (index, none)) (i : Nat) :
    ((index.bindings i).map Binding.handle = (x.bindings i).map Binding.handle) ∧
      (∀ b ∈ index.bindings i, ∃ a ∈ x.bindings i,
        b = a ∨ a.handle = sk.handle ∧ b = { a with listener := enabled }) ∧
      ∀ a ∈ x.bindings i, ∃ b ∈ index.bindings i,
        b = a ∨ a.handle = sk.handle ∧ b = { a with listener := enabled } := by
  rcases x.socketBindListen_cases sk enabled with
    ⟨e, heq⟩ | ⟨before, self, after, hsplit, hself, -, -, heq⟩
  · rw [heq] at h
    exact absurd (congrArg Prod.snd h) (by simp)
  rw [heq] at h
  obtain rfl : _ = index := congrArg Prod.fst h
  dsimp only
  by_cases hi : i = bucket ipprotoTcp sk.localPort
  · rw [hi, update_self, hsplit]
    refine ⟨by simp, ?_, ?_⟩
    · intro b hb
      rcases mem_append.mp hb with hb | hb
      · exact ⟨b, by simp [hb], .inl rfl⟩
      · rcases mem_cons.mp hb with rfl | hb
        · exact ⟨self, by simp, .inr ⟨hself, rfl⟩⟩
        · exact ⟨b, by simp [hb], .inl rfl⟩
    · intro a ha
      rcases mem_append.mp ha with ha | ha
      · exact ⟨a, by simp [ha], .inl rfl⟩
      · rcases mem_cons.mp ha with rfl | ha
        · exact ⟨_, mem_append_right _ (mem_cons_self ..), .inr ⟨hself, rfl⟩⟩
        · exact ⟨a, by simp [ha], .inl rfl⟩
  · rw [update_of_ne hi]
    exact ⟨rfl, fun b hb => ⟨b, hb, .inl rfl⟩, fun a ha => ⟨a, ha, .inl rfl⟩⟩

/-- The reservations after a removal are those of other sockets. -/
theorem socketBindRemove_members (hunique : ((x.bindings i).map Binding.handle).Nodup)
    (hplaced : ∀ b ∈ x.bindings i, b.handle = sk.handle →
      i = bucket sk.handle.protocol sk.localPort) :
    ((x.socketBindRemove sk).bindings i).Sublist (x.bindings i) ∧
      ∀ b, b ∈ (x.socketBindRemove sk).bindings i ↔ b ∈ x.bindings i ∧ b.handle ≠ sk.handle := by
  rcases x.socketBindRemove_cases sk with ⟨hnone, hsame⟩ | ⟨before, old, after, hsplit, hold, heq⟩
  · rw [hsame]
    refine ⟨List.Sublist.refl _, ?_⟩
    intro b
    refine ⟨fun hb => ⟨hb, ?_⟩, fun hb => hb.1⟩
    intro hhandle
    have hi := hplaced b hb hhandle
    rw [hi] at hb
    exact hnone b hb hhandle
  · rw [heq]
    dsimp only
    by_cases hi : i = bucket sk.handle.protocol sk.localPort
    · rw [hi, update_self, hsplit]
      rw [hi, hsplit, map_append, map_cons, nodup_middle, nodup_cons,
        ← map_append, mem_map] at hunique
      refine ⟨(sublist_cons_self old after).append_left before, ?_⟩
      intro b
      constructor
      · intro hb
        refine ⟨?_, fun hhandle => hunique.1 ⟨b, hb, hhandle.trans hold.symm⟩⟩
        rcases mem_append.mp hb with hb | hb
        · exact mem_append_left _ hb
        · exact mem_append_right _ (mem_cons_of_mem _ hb)
      · rintro ⟨hb, hne⟩
        rcases mem_append.mp hb with hb | hb
        · exact mem_append_left _ hb
        · rcases mem_cons.mp hb with rfl | hb
          · exact absurd hold hne
          · exact mem_append_right _ hb
    · rw [update_of_ne hi]
      refine ⟨List.Sublist.refl _, ?_⟩
      intro b
      exact ⟨fun hb => ⟨hb, fun hhandle => hi (hplaced b hb hhandle)⟩, fun hb => hb.1⟩

end BindIndex

/-! ## Sockets -/

/-- A passive open that is refused has entered nothing that its release would remove. -/
theorem nsockFree_passive (t : Tables) (handle : Handle) (key : FlowKey) :
    nsockFree t (passiveSocket handle key) = t := by
  simp [nsockFree, removeEntries, passiveSocket, Nsock.bound]

namespace Consistent

variable {workers : List (BitVec 32)} {t t' : Tables} {socks : Nat → Option Nsock} {p : Nat}
  {sk sk' : Nsock} {b : Binding} {i : Nat} {q : Nat} {s : Nsock} {ip : BitVec 32} {port : BitVec 16}
  {status : Tcp.Status}

section

variable (h : Consistent workers t socks) (hp : socks p = some sk)
include h hp

/-- The reservation of a socket is held by it. -/
theorem holds (hb : b ∈ t.index.bindings i) (hhandle : b.handle = sk.handle) : sk.Holds b := by
  obtain ⟨q, sk', hq, hholds⟩ := h.held hb
  obtain rfl := h.handles hp hq (hhandle.symm.trans hholds.handle)
  cases hp.symm.trans hq
  exact hholds

/-- A socket that is not bound has no reservation. -/
theorem not_holds (hunbound : sk.unbound)
    (hb : b ∈ t.index.bindings i) : b.handle ≠ sk.handle :=
  fun hhandle => (h.holds hp hb hhandle).bound hunbound

/-- What a change of one socket must keep. -/
structure Keeps (sk sk' : Nsock) : Prop where
  handle : sk'.handle = sk.handle
  wellFormed : sk'.WellFormed
  holds : ∀ {b}, sk.Holds b → sk'.Holds b
  listens : sk.status = .listen → sk'.status = .listen ∧ sk'.localKey = sk.localKey

omit h hp in
theorem update_some {f : Nat → Option Nsock} (h : update f p (some sk') q = some s) :
    q = p ∧ s = sk' ∨ q ≠ p ∧ f q = some s := by
  by_cases hq : q = p
  · rw [hq, update_self] at h
    exact .inl ⟨hq, (Option.some.inj h).symm⟩
  · rw [update_of_ne hq] at h
    exact .inr ⟨hq, h⟩

theorem handles_update (hhandle : sk'.handle = sk.handle) {r : Nat} {s' : Nsock}
    (hq : update socks p (some sk') q = some s) (hr : update socks p (some sk') r = some s')
    (heq : s.handle = s'.handle) : q = r := by
  rcases update_some hq with ⟨hqp, rfl⟩ | ⟨-, hq'⟩ <;>
    rcases update_some hr with ⟨hrp, rfl⟩ | ⟨-, hr'⟩
  · rw [hqp, hrp]
  · rw [hqp]
    exact h.handles hp hr' (hhandle.symm.trans heq)
  · rw [hrp]
    exact h.handles hq' hp (heq.trans hhandle)
  · exact h.handles hq' hr' heq

omit hp in
theorem wellFormed_update (hwf : sk'.WellFormed) (hq : update socks p (some sk') q = some s) :
    s.WellFormed := by
  rcases update_some hq with ⟨-, rfl⟩ | ⟨-, hq⟩
  · exact hwf
  · exact h.wellFormed hq

/-- A reservation is held after the change of a socket if the socket keeps its own. -/
theorem held_update (hb : b ∈ t.index.bindings i) (hholds : sk.Holds b → sk'.Holds b) :
    ∃ q s, update socks p (some sk') q = some s ∧ s.Holds b := by
  obtain ⟨q, s, hq, hheld⟩ := h.held hb
  by_cases hqp : q = p
  · subst hqp
    cases hp.symm.trans hq
    exact ⟨q, sk', update_self .., hholds hheld⟩
  · exact ⟨q, s, by rw [update_of_ne hqp, hq], hheld⟩

/-- The entries for listeners are right after the change of a socket that goes on listening. -/
theorem tcpListener_update {o : BitVec 32} {key : LocalKey}
    (hentry : t.tcpListenerHash o key = some q) (hhandle : sk'.handle = sk.handle)
    (hlistens : sk.status = .listen → sk'.status = .listen ∧ sk'.localKey = sk.localKey) :
    ∃ s, update socks p (some sk') q = some s ∧ s.status = .listen ∧ s.owner = o ∧
      s.localKey = key := by
  obtain ⟨s, hq, hlisten, howner, hkey⟩ := h.tcpListener hentry
  by_cases hqp : q = p
  · subst hqp
    cases hp.symm.trans hq
    obtain ⟨hlisten', hkey'⟩ := hlistens hlisten
    refine ⟨sk', update_self .., hlisten', ?_, hkey'.trans hkey⟩
    rw [Nsock.owner, hhandle]
    exact howner
  · exact ⟨s, by rw [update_of_ne hqp, hq], hlisten, howner, hkey⟩

/-- A change of one socket that leaves the tables alone. -/
theorem setSock (hkeeps : Keeps sk sk') :
    Consistent workers t (update socks p (some sk')) := by
  refine { h with handles := ?_, wellFormed := ?_, held := ?_, tcpListener := ?_ }
  · exact h.handles_update hp hkeeps.handle
  · exact h.wellFormed_update hkeeps.wellFormed
  · exact fun hb => h.held_update hp hb hkeeps.holds
  · exact fun hentry => h.tcpListener_update hp hentry hkeeps.handle hkeeps.listens

/-! ## Binding -/

omit h hp in
theorem bindTo_wellFormed (h : sk.WellFormed) (hport : port ≠ 0) :
    (sk.bindTo ip port).WellFormed := by
  constructor
  · intro hflag
    rcases Bool.or_eq_true_iff.mp hflag with hflag | hudp
    · exact h.udp hflag
    · exact hudp
  · intro hflag
    rcases Bool.or_eq_true_iff.mp hflag with hflag | htcp
    · exact h.tcp hflag
    · exact htcp
  · intro hudp hflag
    have hor : (sk.udpBind || sk.isUdp) = false := hflag
    rw [show sk.isUdp = true from hudp, Bool.or_true] at hor
    simp at hor
  · exact h.listener
  · intro hlisten
    exact Bool.or_eq_true_iff.mpr (.inl (h.bound hlisten))
  · intro _
    exact hport

omit h hp in
theorem bindTo_holds (hok : Bindable t sk ip port) :
    (sk.bindTo ip port).Holds (BindIndex.newBinding sk ip port) := by
  refine ⟨rfl, rfl, hok.portNe, ?_, fun _ => rfl, rfl, fun hlistener => ?_⟩
  · intro hunbound
    have hflags : (if sk.isUdp then sk.udpBind || sk.isUdp else sk.tcpBind || sk.isTcp) = false :=
      hunbound
    rcases hok.known with hudp | htcp
    · simp [hudp] at hflags
    · split_ifs at hflags with hudp
      · simp [hudp] at hflags
      · simp [htcp] at hflags
  · exact absurd hlistener (by simp [BindIndex.newBinding])

omit hp in
/-- A UDP hash has no entry for an endpoint that can be bound alone. -/
theorem udpBind_none (hudp : sk.isUdp)
    (hok : Bindable t sk ip port) : t.udpBindHash sk.owner ⟨ip, port⟩ = none := by
  cases hentry : t.udpBindHash sk.owner ⟨ip, port⟩ with
  | none => rfl
  | some q =>
    obtain ⟨i, b, hb, hof⟩ := h.udpBind hentry
    have hproto : sk.handle.protocol = ipprotoUdp := by simpa [Nsock.isUdp] using hudp
    have hi := h.placed hb
    rw [hof.protocol, hof.port, ← hproto] at hi
    rw [hi] at hb
    have hfree := hok.free b hb
    rw [Binding.conflicts, hof.port, hof.protocol, hof.ip, hof.reuse, hproto] at hfree
    simp [overlap] at hfree

/-- A bind that succeeds keeps tables and sockets in agreement. -/
theorem bind (hok : Bindable t sk ip port)
    (hbinds : Binds t t' p sk ip port) :
    Consistent workers t' (update socks p (some (sk.bindTo ip port))) := by
  have hwf := h.wellFormed hp
  have hnew : ∀ {i b}, b ∈ t.index.bindings i → b.handle ≠ sk.handle :=
    fun hb => h.not_holds hp hok.unbound hb
  constructor
  · exact h.handles_update hp (rfl : (sk.bindTo ip port).handle = sk.handle)
  · exact h.wellFormed_update (bindTo_wellFormed hwf hok.portNe)
  · intro i b hb
    rw [hbinds.index, BindIndex.mem_withBinding] at hb
    rcases hb with ⟨hi, rfl⟩ | hb
    · exact hi
    · exact h.placed hb
  · intro i
    rw [hbinds.index, BindIndex.withBinding_bindings]
    split_ifs
    · rw [map_cons, nodup_cons]
      refine ⟨?_, h.unique _⟩
      intro hmem
      obtain ⟨b, hb, hhandle⟩ := mem_map.mp hmem
      exact hnew hb hhandle
    · exact h.unique i
  · intro i b hb
    rw [hbinds.index, BindIndex.mem_withBinding] at hb
    rcases hb with ⟨-, rfl⟩ | hb
    · exact ⟨p, sk.bindTo ip port, update_self .., bindTo_holds hok⟩
    · exact h.held_update hp hb fun hholds => absurd hholds.handle (hnew hb)
  · intro o key q hentry
    rw [hbinds.index]
    have hold : t.udpBindHash o key = some q → ∃ i, ∃ b ∈
        (t.index.withBinding (BindIndex.newBinding sk ip port)).bindings i, b.OfUdp o key := by
      intro hentry
      obtain ⟨i, b, hb, hof⟩ := h.udpBind hentry
      exact ⟨i, b, BindIndex.mem_withBinding.mpr (.inr hb), hof⟩
    rw [hbinds.udpBindHash] at hentry
    split_ifs at hentry with halone
    · rw [setHash_apply] at hentry
      split_ifs at hentry with hat
      · obtain ⟨rfl, rfl⟩ := hat
        have hudp : sk.isUdp ∧ sk.reuseaddr = false := by simpa using halone
        have hproto : sk.handle.protocol = ipprotoUdp := by simpa [Nsock.isUdp] using hudp.1
        exact ⟨_, _, BindIndex.mem_withBinding.mpr (.inl ⟨rfl, rfl⟩), hproto, rfl, rfl, hudp.2, rfl⟩
      · exact hold hentry
    · exact hold hentry
  · intro o key q hentry
    rw [hbinds.tcpListenerHash] at hentry
    exact h.tcpListener_update hp hentry (rfl : (sk.bindTo ip port).handle = sk.handle)
      fun hlisten => absurd hok.unbound (hwf.not_unbound hlisten)
  · intro key o hflow
    rw [hbinds.flows] at hflow
    rw [hbinds.tcpConnHash]
    exact h.tcpConn hflow
  · rw [hbinds.flows]
    exact h.valid

/-! ## Listening -/

theorem listen (hclosed : sk.status = .closed) (hlistens : Listens t t' p sk) :
    Consistent workers t' (update socks p (some sk.listening)) := by
  have hwf := h.wellFormed hp
  have hmembers := BindIndex.socketBindListen_members hlistens.index
  have hholds : ∀ {b}, sk.Holds b → sk.listening.Holds b :=
    fun hb => { hb with listener := fun _ => rfl }
  constructor
  · exact h.handles_update hp (rfl : sk.listening.handle = sk.handle)
  · exact h.wellFormed_update
      ⟨hwf.udp, hwf.tcp, hwf.zero, iff_of_true rfl rfl, fun _ => hlistens.bound, hwf.portNe⟩
  · intro i b hb
    obtain ⟨a, ha, rfl | ⟨-, rfl⟩⟩ := (hmembers i).2.1 b hb
    · exact h.placed ha
    · exact h.placed (b := a) ha
  · intro i
    rw [(hmembers i).1]
    exact h.unique i
  · intro i b hb
    obtain ⟨a, ha, rfl | ⟨hown, rfl⟩⟩ := (hmembers i).2.1 b hb
    · exact h.held_update hp ha hholds
    · exact ⟨p, sk.listening, update_self ..,
        { h.holds hp ha hown with listener := fun _ => rfl }⟩
  · intro o key q hentry
    rw [hlistens.udpBindHash] at hentry
    obtain ⟨i, a, ha, hof⟩ := h.udpBind hentry
    obtain ⟨b, hb, rfl | ⟨-, rfl⟩⟩ := (hmembers i).2.2 a ha
    · exact ⟨i, b, hb, hof⟩
    · exact ⟨i, _, hb, { hof with }⟩
  · intro o key q hentry
    rw [hlistens.tcpListenerHash, setHash_apply] at hentry
    split_ifs at hentry with hat
    · obtain ⟨rfl, rfl⟩ := hat
      obtain rfl : p = q := Option.some.inj hentry
      exact ⟨sk.listening, update_self .., rfl, rfl, rfl⟩
    · exact h.tcpListener_update hp hentry (rfl : sk.listening.handle = sk.handle)
        fun hlisten => absurd (hclosed.symm.trans hlisten) (by simp)
  · intro key o hflow
    rw [hlistens.flows] at hflow
    rw [hlistens.tcpConnHash]
    exact h.tcpConn hflow
  · rw [hlistens.flows]
    exact h.valid

/-! ## Connections -/

omit hp

/-- Tables that differ only in the connections. -/
theorem setConns (hindex : t'.index = t.index) (hudp : t'.udpBindHash = t.udpBindHash)
    (hlistener : t'.tcpListenerHash = t.tcpListenerHash)
    (hconn : ∀ {key o}, t'.dispatch.flows key = some o →
      (t'.tcpConnHash o key).isSome ∧ registerValid workers key o) :
    Consistent workers t' socks := by
  constructor
  · exact h.handles
  · exact h.wellFormed
  · rw [hindex]
    exact h.placed
  · rw [hindex]
    exact h.unique
  · rw [hindex]
    exact h.held
  · rw [hindex, hudp]
    exact h.udpBind
  · rw [hlistener]
    exact h.tcpListener
  · exact fun hflow => (hconn hflow).1
  · exact fun hflow => (hconn hflow).2

theorem connect (hconnects : Connects workers t t' p sk) : Consistent workers t' socks := by
  apply h.setConns hconnects.index hconnects.udpBindHash hconnects.tcpListenerHash
  intro key o hflow
  have hcase : t.dispatch.flows key = some o ∨
      (o = sk.owner ∧ key = sk.tcpConnKey) ∧ registerValid workers sk.tcpConnKey sk.owner := by
    rcases hconnects.dispatch with hsame | ⟨hvalid, -, hadded⟩
    · rw [hsame] at hflow
      exact .inl hflow
    · rw [hadded] at hflow
      dsimp only at hflow
      by_cases hkey : key = sk.tcpConnKey
      · rw [hkey, update_self] at hflow
        exact .inr ⟨⟨(Option.some.inj hflow).symm, hkey⟩, hvalid⟩
      · rw [update_of_ne hkey] at hflow
        exact .inl hflow
  rw [hconnects.tcpConnHash, setHash_apply]
  rcases hcase with hlive | ⟨hat, hvalid⟩
  · refine ⟨?_, h.valid hlive⟩
    split_ifs
    · rfl
    · exact h.tcpConn hlive
  · rw [if_pos hat, hat.1, hat.2]
    exact ⟨rfl, hvalid⟩

theorem removeConn (sk : Nsock) : Consistent workers (Endpoint.removeConn t sk) socks := by
  refine setConns h ?_ ?_ ?_ ?_
  · rfl
  · rfl
  · rfl
  intro key o hflow
  have hlive := DispatchRun.unregistered_live hflow
  refine ⟨?_, h.valid hlive⟩
  simp only [Endpoint.removeConn, hashDel, setHash_apply]
  split_ifs with hat
  · obtain ⟨rfl, rfl⟩ := hat
    have hgone : DispatchRun.unregistered t.dispatch.flows sk.tcpConnKey sk.owner sk.tcpConnKey =
        some sk.owner := hflow
    rw [DispatchRun.unregistered, if_pos hlive, update_self] at hgone
    simp at hgone
  · exact h.tcpConn hlive

/-- An entry left by an older connection of the socket is given up. -/
theorem forget (hforgets : Forgets workers t t' p sk) : Consistent workers t' socks := by
  rw [hforgets.tables]
  refine setConns h ?_ ?_ ?_ ?_
  · rfl
  · rfl
  · rfl
  intro key o hflow
  refine ⟨?_, h.valid hflow⟩
  dsimp only
  rw [setHash_apply]
  split_ifs with hat
  · obtain ⟨rfl, rfl⟩ := hat
    exact absurd ⟨h.valid hflow, hflow⟩ hforgets.refused
  · exact h.tcpConn hflow

omit h

/-! ## Streams -/

/-- A TCP socket that does not listen can change its stream and, while it is not bound, its local
port. -/
theorem Keeps.stream (hwf : sk.WellFormed) (htcp : sk.isTcp) (hstatus : sk.status ≠ .listen)
    (localIp remoteIp : BitVec 32) {localPort : BitVec 16} (remotePort : BitVec 16) (conn : Bool)
    (hport : ¬ sk.unbound → localPort = sk.localPort) (hstatus' : status ≠ .listen) :
    Keeps sk { sk with
      localIp := localIp, localPort := localPort, remoteIp := remoteIp, remotePort := remotePort
      tcpConn := conn, status := status } := by
  have hudp := Nsock.not_udp htcp
  constructor
  · rfl
  · constructor
    · exact hwf.udp
    · exact hwf.tcp
    · intro h
      cases hudp.symm.trans h
    · exact iff_of_false (fun h => hstatus (hwf.listener.mp h)) hstatus'
    · exact fun h => absurd h hstatus'
    · intro h
      rw [hport h]
      exact hwf.portNe h
  · intro b hb
    refine ⟨hb.handle, hb.port.trans (hport hb.bound).symm, hb.portNe, hb.bound, ?_, hb.reuse,
      fun h => absurd (hb.listener h) hstatus⟩
    intro h
    cases hudp.symm.trans h
  · exact fun h => absurd h hstatus

theorem setStatus (h : Consistent workers t socks) (hp : socks p = some sk) (htcp : sk.isTcp)
    (hlisten : sk.status ≠ .listen) (hlisten' : status ≠ .listen) :
    Consistent workers (tcpStreamSetStatus t sk status).1
      (update socks p (some (tcpStreamSetStatus t sk status).2)) := by
  have hkeeps : ∀ conn, Keeps sk { sk with tcpConn := conn, status := status } := fun conn =>
    .stream (h.wellFormed hp) htcp hlisten sk.localIp sk.remoteIp sk.remotePort conn (fun _ => rfl)
      hlisten'
  rw [tcpStreamSetStatus]
  by_cases hclose : sk.status ≠ .closed && status = .closed
  · rw [if_pos hclose, nsockTcpConnUnregister]
    by_cases hconn : sk.tcpConn
    · rw [if_pos hconn]
      exact (h.removeConn sk).setSock hp (hkeeps false)
    · rw [if_neg hconn]
      exact h.setSock hp (hkeeps sk.tcpConn)
  · rw [if_neg hclose]
    exact h.setSock hp (hkeeps sk.tcpConn)

/-! ## New sockets and freed sockets -/

include h

theorem addSock (hfree : socks p = none) (hnew : ∀ q s, socks q = some s → s.handle ≠ sk.handle)
    (hwf : sk.WellFormed) : Consistent workers t (update socks p (some sk)) := by
  have hold : ∀ {q s}, socks q = some s → update socks p (some sk) q = some s := by
    intro q s hq
    rw [update_of_ne, hq]
    rintro rfl
    cases hfree.symm.trans hq
  refine { h with handles := ?_, wellFormed := ?_, held := ?_, tcpListener := ?_ }
  · intro q r s s' hq hr heq
    rcases update_some hq with ⟨hqp, rfl⟩ | ⟨-, hq'⟩ <;>
      rcases update_some hr with ⟨hrp, rfl⟩ | ⟨-, hr'⟩
    · rw [hqp, hrp]
    · exact absurd heq.symm (hnew r s' hr')
    · exact absurd heq (hnew q s hq')
    · exact h.handles hq' hr' heq
  · exact h.wellFormed_update hwf
  · intro i b hb
    obtain ⟨q, s, hq, hholds⟩ := h.held hb
    exact ⟨q, s, hold hq, hholds⟩
  · intro o key q hentry
    obtain ⟨s, hq, hlisten⟩ := h.tcpListener hentry
    exact ⟨s, hold hq, hlisten⟩

theorem removeListener (sk : Nsock) : Consistent workers (Endpoint.removeListener t sk) socks := by
  refine { h with tcpListener := ?_ }
  intro o key q hentry
  simp only [Endpoint.removeListener, hashDel, setHash_apply] at hentry
  split_ifs at hentry
  exact h.tcpListener hentry

theorem removeUdp (sk : Nsock) : Consistent workers (Endpoint.removeUdp t sk) socks := by
  refine { h with udpBind := ?_ }
  intro o key q hentry
  simp only [Endpoint.removeUdp, hashDel, setHash_apply] at hentry
  split_ifs at hentry
  exact h.udpBind hentry

include hp in
/-- A socket without entries in the hashes is freed with its reservation. -/
theorem drop (hlistener : ∀ o key, t.tcpListenerHash o key ≠ some p)
    (hudp : ∀ o key q, t.udpBindHash o key = some q →
      ∃ i, ∃ b ∈ t.index.bindings i, b.OfUdp o key ∧ b.handle ≠ sk.handle)
    (hindex : ∀ i, (t'.index.bindings i).Sublist (t.index.bindings i) ∧
      ∀ b, b ∈ t'.index.bindings i ↔ b ∈ t.index.bindings i ∧ b.handle ≠ sk.handle)
    (hsame : t' = { t with index := t'.index }) : Consistent workers t' (update socks p none) := by
  have hold : ∀ {q s}, update socks p none q = some s → q ≠ p ∧ socks q = some s := by
    intro q s hq
    by_cases hqp : q = p
    · rw [hqp, update_self] at hq
      simp at hq
    · rw [update_of_ne hqp] at hq
      exact ⟨hqp, hq⟩
  rw [hsame]
  constructor
  · intro q r s s' hq hr heq
    exact h.handles (hold hq).2 (hold hr).2 heq
  · intro q s hq
    exact h.wellFormed (hold hq).2
  · intro i b hb
    exact h.placed (((hindex i).2 b).mp hb).1
  · intro i
    exact (h.unique i).sublist ((hindex i).1.map _)
  · intro i b hb
    obtain ⟨hb, hne⟩ := ((hindex i).2 b).mp hb
    obtain ⟨q, s, hq, hholds⟩ := h.held hb
    have hqp : q ≠ p := by
      rintro rfl
      cases hp.symm.trans hq
      exact hne hholds.handle
    exact ⟨q, s, by rw [update_of_ne hqp, hq], hholds⟩
  · intro o key q hentry
    obtain ⟨i, b, hb, hof, hne⟩ := hudp o key q hentry
    exact ⟨i, b, ((hindex i).2 b).mpr ⟨hb, hne⟩, hof⟩
  · intro o key q hentry
    obtain ⟨s, hq, hlisten⟩ := h.tcpListener hentry
    have hqp : q ≠ p := by
      rintro rfl
      exact hlistener o key hentry
    exact ⟨s, by rw [update_of_ne hqp, hq], hlisten⟩
  · exact h.tcpConn
  · exact h.valid

omit h in
/-- A socket whose reservation is held has a flag for it. -/
theorem bound_of_holds (hb : sk.Holds b) : sk.bound := by
  have hbound := hb.bound
  rw [Nsock.unbound] at hbound
  rw [Nsock.bound]
  split_ifs at hbound with hudp
  · simpa using .inl (by simpa using hbound)
  · simpa using .inr (by simpa using hbound)

include hp

/-- A freed socket leaves no entry behind. -/
theorem removeEntries :
    Consistent workers (Endpoint.removeEntries t sk) (update socks p none) := by
  have hwf := h.wellFormed hp
  rw [Endpoint.removeEntries]
  obtain ⟨t₁, ht₁⟩ : ∃ t₁, (if sk.tcpConn then Endpoint.removeConn t sk else t) = t₁ := ⟨_, rfl⟩
  have h₁ : Consistent workers t₁ socks := by
    rw [← ht₁]
    split_ifs
    · exact h.removeConn sk
    · exact h
  obtain ⟨t₂, ht₂⟩ : ∃ t₂, (if sk.tcpListener then Endpoint.removeListener t₁ sk else t₁) = t₂ :=
    ⟨_, rfl⟩
  have h₂ : Consistent workers t₂ socks := by
    rw [← ht₂]
    split_ifs
    · exact h₁.removeListener sk
    · exact h₁
  have hlistener₂ : ∀ o key, t₂.tcpListenerHash o key ≠ some p := by
    intro o key hentry
    obtain ⟨s, hq, hlisten, howner, hkey⟩ := h₂.tcpListener hentry
    cases hp.symm.trans hq
    rw [← ht₂, if_pos (hwf.listener.mpr hlisten)] at hentry
    simp only [Endpoint.removeListener, hashDel, setHash_apply] at hentry
    rw [if_pos ⟨howner.symm, hkey.symm⟩] at hentry
    simp at hentry
  obtain ⟨t₃, ht₃⟩ : ∃ t₃, (if sk.udpBind && !sk.reuseaddr then Endpoint.removeUdp t₂ sk else t₂) =
      t₃ := ⟨_, rfl⟩
  have h₃ : Consistent workers t₃ socks := by
    rw [← ht₃]
    split_ifs
    · exact h₂.removeUdp sk
    · exact h₂
  have hlistener₃ : ∀ o key, t₃.tcpListenerHash o key ≠ some p := by
    rw [← ht₃]
    split_ifs
    · exact hlistener₂
    · exact hlistener₂
  -- an entry that is left does not stand for the reservation of the socket
  have hudp₃ : ∀ o key q, t₃.udpBindHash o key = some q →
      ∃ i, ∃ b ∈ t₃.index.bindings i, b.OfUdp o key ∧ b.handle ≠ sk.handle := by
    intro o key q hentry
    obtain ⟨i, b, hb, hof⟩ := h₃.udpBind hentry
    refine ⟨i, b, hb, hof, ?_⟩
    intro hhandle
    have hholds := h₃.holds hp hb hhandle
    have hudp : sk.isUdp := by
      rw [Nsock.isUdp, ← hhandle, hof.protocol]
      rfl
    have hflag : sk.udpBind := by
      have hbound := hholds.bound
      rw [Nsock.unbound, if_pos hudp] at hbound
      simpa using hbound
    have halone : sk.reuseaddr = false := hholds.reuse.symm.trans hof.reuse
    rw [← ht₃, if_pos (by simp [hflag, halone])] at hentry
    simp only [Endpoint.removeUdp, hashDel, setHash_apply] at hentry
    have howner : o = sk.owner := by
      rw [Nsock.owner, ← hhandle, hof.owner]
    have hkey : key = sk.localKey := by
      cases key
      simp only [Nsock.localKey, ← hholds.ip hudp, ← hholds.port, hof.ip, hof.port]
    rw [if_pos ⟨howner, hkey⟩] at hentry
    simp at hentry
  simp only [ht₁, ht₂, ht₃]
  split_ifs with hbound
  · refine h₃.drop hp hlistener₃ hudp₃ ?_ rfl
    intro i
    apply BindIndex.socketBindRemove_members (h₃.unique i)
    intro b hb hhandle
    rw [h₃.placed hb, hhandle, (h₃.holds hp hb hhandle).port]
  · refine h₃.drop hp hlistener₃ hudp₃ ?_ rfl
    intro i
    refine ⟨List.Sublist.refl _, ?_⟩
    intro b
    refine ⟨fun hb => ⟨hb, fun hhandle => ?_⟩, fun hb => hb.1⟩
    exact hbound (bound_of_holds (h₃.holds hp hb hhandle))

theorem free :
    Consistent workers (nsockFree t sk) (update socks p none) := by
  rw [nsockFree]
  by_cases hwait : sk.isTcp && sk.status = .timeWait
  · rw [if_pos hwait]
    simp only [Bool.and_eq_true, decide_eq_true_eq] at hwait
    have hclosed := h.setStatus hp hwait.1 (by simp [hwait.2])
      (by simp : Tcp.Status.closed ≠ .listen)
    have hfreed := hclosed.removeEntries (update_self ..)
    rwa [update_idem] at hfreed
  · rw [if_neg hwait]
    exact h.removeEntries hp

/-! ## Calls -/

end

variable (net : Net) {next : BitVec 16}

theorem setSock_self (hp : socks p = some sk) : update socks p (some sk) = socks := by
  rw [← hp, update_eq_self]

section

variable (h : Consistent workers t socks) (hnet : net.workers = workers) (hp : socks p = some sk)
include h hp

theorem nsockBindLocal_cases (ip : BitVec 32) (port : BitVec 16)
    (answers : BindAnswers) :
    (∃ e, nsockBindLocal net t p sk ip port answers = (t, sk, some e)) ∨
      ∃ t', nsockBindLocal net t p sk ip port answers = (t', sk.bindTo ip port, none) ∧
        Bindable t sk ip port ∧ Binds t t' p sk ip port :=
  Endpoint.nsockBindLocal_cases net t p sk ip port answers (h.wellFormed hp).zero
    fun hudp _ hok => h.udpBind_none hudp hok

/-- What the search of `nsock_udp_bind_ephemeral` for a port does: nothing, or it binds one. -/
theorem ephemeral_cases (ip : BitVec 32) (rounds : Nat) (next : BitVec 16)
    (answers : List BindAnswers) :
    ∃ result s, repeatUntil (EphemeralBind.turn net p ip) rounds
        { tables := t, sk := sk, next := next, answers := answers } = (result, s) ∧
      (result ≠ some none ∧ s.tables = t ∧ s.sk = sk ∨
        result = some none ∧ ∃ port, s.sk = sk.bindTo ip port ∧ Bindable t sk ip port ∧
          Binds t s.tables p sk ip port) := by
  induction rounds generalizing next answers with
  | zero => exact ⟨none, _, rfl, .inl ⟨by simp, rfl, rfl⟩⟩
  | succ rounds ih =>
    rw [repeatUntil]
    rcases h.nsockBindLocal_cases net hp ip (ntohs next) (answers.headD {}) with
      ⟨e, heq⟩ | ⟨t', heq, hok, hbinds⟩
    · by_cases hconflict : e = .addrInUse
      · simp only [EphemeralBind.turn, heq, hconflict, if_true]
        exact ih (ephemeralAfter next) answers.tail
      · have hgo : (some e : Option Errno) ≠ some .addrInUse :=
          fun heq => hconflict (Option.some.inj heq)
        simp only [EphemeralBind.turn, heq, if_neg hgo]
        exact ⟨_, _, rfl, .inl ⟨by simp, rfl, rfl⟩⟩
    · simp only [EphemeralBind.turn, heq, if_neg (show (none : Option Errno) ≠ some .addrInUse by
        simp)]
      exact ⟨_, _, rfl, .inr ⟨rfl, ntohs next, rfl, hok, hbinds⟩⟩

/-- `nsock_udp_bind_ephemeral` fails or finds the socket bound and changes neither the tables nor
the socket, or binds it. -/
theorem nsockUdpBindEphemeral_cases (next : BitVec 16) (ip : BitVec 32)
    (drawn : Fin ephemeralPortCount) (answers : List BindAnswers) :
    ∃ t' sk' next' result,
      nsockUdpBindEphemeral net t p sk next ip drawn answers = (t', sk', next', result) ∧
      (t' = t ∧ sk' = sk ∨
        result = none ∧ ∃ port, sk' = sk.bindTo ip port ∧ Bindable t sk ip port ∧
          Binds t t' p sk ip port) := by
  rw [nsockUdpBindEphemeral]
  split
  · exact ⟨_, _, _, _, rfl, .inl ⟨rfl, rfl⟩⟩
  split
  · exact ⟨_, _, _, _, rfl, .inl ⟨rfl, rfl⟩⟩
  split
  · exact ⟨_, _, _, _, rfl, .inl ⟨rfl, rfl⟩⟩
  split
  · exact ⟨_, _, _, _, rfl, .inl ⟨rfl, rfl⟩⟩
  obtain ⟨result, s, heq, hcase⟩ := h.ephemeral_cases net hp ip ephemeralPortCount
    (if next < ephemeralPortMin then ephemeralPort drawn else next) answers
  simp only [heq]
  refine ⟨_, _, _, _, rfl, ?_⟩
  rcases hcase with ⟨-, htables, hsk⟩ | ⟨rfl, port, hsk, hok, hbinds⟩
  · exact .inl ⟨htables, hsk⟩
  · exact .inr ⟨rfl, port, hsk, hok, hbinds⟩

theorem tcpListen_cases (answers : ListenAnswers) :
    ListenOutcome t p sk (tcpListen net t p sk answers) := by
  apply Endpoint.tcpListen_cases
  · intro hclosed b hb hhandle
    cases hlistener : b.listener with
    | false => rfl
    | true =>
      have hlisten := (h.holds hp hb hhandle).listener hlistener
      cases hclosed.symm.trans hlisten
  · intro hclosed hentry
    obtain ⟨s, hq, hlisten, -⟩ := h.tcpListener hentry
    cases hp.symm.trans hq
    cases hclosed.symm.trans hlisten

include hnet

theorem connectStart (htcp : sk.isTcp)
    (hclosed : sk.status = .closed) (answers : ConnectAnswers) :
    Consistent workers (tcpConnectStart net t p sk answers).1
      (update socks p (some (tcpConnectStart net t p sk answers).2.1)) := by
  have hkeeps : ∀ conn {status}, status ≠ Tcp.Status.listen →
      Keeps sk { sk with tcpConn := conn, status := status } := fun conn _ hstatus =>
    .stream (h.wellFormed hp) htcp (by simp [hclosed]) sk.localIp sk.remoteIp sk.remotePort conn
      (fun _ => rfl) hstatus
  have hfalse : Keeps sk { sk with tcpConn := false } :=
    hkeeps false (by simp [hclosed] : sk.status ≠ .listen)
  rcases tcpConnectStart_cases net t p sk answers hclosed with
    ⟨t', heq, hconnects⟩ | ⟨t', errno, heq, ⟨-, rfl⟩ | hforgets⟩ | ⟨t', errno, heq, hconnects⟩
  · rw [heq]
    rw [hnet] at hconnects
    exact (h.connect hconnects).setSock hp (hkeeps true (by simp))
  · rw [heq, setSock_self hp]
    exact h
  · rw [heq, setSock_self hp]
    rw [hnet] at hforgets
    exact h.forget hforgets
  · rw [heq]
    rw [hnet] at hconnects
    exact ((h.connect hconnects).removeConn sk).setSock hp hfalse

theorem connectAimed (htcp : sk.isTcp)
    (hclosed : sk.status = .closed) (hnext : next = 0 ∨ ephemeralPortMin ≤ next)
    (answers : ConnectAnswers) :
    Consistent workers (tcpConnectAimed net t p sk next answers).1
        (update socks p (some (tcpConnectAimed net t p sk next answers).2.1)) ∧
      ((tcpConnectAimed net t p sk next answers).2.2.1 = next ∨
        ephemeralPortMin ≤ (tcpConnectAimed net t p sk next answers).2.2.1) := by
  rcases tcpConnectAimed_cases net t p sk next answers htcp hnext with
    ⟨-, -, next', hle, heq⟩ | ⟨hport, -, port, next', -, hle, hcase⟩ |
    ⟨-, t', sk', result, hstart, heq⟩
  · rw [heq, setSock_self hp]
    exact ⟨h, .inr hle⟩
  · -- without a reservation, the socket can take any port
    have hwf := h.wellFormed hp
    have hkeeps : Keeps sk { sk with localPort := port } :=
      .stream hwf htcp (by simp [hclosed]) sk.localIp sk.remoteIp sk.remotePort sk.tcpConn
        (fun hbound => absurd hport (hwf.portNe hbound)) (by simp [hclosed] : sk.status ≠ .listen)
    have hset := h.setSock hp hkeeps
    rcases hcase with ⟨errno, heq⟩ | ⟨t₁, hok, hbinds, t', sk', result, hstart, heq⟩
    · rw [heq]
      exact ⟨hset, .inr hle⟩
    · have hbound := hset.bind (update_self ..) hok hbinds
      rw [update_idem] at hbound
      have hdone := hbound.connectStart net hnet (update_self ..) htcp hclosed answers
      rw [update_idem, hstart] at hdone
      rw [heq]
      exact ⟨hdone, .inr hle⟩
  · have hdone := h.connectStart net hnet hp htcp hclosed answers
    rw [hstart] at hdone
    rw [heq]
    exact ⟨hdone, .inl rfl⟩

omit hp in
theorem passive (hfree : socks p = none) {handle : Handle}
    (hnew : ∀ q s, socks q = some s → s.handle ≠ handle) (htcp : handle.protocol = ipprotoTcp)
    (key : FlowKey) (answers : ConnAnswers) :
    Consistent workers (tcpStreamCreate net t p handle key answers).1
      (update socks p (tcpStreamCreate net t p handle key answers).2) := by
  have hwf : ({ passiveSocket handle key with tcpConn := true } : Nsock).WellFormed := by
    have htcp' : (passiveSocket handle key).isTcp := by
      rw [Nsock.isTcp]
      exact decide_eq_true htcp
    have hudp := Nsock.not_udp htcp'
    constructor
    · exact fun h => absurd h (by simp [passiveSocket])
    · exact fun h => absurd h (by simp [passiveSocket])
    · exact fun h => absurd (hudp.symm.trans h) (by simp)
    · exact iff_of_false (by simp [passiveSocket]) (by simp [passiveSocket])
    · exact fun h => absurd h (by simp [passiveSocket])
    · exact fun h => absurd (ite_self false) h
  rw [tcpStreamCreate]
  rcases nsockTcpConnRegister_cases net t p (passiveSocket handle key) answers with
    ⟨t', e, heq, hcase⟩ | ⟨t', heq, hconnects⟩
  · have hnone : update socks p none = socks := by
      rw [← hfree, update_eq_self]
    simp only [heq, nsockFree_passive, hnone]
    rcases hcase with ⟨-, rfl⟩ | hforgets
    · exact h
    · rw [hnet] at hforgets
      exact h.forget hforgets
  · simp only [heq]
    rw [hnet] at hconnects
    exact (h.connect hconnects).addSock hfree hnew hwf

end

end Consistent

/-! ## Runs -/

/-- Tables and sockets agree, and searches for a port start at an ephemeral port. -/
structure World.Inv (net : Net) (w : World) : Prop where
  consistent : Consistent net.workers w.tables w.socks
  tcpNext : ∀ o, w.tcpNext o = 0 ∨ ephemeralPortMin ≤ w.tcpNext o

namespace World

variable {net : Net} {w : World}

theorem inv_empty (net : Net) : World.Inv net {} := by
  constructor
  · exact consistent_empty net.workers
  · exact fun _ => .inl rfl

/-- What a call does to the tables, its socket and the ports to search next: nothing, a bind, a
listen that fails or succeeds, or a connect of a closed socket. -/
inductive CallMove (net : Net) (w : World) (p : Nat) (sk : Nsock) :
    SetupCall → Tables → Nsock → (BitVec 32 → BitVec 16) → CallResult → Prop where
  | idle {call : SetupCall} {result : CallResult}
      (hidle : ∀ peer answers, call = .connect (some peer) answers → sk.isTcp →
        sk.status ≠ .closed) : CallMove net w p sk call w.tables sk w.tcpNext result
  | binds {call : SetupCall} {t' : Tables} {ip : BitVec 32} {port : BitVec 16}
      (hok : Bindable w.tables sk ip port) (hbinds : Binds w.tables t' p sk ip port) :
      CallMove net w p sk call t' (sk.bindTo ip port) w.tcpNext .ok
  | stays {answers : ListenAnswers} {result : CallResult} (htcp : sk.isTcp)
      (hclosed : sk.status = .closed) : CallMove net w p sk (.listen answers) w.tables
        { sk with remoteIp := 0, remotePort := 0 } w.tcpNext result
  | listens {answers : ListenAnswers} {t' : Tables} (hclosed : sk.status = .closed)
      (hlistens : Listens w.tables t' p sk) :
      CallMove net w p sk (.listen answers) t' sk.listening w.tcpNext .ok
  | connects {peer : BitVec 32 × BitVec 16} {answers : ConnectAnswers} {t' : Tables}
      {sk' : Nsock} {next : BitVec 16} {result : CallResult} (htcp : sk.isTcp)
      (hclosed : sk.status = .closed)
      (hrun : tcpConnectAimed net w.tables p (sk.aimedAt net peer) (w.tcpNext sk.owner) answers =
        (t', sk', next, result)) : CallMove net w p sk (.connect (some peer) answers) t' sk'
          (update w.tcpNext sk.owner next) result

/-- Every call is one of these moves. -/
theorem Inv.call_move (h : w.Inv net) {p : Nat} (hp : w.socks p = some sk) (call : SetupCall) :
    ∃ sk', (call.run net w p sk).1.socks = update w.socks p (some sk') ∧
      CallMove net w p sk call (call.run net w p sk).1.tables sk' (call.run net w p sk).1.tcpNext
        (call.run net w p sk).2 := by
  have hself : w.socks = update w.socks p (some sk) := (Consistent.setSock_self hp).symm
  cases call with
  | bind ip port answers =>
    rw [SetupCall.run]
    rcases h.consistent.nsockBindLocal_cases net hp ip port answers with
      ⟨e, heq⟩ | ⟨t', heq, hok, hbinds⟩
    · simp only [heq]
      exact ⟨sk, rfl, .idle (by simp)⟩
    · simp only [heq]
      exact ⟨_, rfl, .binds hok hbinds⟩
  | bindEphemeral ip drawn answers =>
    rw [SetupCall.run]
    obtain ⟨t', sk', next', result, heq, ⟨rfl, rfl⟩ | ⟨rfl, port, rfl, hok, hbinds⟩⟩ :=
      h.consistent.nsockUdpBindEphemeral_cases net hp (w.udpNext sk.owner) ip drawn answers
    · simp only [heq]
      exact ⟨_, rfl, .idle (by simp)⟩
    · simp only [heq]
      exact ⟨_, rfl, .binds hok hbinds⟩
  | listen answers =>
    rw [SetupCall.run]
    by_cases htcp : sk.isTcp
    swap
    · rw [if_pos (by simpa using htcp)]
      exact ⟨sk, hself, .idle (by simp)⟩
    rw [if_neg (by simp [htcp])]
    rcases h.consistent.tcpListen_cases net hp answers with
      ⟨result, heq⟩ | ⟨hclosed, ⟨result, heq⟩ | ⟨t', heq, hlistens⟩⟩
    · simp only [heq]
      exact ⟨sk, rfl, .idle (by simp)⟩
    · simp only [heq]
      exact ⟨_, rfl, .stays htcp hclosed⟩
    · simp only [heq]
      exact ⟨_, rfl, .listens hclosed hlistens⟩
  | connect addr answers =>
    rw [SetupCall.run]
    by_cases htcp : sk.isTcp
    swap
    · rw [if_pos (by simpa using htcp)]
      exact ⟨sk, hself, .idle fun _ _ _ h => absurd h htcp⟩
    rw [if_neg (by simp [htcp])]
    cases addr with
    | none =>
      simp only [tcpConnect, update_eq_self]
      exact ⟨sk, rfl, .idle (by simp)⟩
    | some peer =>
      rw [tcpConnect]
      by_cases hclosed : sk.status = .closed
      · rw [if_neg (by simpa using hclosed)]
        exact ⟨_, rfl, .connects htcp hclosed rfl⟩
      · simp only [if_pos hclosed, update_eq_self]
        exact ⟨sk, rfl, .idle fun _ _ _ _ => hclosed⟩

/-- Every call keeps the agreement, whether it succeeds or fails. -/
theorem Inv.call (h : w.Inv net) {p : Nat} (hp : w.socks p = some sk) (call : SetupCall) :
    (call.run net w p sk).1.Inv net := by
  obtain ⟨sk', hsocks, hmove⟩ := h.call_move hp call
  generalize call.run net w p sk = done at hsocks hmove ⊢
  obtain ⟨⟨t', socks', tcpNext, udpNext⟩, result⟩ := done
  obtain rfl : socks' = _ := hsocks
  have hwf := h.consistent.wellFormed hp
  dsimp only at hmove
  cases hmove with
  | idle hidle => exact ⟨by rw [Consistent.setSock_self hp]; exact h.consistent, h.tcpNext⟩
  | binds hok hbinds => exact ⟨h.consistent.bind hp hok hbinds, h.tcpNext⟩
  | stays htcp hclosed =>
    exact ⟨h.consistent.setSock hp (.stream hwf htcp (by simp [hclosed]) sk.localIp 0 0 sk.tcpConn
      (fun _ => rfl) (by simp [hclosed] : sk.status ≠ .listen)), h.tcpNext⟩
  | listens hclosed hlistens => exact ⟨h.consistent.listen hp hclosed hlistens, h.tcpNext⟩
  | @connects peer answers _ _ next _ htcp hclosed hrun =>
    have haimed : Consistent net.workers w.tables
        (update w.socks p (some (sk.aimedAt net peer))) :=
      h.consistent.setSock hp (.stream hwf htcp (by simp [hclosed]) _ peer.1 peer.2 sk.tcpConn
        (fun _ => rfl) (by simp [hclosed] : sk.status ≠ .listen))
    have hdone := haimed.connectAimed net rfl (update_self ..) htcp hclosed (h.tcpNext sk.owner)
      answers
    rw [update_idem, hrun] at hdone
    refine ⟨hdone.1, fun o => ?_⟩
    dsimp only
    by_cases ho : o = sk.owner
    · rw [ho, update_self]
      rcases hdone.2 with heq | hle
      · rw [show next = _ from heq]
        exact h.tcpNext sk.owner
      · exact .inr hle
    · rw [update_of_ne ho]
      exact h.tcpNext o

/-- What holds without a socket at the address, and after the event on the socket there. -/
theorem onSock_rule {P : World → Prop} {p : Nat} {f : Nsock → World} (hnone : P w)
    (hsome : ∀ sk, w.socks p = some sk → P (f sk)) : P (w.onSock p f) := by
  rw [onSock]
  cases hp : w.socks p with
  | none => exact hnone
  | some sk => exact hsome sk hp

/-- Every event keeps the agreement. -/
theorem Inv.step (h : w.Inv net) {e : SetupEvent} (hen : w.Enabled e) : (w.step net e).Inv net := by
  cases e with
  | create p handle =>
    obtain ⟨hfree, hnew⟩ := hen
    refine ⟨h.consistent.addSock hfree (by exact hnew) ?_, h.tcpNext⟩
    constructor
    · exact fun hflag => absurd hflag (by simp)
    · exact fun hflag => absurd hflag (by simp)
    · exact fun _ _ => ⟨rfl, rfl⟩
    · exact iff_of_false (by simp) (by simp)
    · exact fun hlisten => absurd hlisten (by simp)
    · exact fun hbound => absurd (by simp [Nsock.unbound]) hbound
  | reuseAddr p enabled =>
    refine onSock_rule (P := World.Inv net) h fun sk hp => ?_
    split_ifs with hflags
    · exact h
    · refine ⟨h.consistent.setSock hp ?_, h.tcpNext⟩
      have hwf := h.consistent.wellFormed hp
      have hunbound : sk.unbound := by
        simp only [Bool.or_eq_true, not_or, Bool.not_eq_true] at hflags
        rw [Nsock.unbound, hflags.1.1.1, hflags.1.1.2]
        exact ite_self false
      exact ⟨rfl, { hwf with }, fun hb => absurd hunbound hb.bound, fun hlisten => ⟨hlisten, rfl⟩⟩
  | call p call => exact onSock_rule (P := World.Inv net) h fun sk hp => h.call hp call
  | setStatus p status =>
    refine onSock_rule (P := World.Inv net) h fun sk hp => ?_
    obtain ⟨htcp, -, hlisten, hlisten'⟩ := hen sk hp
    exact ⟨h.consistent.setStatus hp htcp hlisten hlisten', h.tcpNext⟩
  | passive p handle key answers =>
    obtain ⟨⟨hfree, hnew⟩, htcp⟩ := hen
    exact ⟨h.consistent.passive net rfl hfree hnew htcp key answers, h.tcpNext⟩
  | free p =>
    exact onSock_rule (P := World.Inv net) h fun sk hp => ⟨h.consistent.free hp, h.tcpNext⟩

theorem reach_inv {ok : World → SetupEvent → Prop} (h : (setupSystem net).Reach ok w) :
    w.Inv net := by
  apply h.invariant
  · rintro w rfl
    exact inv_empty net
  · intro w e hw hen _
    exact hw.step hen

end World

end SnowTG.Endpoint
