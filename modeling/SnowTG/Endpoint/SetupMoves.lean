import SnowTG.Endpoint.Setup

/-!
# What the calls do to the tables

Each call either fails and has undone what it did, or makes all of its entries.
The undoing is exact on tables that hold no entry of the socket yet, which is
what the hypotheses here say of the socket.
-/

namespace SnowTG.Endpoint

open SnowTG.Dispatch SnowTG.Lib SnowTG.Owner Function

/-! ## Hashes and registrations -/

section Hash

variable {K : Type} [DecidableEq K] {key : K}

theorem hashAddUnique_cases (hash : K → Option Nat) (key : K) (p : Nat) (answer : HashAnswer) :
    (hash key = some p ∧ hashAddUnique hash key p answer = (hash, none)) ∨
      (hash key = none ∧
        hashAddUnique hash key p answer = (update hash key (some p), none)) ∨
      ∃ e, hashAddUnique hash key p answer = (hash, some e) := by
  rw [hashAddUnique.eq_def]
  cases hkey : hash key with
  | some old =>
    by_cases hold : old = p
    · exact .inl ⟨by rw [hold], by simp only [if_pos hold]⟩
    · exact .inr (.inr ⟨.addrInUse, by simp only [if_neg hold]⟩)
  | none =>
    cases answer with
    | added => exact .inr (.inl ⟨rfl, rfl⟩)
    | noSpace | error => exact .inr (.inr ⟨_, rfl⟩)

/-- The entry of an owner for a key, after the owner's hash was changed at a key. -/
theorem setHash_apply (hashes : BitVec 32 → K → Option Nat) (owner o : BitVec 32) (key k : K)
    (entry : Option Nat) :
    setHash hashes owner (update (hashes owner) key entry) o k =
      if o = owner ∧ k = key then entry else hashes o k := by
  rw [setHash]
  by_cases ho : o = owner
  · subst ho
    rw [update_self]
    by_cases hk : k = key
    · subst hk
      rw [update_self, if_pos ⟨rfl, rfl⟩]
    · rw [update_of_ne hk, if_neg fun h => hk h.2]
  · rw [update_of_ne ho, if_neg fun h => ho h.1]

omit [DecidableEq K] in
theorem setHash_self (hashes : BitVec 32 → K → Option Nat) (owner : BitVec 32) :
    setHash hashes owner (hashes owner) = hashes :=
  update_eq_self owner hashes

theorem hashDel_absent {hash : K → Option Nat} (h : hash key = none) : hashDel hash key = hash := by
  rw [hashDel, ← h, update_eq_self]

/-- Deleting a key that was added leaves the hashes as they were. -/
theorem setHash_hashDel {hashes : BitVec 32 → K → Option Nat} {owner : BitVec 32}
    (h : hashes owner key = none) (p : Nat) :
    setHash (setHash hashes owner (update (hashes owner) key (some p))) owner
      (hashDel (setHash hashes owner (update (hashes owner) key (some p)) owner) key) =
      hashes := by
  ext1 o
  ext1 k
  rw [hashDel, setHash_apply, setHash_apply]
  split_ifs with hat
  · rw [hat.1, hat.2, h]
  · rfl

end Hash

section Register

variable {K : Type} [DecidableEq K] {map : K → Option (BitVec 32)} {key : K} {owner : BitVec 32}

theorem registerKey_cases (map : K → Option (BitVec 32)) (key : K) (owner : BitVec 32)
    (answer : TableAnswer) :
    (∃ e, dispatchErrno (registerKey map key owner answer).2 = some e ∧
        (registerKey map key owner answer).1 = map ∧ map key ≠ some owner) ∨
      registerKey map key owner answer = (map, .ok) ∧ map key = some owner ∨
      registerKey map key owner answer = (update map key (some owner), .ok) ∧ map key = none := by
  simp only [registerKey]
  cases hkey : map key with
  | some held =>
    by_cases hheld : held = owner
    · exact .inr (.inl ⟨by simp only [if_pos hheld], by rw [hheld]⟩)
    · refine .inl ⟨.addrInUse, ?_, rfl, fun heq => hheld (Option.some.inj heq)⟩
      simp only [if_neg hheld]
      rfl
  | none =>
    cases answer with
    | entered => exact .inr (.inr ⟨rfl, rfl⟩)
    | full => exact .inl ⟨.noSpace, rfl, rfl, by simp⟩
    | raced => exact .inl ⟨.again, rfl, rfl, by simp⟩

/-- The answers that the tables can give are among those of the maps. -/
theorem registerKey_of_spec {map' : K → Option (BitVec 32)} {answer : DispatchResult}
    {full : Prop} (h : RegisterSpec map map' key owner answer full) :
    ∃ a, registerKey map key owner a = (map', answer) := by
  rw [RegisterSpec] at h
  simp only [registerKey]
  cases hkey : map key with
  | some held =>
    simp only [hkey] at h
    exact ⟨.entered, by rw [h.1, h.2]⟩
  | none =>
    simp only [hkey] at h
    rcases h with ⟨rfl, rfl⟩ | ⟨rfl, rfl, -⟩
    · exact ⟨.entered, rfl⟩
    · exact ⟨.full, rfl⟩

end Register

variable {workers : List (BitVec 32)} {d : DispatchRun}

/-- What the dispatch tables do at a registration is what the maps do at some answer. -/
theorem registrations_refine (h : (registrySystem workers).Reach (fun _ _ => True) d) :
    (∀ key owner, Registry.endpointValid workers key owner → ∃ a,
      registerKey d.live.endpoints key owner a =
        ((d.step (.registerEndpoint key owner)).live.endpoints,
          (d.registry.registerEndpoint key owner).2)) ∧
    ∀ key owner, registerValid workers key owner → ∃ a answer,
      (d.registry.registerTcpConnection key owner).2 = some answer ∧
        registerKey d.live.flows key owner a =
          ((d.step (.registerTcp key owner)).live.flows, answer) := by
  have hinv := DispatchRun.reach_inv h
  constructor
  · intro key owner hvalid
    obtain ⟨endpoints, answer, heq, hspec, -⟩ := hinv.registerEndpoint hvalid
    simp only [DispatchRun.step, heq]
    exact registerKey_of_spec hspec
  · intro key owner hvalid
    obtain ⟨flows, answer, heq, hspec, -⟩ := hinv.registerTcp hvalid
    obtain ⟨a, ha⟩ := registerKey_of_spec hspec
    refine ⟨a, answer, by rw [heq], ?_⟩
    simp only [DispatchRun.step, heq, Option.getD_some]
    exact ha

/-- Registering an endpoint fails and changes nothing, or leaves the connections alone. -/
theorem registerEndpoint_cases (workers : List (BitVec 32)) (live : Registrations)
    (key : EndpointKey) (owner : BitVec 32) (answer : TableAnswer) :
    (∃ e, dispatchErrno (registerEndpoint workers live key owner answer).2 = some e ∧
        (registerEndpoint workers live key owner answer).1 = live) ∨
      dispatchErrno (registerEndpoint workers live key owner answer).2 = none ∧
        (registerEndpoint workers live key owner answer).1.flows = live.flows := by
  rw [registerEndpoint]
  split_ifs
  · exact .inr ⟨rfl, rfl⟩
  · exact .inl ⟨.inval, rfl, rfl⟩
  · rcases registerKey_cases live.endpoints key owner answer with
      ⟨e, hfail, hsame, -⟩ | ⟨heq, -⟩ | ⟨heq, -⟩
    · exact .inl ⟨e, hfail, congrArg (Registrations.mk · live.flows) hsame⟩
    · simp only [heq]
      exact .inr ⟨rfl, trivial⟩
    · simp only [heq]
      exact .inr ⟨rfl, trivial⟩

/-- Registering a connection fails and changes nothing, or the connection was registered with this
owner, or it is now, unless there is no dispatcher. -/
theorem registerTcpConnection_cases (workers : List (BitVec 32)) (live : Registrations)
    (key : FlowKey) (owner : BitVec 32) (answer : TableAnswer) :
    (∃ e, dispatchErrno (registerTcpConnection workers live key owner answer).2 = some e ∧
        (registerTcpConnection workers live key owner answer).1 = live ∧
        ¬ (registerValid workers key owner ∧ live.flows key = some owner)) ∨
      dispatchErrno (registerTcpConnection workers live key owner answer).2 = none ∧
        ((registerTcpConnection workers live key owner answer).1 = live ∨
          registerValid workers key owner ∧ live.flows key = none ∧
          (registerTcpConnection workers live key owner answer).1 =
            { live with flows := update live.flows key (some owner) }) := by
  rw [registerTcpConnection]
  split_ifs with hworkers hvalid
  · exact .inr ⟨rfl, .inl rfl⟩
  · refine .inl ⟨.inval, rfl, rfl, ?_⟩
    rintro ⟨hok, -⟩
    simp [hok] at hvalid
  · rcases registerKey_cases live.flows key owner answer with
      ⟨e, hfail, hsame, hother⟩ | ⟨heq, -⟩ | ⟨heq, hnew⟩
    · exact .inl ⟨e, hfail, congrArg (Registrations.mk live.endpoints) hsame, fun h => hother h.2⟩
    · simp only [heq]
      exact .inr ⟨rfl, .inl trivial⟩
    · simp only [heq]
      exact .inr ⟨rfl, .inr ⟨by simpa using hvalid, hnew, trivial⟩⟩

/-! ## The index -/

variable {sk' : Nsock} {ip : BitVec 32} {port : BitVec 16}

namespace BindIndex

variable {x : BindIndex} {sk : Nsock}

/-- Removing the reservation that was added last leaves the index as it was. -/
theorem socketBindRemove_withBinding (hhandle : sk'.handle = sk.handle)
    (hport : sk'.localPort = port) :
    (x.withBinding (newBinding sk ip port)).socketBindRemove sk' = x := by
  have hbucket : (x.withBinding (newBinding sk ip port)).bindings
      (bucket sk'.handle.protocol sk'.localPort) =
        newBinding sk ip port :: x.bindings (bucket sk.handle.protocol port) := by
    rw [hhandle, hport]
    exact update_self ..
  have hown : (newBinding sk ip port).handle = sk'.handle := hhandle.symm
  rw [socketBindRemove, hbucket, List.find?_cons_of_pos (by simpa using hown),
    List.eraseP_cons_of_pos (by simpa using hown)]
  apply BindIndex.ext
  · dsimp only [withBinding]
    rw [hhandle, hport]
    exact (update_idem ..).trans (update_eq_self ..)
  · dsimp only [withBinding]
    ext1 other
    rw [update_shared (f := (· - 1)), update_shared (f := (· + 1))]
    split_ifs
    · exact BitVec.add_sub_cancel _ _
    · rfl

/-- Unmarking a listener leaves the index as it was before the mark. -/
theorem socketBindListen_undo {index : BindIndex} (h : x.socketBindListen sk true = (index, none))
    (hoff : ∀ b ∈ x.bindings (bucket ipprotoTcp sk.localPort), b.handle = sk.handle →
      b.listener = false) : (index.socketBindListen sk false).1 = x := by
  rcases x.socketBindListen_cases sk true with
    ⟨e, heq⟩ | ⟨before, self, after, hsplit, hself, hafter, -, heq⟩
  · rw [heq] at h
    exact absurd (congrArg Prod.snd h) (by simp)
  rw [heq] at h
  obtain rfl : _ = index := congrArg Prod.fst h
  have hoffSelf := hoff self (by simp [hsplit]) hself
  have hall : ¬ (before ++ { self with listener := true } :: after).all
      (·.handle ≠ sk.handle) := by
    simp [hself]
  have hmarked : { ({ self with listener := true } : Binding) with listener := false } = self := by
    rw [← hoffSelf]
  rw [socketBindListen]
  simp only [update_self, if_neg hall, Bool.false_and, Bool.false_eq_true, if_false]
  have hmarkedHandle : ({ self with listener := true } : Binding).handle = sk.handle := hself
  rw [setListener_split false before hmarkedHandle hafter, hmarked, ← hsplit]
  apply BindIndex.ext
  · exact (update_idem ..).trans (update_eq_self ..)
  · rfl

end BindIndex

/-! ## Binding -/

variable {sk : Nsock}

/-- A socket is of one protocol. -/
theorem Nsock.not_udp (h : sk.isTcp) : sk.isUdp = false := by
  simp only [Nsock.isTcp, decide_eq_true_eq] at h
  simp only [Nsock.isUdp, h]
  decide

theorem Nsock.not_tcp (h : sk.isUdp) : sk.isTcp = false := by
  simp only [Nsock.isUdp, decide_eq_true_eq] at h
  simp only [Nsock.isTcp, h]
  decide

/-- A socket that has no reservation yet. -/
def Nsock.unbound (sk : Nsock) : Prop :=
  (if sk.isUdp then sk.udpBind else sk.tcpBind) = false

/-- The socket after it was bound. -/
def Nsock.bindTo (sk : Nsock) (ip : BitVec 32) (port : BitVec 16) : Nsock :=
  { sk with
    localIp := ip, localPort := port
    udpBind := sk.udpBind || sk.isUdp
    tcpBind := sk.tcpBind || sk.isTcp }

/-- The tables after a socket was bound: its reservation is there, and the entry in the hash of the
owner for a UDP socket that does not share its endpoint. -/
structure Binds (t t' : Tables) (p : Nat) (sk : Nsock) (ip : BitVec 32) (port : BitVec 16) :
    Prop where
  index : t'.index = t.index.withBinding (BindIndex.newBinding sk ip port)
  flows : t'.dispatch.flows = t.dispatch.flows
  udpBindHash : t'.udpBindHash =
    if sk.isUdp && !sk.reuseaddr then
      setHash t.udpBindHash sk.owner (update (t.udpBindHash sk.owner) ⟨ip, port⟩ (some p))
    else t.udpBindHash
  tcpListenerHash : t'.tcpListenerHash = t.tcpListenerHash
  tcpConnHash : t'.tcpConnHash = t.tcpConnHash

/-- When a socket can be bound: it has no reservation, and none conflicts with the new one. -/
structure Bindable (t : Tables) (sk : Nsock) (ip : BitVec 32) (port : BitVec 16) : Prop where
  known : sk.isUdp ∨ sk.isTcp
  portNe : port ≠ 0
  unbound : sk.unbound
  free : ∀ b ∈ t.index.bindings (bucket sk.handle.protocol port),
    b.conflicts sk.handle.protocol ip port sk.reuseaddr = false

variable {t : Tables}

/-- Undoing a binding that is complete but for the dispatcher. -/
theorem bindRollback_eq {hashes : BitVec 32 → LocalKey → Option Nat} (hudp : sk.isUdp)
    (hunbound : sk.unbound) (hzero : sk.localIp = 0 ∧ sk.localPort = 0)
    (hhashes : setHash hashes sk.owner (hashDel (hashes sk.owner) ⟨ip, port⟩) = t.udpBindHash) :
    bindRollback { t with
        index := t.index.withBinding (BindIndex.newBinding sk ip port), udpBindHash := hashes }
      (sk.bindTo ip port) = (t, sk) := by
  have hremove : (t.index.withBinding (BindIndex.newBinding sk ip port)).socketBindRemove
      (sk.bindTo ip port) = t.index := BindIndex.socketBindRemove_withBinding rfl rfl
  have hudpBind : sk.udpBind = false := by simpa [Nsock.unbound, hudp] using hunbound
  have htcp := Nsock.not_tcp hudp
  have hsock : { sk.bindTo ip port with udpBind := false, localIp := 0, localPort := 0 } = sk := by
    apply Nsock.ext <;> simp [Nsock.bindTo, htcp, hudpBind, hzero]
  rw [bindRollback]
  simp only [hremove, hsock]
  exact congrArg (fun h => (({ t with udpBindHash := h } : Tables), sk)) hhashes

theorem bindRegister_cases (net : Net) (t : Tables) (p : Nat) (ip : BitVec 32) (port : BitVec 16)
    (answers : BindAnswers) (hunbound : sk.unbound)
    (hzero : sk.isUdp → sk.localIp = 0 ∧ sk.localPort = 0)
    (hheld : sk.isUdp → sk.reuseaddr = false → t.udpBindHash sk.owner ⟨ip, port⟩ = none) :
    (∃ e, bindRegister net
        { t with index := t.index.withBinding (BindIndex.newBinding sk ip port) } p
        (sk.bindTo ip port) answers = (t, sk, some e)) ∨
      ∃ t', bindRegister net
          { t with index := t.index.withBinding (BindIndex.newBinding sk ip port) } p
          (sk.bindTo ip port) answers = (t', sk.bindTo ip port, none) ∧
        Binds t t' p sk ip port := by
  rw [bindRegister]
  by_cases halone : sk.isUdp && !sk.reuseaddr
  · have hudp : sk.isUdp ∧ sk.reuseaddr = false := by simpa using halone
    have hnone := hheld hudp.1 hudp.2
    rw [if_pos (show (sk.bindTo ip port).isUdp && !(sk.bindTo ip port).reuseaddr from halone)]
    rcases hashAddUnique_cases (t.udpBindHash (sk.bindTo ip port).owner)
      (sk.bindTo ip port).localKey p answers.hash with ⟨hheld, -⟩ | ⟨-, heq⟩ | ⟨e, heq⟩
    · cases hnone.symm.trans hheld
    · simp only [heq]
      have hback := bindRollback_eq (t := t) hudp.1 hunbound (hzero hudp.1)
        (setHash_hashDel hnone p)
      rcases registerEndpoint_cases net.workers t.dispatch (sk.bindTo ip port).endpointKey
        (sk.bindTo ip port).owner answers.table with ⟨e, hfail, hsame⟩ | ⟨hok, hflows⟩
      · left
        refine ⟨e, ?_⟩
        simp only [hfail, hsame]
        exact congrArg (fun r : Tables × Nsock => (r.1, r.2, some e)) hback
      · right
        simp only [hok]
        refine ⟨_, rfl, rfl, hflows, ?_, rfl, rfl⟩
        rw [if_pos halone]
        rfl
    · left
      refine ⟨e, ?_⟩
      have hsame : setHash t.udpBindHash sk.owner (hashDel (t.udpBindHash sk.owner) ⟨ip, port⟩) =
          t.udpBindHash := by
        rw [hashDel_absent hnone, setHash_self]
      have hback := bindRollback_eq (t := t) hudp.1 hunbound (hzero hudp.1) hsame
      simp only [heq]
      rw [hback]
  · rw [if_neg (show ¬ ((sk.bindTo ip port).isUdp && !(sk.bindTo ip port).reuseaddr) from halone)]
    refine .inr ⟨_, rfl, rfl, rfl, ?_, rfl, rfl⟩
    rw [if_neg halone]

/-- `nsock_bind_local` fails and has changed nothing, or binds the socket. -/
theorem nsockBindLocal_cases (net : Net) (t : Tables) (p : Nat) (sk : Nsock) (ip : BitVec 32)
    (port : BitVec 16) (answers : BindAnswers)
    (hzero : sk.isUdp → sk.udpBind = false → sk.localIp = 0 ∧ sk.localPort = 0)
    (hheld : sk.isUdp → sk.reuseaddr = false → Bindable t sk ip port →
      t.udpBindHash sk.owner ⟨ip, port⟩ = none) :
    (∃ e, nsockBindLocal net t p sk ip port answers = (t, sk, some e)) ∨
      ∃ t', nsockBindLocal net t p sk ip port answers = (t', sk.bindTo ip port, none) ∧
        Bindable t sk ip port ∧ Binds t t' p sk ip port := by
  rw [nsockBindLocal]
  by_cases hargs : port = 0 || !(sk.isUdp || sk.isTcp)
  · exact .inl ⟨.inval, by rw [if_pos hargs]⟩
  by_cases hflag : (if sk.isUdp then sk.udpBind else sk.tcpBind)
  · exact .inl ⟨.inval, by rw [if_neg hargs, if_pos hflag]⟩
  rw [if_neg hargs, if_neg hflag]
  rcases t.index.socketBindAdd_cases sk ip port answers.memory with ⟨e, heq⟩ | ⟨hfree, heq⟩
  · exact .inl ⟨e, by simp only [heq]⟩
  simp only [heq]
  have hok : Bindable t sk ip port := by
    simp only [Bool.or_eq_true, decide_eq_true_eq, Bool.not_eq_true', not_or,
      Bool.not_eq_false] at hargs
    exact ⟨hargs.2, hargs.1, by simpa [Nsock.unbound] using hflag, hfree⟩
  have hudpBind : sk.isUdp → sk.udpBind = false := by
    intro hudp
    simpa [Nsock.unbound, hudp] using hok.unbound
  rcases bindRegister_cases net t p ip port answers hok.unbound
    (fun hudp => hzero hudp (hudpBind hudp)) (fun hudp halone => hheld hudp halone hok) with
    ⟨e, hfail⟩ | ⟨t', hbound, hbinds⟩
  · exact .inl ⟨e, hfail⟩
  · exact .inr ⟨t', hbound, hok, hbinds⟩

/-! ## Listening -/

/-- The tables after a socket has started to listen. -/
structure Listens (t t' : Tables) (p : Nat) (sk : Nsock) : Prop where
  bound : sk.tcpBind
  index : t.index.socketBindListen sk true = (t'.index, none)
  flows : t'.dispatch.flows = t.dispatch.flows
  udpBindHash : t'.udpBindHash = t.udpBindHash
  absent : t.tcpListenerHash sk.owner sk.localKey = none
  tcpListenerHash : t'.tcpListenerHash = setHash t.tcpListenerHash sk.owner
    (update (t.tcpListenerHash sk.owner) sk.localKey (some p))
  tcpConnHash : t'.tcpConnHash = t.tcpConnHash

theorem nsockTcpListenerRegister_cases (net : Net) (t : Tables) (p : Nat) (sk : Nsock)
    (answers : ListenAnswers)
    (hoff : ∀ b ∈ t.index.bindings (bucket ipprotoTcp sk.localPort), b.handle = sk.handle →
      b.listener = false)
    (hother : t.tcpListenerHash sk.owner sk.localKey ≠ some p) :
    (∃ e, nsockTcpListenerRegister net t p sk answers = (t, sk, some e)) ∨
      ∃ t', nsockTcpListenerRegister net t p sk answers =
          (t', { sk with tcpListener := true }, none) ∧ Listens t t' p sk := by
  rw [nsockTcpListenerRegister]
  by_cases hargs : !sk.isTcp || !sk.tcpBind
  · exact .inl ⟨.inval, by rw [if_pos hargs]⟩
  rw [if_neg hargs]
  cases hmark : t.index.socketBindListen sk true with
  | mk index result =>
  cases result with
  | some e =>
    rcases t.index.socketBindListen_cases sk true with ⟨e', -⟩ | ⟨_, _, _, -, -, -, -, heq⟩
    · exact .inl ⟨e, rfl⟩
    · exact absurd (congrArg Prod.snd (hmark.symm.trans heq)) (by simp)
  | none =>
    have hundo := BindIndex.socketBindListen_undo hmark hoff
    rcases hashAddUnique_cases (t.tcpListenerHash sk.owner) sk.localKey p answers.hash with
      ⟨hheld, -⟩ | ⟨hnone, heq⟩ | ⟨e, heq⟩
    · exact absurd hheld hother
    · simp only [heq]
      rcases registerEndpoint_cases net.workers t.dispatch sk.endpointKey sk.owner
        answers.table with ⟨e, hfail, hsame⟩ | ⟨hok, hflows⟩
      · left
        refine ⟨e, ?_⟩
        simp only [hfail, hsame, hundo, setHash_hashDel hnone p]
      · right
        simp only [hok]
        simp only [Bool.or_eq_true, Bool.not_eq_true', not_or, Bool.not_eq_false] at hargs
        exact ⟨_, rfl, hargs.2, hmark, hflows, rfl, hnone, rfl, rfl⟩
    · left
      refine ⟨e, ?_⟩
      simp only [heq, hundo]

/-- The socket after it has started to listen. -/
def Nsock.listening (sk : Nsock) : Nsock :=
  { sk with status := .listen, remoteIp := 0, remotePort := 0, tcpListener := true }

/-- `tcp_listen` leaves the tables alone and the socket closed or listening as it was, or makes a
closed socket a listener. -/
abbrev ListenOutcome (t : Tables) (p : Nat) (sk : Nsock) (done : Tables × Nsock × CallResult) :
    Prop :=
  (∃ result, done = (t, sk, result)) ∨ sk.status = .closed ∧
    ((∃ result, done = (t, { sk with remoteIp := 0, remotePort := 0 }, result)) ∨
      ∃ t', done = (t', sk.listening, .ok) ∧ Listens t t' p sk)

theorem tcpListen_cases (net : Net) (t : Tables) (p : Nat) (sk : Nsock) (answers : ListenAnswers)
    (hoff : sk.status = .closed → ∀ b ∈ t.index.bindings (bucket ipprotoTcp sk.localPort),
      b.handle = sk.handle → b.listener = false)
    (hother : sk.status = .closed → t.tcpListenerHash sk.owner sk.localKey ≠ some p) :
    ListenOutcome t p sk (tcpListen net t p sk answers) := by
  rw [tcpListen]
  by_cases hlisten : sk.status = .listen
  · exact .inl ⟨.ok, by rw [if_pos hlisten]⟩
  by_cases hclosed : sk.status = .closed
  · right
    refine ⟨hclosed, ?_⟩
    rw [if_neg hlisten, if_neg (by simpa using hclosed)]
    have hback : { { sk with status := .listen, remoteIp := 0, remotePort := 0 } with
        status := .closed } = { sk with remoteIp := 0, remotePort := 0 } := by
      simp only [← hclosed]
    simp only
    by_cases hring : answers.ring
    · rw [if_neg (by simp [hring])]
      rcases nsockTcpListenerRegister_cases net t p
        { sk with status := .listen, remoteIp := 0, remotePort := 0 } answers (hoff hclosed)
        (hother hclosed) with ⟨e, heq⟩ | ⟨t', heq, hlistens⟩
      · left
        refine ⟨.failed (some e), ?_⟩
        rw [heq]
        simp only [hback]
      · right
        refine ⟨t', ?_, ?_⟩
        · rw [heq]
          rfl
        · exact { hlistens with }
    · left
      refine ⟨.failed none, ?_⟩
      rw [if_pos (by simpa using hring)]
      simp only [hback]
  · exact .inl ⟨.failed (some .inval), by rw [if_neg hlisten, if_pos hclosed]⟩

/-! ## Connections -/

/-- The tables after a connection was registered. -/
structure Connects (workers : List (BitVec 32)) (t t' : Tables) (p : Nat) (sk : Nsock) :
    Prop where
  entry : t.tcpConnHash sk.owner sk.tcpConnKey = some p ∨
    t.tcpConnHash sk.owner sk.tcpConnKey = none
  index : t'.index = t.index
  udpBindHash : t'.udpBindHash = t.udpBindHash
  tcpListenerHash : t'.tcpListenerHash = t.tcpListenerHash
  tcpConnHash : t'.tcpConnHash = setHash t.tcpConnHash sk.owner
    (update (t.tcpConnHash sk.owner) sk.tcpConnKey (some p))
  dispatch : t'.dispatch = t.dispatch ∨
    registerValid workers sk.tcpConnKey sk.owner ∧ t.dispatch.flows sk.tcpConnKey = none ∧
    t'.dispatch = { t.dispatch with
      flows := update t.dispatch.flows sk.tcpConnKey (some sk.owner) }

/-- The tables after a connection was not registered whose socket had an entry in the hash: the
entry is gone. -/
structure Forgets (workers : List (BitVec 32)) (t t' : Tables) (p : Nat) (sk : Nsock) : Prop where
  entry : t.tcpConnHash sk.owner sk.tcpConnKey = some p
  refused : ¬ (registerValid workers sk.tcpConnKey sk.owner ∧
    t.dispatch.flows sk.tcpConnKey = some sk.owner)
  tables : t' = { t with
    tcpConnHash := setHash t.tcpConnHash sk.owner
      (update (t.tcpConnHash sk.owner) sk.tcpConnKey none) }

/-- A connection is registered, or it is not and the tables are as they were, but for an entry that
the socket had in the hash already. -/
theorem nsockTcpConnRegister_cases (net : Net) (t : Tables) (p : Nat) (sk : Nsock)
    (answers : ConnAnswers) :
    (∃ t' e, nsockTcpConnRegister net t p sk answers = (t', sk, some e) ∧
        (t.tcpConnHash sk.owner sk.tcpConnKey ≠ some p ∧ t' = t ∨ Forgets net.workers t t' p sk)) ∨
      ∃ t', nsockTcpConnRegister net t p sk answers = (t', { sk with tcpConn := true }, none) ∧
        Connects net.workers t t' p sk := by
  rw [nsockTcpConnRegister]
  rcases hashAddUnique_cases (t.tcpConnHash sk.owner) sk.tcpConnKey p answers.hash with
    ⟨hheld, heq⟩ | ⟨hnone, heq⟩ | ⟨e, heq⟩
  · simp only [heq, setHash_self]
    rcases registerTcpConnection_cases net.workers t.dispatch sk.tcpConnKey sk.owner
      answers.table with ⟨e, hfail, hsame, hrefused⟩ | ⟨hok, hdispatch⟩
    · left
      simp only [hfail, hsame]
      exact ⟨_, e, rfl, .inr ⟨hheld, hrefused, rfl⟩⟩
    · right
      simp only [hok]
      refine ⟨_, rfl, .inl hheld, rfl, rfl, rfl, ?_, hdispatch⟩
      rw [← hheld, update_eq_self, setHash_self]
  · simp only [heq]
    rcases registerTcpConnection_cases net.workers t.dispatch sk.tcpConnKey sk.owner
      answers.table with ⟨e, hfail, hsame, -⟩ | ⟨hok, hdispatch⟩
    · left
      simp only [hfail, hsame, setHash_hashDel hnone p]
      refine ⟨_, e, rfl, .inl ⟨?_, rfl⟩⟩
      rw [hnone]
      simp
    · right
      simp only [hok]
      exact ⟨_, rfl, .inr hnone, rfl, rfl, rfl, rfl, hdispatch⟩
  · left
    simp only [heq]
    refine ⟨t, e, rfl, ?_⟩
    left
    refine ⟨?_, rfl⟩
    intro hheld
    rw [hashAddUnique.eq_def] at heq
    simp only [hheld, if_true] at heq
    exact absurd (congrArg Prod.snd heq) (by simp)

/-- Removing a connection that was registered anew leaves the tables as they were. -/
theorem Connects.undo {t' : Tables} {p : Nat} (h : Connects workers t t' p sk)
    (howner : sk'.owner = sk.owner) (hkey : sk'.tcpConnKey = sk.tcpConnKey)
    (hnone : t.tcpConnHash sk.owner sk.tcpConnKey = none)
    (hflow : t.dispatch.flows sk.tcpConnKey ≠ some sk.owner) : removeConn t' sk' = t := by
  have hhash : setHash t'.tcpConnHash sk.owner
      (hashDel (t'.tcpConnHash sk.owner) sk.tcpConnKey) = t.tcpConnHash := by
    rw [h.tcpConnHash]
    exact setHash_hashDel hnone p
  have hdispatch : unregisterTcpConnection t'.dispatch sk.tcpConnKey sk.owner = t.dispatch := by
    rw [unregisterTcpConnection]
    rcases h.dispatch with hsame | ⟨-, hnew, hadded⟩
    · rw [hsame, DispatchRun.unregistered, if_neg hflow]
    · rw [hadded]
      simp only [DispatchRun.unregistered, update_self, if_true, update_idem]
      rw [← hnew, update_eq_self]
  simp only [removeConn, howner, hkey, hhash, hdispatch, h.index, h.udpBindHash, h.tcpListenerHash]

/-- A connection that is removed has no entry in the hash of its owner. -/
theorem removeConn_entry (t : Tables) (sk : Nsock) :
    (removeConn t sk).tcpConnHash sk.owner sk.tcpConnKey = none := by
  simp only [removeConn, hashDel, setHash_apply, and_self, if_true]

/-- How `tcp_connect` ends once the local endpoint is there: it started; or the connection was not
registered; or it was, and is removed again. -/
theorem tcpConnectStart_cases (net : Net) (t : Tables) (p : Nat) (sk : Nsock)
    (answers : ConnectAnswers) (hclosed : sk.status = .closed) :
    (∃ t', tcpConnectStart net t p sk answers =
        (t', { sk with tcpConn := true, status := .synSent }, .inProgress) ∧
        Connects net.workers t t' p sk) ∨
      (∃ t' errno, tcpConnectStart net t p sk answers = (t', sk, .failed errno) ∧
        (t.tcpConnHash sk.owner sk.tcpConnKey ≠ some p ∧ t' = t ∨ Forgets net.workers t t' p sk)) ∨
      ∃ t' errno, tcpConnectStart net t p sk answers =
        (removeConn t' sk, { sk with tcpConn := false }, .failed errno) ∧
        Connects net.workers t t' p sk := by
  rw [tcpConnectStart]
  rcases nsockTcpConnRegister_cases net t p sk answers.conn with
    ⟨t', e, heq, hsame⟩ | ⟨t', heq, hconnects⟩
  · right
    left
    exact ⟨t', some .addrInUse, by simp only [heq], hsame⟩
  · simp only [heq]
    by_cases hsyn : answers.fragment && answers.syn
    · rw [if_neg (by simpa using hsyn)]
      have hstatus : tcpStreamSetStatus t' { sk with tcpConn := true } .synSent =
          (t', { sk with tcpConn := true, status := .synSent }) := by
        simp [tcpStreamSetStatus]
      simp only [hstatus]
      by_cases htimer : answers.timer
      · left
        rw [if_neg (by simp [htimer])]
        exact ⟨t', rfl, hconnects⟩
      · right
        right
        refine ⟨t', some .nobufs, ?_, hconnects⟩
        rw [if_pos (by simpa using htimer)]
        have hback : tcpStreamSetStatus t' { sk with tcpConn := true, status := .synSent } .closed =
            (removeConn t' sk, { sk with tcpConn := false, status := .closed }) := rfl
        simp only [hback, hclosed]
    · right
      right
      refine ⟨t', if answers.fragment then none else some .nobufs, ?_, hconnects⟩
      rw [if_pos (by simpa [imp_iff_not_or] using hsyn)]
      rfl

/-! ## Ephemeral ports -/

variable {k : Nat}

theorem ephemeralAfter_toNat (h : port.toNat = 49152 + k) :
    (ephemeralAfter port).toNat = 49152 + (k + 1) % ephemeralPortCount := by
  have hcount : ephemeralPortCount = 16384 := rfl
  have hmin : ephemeralPortMin.toNat = 49152 := rfl
  have hone : (1 : BitVec 16).toNat = 1 := rfl
  rw [ephemeralAfter]
  by_cases hwrap : port + 1 < ephemeralPortMin
  · rw [if_pos hwrap]
    rw [BitVec.lt_def, BitVec.toNat_add, hmin, h, hone] at hwrap
    rw [hmin, hcount]
    omega
  · rw [if_neg hwrap]
    rw [BitVec.lt_def, BitVec.toNat_add, hmin, h, hone] at hwrap
    rw [BitVec.toNat_add, h, hcount, hone]
    omega

/-- The ports tried in turn go through the cycle of the ephemeral ports. -/
theorem ephemeralAfter_iterate (hk : k < ephemeralPortCount)
    (h : port.toNat = 49152 + k) (i : Nat) :
    (ephemeralAfter^[i] port).toNat = 49152 + (k + i) % ephemeralPortCount := by
  induction i with
  | zero => rw [iterate_zero, id, h, add_zero, Nat.mod_eq_of_lt hk]
  | succ i ih =>
    rw [iterate_succ_apply', ephemeralAfter_toNat ih, Nat.mod_add_mod, add_assoc]

/-- No ephemeral port passes the tests of `tcp_alloc_ephemeral_port`. -/
def Exhausted (net : Net) (t : Tables) (sk : Nsock) : Prop :=
  ∀ port : BitVec 16, ephemeralPortMin ≤ port → ephemeralFree net t sk (ntohs port) = false

/-- The port at which a search starts is an ephemeral port. -/
theorem ephemeralPort_toNat (drawn : Fin ephemeralPortCount) :
    (ephemeralPort drawn).toNat = 49152 + drawn := by
  have hlt : (drawn : Nat) < 16384 := drawn.isLt
  have hmin : ephemeralPortMin.toNat = 49152 := rfl
  rw [ephemeralPort, BitVec.toNat_add, BitVec.toNat_ofNat, hmin]
  omega

variable {net : Net} {next : BitVec 16} {drawn : Fin ephemeralPortCount}

/-- The port at which a search starts. -/
def ephemeralStart (next : BitVec 16) (drawn : Fin ephemeralPortCount) : BitVec 16 :=
  if next = 0 then ephemeralPort drawn else next

section Search

variable (hnext : next = 0 ∨ ephemeralPortMin ≤ next)
include hnext

theorem ephemeralStart_toNat :
    ∃ k < ephemeralPortCount, (ephemeralStart next drawn).toNat = 49152 + k := by
  have hcount : ephemeralPortCount = 16384 := rfl
  rw [ephemeralStart]
  by_cases hzero : next = 0
  · exact ⟨drawn, drawn.isLt, by rw [if_pos hzero, ephemeralPort_toNat]⟩
  · have hle : 49152 ≤ next.toNat := BitVec.le_def.mp (hnext.resolve_left hzero)
    have hlt := next.isLt
    exact ⟨next.toNat - 49152, by omega, by rw [if_neg hzero]; omega⟩

theorem ephemeralAfter_iterate_le (i : Nat) :
    ephemeralPortMin ≤ ephemeralAfter^[i] (ephemeralStart next drawn) := by
  obtain ⟨k, hk, hstart⟩ := @ephemeralStart_toNat next drawn hnext
  rw [BitVec.le_def, ephemeralAfter_iterate hk hstart]
  exact Nat.le_add_right _ _

/-- A search that tries the whole cycle has tried every ephemeral port. -/
theorem exhausted_of_cycle (hall : ∀ i < ephemeralPortCount,
    ephemeralFree net t sk (ntohs (ephemeralAfter^[i] (ephemeralStart next drawn))) = false) :
    Exhausted net t sk := by
  obtain ⟨k, hk, hstart⟩ := @ephemeralStart_toNat next drawn hnext
  have hcount : ephemeralPortCount = 16384 := rfl
  intro port hport
  have hle : 49152 ≤ port.toNat := BitVec.le_def.mp hport
  have hlt := port.isLt
  -- the turn in which the port is tried
  have htried := hall ((port.toNat - 49152 + ephemeralPortCount - k) % ephemeralPortCount)
    (Nat.mod_lt _ (by decide))
  have hturn : ephemeralAfter^[(port.toNat - 49152 + ephemeralPortCount - k) %
      ephemeralPortCount] (ephemeralStart next drawn) = port := by
    apply BitVec.eq_of_toNat_eq
    rw [ephemeralAfter_iterate hk hstart, Nat.add_mod_mod, hcount]
    omega
  rwa [hturn] at htried

/-- The search ends with the first port of the cycle that is free, or none is. -/
theorem tcpAllocEphemeralPort_first :
    (∃ i < ephemeralPortCount, (∀ j < i, ephemeralFree net t sk
        (ntohs (ephemeralAfter^[j] (ephemeralStart next drawn))) = false) ∧
      ephemeralFree net t sk (ntohs (ephemeralAfter^[i] (ephemeralStart next drawn))) = true ∧
      tcpAllocEphemeralPort net t sk next drawn =
        (some (ntohs (ephemeralAfter^[i] (ephemeralStart next drawn))),
          ephemeralAfter^[i + 1] (ephemeralStart next drawn))) ∨
    Exhausted net t sk ∧ tcpAllocEphemeralPort net t sk next drawn =
      (none, ephemeralAfter^[ephemeralPortCount] (ephemeralStart next drawn)) := by
  have hturn : ∀ port, (ephemeralTurn (ephemeralFree net t sk) port).1 = none ↔
      ephemeralFree net t sk (ntohs port) = false := by
    intro port
    simp [ephemeralTurn]
  rcases @repeatUntil_first _ _ (ephemeralTurn (ephemeralFree net t sk)) ephemeralAfter
    (fun _ => rfl) ephemeralPortCount (ephemeralStart next drawn) with
    ⟨i, hi, hall, hsome, hrun, -⟩ | ⟨hall, hrun, -⟩
  · have hfree := Bool.not_eq_false _ ▸ mt (hturn _).mpr hsome
    refine .inl ⟨i, hi, fun j hj => (hturn _).mp (hall j hj), hfree, hrun.trans ?_⟩
    rw [ephemeralTurn, if_pos hfree, iterate_succ_apply']
  · exact .inr ⟨exhausted_of_cycle hnext fun j hj => (hturn _).mp (hall j hj), hrun⟩

theorem tcpAllocEphemeralPort_none :
    (tcpAllocEphemeralPort net t sk next drawn).1 = none ↔ Exhausted net t sk := by
  rcases @tcpAllocEphemeralPort_first sk t net next drawn hnext with
    ⟨i, -, -, hfree, heq⟩ | ⟨hexhausted, heq⟩
  · rw [heq]
    refine iff_of_false nofun fun hexhausted => ?_
    rw [hexhausted _ (ephemeralAfter_iterate_le hnext i)] at hfree
    cases hfree
  · rw [heq]
    exact iff_of_true rfl hexhausted

end Search

theorem ntohs_ne_zero (h : ephemeralPortMin ≤ port) : ntohs port ≠ 0 := by
  intro hzero
  have hhigh := congrArg BitVec.toNat (BitVec.or_eq_zero_iff.mp hzero).2
  have hle : 49152 ≤ port.toNat := BitVec.le_def.mp h
  rw [BitVec.toNat_ushiftRight, Nat.shiftRight_eq_div_pow] at hhigh
  simp only [BitVec.toNat_ofNat] at hhigh
  omega

/-- A port that was found is an ephemeral port, so not zero, and the next search starts at one. -/
theorem tcpAllocEphemeralPort_spec (hnext : next = 0 ∨ ephemeralPortMin ≤ next) :
    (∀ port, (tcpAllocEphemeralPort net t sk next drawn).1 = some port → port ≠ 0) ∧
      ephemeralPortMin ≤ (tcpAllocEphemeralPort net t sk next drawn).2 := by
  rcases @tcpAllocEphemeralPort_first sk t net next drawn hnext with
    ⟨i, -, -, -, heq⟩ | ⟨-, heq⟩
  · rw [heq]
    refine ⟨fun port hport => ?_, ephemeralAfter_iterate_le hnext (i + 1)⟩
    obtain rfl := Option.some.inj hport
    exact ntohs_ne_zero (ephemeralAfter_iterate_le hnext i)
  · have hle := @ephemeralAfter_iterate_le next drawn hnext ephemeralPortCount
    generalize ephemeralAfter^[ephemeralPortCount] (ephemeralStart next drawn) = last at heq hle
    rw [heq]
    exact ⟨nofun, hle⟩

/-- The ports that a search examines, in turn. -/
def portsExamined (net : Net) (t : Tables) (sk : Nsock) (next : BitVec 16)
    (drawn : Fin ephemeralPortCount) : List (BitVec 16) :=
  visited (ephemeralTurn (ephemeralFree net t sk)) ephemeralPortCount (ephemeralStart next drawn)

/-- No port of the cycle comes back before the search ends. -/
theorem portsExamined_nodup (hnext : next = 0 ∨ ephemeralPortMin ≤ next) :
    (portsExamined net t sk next drawn).Nodup := by
  obtain ⟨k, hk, hstart⟩ := @ephemeralStart_toNat next drawn hnext
  have hcount : ephemeralPortCount = 16384 := rfl
  have hcycle : ∀ n ≤ ephemeralPortCount,
      ((List.range n).map (ephemeralAfter^[·] (ephemeralStart next drawn))).Nodup := by
    intro n hn
    refine List.Nodup.map_on (fun i hi j hj heq => ?_) List.nodup_range
    have hmod := congrArg BitVec.toNat heq
    rw [ephemeralAfter_iterate hk hstart, ephemeralAfter_iterate hk hstart, hcount] at hmod
    rw [List.mem_range] at hi hj
    omega
  rw [portsExamined]
  rcases @repeatUntil_first _ _ (ephemeralTurn (ephemeralFree net t sk)) ephemeralAfter
    (fun _ => rfl) ephemeralPortCount (ephemeralStart next drawn) with
    ⟨i, hi, -, -, -, hvisited⟩ | ⟨-, -, hvisited⟩
  · rw [hvisited]
    exact hcycle (i + 1) hi
  · rw [hvisited]
    exact hcycle ephemeralPortCount le_rfl

/-- The queue tests of `tcp_alloc_ephemeral_port`: an owner without a queue and a port without a
prediction match everything. -/
def rssMatches (queueFor : BitVec 32 → Option Nat) (predict : FlowKey → Int) (owner : BitVec 32)
    (flow : FlowKey) : Bool :=
  (queueFor owner).all fun queue => predict flow < 0 || predict flow = queue

/-- The search examines no port twice.  It fails if and only if no port of the range is free, finds
the first free one in the cycle otherwise, and leaves the cursor in the range. -/
theorem ephemeral_search_complete (net : Net) (queueFor : BitVec 32 → Option Nat)
    (predict : FlowKey → Int) (t : Tables) (sk : Nsock) (drawn : Fin ephemeralPortCount)
    (hnext : next = 0 ∨ ephemeralPortMin ≤ next) :
    let net := { net with queueMatches := rssMatches queueFor predict }
    let found := tcpAllocEphemeralPort net t sk next drawn
    (portsExamined net t sk next drawn).Nodup ∧ (found.1 = none ↔ Exhausted net t sk) ∧
      (∀ port, found.1 = some port → ∃ i < ephemeralPortCount,
        port = ntohs (ephemeralAfter^[i] (ephemeralStart next drawn)) ∧
        ephemeralFree net t sk port = true ∧ ∀ j < i, ephemeralFree net t sk
          (ntohs (ephemeralAfter^[j] (ephemeralStart next drawn))) = false) ∧
      ephemeralPortMin ≤ found.2 := by
  intro net found
  refine ⟨portsExamined_nodup hnext, tcpAllocEphemeralPort_none hnext, fun port hport => ?_,
    (tcpAllocEphemeralPort_spec hnext).2⟩
  rcases @tcpAllocEphemeralPort_first sk t net next drawn hnext with
    ⟨i, hi, hall, hfree, heq⟩ | ⟨-, heq⟩
  · obtain rfl := Option.some.inj ((congrArg Prod.fst heq).symm.trans hport)
    exact ⟨i, hi, rfl, hfree, hall⟩
  · exact absurd ((congrArg Prod.fst heq).symm.trans hport) nofun

/-- The last port of the range is free, and the cursor goes round. -/
theorem ephemeral_search_complete_last :
    tcpAllocEphemeralPort { queueMatches := rssMatches (fun _ => some 1) fun _ => -1 } {}
        { handle := ⟨0, 1, 0, 6⟩ } 65535 ⟨0, by decide⟩ = (some 65535, ephemeralPortMin) ∧
      (portsExamined { queueMatches := rssMatches (fun _ => some 1) fun _ => -1 } {}
        { handle := ⟨0, 1, 0, 6⟩ } 65535 ⟨0, by decide⟩).Nodup :=
  ⟨by decide +kernel, (ephemeral_search_complete {} (fun _ => some 1) (fun _ => -1) {}
    { handle := ⟨0, 1, 0, 6⟩ } ⟨0, by decide⟩ (.inr (by decide))).1⟩

/-! ## Connecting -/

/-- How `tcp_connect` ends before the connection is registered, or with which local endpoint it
registers it. -/
theorem tcpConnectAimed_cases (net : Net) (t : Tables) (p : Nat) (sk : Nsock) (next : BitVec 16)
    (answers : ConnectAnswers) (htcp : sk.isTcp) (hnext : next = 0 ∨ ephemeralPortMin ≤ next) :
    (sk.localPort = 0 ∧ Exhausted net t sk ∧ ∃ next', ephemeralPortMin ≤ next' ∧
        tcpConnectAimed net t p sk next answers =
          (t, sk, next', .failed (some .addrNotAvail))) ∨
      (sk.localPort = 0 ∧ ¬ Exhausted net t sk ∧ ∃ port next',
        port ≠ 0 ∧ ephemeralPortMin ≤ next' ∧
        ((∃ errno, tcpConnectAimed net t p sk next answers =
            (t, { sk with localPort := port }, next', .failed errno)) ∨
          ∃ t₁, Bindable t { sk with localPort := port } net.localIp port ∧
            Binds t t₁ p { sk with localPort := port } net.localIp port ∧
            ∃ t' sk' result,
              tcpConnectStart net t₁ p
                (Nsock.bindTo { sk with localPort := port } net.localIp port) answers =
                  (t', sk', result) ∧
              tcpConnectAimed net t p sk next answers = (t', sk', next', result))) ∨
      (sk.localPort ≠ 0 ∧ ∃ t' sk' result,
        tcpConnectStart net t p sk answers = (t', sk', result) ∧
        tcpConnectAimed net t p sk next answers = (t', sk', next, result)) := by
  rw [tcpConnectAimed]
  by_cases hport : sk.localPort = 0
  · rw [if_pos hport]
    have hnone : (tcpAllocEphemeralPort net t sk next answers.drawn).1 = none ↔ _ :=
      tcpAllocEphemeralPort_none hnext
    have hspec : (∀ port, (tcpAllocEphemeralPort net t sk next answers.drawn).1 = some port → _) ∧
        _ := tcpAllocEphemeralPort_spec hnext
    cases halloc : tcpAllocEphemeralPort net t sk next answers.drawn with
    | mk found next' =>
    rw [halloc] at hnone hspec
    cases found with
    | none => exact .inl ⟨hport, hnone.mp rfl, next', hspec.2, rfl⟩
    | some port =>
      right
      left
      refine ⟨hport, fun h => absurd (hnone.mpr h) (by simp), port, next', hspec.1 port rfl,
        hspec.2, ?_⟩
      by_cases hraced : answers.raced
      · left
        exact ⟨some .addrInUse, by simp only [hraced, if_true]⟩
      · simp only [hraced, Bool.false_eq_true, if_false]
        have hudp : ¬ ({ sk with localPort := port } : Nsock).isUdp := by
          intro hudp
          cases (Nsock.not_udp htcp).symm.trans hudp
        rcases nsockBindLocal_cases net t p { sk with localPort := port } net.localIp port
          answers.bind (fun h => absurd h hudp) (fun h => absurd h hudp) with
          ⟨e, heq⟩ | ⟨t₁, heq, hok, hbinds⟩
        · left
          exact ⟨some e, by simp only [heq]⟩
        · right
          refine ⟨t₁, hok, hbinds, _, _, _, rfl, ?_⟩
          simp only [heq]
          rfl
  · rw [if_neg hport]
    right
    right
    exact ⟨hport, _, _, _, rfl, rfl⟩

end SnowTG.Endpoint
