import SnowTG.Dispatch.Endpoints
import SnowTG.Owner.Ready
import SnowTG.Tcp.Types

/-!
# Bind reservations

All sockets of the process reserve their local endpoints in one index.  A bucket
of it holds the reservations of some protocols and ports, the newest first, so
that reservations of different addresses of one port are compared with each
other.  Overlapping reservations are shared by sockets that allow the reuse of
their address, as long as none of them listens.
-/

namespace SnowTG.Endpoint

open SnowTG.Dispatch SnowTG.Lib SnowTG.Owner Function List

/-- The errors of the calls that set up an endpoint. -/
inductive Errno where
  | inval
  | nomem
  | addrInUse
  | addrNotAvail
  | noSpace
  | io
  | again
  | nobufs
  deriving DecidableEq, Repr

/-- The fields of `struct nsock` that setting up an endpoint works on.  `registry_flags` are four
flags, and the status is that of a TCP socket. -/
@[ext] structure Nsock where
  handle : Handle
  localIp : BitVec 32 := 0
  localPort : BitVec 16 := 0
  remoteIp : BitVec 32 := 0
  remotePort : BitVec 16 := 0
  reuseaddr : Bool := false
  udpBind : Bool := false
  tcpBind : Bool := false
  tcpListener : Bool := false
  tcpConn : Bool := false
  status : Tcp.Status := .closed
  deriving DecidableEq, Repr

/-- `struct binding`. -/
structure Binding where
  handle : Handle
  ip : BitVec 32
  port : BitVec 16
  reuse : Bool
  listener : Bool := false
  deriving DecidableEq, Repr

/-- `BIND_BUCKETS`. -/
def bindBuckets : Nat := 1024

def ntohs (port : BitVec 16) : BitVec 16 := (port <<< 8) ||| (port >>> 8)

/-- `bucket`. -/
def bucket (proto : BitVec 8) (port : BitVec 16) : Nat :=
  ((ntohs port).toNat * 31 + proto.toNat) % bindBuckets

/-- `overlap`. -/
def overlap (a b : BitVec 32) : Bool := a = 0 || b = 0 || a = b

/-- The reservations by bucket and the counts of shared UDP reservations by port. -/
@[ext] structure BindIndex where
  bindings : Nat → List Binding := fun _ => []
  sharedUdp : BitVec 16 → BitVec 32 := fun _ => 0

/-- A reservation that stands in the way of another one. -/
def Binding.conflicts (b : Binding) (proto : BitVec 8) (ip : BitVec 32) (port : BitVec 16)
    (reuse : Bool) : Bool :=
  b.port = port && b.handle.protocol = proto && overlap b.ip ip &&
    (!b.reuse || !reuse || b.listener)

/-- The last reservation of a socket becomes a listener, or is one no longer. -/
def setListener (handle : Handle) (enabled : Bool) : List Binding → List Binding
  | [] => []
  | b :: rest =>
    if b.handle = handle && rest.all (·.handle ≠ handle) then
      { b with listener := enabled } :: rest
    else b :: setListener handle enabled rest

namespace BindIndex

/-- `socket_bind_add`; `memory` says whether a record can be allocated. -/
def socketBindAdd (x : BindIndex) (sk : Nsock) (ip : BitVec 32) (port : BitVec 16) (memory : Bool) :
    BindIndex × Option Errno :=
  let proto := sk.handle.protocol
  let i := bucket proto port
  if !memory then (x, some .nomem)
  else if (x.bindings i).any (·.conflicts proto ip port sk.reuseaddr) then (x, some .addrInUse)
  else
    ({ bindings := update x.bindings i
        ({ handle := sk.handle, ip := ip, port := port, reuse := sk.reuseaddr } :: x.bindings i)
       sharedUdp :=
        if proto = ipprotoUdp && sk.reuseaddr then
          update x.sharedUdp port (x.sharedUdp port + 1)
        else x.sharedUdp },
      none)

/-- `socket_bind_remove`. -/
def socketBindRemove (x : BindIndex) (sk : Nsock) : BindIndex :=
  let i := bucket sk.handle.protocol sk.localPort
  match (x.bindings i).find? (·.handle = sk.handle) with
  | none => x
  | some old =>
    { bindings := update x.bindings i ((x.bindings i).eraseP (·.handle = sk.handle))
      sharedUdp :=
        if old.handle.protocol = ipprotoUdp && old.reuse then
          update x.sharedUdp old.port (x.sharedUdp old.port - 1)
        else x.sharedUdp }

/-- `socket_bind_taken`. -/
def socketBindTaken (x : BindIndex) (proto : BitVec 8) (ip : BitVec 32) (port : BitVec 16) : Bool :=
  (x.bindings (bucket proto port)).any fun b =>
    b.port = port && b.handle.protocol = proto && overlap b.ip ip

/-- `socket_bind_listen`. -/
def socketBindListen (x : BindIndex) (sk : Nsock) (enabled : Bool) : BindIndex × Option Errno :=
  let i := bucket ipprotoTcp sk.localPort
  if (x.bindings i).all (·.handle ≠ sk.handle) then (x, some .inval)
  else if enabled && (x.bindings i).any (fun b =>
      b.handle ≠ sk.handle && b.handle.protocol = ipprotoTcp && b.port = sk.localPort &&
        overlap b.ip sk.localIp && b.listener) then (x, some .addrInUse)
  else
    ({ x with
        bindings := update x.bindings i (setListener sk.handle enabled (x.bindings i)) },
      none)

/-- The live reservations. -/
def reservations (x : BindIndex) : List Binding := (List.range bindBuckets).flatMap x.bindings

end BindIndex

/-- Two reservations that may be held at the same time: if they overlap, both allow reuse, and not
both listen. -/
def Compatible (a b : Binding) : Prop :=
  a.handle.protocol = b.handle.protocol → a.port = b.port → overlap a.ip b.ip →
    a.reuse ∧ b.reuse ∧ (a.handle.protocol = ipprotoTcp → ¬ (a.listener ∧ b.listener))

/-- A reservation that is counted as shared for a port. -/
def Binding.sharedAt (b : Binding) (port : BitVec 16) : Bool :=
  b.handle.protocol = ipprotoUdp && b.reuse && b.port = port

/-! ## What the operations do -/

theorem overlap_comm (a b : BitVec 32) : overlap a b = overlap b a := by
  simp only [overlap, eq_comm (a := a) (b := b), Bool.or_comm]

variable {a b : Binding}

theorem Compatible.symm (h : Compatible a b) : Compatible b a := by
  intro hproto hport hover
  obtain ⟨ha, hb, hlisten⟩ := h hproto.symm hport.symm (by rwa [overlap_comm])
  refine ⟨hb, ha, ?_⟩
  rintro htcp ⟨hlb, hla⟩
  exact hlisten (hproto.symm.trans htcp) ⟨hla, hlb⟩

/-- A reservation without a conflict is compatible with a new one. -/
theorem compatible_of_not_conflicts (hlistener : a.listener = false)
    (h : b.conflicts a.handle.protocol a.ip a.port a.reuse = false) : Compatible a b := by
  intro hproto hport hover
  rw [overlap_comm] at hover
  simp only [Binding.conflicts, hproto, hport, hover, decide_true, Bool.true_and,
    Bool.or_eq_false_iff, Bool.not_eq_false'] at h
  refine ⟨h.1.2, h.1.1, ?_⟩
  rintro - ⟨ha, -⟩
  rw [hlistener] at ha
  simp at ha

variable {enabled : Bool}

/-- A reservation stays compatible when it stops listening, or starts while no overlapping one
does. -/
theorem Compatible.mark (h : Compatible a b)
    (hquiet : enabled → b.handle.protocol = ipprotoTcp → b.port = a.port → overlap b.ip a.ip →
      b.listener = false) : Compatible { a with listener := enabled } b := by
  intro hproto hport hover
  obtain ⟨ha, hb, -⟩ := h hproto hport hover
  refine ⟨ha, hb, ?_⟩
  rintro htcp ⟨hon, hlistener⟩
  have hoff := hquiet hon (hproto.symm.trans htcp) hport.symm (by
    rw [overlap_comm]
    exact hover)
  cases hoff.symm.trans hlistener

namespace BindIndex

variable {x : BindIndex} {sk : Nsock} {handle : Handle}

/-- The record that `socket_bind_add` enters. -/
def newBinding (sk : Nsock) (ip : BitVec 32) (port : BitVec 16) : Binding where
  handle := sk.handle
  ip := ip
  port := port
  reuse := sk.reuseaddr

/-- The index with a reservation added. -/
def withBinding (x : BindIndex) (b : Binding) : BindIndex where
  bindings := update x.bindings (bucket b.handle.protocol b.port)
    (b :: x.bindings (bucket b.handle.protocol b.port))
  sharedUdp :=
    if b.handle.protocol = ipprotoUdp && b.reuse then
      update x.sharedUdp b.port (x.sharedUdp b.port + 1)
    else x.sharedUdp

theorem socketBindAdd_cases (x : BindIndex) (sk : Nsock) (ip : BitVec 32) (port : BitVec 16)
    (memory : Bool) :
    (∃ e, x.socketBindAdd sk ip port memory = (x, some e)) ∨
      (∀ b ∈ x.bindings (bucket sk.handle.protocol port),
        b.conflicts sk.handle.protocol ip port sk.reuseaddr = false) ∧
      x.socketBindAdd sk ip port memory = (x.withBinding (newBinding sk ip port), none) := by
  rw [socketBindAdd]
  cases memory with
  | false => exact .inl ⟨.nomem, rfl⟩
  | true =>
    by_cases hany : (x.bindings (bucket sk.handle.protocol port)).any
        (·.conflicts sk.handle.protocol ip port sk.reuseaddr)
    · exact .inl ⟨.addrInUse, by simp [hany]⟩
    · right
      constructor
      · simpa using hany
      · simp only [Bool.not_true, Bool.false_eq_true, if_false, hany]
        rfl

/-- Reservations stand in the bucket of their endpoint and are compatible with each other, only the
oldest of a socket listens, and the shared ones of a port are counted. -/
structure Inv (x : BindIndex) : Prop where
  placed : ∀ {i b}, b ∈ x.bindings i → i = bucket b.handle.protocol b.port
  listening : ∀ i, (x.bindings i).Pairwise fun a b => a.handle = b.handle → a.listener = false
  compatible : ∀ i, (x.bindings i).Pairwise Compatible
  shared : ∀ port, x.sharedUdp port =
    BitVec.ofNat 32 ((x.bindings (bucket ipprotoUdp port)).countP (·.sharedAt port))

theorem inv_empty : ({} : BindIndex).Inv := by
  constructor
  · intro i b hb
    simp at hb
  · intro i
    exact List.Pairwise.nil
  · intro i
    exact List.Pairwise.nil
  · intro port
    rfl

theorem sharedAt_iff {port : BitVec 16} :
    b.sharedAt port ↔ (b.handle.protocol = ipprotoUdp ∧ b.reuse) ∧ b.port = port := by
  simp [Binding.sharedAt]

theorem withBinding_count (b : Binding) (port : BitVec 16) :
    ((x.withBinding b).bindings (bucket ipprotoUdp port)).countP (·.sharedAt port) =
      (x.bindings (bucket ipprotoUdp port)).countP (·.sharedAt port) +
        if b.sharedAt port then 1 else 0 := by
  simp only [withBinding]
  by_cases hi : bucket ipprotoUdp port = bucket b.handle.protocol b.port
  · rw [hi, update_self, countP_cons]
  · rw [update_of_ne hi, if_neg, add_zero]
    intro hshared
    obtain ⟨⟨hudp, -⟩, hport⟩ := sharedAt_iff.mp hshared
    exact hi (by rw [hudp, hport])

/-- The count that a reservation is part of is changed, and no other. -/
theorem update_shared (shared : BitVec 16 → BitVec 32) (f : BitVec 32 → BitVec 32) (b : Binding)
    (port : BitVec 16) :
    (if b.handle.protocol = ipprotoUdp && b.reuse then
        update shared b.port (f (shared b.port)) else shared) port =
      if b.sharedAt port then f (shared port) else shared port := by
  by_cases hudp : b.handle.protocol = ipprotoUdp && b.reuse
  · rw [if_pos hudp]
    simp only [Bool.and_eq_true, decide_eq_true_eq] at hudp
    by_cases hport : port = b.port
    · rw [hport, update_self, if_pos (sharedAt_iff.mpr ⟨hudp, rfl⟩)]
    · have hnot : ¬ b.sharedAt port := fun hshared => hport (sharedAt_iff.mp hshared).2.symm
      rw [update_of_ne hport, if_neg hnot]
  · have hnot : ¬ b.sharedAt port := by
      intro hshared
      exact hudp (by simpa using (sharedAt_iff.mp hshared).1)
    rw [if_neg hudp, if_neg hnot]

theorem Inv.withBinding (h : x.Inv) (hlistener : b.listener = false)
    (hfree : ∀ a ∈ x.bindings (bucket b.handle.protocol b.port),
      a.conflicts b.handle.protocol b.ip b.port b.reuse = false) : (x.withBinding b).Inv := by
  constructor
  · intro i a ha
    simp only [BindIndex.withBinding] at ha
    by_cases hi : i = bucket b.handle.protocol b.port
    · rw [hi, update_self, mem_cons] at ha
      rcases ha with rfl | ha
      · exact hi
      · exact hi.trans (h.placed ha)
    · rw [update_of_ne hi] at ha
      exact h.placed ha
  · intro i
    simp only [BindIndex.withBinding]
    by_cases hi : i = bucket b.handle.protocol b.port
    · rw [hi, update_self, pairwise_cons]
      exact ⟨fun a _ _ => hlistener, h.listening _⟩
    · rw [update_of_ne hi]
      exact h.listening i
  · intro i
    simp only [BindIndex.withBinding]
    by_cases hi : i = bucket b.handle.protocol b.port
    · rw [hi, update_self, pairwise_cons]
      refine ⟨?_, h.compatible _⟩
      intro a ha
      exact compatible_of_not_conflicts hlistener (hfree a ha)
    · rw [update_of_ne hi]
      exact h.compatible i
  · intro port
    rw [withBinding_count, BitVec.ofNat_add, ← h.shared]
    refine (update_shared x.sharedUdp (· + 1) b port).trans ?_
    split_ifs <;> simp

/-- What `socket_bind_remove` does to the bucket of the socket. -/
theorem socketBindRemove_cases (x : BindIndex) (sk : Nsock) :
    (∀ b ∈ x.bindings (bucket sk.handle.protocol sk.localPort), b.handle ≠ sk.handle) ∧
        x.socketBindRemove sk = x ∨
      ∃ before old after,
        x.bindings (bucket sk.handle.protocol sk.localPort) = before ++ old :: after ∧
        old.handle = sk.handle ∧
        x.socketBindRemove sk =
          { bindings := update x.bindings (bucket sk.handle.protocol sk.localPort)
              (before ++ after)
            sharedUdp :=
              if old.handle.protocol = ipprotoUdp && old.reuse then
                update x.sharedUdp old.port (x.sharedUdp old.port - 1)
              else x.sharedUdp } := by
  rw [socketBindRemove]
  cases hfind : (x.bindings (bucket sk.handle.protocol sk.localPort)).find?
      (·.handle = sk.handle) with
  | none =>
    left
    refine ⟨?_, rfl⟩
    intro b hb
    simpa using List.find?_eq_none.mp hfind b hb
  | some old =>
    right
    obtain ⟨hold, before, after, hsplit, hbefore⟩ := List.find?_eq_some_iff_append.mp hfind
    have hhandle : old.handle = sk.handle := by simpa using hold
    refine ⟨before, old, after, hsplit, hhandle, ?_⟩
    have herase : (x.bindings (bucket sk.handle.protocol sk.localPort)).eraseP
        (·.handle = sk.handle) = before ++ after := by
      rw [hsplit, eraseP_append_right]
      · simp [hhandle]
      · intro b hb
        simpa using hbefore b hb
    simp only [herase]

theorem Inv.socketBindRemove (h : x.Inv) (sk : Nsock) : (x.socketBindRemove sk).Inv := by
  rcases x.socketBindRemove_cases sk with ⟨-, hsame⟩ | ⟨before, old, after, hsplit, hold, heq⟩
  · rw [hsame]
    exact h
  rw [heq]
  have hsub : (before ++ after).Sublist
      (x.bindings (bucket sk.handle.protocol sk.localPort)) := by
    rw [hsplit]
    exact (sublist_cons_self old after).append_left before
  have hplaced := h.placed (i := bucket sk.handle.protocol sk.localPort) (b := old)
    (by simp [hsplit])
  constructor
  · intro i b hb
    dsimp only at hb
    by_cases hi : i = bucket sk.handle.protocol sk.localPort
    · rw [hi, update_self] at hb
      rw [hi]
      exact h.placed (hsub.subset hb)
    · rw [update_of_ne hi] at hb
      exact h.placed hb
  · intro i
    dsimp only
    by_cases hi : i = bucket sk.handle.protocol sk.localPort
    · rw [hi, update_self]
      exact (h.listening _).sublist hsub
    · rw [update_of_ne hi]
      exact h.listening i
  · intro i
    dsimp only
    by_cases hi : i = bucket sk.handle.protocol sk.localPort
    · rw [hi, update_self]
      exact (h.compatible _).sublist hsub
    · rw [update_of_ne hi]
      exact h.compatible i
  · intro port
    dsimp only
    have hcount : (x.bindings (bucket ipprotoUdp port)).countP (·.sharedAt port) =
        ((update x.bindings (bucket sk.handle.protocol sk.localPort) (before ++ after))
          (bucket ipprotoUdp port)).countP (·.sharedAt port) +
          if old.sharedAt port then 1 else 0 := by
      by_cases hi : bucket ipprotoUdp port = bucket sk.handle.protocol sk.localPort
      · rw [hi, update_self, hsplit, countP_append, countP_append, countP_cons]
        omega
      · rw [update_of_ne hi, if_neg, add_zero]
        intro hshared
        obtain ⟨⟨hudp, -⟩, hport⟩ := sharedAt_iff.mp hshared
        exact hi (by rw [hplaced, hudp, hport])
    refine (update_shared x.sharedUdp (· - 1) old port).trans ?_
    rw [h.shared, hcount]
    split_ifs
    · rw [BitVec.ofNat_add]
      simp
    · rfl

theorem setListener_split (enabled : Bool) (before : List Binding)
    {self : Binding} {after : List Binding} (hself : self.handle = handle)
    (hafter : ∀ b ∈ after, b.handle ≠ handle) :
    setListener handle enabled (before ++ self :: after) =
      before ++ { self with listener := enabled } :: after := by
  induction before with
  | nil =>
    rw [nil_append, nil_append, setListener, if_pos]
    simpa [hself] using hafter
  | cons a rest ih =>
    rw [cons_append, cons_append, setListener, if_neg, ih]
    simp [hself]

/-- The last entry of a socket in a bucket. -/
theorem exists_last_binding {l : List Binding} (h : ¬ l.all (·.handle ≠ handle)) :
    ∃ before self after, l = before ++ self :: after ∧ self.handle = handle ∧
      ∀ b ∈ after, b.handle ≠ handle := by
  induction l with
  | nil => exact absurd rfl h
  | cons a rest ih =>
    by_cases hrest : rest.all (·.handle ≠ handle)
    · refine ⟨[], a, rest, rfl, ?_, by simpa using hrest⟩
      by_contra hne
      exact h (by simpa [hne] using hrest)
    · obtain ⟨before, self, after, rfl, hself, hafter⟩ := ih hrest
      exact ⟨a :: before, self, after, rfl, hself, hafter⟩

/-- What `socket_bind_listen` does. -/
theorem socketBindListen_cases (x : BindIndex) (sk : Nsock) (enabled : Bool) :
    (∃ e, x.socketBindListen sk enabled = (x, some e)) ∨
      ∃ before self after,
        x.bindings (bucket ipprotoTcp sk.localPort) = before ++ self :: after ∧
        self.handle = sk.handle ∧ (∀ b ∈ after, b.handle ≠ sk.handle) ∧
        (enabled → ∀ b ∈ x.bindings (bucket ipprotoTcp sk.localPort), b.handle ≠ sk.handle →
          b.handle.protocol = ipprotoTcp → b.port = sk.localPort → overlap b.ip sk.localIp →
          b.listener = false) ∧
        x.socketBindListen sk enabled =
          ({ x with
              bindings := update x.bindings (bucket ipprotoTcp sk.localPort)
                (before ++ { self with listener := enabled } :: after) },
            none) := by
  rw [socketBindListen]
  by_cases hall : (x.bindings (bucket ipprotoTcp sk.localPort)).all (·.handle ≠ sk.handle)
  · exact .inl ⟨.inval, by simp only [if_pos hall]⟩
  simp only [if_neg hall]
  by_cases hbusy : enabled && (x.bindings (bucket ipprotoTcp sk.localPort)).any fun b =>
      b.handle ≠ sk.handle && b.handle.protocol = ipprotoTcp && b.port = sk.localPort &&
        overlap b.ip sk.localIp && b.listener
  · exact .inl ⟨.addrInUse, by rw [if_pos hbusy]⟩
  · right
    obtain ⟨before, self, after, hsplit, hself, hafter⟩ := exists_last_binding hall
    refine ⟨before, self, after, hsplit, hself, hafter, ?_, ?_⟩
    · intro hon b hb hne htcp hport hover
      cases hlistener : b.listener with
      | false => rfl
      | true =>
        refine absurd ?_ hbusy
        rw [hon, Bool.true_and, any_eq_true]
        exact ⟨b, hb, by simp [hne, htcp, hport, hover, hlistener]⟩
    · rw [if_neg hbusy, hsplit, setListener_split enabled before hself hafter]

/-- Marking keeps the invariant if the endpoint compared is that of the reservation. -/
theorem Inv.socketBindListen (h : x.Inv)
    (hself : enabled → ∀ b ∈ x.bindings (bucket ipprotoTcp sk.localPort), b.handle = sk.handle →
      b.ip = sk.localIp ∧ b.port = sk.localPort) : (x.socketBindListen sk enabled).1.Inv := by
  rcases x.socketBindListen_cases sk enabled with
    ⟨e, heq⟩ | ⟨before, self, after, hsplit, hhandle, hafter, hquiet, heq⟩
  · rw [heq]
    exact h
  rw [heq]
  have hmem : self ∈ x.bindings (bucket ipprotoTcp sk.localPort) := by simp [hsplit]
  have hlistening := h.listening (bucket ipprotoTcp sk.localPort)
  have hpairs := h.compatible (bucket ipprotoTcp sk.localPort)
  rw [hsplit, pairwise_append, pairwise_cons] at hlistening hpairs
  obtain ⟨hbefore, ⟨hself', hafters⟩, hcross⟩ := hpairs
  obtain ⟨hold, ⟨holdSelf, holdAfter⟩, holdCross⟩ := hlistening
  -- the other reservations of the socket do not listen, those of others that overlap neither
  have hmark : ∀ b ∈ before ++ after, Compatible self b →
      Compatible { self with listener := enabled } b := by
    intro b hb hcompatible
    apply hcompatible.mark
    intro hon htcp hsame hover
    obtain ⟨hip, hport⟩ := hself hon self hmem hhandle
    rw [hip] at hover
    rcases mem_append.mp hb with hb | hb
    · by_cases hown : b.handle = sk.handle
      · exact holdCross b hb self (by simp) (hown.trans hhandle.symm)
      · exact hquiet hon b (by simp [hsplit, hb]) hown htcp (hsame.trans hport) hover
    · exact hquiet hon b (by simp [hsplit, hb]) (hafter b hb) htcp (hsame.trans hport) hover
  constructor
  · intro i b hb
    dsimp only at hb
    by_cases hi : i = bucket ipprotoTcp sk.localPort
    · rw [hi, update_self] at hb
      rw [hi]
      rcases mem_append.mp hb with hbefore | hrest
      · exact h.placed (by simp [hsplit, hbefore])
      · rcases mem_cons.mp hrest with rfl | hafter
        · exact (h.placed hmem : _ = bucket self.handle.protocol self.port)
        · exact h.placed (by simp [hsplit, hafter])
    · rw [update_of_ne hi] at hb
      exact h.placed hb
  · intro i
    dsimp only
    by_cases hi : i = bucket ipprotoTcp sk.localPort
    · rw [hi, update_self, pairwise_append, pairwise_cons]
      refine ⟨hold, ⟨?_, holdAfter⟩, ?_⟩
      · intro b hb hown
        exact absurd (hown.symm.trans hhandle) (hafter b hb)
      · intro a ha b hb hown
        rcases mem_cons.mp hb with rfl | hb
        · exact holdCross a ha self (by simp) hown
        · exact holdCross a ha b (by simp [hb]) hown
    · rw [update_of_ne hi]
      exact h.listening i
  · intro i
    dsimp only
    by_cases hi : i = bucket ipprotoTcp sk.localPort
    · rw [hi, update_self, pairwise_append, pairwise_cons]
      refine ⟨hbefore, ⟨?_, hafters⟩, ?_⟩
      · intro b hb
        exact hmark b (mem_append_right _ hb) (hself' b hb)
      · intro a ha b hb
        rcases mem_cons.mp hb with rfl | hb
        · exact (hmark a (mem_append_left _ ha) (hcross a ha self (by simp)).symm).symm
        · exact hcross a ha b (mem_cons_of_mem _ hb)
    · rw [update_of_ne hi]
      exact h.compatible i
  · intro port
    dsimp only
    rw [h.shared]
    congr 1
    by_cases hi : bucket ipprotoUdp port = bucket ipprotoTcp sk.localPort
    · rw [hi, update_self, hsplit, countP_append, countP_append, countP_cons, countP_cons]
      rfl
    · rw [update_of_ne hi]

/-! ## All live reservations -/

theorem Inv.reservations_pairwise (h : x.Inv) : x.reservations.Pairwise Compatible := by
  rw [reservations, pairwise_flatMap]
  refine ⟨fun i _ => h.compatible i, ?_⟩
  apply List.Pairwise.imp _ pairwise_lt_range
  intro i j hlt a ha b hb hproto hport
  have hi := h.placed ha
  have hj := h.placed hb
  rw [hproto, hport] at hi
  omega

theorem Inv.reservations_count (h : x.Inv) (port : BitVec 16) :
    x.sharedUdp port = BitVec.ofNat 32 (x.reservations.countP (·.sharedAt port)) := by
  have hlt : bucket ipprotoUdp port < bindBuckets := Nat.mod_lt _ (by decide)
  have hothers : ∀ i, i ≠ bucket ipprotoUdp port → i ∈ List.range bindBuckets →
      (x.bindings i).countP (·.sharedAt port) = 0 := by
    intro i hi _
    rw [countP_eq_zero]
    intro b hb hshared
    obtain ⟨⟨hudp, -⟩, hport⟩ := sharedAt_iff.mp hshared
    exact hi (by rw [h.placed hb, hudp, hport])
  have hcount : (List.range bindBuckets).count (bucket ipprotoUdp port) = 1 :=
    count_eq_one_of_mem nodup_range (mem_range.mpr hlt)
  have hsum := sum_map_eq_nsmul_single (bucket ipprotoUdp port)
    (List.countP (·.sharedAt port) ∘ x.bindings) hothers
  rw [hcount, one_nsmul] at hsum
  rw [h.shared, reservations, countP_flatMap, hsum, comp]

end BindIndex

/-! ## Sequences of operations -/

/-- An operation on the index, with the socket as it is at the call. -/
inductive BindOp where
  | add (sk : Nsock) (ip : BitVec 32) (port : BitVec 16) (memory : Bool)
  | remove (sk : Nsock)
  | listen (sk : Nsock) (enabled : Bool)
  deriving DecidableEq, Repr

def BindIndex.step (x : BindIndex) : BindOp → BindIndex
  | .add sk ip port memory => (x.socketBindAdd sk ip port memory).1
  | .remove sk => x.socketBindRemove sk
  | .listen sk enabled => (x.socketBindListen sk enabled).1

/-- Operations one after the other, on an index without reservations. -/
def bindSystem : System BindIndex BindOp where
  init x := x = {}
  enabled _ _ := True
  step := BindIndex.step

/-- A socket that starts to listen still has the address and port of its reservation. -/
def BindOp.Listens (x : BindIndex) : BindOp → Prop
  | .listen sk enabled =>
    enabled → ∀ b ∈ x.bindings (bucket ipprotoTcp sk.localPort), b.handle = sk.handle →
      b.ip = sk.localIp ∧ b.port = sk.localPort
  | _ => True

variable {x : BindIndex}

theorem BindIndex.Inv.step (h : x.Inv) {op : BindOp} (hop : op.Listens x) : (x.step op).Inv := by
  cases op with
  | add sk ip port memory =>
    rcases x.socketBindAdd_cases sk ip port memory with ⟨e, heq⟩ | ⟨hfree, heq⟩
    · simp only [BindIndex.step, heq]
      exact h
    · simp only [BindIndex.step, heq]
      exact h.withBinding rfl hfree
  | remove sk => exact h.socketBindRemove sk
  | listen sk enabled => exact h.socketBindListen hop

theorem BindIndex.reach_inv (h : bindSystem.Reach (fun x op => op.Listens x) x) : x.Inv := by
  apply h.invariant
  · rintro x rfl
    exact BindIndex.inv_empty
  · intro x op hx _ hop
    exact hx.step hop

/-- In every sequence of operations whose listeners have kept the endpoint of their reservation, the
reservations are compatible and the shared ones counted. -/
theorem bind_reservations_compatible {x : BindIndex}
    (h : bindSystem.Reach (fun x op => op.Listens x) x) :
    x.reservations.Pairwise Compatible ∧
      ∀ port, x.sharedUdp port = BitVec.ofNat 32 (x.reservations.countP (·.sharedAt port)) :=
  ⟨(BindIndex.reach_inv h).reservations_pairwise, (BindIndex.reach_inv h).reservations_count⟩

instance (x : BindIndex) (op : BindOp) : Decidable (bindSystem.enabled x op) := isTrue trivial

instance BindOp.Listens.decidable (x : BindIndex) : ∀ op : BindOp, Decidable (op.Listens x)
  | .add .. => isTrue trivial
  | .remove _ => isTrue trivial
  | .listen sk enabled => inferInstanceAs (Decidable (enabled →
      ∀ b ∈ x.bindings (bucket ipprotoTcp sk.localPort), b.handle = sk.handle →
        b.ip = sk.localIp ∧ b.port = sk.localPort))

/-- A socket that shares its address. -/
def sharing (id : Nat) (protocol : BitVec 8) : Nsock where
  handle := { id := id, generation := 1, ownerLcore := 1, protocol := protocol }
  localPort := 0x5000
  reuseaddr := true

/-- A listener and two UDP sockets on one port. -/
def sharedPort : List BindOp :=
  [.add (sharing 0 ipprotoTcp) 0 0x5000 true, .listen (sharing 0 ipprotoTcp) true,
    .add (sharing 1 ipprotoUdp) 0 0x5000 true, .add (sharing 2 ipprotoUdp) 0x0900000a 0x5000 true]

theorem bind_reservations_compatible_sharedPort :
    (bindSystem.run {} sharedPort).sharedUdp 0x5000 = 2 ∧
      (bindSystem.run {} sharedPort).reservations.Pairwise Compatible ∧
      ∀ port, (bindSystem.run {} sharedPort).sharedUdp port =
        BitVec.ofNat 32 ((bindSystem.run {} sharedPort).reservations.countP (·.sharedAt port)) := by
  have hinit : bindSystem.Reach (fun x op => op.Listens x) {} := .init rfl
  exact ⟨by decide, bind_reservations_compatible (hinit.run (by decide))⟩

end SnowTG.Endpoint
