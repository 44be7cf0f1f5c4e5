import SnowTG.Endpoint.Atomicity

/-!
# The reservations of a process

The calls of a process change the index of reservations by the operations on it,
so what holds after every sequence of operations holds in every run.  A listener
whose address has changed since it was bound is not compared with the listeners
that overlap its reservation.
-/

namespace SnowTG.Endpoint

open SnowTG.Dispatch SnowTG.Lib SnowTG.Owner List

variable {sk : Nsock} {ip : BitVec 32} {port : BitVec 16}

theorem BindIndex.socketBindAdd_free {x : BindIndex}
    (hfree : ∀ b ∈ x.bindings (bucket sk.handle.protocol port),
      b.conflicts sk.handle.protocol ip port sk.reuseaddr = false) :
    x.step (.add sk ip port true) = x.withBinding (newBinding sk ip port) := by
  have hnone : ¬ (x.bindings (bucket sk.handle.protocol port)).any
      (·.conflicts sk.handle.protocol ip port sk.reuseaddr) := by
    simpa using hfree
  rw [BindIndex.step, socketBindAdd]
  simp only [Bool.not_true, Bool.false_eq_true, if_false, hnone]
  rfl

/-- What an event does to the index: nothing, or one operation. -/
inductive IndexMove (w : World) (e : SetupEvent) : BindIndex → Prop where
  | same : IndexMove w e w.tables.index
  | add (sk : Nsock) (ip : BitVec 32) (port : BitVec 16) :
      IndexMove w e (w.tables.index.step (.add sk ip port true))
  | remove (sk : Nsock) : IndexMove w e (w.tables.index.step (.remove sk))
  | listen (p : Nat) (sk : Nsock) (answers : ListenAnswers) (he : e = .call p (.listen answers))
      (hp : w.socks p = some sk) : IndexMove w e (w.tables.index.step (.listen sk true))

variable {net : Net} {w : World} {p : Nat}

theorem IndexMove.binds {e : SetupEvent} {t' : Tables} (hok : Bindable w.tables sk ip port)
    (hbinds : Binds w.tables t' p sk ip port) : IndexMove w e t'.index := by
  rw [hbinds.index, ← BindIndex.socketBindAdd_free hok.free]
  exact .add sk ip port

theorem tcpConnectStart_index (net : Net) (t : Tables) (p : Nat) (answers : ConnectAnswers)
    (hclosed : sk.status = .closed) : (tcpConnectStart net t p sk answers).1.index = t.index := by
  rcases tcpConnectStart_cases net t p sk answers hclosed with
    ⟨t₁, heq, hconnects⟩ | ⟨t₁, errno, heq, ⟨-, rfl⟩ | hforgets⟩ | ⟨t₁, errno, heq, hconnects⟩
  · rw [heq]
    exact hconnects.index
  · rw [heq]
  · rw [heq, hforgets.tables]
  · rw [heq]
    exact hconnects.index

theorem World.Inv.indexMove_call (h : w.Inv net) (hp : w.socks p = some sk) (call : SetupCall) :
    IndexMove w (.call p call) (call.run net w p sk).1.tables.index := by
  obtain ⟨sk', -, hmove⟩ := h.call_move hp call
  generalize call.run net w p sk = done at hmove ⊢
  obtain ⟨⟨t', socks', tcpNext, udpNext⟩, result⟩ := done
  dsimp only at hmove ⊢
  cases hmove with
  | idle hidle => exact .same
  | binds hok hbinds => exact .binds hok hbinds
  | stays htcp hclosed => exact .same
  | @listens answers _ hclosed hlistens =>
    have hstep : t'.index = w.tables.index.step (.listen sk true) := by
      rw [BindIndex.step, hlistens.index]
    rw [hstep]
    exact .listen p sk answers rfl hp
  | @connects peer answers _ _ _ _ htcp hclosed hrun =>
    have haimed : (sk.aimedAt net peer).isTcp ∧ (sk.aimedAt net peer).status = .closed :=
      ⟨htcp, hclosed⟩
    rcases tcpConnectAimed_cases net w.tables p (sk.aimedAt net peer) (w.tcpNext sk.owner)
      answers haimed.1 (h.tcpNext sk.owner) with
      ⟨-, -, next', -, heq⟩ |
      ⟨-, -, port, next', -, -, ⟨errno, heq⟩ | ⟨t₁, hok, hbinds, t₂, sk₂, result, hstart, heq⟩⟩ |
      ⟨-, t₂, sk₂, result, hstart, heq⟩
    · cases heq.symm.trans hrun
      exact .same
    · cases heq.symm.trans hrun
      exact .same
    · cases heq.symm.trans hrun
      have hindex := tcpConnectStart_index net t₁ p answers
        (show (Nsock.bindTo { sk.aimedAt net peer with localPort := port } net.localIp
          port).status = .closed from hclosed)
      rw [hstart] at hindex
      rw [show t'.index = _ from hindex]
      exact .binds hok hbinds
    · cases heq.symm.trans hrun
      have hindex := tcpConnectStart_index net w.tables p answers haimed.2
      rw [hstart] at hindex
      rw [show t'.index = _ from hindex]
      exact .same

theorem tcpStreamSetStatus_index (t : Tables) (sk : Nsock) (status : Tcp.Status) :
    (tcpStreamSetStatus t sk status).1.index = t.index := by
  rw [tcpStreamSetStatus]
  split_ifs
  · rw [nsockTcpConnUnregister]
    split_ifs
    · rfl
    · rfl
  · rfl

theorem removeEntries_index (t : Tables) (sk : Nsock) :
    (removeEntries t sk).index = if sk.bound then t.index.socketBindRemove sk else t.index := by
  simp only [removeEntries]
  split_ifs <;> rfl

/-- Every event is at most one operation on the index. -/
theorem World.Inv.indexMove (h : w.Inv net) (e : SetupEvent) :
    IndexMove w e (w.step net e).tables.index := by
  cases e with
  | create p handle => exact .same
  | reuseAddr p enabled =>
    refine onSock_rule (P := fun w' => IndexMove w _ w'.tables.index) .same fun sk _ => ?_
    split_ifs
    · exact .same
    · exact .same
  | call p call =>
    exact onSock_rule (P := fun w' => IndexMove w _ w'.tables.index) .same
      fun sk hp => h.indexMove_call hp call
  | setStatus p status =>
    refine onSock_rule (P := fun w' => IndexMove w _ w'.tables.index) .same fun sk _ => ?_
    dsimp only
    rw [tcpStreamSetStatus_index]
    exact .same
  | passive p handle key answers =>
    rw [World.step, tcpStreamCreate]
    rcases nsockTcpConnRegister_cases net w.tables p (passiveSocket handle key) answers with
      ⟨t', e, heq, ⟨-, rfl⟩ | hforgets⟩ | ⟨t', heq, hconnects⟩
    · simp only [heq, nsockFree_passive]
      exact .same
    · simp only [heq, nsockFree_passive, hforgets.tables]
      exact .same
    · simp only [heq, hconnects.index]
      exact .same
  | free p =>
    refine onSock_rule (P := fun w' => IndexMove w _ w'.tables.index) .same fun sk _ => ?_
    dsimp only
    rw [nsockFree]
    split_ifs
    · rw [removeEntries_index, tcpStreamSetStatus_index]
      split_ifs
      · exact .remove _
      · exact .same
    · rw [removeEntries_index]
      split_ifs
      · exact .remove _
      · exact .same

/-- The indexes of a run are those of sequences of operations that meet a condition, if the calls of
`listen` in the run do. -/
theorem reach_bindSystem {ok : World → SetupEvent → Prop} {okOp : BindIndex → BindOp → Prop}
    (h : (setupSystem net).Reach ok w)
    (hadd : ∀ x sk ip port, okOp x (.add sk ip port true)) (hremove : ∀ x sk, okOp x (.remove sk))
    (hlisten : ∀ w p sk answers, w.Inv net → ok w (.call p (.listen answers)) →
      w.socks p = some sk → okOp w.tables.index (.listen sk true)) :
    bindSystem.Reach okOp w.tables.index := by
  induction h with
  | init hinit =>
    apply System.Reach.init
    rw [show _ = _ from hinit]
    rfl
  | @step w e hreach hen hok ih =>
    have hinv := World.reach_inv hreach
    have hmove := hinv.indexMove e
    change bindSystem.Reach okOp (w.step net e).tables.index
    generalize (w.step net e).tables.index = x at hmove ⊢
    cases hmove with
    | same => exact ih
    | add sk ip port => exact ih.after (.add sk ip port true) trivial (hadd _ sk ip port)
    | remove sk => exact ih.after (.remove sk) trivial (hremove _ sk)
    | listen p sk answers he hp =>
      subst he
      exact ih.after (.listen sk true) trivial (hlisten w p sk answers hinv hok hp)

/-- Two sockets that share a port: the first is bound to every address, the second to one that is
not the address of the stack.  A connect of the first fails, and both listen. -/
def overlappingListeners : List SetupEvent :=
  [.reuseAddr 0 true, .reuseAddr 1 true, .call 0 (.bind 0 0x5000 {}),
    .call 1 (.bind 0x0900000a 0x5000 {}),
    .call 0 (.connect (some (0x0200000a, 0x5000)) { syn := false }), .call 1 (.listen {}),
    .call 0 (.listen {})]

/-- The process with two new sockets. -/
def twoSockets : World := World.step oneWorker oneSocket (.create 1 (tcpHandle 1))

theorem twoSockets_reach : (setupSystem oneWorker).Reach (fun _ _ => True) twoSockets := by
  apply oneSocket_reach.after (.create 1 (tcpHandle 1)) ⟨rfl, ?_⟩ trivial
  intro q sk hq
  rcases Consistent.update_some hq with ⟨-, rfl⟩ | ⟨-, hnone⟩
  · decide
  · simp at hnone

/-- Both sockets listen, and their reservations overlap. -/
theorem reservations_overlapping_listeners :
    ∃ w, (setupSystem oneWorker).Reach (fun _ _ => True) w ∧
      bindSystem.Reach (fun _ _ => True) w.tables.index ∧
      w.tables.index.bindings (bucket ipprotoTcp 0x5000) =
        [{ handle := tcpHandle 1, ip := 0x0900000a, port := 0x5000, reuse := true,
            listener := true },
          { handle := tcpHandle 0, ip := 0, port := 0x5000, reuse := true, listener := true }] ∧
      ¬ w.tables.index.reservations.Pairwise Compatible := by
  have hreach : (setupSystem oneWorker).Reach (fun _ _ => True)
      ((setupSystem oneWorker).run twoSockets overlappingListeners) := by
    apply twoSockets_reach.run
    repeat' constructor
  have hbucket : ((setupSystem oneWorker).run twoSockets overlappingListeners).tables.index.bindings
      (bucket ipprotoTcp 0x5000) =
        [{ handle := tcpHandle 1, ip := 0x0900000a, port := 0x5000, reuse := true,
            listener := true },
          { handle := tcpHandle 0, ip := 0, port := 0x5000, reuse := true, listener := true }] := by
    decide +kernel
  refine ⟨_, hreach, ?_, hbucket, ?_⟩
  · exact reach_bindSystem hreach (fun _ _ _ _ => trivial) (fun _ _ => trivial)
      fun _ _ _ _ _ _ _ => trivial
  · intro hpairs
    rw [BindIndex.reservations, pairwise_flatMap] at hpairs
    have hpair := hpairs.1 (bucket ipprotoTcp 0x5000)
      (mem_range.mpr (Nat.mod_lt _ (by decide)))
    rw [hbucket, pairwise_pair] at hpair
    exact (hpair rfl rfl (by decide)).2.2 rfl ⟨rfl, rfl⟩

end SnowTG.Endpoint
