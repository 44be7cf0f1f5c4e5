import SnowTG.Owner.TxLists

/-!
# The transmit lists as lists

The registry represents a FIFO and one list per bucket.  Every operation is an
operation on these lists: an append at the tail, a push to the front of a bucket
or the removal of one socket.  Tickets grow along the sockets already visited and
then along the FIFO, so that drains visit sockets in the order of their appends.
-/

namespace SnowTG.Owner

open SnowTG.Lib SnowTG.Lib.Linked Function List

theorem update_true_iff {f : Nat → Bool} {a b : Nat} :
    update f a true b = true ↔ b = a ∨ f b = true := by
  by_cases hb : b = a
  · simp [hb]
  · simp [hb]

theorem update_false_iff {f : Nat → Bool} {a b : Nat} :
    update f a false b = true ↔ b ≠ a ∧ f b = true := by
  by_cases hb : b = a
  · simp [hb]
  · simp [hb]

/-- The registry represents these lists. -/
structure TxRegistry.Lists (r : TxRegistry) (fifo : List Nat) (waiting : BitVec 32 → List Nat) :
    Prop where
  chain : Segment r.links none fifo none
  head : r.dirtyTxHead = fifo.head?
  tail : r.dirtyTxTail = fifo.getLast?
  chains : ∀ bucket, Segment r.links none (waiting bucket) none
  heads : ∀ bucket, r.arpWait bucket = (waiting bucket).head?
  nodup : fifo.Nodup
  nodups : ∀ bucket, (waiting bucket).Nodup
  queued : ∀ sk, r.txDirtyQueued sk = true ↔ sk ∈ fifo
  placed : ∀ sk bucket, sk ∈ waiting bucket ↔
    r.txArpWaiting sk = true ∧ txArpBucket (r.txArpIp sk) = bucket
  apart : ∀ sk, r.txDirtyQueued sk = true → r.txArpWaiting sk = false
  bound : ∀ sk, r.txDirtyQueued sk = true ∨ r.txArpWaiting sk = true → sk < r.capacity
  depth : r.dirtyDepth = fifo.length
  order : (r.visited ++ fifo.map r.ticket).Pairwise (· < ·)
  drawn : ∀ n ∈ r.visited ++ fifo.map r.ticket, n < r.appended
  /-- A socket whose flush handler runs is a socket of the registry. -/
  flushing : ∀ sk flushed budget, r.phase = .flushing sk flushed budget → sk < r.capacity

namespace TxRegistry.Lists

variable {r : TxRegistry} {fifo : List Nat} {waiting : BitVec 32 → List Nat} {sk : Nat}
  {pre post : List Nat} {bucket : BitVec 32}

variable (h : r.Lists fifo waiting)
include h

theorem queued_false : r.txDirtyQueued sk = false ↔ sk ∉ fifo := by
  rw [← h.queued, Bool.not_eq_true]

theorem not_parked (hfree : r.txArpWaiting sk = false)
    (bucket : BitVec 32) : sk ∉ waiting bucket := by
  intro hmem
  have hparked := ((h.placed sk bucket).mp hmem).1
  cases hfree.symm.trans hparked

/-- A queued socket is in no bucket. -/
theorem disjoint (hsk : sk ∈ fifo) (bucket : BitVec 32) :
    sk ∉ waiting bucket :=
  h.not_parked (h.apart sk ((h.queued sk).mpr hsk)) bucket

/-- A socket is in one bucket at most. -/
theorem bucket_unique {bucket' : BitVec 32} (hsk : sk ∈ waiting bucket)
    (hsk' : sk ∈ waiting bucket') : bucket = bucket' :=
  ((h.placed sk bucket).mp hsk).2.symm.trans ((h.placed sk bucket').mp hsk').2

/-- The dirty FIFO gets a socket that is in no list at its tail. -/
theorem append (hdirty : r.txDirtyQueued sk = false)
    (hwaiting : r.txArpWaiting sk = false) (hlt : sk < r.capacity) :
    (dirtyFifoAppend r sk).Lists (fifo ++ [sk]) waiting := by
  have hsk : sk ∉ fifo := h.queued_false.mp hdirty
  have htickets : (fifo ++ [sk]).map (update r.ticket sk r.appended) =
      fifo.map r.ticket ++ [r.appended] := by
    rw [map_append, map_singleton, update_self]
    congr 1
    exact map_congr_left fun b hb => update_of_ne (ne_of_mem_of_not_mem hb hsk) _ _
  rw [dirtyFifoAppend, hdirty, hwaiting, if_neg (by simp)]
  refine ⟨?_, ?_, ?_, fun bucket => ?_, h.heads, ?_, h.nodups, fun b => ?_, h.placed,
    fun b hb => ?_, fun b hb => ?_, ?_, ?_, ?_, h.flushing⟩
  · rw [h.tail]
    exact h.chain.append_node h.nodup hsk
  · dsimp only
    rw [h.tail, h.head]
    cases fifo with
    | nil => rfl
    | cons first rest => simp
  · rw [List.getLast?_concat]
  · refine (h.chains bucket).congr fun b hb => appendLinks_of_ne ?_ ?_
    · rintro rfl
      exact h.not_parked hwaiting bucket hb
    · rw [h.tail]
      exact fun heq => h.disjoint (mem_of_getLast? heq) bucket hb
  · exact h.nodup.append (nodup_singleton sk) (by simpa using hsk)
  · rw [update_true_iff, h.queued, mem_append, mem_singleton, or_comm]
  · rcases update_true_iff.mp hb with rfl | hb
    · exact hwaiting
    · exact h.apart b hb
  · rcases hb with hb | hb
    · rcases update_true_iff.mp hb with rfl | hb
      · exact hlt
      · exact h.bound b (.inl hb)
    · exact h.bound b (.inr hb)
  · simp [h.depth]
  · rw [htickets, ← append_assoc, pairwise_append]
    refine ⟨h.order, pairwise_singleton _ _, fun n hn m hm => ?_⟩
    rw [mem_singleton.mp hm]
    exact h.drawn n hn
  · rw [htickets, ← append_assoc]
    intro n hn
    rcases mem_append.mp hn with hn | hn
    · exact (h.drawn n hn).trans (Nat.lt_succ_self _)
    · rw [mem_singleton.mp hn]
      exact Nat.lt_succ_self _

omit h in
/-- A queued socket leaves the FIFO. -/
theorem unlinkDirty (h : r.Lists (pre ++ sk :: post) waiting) :
    (dirtyFifoUnlink r sk).Lists (pre ++ post) waiting := by
  have hmem : sk ∈ pre ++ sk :: post := mem_append_right _ mem_cons_self
  have hdirty : r.txDirtyQueued sk = true := (h.queued sk).mpr hmem
  have hlinks := h.chain.links_mid
  have hsub : (pre ++ post).Sublist (pre ++ sk :: post) :=
    (List.Sublist.refl pre).append (sublist_cons_self sk post)
  have hsk : sk ∉ pre ++ post := (nodup_middle.mp h.nodup).notMem
  have htickets := (List.Sublist.refl r.visited).append (hsub.map r.ticket)
  rw [dirtyFifoUnlink, hdirty, Bool.not_true, if_neg Bool.false_ne_true, hlinks]
  refine ⟨h.chain.unlink_node h.nodup, ?_, ?_, fun bucket => ?_, h.heads, h.nodup.sublist hsub,
    h.nodups, fun b => ?_, h.placed, fun b hb => ?_, fun b hb => ?_, ?_,
    h.order.sublist htickets, fun n hn => h.drawn n (htickets.subset hn), h.flushing⟩
  · dsimp only
    rw [h.head]
    cases pre with
    | nil => simp
    | cons first rest => simp
  · dsimp only
    rw [h.tail]
    cases post with
    | nil => simp
    | cons first rest => simp [List.getLast?_append, List.getLast?_cons]
  · exact (h.chains bucket).unlink_apart h.chain fun b hb hin => h.disjoint hin bucket hb
  · rw [update_false_iff, h.queued]
    constructor
    · rintro ⟨hne, hin⟩
      simpa [hne] using hin
    · exact fun hin => ⟨ne_of_mem_of_not_mem hin hsk, hsub.subset hin⟩
  · exact h.apart b (update_false_iff.mp hb).2
  · exact h.bound b (hb.imp (fun hb => (update_false_iff.mp hb).2) id)
  · have hdepth := h.depth
    simp only [length_append, length_cons] at hdepth ⊢
    split_ifs <;> omega

/-- A parked socket leaves its bucket. -/
theorem unlinkParked (hlist : waiting bucket = pre ++ sk :: post) :
    (arpWaitUnlink r sk).Lists fifo (update waiting bucket (pre ++ post)) := by
  have hmem : sk ∈ waiting bucket := by
    rw [hlist]
    exact mem_append_right _ mem_cons_self
  obtain ⟨hwaiting, hbucket⟩ := (h.placed sk bucket).mp hmem
  have hchain := h.chains bucket
  have hnodup := h.nodups bucket
  rw [hlist] at hchain hnodup
  have hlinks := hchain.links_mid
  have hsub : (pre ++ post).Sublist (waiting bucket) := by
    rw [hlist]
    exact (List.Sublist.refl pre).append (sublist_cons_self sk post)
  have hsk : sk ∉ pre ++ post := (nodup_middle.mp hnodup).notMem
  rw [arpWaitUnlink, hwaiting, Bool.not_true, if_neg Bool.false_ne_true, hlinks, hbucket]
  refine ⟨?_, h.head, h.tail, fun other => ?_, fun other => ?_, h.nodup, fun other => ?_, h.queued,
    fun b other => ?_, fun b hb => ?_, fun b hb => ?_, h.depth, h.order, h.drawn, h.flushing⟩
  · refine h.chain.unlink_apart hchain fun b hb hin => h.disjoint hb bucket ?_
    rwa [hlist]
  · by_cases hother : other = bucket
    · rw [hother, update_self]
      exact hchain.unlink_node hnodup
    · rw [update_of_ne hother]
      refine (h.chains other).unlink_apart hchain fun b hb hin => hother ?_
      exact h.bucket_unique hb (by rwa [hlist])
  · have hhead := h.heads other
    dsimp only
    by_cases hother : other = bucket
    · rw [hother, hlist] at hhead
      rw [hother, update_self]
      cases pre with
      | nil => simp
      | cons first rest => simpa using hhead
    · rw [update_of_ne hother]
      split_ifs
      · exact hhead
      · rwa [update_of_ne hother]
  · by_cases hother : other = bucket
    · rw [hother, update_self]
      exact (h.nodups bucket).sublist hsub
    · rw [update_of_ne hother]
      exact h.nodups other
  · rw [update_false_iff]
    by_cases hb : b = sk
    · -- the socket itself was in this bucket only
      have hgone : b ∉ update waiting bucket (pre ++ post) other := by
        rw [hb]
        by_cases hother : other = bucket
        · rwa [hother, update_self]
        · rw [update_of_ne hother]
          exact fun hin => hother (h.bucket_unique hin hmem)
      exact ⟨fun hin => absurd hin hgone, fun hin => absurd hb hin.1.1⟩
    · dsimp only
      rw [update_of_ne hb]
      by_cases hother : other = bucket
      · rw [hother, update_self]
        have hkept : b ∈ pre ++ post ↔ b ∈ waiting bucket := by
          rw [hlist]
          simp [hb]
        rw [hkept, h.placed]
        simp [hb]
      · rw [update_of_ne hother, h.placed]
        simp [hb]
  · have hfree := h.apart b hb
    dsimp only
    by_cases hbs : b = sk
    · rw [hbs, update_self]
    · rwa [update_of_ne hbs]
  · exact h.bound b (hb.imp id fun hb => (update_false_iff.mp hb).2)

/-- The address of a socket that is not parked does not matter. -/
theorem retag (hwaiting : r.txArpWaiting sk = false) (ip : BitVec 32) :
    { r with txArpIp := update r.txArpIp sk ip }.Lists fifo waiting := by
  refine { h with placed := fun b bucket => ?_ }
  rw [h.placed]
  by_cases hb : b = sk
  · rw [hb, hwaiting]
    simp
  · dsimp only
    rw [update_of_ne hb]

/-- A socket that is in no list is parked at the front of the bucket of its address. -/
theorem park (hdirty : r.txDirtyQueued sk = false)
    (hwaiting : r.txArpWaiting sk = false) (hlt : sk < r.capacity)
    (hbucket : txArpBucket (r.txArpIp sk) = bucket) :
    (arpWaitLink r sk).Lists fifo (update waiting bucket (sk :: waiting bucket)) := by
  have hsk : sk ∉ waiting bucket := h.not_parked hwaiting bucket
  rw [arpWaitLink, hbucket, h.heads]
  refine ⟨?_, h.head, h.tail, fun other => ?_, fun other => ?_, h.nodup, fun other => ?_, h.queued,
    fun b other => ?_, fun b hb => ?_, fun b hb => ?_, h.depth, h.order, h.drawn, h.flushing⟩
  · refine h.chain.congr fun b hb => pushLinks_of_ne ?_ ?_
    · rintro rfl
      exact h.queued_false.mp hdirty hb
    · exact fun heq => h.disjoint hb bucket (mem_of_head? heq)
  · by_cases hother : other = bucket
    · rw [hother, update_self]
      exact (h.chains bucket).push_node (h.nodups bucket) hsk
    · rw [update_of_ne hother]
      refine (h.chains other).congr fun b hb => pushLinks_of_ne ?_ ?_
      · rintro rfl
        exact h.not_parked hwaiting other hb
      · exact fun heq => hother (h.bucket_unique hb (mem_of_head? heq))
  · dsimp only
    by_cases hother : other = bucket
    · rw [hother, update_self, update_self]
      rfl
    · rw [update_of_ne hother, update_of_ne hother]
      exact h.heads other
  · by_cases hother : other = bucket
    · rw [hother, update_self]
      exact nodup_cons.mpr ⟨hsk, h.nodups bucket⟩
    · rw [update_of_ne hother]
      exact h.nodups other
  · rw [update_true_iff]
    by_cases hother : other = bucket
    · rw [hother, update_self, mem_cons, h.placed]
      constructor
      · rintro (rfl | hin)
        · exact ⟨.inl rfl, hbucket⟩
        · exact ⟨.inr hin.1, hin.2⟩
      · rintro ⟨rfl | hin, hplace⟩
        · exact .inl rfl
        · exact .inr ⟨hin, hplace⟩
    · rw [update_of_ne hother, h.placed]
      constructor
      · exact fun hin => ⟨.inr hin.1, hin.2⟩
      · rintro ⟨rfl | hin, hplace⟩
        · exact absurd (hplace.symm.trans hbucket) hother
        · exact ⟨hin, hplace⟩
  · have hfree := h.apart b hb
    dsimp only at hb ⊢
    by_cases hbs : b = sk
    · rw [hbs, hdirty] at hb
      exact Bool.noConfusion hb
    · rwa [update_of_ne hbs]
  · rcases hb with hb | hb
    · exact h.bound b (.inl hb)
    · rcases update_true_iff.mp hb with rfl | hb
      · exact hlt
      · exact h.bound b (.inr hb)

end TxRegistry.Lists

section Frame

variable (r : TxRegistry) (sk : Nat)

theorem dirtyFifoAppend_txArpIp : (dirtyFifoAppend r sk).txArpIp = r.txArpIp := by
  rw [dirtyFifoAppend]
  split_ifs <;> rfl

theorem dirtyFifoUnlink_frame :
    (dirtyFifoUnlink r sk).capacity = r.capacity ∧
      (dirtyFifoUnlink r sk).txDirtyQueued sk = false ∧
      (dirtyFifoUnlink r sk).txArpWaiting = r.txArpWaiting := by
  rw [dirtyFifoUnlink]
  by_cases hdirty : (!r.txDirtyQueued sk) = true
  · rw [if_pos hdirty]
    exact ⟨rfl, by simpa using hdirty, rfl⟩
  · rw [if_neg hdirty]
    exact ⟨rfl, update_self .., rfl⟩

theorem arpWaitUnlink_frame :
    (arpWaitUnlink r sk).capacity = r.capacity ∧ (arpWaitUnlink r sk).txArpWaiting sk = false ∧
      (arpWaitUnlink r sk).txDirtyQueued = r.txDirtyQueued ∧
      ∀ b ≠ sk, (arpWaitUnlink r sk).txArpIp b = r.txArpIp b := by
  rw [arpWaitUnlink]
  by_cases hwaiting : (!r.txArpWaiting sk) = true
  · rw [if_pos hwaiting]
    exact ⟨rfl, by simpa using hwaiting, rfl, fun _ _ => rfl⟩
  · rw [if_neg hwaiting]
    exact ⟨rfl, update_self .., rfl, fun b hb => update_of_ne hb _ _⟩

end Frame

section Operations

variable {r : TxRegistry} {fifo : List Nat} {waiting : BitVec 32 → List Nat} {sk : Nat}

/-- The registry represents some lists. -/
def TxRegistry.Listed (r : TxRegistry) : Prop := ∃ fifo waiting, r.Lists fifo waiting

theorem leaveDirty (h : r.Lists fifo waiting) (sk : Nat) :
    ∃ fifo', (if r.txDirtyQueued sk then dirtyFifoUnlink r sk else r).Lists fifo' waiting := by
  split_ifs with hdirty
  · obtain ⟨pre, post, rfl⟩ := append_of_mem ((h.queued sk).mp hdirty)
    exact ⟨pre ++ post, h.unlinkDirty⟩
  · exact ⟨fifo, h⟩

theorem leaveParked (h : r.Lists fifo waiting) (sk : Nat) :
    ∃ waiting', (if r.txArpWaiting sk then arpWaitUnlink r sk else r).Lists fifo waiting' := by
  split_ifs with hwaiting
  · have hmem := (h.placed sk (txArpBucket (r.txArpIp sk))).mpr ⟨hwaiting, rfl⟩
    obtain ⟨pre, post, hlist⟩ := append_of_mem hmem
    exact ⟨_, h.unlinkParked hlist⟩
  · exact ⟨waiting, h⟩

/-- Behind either of the two removals, the socket is not in that list any more. -/
theorem leaveDirty_frame (r : TxRegistry) (sk : Nat) :
    (if r.txDirtyQueued sk then dirtyFifoUnlink r sk else r).capacity = r.capacity ∧
      (if r.txDirtyQueued sk then dirtyFifoUnlink r sk else r).txDirtyQueued sk = false ∧
      (if r.txDirtyQueued sk then dirtyFifoUnlink r sk else r).txArpWaiting = r.txArpWaiting := by
  split_ifs with hdirty
  · exact dirtyFifoUnlink_frame r sk
  · exact ⟨rfl, by simpa using hdirty, rfl⟩

theorem leaveParked_frame (r : TxRegistry) (sk : Nat) :
    (if r.txArpWaiting sk then arpWaitUnlink r sk else r).capacity = r.capacity ∧
      (if r.txArpWaiting sk then arpWaitUnlink r sk else r).txArpWaiting sk = false ∧
      (if r.txArpWaiting sk then arpWaitUnlink r sk else r).txDirtyQueued = r.txDirtyQueued := by
  split_ifs with hwaiting
  · obtain ⟨hsame, hfree, hdirty, -⟩ := arpWaitUnlink_frame r sk
    exact ⟨hsame, hfree, hdirty⟩
  · exact ⟨rfl, by simpa using hwaiting, rfl⟩

theorem markDirty_lists (h : r.Lists fifo waiting) (hlt : sk < r.capacity) :
    (nsockTxMarkDirty r sk).Lists
      (if r.txDirtyQueued sk || r.txArpWaiting sk then fifo else fifo ++ [sk]) waiting := by
  rw [nsockTxMarkDirty]
  split_ifs with hlisted
  · exact h
  · simp only [Bool.or_eq_true, not_or, Bool.not_eq_true] at hlisted
    exact h.append hlisted.1 hlisted.2 hlt

theorem unlink_listed (h : r.Listed) (sk : Nat) : (nsockTxDirtyUnlink r sk).Listed := by
  obtain ⟨fifo, waiting, h⟩ := h
  obtain ⟨fifo', hclean⟩ := leaveDirty h sk
  obtain ⟨-, hdirty, -⟩ := leaveDirty_frame r sk
  rw [nsockTxDirtyUnlink]
  generalize (if r.txDirtyQueued sk then dirtyFifoUnlink r sk else r) = r₁ at hclean hdirty ⊢
  obtain ⟨waiting', hfree⟩ := leaveParked hclean sk
  obtain ⟨-, hwaiting, hsame⟩ := leaveParked_frame r₁ sk
  generalize (if r₁.txArpWaiting sk then arpWaitUnlink r₁ sk else r₁) = r₂
    at hfree hwaiting hsame ⊢
  rw [← hsame] at hdirty
  refine ⟨fifo', waiting', ?_⟩
  have hkept := hfree.retag hwaiting 0
  -- both flags are already clear
  have hflags : update r₂.txDirtyQueued sk false = r₂.txDirtyQueued ∧
      update r₂.txArpWaiting sk false = r₂.txArpWaiting := by
    constructor
    · rw [← hdirty, update_eq_self]
    · rw [← hwaiting, update_eq_self]
  rw [hflags.1, hflags.2]
  exact hkept

theorem arpWait_listed (h : r.Listed) (hlt : sk < r.capacity) (remoteIp : BitVec 32) :
    (nsockTxArpWait r sk remoteIp).Listed := by
  obtain ⟨fifo, waiting, h⟩ := h
  obtain ⟨waiting', hclean⟩ := leaveParked h sk
  obtain ⟨hsame, hwaiting, -⟩ := leaveParked_frame r sk
  rw [nsockTxArpWait]
  generalize (if r.txArpWaiting sk then arpWaitUnlink r sk else r) = r₁
    at hclean hwaiting hsame ⊢
  obtain ⟨fifo', hfree⟩ := leaveDirty hclean sk
  obtain ⟨hsame', hdirty, hkept⟩ := leaveDirty_frame r₁ sk
  generalize (if r₁.txDirtyQueued sk then dirtyFifoUnlink r₁ sk else r₁) = r₂
    at hfree hdirty hkept hsame' ⊢
  rw [← hkept] at hwaiting
  have hcapacity : sk < r₂.capacity := by
    rw [hsame', hsame]
    exact hlt
  exact ⟨fifo', _, (hfree.retag hwaiting remoteIp).park hdirty hwaiting hcapacity rfl⟩

/-- The sockets of a bucket that wait for this address move to the tail of the FIFO, in the order of
the bucket; the others stay. -/
theorem resolveFrom_lists {remoteIp : BitVec 32} {rounds : Nat} {kept rest : List Nat}
    (h : r.Lists fifo waiting) (hlist : waiting (txArpBucket remoteIp) = kept ++ rest)
    (hrounds : rest.length ≤ rounds) :
    (resolveFrom remoteIp rounds rest.head? r).Lists
      (fifo ++ rest.filter fun sk => r.txArpIp sk = remoteIp)
      (update waiting (txArpBucket remoteIp)
        (kept ++ rest.filter fun sk => r.txArpIp sk ≠ remoteIp)) := by
  induction rest generalizing r fifo waiting kept rounds with
  | nil =>
    have hdone : resolveFrom remoteIp rounds none r = r := by
      cases rounds with
      | zero => rfl
      | succ rounds => rfl
    rw [append_nil] at hlist
    rw [List.head?_nil, hdone, filter_nil, filter_nil, append_nil, append_nil,
      ← hlist, update_eq_self]
    exact h
  | cons sk rest ih =>
    obtain ⟨rounds, rfl⟩ : ∃ n, rounds = n + 1 := by
      rw [length_cons] at hrounds
      exact ⟨rounds - 1, by omega⟩
    have hchain := h.chains (txArpBucket remoteIp)
    have hnodup := h.nodups (txArpBucket remoteIp)
    rw [hlist] at hchain hnodup
    have hnext : (r.links sk).next = rest.head? := by rw [hchain.links_mid]
    have hsk : sk ∉ rest := (nodup_cons.mp (nodup_append.mp hnodup).2.1).1
    have hfew : rest.length ≤ rounds := by simpa using hrounds
    rw [List.head?_cons, resolveFrom, hnext]
    by_cases hip : r.txArpIp sk = remoteIp
    · rw [if_pos hip, filter_cons_of_pos (by simpa using hip),
        filter_cons_of_neg (by simpa using hip)]
      have hparked := (h.placed sk (txArpBucket remoteIp)).mp (by rw [hlist]; simp)
      have hfree := h.unlinkParked hlist
      obtain ⟨hsame, hwaiting, hdirty, hips⟩ := arpWaitUnlink_frame r sk
      have hclean : (arpWaitUnlink r sk).txDirtyQueued sk = false := by
        rw [hdirty]
        exact Bool.eq_false_iff.mpr fun hqueued =>
          Bool.noConfusion ((h.apart sk hqueued).symm.trans hparked.1)
      have hlt : sk < (arpWaitUnlink r sk).capacity := by
        rw [hsame]
        exact h.bound sk (.inr hparked.1)
      have hmoved := hfree.append hclean hwaiting hlt
      have hrest := ih hmoved (by rw [update_self]) hfew
      have htags : ∀ b ∈ rest, (dirtyFifoAppend (arpWaitUnlink r sk) sk).txArpIp b =
          r.txArpIp b := by
        intro b hb
        rw [dirtyFifoAppend_txArpIp]
        exact hips b (ne_of_mem_of_not_mem hb hsk)
      have hmine : (rest.filter fun b =>
          (dirtyFifoAppend (arpWaitUnlink r sk) sk).txArpIp b = remoteIp) =
            rest.filter fun b => r.txArpIp b = remoteIp :=
        filter_congr fun b hb => by rw [htags b hb]
      have hothers : (rest.filter fun b =>
          (dirtyFifoAppend (arpWaitUnlink r sk) sk).txArpIp b ≠ remoteIp) =
            rest.filter fun b => r.txArpIp b ≠ remoteIp :=
        filter_congr fun b hb => by rw [htags b hb]
      rwa [update_idem, append_assoc, hmine, hothers] at hrest
    · rw [if_neg hip, filter_cons_of_neg (by simpa using hip),
        filter_cons_of_pos (by simpa using hip)]
      have hrest := @ih r fifo waiting rounds (kept ++ [sk]) h (by rw [hlist]; simp) hfew
      rwa [append_assoc, singleton_append] at hrest

theorem TxRegistry.Lists.setPhase (h : r.Lists fifo waiting) {phase : DrainPhase}
    (hphase : ∀ sk flushed budget, phase ≠ .flushing sk flushed budget) :
    { r with phase := phase }.Lists fifo waiting :=
  { h with flushing := fun sk flushed budget heq => absurd heq (hphase sk flushed budget) }

/-- A drain with budget left takes the head of the FIFO, notes it as visited and calls its flush
handler. -/
theorem TxRegistry.Lists.visit (h : r.Lists (sk :: fifo) waiting) (hasFlush : Bool)
    {flushed budget : Nat} (hmore : flushed < budget) :
    (drainVisit r hasFlush flushed budget).Lists fifo waiting ∧
      (drainVisit r hasFlush flushed budget).visited = r.visited ++ [r.ticket sk] ∧
      (drainVisit r hasFlush flushed budget).phase =
        if hasFlush then .flushing sk flushed budget else .scanning flushed budget := by
  have hdirty : r.txDirtyQueued sk = true := (h.queued sk).mpr mem_cons_self
  have hpop : r.Lists ([] ++ sk :: fifo) waiting := h
  have hrest : (dirtyFifoUnlink r sk).Lists fifo waiting := hpop.unlinkDirty
  rw [drainVisit, if_pos hmore, dirtyFifoPop, h.head]
  simp only [List.head?_cons]
  rw [dirtyFifoUnlink, hdirty, Bool.not_true, if_neg Bool.false_ne_true] at hrest ⊢
  refine ⟨{ hrest with order := ?_, drawn := ?_, flushing := ?_ }, rfl, trivial⟩
  · dsimp only
    rw [append_assoc, singleton_append]
    exact h.order
  · dsimp only
    rw [append_assoc, singleton_append]
    exact h.drawn
  · intro other flushed' budget' hphase
    cases hasFlush <;> cases hphase
    exact h.bound sk (.inl hdirty)

theorem visit_listed (h : r.Listed) (hasFlush : Bool) (flushed budget : Nat) :
    (drainVisit r hasFlush flushed budget).Listed := by
  obtain ⟨fifo, waiting, h⟩ := h
  by_cases hmore : flushed < budget
  · cases fifo with
    | nil =>
      rw [drainVisit, if_pos hmore, dirtyFifoPop, h.head]
      exact ⟨[], waiting, h.setPhase nofun⟩
    | cons sk rest => exact ⟨rest, waiting, (h.visit hasFlush hmore).1⟩
  · rw [drainVisit, if_neg hmore]
    exact ⟨fifo, waiting, h.setPhase nofun⟩

theorem result_listed (h : r.Listed) {flushed budget : Nat}
    (hphase : r.phase = .flushing sk flushed budget) (result : FlushResult) :
    (drainResult r sk flushed budget result).Listed := by
  obtain ⟨fifo, waiting, h⟩ := h
  have hlt := h.flushing sk flushed budget hphase
  have hscans : { r with phase := .scanning (flushed + 1) budget }.Lists fifo waiting :=
    h.setPhase nofun
  rw [drainResult]
  dsimp only
  split_ifs with hgone hagain
  · exact ⟨fifo, waiting, hscans⟩
  · simp only [Bool.and_eq_true, Bool.not_eq_true'] at hagain
    exact ⟨fifo ++ [sk], waiting, hscans.append hagain.1.1 hagain.1.2 hlt⟩
  · exact ⟨fifo, waiting, hscans⟩

theorem TxRegistry.length_le_capacity {l : List Nat} (hnodup : l.Nodup)
    (hbound : ∀ sk ∈ l, sk < r.capacity) : l.length ≤ r.capacity := by
  have hsub : l.Subperm (List.range r.capacity) :=
    hnodup.subperm fun sk hsk => mem_range.mpr (hbound sk hsk)
  rw [← @length_range r.capacity]
  exact hsub.length_le

variable (h : r.Lists fifo waiting)
include h

theorem TxRegistry.Lists.bucket_length_le (bucket : BitVec 32) :
    (waiting bucket).length ≤ r.capacity := by
  apply TxRegistry.length_le_capacity (h.nodups bucket)
  exact fun sk hsk => h.bound sk (.inr ((h.placed sk bucket).mp hsk).1)

/-- Following the pointers gives the lists. -/
theorem TxRegistry.Lists.fifo_eq : r.fifo = fifo := by
  rw [TxRegistry.fifo, h.head]
  apply follow_segment h.chain
  exact TxRegistry.length_le_capacity h.nodup fun sk hsk => h.bound sk (.inl ((h.queued sk).mpr hsk))

theorem TxRegistry.Lists.parked_eq (bucket : BitVec 32) :
    r.parked bucket = waiting bucket := by
  rw [TxRegistry.parked, h.heads]
  exact follow_segment (h.chains bucket) (h.bucket_length_le bucket)

/-- A resolved address moves its waiting sockets behind the dirty ones. -/
theorem resolved_lists (remoteIp : BitVec 32) :
    (nsockTxArpResolved r remoteIp).Lists
      (fifo ++ (waiting (txArpBucket remoteIp)).filter fun sk => r.txArpIp sk = remoteIp)
      (update waiting (txArpBucket remoteIp)
        ((waiting (txArpBucket remoteIp)).filter fun sk => r.txArpIp sk ≠ remoteIp)) := by
  rw [nsockTxArpResolved, h.heads]
  exact resolveFrom_lists h (nil_append _).symm (h.bucket_length_le _)

end Operations

section Runs

variable {r : TxRegistry} {sk : Nat}

/-- Every call keeps the flags and links those of a FIFO and lists. -/
theorem txStep_listed {e : TxEvent} (h : r.Listed) (henabled : txSystem.enabled r e) :
    (txStep r e).Listed := by
  cases e with
  | markDirty sk =>
    obtain ⟨fifo, waiting, hlists⟩ := h
    exact ⟨_, _, markDirty_lists hlists henabled.2⟩
  | unlink sk => exact unlink_listed h sk
  | arpWait sk remoteIp => exact arpWait_listed h henabled.2 remoteIp
  | arpResolved remoteIp =>
    obtain ⟨fifo, waiting, hlists⟩ := h
    exact ⟨_, _, resolved_lists hlists remoteIp⟩
  | drain budget =>
    obtain ⟨fifo, waiting, hlists⟩ := h
    exact ⟨fifo, waiting, hlists.setPhase nofun⟩
  | visit hasFlush =>
    rw [txStep]
    split
    · next flushed budget _ => exact visit_listed h hasFlush flushed budget
    · exact h
  | flushReturns result =>
    rw [txStep]
    split
    · next hphase => exact result_listed h hphase result
    · exact h

theorem listed_of_reach (h : txSystem.Reach (fun _ _ => True) r) : r.Listed := by
  apply h.invariant
  · rintro r ⟨capacity, rfl⟩
    exact ⟨[], fun _ => [], trivial, rfl, rfl, fun _ => trivial, fun _ => rfl, nodup_nil,
      fun _ => nodup_nil, by simp, by simp, fun _ _ => rfl, by simp, rfl, List.Pairwise.nil,
      by simp, nofun⟩
  · intro r e hinv henabled _
    exact txStep_listed hinv henabled

/-- The lists, the flags and the counter agree, and tickets grow along the sockets visited so far
and then along the FIFO. -/
structure TxRegistry.Consistent (r : TxRegistry) : Prop where
  nodup : r.fifo.Nodup
  nodups : ∀ bucket, (r.parked bucket).Nodup
  apart : ∀ sk ∈ r.fifo, ∀ bucket, sk ∉ r.parked bucket
  place : ∀ bucket, ∀ sk ∈ r.parked bucket, txArpBucket (r.txArpIp sk) = bucket
  queued : ∀ sk, r.txDirtyQueued sk = true ↔ sk ∈ r.fifo
  waiting : ∀ sk, r.txArpWaiting sk = true ↔ sk ∈ r.parked (txArpBucket (r.txArpIp sk))
  depth : r.dirtyDepth = r.fifo.length
  order : (r.visited ++ r.fifo.map r.ticket).Pairwise (· < ·)

theorem TxRegistry.Lists.consistent {fifo : List Nat} {waiting : BitVec 32 → List Nat}
    (h : r.Lists fifo waiting) : r.Consistent := by
  have hfifo := h.fifo_eq
  have hparked := h.parked_eq
  refine ⟨hfifo ▸ h.nodup, fun bucket => hparked bucket ▸ h.nodups bucket, ?_, ?_, ?_, ?_, ?_, ?_⟩
  · intro sk hsk bucket
    rw [hparked]
    exact h.disjoint (hfifo ▸ hsk) bucket
  · intro bucket sk hsk
    rw [hparked] at hsk
    exact ((h.placed sk bucket).mp hsk).2
  · intro sk
    rw [hfifo]
    exact h.queued sk
  · intro sk
    rw [hparked, h.placed]
    simp
  · rw [hfifo]
    exact h.depth
  · rw [hfifo]
    exact h.order

/-- In every state that any sequence of calls, handlers and drains leads to, the lists are
consistent; marking an unlisted socket appends it; resolving an address appends the sockets parked
for it, each once; and a drain takes the head. -/
theorem tx_lists_consistent (h : txSystem.Reach (fun _ _ => True) r) :
    r.Consistent ∧
    (∀ sk < r.capacity, sk ∉ r.fifo → (∀ bucket, sk ∉ r.parked bucket) →
      (nsockTxMarkDirty r sk).fifo = r.fifo ++ [sk]) ∧
    (∀ remoteIp,
      (nsockTxArpResolved r remoteIp).fifo =
        r.fifo ++ (r.parked (txArpBucket remoteIp)).filter (fun sk => r.txArpIp sk = remoteIp) ∧
      (nsockTxArpResolved r remoteIp).parked (txArpBucket remoteIp) =
        (r.parked (txArpBucket remoteIp)).filter fun sk => r.txArpIp sk ≠ remoteIp) ∧
    ∀ sk rest hasFlush flushed budget, r.fifo = sk :: rest → flushed < budget →
      (drainVisit r hasFlush flushed budget).fifo = rest ∧
      (drainVisit r hasFlush flushed budget).visited = r.visited ++ [r.ticket sk] ∧
      (drainVisit r hasFlush flushed budget).phase =
        if hasFlush then .flushing sk flushed budget else .scanning flushed budget := by
  obtain ⟨fifo, waiting, hlists⟩ := listed_of_reach h
  have hconsistent := hlists.consistent
  refine ⟨hconsistent, ?_, ?_, ?_⟩
  · intro sk hlt hfifo hparked
    have hdirty : r.txDirtyQueued sk = false :=
      Bool.eq_false_iff.mpr fun hqueued => hfifo ((hconsistent.queued sk).mp hqueued)
    have hwaiting : r.txArpWaiting sk = false :=
      Bool.eq_false_iff.mpr fun hwaits => hparked _ ((hconsistent.waiting sk).mp hwaits)
    have hmarked := markDirty_lists hlists hlt
    rw [hdirty, hwaiting] at hmarked
    rw [hmarked.fifo_eq, hlists.fifo_eq]
    rfl
  · intro remoteIp
    have hresolved := resolved_lists hlists remoteIp
    rw [hresolved.fifo_eq, hresolved.parked_eq, hlists.fifo_eq, hlists.parked_eq,
      update_self]
    exact ⟨rfl, rfl⟩
  · intro sk rest hasFlush flushed budget hfifo hmore
    rw [hlists.fifo_eq] at hfifo
    subst hfifo
    obtain ⟨hrest, hvisited, hphase⟩ := hlists.visit hasFlush hmore
    exact ⟨hrest.fifo_eq, hvisited, hphase⟩

/-- Three sockets: one is parked and resolved while the handler of another runs. -/
def threeSockets : List TxEvent :=
  [.markDirty 0, .markDirty 1, .drain 2, .visit true, .markDirty 2, .arpWait 0 7,
    .flushReturns .arpWait, .visit true, .arpResolved 7, .flushReturns .retry, .visit true]

/-- The socket that asked to be visited again stands behind the one resolved meanwhile. -/
theorem tx_lists_consistent_three :
    (txSystem.run { capacity := 3 } threeSockets).fifo = [2, 0, 1] ∧
      (txSystem.run { capacity := 3 } threeSockets).visited = [0, 1] ∧
      (txSystem.run { capacity := 3 } threeSockets).Consistent := by
  have hreach : txSystem.Reach (fun _ _ => True)
      (txSystem.run { capacity := 3 } threeSockets) :=
    System.Reach.run (.init ⟨3, rfl⟩) (by decide)
  exact ⟨by decide, by decide, (tx_lists_consistent hreach).1⟩

end Runs

end SnowTG.Owner
