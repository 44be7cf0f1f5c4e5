import Mathlib

/-!
# Loops that can be left early

A loop over a list threads a state and an accumulator; its body leaves the loop
by giving no accumulator.  A loop without a list repeats its body until the body
gives a result, for at most a given number of rounds.
-/

namespace SnowTG.Lib

universe u v w

variable {α : Type u} {State : Type v} {Acc : Type w}

/-- Run the body on each element in turn; stop as soon as it gives no accumulator. -/
def tryEach (body : α → State → Acc → Option Acc × State) :
    List α → State → Acc → Option Acc × State
  | [], s, acc => (some acc, s)
  | a :: rest, s, acc =>
    match body a s acc with
    | (none, s) => (none, s)
    | (some acc, s) => tryEach body rest s acc

variable {body : α → State → Acc → Option Acc × State} {a : α} {s s' : State} {acc acc' : Acc}

@[simp] theorem tryEach_nil : tryEach body [] s acc = (some acc, s) := rfl

theorem tryEach_cons_none (rest : List α) (h : body a s acc = (none, s')) :
    tryEach body (a :: rest) s acc = (none, s') := by
  rw [tryEach, h]

theorem tryEach_cons_some (rest : List α) (h : body a s acc = (some acc', s')) :
    tryEach body (a :: rest) s acc = tryEach body rest s' acc' := by
  rw [tryEach, h]

/-- What the body keeps, the loop keeps. -/
theorem tryEach_invariant {P : State → Prop} (hbody : ∀ a s acc, P s → P (body a s acc).2)
    (l : List α) (h : P s) : P (tryEach body l s acc).2 := by
  induction l generalizing s acc with
  | nil => exact h
  | cons a rest ih =>
    have hnext := hbody a s acc h
    rw [tryEach]
    cases hround : body a s acc with
    | mk result next =>
      rw [hround] at hnext
      cases result with
      | none => exact hnext
      | some acc => exact ih hnext

/-- Repeat the body until it gives a result; none if the rounds run out. -/
def repeatUntil {Res : Type w} (body : State → Option Res × State) :
    Nat → State → Option Res × State
  | 0, s => (none, s)
  | rounds + 1, s =>
    match body s with
    | (some result, s) => (some result, s)
    | (none, s) => repeatUntil body rounds s

/-- What the body keeps, the loop keeps. -/
theorem repeatUntil_invariant {Res : Type w} {body : State → Option Res × State}
    {P : State → Prop} (hbody : ∀ s, P s → P (body s).2) (rounds : Nat) (h : P s) :
    P (repeatUntil body rounds s).2 := by
  induction rounds generalizing s with
  | zero => exact h
  | succ rounds ih =>
    have hnext := hbody s h
    rw [repeatUntil]
    cases hround : body s with
    | mk result next =>
      rw [hround] at hnext
      cases result with
      | some result => exact hnext
      | none => exact ih hnext

/-- What the body keeps as long as it gives no result decides what holds at its result. -/
theorem repeatUntil_result {Res : Type w} {body : State → Option Res × State} {P : State → Prop}
    {Q : Res → State → Prop} (hnext : ∀ s s', P s → body s = (none, s') → P s')
    (hresult : ∀ s s' result, P s → body s = (some result, s') → Q result s') {rounds : Nat}
    {result : Res} (h : P s) (hrun : repeatUntil body rounds s = (some result, s')) :
    Q result s' := by
  induction rounds generalizing s with
  | zero => cases hrun
  | succ rounds ih =>
    rw [repeatUntil] at hrun
    cases hround : body s with
    | mk found next =>
      rw [hround] at hrun
      cases found with
      | some found =>
        cases hrun
        exact hresult s s' result h hround
      | none => exact ih (hnext s next h hround) hrun

section First

variable {Res : Type w} {body : State → Option Res × State} {next : State → State}

/-- The states in which the body runs. -/
def visited (body : State → Option Res × State) : Nat → State → List State
  | 0, _ => []
  | rounds + 1, s =>
    s :: match body s with
      | (some _, _) => []
      | (none, s) => visited body rounds s

/-- A body that always goes on to the same next state runs up to its first result. -/
theorem repeatUntil_first (hnext : ∀ s, (body s).2 = next s) (rounds : Nat) (s : State) :
    (∃ i < rounds, (∀ j < i, (body (next^[j] s)).1 = none) ∧ (body (next^[i] s)).1 ≠ none ∧
      repeatUntil body rounds s = body (next^[i] s) ∧
      visited body rounds s = (List.range (i + 1)).map (next^[·] s)) ∨
    (∀ j < rounds, (body (next^[j] s)).1 = none) ∧
      repeatUntil body rounds s = (none, next^[rounds] s) ∧
      visited body rounds s = (List.range rounds).map (next^[·] s) := by
  induction rounds generalizing s with
  | zero => exact .inr ⟨nofun, rfl, rfl⟩
  | succ rounds ih =>
    have hs := hnext s
    rw [repeatUntil, visited]
    cases hbody : body s with
    | mk result s' =>
      rw [hbody] at hs
      obtain rfl : s' = next s := hs
      cases result with
      | some result =>
        exact .inl ⟨0, Nat.succ_pos rounds, nofun, by simp [hbody], hbody.symm, rfl⟩
      | none =>
        have hshift : ∀ n, (∀ j < n, (body (next^[j] (next s))).1 = none) →
            ∀ j < n + 1, (body (next^[j] s)).1 = none := by
          intro n hall j hj
          cases j with
          | zero => exact congrArg Prod.fst hbody
          | succ j => exact hall j (Nat.lt_of_succ_lt_succ hj)
        have hseen : ∀ n, s :: (List.range n).map (next^[·] (next s)) =
            (List.range (n + 1)).map (next^[·] s) := by
          intro n
          rw [List.range_succ_eq_map, List.map_cons, List.map_map]
          rfl
        rcases ih (next s) with ⟨i, hi, hall, hsome, hrun, hvisited⟩ | ⟨hall, hrun, hvisited⟩
        · exact .inl ⟨i + 1, Nat.succ_lt_succ hi, hshift i hall, hsome, hrun,
            (congrArg (s :: ·) hvisited).trans (hseen _)⟩
        · exact .inr ⟨hshift rounds hall, hrun, (congrArg (s :: ·) hvisited).trans (hseen _)⟩

end First

/-- What the body of a fallible fold keeps, with a count of the rounds, holds at its end. -/
theorem foldlM_invariant {step : State → α → Option State} {P : Nat → State → Prop}
    (hstep : ∀ n s a s', P n s → step s a = some s' → P (n + 1) s') {n : Nat} {l : List α}
    (h : P n s) (hfold : l.foldlM step s = some s') : P (n + l.length) s' := by
  induction l generalizing n s with
  | nil =>
    cases hfold
    exact h
  | cons a rest ih =>
    rw [List.foldlM_cons] at hfold
    obtain ⟨t, ht, hrest⟩ := Option.bind_eq_some_iff.mp hfold
    have hend := ih (hstep n s a t h ht) hrest
    rwa [List.length_cons, Nat.add_comm rest.length, ← Nat.add_assoc]

end SnowTG.Lib
