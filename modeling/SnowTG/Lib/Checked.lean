import Mathlib

/-!
# Machine arithmetic that remembers wrapping

A computation over unsigned words returns its value and whether some operation on
the way left its word size.  The value is the one the machine computes, wrapped or
not.  `Yields clean x P` says that the value meets `P` and that nothing wrapped
when `clean` holds, and composes along the computation.
-/

namespace SnowTG.Lib

universe u

/-- A value and whether an operation that led to it wrapped. -/
@[ext] structure Checked (α : Type u) where
  value : α
  wrapped : Bool
deriving DecidableEq, Repr

namespace Checked

variable {α β : Type u} {w n b : Nat}

instance : Monad Checked where
  pure a := ⟨a, false⟩
  bind x f := ⟨(f x.value).value, x.wrapped || (f x.value).wrapped⟩

@[simp] theorem pure_value (a : α) : (pure a : Checked α).value = a := rfl

@[simp] theorem pure_wrapped (a : α) : (pure a : Checked α).wrapped = false := rfl

@[simp] theorem bind_value (x : Checked α) (f : α → Checked β) :
    (x >>= f).value = (f x.value).value := rfl

@[simp] theorem bind_wrapped (x : Checked α) (f : α → Checked β) :
    (x >>= f).wrapped = (x.wrapped || (f x.value).wrapped) := rfl

instance : LawfulMonad Checked :=
  LawfulMonad.mk' Checked
    (by
      intro α x
      ext <;> simp [Functor.map])
    (by
      intro α β a f
      ext <;> simp)
    (by
      intro α β γ x f g
      ext <;> simp [Bool.or_assoc])

/-- Keep the low `w` bits of a number. -/
def narrow (w n : Nat) : Checked Nat := ⟨n % 2 ^ w, decide (2 ^ w ≤ n)⟩

def add (w a b : Nat) : Checked Nat := narrow w (a + b)

def mul (w a b : Nat) : Checked Nat := narrow w (a * b)

/-- Unsigned subtraction of two numbers below `2 ^ w`. -/
def sub (w a b : Nat) : Checked Nat := ⟨(a + (2 ^ w - b)) % 2 ^ w, decide (a < b)⟩

/-- Unsigned division.  By zero it has no result, which is recorded like a wrap. -/
def div (a b : Nat) : Checked Nat := ⟨a / b, decide (b = 0)⟩

/-- The remainder, likewise. -/
def mod (a b : Nat) : Checked Nat := ⟨a % b, decide (b = 0)⟩

theorem narrow_of_lt (h : n < 2 ^ w) : narrow w n = pure n := by
  ext
  · exact Nat.mod_eq_of_lt h
  · simpa [narrow] using h

theorem add_of_lt {a : Nat} (h : a + b < 2 ^ w) : add w a b = pure (a + b) :=
  narrow_of_lt h

theorem mul_of_lt {a : Nat} (h : a * b < 2 ^ w) : mul w a b = pure (a * b) :=
  narrow_of_lt h

theorem sub_of_le {a : Nat} (h : b ≤ a) (ha : a < 2 ^ w) : sub w a b = pure (a - b) := by
  have hsum : a + (2 ^ w - b) = a - b + 2 ^ w := by omega
  ext
  · change (a + (2 ^ w - b)) % 2 ^ w = a - b
    rw [hsum, Nat.add_mod_right, Nat.mod_eq_of_lt (by omega)]
  · simpa [sub] using h

theorem div_of_pos {a : Nat} (h : 0 < b) : div a b = pure (a / b) := by
  ext
  · rfl
  · simpa [div] using Nat.ne_of_gt h

theorem mod_of_pos {a : Nat} (h : 0 < b) : mod a b = pure (a % b) := by
  ext
  · rfl
  · simpa [mod] using Nat.ne_of_gt h

/-- The value meets `P`, and nothing wrapped if `clean` holds. -/
structure Yields (clean : Prop) (x : Checked α) (P : α → Prop) : Prop where
  value : P x.value
  exact_of : clean → x.wrapped = false

namespace Yields

variable {clean : Prop} {x : Checked α} {P Q : α → Prop}

theorem pure {a : α} (h : P a) : Yields clean (Pure.pure a) P :=
  ⟨h, fun _ => rfl⟩

theorem bind {f : α → Checked β} {R : β → Prop} (hx : Yields clean x P)
    (hf : ∀ a, P a → Yields clean (f a) R) : Yields clean (x >>= f) R := by
  constructor
  · exact (hf x.value hx.value).value
  · intro hclean
    simp [hx.exact_of hclean, (hf x.value hx.value).exact_of hclean]

theorem mono (hx : Yields clean x P) (h : ∀ a, P a → Q a) : Yields clean x Q :=
  ⟨h _ hx.value, hx.exact_of⟩

theorem weaken {clean' : Prop} (hx : Yields clean x P) (h : clean' → clean) : Yields clean' x P :=
  ⟨hx.value, fun hclean => hx.exact_of (h hclean)⟩

/-- What a computation that cannot wrap returns. -/
theorem of_eq_pure {a : α} (h : x = Pure.pure a) (ha : P a) : Yields clean x P := by
  rw [h]
  exact pure ha

/-- A counter whose value nothing reads may wrap; it does not while it stays in range. -/
theorem narrow {P : Nat → Prop} (hP : ∀ m, P m) (hclean : clean → n < 2 ^ w) :
    Yields clean (Checked.narrow w n) P := by
  constructor
  · exact hP _
  · intro h
    rw [narrow_of_lt (hclean h)]
    rfl

end Yields

end Checked

end SnowTG.Lib
