import Mathlib.Data.UInt
import Mathlib.Tactic.Positivity

/-!
# Expressions over machine words

A `WordExpr` is an expression over words that are read, each operation with the width of its
result. `eval` is what the machine computes, modulo that width; `value` is the integer the expression
stands for. An expression is `Exact` if the two agree at each of its subexpressions: nothing
wraps, not even where a second wrap would undo the first.
-/

inductive WordOp
  | add
  | sub
  | mul
  deriving DecidableEq, Inhabited

def WordOp.apply : WordOp → Int → Int → Int
  | add => (· + ·)
  | sub => (· - ·)
  | mul => (· * ·)

inductive WordExpr
  | read (n : Nat)
  | op (o : WordOp) (w : Nat) (a b : WordExpr)
  /-- Kept in a variable of width `w`. -/
  | store (w : Nat) (a : WordExpr)
  deriving DecidableEq, Inhabited

namespace WordExpr

/-- What the machine computes. -/
def eval : WordExpr → Int
  | read n => n
  | op o w a b => o.apply a.eval b.eval % 2 ^ w
  | store w a => a.eval % 2 ^ w

/-- The integer. -/
def value : WordExpr → Int
  | read n => n
  | op o _ a b => o.apply a.value b.value
  | store _ a => a.value

/-- The expression and all that it is built from. -/
def subexprs : WordExpr → List WordExpr
  | read n => [read n]
  | op o w a b => op o w a b :: (a.subexprs ++ b.subexprs)
  | store w a => store w a :: a.subexprs

/-- Nothing in the expression wraps. -/
def Exact (e : WordExpr) : Prop := ∀ s ∈ e.subexprs, s.eval = s.value

instance (e : WordExpr) : Decidable e.Exact := inferInstanceAs (Decidable (∀ s ∈ _, _))

/-- The integer fits the width. -/
def Fits (w : Nat) (z : Int) : Prop := 0 ≤ z ∧ z < 2 ^ w

instance (w : Nat) (z : Int) : Decidable (Fits w z) := inferInstanceAs (Decidable (_ ∧ _))

variable {o : WordOp} {w : Nat} {a b e : WordExpr}

theorem mem_subexprs_self (e : WordExpr) : e ∈ e.subexprs := by
  cases e <;> simp [subexprs]

/-- An exact expression has the value it stands for. -/
theorem Exact.eval_eq (h : e.Exact) : e.eval = e.value := h e e.mem_subexprs_self

theorem emod_eq_iff_fits {z : Int} : z % 2 ^ w = z ↔ Fits w z := by
  have hw : (0 : Int) < 2 ^ w := by positivity
  constructor
  · intro h
    have hnonneg := Int.emod_nonneg z hw.ne'
    have hlt := Int.emod_lt_of_pos z hw
    exact ⟨h ▸ hnonneg, h ▸ hlt⟩
  · rintro ⟨h0, hlt⟩
    exact Int.emod_eq_of_lt h0 hlt

@[simp] theorem exact_read (n : Nat) : (read n).Exact := by
  simp [Exact, subexprs, eval, value]

/-- **An operation is exact if its operands are and its result fits.** -/
theorem exact_op : (op o w a b).Exact ↔
    a.Exact ∧ b.Exact ∧ Fits w (o.apply a.value b.value) := by
  have hnode (ha : a.Exact) (hb : b.Exact) :
      (op o w a b).eval = (op o w a b).value ↔ Fits w (o.apply a.value b.value) := by
    rw [eval, value, ha.eval_eq, hb.eval_eq]
    exact emod_eq_iff_fits
  simp only [Exact, subexprs, List.forall_mem_cons, List.forall_mem_append]
  constructor
  · rintro ⟨he, ha, hb⟩
    exact ⟨ha, hb, (hnode ha hb).1 he⟩
  · rintro ⟨ha, hb, he⟩
    exact ⟨(hnode ha hb).2 he, ha, hb⟩

theorem exact_store : (store w a).Exact ↔ a.Exact ∧ Fits w a.value := by
  have hnode (ha : a.Exact) : (store w a).eval = (store w a).value ↔ Fits w a.value := by
    rw [eval, value, ha.eval_eq]
    exact emod_eq_iff_fits
  simp only [Exact, subexprs, List.forall_mem_cons]
  constructor
  · rintro ⟨he, ha⟩
    exact ⟨ha, (hnode ha).1 he⟩
  · rintro ⟨ha, he⟩
    exact ⟨(hnode ha).2 he, ha⟩

/-! ## Fixed-width words -/

section Words

variable {x y : UInt32}

theorem eval_add32 (ha : a.eval = x.toNat) (hb : b.eval = y.toNat) :
    (op .add 32 a b).eval = (x + y).toNat := by
  rw [eval, ha, hb, UInt32.toNat_add]
  norm_cast

theorem eval_mul32 (ha : a.eval = x.toNat) (hb : b.eval = y.toNat) :
    (op .mul 32 a b).eval = (x * y).toNat := by
  rw [eval, ha, hb, UInt32.toNat_mul]
  norm_cast

theorem eval_sub32 (ha : a.eval = x.toNat) (hb : b.eval = y.toNat) :
    (op .sub 32 a b).eval = (x - y).toNat := by
  have hx := x.toNat_lt
  have hy := y.toNat_lt
  rw [eval, ha, hb, UInt32.toNat_sub]
  simp only [WordOp.apply]
  omega

theorem eval_add64 {x y : UInt64} (ha : a.eval = x.toNat) (hb : b.eval = y.toNat) :
    (op .add 64 a b).eval = (x + y).toNat := by
  rw [eval, ha, hb, UInt64.toNat_add]
  norm_cast

end Words

end WordExpr
