import Mathlib.Algebra.Group.Int.Defs
import Mathlib.Algebra.Group.Nat.Defs
import Mathlib.Tactic.Common

/-!
# Computations with a record of their 32-bit arithmetic

A `Traced` computation is a value together with the 32-bit operations performed to compute it. An
operation is exact when its result is the number that its operands give without a word size;
`exact_bind` reduces the exactness of a computation to that of its parts.
-/

namespace Arith

/-- An operation that a 32-bit word may not hold the result of. -/
inductive Op
  | add (a b : UInt32)
  | sub (a b : UInt32)
  | cast (x : Int)
  deriving DecidableEq, Repr

/-- The operation computes what it computes on unbounded integers. -/
def Op.Exact : Op → Prop
  | .add a b => (a + b).toNat = a.toNat + b.toNat
  | .sub a b => ((a - b).toNat : Int) = a.toNat - b.toNat
  | .cast x => ((UInt32.ofInt x).toNat : Int) = x

instance (op : Op) : Decidable op.Exact := by
  cases op <;> exact inferInstanceAs (Decidable (_ = _))

/-- A computed value, and the operations it took, in order. -/
structure Traced (α : Type*) where
  val : α
  ops : List Op

namespace Traced

universe v

variable {α β : Type v}

instance : Monad Traced where
  pure a := ⟨a, []⟩
  bind x f := ⟨(f x.val).val, x.ops ++ (f x.val).ops⟩

@[simp] theorem val_pure (a : α) : (pure a : Traced α).val = a := rfl

/-- A trace does not change the value. -/
@[simp] theorem val_bind (x : Traced α) (f : α → Traced β) :
    (x >>= f).val = (f x.val).val := rfl

/-- Every operation of the computation is exact. -/
def Exact (x : Traced α) : Prop := ∀ op ∈ x.ops, op.Exact

instance (x : Traced α) : Decidable x.Exact := inferInstanceAs (Decidable (∀ op ∈ x.ops, op.Exact))

@[simp] theorem exact_pure (a : α) : (pure a : Traced α).Exact := fun _ h => nomatch h

/-- A computation is exact iff its parts are. -/
@[simp] theorem exact_bind (x : Traced α) (f : α → Traced β) :
    (x >>= f).Exact ↔ x.Exact ∧ (f x.val).Exact :=
  List.forall_mem_append

end Traced

/-- Addition, recorded. -/
def add (a b : UInt32) : Traced UInt32 := ⟨a + b, [.add a b]⟩

/-- Subtraction, recorded. -/
def sub (a b : UInt32) : Traced UInt32 := ⟨a - b, [.sub a b]⟩

/-- The conversion of a wider integer, recorded. -/
def cast (x : Int) : Traced UInt32 := ⟨.ofInt x, [.cast x]⟩

section
variable (a b : UInt32) (x : Int)

/-- The value of a traced sum. -/
@[simp] theorem add_val : (add a b).val = a + b := rfl

/-- The value of a traced difference. -/
@[simp] theorem sub_val : (sub a b).val = a - b := rfl

/-- The value of a traced cast. -/
@[simp] theorem cast_val : (cast x).val = .ofInt x := rfl

/-- An addition is exact iff the sum fits a word. -/
@[simp] theorem exact_add : (add a b).Exact ↔ a.toNat + b.toNat < 2 ^ 32 := by
  have ha := a.toNat_lt
  have hb := b.toNat_lt
  simp only [Traced.Exact, add, List.forall_mem_singleton, Op.Exact, UInt32.toNat_add]
  omega

/-- A subtraction is exact iff it stays at or above zero. -/
@[simp] theorem exact_sub : (sub a b).Exact ↔ b ≤ a := by
  have ha := a.toNat_lt
  have hb := b.toNat_lt
  simp only [Traced.Exact, sub, List.forall_mem_singleton, Op.Exact, UInt32.toNat_sub,
    UInt32.le_iff_toNat_le]
  omega

/-- A conversion is exact iff the number fits a word. -/
@[simp] theorem exact_cast : (cast x).Exact ↔ 0 ≤ x ∧ x < 2 ^ 32 := by
  simp only [Traced.Exact, cast, List.forall_mem_singleton, Op.Exact, UInt32.ofInt,
    UInt32.toNat_ofNat']
  omega

end
end Arith
