import Mathlib.Data.BitVec

/-!
# The LLVM IR the chunk builder emits

The builder emits one LLVM function whose parameters and results are all `i64`.  Its
instructions are integer arithmetic, shifts by a constant, `icmp`, and the terminators `br`,
conditional `br` and `ret`.  A value is a function argument, an integer constant, or the result
of an earlier instruction, named by its position in creation order; every instruction records
the basic block it was inserted into.

The meaning of straight-line code is the word each instruction computes from the arguments:
`LOp.result` gives one instruction's word and `evalInstructions` runs them in creation order.
An `icmp` yields `1` or `0`.
-/

namespace Llv8

/-- `llvm::CmpInst::Predicate`, restricted to the integer predicates and the placeholder
`BAD_FCMP_PREDICATE`. -/
inductive CmpPredicate
  | icmpEq | icmpNe | icmpUgt | icmpUge | icmpUlt | icmpUle
  | icmpSgt | icmpSge | icmpSlt | icmpSle | badFcmpPredicate
  deriving DecidableEq, Repr

/-- Whether an integer predicate holds of two 64-bit words. -/
def CmpPredicate.holds : CmpPredicate → BitVec 64 → BitVec 64 → Bool
  | .icmpEq, a, b => a == b
  | .icmpNe, a, b => a != b
  | .icmpUgt, a, b => b.ult a
  | .icmpUge, a, b => b.ule a
  | .icmpUlt, a, b => a.ult b
  | .icmpUle, a, b => a.ule b
  | .icmpSgt, a, b => b.slt a
  | .icmpSge, a, b => b.sle a
  | .icmpSlt, a, b => a.slt b
  | .icmpSle, a, b => a.sle b
  | .badFcmpPredicate, _, _ => false

/-- An `llvm::Value*` the builder hands around. -/
inductive LValue
  | argument (index : Nat)
  | constantInt (value : BitVec 64)
  | instruction (id : Nat)
  deriving DecidableEq, Repr

/-- The instructions the builder creates through its `IRBuilder`. -/
inductive LOp
  | add (lhs rhs : LValue)
  | sub (lhs rhs : LValue)
  | mul (lhs rhs : LValue)
  | shl (lhs : LValue) (amount : Nat)
  | lShr (lhs : LValue) (amount : Nat)
  | iCmp (predicate : CmpPredicate) (lhs rhs : LValue)
  | br (dest : Nat)
  | condBr (condition : LValue) (ifTrue ifFalse : Nat)
  | ret (value : LValue)
  deriving DecidableEq, Repr

/-- An instruction together with its parent basic block. -/
structure LInst where
  parent : Nat
  op : LOp
  deriving DecidableEq, Repr

namespace LOp

/-- Terminators end a basic block. -/
def isTerminator : LOp → Bool
  | .br _ | .condBr .. | .ret _ => true
  | _ => false

/-- The basic blocks a terminator may transfer control to. -/
def targets : LOp → List Nat
  | .br dest => [dest]
  | .condBr _ ifTrue ifFalse => [ifTrue, ifFalse]
  | _ => []

/-- The word an instruction computes, given the words of its operands. -/
def result (word : LValue → BitVec 64) : LOp → BitVec 64
  | .add lhs rhs => word lhs + word rhs
  | .sub lhs rhs => word lhs - word rhs
  | .mul lhs rhs => word lhs * word rhs
  | .shl lhs amount => word lhs <<< amount
  | .lShr lhs amount => word lhs >>> amount
  | .iCmp predicate lhs rhs => if predicate.holds (word lhs) (word rhs) then 1 else 0
  | _ => 0

end LOp

/-- The word a value denotes, given the argument words and the words of the instructions
computed so far. -/
def LValue.word (args : Nat → BitVec 64) (results : List (BitVec 64)) :
    LValue → BitVec 64
  | .argument index => args index
  | .constantInt value => value
  | .instruction id => results.getD id 0

/-- Run straight-line code: the word of every instruction, in creation order. -/
def evalInstructions (args : Nat → BitVec 64) (instructions : List LInst) : List (BitVec 64) :=
  instructions.foldl (fun results inst => results ++ [inst.op.result (·.word args results)]) []

/-- The block a terminator transfers control to, given the words of its operands: a
conditional branch takes its first target when its condition is non-zero. -/
def LOp.successor (word : LValue → BitVec 64) : LOp → Option Nat
  | .br dest => some dest
  | .condBr condition ifTrue ifFalse => some (if word condition ≠ 0 then ifTrue else ifFalse)
  | _ => none

end Llv8
