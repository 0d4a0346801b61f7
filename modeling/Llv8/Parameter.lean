import Llv8.Chunk
import Mathlib.Data.Set.Function

/-!
# Parameter binding

`Build` declares a function of `num_parameters() + 3` arguments: the context, the callee, and
the parameters with the receiver.  `DoParameter` finds the argument of parameter `index` by
walking from the first argument, `while (--index + num_parameters > 0) ++it`, with the index
negated.  The walk stops after `num_parameters - 1 - index` steps, so of `P` declared
parameters, parameter `i` is argument `P + 2 - i`: the parameters fill the arguments after the
two hidden ones in reverse order, as the right-to-left calling convention passes them.
-/

namespace Llv8.LLVMChunkBuilder

/-- The walk with any bound at least its termination measure `index + num_parameters` makes
`index + num_parameters - 1` steps: the bound never ends it early. -/
theorem argumentLoop_of_le (numParameters : Int) : ∀ (bound : Nat) (index : Int) (it : Nat),
    (index + numParameters).toNat ≤ bound →
      argumentLoop numParameters bound index it = it + (index + numParameters - 1).toNat
  | 0, index, it, _ => by simp only [argumentLoop]; omega
  | bound + 1, index, it, enough => by
    simp only [argumentLoop]
    split
    · rw [argumentLoop_of_le numParameters bound (index - 1) (it + 1) (by omega)]
      omega
    · omega

theorem argumentWalk_eq (numParameters index : Int) (it : Nat) :
    argumentWalk numParameters index it = it + (index + numParameters - 1).toNat :=
  argumentLoop_of_le numParameters _ index it le_rfl

/-- `DoParameter` binds parameter `index` to argument `P + 2 - index`. -/
theorem doParameter_eq (cb : LLVMChunkBuilder) (id index : Nat) (s : BuilderState) :
    cb.doParameter id index s =
      .ok () (s.setValue id (.argument (cb.info.numParameters + 2 - index))) := by
  have steps :
      (-(index : Int) + cb.functionArity - 1).toNat = cb.info.numParameters + 2 - index := by
    simp only [functionArity]; omega
  simp only [doParameter, argumentWalk_eq, steps, Nat.zero_add]
  rfl

/-- Parameter binding is a bijection onto the non-hidden arguments: for every bound at least
its measure the walk of parameter `index` ends at argument `P + 2 - index`, which is what
`DoParameter` binds; `index ↦ P + 2 - index` maps the parameters `0..P` one-to-one onto the
arguments `2..P+2`, all below the arity `Build` declares. -/
theorem doParameter_bijOn (cb : LLVMChunkBuilder) :
    (∀ (index bound : Nat), (-(index : Int) + cb.functionArity).toNat ≤ bound →
      argumentLoop cb.functionArity bound (-index) 0 = cb.info.numParameters + 2 - index) ∧
    (∀ (id index : Nat) (s : BuilderState), cb.doParameter id index s =
      .ok () (s.setValue id (.argument (cb.info.numParameters + 2 - index)))) ∧
    Set.BijOn (fun index => cb.info.numParameters + 2 - index)
      (Set.Icc 0 cb.info.numParameters) (Set.Icc 2 (cb.info.numParameters + 2)) ∧
    cb.info.numParameters + 2 < cb.functionArity := by
  refine ⟨fun index bound enough => ?_, doParameter_eq cb, ⟨?_, ?_, ?_⟩, ?_⟩
  · rw [argumentLoop_of_le _ bound _ 0 enough]
    simp only [functionArity]
    omega
  · intro index member
    simp only [Set.mem_Icc] at member ⊢
    omega
  · intro first firstMember second secondMember equal
    simp only [Set.mem_Icc] at firstMember secondMember equal
    omega
  · intro argument member
    simp only [Set.mem_Icc] at member
    exact ⟨cb.info.numParameters + 2 - argument, by simp only [Set.mem_Icc]; omega,
      by simp only; omega⟩
  · simp only [functionArity]
    omega

end Llv8.LLVMChunkBuilder
