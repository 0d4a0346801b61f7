import Llv8.Chunk

/-!
# The Smi encoding

In the 32-bit Smi configuration a Smi is its value shifted into the upper half of the word.
`DoConstant` encodes a Smi constant as the sign-extended value shifted left by `kSmiShift`,
a tagged Smi constant as the Smi's word, and an `Integer32` constant as the sign-extended
value; `Integer32ToSmi` shifts left.  These agree.  `SmiToInteger32` however shifts right
logically, so it returns the value zero-extended, where `DoConstant`'s `Integer32` encoding is
sign-extended: the two agree exactly on the non-negative values.
-/

namespace Llv8.LLVMChunkBuilder

variable (cb : LLVMChunkBuilder) (value : BitVec 32) (s : BuilderState)

@[simp] theorem constantWord_smi :
    cb.constantWord .smi (.integer32 value) s = .ok (value.signExtend 64 <<< cb.kSmiShift) s :=
  rfl

@[simp] theorem constantWord_integer32 :
    cb.constantWord .integer32 (.integer32 value) s = .ok (value.signExtend 64) s :=
  rfl

theorem constantWord_tagged (smi32 : cb.smiValuesAre32Bits = true) :
    cb.constantWord .tagged (.integer32 value) s =
      .ok (value.signExtend 64 <<< cb.kSmiShift) s := by
  simp [constantWord, isSmi, smi32]
  rfl

theorem kSmiShift_of_smi32 {cb : LLVMChunkBuilder} (smi32 : cb.smiValuesAre32Bits = true) :
    cb.kSmiShift = 32 := by
  simp [kSmiShift, smi32]

/-- The logical shift right of a Smi word zero-extends its value. -/
theorem smi_ushiftRight : (value.signExtend 64 <<< 32) >>> 32 = value.setWidth 64 := by
  ext i
  simp only [BitVec.getLsbD_ushiftRight, BitVec.getLsbD_shiftLeft, BitVec.getLsbD_signExtend,
    BitVec.getLsbD_setWidth]
  by_cases low : (i : Nat) < 32
  · simp [low]
    omega
  · simp [low, BitVec.getLsbD_ge value i (by omega)]
    intro
    omega

/-- Zero and sign extension agree exactly on the non-negative values. -/
theorem setWidth_eq_signExtend_iff :
    value.setWidth 64 = value.signExtend 64 ↔ value.msb = false := by
  constructor
  · intro same
    have top := congrArg (·.getLsbD 63) same
    simpa [BitVec.getLsbD_signExtend, BitVec.getLsbD_setWidth] using top.symm
  · intro nonNegative
    ext i
    by_cases low : (i : Nat) < 32
    · simp [BitVec.getLsbD_signExtend, BitVec.getLsbD_setWidth, low]
    · simp [BitVec.getLsbD_signExtend, BitVec.getLsbD_setWidth, low, nonNegative,
        BitVec.getLsbD_ge value i (by omega)]

/-- The shift `SmiToInteger32` emits, applied to `DoConstant`'s Smi word of a value, computes
`DoConstant`'s `Integer32` word of it exactly when the value is non-negative. -/
theorem lShr_smi_eq_integer32_iff (smi32 : cb.smiValuesAre32Bits = true) (args : Nat → BitVec 64)
    (results : List (BitVec 64)) :
    (LOp.lShr (.constantInt (value.signExtend 64 <<< cb.kSmiShift)) cb.kSmiShift).result
        (LValue.word args results) = value.signExtend 64 ↔ value.msb = false := by
  rw [kSmiShift_of_smi32 smi32]
  show (value.signExtend 64 <<< 32) >>> 32 = _ ↔ _
  rw [smi_ushiftRight, setWidth_eq_signExtend_iff]

/-- `SmiToInteger32` of the Smi of `-1`: the emitted shift computes `0x00000000FFFFFFFF`,
while `DoConstant` encodes the `Integer32` value `-1` as `0xFFFFFFFFFFFFFFFF`. -/
theorem smiToInteger32_minus_one (info : CompilationInfo) (graph : HGraph)
    (args : Nat → BitVec 64) :
    let cb : LLVMChunkBuilder := ⟨info, graph, true⟩
    cb.constantWord .smi (.integer32 (-1)) {} = .ok 0xFFFFFFFF00000000 {} ∧
    cb.constantWord .tagged (.integer32 (-1)) {} = .ok 0xFFFFFFFF00000000 {} ∧
    cb.constantWord .integer32 (.integer32 (-1)) {} = .ok 0xFFFFFFFFFFFFFFFF {} ∧
    cb.smiToInteger32 (fun _ => pure (.constantInt 0xFFFFFFFF00000000)) 0 {} =
      .ok (.instruction 0)
        (({} : BuilderState).pushInstruction (.lShr (.constantInt 0xFFFFFFFF00000000) 32)) ∧
    evalInstructions args [⟨0, .lShr (.constantInt 0xFFFFFFFF00000000) 32⟩] =
      [0x00000000FFFFFFFF] := by
  have smi : (-1 : BitVec 32).signExtend 64 <<< 32 = 0xFFFFFFFF00000000 := by decide
  have integer32 : (-1 : BitVec 32).signExtend 64 = 0xFFFFFFFFFFFFFFFF := by decide
  exact ⟨by rw [constantWord_smi, kSmiShift_of_smi32 rfl, smi],
    by rw [constantWord_tagged _ _ _ rfl, kSmiShift_of_smi32 rfl, smi],
    by rw [constantWord_integer32, integer32], rfl,
    by show [(0xFFFFFFFF00000000 : BitVec 64) >>> 32] = _; decide⟩

end Llv8.LLVMChunkBuilder
