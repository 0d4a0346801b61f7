import Llv8.Representation

/-!
# Compare and branch on converted Smis

`DoCompareNumericAndBranch` in `Integer32` representation compares its operands' words with a
signed `icmp`.  An `Integer32` constant is the sign-extended value, but a Smi converted by
`SmiToInteger32` is shifted right logically, so it arrives zero-extended: the emitted signed
comparison reads the converted operand as unsigned (`slt_smiToInteger32`).  A negative Smi
compared with zero therefore takes the branch of the false outcome.
-/

namespace Llv8.LLVMChunkBuilder

/-- Sign extension keeps the signed value. -/
theorem toInt_signExtend_64 (b : BitVec 32) : (b.signExtend 64).toInt = b.toInt := by
  have bound := b.isLt
  rw [BitVec.signExtend, BitVec.toInt_ofInt, BitVec.toInt_eq_toNat_cond]
  simp only [Int.bmod]
  split <;> split <;> omega

/-- Zero extension makes the signed value the unsigned one. -/
theorem toInt_setWidth_64 (v : BitVec 32) : (v.setWidth 64).toInt = v.toNat := by
  have bound := v.isLt
  rw [BitVec.toInt_eq_toNat_cond, BitVec.toNat_setWidth]
  split <;> omega

/-- The signed comparison of a converted Smi `v` with an `Integer32` constant `b` compares the
unsigned value of `v` with the signed value of `b`. -/
theorem slt_smiToInteger32 (v b : BitVec 32) :
    CmpPredicate.icmpSlt.holds ((v.signExtend 64 <<< 32) >>> 32) (b.signExtend 64) =
      decide ((v.toNat : Int) < b.toInt) := by
  simp only [CmpPredicate.holds, smi_ushiftRight, BitVec.slt, toInt_setWidth_64,
    toInt_signExtend_64]

/-- The Smi `-1` converted to `Integer32` and compared `< 0`, branching to block 1 when the
comparison holds and to block 2 otherwise. -/
def negativeSmiBelowZero : HGraph where
  values := [
    { kind := .instruction (.constant (.integer32 (-1))), block := 0, representation := .smi },
    { kind := .instruction (.change 0 .smi .integer32), block := 0,
      representation := .integer32 },
    { kind := .instruction (.constant (.integer32 0)), block := 0, representation := .integer32 },
    { kind := .instruction (.compareNumericAndBranch .lt 1 2), block := 0,
      representation := .integer32, successors := [1, 2] },
    { kind := .instruction (.constant (.integer32 0)), block := 0, representation := .integer32,
      emitAtUses := true },
    { kind := .instruction (.«return» 2 4), block := 1, representation := .tagged },
    { kind := .instruction (.«return» 2 4), block := 2, representation := .tagged }]
  blocks := [
    { blockId := 0, isStartBlock := true, instructions := [0, 1, 2, 3] },
    { blockId := 1, predecessors := [0], instructions := [5] },
    { blockId := 2, predecessors := [0], instructions := [6] }]

/-- For every Smi `v` and constant `b` the emitted comparison decides `v.toNat < b.toInt`, not
`v.toInt < b.toInt`.  On `-1 < 0`, which holds, the build completes with the `lshr`, the signed
`icmp` and a conditional branch whose condition evaluates to `0`, so control goes to LLVM block
2, the block of `SuccessorAt(1)`.  The instruction list and the LLVM block numbers are those of an
`IRBuilder` that folds no constant, with each call's arguments evaluated left to right. -/
theorem compare_converted_negative_smi :
    (∀ v b : BitVec 32,
      CmpPredicate.icmpSlt.holds ((v.signExtend 64 <<< 32) >>> 32) (b.signExtend 64) =
        decide ((v.toNat : Int) < b.toInt)) ∧
    (-1 : BitVec 32).slt 0 = true ∧
    LLVMChunk.code (LLVMChunk.newChunk ⟨0, false, false⟩ negativeSmiBelowZero 2 {}) =
      some [⟨0, .lShr (.constantInt 0xFFFFFFFF00000000) 32⟩,
        ⟨0, .iCmp .icmpSlt (.instruction 0) (.constantInt 0)⟩,
        ⟨0, .condBr (.instruction 1) 1 2⟩, ⟨1, .ret (.constantInt 0)⟩,
        ⟨2, .ret (.constantInt 0)⟩] ∧
    (finalState (LLVMChunk.newChunk ⟨0, false, false⟩ negativeSmiBelowZero 2 {})).llvmBasicBlock
      1 = some 1 ∧
    (finalState (LLVMChunk.newChunk ⟨0, false, false⟩ negativeSmiBelowZero 2 {})).llvmBasicBlock
      2 = some 2 ∧
    (LOp.condBr (.instruction 1) 1 2).successor (LValue.word (fun _ => 0) (evalInstructions
      (fun _ => 0) [⟨0, .lShr (.constantInt 0xFFFFFFFF00000000) 32⟩,
        ⟨0, .iCmp .icmpSlt (.instruction 0) (.constantInt 0)⟩])) = some 2 :=
  ⟨slt_smiToInteger32, by decide, by decide, by decide, by decide, by decide⟩

end Llv8.LLVMChunkBuilder
