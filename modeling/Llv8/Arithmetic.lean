import Llv8.Steps

/-!
# The arithmetic handlers

`DoAdd` resolves its operands through `Use`, which materializes an operand emitted at its uses
at its first use.  `DoSub` and `DoMul` instead read the operands' LLVM values directly and
`CHECK` that they are set, so they fail on an operand that `Use` would have materialized
(`doSub_doMul_check_deferred_operand`).  None of the three reads `kCanOverflow`: an
overflowing `Integer32` addition completes without a guard and its wrapped result flows on
(`arithmetic_overflow_unchecked`).  `DoMul` multiplies the operands' words as they are, which
for two Smis are both shifted by 32, so the emitted product is always zero
(`smi_mul_word_zero`).
-/

namespace Llv8.LLVMChunkBuilder

variable (cb : LLVMChunkBuilder) {id : Nat} {value : HValue} {s : BuilderState}

/-- Visiting a constant sets its LLVM value to the word `DoConstant` materializes. -/
theorem visitInstruction_constant {fuel : Nat} {constant : HConstantValue} {word : BitVec 64}
    (found : cb.graph.value id = some value)
    (kind : value.kind = .instruction (.constant constant))
    (noDummy : value.canReplaceWithDummyUses = false)
    (materialize : ∀ s, cb.constantWord value.representation constant s = .ok word s) :
    cb.visitInstruction (fuel + 1) id s =
      .ok () ((s.addEvent (.visit id)).setValue id (.constantInt word)) := by
  simp only [visitInstruction, record, bind_apply, modify_apply, valueAt, found, resolve,
    pure_apply, HValue.opcode?, kind, dchecked, noDummy, Bool.false_eq_true, if_false,
    HValue.isControlInstruction, HOpcode.isControlInstruction, compileToLLVM, doConstant,
    materialize, setLlvmValue]


/-- `Use` of a constant emitted at its uses and not yet materialized visits it, then hands out
its word. -/
theorem useValue_deferred {fuel : Nat} {constant : HConstantValue} {word : BitVec 64}
    (found : cb.graph.value id = some value)
    (kind : value.kind = .instruction (.constant constant)) (deferred : value.emitAtUses = true)
    (noDummy : value.canReplaceWithDummyUses = false)
    (materialize : ∀ s, cb.constantWord value.representation constant s = .ok word s)
    (unset : s.llvmValue id = none) :
    cb.useValue (cb.visitInstruction (fuel + 1)) id s =
      .ok (.constantInt word) (((s.addEvent (.visit id)).setValue id (.constantInt word)).addEvent
        (.use id (.constantInt word))) := by
  simp only [useValue, valueAt, found, resolve, bind_apply, pure_apply, get_apply, unset,
    deferred, Option.isNone_none, Bool.and_self, if_true,
    visitInstruction_constant cb found kind noDummy materialize, dchecked, record, modify_apply,
    BuilderState.setValue, BuilderState.addEvent, updateAt_same]

/-- The words of the `Integer32` and Smi constants of `DoConstant`. -/
theorem constantWord_of_integer32 (r : Representation) (a : BitVec 32)
    (arithmetic : r = .integer32 ∨ r = .smi) (s : BuilderState) :
    cb.constantWord r (.integer32 a) s =
      .ok (if r = .smi then a.signExtend 64 <<< cb.kSmiShift else a.signExtend 64) s := by
  rcases arithmetic with rfl | rfl <;> rfl

/-- `DoSub` and `DoMul` read their operands' LLVM values under a `CHECK` instead of through
`Use`, so an operand emitted at its uses and not yet materialized fails the `CHECK`; `DoAdd`,
which uses `Use`, materializes such operands and emits the addition of their words.  The `add`
of two constants is the instruction of an `IRBuilder` that folds no constant, with the arguments
of `CreateAdd` evaluated left to right. -/
theorem doSub_doMul_check_deferred_operand (fuel id left right : Nat) (instr : HValue)
    (leftValue rightValue : HValue) (a b : BitVec 32) (s : BuilderState)
    (arithmetic : instr.representation = .integer32 ∨ instr.representation = .smi)
    (leftFound : cb.graph.value left = some leftValue)
    (rightFound : cb.graph.value right = some rightValue)
    (leftKind : leftValue.kind = .instruction (.constant (.integer32 a)))
    (rightKind : rightValue.kind = .instruction (.constant (.integer32 b)))
    (leftRep : leftValue.representation = instr.representation)
    (rightRep : rightValue.representation = instr.representation)
    (leftDeferred : leftValue.emitAtUses = true) (rightDeferred : rightValue.emitAtUses = true)
    (leftNoDummy : leftValue.canReplaceWithDummyUses = false)
    (rightNoDummy : rightValue.canReplaceWithDummyUses = false)
    (distinct : left ≠ right)
    (leftUnset : s.llvmValue left = none) (rightUnset : s.llvmValue right = none) :
    cb.doSub id instr left right s = .error (.checkFailed "left->llvm_value()") s ∧
    cb.doMul id instr left right s = .error (.checkFailed "left->llvm_value()") s ∧
    ∃ s', cb.doAdd (cb.useValue (cb.visitInstruction (fuel + 1))) id instr left right s =
      .ok () s' ∧ s'.instructions.getLast? = some ⟨s.insertBlock, .add
        (.constantInt (if instr.representation = .smi then a.signExtend 64 <<< cb.kSmiShift
          else a.signExtend 64))
        (.constantInt (if instr.representation = .smi then b.signExtend 64 <<< cb.kSmiShift
          else b.signExtend 64))⟩ := by
  have arith : (instr.representation = .integer32 || instr.representation = .smi) = true := by
    simpa using arithmetic
  have reads : ∀ op, cb.doBinaryOnValues op id instr left right s =
      .error (.checkFailed "left->llvm_value()") s := by
    intro op
    simp only [doBinaryOnValues, arith, if_true, bind_apply, valueAt, leftFound, rightFound,
      resolve, pure_apply, dcheck, leftRep, rightRep, decide_True, get_apply, leftUnset,
      checked, throw_apply]
  have word (operand : HValue) (x : BitVec 32) (rep : operand.representation = instr.representation)
      (s : BuilderState) : cb.constantWord operand.representation (.integer32 x) s = .ok
        (if instr.representation = .smi then x.signExtend 64 <<< cb.kSmiShift
          else x.signExtend 64) s := by
    rw [rep]; exact constantWord_of_integer32 cb _ x arithmetic s
  obtain ⟨s₁, useLeft, unset, sameBlock⟩ : ∃ s₁, cb.useValue (cb.visitInstruction (fuel + 1))
      left s = .ok (.constantInt _) s₁ ∧ s₁.llvmValue right = none ∧
      s₁.insertBlock = s.insertBlock :=
    ⟨_, cb.useValue_deferred leftFound leftKind leftDeferred leftNoDummy (word _ a leftRep)
      leftUnset, by simpa [updateAt_apply, distinct.symm] using rightUnset, rfl⟩
  have useRight : cb.useValue (cb.visitInstruction (fuel + 1)) right s₁ = _ :=
    cb.useValue_deferred rightFound rightKind rightDeferred rightNoDummy (word _ b rightRep) unset
  refine ⟨reads _, reads _, ?_⟩
  simp only [doAdd, arith, if_true, bind_apply, valueAt, leftFound, rightFound, resolve,
    pure_apply, dcheck, leftRep, rightRep, decide_True, useLeft, useRight, insert,
    modifyGet_apply, setLlvmValue, modify_apply]
  exact ⟨_, rfl, by simp [sameBlock]⟩

/-- Two deferred `Integer32` constants under a subtraction. -/
def deferredOperands : HGraph where
  values := [
    { kind := .instruction (.constant (.integer32 5)), block := 0, representation := .integer32,
      emitAtUses := true },
    { kind := .instruction (.constant (.integer32 3)), block := 0, representation := .integer32,
      emitAtUses := true },
    { kind := .instruction (.sub 0 1), block := 0, representation := .integer32 }]
  blocks := [{ blockId := 0, isStartBlock := true, instructions := [0, 1, 2] }]

theorem doSub_doMul_check_deferred_operand_deferredOperands :
    let cb : LLVMChunkBuilder := ⟨⟨0, false, false⟩, deferredOperands, true⟩
    let sub : HValue := { kind := .instruction (.sub 0 1), block := 0, representation := .integer32 }
    cb.doSub 2 sub 0 1 {} = .error (.checkFailed "left->llvm_value()") {} ∧
    cb.doMul 2 sub 0 1 {} = .error (.checkFailed "left->llvm_value()") {} ∧
    ∃ s', cb.doAdd (cb.useValue (cb.visitInstruction 1)) 2 sub 0 1 {} = .ok () s' ∧
      s'.instructions.getLast? = some ⟨0, .add
        (.constantInt (if sub.representation = .smi then (5 : BitVec 32).signExtend 64 <<< 32
          else (5 : BitVec 32).signExtend 64))
        (.constantInt (if sub.representation = .smi then (3 : BitVec 32).signExtend 64 <<< 32
          else (3 : BitVec 32).signExtend 64))⟩ :=
  doSub_doMul_check_deferred_operand _ 0 2 0 1 _ _ _ 5 3 {} (.inl rfl) rfl rfl rfl rfl rfl rfl
    rfl rfl rfl rfl (by decide) rfl rfl

/-- An `Integer32` addition flagged `kCanOverflow` whose operands, `2^31 - 1` and `1`, overflow,
returned as the function's result. -/
def overflowingAdd : HGraph where
  values := [
    { kind := .instruction (.constant (.integer32 0x7FFFFFFF)), block := 0,
      representation := .integer32 },
    { kind := .instruction (.constant (.integer32 1)), block := 0, representation := .integer32 },
    { kind := .instruction (.add 0 1), block := 0, representation := .integer32,
      canOverflow := true },
    { kind := .instruction (.constant (.integer32 0)), block := 0, representation := .integer32,
      emitAtUses := true },
    { kind := .instruction (.«return» 2 3), block := 0, representation := .tagged }]
  blocks := [{ blockId := 0, isStartBlock := true, instructions := [0, 1, 2, 3, 4] }]

/-- The arithmetic handlers never read `kCanOverflow`, so the flag changes nothing they emit.
On the overflowing addition the build completes with a plain `add` and a `ret` of it, with no
branch that could divert control, and the returned word's low 32 bits are the wrapped sum
`-2^31`.  That instruction list is the one of an `IRBuilder` that folds no constant, with each
call's arguments evaluated left to right. -/
theorem arithmetic_overflow_unchecked :
    (∀ (cb : LLVMChunkBuilder) (use : Nat → BuildM LValue) (id left right : Nat)
      (instr : HValue) (flag : Bool),
      cb.doAdd use id { instr with canOverflow := flag } left right =
        cb.doAdd use id instr left right ∧
      cb.doSub id { instr with canOverflow := flag } left right = cb.doSub id instr left right ∧
      cb.doMul id { instr with canOverflow := flag } left right =
        cb.doMul id instr left right) ∧
    LLVMChunk.code (LLVMChunk.newChunk ⟨0, false, false⟩ overflowingAdd 2 {}) =
      some [⟨0, .add (.constantInt 0x7FFFFFFF) (.constantInt 1)⟩, ⟨0, .ret (.instruction 0)⟩] ∧
    evalInstructions (fun _ => 0)
        [⟨0, .add (.constantInt 0x7FFFFFFF) (.constantInt 1)⟩, ⟨0, .ret (.instruction 0)⟩] =
      [0x80000000, 0] ∧
    ((0x80000000 : BitVec 64).setWidth 32).toInt = -2 ^ 31 ∧
    (0x7FFFFFFF : BitVec 32).toInt + (1 : BitVec 32).toInt = 2 ^ 31 :=
  ⟨fun _ _ _ _ _ _ _ => ⟨rfl, rfl, rfl⟩, by decide, by decide, by decide, by decide⟩

/-- A Smi multiplication of the constants `1` and `1`, returned as the function's result. -/
def smiProduct : HGraph where
  values := [
    { kind := .instruction (.constant (.integer32 1)), block := 0, representation := .smi },
    { kind := .instruction (.constant (.integer32 1)), block := 0, representation := .smi },
    { kind := .instruction (.mul 0 1), block := 0, representation := .smi },
    { kind := .instruction (.constant (.integer32 0)), block := 0, representation := .integer32,
      emitAtUses := true },
    { kind := .instruction (.«return» 2 3), block := 0, representation := .tagged }]
  blocks := [{ blockId := 0, isStartBlock := true, instructions := [0, 1, 2, 3, 4] }]

/-- The product of two words shifted left by 32 vanishes modulo `2^64`. -/
theorem shiftLeft_mul_shiftLeft (x y : BitVec 64) : (x <<< 32) * (y <<< 32) = 0 := by
  apply BitVec.eq_of_toNat_eq
  have shifted : x.toNat * 2 ^ 32 * (y.toNat * 2 ^ 32) = x.toNat * y.toNat * 2 ^ 64 := by
    rw [Nat.mul_mul_mul_comm, ← Nat.pow_add]
  simp only [BitVec.toNat_mul, BitVec.toNat_shiftLeft, Nat.shiftLeft_eq, ← Nat.mul_mod,
    shifted, Nat.mul_mod_left]
  rfl

/-- `DoMul` in Smi representation multiplies the two tagged words, so in the 32-bit Smi
configuration the word it computes for any two Smi operands is `0`.  The product `1 * 1`
returns `0` instead of the Smi `1`, whose word is `2^32`.  The instruction list of that run is the
one of an `IRBuilder` that folds no constant, with each call's arguments evaluated left to right. -/
theorem smi_mul_word_zero :
    (∀ (args : Nat → BitVec 64) (results : List (BitVec 64)) (a b : BitVec 32),
      (LOp.mul (.constantInt (a.signExtend 64 <<< 32)) (.constantInt (b.signExtend 64 <<< 32))).result
        (LValue.word args results) = 0) ∧
    LLVMChunk.code (LLVMChunk.newChunk ⟨0, false, false⟩ smiProduct 2 {}) =
      some [⟨0, .mul (.constantInt 0x100000000) (.constantInt 0x100000000)⟩,
        ⟨0, .ret (.instruction 0)⟩] ∧
    evalInstructions (fun _ => 0)
        [⟨0, .mul (.constantInt 0x100000000) (.constantInt 0x100000000)⟩,
          ⟨0, .ret (.instruction 0)⟩] = [0, 0] ∧
    (1 * 1 : BitVec 32).signExtend 64 <<< 32 = 0x100000000 :=
  ⟨fun _ _ a b => shiftLeft_mul_shiftLeft (a.signExtend 64) (b.signExtend 64), by decide,
    by decide, by decide⟩

end Llv8.LLVMChunkBuilder
