import Llv8.Environment
import Llv8.Parameter

/-!
# The emitted function is well formed

Every run of `Build`, on every graph, completed or aborted, leaves a function of
`num_parameters + 3` arguments in which every instruction belongs to a basic block of the
function, names as operands only the function's arguments, constants and instructions created
before it, and branches only to basic blocks of the function; every value the builder has set
is such an operand, and every block it has mapped is a basic block of the function.  The reason
is local to each handler: an instruction only ever combines values `Use` hands out, values the
builder has set, constants, and instructions just created.
-/

namespace Llv8

/-- An operand an instruction at position `j` of a function of `arity` arguments may name: an
argument of the function, a constant, or an instruction created before it. -/
def LValue.definedBefore (arity j : Nat) : LValue → Bool
  | .argument index => decide (index < arity)
  | .constantInt _ => true
  | .instruction i => decide (i < j)

theorem LValue.definedBefore_mono {arity arity' j j' : Nat} {v : LValue}
    (defined : v.definedBefore arity j = true) (wider : arity ≤ arity') (later : j ≤ j') :
    v.definedBefore arity' j' = true := by
  cases v <;> simp only [LValue.definedBefore, decide_eq_true_eq] at defined ⊢ <;> omega

/-- The operands an instruction reads. -/
def LOp.operands : LOp → List LValue
  | .add lhs rhs | .sub lhs rhs | .mul lhs rhs | .iCmp _ lhs rhs => [lhs, rhs]
  | .shl lhs _ | .lShr lhs _ => [lhs]
  | .br _ => []
  | .condBr condition _ _ => [condition]
  | .ret value => [value]

/-- An instruction at position `j` of a function of `arity` arguments and `blocks` basic blocks
is well formed: it belongs to a basic block of the function, names only operands defined before
it, and branches only to basic blocks of the function. -/
def LInst.wellFormed (arity blocks j : Nat) (inst : LInst) : Bool :=
  decide (inst.parent < blocks) && inst.op.operands.all (·.definedBefore arity j) &&
    inst.op.targets.all (· < blocks)

theorem LInst.wellFormed_mono {arity arity' blocks blocks' j : Nat} {inst : LInst}
    (formed : inst.wellFormed arity blocks j = true) (wider : arity ≤ arity')
    (more : blocks ≤ blocks') : inst.wellFormed arity' blocks' j = true := by
  simp only [LInst.wellFormed, Bool.and_eq_true, decide_eq_true_eq, List.all_eq_true] at formed ⊢
  obtain ⟨⟨parent, operands⟩, targets⟩ := formed
  exact ⟨⟨by omega, fun v member => LValue.definedBefore_mono (operands v member) wider le_rfl⟩,
    fun t member => by have := targets t member; omega⟩

namespace BuilderState

/-- A value the function under construction can name after its last instruction. -/
def Defines (s : BuilderState) (v : LValue) : Prop :=
  v.definedBefore s.functionArity s.instructions.length = true

/-- The function under construction is well formed, every value the builder has set is an
operand it can name, and every block the builder has mapped is one of its basic blocks. -/
structure WellFormed (s : BuilderState) : Prop where
  code : ∀ (j : Nat) inst, s.instructions[j]? = some inst →
    inst.wellFormed s.functionArity s.basicBlockCount j = true
  values : ∀ id v, s.llvmValue id = some v → s.Defines v
  blocks : ∀ b x, s.llvmBasicBlock b = some x → x < s.basicBlockCount

variable {s s' : BuilderState}

theorem Defines.stable {v : LValue} (defines : s.Defines v) (step : InstrStep s s') :
    s'.Defines v := by
  obtain ⟨added, instructions, -⟩ := step.instructions
  exact LValue.definedBefore_mono defines (by rw [step.functionArity])
    (by rw [instructions, List.length_append]; omega)

theorem defines_push (s : BuilderState) (op : LOp) :
    (s.pushInstruction op).Defines (.instruction s.instructions.length) := by
  simp [Defines, LValue.definedBefore]

theorem Defines.pair {l r : LValue} (left : s.Defines l) (right : s.Defines r) :
    ∀ v ∈ [l, r], s.Defines v :=
  List.forall_mem_cons.mpr ⟨left, List.forall_mem_singleton.mpr right⟩

/-- A step that leaves the code, the values and the blocks, and may widen the arity, keeps the
function well formed. -/
theorem WellFormed.congr (formed : s.WellFormed) (values : s'.llvmValue = s.llvmValue)
    (instructions : s'.instructions = s.instructions)
    (blocks : s'.llvmBasicBlock = s.llvmBasicBlock)
    (count : s'.basicBlockCount = s.basicBlockCount)
    (wider : s.functionArity ≤ s'.functionArity) : s'.WellFormed := by
  refine ⟨fun j inst found => ?_, fun id v set => ?_, fun b x found => ?_⟩
  · rw [instructions] at found
    rw [count]
    exact LInst.wellFormed_mono (formed.code j inst found) wider le_rfl
  · rw [values] at set
    unfold Defines
    rw [instructions]
    exact LValue.definedBefore_mono (formed.values id v set) wider le_rfl
  · rw [blocks] at found
    rw [count]
    exact formed.blocks b x found

/-- An instruction of a basic block of the function, whose operands the function can name and
whose targets are its basic blocks, keeps the function well formed. -/
theorem WellFormed.push (formed : s.WellFormed) {op : LOp}
    (parent : s.insertBlock < s.basicBlockCount) (operands : ∀ v ∈ op.operands, s.Defines v)
    (targets : ∀ t ∈ op.targets, t < s.basicBlockCount) : (s.pushInstruction op).WellFormed := by
  refine ⟨fun j inst found => ?_, fun id v set => (formed.values id v set).stable
    (InstrStep.of_pushInstruction s op), formed.blocks⟩
  by_cases old : j < s.instructions.length
  · rw [BuilderState.pushInstruction, List.getElem?_append_left old] at found
    exact formed.code j inst found
  · have last : j = s.instructions.length := by
      have := (List.getElem?_eq_some_iff.mp found).1
      simp only [BuilderState.pushInstruction, List.length_append, List.length_singleton] at this
      omega
    subst last
    obtain rfl : ⟨s.insertBlock, op⟩ = inst := by simpa using found
    simp only [LInst.wellFormed, Bool.and_eq_true, decide_eq_true_eq, List.all_eq_true]
    exact ⟨⟨parent, operands⟩, targets⟩

theorem WellFormed.setValue (formed : s.WellFormed) {v : LValue} (defines : s.Defines v)
    (id : Nat) : (s.setValue id v).WellFormed := by
  refine ⟨formed.code, fun id' v' set => ?_, formed.blocks⟩
  by_cases same : id' = id
  · subst same
    obtain rfl : v = v' := by simpa using set
    exact defines
  · simp only [BuilderState.setValue, updateAt_apply, same, if_false] at set
    exact formed.values id' v' set

theorem WellFormed.addBasicBlock (formed : s.WellFormed) (block : Nat) :
    (s.addBasicBlock block).WellFormed := by
  refine ⟨fun j inst found => LInst.wellFormed_mono (formed.code j inst found) le_rfl
    (Nat.le_succ _), formed.values, fun b x found => ?_⟩
  simp only [BuilderState.addBasicBlock, updateAt_apply] at found ⊢
  split at found
  · cases found
    exact Nat.lt_succ_self _
  · exact Nat.lt_succ_of_lt (formed.blocks b x found)

end BuilderState

namespace LLVMChunkBuilder

variable (cb : LLVMChunkBuilder)

/-- The builder between blocks: the function is well formed and has the arity `Build`
declares. -/
structure Building (s : BuilderState) : Prop where
  wellFormed : s.WellFormed
  arity : s.functionArity = cb.functionArity

/-- The builder inside a block: it also inserts into a basic block of the function. -/
structure Emitting (s : BuilderState) : Prop where
  building : cb.Building s
  insertBlock : s.insertBlock < s.basicBlockCount

variable {cb} {s s' : BuilderState}

theorem Emitting.congr (emitting : cb.Emitting s) (values : s'.llvmValue = s.llvmValue)
    (instructions : s'.instructions = s.instructions)
    (blocks : s'.llvmBasicBlock = s.llvmBasicBlock)
    (count : s'.basicBlockCount = s.basicBlockCount)
    (arity : s'.functionArity = s.functionArity) (insertBlock : s'.insertBlock = s.insertBlock) :
    cb.Emitting s' :=
  ⟨⟨emitting.1.1.congr values instructions blocks count arity.ge, arity.trans emitting.1.2⟩,
    by rw [insertBlock, count]; exact emitting.2⟩

theorem Emitting.of_envStep (emitting : cb.Emitting s) (step : EnvStep s s') : cb.Emitting s' :=
  emitting.congr step.llvmValue step.instructions step.llvmBasicBlock step.basicBlockCount
    step.functionArity step.insertBlock

/-! ## Steps -/

section Steps

variable {A : Abort → BuilderState → Prop}

/-- A new instruction whose operands the function can name and whose targets are its blocks
keeps the function well formed, and the function can name it. -/
theorem insert_defines {op : LOp} :
    Triple (fun s => cb.Emitting s ∧ (∀ v ∈ op.operands, s.Defines v) ∧
        ∀ t ∈ op.targets, t < s.basicBlockCount) (insert op)
      (fun v s => cb.Emitting s ∧ s.Defines v) A :=
  .of_modifyGet fun s ⟨⟨⟨formed, arity⟩, block⟩, operands, targets⟩ =>
    ⟨⟨⟨formed.push block operands targets, arity⟩, block⟩, s.defines_push op⟩

theorem setLlvmValue_defines (id : Nat) {v : LValue} :
    Triple (fun s => cb.Emitting s ∧ s.Defines v) (setLlvmValue id v) (fun _ => cb.Emitting) A :=
  .of_modify fun _ ⟨⟨⟨formed, arity⟩, block⟩, defines⟩ =>
    ⟨⟨formed.setValue defines id, arity⟩, block⟩

/-- `Use(HBasicBlock*)` returns a basic block of the function. -/
theorem useBlock_building (block : Nat) :
    Triple cb.Building (useBlock block) (fun t s => cb.Building s ∧ t < s.basicBlockCount) A := by
  intro s ⟨formed, arity⟩
  simp only [useBlock, bind_apply, get_apply]
  cases fresh : s.llvmBasicBlock block with
  | none => exact ⟨⟨formed.addBasicBlock block, arity⟩, Nat.lt_succ_self _⟩
  | some t => exact ⟨⟨formed, arity⟩, formed.blocks block t fresh⟩

theorem useBlock_emitting (block : Nat) :
    Triple cb.Emitting (useBlock block) (fun t s => cb.Emitting s ∧ t < s.basicBlockCount) A :=
  ((useBlock_building block).frame (useBlock_instrStep block)
    (F := fun s => s.insertBlock < s.basicBlockCount) fun _ _ inside step => by
      show _ < _
      rw [step.insertBlock]
      exact lt_of_lt_of_le inside step.basicBlockCount).weaken
    (fun _ emitting => ⟨emitting.1, emitting.2⟩) (fun _ _ ⟨⟨building, t⟩, inside⟩ =>
      ⟨⟨building, inside⟩, t⟩) fun _ _ h => h

theorem record_emitting (e : Event) : Triple cb.Emitting (record e) (fun _ => cb.Emitting) A :=
  .of_modify fun _ emitting => emitting.congr rfl rfl rfl rfl rfl rfl

theorem doSimulate_emitting (popCount : Nat) (values : List (Option Nat × Nat)) :
    Triple cb.Emitting (doSimulate popCount values) (fun _ => cb.Emitting)
      (fun _ => cb.Emitting) := by
  intro s emitting
  simp only [doSimulate, bind_apply, get_apply]
  cases s.currentEnvironment
  · exact emitting
  · exact emitting.congr rfl rfl rfl rfl rfl rfl

/-- `Use` hands out a value the function can name, if the visit of its operand keeps the
function well formed. -/
theorem useValue_defines {visit : Nat → BuildM Unit} (o : Nat)
    (hvisit : Triple cb.Emitting (visit o) (fun _ => cb.Emitting) (fun _ => cb.Emitting)) :
    Triple cb.Emitting (cb.useValue visit o) (fun v s => cb.Emitting s ∧ s.Defines v)
      (fun _ => cb.Emitting) := by
  have lookup : Triple cb.Emitting (do
      let llvmValue ← dchecked ((← get).llvmValue o) "value->llvm_value()"
      record (.use o llvmValue)
      pure llvmValue) (fun v s => cb.Emitting s ∧ s.Defines v) (fun _ => cb.Emitting) := by
    intro s emitting
    simp only [bind_apply, get_apply]
    cases set : s.llvmValue o with
    | none => exact emitting
    | some v =>
      exact ⟨emitting.congr rfl rfl rfl rfl rfl rfl, emitting.1.1.values o v set⟩
  unfold useValue
  exact .bind_resolve (fun _ h => h) fun _ _ => .bind (.of_get fun _ h => h) fun _ =>
    .of_ite (fun _ => .bind hvisit fun _ => lookup) fun _ =>
      .bind (.of_pure _ fun _ h => h) fun _ => lookup

end Steps

/-! ## Handlers

Each handler creates instructions only of values `Use` hands out, values the builder has set,
constants and instructions it has just created, and sets values only to such operands. -/

section Handlers

variable {use : Nat → BuildM LValue}
  (huse : ∀ o, Triple cb.Emitting (use o) (fun v s => cb.Emitting s ∧ s.Defines v)
    (fun _ => cb.Emitting))
  (hstep : ∀ o, Guarantee InstrStep (use o))

include huse hstep in
/-- `Use` of two operands hands out two values the function can name. -/
theorem use_both {β : Type} {R : β → BuilderState → Prop} (left right : Nat)
    {f : LValue → LValue → BuildM β}
    (rest : ∀ l r, Triple (fun s => cb.Emitting s ∧ s.Defines l ∧ s.Defines r) (f l r) R
      (fun _ => cb.Emitting)) :
    Triple cb.Emitting (use left >>= fun l => use right >>= fun r => f l r) R
      (fun _ => cb.Emitting) :=
  .bind (huse left) fun l => .bind (((huse right).frame (hstep right)
    (F := fun s => s.Defines l) fun _ _ defines step => defines.stable step).weaken
    (fun _ h => h) (fun _ _ ⟨⟨emitting, right⟩, left⟩ => ⟨emitting, left, right⟩)
    fun _ _ h => h) fun r => rest l r

/-- An instruction of two operands the function can name, with no targets. -/
theorem insert_pair {l r : LValue} {op : LOp} (operands : op.operands = [l, r])
    (targets : op.targets = []) :
    Triple (fun s => cb.Emitting s ∧ s.Defines l ∧ s.Defines r) (insert op)
      (fun v s => cb.Emitting s ∧ s.Defines v) (fun _ => cb.Emitting) :=
  insert_defines.weaken (fun _ ⟨emitting, left, right⟩ =>
    ⟨emitting, operands ▸ left.pair right, fun _ member => by
      rw [targets] at member; cases member⟩) (fun _ _ h => h) fun _ _ h => h

/-- An instruction of one operand the function can name, with no targets. -/
theorem insert_single {v : LValue} {op : LOp} (operands : op.operands = [v])
    (targets : op.targets = []) :
    Triple (fun s => cb.Emitting s ∧ s.Defines v) (insert op)
      (fun v s => cb.Emitting s ∧ s.Defines v) (fun _ => cb.Emitting) :=
  insert_defines.weaken (fun _ ⟨emitting, defines⟩ =>
    ⟨emitting, operands ▸ List.forall_mem_singleton.mpr defines, fun _ member => by
      rw [targets] at member; cases member⟩) (fun _ _ h => h) fun _ _ h => h

theorem doParameter_defines (id index : Nat) :
    Triple cb.Emitting (cb.doParameter id index) (fun _ => cb.Emitting)
      (fun _ => cb.Emitting) := by
  intro s emitting
  show match cb.doParameter id index s with
    | .ok _ s' => cb.Emitting s' | .error _ s' => cb.Emitting s'
  rw [doParameter_eq]
  refine ⟨⟨emitting.1.1.setValue ?_ id, emitting.1.2⟩, emitting.2⟩
  simp only [BuilderState.Defines, LValue.definedBefore, emitting.1.2, functionArity,
    decide_eq_true_eq]
  omega

theorem doConstant_defines (id : Nat) (instr : HValue) (constant : HConstantValue) :
    Triple cb.Emitting (cb.doConstant id instr constant) (fun _ => cb.Emitting)
      (fun _ => cb.Emitting) :=
  .bind (constantWord_triple (fun _ _ h _ => h) cb _ _) fun _ =>
    (setLlvmValue_defines id).weaken (fun _ emitting => ⟨emitting, rfl⟩) (fun _ _ h => h)
      fun _ _ h => h

include huse hstep in
theorem doAdd_defines (id : Nat) (instr : HValue) (left right : Nat) :
    Triple cb.Emitting (cb.doAdd use id instr left right) (fun _ => cb.Emitting)
      (fun _ => cb.Emitting) :=
  .of_ite (fun _ => .bind (valueAt_triple (fun _ _ h _ => h) cb _) fun _ =>
    .bind (dcheck_triple (fun _ _ h _ => h) _ _ (by decide)) fun _ =>
    .bind (valueAt_triple (fun _ _ h _ => h) cb _) fun _ =>
    .bind (dcheck_triple (fun _ _ h _ => h) _ _ (by decide)) fun _ =>
    use_both huse hstep left right fun _ _ =>
      .bind (insert_pair rfl rfl) fun _ => setLlvmValue_defines id)
    fun _ => .of_throw _ fun _ h => h

/-- `DoSub` and `DoMul` read values the builder has set. -/
theorem doBinaryOnValues_defines (op : LValue → LValue → LOp)
    (operands : ∀ l r, (op l r).operands = [l, r]) (targets : ∀ l r, (op l r).targets = [])
    (id : Nat) (instr : HValue) (left right : Nat) :
    Triple cb.Emitting (cb.doBinaryOnValues op id instr left right) (fun _ => cb.Emitting)
      (fun _ => cb.Emitting) :=
  .of_ite (fun _ => .bind (valueAt_triple (fun _ _ h _ => h) cb _) fun _ =>
    .bind (dcheck_triple (fun _ _ h _ => h) _ _ (by decide)) fun _ =>
    .bind (valueAt_triple (fun _ _ h _ => h) cb _) fun _ =>
    .bind (dcheck_triple (fun _ _ h _ => h) _ _ (by decide)) fun _ =>
    .bind_checked_get (fun _ h => h) fun _ => .bind_checked_get (fun _ h => h.1) fun _ =>
    .bind ((insert_pair (operands _ _) (targets _ _)).weaken
      (fun _ ⟨⟨emitting, leftSet⟩, rightSet⟩ => ⟨emitting, emitting.1.1.values _ _ leftSet,
        emitting.1.1.values _ _ rightSet⟩) (fun _ _ h => h) fun _ _ h => h) fun _ =>
    setLlvmValue_defines id)
    fun _ => .of_throw _ fun _ h => h

include huse in
theorem smiToInteger32_defines (x : Nat) :
    Triple cb.Emitting (cb.smiToInteger32 use x) (fun v s => cb.Emitting s ∧ s.Defines v)
      (fun _ => cb.Emitting) :=
  .of_ite (fun _ => .bind (huse x) fun _ => insert_single (by rfl) (by rfl))
    fun _ => .of_throw _ fun _ h => h

include huse in
theorem integer32ToSmi_defines (x : Nat) :
    Triple cb.Emitting (cb.integer32ToSmi use x) (fun v s => cb.Emitting s ∧ s.Defines v)
      (fun _ => cb.Emitting) :=
  .bind (huse x) fun _ => insert_single (by rfl) (by rfl)

include huse in
theorem doChange_defines (id : Nat) (instr : HValue) (x : Nat)
    (fromRep toRep : Representation) :
    Triple cb.Emitting (cb.doChange use id instr x fromRep toRep) (fun _ => cb.Emitting)
      (fun _ => cb.Emitting) := by
  have abort {α : Type} {Q : α → BuilderState → Prop} :
      Triple cb.Emitting unimplemented Q (fun _ => cb.Emitting) :=
    .of_throw _ fun _ h => h
  have passOn : Triple cb.Emitting (use x >>= setLlvmValue id) (fun _ => cb.Emitting)
      (fun _ => cb.Emitting) :=
    .bind (huse x) fun _ => setLlvmValue_defines id
  unfold doChange
  exact .of_ite (fun _ => passOn) fun _ => .of_ite (fun _ => .of_ite (fun _ => abort) fun _ =>
      .of_ite (fun _ => passOn) fun _ => .bind (.of_dcheck _ _ fun _ h => h) fun _ =>
        .bind (smiToInteger32_defines huse x) fun _ => setLlvmValue_defines id) fun _ =>
    .of_ite (fun _ => abort) fun _ => .of_ite (fun _ => .of_ite (fun _ => .of_ite (fun _ =>
      .bind (integer32ToSmi_defines huse x) fun _ => setLlvmValue_defines id) fun _ => abort)
      fun _ => .of_ite (fun _ => abort) fun _ => .bind (.of_dcheck _ _ fun _ h => h) fun _ =>
        abort) fun _ => .of_pure _ fun _ h => h

include huse hstep in
theorem doCompareNumericAndBranch_defines (id : Nat) (instr : HValue) (token : Token)
    (left right : Nat) :
    Triple cb.Emitting (cb.doCompareNumericAndBranch use id instr token left right)
      (fun _ => cb.Emitting) (fun _ => cb.Emitting) := by
  unfold doCompareNumericAndBranch
  exact .bind (valueAt_triple (fun _ _ h _ => h) cb _) fun _ =>
    .bind (valueAt_triple (fun _ _ h _ => h) cb _) fun _ =>
    .bind (dcheck_triple (fun _ _ h _ => h) _ _ (by decide)) fun _ =>
    .bind (dcheck_triple (fun _ _ h _ => h) _ _ (by decide)) fun _ =>
    .bind (tokenToPredicate_triple (fun _ _ h _ => h) _ _) fun _ =>
    .of_ite (fun _ => .of_throw _ fun _ h => h) fun _ => .of_ite (fun _ =>
      use_both huse hstep left right fun _ _ => .bind (insert_pair rfl rfl) fun compare =>
      .bind_resolve (fun _ h => h.1) fun _ _ =>
      .bind ((useBlock_emitting _).frame (useBlock_instrStep _)
        (F := fun s => s.Defines compare) fun _ _ defines step => defines.stable step) fun t =>
      .bind_resolve (fun _ h => h.1.1) fun _ _ =>
      .bind (((useBlock_emitting _).frame (useBlock_instrStep _)
        (F := fun s => s.Defines compare ∧ t < s.basicBlockCount) fun _ _ ⟨defines, first⟩ step =>
          ⟨defines.stable step, lt_of_lt_of_le first step.basicBlockCount⟩).weaken
        (fun _ ⟨⟨emitting, first⟩, defines⟩ => ⟨emitting, defines, first⟩) (fun _ _ h => h)
        fun _ _ h => h) fun f =>
      .bind (insert_defines.weaken (fun _ ⟨⟨emitting, second⟩, defines, first⟩ =>
        ⟨emitting, List.forall_mem_singleton.mpr defines,
          List.forall_mem_cons.mpr ⟨first, List.forall_mem_singleton.mpr second⟩⟩)
        (fun _ _ h => h) fun _ _ h => h) fun _ => setLlvmValue_defines id)
      fun _ => .bind (.of_dcheck _ _ fun _ h => h) fun _ => .of_throw _ fun _ h => h

include huse in
theorem doReturn_defines (value count : Nat) :
    Triple cb.Emitting (cb.doReturn use value count) (fun _ => cb.Emitting)
      (fun _ => cb.Emitting) := by
  have abort {α : Type} {Q : α → BuilderState → Prop} :
      Triple cb.Emitting unimplemented Q (fun _ => cb.Emitting) :=
    .of_throw _ fun _ h => h
  have emit : Triple cb.Emitting (do
      dcheck (!cb.info.isStub) "!info()->IsStub()"
      match (← cb.valueAt count).kind with
      | .instruction (.constant _) => discard (insert (.ret (← use value)))
      | _ => unimplemented) (fun _ => cb.Emitting) (fun _ => cb.Emitting) :=
    .bind_dcheck (fun _ h => h) fun _ => .bind_resolve (fun _ h => h) fun _ _ => by
      split
      · exact .bind (huse value) fun _ => .of_discard ((insert_single (by rfl) (by rfl)).weaken
          (fun _ h => h) (fun _ _ h => h.1) fun _ _ h => h)
      · exact abort
  unfold doReturn
  exact .of_ite (fun _ => .bind abort fun _ => .of_ite (fun _ => .bind abort fun _ => emit)
    fun _ => .bind (.of_pure _ fun _ h => h) fun _ => emit) fun _ =>
    .bind (.of_pure _ fun _ h => h) fun _ => .of_ite (fun _ => .bind abort fun _ => emit)
      fun _ => .bind (.of_pure _ fun _ h => h) fun _ => emit

include huse hstep in
/-- Every handler keeps the function well formed. -/
theorem compileToLLVM_defines (id : Nat) (instr : HValue) (opcode : HOpcode) :
    Triple cb.Emitting (cb.compileToLLVM use id instr opcode) (fun _ => cb.Emitting)
      (fun _ => cb.Emitting) := by
  cases opcode
  case parameter index => exact doParameter_defines id index
  case constant constant => exact doConstant_defines id instr constant
  case change x fromRep toRep => exact doChange_defines huse id instr x fromRep toRep
  case add left right => exact doAdd_defines huse hstep id instr left right
  case sub left right =>
    exact doBinaryOnValues_defines .sub (fun _ _ => rfl) (fun _ _ => rfl) id instr left right
  case mul left right =>
    exact doBinaryOnValues_defines .mul (fun _ _ => rfl) (fun _ _ => rfl) id instr left right
  case compareNumericAndBranch token left right =>
    exact doCompareNumericAndBranch_defines huse hstep id instr token left right
  case «return» value count => exact doReturn_defines huse value count
  case simulate popCount values => exact doSimulate_emitting popCount values
  case blockEntry =>
    exact .of_discard ((useBlock_emitting _).weaken (fun _ h => h) (fun _ _ h => h.1)
      fun _ _ h => h)
  case context =>
    exact .of_ite (fun _ => .of_pure _ fun _ h => h) fun _ =>
      .of_ite (fun _ => .of_throw _ fun _ h => h) fun _ => .of_pure _ fun _ h => h
  case argumentsObject | stackCheck => exact .of_pure _ fun _ h => h
  all_goals exact .of_throw _ fun _ h => h

end Handlers

/-! ## Runs -/

/-- Every visit keeps the function well formed, at every fuel. -/
theorem visitInstruction_defines (fuel : Nat) : ∀ id,
    Triple cb.Emitting (cb.visitInstruction fuel id) (fun _ => cb.Emitting)
      (fun _ => cb.Emitting) := by
  induction fuel with
  | zero => exact fun _ => .of_throw _ fun _ h => h
  | succ fuel visit =>
    intro id
    have abort {α : Type} {Q : α → BuilderState → Prop} :
        Triple cb.Emitting unimplemented Q (fun _ => cb.Emitting) :=
      .of_throw _ fun _ h => h
    refine .bind (record_emitting _) fun _ => .bind_resolve (fun _ h => h) fun current _ =>
      .bind_dchecked (fun _ h => h) fun opcode _ => .of_ite (fun _ => ?_) fun _ => ?_
    · split
      · exact abort
      · exact .bind_resolve (fun _ h => h) fun _ _ =>
          .bind (.of_dcheck _ _ fun _ h => h) fun _ => abort
    · split
      · exact .bind (useBlock_emitting _) fun _ => .of_discard (insert_defines.weaken
          (fun _ ⟨emitting, target⟩ => ⟨emitting, fun _ member => absurd member
            (List.not_mem_nil _), List.forall_mem_singleton.mpr target⟩) (fun _ _ h => h.1)
          fun _ _ h => h)
      · exact compileToLLVM_defines (fun o => useValue_defines o (visit o))
          (useValue_instrStep cb fuel) id current opcode

theorem doInstructions_defines (fuel : Nat) (ids : List Nat) :
    Triple cb.Emitting (cb.doInstructions fuel ids) (fun _ => cb.Emitting)
      (fun _ => cb.Emitting) := by
  induction ids with
  | nil => exact .of_pure _ fun _ h => h
  | cons id rest loop =>
    exact .bind (.of_get fun _ h => h) fun _ => .of_ite (fun _ => .of_pure _ fun _ h => h)
      fun _ => .bind_resolve (fun _ h => h) fun _ _ => .of_ite
        (fun _ => .bind (visitInstruction_defines fuel id) fun _ => loop)
        fun _ => .bind (.of_pure _ fun _ h => h) fun _ => loop

/-- `DoBasicBlock` keeps the function well formed: it inserts into the block's basic block. -/
theorem doBasicBlock_building (fuel : Nat) (block : HBasicBlock) :
    Triple cb.Building (cb.doBasicBlock fuel block) (fun _ => cb.Building)
      (fun _ => cb.Building) :=
  .bind (.of_get fun _ h => h) fun _ => .bind (.of_dcheck _ _ fun _ h => h) fun _ =>
    .bind (useBlock_building _) fun _ =>
    .bind (Q := fun _ => cb.Emitting) (.of_modify fun _ ⟨⟨formed, arity⟩, inside⟩ =>
      ⟨⟨formed.congr rfl rfl rfl rfl le_rfl, arity⟩, inside⟩) fun _ =>
    .bind ((bindEnvironment_envStep (fun _ _ emitting step => emitting.of_envStep step)
      (fun _ _ h _ => h) cb block).weaken (fun _ h => h) (fun _ _ h => h) fun _ _ h => h.1)
      fun _ =>
    .bind ((doInstructions_defines fuel _).weaken (fun _ h => h) (fun _ _ h => h)
      fun _ _ h => h.1) fun _ =>
    .of_modify fun _ ⟨⟨formed, arity⟩, _⟩ => ⟨formed.congr rfl rfl rfl rfl le_rfl, arity⟩

theorem doBlocks_building (fuel : Nat) (blocks : List HBasicBlock) :
    Triple cb.Building (cb.doBlocks fuel blocks) (fun _ => cb.Building)
      (fun _ => cb.Building) := by
  induction blocks with
  | nil => exact .of_pure _ fun _ h => h
  | cons block rest loop =>
    exact .bind (doBasicBlock_building fuel block) fun _ =>
      .bind (.of_get fun _ h => h) fun _ => .of_ite (fun _ => .of_pure _ fun _ h => h)
        fun _ => loop

/-- `Build` leaves a well-formed function, from any well-formed state whose arity is at most
the one it declares. -/
theorem build_building (fuel : Nat) :
    Triple (fun s => s.WellFormed ∧ s.functionArity ≤ cb.functionArity) (cb.build fuel)
      (fun _ => cb.Building) (fun _ => cb.Building) :=
  .bind (Q := fun _ => cb.Building) (.of_modify fun _ ⟨formed, wider⟩ =>
    ⟨formed.congr rfl rfl rfl rfl wider, rfl⟩) fun _ =>
    .bind (doBlocks_building fuel _) fun _ =>
    .of_ite (fun _ => .of_pure _ fun _ h => h) fun _ =>
    .bind (Q := fun _ => cb.Building) (.of_pure _ fun _ h => h) fun _ =>
    .bind (.of_modify fun _ ⟨formed, arity⟩ => by
      exact ⟨formed.congr rfl rfl rfl rfl le_rfl, arity⟩) fun _ =>
    .bind (.of_get fun _ h => h) fun _ => .of_pure _ fun _ h => h

end LLVMChunkBuilder

/-- Every run of `Build`, completed or aborted, leaves a well-formed function of
`num_parameters + 3` arguments, whose set values and mapped blocks it contains. -/
theorem build_wellFormed (cb : LLVMChunkBuilder) (fuel : Nat) (session : LLVMGranularity) :
    let s := finalState (cb.build fuel (BuilderState.initial cb.graph session))
    s.functionArity = cb.info.numParameters + 3 ∧
      (∀ (j : Nat) inst, s.instructions[j]? = some inst →
        inst.wellFormed s.functionArity s.basicBlockCount j = true) ∧
      (∀ id v, s.llvmValue id = some v →
        v.definedBefore s.functionArity s.instructions.length = true) ∧
      ∀ b x, s.llvmBasicBlock b = some x → x < s.basicBlockCount := by
  have start : (BuilderState.initial cb.graph session).WellFormed :=
    ⟨fun _ _ found => by simp [BuilderState.initial] at found, fun _ _ set => (nomatch set),
      fun _ _ found => nomatch found⟩
  have final := @LLVMChunkBuilder.build_building cb fuel _ ⟨start, Nat.zero_le _⟩
  have building : cb.Building (finalState (cb.build fuel (BuilderState.initial cb.graph session)))
      := by
    simp only [finalState]
    split <;> next result => rw [result] at final; exact final
  exact ⟨building.arity, building.wellFormed.code, building.wellFormed.values,
    building.wellFormed.blocks⟩

end Llv8
