import Llv8.Triple

/-!
# What visiting an instruction does to the builder

The handlers are built from a few primitive steps: `Use`, `set_llvm_value`, instruction
creation, `Use(HBasicBlock*)`, the replay of a simulate, and reads and checks.  An invariant
that every primitive step keeps is kept by every handler (`compileToLLVM_triple`) and by
`VisitInstruction` (`visitInstruction_triple`), provided that the handler's `set_llvm_value`,
always its last step, lands in the postcondition, and that the invariant holds at every abort
other than a failed `DCHECK` of `Use`.  `InstrStep` is such an invariant, so visiting
instructions only sets values, adds basic blocks for blocks that have none, appends
instructions to the insertion block and events to the trace, and writes the environment of the
block being processed.
-/

namespace Llv8

namespace InstrStep

theorem of_setValue (s : BuilderState) (id : Nat) (v : LValue) : InstrStep s (s.setValue id v) := by
  refine ⟨rfl, rfl, rfl, rfl, rfl, rfl, rfl, rfl, rfl, rfl, fun _ _ => rfl, fun k _ => ?_,
    fun _ _ h => h, le_rfl, BlockMap.congr rfl rfl, ⟨[], by simp, by simp⟩, ⟨[], by simp⟩, rfl,
    rfl⟩
  simp only [BuilderState.setValue, updateAt_apply]
  split <;> simp_all

theorem of_pushInstruction (s : BuilderState) (op : LOp) : InstrStep s (s.pushInstruction op) :=
  ⟨rfl, rfl, rfl, rfl, rfl, rfl, rfl, rfl, rfl, rfl, fun _ _ => rfl, fun _ h => h,
    fun _ _ h => h, le_rfl, BlockMap.congr rfl rfl, ⟨[⟨s.insertBlock, op⟩], rfl, by simp⟩,
    ⟨[], by simp⟩, rfl, rfl⟩

theorem of_addEvent (s : BuilderState) (e : Event) : InstrStep s (s.addEvent e) :=
  ⟨rfl, rfl, rfl, rfl, rfl, rfl, rfl, rfl, rfl, rfl, fun _ _ => rfl, fun _ h => h,
    fun _ _ h => h, le_rfl, BlockMap.congr rfl rfl, ⟨[], by simp, by simp⟩, ⟨[e], rfl⟩, rfl,
    rfl⟩

theorem of_writeEnvironment (s : BuilderState) (address : Nat) (contents : List Nat)
    (current : s.currentEnvironment = some address) :
    InstrStep s (s.writeEnvironment address contents) := by
  refine ⟨rfl, rfl, rfl, rfl, rfl, rfl, rfl, rfl, rfl, rfl, fun other ne => ?_, fun _ h => h,
    fun _ _ h => h, le_rfl, BlockMap.congr rfl rfl, ⟨[], by simp, by simp⟩, ⟨[], by simp⟩, rfl,
    rfl⟩
  have : other ≠ address := by rintro rfl; exact ne current
  simp [updateAt_apply, this]

/-- A new basic block for a block that has none keeps the block map one-to-one and onto. -/
theorem of_addBasicBlock (s : BuilderState) (block : Nat) (fresh : s.llvmBasicBlock block = none) :
    InstrStep s (s.addBasicBlock block) := by
  refine ⟨rfl, rfl, rfl, rfl, rfl, rfl, rfl, rfl, rfl, rfl, fun _ _ => rfl, fun _ h => h,
    fun b x h => ?_, Nat.le_succ _, fun map => ?_, ⟨[], by simp, by simp⟩, ⟨[], by simp⟩, rfl,
    rfl⟩
  · have : b ≠ block := by rintro rfl; simp_all
    simp [updateAt_apply, this, h]
  · obtain ⟨lt_count, injective, onto⟩ := map
    refine ⟨fun b x h => ?_, fun b b' x h h' => ?_, fun x lt => ?_⟩
    · simp only [BuilderState.addBasicBlock, updateAt_apply] at h ⊢
      split at h
      · cases h; omega
      · exact Nat.lt_succ_of_lt (lt_count b x h)
    · simp only [BuilderState.addBasicBlock, updateAt_apply] at h h'
      split at h <;> split at h'
      · simp_all
      · cases h; exact absurd (lt_count b' _ h') (lt_irrefl _)
      · cases h'; exact absurd (lt_count b _ h) (lt_irrefl _)
      · exact injective b b' x h h'
    · simp only [BuilderState.addBasicBlock, updateAt_apply]
      rcases Nat.lt_succ_iff_lt_or_eq.mp lt with old | rfl
      · obtain ⟨b, hb⟩ := onto x old
        refine ⟨b, ?_⟩
        have : b ≠ block := by rintro rfl; simp_all
        simp [this, hb]
      · exact ⟨block, by simp⟩

end InstrStep

section Stable

/-! A property of states that instruction steps keep is kept by every primitive step. -/

variable {P : BuilderState → Prop} {A : Abort → BuilderState → Prop}
  (stable : ∀ s s', P s → InstrStep s s' → P s')
include stable

theorem setLlvmValue_stable (id : Nat) (v : LValue) :
    Triple P (setLlvmValue id v) (fun _ => P) A :=
  .of_modify fun s holds => stable _ _ holds (InstrStep.of_setValue s id v)

theorem insert_stable (op : LOp) : Triple P (insert op) (fun _ => P) A :=
  .of_modifyGet fun s holds => stable _ _ holds (InstrStep.of_pushInstruction s op)

theorem record_stable (e : Event) : Triple P (record e) (fun _ => P) A :=
  .of_modify fun s holds => stable _ _ holds (InstrStep.of_addEvent s e)

theorem useBlock_stable (block : Nat) : Triple P (useBlock block) (fun _ => P) A := by
  intro s holds
  simp only [useBlock, bind_apply, get_apply]
  cases fresh : s.llvmBasicBlock block
  · exact stable _ _ holds (InstrStep.of_addBasicBlock s block fresh)
  · exact holds

theorem doSimulate_stable (aborts : ∀ s, P s → A (.dcheckFailed "env != NULL") s)
    (popCount : Nat) (values : List (Option Nat × Nat)) :
    Triple P (LLVMChunkBuilder.doSimulate popCount values) (fun _ => P) A := by
  intro s holds
  simp only [LLVMChunkBuilder.doSimulate, bind_apply, get_apply]
  cases current : s.currentEnvironment
  · exact aborts s holds
  · exact stable _ _ holds (InstrStep.of_writeEnvironment s _ _ current)

end Stable


/-- An abort that a handler raises itself: anything but a failed `DCHECK` of `Use` and the
recursion running out of fuel. -/
def Abort.ofHandler : Abort → Bool
  | .dcheckFailed condition => condition != "value->llvm_value()"
  | .outOfFuel => false
  | _ => true

theorem Abort.ofHandler_dcheckFailed {text : String} (other : text ≠ "value->llvm_value()") :
    (Abort.dcheckFailed text).ofHandler = true := by
  simp [Abort.ofHandler, other]

theorem Abort.ne_use_of_ofHandler {e : Abort} (raised : e.ofHandler = true) :
    e ≠ .dcheckFailed "value->llvm_value()" := by
  rintro rfl
  simp [Abort.ofHandler] at raised

theorem Abort.ne_outOfFuel_of_ofHandler {e : Abort} (raised : e.ofHandler = true) :
    e ≠ .outOfFuel := by
  rintro rfl
  simp [Abort.ofHandler] at raised

/-- The operands a handler hands to `Use`. -/
def HOpcode.usedOperands : HOpcode → List Nat
  | .change value .. => [value]
  | .add left right | .compareNumericAndBranch _ left right => [left, right]
  | .«return» value _ => [value]
  | _ => []

/-- The operands `DoSub` and `DoMul` read directly, without `Use`. -/
def HOpcode.readOperands : HOpcode → List Nat
  | .sub left right | .mul left right => [left, right]
  | _ => []

/-- The blocks `VisitInstruction` and the handlers pass to `Use(HBasicBlock*)` for a value: its
own block, its successors and its known successor. -/
def HValue.blockRefs (value : HValue) : List Nat :=
  value.block :: value.successors ++ value.knownSuccessor.toList

theorem HValue.isControlInstruction_of_opcode {value : HValue} {opcode : HOpcode}
    (isInstruction : value.opcode? = some opcode) :
    value.isControlInstruction = opcode.isControlInstruction := by
  obtain ⟨kind⟩ := value
  cases kind <;> simp_all [HValue.opcode?, HValue.isControlInstruction]

theorem HValue.kind_of_opcode {value : HValue} {opcode : HOpcode}
    (isInstruction : value.opcode? = some opcode) : value.kind = .instruction opcode := by
  obtain ⟨kind⟩ := value
  cases kind <;> simp_all [HValue.opcode?]

namespace LLVMChunkBuilder

section Reads

variable {α : Type} {I : BuilderState → Prop} {A : Abort → BuilderState → Prop}
  (throws : ∀ e s, I s → e.ofHandler = true → A e s)
include throws

theorem throw_triple {Q : α → BuilderState → Prop} (e : Abort) (raised : e.ofHandler = true) :
    Triple I (throw e) Q A :=
  .of_throw e fun s holds => throws e s holds raised

theorem unimplemented_triple {Q : α → BuilderState → Prop} : Triple I unimplemented Q A :=
  throw_triple throws _ rfl

theorem dcheck_triple (c : Bool) (text : String) (other : text ≠ "value->llvm_value()") :
    Triple I (dcheck c text) (fun _ => I) A :=
  .of_dcheck c text fun s holds => throws _ s holds (Abort.ofHandler_dcheckFailed other)

theorem checked_triple (o : Option α) (text : String) :
    Triple I (checked o text) (fun _ => I) A :=
  .weaken (.of_checked o text fun s holds => throws _ s holds rfl) (fun _ => id)
    (fun _ _ => And.left) fun _ _ => id

theorem dchecked_triple (o : Option α) (text : String) (other : text ≠ "value->llvm_value()") :
    Triple I (dchecked o text) (fun _ => I) A :=
  .weaken (.of_dchecked o text fun s holds => throws _ s holds
    (Abort.ofHandler_dcheckFailed other)) (fun _ h => h) (fun _ _ => And.left) fun _ _ h => h

theorem resolve_triple (o : Option α) : Triple I (resolve o) (fun _ => I) A :=
  .weaken (.of_resolve o fun s holds => throws _ s holds rfl) (fun _ => id)
    (fun _ _ => And.left) fun _ _ => id

variable (cb : LLVMChunkBuilder)

theorem valueAt_triple (id : Nat) : Triple I (cb.valueAt id) (fun _ => I) A :=
  resolve_triple throws _

theorem tokenToPredicate_triple (token : Token) (isUnsigned : Bool) :
    Triple I (tokenToPredicate token isUnsigned) (fun _ => I) A := by
  cases token <;>
    first | exact .of_pure _ fun _ => id | exact throw_triple throws _ rfl

theorem constantWord_triple (r : Representation) (constant : HConstantValue) :
    Triple I (cb.constantWord r constant) (fun _ => I) A := by
  have lookup : Triple I (integer32Value constant) (fun _ => I) A := by
    cases constant
    · exact .of_pure _ fun _ => id
    · exact throw_triple throws _ (Abort.ofHandler_dcheckFailed (by decide))
  unfold constantWord
  refine .of_ite (fun _ => .bind lookup fun _ => .of_pure _ fun _ => id) fun _ =>
    .of_ite (fun _ => .bind lookup fun _ => .of_pure _ fun _ => id) fun _ =>
    .of_ite (fun _ => unimplemented_triple throws) fun _ =>
    .of_ite (fun _ => unimplemented_triple throws) fun _ => .of_ite (fun _ => ?_) fun _ =>
      throw_triple throws _ rfl
  cases constant
  · exact .of_ite (fun _ => .of_pure _ fun _ => id) fun _ => unimplemented_triple throws
  · exact unimplemented_triple throws

end Reads

section Handlers

/-! Each handler keeps an invariant `I` that `Use` of its operands, instruction creation and
`Use(HBasicBlock*)` of the blocks it names keep, and ends in `J`, which its `set_llvm_value`
reaches and which `I` implies.  Only the handlers of control instructions create terminators. -/

variable {I J : BuilderState → Prop} {A : Abort → BuilderState → Prop}
  (throws : ∀ e s, I s → e.ofHandler = true → A e s)
  (keep : ∀ s, I s → J s)
  (cb : LLVMChunkBuilder) (id : Nat) {use : Nat → BuildM LValue}
  (hinsert : ∀ op, op.isTerminator = false → Triple I (insert op) (fun _ => I) A)
  (hset : ∀ value, Triple I (setLlvmValue id value) (fun _ => J) A)

include throws hinsert

theorem smiToInteger32_triple (value : Nat) (huse : Triple I (use value) (fun _ => I) A) :
    Triple I (cb.smiToInteger32 use value) (fun _ => I) A :=
  .of_ite (fun _ => .bind huse fun _ => hinsert _ rfl) fun _ => unimplemented_triple throws

omit throws in
theorem integer32ToSmi_triple (value : Nat) (huse : Triple I (use value) (fun _ => I) A) :
    Triple I (cb.integer32ToSmi use value) (fun _ => I) A :=
  .bind huse fun _ => hinsert _ rfl

include hset

theorem doAdd_triple (instr : HValue) (left right : Nat)
    (hleft : Triple I (use left) (fun _ => I) A) (hright : Triple I (use right) (fun _ => I) A) :
    Triple I (cb.doAdd use id instr left right) (fun _ => J) A := by
  unfold doAdd
  exact .of_ite (fun _ => .bind (valueAt_triple throws cb _) fun _ =>
    .bind (dcheck_triple throws _ _ (by decide)) fun _ =>
    .bind (valueAt_triple throws cb _) fun _ =>
    .bind (dcheck_triple throws _ _ (by decide)) fun _ => .bind hleft fun _ => .bind hright fun _ =>
    .bind (hinsert _ rfl) fun _ => hset _) fun _ => unimplemented_triple throws

theorem doBinaryOnValues_triple (op : LValue → LValue → LOp)
    (plain : ∀ lhs rhs, (op lhs rhs).isTerminator = false) (instr : HValue) (left right : Nat) :
    Triple I (cb.doBinaryOnValues op id instr left right) (fun _ => J) A := by
  unfold doBinaryOnValues
  exact .of_ite (fun _ => .bind (valueAt_triple throws cb _) fun _ =>
    .bind (dcheck_triple throws _ _ (by decide)) fun _ =>
    .bind (valueAt_triple throws cb _) fun _ =>
    .bind (dcheck_triple throws _ _ (by decide)) fun _ => .bind (.of_get fun _ h => h) fun _ =>
    .bind (checked_triple throws _ _) fun _ => .bind (.of_get fun _ h => h) fun _ =>
    .bind (checked_triple throws _ _) fun _ => .bind (hinsert _ (plain _ _)) fun _ => hset _)
    fun _ => unimplemented_triple throws

include keep

theorem doChange_triple (instr : HValue) (val : Nat) (fromRep toRep : Representation)
    (huse : Triple I (use val) (fun _ => I) A) :
    Triple I (cb.doChange use id instr val fromRep toRep) (fun _ => J) A := by
  have passOn : Triple I (use val >>= setLlvmValue id) (fun _ => J) A :=
    .bind huse fun _ => hset _
  have abort {α : Type} {Q : α → BuilderState → Prop} : Triple I unimplemented Q A :=
    unimplemented_triple throws
  unfold doChange
  exact .of_ite (fun _ => passOn) fun _ => .of_ite (fun _ => .of_ite (fun _ => abort) fun _ =>
      .of_ite (fun _ => passOn) fun _ => .bind (dcheck_triple throws _ _ (by decide)) fun _ =>
        .bind (smiToInteger32_triple throws cb hinsert val huse) fun _ => hset _) fun _ =>
    .of_ite (fun _ => abort) fun _ => .of_ite (fun _ => .of_ite (fun _ => .of_ite (fun _ =>
      .bind (integer32ToSmi_triple cb hinsert val huse) fun _ => hset _)
        fun _ => abort) fun _ =>
      .of_ite (fun _ => abort) fun _ => .bind (dcheck_triple throws _ _ (by decide)) fun _ => abort)
      fun _ => .of_pure _ keep

variable (hterm : ∀ op, op.isTerminator = true → Triple I (insert op) (fun _ => I) A)

omit keep in
include hterm in
theorem doCompareNumericAndBranch_triple (instr : HValue) (token : Token) (left right : Nat)
    (hblock : ∀ block ∈ instr.blockRefs, Triple I (useBlock block) (fun _ => I) A)
    (hleft : Triple I (use left) (fun _ => I) A) (hright : Triple I (use right) (fun _ => I) A) :
    Triple I (cb.doCompareNumericAndBranch use id instr token left right) (fun _ => J) A := by
  have target (i : Nat) {β : Type} {R : β → BuilderState → Prop} {f : Nat → BuildM β}
      (rest : ∀ block, Triple I (f block) R A) :
      Triple I (successorAt instr i >>= fun block => useBlock block >>= f) R A :=
    .bind_resolve (fun s holds => throws _ s holds rfl) fun block found =>
      .bind (hblock block (List.mem_cons_of_mem _ (List.mem_append_left _
        (List.getElem?_mem found)))) fun _ => rest _
  unfold doCompareNumericAndBranch
  exact .bind (valueAt_triple throws cb _) fun _ => .bind (valueAt_triple throws cb _) fun _ =>
    .bind (dcheck_triple throws _ _ (by decide)) fun _ =>
    .bind (dcheck_triple throws _ _ (by decide)) fun _ =>
    .bind (tokenToPredicate_triple throws _ _) fun _ =>
    .of_ite (fun _ => unimplemented_triple throws) fun _ => .of_ite (fun _ =>
      .bind hleft fun _ => .bind hright fun _ => .bind (hinsert _ rfl) fun _ =>
      target 0 fun _ => target 1 fun _ => .bind (hterm _ rfl) fun _ => hset _) fun _ =>
      .bind (dcheck_triple throws _ _ (by decide)) fun _ => unimplemented_triple throws

omit hinsert hset in
include hterm in
theorem doReturn_triple (value parameterCount : Nat)
    (huse : Triple I (use value) (fun _ => I) A) :
    Triple I (cb.doReturn use value parameterCount) (fun _ => J) A := by
  have rest : Triple I (do
      dcheck (!cb.info.isStub) "!info()->IsStub()"
      match (← cb.valueAt parameterCount).kind with
      | .instruction (.constant _) => discard (insert (.ret (← use value)))
      | _ => unimplemented) (fun _ => J) A :=
    .bind (dcheck_triple throws _ _ (by decide)) fun _ =>
      .bind (valueAt_triple throws cb _) fun count => by
        split
        · exact .bind huse fun _ => .of_discard (.weaken (hterm _ rfl) (fun _ h => h)
            (fun _ => keep) fun _ _ h => h)
        · exact unimplemented_triple throws
  have abort {α : Type} {Q : α → BuilderState → Prop} : Triple I unimplemented Q A :=
    unimplemented_triple throws
  unfold doReturn
  exact .of_ite (fun _ => .bind abort fun _ => .of_ite (fun _ => .bind abort fun _ => rest)
    fun _ => .bind (.of_pure _ fun _ h => h) fun _ => rest) fun _ =>
    .bind (.of_pure _ fun _ h => h) fun _ => .of_ite (fun _ => .bind abort fun _ => rest)
      fun _ => .bind (.of_pure _ fun _ h => h) fun _ => rest

variable (hsimulate : ∀ popCount values,
  Triple I (doSimulate popCount values) (fun _ => I) A)
include hsimulate

theorem compileToLLVM_triple (instr : HValue) (opcode : HOpcode)
    (hterm : opcode.isControlInstruction = true →
      ∀ op, op.isTerminator = true → Triple I (insert op) (fun _ => I) A)
    (hblock : ∀ block ∈ instr.blockRefs, Triple I (useBlock block) (fun _ => I) A)
    (huse : ∀ o ∈ opcode.usedOperands, Triple I (use o) (fun _ => I) A) :
    Triple I (cb.compileToLLVM use id instr opcode) (fun _ => J) A := by
  have after {α : Type} {m : BuildM α} (step : Triple I m (fun _ => I) A) :
      Triple I (discard m) (fun _ => J) A :=
    .of_discard (.weaken step (fun _ h => h) (fun _ => keep) fun _ _ h => h)
  cases opcode
  case parameter => exact hset _
  case constant => exact .bind (constantWord_triple throws cb _ _) fun _ => hset _
  case change val _ _ =>
    exact doChange_triple throws keep cb id hinsert hset _ _ _ _
      (huse val (by simp [HOpcode.usedOperands]))
  case add left right =>
    exact doAdd_triple throws cb id hinsert hset _ _ _ (huse left (by simp [HOpcode.usedOperands]))
      (huse right (by simp [HOpcode.usedOperands]))
  case sub => exact doBinaryOnValues_triple throws cb id hinsert hset .sub (fun _ _ => rfl) _ _ _
  case mul => exact doBinaryOnValues_triple throws cb id hinsert hset .mul (fun _ _ => rfl) _ _ _
  case compareNumericAndBranch _ left right =>
    exact doCompareNumericAndBranch_triple throws cb id hinsert hset (hterm rfl) _ _ _ _ hblock
      (huse left (by simp [HOpcode.usedOperands])) (huse right (by simp [HOpcode.usedOperands]))
  case «return» value _ =>
    exact doReturn_triple throws keep cb (hterm rfl) _ _
      (huse value (by simp [HOpcode.usedOperands]))
  case simulate => exact .weaken (hsimulate _ _) (fun _ h => h) (fun _ => keep) fun _ _ h => h
  case blockEntry => exact after (hblock _ (List.mem_cons_self _ _))
  case context =>
    exact .of_ite (fun _ => .of_pure _ keep) fun _ =>
      .of_ite (fun _ => unimplemented_triple throws) fun _ => .of_pure _ keep
  case argumentsObject | stackCheck => exact .of_pure _ keep
  all_goals exact unimplemented_triple throws

end Handlers

section Visits

/-! `VisitInstruction` records the visit, moving from `I₀` into the handler's invariant `I`,
then runs the handler, whose operands it resolves through `Use` with one unit of fuel less. -/

variable {I₀ I J : BuilderState → Prop} {A : Abort → BuilderState → Prop}
  (throws : ∀ e s, I s → e.ofHandler = true → A e s)
  (keep : ∀ s, I s → J s)
  (cb : LLVMChunkBuilder) (id : Nat)
  (hinsert : ∀ op, op.isTerminator = false → Triple I (insert op) (fun _ => I) A)
  (hterm : ∀ instr, cb.graph.value id = some instr → instr.isControlInstruction = true →
    ∀ op, op.isTerminator = true → Triple I (insert op) (fun _ => I) A)
  (hset : ∀ value, Triple I (setLlvmValue id value) (fun _ => J) A)
  (hblock : ∀ instr, cb.graph.value id = some instr →
    ∀ block ∈ instr.blockRefs, Triple I (useBlock block) (fun _ => I) A)
  (hsimulate : ∀ popCount values, Triple I (doSimulate popCount values) (fun _ => I) A)
include throws keep hinsert hterm hset hblock hsimulate

theorem visitInstruction_triple (fuel : Nat)
    (hrecord : Triple I₀ (record (.visit id)) (fun _ => I) A)
    (huse : ∀ instr opcode, cb.graph.value id = some instr → instr.opcode? = some opcode →
      ∀ o ∈ opcode.usedOperands,
        Triple I (cb.useValue (cb.visitInstruction fuel) o) (fun _ => I) A) :
    Triple I₀ (cb.visitInstruction (fuel + 1) id) (fun _ => J) A := by
  have abort {α : Type} {Q : α → BuilderState → Prop} : Triple I unimplemented Q A :=
    unimplemented_triple throws
  refine .bind hrecord fun _ => .bind_resolve (fun s holds => throws _ s holds rfl)
    fun current found => .bind_dchecked (fun s holds => throws _ s holds
      (Abort.ofHandler_dcheckFailed (by decide)))
    fun opcode isInstruction => .of_ite (fun _ => ?_) fun _ => ?_
  · split
    · exact abort
    · exact .bind (valueAt_triple throws cb _) fun _ =>
        .bind (dcheck_triple throws _ _ (by decide)) fun _ => abort
  · split
    · next successor control known =>
      exact .bind (hblock current found successor (by simp [HValue.blockRefs, known])) fun _ =>
        .of_discard (.weaken (hterm current found control _ rfl) (fun _ h => h) (fun _ => keep)
          fun _ _ h => h)
    · exact compileToLLVM_triple throws keep cb id hinsert hset hsimulate current opcode
        (fun control => hterm current found
          ((HValue.isControlInstruction_of_opcode isInstruction).trans control))
        (hblock current found) (huse current opcode found isInstruction)

end Visits

/-- For an invariant that instruction steps keep, a visit keeps it if the uses of the
operands do. -/
theorem visitInstruction_stable {P : BuilderState → Prop} {A : Abort → BuilderState → Prop}
    (stable : ∀ s s', P s → InstrStep s s' → P s')
    (throws : ∀ e s, P s → e.ofHandler = true → A e s) (cb : LLVMChunkBuilder) (id fuel : Nat)
    (huse : ∀ instr opcode, cb.graph.value id = some instr → instr.opcode? = some opcode →
      ∀ o ∈ opcode.usedOperands,
        Triple P (cb.useValue (cb.visitInstruction fuel) o) (fun _ => P) A) :
    Triple P (cb.visitInstruction (fuel + 1) id) (fun _ => P) A :=
  visitInstruction_triple throws (fun _ h => h) cb id (fun op _ => insert_stable stable op)
    (fun _ _ _ op _ => insert_stable stable op) (setLlvmValue_stable stable id)
    (fun _ _ block _ => useBlock_stable stable block)
    (doSimulate_stable stable fun s h => throws _ s h (Abort.ofHandler_dcheckFailed (by decide)))
    fuel (record_stable stable _) huse

/-- `Use` keeps an invariant that the visit of an operand emitted at its uses and the recording
of the use keep, if the invariant holds at every abort. -/
theorem useValue_triple {I : BuilderState → Prop} {A : Abort → BuilderState → Prop}
    (aborts : ∀ e s, I s → A e s) (cb : LLVMChunkBuilder) {visit : Nat → BuildM Unit}
    (id : Nat) (hvisit : ∀ value, cb.graph.value id = some value → value.emitAtUses = true →
      Triple I (visit id) (fun _ => I) A)
    (hrecord : ∀ value, Triple I (record (.use id value)) (fun _ => I) A) :
    Triple I (cb.useValue visit id) (fun _ => I) A := by
  have lookup : Triple I (do
      let llvmValue ← dchecked ((← get).llvmValue id) "value->llvm_value()"
      record (.use id llvmValue)
      pure llvmValue) (fun _ => I) A :=
    .bind (.of_get fun _ h => h) fun _ => .bind_dchecked (aborts _) fun _ _ =>
      .bind (hrecord _) fun _ => .of_pure _ fun _ h => h
  unfold useValue
  exact .bind_resolve (fun s h => aborts _ s h) fun value found => .bind (.of_get fun _ h => h)
    fun _ => .of_ite (fun visits => .bind (hvisit value found (Bool.and_eq_true _ _ ▸ visits).1)
      fun _ => lookup) fun _ => .bind (.of_pure _ fun _ h => h) fun _ => lookup

section InstrSteps

variable (cb : LLVMChunkBuilder)

/-- Visiting an instruction, at any fuel, is an instruction step. -/
theorem visitInstruction_instrStep (fuel id : Nat) :
    Guarantee InstrStep (cb.visitInstruction fuel id) := by
  induction fuel generalizing id with
  | zero => exact Guarantee.of_throw _
  | succ fuel visit =>
    refine Guarantee.of_triple fun s₀ => ?_
    have stable : ∀ s s', InstrStep s₀ s → InstrStep s s' → InstrStep s₀ s' :=
      fun _ _ => trans_of InstrStep
    exact visitInstruction_stable stable (fun _ _ h _ => h) cb id fuel
      fun _ _ _ _ o _ => useValue_triple (fun _ _ h => h) cb o (fun _ _ _ => (visit o).triple s₀)
        (fun _ => record_stable stable _)

/-- The instruction loop of a block is an instruction step. -/
theorem doInstructions_instrStep (fuel : Nat) (ids : List Nat) :
    Guarantee InstrStep (cb.doInstructions fuel ids) := by
  induction ids with
  | nil => exact Guarantee.of_pure _
  | cons id rest loop =>
    exact .bind .of_get fun _ => .of_ite (.of_pure _) (.bind (.of_resolve _) fun _ =>
      .of_ite (.bind (visitInstruction_instrStep cb fuel id) fun _ => loop)
        (.bind (.of_pure _) fun _ => loop))

theorem useBlock_instrStep (block : Nat) : Guarantee InstrStep (useBlock block) :=
  Guarantee.of_triple fun _ => useBlock_stable (fun _ _ => trans_of InstrStep) block

/-- `Use`, with `VisitInstruction` for the operands it materializes, is an instruction step. -/
theorem useValue_instrStep (fuel o : Nat) :
    Guarantee InstrStep (cb.useValue (cb.visitInstruction fuel) o) :=
  Guarantee.of_triple fun s₀ => useValue_triple (fun _ _ h => h) cb o
    (fun _ _ _ => (visitInstruction_instrStep cb fuel o).triple s₀)
    fun _ => record_stable (fun _ _ => trans_of InstrStep) _

end InstrSteps

end LLVMChunkBuilder

end Llv8
