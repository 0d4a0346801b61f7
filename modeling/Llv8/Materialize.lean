import Llv8.Environment

/-!
# Which values are materialized

`Use` `DCHECK`s that the value it hands out has an LLVM value.  Only some handlers give their
instruction one: `DoParameter`, `DoConstant`, `DoAdd`, `DoSub`, `DoMul` and `DoChange` from a
Smi, tagged or `Integer32` value set it whenever they return (`visitInstruction_sets`).  No
handler sets the value of a phi, of an `HContext`, of an `HArgumentsObject` or of an `HChange`
from any other representation: such a value keeps none through every run, so every `Use` of it
fails its `DCHECK` (`build_never_materializes`), also in a graph whose block order defines it
before its use (`HGraph.ssaOrdered`).
-/

namespace Llv8

/-- The handlers that set the instruction's LLVM value whenever they return. -/
def HOpcode.setsValue : HOpcode → Bool
  | .parameter _ | .constant _ | .add .. | .sub .. | .mul .. => true
  | .change _ fromRep _ => fromRep = .smi || fromRep = .tagged || fromRep = .integer32
  | _ => false

/-- Parameters and constants: the instructions whose handlers use no operand and emit no
instruction. -/
def HOpcode.isLeaf : HOpcode → Bool
  | .parameter _ | .constant _ => true
  | _ => false

theorem HOpcode.isControlInstruction_of_setsValue {opcode : HOpcode}
    (sets : opcode.setsValue = true) : opcode.isControlInstruction = false := by
  cases opcode <;> simp_all [setsValue, isControlInstruction]

/-- The values no handler gives an LLVM value: a phi, which no handler visits, `HContext` and
`HArgumentsObject`, whose handlers emit nothing, and `HChange` from a `None`, `HeapObject` or
`External` value, which `DoChange` passes over. -/
def HValueKind.unmaterialized : HValueKind → Bool
  | .phi _ | .instruction .context | .instruction .argumentsObject => true
  | .instruction (.change _ fromRep _) =>
    fromRep == .none || fromRep == .heapObject || fromRep == .external
  | .instruction _ => false

namespace HGraph

variable (graph : HGraph)

/-- Whether a value is emitted at its uses. -/
def emitsAtUses (id : Nat) : Bool := (graph.value id).any (·.emitAtUses)

/-- The opcode of an instruction. -/
def opcodeOf (id : Nat) : Option HOpcode := (graph.value id).bind (·.opcode?)

/-- Whether a value is an instruction whose handler sets its LLVM value. -/
def setsValue (id : Nat) : Bool := (graph.opcodeOf id).any (·.setsValue)

/-- The operands an instruction's handler hands to `Use`. -/
def usedOperands (id : Nat) : List Nat := ((graph.opcodeOf id).map (·.usedOperands)).getD []

/-- The instructions of all blocks, in the order `Build` visits them. -/
def instructionOrder : List Nat := graph.blocks.flatMap (·.instructions)

/-- An instruction that the block loop visits after `before` hands to `Use` only instructions
that set their value and are emitted at their uses or come in `before`. -/
def usesDefinedBefore (before : List Nat) (u : Nat) : Bool :=
  (graph.usedOperands u).all fun o => graph.setsValue o && (graph.emitsAtUses o || before.contains o)

/-- Every value emitted at its uses that an instruction hands to `Use` is a parameter or a
constant, whose handler emits no instruction: `Use` never leaves an instruction in one block for
another block to reuse. -/
def deferredLeaves : Bool :=
  (List.range graph.values.length).all fun u => (graph.usedOperands u).all fun o =>
    !graph.emitsAtUses o || (graph.opcodeOf o).any (·.isLeaf)

/-- Whether a value is one no handler gives an LLVM value. -/
def unmaterialized (id : Nat) : Bool := (graph.value id).any (·.kind.unmaterialized)

/-- Whether each instruction of a list hands to `Use` only values of `before` or earlier in the
list. -/
def instructionsUseDefined : List Nat → List Nat → Bool
  | _, [] => true
  | before, u :: rest =>
    (graph.usedOperands u).all before.contains && instructionsUseDefined (before ++ [u]) rest

/-- Whether the blocks, in order, define every value before it is handed to `Use`: a block's phis
at its entry, each instruction where it stands. -/
def blocksUseDefined : List Nat → List HBasicBlock → Bool
  | _, [] => true
  | before, block :: rest =>
    graph.instructionsUseDefined (before ++ block.phis) block.instructions &&
      blocksUseDefined (before ++ block.phis ++ block.instructions) rest

/-- The block order places every definition before its uses, a phi counting as defined at the
entry of its block. -/
def ssaOrdered : Bool := graph.blocksUseDefined [] graph.blocks

theorem usedOperands_of {id : Nat} {value : HValue} {opcode : HOpcode}
    (found : graph.value id = some value) (isInstruction : value.opcode? = some opcode) :
    graph.usedOperands id = opcode.usedOperands := by
  simp [usedOperands, opcodeOf, found, isInstruction]

theorem emitsAtUses_of {id : Nat} {value : HValue} (found : graph.value id = some value) :
    graph.emitsAtUses id = value.emitAtUses := by
  simp [emitsAtUses, found]

theorem leaf_of_deferredLeaves (leaves : graph.deferredLeaves = true) {u : Nat} {value : HValue}
    {opcode : HOpcode} (found : graph.value u = some value)
    (isInstruction : value.opcode? = some opcode) {o : Nat} (used : o ∈ opcode.usedOperands)
    (deferred : graph.emitsAtUses o = true) : (graph.opcodeOf o).any (·.isLeaf) = true := by
  have inRange : u < graph.values.length := (List.getElem?_eq_some_iff.mp found).1
  have check := List.all_eq_true.mp leaves u (List.mem_range.mpr inRange)
  rw [usedOperands_of graph found isInstruction] at check
  simpa [deferred] using List.all_eq_true.mp check o used

end HGraph

theorem exists_of_any {α : Type} {p : α → Bool} {o : Option α} (holds : o.any p = true) :
    ∃ a, o = some a ∧ p a = true := by
  cases o <;> simp_all

/-- Value `o` has no LLVM value and `Use` has never handed it out. -/
def Unset (o : Nat) (s : BuilderState) : Prop :=
  s.llvmValue o = none ∧ ∀ v, .use o v ∉ s.trace

namespace Unset

variable {o : Nat} {s : BuilderState}

theorem addVisit (unset : Unset o s) (id : Nat) : Unset o (s.addEvent (.visit id)) :=
  ⟨unset.1, by simpa using unset.2⟩

theorem addUse (unset : Unset o s) {id : Nat} (other : id ≠ o) (v : LValue) :
    Unset o (s.addEvent (.use id v)) :=
  ⟨unset.1, by simpa [Ne.symm other] using unset.2⟩

theorem setValue (unset : Unset o s) {id : Nat} (other : id ≠ o) (v : LValue) :
    Unset o (s.setValue id v) :=
  ⟨by simpa [updateAt_apply, Ne.symm other] using unset.1, unset.2⟩

theorem of_envStep {s' : BuilderState} (unset : Unset o s) (step : EnvStep s s') :
    Unset o s' := by
  rw [Unset, step.llvmValue, step.trace]
  exact unset

end Unset

namespace LLVMChunkBuilder

variable (cb : LLVMChunkBuilder)

/-- A value-setting handler, when it returns, has set the instruction's value. -/
theorem compileToLLVM_sets {use : Nat → BuildM LValue} (id : Nat) (instr : HValue)
    (opcode : HOpcode) (sets : opcode.setsValue = true) :
    Triple (fun _ => True) (cb.compileToLLVM use id instr opcode)
      (fun _ s => s.llvmValue id ≠ none) (fun _ _ => True) := by
  have throws : ∀ (e : Abort) (s : BuilderState), True → e.ofHandler = true → True :=
    fun _ _ _ _ => True.intro
  have hinsert : ∀ op, op.isTerminator = false →
      Triple (fun _ => True) (insert op) (fun _ _ => True) (fun _ _ => True) :=
    fun _ _ => .trivial _
  have hset : ∀ v, Triple (fun _ => True) (setLlvmValue id v)
      (fun _ s => s.llvmValue id ≠ none) (fun _ _ => True) :=
    fun v => .of_modify fun s _ => by simp
  have huse : ∀ o, Triple (fun _ => True) (use o) (fun _ _ => True) (fun _ _ => True) :=
    fun _ => .trivial _
  cases opcode
  case parameter => exact hset _
  case constant => exact .bind (constantWord_triple throws cb _ _) fun _ => hset _
  case add => exact doAdd_triple throws cb id hinsert hset _ _ _ (huse _) (huse _)
  case sub => exact doBinaryOnValues_triple throws cb id hinsert hset .sub (fun _ _ => rfl) _ _ _
  case mul => exact doBinaryOnValues_triple throws cb id hinsert hset .mul (fun _ _ => rfl) _ _ _
  case change val fromRep toRep =>
    have converts : fromRep = .smi ∨ fromRep = .tagged ∨ fromRep = .integer32 := by
      simpa [HOpcode.setsValue, or_assoc] using sets
    have abort {α : Type} {Q : α → BuilderState → Prop} :
        Triple (fun _ => True) unimplemented Q (fun _ _ => True) :=
      unimplemented_triple throws
    show Triple _ (cb.doChange use id instr val fromRep toRep) _ _
    unfold doChange
    refine .of_ite (fun _ => .bind (huse _) fun _ => hset _) fun _ => .of_ite (fun _ =>
      .of_ite (fun _ => abort) fun _ => .of_ite (fun _ => .bind (huse _) fun _ => hset _)
        fun _ => .bind (dcheck_triple throws _ _ (by decide)) fun _ =>
          .bind (smiToInteger32_triple throws cb hinsert val (huse _)) fun _ => hset _)
      fun notTagged => .of_ite (fun _ => abort) fun _ => .of_ite (fun _ =>
        .of_ite (fun _ => .of_ite (fun _ =>
          .bind (integer32ToSmi_triple cb hinsert val (huse _)) fun _ => hset _) fun _ => abort)
          fun _ => .of_ite (fun _ => abort) fun _ =>
            .bind (dcheck_triple throws _ _ (by decide)) fun _ => abort)
        fun notInteger32 => ?_
    exfalso
    rcases converts with rfl | rfl | rfl <;> simp_all
  all_goals simp [HOpcode.setsValue] at sets

/-- A value-setting instruction, when its visit returns, has its value. -/
theorem visitInstruction_sets (fuel id : Nat) (sets : cb.graph.setsValue id = true) :
    Triple (fun _ => True) (cb.visitInstruction (fuel + 1) id)
      (fun _ s => s.llvmValue id ≠ none) (fun _ _ => True) := by
  have abort {α : Type} {Q : α → BuilderState → Prop} {e : Abort} :
      Triple (fun _ => True) (throw e) Q (fun _ _ => True) :=
    .of_throw _ fun _ _ => True.intro
  refine .bind (.trivial _) fun _ => .bind_resolve (fun _ _ => True.intro) fun current found =>
    .bind_dchecked (fun _ _ => True.intro) fun opcode isInstruction => .of_ite (fun _ => ?_)
      fun _ => ?_
  · split
    · exact abort
    · exact .bind (.trivial _) fun _ => .bind (.trivial _) fun _ => abort
  · have opcodeSets : opcode.setsValue = true := by
      simpa [HGraph.setsValue, HGraph.opcodeOf, found, isInstruction] using sets
    have notControl : current.isControlInstruction = false := by
      rw [HValue.isControlInstruction_of_opcode isInstruction,
        HOpcode.isControlInstruction_of_setsValue opcodeSets]
    split
    · simp_all
    · exact compileToLLVM_sets cb id current opcode opcodeSets

/-- The instructions of `done` that set their value and are not emitted at their uses have
it, and the build is running. -/
def Materialized (graph : HGraph) (done : List Nat) (s : BuilderState) : Prop :=
  s.status = .building ∧ ∀ o ∈ done, graph.setsValue o = true → graph.emitsAtUses o = false →
    s.llvmValue o ≠ none

theorem Materialized.stable {graph : HGraph} {done : List Nat} {s s' : BuilderState}
    (materialized : Materialized graph done s) (step : InstrStep s s') :
    Materialized graph done s' :=
  ⟨step.status.trans materialized.1, fun o member sets direct =>
    step.llvmValue o (materialized.2 o member sets direct)⟩

theorem Materialized.congr {graph : HGraph} {done : List Nat} {s s' : BuilderState}
    (status : s'.status = s.status) (values : s'.llvmValue = s.llvmValue)
    (materialized : Materialized graph done s) : Materialized graph done s' := by
  rw [Materialized, status, values]
  exact materialized

theorem Materialized.append_deferred {graph : HGraph} {done : List Nat} {s : BuilderState}
    {u : Nat} (materialized : Materialized graph done s) (emits : graph.emitsAtUses u = true) :
    Materialized graph (done ++ [u]) s := by
  refine ⟨materialized.1, fun o member sets direct => ?_⟩
  rcases List.mem_append.mp member with old | last
  · exact materialized.2 o old sets direct
  · rw [List.mem_singleton.mp last, emits] at direct
    cases direct

/-- The end of `Use`: a value that is set is handed out and its use recorded. -/
theorem useLookup_triple {P : BuilderState → Prop} {A : Abort → BuilderState → Prop}
    (stable : ∀ s s', P s → InstrStep s s' → P s') (id : Nat) :
    Triple (fun s => P s ∧ s.llvmValue id ≠ none) (do
      let llvmValue ← dchecked ((← get).llvmValue id) "value->llvm_value()"
      record (.use id llvmValue)
      pure llvmValue) (fun _ => P) A := by
  intro s ⟨holds, set⟩
  obtain ⟨v, found⟩ := Option.ne_none_iff_exists'.mp set
  simp only [bind_apply, get_apply, found, dchecked, pure_apply, record, modify_apply]
  exact stable _ _ holds (InstrStep.of_addEvent s _)


/-! ## Invariants of the values and the trace

Besides the visits, the steps of a run write neither the LLVM values nor the trace, so an
invariant of the two that every visit keeps is kept by the block loop and by `Build`. -/

section Keeps

variable {I : BuilderState → Prop} {A : Abort → BuilderState → Prop}
  (stable : ∀ s s', I s → s'.llvmValue = s.llvmValue → s'.trace = s.trace → I s')
  (aborts : ∀ e s, I s → A e s) (fuel : Nat)
  (visit : ∀ id, Triple I (cb.visitInstruction fuel id) (fun _ => I) A)
include stable aborts visit

omit aborts visit in
theorem useBlock_kept (block : Nat) : Triple I (useBlock block) (fun _ => I) A := by
  intro s h
  simp only [useBlock, bind_apply, get_apply]
  cases s.llvmBasicBlock block
  · exact stable _ _ h rfl rfl
  · exact h

omit visit in
theorem doSimulate_kept (popCount : Nat) (values : List (Option Nat × Nat)) :
    Triple I (doSimulate popCount values) (fun _ => I) A := by
  intro s h
  simp only [doSimulate, bind_apply, get_apply]
  cases s.currentEnvironment
  · exact aborts _ s h
  · exact stable _ _ h rfl rfl

omit stable in
theorem doInstructions_keeps (ids : List Nat) :
    Triple I (cb.doInstructions fuel ids) (fun _ => I) A := by
  induction ids with
  | nil => exact .of_pure _ fun _ h => h
  | cons id rest loop =>
    exact .bind (.of_get fun _ h => h) fun _ => .of_ite (fun _ => .of_pure _ fun _ h => h) fun _ =>
      .bind_resolve (aborts _) fun _ _ => .of_ite (fun _ => .bind (visit id) fun _ => loop)
        fun _ => .bind (.of_pure _ fun _ h => h) fun _ => loop

theorem doBlocks_keeps (blocks : List HBasicBlock) :
    Triple I (cb.doBlocks fuel blocks) (fun _ => I) A := by
  have throws : ∀ (e : Abort) s, I s → e.ofHandler = true → A e s := fun _ _ h _ => aborts _ _ h
  have modifying {f : BuilderState → BuilderState} (same : ∀ s, (f s).llvmValue = s.llvmValue ∧
      (f s).trace = s.trace) : Triple I (modify f) (fun _ => I) A :=
    .of_modify fun s h => by exact stable _ _ h (same s).1 (same s).2
  induction blocks with
  | nil => exact .of_pure _ fun _ h => h
  | cons block rest loop =>
    exact .bind (.bind (.of_get fun _ h => h) fun _ =>
      .bind (dcheck_triple throws _ _ (by decide)) fun _ => .bind (useBlock_kept stable _) fun _ =>
      .bind (modifying fun _ => ⟨rfl, rfl⟩) fun _ =>
      .bind (bindEnvironment_envStep (fun _ _ h step => stable _ _ h step.llvmValue step.trace)
        throws cb block) fun _ =>
      .bind (doInstructions_keeps cb aborts fuel visit _) fun _ => modifying fun _ => ⟨rfl, rfl⟩)
      fun _ => .bind (.of_get fun _ h => h) fun _ =>
        .of_ite (fun _ => .of_pure _ fun _ h => h) fun _ => loop

theorem build_keeps : Triple I (cb.build fuel) (fun _ => I) A := by
  unfold build
  exact .bind (.of_modify fun _ h => by exact stable _ _ h rfl rfl) fun _ =>
    .bind (doBlocks_keeps cb stable aborts fuel visit _) fun _ =>
    .of_ite (fun _ => .of_pure _ fun _ h => h) fun _ =>
    .bind (Q := fun _ => I) (.of_pure _ fun _ h => h) fun _ =>
    .bind (Q := fun _ => I) (.of_modify fun _ h => by exact stable _ _ h rfl rfl) fun _ =>
    .bind (.of_get fun _ h => h) fun _ => .of_pure _ fun _ h => h

end Keeps

/-! ## Values no handler materializes

A phi, an `HContext`, an `HArgumentsObject` and an `HChange` from a `None`, `HeapObject` or
`External` value keep no LLVM value through any run, so every `Use` of one fails its `DCHECK`. -/

section Unmaterialized

variable {o : Nat}

theorem useBlock_unset (block : Nat) :
    Triple (Unset o) (useBlock block) (fun _ => Unset o) (fun _ => Unset o) := by
  intro s unset
  simp only [useBlock, bind_apply, get_apply]
  cases s.llvmBasicBlock block <;> exact unset

theorem doSimulate_unset (popCount : Nat) (values : List (Option Nat × Nat)) :
    Triple (Unset o) (doSimulate popCount values) (fun _ => Unset o) (fun _ => Unset o) := by
  intro s unset
  simp only [doSimulate, bind_apply, get_apply]
  cases s.currentEnvironment <;> exact unset

/-- `DoChange` from a `None`, `HeapObject` or `External` value does nothing. -/
theorem doChange_passes {use : Nat → BuildM LValue} {id : Nat} {instr : HValue} {val : Nat}
    {fromRep toRep : Representation}
    (passes : (HValueKind.instruction (.change val fromRep toRep)).unmaterialized = true) :
    cb.doChange use id instr val fromRep toRep = pure () := by
  simp only [HValueKind.unmaterialized, Bool.or_eq_true, beq_iff_eq] at passes
  rcases passes with (rfl | rfl) | rfl <;> rfl

theorem compileToLLVM_unmaterialized {use : Nat → BuildM LValue} (instr : HValue)
    {opcode : HOpcode} (un : (HValueKind.instruction opcode).unmaterialized = true) :
    Triple (Unset o) (cb.compileToLLVM use o instr opcode) (fun _ => Unset o)
      (fun _ => Unset o) := by
  have throws : ∀ (e : Abort) s, Unset o s → e.ofHandler = true → Unset o s := fun _ _ h _ => h
  cases opcode
  case context =>
    exact .of_ite (fun _ => .of_pure _ fun _ h => h) fun _ =>
      .of_ite (fun _ => unimplemented_triple throws) fun _ => .of_pure _ fun _ h => h
  case argumentsObject => exact .of_pure _ fun _ h => h
  case change =>
    show Triple _ (cb.doChange use o instr _ _ _) _ _
    rw [doChange_passes cb un]
    exact .of_pure _ fun _ h => h
  all_goals simp [HValueKind.unmaterialized] at un

/-- The visit of a value no handler materializes leaves it without a value. -/
theorem visitInstruction_unmaterialized (un : cb.graph.unmaterialized o = true) (fuel : Nat) :
    Triple (Unset o) (cb.visitInstruction fuel o) (fun _ => Unset o) (fun _ => Unset o) := by
  have throws : ∀ (e : Abort) s, Unset o s → e.ofHandler = true → Unset o s := fun _ _ h _ => h
  obtain ⟨value, found, kind⟩ := exists_of_any un
  cases fuel with
  | zero => exact .of_throw _ fun _ h => h
  | succ fuel =>
  refine .bind (.of_modify fun _ h => h.addVisit o) fun _ => .bind_resolve_some found <|
    .bind_dchecked (fun _ h => h) fun opcode isInstruction => .of_ite (fun _ => ?_) fun _ => ?_
  · split
    · exact unimplemented_triple throws
    · exact .bind (valueAt_triple throws cb _) fun _ =>
        .bind (dcheck_triple throws _ _ (by decide)) fun _ => unimplemented_triple throws
  · split
    · exact .bind (useBlock_unset _) fun _ => .of_discard (.of_modifyGet fun _ h => h)
    · exact compileToLLVM_unmaterialized cb value (HValue.kind_of_opcode isInstruction ▸ kind)

/-- `Use` keeps `o` unset: for `o` itself it fails its `DCHECK`. -/
theorem useValue_unset {visit : Nat → BuildM Unit}
    (hvisit : ∀ id, Triple (Unset o) (visit id) (fun _ => Unset o) (fun _ => Unset o)) (id : Nat) :
    Triple (Unset o) (cb.useValue visit id) (fun _ => Unset o) (fun _ => Unset o) := by
  by_cases same : id = o
  · subst same
    have lookup : Triple (Unset id) (do
        let llvmValue ← dchecked ((← get).llvmValue id) "value->llvm_value()"
        record (.use id llvmValue)
        pure llvmValue) (fun _ => Unset id) (fun _ => Unset id) := by
      intro s unset
      simp only [bind_apply, get_apply, unset.1, dchecked]
      exact unset
    unfold useValue
    exact .bind_resolve (fun _ h => h) fun _ _ => .bind (.of_get fun _ h => h) fun _ =>
      .of_ite (fun _ => .bind (hvisit id) fun _ => lookup) fun _ =>
        .bind (.of_pure _ fun _ h => h) fun _ => lookup
  · exact useValue_triple (fun _ _ h => h) cb id (fun _ _ _ => hvisit id)
      fun v => .of_modify fun _ h => h.addUse same v

variable (un : cb.graph.unmaterialized o = true)
include un

/-- Every visit, with the visits it makes, keeps `o` unset. -/
theorem visitInstruction_unset (fuel : Nat) :
    ∀ id, Triple (Unset o) (cb.visitInstruction fuel id) (fun _ => Unset o) (fun _ => Unset o) := by
  have throws : ∀ (e : Abort) s, Unset o s → e.ofHandler = true → Unset o s := fun _ _ h _ => h
  induction fuel with
  | zero => exact fun _ => .of_throw _ fun _ h => h
  | succ fuel visit =>
    intro id
    by_cases same : id = o
    · subst same
      exact visitInstruction_unmaterialized cb un _
    · exact visitInstruction_triple throws (fun _ h => h) cb id
        (fun _ _ => .of_modifyGet fun _ h => h) (fun _ _ _ _ _ => .of_modifyGet fun _ h => h)
        (fun v => .of_modify fun _ h => h.setValue same v) (fun _ _ block _ => useBlock_unset block)
        (fun _ _ => doSimulate_unset _ _) fuel (.of_modify fun _ h => h.addVisit id)
        fun _ _ _ _ used _ => useValue_unset cb visit used

end Unmaterialized

/-- A phi, an `HContext`, an `HArgumentsObject` or an `HChange` from a `None`, `HeapObject` or
`External` value has no LLVM value at the end of any run of `Build`, and no `Use` of it has
returned. -/
theorem build_never_materializes (cb : LLVMChunkBuilder) (fuel : Nat) (session : LLVMGranularity)
    (o : Nat) (un : cb.graph.unmaterialized o = true) :
    let s := finalState (cb.build fuel (BuilderState.initial cb.graph session))
    s.llvmValue o = none ∧ ∀ v, .use o v ∉ s.trace := by
  have run : Triple (Unset o) (cb.build fuel) (fun _ => Unset o) (fun _ => Unset o) :=
    build_keeps cb (fun _ _ unset values trace => by rw [Unset, values, trace]; exact unset)
      (fun _ _ h => h) fuel (visitInstruction_unset cb un fuel)
  have outcome := run (BuilderState.initial cb.graph session) ⟨rfl, by simp [BuilderState.initial]⟩
  dsimp only
  cases result : cb.build fuel (BuilderState.initial cb.graph session) <;>
    rw [result] at outcome <;> exact outcome

/-- `x + 5` on the first parameter, converted to `Integer32` and back, with the constant emitted
at its use. -/
def addFive : HGraph where
  values := [
    { kind := .instruction (.parameter 1), block := 0, representation := .tagged },
    { kind := .instruction (.change 0 .tagged .integer32), block := 0,
      representation := .integer32 },
    { kind := .instruction (.constant (.integer32 5)), block := 0, representation := .integer32,
      emitAtUses := true },
    { kind := .instruction (.add 1 2), block := 0, representation := .integer32 },
    { kind := .instruction (.change 3 .integer32 .tagged), block := 0,
      representation := .tagged },
    { kind := .instruction (.constant (.integer32 0)), block := 0, representation := .integer32,
      emitAtUses := true },
    { kind := .instruction (.«return» 4 5), block := 0, representation := .tagged }]
  blocks := [{ blockId := 0, isStartBlock := true, instructions := [0, 1, 2, 3, 4, 5, 6] }]

/-- A phi merged at a join and returned: block 0 branches to blocks 1 and 2, which both go to
the join, block 3. -/
def phiAtJoin : HGraph where
  values := [
    { kind := .instruction (.constant (.integer32 1)), block := 0, representation := .integer32 },
    { kind := .instruction (.compareNumericAndBranch .eq 0 0), block := 0,
      representation := .integer32, successors := [1, 2] },
    { kind := .instruction .goto, block := 1, representation := .none, successors := [3],
      knownSuccessor := some 3 },
    { kind := .instruction .goto, block := 2, representation := .none, successors := [3],
      knownSuccessor := some 3 },
    { kind := .phi none, block := 3, representation := .integer32 },
    { kind := .instruction (.constant (.integer32 0)), block := 3, representation := .integer32,
      emitAtUses := true },
    { kind := .instruction (.«return» 4 5), block := 3, representation := .tagged }]
  blocks := [
    { blockId := 0, isStartBlock := true, instructions := [0, 1] },
    { blockId := 1, predecessors := [0], instructions := [2] },
    { blockId := 2, predecessors := [0], instructions := [3] },
    { blockId := 3, predecessors := [1, 2], phis := [4], instructions := [6] }]

/-- `phiAtJoin` is in SSA order, its phi is never materialized, and its build fails the
`DCHECK` of `Use` at the phi. -/
theorem build_never_materializes_phiAtJoin :
    phiAtJoin.ssaOrdered = true ∧
      LLVMChunk.abort (LLVMChunk.newChunk ⟨0, false, false⟩ phiAtJoin 2 {}) =
        some (.dcheckFailed "value->llvm_value()") ∧
      let s := finalState (LLVMChunk.newChunk ⟨0, false, false⟩ phiAtJoin 2 {})
      s.llvmValue 4 = none ∧ ∀ v, .use 4 v ∉ s.trace :=
  ⟨by decide, by decide,
    build_never_materializes ⟨⟨0, false, false⟩, phiAtJoin, true⟩ 2 {} 4 (by decide)⟩

/-- The function's context, returned. -/
def contextUse : HGraph where
  values := [
    { kind := .instruction .context, block := 0, representation := .tagged },
    { kind := .instruction (.constant (.integer32 0)), block := 0, representation := .integer32,
      emitAtUses := true },
    { kind := .instruction (.«return» 0 1), block := 0, representation := .tagged }]
  blocks := [{ blockId := 0, isStartBlock := true, instructions := [0, 2] }]

/-- Returning the context of a function that is not a stub fails the `DCHECK` of `Use` as
well. -/
example : contextUse.ssaOrdered = true ∧
    LLVMChunk.abort (LLVMChunk.newChunk ⟨0, false, false⟩ contextUse 2 {}) =
      some (.dcheckFailed "value->llvm_value()") := by
  decide

end LLVMChunkBuilder

end Llv8
