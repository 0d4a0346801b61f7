import Llv8.Execution
import Llv8.Replay

/-!
# The graphs `Build` lowers

`Build` aborts wherever the code is `UNIMPLEMENTED()` or `UNREACHABLE()`, wherever a `CHECK` or a
`DCHECK` fails, and where the model's recursion runs out of fuel.  `LLVMChunkBuilder.lowers`
names the graphs for which none of this happens.  Every instruction the block loop visits reaches
a case its handler implements, with its operands in place: those it hands to `Use` set their
value and are emitted at their uses or visited before, and those `DoSub` and `DoMul` read
directly were visited before.  The values emitted at their uses that are handed to `Use` are
parameters and constants, which use nothing, so that one nested visit is all the fuel a `Use`
needs.  Every block binds its environment: from the start environment, or after the predecessor
it takes it from.  For such a graph `Build` completes and returns its chunk (`build_completes`),
and when the graph is also typed and laid out as `Execution` asks, the function of that chunk
returns what the graph returns (`build_completes_runs_graph`).

`SetValueAt` `DCHECK`s a phi's merged index against the length of the object the join takes from
its first predecessor.  Where the graph fixes the environments (`HGraph.sharingOrdered`,
`HGraph.simulatesUnused`), that object holds what the predecessor finished with, which
`HGraph.finishedAfter` computes (`Static`), and `bindsAfter` checks the index against its
length (`PhisFit`); elsewhere a join's phis carry no merged index.
-/

namespace Llv8

/-- Whether `TokenToPredicate` maps a token to a predicate. -/
def Token.named : Token → Bool
  | .«in» | .instanceOf | .other => false
  | _ => true

namespace HGraph

variable (graph : HGraph)

/-- The operands an instruction's handler reads directly. -/
def readOperands (id : Nat) : List Nat := ((graph.opcodeOf id).map (·.readOperands)).getD []

/-- `IsConstant()` of a value. -/
def isConstant (id : Nat) : Bool :=
  (graph.value id).any fun value => value.kind matches .instruction (.constant _)

theorem exists_value_of_representation {id : Nat} {r : Representation}
    (represented : graph.representation id = some r) :
    ∃ value, graph.value id = some value ∧ value.representation = r := by
  simpa [representation] using represented

theorem blockId_of_block {id : Nat} {block : HBasicBlock} (found : graph.block id = some block) :
    block.blockId = id := by
  simpa using List.find?_some found

theorem exists_constant_of_isConstant {id : Nat} (constant : graph.isConstant id = true) :
    ∃ value k, graph.value id = some value ∧ value.kind = .instruction (.constant k) := by
  cases found : graph.value id with
  | none => simp [isConstant, found] at constant
  | some value =>
    simp only [isConstant, found, Option.any_some] at constant
    split at constant
    next k kind => exact ⟨value, k, rfl, kind⟩
    next => cases constant

end HGraph

namespace LLVMChunkBuilder

variable (cb : LLVMChunkBuilder)

/-- Whether `DoConstant` materializes a constant in a representation: an integer as a Smi or as
an `Integer32`, or tagged if it is a Smi. -/
def constantLowers : Representation → HConstantValue → Bool
  | r, .integer32 k => r == .smi || r == .integer32 || r == .tagged && cb.isSmi k
  | _, .object => false

/-- The case `DoAdd`, `DoSub` and `DoMul` implement: a Smi or `Integer32` instruction whose
operands have its representation. -/
def arithmeticLowers (value : HValue) (left right : Nat) : Bool :=
  (value.representation == .smi || value.representation == .integer32) &&
    cb.graph.representation left == some value.representation &&
    cb.graph.representation right == some value.representation

/-- Whether the handler of instruction `value` returns, its operands being in place: the cases
each handler implements. -/
def handles (value : HValue) : HOpcode → Bool
  | .parameter _ | .simulate .. | .blockEntry | .argumentsObject | .stackCheck => true
  | .constant constant => cb.constantLowers value.representation constant
  | .change _ fromRep toRep =>
    fromRep == .smi && toRep == .tagged ||
      (fromRep == .smi || fromRep == .tagged) &&
        (toRep == .smi || toRep == .integer32 && cb.smiValuesAre32Bits) ||
      fromRep == .integer32 && toRep == .tagged && !value.canOverflow ||
      fromRep == .none || fromRep == .heapObject || fromRep == .external
  | .add left right | .sub left right | .mul left right => cb.arithmeticLowers value left right
  | .compareNumericAndBranch token left right =>
    value.representation == .integer32 && cb.graph.representation left == some .integer32 &&
      cb.graph.representation right == some .integer32 && token.named &&
      decide (2 ≤ value.successors.length)
  | .«return» _ parameterCount =>
    !cb.info.isStub && !cb.info.savesCallerDoubles && cb.graph.isConstant parameterCount
  | .context => value.hasNoUses || !cb.info.isStub
  | .goto | .stub _ => false

/-- Whether `VisitInstruction` of `value` returns, its operands being in place: the value is an
instruction not to be replaced by dummy uses, and a control instruction with a known successor,
which becomes a branch, or one whose handler returns. -/
def visits (value : HValue) : Bool :=
  !value.canReplaceWithDummyUses && value.opcode?.any fun opcode =>
    value.isControlInstruction && value.knownSuccessor.isSome || cb.handles value opcode

/-- Whether the block loop lowers instruction `u` after visiting `before`: its visit returns, the
operands it hands to `Use` set their value and are emitted at their uses or come in `before`,
and those it reads directly set their value and come in `before`, not emitted at their uses. -/
def lowersAfter (before : List Nat) (u : Nat) : Bool :=
  (cb.graph.value u).any cb.visits && cb.graph.usesDefinedBefore before u &&
    (cb.graph.readOperands u).all fun o =>
      cb.graph.setsValue o && !cb.graph.emitsAtUses o && before.contains o

/-- Whether the block loop lowers every instruction of an order that it visits. -/
def orderLowers : List Nat → List Nat → Bool
  | _, [] => true
  | before, u :: after =>
    (cb.graph.emitsAtUses u || cb.lowersAfter before u) && orderLowers (before ++ [u]) after

/-- Whether every value emitted at its uses that an instruction hands to `Use` is a parameter or
a constant whose visit returns. -/
def deferredLower : Bool :=
  (List.range cb.graph.values.length).all fun u => (cb.graph.usedOperands u).all fun o =>
    !cb.graph.emitsAtUses o ||
      (cb.graph.value o).any fun value => cb.visits value && value.opcode?.any (·.isLeaf)

/-- Whether `DoBasicBlock` binds the environment of `block` after the blocks `before`, which
finished with `finished`: the start block takes the start environment; a block with one
predecessor has no phis, the predecessor comes before and ends in a control instruction that has
a first successor, the block itself if there is no second one; a join's first predecessor comes
before, and the merged index of each of its phis is in range of what that predecessor finished
with, in a graph whose environments are fixed (`sharingOrdered`, `simulatesUnused`). -/
def bindsAfter (before : List Nat) (finished : Nat → Option (List Nat)) (block : HBasicBlock) :
    Bool :=
  block.isStartBlock || match block.predecessors with
    | [] => false
    | [pred] => block.phis.isEmpty && before.contains pred &&
      (((cb.graph.block pred).bind (·.end)).bind cb.graph.value).any fun predEnd =>
        match predEnd.secondSuccessor with
        | none => predEnd.firstSuccessor == some block.blockId
        | some _ => predEnd.firstSuccessor.isSome
    | pred :: _ => before.contains pred && (cb.graph.block pred).isSome &&
      block.phis.all fun phi => (cb.graph.value phi).any fun value => match value.kind with
        | .phi none => true
        | .phi (some index) => cb.graph.sharingOrdered && cb.graph.simulatesUnused &&
          (finished pred).any fun env => decide (index < env.length)
        | .instruction _ => false

/-- Whether the block loop binds the environment of every block, each after those before it,
which finished as `HGraph.finishBlock` computes. -/
def blocksBind : List Nat → (Nat → Option (List Nat)) → List HBasicBlock → Bool
  | _, _, [] => true
  | before, finished, block :: rest => cb.bindsAfter before finished block &&
    blocksBind (before ++ [block.blockId]) (cb.graph.finishBlock finished block) rest

/-- Whether `Build` lowers the graph: the values emitted at their uses lower, and so do every
instruction and every block of the block order. -/
def lowers : Bool :=
  cb.deferredLower && cb.orderLowers [] cb.graph.instructionOrder &&
    cb.blocksBind [] (fun _ => none) cb.graph.blocks

theorem orderLowers_append (before ids rest : List Nat) :
    cb.orderLowers before (ids ++ rest) =
      (cb.orderLowers before ids && cb.orderLowers (before ++ ids) rest) := by
  induction ids generalizing before with
  | nil => simp [orderLowers]
  | cons u ids step => simp [orderLowers, step, Bool.and_assoc]

/-! ## Handlers that return

Under an invariant `P` that instruction steps keep, each handler returns in every case that
`handles` admits, given that `Use` returns on the operands it hands over and that the operands
it reads directly are set. -/

section Handlers

variable {cb} {P : BuilderState → Prop} (stable : ∀ s s', P s → InstrStep s s' → P s')

theorem arithmetic_of_lowers {instr : HValue} {left right : Nat}
    (lowers : cb.arithmeticLowers instr left right = true) :
    (instr.representation = .integer32 ∨ instr.representation = .smi) ∧
      (∃ value, cb.graph.value left = some value ∧ value.representation = instr.representation) ∧
      ∃ value, cb.graph.value right = some value ∧ value.representation = instr.representation := by
  simp only [arithmeticLowers, Bool.and_eq_true, Bool.or_eq_true, beq_iff_eq] at lowers
  exact ⟨lowers.1.1.symm, cb.graph.exists_value_of_representation lowers.1.2,
    cb.graph.exists_value_of_representation lowers.2⟩

theorem constantWord_returns {r : Representation} {constant : HConstantValue}
    (lowers : cb.constantLowers r constant = true) :
    Triple P (cb.constantWord r constant) (fun _ => P) (fun _ _ => False) := by
  cases constant with
  | object => cases lowers
  | integer32 k =>
    simp only [constantLowers, Bool.or_eq_true, Bool.and_eq_true, beq_iff_eq] at lowers
    intro s holds
    rcases lowers with (rfl | rfl) | ⟨rfl, smi⟩ <;> simp [constantWord, integer32Value, *]

theorem tokenToPredicate_returns {token : Token} (named : token.named = true) (isUnsigned : Bool) :
    Triple P (tokenToPredicate token isUnsigned) (fun _ => P) (fun _ _ => False) := by
  cases token <;> first | exact .of_pure _ fun _ h => h | exact absurd named (by decide)

include stable

theorem doAdd_returns {use : Nat → BuildM LValue} (id : Nat) {instr : HValue} {left right : Nat}
    (lowers : cb.arithmeticLowers instr left right = true)
    (huse : ∀ o ∈ [left, right], Triple P (use o) (fun _ => P) (fun _ _ => False)) :
    Triple P (cb.doAdd use id instr left right) (fun _ => P) (fun _ _ => False) := by
  obtain ⟨represented, ⟨_, leftFound, leftRep⟩, _, rightFound, rightRep⟩ :=
    arithmetic_of_lowers lowers
  unfold doAdd
  exact .of_ite (fun _ => .bind_resolve_some leftFound <| .bind_dcheck_pass (by simp [leftRep]) <|
    .bind_resolve_some rightFound <| .bind_dcheck_pass (by simp [rightRep]) <|
    .bind (huse left (by simp)) fun _ => .bind (huse right (by simp)) fun _ =>
    .bind (insert_stable stable _) fun _ => setLlvmValue_stable stable _ _)
    fun unrepresented => absurd represented (by simpa using unrepresented)

theorem doBinaryOnValues_returns (op : LValue → LValue → LOp) (id : Nat) {instr : HValue}
    {left right : Nat} (lowers : cb.arithmeticLowers instr left right = true)
    (read : ∀ s, P s → s.llvmValue left ≠ none ∧ s.llvmValue right ≠ none) :
    Triple P (cb.doBinaryOnValues op id instr left right) (fun _ => P) (fun _ _ => False) := by
  obtain ⟨represented, ⟨_, leftFound, leftRep⟩, _, rightFound, rightRep⟩ :=
    arithmetic_of_lowers lowers
  unfold doBinaryOnValues
  exact .of_ite (fun _ => .bind_resolve_some leftFound <| .bind_dcheck_pass (by simp [leftRep]) <|
    .bind_resolve_some rightFound <| .bind_dcheck_pass (by simp [rightRep]) <|
    .bind_checked_get_some (fun s h => (read s h).1) fun _ =>
    .bind_checked_get_some (fun s h => (read s h).2) fun _ =>
    .bind (insert_stable stable _) fun _ => setLlvmValue_stable stable _ _)
    fun unrepresented => absurd represented (by simpa using unrepresented)

theorem doChange_returns {use : Nat → BuildM LValue} (id : Nat) {instr : HValue} {val : Nat}
    {fromRep toRep : Representation} (handled : cb.handles instr (.change val fromRep toRep) = true)
    (huse : Triple P (use val) (fun _ => P) (fun _ _ => False)) :
    Triple P (cb.doChange use id instr val fromRep toRep) (fun _ => P) (fun _ _ => False) := by
  have passOn : Triple P (use val >>= setLlvmValue id) (fun _ => P) (fun _ _ => False) :=
    .bind huse fun _ => setLlvmValue_stable stable _ _
  simp only [LLVMChunkBuilder.handles, Bool.or_eq_true, Bool.and_eq_true, beq_iff_eq,
    Bool.not_eq_true'] at handled
  unfold doChange
  refine .of_ite (fun _ => passOn) fun _ => .of_ite (fun _ => .of_ite (fun _ => ?_) fun _ =>
      .of_ite (fun _ => passOn) fun _ => .bind_dcheck_pass ?_ <| .bind (.of_ite (fun _ =>
        .bind huse fun _ => insert_stable stable _) fun _ => ?_) fun _ =>
        setLlvmValue_stable stable _ _) fun _ =>
    .of_ite (fun _ => ?_) fun _ => .of_ite (fun _ => .of_ite (fun _ => .of_ite (fun _ =>
      .bind (.bind huse fun _ => insert_stable stable _) fun _ => setLlvmValue_stable stable _ _)
        fun _ => ?_) fun _ => .of_ite (fun _ => ?_) fun _ => .bind_dcheck_pass ?_ ?_)
      fun _ => .of_pure _ fun _ h => h
  all_goals split_ifs at * <;> simp_all

theorem doCompareNumericAndBranch_returns {use : Nat → BuildM LValue} (id : Nat) {instr : HValue}
    {token : Token} {left right : Nat}
    (handled : cb.handles instr (.compareNumericAndBranch token left right) = true)
    (huse : ∀ o ∈ [left, right], Triple P (use o) (fun _ => P) (fun _ _ => False)) :
    Triple P (cb.doCompareNumericAndBranch use id instr token left right) (fun _ => P)
      (fun _ _ => False) := by
  simp only [LLVMChunkBuilder.handles, Bool.and_eq_true, beq_iff_eq, decide_eq_true_eq] at handled
  obtain ⟨⟨⟨⟨integer32, leftRep⟩, rightRep⟩, named⟩, two⟩ := handled
  obtain ⟨_, leftFound, leftRep⟩ := cb.graph.exists_value_of_representation leftRep
  obtain ⟨_, rightFound, rightRep⟩ := cb.graph.exists_value_of_representation rightRep
  have target (i : Nat) (lt : i < 2) {β : Type} {R : β → BuilderState → Prop}
      {f : Nat → BuildM β} (rest : ∀ block, Triple P (f block) R (fun _ _ => False)) :
      Triple P (successorAt instr i >>= fun block => useBlock block >>= f) R (fun _ _ => False) :=
    .bind_resolve_some (List.getElem?_eq_getElem (by omega)) <|
      .bind (useBlock_stable stable _) fun _ => rest _
  unfold doCompareNumericAndBranch
  exact .bind_resolve_some leftFound <| .bind_resolve_some rightFound <|
    .bind_dcheck_pass (by simp [leftRep, integer32]) <|
    .bind_dcheck_pass (by simp [rightRep, integer32]) <|
    .bind (tokenToPredicate_returns named _) fun _ =>
    .of_ite (fun smi => absurd (integer32.symm.trans smi) (by decide)) fun _ =>
    .of_ite (fun _ => .bind (huse left (by simp)) fun _ => .bind (huse right (by simp)) fun _ =>
      .bind (insert_stable stable _) fun _ => target 0 (by decide) fun _ =>
      target 1 (by decide) fun _ => .bind (insert_stable stable _) fun _ =>
      setLlvmValue_stable stable _ _) fun notInteger32 => absurd integer32 notInteger32

theorem doReturn_returns {use : Nat → BuildM LValue} {instr : HValue} {value parameterCount : Nat}
    (handled : cb.handles instr (.«return» value parameterCount) = true)
    (huse : Triple P (use value) (fun _ => P) (fun _ _ => False)) :
    Triple P (cb.doReturn use value parameterCount) (fun _ => P) (fun _ _ => False) := by
  simp only [LLVMChunkBuilder.handles, Bool.and_eq_true, Bool.not_eq_true'] at handled
  obtain ⟨⟨notStub, noDoubles⟩, constant⟩ := handled
  obtain ⟨_, _, found, kind⟩ := cb.graph.exists_constant_of_isConstant constant
  have rest : Triple P (do
      dcheck (!cb.info.isStub) "!info()->IsStub()"
      match (← cb.valueAt parameterCount).kind with
      | .instruction (.constant _) => discard (insert (.ret (← use value)))
      | _ => unimplemented) (fun _ => P) (fun _ _ => False) := by
    refine .bind_dcheck_pass (by simp [notStub]) <| .bind_resolve_some found ?_
    split
    · exact .bind huse fun _ => .of_discard (insert_stable stable _)
    · next other => exact absurd kind (other _)
  unfold doReturn
  exact .of_ite (fun stub => absurd stub (by simp [notStub])) fun _ =>
    .bind (.of_pure _ fun _ h => h) fun _ =>
    .of_ite (fun saves => absurd saves (by simp [noDoubles])) fun _ =>
    .bind (.of_pure _ fun _ h => h) fun _ => rest

theorem doSimulate_returns (entered : ∀ s, P s → s.currentEnvironment ≠ none)
    (popCount : Nat) (values : List (Option Nat × Nat)) :
    Triple P (doSimulate popCount values) (fun _ => P) (fun _ _ => False) := by
  intro s holds
  obtain ⟨address, current⟩ := Option.ne_none_iff_exists'.mp (entered s holds)
  simp only [doSimulate, bind_apply, get_apply, current, dchecked, pure_apply,
    Llv8.writeEnvironment, modify_apply]
  exact stable _ _ holds (InstrStep.of_writeEnvironment s _ _ current)

/-- A handler returns in every case `handles` admits. -/
theorem compileToLLVM_returns {use : Nat → BuildM LValue} (id : Nat) {instr : HValue}
    {opcode : HOpcode} (entered : ∀ s, P s → s.currentEnvironment ≠ none)
    (handled : cb.handles instr opcode = true)
    (huse : ∀ o ∈ opcode.usedOperands, Triple P (use o) (fun _ => P) (fun _ _ => False))
    (read : ∀ s, P s → ∀ o ∈ opcode.readOperands, s.llvmValue o ≠ none) :
    Triple P (cb.compileToLLVM use id instr opcode) (fun _ => P) (fun _ _ => False) := by
  have binary {left right : Nat} (reads : opcode.readOperands = [left, right]) :
      ∀ s, P s → s.llvmValue left ≠ none ∧ s.llvmValue right ≠ none := fun s h =>
    ⟨read s h left (by simp [reads]), read s h right (by simp [reads])⟩
  cases opcode
  case parameter => exact setLlvmValue_stable stable _ _
  case constant => exact .bind (constantWord_returns handled) fun _ =>
    setLlvmValue_stable stable _ _
  case change => exact doChange_returns stable id handled (huse _ (List.mem_singleton_self _))
  case add => exact doAdd_returns stable id handled huse
  case sub => exact doBinaryOnValues_returns stable .sub id handled (binary rfl)
  case mul => exact doBinaryOnValues_returns stable .mul id handled (binary rfl)
  case compareNumericAndBranch => exact doCompareNumericAndBranch_returns stable id handled huse
  case «return» => exact doReturn_returns stable handled (huse _ (List.mem_singleton_self _))
  case simulate => exact doSimulate_returns stable entered _ _
  case blockEntry => exact .of_discard (useBlock_stable stable _)
  case context =>
    simp only [LLVMChunkBuilder.handles, Bool.or_eq_true, Bool.not_eq_true'] at handled
    exact .of_ite (fun _ => .of_pure _ fun _ h => h) fun noUses =>
      .of_ite (fun stub => by simp_all) fun _ => .of_pure _ fun _ h => h
  case argumentsObject | stackCheck => exact .of_pure _ fun _ h => h
  case goto | stub => cases handled

end Handlers

/-! ## Visits that return -/

section Visits

variable {cb} {done : List Nat} {P : BuilderState → Prop}
  (stable : ∀ s s', P s → InstrStep s s' → P s')
  (entered : ∀ s, P s → s.currentEnvironment ≠ none)

theorem exists_value_of_setsValue {o : Nat} (sets : cb.graph.setsValue o = true) :
    ∃ value, cb.graph.value o = some value := by
  cases found : cb.graph.value o with
  | none => simp [HGraph.setsValue, HGraph.opcodeOf, found] at sets
  | some value => exact ⟨value, rfl⟩

theorem exists_opcode_of_visits {value : HValue} (admitted : cb.visits value = true) :
    ∃ opcode, value.opcode? = some opcode := by
  cases isInstruction : value.opcode? with
  | none => simp [visits, isInstruction] at admitted
  | some opcode => exact ⟨opcode, rfl⟩

/-- A value emitted at its uses that an instruction hands to `Use`, under `deferredLower`, is a
leaf whose visit returns. -/
theorem deferred_of_lower (lower : cb.deferredLower = true) {u o : Nat}
    (used : o ∈ cb.graph.usedOperands u) (emits : cb.graph.emitsAtUses o = true) :
    ∃ value opcode, cb.graph.value o = some value ∧ value.opcode? = some opcode ∧
      cb.visits value = true ∧ opcode.isLeaf = true := by
  have inRange : u < cb.graph.values.length := by
    cases found : cb.graph.value u with
    | none => simp [HGraph.usedOperands, HGraph.opcodeOf, found] at used
    | some _ => exact (List.getElem?_eq_some_iff.mp found).1
  have check := List.all_eq_true.mp (List.all_eq_true.mp lower u (List.mem_range.mpr inRange)) o used
  obtain ⟨value, found, check⟩ := exists_of_any (by simpa [emits] using check)
  rw [Bool.and_eq_true] at check
  obtain ⟨opcode, isInstruction⟩ := exists_opcode_of_visits check.1
  rw [isInstruction, Option.any_some] at check
  exact ⟨value, opcode, found, isInstruction, check⟩

include stable entered

/-- A visit returns if `visits` admits its value, the `Use`s of its handler return and the
operands it reads directly are set. -/
theorem visitInstruction_returns {fuel id : Nat} {value : HValue} {opcode : HOpcode}
    (found : cb.graph.value id = some value) (isInstruction : value.opcode? = some opcode)
    (admitted : cb.visits value = true)
    (huse : ∀ o ∈ opcode.usedOperands, Triple P (cb.useValue (cb.visitInstruction fuel) o)
      (fun _ => P) (fun _ _ => False))
    (read : ∀ s, P s → ∀ o ∈ opcode.readOperands, s.llvmValue o ≠ none) :
    Triple P (cb.visitInstruction (fuel + 1) id) (fun _ => P) (fun _ _ => False) := by
  simp only [visits, isInstruction, Option.any_some, Bool.and_eq_true, Bool.not_eq_true',
    Bool.or_eq_true] at admitted
  obtain ⟨kept, branches⟩ := admitted
  refine .bind (record_stable stable _) fun _ => .bind_resolve_some found <|
    .bind_dchecked_some isInstruction <|
    .of_ite (fun replaced => absurd replaced (by simp [kept])) fun _ => ?_
  split
  · exact .bind (useBlock_stable stable _) fun _ => .of_discard (insert_stable stable _)
  · next noBranch =>
    refine compileToLLVM_returns stable id entered ?_ huse read
    rcases branches with ⟨control, known⟩ | handled
    · obtain ⟨successor, known⟩ := Option.isSome_iff_exists.mp known
      exact absurd known (noBranch successor control)
    · exact handled

/-- The visit of a value emitted at its uses, which `Use` makes for an instruction that hands it
over, returns and sets its value. -/
theorem visitInstruction_leaf (lower : cb.deferredLower = true) (fuel : Nat) {u o : Nat}
    (used : o ∈ cb.graph.usedOperands u) (emits : cb.graph.emitsAtUses o = true) :
    Triple P (cb.visitInstruction (fuel + 1) o) (fun _ s => P s ∧ s.llvmValue o ≠ none)
      (fun _ _ => False) := by
  obtain ⟨value, opcode, found, isInstruction, admitted, leaf⟩ := deferred_of_lower lower used emits
  have sets : cb.graph.setsValue o = true := by
    cases opcode <;> simp_all [HGraph.setsValue, HGraph.opcodeOf, HOpcode.setsValue, HOpcode.isLeaf]
  have noOperands : opcode.usedOperands = [] ∧ opcode.readOperands = [] := by
    cases opcode <;> simp_all [HOpcode.isLeaf, HOpcode.usedOperands, HOpcode.readOperands]
  exact .weaken (.conj (visitInstruction_returns stable entered found isInstruction admitted
    (by simp [noOperands.1]) (by simp [noOperands.2])) (visitInstruction_sets cb fuel o sets))
    (fun _ h => ⟨h, True.intro⟩) (fun _ _ h => h) fun _ _ h => h.1

variable (material : ∀ s, P s → Materialized cb.graph done s)
include material

/-- `Use` returns on a value-setting operand of an instruction that is emitted at its uses or
was visited before. -/
theorem useValue_returns (lower : cb.deferredLower = true) (fuel : Nat) {u o : Nat}
    (used : o ∈ cb.graph.usedOperands u) (sets : cb.graph.setsValue o = true) (defined : cb.graph.emitsAtUses o = true ∨ o ∈ done) :
    Triple P (cb.useValue (cb.visitInstruction (fuel + 1)) o) (fun _ => P) (fun _ _ => False) := by
  obtain ⟨value, found⟩ := exists_value_of_setsValue sets
  have lookup := useLookup_triple (A := fun _ _ => False) stable o
  unfold useValue
  refine .bind_resolve_some found <| .bind (Q := fun a s => P s ∧ a = s)
    (.of_get fun _ h => ⟨h, rfl⟩) fun s₁ => .of_ite (fun visits => ?_) fun skips => ?_
  · have emits : cb.graph.emitsAtUses o = true := by
      simp_all [HGraph.emitsAtUses_of cb.graph found]
    exact .bind (.weaken (visitInstruction_leaf stable entered lower fuel used emits) (fun _ h => h.1)
      (fun _ _ h => h) fun _ _ h => h) fun _ => lookup
  · refine .bind (Q := fun _ s => P s ∧ s₁ = s) (.of_pure _ fun _ h => h) fun _ =>
      .weaken lookup ?_ (fun _ _ h => h) fun _ _ h => h
    rintro s ⟨holds, rfl⟩
    refine ⟨holds, ?_⟩
    cases unset : s₁.llvmValue o with
    | some v => simp
    | none =>
      have direct : cb.graph.emitsAtUses o = false := by
        simpa [HGraph.emitsAtUses_of cb.graph found, unset] using skips
      have member : o ∈ done := by simpa [direct] using defined
      exact absurd unset ((material s₁ holds).2 o member sets direct)

/-- A visit from the block loop returns on an instruction it lowers, and sets its value if
its handler is one that sets it. -/
theorem visitInstruction_lowers (lower : cb.deferredLower = true) (fuel : Nat) {u : Nat}
    (lowered : cb.lowersAfter done u = true) :
    Triple P (cb.visitInstruction (fuel + 2) u)
      (fun _ s => P s ∧ (cb.graph.setsValue u = true → s.llvmValue u ≠ none))
      (fun _ _ => False) := by
  simp only [lowersAfter, Bool.and_eq_true] at lowered
  obtain ⟨⟨admitted, defined⟩, reads⟩ := lowered
  cases found : cb.graph.value u with
  | none => simp [found] at admitted
  | some value =>
  rw [found, Option.any_some] at admitted
  obtain ⟨opcode, isInstruction⟩ := exists_opcode_of_visits admitted
  have huse (o : Nat) (used : o ∈ opcode.usedOperands) :
      Triple P (cb.useValue (cb.visitInstruction (fuel + 1)) o) (fun _ => P) (fun _ _ => False) := by
    rw [← HGraph.usedOperands_of cb.graph found isInstruction] at used
    have check := List.all_eq_true.mp defined o used
    simp only [Bool.and_eq_true, Bool.or_eq_true] at check
    exact useValue_returns stable entered material lower fuel used check.1 (by simpa using check.2)
  have read (s : BuilderState) (holds : P s) (o : Nat) (member : o ∈ opcode.readOperands) :
      s.llvmValue o ≠ none := by
    have check := List.all_eq_true.mp reads o
      (by simpa [HGraph.readOperands, HGraph.opcodeOf, found, isInstruction] using member)
    simp only [Bool.and_eq_true, Bool.not_eq_true', List.elem_iff, List.contains] at check
    exact (material s holds).2 o check.2 check.1.1 check.1.2
  have sets : Triple (fun _ => True) (cb.visitInstruction (fuel + 2) u)
      (fun _ s => cb.graph.setsValue u = true → s.llvmValue u ≠ none) (fun _ _ => True) := by
    cases setting : cb.graph.setsValue u
    · exact .weaken (.trivial _) (fun _ h => h)
        (fun _ _ _ impossible => absurd impossible Bool.false_ne_true) fun _ _ h => h
    · exact .weaken (visitInstruction_sets cb (fuel + 1) u setting) (fun _ h => h)
        (fun _ _ h _ => h) fun _ _ h => h
  exact .weaken (.conj (visitInstruction_returns stable entered found isInstruction admitted
    huse read) sets) (fun _ h => ⟨h, True.intro⟩) (fun _ _ h => h) fun _ _ h => h.1

end Visits

/-! ## Blocks that bind -/

/-- What the block loop keeps between blocks: the build is running and the value-setting
instructions visited have their values, every block processed has an environment, and every
argument count is non-negative. -/
structure Ready (graph : HGraph) (doneBlocks done : List Nat) (s : BuilderState) : Prop where
  materialized : Materialized graph done s
  environments : ∀ b ∈ doneBlocks, s.lastEnvironment b ≠ none
  counts : ∀ b, 0 ≤ s.blockArgumentCount b
  count : 0 ≤ s.argumentCount

namespace Ready

variable {graph : HGraph} {bs done : List Nat} {s s' : BuilderState}

theorem congr (ready : Ready graph bs done s) (status : s'.status = s.status)
    (values : s'.llvmValue = s.llvmValue) (environments : s'.lastEnvironment = s.lastEnvironment)
    (counts : s'.blockArgumentCount = s.blockArgumentCount)
    (count : s'.argumentCount = s.argumentCount) : Ready graph bs done s' :=
  ⟨ready.materialized.congr status values, environments ▸ ready.environments,
    counts ▸ ready.counts, count ▸ ready.count⟩

theorem stable (ready : Ready graph bs done s) (step : InstrStep s s') : Ready graph bs done s' :=
  ⟨ready.materialized.stable step, step.lastEnvironment ▸ ready.environments,
    step.blockArgumentCount ▸ ready.counts, step.argumentCount ▸ ready.count⟩

theorem setLastEnvironment (ready : Ready graph bs done s) (block address : Nat) :
    Ready graph (bs ++ [block]) done (s.setLastEnvironment block address) := by
  refine ⟨ready.materialized.congr rfl rfl, fun b member => ?_, ready.counts, ready.count⟩
  by_cases same : b = block
  · simp [same]
  · simpa [updateAt_apply, same] using ready.environments b (by simpa [same] using member)

theorem setArgumentCount (ready : Ready graph bs done s) {count : Int} (nonneg : 0 ≤ count) :
    Ready graph bs done (s.setArgumentCount count) :=
  ⟨ready.materialized.congr rfl rfl, ready.environments, ready.counts, nonneg⟩

theorem leaveBlock (ready : Ready graph bs done s) (block : Nat) :
    Ready graph bs done (s.leaveBlock block) := by
  refine ⟨ready.materialized.congr rfl rfl, ready.environments, fun b => ?_, ready.count⟩
  by_cases same : b = block
  · simpa [same] using ready.count
  · simpa [updateAt_apply, same] using ready.counts b

theorem append_deferred (ready : Ready graph bs done s) {u : Nat}
    (emits : graph.emitsAtUses u = true) : Ready graph bs (done ++ [u]) s :=
  { ready with materialized := ready.materialized.append_deferred emits }

theorem append_visited (ready : Ready graph bs done s) {u : Nat}
    (set : graph.setsValue u = true → s.llvmValue u ≠ none) : Ready graph bs (done ++ [u]) s := by
  refine { ready with materialized := ⟨ready.materialized.1, fun o member sets direct => ?_⟩ }
  rcases List.mem_append.mp member with old | last
  · exact ready.materialized.2 o old sets direct
  · rw [List.mem_singleton.mp last] at sets ⊢
    exact set sets

theorem entered (ready : Ready graph bs done s) {block : Nat}
    (current : s.currentBlock = some block) (member : block ∈ bs) : s.currentEnvironment ≠ none := by
  simpa [BuilderState.currentEnvironment, current] using ready.environments block member

end Ready

/-- The phis of a block fit the object its first predecessor holds: unless it is the start block,
every merged index of its phis is in the range of that object. -/
def PhisFit (graph : HGraph) (block : HBasicBlock) (s : BuilderState) : Prop :=
  block.isStartBlock = false → ∀ pred address, block.predecessors[0]? = some pred →
    s.lastEnvironment pred = some address → ∀ phi ∈ block.phis, ∀ index,
      graph.mergedIndex phi = some index → index < (s.environments address).length

/-- Between blocks no object is written, so the phis keep fitting. -/
theorem PhisFit.idleStep {graph : HGraph} {block : HBasicBlock} {s t : BuilderState}
    (fits : PhisFit graph block s) (idle : s.currentBlock = none) (step : InstrStep s t) :
    PhisFit graph block t := by
  intro notStart pred address first pointer phi member index merged
  rw [step.environments address (by simp [BuilderState.currentEnvironment, idle])]
  exact fits notStart pred address first (step.lastEnvironment ▸ pointer) phi member index merged

section Blocks

variable {cb}

/-- A phi with a merged index that `bindsAfter` admits at a join lies in a graph whose
environments are fixed, and its index is in range of what the join's first predecessor, which
comes before, finished with. -/
theorem merged_of_bindsAfter {before : List Nat} {finished : Nat → Option (List Nat)}
    {block : HBasicBlock} (binds : cb.bindsAfter before finished block = true)
    (notStart : block.isStartBlock = false) {phi index : Nat} (member : phi ∈ block.phis)
    (merged : cb.graph.mergedIndex phi = some index) :
    cb.graph.sharingOrdered = true ∧ cb.graph.simulatesUnused = true ∧
      ∃ pred, block.predecessors[0]? = some pred ∧ pred ∈ before ∧
        ∃ env, finished pred = some env ∧ index < env.length := by
  obtain ⟨value, found, valueMerged⟩ := Option.bind_eq_some.mp merged
  have kind : value.kind = .phi (some index) := by
    unfold HValue.mergedIndex at valueMerged
    split at valueMerged <;> simp_all
  simp only [bindsAfter, notStart, Bool.false_or] at binds
  split at binds
  · cases binds
  · next pred preds =>
    simp only [Bool.and_eq_true, List.isEmpty_iff] at binds
    simp [binds.1.1] at member
  · next _ pred _ _ preds =>
    simp only [Bool.and_eq_true, List.all_eq_true] at binds
    have check := binds.2 phi member
    simp only [found, Option.any_some, kind, Bool.and_eq_true] at check
    obtain ⟨env, fin, below⟩ := exists_of_any check.2
    exact ⟨check.1.1, check.1.2, pred, by simp [preds], List.elem_iff.mp binds.1.1, env, fin,
      by simpa using below⟩

/-- Outside a graph whose environments are fixed, `bindsAfter` admits no phi with a merged
index, so the phis fit whatever the objects hold. -/
theorem phisFit_of_plain {before : List Nat} {finished : Nat → Option (List Nat)}
    {block : HBasicBlock} (plain : ¬(cb.graph.sharingOrdered = true ∧
      cb.graph.simulatesUnused = true)) (binds : cb.bindsAfter before finished block = true)
    (s : BuilderState) : PhisFit cb.graph block s := by
  intro notStart _ _ _ _ phi member index merged
  obtain ⟨ordered, unused, -⟩ := merged_of_bindsAfter binds notStart member merged
  exact absurd ⟨ordered, unused⟩ plain

/-- In a graph whose environments are fixed, a join's first predecessor holds what it finished
with, which `finishedAfter` computes, so the merged indices `bindsAfter` admits fit. -/
theorem phisFit_of_static {done rest : List HBasicBlock} {c : HBasicBlock} {s : BuilderState}
    (binds : cb.bindsAfter (done.map (·.blockId)) (cb.graph.finishedAfter done) c = true)
    (static : Static cb.graph done (c :: rest) s) : PhisFit cb.graph c s := by
  intro notStart pred address first pointer phi member index merged
  obtain ⟨-, -, pred', first', before, env, fin, below⟩ :=
    merged_of_bindsAfter binds notStart member merged
  obtain rfl : pred' = pred := Option.some.inj (first'.symm.trans first)
  obtain ⟨p, pDone, rfl⟩ := List.mem_map.mp before
  obtain ⟨address', contents, pointer', -, finished, held⟩ :=
    static.between.pending.held c (List.mem_cons_self _ _) p pDone first
  obtain rfl : address' = address := Option.some.inj (pointer'.symm.trans pointer)
  rw [static.finished p pDone, fin, Option.some.injEq] at finished
  rw [held, ← finished]
  exact below

/-- The phi loop of a join returns when every merged index is in range of the object. -/
theorem setPhis_returns {P : BuilderState → Prop} {address : Nat}
    (writes : ∀ s contents, P s → P (s.writeEnvironment address contents)) (phis : List Nat)
    (arePhis : ∀ phi ∈ phis, (cb.graph.value phi).any (·.kind matches .phi _) = true) :
    Triple (fun s => P s ∧ ∀ phi ∈ phis, ∀ index, cb.graph.mergedIndex phi = some index →
        index < (s.environments address).length) (cb.setPhis address phis) (fun _ => P)
      (fun _ _ => False) := by
  induction phis with
  | nil => exact .of_pure _ fun _ h => h.1
  | cons phi rest loop =>
    obtain ⟨value, found, isPhi⟩ := exists_of_any (arePhis phi (List.mem_cons_self _ _))
    have next := loop fun phi member => arePhis phi (List.mem_cons_of_mem _ member)
    refine .bind_resolve_some found ?_
    split
    · next index kind =>
      refine .bind (Q := fun _ s => P s ∧ ∀ phi ∈ rest, ∀ index, cb.graph.mergedIndex phi =
        some index → index < (s.environments address).length) ?_ fun _ => next
      intro s ⟨holds, inRange⟩
      have merged : cb.graph.mergedIndex phi = some index := by
        simp [HGraph.mergedIndex, found, HValue.mergedIndex, kind]
      rw [setValueAt_of_lt phi (inRange phi (List.mem_cons_self _ _) index merged)]
      exact ⟨writes _ _ holds, fun phi' member index' merged' => by
        simpa using inRange phi' (List.mem_cons_of_mem _ member) index' merged'⟩
    · exact .bind (.of_pure _ fun _ h => ⟨h.1, fun phi' member => h.2 phi'
        (List.mem_cons_of_mem _ member)⟩) fun _ => next
    · simp_all

theorem clearDeletedPhis_returns {P : BuilderState → Prop} {address : Nat}
    (writes : ∀ s contents, P s → P (s.writeEnvironment address contents)) (indices : List Nat) :
    Triple P (cb.clearDeletedPhis address indices) (fun _ => P) (fun _ _ => False) := by
  induction indices with
  | nil => exact .of_pure _ fun _ h => h
  | cons index rest loop =>
    refine .bind (Q := fun a s => P s ∧ a = s) (.of_get fun _ h => ⟨h, rfl⟩) fun s₁ =>
      .of_ite (fun inRange => .bind ?_ fun _ => loop) fun _ =>
        .bind (.of_pure _ fun _ h => h.1) fun _ => loop
    rintro s ⟨holds, rfl⟩
    simp only [setValueAt, bind_apply, get_apply, dcheck, decide_eq_true inRange, ↓reduceIte,
      pure_apply, Llv8.writeEnvironment, modify_apply]
    exact writes _ _ holds

/-- `DoBasicBlock` binds the environment of a block that `bindsAfter` admits and whose phis fit. -/
theorem bindEnvironment_returns {bs done : List Nat} {finished : Nat → Option (List Nat)}
    {block : HBasicBlock} (binds : cb.bindsAfter bs finished block = true) :
    Triple (fun s => (Ready cb.graph bs done s ∧ s.currentBlock = some block.blockId) ∧
        PhisFit cb.graph block s)
      (cb.bindEnvironment block)
      (fun _ s => Ready cb.graph (bs ++ [block.blockId]) done s ∧
        s.currentBlock = some block.blockId) (fun _ _ => False) := by
  have update (address : Nat) : Triple
      (fun s => Ready cb.graph bs done s ∧ s.currentBlock = some block.blockId)
      (updateEnvironment block.blockId address)
      (fun _ s => Ready cb.graph (bs ++ [block.blockId]) done s ∧
        s.currentBlock = some block.blockId) (fun _ _ => False) :=
    .of_modify fun _ ⟨ready, current⟩ => ⟨ready.setLastEnvironment _ _, current⟩
  have inherit (address : Nat) : Triple
      (fun s => Ready cb.graph bs done s ∧ s.currentBlock = some block.blockId)
      (modify fun s => s.recordInherited block.blockId (s.environments address))
      (fun _ s => Ready cb.graph bs done s ∧ s.currentBlock = some block.blockId)
      (fun _ _ => False) :=
    .of_modify fun _ ⟨ready, current⟩ => ⟨ready.congr rfl rfl rfl rfl rfl, current⟩
  have present {pred : Nat} {predBlock : HBasicBlock} (member : bs.contains pred = true)
      (found : cb.graph.block pred = some predBlock) (s : BuilderState)
      (holds : Ready cb.graph bs done s ∧ s.currentBlock = some block.blockId) :
      s.lastEnvironment predBlock.blockId ≠ none := by
    rw [cb.graph.blockId_of_block found]
    exact holds.1.environments pred (by simpa using member)
  unfold bindEnvironment
  refine .of_ite (fun _ => .bind (update _ |>.weaken (fun _ h => h.1) (fun _ _ h => h)
    fun _ _ h => h) fun _ => .of_modify fun _ ⟨ready, current⟩ =>
      ⟨ready.setArgumentCount le_rfl, current⟩) fun notStart => ?_
  simp only [bindsAfter, notStart, Bool.false_or] at binds
  cases preds : block.predecessors with
  | nil => simp [preds] at binds
  | cons pred others =>
  cases others with
  | nil =>
    refine .weaken (P := fun s => Ready cb.graph bs done s ∧ s.currentBlock = some block.blockId)
      ?_ (fun _ h => h.1) (fun _ _ h => h) fun _ _ h => h
    simp only [preds, Bool.and_eq_true] at binds
    obtain ⟨⟨noPhis, member⟩, ends⟩ := binds
    obtain ⟨predEnd, endFound, ends⟩ := exists_of_any ends
    obtain ⟨c, endIs, valueFound⟩ := Option.bind_eq_some.mp endFound
    obtain ⟨predBlock, predFound, endOf⟩ := Option.bind_eq_some.mp endIs
    refine .of_ite (fun _ => ?_) fun notOne => absurd rfl notOne
    refine .bind_dcheck_pass (by simpa using noPhis) <| .bind_dchecked_some rfl <|
      .bind_resolve_some predFound <| .bind_dchecked_get_some (present member predFound)
      fun address => .bind_resolve_some endOf <| .bind_resolve_some valueFound ?_
    have finish (address : Nat) : Triple
        (fun s => Ready cb.graph bs done s ∧ s.currentBlock = some block.blockId) (do
          modify fun s => s.recordInherited block.blockId (s.environments address)
          updateEnvironment block.blockId address
          let count := (← get).blockArgumentCount predBlock.blockId
          dcheck (count ≥ 0) "pred->argument_count() >= 0"
          modify (·.setArgumentCount count))
        (fun _ s => Ready cb.graph (bs ++ [block.blockId]) done s ∧
          s.currentBlock = some block.blockId) (fun _ _ => False) :=
      .bind (inherit _) fun _ => .bind (update _) fun _ =>
      .bind_get_dcheck_pass (fun _ holds => decide_eq_true (holds.1.counts _)) fun _ holds₀ =>
      .of_modify fun _ ⟨ready, current⟩ => ⟨ready.setArgumentCount (holds₀.1.counts _), current⟩
    split
    · next second =>
      exact .bind_dcheck_pass (by simpa [second] using ends) <|
        .bind (.of_pure _ fun _ h => h) fun _ => finish _
    · next second' second =>
      obtain ⟨first, firstIs⟩ := Option.isSome_iff_exists.mp (by simpa [second] using ends)
      exact .bind_resolve_some firstIs <| .of_ite (fun _ => .bind (.of_modifyGet
        fun _ ⟨ready, current⟩ => ⟨ready.congr rfl rfl rfl rfl rfl, current⟩) fun _ => finish _)
        fun _ => .bind (.of_pure _ fun _ h => h) fun _ => finish _
  | cons pred' rest =>
    simp only [preds, Bool.and_eq_true] at binds
    obtain ⟨⟨member, predSome⟩, admitted⟩ := binds
    obtain ⟨predBlock, predFound⟩ := Option.isSome_iff_exists.mp predSome
    have arePhis (phi : Nat) (phiMember : phi ∈ block.phis) :
        (cb.graph.value phi).any (·.kind matches .phi _) = true := by
      obtain ⟨value, found, phiAdmitted⟩ := exists_of_any (List.all_eq_true.mp admitted phi phiMember)
      rw [found, Option.any_some]
      split at phiAdmitted <;> simp_all
    have first : block.predecessors[0]? = some predBlock.blockId := by
      rw [preds, cb.graph.blockId_of_block predFound]
      rfl
    refine .of_ite (fun one => absurd one (by simp)) fun _ => ?_
    exact .bind_dchecked_some rfl <| .bind_resolve_some predFound <|
      .bind_resolve_get_some (fun s h => present member predFound s h.1) fun address =>
      .bind (Q := fun _ s => (Ready cb.graph bs done s ∧ s.currentBlock = some block.blockId) ∧
        ∀ phi ∈ block.phis, ∀ index, cb.graph.mergedIndex phi = some index →
          index < (s.environments address).length) (.of_modify fun _ ⟨⟨⟨ready, current⟩, fits⟩,
          pointer⟩ => ⟨⟨ready.congr rfl rfl rfl rfl rfl, current⟩,
            fits (by simpa using notStart) _ address first pointer⟩) fun _ =>
      .bind (setPhis_returns (fun _ _ ⟨ready, current⟩ =>
        ⟨ready.congr rfl rfl rfl rfl rfl, current⟩) _ arePhis) fun _ =>
      .bind (clearDeletedPhis_returns (fun _ _ ⟨ready, current⟩ =>
        ⟨ready.congr rfl rfl rfl rfl rfl, current⟩) _) fun _ => .bind (update _) fun _ =>
      .of_modify fun _ ⟨ready, current⟩ => ⟨ready.setArgumentCount (ready.counts _), current⟩

variable (lower : cb.deferredLower = true) (fuel : Nat)
include lower

/-- The instruction loop of a block returns on an order it lowers. -/
theorem doInstructions_lowers {bs : List Nat} {block : Nat} (member : block ∈ bs)
    (ids : List Nat) : ∀ done, cb.orderLowers done ids = true →
    Triple (fun s => Ready cb.graph bs done s ∧ s.currentBlock = some block)
      (cb.doInstructions (fuel + 2) ids)
      (fun _ s => Ready cb.graph bs (done ++ ids) s ∧ s.currentBlock = some block)
      (fun _ _ => False) := by
  induction ids with
  | nil => exact fun done _ => .of_pure _ fun _ h => by simpa using h
  | cons u rest loop =>
    intro done lowered
    simp only [orderLowers, Bool.and_eq_true, Bool.or_eq_true] at lowered
    have next := loop (done ++ [u]) lowered.2
    rw [List.append_assoc, List.singleton_append] at next
    obtain ⟨value, found⟩ : ∃ value, cb.graph.value u = some value := by
      rcases lowered.1 with emits | lowers
      · exact (exists_of_any emits).imp fun _ h => h.1
      · simp only [lowersAfter, Bool.and_eq_true] at lowers
        exact (exists_of_any lowers.1.1).imp fun _ h => h.1
    have emits := HGraph.emitsAtUses_of cb.graph found
    refine .bind (Q := fun a s => (Ready cb.graph bs done s ∧ s.currentBlock = some block) ∧ a = s)
      (.of_get fun _ h => ⟨h, rfl⟩) fun s₁ => .of_ite (fun aborted => ?_) fun _ =>
      .weaken (.bind_resolve_some found ?_) (fun _ h => h.1) (fun _ _ h => h) fun _ _ h => h
    · rintro s ⟨⟨ready, _⟩, rfl⟩
      rw [ready.materialized.1] at aborted
      cases aborted
    · refine .of_ite (fun direct => .bind (.weaken (visitInstruction_lowers
        (fun _ _ h step => ⟨h.1.stable step, step.currentBlock.trans h.2⟩)
        (fun _ h => h.1.entered h.2 member) (fun _ h => h.1.materialized) lower fuel ?_)
        (fun _ h => h) (fun _ _ h => ⟨h.1.1.append_visited h.2, h.1.2⟩) fun _ _ h => h)
        fun _ => next) fun deferred =>
        .bind (.of_pure _ fun _ h => ⟨h.1.append_deferred (by simpa [emits] using deferred), h.2⟩)
          fun _ => next
      have notEmits : value.emitAtUses = false := by simpa using direct
      simpa [emits, notEmits] using lowered.1

/-- `DoBasicBlock` returns on a block that binds and whose instructions lower. -/
theorem doBasicBlock_lowers {bs done : List Nat} {finished : Nat → Option (List Nat)}
    {block : HBasicBlock} (binds : cb.bindsAfter bs finished block = true)
    (lowered : cb.orderLowers done block.instructions = true) :
    Triple (fun s => (Ready cb.graph bs done s ∧ PhisFit cb.graph block s) ∧ s.currentBlock = none)
      (cb.doBasicBlock (fuel + 2) block)
      (fun _ s => Ready cb.graph (bs ++ [block.blockId]) (done ++ block.instructions) s ∧
        s.currentBlock = none) (fun _ _ => False) := by
  unfold doBasicBlock
  exact .bind_get_dcheck_pass (fun _ h => by simp [h.1.1.materialized.1]) fun _ _ =>
    .bind (useBlock_stable (fun _ _ ⟨⟨ready, fits⟩, idle⟩ step => ⟨⟨ready.stable step,
      fits.idleStep idle step⟩, step.currentBlock.trans idle⟩) _) fun _ =>
    .bind (.of_modify fun _ ⟨⟨ready, fits⟩, _⟩ => ⟨⟨ready.congr rfl rfl rfl rfl rfl, rfl⟩, fits⟩)
      fun _ => .bind (bindEnvironment_returns binds) fun _ =>
    .bind (doInstructions_lowers lower fuel (List.mem_append_right _ (List.mem_singleton_self _))
      _ done lowered) fun _ => .of_modify fun _ h => ⟨h.1.leaveBlock _, rfl⟩

section Run

variable (E : List HBasicBlock → List HBasicBlock → BuilderState → Prop)
  (keeps : ∀ done c rest, done ++ c :: rest = cb.graph.blocks →
    Triple (E done (c :: rest)) (cb.doBasicBlock (fuel + 2) c) (fun _ => E (done ++ [c]) rest)
      (fun _ _ => True))
  (fits : ∀ done c rest s, done ++ c :: rest = cb.graph.blocks →
    cb.bindsAfter (done.map (·.blockId)) (cb.graph.finishedAfter done) c = true →
    E done (c :: rest) s → PhisFit cb.graph c s)
include keeps fits

/-- The block loop of `Build` runs to its end on blocks that bind and whose instructions
lower, given an invariant `E` of the blocks processed under which each block's phis fit. -/
theorem doBlocks_lowers (blocks : List HBasicBlock) : ∀ doneBlocks done,
    doneBlocks ++ blocks = cb.graph.blocks →
    cb.blocksBind (doneBlocks.map (·.blockId)) (cb.graph.finishedAfter doneBlocks) blocks = true →
    cb.orderLowers done (blocks.flatMap (·.instructions)) = true →
    Triple (fun s => (Ready cb.graph (doneBlocks.map (·.blockId)) done s ∧
        s.currentBlock = none) ∧ E doneBlocks blocks s) (cb.doBlocks (fuel + 2) blocks)
      (fun r _ => r = true) (fun _ _ => False) := by
  induction blocks with
  | nil => exact fun _ _ _ _ _ => .of_pure _ fun _ _ => rfl
  | cons block rest loop =>
    intro doneBlocks done order binds lowered
    simp only [blocksBind, Bool.and_eq_true] at binds
    rw [List.flatMap_cons, orderLowers_append, Bool.and_eq_true] at lowered
    have next := loop (doneBlocks ++ [block]) (done ++ block.instructions) (by simpa using order)
      (by rw [List.map_append, List.map_singleton, HGraph.finishedAfter_append_singleton]
          exact binds.2) lowered.2
    rw [List.map_append, List.map_singleton] at next
    refine .bind (.weaken ((doBasicBlock_lowers lower fuel binds.1 lowered.1).conj
      (keeps doneBlocks block rest order)) (fun s h =>
        ⟨⟨⟨h.1.1, fits doneBlocks block rest s order binds.1 h.2⟩, h.1.2⟩, h.2⟩)
      (fun _ _ h => h) fun _ _ h => h.1) fun _ =>
      .bind (Q := fun a s => ((Ready cb.graph (doneBlocks.map (·.blockId) ++ [block.blockId])
          (done ++ block.instructions) s ∧ s.currentBlock = none) ∧
          E (doneBlocks ++ [block]) rest s) ∧ a = s)
        (.of_get fun _ h => ⟨h, rfl⟩) fun s₁ => .of_ite (fun aborted => ?_) fun _ =>
        .weaken next (fun _ h => h.1) (fun _ _ h => h) fun _ _ h => h
    rintro s ⟨⟨⟨ready, -⟩, -⟩, rfl⟩
    rw [ready.materialized.1] at aborted
    cases aborted

/-- From the start, a build whose blocks bind and lower and run under `E` returns a chunk. -/
theorem build_lowers_under (session : LLVMGranularity)
    (lowered : cb.orderLowers [] (cb.graph.blocks.flatMap (·.instructions)) = true)
    (binds : cb.blocksBind [] (fun _ => none) cb.graph.blocks = true)
    (start : E [] cb.graph.blocks
      ((BuilderState.initial cb.graph session).startBuild cb.functionArity)) :
    Triple (· = BuilderState.initial cb.graph session) (cb.build (fuel + 2))
      (fun chunk _ => chunk.isSome) (fun _ _ => False) := by
  unfold build
  refine .bind (Q := fun _ s => (Ready cb.graph [] [] s ∧ s.currentBlock = none) ∧
    E [] cb.graph.blocks s) (.of_modify fun _ initial => ?_) fun _ =>
    .bind (doBlocks_lowers lower fuel E keeps fits _ [] [] rfl binds lowered) fun _ => ?_
  · subst initial
    exact ⟨⟨⟨⟨rfl, by simp⟩, by simp, fun _ => le_rfl, le_rfl⟩, rfl⟩, start⟩
  · intro s returned
    subst returned
    exact rfl

end Run

end Blocks

/-- From the start, a build of a graph it lowers, given fuel for one nested visit, never aborts
and returns a chunk.  Where the graph fixes its environments, the blocks are run under `Static`,
which makes the merged indices of the joins' phis fit. -/
theorem build_lowers (lowers : cb.lowers = true) (fuel : Nat) (session : LLVMGranularity) :
    Triple (· = BuilderState.initial cb.graph session) (cb.build (fuel + 2))
      (fun chunk _ => chunk.isSome) (fun _ _ => False) := by
  simp only [LLVMChunkBuilder.lowers, Bool.and_eq_true] at lowers
  obtain ⟨⟨lower, lowered⟩, binds⟩ := lowers
  by_cases shaped : cb.graph.sharingOrdered = true ∧ cb.graph.simulatesUnused = true
  · exact build_lowers_under lower fuel (Static cb.graph)
      (fun _ _ _ order => doBasicBlock_static cb shaped.1 shaped.2 order _)
      (fun _ _ _ _ _ binds static => phisFit_of_static binds static) session lowered binds
      ⟨⟨⟨nofun, nofun⟩, nofun, nofun, nofun, Nat.one_pos⟩, rfl, nofun,
        fun _ => by simp [BuilderState.initial, startEnvironmentAddress]⟩
  · exact build_lowers_under lower fuel (fun _ _ _ => True) (fun _ _ _ _ => .trivial _)
      (fun _ _ _ _ _ binds _ => phisFit_of_plain shaped binds _) session lowered binds True.intro

/-- On a graph that it lowers, `Build`, given fuel for one nested visit, never aborts: it
reaches no `UNIMPLEMENTED()` or `UNREACHABLE()`, no `CHECK` or `DCHECK` fails, and it returns a
chunk. -/
theorem build_completes (cb : LLVMChunkBuilder) (lowers : cb.lowers = true) (fuel : Nat)
    (enough : 2 ≤ fuel) (session : LLVMGranularity) :
    ∃ chunk s, cb.build fuel (BuilderState.initial cb.graph session) = .ok (some chunk) s := by
  obtain ⟨fuel, rfl⟩ : ∃ k, fuel = k + 2 := ⟨fuel - 2, by omega⟩
  have outcome := cb.build_lowers lowers fuel session _ rfl
  cases result : cb.build (fuel + 2) (BuilderState.initial cb.graph session) with
  | ok chunk s =>
    rw [result] at outcome
    obtain ⟨chunk, rfl⟩ := Option.isSome_iff_exists.mp outcome
    exact ⟨chunk, s, rfl⟩
  | error e s =>
    rw [result] at outcome
    exact outcome.elim

/-- `parameterBelowTen` is lowered: its build with fuel `2` returns a chunk. -/
theorem build_completes_parameterBelowTen :
    ∃ chunk s, LLVMChunkBuilder.build ⟨⟨1, false, false⟩, parameterBelowTen, true⟩ 2
      (BuilderState.initial parameterBelowTen {}) = .ok (some chunk) s :=
  build_completes (LLVMChunkBuilder.mk ⟨1, false, false⟩ parameterBelowTen true) (by decide) 2
    le_rfl {}

/-- The diamond is lowered, the phi of its join, which merges slot `0`, included. -/
example : (LLVMChunkBuilder.mk ⟨1, false, false⟩ diamond true).lowers = true := by decide

end LLVMChunkBuilder

end Llv8
