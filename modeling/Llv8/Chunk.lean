import Llv8.Builder

/-!
# `LLVMChunkBuilder`: lowering a Hydrogen graph to LLVM IR

One definition per member function of `llvm-chunk.cc`, under its name.  The handlers that
resolve operands receive `Use(HValue*)` as an argument `use`: `Use` may run `VisitInstruction`
on an operand that is emitted at its uses, and `VisitInstruction` runs the handlers, so the
recursion is closed in `visitInstruction`, which spends one unit of fuel per nested visit.

Printing (`llvm::outs()`, the `DEBUG` traces), `current_instruction_` and `next_block_`,
which no handler reads, are left out.
-/

namespace Llv8

namespace LLVMChunkBuilder

variable (cb : LLVMChunkBuilder)

/-- The value with a given id. -/
def valueAt (id : Nat) : BuildM HValue := resolve (cb.graph.value id)

/-- The block with a given id. -/
def blockAt (id : Nat) : BuildM HBasicBlock := resolve (cb.graph.block id)

/-- `Use(HValue*)`: a value emitted at its uses is materialized at its first use, then the
value's LLVM value is `DCHECK`ed and returned.  `visit` is `VisitInstruction`. -/
def useValue (visit : Nat → BuildM Unit) (id : Nat) : BuildM LValue := do
  let value ← cb.valueAt id
  if value.emitAtUses && ((← get).llvmValue id).isNone then visit id
  let llvmValue ← dchecked ((← get).llvmValue id) "value->llvm_value()"
  record (.use id llvmValue)
  pure llvmValue

/-- `SmiToInteger32`: untag by a logical shift right by `kSmiShift`. -/
def smiToInteger32 (use : Nat → BuildM LValue) (value : Nat) : BuildM LValue :=
  if cb.smiValuesAre32Bits then do insert (.lShr (← use value) cb.kSmiShift)
  else unimplemented

/-- `Integer32ToSmi`: tag by a shift left by `kSmiShift`. -/
def integer32ToSmi (use : Nat → BuildM LValue) (value : Nat) : BuildM LValue := do
  insert (.shl (← use value) cb.kSmiShift)

/-- `TokenToPredicate`. -/
def tokenToPredicate : Token → Bool → BuildM CmpPredicate
  | .eq, _ | .eqStrict, _ => pure .icmpEq
  | .ne, _ | .neStrict, _ => pure .icmpNe
  | .lt, isUnsigned => pure (if isUnsigned then .icmpUlt else .icmpSlt)
  | .gt, isUnsigned => pure (if isUnsigned then .icmpUgt else .icmpSgt)
  | .lte, isUnsigned => pure (if isUnsigned then .icmpUle else .icmpSle)
  | .gte, isUnsigned => pure (if isUnsigned then .icmpUge else .icmpSge)
  | .«in», _ | .instanceOf, _ | .other, _ => throw .unreachable

/-- `HConstant::Integer32Value()`, which `DCHECK`s that the constant has one. -/
def integer32Value : HConstantValue → BuildM (BitVec 32)
  | .integer32 value => pure value
  | .object => throw (.dcheckFailed "HasInteger32Value()")

/-- `Smi::IsValid`: every 32-bit integer is a Smi in the 32-bit configuration, the 31-bit
ones otherwise. -/
def isSmi (value : BitVec 32) : Bool :=
  cb.smiValuesAre32Bits || (-2 ^ 30 ≤ value.toInt && value.toInt < 2 ^ 30)

/-- The 64-bit word `DoConstant` materializes for a constant of a representation. -/
def constantWord (r : Representation) (constant : HConstantValue) : BuildM (BitVec 64) :=
  if r = .smi then do
    pure ((← integer32Value constant).signExtend 64 <<< cb.kSmiShift)
  else if r = .integer32 then do
    pure ((← integer32Value constant).signExtend 64)
  else if r = .double then unimplemented
  else if r = .external then unimplemented
  else if r = .tagged then
    -- the handle is a Smi exactly when it is an integer of the Smi range
    match constant with
    | .integer32 value =>
      if cb.isSmi value then pure (value.signExtend 64 <<< cb.kSmiShift) else unimplemented
    | .object => unimplemented
  else throw .unreachable

/-- `DoConstant`. -/
def doConstant (id : Nat) (instr : HValue) (constant : HConstantValue) : BuildM Unit := do
  setLlvmValue id (.constantInt (← cb.constantWord instr.representation constant))

/-- The argument walk of `DoParameter`, `while (--index + num_parameters > 0) ++it;`, from
argument `it`, with at most `bound` iterations left. -/
def argumentLoop (numParameters : Int) : Nat → Int → Nat → Nat
  | 0, _, it => it
  | bound + 1, index, it =>
    if index - 1 + numParameters > 0 then argumentLoop numParameters bound (index - 1) (it + 1)
    else it

/-- The argument walk bounded by its termination measure `index + num_parameters`, which
every iteration lowers by one. -/
def argumentWalk (numParameters index : Int) (it : Nat) : Nat :=
  argumentLoop numParameters (index + numParameters).toNat index it

/-- `num_parameters` of `Build` and `DoParameter`: the arguments of the function, that is the
context, the callee and the parameters with the receiver, `num_parameters() + 3`. -/
def functionArity : Nat := cb.info.numParameters + 3

/-- `DoParameter`: parameters are passed right to left after the two hidden arguments, so the
walk starts at the first argument with the index negated. -/
def doParameter (id index : Nat) : BuildM Unit :=
  setLlvmValue id (.argument (argumentWalk cb.functionArity (-index) 0))

/-- `DoAdd`: operands are resolved through `Use`. -/
def doAdd (use : Nat → BuildM LValue) (id : Nat) (instr : HValue) (left right : Nat) :
    BuildM Unit := do
  if instr.representation = .integer32 || instr.representation = .smi then
    dcheck ((← cb.valueAt left).representation = instr.representation)
      "instr->left()->representation().Equals(instr->representation())"
    dcheck ((← cb.valueAt right).representation = instr.representation)
      "instr->right()->representation().Equals(instr->representation())"
    setLlvmValue id (← insert (.add (← use left) (← use right)))
  else unimplemented

/-- The body `DoSub` and `DoMul` share: unlike `DoAdd`, the operands' LLVM values are read
directly, after a `CHECK` that they are set. -/
def doBinaryOnValues (op : LValue → LValue → LOp) (id : Nat) (instr : HValue)
    (left right : Nat) : BuildM Unit := do
  if instr.representation = .integer32 || instr.representation = .smi then
    dcheck ((← cb.valueAt left).representation = instr.representation)
      "instr->left()->representation().Equals(instr->representation())"
    dcheck ((← cb.valueAt right).representation = instr.representation)
      "instr->right()->representation().Equals(instr->representation())"
    let lhs ← checked ((← get).llvmValue left) "left->llvm_value()"
    let rhs ← checked ((← get).llvmValue right) "right->llvm_value()"
    setLlvmValue id (← insert (op lhs rhs))
  else unimplemented

/-- `DoSub`. -/
def doSub (id : Nat) (instr : HValue) (left right : Nat) : BuildM Unit :=
  cb.doBinaryOnValues .sub id instr left right

/-- `DoMul`. -/
def doMul (id : Nat) (instr : HValue) (left right : Nat) : BuildM Unit :=
  cb.doBinaryOnValues .mul id instr left right

/-- `DoChange`.  A Smi source is treated as tagged unless the target is tagged; the Smi and
type checks the source marks as TODO are not emitted, so both branches on `val->type()`
convert alike. -/
def doChange (use : Nat → BuildM LValue) (id : Nat) (instr : HValue) (val : Nat)
    (fromRep toRep : Representation) : BuildM Unit := do
  if fromRep = .smi && toRep = .tagged then setLlvmValue id (← use val)
  else
    let fromRep := if fromRep = .smi then Representation.tagged else fromRep
    if fromRep = .tagged then
      if toRep = .double then unimplemented
      else if toRep = .smi then setLlvmValue id (← use val)
      else
        dcheck (toRep = .integer32) "to.IsInteger32()"
        setLlvmValue id (← cb.smiToInteger32 use val)
    else if fromRep = .double then unimplemented
    else if fromRep = .integer32 then
      if toRep = .tagged then
        if !instr.canOverflow then setLlvmValue id (← cb.integer32ToSmi use val)
        else unimplemented
      else if toRep = .smi then unimplemented
      else
        dcheck (toRep = .double) "to.IsDouble()"
        unimplemented

/-- `SuccessorAt(i)` of a control instruction. -/
def successorAt (instr : HValue) (i : Nat) : BuildM Nat := resolve instr.successors[i]?

/-- `DoCompareNumericAndBranch`: an `icmp` and a conditional branch to the blocks of
`SuccessorAt(0)` and `SuccessorAt(1)`; the branch is the instruction's value. -/
def doCompareNumericAndBranch (use : Nat → BuildM LValue) (id : Nat) (instr : HValue)
    (token : Token) (left right : Nat) : BuildM Unit := do
  let r := instr.representation
  let leftValue ← cb.valueAt left
  let rightValue ← cb.valueAt right
  dcheck (leftValue.representation = r) "left->representation().Equals(r)"
  dcheck (rightValue.representation = r) "right->representation().Equals(r)"
  let isUnsigned := r = .double || leftValue.uint32 || rightValue.uint32
  let pred ← tokenToPredicate token isUnsigned
  if r = .smi then unimplemented
  else if r = .integer32 then
    let compare ← insert (.iCmp pred (← use left) (← use right))
    let branch ← insert (.condBr compare (← useBlock (← successorAt instr 0))
      (← useBlock (← successorAt instr 1)))
    setLlvmValue id branch
  else
    dcheck (r = .double) "r.IsDouble()"
    unimplemented

/-- `DoReturn`: only the constant parameter count of a non-stub function without saved
caller doubles is implemented. -/
def doReturn (use : Nat → BuildM LValue) (value parameterCount : Nat) : BuildM Unit := do
  if cb.info.isStub then unimplemented
  if cb.info.savesCallerDoubles then unimplemented
  dcheck (!cb.info.isStub) "!info()->IsStub()"
  match (← cb.valueAt parameterCount).kind with
  | .instruction (.constant _) =>
    let retVal ← use value
    discard (insert (.ret retVal))
  | _ => unimplemented

/-- `DoSimulate`: replay the simulate into the current block's environment. -/
def doSimulate (popCount : Nat) (values : List (Option Nat × Nat)) : BuildM Unit := do
  let s ← get
  let address ← dchecked s.currentEnvironment "env != NULL"
  writeEnvironment address (replayEnvironment popCount values (s.environments address))

/-- `DoContext`: nothing is emitted; a stub's context with uses is unimplemented. -/
def doContext (instr : HValue) : BuildM Unit :=
  if instr.hasNoUses then pure ()
  else if cb.info.isStub then unimplemented
  else pure ()

/-- Dispatch on the opcode, `current->CompileToLLVM(this)`.  `DoBlockEntry` resolves the
instruction's block, `DoArgumentsObject` and `DoStackCheck` do nothing, and `DoGoto` and the
stub handlers are `UNIMPLEMENTED()`. -/
def compileToLLVM (use : Nat → BuildM LValue) (id : Nat) (instr : HValue) :
    HOpcode → BuildM Unit
  | .parameter index => cb.doParameter id index
  | .constant constant => cb.doConstant id instr constant
  | .change val fromRep toRep => cb.doChange use id instr val fromRep toRep
  | .add left right => cb.doAdd use id instr left right
  | .sub left right => cb.doSub id instr left right
  | .mul left right => cb.doMul id instr left right
  | .compareNumericAndBranch token left right =>
    cb.doCompareNumericAndBranch use id instr token left right
  | .«return» value parameterCount => cb.doReturn use value parameterCount
  | .goto => unimplemented
  | .simulate popCount values => doSimulate popCount values
  | .blockEntry => discard (useBlock instr.block)
  | .context => cb.doContext instr
  | .argumentsObject => pure ()
  | .stackCheck => pure ()
  | .stub _ => unimplemented

/-- `VisitInstruction`.  An instruction to be replaced by dummy uses is unimplemented (the
source's loop over the further operands is never reached); a control instruction with a
known successor becomes a branch to it; every other instruction goes to its handler, whose
`Use` visits deferred operands with one unit of fuel less. -/
def visitInstruction : Nat → Nat → BuildM Unit
  | 0, _ => throw .outOfFuel
  | fuel + 1, id => do
    record (.visit id)
    let current ← cb.valueAt id
    let opcode ← dchecked current.opcode? "IsInstruction()"
    if current.canReplaceWithDummyUses then
      match opcode.operands with
      | [] => unimplemented
      | first :: _ =>
        dcheck (!(← cb.valueAt first).isControlInstruction)
          "!current->OperandAt(0)->IsControlInstruction()"
        unimplemented
    else
      match current.isControlInstruction, current.knownSuccessor with
      | true, some successor => discard (insert (.br (← useBlock successor)))
      | _, _ => cb.compileToLLVM (cb.useValue (visitInstruction fuel)) id current opcode

/-- The instruction loop of `DoBasicBlock`: instructions emitted at their uses are skipped. -/
def doInstructions (fuel : Nat) : List Nat → BuildM Unit
  | [] => pure ()
  | id :: rest => do
    if (← get).status = .aborted then pure ()
    else
      if !(← cb.valueAt id).emitAtUses then cb.visitInstruction fuel id
      doInstructions fuel rest

/-- The phi loop of a join: every phi with a merged index overwrites its slot. -/
def setPhis (address : Nat) : List Nat → BuildM Unit
  | [] => pure ()
  | phi :: rest => do
    match (← cb.valueAt phi).kind with
    | .phi (some mergedIndex) => setValueAt address mergedIndex phi
    | .phi none => pure ()
    | .instruction _ => throw .malformedGraph
    setPhis address rest

/-- The deleted-phi loop of a join: every index still in range is reset to undefined. -/
def clearDeletedPhis (address : Nat) : List Nat → BuildM Unit
  | [] => pure ()
  | index :: rest => do
    if index < ((← get).environments address).length then
      setValueAt address index cb.graph.constantUndefined
    clearDeletedPhis address rest

/-- The environment step of `DoBasicBlock`.  The start block takes the start environment.  A
block with one predecessor takes the predecessor's environment, copied first when the
predecessor has a second successor and one of its two successors comes later by block id.
A join takes its first predecessor's environment, uncopied, and writes its phis into it.
The outgoing argument count is the predecessor's, or zero at the start.  The contents a block
takes from its predecessor are noted before any phi is written. -/
def bindEnvironment (block : HBasicBlock) : BuildM Unit := do
  if block.isStartBlock then
    updateEnvironment block.blockId startEnvironmentAddress
    modify (·.setArgumentCount 0)
  else if block.predecessors.length = 1 then
    dcheck (block.phis.length = 0) "block->phis()->length() == 0"
    let pred ← cb.blockAt (← dchecked block.predecessors[0]? "index < length()")
    let lastEnvironment ← dchecked ((← get).lastEnvironment pred.blockId)
      "last_environment != NULL"
    let predEnd ← cb.valueAt (← resolve pred.end)
    let lastEnvironment ← match predEnd.secondSuccessor with
      | none => do
        dcheck (predEnd.firstSuccessor = some block.blockId)
          "pred->end()->FirstSuccessor() == block"
        pure lastEnvironment
      | some second => do
        let first ← resolve predEnd.firstSuccessor
        if first > block.blockId || second > block.blockId then
          copyEnvironment lastEnvironment
        else pure lastEnvironment
    modify fun s => s.recordInherited block.blockId (s.environments lastEnvironment)
    updateEnvironment block.blockId lastEnvironment
    let count := (← get).blockArgumentCount pred.blockId
    dcheck (count ≥ 0) "pred->argument_count() >= 0"
    modify (·.setArgumentCount count)
  else
    let pred ← cb.blockAt (← dchecked block.predecessors[0]? "index < length()")
    let lastEnvironment ← resolve ((← get).lastEnvironment pred.blockId)
    modify fun s => s.recordInherited block.blockId (s.environments lastEnvironment)
    cb.setPhis lastEnvironment block.phis
    cb.clearDeletedPhis lastEnvironment block.deletedPhis
    updateEnvironment block.blockId lastEnvironment
    modify fun s => s.setArgumentCount (s.blockArgumentCount pred.blockId)

/-- `DoBasicBlock`. -/
def doBasicBlock (fuel : Nat) (block : HBasicBlock) : BuildM Unit := do
  dcheck ((← get).status = .building) "is_building()"
  let llvmBlock ← useBlock block.blockId
  modify (·.enterBlock llvmBlock block.blockId)
  cb.bindEnvironment block
  cb.doInstructions fuel block.instructions
  modify (·.leaveBlock block.blockId)

/-- The block loop of `Build`, which stops when the build is aborted. -/
def doBlocks (fuel : Nat) : List HBasicBlock → BuildM Bool
  | [] => pure true
  | block :: rest => do
    cb.doBasicBlock fuel block
    if (← get).status = .aborted then pure false else doBlocks fuel rest

/-- `Build`: a fresh module, a function of `num_parameters + 3` `i64` parameters, every block
in the frontend's order, then the module is added to the session under its number. -/
def build (fuel : Nat) : BuildM (Option LLVMChunk) := do
  modify (·.startBuild cb.functionArity)
  if !(← cb.doBlocks fuel cb.graph.blocks) then return none
  modify BuilderState.finishBuild
  pure (some ⟨(← get).moduleId⟩)

end LLVMChunkBuilder

/-- `LLVMChunk::NewChunk`: build a chunk for a graph against a session. -/
def LLVMChunk.newChunk (info : CompilationInfo) (graph : HGraph) (fuel : Nat)
    (session : LLVMGranularity) : EStateM.Result Abort BuilderState (Option LLVMChunk) :=
  (LLVMChunkBuilder.mk info graph true).build fuel (BuilderState.initial graph session)

/-- The code of a build that returned a chunk: the instructions of its function. -/
def LLVMChunk.code : EStateM.Result Abort BuilderState (Option LLVMChunk) → Option (List LInst)
  | .ok (some _) s => some s.instructions
  | _ => none

/-- Why a build aborted, if it did. -/
def LLVMChunk.abort : EStateM.Result Abort BuilderState (Option LLVMChunk) → Option Abort
  | .error e _ => some e
  | .ok _ _ => none

end Llv8
