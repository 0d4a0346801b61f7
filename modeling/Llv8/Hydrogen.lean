import Mathlib.Logic.Function.Basic

/-!
# Hydrogen graphs as the LLVM chunk builder reads them

The chunk builder walks a Hydrogen graph produced by the optimizing frontend.  This file
records the part of that graph the builder reads: the representation and flags of each value,
the operands of each instruction, and the blocks with their predecessors, phis and instruction
lists.  The builder reaches values and blocks through pointers; here they are reached through
their ids, and the fields the builder writes (`llvm_value`, `llvm_basic_block`,
`last_environment`, `argument_count`) live in the builder's state instead.
-/

namespace Llv8

/-- `Representation`, with the kinds the handlers test for. -/
inductive Representation
  | none | smi | integer32 | double | heapObject | external | tagged
  deriving DecidableEq, Repr

/-- `Token::Value`: the tokens `TokenToPredicate` names; every other token is `other`. -/
inductive Token
  | eq | eqStrict | ne | neStrict | lt | gt | lte | gte | «in» | instanceOf | other
  deriving DecidableEq, Repr

/-- The Hydrogen opcodes whose `Do...` handler is `UNIMPLEMENTED()`. -/
inductive StubOpcode
  | abnormalExit | accessArgumentsAt | allocateBlockContext | allocate | applyArguments
  | argumentsElements | argumentsLength | bitwise | boundsCheck | boundsCheckBaseIndexInformation
  | branch | callWithDescriptor | callJSFunction | callFunction | callNew | callNewArray
  | callRuntime | callStub | capturedObject | checkHeapObject | checkInstanceType | checkMaps
  | checkMapValue | checkSmi | checkValue | clampToUint8 | classOfTestAndBranch
  | compareHoleAndBranch | compareGeneric | compareMinusZeroAndBranch | compareObjectEqAndBranch
  | compareMap | constructDouble | dateField | debugBreak | declareGlobals | deoptimize | div
  | doubleBits | dummyUse | enterInlined | environmentMarker | forceRepresentation
  | forInCacheArray | forInPrepareMap | functionLiteral | getCachedArrayIndex
  | hasCachedArrayIndexAndBranch | hasInstanceTypeAndBranch | innerAllocatedObject | instanceOf
  | instanceOfKnownGlobal | invokeFunction | isConstructCallAndBranch | isObjectAndBranch
  | isStringAndBranch | isSmiAndBranch | isUndetectableAndBranch | leaveInlined
  | loadContextSlot | loadFieldByIndex | loadFunctionPrototype | loadGlobalCell
  | loadGlobalGeneric | loadKeyed | loadKeyedGeneric | loadNamedField | loadNamedGeneric
  | loadRoot | mapEnumLength | mathFloorOfDiv | mathMinMax | mod | osrEntry | power
  | pushArguments | regExpLiteral | ror | sar | seqStringGetChar | seqStringSetChar | shl | shr
  | storeCodeEntry | storeContextSlot | storeFrameContext | storeGlobalCell | storeKeyed
  | storeKeyedGeneric | storeNamedField | storeNamedGeneric | stringAdd | stringCharCodeAt
  | stringCharFromCode | stringCompareAndBranch | tailCallThroughMegamorphicCache
  | thisFunction | toFastProperties | transitionElementsKind | trapAllocationMemento | typeof
  | typeofIsAndBranch | unaryMathOperation | unknownOSRValue | useConst | wrapReceiver

/-- The stubs that are `HControlInstruction`s. -/
def StubOpcode.isControlInstruction : StubOpcode → Bool
  | .abnormalExit | .branch | .classOfTestAndBranch | .compareHoleAndBranch
  | .compareMinusZeroAndBranch | .compareObjectEqAndBranch | .compareMap | .deoptimize
  | .hasCachedArrayIndexAndBranch | .hasInstanceTypeAndBranch | .isConstructCallAndBranch
  | .isObjectAndBranch | .isStringAndBranch | .isSmiAndBranch | .isUndetectableAndBranch
  | .stringCompareAndBranch | .typeofIsAndBranch => true
  | _ => false

/-- What an `HConstant` holds: an integer, which has an `Integer32Value()`, or another object
(a heap number, a string, ...), which has none. -/
inductive HConstantValue
  | integer32 (value : BitVec 32)
  | object
  deriving DecidableEq

/-- The instructions the builder distinguishes, with the operands (value ids) their handlers
read.  `HSimulate` carries its pop count and its values, each with the environment index it
binds or `none` for a push. -/
inductive HOpcode
  | parameter (index : Nat)
  | constant (value : HConstantValue)
  | change (value : Nat) (fromRep toRep : Representation)
  | add (left right : Nat)
  | sub (left right : Nat)
  | mul (left right : Nat)
  | compareNumericAndBranch (token : Token) (left right : Nat)
  | «return» (value parameterCount : Nat)
  | goto
  | simulate (popCount : Nat) (values : List (Option Nat × Nat))
  | blockEntry
  | context
  | argumentsObject
  | stackCheck
  | stub (opcode : StubOpcode)

namespace HOpcode

/-- `OperandAt(i)` for `i < OperandCount()`. -/
def operands : HOpcode → List Nat
  | .change value .. => [value]
  | .add left right | .sub left right | .mul left right => [left, right]
  | .compareNumericAndBranch _ left right => [left, right]
  | .«return» value parameterCount => [value, parameterCount]
  | .simulate _ values => values.map Prod.snd
  | _ => []

/-- `IsControlInstruction()`. -/
def isControlInstruction : HOpcode → Bool
  | .compareNumericAndBranch .. | .«return» .. | .goto => true
  | .stub opcode => opcode.isControlInstruction
  | _ => false

end HOpcode

/-- A value is an instruction or a phi; a phi may carry the environment index it merges. -/
inductive HValueKind
  | instruction (opcode : HOpcode)
  | phi (mergedIndex : Option Nat)

/-- An `HValue` with the flags and answers of the frontend that the builder consults.
`successors` are a control instruction's `SuccessorAt(i)` and `knownSuccessor` the block
`KnownSuccessorBlock` reports, when it reports a non-null one. -/
structure HValue where
  kind : HValueKind
  block : Nat
  representation : Representation
  emitAtUses : Bool := false
  canReplaceWithDummyUses : Bool := false
  canOverflow : Bool := false
  uint32 : Bool := false
  typeIsSmi : Bool := false
  hasNoUses : Bool := false
  successors : List Nat := []
  knownSuccessor : Option Nat := none

namespace HValue

/-- The opcode of an instruction; phis have none. -/
def opcode? (value : HValue) : Option HOpcode :=
  match value.kind with
  | .instruction opcode => some opcode
  | .phi _ => none

/-- `IsControlInstruction()`; a phi is not one. -/
def isControlInstruction (value : HValue) : Bool :=
  match value.kind with
  | .instruction opcode => opcode.isControlInstruction
  | .phi _ => false

/-- `FirstSuccessor()`, null when there is none. -/
def firstSuccessor (value : HValue) : Option Nat := value.successors[0]?

/-- `SecondSuccessor()`, null when there is none. -/
def secondSuccessor (value : HValue) : Option Nat := value.successors[1]?

end HValue

/-- An `HBasicBlock`: its id, whether it is the graph's entry, its predecessors, its phis and
deleted phi indices, and its instruction list from `first()` along `next()`. -/
structure HBasicBlock where
  blockId : Nat
  isStartBlock : Bool := false
  predecessors : List Nat := []
  phis : List Nat := []
  deletedPhis : List Nat := []
  instructions : List Nat

/-- `end()`: the block's last instruction. -/
def HBasicBlock.«end» (block : HBasicBlock) : Option Nat := block.instructions.getLast?

/-- An `HGraph`: its values by id, `blocks()` in the order the frontend gives them, the contents
of `start_environment()` and the id of `GetConstantUndefined()`. -/
structure HGraph where
  values : List HValue
  blocks : List HBasicBlock
  startEnvironment : List Nat := []
  constantUndefined : Nat := 0

namespace HGraph

/-- The value with a given id. -/
def value (graph : HGraph) (id : Nat) : Option HValue := graph.values[id]?

/-- The block with a given `block_id()`. -/
def block (graph : HGraph) (id : Nat) : Option HBasicBlock :=
  graph.blocks.find? (·.blockId = id)

/-- `representation()` of a value. -/
def representation (graph : HGraph) (id : Nat) : Option Representation :=
  (graph.value id).map (·.representation)

end HGraph

/-- The parts of `CompilationInfo` the builder reads. -/
structure CompilationInfo where
  numParameters : Nat
  isStub : Bool := false
  savesCallerDoubles : Bool := false

end Llv8
