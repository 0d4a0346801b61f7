import Llv8.Hydrogen
import Llv8.LLVMIR

/-!
# The chunk builder's state and primitive steps

`LLVMChunkBuilder` holds the builder's inputs (`info()`, `graph()` and the platform's Smi
configuration).  `BuilderState` holds everything a build writes: the builder's own fields,
the LLVM function under construction, and the fields of the Hydrogen objects the builder sets
(`llvm_value`, `llvm_basic_block`, `last_environment`, `argument_count`).  Environments are
objects shared by pointer, so they live in a heap of addresses; a block's `last_environment`
is an address into it, and two blocks share an environment exactly when they hold the same
address.

A build runs in `BuildM`, a state monad with fatal exits: `UNIMPLEMENTED()`, `UNREACHABLE()`
and failed `CHECK`s and `DCHECK`s end the build with an `Abort`, keeping the state reached so
far.  The state also keeps a trace of the handler runs and of the values `Use` hands out, so
that properties of whole runs can be stated.
-/

namespace Llv8

/-- Why a build ends without a chunk.  `malformedGraph` is an id that names no value or block
(a dangling pointer, which the frontend never produces); `outOfFuel` is the recursion budget
of the model running out, standing for unbounded recursion. -/
inductive Abort
  | unimplemented
  | unreachable
  | checkFailed (condition : String)
  | dcheckFailed (condition : String)
  | malformedGraph
  | outOfFuel
  deriving DecidableEq, Repr

/-- `LChunkBuilderBase::Status`. -/
inductive Status
  | unused | building | done | aborted
  deriving DecidableEq, Repr

/-- Events of a build: a handler run starts (`VisitInstruction`), or `Use` hands out a value. -/
inductive Event
  | visit (id : Nat)
  | use (id : Nat) (value : LValue)
  deriving DecidableEq, Repr

/-- Modelled from the spec: the process-wide `LLVMGranularity` session, which names each module
it creates by a fresh number and keeps the modules added to it. -/
structure LLVMGranularity where
  moduleCount : Nat := 0
  modules : List Nat := []

/-- The inputs of an `LLVMChunkBuilder`: `info()`, `graph()` and `SmiValuesAre32Bits()`. -/
structure LLVMChunkBuilder where
  info : CompilationInfo
  graph : HGraph
  smiValuesAre32Bits : Bool := true

/-- `kSmiShift`: 32 in the 32-bit Smi configuration, the one-bit tag otherwise. -/
def LLVMChunkBuilder.kSmiShift (cb : LLVMChunkBuilder) : Nat :=
  if cb.smiValuesAre32Bits then 32 else 1

/-- The chunk `Build` returns. -/
structure LLVMChunk where
  llvmFunctionId : Nat
  deriving DecidableEq, Repr

/-- Everything a build writes. `insertBlock` is the basic block `llvm_ir_builder_` inserts
into; `functionArity` and `basicBlockCount` describe `function_`, whose instructions are
`instructions` in creation order.  `inheritedEnvironment` and `finishedEnvironment` are ghost
records, written and never read: the environment contents a block takes from its predecessor
(before a join's phis are written) and the contents of a block's environment when it is
finished. -/
structure BuilderState where
  status : Status := .unused
  currentBlock : Option Nat := none
  insertBlock : Nat := 0
  argumentCount : Int := 0
  moduleId : Nat := 0
  functionArity : Nat := 0
  basicBlockCount : Nat := 0
  instructions : List LInst := []
  llvmValue : Nat → Option LValue := fun _ => none
  llvmBasicBlock : Nat → Option Nat := fun _ => none
  lastEnvironment : Nat → Option Nat := fun _ => none
  blockArgumentCount : Nat → Int := fun _ => 0
  environments : Nat → List Nat := fun _ => []
  environmentCount : Nat := 0
  session : LLVMGranularity := {}
  trace : List Event := []
  inheritedEnvironment : Nat → Option (List Nat) := fun _ => none
  finishedEnvironment : Nat → Option (List Nat) := fun _ => none

/-- A map from ids overridden at one id. -/
def updateAt {β : Type} (f : Nat → β) (key : Nat) (value : β) : Nat → β :=
  fun k => if k = key then value else f k

@[simp] theorem updateAt_same {β : Type} (f : Nat → β) (key : Nat) (value : β) :
    updateAt f key value key = value := if_pos rfl

theorem updateAt_apply {β : Type} (f : Nat → β) (key : Nat) (value : β) (k : Nat) :
    updateAt f key value k = if k = key then value else f k := rfl

theorem updateAt_self {β : Type} (f : Nat → β) (key : Nat) : updateAt f key (f key) = f :=
  funext fun k => by by_cases same : k = key <;> simp [updateAt_apply, same]

theorem updateAt_updateAt {β : Type} (f : Nat → β) (key : Nat) (value value' : β) :
    updateAt (updateAt f key value) key value' = updateAt f key value' :=
  funext fun k => by by_cases same : k = key <;> simp [updateAt_apply, same]

/-- The address of `graph()->start_environment()`. -/
def startEnvironmentAddress : Nat := 0

/-- The state a build starts from: only the start environment is allocated. -/
def BuilderState.initial (graph : HGraph) (session : LLVMGranularity) : BuilderState where
  environments := fun address => if address = startEnvironmentAddress then
    graph.startEnvironment else []
  environmentCount := 1
  session := session

/-! ## State updates

Every change of state is one of these named updates, so that a build on a concrete graph
evaluates without re-evaluating earlier states. -/

namespace BuilderState

/-- Append an event to the trace. -/
@[simp] def addEvent (s : BuilderState) (event : Event) : BuilderState :=
  { s with trace := s.trace ++ [event] }

/-- `instr->set_llvm_value(value)`. -/
@[simp] def setValue (s : BuilderState) (id : Nat) (value : LValue) : BuilderState :=
  { s with llvmValue := updateAt s.llvmValue id (some value) }

/-- Append an instruction to the insertion block. -/
@[simp] def pushInstruction (s : BuilderState) (op : LOp) : BuilderState :=
  { s with instructions := s.instructions ++ [⟨s.insertBlock, op⟩] }

/-- Attach a new basic block to the function for a Hydrogen block. -/
@[simp] def addBasicBlock (s : BuilderState) (block : Nat) : BuilderState :=
  { s with basicBlockCount := s.basicBlockCount + 1,
           llvmBasicBlock := updateAt s.llvmBasicBlock block (some s.basicBlockCount) }

/-- Allocate a copy of an environment object at the next free address. -/
@[simp] def allocEnvironment (s : BuilderState) (address : Nat) : BuilderState :=
  { s with environmentCount := s.environmentCount + 1,
           environments := updateAt s.environments s.environmentCount (s.environments address) }

/-- Overwrite an environment object. -/
@[simp] def writeEnvironment (s : BuilderState) (address : Nat) (contents : List Nat) :
    BuilderState :=
  { s with environments := updateAt s.environments address contents }

theorem writeEnvironment_self (s : BuilderState) (address : Nat) :
    s.writeEnvironment address (s.environments address) = s := by
  simp only [writeEnvironment, updateAt_self]

theorem writeEnvironment_writeEnvironment (s : BuilderState) (address : Nat)
    (contents contents' : List Nat) :
    (s.writeEnvironment address contents).writeEnvironment address contents' =
      s.writeEnvironment address contents' := by
  simp only [writeEnvironment, updateAt_updateAt]

/-- Point a block at an environment object. -/
@[simp] def setLastEnvironment (s : BuilderState) (block address : Nat) : BuilderState :=
  { s with lastEnvironment := updateAt s.lastEnvironment block (some address) }

/-- Note the environment contents a block takes. -/
@[simp] def recordInherited (s : BuilderState) (block : Nat) (contents : List Nat) :
    BuilderState :=
  { s with inheritedEnvironment := updateAt s.inheritedEnvironment block (some contents) }

/-- Set `argument_count_`. -/
@[simp] def setArgumentCount (s : BuilderState) (count : Int) : BuilderState :=
  { s with argumentCount := count }

/-- Start processing a block: insert into its basic block. -/
@[simp] def enterBlock (s : BuilderState) (llvmBlock block : Nat) : BuilderState :=
  { s with insertBlock := llvmBlock, currentBlock := some block }

/-- Finish processing a block: record its outgoing argument count, and note its environment's
contents. -/
@[simp] def leaveBlock (s : BuilderState) (block : Nat) : BuilderState :=
  { s with blockArgumentCount := updateAt s.blockArgumentCount block s.argumentCount,
           currentBlock := none,
           finishedEnvironment := updateAt s.finishedEnvironment block
             ((s.lastEnvironment block).map s.environments) }

/-- The start of `Build`: a fresh module from the session and a function of `arity`
parameters. -/
@[simp] def startBuild (s : BuilderState) (arity : Nat) : BuilderState :=
  { s with moduleId := s.session.moduleCount,
           session := { s.session with moduleCount := s.session.moduleCount + 1 },
           status := .building,
           functionArity := arity }

/-- The end of `Build`: the module is added to the session. -/
@[simp] def finishBuild (s : BuilderState) : BuilderState :=
  { s with session := { s.session with modules := s.session.modules ++ [s.moduleId] },
           status := .done }

end BuilderState

/-- The builder's monad. -/
abbrev BuildM := EStateM Abort BuilderState

/-- The state a run ends in, whether it returns or aborts. -/
def finalState {α : Type} : EStateM.Result Abort BuilderState α → BuilderState
  | .ok _ s => s
  | .error _ s => s

/-- The address of the environment of the block being processed. -/
def BuilderState.currentEnvironment (s : BuilderState) : Option Nat :=
  s.currentBlock.bind s.lastEnvironment

/-! ## Primitive steps -/

/-- `CHECK(condition)`. -/
def check (condition : Bool) (text : String) : BuildM Unit :=
  if condition then pure () else throw (.checkFailed text)

/-- `DCHECK(condition)`. -/
def dcheck (condition : Bool) (text : String) : BuildM Unit :=
  if condition then pure () else throw (.dcheckFailed text)

/-- `UNIMPLEMENTED()`. -/
def unimplemented {α : Type} : BuildM α := throw .unimplemented

/-- Follow an id that must name something. -/
def resolve {α : Type} : Option α → BuildM α
  | some a => pure a
  | none => throw .malformedGraph

/-- `CHECK(pointer)`, then the pointer. -/
def checked {α : Type} (pointer : Option α) (text : String) : BuildM α :=
  match pointer with
  | some a => pure a
  | none => throw (.checkFailed text)

/-- `DCHECK(pointer)`, then the pointer. -/
def dchecked {α : Type} (pointer : Option α) (text : String) : BuildM α :=
  match pointer with
  | some a => pure a
  | none => throw (.dcheckFailed text)

/-- Append an event to the trace. -/
def record (event : Event) : BuildM Unit :=
  modify (·.addEvent event)

/-- `instr->set_llvm_value(value)`. -/
def setLlvmValue (id : Nat) (value : LValue) : BuildM Unit :=
  modify (·.setValue id value)

/-- `llvm_ir_builder_->Create...`: append an instruction to the insertion block and return
it as a value. -/
def insert (op : LOp) : BuildM LValue :=
  modifyGet fun s => (.instruction s.instructions.length, s.pushInstruction op)

/-- `HEnvironment::Copy()`: a fresh environment object with the same contents. -/
def copyEnvironment (address : Nat) : BuildM Nat :=
  modifyGet fun s => (s.environmentCount, s.allocEnvironment address)

/-- Overwrite an environment object in place. -/
def writeEnvironment (address : Nat) (contents : List Nat) : BuildM Unit :=
  modify (·.writeEnvironment address contents)

/-- `HEnvironment::SetValueAt(index, value)`, which `DCHECK`s that the index is in range. -/
def setValueAt (address index value : Nat) : BuildM Unit := do
  let contents := (← get).environments address
  dcheck (index < contents.length) "index < length()"
  writeEnvironment address (contents.set index value)

/-- `HBasicBlock::UpdateEnvironment(env)`: the block now points at `env`. -/
def updateEnvironment (block address : Nat) : BuildM Unit :=
  modify (·.setLastEnvironment block address)

/-- `Use(HBasicBlock*)`: the block's LLVM basic block, created and attached to the function
at the first reference. -/
def useBlock (block : Nat) : BuildM Nat := do
  match (← get).llvmBasicBlock block with
  | some llvmBlock => pure llvmBlock
  | none => modifyGet fun s => (s.basicBlockCount, s.addBasicBlock block)

/-- Modelled from the spec: `HSimulate::ReplayEnvironment` (not under src/) replays the
simulate's effect on an environment: it drops `popCount` slots, then, from the last value to
the first, binds each value at its index or pushes it. -/
def replayEnvironment (popCount : Nat) (values : List (Option Nat × Nat)) (env : List Nat) :
    List Nat :=
  values.foldr (fun entry env => match entry.1 with
    | some index => env.set index entry.2
    | none => env ++ [entry.2]) (env.take (env.length - popCount))

end Llv8
