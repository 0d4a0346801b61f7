import Llv8.Semantics
import Llv8.ControlFlow
import Llv8.Materialize

/-!
# The emitted function runs as the graph

The code `Build` emits is one LLVM function.  Run on the argument words `args`
(`runFunction`), it starts at its entry block, the first one created, and passes from block to
block through each block's terminator until a `ret` returns a word.  Every instruction computes
its word as in straight-line code (`evalInstructions`): the code has no phis and no effects, so
an instruction's word does not depend on the path that reached it.  The graph runs the same way
(`HGraph.run`): from its first block, the control instruction that ends each block sends control
to a block, its known successor or the successor its comparison picks, or returns a value.

Straight-line evaluation is LLVM's own only where every instruction is used in blocks its
definition dominates.  `Use` breaks that for a value emitted at its uses that emits code: the
instruction its first use leaves in one block is handed to every later use, in whatever block.
So the values emitted at their uses are taken to be parameters and constants
(`HGraph.deferredLeaves`), which emit nothing.  For integers `val` that solve the graph's
equations, in such a graph typed as the handlers assume, laid out as `ControlFlow` asks
(`HGraph.cfgFormed`), and whose comparisons the code decides (`HGraph.decided`), the function a
completed build emits runs block for block as the graph: through any number of blocks it returns
the word of the value the graph returns, in the value's representation, and nothing where the
graph returns nothing (`build_runs_graph`).

The visit of a block's control instruction inserts into the block's LLVM block a terminator that
agrees with it (`Agrees`): the terminator passes control to the LLVM block of the block the
control instruction sends control to, or returns the word of the value it returns.  Every
processed block keeps such a terminator (`Exited`), and the layout of `ControlFlow` makes it the
only terminator of its LLVM block, the one the function's run takes.
-/

namespace Llv8

/-! ## Runs of the emitted function -/

/-- The terminator of LLVM block `x`: the first instruction of the block that is one. -/
def terminatorOf (code : List LInst) (x : Nat) : Option LOp :=
  (code.find? fun inst => inst.op.isTerminator && inst.parent == x).map (·.op)

/-- Run the function on the argument words `args` from LLVM block `x`, through at most `fuel`
blocks: each block passes control on through its terminator, and a `ret` returns the word of its
operand.  Words are those of straight-line evaluation, whatever path reached the block: this is
LLVM's meaning only for code in which every use is dominated by its definition. -/
def runFunction (args : Nat → BitVec 64) (code : List LInst) : Nat → Nat → Option (BitVec 64)
  | 0, _ => none
  | fuel + 1, x =>
    match terminatorOf code x with
    | some (.ret v) => some (v.word args (evalInstructions args code))
    | some op => (op.successor (·.word args (evalInstructions args code))).bind
        (runFunction args code fuel)
    | none => none

/-! ## Runs of the graph -/

/-- Where a control instruction sends control: to a block, or out of the function with a
value. -/
inductive Transfer
  | jump (block : Nat)
  | returns (value : Nat)
  deriving DecidableEq, Repr

namespace HGraph

variable (graph : HGraph) (val : Nat → Int)

/-- Where control instruction `value` sends control, the graph's values having the integers
`val`: to its known successor if it has one; for a comparison, to `SuccessorAt(0)` if the
token's comparison of the operands' integers holds, read unsigned if an operand carries the
`kUint32` flag, and to `SuccessorAt(1)` if it does not; for a return, out with its value. -/
def transfer (value : HValue) : Option Transfer :=
  match value.knownSuccessor with
  | some successor => some (.jump successor)
  | none =>
    match value.opcode? with
    | some (.compareNumericAndBranch token left right) =>
      let unsigned := graph.unsigned left || graph.unsigned right
      (if token.holds (comparedAs unsigned (val left)) (comparedAs unsigned (val right)) then
        value.successors[0]? else value.successors[1]?).map .jump
    | some (.«return» returned _) => some (.returns returned)
    | _ => none

/-- Where block `b` sends control: the transfer of its last instruction. -/
def exit (b : Nat) : Option Transfer := do
  let block ← graph.block b
  let c ← block.end
  graph.transfer val (← graph.value c)

/-- Run the graph from block `b`, through at most `fuel` blocks: the value it returns. -/
def run : Nat → Nat → Option Nat
  | 0, _ => none
  | fuel + 1, b =>
    match graph.exit val b with
    | some (.jump next) => run fuel next
    | some (.returns returned) => some returned
    | none => none

/-- The word a function returns for value `o`: the word of its integer in its
representation. -/
def returnWord (shift o : Nat) : Option (BitVec 64) :=
  (graph.value o).map fun operand => operand.representation.encode shift (val o)

/-- Whether the code decides every comparison it emits: the operands of every comparison without
a known successor are data values of the `Integer32` range, both with the `kUint32` flag or both
without. -/
def decided : Bool :=
  graph.allInstructions fun _ value opcode =>
    match opcode with
    | .compareNumericAndBranch _ left right => value.knownSuccessor.isSome ||
        graph.comparable val left && graph.comparable val right &&
          graph.unsigned left == graph.unsigned right
    | _ => true

variable {graph val}

theorem decided_of (decides : graph.decided val = true) {c : Nat} {value : HValue}
    {token : Token} {left right : Nat} (found : graph.value c = some value)
    (known : value.knownSuccessor = none)
    (isCompare : value.opcode? = some (.compareNumericAndBranch token left right)) :
    graph.comparable val left = true ∧ graph.comparable val right = true ∧
      graph.unsigned left = graph.unsigned right := by
  simpa [known, and_assoc] using graph.allInstructions_of decides found isCompare

/-- The block of a formed block order that an id names is the one with that id. -/
theorem block_of_mem (formed : graph.cfgFormed = true) {block : HBasicBlock}
    (member : block ∈ graph.blocks) : graph.block block.blockId = some block := by
  obtain ⟨b, found⟩ := Option.isSome_iff_exists.mp
    (List.find?_isSome.mpr ⟨block, member, by simp⟩ :
      (graph.blocks.find? (·.blockId = block.blockId)).isSome)
  have same : b.blockId = block.blockId := by simpa using List.find?_some found
  rw [HGraph.block, found, List.inj_on_of_nodup_map (blockIds_nodup formed)
    (List.mem_of_find?_eq_some found) member same]

theorem exit_of_mem (formed : graph.cfgFormed = true) {block : HBasicBlock}
    (member : block ∈ graph.blocks) {c : Nat} {value : HValue} (ends : block.end = some c)
    (found : graph.value c = some value) : graph.exit val block.blockId = graph.transfer val value := by
  simp [exit, block_of_mem formed member, ends, found]

end HGraph

/-! ## Terminators that agree with the graph -/

namespace BuilderState

variable {s s' : BuilderState} {args : Nat → BitVec 64}

/-- Terminator `op` passes control to LLVM block `y` when the function runs on `args`: a `br`
to `y`, or a conditional branch whose condition computes a word that picks `y`. -/
def PassesTo (s : BuilderState) (args : Nat → BitVec 64) : LOp → Nat → Prop
  | .br dest, y => dest = y
  | .condBr condition ifTrue ifFalse, y =>
    ∃ w, s.Computes args condition w ∧ (if w ≠ 0 then ifTrue else ifFalse) = y
  | _, _ => False

theorem PassesTo.append {op : LOp} {y : Nat} (passes : s.PassesTo args op y)
    (longer : ∃ added, s'.instructions = s.instructions ++ added) : s'.PassesTo args op y := by
  cases op
  case br => exact passes
  case condBr =>
    obtain ⟨w, computes, picks⟩ := passes
    exact ⟨w, computes.append longer, picks⟩
  all_goals exact passes.elim

theorem PassesTo.successor {op : LOp} {y : Nat} (passes : s.PassesTo args op y) :
    op.successor (s.wordOf args) = some y := by
  cases op
  case br => exact congrArg some passes
  case condBr condition ifTrue ifFalse =>
    obtain ⟨w, computes, picks⟩ := passes
    show some (if s.wordOf args condition ≠ 0 then ifTrue else ifFalse) = some y
    rw [computes.2, picks]
  all_goals exact passes.elim

end BuilderState

section Runs

variable {args : Nat → BitVec 64} {s : BuilderState} {x : Nat} {op : LOp}

/-- A block whose terminator passes control on runs as the block it passes to. -/
theorem runFunction_passes (terminator : terminatorOf s.instructions x = some op) {y : Nat}
    (passes : s.PassesTo args op y) (fuel : Nat) :
    runFunction args s.instructions (fuel + 1) x = runFunction args s.instructions fuel y := by
  have next := passes.successor
  cases op
  case br | condBr =>
    simp only [runFunction, terminator]
    exact (congrArg (Option.bind · _) next).trans (Option.some_bind _ _)
  all_goals exact passes.elim

/-- A block whose terminator is a `ret` returns the word of its operand. -/
theorem runFunction_ret {v : LValue} (terminator : terminatorOf s.instructions x = some (.ret v))
    (fuel : Nat) : runFunction args s.instructions (fuel + 1) x = some (s.wordOf args v) := by
  simp only [runFunction, terminator]
  rfl

/-- In code laid out block by block, a terminator in the LLVM block of a block is the only one
there, so the run takes it. -/
theorem terminatorOf_of_laid {graph : HGraph} (formed : graph.cfgFormed = true)
    (laid : LLVMChunkBuilder.Laid graph graph.blocks s) {b y : Nat}
    (found : s.llvmBasicBlock b = some y) (member : ⟨y, op⟩ ∈ s.instructions)
    (terminator : op.isTerminator = true) : terminatorOf s.instructions y = some op := by
  obtain ⟨numbered, -, -, -, segments, flat, laidOut⟩ := laid
  obtain ⟨block, blockMember, rfl⟩ := List.mem_map.mp (numbered.known b y found)
  obtain ⟨_, body, last, split, -, plain, lastTerminator, -⟩ := filter_segments
    numbered.blockMap.injective laidOut (HGraph.blockIds_nodup formed) blockMember found
  rw [← flat] at split
  have only : s.instructions.filter (fun inst => inst.op.isTerminator && inst.parent == y) =
      [last] := by
    rw [← List.filter_filter, split, List.filter_append,
      List.filter_eq_nil_iff.mpr fun inst member => by simp [plain inst member]]
    simp [lastTerminator]
  have isLast : (⟨y, op⟩ : LInst) = last := List.mem_singleton.mp
    (only ▸ List.mem_filter.mpr ⟨member, by simp [terminator]⟩)
  rw [terminatorOf, ← List.filter_head?, only, ← isLast]
  rfl

end Runs

namespace LLVMChunkBuilder

variable (cb : LLVMChunkBuilder) (args : Nat → BitVec 64) (val : Nat → Int)

/-- Terminator `op` takes the exit `exit` when the function runs on `args`: for a jump it passes
control to the LLVM block of the target, for a return it is a `ret` of the word the function
returns for the value. -/
def Takes (s : BuilderState) : Transfer → LOp → Prop
  | .jump b, op => ∃ y, s.llvmBasicBlock b = some y ∧ s.PassesTo args op y
  | .returns o, op => ∃ v w, op = .ret v ∧ cb.graph.returnWord val cb.kSmiShift o = some w ∧
      s.Computes args v w

/-- Terminator `op` leaves its block as control instruction `value` sends control. -/
def Agrees (s : BuilderState) (value : HValue) (op : LOp) : Prop :=
  ∃ exit, cb.graph.transfer val value = some exit ∧ cb.Takes args val s exit op

/-- Every block of `done` has, in its LLVM block, a terminator that agrees with its control
instruction. -/
def Exited (done : List HBasicBlock) (s : BuilderState) : Prop :=
  ∀ block ∈ done, ∃ c value y op, block.end = some c ∧ cb.graph.value c = some value ∧
    s.llvmBasicBlock block.blockId = some y ∧ ⟨y, op⟩ ∈ s.instructions ∧
    op.isTerminator = true ∧ cb.Agrees args val s value op

variable {cb args val} {s s' : BuilderState}

section Append

variable (longer : ∃ added, s'.instructions = s.instructions ++ added)
  (blocks : ∀ b x, s.llvmBasicBlock b = some x → s'.llvmBasicBlock b = some x)
include longer blocks

/-- Later code and more LLVM blocks keep a terminator agreeing. -/
theorem Agrees.append {value : HValue} {op : LOp} (agrees : cb.Agrees args val s value op) :
    cb.Agrees args val s' value op := by
  obtain ⟨exit, transfer, takes⟩ := agrees
  refine ⟨exit, transfer, ?_⟩
  cases exit with
  | jump b =>
    obtain ⟨y, found, passes⟩ := takes
    exact ⟨y, blocks b y found, passes.append longer⟩
  | returns o =>
    obtain ⟨v, w, isRet, word, computes⟩ := takes
    exact ⟨v, w, isRet, word, computes.append longer⟩

theorem Exited.append {done : List HBasicBlock} (exited : cb.Exited args val done s) :
    cb.Exited args val done s' := fun block member =>
  let ⟨c, value, y, op, ends, found, blockOf, inst, terminator, agrees⟩ := exited block member
  ⟨c, value, y, op, ends, found, blocks _ _ blockOf,
    longer.elim fun _ instructions => instructions ▸ List.mem_append_left _ inst, terminator,
    agrees.append longer blocks⟩

end Append

theorem Exited.stable {done : List HBasicBlock} (exited : cb.Exited args val done s)
    (step : InstrStep s s') : cb.Exited args val done s' :=
  exited.append (step.instructions.elim fun added h => ⟨added, h.1⟩) step.llvmBasicBlock

theorem Exited.congr {done : List HBasicBlock} (exited : cb.Exited args val done s)
    (instructions : s'.instructions = s.instructions)
    (blocks : s'.llvmBasicBlock = s.llvmBasicBlock) : cb.Exited args val done s' :=
  exited.append ⟨[], by rw [instructions, List.append_nil]⟩ fun _ _ h => blocks ▸ h

/-! ## Visits -/

section Visit

variable (evaluates : cb.graph.evaluates cb.kSmiShift cb.info.numParameters args val = true)
  (typed : cb.graph.typed val = true) (decides : cb.graph.decided val = true)

include decides in
/-- The conditional branch that is the LLVM value of a comparison without a known successor
agrees with it. -/
theorem agrees_condBr (faithful : cb.Faithful args val s) {c : Nat} {value : HValue}
    {token : Token} {left right : Nat} (found : cb.graph.value c = some value)
    (known : value.knownSuccessor = none)
    (isCompare : value.opcode? = some (.compareNumericAndBranch token left right))
    (integer32 : value.representation = .integer32) {j x : Nat} {condition : LValue}
    {ifTrue ifFalse : Nat} (set : s.llvmValue c = some (.instruction j))
    (inst : s.instructions[j]? = some ⟨x, .condBr condition ifTrue ifFalse⟩) :
    cb.Agrees args val s value (.condBr condition ifTrue ifFalse) := by
  obtain ⟨leftOk, rightOk, flags⟩ := HGraph.decided_of decides found known isCompare
  obtain ⟨j', parent, condition', ifTrue', ifFalse', same, inst', computes, first, second⟩ :=
    faithful.branches c value token left right _ found isCompare integer32 leftOk rightOk flags set
  cases same
  rw [inst] at inst'
  cases inst'
  have transfer : cb.graph.transfer val value =
      (if token.holds (comparedAs (cb.graph.unsigned left) (val left))
          (comparedAs (cb.graph.unsigned left) (val right)) then value.successors[0]?
        else value.successors[1]?).map .jump := by
    simp [HGraph.transfer, known, isCompare, ← flags]
  cases holds : token.holds (comparedAs (cb.graph.unsigned left) (val left))
      (comparedAs (cb.graph.unsigned left) (val right))
  case false =>
    obtain ⟨b, successor, blockOf⟩ := Option.bind_eq_some.mp second
    rw [holds] at computes
    exact ⟨.jump b, by rw [transfer, holds, if_neg Bool.false_ne_true, successor]; rfl, ifFalse,
      blockOf, 0, computes, by simp⟩
  case true =>
    obtain ⟨b, successor, blockOf⟩ := Option.bind_eq_some.mp first
    rw [holds] at computes
    exact ⟨.jump b, by rw [transfer, holds, if_pos rfl, successor]; rfl, ifTrue, blockOf, 1,
      computes, by simp⟩

include evaluates typed decides in
/-- Visiting a control instruction keeps the code faithful and inserts into the insertion block
a terminator that agrees with it. -/
theorem visitInstruction_agrees (fuel c : Nat) (value : HValue)
    (found : cb.graph.value c = some value) (control : value.isControlInstruction = true) :
    Triple (cb.Faithful args val) (cb.visitInstruction fuel c)
      (fun _ s => cb.Faithful args val s ∧ ∃ op, ⟨s.insertBlock, op⟩ ∈ s.instructions ∧
        op.isTerminator = true ∧ cb.Agrees args val s value op) (fun _ _ => True) := by
  cases fuel with
  | zero => exact .of_throw _ fun _ _ => True.intro
  | succ fuel =>
    have abort {α : Type} {Q : α → BuilderState → Prop} :
        Triple (cb.Faithful args val) unimplemented Q (fun _ _ => True) :=
      .of_throw _ fun _ _ => True.intro
    refine .bind (record_computes _) fun _ =>
      .bind_resolve (fun _ _ => True.intro) fun current currentFound => ?_
    obtain rfl : current = value := Option.some.inj (currentFound.symm.trans found)
    refine .bind_dchecked (fun _ _ => True.intro) fun opcode isInstruction =>
      .of_ite (fun _ => ?_) fun _ => ?_
    · split
      · exact abort
      · exact .bind_resolve (fun _ _ => True.intro) fun _ _ =>
          .bind (.of_dcheck _ _ fun _ _ => True.intro) fun _ => abort
    · split
      · next successor _ known =>
        exact .bind (useBlock_computes successor) fun y => .of_discard
          (.of_modifyGet fun _ ⟨faithful, blockOf⟩ => ⟨faithful.push rfl, .br y, by simp, rfl,
            .jump successor, by simp [HGraph.transfer, known], y, blockOf, rfl⟩)
      · next noBranch =>
        have known : current.knownSuccessor = none := by
          cases successor : current.knownSuccessor
          · rfl
          · exact absurd (noBranch _ control successor) id
        have uses (o : Nat) := useValue_computes o (visitInstruction_computes evaluates typed fuel o)
        have opcodeControl :=
          (HValue.isControlInstruction_of_opcode isInstruction).symm.trans control
        cases opcode
        case compareNumericAndBranch =>
          exact (doCompareNumericAndBranch_computes uses (useValue_instrStep cb fuel) found
            isInstruction).weaken (fun _ h => h)
            (fun _ _ ⟨faithful, integer32, _, _, _, _, set, inst⟩ => ⟨faithful, _,
              List.getElem?_mem inst, rfl,
              agrees_condBr decides faithful found known isInstruction integer32 set inst⟩)
            fun _ _ _ => True.intro
        case «return» returned _ =>
          have typedIn := cb.graph.allInstructions_of typed found isInstruction
          simp only [HOpcode.typedIn] at typedIn
          cases operandFound : cb.graph.value returned with
          | none => simp [operandFound] at typedIn
          | some operand =>
            exact (doReturn_computes uses found isInstruction operandFound
              (by simpa [operandFound] using typedIn)).weaken (fun _ h => h)
              (fun _ _ ⟨faithful, v, inst, computes⟩ => ⟨faithful, .ret v, inst, rfl,
                .returns returned, by simp [HGraph.transfer, known, isInstruction], v, _, rfl,
                by simp [HGraph.returnWord, operandFound], computes⟩)
              fun _ _ _ => True.intro
        case goto | stub => exact abort
        all_goals simp [HOpcode.isControlInstruction] at opcodeControl

end Visit

/-! ## Blocks -/

section Blocks

variable (formed : cb.graph.cfgFormed = true)
  (evaluates : cb.graph.evaluates cb.kSmiShift cb.info.numParameters args val = true)
  (typed : cb.graph.typed val = true) (decides : cb.graph.decided val = true)
include formed evaluates typed decides

/-- The instruction loop over a block's instructions, its control instruction last, keeps the
code faithful and inserts into the insertion block a terminator that agrees with the control
instruction. -/
theorem doInstructions_agrees (fuel c : Nat) (value : HValue)
    (found : cb.graph.value c = some value) (control : value.isControlInstruction = true)
    (plain : List Nat) (plains : ∀ u ∈ plain, cb.graph.isControl u = false) :
    Triple (fun s => cb.Faithful args val s ∧ s.status = .building)
      (cb.doInstructions fuel (plain ++ [c]))
      (fun _ s => cb.Faithful args val s ∧ ∃ op, ⟨s.insertBlock, op⟩ ∈ s.instructions ∧
        op.isTerminator = true ∧ cb.Agrees args val s value op) (fun _ _ => True) := by
  induction plain with
  | cons u rest loop =>
    have next := loop fun v member => plains v (List.mem_cons_of_mem u member)
    refine .bind (Q := fun a s => (cb.Faithful args val s ∧ s.status = .building) ∧ a = s)
      (.of_get fun _ h => ⟨h, rfl⟩) fun s₁ => .of_ite (fun aborted => ?_) fun _ =>
        .weaken (.bind_resolve (fun _ _ => True.intro) fun _ _ => .of_ite
          (fun _ => .bind (((visitInstruction_computes evaluates typed fuel u).frame
            (visitInstruction_instrStep cb fuel u) (F := fun s => s.status = .building)
            fun _ _ building step => step.status.trans building).weaken (fun _ h => h)
            (fun _ _ h => h) fun _ _ _ => True.intro) fun _ => next)
          fun _ => .bind (.of_pure _ fun _ h => h) fun _ => next) (fun _ h => h.1)
          (fun _ _ h => h) fun _ _ h => h
    rintro s ⟨⟨-, building⟩, rfl⟩
    exact absurd (building.symm.trans aborted) (by decide)
  | nil =>
    refine .bind (Q := fun a s => (cb.Faithful args val s ∧ s.status = .building) ∧ a = s)
      (.of_get fun _ h => ⟨h, rfl⟩) fun s₁ => .of_ite (fun aborted => ?_) fun _ =>
        .weaken (.bind_resolve (fun _ _ => True.intro) fun current currentFound => ?_)
          (fun _ h => h.1) (fun _ _ h => h) fun _ _ h => h
    · rintro s ⟨⟨-, building⟩, rfl⟩
      exact absurd (building.symm.trans aborted) (by decide)
    · obtain rfl : current = value := Option.some.inj (currentFound.symm.trans found)
      refine .of_ite (fun _ => .bind ((visitInstruction_agrees evaluates typed decides fuel c
        current found control).weaken (fun _ h => h.1) (fun _ _ h => h) fun _ _ h => h)
        fun _ => .of_pure _ fun _ h => h) fun skips => absurd ?_ skips
      simp [HGraph.emitAtUses_of_control formed found control]

/-- A block of the order keeps the code faithful and joins the blocks that end with an agreeing
terminator. -/
theorem doBasicBlock_exits (fuel : Nat) (block : HBasicBlock) (member : block ∈ cb.graph.blocks)
    (done : List HBasicBlock) :
    Triple (fun s => cb.Faithful args val s ∧ s.status = .building ∧ cb.Exited args val done s)
      (cb.doBasicBlock fuel block)
      (fun _ s => cb.Faithful args val s ∧ s.status = .building ∧
        cb.Exited args val (done ++ [block]) s) (fun _ _ => True) := by
  obtain ⟨plain, c, value, split, found, control, plains⟩ :=
    HGraph.instructions_of_mem formed member
  -- what the block's processing keeps: the status, the blocks done, and where it inserts
  let Within (y : Nat) (s : BuilderState) : Prop := s.status = .building ∧
    cb.Exited args val done s ∧ s.insertBlock = y ∧ s.llvmBasicBlock block.blockId = some y
  have within (y : Nat) (s t : BuilderState) (holds : Within y s) (step : InstrStep s t) :
      Within y t :=
    ⟨step.status.trans holds.1, holds.2.1.stable step, step.insertBlock.trans holds.2.2.1,
      step.llvmBasicBlock _ _ holds.2.2.2⟩
  have loop (y : Nat) : Triple (fun s => cb.Faithful args val s ∧ Within y s)
      (cb.doInstructions fuel block.instructions)
      (fun _ s => (cb.Faithful args val s ∧ ∃ op, ⟨s.insertBlock, op⟩ ∈ s.instructions ∧
        op.isTerminator = true ∧ cb.Agrees args val s value op) ∧ Within y s)
      (fun _ _ => True) := by
    rw [split]
    exact ((doInstructions_agrees formed evaluates typed decides fuel c value found control
      plain plains).frame (doInstructions_instrStep cb fuel _) (within y)).weaken
      (fun _ ⟨faithful, holds⟩ => ⟨⟨faithful, holds.1⟩, holds⟩) (fun _ _ h => h)
      fun _ _ _ => True.intro
  refine .bind (Q := fun _ s => cb.Faithful args val s ∧ s.status = .building ∧
      cb.Exited args val done s) (.of_get fun _ h => h) fun _ =>
    .bind (.of_dcheck _ _ fun _ _ => True.intro)
    fun _ => .bind ((useBlock_computes (A := fun _ _ => True) block.blockId).frame
      (useBlock_instrStep _) (F := fun s => s.status = .building ∧ cb.Exited args val done s)
      fun _ _ holds step => ⟨step.status.trans holds.1, holds.2.stable step⟩) fun y =>
    .bind (Q := fun _ s => cb.Faithful args val s ∧ Within y s)
      (.of_modify fun _ ⟨⟨faithful, blockOf⟩, building, exited⟩ =>
        ⟨faithful.congr rfl rfl rfl, building, exited.congr rfl rfl, rfl, blockOf⟩) fun _ =>
    .bind (bindEnvironment_envStep (fun _ _ ⟨faithful, building, exited, insertBlock, blockOf⟩
      step => ⟨faithful.congr step.llvmValue step.instructions step.llvmBasicBlock,
        step.status.trans building, exited.congr step.instructions step.llvmBasicBlock,
        step.insertBlock.trans insertBlock, step.llvmBasicBlock ▸ blockOf⟩)
      (fun _ _ _ _ => True.intro) cb block) fun _ =>
    .bind (loop y) fun _ =>
    .of_modify fun _ ⟨⟨faithful, op, inst, terminator, agrees⟩, building, exited, insertBlock,
      blockOf⟩ => ⟨faithful.congr rfl rfl rfl, building, fun b member => ?_⟩
  rcases List.mem_append.mp member with old | new
  · exact exited.congr rfl rfl b old
  · rw [List.mem_singleton.mp new]
    exact ⟨c, value, y, op, by simp [HBasicBlock.end, split], found, blockOf,
      insertBlock ▸ inst, terminator, agrees⟩

/-- The block loop of `Build` keeps the code faithful and ends each block with an agreeing
terminator. -/
theorem doBlocks_exits (fuel : Nat) (blocks : List HBasicBlock) : ∀ done,
    (∀ b ∈ blocks, b ∈ cb.graph.blocks) →
    Triple (fun s => cb.Faithful args val s ∧ s.status = .building ∧ cb.Exited args val done s)
      (cb.doBlocks fuel blocks)
      (fun _ s => cb.Faithful args val s ∧ s.status = .building ∧
        cb.Exited args val (done ++ blocks) s) (fun _ _ => True) := by
  induction blocks with
  | nil => exact fun done _ => .of_pure _ fun _ h => by simpa using h
  | cons block rest loop =>
    intro done members
    have next := loop (done ++ [block]) fun b member => members b (List.mem_cons_of_mem _ member)
    rw [List.append_assoc, List.singleton_append] at next
    refine .bind (doBasicBlock_exits formed evaluates typed decides fuel block
      (members block (List.mem_cons_self _ _)) done) fun _ =>
      .bind (Q := fun a s => (cb.Faithful args val s ∧ s.status = .building ∧
        cb.Exited args val (done ++ [block]) s) ∧ a = s) (.of_get fun _ h => ⟨h, rfl⟩) fun _ =>
      .of_ite (fun aborted => ?_) fun _ => .weaken next (fun _ h => h.1) (fun _ _ h => h)
        fun _ _ h => h
    rintro s ⟨⟨-, building, -⟩, rfl⟩
    exact absurd (building.symm.trans aborted) (by decide)

/-- A build from the start ends with every block of the order ending with an agreeing
terminator. -/
theorem build_exits (fuel : Nat) (session : LLVMGranularity) :
    Triple (· = BuilderState.initial cb.graph session) (cb.build fuel)
      (fun _ => cb.Exited args val cb.graph.blocks) (fun _ _ => True) := by
  unfold build
  exact .bind (Q := fun _ s => cb.Faithful args val s ∧ s.status = .building ∧
      cb.Exited args val [] s) (.of_modify fun s started => by
      subst started
      exact ⟨(Faithful.initial session).congr rfl rfl rfl, rfl,
        fun _ member => absurd member (List.not_mem_nil _)⟩)
    fun _ => .bind (Q := fun _ => cb.Exited args val cb.graph.blocks)
      ((doBlocks_exits formed evaluates typed decides fuel cb.graph.blocks []
        fun _ member => member).weaken (fun _ h => h) (fun _ _ h => by simpa using h.2.2)
        fun _ _ h => h)
    fun _ => .of_ite (fun _ => .of_pure _ fun _ h => h) fun _ =>
      .bind (Q := fun _ => cb.Exited args val cb.graph.blocks) (.of_pure _ fun _ h => h) fun _ =>
      .bind (.of_modify fun _ exited => exited.congr rfl rfl) fun _ =>
      .bind (.of_get fun _ h => h) fun _ => .of_pure _ fun _ h => h

omit evaluates typed decides in
/-- In laid-out code where every block ends with an agreeing terminator, the run of the function
from the LLVM block of a block is the run of the graph from the block, through as many blocks. -/
theorem runFunction_eq_run {s : BuilderState} (laid : Laid cb.graph cb.graph.blocks s)
    (exited : cb.Exited args val cb.graph.blocks s) (fuel : Nat) :
    ∀ block ∈ cb.graph.blocks, ∃ y, s.llvmBasicBlock block.blockId = some y ∧
      runFunction args s.instructions fuel y =
        (cb.graph.run val fuel block.blockId).bind (cb.graph.returnWord val cb.kSmiShift) := by
  induction fuel with
  | zero =>
    intro block member
    obtain ⟨_, _, y, _, _, _, blockOf, _⟩ := exited block member
    exact ⟨y, blockOf, rfl⟩
  | succ fuel runs =>
    intro block member
    obtain ⟨c, value, y, op, ends, found, blockOf, inst, terminator, exit, transfer, takes⟩ :=
      exited block member
    have takesOp := terminatorOf_of_laid formed laid blockOf inst terminator
    refine ⟨y, blockOf, ?_⟩
    simp only [HGraph.run, HGraph.exit_of_mem formed member ends found, transfer]
    cases exit with
    | jump next =>
      obtain ⟨y', nextOf, passes⟩ := takes
      obtain ⟨block', member', rfl⟩ := List.mem_map.mp (laid.numbered.known _ _ nextOf)
      obtain ⟨y'', nextOf', run⟩ := runs block' member'
      obtain rfl : y'' = y' := Option.some.inj (nextOf'.symm.trans nextOf)
      rw [runFunction_passes takesOp passes, run]
    | returns o =>
      obtain ⟨v, w, rfl, word, computes⟩ := takes
      rw [runFunction_ret takesOp, computes.2]
      exact word.symm

omit evaluates typed decides in
/-- In laid-out code where every block ends with an agreeing terminator, the run of the function
from its entry block is the run of the graph from its first block, through as many blocks. -/
theorem runFunction_entry {s : BuilderState} (laid : Laid cb.graph cb.graph.blocks s)
    (exited : cb.Exited args val cb.graph.blocks s) :
    ∀ start ∈ cb.graph.blocks.head?, ∀ n, runFunction args s.instructions n 0 =
      (cb.graph.run val n start.blockId).bind (cb.graph.returnWord val cb.kSmiShift) := by
  intro start first n
  obtain ⟨y, entry, runs⟩ := runFunction_eq_run formed laid exited n start
    (List.mem_of_mem_head? first)
  rw [laid.start start first] at entry
  cases entry
  exact runs

end Blocks

/-! ## What `Use` hands out for values emitted at their uses -/

/-- The LLVM value of a parameter or a constant is never an instruction, and neither is any
value `Use` has handed out for a value emitted at its uses. -/
structure LeafValues (graph : HGraph) (s : BuilderState) : Prop where
  values : ∀ o v, (graph.opcodeOf o).any (·.isLeaf) = true → s.llvmValue o = some v →
    ∀ j, v ≠ .instruction j
  handed : ∀ o v, .use o v ∈ s.trace → graph.emitsAtUses o = true → ∀ j, v ≠ .instruction j

namespace LeafValues

variable {graph : HGraph} {s s' : BuilderState}

theorem congr (leafValues : LeafValues graph s) (values : s'.llvmValue = s.llvmValue)
    (trace : s'.trace = s.trace) : LeafValues graph s' := by
  obtain ⟨leaf, handed⟩ := leafValues
  exact ⟨by rw [values]; exact leaf, by rw [trace]; exact handed⟩

theorem addVisit (leafValues : LeafValues graph s) (id : Nat) :
    LeafValues graph (s.addEvent (.visit id)) :=
  ⟨leafValues.values, fun o v used => leafValues.handed o v (by simpa using used)⟩

theorem setValue (leafValues : LeafValues graph s) {id : Nat} {v : LValue}
    (plain : (graph.opcodeOf id).any (·.isLeaf) = true → ∀ j, v ≠ .instruction j) :
    LeafValues graph (s.setValue id v) := by
  refine ⟨fun o w leaf set => ?_, leafValues.handed⟩
  by_cases same : o = id
  · subst same
    obtain rfl : v = w := by simpa using set
    exact plain leaf
  · exact leafValues.values o w leaf (by simpa [updateAt_apply, same] using set)

theorem addUse (leafValues : LeafValues graph s) {o : Nat} {v : LValue}
    (plain : graph.emitsAtUses o = true → ∀ j, v ≠ .instruction j) :
    LeafValues graph (s.addEvent (.use o v)) := by
  refine ⟨leafValues.values, fun o' w used deferred => ?_⟩
  rcases List.mem_append.mp used with old | new
  · exact leafValues.handed o' w old deferred
  · obtain ⟨rfl, rfl⟩ : o' = o ∧ w = v := by simpa using new
    exact plain deferred

end LeafValues

section Handouts

variable {cb : LLVMChunkBuilder}

/-- `Use` of a value that is a leaf if it is emitted at its uses hands out no instruction for
a value emitted at its uses. -/
theorem useValue_leafValues {visit : Nat → BuildM Unit}
    (hvisit : ∀ id, Triple (LeafValues cb.graph) (visit id) (fun _ => LeafValues cb.graph)
      (fun _ => LeafValues cb.graph)) (o : Nat)
    (leaf : cb.graph.emitsAtUses o = true → (cb.graph.opcodeOf o).any (·.isLeaf) = true) :
    Triple (LeafValues cb.graph) (cb.useValue visit o) (fun _ => LeafValues cb.graph)
      (fun _ => LeafValues cb.graph) := by
  have lookup : Triple (LeafValues cb.graph) (do
      let llvmValue ← dchecked ((← get).llvmValue o) "value->llvm_value()"
      record (.use o llvmValue)
      pure llvmValue) (fun _ => LeafValues cb.graph) (fun _ => LeafValues cb.graph) := by
    intro s leafValues
    cases set : s.llvmValue o with
    | none =>
      simp only [bind_apply, get_apply, set, dchecked]
      exact leafValues
    | some v =>
      simp only [bind_apply, get_apply, set, dchecked, pure_apply, record, modify_apply]
      exact leafValues.addUse fun deferred => leafValues.values o v (leaf deferred) set
  unfold useValue
  exact .bind_resolve (fun _ h => h) fun _ _ => .bind (.of_get fun _ h => h) fun _ =>
    .of_ite (fun _ => .bind (hvisit o) fun _ => lookup) fun _ =>
      .bind (.of_pure _ fun _ h => h) fun _ => lookup

/-- In a graph whose values emitted at their uses are leaves, every visit keeps `LeafValues`:
a parameter's or a constant's handler sets an argument or a constant. -/
theorem visitInstruction_leafValues (leaves : cb.graph.deferredLeaves = true) (fuel : Nat) :
    ∀ id, Triple (LeafValues cb.graph) (cb.visitInstruction fuel id)
      (fun _ => LeafValues cb.graph) (fun _ => LeafValues cb.graph) := by
  have throws : ∀ (e : Abort) s, LeafValues cb.graph s → e.ofHandler = true →
      LeafValues cb.graph s := fun _ _ h _ => h
  have hinsert (op : LOp) : Triple (LeafValues cb.graph) (insert op)
      (fun _ => LeafValues cb.graph) (fun _ => LeafValues cb.graph) :=
    .of_modifyGet fun _ h => h.congr rfl rfl
  have hblock (block : Nat) : Triple (LeafValues cb.graph) (useBlock block)
      (fun _ => LeafValues cb.graph) (fun _ => LeafValues cb.graph) := by
    intro s h
    simp only [useBlock, bind_apply, get_apply]
    cases s.llvmBasicBlock block <;> exact h.congr rfl rfl
  have hsimulate (popCount : Nat) (values : List (Option Nat × Nat)) :
      Triple (LeafValues cb.graph) (doSimulate popCount values)
        (fun _ => LeafValues cb.graph) (fun _ => LeafValues cb.graph) := by
    intro s h
    simp only [doSimulate, bind_apply, get_apply]
    cases s.currentEnvironment <;> exact h.congr rfl rfl
  induction fuel with
  | zero => exact fun _ => .of_throw _ fun _ h => h
  | succ fuel visit =>
    intro id
    by_cases leaf : (cb.graph.opcodeOf id).any (·.isLeaf) = true
    · obtain ⟨opcode, isOpcode, isLeaf⟩ := exists_of_any leaf
      obtain ⟨value, found, isInstruction⟩ := Option.bind_eq_some.mp isOpcode
      refine .bind (Q := fun _ => LeafValues cb.graph) (.of_modify fun _ h => h.addVisit id)
        fun _ => .bind_resolve_some found <|
        .bind_dchecked_some isInstruction <| .of_ite (fun _ => ?_) fun _ => ?_
      · split
        · exact unimplemented_triple throws
        · exact .bind (valueAt_triple throws cb _) fun _ =>
            .bind (dcheck_triple throws _ _ (by decide)) fun _ => unimplemented_triple throws
      · split
        · exact .bind (hblock _) fun _ => .of_discard (hinsert _)
        · cases opcode with
          | parameter => exact .of_modify fun _ h => h.setValue fun _ _ => nofun
          | constant =>
            exact .bind (constantWord_triple throws cb _ _) fun _ =>
              .of_modify fun _ h => h.setValue fun _ _ => nofun
          | _ => cases isLeaf
    · exact visitInstruction_triple throws (fun _ h => h) cb id (fun op _ => hinsert op)
        (fun _ _ _ op _ => hinsert op)
        (fun _ => .of_modify fun _ h => h.setValue fun isLeaf => absurd isLeaf leaf)
        (fun _ _ block _ => hblock block) hsimulate fuel (.of_modify fun _ h => h.addVisit id)
        fun _ _ found isInstruction o used => useValue_leafValues visit o
          (cb.graph.leaf_of_deferredLeaves leaves found isInstruction used)

/-- In a graph whose values emitted at their uses are leaves, no run of `Build` has `Use` hand
out an instruction for a value emitted at its uses. -/
theorem build_hands_out_leaves (leaves : cb.graph.deferredLeaves = true) (fuel : Nat)
    (session : LLVMGranularity) :
    ∀ o v, .use o v ∈ (finalState (cb.build fuel (BuilderState.initial cb.graph session))).trace →
      cb.graph.emitsAtUses o = true → ∀ j, v ≠ .instruction j := by
  have run := build_keeps cb (fun _ _ h values trace => h.congr values trace) (fun _ _ h => h)
    fuel (visitInstruction_leafValues leaves fuel)
  have outcome := run (BuilderState.initial cb.graph session)
    ⟨fun _ _ _ set => by simp [BuilderState.initial] at set, fun _ _ used => by
      simp [BuilderState.initial] at used⟩
  cases result : cb.build fuel (BuilderState.initial cb.graph session) <;>
    rw [result] at outcome <;> exact outcome.handed

end Handouts

end LLVMChunkBuilder

/-- On `parameterBelowTen` with the Smi `7` as parameter, the graph returns its parameter from
block `1`, as `7 < 10`, and the function returns the parameter's word, both within two blocks. -/
example : (LLVMChunk.code (LLVMChunk.newChunk ⟨1, false, false⟩
      LLVMChunkBuilder.parameterBelowTen 3 {})).map
      (runFunction (fun k => if k = 2 then BitVec.ofInt 64 (7 * 2 ^ 32) else 0) · 2 0) =
    some (some (BitVec.ofInt 64 (7 * 2 ^ 32))) ∧
    LLVMChunkBuilder.parameterBelowTen.run (fun id => [7, 7, 10].getD id 0) 2 0 = some 0 := by
  decide

end Llv8
