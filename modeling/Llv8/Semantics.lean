import Llv8.Environment
import Llv8.Parameter
import Llv8.Representation

/-!
# The emitted code computes the values of the graph

Every instruction `Build` emits is a function of earlier instructions and of the arguments, so
its word, when the function runs on the argument words `args`, is given by `evalInstructions`
over the code in creation order.  A Hydrogen value stands for an integer, which its
representation encodes as a word: an `Integer32` value as itself, a Smi or tagged value as its
Smi, shifted left by `kSmiShift` (`Representation.encode`).  Given integers `val` that solve the
graph's equations (`HGraph.evaluates`: the argument of a parameter that a handler reads encodes
its integer, a constant stands for its own, a change for its operand's, an addition, subtraction
or multiplication for the exact result of its operands'), every data value that has an LLVM value
computes the encoding of its integer, over every run of `Build` (`build_computes_values`).  A
parameter no handler reads, such as an unused receiver, may be passed any word.

This needs the changes to be typed as the handlers assume and the graph to avoid the two
lowerings the code gets wrong (`HGraph.typed`): a multiplication of Smis, whose words are both
shifted, and the conversion of a negative Smi to `Integer32`, which `SmiToInteger32`
zero-extends.  The arithmetic needs no range: the 64-bit instructions compute the exact result
modulo `2^64`, which is what the encoding keeps.
-/

namespace Llv8

/-! ## Words of integers -/

/-- The word of an integer in a representation: an `Integer32` value as itself, a Smi or tagged
value as its Smi, the value shifted left by `shift`. -/
def Representation.encode (shift : Nat) : Representation → Int → BitVec 64
  | .smi, x | .tagged, x => BitVec.ofInt 64 (x * 2 ^ shift)
  | _, x => BitVec.ofInt 64 x

theorem ofInt64_sub (x y : Int) :
    BitVec.ofInt 64 (x - y) = BitVec.ofInt 64 x - BitVec.ofInt 64 y := by
  apply BitVec.eq_of_toInt_eq
  simp

theorem ofInt64_shiftLeft (x : Int) (shift : Nat) :
    BitVec.ofInt 64 x <<< shift = BitVec.ofInt 64 (x * 2 ^ shift) := by
  have twoPow : BitVec.twoPow 64 shift = BitVec.ofInt 64 (2 ^ shift) := by
    apply BitVec.eq_of_toNat_eq
    rw [BitVec.toNat_twoPow, BitVec.toNat_ofInt]
    norm_cast
  rw [BitVec.shiftLeft_eq_mul_twoPow, twoPow, BitVec.ofInt_mul]

/-- Shifting a Smi word right by 32 gives back its value, if that is in `[0, 2^32)`. -/
theorem ofInt64_ushiftRight {x : Int} (low : 0 ≤ x) (high : x < 2 ^ 32) :
    BitVec.ofInt 64 (x * 2 ^ 32) >>> 32 = BitVec.ofInt 64 x := by
  obtain ⟨n, rfl⟩ := Int.eq_ofNat_of_zero_le low
  apply BitVec.eq_of_toNat_eq
  rw [BitVec.toNat_ushiftRight, BitVec.toNat_ofInt, BitVec.toNat_ofInt, Nat.shiftRight_eq_div_pow,
    Int.emod_eq_of_lt (by omega) (by omega), Int.emod_eq_of_lt (by omega) (by omega)]
  omega

namespace Representation

theorem encode_add (r : Representation) (shift : Nat) (x y : Int) :
    r.encode shift x + r.encode shift y = r.encode shift (x + y) := by
  cases r <;> simp only [encode, ← BitVec.ofInt_add, add_mul]

theorem encode_sub (r : Representation) (shift : Nat) (x y : Int) :
    r.encode shift x - r.encode shift y = r.encode shift (x - y) := by
  cases r <;> simp only [encode, ← ofInt64_sub, sub_mul]

theorem encode_mul_integer32 (shift : Nat) (x y : Int) :
    encode shift .integer32 x * encode shift .integer32 y = encode shift .integer32 (x * y) :=
  (BitVec.ofInt_mul x y).symm

/-- Smis and tagged values share their encoding. -/
theorem encode_of_smi_or_tagged {r r' : Representation} (shift : Nat) (x : Int)
    (tagged : r = .smi ∨ r = .tagged) (tagged' : r' = .smi ∨ r' = .tagged) :
    r.encode shift x = r'.encode shift x := by
  rcases tagged with rfl | rfl <;> rcases tagged' with rfl | rfl <;> rfl

end Representation

/-! ## Words of the emitted code -/

theorem evalInstructions_append_singleton (args : Nat → BitVec 64) (instructions : List LInst)
    (inst : LInst) :
    evalInstructions args (instructions ++ [inst]) = evalInstructions args instructions ++
      [inst.op.result (·.word args (evalInstructions args instructions))] := by
  simp only [evalInstructions, List.foldl_append, List.foldl_cons, List.foldl_nil]

theorem length_evalInstructions (args : Nat → BitVec 64) (instructions : List LInst) :
    (evalInstructions args instructions).length = instructions.length := by
  induction instructions using List.reverseRecOn with
  | nil => rfl
  | append_singleton instructions inst words =>
    simp [evalInstructions_append_singleton, words]

/-- Instructions appended later leave the words of the earlier ones as they are. -/
theorem evalInstructions_append (args : Nat → BitVec 64) (instructions added : List LInst) :
    ∃ more, evalInstructions args (instructions ++ added) =
      evalInstructions args instructions ++ more := by
  induction added using List.reverseRecOn with
  | nil => exact ⟨[], by simp⟩
  | append_singleton added inst earlier =>
    obtain ⟨more, words⟩ := earlier
    rw [← List.append_assoc, evalInstructions_append_singleton, words, List.append_assoc]
    exact ⟨_, rfl⟩

/-- Whether an instruction is a `ret`. -/
def LOp.isRet : LOp → Bool
  | .ret _ => true
  | _ => false

theorem getElem?_append_some {α : Type} {l added : List α} {j : Nat} {a : α}
    (found : (l ++ added)[j]? = some a) : l[j]? = some a ∨ a ∈ added := by
  by_cases old : j < l.length
  · rw [List.getElem?_append_left old] at found
    exact .inl found
  · rw [List.getElem?_append_right (by omega)] at found
    exact .inr (List.getElem?_mem found)

/-- An LLVM value that names an argument, a constant or one of the first `n` instructions. -/
def LValue.Below (n : Nat) : LValue → Prop
  | .instruction id => id < n
  | _ => True

theorem LValue.Below.mono {n m : Nat} {v : LValue} (below : v.Below n) (le : n ≤ m) :
    v.Below m := by
  cases v <;> simp_all [LValue.Below]
  omega

theorem LValue.word_append {args : Nat → BitVec 64} {results more : List (BitVec 64)}
    {v : LValue} (below : v.Below results.length) :
    v.word args (results ++ more) = v.word args results := by
  cases v with
  | instruction id => simp [LValue.word, List.getElem?_append_left (show id < _ from below)]
  | _ => rfl

namespace BuilderState

/-- The word an LLVM value computes when the function under construction runs on `args`. -/
def wordOf (s : BuilderState) (args : Nat → BitVec 64) (v : LValue) : BitVec 64 :=
  v.word args (evalInstructions args s.instructions)

/-- An LLVM value computes a word: it names code already emitted, whose word that is. -/
def Computes (s : BuilderState) (args : Nat → BitVec 64) (v : LValue) (x : BitVec 64) : Prop :=
  v.Below s.instructions.length ∧ s.wordOf args v = x

variable {s s' : BuilderState} {args : Nat → BitVec 64} {v : LValue} {x : BitVec 64}

theorem Computes.append (longer : ∃ added, s'.instructions = s.instructions ++ added)
    (computes : s.Computes args v x) : s'.Computes args v x := by
  obtain ⟨added, instructions⟩ := longer
  obtain ⟨more, words⟩ := evalInstructions_append args s.instructions added
  obtain ⟨below, word⟩ := computes
  refine ⟨below.mono (by simp [instructions]), ?_⟩
  rw [← length_evalInstructions args] at below
  rw [← word, wordOf, wordOf, instructions, words, LValue.word_append below]

theorem Computes.stable (computes : s.Computes args v x) (step : InstrStep s s') :
    s'.Computes args v x :=
  computes.append (step.instructions.elim fun added h => ⟨added, h.1⟩)

/-- A new instruction computes its operation on the words of its operands. -/
theorem computes_push (s : BuilderState) (args : Nat → BitVec 64) (op : LOp) :
    (s.pushInstruction op).Computes args (.instruction s.instructions.length)
      (op.result (s.wordOf args)) := by
  refine ⟨by simp [LValue.Below], ?_⟩
  show (evalInstructions args (s.instructions ++ [⟨s.insertBlock, op⟩])).getD _ 0 = _
  rw [evalInstructions_append_singleton, List.getD_eq_getElem?_getD,
    List.getElem?_append_right (by rw [length_evalInstructions]), length_evalInstructions,
    Nat.sub_self]
  rfl

end BuilderState

/-! ## The integers of the graph's values -/

/-- Whether `val` solves the equation of instruction `id`, of representation `r`, when the
function is called on `args` with `numParameters` parameters: the argument `DoParameter` binds
encodes a parameter's integer, a constant stands for its own, a change for its operand's, and an
addition, subtraction or multiplication for the exact result of its operands'. -/
def HOpcode.solvedBy (shift numParameters : Nat) (args : Nat → BitVec 64) (val : Nat → Int)
    (id : Nat) (r : Representation) : HOpcode → Bool
  | .parameter index => args (numParameters + 2 - index) == r.encode shift (val id)
  | .constant (.integer32 c) => val id == c.toInt
  | .change x _ _ => val id == val x
  | .add left right => val id == val left + val right
  | .sub left right => val id == val left - val right
  | .mul left right => val id == val left * val right
  | _ => true

namespace HGraph

variable (graph : HGraph)

/-- Whether a test holds of every instruction of the graph. -/
def allInstructions (test : Nat → HValue → HOpcode → Bool) : Bool :=
  (List.range graph.values.length).all fun id =>
    (graph.value id).all fun value => value.opcode?.all (test id value)

theorem allInstructions_of {test : Nat → HValue → HOpcode → Bool}
    (holds : graph.allInstructions test = true) {id : Nat} {value : HValue} {opcode : HOpcode}
    (found : graph.value id = some value) (isInstruction : value.opcode? = some opcode) :
    test id value opcode = true := by
  have inRange : id < graph.values.length := (List.getElem?_eq_some_iff.mp found).1
  simpa [found, isInstruction] using List.all_eq_true.mp holds id (List.mem_range.mpr inRange)

/-- Whether a handler reads value `id`: an instruction hands it to `Use` or reads its LLVM value
directly. -/
def isRead (id : Nat) : Bool :=
  (List.range graph.values.length).any fun u => (graph.value u).any fun value =>
    value.opcode?.any fun opcode => opcode.usedOperands.contains id || opcode.readOperands.contains id

theorem isRead_of_operand {u o : Nat} {value : HValue} {opcode : HOpcode}
    (found : graph.value u = some value) (isInstruction : value.opcode? = some opcode)
    (member : o ∈ opcode.usedOperands ∨ o ∈ opcode.readOperands) : graph.isRead o = true := by
  have inRange : u < graph.values.length := (List.getElem?_eq_some_iff.mp found).1
  exact List.any_eq_true.mpr ⟨u, List.mem_range.mpr inRange, by simpa [found, isInstruction] using member⟩

/-- Whether `val` has to give value `id` its integer: unless it is a parameter no handler reads. -/
def pinned (id : Nat) : Bool :=
  (graph.value id).all (fun value => !value.kind matches .instruction (.parameter _)) ||
    graph.isRead id

theorem pinned_of_opcode {id : Nat} {value : HValue} {opcode : HOpcode}
    (found : graph.value id = some value) (isInstruction : value.opcode? = some opcode)
    (notParameter : ∀ index, opcode ≠ .parameter index) : graph.pinned id = true := by
  have kind := HValue.kind_of_opcode isInstruction
  cases opcode <;> simp_all [pinned]

/-- `val` gives every instruction the integer it stands for when the function is called on
`args`: it solves the equation of every instruction but a parameter that no handler reads,
whose argument, such as an unused receiver, may be any word. -/
def evaluates (shift numParameters : Nat) (args : Nat → BitVec 64) (val : Nat → Int) : Bool :=
  graph.allInstructions fun id value opcode =>
    !graph.pinned id || opcode.solvedBy shift numParameters args val id value.representation

theorem solvedBy_of_evaluates {shift numParameters : Nat} {args : Nat → BitVec 64}
    {val : Nat → Int} (evaluates : graph.evaluates shift numParameters args val = true)
    {id : Nat} {value : HValue} {opcode : HOpcode} (found : graph.value id = some value)
    (isInstruction : value.opcode? = some opcode) (pinned : graph.pinned id = true) :
    opcode.solvedBy shift numParameters args val id value.representation = true := by
  simpa [pinned] using graph.allInstructions_of evaluates found isInstruction

/-- A receiver that no handler reads may be passed a heap object's word. -/
example :
    HGraph.evaluates
      { values := [{ kind := .instruction (.parameter 0), block := 0, representation := .tagged }]
        blocks := [] } 32 0 (fun _ => 1) (fun _ => 0) = true := by
  decide

/-- Whether a value is a data value, not a control instruction. -/
def isData (id : Nat) : Bool := (graph.value id).all (!·.isControlInstruction)

theorem isData_of {id : Nat} (data : graph.isData id = true) {value : HValue}
    (found : graph.value id = some value) : value.isControlInstruction = false := by
  simpa [isData, found] using data

end HGraph

/-- Whether an instruction of representation `r` is typed as its handler assumes, with the code's
wrong lowerings excluded: no multiplication is of Smis (`DoMul` multiplies the tagged words), and a
change converts a Smi or tagged value to `Integer32` only if it lies in `[0, 2^32)`
(`SmiToInteger32` shifts logically, so a negative value comes out zero-extended and compares as a
large one).  Besides, a change reads a data value of its `from` representation and has its `to`
representation, the operands of arithmetic are data values, and a return returns a data value of
the graph. -/
def HOpcode.typedIn (graph : HGraph) (val : Nat → Int) (r : Representation) : HOpcode → Bool
  | .change x fromRep toRep =>
    r == toRep && graph.representation x == some fromRep && graph.isData x &&
      (!(fromRep == .smi || fromRep == .tagged) || toRep != .integer32 ||
        decide (0 ≤ val x ∧ val x < 2 ^ 32))
  | .add left right | .sub left right => graph.isData left && graph.isData right
  | .mul left right => r != .smi && graph.isData left && graph.isData right
  | .«return» value _ => (graph.value value).any (!·.isControlInstruction)
  | _ => true

/-- Every instruction of the graph is typed as its handler assumes (`HOpcode.typedIn`): in
particular no multiplication is of Smis, and no Smi or tagged value outside `[0, 2^32)` is changed
to `Integer32`. -/
def HGraph.typed (graph : HGraph) (val : Nat → Int) : Bool :=
  graph.allInstructions fun _ value opcode => opcode.typedIn graph val value.representation

theorem HOpcode.typedIn_change {graph : HGraph} {val : Nat → Int} {r : Representation} {x : Nat}
    {fromRep toRep : Representation} (typed : (change x fromRep toRep).typedIn graph val r = true) :
    r = toRep ∧ graph.representation x = some fromRep ∧ graph.isData x = true ∧
      ((fromRep = .smi ∨ fromRep = .tagged) → toRep = .integer32 →
        0 ≤ val x ∧ val x < 2 ^ 32) := by
  simp only [typedIn, Bool.and_eq_true, beq_iff_eq, Bool.or_eq_true, Bool.not_eq_true',
    bne_iff_ne, ne_eq, decide_eq_true_eq] at typed
  obtain ⟨⟨⟨rep, xRep⟩, data⟩, range⟩ := typed
  refine ⟨rep, xRep, data, fun tagged toInteger32 => ?_⟩
  rcases range with (notTagged | notInteger32) | inRange
  · rcases tagged with rfl | rfl <;> simp at notTagged
  · exact absurd toInteger32 notInteger32
  · exact inRange

/-! ## Comparisons -/

/-- The comparison a token stands for on integers; the tokens `TokenToPredicate` rejects compare
nothing. -/
def Token.holds : Token → Int → Int → Bool
  | .eq, a, b | .eqStrict, a, b => a == b
  | .ne, a, b | .neStrict, a, b => a != b
  | .lt, a, b => decide (a < b)
  | .gt, a, b => decide (b < a)
  | .lte, a, b => decide (a ≤ b)
  | .gte, a, b => decide (b ≤ a)
  | _, _, _ => false

/-- An integer of the `Integer32` range is the signed value of its word. -/
theorem toInt_ofInt64 {a : Int} (range : -2 ^ 31 ≤ a ∧ a < 2 ^ 31) :
    (BitVec.ofInt 64 a).toInt = a := by
  rw [BitVec.toInt_ofInt, Int.bmod_def]
  push_cast
  split <;> omega

/-- The integer a comparison reads from an operand: its value, or, for an unsigned comparison,
the unsigned value of its 32 bits. -/
def comparedAs (unsigned : Bool) (x : Int) : Int := if unsigned then x % 2 ^ 32 else x

/-- The word of an integer of the `Integer32` range, read unsigned: the integer itself, or,
for a negative one, its sign extension. -/
theorem toNat_ofInt64 {a : Int} (range : -2 ^ 31 ≤ a ∧ a < 2 ^ 31) :
    ((BitVec.ofInt 64 a).toNat : Int) = if 0 ≤ a then a else a + 2 ^ 64 := by
  rw [BitVec.toNat_ofInt, Int.toNat_of_nonneg (Int.emod_nonneg _ (by decide))]
  split
  · exact Int.emod_eq_of_lt (by omega) (by omega)
  · rw [← Int.add_emod_self]
    exact Int.emod_eq_of_lt (by omega) (by omega)

/-- The unsigned value of the 32 bits of an integer of the `Integer32` range. -/
theorem emod_two_pow_32 {a : Int} (range : -2 ^ 31 ≤ a ∧ a < 2 ^ 31) :
    a % 2 ^ 32 = if 0 ≤ a then a else a + 2 ^ 32 := by
  split
  · exact Int.emod_eq_of_lt (by omega) (by omega)
  · rw [← Int.add_emod_self]
    exact Int.emod_eq_of_lt (by omega) (by omega)

/-- On words of integers of the `Integer32` range, unsigned 64-bit order is the order of the
integers' unsigned 32 bits: sign extension keeps both halves in order, the negative one above. -/
theorem ult_ofInt64 {a b : Int} (ha : -2 ^ 31 ≤ a ∧ a < 2 ^ 31) (hb : -2 ^ 31 ≤ b ∧ b < 2 ^ 31) :
    (BitVec.ofInt 64 a).ult (BitVec.ofInt 64 b) = decide (a % 2 ^ 32 < b % 2 ^ 32) := by
  rw [BitVec.ult, decide_eq_decide, ← Int.ofNat_lt, toNat_ofInt64 ha, toNat_ofInt64 hb,
    emod_two_pow_32 ha, emod_two_pow_32 hb]
  split <;> split <;> omega

theorem ule_ofInt64 {a b : Int} (ha : -2 ^ 31 ≤ a ∧ a < 2 ^ 31) (hb : -2 ^ 31 ≤ b ∧ b < 2 ^ 31) :
    (BitVec.ofInt 64 a).ule (BitVec.ofInt 64 b) = decide (a % 2 ^ 32 ≤ b % 2 ^ 32) := by
  rw [BitVec.ule, decide_eq_decide, ← Int.ofNat_le, toNat_ofInt64 ha, toNat_ofInt64 hb,
    emod_two_pow_32 ha, emod_two_pow_32 hb]
  split <;> split <;> omega

/-- Words of integers of the `Integer32` range are equal exactly when the integers are, read
signed or unsigned. -/
theorem beq_ofInt64 {a b : Int} (ha : -2 ^ 31 ≤ a ∧ a < 2 ^ 31) (hb : -2 ^ 31 ≤ b ∧ b < 2 ^ 31)
    (unsigned : Bool) :
    (BitVec.ofInt 64 a == BitVec.ofInt 64 b) = (comparedAs unsigned a == comparedAs unsigned b) := by
  rw [Bool.eq_iff_iff, beq_iff_eq, beq_iff_eq]
  cases unsigned
  · rw [← BitVec.toInt_inj, toInt_ofInt64 ha, toInt_ofInt64 hb]
    rfl
  · simp only [comparedAs, ↓reduceIte]
    rw [BitVec.toNat_eq, ← Int.ofNat_inj, toNat_ofInt64 ha, toNat_ofInt64 hb,
      emod_two_pow_32 ha, emod_two_pow_32 hb]
    split <;> split <;> omega

/-- Whether the emitted code decides a comparison of an operand: the operand is a data value
whose integer is in the `Integer32` range. -/
def HGraph.comparable (graph : HGraph) (val : Nat → Int) (o : Nat) : Bool :=
  graph.isData o && decide (-2 ^ 31 ≤ val o ∧ val o < 2 ^ 31)

theorem HGraph.comparable_of {graph : HGraph} {val : Nat → Int} {o : Nat}
    (comparable : graph.comparable val o = true) :
    graph.isData o = true ∧ -2 ^ 31 ≤ val o ∧ val o < 2 ^ 31 := by
  simpa only [HGraph.comparable, Bool.and_eq_true, decide_eq_true_eq] using comparable

/-- Whether an operand carries the `kUint32` flag. -/
def HGraph.unsigned (graph : HGraph) (o : Nat) : Bool := (graph.value o).any (·.uint32)

namespace BuilderState

variable {s s' : BuilderState} {args : Nat → BitVec 64}

/-- An LLVM value is a conditional branch already emitted, whose condition computes `1` if
`taken` and `0` otherwise, and whose targets are the LLVM blocks of the first two of
`successors`. -/
def Branches (s : BuilderState) (args : Nat → BitVec 64) (b : LValue) (taken : Bool)
    (successors : List Nat) : Prop :=
  ∃ j parent c t f, b = .instruction j ∧ s.instructions[j]? = some ⟨parent, .condBr c t f⟩ ∧
    s.Computes args c (if taken then 1 else 0) ∧
    successors[0]?.bind s.llvmBasicBlock = some t ∧ successors[1]?.bind s.llvmBasicBlock = some f

theorem bind_llvmBasicBlock {o : Option Nat} {x : Nat}
    (blocks : ∀ b x, s.llvmBasicBlock b = some x → s'.llvmBasicBlock b = some x)
    (found : o.bind s.llvmBasicBlock = some x) : o.bind s'.llvmBasicBlock = some x := by
  obtain ⟨b, rfl, found⟩ := Option.bind_eq_some.mp found
  exact blocks b x found

theorem Branches.append {b : LValue} {taken : Bool} {successors : List Nat}
    (branches : s.Branches args b taken successors)
    (longer : ∃ added, s'.instructions = s.instructions ++ added)
    (blocks : ∀ b x, s.llvmBasicBlock b = some x → s'.llvmBasicBlock b = some x) :
    s'.Branches args b taken successors := by
  obtain ⟨j, parent, c, t, f, rfl, inst, condition, first, second⟩ := branches
  obtain ⟨added, instructions⟩ := longer
  refine ⟨j, parent, c, t, f, rfl, ?_, condition.append ⟨added, instructions⟩,
    bind_llvmBasicBlock blocks first, bind_llvmBasicBlock blocks second⟩
  rw [instructions, List.getElem?_append_left (List.getElem?_eq_some_iff.mp inst).1, inst]

/-- The branch goes, when the function runs on `args`, to the LLVM block of the first successor
if `taken` and to that of the second otherwise. -/
theorem Branches.successor {b : LValue} {taken : Bool} {successors : List Nat}
    (branches : s.Branches args b taken successors) :
    ∃ j inst, b = .instruction j ∧ s.instructions[j]? = some inst ∧
      inst.op.successor (s.wordOf args) =
        (if taken then successors[0]? else successors[1]?).bind s.llvmBasicBlock := by
  obtain ⟨j, parent, c, t, f, rfl, inst, condition, first, second⟩ := branches
  refine ⟨j, _, rfl, inst, ?_⟩
  show some (if s.wordOf args c ≠ 0 then t else f) = _
  rw [condition.2]
  cases taken
  · simp [second]
  · simp [first]

end BuilderState

/-! ## The invariant -/

namespace LLVMChunkBuilder

variable (cb : LLVMChunkBuilder) (args : Nat → BitVec 64) (val : Nat → Int)

/-- An LLVM value computes the word of the integer of the operand of one of the graph's
`HReturn`s, in the operand's representation. -/
def ReturnsOperand (s : BuilderState) (v : LValue) : Prop :=
  ∃ id value o count operand, cb.graph.value id = some value ∧
    value.opcode? = some (.«return» o count) ∧ cb.graph.value o = some operand ∧
    s.Computes args v (operand.representation.encode cb.kSmiShift (val o))

/-- The code emitted so far is faithful to the graph: every data value that has an LLVM value
and whose integer `val` gives (`HGraph.pinned`) computes through it the word of its integer in its
representation; every `Integer32`
comparison of operands whose comparison the code decides, both with the `kUint32` flag or both
without, branches, once it has an LLVM value, as the comparison of the operands' integers, read
unsigned if they are, says; and every `ret` returns the word of a value the graph returns. -/
structure Faithful (s : BuilderState) : Prop where
  values : ∀ id value v, cb.graph.value id = some value → value.isControlInstruction = false →
    cb.graph.pinned id = true → s.llvmValue id = some v →
      s.Computes args v (value.representation.encode cb.kSmiShift (val id))
  branches : ∀ id value token left right b, cb.graph.value id = some value →
    value.opcode? = some (.compareNumericAndBranch token left right) →
    value.representation = .integer32 → cb.graph.comparable val left = true →
    cb.graph.comparable val right = true → cb.graph.unsigned left = cb.graph.unsigned right →
    s.llvmValue id = some b →
    s.Branches args b (token.holds (comparedAs (cb.graph.unsigned left) (val left))
      (comparedAs (cb.graph.unsigned left) (val right))) value.successors
  returns : ∀ (j : Nat) parent v, s.instructions[j]? = some ⟨parent, .ret v⟩ →
    cb.ReturnsOperand args val s v

variable {cb args val} {s s' : BuilderState}

theorem ReturnsOperand.append {v : LValue} (returned : cb.ReturnsOperand args val s v)
    (longer : ∃ added, s'.instructions = s.instructions ++ added) :
    cb.ReturnsOperand args val s' v :=
  let ⟨id, value, o, count, operand, found, isReturn, operandFound, computes⟩ := returned
  ⟨id, value, o, count, operand, found, isReturn, operandFound, computes.append longer⟩

/-- Code appended to faithful code keeps it faithful if values stay, blocks are kept, and every
appended `ret` returns a value the graph returns. -/
theorem Faithful.extend (faithful : cb.Faithful args val s)
    (values : s'.llvmValue = s.llvmValue) {added : List LInst}
    (instructions : s'.instructions = s.instructions ++ added)
    (blocks : ∀ b x, s.llvmBasicBlock b = some x → s'.llvmBasicBlock b = some x)
    (returns : ∀ parent v, ⟨parent, .ret v⟩ ∈ added → cb.ReturnsOperand args val s' v) :
    cb.Faithful args val s' := by
  refine ⟨fun id value v found data pinned set =>
      (faithful.values id value v found data pinned (values ▸ set)).append ⟨added, instructions⟩,
    fun id value token left right b found kind integer32 leftOk rightOk flags set =>
      (faithful.branches id value token left right b found kind integer32 leftOk rightOk flags
        (values ▸ set)).append ⟨added, instructions⟩ blocks, fun j parent v inst => ?_⟩
  rw [instructions] at inst
  rcases getElem?_append_some inst with old | new
  · exact (faithful.returns j parent v old).append ⟨added, instructions⟩
  · exact returns parent v new

theorem Faithful.append (faithful : cb.Faithful args val s)
    (values : s'.llvmValue = s.llvmValue) {added : List LInst}
    (instructions : s'.instructions = s.instructions ++ added)
    (blocks : ∀ b x, s.llvmBasicBlock b = some x → s'.llvmBasicBlock b = some x)
    (plain : ∀ inst ∈ added, inst.op.isRet = false) : cb.Faithful args val s' :=
  faithful.extend values instructions blocks fun _ _ member => nomatch plain _ member

theorem Faithful.congr (faithful : cb.Faithful args val s)
    (values : s'.llvmValue = s.llvmValue) (instructions : s'.instructions = s.instructions)
    (blocks : s'.llvmBasicBlock = s.llvmBasicBlock) : cb.Faithful args val s' :=
  faithful.append values (instructions.trans (List.append_nil _).symm) (fun _ _ h => blocks ▸ h)
    fun _ member => absurd member (List.not_mem_nil _)

/-- Nothing is emitted at the start, so the code is faithful there. -/
theorem Faithful.initial (session : LLVMGranularity) :
    cb.Faithful args val (BuilderState.initial cb.graph session) :=
  ⟨fun _ _ _ _ _ _ set => (nomatch set), fun _ _ _ _ _ _ _ _ _ _ _ _ set => (nomatch set),
    fun _ _ _ inst => by simp [BuilderState.initial] at inst⟩

/-- An instruction other than a `ret` keeps the code faithful. -/
theorem Faithful.push (faithful : cb.Faithful args val s) {op : LOp} (plain : op.isRet = false) :
    cb.Faithful args val (s.pushInstruction op) :=
  faithful.append rfl rfl (fun _ _ h => h) fun _ member => by
    rw [List.mem_singleton.mp member]
    exact plain

/-- A `ret` of a value the graph returns keeps the code faithful. -/
theorem Faithful.pushRet (faithful : cb.Faithful args val s) {v : LValue}
    (returned : cb.ReturnsOperand args val s v) :
    cb.Faithful args val (s.pushInstruction (.ret v)) :=
  faithful.extend rfl rfl (fun _ _ h => h) fun _ _ member => by
    cases List.mem_singleton.mp member
    exact returned.append ⟨_, rfl⟩

/-- Setting the value of a data value to one that computes its integer, where `val` gives it one,
keeps the code faithful. -/
theorem Faithful.setData (faithful : cb.Faithful args val s) {id : Nat} {instr : HValue}
    (found : cb.graph.value id = some instr) (data : instr.isControlInstruction = false)
    {v : LValue} (correct : cb.graph.pinned id = true →
      s.Computes args v (instr.representation.encode cb.kSmiShift (val id))) :
    cb.Faithful args val (s.setValue id v) := by
  refine ⟨fun id' value v' found' data' pinned set => ?_,
    fun id' value token left right b found' kind integer32 leftOk rightOk flags set => ?_,
    fun j parent v' inst => (faithful.returns j parent v' inst).append ⟨[], by simp⟩⟩
  · by_cases same : id' = id
    · subst same
      obtain rfl : value = instr := Option.some.inj (found'.symm.trans found)
      obtain rfl : v = v' := by simpa using set
      exact correct pinned
    · simp only [BuilderState.setValue, updateAt_apply, same, if_false] at set
      exact faithful.values id' value v' found' data' pinned set
  · have other : id' ≠ id := by
      rintro rfl
      obtain rfl : value = instr := Option.some.inj (found'.symm.trans found)
      nomatch data.symm.trans (HValue.isControlInstruction_of_opcode kind)
    simp only [BuilderState.setValue, updateAt_apply, other, if_false] at set
    exact faithful.branches id' value token left right b found' kind integer32 leftOk rightOk flags
      set

/-- Setting the value of a control instruction to a branch keeps the code faithful if the branch
is the one its comparison says, when the code decides it. -/
theorem Faithful.setBranch (faithful : cb.Faithful args val s) {id : Nat} {instr : HValue}
    (found : cb.graph.value id = some instr) (control : instr.isControlInstruction = true)
    {b : LValue} (correct : ∀ token left right,
      instr.opcode? = some (.compareNumericAndBranch token left right) →
      instr.representation = .integer32 → cb.graph.comparable val left = true →
      cb.graph.comparable val right = true → cb.graph.unsigned left = cb.graph.unsigned right →
      s.Branches args b (token.holds (comparedAs (cb.graph.unsigned left) (val left))
        (comparedAs (cb.graph.unsigned left) (val right))) instr.successors) :
    cb.Faithful args val (s.setValue id b) := by
  refine ⟨fun id' value v' found' data pinned set => ?_,
    fun id' value token left right b' found' kind integer32 leftOk rightOk flags set => ?_,
    fun j parent v' inst => (faithful.returns j parent v' inst).append ⟨[], by simp⟩⟩
  · have other : id' ≠ id := by
      rintro rfl
      obtain rfl : value = instr := Option.some.inj (found'.symm.trans found)
      rw [control] at data
      cases data
    simp only [BuilderState.setValue, updateAt_apply, other, if_false] at set
    exact faithful.values id' value v' found' data pinned set
  · by_cases same : id' = id
    · subst same
      obtain rfl : value = instr := Option.some.inj (found'.symm.trans found)
      obtain rfl : b = b' := by simpa using set
      exact correct token left right kind integer32 leftOk rightOk flags
    · simp only [BuilderState.setValue, updateAt_apply, same, if_false] at set
      exact faithful.branches id' value token left right b' found' kind integer32 leftOk rightOk
        flags set

/-- An operand that is a data value, which a handler reads, computes its integer through the LLVM
value it has. -/
theorem Faithful.operand (faithful : cb.Faithful args val s) {o : Nat}
    {value : HValue} (found : cb.graph.value o = some value) (data : cb.graph.isData o = true)
    (read : cb.graph.isRead o = true) {v : LValue} (set : s.llvmValue o = some v) :
    s.Computes args v (value.representation.encode cb.kSmiShift (val o)) :=
  faithful.values o value v found (cb.graph.isData_of data found) (by simp [HGraph.pinned, read])
    set

/-! ## Steps

Every step keeps the invariant: creating an instruction adds a word and changes none, a handler
sets its instruction's value to one that computes the instruction's integer, and the other steps
touch neither values nor code.  An abort keeps the state it reached, so the invariant holds
there too. -/

section Steps

variable {A : Abort → BuilderState → Prop}

theorem insert_computes {op : LOp} (plain : op.isRet = false) {x : BitVec 64} :
    Triple (fun s => cb.Faithful args val s ∧ op.result (s.wordOf args) = x) (insert op)
      (fun v s => cb.Faithful args val s ∧ s.Computes args v x) A :=
  .of_modifyGet fun s ⟨faithful, result⟩ =>
    ⟨faithful.push plain, result ▸ s.computes_push args op⟩

theorem insert_keeps {op : LOp} (plain : op.isRet = false) :
    Triple (cb.Faithful args val) (insert op) (fun _ => cb.Faithful args val) A :=
  .of_modifyGet fun _ faithful => faithful.push plain

theorem setLlvmValue_computes {id : Nat} {instr : HValue} (found : cb.graph.value id = some instr)
    (data : instr.isControlInstruction = false) {v : LValue} {x : BitVec 64}
    (correct : x = instr.representation.encode cb.kSmiShift (val id)) :
    Triple (fun s => cb.Faithful args val s ∧ s.Computes args v x) (setLlvmValue id v)
      (fun _ => cb.Faithful args val) A :=
  .of_modify fun _ ⟨computes, word⟩ => computes.setData found data fun _ => correct ▸ word

theorem record_computes (e : Event) :
    Triple (cb.Faithful args val) (record e) (fun _ => cb.Faithful args val) A :=
  .of_modify fun _ computes => computes.congr rfl rfl rfl

/-- `Use(HBasicBlock*)` keeps the invariant, and returns the block's LLVM block. -/
theorem useBlock_computes (block : Nat) :
    Triple (cb.Faithful args val) (useBlock block)
      (fun t s => cb.Faithful args val s ∧ s.llvmBasicBlock block = some t) A := by
  intro s computes
  simp only [useBlock, bind_apply, get_apply]
  cases fresh : s.llvmBasicBlock block with
  | none =>
    refine ⟨computes.append rfl (List.append_nil _).symm (fun b x h => ?_)
      fun _ member => absurd member (List.not_mem_nil _), by simp⟩
    have other : b ≠ block := by rintro rfl; simp_all
    simp [updateAt_apply, other, h]
  | some t => exact ⟨computes, fresh⟩

theorem useBlock_keeps (block : Nat) :
    Triple (cb.Faithful args val) (useBlock block) (fun _ => cb.Faithful args val) A :=
  (useBlock_computes block).weaken (fun _ h => h) (fun _ _ h => h.1) fun _ _ h => h

/-- `TokenToPredicate`: on the words of integers of the `Integer32` range the predicate it
returns holds exactly when the token's comparison of the integers, read unsigned for an
unsigned comparison, does. -/
theorem tokenToPredicate_holds {P : BuilderState → Prop} (aborts : ∀ s, P s → A .unreachable s)
    (token : Token) (unsigned : Bool) {a b : Int} (ha : -2 ^ 31 ≤ a ∧ a < 2 ^ 31)
    (hb : -2 ^ 31 ≤ b ∧ b < 2 ^ 31) :
    Triple P (tokenToPredicate token unsigned) (fun p s => P s ∧
      p.holds (BitVec.ofInt 64 a) (BitVec.ofInt 64 b) =
        token.holds (comparedAs unsigned a) (comparedAs unsigned b)) A := by
  have same := beq_ofInt64 ha hb unsigned
  cases token <;> first | exact .of_throw _ aborts | exact .of_pure _ fun _ h => ⟨h, by
    cases unsigned <;> simp only [CmpPredicate.holds, Token.holds, bne, same, BitVec.slt,
      BitVec.sle, ult_ofInt64 ha hb, ule_ofInt64 ha hb, ult_ofInt64 hb ha, ule_ofInt64 hb ha,
      Bool.false_eq_true, ↓reduceIte, if_true,
      toInt_ofInt64 ha, toInt_ofInt64 hb, comparedAs]⟩

theorem doSimulate_computes (popCount : Nat) (values : List (Option Nat × Nat)) :
    Triple (cb.Faithful args val) (doSimulate popCount values)
      (fun _ => cb.Faithful args val) (fun _ => cb.Faithful args val) := by
  intro s computes
  simp only [doSimulate, bind_apply, get_apply]
  cases s.currentEnvironment
  · exact computes
  · exact computes.congr rfl rfl rfl

/-- `Use` keeps the invariant if the visit of its operand does, and hands out the operand's LLVM
value. -/
theorem useValue_computes {visit : Nat → BuildM Unit} (o : Nat)
    (hvisit : Triple (cb.Faithful args val) (visit o) (fun _ => cb.Faithful args val)
      (fun _ => cb.Faithful args val)) :
    Triple (cb.Faithful args val) (cb.useValue visit o)
      (fun v s => cb.Faithful args val s ∧ s.llvmValue o = some v)
      (fun _ => cb.Faithful args val) := by
  have lookup : Triple (cb.Faithful args val) (do
      let llvmValue ← dchecked ((← get).llvmValue o) "value->llvm_value()"
      record (.use o llvmValue)
      pure llvmValue) (fun v s => cb.Faithful args val s ∧ s.llvmValue o = some v)
      (fun _ => cb.Faithful args val) := by
    intro s computes
    simp only [bind_apply, get_apply]
    cases set : s.llvmValue o with
    | none => exact computes
    | some v => exact ⟨computes.congr rfl rfl rfl, set⟩
  unfold useValue
  exact .bind_resolve (fun _ h => h) fun _ _ => .bind (.of_get fun _ h => h) fun _ =>
    .of_ite (fun _ => .bind hvisit fun _ => lookup) fun _ =>
      .bind (.of_pure _ fun _ h => h) fun _ => lookup

end Steps

/-! ## Handlers

Each handler that sets a value combines the words of its operands as the instruction's equation
combines their integers.  The handlers receive `Use` as `use`, which keeps the invariant, hands
out the operand's LLVM value, and is an instruction step, so that the word of a first operand
survives the `Use` of the second. -/

section Handlers

variable {use : Nat → BuildM LValue}
  (huse : ∀ o, Triple (cb.Faithful args val) (use o)
    (fun v s => cb.Faithful args val s ∧ s.llvmValue o = some v)
    (fun _ => cb.Faithful args val))
  (hstep : ∀ o, Guarantee InstrStep (use o))

include huse hstep in
theorem doAdd_computes {id : Nat} {instr : HValue} {left right : Nat}
    (found : cb.graph.value id = some instr) (data : instr.isControlInstruction = false)
    (solved : val id = val left + val right)
    (leftData : cb.graph.isData left = true) (rightData : cb.graph.isData right = true)
    (leftRead : cb.graph.isRead left = true) (rightRead : cb.graph.isRead right = true) :
    Triple (cb.Faithful args val) (cb.doAdd use id instr left right)
      (fun _ => cb.Faithful args val) (fun _ => cb.Faithful args val) := by
  let word (o : Nat) := instr.representation.encode cb.kSmiShift (val o)
  unfold doAdd
  refine .of_ite (fun _ => ?_) fun _ => .of_throw _ fun _ h => h
  refine .bind_resolve (fun _ h => h) fun leftValue leftFound =>
    .bind_dcheck (fun _ h => h) fun leftRep => .bind_resolve (fun _ h => h)
    fun rightValue rightFound => .bind_dcheck (fun _ h => h) fun rightRep =>
    .bind (huse left) fun l => .bind ((((huse right).frame (hstep right)
      (F := fun s => s.Computes args l (word left)) fun _ _ h step => h.stable step)).weaken
      (fun s ⟨computes, set⟩ => ⟨computes, ?_⟩) (fun _ _ h => h) fun _ _ h => h) fun r =>
    .bind ((insert_computes (by rfl) (x := word left + word right)).weaken
      (fun s ⟨⟨computes, set⟩, leftWord⟩ => ⟨computes, ?_⟩) (fun _ _ h => h) fun _ _ h => h)
      fun v => setLlvmValue_computes found data (by rw [solved, ← Representation.encode_add])
  · have leftRep : leftValue.representation = instr.representation := of_decide_eq_true leftRep
    have leftWord := computes.operand leftFound leftData leftRead set
    rwa [leftRep] at leftWord
  · have rightRep : rightValue.representation = instr.representation := of_decide_eq_true rightRep
    have rightWord := computes.operand rightFound rightData rightRead set
    rw [rightRep] at rightWord
    show s.wordOf args l + s.wordOf args r = _
    rw [leftWord.2, rightWord.2]

/-- `DoSub` and `DoMul` read their operands' LLVM values directly; a value that is set computes
its integer. -/
theorem doBinaryOnValues_computes (op : LValue → LValue → LOp)
    (combine : BitVec 64 → BitVec 64 → BitVec 64)
    (plain : ∀ l r, (op l r).isRet = false)
    (result : ∀ (word : LValue → BitVec 64) l r, (op l r).result word = combine (word l) (word r))
    {id : Nat} {instr : HValue} {left right : Nat} (found : cb.graph.value id = some instr)
    (data : instr.isControlInstruction = false)
    (correct : (instr.representation = .integer32 || instr.representation = .smi) = true →
      combine (instr.representation.encode cb.kSmiShift (val left))
        (instr.representation.encode cb.kSmiShift (val right)) =
      instr.representation.encode cb.kSmiShift (val id))
    (leftData : cb.graph.isData left = true) (rightData : cb.graph.isData right = true)
    (leftRead : cb.graph.isRead left = true) (rightRead : cb.graph.isRead right = true) :
    Triple (cb.Faithful args val) (cb.doBinaryOnValues op id instr left right)
      (fun _ => cb.Faithful args val) (fun _ => cb.Faithful args val) := by
  unfold doBinaryOnValues
  refine .of_ite (fun arithmetic => ?_) fun _ => .of_throw _ fun _ h => h
  refine .bind_resolve (fun _ h => h) fun leftValue leftFound =>
    .bind_dcheck (fun _ h => h) fun leftRep => .bind_resolve (fun _ h => h)
    fun rightValue rightFound => .bind_dcheck (fun _ h => h) fun rightRep =>
    .bind_checked_get (fun _ h => h) fun l => .bind_checked_get (fun _ h => h.1) fun r =>
    .bind ((insert_computes (plain _ _) (x := combine (instr.representation.encode cb.kSmiShift (val left))
      (instr.representation.encode cb.kSmiShift (val right)))).weaken
      (fun s ⟨⟨computes, leftSet⟩, rightSet⟩ => ⟨computes, ?_⟩) (fun _ _ h => h)
      fun _ _ h => h) fun v => setLlvmValue_computes found data (correct arithmetic)
  have leftWord := computes.operand leftFound leftData leftRead leftSet
  have rightWord := computes.operand rightFound rightData rightRead rightSet
  rw [of_decide_eq_true leftRep] at leftWord
  rw [of_decide_eq_true rightRep] at rightWord
  rw [result, leftWord.2, rightWord.2]

section Conversions

variable {x : Nat} {xValue : HValue} (xFound : cb.graph.value x = some xValue)
  (xData : cb.graph.isData x = true) (xRead : cb.graph.isRead x = true)
include huse xFound xData xRead

/-- `SmiToInteger32` of a Smi or tagged value in `[0, 2^32)` computes its `Integer32` word. -/
theorem smiToInteger32_computes (tagged : xValue.representation = .smi ∨
      xValue.representation = .tagged) (low : 0 ≤ val x) (high : val x < 2 ^ 32) :
    Triple (cb.Faithful args val) (cb.smiToInteger32 use x)
      (fun w s => cb.Faithful args val s ∧
        s.Computes args w (Representation.integer32.encode cb.kSmiShift (val x)))
      (fun _ => cb.Faithful args val) := by
  unfold smiToInteger32
  refine .of_ite (fun smi32 => .bind (huse x) fun v => (insert_computes (by rfl)).weaken
    (fun s ⟨computes, set⟩ => ⟨computes, ?_⟩) (fun _ _ h => h) fun _ _ h => h)
    fun _ => .of_throw _ fun _ h => h
  have word := (computes.operand xFound xData xRead set).2
  rw [Representation.encode_of_smi_or_tagged _ _ tagged (.inl rfl)] at word
  show s.wordOf args v >>> cb.kSmiShift = _
  rw [word, kSmiShift_of_smi32 smi32]
  exact ofInt64_ushiftRight low high

/-- `Integer32ToSmi` of an `Integer32` value computes its Smi. -/
theorem integer32ToSmi_computes (integer32 : xValue.representation = .integer32) :
    Triple (cb.Faithful args val) (cb.integer32ToSmi use x)
      (fun w s => cb.Faithful args val s ∧
        s.Computes args w (Representation.smi.encode cb.kSmiShift (val x)))
      (fun _ => cb.Faithful args val) :=
  .bind (huse x) fun v => (insert_computes (by rfl)).weaken (fun s ⟨computes, set⟩ => ⟨computes, by
    have word := (computes.operand xFound xData xRead set).2
    rw [integer32] at word
    show s.wordOf args v <<< cb.kSmiShift = _
    rw [word]
    exact ofInt64_shiftLeft _ _⟩) (fun _ _ h => h) fun _ _ h => h

end Conversions

include huse in
/-- `DoChange` passes a Smi or tagged value on as a Smi or tagged value, converts one to
`Integer32` by `SmiToInteger32` and an `Integer32` value to tagged by `Integer32ToSmi`. -/
theorem doChange_computes {id : Nat} {instr : HValue} {x : Nat}
    {fromRep toRep : Representation} (found : cb.graph.value id = some instr)
    (data : instr.isControlInstruction = false) (solved : val id = val x) (toRepresentation : instr.representation = toRep) {xValue : HValue}
    (xFound : cb.graph.value x = some xValue) (xData : cb.graph.isData x = true)
    (xRead : cb.graph.isRead x = true) (fromRepresentation : xValue.representation = fromRep)
    (inRange : (fromRep = .smi ∨ fromRep = .tagged) → toRep = .integer32 →
      0 ≤ val x ∧ val x < 2 ^ 32) :
    Triple (cb.Faithful args val) (cb.doChange use id instr x fromRep toRep)
      (fun _ => cb.Faithful args val) (fun _ => cb.Faithful args val) := by
  have abort {α : Type} {Q : α → BuilderState → Prop} :
      Triple (cb.Faithful args val) unimplemented Q (fun _ => cb.Faithful args val) :=
    .of_throw _ fun _ h => h
  have passOn (tagged : fromRep = .smi ∨ fromRep = .tagged)
      (tagged' : toRep = .smi ∨ toRep = .tagged) :
      Triple (cb.Faithful args val) (use x >>= fun v => setLlvmValue id v)
        (fun _ => cb.Faithful args val) (fun _ => cb.Faithful args val) :=
    .bind (huse x) fun v => (setLlvmValue_computes found data
      (x := fromRep.encode cb.kSmiShift (val x)) (by
        rw [solved, toRepresentation]
        exact Representation.encode_of_smi_or_tagged _ _ tagged tagged')).weaken
      (fun s ⟨computes, set⟩ => ⟨computes, fromRepresentation ▸ computes.operand xFound xData xRead set⟩)
      (fun _ _ h => h) fun _ _ h => h
  unfold doChange
  refine .of_ite (fun first => ?_) fun _ => .of_ite (fun fromTagged => ?_) fun notTagged => ?_
  · obtain ⟨fromSmi, toTagged⟩ : fromRep = .smi ∧ toRep = .tagged := by simpa using first
    exact passOn (.inl fromSmi) (.inr toTagged)
  · have tagged : fromRep = .smi ∨ fromRep = .tagged := by
      by_cases smi : fromRep = .smi
      · exact .inl smi
      · rw [if_neg smi] at fromTagged
        exact .inr fromTagged
    refine .of_ite (fun _ => abort) fun _ => .of_ite (fun toSmi => passOn tagged (.inl toSmi))
      fun _ => .bind_dcheck (fun _ h => h) fun toInteger32 => ?_
    have toInteger32 : toRep = .integer32 := of_decide_eq_true toInteger32
    obtain ⟨low, high⟩ := inRange tagged toInteger32
    exact .bind (smiToInteger32_computes huse xFound xData xRead (fromRepresentation ▸ tagged) low high)
      fun _ => setLlvmValue_computes found data (by rw [solved, toRepresentation, toInteger32])
  · refine .of_ite (fun _ => abort) fun _ => .of_ite (fun fromInteger32 => ?_)
      fun _ => .of_pure _ fun _ h => h
    have fromInteger32 : fromRep = .integer32 := by
      by_cases smi : fromRep = .smi
      · rw [if_pos smi] at fromInteger32
        cases fromInteger32
      · rwa [if_neg smi] at fromInteger32
    refine .of_ite (fun toTagged => .of_ite (fun _ => .bind (integer32ToSmi_computes huse xFound
      xData xRead (fromRepresentation.trans fromInteger32)) fun _ => setLlvmValue_computes found data
        ?_) fun _ => abort) fun _ => .of_ite (fun _ => abort) fun _ =>
      .bind (.of_dcheck _ _ fun _ h => h) fun _ => abort
    rw [solved, toRepresentation, toTagged]
    exact Representation.encode_of_smi_or_tagged _ _ (.inl rfl) (.inr rfl)

include huse hstep in
/-- `DoCompareNumericAndBranch` of an `Integer32` comparison the code decides branches to the
block of `SuccessorAt(0)` exactly when the token's comparison of the operands' integers holds.
Only an `Integer32` comparison returns, and its value is the conditional branch it inserted
last. -/
theorem doCompareNumericAndBranch_computes {id : Nat} {instr : HValue} {token : Token}
    {left right : Nat} (found : cb.graph.value id = some instr)
    (isCompare : instr.opcode? = some (.compareNumericAndBranch token left right)) :
    Triple (cb.Faithful args val) (cb.doCompareNumericAndBranch use id instr token left right)
      (fun _ s => cb.Faithful args val s ∧ instr.representation = .integer32 ∧
        ∃ j c t f, s.llvmValue id = some (.instruction j) ∧
          s.instructions[j]? = some ⟨s.insertBlock, .condBr c t f⟩)
      (fun _ => cb.Faithful args val) := by
  have sameCompare {token' left' right'} :
      instr.opcode? = some (.compareNumericAndBranch token' left' right') →
        token' = token ∧ left' = left ∧ right' = right := by
    rw [isCompare]; intro same; cases same; exact ⟨rfl, rfl, rfl⟩
  let decided := instr.representation = .integer32 ∧ cb.graph.comparable val left = true ∧
    cb.graph.comparable val right = true ∧ cb.graph.unsigned left = cb.graph.unsigned right
  let unsigned := cb.graph.unsigned left
  let taken := token.holds (comparedAs unsigned (val left)) (comparedAs unsigned (val right))
  unfold doCompareNumericAndBranch
  refine .bind_resolve (fun _ h => h) fun leftValue leftFound =>
    .bind_resolve (fun _ h => h) fun rightValue rightFound =>
    .bind_dcheck (fun _ h => h) fun leftRep => .bind_dcheck (fun _ h => h) fun rightRep =>
    .bind_fact (F := fun p => decided →
      p.holds (BitVec.ofInt 64 (val left)) (BitVec.ofInt 64 (val right)) = taken) ?predicate
    fun p holds => .of_ite (fun _ => .of_throw _ fun _ h => h) fun _ => .of_ite (fun integer32 => ?_)
    fun _ => .bind (.of_dcheck _ _ fun _ h => h) fun _ => .of_throw _ fun _ h => h
  case predicate =>
    by_cases yes : decided
    · obtain ⟨integer32, leftOk, rightOk, flags⟩ := yes
      have flag : (instr.representation = .double || leftValue.uint32 || rightValue.uint32) =
          unsigned := by
        simp only [HGraph.unsigned, leftFound, rightFound, Option.any_some] at flags
        simp [unsigned, HGraph.unsigned, leftFound, integer32, flags]
      rw [flag]
      exact (tokenToPredicate_holds (fun _ h => h) token unsigned (HGraph.comparable_of leftOk).2
        (HGraph.comparable_of rightOk).2).weaken (fun _ h => h) (fun _ _ h => ⟨h.1, fun _ => h.2⟩)
        fun _ _ h => h
    · exact (tokenToPredicate_triple (fun _ _ h _ => h) token _).weaken (fun _ h => h)
        (fun _ _ h => ⟨h, fun decided => absurd decided yes⟩) fun _ _ h => h
  -- an operand of a decided comparison computes the word of its integer
  have operandWord {o : Nat} {value : HValue} (operandFound : cb.graph.value o = some value)
      (used : o ∈ [left, right])
      (rep : decide (value.representation = instr.representation) = true)
      (comparable : cb.graph.comparable val o = true) (yes : decided) {s : BuilderState}
      (faithful : cb.Faithful args val s) {v : LValue} (set : s.llvmValue o = some v) :
      s.Computes args v (BitVec.ofInt 64 (val o)) := by
    have word := faithful.operand operandFound (HGraph.comparable_of comparable).1
      (cb.graph.isRead_of_operand found isCompare (.inl used)) set
    rwa [of_decide_eq_true rep, yes.1] at word
  -- the `icmp` computes whether the comparison holds
  refine .bind (huse left) fun l => .bind ((((huse right).frame (hstep right)
    (F := fun s => decided → s.Computes args l (BitVec.ofInt 64 (val left)))
    fun _ _ h step yes => (h yes).stable step)).weaken (fun s ⟨faithful, set⟩ =>
      ⟨faithful, fun yes => operandWord leftFound (by simp) leftRep yes.2.1 yes faithful set⟩)
    (fun _ _ h => h) fun _ _ h => h) fun r => .bind (Q := fun compare s =>
      cb.Faithful args val s ∧ (decided → s.Computes args compare (if taken then 1 else 0)))
    (.of_modifyGet fun s ⟨⟨faithful, set⟩, leftWord⟩ => ⟨faithful.push rfl, fun yes => by
      have rightWord := operandWord rightFound (by simp) rightRep yes.2.2.1 yes faithful set
      have result : (LOp.iCmp p l r).result (s.wordOf args) = if taken then 1 else 0 := by
        show (if p.holds (s.wordOf args l) (s.wordOf args r) then 1 else 0) = _
        rw [(leftWord yes).2, rightWord.2, holds yes]
      exact result ▸ s.computes_push args _⟩) fun compare => ?_
  -- the branch goes to the blocks of the two successors
  exact .bind_resolve (fun _ h => h.1) fun b₀ first =>
    .bind ((useBlock_computes b₀).frame (useBlock_instrStep b₀)
      (F := fun s => decided → s.Computes args compare (if taken then 1 else 0))
      fun _ _ h step yes => (h yes).stable step) fun t =>
    .bind_resolve (fun _ h => h.1.1) fun b₁ second =>
    .bind (((useBlock_computes b₁).frame (useBlock_instrStep b₁)
      (F := fun s => (decided → s.Computes args compare (if taken then 1 else 0)) ∧
        s.llvmBasicBlock b₀ = some t)
      fun _ _ h step => ⟨fun yes => (h.1 yes).stable step, step.llvmBasicBlock _ _ h.2⟩).weaken
      (fun _ ⟨⟨faithful, toTrue⟩, condition⟩ => ⟨faithful, condition, toTrue⟩)
      (fun _ _ h => h) fun _ _ h => h) fun f =>
    .bind (Q := fun branch s => cb.Faithful args val s ∧
        (decided → s.Branches args branch taken instr.successors) ∧
        ∃ j, branch = .instruction j ∧ s.instructions[j]? = some ⟨s.insertBlock, .condBr compare t f⟩)
      (.of_modifyGet fun s ⟨⟨faithful, toFalse⟩, condition, toTrue⟩ =>
        ⟨faithful.push rfl, fun yes => ⟨s.instructions.length, s.insertBlock, compare, t, f, rfl,
          by simp, (condition yes).append ⟨[_], rfl⟩, by rw [first]; exact toTrue,
          by rw [second]; exact toFalse⟩, s.instructions.length, rfl, by simp⟩)
      fun branch => .of_modify fun _ ⟨faithful, branches, j, isBranch, inserted⟩ =>
        ⟨faithful.setBranch found (HValue.isControlInstruction_of_opcode isCompare)
          fun _ _ _ kind integer32 leftOk rightOk flags => by
            obtain ⟨rfl, rfl, rfl⟩ := sameCompare kind
            exact branches ⟨integer32, leftOk, rightOk, flags⟩,
          integer32, j, compare, t, f, by simp [isBranch], inserted⟩

include huse in
/-- `DoReturn` of a data value emits, into the insertion block, a `ret` of the value's LLVM
value, which computes its integer. -/
theorem doReturn_computes {id : Nat} {instr : HValue} {value count : Nat}
    (found : cb.graph.value id = some instr)
    (isReturn : instr.opcode? = some (.«return» value count)) {operand : HValue}
    (operandFound : cb.graph.value value = some operand)
    (data : operand.isControlInstruction = false) :
    Triple (cb.Faithful args val) (cb.doReturn use value count)
      (fun _ s => cb.Faithful args val s ∧ ∃ v, ⟨s.insertBlock, .ret v⟩ ∈ s.instructions ∧
        s.Computes args v (operand.representation.encode cb.kSmiShift (val value)))
      (fun _ => cb.Faithful args val) := by
  have abort {α : Type} {Q : α → BuilderState → Prop} :
      Triple (cb.Faithful args val) unimplemented Q (fun _ => cb.Faithful args val) :=
    .of_throw _ fun _ h => h
  have emit : Triple (cb.Faithful args val) (do
      dcheck (!cb.info.isStub) "!info()->IsStub()"
      match (← cb.valueAt count).kind with
      | .instruction (.constant _) => discard (insert (.ret (← use value)))
      | _ => unimplemented)
      (fun _ s => cb.Faithful args val s ∧ ∃ v, ⟨s.insertBlock, .ret v⟩ ∈ s.instructions ∧
        s.Computes args v (operand.representation.encode cb.kSmiShift (val value)))
      (fun _ => cb.Faithful args val) :=
    .bind_dcheck (fun _ h => h) fun _ => .bind_resolve (fun _ h => h) fun _ _ => by
      split
      · refine .bind (huse value) fun v => .of_discard (.of_modifyGet fun _ ⟨faithful, set⟩ =>
          have computes := faithful.values value operand v operandFound data
            (by simp [HGraph.pinned, cb.graph.isRead_of_operand (o := value) found isReturn
              (.inl (by simp [HOpcode.usedOperands]))]) set
          ⟨faithful.pushRet ⟨id, instr, value, count, operand, found, isReturn, operandFound,
            computes⟩, v, by simp, computes.append ⟨_, rfl⟩⟩)
      · exact abort
  unfold doReturn
  exact .of_ite (fun _ => .bind abort fun _ => .of_ite (fun _ => .bind abort fun _ => emit)
    fun _ => .bind (.of_pure _ fun _ h => h) fun _ => emit) fun _ =>
    .bind (.of_pure _ fun _ h => h) fun _ => .of_ite (fun _ => .bind abort fun _ => emit)
      fun _ => .bind (.of_pure _ fun _ h => h) fun _ => emit

/-- `DoConstant`'s word for a constant that has an `Integer32Value()` is the encoding of that
integer; for one that has none, `DoConstant` aborts. -/
theorem constantWord_encodes (r : Representation) (constant : HConstantValue) :
    Triple (cb.Faithful args val) (cb.constantWord r constant)
      (fun w s => cb.Faithful args val s ∧
        ∃ k, constant = .integer32 k ∧ w = r.encode cb.kSmiShift k.toInt)
      (fun _ => cb.Faithful args val) := by
  intro s computes
  cases constant with
  | object => cases r <;> exact computes
  | integer32 k =>
    cases r
    case smi => exact ⟨computes, k, rfl, ofInt64_shiftLeft _ _⟩
    case integer32 => exact ⟨computes, k, rfl, rfl⟩
    case tagged =>
      by_cases smi : cb.isSmi k = true
      · simp only [constantWord, smi, if_true]
        exact ⟨computes, k, rfl, ofInt64_shiftLeft _ _⟩
      · simp only [constantWord, smi]
        exact computes
    all_goals exact computes

variable (evaluates : cb.graph.evaluates cb.kSmiShift cb.info.numParameters args val = true)
  (typed : cb.graph.typed val = true)

include huse hstep evaluates typed in
/-- Every handler keeps the invariant: the value it sets computes its instruction's integer. -/
theorem compileToLLVM_computes {id : Nat} {instr : HValue} {opcode : HOpcode}
    (found : cb.graph.value id = some instr) (isInstruction : instr.opcode? = some opcode) :
    Triple (cb.Faithful args val) (cb.compileToLLVM use id instr opcode)
      (fun _ => cb.Faithful args val) (fun _ => cb.Faithful args val) := by
  have solvedOf := cb.graph.solvedBy_of_evaluates evaluates found isInstruction
  have solved (notParameter : ∀ index, opcode ≠ .parameter index) :=
    solvedOf (cb.graph.pinned_of_opcode found isInstruction notParameter)
  have used {o : Nat} (member : o ∈ opcode.usedOperands ∨ o ∈ opcode.readOperands) :=
    cb.graph.isRead_of_operand found isInstruction member
  have typedIn := cb.graph.allInstructions_of typed found isInstruction
  have control := HValue.isControlInstruction_of_opcode isInstruction
  have abort {α : Type} {Q : α → BuilderState → Prop} :
      Triple (cb.Faithful args val) unimplemented Q (fun _ => cb.Faithful args val) :=
    .of_throw _ fun _ h => h
  cases opcode
  case parameter index =>
    intro s computes
    show match cb.doParameter id index s with
      | .ok _ s' => cb.Faithful args val s' | .error _ s' => cb.Faithful args val s'
    rw [doParameter_eq]
    exact computes.setData found control fun pinned =>
      ⟨trivial, by simpa only [HOpcode.solvedBy, beq_iff_eq] using solvedOf pinned⟩
  case constant constant =>
    exact .bind (constantWord_encodes _ _) fun w s ⟨computes, k, constantIs, word⟩ => by
      subst constantIs
      have solved := solved fun _ => nofun
      simp only [HOpcode.solvedBy, beq_iff_eq] at solved
      exact setLlvmValue_computes (A := fun _ => cb.Faithful args val) found control (x := w)
        (by rw [word, solved]) s ⟨computes, trivial, rfl⟩
  case change x fromRep toRep =>
    have solved := solved fun _ => nofun
    simp only [HOpcode.solvedBy, beq_iff_eq] at solved
    obtain ⟨toRepresentation, xRep, xData, inRange⟩ := HOpcode.typedIn_change typedIn
    obtain ⟨xValue, xFound, fromRepresentation⟩ := Option.map_eq_some'.mp xRep
    exact doChange_computes huse found control solved toRepresentation xFound xData
      (used (.inl (by simp [HOpcode.usedOperands]))) fromRepresentation inRange
  case add left right =>
    have solved := solved fun _ => nofun
    simp only [HOpcode.solvedBy, beq_iff_eq] at solved
    simp only [HOpcode.typedIn, Bool.and_eq_true] at typedIn
    exact doAdd_computes huse hstep found control solved typedIn.1 typedIn.2
      (used (.inl (by simp [HOpcode.usedOperands]))) (used (.inl (by simp [HOpcode.usedOperands])))
  case sub left right =>
    have solved := solved fun _ => nofun
    simp only [HOpcode.solvedBy, beq_iff_eq] at solved
    simp only [HOpcode.typedIn, Bool.and_eq_true] at typedIn
    exact doBinaryOnValues_computes .sub HSub.hSub (fun _ _ => rfl) (fun _ _ _ => rfl) found control
      (fun _ => by rw [Representation.encode_sub, solved]) typedIn.1 typedIn.2
      (used (.inr (by simp [HOpcode.readOperands]))) (used (.inr (by simp [HOpcode.readOperands])))
  case mul left right =>
    have solved := solved fun _ => nofun
    simp only [HOpcode.solvedBy, beq_iff_eq] at solved
    simp only [HOpcode.typedIn, Bool.and_eq_true, bne_iff_ne, ne_eq] at typedIn
    refine doBinaryOnValues_computes .mul HMul.hMul (fun _ _ => rfl) (fun _ _ _ => rfl) found control
      (fun arithmetic => ?_) typedIn.1.2 typedIn.2 (used (.inr (by simp [HOpcode.readOperands])))
      (used (.inr (by simp [HOpcode.readOperands])))
    obtain integer32 : instr.representation = .integer32 := by simpa [typedIn.1.1] using arithmetic
    rw [integer32, Representation.encode_mul_integer32, solved]
  case compareNumericAndBranch =>
    exact (doCompareNumericAndBranch_computes huse hstep found isInstruction).weaken
      (fun _ h => h) (fun _ _ h => h.1) fun _ _ h => h
  case «return» value _ =>
    simp only [HOpcode.typedIn] at typedIn
    cases operandFound : cb.graph.value value with
    | none => simp [operandFound] at typedIn
    | some operand =>
      exact (doReturn_computes huse found isInstruction operandFound
        (by simpa [operandFound] using typedIn)).weaken (fun _ h => h) (fun _ _ h => h.1)
        fun _ _ h => h
  case simulate => exact doSimulate_computes _ _
  case blockEntry => exact .of_discard (useBlock_keeps _)
  case context =>
    exact .of_ite (fun _ => .of_pure _ fun _ h => h) fun _ =>
      .of_ite (fun _ => abort) fun _ => .of_pure _ fun _ h => h
  case argumentsObject | stackCheck => exact .of_pure _ fun _ h => h
  all_goals exact abort

end Handlers

/-! ## Runs -/

section Runs

variable (evaluates : cb.graph.evaluates cb.kSmiShift cb.info.numParameters args val = true)
  (typed : cb.graph.typed val = true)
include evaluates typed

/-- Every visit keeps the invariant, at every fuel: the operands it materializes are visits with
less fuel. -/
theorem visitInstruction_computes (fuel : Nat) : ∀ id,
    Triple (cb.Faithful args val) (cb.visitInstruction fuel id)
      (fun _ => cb.Faithful args val) (fun _ => cb.Faithful args val) := by
  induction fuel with
  | zero => exact fun _ => .of_throw _ fun _ h => h
  | succ fuel visit =>
    intro id
    have abort {α : Type} {Q : α → BuilderState → Prop} :
        Triple (cb.Faithful args val) unimplemented Q
          (fun _ => cb.Faithful args val) :=
      .of_throw _ fun _ h => h
    refine .bind (record_computes _) fun _ => .bind_resolve (fun _ h => h) fun current found =>
      .bind_dchecked (fun _ h => h) fun opcode isInstruction => .of_ite (fun _ => ?_) fun _ => ?_
    · split
      · exact abort
      · exact .bind_resolve (fun _ h => h) fun _ _ =>
          .bind (.of_dcheck _ _ fun _ h => h) fun _ => abort
    · split
      · exact .bind (useBlock_keeps _) fun _ => .of_discard (insert_keeps (by rfl))
      · exact compileToLLVM_computes (fun o => useValue_computes o (visit o))
          (useValue_instrStep cb fuel) evaluates typed found isInstruction

/-- The instruction loop of a block keeps the invariant. -/
theorem doInstructions_computes (fuel : Nat) (ids : List Nat) :
    Triple (cb.Faithful args val) (cb.doInstructions fuel ids)
      (fun _ => cb.Faithful args val) (fun _ => cb.Faithful args val) := by
  induction ids with
  | nil => exact .of_pure _ fun _ h => h
  | cons id rest loop =>
    exact .bind (.of_get fun _ h => h) fun _ => .of_ite (fun _ => .of_pure _ fun _ h => h)
      fun _ => .bind_resolve (fun _ h => h) fun _ _ => .of_ite
        (fun _ => .bind (visitInstruction_computes evaluates typed fuel id) fun _ => loop)
        fun _ => .bind (.of_pure _ fun _ h => h) fun _ => loop

/-- `DoBasicBlock` keeps the invariant: binding the block's environment touches neither values
nor code. -/
theorem doBasicBlock_computes (fuel : Nat) (block : HBasicBlock) :
    Triple (cb.Faithful args val) (cb.doBasicBlock fuel block)
      (fun _ => cb.Faithful args val) (fun _ => cb.Faithful args val) :=
  .bind (.of_get fun _ h => h) fun _ => .bind (.of_dcheck _ _ fun _ h => h) fun _ =>
    .bind (useBlock_keeps _) fun _ =>
    .bind (.of_modify fun _ computes => by exact computes.congr rfl rfl rfl) fun _ =>
    .bind (bindEnvironment_envStep (fun _ _ computes step => computes.congr step.llvmValue
      step.instructions step.llvmBasicBlock) (fun _ _ h _ => h) cb block) fun _ =>
    .bind (doInstructions_computes evaluates typed fuel _) fun _ =>
    .of_modify fun _ computes => computes.congr rfl rfl rfl

/-- The block loop of `Build` keeps the invariant. -/
theorem doBlocks_computes (fuel : Nat) (blocks : List HBasicBlock) :
    Triple (cb.Faithful args val) (cb.doBlocks fuel blocks)
      (fun _ => cb.Faithful args val) (fun _ => cb.Faithful args val) := by
  induction blocks with
  | nil => exact .of_pure _ fun _ h => h
  | cons block rest loop =>
    exact .bind (doBasicBlock_computes evaluates typed fuel block) fun _ =>
      .bind (.of_get fun _ h => h) fun _ => .of_ite (fun _ => .of_pure _ fun _ h => h)
        fun _ => loop

/-- `Build` keeps the invariant. -/
theorem build_computes (fuel : Nat) :
    Triple (cb.Faithful args val) (cb.build fuel) (fun _ => cb.Faithful args val)
      (fun _ => cb.Faithful args val) :=
  .bind (.of_modify fun _ computes => by exact computes.congr rfl rfl rfl) fun _ =>
    .bind (doBlocks_computes evaluates typed fuel _) fun _ =>
    .of_ite (fun _ => .of_pure _ fun _ h => h) fun _ =>
    .bind (Q := fun _ => cb.Faithful args val) (.of_pure _ fun _ h => h) fun _ =>
    .bind (.of_modify fun _ computes => by exact computes.congr rfl rfl rfl) fun _ =>
    .bind (.of_get fun _ h => h) fun _ => .of_pure _ fun _ h => h

/-- Every run of `Build` from the start, completed or aborted, ends in a faithful state. -/
theorem build_faithful (fuel : Nat) (session : LLVMGranularity) :
    cb.Faithful args val (finalState (cb.build fuel (BuilderState.initial cb.graph session))) := by
  have final := build_computes evaluates typed fuel _ (Faithful.initial session)
  simp only [finalState]
  split <;> next result => rw [result] at final; exact final

end Runs

/-- The Smi `7` passed as the parameter, converted to `Integer32`, multiplied by the constant
`5`, less the parameter again, converted back to tagged and to Smi, plus the Smi constant `3`,
which is emitted at its use, and returned. -/
def smiArithmetic : HGraph where
  values := [
    { kind := .instruction (.parameter 1), block := 0, representation := .tagged },
    { kind := .instruction (.change 0 .tagged .integer32), block := 0,
      representation := .integer32 },
    { kind := .instruction (.constant (.integer32 5)), block := 0, representation := .integer32 },
    { kind := .instruction (.mul 1 2), block := 0, representation := .integer32 },
    { kind := .instruction (.sub 3 1), block := 0, representation := .integer32 },
    { kind := .instruction (.change 4 .integer32 .tagged), block := 0,
      representation := .tagged },
    { kind := .instruction (.constant (.integer32 3)), block := 0, representation := .smi,
      emitAtUses := true },
    { kind := .instruction (.change 5 .tagged .smi), block := 0, representation := .smi },
    { kind := .instruction (.add 7 6), block := 0, representation := .smi },
    { kind := .instruction (.constant (.integer32 0)), block := 0, representation := .integer32,
      emitAtUses := true },
    { kind := .instruction (.«return» 8 9), block := 0, representation := .tagged }]
  blocks := [{ blockId := 0, isStartBlock := true, instructions := List.range 11 }]

/-- On `smiArithmetic` the build completes, and the function returns the Smi of
`7 * 5 - 7 + 3 = 31`. -/
example : (LLVMChunk.code (LLVMChunk.newChunk ⟨1, false, false⟩ smiArithmetic 2 {})).map
      (fun code => (code.getLast?.map (·.op),
        (evalInstructions (fun k => if k = 2 then BitVec.ofInt 64 (7 * 2 ^ 32) else 0) code)[4]?)) =
    some (some (.ret (.instruction 4)), some (BitVec.ofInt 64 (31 * 2 ^ 32))) := by
  decide

/-- The emitted branches take the successor the graph's comparison says.  For integers `val`
that solve the graph's equations for the argument words `args`, in a graph typed as the
handlers assume, every run of `Build` from the start, completed or aborted, ends with every
`Integer32` comparison of data values whose integers are in the `Integer32` range, both with
the `kUint32` flag or both without, that has an LLVM value, having as value a branch
instruction that goes, when the function runs on `args`, to the LLVM block of `SuccessorAt(0)`
if the token's comparison of the operands' integers, read as unsigned 32-bit integers if the
operands are flagged, holds, and to that of `SuccessorAt(1)` if it does not. -/
theorem build_branches_decided (cb : LLVMChunkBuilder) (args : Nat → BitVec 64)
    (val : Nat → Int)
    (evaluates : cb.graph.evaluates cb.kSmiShift cb.info.numParameters args val = true)
    (typed : cb.graph.typed val = true) (fuel : Nat) (session : LLVMGranularity) :
    let s := finalState (cb.build fuel (BuilderState.initial cb.graph session))
    ∀ id value token left right b, cb.graph.value id = some value →
      value.opcode? = some (.compareNumericAndBranch token left right) →
      value.representation = .integer32 → cb.graph.comparable val left = true →
      cb.graph.comparable val right = true → cb.graph.unsigned left = cb.graph.unsigned right →
      s.llvmValue id = some b →
      ∃ j inst, b = .instruction j ∧ s.instructions[j]? = some inst ∧
        inst.op.successor (·.word args (evalInstructions args s.instructions)) =
          (if token.holds (comparedAs (cb.graph.unsigned left) (val left))
              (comparedAs (cb.graph.unsigned left) (val right)) then value.successors[0]?
            else value.successors[1]?).bind s.llvmBasicBlock :=
  fun id value token left right b found isCompare integer32 leftOk rightOk flags set =>
    ((build_faithful evaluates typed fuel session).branches id value token left right b found
      isCompare integer32 leftOk rightOk flags set).successor

/-- The first parameter, converted to `Integer32`, compared `< 10` with a constant emitted at its
use, branching to two returns. -/
def parameterBelowTen : HGraph where
  values := [
    { kind := .instruction (.parameter 1), block := 0, representation := .tagged },
    { kind := .instruction (.change 0 .tagged .integer32), block := 0,
      representation := .integer32 },
    { kind := .instruction (.constant (.integer32 10)), block := 0, representation := .integer32,
      emitAtUses := true },
    { kind := .instruction (.compareNumericAndBranch .lt 1 2), block := 0,
      representation := .integer32, successors := [1, 2] },
    { kind := .instruction (.«return» 0 2), block := 1, representation := .tagged },
    { kind := .instruction (.«return» 2 2), block := 2, representation := .tagged }]
  blocks := [
    { blockId := 0, isStartBlock := true, instructions := [0, 1, 3] },
    { blockId := 1, predecessors := [0], instructions := [4] },
    { blockId := 2, predecessors := [0], instructions := [5] }]

theorem build_branches_decided_parameterBelowTen :
    let cb : LLVMChunkBuilder := ⟨⟨1, false, false⟩, parameterBelowTen, true⟩
    let args : Nat → BitVec 64 := fun k => if k = 2 then BitVec.ofInt 64 (7 * 2 ^ 32) else 0
    let val : Nat → Int := fun id => [7, 7, 10].getD id 0
    let s := finalState (cb.build 3 (BuilderState.initial cb.graph {}))
    ∀ id value token left right b, cb.graph.value id = some value →
      value.opcode? = some (.compareNumericAndBranch token left right) →
      value.representation = .integer32 → cb.graph.comparable val left = true →
      cb.graph.comparable val right = true → cb.graph.unsigned left = cb.graph.unsigned right →
      s.llvmValue id = some b →
      ∃ j inst, b = .instruction j ∧ s.instructions[j]? = some inst ∧
        inst.op.successor (·.word args (evalInstructions args s.instructions)) =
          (if token.holds (comparedAs (cb.graph.unsigned left) (val left))
              (comparedAs (cb.graph.unsigned left) (val right)) then value.successors[0]?
            else value.successors[1]?).bind s.llvmBasicBlock :=
  build_branches_decided ⟨⟨1, false, false⟩, parameterBelowTen, true⟩ _ _ (by decide) (by decide)
    3 {}

/-- On `parameterBelowTen` with the Smi `7` as parameter the build completes, and the branch of
the comparison `7 < 10` goes to LLVM block `1`, that of `SuccessorAt(0)`. -/
example : (LLVMChunk.code (LLVMChunk.newChunk ⟨1, false, false⟩ parameterBelowTen 3 {})).map
      (fun code => code[2]?.bind fun inst => inst.op.successor (·.word
        (fun k => if k = 2 then BitVec.ofInt 64 (7 * 2 ^ 32) else 0)
        (evalInstructions (fun k => if k = 2 then BitVec.ofInt 64 (7 * 2 ^ 32) else 0) code))) =
    some (some 1) := by
  decide

/-- The `kUint32` constants `-1` and `5` compared `>`, branching to two returns. -/
def unsignedAboveFive : HGraph where
  values := [
    { kind := .instruction (.constant (.integer32 (-1))), block := 0,
      representation := .integer32, uint32 := true },
    { kind := .instruction (.constant (.integer32 5)), block := 0, representation := .integer32,
      uint32 := true },
    { kind := .instruction (.compareNumericAndBranch .gt 0 1), block := 0,
      representation := .integer32, successors := [1, 2] },
    { kind := .instruction (.constant (.integer32 0)), block := 0, representation := .integer32,
      emitAtUses := true },
    { kind := .instruction (.«return» 1 3), block := 1, representation := .tagged },
    { kind := .instruction (.«return» 1 3), block := 2, representation := .tagged }]
  blocks := [
    { blockId := 0, isStartBlock := true, instructions := [0, 1, 2] },
    { blockId := 1, predecessors := [0], instructions := [4] },
    { blockId := 2, predecessors := [0], instructions := [5] }]

/-- Read unsigned, `-1` is `2^32 - 1`, above `5`: the comparison is an `icmp ugt` and the branch
goes to LLVM block `1`, that of `SuccessorAt(0)`. -/
example : (LLVMChunk.code (LLVMChunk.newChunk ⟨0, false, false⟩ unsignedAboveFive 2 {})).map
      (fun code => (code[0]?.map (·.op), code[1]?.bind fun inst =>
        inst.op.successor (·.word (fun _ => 0) (evalInstructions (fun _ => 0) code)))) =
    some (some (.iCmp .icmpUgt (.constantInt (-1)) (.constantInt 5)), some 1) := by
  decide

end LLVMChunkBuilder

end Llv8
