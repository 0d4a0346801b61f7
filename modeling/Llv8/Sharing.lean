import Llv8.Environment

/-!
# Blocks inherit their first predecessor's finished environment

`DoBasicBlock` gives a block with one predecessor that predecessor's environment object, or a
copy of it when the predecessor's other successor comes later, and gives a join its first
predecessor's object itself, into which it writes its phis.  Blocks write into the object they
hold (`DoSimulate`, and a join's phis), so the sharing is sound only if no block writes into an
object that a block still to come will take.

For blocks listed in increasing id order with the start block first and alone, in which every
other block's first predecessor comes earlier and ends in a control instruction with at most two
successors, the block among them and, at a join, only the block (`HGraph.sharingOrdered`), every
block takes the contents its first predecessor's environment had when that predecessor was
finished (`build_inherits_finished`).

Between blocks, the objects that the blocks still to come will take each hold what their
predecessor finished with, and objects of different predecessors differ (`Pending`); the block
being processed holds an object that none of them is (`Taken`).
-/

namespace Llv8

namespace HValue

/-- A control instruction without a second successor has at most one. -/
theorem eq_of_secondSuccessor_none {value : HValue} (none : value.secondSuccessor = none)
    {x y : Nat} (hx : x ∈ value.successors) (hy : y ∈ value.successors) : x = y := by
  have short : value.successors.length ≤ 1 :=
    List.getElem?_eq_none_iff.mp none
  match successors : value.successors, short with
  | [], _ => rw [successors] at hx; cases hx
  | [a], _ =>
    rw [successors, List.mem_singleton] at hx hy
    rw [hx, hy]

/-- The successors of a control instruction with at most two are its first and its second. -/
theorem mem_of_two_successors {value : HValue} (atMostTwo : value.successors.length ≤ 2)
    {first second : Nat} (hfirst : value.firstSuccessor = some first)
    (hsecond : value.secondSuccessor = some second) {x : Nat} (member : x ∈ value.successors) :
    x = first ∨ x = second := by
  unfold firstSuccessor at hfirst
  unfold secondSuccessor at hsecond
  match successors : value.successors, atMostTwo with
  | [], _ | [_], _ => simp [successors] at hsecond
  | [a, b], _ =>
    rw [successors] at hfirst hsecond member
    simp only [List.getElem?_cons_zero, List.getElem?_cons_succ, Option.some.injEq]
      at hfirst hsecond
    simp only [List.mem_cons, List.mem_singleton, List.not_mem_nil, or_false] at member
    rw [← hfirst, ← hsecond]
    exact member

end HValue

namespace HGraph

variable (graph : HGraph)

/-- A block's first predecessor is listed, comes earlier and ends in a control instruction with
at most two successors, among them the block, and only the block if the block is a join. -/
def firstPredecessorOk (block : HBasicBlock) : Bool :=
  match block.predecessors[0]? with
  | none => false
  | some p => match graph.block p with
    | none => false
    | some pred => match pred.end.bind graph.value with
      | none => false
      | some predEnd => decide (p < block.blockId) && decide (predEnd.successors.length ≤ 2) &&
          decide (block.blockId ∈ predEnd.successors) &&
          (block.predecessors.length == 1 || predEnd.successors.all (· == block.blockId))

/-- The graphs for which the share-or-copy decision of `DoBasicBlock` is made: blocks in
increasing id order, only the first a start block, and every other block's first predecessor
as `firstPredecessorOk` asks. -/
def sharingOrdered : Bool :=
  decide ((graph.blocks.map (·.blockId)).Pairwise (· < ·)) &&
    graph.blocks.tail.all (fun block => !block.isStartBlock) &&
    graph.blocks.all fun block => block.isStartBlock || graph.firstPredecessorOk block

/-- What `firstPredecessorOk` says of a block, its first predecessor and that predecessor's
control instruction. -/
structure FirstPredecessor (block pred : HBasicBlock) (predEnd : HValue) : Prop where
  first : block.predecessors[0]? = some pred.blockId
  found : graph.block pred.blockId = some pred
  earlier : pred.blockId < block.blockId
  ends : pred.end.bind graph.value = some predEnd
  atMostTwo : predEnd.successors.length ≤ 2
  successor : block.blockId ∈ predEnd.successors
  onlyJoin : block.predecessors.length ≠ 1 → ∀ x ∈ predEnd.successors, x = block.blockId

variable {graph}

theorem mem_of_block {id : Nat} {block : HBasicBlock} (found : graph.block id = some block) :
    block ∈ graph.blocks ∧ block.blockId = id :=
  ⟨List.mem_of_find?_eq_some found, by simpa using List.find?_some found⟩

namespace FirstPredecessor

variable {block pred pred' : HBasicBlock} {predEnd predEnd' : HValue}

theorem pred_eq (fp : graph.FirstPredecessor block pred predEnd)
    (found : graph.block pred.blockId = some pred') : pred' = pred :=
  Option.some.inj (found.symm.trans fp.found)

theorem end_eq (fp : graph.FirstPredecessor block pred predEnd) {e : Nat}
    (foundEnd : pred.end = some e) (foundValue : graph.value e = some predEnd') :
    predEnd' = predEnd := by
  have ends := fp.ends
  rw [foundEnd, Option.some_bind, foundValue] at ends
  exact Option.some.inj ends

end FirstPredecessor

section Ordered

variable (ordered : graph.sharingOrdered = true)
include ordered

theorem sorted_of_sharingOrdered : graph.blocks.Pairwise (·.blockId < ·.blockId) := by
  simp only [sharingOrdered, Bool.and_eq_true, decide_eq_true_eq] at ordered
  exact List.pairwise_map.mp ordered.1.1

theorem not_start_of_tail {block : HBasicBlock} (member : block ∈ graph.blocks.tail) :
    block.isStartBlock = false := by
  simp only [sharingOrdered, Bool.and_eq_true, List.all_eq_true, Bool.not_eq_true'] at ordered
  exact ordered.1.2 block member

theorem firstPredecessor_of {block : HBasicBlock} (member : block ∈ graph.blocks)
    (notStart : block.isStartBlock = false) :
    ∃ pred predEnd, graph.FirstPredecessor block pred predEnd := by
  simp only [sharingOrdered, Bool.and_eq_true, List.all_eq_true] at ordered
  have ok := ordered.2 block member
  simp only [notStart, Bool.false_or, firstPredecessorOk] at ok
  split at ok
  · cases ok
  next p first =>
    split at ok
    · cases ok
    next pred found =>
      obtain ⟨-, same⟩ := mem_of_block found
      split at ok
      · cases ok
      next predEnd ends =>
        simp only [Bool.and_eq_true, decide_eq_true_eq, Bool.or_eq_true, beq_iff_eq,
          List.all_eq_true] at ok
        obtain ⟨⟨⟨earlier, atMostTwo⟩, successor⟩, onlyJoin⟩ := ok
        subst same
        exact ⟨pred, predEnd, first, found, earlier, ends, atMostTwo, successor,
          fun join => onlyJoin.resolve_left join⟩

variable {done rest : List HBasicBlock} {c : HBasicBlock}
  (order : done ++ c :: rest = graph.blocks)
include order

/-- Blocks before the one being processed have smaller ids, blocks after it larger ones. -/
theorem ids_around :
    (∀ p ∈ done, p.blockId < c.blockId) ∧ ∀ b ∈ rest, c.blockId < b.blockId := by
  have sorted := sorted_of_sharingOrdered ordered
  rw [← order, List.pairwise_append, List.pairwise_cons] at sorted
  exact ⟨fun p member => sorted.2.2 p member c (List.mem_cons_self _ _), sorted.2.1.1⟩

theorem done_nil_of_start (start : c.isStartBlock = true) : done = [] := by
  cases done with
  | nil => rfl
  | cons d ds =>
    have member : c ∈ graph.blocks.tail := by simp [← order]
    rw [not_start_of_tail ordered member] at start
    cases start

theorem not_start_of_rest {b : HBasicBlock} (member : b ∈ rest) : b.isStartBlock = false := by
  apply not_start_of_tail ordered
  cases done <;> simp [← order, member]

theorem mem_done_of_lt {p : HBasicBlock} (member : p ∈ graph.blocks)
    (earlier : p.blockId < c.blockId) : p ∈ done := by
  rw [← order] at member
  rcases List.mem_append.mp member with old | next
  · exact old
  · rcases List.mem_cons.mp next with same | later
    · subst same
      exact absurd earlier (lt_irrefl _)
    · exact absurd ((ids_around ordered order).2 p later) (lt_asymm earlier)

/-- A block still to come whose first predecessor is `c`'s is a successor of that predecessor's
control instruction. -/
theorem FirstPredecessor.successor_of_rest {pred : HBasicBlock} {predEnd : HValue}
    (fp : graph.FirstPredecessor c pred predEnd) {b : HBasicBlock} (member : b ∈ rest)
    (first : b.predecessors[0]? = some pred.blockId) : b.blockId ∈ predEnd.successors := by
  obtain ⟨pred', predEnd', fp'⟩ := firstPredecessor_of ordered (by simp [← order, member])
    (not_start_of_rest ordered order member)
  have sameId : pred'.blockId = pred.blockId := Option.some.inj (fp'.first.symm.trans first)
  have samePred := fp.pred_eq (sameId ▸ fp'.found)
  subst samePred
  have ends := fp'.ends
  rw [fp.ends] at ends
  exact Option.some.inj ends ▸ fp'.successor

end Ordered

end HGraph

/-! ## The objects blocks still to come will take -/

section Invariants

variable (done rest : List HBasicBlock) (s : BuilderState)

/-- `address` is the object of a finished first predecessor of a block still to come. -/
def PendingAddress (address : Nat) : Prop :=
  ∃ b ∈ rest, ∃ p ∈ done, b.predecessors[0]? = some p.blockId ∧
    s.lastEnvironment p.blockId = some address

/-- Each block still to come whose first predecessor is finished will find an allocated object
that holds what the predecessor finished with, and different such predecessors hold different
objects. -/
structure Pending : Prop where
  held : ∀ b ∈ rest, ∀ p ∈ done, b.predecessors[0]? = some p.blockId →
    ∃ address contents, s.lastEnvironment p.blockId = some address ∧
      address < s.environmentCount ∧ s.finishedEnvironment p.blockId = some contents ∧
        s.environments address = contents
  unshared : ∀ b ∈ rest, ∀ p ∈ done, b.predecessors[0]? = some p.blockId →
    ∀ b' ∈ rest, ∀ p' ∈ done, b'.predecessors[0]? = some p'.blockId →
      s.lastEnvironment p.blockId = s.lastEnvironment p'.blockId → p.blockId = p'.blockId

/-- Every block that took contents is one of `entered`, and took what its first predecessor, one
of `finished`, finished with. -/
def Recorded (entered finished : List HBasicBlock) : Prop :=
  ∀ b contents, s.inheritedEnvironment b = some contents →
    ∃ block ∈ entered, block.blockId = b ∧ ∃ pred ∈ finished,
      block.predecessors[0]? = some pred.blockId ∧
        s.finishedEnvironment pred.blockId = some contents

/-- The state between blocks, `done` processed and `rest` to come. -/
structure Between : Prop where
  pending : Pending done rest s
  recorded : Recorded s done done
  taken : ∀ b ∈ done, b.isStartBlock = false → s.inheritedEnvironment b.blockId ≠ none
  notAborted : s.status ≠ .aborted
  allocated : 0 < s.environmentCount

variable (c : HBasicBlock) (chosen : Nat)

/-- The state once `c` is entered, before it takes an object. -/
def Entered : Prop := Between done (c :: rest) s ∧ s.currentBlock = some c.blockId

/-- The state once `c` has taken the object `chosen`, which no block still to come will take. -/
structure Taken : Prop where
  pending : Pending done rest s
  recorded : Recorded s (done ++ [c]) done
  taken : ∀ b ∈ done ++ [c], b.isStartBlock = false →
    s.inheritedEnvironment b.blockId ≠ none
  notAborted : s.status ≠ .aborted
  current : s.currentBlock = some c.blockId
  below : chosen < s.environmentCount
  unpending : ¬PendingAddress done rest s chosen

/-- The state while `c`'s instructions are visited: `c` points at the object it took. -/
def Within : Prop :=
  ∃ chosen, Taken done rest s c chosen ∧ s.lastEnvironment c.blockId = some chosen

/-- The state while `c` chooses its object: `pred` is its finished first predecessor, and
`chosen` an allocated object that holds what `pred` finished with and no block still to come
will take. -/
structure Choosing (pred : HBasicBlock) : Prop where
  entered : Entered done rest s c
  predDone : pred ∈ done
  first : c.predecessors[0]? = some pred.blockId
  below : chosen < s.environmentCount
  unpending : ¬PendingAddress done rest s chosen
  finished : s.finishedEnvironment pred.blockId = some (s.environments chosen)

end Invariants

section Frames

variable {done rest : List HBasicBlock} {c : HBasicBlock} {chosen : Nat} {s t : BuilderState}

theorem Recorded.mono {entered finished entered' finished' : List HBasicBlock}
    (recorded : Recorded s entered finished) (enteredSub : entered ⊆ entered')
    (finishedSub : finished ⊆ finished') : Recorded s entered' finished' := by
  intro b contents found
  obtain ⟨block, member, same, pred, predMember, first, fin⟩ := recorded b contents found
  exact ⟨block, enteredSub member, same, pred, finishedSub predMember, first, fin⟩

theorem Recorded.congr {entered finished : List HBasicBlock}
    (recorded : Recorded s entered finished)
    (inherited : t.inheritedEnvironment = s.inheritedEnvironment)
    (finishedEq : t.finishedEnvironment = s.finishedEnvironment) : Recorded t entered finished := by
  rw [Recorded, inherited, finishedEq]
  exact recorded

theorem PendingAddress.back {address : Nat} (pending : PendingAddress done rest t address)
    (pointers : ∀ p ∈ done, t.lastEnvironment p.blockId = s.lastEnvironment p.blockId) :
    PendingAddress done rest s address := by
  obtain ⟨b, member, p, predMember, first, pointer⟩ := pending
  exact ⟨b, member, p, predMember, first, (pointers p predMember).symm.trans pointer⟩

theorem Pending.tail (pending : Pending done (c :: rest) s) : Pending done rest s :=
  ⟨fun b member => pending.held b (List.mem_cons_of_mem _ member),
    fun b member p predMember first b' member' =>
      pending.unshared b (List.mem_cons_of_mem _ member) p predMember first b'
        (List.mem_cons_of_mem _ member')⟩

theorem Pending.frame (pending : Pending done rest s)
    (pointers : ∀ p ∈ done, t.lastEnvironment p.blockId = s.lastEnvironment p.blockId)
    (contents : ∀ address, PendingAddress done rest s address →
      t.environments address = s.environments address)
    (count : s.environmentCount ≤ t.environmentCount)
    (finished : ∀ p ∈ done, t.finishedEnvironment p.blockId = s.finishedEnvironment p.blockId) :
    Pending done rest t := by
  constructor
  · intro b member p predMember first
    obtain ⟨address, held, pointer, below, fin, env⟩ := pending.held b member p predMember first
    exact ⟨address, held, (pointers p predMember).trans pointer, lt_of_lt_of_le below count,
      (finished p predMember).trans fin,
      (contents address ⟨b, member, p, predMember, first, pointer⟩).trans env⟩
  · intro b member p predMember first b' member' p' predMember' first' same
    rw [pointers p predMember, pointers p' predMember'] at same
    exact pending.unshared b member p predMember first b' member' p' predMember' first' same

theorem Between.frame (between : Between done rest s)
    (pointers : ∀ p ∈ done, t.lastEnvironment p.blockId = s.lastEnvironment p.blockId)
    (contents : ∀ address, PendingAddress done rest s address →
      t.environments address = s.environments address)
    (count : s.environmentCount ≤ t.environmentCount)
    (finished : t.finishedEnvironment = s.finishedEnvironment)
    (inherited : t.inheritedEnvironment = s.inheritedEnvironment) (status : t.status = s.status) :
    Between done rest t :=
  ⟨between.pending.frame pointers contents count fun _ _ => congrFun finished _,
    between.recorded.congr inherited finished,
    fun b member notStart => inherited ▸ between.taken b member notStart,
    status ▸ between.notAborted, lt_of_lt_of_le between.allocated count⟩

theorem Taken.frame (taken : Taken done rest s c chosen)
    (pointers : ∀ p ∈ done, t.lastEnvironment p.blockId = s.lastEnvironment p.blockId)
    (contents : ∀ address, PendingAddress done rest s address →
      t.environments address = s.environments address)
    (count : s.environmentCount ≤ t.environmentCount)
    (finished : t.finishedEnvironment = s.finishedEnvironment)
    (inherited : t.inheritedEnvironment = s.inheritedEnvironment) (status : t.status = s.status)
    (current : t.currentBlock = s.currentBlock) : Taken done rest t c chosen :=
  ⟨taken.pending.frame pointers contents count fun _ _ => congrFun finished _,
    taken.recorded.congr inherited finished,
    fun b member notStart => inherited ▸ taken.taken b member notStart,
    status ▸ taken.notAborted, current ▸ taken.current, lt_of_lt_of_le taken.below count,
    fun pending => taken.unpending (pending.back pointers)⟩

/-- A step that leaves the environment heap, the pointers and the records alone keeps the state
while a block's instructions are visited. -/
theorem Within.quiet (within : Within done rest s c)
    (pointers : t.lastEnvironment = s.lastEnvironment) (heap : t.environments = s.environments)
    (count : t.environmentCount = s.environmentCount)
    (finished : t.finishedEnvironment = s.finishedEnvironment)
    (inherited : t.inheritedEnvironment = s.inheritedEnvironment) (status : t.status = s.status)
    (current : t.currentBlock = s.currentBlock) : Within done rest t c := by
  obtain ⟨chosen, taken, own⟩ := within
  exact ⟨chosen, taken.frame (fun _ _ => congrFun pointers _) (fun _ _ => congrFun heap _)
    count.ge finished inherited status current, pointers ▸ own⟩

/-- Visiting an instruction writes at most into the object the block took. -/
theorem Within.instrStep (within : Within done rest s c) (step : InstrStep s t) :
    Within done rest t c := by
  obtain ⟨chosen, taken, own⟩ := within
  have current : s.currentEnvironment = some chosen := by
    rw [BuilderState.currentEnvironment, taken.current]
    exact own
  refine ⟨chosen, taken.frame (fun _ _ => congrFun step.lastEnvironment _)
    (fun address pending => step.environments address ?_) step.environmentCount.ge
    step.finishedEnvironment step.inheritedEnvironment step.status step.currentBlock,
    step.lastEnvironment ▸ own⟩
  rw [current]
  rintro ⟨⟩
  exact taken.unpending pending

/-- Writing into the object the block took. -/
theorem Taken.write (taken : Taken done rest s c chosen) (contents : List Nat) :
    Taken done rest (s.writeEnvironment chosen contents) c chosen :=
  taken.frame (fun _ _ => rfl)
    (fun _ pending => if_neg (by rintro rfl; exact taken.unpending pending)) le_rfl rfl rfl rfl rfl

/-- Pointing the block at the object it took. -/
theorem Taken.update (taken : Taken done rest s c chosen)
    (fresh : ∀ p ∈ done, p.blockId < c.blockId) :
    Within done rest (s.setLastEnvironment c.blockId chosen) c :=
  ⟨chosen, taken.frame (fun p member => if_neg (fresh p member).ne) (fun _ _ => rfl) le_rfl rfl
    rfl rfl rfl, updateAt_same _ _ _⟩

/-- Noting the contents the block takes. -/
theorem Choosing.take {pred : HBasicBlock} (choosing : Choosing done rest s c chosen pred) :
    Taken done rest (s.recordInherited c.blockId (s.environments chosen)) c chosen := by
  obtain ⟨⟨between, current⟩, predDone, first, below, unpending, finished⟩ := choosing
  refine ⟨between.pending.tail.frame (fun _ _ => rfl) (fun _ _ => rfl) le_rfl (fun _ _ => rfl),
    fun b contents found => ?_, fun b member notStart => ?_,
    between.notAborted, current, below, unpending⟩
  · simp only [BuilderState.recordInherited, updateAt_apply] at found
    split at found
    · next same =>
      rw [← Option.some.inj found]
      exact ⟨c, by simp, same.symm, pred, predDone, first, finished⟩
    · obtain ⟨block, member, same, pred, predMember, first, fin⟩ :=
        between.recorded b contents found
      exact ⟨block, List.mem_append_left _ member, same, pred, predMember, first, fin⟩
  · simp only [BuilderState.recordInherited, updateAt_apply]
    split
    · nofun
    · next other =>
      rcases List.mem_append.mp member with old | new
      · exact between.taken b old notStart
      · rw [List.mem_singleton] at new
        exact absurd (congrArg HBasicBlock.blockId new) other

/-- A fresh copy of the predecessor's object is safe to take. -/
theorem Entered.choosing_of_copy {pred : HBasicBlock} {address : Nat}
    (entered : Entered done rest s c) (predDone : pred ∈ done)
    (first : c.predecessors[0]? = some pred.blockId)
    (pointer : s.lastEnvironment pred.blockId = some address) :
    Choosing done rest (s.allocEnvironment address) c s.environmentCount pred := by
  obtain ⟨between, current⟩ := entered
  have belowCount (a : Nat) (pending : PendingAddress done (c :: rest) s a) :
      a < s.environmentCount := by
    obtain ⟨b, member, p, pMember, first, pointerP⟩ := pending
    obtain ⟨a', contents, pointer', below, -⟩ := between.pending.held b member p pMember first
    rw [pointerP] at pointer'
    cases pointer'
    exact below
  obtain ⟨address', contents, pointer', -, fin, env⟩ :=
    between.pending.held c (List.mem_cons_self _ _) pred predDone first
  rw [pointer] at pointer'
  cases pointer'
  refine ⟨⟨between.frame (fun _ _ => rfl) (fun a pending => if_neg (belowCount a pending).ne)
    (Nat.le_succ _) rfl rfl rfl, current⟩, predDone, first, Nat.lt_succ_self _, fun pending => ?_,
    by simp [fin, env]⟩
  obtain ⟨b, member, p, pMember, first, pointerP⟩ := pending
  exact lt_irrefl _
    (belowCount _ ⟨b, List.mem_cons_of_mem _ member, p, pMember, first, pointerP⟩)

/-- The start block takes the start environment. -/
theorem Entered.taken_start (entered : Entered [] rest s c) (start : c.isStartBlock = true) :
    Taken [] rest s c startEnvironmentAddress := by
  obtain ⟨between, current⟩ := entered
  refine ⟨⟨nofun, nofun⟩, between.recorded.mono (List.nil_subset _) (List.Subset.refl _),
    fun b member notStart => ?_, between.notAborted, current, between.allocated,
    fun ⟨_, _, _, member, _⟩ => nomatch member⟩
  rw [List.nil_append, List.mem_singleton] at member
  subst member
  rw [start] at notStart
  cases notStart

section Order

variable {blocks : List HBasicBlock} (order : done ++ c :: rest = blocks)
include order

theorem Between.recorded_all (between : Between done (c :: rest) s) : Recorded s blocks blocks :=
  between.recorded.mono (fun _ member => by simp [← order, member])
    fun _ member => by simp [← order, member]

theorem Taken.recorded_all (taken : Taken done rest s c chosen) : Recorded s blocks blocks := by
  refine taken.recorded.mono (fun b member => ?_) fun _ member => by simp [← order, member]
  rw [← order]
  simp only [List.mem_append, List.mem_singleton, List.mem_cons] at member ⊢
  tauto

end Order

end Frames

/-- Leaving a block records what its object holds; the blocks still to come that take it find
it there. -/
theorem Within.leave {done rest : List HBasicBlock} {c : HBasicBlock} {s : BuilderState}
    (within : Within done rest s c) (fresh : ∀ p ∈ done, p.blockId < c.blockId) :
    Between (done ++ [c]) rest (s.leaveBlock c.blockId) := by
  obtain ⟨chosen, ⟨pending, recorded, taken, notAborted, -, below, unpending⟩, own⟩ :=
    within
  have finishedOld (p : HBasicBlock) (member : p ∈ done) :
      (s.leaveBlock c.blockId).finishedEnvironment p.blockId = s.finishedEnvironment p.blockId :=
    if_neg (fresh p member).ne
  have finishedOwn : (s.leaveBlock c.blockId).finishedEnvironment c.blockId =
      some (s.environments chosen) := by
    simp [own]
  have mine {p : HBasicBlock} (member : p ∈ done ++ [c]) : p ∈ done ∨ p = c := by
    simpa using member
  refine ⟨⟨fun b member p predMember first => ?_, fun b member p predMember first b' member' p'
    predMember' first' same => ?_⟩, fun b contents found => ?_, taken, notAborted,
    lt_of_le_of_lt (Nat.zero_le _) below⟩
  · rcases mine predMember with old | rfl
    · obtain ⟨address, contents, pointer, below', fin, env⟩ :=
        pending.held b member p old first
      exact ⟨address, contents, pointer, below', (finishedOld p old).trans fin, env⟩
    · exact ⟨chosen, _, own, below, finishedOwn, rfl⟩
  · rcases mine predMember with old | rfl <;> rcases mine predMember' with old' | rfl
    · exact pending.unshared b member p old first b' member' p' old' first' same
    · exact absurd ⟨b, member, p, old, first, same.trans own⟩ unpending
    · exact absurd ⟨b', member', p', old', first', same.symm.trans own⟩ unpending
    · rfl
  · obtain ⟨block, member, same, pred, predMember, first, fin⟩ := recorded b contents found
    exact ⟨block, member, same, pred, List.mem_append_left _ predMember, first,
      (finishedOld pred predMember).trans fin⟩

/-! ## One block -/

namespace LLVMChunkBuilder

/-- The lookups of a block's first predecessor find it. -/
theorem bind_firstPredecessor {β : Type} (cb : LLVMChunkBuilder) {c pred : HBasicBlock}
    {predEnd : HValue} (fp : cb.graph.FirstPredecessor c pred predEnd) {P : BuilderState → Prop}
    {R : β → BuilderState → Prop} {A : Abort → BuilderState → Prop} {f : HBasicBlock → BuildM β}
    (aborts : ∀ e s, P s → A e s) (rest : Triple P (f pred) R A) :
    Triple P (dchecked c.predecessors[0]? "index < length()" >>= fun p => cb.blockAt p >>= f) R A :=
  .bind_dchecked (aborts _) fun p first => .bind_resolve (aborts _) fun pred' found => by
    rw [fp.first, Option.some.injEq] at first
    subst first
    exact fp.pred_eq found ▸ rest

section Blocks

/-- The abort predicate: every block that took contents took its first predecessor's. -/
abbrev SharedAbort (cb : LLVMChunkBuilder) (_ : Abort) (s : BuilderState) : Prop :=
  Recorded s cb.graph.blocks cb.graph.blocks

variable (cb : LLVMChunkBuilder) (ordered : cb.graph.sharingOrdered = true)
  {done rest : List HBasicBlock} {c : HBasicBlock} (order : done ++ c :: rest = cb.graph.blocks)
include ordered order

/-- A shared object is safe to take when no block still to come is a successor of the
predecessor's control instruction. -/
theorem choosing_of_share {s : BuilderState} (entered : Entered done rest s c)
    {pred : HBasicBlock} {predEnd : HValue} (fp : cb.graph.FirstPredecessor c pred predEnd)
    (predDone : pred ∈ done) {address : Nat}
    (pointer : s.lastEnvironment pred.blockId = some address)
    (noLater : ∀ x ∈ predEnd.successors, x ≤ c.blockId) :
    Choosing done rest s c address pred := by
  have between := entered.1
  obtain ⟨address', contents, pointer', below, fin, env⟩ :=
    between.pending.held c (List.mem_cons_self _ _) pred predDone fp.first
  rw [pointer] at pointer'
  cases pointer'
  refine ⟨entered, predDone, fp.first, below, ?_, by rw [fin, env]⟩
  rintro ⟨b, member, p, pMember, first, pointerP⟩
  have samePred := between.pending.unshared c (List.mem_cons_self _ _) pred predDone fp.first b
    (List.mem_cons_of_mem _ member) p pMember first (pointer.trans pointerP.symm)
  have successor := fp.successor_of_rest ordered order member (samePred ▸ first)
  exact absurd (noLater _ successor) (not_le.mpr ((HGraph.ids_around ordered order).2 b member))

/-- Binding a block's environment makes it hold an object no block still to come will take, with
the contents its first predecessor finished with noted. -/
theorem bindEnvironment_shares :
    Triple (Entered done rest · c) (cb.bindEnvironment c) (fun _ s => Within done rest s c)
      (SharedAbort cb) := by
  obtain ⟨fresh, -⟩ := HGraph.ids_around ordered order
  have aborts (e : Abort) (s : BuilderState) (entered : Entered done rest s c) :
      SharedAbort cb e s :=
    entered.1.recorded_all order
  have withinAborts (e : Abort) (s : BuilderState) (within : Within done rest s c) :
      SharedAbort cb e s :=
    within.elim fun _ taken => taken.1.recorded_all order
  have finish (count : BuilderState → Int) : Triple (fun s => Within done rest s c)
      (modify fun s => s.setArgumentCount (count s)) (fun _ s => Within done rest s c)
      (SharedAbort cb) :=
    .of_modify fun _ within => within.quiet rfl rfl rfl rfl rfl rfl rfl
  have update (address : Nat) : Triple (fun s => Taken done rest s c address)
      (updateEnvironment c.blockId address) (fun _ s => Within done rest s c) (SharedAbort cb) :=
    .of_modify fun _ taken => taken.update fresh
  unfold bindEnvironment
  refine .of_ite (fun start => ?_) fun notStart => ?_
  · obtain rfl := HGraph.done_nil_of_start ordered order start
    exact .bind (update _ |>.weaken (fun _ entered => entered.taken_start start)
      (fun _ _ h => h) fun _ _ h => h) fun _ => finish _
  have member : c ∈ cb.graph.blocks := by simp [← order]
  obtain ⟨pred₀, predEnd₀, fp⟩ :=
    HGraph.firstPredecessor_of ordered member (by simpa using notStart)
  have predDone : pred₀ ∈ done :=
    HGraph.mem_done_of_lt ordered order (HGraph.mem_of_block fp.found).1 fp.earlier
  have chosen (address : Nat) : Triple (fun s => Choosing done rest s c address pred₀) (do
      modify fun s => s.recordInherited c.blockId (s.environments address)
      updateEnvironment c.blockId address
      let count := (← get).blockArgumentCount pred₀.blockId
      dcheck (count ≥ 0) "pred->argument_count() >= 0"
      modify (·.setArgumentCount count)) (fun _ s => Within done rest s c) (SharedAbort cb) :=
    .bind (Q := fun _ s => Taken done rest s c address) (.of_modify fun _ choosing =>
      choosing.take) fun _ => .bind (update address) fun _ =>
      .bind (.of_get fun _ h => h) fun _ => .bind (.of_dcheck _ _ (withinAborts _)) fun _ =>
      finish _
  refine .of_ite (fun single => ?_) fun join => ?_
  · refine .bind (.of_dcheck _ _ (aborts _)) fun _ => bind_firstPredecessor cb fp aborts ?_
    refine .bind (Q := fun s₁ s => Entered done rest s c ∧ s₁ = s)
      (.of_get fun _ h => ⟨h, rfl⟩) fun s₁ => .bind_dchecked (fun s h => aborts _ s h.1)
      fun address pointer => .bind_resolve (fun s h => aborts _ s h.1) fun e foundEnd =>
      .bind_resolve (fun s h => aborts _ s h.1) fun predEnd foundValue => ?_
    obtain rfl := (fp.end_eq foundEnd foundValue).symm
    have share (noLater : ∀ x ∈ predEnd₀.successors, x ≤ c.blockId) :
        Triple (fun s => Entered done rest s c ∧ s₁ = s) (pure address)
          (fun a s => Choosing done rest s c a pred₀) (SharedAbort cb) :=
      .of_pure _ fun _ ⟨entered, same⟩ =>
        choosing_of_share cb ordered order entered fp predDone (same ▸ pointer) noLater
    split
    · next none =>
      exact .bind (.of_dcheck _ _ fun s h => aborts _ s h.1) fun _ =>
        .bind (share fun x successor =>
          (HValue.eq_of_secondSuccessor_none none successor fp.successor).le) fun _ => chosen _
    · next second hsecond =>
      refine .bind_resolve (fun s h => aborts _ s h.1) fun first hfirst => .of_ite (fun _ =>
        .bind (.of_modifyGet fun _ ⟨entered, same⟩ =>
          entered.choosing_of_copy predDone fp.first (same ▸ pointer)) fun _ => chosen _)
        fun notLater => .bind (share fun x successor => ?_) fun _ => chosen _
      simp only [Bool.or_eq_true, decide_eq_true_eq, not_or, not_lt] at notLater
      rcases HValue.mem_of_two_successors fp.atMostTwo hfirst hsecond successor with rfl | rfl
      · exact notLater.1
      · exact notLater.2
  · refine bind_firstPredecessor cb fp aborts ?_
    refine .bind (Q := fun s₁ s => Entered done rest s c ∧ s₁ = s)
      (.of_get fun _ h => ⟨h, rfl⟩) fun s₁ => .bind_resolve (fun s h => aborts _ s h.1)
      fun address pointer => ?_
    have throws (e : Abort) (s : BuilderState) (taken : Taken done rest s c address)
        (_ : e.ofHandler = true) : SharedAbort cb e s :=
      taken.recorded_all order
    have writes (s : BuilderState) (contents : List Nat) (taken : Taken done rest s c address) :
        Taken done rest (s.writeEnvironment address contents) c address :=
      taken.write contents
    exact .bind (Q := fun _ s => Taken done rest s c address) (.of_modify
      fun _ ⟨entered, same⟩ => (choosing_of_share cb ordered order entered fp predDone
        (same ▸ pointer) fun x successor => (fp.onlyJoin join x successor).le).take) fun _ =>
      .bind (setPhis_writes throws cb writes _) fun _ =>
      .bind (clearDeletedPhis_writes throws cb writes _) fun _ =>
      .bind (update address) fun _ => finish _

/-- Processing a block keeps, between blocks, the objects of the blocks still to come. -/
theorem doBasicBlock_shares (fuel : Nat) :
    Triple (fun s => Between done (c :: rest) s ∧ s.currentBlock = none) (cb.doBasicBlock fuel c)
      (fun _ s => Between (done ++ [c]) rest s ∧ s.currentBlock = none) (SharedAbort cb) := by
  obtain ⟨fresh, -⟩ := HGraph.ids_around ordered order
  have idleStep (s t : BuilderState)
      (resting : Between done (c :: rest) s ∧ s.currentBlock = none) (step : InstrStep s t) :
      Between done (c :: rest) t ∧ t.currentBlock = none := by
    refine ⟨resting.1.frame (fun _ _ => congrFun step.lastEnvironment _)
      (fun a _ => step.environments a ?_) step.environmentCount.ge step.finishedEnvironment
      step.inheritedEnvironment step.status, step.currentBlock.trans resting.2⟩
    simp [BuilderState.currentEnvironment, resting.2]
  have visits : Triple (fun s => Within done rest s c) (cb.doInstructions fuel c.instructions)
      (fun _ s => Within done rest s c) (SharedAbort cb) :=
    ((doInstructions_instrStep cb fuel _).stable_triple fun _ _ within step =>
      within.instrStep step).weaken (fun _ h => h) (fun _ _ h => h) fun _ _ within =>
        within.elim fun _ taken => taken.1.recorded_all order
  exact .bind (.of_get fun _ h => h) fun _ =>
    .bind (.of_dcheck _ _ fun s resting => resting.1.recorded_all order) fun _ =>
    .bind (useBlock_stable idleStep _) fun y =>
    .bind (.of_modify fun _ resting => ⟨resting.1.frame (fun _ _ => rfl) (fun _ _ => rfl) le_rfl
      rfl rfl rfl, rfl⟩) fun _ =>
    .bind (bindEnvironment_shares cb ordered order) fun _ => .bind visits fun _ =>
    .of_modify fun _ within => ⟨within.leave fresh, rfl⟩

end Blocks

section Build

variable (cb : LLVMChunkBuilder) (ordered : cb.graph.sharingOrdered = true)
include ordered

theorem doBlocks_shares (fuel : Nat) (rest : List HBasicBlock) :
    ∀ done, done ++ rest = cb.graph.blocks →
    Triple (fun s => Between done rest s ∧ s.currentBlock = none) (cb.doBlocks fuel rest)
      (fun _ s => Between cb.graph.blocks [] s ∧ s.currentBlock = none) (SharedAbort cb) := by
  induction rest with
  | nil => exact fun done order => .of_pure _ fun _ h => by rwa [← order, List.append_nil]
  | cons c rest loop =>
    intro done order
    have next := loop (done ++ [c]) (by simpa using order)
    refine .bind (doBasicBlock_shares cb ordered order fuel) fun _ =>
      .bind (Q := fun a s => (Between (done ++ [c]) rest s ∧ s.currentBlock = none) ∧ a = s)
        (.of_get fun _ h => ⟨h, rfl⟩) fun s₁ => .of_ite (fun aborted => ?_) fun _ =>
          .weaken next (fun _ h => h.1) (fun _ _ h => h) fun _ _ h => h
    rintro s ⟨⟨between, -⟩, rfl⟩
    exact absurd aborted between.notAborted

/-- A build from the initial state: every block that took contents took what its first
predecessor finished with, and once all blocks are processed every block but the start one
took. -/
theorem build_shares (fuel : Nat) (session : LLVMGranularity) :
    Triple (· = BuilderState.initial cb.graph session) (cb.build fuel)
      (fun _ s => Between cb.graph.blocks [] s) (SharedAbort cb) := by
  have start (s : BuilderState) (initial : s = BuilderState.initial cb.graph session) :
      Between [] cb.graph.blocks (s.startBuild cb.functionArity) ∧
        (s.startBuild cb.functionArity).currentBlock = none := by
    subst initial
    exact ⟨⟨⟨nofun, nofun⟩, nofun, nofun, nofun, Nat.one_pos⟩, rfl⟩
  have blocks : Triple _ (cb.doBlocks fuel cb.graph.blocks)
      (fun _ s => Between cb.graph.blocks [] s) (SharedAbort cb) :=
    (doBlocks_shares cb ordered fuel _ [] rfl).weaken (fun _ h => h) (fun _ _ h => h.1)
      fun _ _ h => h
  unfold build
  exact .bind (.of_modify start) fun _ => .bind blocks fun _ =>
    .of_ite (fun _ => .of_pure _ fun _ h => h) fun _ => .bind (.of_pure _ fun _ h => h) fun _ =>
      .bind (Q := fun _ s => Between cb.graph.blocks [] s) (.of_modify
        fun s (h : Between cb.graph.blocks [] s) =>
          ⟨⟨nofun, nofun⟩, h.recorded, h.taken, nofun, h.allocated⟩) fun _ =>
      .bind (.of_get fun _ h => h) fun _ => .of_pure _ fun _ h => h

end Build

/-- In a graph ordered as `sharingOrdered` asks, every block that takes an environment takes the
one its first predecessor finished with; a completed build gives every block but the start one an
environment. -/
theorem build_inherits_finished (cb : LLVMChunkBuilder) (ordered : cb.graph.sharingOrdered = true)
    (fuel : Nat) (session : LLVMGranularity) :
    let run := cb.build fuel (BuilderState.initial cb.graph session)
    (∀ b contents, (finalState run).inheritedEnvironment b = some contents →
      ∃ block ∈ cb.graph.blocks, block.blockId = b ∧ ∃ pred ∈ cb.graph.blocks,
        block.predecessors[0]? = some pred.blockId ∧
          (finalState run).finishedEnvironment pred.blockId = some contents) ∧
    ∀ chunk s, run = .ok chunk s → ∀ block ∈ cb.graph.blocks, block.isStartBlock = false →
      s.inheritedEnvironment block.blockId ≠ none := by
  have shares := build_shares cb ordered fuel session _ rfl
  dsimp only
  generalize cb.build fuel (BuilderState.initial cb.graph session) = result at shares ⊢
  cases result with
  | ok chunk s => exact ⟨shares.recorded, fun _ _ ran => by cases ran; exact shares.taken⟩
  | error e s => exact ⟨shares, fun _ _ => nofun⟩

/-- A diamond: the start block branches on the sign of its parameter to block `1`, which binds
environment slot `0` by a simulate, and to block `2`; both go to the join `3`, whose phi merges
slot `0`. -/
def diamond : HGraph where
  values := [
    { kind := .instruction (.parameter 1), block := 0, representation := .tagged },
    { kind := .instruction (.change 0 .tagged .integer32), block := 0,
      representation := .integer32 },
    { kind := .instruction (.constant (.integer32 0)), block := 0, representation := .integer32,
      emitAtUses := true },
    { kind := .instruction (.compareNumericAndBranch .lt 1 2), block := 0,
      representation := .integer32, successors := [1, 2] },
    { kind := .instruction (.simulate 0 [(some 0, 2)]), block := 1, representation := .none },
    { kind := .instruction .goto, block := 1, representation := .none, successors := [3],
      knownSuccessor := some 3 },
    { kind := .instruction .goto, block := 2, representation := .none, successors := [3],
      knownSuccessor := some 3 },
    { kind := .phi (some 0), block := 3, representation := .tagged },
    { kind := .instruction (.«return» 0 2), block := 3, representation := .tagged }]
  blocks := [
    { blockId := 0, isStartBlock := true, instructions := [0, 1, 3] },
    { blockId := 1, predecessors := [0], instructions := [4, 5] },
    { blockId := 2, predecessors := [0], instructions := [6] },
    { blockId := 3, predecessors := [1, 2], phis := [7], instructions := [8] }]
  startEnvironment := [0]

theorem build_inherits_finished_diamond :
    let cb : LLVMChunkBuilder := ⟨⟨1, false, false⟩, diamond, true⟩
    let run := cb.build 3 (BuilderState.initial cb.graph {})
    (∀ b contents, (finalState run).inheritedEnvironment b = some contents →
      ∃ block ∈ cb.graph.blocks, block.blockId = b ∧ ∃ pred ∈ cb.graph.blocks,
        block.predecessors[0]? = some pred.blockId ∧
          (finalState run).finishedEnvironment pred.blockId = some contents) ∧
    ∀ chunk s, run = .ok chunk s → ∀ block ∈ cb.graph.blocks, block.isStartBlock = false →
      s.inheritedEnvironment block.blockId ≠ none :=
  build_inherits_finished ⟨⟨1, false, false⟩, diamond, true⟩ (by decide) 3 {}

/-- In the diamond, block `1` writes into a copy, so block `2` still takes the start block's
contents, and the join takes what block `1` finished with before writing its phi. -/
example :
    let run := LLVMChunk.newChunk ⟨1, false, false⟩ diamond 3 {}
    (List.range 4).map (finalState run).inheritedEnvironment =
        [none, some [0], some [0], some [2]] ∧
      (finalState run).finishedEnvironment 3 = some [7] := by
  decide

end LLVMChunkBuilder

end Llv8
