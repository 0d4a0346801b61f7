import Llv8.Steps

/-!
# The join step of `DoBasicBlock`

At a join, `DoBasicBlock` takes its first predecessor's environment object uncopied, writes every
phi that has a merged index into that slot, in the order of the block's phi list, then resets
every deleted phi index still in range to the graph's undefined constant, and points the block
at the object.  Each of the two loops changes one slot per turn and leaves every other slot
alone (`setPhis_run`, `clearDeletedPhis_run`), so the block's environment keeps the
predecessor's length and its slot `k` holds the undefined constant if `k` is a deleted phi
index, otherwise the last phi merging into `k`, otherwise the predecessor's value
(`bindEnvironment_join`).
-/

namespace Llv8

/-- `HPhi::merged_index()`, for a phi with `HasMergedIndex()`. -/
def HValue.mergedIndex (value : HValue) : Option Nat :=
  match value.kind with
  | .phi index => index
  | .instruction _ => none

namespace HGraph

variable (graph : HGraph)

/-- The merged index of the value with a given id, if it is a phi that has one. -/
def mergedIndex (id : Nat) : Option Nat := (graph.value id).bind HValue.mergedIndex

/-- Slot `k` of a join's environment, whose first predecessor holds
`old` there: the undefined constant if `k` is a deleted phi index, otherwise the last phi of the
block merging into `k`, otherwise `old`. -/
def joinSlot (block : HBasicBlock) (k old : Nat) : Nat :=
  if k ∈ block.deletedPhis then graph.constantUndefined
  else ((block.phis.filter fun phi => graph.mergedIndex phi == some k).getLast?).getD old

end HGraph

/-- One write into a list, read slot by slot. -/
theorem getElem?_set_eq_map (contents : List Nat) (i k value : Nat) :
    (contents.set i value)[k]? = contents[k]?.map fun old => if i = k then value else old := by
  rw [List.getElem?_set']
  by_cases same : i = k <;> cases contents[k]? <;> simp [same]

/-- An in-range `SetValueAt` writes its value into the slot. -/
theorem setValueAt_of_lt {s : BuilderState} {address index : Nat} (value : Nat)
    (below : index < (s.environments address).length) :
    setValueAt address index value s =
      .ok () (s.writeEnvironment address ((s.environments address).set index value)) := by
  simp only [setValueAt, bind_apply, get_apply, dcheck, below, decide_True, if_true, pure_apply,
    writeEnvironment, modify_apply]

namespace LLVMChunkBuilder

variable (cb : LLVMChunkBuilder) (address : Nat)

/-- The phi loop writes each phi into its merged slot: afterwards slot `k` holds the last phi
merging into `k`, or what it held before. -/
theorem setPhis_run (phis : List Nat)
    (arePhis : ∀ phi ∈ phis, ∃ value index, cb.graph.value phi = some value ∧
      value.kind = .phi index) :
    ∀ s : BuilderState, (∀ phi ∈ phis, ∀ index, cb.graph.mergedIndex phi = some index →
      index < (s.environments address).length) →
    ∃ contents, cb.setPhis address phis s = .ok () (s.writeEnvironment address contents) ∧
      contents.length = (s.environments address).length ∧
      ∀ k, contents[k]? = (s.environments address)[k]?.map fun old =>
        ((phis.filter fun phi => cb.graph.mergedIndex phi == some k).getLast?).getD old := by
  induction phis with
  | nil =>
    intro s _
    exact ⟨_, by rw [BuilderState.writeEnvironment_self]; rfl, rfl,
      fun _ => Option.map_id'.symm⟩
  | cons phi rest loop =>
    intro s inRange
    obtain ⟨value, index, found, kind⟩ := arePhis phi (List.mem_cons_self _ _)
    have merged : cb.graph.mergedIndex phi = index := by
      simp [HGraph.mergedIndex, found, HValue.mergedIndex, kind]
    have restPhis := fun phi' member => arePhis phi' (List.mem_cons_of_mem phi member)
    cases index with
    | none =>
      obtain ⟨contents, run, length, slots⟩ :=
        loop restPhis s fun phi' member => inRange phi' (List.mem_cons_of_mem phi member)
      refine ⟨contents, ?_, length, fun k => ?_⟩
      · simp only [setPhis, bind_apply, valueAt, found, resolve, kind, pure_apply, run]
      · rw [slots k, List.filter_cons, merged]
        rfl
    | some i =>
      have below : i < (s.environments address).length :=
        inRange phi (List.mem_cons_self _ _) i merged
      obtain ⟨contents, run, length, slots⟩ :=
        loop restPhis (s.writeEnvironment address ((s.environments address).set i phi))
          fun phi' member index' merged' => by
            simpa using inRange phi' (List.mem_cons_of_mem phi member) index' merged'
      refine ⟨contents, ?_, by simpa using length, fun k => ?_⟩
      · simp only [setPhis, bind_apply, valueAt, found, resolve, pure_apply, kind,
          setValueAt_of_lt _ below, run, BuilderState.writeEnvironment_writeEnvironment]
      · rw [slots k]
        simp only [BuilderState.writeEnvironment, updateAt_same, getElem?_set_eq_map,
          Option.map_map, List.filter_cons, merged]
        congr 1
        funext old
        by_cases same : i = k
        · simp [same, List.getLast?_cons]
        · simp [same]

/-- The deleted-phi loop resets every deleted index still in range to the undefined constant. -/
theorem clearDeletedPhis_run (indices : List Nat) :
    ∀ s : BuilderState, ∃ contents,
      cb.clearDeletedPhis address indices s = .ok () (s.writeEnvironment address contents) ∧
      contents.length = (s.environments address).length ∧
      ∀ k, contents[k]? = (s.environments address)[k]?.map fun old =>
        if k ∈ indices then cb.graph.constantUndefined else old := by
  induction indices with
  | nil =>
    intro s
    exact ⟨_, by rw [BuilderState.writeEnvironment_self]; rfl, rfl,
      fun _ => Option.map_id'.symm⟩
  | cons index rest loop =>
    intro s
    by_cases below : index < (s.environments address).length
    · obtain ⟨contents, run, length, slots⟩ := loop
        (s.writeEnvironment address ((s.environments address).set index cb.graph.constantUndefined))
      refine ⟨contents, ?_, by simpa using length, fun k => ?_⟩
      · simp only [clearDeletedPhis, bind_apply, get_apply, below, if_true,
          setValueAt_of_lt _ below, run, BuilderState.writeEnvironment_writeEnvironment]
      · rw [slots k]
        simp only [BuilderState.writeEnvironment, updateAt_same, getElem?_set_eq_map,
          Option.map_map, List.mem_cons]
        congr 1
        funext old
        by_cases same : index = k
        · simp [same]
        · simp [same, Ne.symm same]
    · obtain ⟨contents, run, length, slots⟩ := loop s
      refine ⟨contents, ?_, length, fun k => ?_⟩
      · simp only [clearDeletedPhis, bind_apply, get_apply, below, if_false, pure_apply, run]
      · rw [slots k]
        by_cases same : k = index
        · subst same
          rw [List.getElem?_eq_none (not_lt.mp below)]
          rfl
        · simp [same]

/-- The join step: for a join whose first predecessor `pred` points at the environment object
`address`, with the merged index of every phi below that environment's length, `DoBasicBlock`'s
environment step returns.  The block then points at `address`, notes the predecessor's contents
as the ones it took, and its environment has the predecessor's length, with every slot as
`HGraph.joinSlot` says. -/
theorem bindEnvironment_join (block pred : HBasicBlock) (notStart : block.isStartBlock = false)
    (join : block.predecessors.length ≠ 1) (first : block.predecessors[0]? = some pred.blockId)
    (found : cb.graph.block pred.blockId = some pred)
    (arePhis : ∀ phi ∈ block.phis, ∃ value index, cb.graph.value phi = some value ∧
      value.kind = .phi index)
    (s : BuilderState) (predEnvironment : s.lastEnvironment pred.blockId = some address)
    (inRange : ∀ phi ∈ block.phis, ∀ index, cb.graph.mergedIndex phi = some index →
      index < (s.environments address).length) :
    ∃ t, cb.bindEnvironment block s = .ok () t ∧
      t.lastEnvironment block.blockId = some address ∧
      t.inheritedEnvironment block.blockId = some (s.environments address) ∧
      (t.environments address).length = (s.environments address).length ∧
      ∀ k, (t.environments address)[k]? =
        (s.environments address)[k]?.map (cb.graph.joinSlot block k) := by
  let entered := s.recordInherited block.blockId (s.environments address)
  obtain ⟨phiContents, phiRun, phiLength, phiSlots⟩ :=
    setPhis_run cb address block.phis arePhis entered inRange
  obtain ⟨contents, clearRun, length, slots⟩ := clearDeletedPhis_run cb address
    block.deletedPhis (entered.writeEnvironment address phiContents)
  let t := (((entered.writeEnvironment address phiContents).writeEnvironment address
    contents).setLastEnvironment block.blockId address).setArgumentCount
      (s.blockArgumentCount pred.blockId)
  refine ⟨t, ?_, ?_, ?_, ?_, fun k => ?_⟩
  · simp only [bindEnvironment, notStart, Bool.false_eq_true, if_false, join, bind_apply, dchecked,
      first, blockAt, found, resolve, pure_apply, get_apply, predEnvironment, modify_apply,
      phiRun, clearRun, updateEnvironment]
    rfl
  · exact updateAt_same _ _ _
  · exact updateAt_same _ _ _
  · simp only [t, BuilderState.setArgumentCount, BuilderState.setLastEnvironment,
      BuilderState.writeEnvironment, updateAt_same] at length ⊢
    exact length.trans phiLength
  · simp only [t, BuilderState.setArgumentCount, BuilderState.setLastEnvironment,
      BuilderState.writeEnvironment, updateAt_same] at slots ⊢
    rw [slots k, phiSlots k, Option.map_map]
    rfl

/-- The first predecessor of `phiJoinBlock`. -/
def phiJoinPred : HBasicBlock := { blockId := 0, isStartBlock := true, instructions := [0] }

/-- A join of blocks `0` and `1` whose phis merge into slots `0`, `1` and again `0`, with one
phi that merges nowhere, and whose deleted phi indices are `1` and the out-of-range `7`. -/
def phiJoinBlock : HBasicBlock :=
  { blockId := 2, predecessors := [0, 1], phis := [2, 3, 4, 5], deletedPhis := [1, 7],
    instructions := [] }

/-- The graph of `phiJoinBlock`: two gotos into the join, then its four phis. -/
def phiJoin : HGraph where
  values := [
    { kind := .instruction .goto, block := 0, representation := .none, successors := [2],
      knownSuccessor := some 2 },
    { kind := .instruction .goto, block := 1, representation := .none, successors := [2],
      knownSuccessor := some 2 },
    { kind := .phi (some 0), block := 2, representation := .tagged },
    { kind := .phi (some 1), block := 2, representation := .tagged },
    { kind := .phi (some 0), block := 2, representation := .tagged },
    { kind := .phi none, block := 2, representation := .tagged }]
  blocks := [phiJoinPred, { blockId := 1, predecessors := [0], instructions := [1] },
    phiJoinBlock]
  constantUndefined := 9

/-- The state at the join: block `0` points at object `0`, which holds `[10, 11, 12]`. -/
def phiJoinEntry : BuilderState :=
  (({} : BuilderState).setLastEnvironment 0 0).writeEnvironment 0 [10, 11, 12]

theorem bindEnvironment_join_phiJoin :
    let cb : LLVMChunkBuilder := ⟨⟨0, false, false⟩, phiJoin, true⟩
    ∃ t, cb.bindEnvironment phiJoinBlock phiJoinEntry = .ok () t ∧
      t.lastEnvironment phiJoinBlock.blockId = some 0 ∧
      t.inheritedEnvironment phiJoinBlock.blockId = some (phiJoinEntry.environments 0) ∧
      (t.environments 0).length = (phiJoinEntry.environments 0).length ∧
      ∀ k, (t.environments 0)[k]? =
        (phiJoinEntry.environments 0)[k]?.map (cb.graph.joinSlot phiJoinBlock k) :=
  bindEnvironment_join ⟨⟨0, false, false⟩, phiJoin, true⟩ 0 phiJoinBlock phiJoinPred rfl
    (by decide) rfl rfl
    (fun phi member => by
      simp only [phiJoinBlock, List.mem_cons, List.mem_singleton, List.not_mem_nil,
        or_false] at member
      rcases member with rfl | rfl | rfl | rfl <;> exact ⟨_, _, rfl, rfl⟩)
    phiJoinEntry rfl
    (fun phi member index merged => by
      simp only [phiJoinBlock, List.mem_cons, List.mem_singleton, List.not_mem_nil,
        or_false] at member
      rcases member with rfl | rfl | rfl | rfl <;> cases merged <;> decide)

/-- At `phiJoinBlock` the later phi wins slot `0`, the deleted index `1` overrides its phi, slot
`2` keeps the predecessor's value, and the deleted index `7` is out of range. -/
example : (finalState ((⟨⟨0, false, false⟩, phiJoin, true⟩ : LLVMChunkBuilder).bindEnvironment
    phiJoinBlock phiJoinEntry)).environments 0 = [4, 9, 12] := by
  decide

end LLVMChunkBuilder

end Llv8
