import Llv8.Materialize

/-!
# Every handler runs at most once

`Use` visits an operand emitted at its uses when the operand has no LLVM value yet, and the block
loop visits every other instruction.  The trace records each visit when it starts and each
value `Use` hands out.  Over any run of `Build`, aborted or not, the visits are distinct, each
value handed out is the one `Use` hands out at every request, and every use comes after the
visit of its value (`TraceCore`).  The argument keeps, besides, the stack of visits in
progress: an instruction emitted at its uses that was visited but never handed out is on it,
and the instructions on it have no value yet (`VisitInv`).  Ranks that decrease along the
operands of instructions emitted at their uses bound the depth of the stack, so enough fuel
makes every `Use` return (`build_visits_once`).

What `Use` is asked for comes from the graph: a visit that returns has handed to `Use` the
operands `HGraph.requested` names (`compileToLLVM_requests`), so in a completed build every such
operand of a visited instruction was handed out (`build_requests`).
-/

namespace Llv8

/-- The instruction a visit event names. -/
def Event.visitId? : Event → Option Nat
  | .visit id => some id
  | .use .. => none

/-- The instructions visited, in the order of their visits. -/
def visitedIds (trace : List Event) : List Nat := trace.filterMap Event.visitId?

@[simp] theorem visitedIds_append_visit (trace : List Event) (id : Nat) :
    visitedIds (trace ++ [.visit id]) = visitedIds trace ++ [id] := by
  simp [visitedIds, Event.visitId?]

@[simp] theorem visitedIds_append_use (trace : List Event) (id : Nat) (value : LValue) :
    visitedIds (trace ++ [.use id value]) = visitedIds trace := by
  simp [visitedIds, Event.visitId?]

theorem mem_visitedIds {trace : List Event} {id : Nat} :
    id ∈ visitedIds trace ↔ .visit id ∈ trace := by
  simp only [visitedIds, List.mem_filterMap]
  constructor
  · rintro ⟨event, member, named⟩
    cases event <;> simp_all [Event.visitId?]
  · exact fun member => ⟨_, member, rfl⟩

/-- What holds of the trace of every run: visits are distinct, a value handed out by `Use` is
the value's LLVM value from then on, a value that has one was visited, and every use comes
after the visit of its value. -/
structure TraceCore (s : BuilderState) : Prop where
  nodup : (visitedIds s.trace).Nodup
  useValue : ∀ id v, .use id v ∈ s.trace → s.llvmValue id = some v
  setVisited : ∀ id, s.llvmValue id ≠ none → .visit id ∈ s.trace
  visitFirst : ∀ i id v, s.trace[i]? = some (.use id v) → .visit id ∈ s.trace.take i

namespace TraceCore

variable {s : BuilderState}

theorem congr {t : BuilderState} (trace : t.trace = s.trace)
    (values : t.llvmValue = s.llvmValue) (core : TraceCore s) : TraceCore t := by
  obtain ⟨nodup, useValue, setVisited, visitFirst⟩ := core
  exact ⟨trace ▸ nodup, by rw [trace, values]; exact useValue,
    by rw [trace, values]; exact setVisited, by rw [trace]; exact visitFirst⟩

/-- A fresh visit keeps the trace facts. -/
theorem addVisit {id : Nat} (core : TraceCore s) (fresh : .visit id ∉ s.trace) :
    TraceCore (s.addEvent (.visit id)) := by
  obtain ⟨nodup, useValue, setVisited, visitFirst⟩ := core
  refine ⟨?_, fun x v member => ?_, fun x set => ?_, fun i x v found => ?_⟩
  · simpa [List.nodup_append, mem_visitedIds] using ⟨nodup, fresh⟩
  · simp only [BuilderState.addEvent, List.mem_append, List.mem_singleton] at member
    rcases member with old | new
    · exact useValue x v old
    · cases new
  · simp only [BuilderState.addEvent, List.mem_append]
    exact .inl (setVisited x set)
  · simp only [BuilderState.addEvent] at found ⊢
    rcases Nat.lt_or_ge i s.trace.length with old | late
    · rw [List.getElem?_append_left old] at found
      rw [List.take_append_of_le_length old.le]
      exact visitFirst i x v found
    · rw [List.getElem?_append_right late] at found
      have single : i - s.trace.length = 0 := by
        by_contra beyond
        rw [List.getElem?_eq_none (by simp; omega)] at found
        cases found
      simp [single] at found

/-- Handing out the value's LLVM value keeps the trace facts. -/
theorem addUse {id : Nat} {v : LValue} (core : TraceCore s) (set : s.llvmValue id = some v) :
    TraceCore (s.addEvent (.use id v)) := by
  obtain ⟨nodup, useValue, setVisited, visitFirst⟩ := core
  refine ⟨by simpa using nodup, fun x w member => ?_, fun x set' => ?_, fun i x w found => ?_⟩
  · simp only [BuilderState.addEvent, List.mem_append, List.mem_singleton] at member
    rcases member with old | new
    · exact useValue x w old
    · cases new
      exact set
  · simp only [BuilderState.addEvent, List.mem_append]
    exact .inl (setVisited x set')
  · simp only [BuilderState.addEvent] at found ⊢
    rcases Nat.lt_or_ge i s.trace.length with old | late
    · rw [List.getElem?_append_left old] at found
      rw [List.take_append_of_le_length old.le]
      exact visitFirst i x w found
    · rw [List.getElem?_append_right late] at found
      have single : i - s.trace.length = 0 := by
        by_contra beyond
        rw [List.getElem?_eq_none (by simp; omega)] at found
        cases found
      have first : i = s.trace.length := by omega
      simp only [single, List.getElem?_cons_zero, Option.some.injEq, Event.use.injEq] at found
      obtain ⟨rfl, rfl⟩ := found
      rw [first, List.take_left' rfl]
      exact setVisited id (by simp [set])

/-- An instruction's handler sets its value once no use of it was recorded and its visit
was. -/
theorem setValue {id : Nat} {v : LValue} (core : TraceCore s)
    (unused : ∀ w, .use id w ∉ s.trace) (visited : .visit id ∈ s.trace) :
    TraceCore (s.setValue id v) := by
  obtain ⟨nodup, useValue, setVisited, visitFirst⟩ := core
  refine ⟨nodup, fun x w member => ?_, fun x set => ?_, visitFirst⟩
  · have other : x ≠ id := by rintro rfl; exact unused w member
    simp [updateAt_apply, other, useValue x w member]
  · by_cases same : x = id
    · rw [same]; exact visited
    · exact setVisited x (by simpa [updateAt_apply, same] using set)

/-- Every request for a value hands out the same LLVM value. -/
theorem use_unique (core : TraceCore s) {id : Nat} {v w : LValue} (first : .use id v ∈ s.trace)
    (second : .use id w ∈ s.trace) : v = w :=
  Option.some.inj ((core.useValue id v first).symm.trans (core.useValue id w second))

end TraceCore

/-- The invariant of a build in progress.  `done` are the instructions the block loop has come
to; `pending` are the visits in progress of instructions emitted at their uses, which are the
only instructions emitted at their uses visited and not yet handed out; `unset` are visits in
progress whose handler has not yet set a value. -/
structure VisitInv (graph : HGraph) (done pending unset : List Nat) (s : BuilderState) :
    Prop where
  core : TraceCore s
  building : s.status = .building
  directVisits : ∀ x, .visit x ∈ s.trace → graph.emitsAtUses x = false → x ∈ done
  directVisited : ∀ x ∈ done, graph.emitsAtUses x = false → .visit x ∈ s.trace
  deferredUsed : ∀ x, graph.emitsAtUses x = true → .visit x ∈ s.trace →
    (∃ v, .use x v ∈ s.trace) ∨ x ∈ pending
  unsetPending : ∀ x ∈ unset, .visit x ∈ s.trace ∧ s.llvmValue x = none

namespace VisitInv

variable {graph : HGraph} {done pending unset : List Nat} {s : BuilderState}

/-- Only the trace, the values and the status matter. -/
theorem congr {t : BuilderState} (trace : t.trace = s.trace)
    (values : t.llvmValue = s.llvmValue) (status : t.status = s.status)
    (inv : VisitInv graph done pending unset s) : VisitInv graph done pending unset t := by
  obtain ⟨core, building, directVisits, directVisited, deferredUsed, unsetPending⟩ := inv
  refine ⟨core.congr trace values, status.trans building, ?_, ?_, ?_, ?_⟩ <;>
    rw [trace] <;> (try rw [values]) <;> assumption

theorem drop_unset {id : Nat} (inv : VisitInv graph done pending (id :: unset) s) :
    VisitInv graph done pending unset s :=
  ⟨inv.core, inv.building, inv.directVisits, inv.directVisited, inv.deferredUsed,
    fun x member => inv.unsetPending x (List.mem_cons_of_mem id member)⟩

theorem widen_pending {id : Nat} (inv : VisitInv graph done pending unset s) :
    VisitInv graph done (id :: pending) unset s :=
  ⟨inv.core, inv.building, inv.directVisits, inv.directVisited,
    fun x emits visited => (inv.deferredUsed x emits visited).imp (fun used => used)
      (List.mem_cons_of_mem id), inv.unsetPending⟩

/-- `Use` starts the visit of an operand emitted at its uses that has no value and is not in
progress. -/
theorem startDeferred {o : Nat} (inv : VisitInv graph done pending unset s)
    (emits : graph.emitsAtUses o = true) (idle : o ∉ pending) (unsetValue : s.llvmValue o = none) :
    VisitInv graph done (o :: pending) (o :: unset) (s.addEvent (.visit o)) := by
  have fresh : .visit o ∉ s.trace := by
    intro visited
    rcases inv.deferredUsed o emits visited with ⟨v, used⟩ | inProgress
    · rw [inv.core.useValue o v used] at unsetValue
      cases unsetValue
    · exact idle inProgress
  refine ⟨inv.core.addVisit fresh, inv.building, fun x visited direct => ?_,
    fun x member direct => by simp [inv.directVisited x member direct],
    fun x deferred visited => ?_, fun x member => ?_⟩
  · simp only [BuilderState.addEvent, List.mem_append, List.mem_singleton, Event.visit.injEq]
      at visited
    rcases visited with old | rfl
    · exact inv.directVisits x old direct
    · rw [emits] at direct
      cases direct
  · simp only [BuilderState.addEvent, List.mem_append, List.mem_singleton, Event.visit.injEq]
      at visited
    rcases visited with old | rfl
    · rcases inv.deferredUsed x deferred old with ⟨v, used⟩ | inProgress
      · exact .inl ⟨v, by simp [used]⟩
      · exact .inr (List.mem_cons_of_mem o inProgress)
    · exact .inr (List.mem_cons_self _ _)
  · rcases List.mem_cons.mp member with rfl | old
    · exact ⟨by simp, unsetValue⟩
    · obtain ⟨visited, unsetX⟩ := inv.unsetPending x old
      exact ⟨by simp [visited], unsetX⟩

/-- The block loop starts the visit of an instruction that is not emitted at its uses. -/
theorem startDirect {u : Nat} (inv : VisitInv graph done [] [] s)
    (direct : graph.emitsAtUses u = false) (fresh : u ∉ done) :
    VisitInv graph (done ++ [u]) [u] [u] (s.addEvent (.visit u)) := by
  have notVisited : .visit u ∉ s.trace := fun visited => fresh (inv.directVisits u visited direct)
  have unsetValue : s.llvmValue u = none := by
    by_contra set
    exact notVisited (inv.core.setVisited u set)
  refine ⟨inv.core.addVisit notVisited, inv.building, fun x visited direct' => ?_,
    fun x member direct' => ?_, fun x deferred visited => ?_, fun x member => ?_⟩
  · simp only [BuilderState.addEvent, List.mem_append, List.mem_singleton, Event.visit.injEq]
      at visited
    rcases visited with old | rfl
    · exact List.mem_append_left _ (inv.directVisits x old direct')
    · exact List.mem_append_right _ (List.mem_singleton_self _)
  · rcases List.mem_append.mp member with old | last
    · simp [inv.directVisited x old direct']
    · simp [List.mem_singleton.mp last]
  · simp only [BuilderState.addEvent, List.mem_append, List.mem_singleton, Event.visit.injEq]
      at visited
    rcases visited with old | rfl
    · rcases inv.deferredUsed x deferred old with ⟨v, used⟩ | inProgress
      · exact .inl ⟨v, by simp [used]⟩
      · cases inProgress
    · rw [direct] at deferred
      cases deferred
  · rw [List.mem_singleton.mp member]
    exact ⟨by simp, unsetValue⟩

/-- The handler of a visit in progress sets its value. -/
theorem setOwn {id : Nat} {v : LValue} (inv : VisitInv graph done pending (id :: unset) s)
    (other : id ∉ unset) : VisitInv graph done pending unset (s.setValue id v) := by
  obtain ⟨visited, unsetValue⟩ := inv.unsetPending id (List.mem_cons_self _ _)
  have unused : ∀ w, .use id w ∉ s.trace := fun w used => by
    rw [inv.core.useValue id w used] at unsetValue
    cases unsetValue
  refine ⟨inv.core.setValue unused visited, inv.building, inv.directVisits, inv.directVisited,
    inv.deferredUsed, fun x member => ?_⟩
  have different : x ≠ id := by rintro rfl; exact other member
  simpa [updateAt_apply, different] using inv.unsetPending x (List.mem_cons_of_mem id member)

/-- `Use` hands out the value of an instruction that has one. -/
theorem handOut {o : Nat} {v : LValue} (inv : VisitInv graph done (o :: pending) unset s)
    (set : s.llvmValue o = some v) :
    VisitInv graph done pending unset (s.addEvent (.use o v)) := by
  refine ⟨inv.core.addUse set, inv.building, fun x visited direct => ?_,
    fun x member direct => by simp [inv.directVisited x member direct],
    fun x deferred visited => ?_, fun x member => ?_⟩
  · simp only [BuilderState.addEvent, List.mem_append, List.mem_singleton] at visited
    rcases visited with old | new
    · exact inv.directVisits x old direct
    · cases new
  · simp only [BuilderState.addEvent, List.mem_append, List.mem_singleton] at visited ⊢
    rcases visited with old | new
    · rcases inv.deferredUsed x deferred old with ⟨w, used⟩ | inProgress
      · exact .inl ⟨w, .inl used⟩
      · rcases List.mem_cons.mp inProgress with rfl | rest
        · exact .inl ⟨v, .inr rfl⟩
        · exact .inr rest
    · cases new
  · obtain ⟨visited, unsetX⟩ := inv.unsetPending x member
    exact ⟨by simp [visited], unsetX⟩

/-- The visit from the block loop ends. -/
theorem finishDirect {u : Nat} (inv : VisitInv graph done [u] [] s)
    (direct : graph.emitsAtUses u = false) : VisitInv graph done [] [] s := by
  refine ⟨inv.core, inv.building, inv.directVisits, inv.directVisited,
    fun x deferred visited => ?_, fun _ member => by cases member⟩
  rcases inv.deferredUsed x deferred visited with used | inProgress
  · exact .inl used
  · rw [List.mem_singleton.mp inProgress, direct] at deferred
    cases deferred

/-- The block loop skips an instruction emitted at its uses. -/
theorem skipDeferred {u : Nat} (inv : VisitInv graph done [] [] s)
    (deferred : graph.emitsAtUses u = true) : VisitInv graph (done ++ [u]) [] [] s := by
  refine ⟨inv.core, inv.building, fun x visited direct =>
    List.mem_append_left _ (inv.directVisits x visited direct), fun x member direct => ?_,
    inv.deferredUsed, inv.unsetPending⟩
  rcases List.mem_append.mp member with old | last
  · exact inv.directVisited x old direct
  · rw [List.mem_singleton.mp last, deferred] at direct
    cases direct

/-- `Build` starts from an empty trace and no values. -/
theorem start (empty : s.trace = []) (unsetValues : ∀ id, s.llvmValue id = none)
    (building : s.status = .building) : VisitInv graph [] [] [] s := by
  refine ⟨⟨?_, fun _ _ used => ?_, fun id set => absurd (unsetValues id) set,
    fun _ _ _ found => ?_⟩, building, fun _ visited => ?_, fun _ member => ?_,
    fun _ _ visited => ?_, fun _ member => ?_⟩ <;> simp_all [visitedIds]

/-- At the end of the block loop, the instructions not emitted at their uses are exactly the
ones of the block order visited, and an instruction emitted at its uses was visited exactly when
its value was handed out. -/
theorem complete {order : List Nat} (inv : VisitInv graph order [] [] s) :
    (∀ u ∈ order, graph.emitsAtUses u = false → .visit u ∈ s.trace) ∧
    (∀ u, .visit u ∈ s.trace → graph.emitsAtUses u = false → u ∈ order) ∧
    (∀ u, graph.emitsAtUses u = true → (.visit u ∈ s.trace ↔ ∃ v, .use u v ∈ s.trace)) := by
  refine ⟨inv.directVisited, inv.directVisits, fun u deferred => ⟨fun visited => ?_, ?_⟩⟩
  · simpa using inv.deferredUsed u deferred visited
  · rintro ⟨v, used⟩
    obtain ⟨i, found⟩ := List.mem_iff_getElem?.mp used
    exact List.mem_of_mem_take (inv.core.visitFirst i u v found)

end VisitInv

/-- How a run may abort: with the trace facts kept, and not for want of fuel. -/
def RunAbort (e : Abort) (s : BuilderState) : Prop := TraceCore s ∧ e ≠ .outOfFuel

/-- Ranks that stay below `bound` on the instructions emitted at their uses and decrease along
the operands that these hand to `Use` and that are themselves emitted at their uses. -/
def HGraph.emitRanked (graph : HGraph) (rank : Nat → Nat) (bound : Nat) : Bool :=
  (List.range graph.values.length).all fun u => !graph.emitsAtUses u ||
    (decide (rank u < bound) && (graph.usedOperands u).all fun o =>
      !graph.emitsAtUses o || decide (rank o < rank u))

theorem HGraph.emitRanked_of {graph : HGraph} {rank : Nat → Nat} {bound : Nat}
    (ranked : graph.emitRanked rank bound = true) {u : Nat} (emits : graph.emitsAtUses u = true) :
    rank u < bound ∧ ∀ o ∈ graph.usedOperands u, graph.emitsAtUses o = true → rank o < rank u := by
  have inRange : u < graph.values.length := by
    by_contra outside
    simp [emitsAtUses, HGraph.value, List.getElem?_eq_none (Nat.le_of_not_lt outside)] at emits
  have check := List.all_eq_true.mp ranked u (List.mem_range.mpr inRange)
  simp only [emits, Bool.not_true, Bool.false_or, Bool.and_eq_true, decide_eq_true_eq,
    List.all_eq_true, Bool.or_eq_true, Bool.not_eq_true'] at check
  refine ⟨check.1, fun o used deferred => ?_⟩
  rcases check.2 o used with direct | lower
  · rw [deferred] at direct
    cases direct
  · exact lower

/-! ## Requests

`HGraph.requested` names the operands a visit has handed to `Use` when it returns.  Over any run,
every visit that has returned has had them handed out (`RequestsMet`). -/

/-- The operands a handler that returns has handed to `Use`: its `usedOperands`, except that
`DoChange` hands its operand over only from a smi, tagged or integer32 value, and from any other
returns without it or aborts. -/
def HOpcode.requested : HOpcode → List Nat
  | .change value fromRep _ =>
    if fromRep = .smi || fromRep = .tagged || fromRep = .integer32 then [value] else []
  | opcode => opcode.usedOperands

/-- The operands a visit of `id` that returns has handed to `Use`: none for a control instruction
with a known successor, which becomes a branch, and its handler's otherwise. -/
def HGraph.requested (graph : HGraph) (id : Nat) : List Nat :=
  match graph.value id with
  | some value =>
    if value.isControlInstruction && value.knownSuccessor.isSome then []
    else (value.opcode?.map HOpcode.requested).getD []
  | none => []

theorem HGraph.requested_of_branch {graph : HGraph} {id successor : Nat} {value : HValue}
    (found : graph.value id = some value) (control : value.isControlInstruction = true)
    (known : value.knownSuccessor = some successor) : graph.requested id = [] := by
  simp [HGraph.requested, found, control, known]

theorem HGraph.requested_of_handler {graph : HGraph} {id : Nat} {value : HValue}
    {opcode : HOpcode} (found : graph.value id = some value)
    (isInstruction : value.opcode? = some opcode)
    (handled : ∀ successor, value.isControlInstruction = true →
      value.knownSuccessor = some successor → False) :
    graph.requested id = opcode.requested := by
  cases known : value.knownSuccessor with
  | none => simp [HGraph.requested, found, isInstruction, known]
  | some successor =>
    have direct : value.isControlInstruction = false := by
      simpa using fun control => handled successor control known
    simp [HGraph.requested, found, isInstruction, direct]

/-- `Use` has handed out every operand of `ops`. -/
def HandedOut (ops : List Nat) (s : BuilderState) : Prop := ∀ o ∈ ops, ∃ v, .use o v ∈ s.trace

namespace HandedOut

variable {ops : List Nat} {s t : BuilderState}

theorem nil : HandedOut [] s := fun _ member => nomatch member

theorem snoc {o : Nat} {v : LValue} (handed : HandedOut ops s) (used : .use o v ∈ s.trace) :
    HandedOut (ops ++ [o]) s := by
  intro x member
  rcases List.mem_append.mp member with old | new
  · exact handed x old
  · exact ⟨v, List.mem_singleton.mp new ▸ used⟩

/-- The trace only grows. -/
theorem stable (handed : HandedOut ops s) (step : InstrStep s t) : HandedOut ops t := by
  obtain ⟨events, grown⟩ := step.trace
  intro o member
  obtain ⟨v, used⟩ := handed o member
  exact ⟨v, grown ▸ List.mem_append_left _ used⟩

end HandedOut

/-- Every visit outside `pending` has had the operands it requests handed out. -/
def RequestsMet (graph : HGraph) (pending : List Nat) (s : BuilderState) : Prop :=
  ∀ u, .visit u ∈ s.trace → u ∉ pending → HandedOut (graph.requested u) s

namespace RequestsMet

variable {graph : HGraph} {pending : List Nat} {s t : BuilderState}

theorem congr (met : RequestsMet graph pending s) (trace : t.trace = s.trace) :
    RequestsMet graph pending t := by
  unfold RequestsMet HandedOut
  rw [trace]
  exact met

theorem start (empty : s.trace = []) : RequestsMet graph pending s := by
  intro u visited
  rw [empty] at visited
  cases visited

/-- A visit starts pending. -/
theorem addVisit (met : RequestsMet graph pending s) (id : Nat) :
    RequestsMet graph (id :: pending) (s.addEvent (.visit id)) := by
  intro u visited waiting
  rcases List.mem_append.mp visited with old | new
  · exact (met u old fun p => waiting (List.mem_cons_of_mem id p)).stable
      (InstrStep.of_addEvent s _)
  · cases List.mem_singleton.mp new
    exact absurd (List.mem_cons_self _ _) waiting

theorem addUse (met : RequestsMet graph pending s) (o : Nat) (v : LValue) :
    RequestsMet graph pending (s.addEvent (.use o v)) := by
  intro u visited waiting
  rcases List.mem_append.mp visited with old | new
  · exact (met u old waiting).stable (InstrStep.of_addEvent s _)
  · cases List.mem_singleton.mp new

/-- A visit that returns with its requests handed out is no longer pending. -/
theorem finish {id : Nat} (met : RequestsMet graph (id :: pending) s)
    (handed : HandedOut (graph.requested id) s) : RequestsMet graph pending s := by
  intro u visited waiting
  by_cases same : u = id
  · exact same ▸ handed
  · exact met u visited (by simp [same, waiting])

end RequestsMet

namespace LLVMChunkBuilder

section Once

variable {graph : HGraph} {done pending unset : List Nat} {A : Abort → BuilderState → Prop}

theorem insert_visits (op : LOp) : Triple (VisitInv graph done pending unset) (insert op)
    (fun _ => VisitInv graph done pending unset) A :=
  .of_modifyGet fun s inv => VisitInv.congr (s := s) (t := s.pushInstruction op) rfl rfl rfl inv

theorem useBlock_visits (block : Nat) : Triple (VisitInv graph done pending unset)
    (useBlock block) (fun _ => VisitInv graph done pending unset) A := by
  intro s inv
  simp only [useBlock, bind_apply, get_apply]
  cases s.llvmBasicBlock block
  · exact VisitInv.congr (s := s) (t := s.addBasicBlock block) rfl rfl rfl inv
  · exact inv

theorem doSimulate_visits (popCount : Nat) (values : List (Option Nat × Nat)) :
    Triple (VisitInv graph done pending unset) (doSimulate popCount values)
      (fun _ => VisitInv graph done pending unset) RunAbort := by
  intro s inv
  simp only [doSimulate, bind_apply, get_apply]
  cases s.currentEnvironment
  · exact ⟨inv.core, Abort.noConfusion⟩
  · exact VisitInv.congr (s := s) (t := s.writeEnvironment _ _) rfl rfl rfl inv

/-- The end of `Use`: the value is handed out if it is set, and the build aborts otherwise. -/
theorem useLookup_visits (o : Nat) : Triple (VisitInv graph done (o :: pending) unset) (do
      let llvmValue ← dchecked ((← get).llvmValue o) "value->llvm_value()"
      record (.use o llvmValue)
      pure llvmValue) (fun _ => VisitInv graph done pending unset) RunAbort := by
  intro s inv
  simp only [bind_apply, get_apply]
  cases set : s.llvmValue o with
  | none => exact ⟨inv.core, Abort.noConfusion⟩
  | some v =>
    simp only [dchecked, pure_apply, record, modify_apply]
    exact inv.handOut set

variable (cb : LLVMChunkBuilder)

/-- `Use` of an operand that is set, or whose visit makes it handed out, keeps the invariant. -/
theorem useValue_of_visit_once {visit : Nat → BuildM Unit} (o : Nat) (stack : List Nat)
    (hvisit : cb.graph.emitsAtUses o = true → Triple
      (fun s => VisitInv cb.graph done stack stack s ∧ s.llvmValue o = none) (visit o)
      (fun _ => VisitInv cb.graph done (o :: stack) stack) RunAbort) :
    Triple (VisitInv cb.graph done stack stack) (cb.useValue visit o)
      (fun _ => VisitInv cb.graph done stack stack) RunAbort := by
  unfold useValue
  refine .bind_resolve (fun _ inv => ⟨inv.core, Abort.noConfusion⟩) fun value found =>
    .bind (Q := fun a s => VisitInv cb.graph done stack stack s ∧ a = s)
      (.of_get fun _ inv => ⟨inv, rfl⟩) fun s₁ => .of_ite (fun visits => ?_) fun _ => ?_
  · have emits : cb.graph.emitsAtUses o = true := by
      simp_all [HGraph.emitsAtUses_of cb.graph found]
    refine .bind (.weaken (hvisit emits) ?_ (fun _ _ h => h) fun _ _ h => h) fun _ =>
      useLookup_visits o
    rintro s ⟨inv, rfl⟩
    exact ⟨inv, by simp_all⟩
  · exact .bind (Q := fun _ => VisitInv cb.graph done stack stack) (.of_pure _ fun _ h => h.1)
      fun _ => .weaken (useLookup_visits o) (fun _ inv => inv.widen_pending) (fun _ _ h => h)
        fun _ _ h => h

variable {rank : Nat → Nat} {bound : Nat} (ranked : cb.graph.emitRanked rank bound = true)
include ranked

/-- `Use` of an operand emitted at its uses below every visit in progress, with more fuel than
its rank, keeps the invariant and never runs out of fuel. -/
theorem useValue_once (fuel : Nat) : ∀ stack o, (cb.graph.emitsAtUses o = true →
    rank o < fuel ∧ ∀ x ∈ stack, cb.graph.emitsAtUses x = true → rank o < rank x) →
    Triple (VisitInv cb.graph done stack stack) (cb.useValue (cb.visitInstruction fuel) o)
      (fun _ => VisitInv cb.graph done stack stack) RunAbort := by
  induction fuel with
  | zero =>
    exact fun stack o below => useValue_of_visit_once cb o stack fun emits =>
      absurd (below emits).1 (Nat.not_lt_zero _)
  | succ fuel use =>
    refine fun stack o below => useValue_of_visit_once cb o stack fun emits => ?_
    obtain ⟨enough, lower⟩ := below emits
    have idle : o ∉ stack := fun member => Nat.lt_irrefl _ (lower o member emits)
    refine visitInstruction_triple (I := VisitInv cb.graph done (o :: stack) (o :: stack))
      (fun _ _ inv raised => ⟨inv.core, Abort.ne_outOfFuel_of_ofHandler raised⟩)
      (fun _ inv => inv.drop_unset) cb o (fun op _ => insert_visits op)
      (fun _ _ _ op _ => insert_visits op) (fun _ => .of_modify fun _ inv => inv.setOwn idle)
      (fun _ _ block _ => useBlock_visits block) doSimulate_visits fuel
      (.of_modify fun _ ⟨inv, unset⟩ => inv.startDeferred emits idle unset) ?_
    intro value opcode found isInstruction o' used
    rw [← HGraph.usedOperands_of cb.graph found isInstruction] at used
    refine use (o :: stack) o' fun emits' => ?_
    have below' := (HGraph.emitRanked_of ranked emits).2 o' used emits'
    refine ⟨by omega, fun x member deferred => ?_⟩
    rcases List.mem_cons.mp member with rfl | old
    · exact below'
    · exact below'.trans (lower x old deferred)

/-- The block loop's visit of an instruction that is not emitted at its uses, with more fuel than
every rank, keeps the invariant. -/
theorem visitInstruction_once (fuel u : Nat) (enough : bound < fuel)
    (direct : cb.graph.emitsAtUses u = false) (fresh : u ∉ done) :
    Triple (VisitInv cb.graph done [] []) (cb.visitInstruction fuel u)
      (fun _ => VisitInv cb.graph (done ++ [u]) [] []) RunAbort := by
  cases fuel with
  | zero => exact absurd enough (Nat.not_lt_zero _)
  | succ fuel =>
    refine .weaken (visitInstruction_triple (I := VisitInv cb.graph (done ++ [u]) [u] [u])
      (J := VisitInv cb.graph (done ++ [u]) [u] [])
      (fun _ _ inv raised => ⟨inv.core, Abort.ne_outOfFuel_of_ofHandler raised⟩)
      (fun _ inv => inv.drop_unset) cb u (fun op _ => insert_visits op)
      (fun _ _ _ op _ => insert_visits op)
      (fun _ => .of_modify fun _ inv => inv.setOwn (List.not_mem_nil u))
      (fun _ _ block _ => useBlock_visits block) doSimulate_visits fuel
      (.of_modify fun _ inv => inv.startDirect direct fresh) ?_)
      (fun _ h => h) (fun _ _ inv => inv.finishDirect direct) fun _ _ h => h
    intro value opcode found isInstruction o used
    rw [← HGraph.usedOperands_of cb.graph found isInstruction] at used
    refine useValue_once cb ranked fuel [u] o fun emits => ⟨?_, fun x member deferred => ?_⟩
    · have := (HGraph.emitRanked_of ranked emits).1
      omega
    · rw [List.mem_singleton.mp member, direct] at deferred
      cases deferred

/-- The instruction loop of a block visits each instruction that is not emitted at its uses
once. -/
theorem doInstructions_once (fuel : Nat) (enough : bound < fuel) (ids : List Nat) : ∀ done,
    (done ++ ids).Nodup → Triple (VisitInv cb.graph done [] []) (cb.doInstructions fuel ids)
      (fun _ => VisitInv cb.graph (done ++ ids) [] []) RunAbort := by
  induction ids with
  | nil => exact fun done _ => .of_pure _ fun _ h => by simpa using h
  | cons u rest loop =>
    intro done distinct
    have fresh : u ∉ done := fun member =>
      (List.nodup_append.mp distinct).2.2 member (List.mem_cons_self u rest)
    have next := loop (done ++ [u]) (by simpa using distinct)
    rw [List.append_assoc, List.singleton_append] at next
    refine .bind (Q := fun a s => VisitInv cb.graph done [] [] s ∧ a = s)
      (.of_get fun _ h => ⟨h, rfl⟩) fun s₁ => .of_ite (fun aborted => ?_) fun _ =>
      .weaken (.bind_resolve (fun _ inv => ⟨inv.core, Abort.noConfusion⟩) fun value found => ?_)
        (fun _ h => h.1) (fun _ _ h => h) fun _ _ h => h
    · rintro s ⟨inv, rfl⟩
      rw [inv.building] at aborted
      cases aborted
    · have emits := HGraph.emitsAtUses_of cb.graph found
      refine .of_ite (fun visits => .bind (visitInstruction_once cb ranked fuel u enough
        (by simp_all) fresh) fun _ => next) fun skips =>
          .bind (Q := fun _ => VisitInv cb.graph (done ++ [u]) [] [])
            (.of_pure _ fun _ inv => inv.skipDeferred (by simp_all)) fun _ => next

/-- A block visits the instructions of its list that are not emitted at their uses once. -/
theorem doBasicBlock_once (fuel : Nat) (enough : bound < fuel) (block : HBasicBlock)
    (done : List Nat) (distinct : (done ++ block.instructions).Nodup) :
    Triple (VisitInv cb.graph done [] []) (cb.doBasicBlock fuel block)
      (fun _ => VisitInv cb.graph (done ++ block.instructions) [] []) RunAbort := by
  have keep {f : BuilderState → BuilderState} {done : List Nat}
      (same : ∀ s, (f s).trace = s.trace ∧ (f s).llvmValue = s.llvmValue ∧
        (f s).status = s.status) :
      Triple (VisitInv cb.graph done [] []) (modify f) (fun _ => VisitInv cb.graph done [] [])
        RunAbort :=
    .of_modify fun s inv => inv.congr (same s).1 (same s).2.1 (same s).2.2
  exact .bind (.of_get fun _ h => h) fun _ =>
    .bind (.of_dcheck _ _ fun _ inv => ⟨inv.core, Abort.noConfusion⟩) fun _ =>
    .bind (useBlock_visits _) fun _ => .bind (keep fun _ => ⟨rfl, rfl, rfl⟩) fun _ =>
    .bind (bindEnvironment_envStep (fun _ _ inv step => inv.congr step.trace step.llvmValue
      step.status) (fun _ _ inv raised => ⟨inv.core, Abort.ne_outOfFuel_of_ofHandler raised⟩)
      cb block) fun _ =>
    .bind (doInstructions_once cb ranked fuel enough _ done distinct) fun _ =>
    keep fun _ => ⟨rfl, rfl, rfl⟩

/-- The block loop of `Build` visits the instructions of its blocks that are not emitted at their
uses once. -/
theorem doBlocks_once (fuel : Nat) (enough : bound < fuel) (blocks : List HBasicBlock) :
    ∀ done, (done ++ blocks.flatMap (·.instructions)).Nodup →
    Triple (VisitInv cb.graph done [] []) (cb.doBlocks fuel blocks)
      (fun _ => VisitInv cb.graph (done ++ blocks.flatMap (·.instructions)) [] []) RunAbort := by
  induction blocks with
  | nil => exact fun done _ => .of_pure _ fun _ h => by simpa using h
  | cons block rest loop =>
    intro done distinct
    rw [List.flatMap_cons, ← List.append_assoc] at distinct
    have next := loop _ distinct
    rw [List.append_assoc, ← List.flatMap_cons] at next
    refine .bind (doBasicBlock_once cb ranked fuel enough block done
      (List.nodup_append.mp distinct).1) fun _ =>
      .bind (Q := fun a s => VisitInv cb.graph (done ++ block.instructions) [] [] s ∧ a = s)
        (.of_get fun _ h => ⟨h, rfl⟩) fun s₁ => .of_ite (fun aborted => ?_) fun _ =>
          .weaken next (fun _ h => h.1) (fun _ _ h => h) fun _ _ h => h
    rintro s ⟨inv, rfl⟩
    rw [inv.building] at aborted
    cases aborted

end Once

section Requests

variable (cb : LLVMChunkBuilder)

/-- `Use` returns the value it records as handed out. -/
theorem useValue_records {visit : Nat → BuildM Unit} (o : Nat) :
    Triple (fun _ => True) (cb.useValue visit o) (fun v s => .use o v ∈ s.trace)
      (fun _ _ => True) := by
  have lookup : Triple (fun _ => True) (do
      let llvmValue ← dchecked ((← get).llvmValue o) "value->llvm_value()"
      record (.use o llvmValue)
      pure llvmValue) (fun v s => .use o v ∈ s.trace) (fun _ _ => True) :=
    .bind (Q := fun _ _ => True) (.of_get fun _ h => h) fun _ =>
      .bind_dchecked (fun _ _ => ⟨⟩) fun v _ => .bind (Q := fun _ s => .use o v ∈ s.trace)
        (.of_modify fun _ _ => List.mem_append_right _ (List.mem_singleton_self _)) fun _ =>
      .of_pure _ fun _ h => h
  unfold useValue
  exact .bind_resolve (fun _ _ => ⟨⟩) fun _ _ => .bind (Q := fun _ _ => True)
    (.of_get fun _ h => h) fun _ => .of_ite (fun _ => .bind (.trivial _) fun _ => lookup) fun _ =>
      .bind (.of_pure _ fun _ h => h) fun _ => lookup

/-- `Use` hands out its operand whenever it returns, and keeps what was handed out before. -/
theorem useValue_handsOut (fuel o : Nat) (ops : List Nat) :
    Triple (HandedOut ops) (cb.useValue (cb.visitInstruction fuel) o)
      (fun _ => HandedOut (ops ++ [o])) (fun _ _ => True) :=
  .weaken ((cb.useValue_records o).frame (cb.useValue_instrStep fuel o) fun _ _ => HandedOut.stable)
    (fun _ handed => ⟨⟨⟩, handed⟩) (fun _ _ ⟨used, handed⟩ => handed.snoc used) fun _ _ _ => ⟨⟩

section Handlers

/-! A handler that returns has handed out the operands `HOpcode.requested` names. -/

variable (id : Nat) {use : Nat → BuildM LValue}
  (handsOut : ∀ o ops, Triple (HandedOut ops) (use o) (fun _ => HandedOut (ops ++ [o]))
    (fun _ _ => True))
include handsOut

theorem doAdd_requests (instr : HValue) (left right : Nat) :
    Triple (HandedOut []) (cb.doAdd use id instr left right) (fun _ => HandedOut [left, right])
      (fun _ _ => True) :=
  .of_ite (fun _ => .bind (valueAt_triple (fun _ _ _ _ => ⟨⟩) cb _) fun _ =>
    .bind (dcheck_triple (fun _ _ _ _ => ⟨⟩) _ _ (by decide)) fun _ =>
    .bind (valueAt_triple (fun _ _ _ _ => ⟨⟩) cb _) fun _ =>
    .bind (dcheck_triple (fun _ _ _ _ => ⟨⟩) _ _ (by decide)) fun _ =>
    .bind (handsOut left []) fun _ => .bind (handsOut right [left]) fun _ =>
    .bind (insert_stable (fun _ _ => HandedOut.stable) _) fun _ =>
      setLlvmValue_stable (fun _ _ => HandedOut.stable) _ _)
    fun _ => unimplemented_triple fun _ _ _ _ => ⟨⟩

theorem doChange_requests (instr : HValue) (val : Nat) (fromRep toRep : Representation) :
    Triple (HandedOut []) (cb.doChange use id instr val fromRep toRep)
      (fun _ => HandedOut (HOpcode.change val fromRep toRep).requested) (fun _ _ => True) := by
  by_cases requests : (fromRep = .smi || fromRep = .tagged || fromRep = .integer32) = true
  case neg =>
    rw [HOpcode.requested, if_neg requests]
    exact .weaken (.trivial _) (fun _ h => h) (fun _ _ _ => HandedOut.nil) fun _ _ h => h
  rw [HOpcode.requested, if_pos requests]
  have set (ops : List Nat) (v : LValue) : Triple (HandedOut ops) (setLlvmValue id v)
      (fun _ => HandedOut ops) (fun _ _ => True) :=
    setLlvmValue_stable (fun _ _ => HandedOut.stable) _ _
  have passOn : Triple (HandedOut []) (use val >>= setLlvmValue id) (fun _ => HandedOut [val])
      (fun _ _ => True) :=
    .bind (handsOut val []) fun _ => set _ _
  have shift (op : LValue → LOp) : Triple (HandedOut []) (do insert (op (← use val)))
      (fun _ => HandedOut [val]) (fun _ _ => True) :=
    .bind (handsOut val []) fun _ => insert_stable (fun _ _ => HandedOut.stable) _
  have abort {α : Type} {Q : α → BuilderState → Prop} :
      Triple (HandedOut []) unimplemented Q (fun _ _ => True) :=
    unimplemented_triple fun _ _ _ _ => ⟨⟩
  unfold doChange
  exact .of_ite (fun _ => passOn) fun _ => .of_ite (fun _ => .of_ite (fun _ => abort) fun _ =>
      .of_ite (fun _ => passOn) fun _ => .bind (dcheck_triple (fun _ _ _ _ => ⟨⟩) _ _ (by decide))
        fun _ => .bind (.of_ite (fun _ => shift _) fun _ => abort) fun _ => set _ _) fun notTagged =>
    .of_ite (fun _ => abort) fun _ => .of_ite (fun _ => .of_ite (fun _ => .of_ite (fun _ =>
      .bind (shift _) fun _ => set _ _) fun _ => abort) fun _ =>
      .of_ite (fun _ => abort) fun _ => .bind (dcheck_triple (fun _ _ _ _ => ⟨⟩) _ _ (by decide))
        fun _ => abort)
      fun notInteger32 => .of_pure _ fun _ _ =>
        absurd requests (by revert notTagged notInteger32; cases fromRep <;> decide)

theorem doCompareNumericAndBranch_requests (instr : HValue) (token : Token) (left right : Nat) :
    Triple (HandedOut []) (cb.doCompareNumericAndBranch use id instr token left right)
      (fun _ => HandedOut [left, right]) (fun _ _ => True) := by
  have target (ops : List Nat) (i : Nat) {β : Type} {R : β → BuilderState → Prop}
      {f : Nat → BuildM β} (rest : ∀ block, Triple (HandedOut ops) (f block) R (fun _ _ => True)) :
      Triple (HandedOut ops) (successorAt instr i >>= fun block => useBlock block >>= f) R
        (fun _ _ => True) :=
    .bind_resolve (fun _ _ => ⟨⟩) fun _ _ =>
      .bind (useBlock_stable (fun _ _ => HandedOut.stable) _) fun _ => rest _
  unfold doCompareNumericAndBranch
  exact .bind (valueAt_triple (fun _ _ _ _ => ⟨⟩) cb _) fun _ =>
    .bind (valueAt_triple (fun _ _ _ _ => ⟨⟩) cb _) fun _ =>
    .bind (dcheck_triple (fun _ _ _ _ => ⟨⟩) _ _ (by decide)) fun _ =>
    .bind (dcheck_triple (fun _ _ _ _ => ⟨⟩) _ _ (by decide)) fun _ =>
    .bind (tokenToPredicate_triple (fun _ _ _ _ => ⟨⟩) _ _) fun _ =>
    .of_ite (fun _ => unimplemented_triple fun _ _ _ _ => ⟨⟩) fun _ => .of_ite (fun _ =>
      .bind (handsOut left []) fun _ => .bind (handsOut right [left]) fun _ =>
      .bind (insert_stable (fun _ _ => HandedOut.stable) _) fun _ =>
      target _ 0 fun _ => target _ 1 fun _ =>
      .bind (insert_stable (fun _ _ => HandedOut.stable) _) fun _ =>
        setLlvmValue_stable (fun _ _ => HandedOut.stable) _ _) fun _ =>
      .bind (dcheck_triple (fun _ _ _ _ => ⟨⟩) _ _ (by decide)) fun _ =>
        unimplemented_triple fun _ _ _ _ => ⟨⟩

omit id in
theorem doReturn_requests (value parameterCount : Nat) :
    Triple (HandedOut []) (cb.doReturn use value parameterCount) (fun _ => HandedOut [value])
      (fun _ _ => True) := by
  have rest : Triple (HandedOut []) (do
      dcheck (!cb.info.isStub) "!info()->IsStub()"
      match (← cb.valueAt parameterCount).kind with
      | .instruction (.constant _) => discard (insert (.ret (← use value)))
      | _ => unimplemented) (fun _ => HandedOut [value]) (fun _ _ => True) :=
    .bind (dcheck_triple (fun _ _ _ _ => ⟨⟩) _ _ (by decide)) fun _ =>
      .bind (valueAt_triple (fun _ _ _ _ => ⟨⟩) cb _) fun count => by
        split
        · exact .bind (handsOut value []) fun _ =>
            .of_discard (insert_stable (fun _ _ => HandedOut.stable) _)
        · exact unimplemented_triple fun _ _ _ _ => ⟨⟩
  have abort {α : Type} {Q : α → BuilderState → Prop} :
      Triple (HandedOut []) unimplemented Q (fun _ _ => True) :=
    unimplemented_triple fun _ _ _ _ => ⟨⟩
  unfold doReturn
  exact .of_ite (fun _ => .bind abort fun _ => .of_ite (fun _ => .bind abort fun _ => rest)
    fun _ => .bind (.of_pure _ fun _ h => h) fun _ => rest) fun _ =>
    .bind (.of_pure _ fun _ h => h) fun _ => .of_ite (fun _ => .bind abort fun _ => rest)
      fun _ => .bind (.of_pure _ fun _ h => h) fun _ => rest

theorem compileToLLVM_requests (instr : HValue) (opcode : HOpcode) :
    Triple (HandedOut []) (cb.compileToLLVM use id instr opcode)
      (fun _ => HandedOut opcode.requested) (fun _ _ => True) := by
  cases opcode
  case change val fromRep toRep => exact doChange_requests cb id handsOut instr val fromRep toRep
  case add left right => exact doAdd_requests cb id handsOut instr left right
  case compareNumericAndBranch token left right =>
    exact doCompareNumericAndBranch_requests cb id handsOut instr token left right
  case «return» value parameterCount => exact doReturn_requests cb handsOut value parameterCount
  all_goals exact .weaken (.trivial _) (fun _ h => h) (fun _ _ _ => HandedOut.nil) fun _ _ h => h

end Handlers

/-- A visit that returns has had its requests handed out, and the visits it makes through `Use`
have had theirs. -/
theorem visitInstruction_requests (fuel : Nat) : ∀ pending id,
    Triple (RequestsMet cb.graph pending) (cb.visitInstruction fuel id)
      (fun _ => RequestsMet cb.graph pending) (fun _ _ => True) := by
  induction fuel with
  | zero => exact fun _ _ => .of_throw _ fun _ _ => ⟨⟩
  | succ fuel visit =>
    intro pending id
    have kept : ∀ s t, RequestsMet cb.graph (id :: pending) s → t.llvmValue = s.llvmValue →
        t.trace = s.trace → RequestsMet cb.graph (id :: pending) t :=
      fun _ _ met _ trace => met.congr trace
    refine .bind (Q := fun _ => RequestsMet cb.graph (id :: pending))
      (.of_modify fun _ met => met.addVisit id) fun _ =>
      .bind_resolve (fun _ _ => ⟨⟩) fun current found => .bind_dchecked (fun _ _ => ⟨⟩)
      fun opcode isInstruction => .of_ite (fun _ => ?_) fun _ => ?_
    · split
      · exact unimplemented_triple fun _ _ _ _ => ⟨⟩
      · exact .bind (valueAt_triple (fun _ _ _ _ => ⟨⟩) cb _) fun _ =>
          .bind (dcheck_triple (fun _ _ _ _ => ⟨⟩) _ _ (by decide)) fun _ =>
            unimplemented_triple fun _ _ _ _ => ⟨⟩
    · split
      · next successor control known =>
        exact .bind (useBlock_kept kept _) fun _ => .of_discard (.of_modifyGet fun _ met =>
          met.finish (HGraph.requested_of_branch found control known ▸ HandedOut.nil))
      · next handled =>
        refine .weaken ((compileToLLVM_triple (fun _ _ _ _ => ⟨⟩) (fun _ h => h) cb id
          (fun _ _ => .of_modifyGet fun _ met => met) (fun _ => .of_modify fun _ met => met)
          (doSimulate_kept kept fun _ _ _ => ⟨⟩) current opcode
          (fun _ _ _ => .of_modifyGet fun _ met => met) (fun block _ => useBlock_kept kept block)
          fun o _ => useValue_triple (fun _ _ _ => ⟨⟩) cb o
            (fun _ _ _ => visit _ o) fun v => .of_modify fun _ met => met.addUse o v).conj
          (compileToLLVM_requests cb id (useValue_handsOut cb fuel) current opcode))
          (fun _ met => ⟨met, HandedOut.nil⟩) (fun _ _ ⟨met, handed⟩ => met.finish ?_)
          fun _ _ _ => ⟨⟩
        rwa [HGraph.requested_of_handler found isInstruction handled]

/-- Over every run of `Build`, every visit that has returned has had its requests handed out. -/
theorem build_requests (fuel : Nat) : Triple (RequestsMet cb.graph []) (cb.build fuel)
    (fun _ => RequestsMet cb.graph []) (fun _ _ => True) :=
  build_keeps cb (fun _ _ met _ trace => met.congr trace) (fun _ _ _ => ⟨⟩) fuel
    (visitInstruction_requests cb fuel [])

end Requests

end LLVMChunkBuilder

end Llv8
