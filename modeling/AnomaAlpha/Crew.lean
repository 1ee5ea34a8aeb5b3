import AnomaAlpha.ExecuteMany
import AnomaAlpha.SynCell

-- The trees of a schedule on threads of their own, one atomic step at a time.
namespace AnomaAlpha

abbrev Weights := List (SynCell (Option (Transaction × Nat)))

abbrev Slot := (Transaction × Nat) × Option (Except Error StateDiff)

inductive WorkerPanic where
  | expected (panic : Panic)
  | borrowed (panic : SynCell.CellPanic)
  deriving DecidableEq

-- Where a thread is in `Tree::run`. A row is gathered node by node: borrow, take,
-- drop the guard. Then its transactions run, each with a place for its result.
inductive Stage where
  | gathering (rowTxs : List (Transaction × Nat)) (todo : List Nat)
  | guarded (rowTxs : List (Transaction × Nat)) (node : Nat) (todo : List Nat)
  | taken (rowTxs : List (Transaction × Nat)) (tx : Option (Transaction × Nat)) (node : Nat) (todo : List Nat)
  | retreating (node : Nat)
  | running (slots : List Slot)
  | finished
  | panicked (panic : WorkerPanic)

structure Worker where
  rows : List (List Nat)
  accState : StateDiff
  txs : List Outcome
  stage : Stage

structure Crew where
  weights : Weights
  workers : Nat → Worker

namespace Worker
open Schedule Execution

def nextRow (w : Worker) : Worker :=
  match w.rows with
  | [] => {w with stage := .finished}
  | row :: rows => {w with rows := rows, stage := .gathering [] row}

section
variable (rt : Runtime) (sch : Scheduler) (state cache : View)

def outcome (acc : StateDiff) (entry : Transaction × Nat) : Outcome :=
  (execute rt sch entry.1 (Overlayed.mk state acc.get).get cache,entry.2)

def work (w : Worker) (slots : List Slot) (slot : Nat) : Worker :=
  match slots[slot]? with
  | some (entry,none) =>
    {w with stage := .running (slots.set slot (entry,some (outcome rt sch state cache w.accState entry).1))}
  | _ =>
    if slots.all fun s => s.2.isSome then
      let results := slots.filterMap fun s => s.2.map fun result => (result,s.1.2)
      nextRow {w with accState := accumulate w.accState results, txs := w.txs ++ results}
    else w

-- `slot` picks a transaction of the row where the thread has a choice.
def step (slot : Nat) (weights : Weights) (w : Worker) : Weights × Worker :=
  match w.stage with
  | .gathering rowTxs [] => (weights,{w with stage := .running (rowTxs.map fun entry => (entry,none))})
  | .gathering rowTxs (node :: todo) => match weights[node]? with
    | none => (weights,{w with stage := .panicked (.expected .retreivedThroughTraversal)})
    | some cell => (weights.set node cell.borrowMut.2,{w with stage := match cell.borrowMut.1 with
      | .granted => .guarded rowTxs node todo
      | .refused => .panicked (.borrowed .mutablyBorrowed)
      | .retreats => .retreating node})
  | .guarded rowTxs node todo =>
    (weights.modify node (SynCell.write fun _ => none),
      {w with stage := .taken rowTxs (weights[node]?.bind SynCell.value) node todo})
  | .taken rowTxs tx node todo => (weights.modify node SynCell.unlock,{w with stage := match tx with
    | some entry => .gathering (rowTxs ++ [entry]) todo
    | none => .panicked (.expected .transactionVisitedMoreThanOnce)})
  | .retreating node => (weights.modify node SynCell.unlock,{w with stage := .panicked (.borrowed .immutablyBorrowed)})
  | .running slots => (weights,w.work rt sch state cache slots slot)
  | .finished | .panicked _ => (weights,w)

end
end Worker

namespace Crew
open Schedule Execution
variable (rt : Runtime) (sch : Scheduler) (state cache : View)

def step (c : Crew) (move : Nat × Nat) : Crew :=
  let moved := (c.workers move.1).step rt sch state cache move.2 c.weights
  ⟨moved.1,Function.update c.workers move.1 moved.2⟩

def run (c : Crew) (moves : List (Nat × Nat)) : Crew := moves.foldl (step rt sch state cache) c

def start (s : Schedule) : Crew :=
  ⟨s.graph.cells.map SynCell.new,
    fun r => Worker.nextRow ⟨if r ∈ s.roots then treeRows s.graph r else [],default,[],.finished⟩⟩

def results (s : Schedule) (c : Crew) : List (Except Error StateDiff) :=
  ((s.roots.flatMap fun r => (c.workers r).txs).insertionSort fun a b => a.2 ≤ b.2).map Prod.fst

end Crew

namespace Stage

def left : Stage → List Nat
  | .gathering _ todo => todo
  | .guarded _ node todo | .taken _ _ node todo => node :: todo
  | .retreating _ | .running _ | .finished | .panicked _ => []

def held : Stage → Option Nat
  | .guarded _ node _ | .taken _ _ node _ => some node
  | .gathering _ _ | .retreating _ | .running _ | .finished | .panicked _ => none

def emptied : Stage → Option Nat
  | .taken _ _ node _ => some node
  | .gathering _ _ | .guarded _ _ _ | .retreating _ | .running _ | .finished | .panicked _ => none

def cell (txs : List Transaction) (stage : Stage) (node : Nat) : SynCell (Option (Transaction × Nat)) :=
  ⟨if stage.held = some node then SynCell.writeBit else 0,
    if stage.emptied = some node then none else some (Schedule.entry txs node)⟩

def cost : Stage → Nat
  | .gathering rowTxs todo => 4*todo.length + rowTxs.length + 2
  | .guarded rowTxs _ todo => 4*todo.length + rowTxs.length + 5
  | .taken rowTxs _ _ todo => 4*todo.length + rowTxs.length + 4
  | .running slots => slots.countP (fun s => s.2.isNone) + 1
  | .retreating _ => 1
  | .finished | .panicked _ => 0

end Stage

namespace Worker
open Schedule Execution

def ahead (w : Worker) : List Nat := w.stage.left ++ w.rows.flatten

def cost (w : Worker) : Nat := w.stage.cost + (w.rows.map fun row => 4*row.length + 2).sum

section
variable (rt : Runtime) (sch : Scheduler) (state cache : View) (txs : List Transaction)

def rest (w : Worker) (entries : List (Transaction × Nat)) : List Outcome :=
  let results := entries.map (outcome rt sch state cache w.accState)
  w.txs ++ (results ++ rowResults rt sch state cache txs (accumulate w.accState results) w.rows)

def expect (w : Worker) : List Outcome :=
  match w.stage with
  | .gathering rowTxs todo => w.rest rt sch state cache txs (rowTxs ++ todo.map (entry txs))
  | .guarded rowTxs node todo | .taken rowTxs _ node todo =>
    w.rest rt sch state cache txs (rowTxs ++ (node :: todo).map (entry txs))
  | .running slots => w.rest rt sch state cache txs (slots.map Prod.fst)
  | .retreating _ | .finished | .panicked _ => w.txs

def Fit (w : Worker) : Prop :=
  match w.stage with
  | .gathering _ _ | .guarded _ _ _ => True
  | .taken _ tx node _ => tx = some (entry txs node)
  | .running slots => ∀ slot ∈ slots, ∀ result, slot.2 = some result →
    result = (outcome rt sch state cache w.accState slot.1).1
  | .finished => w.rows = []
  | .retreating _ | .panicked _ => False

-- One step of a thread: its own cells, and nobody else's.
structure Moved (weights weights' : Weights) (w w' : Worker) : Prop where
  sized : weights'.length = weights.length
  expect : w'.expect rt sch state cache txs = w.expect rt sch state cache txs
  fit : w'.Fit rt sch state cache txs
  ahead : w'.ahead.Sublist w.ahead
  cells : ∀ node ∈ w'.ahead, weights'[node]? = some (w'.stage.cell txs node)
  passed : ∀ node ∈ w.ahead, node ∉ w'.ahead → weights'[node]? = some ⟨0,none⟩
  frame : ∀ node, node ∉ w.ahead → weights'[node]? = weights[node]?

end

section
variable {rt : Runtime} {sch : Scheduler} {state cache : View} {txs : List Transaction} {weights : Weights}
  {w : Worker} {rowTxs : List (Transaction × Nat)} {node : Nat} {todo : List Nat}

theorem Moved.refl (fit : w.Fit rt sch state cache txs)
    (cells : ∀ node ∈ w.ahead, weights[node]? = some (w.stage.cell txs node)) :
    Moved rt sch state cache txs weights weights w w :=
  ⟨rfl,rfl,fit,.refl _,cells,fun _ member left => (left member).elim,fun _ _ => rfl⟩

theorem rowResults_cons (acc : StateDiff) (row : List Nat) (rows : List (List Nat)) :
    rowResults rt sch state cache txs acc (row :: rows) = (row.map (entry txs)).map (outcome rt sch state cache acc) ++
      rowResults rt sch state cache txs (accumulate acc ((row.map (entry txs)).map (outcome rt sch state cache acc))) rows := by
  rw [List.map_map]
  rfl

theorem nextRow_expect : w.nextRow.expect rt sch state cache txs =
    w.txs ++ rowResults rt sch state cache txs w.accState w.rows := by
  unfold nextRow
  cases rows : w.rows with
  | nil => exact (List.append_nil _).symm
  | cons row rows =>
      rw [rowResults_cons]
      rfl

theorem nextRow_fit : w.nextRow.Fit rt sch state cache txs := by
  unfold nextRow
  cases w.rows with
  | nil => rfl
  | cons row rows => trivial

theorem nextRow_ahead : w.nextRow.ahead = w.rows.flatten := by
  unfold nextRow
  cases w.rows with
  | nil => simp [ahead,Stage.left]
  | cons row rows => rfl

theorem nextRow_cell (node : Nat) : w.nextRow.stage.cell txs node = ⟨0,some (entry txs node)⟩ := by
  unfold nextRow
  cases w.rows with
  | nil => rfl
  | cons row rows => rfl

theorem nextRow_cost : w.nextRow.cost = (w.rows.map fun row => 4*row.length + 2).sum := by
  unfold nextRow
  cases w.rows with
  | nil => simp [cost,Stage.cost]
  | cons row rows => simp [cost,Stage.cost]

theorem gathered_moves (stage : w.stage = .gathering rowTxs [])
    (cells : ∀ node ∈ w.ahead, weights[node]? = some (w.stage.cell txs node)) :
    Moved rt sch state cache txs weights weights w {w with stage := .running (rowTxs.map fun entry => (entry,none))} := by
  have same : Worker.ahead {w with stage := .running (rowTxs.map fun entry => (entry,none))} = w.ahead := by
    simp only [Worker.ahead,stage,Stage.left]
  refine ⟨rfl,?_,?_,same ▸ .refl _,?_,fun node member left => (left (same ▸ member)).elim,fun _ _ => rfl⟩
  · have slots : (rowTxs.map fun entry => ((entry,none) : Slot)).map Prod.fst = rowTxs ++ [].map (entry txs) := by
      rw [List.map_map,List.map_nil,List.append_nil]
      exact List.map_id _
    simp only [Worker.expect,stage]
    rw [slots]
    rfl
  · intro slot member result set
    obtain ⟨entry,_,rfl⟩ := List.mem_map.mp member
    cases set
  · intro node member
    rw [cells node (same ▸ member),stage]
    rfl

theorem borrow_moves (stage : w.stage = .gathering rowTxs (node :: todo))
    (cells : ∀ node ∈ w.ahead, weights[node]? = some (w.stage.cell txs node)) :
    Moved rt sch state cache txs weights (weights.set node ⟨SynCell.writeBit,some (entry txs node)⟩) w
      {w with stage := .guarded rowTxs node todo} := by
  have same : Worker.ahead {w with stage := .guarded rowTxs node todo} = w.ahead := by
    simp only [Worker.ahead,stage,Stage.left]
  have first : node ∈ w.ahead := by simp [Worker.ahead,stage,Stage.left]
  have here := cells node first
  refine ⟨List.length_set,?_,trivial,same ▸ .refl _,?_,fun node member left => (left (same ▸ member)).elim,?_⟩
  · simp only [Worker.expect,stage]
    rfl
  · intro other member
    rw [List.getElem?_set]
    by_cases own : node = other
    · subst own
      rw [if_pos rfl,if_pos (List.getElem?_eq_some_iff.mp here).1]
      simp [Stage.cell,Stage.held,Stage.emptied]
    · rw [if_neg own,cells other (same ▸ member),stage]
      simp [Stage.cell,Stage.held,Stage.emptied,own]
  · intro other outside
    rw [List.getElem?_set_ne]
    rintro rfl
    exact outside first

theorem take_moves (stage : w.stage = .guarded rowTxs node todo)
    (cells : ∀ node ∈ w.ahead, weights[node]? = some (w.stage.cell txs node)) :
    Moved rt sch state cache txs weights (weights.modify node (SynCell.write fun _ => none)) w
      {w with stage := .taken rowTxs (weights[node]?.bind SynCell.value) node todo} := by
  have same : Worker.ahead {w with stage := .taken rowTxs (weights[node]?.bind SynCell.value) node todo} = w.ahead := by
    simp only [Worker.ahead,stage,Stage.left]
  have first : node ∈ w.ahead := by simp [Worker.ahead,stage,Stage.left]
  have here := cells node first
  have holds : w.stage.cell txs node = ⟨SynCell.writeBit,some (entry txs node)⟩ := by
    simp [stage,Stage.cell,Stage.held,Stage.emptied]
  refine ⟨List.length_modify ..,?_,?_,same ▸ .refl _,?_,fun node member left => (left (same ▸ member)).elim,?_⟩
  · simp only [Worker.expect,stage]
    rfl
  · change weights[node]?.bind SynCell.value = some (entry txs node)
    rw [here,holds]
    rfl
  · intro other member
    by_cases own : node = other
    · subst own
      rw [List.getElem?_modify_eq,here,holds]
      simp [Stage.cell,Stage.held,Stage.emptied,SynCell.write]
    · rw [List.getElem?_modify_ne _ _ own,cells other (same ▸ member),stage]
      simp [Stage.cell,Stage.held,Stage.emptied,own]
  · intro other outside
    apply List.getElem?_modify_ne
    rintro rfl
    exact outside first

theorem drop_moves (stage : w.stage = .taken rowTxs (some (entry txs node)) node todo) (distinct : w.ahead.Nodup)
    (cells : ∀ node ∈ w.ahead, weights[node]? = some (w.stage.cell txs node)) :
    Moved rt sch state cache txs weights (weights.modify node SynCell.unlock) w
      {w with stage := .gathering (rowTxs ++ [entry txs node]) todo} := by
  have split : w.ahead = node :: Worker.ahead {w with stage := .gathering (rowTxs ++ [entry txs node]) todo} := by
    simp only [Worker.ahead,stage,Stage.left,List.cons_append]
  have here := cells node (split ▸ List.mem_cons_self)
  have holds : w.stage.cell txs node = ⟨SynCell.writeBit,none⟩ := by
    simp [stage,Stage.cell,Stage.held,Stage.emptied]
  have freed : (weights.modify node SynCell.unlock)[node]? = some ⟨0,none⟩ := by
    rw [List.getElem?_modify_eq,here,holds]
    exact congrArg some (SynCell.unlock_held rfl)
  rw [split] at distinct
  obtain ⟨apart,_⟩ := List.nodup_cons.mp distinct
  refine ⟨List.length_modify ..,?_,trivial,split ▸ List.sublist_cons_self _ _,?_,?_,?_⟩
  · simp only [Worker.expect,stage,List.append_assoc,List.singleton_append,List.map_cons]
    rfl
  · intro other member
    have own : node ≠ other := fun same => apart (same ▸ member)
    rw [List.getElem?_modify_ne _ _ own,cells other (split ▸ List.mem_cons_of_mem _ member),stage]
    simp [Stage.cell,Stage.held,Stage.emptied,own]
  · intro other member left
    rw [split] at member
    rcases List.mem_cons.mp member with rfl | later
    · exact freed
    · exact (left later).elim
  · intro other outside
    apply List.getElem?_modify_ne
    rintro rfl
    exact outside (split ▸ List.mem_cons_self)

theorem execute_moves {slots : List Slot} {slot : Nat} {entry : Transaction × Nat} (stage : w.stage = .running slots)
    (vacant : slots[slot]? = some (entry,none)) (fit : w.Fit rt sch state cache txs)
    (cells : ∀ node ∈ w.ahead, weights[node]? = some (w.stage.cell txs node)) :
    Moved rt sch state cache txs weights weights w
      {w with stage := .running (slots.set slot (entry,some (outcome rt sch state cache w.accState entry).1))} := by
  have same : Worker.ahead {w with
      stage := .running (slots.set slot (entry,some (outcome rt sch state cache w.accState entry).1))} = w.ahead := by
    simp only [Worker.ahead,stage,Stage.left]
  refine ⟨rfl,?_,?_,same ▸ .refl _,?_,fun node member left => (left (same ▸ member)).elim,fun _ _ => rfl⟩
  · have entries : (slots.set slot (entry,some (outcome rt sch state cache w.accState entry).1)).map Prod.fst =
        slots.map Prod.fst := by
      have there : (slots.map Prod.fst)[slot]? = some entry := by
        rw [List.getElem?_map,vacant]
        rfl
      obtain ⟨bound,value⟩ := List.getElem?_eq_some_iff.mp there
      rw [List.map_set]
      exact (congrArg _ value.symm).trans (List.set_getElem_self bound)
    simp only [Worker.expect,stage]
    rw [entries]
    rfl
  · simp only [Fit,stage] at fit ⊢
    intro other member result filled
    rcases List.mem_or_eq_of_mem_set member with old | rfl
    · exact fit other old result filled
    · exact (Option.some.inj filled).symm
  · intro node member
    rw [cells node (same ▸ member),stage]
    rfl

theorem filled_results {slots : List Slot} {acc : StateDiff} (filled : slots.all (fun s => s.2.isSome) = true)
    (fit : ∀ slot ∈ slots, ∀ result, slot.2 = some result → result = (outcome rt sch state cache acc slot.1).1) :
    (slots.filterMap fun s => s.2.map fun result => (result,s.1.2)) =
      (slots.map Prod.fst).map (outcome rt sch state cache acc) := by
  induction slots with
  | nil => rfl
  | cons slot slots ih =>
      obtain ⟨first,later⟩ := Bool.and_eq_true_iff.mp (List.all_cons ▸ filled)
      obtain ⟨result,same⟩ := Option.isSome_iff_exists.mp first
      have value := fit slot List.mem_cons_self result same
      rw [List.filterMap_cons,same,Option.map_some,ih later fun other member => fit other (List.mem_cons_of_mem _ member),
        List.map_cons,List.map_cons,value]
      rfl

theorem join_moves {slots : List Slot} (stage : w.stage = .running slots)
    (filled : slots.all (fun s => s.2.isSome) = true) (fit : w.Fit rt sch state cache txs)
    (cells : ∀ node ∈ w.ahead, weights[node]? = some (w.stage.cell txs node)) :
    let results := slots.filterMap fun s => s.2.map fun result => (result,s.1.2)
    Moved rt sch state cache txs weights weights w
      (nextRow {w with accState := accumulate w.accState results, txs := w.txs ++ results}) := by
  intro results
  have same : (nextRow {w with accState := accumulate w.accState results, txs := w.txs ++ results}).ahead = w.ahead := by
    rw [nextRow_ahead]
    simp only [Worker.ahead,stage,Stage.left,List.nil_append]
  refine ⟨rfl,?_,nextRow_fit,same ▸ .refl _,?_,fun node member left => (left (same ▸ member)).elim,fun _ _ => rfl⟩
  · simp only [Fit,stage] at fit
    rw [nextRow_expect]
    simp only [Worker.expect,stage,rest,results,filled_results filled fit,List.append_assoc]
  · intro node member
    rw [nextRow_cell,cells node (same ▸ member),stage]
    rfl

theorem step_moves (slot : Nat) (fit : w.Fit rt sch state cache txs) (distinct : w.ahead.Nodup)
    (cells : ∀ node ∈ w.ahead, weights[node]? = some (w.stage.cell txs node)) :
    let moved := w.step rt sch state cache slot weights
    Moved rt sch state cache txs weights moved.1 w moved.2 := by
  intro moved
  cases stage : w.stage with
  | gathering rowTxs todo =>
      cases todo with
      | nil =>
          have taken : moved = (weights,{w with stage := .running (rowTxs.map fun entry => (entry,none))}) := by
            simp only [moved,step,stage]
          rw [taken]
          exact gathered_moves stage cells
      | cons node todo =>
          have here := cells node (by simp [Worker.ahead,stage,Stage.left])
          have free : w.stage.cell txs node = ⟨0,some (entry txs node)⟩ := by
            simp [stage,Stage.cell,Stage.held,Stage.emptied]
          have borrowed : moved = (weights.set node ⟨SynCell.writeBit,some (entry txs node)⟩,
              {w with stage := .guarded rowTxs node todo}) := by
            simp only [moved,step,stage]
            rw [here,free]
            simp only [SynCell.borrowMut_free]
          rw [borrowed]
          exact borrow_moves stage cells
  | guarded rowTxs node todo =>
      have taken : moved = (weights.modify node (SynCell.write fun _ => none),
          {w with stage := .taken rowTxs (weights[node]?.bind SynCell.value) node todo}) := by
        simp only [moved,step,stage]
      rw [taken]
      exact take_moves stage cells
  | taken rowTxs tx node todo =>
      simp only [Fit,stage] at fit
      subst fit
      have dropped : moved = (weights.modify node SynCell.unlock,
          {w with stage := .gathering (rowTxs ++ [entry txs node]) todo}) := by
        simp only [moved,step,stage]
      rw [dropped]
      exact drop_moves stage distinct cells
  | running slots =>
      have worked : moved = (weights,w.work rt sch state cache slots slot) := by
        simp only [moved,step,stage]
      rw [worked]
      unfold work
      split
      · rename_i entry vacant
        exact execute_moves stage vacant fit cells
      · split
        · rename_i filled
          exact join_moves stage filled fit cells
        · exact Moved.refl fit cells
  | finished =>
      have same : moved = (weights,w) := by simp only [moved,step,stage]
      rw [same]
      exact Moved.refl fit cells
  | retreating node | panicked panic => simp only [Fit,stage] at fit

theorem execute_cost {slots : List Slot} {slot : Nat} {entry : Transaction × Nat} (result : Except Error StateDiff)
    (vacant : slots[slot]? = some (entry,none)) :
    (slots.set slot (entry,some result)).countP (fun s => s.2.isNone) < slots.countP fun s => s.2.isNone := by
  obtain ⟨bound,value⟩ := List.getElem?_eq_some_iff.mp vacant
  have counted : 0 < slots.countP fun s => s.2.isNone :=
    List.countP_pos_iff.mpr ⟨_,List.mem_of_getElem? vacant,rfl⟩
  rw [List.countP_set bound,value]
  change _ - 1 + 0 < _
  omega

theorem restage_cost {stage : Stage} (cheaper : stage.cost < w.stage.cost) : cost {w with stage := stage} < w.cost :=
  Nat.add_lt_add_right cheaper _

theorem work_cost {slots : List Slot} (stage : w.stage = .running slots) (slot : Nat) :
    w.work rt sch state cache slots slot = w ∨ (w.work rt sch state cache slots slot).cost < w.cost := by
  unfold work
  split
  · rename_i entry vacant
    refine .inr (restage_cost ?_)
    rw [stage]
    exact Nat.succ_lt_succ (execute_cost _ vacant)
  · split
    · right
      rw [nextRow_cost]
      simp only [cost,stage,Stage.cost]
      omega
    · exact .inl rfl

theorem step_cost (slot : Nat) (weights : Weights) (w : Worker) :
    let moved := w.step rt sch state cache slot weights
    moved = (weights,w) ∨ moved.2.cost < w.cost := by
  intro moved
  cases stage : w.stage with
  | gathering rowTxs todo =>
      right
      cases todo with
      | nil =>
          simp only [moved,step,stage]
          refine restage_cost ?_
          simp only [stage,Stage.cost,List.countP_map]
          have all := List.countP_le_length (p := (fun s : Slot => s.2.isNone) ∘ fun entry => (entry,none)) (l := rowTxs)
          omega
      | cons node todo =>
          simp only [moved,step,stage]
          split
          · refine restage_cost ?_
            simp [stage,Stage.cost]
          · rename_i cell here
            refine restage_cost ?_
            rw [stage]
            cases cell.borrowMut.1 with
            | granted =>
                simp only [Stage.cost,List.length_cons]
                omega
            | refused | retreats => simp [Stage.cost]
  | guarded rowTxs node todo =>
      right
      simp only [moved,step,stage]
      refine restage_cost ?_
      simp [stage,Stage.cost]
  | taken rowTxs tx node todo =>
      right
      simp only [moved,step,stage]
      refine restage_cost ?_
      rw [stage]
      cases tx with
      | none => simp [Stage.cost]
      | some entry =>
          simp only [Stage.cost,List.length_append,List.length_singleton]
          omega
  | retreating node =>
      right
      simp only [moved,step,stage]
      refine restage_cost ?_
      simp [stage,Stage.cost]
  | running slots =>
      simp only [moved,step,stage]
      rcases work_cost stage slot with same | less
      · exact .inl (congrArg _ same)
      · exact .inr less
  | finished | panicked panic =>
      left
      simp only [moved,step,stage]

theorem step_advances (weights : Weights) (w : Worker) (busy : w.stage.cost ≠ 0) :
    ∃ slot, (w.step rt sch state cache slot weights).2.cost < w.cost := by
  have stays : ∀ slot, (w.step rt sch state cache slot weights).2.stage ≠ w.stage →
      (w.step rt sch state cache slot weights).2.cost < w.cost := by
    intro slot differs
    rcases step_cost slot weights w with same | less
    · exact (differs (congrArg (fun moved => moved.2.stage) same)).elim
    · exact less
  cases stage : w.stage with
  | gathering rowTxs todo =>
      refine ⟨0,stays 0 ?_⟩
      cases todo with
      | nil => simp [step,stage]
      | cons node todo =>
          simp only [step,stage]
          split
          · simp
          · rename_i cell here
            cases cell.borrowMut.1 <;> simp
  | guarded rowTxs node todo => exact ⟨0,stays 0 (by simp [step,stage])⟩
  | taken rowTxs tx node todo =>
      refine ⟨0,stays 0 ?_⟩
      cases tx <;> simp [step,stage]
  | retreating node => exact ⟨0,stays 0 (by simp [step,stage])⟩
  | running slots =>
      by_cases filled : slots.all (fun s => s.2.isSome) = true
      · refine ⟨slots.length,?_⟩
        have beyond : slots[slots.length]? = none := List.getElem?_eq_none (Nat.le_refl _)
        simp only [step,stage,work,beyond,filled,if_true]
        rw [nextRow_cost]
        simp only [cost,stage,Stage.cost]
        omega
      · obtain ⟨⟨entry,result⟩,member,empty⟩ := List.all_eq_false.mp (Bool.eq_false_iff.mpr filled)
        obtain rfl : result = none := by simpa using empty
        obtain ⟨slot,vacant⟩ := List.mem_iff_getElem?.mp member
        refine ⟨slot,?_⟩
        simp only [step,stage,work,vacant]
        refine restage_cost ?_
        rw [stage]
        exact Nat.succ_lt_succ (execute_cost _ vacant)
  | finished | panicked panic => simp [stage,Stage.cost] at busy

end
end Worker

namespace Stage

theorem held_left {stage : Stage} {node : Nat} (held : stage.held = some node) : node ∈ stage.left := by
  cases stage with
  | guarded rowTxs own todo | taken rowTxs tx own todo =>
      cases held
      exact List.mem_cons_self
  | gathering rowTxs todo | retreating own | running slots | finished | panicked panic => cases held

end Stage

namespace Crew
open Schedule Execution

section
variable (rt : Runtime) (sch : Scheduler) (state cache : View) (txs : List Transaction)

-- Every thread has its own tree: what is ahead of it is as nobody has touched it,
-- what is behind it is empty, and it is on its way to the results of its tree.
structure Sound (tree : Nat → List (List Nat)) (c : Crew) : Prop where
  sized : c.weights.length = txs.length
  fit : ∀ r, (c.workers r).Fit rt sch state cache txs
  expect : ∀ r, (c.workers r).expect rt sch state cache txs = rowResults rt sch state cache txs default (tree r)
  ahead : ∀ r, (c.workers r).ahead.Sublist (tree r).flatten
  cells : ∀ r, ∀ node ∈ (c.workers r).ahead, c.weights[node]? = some ((c.workers r).stage.cell txs node)
  passed : ∀ r, ∀ node ∈ (tree r).flatten, node ∉ (c.workers r).ahead → c.weights[node]? = some ⟨0,none⟩

structure Apart (tree : Nat → List (List Nat)) : Prop where
  once : ∀ r, (tree r).flatten.Nodup
  apart : ∀ r r' node, node ∈ (tree r).flatten → node ∈ (tree r').flatten → r = r'

def cost (s : Schedule) (c : Crew) : Nat := (s.roots.map fun r => (c.workers r).cost).sum

def done (s : Schedule) (c : Crew) : Prop := ∀ r ∈ s.roots, (c.workers r).stage = .finished

end

section
variable {rt : Runtime} {sch : Scheduler} {state cache : View} {txs : List Transaction}
  {tree : Nat → List (List Nat)} {c : Crew}

theorem step_sound (apart : Apart tree) (move : Nat × Nat) (sound : c.Sound rt sch state cache txs tree) :
    (c.step rt sch state cache move).Sound rt sch state cache txs tree := by
  obtain ⟨r,slot⟩ := move
  have moved := Worker.step_moves slot (sound.fit r) ((apart.once r).sublist (sound.ahead r)) (sound.cells r)
  have mover : (c.step rt sch state cache (r,slot)).workers r =
      ((c.workers r).step rt sch state cache slot c.weights).2 := Function.update_self ..
  have others : ∀ r', r' ≠ r → (c.step rt sch state cache (r,slot)).workers r' = c.workers r' :=
    fun r' differs => Function.update_of_ne differs ..
  have untouched : ∀ r', r' ≠ r → ∀ node ∈ (tree r').flatten,
      (c.step rt sch state cache (r,slot)).weights[node]? = c.weights[node]? :=
    fun r' differs node member => moved.frame node fun own => differs (apart.apart r' r node member ((sound.ahead r).subset own))
  refine ⟨moved.sized.trans sound.sized,?_,?_,?_,?_,?_⟩ <;> intro r' <;> by_cases same : r' = r
  · subst same
    exact mover ▸ moved.fit
  · exact others r' same ▸ sound.fit r'
  · subst same
    rw [mover,moved.expect]
    exact sound.expect r'
  · exact others r' same ▸ sound.expect r'
  · subst same
    exact mover ▸ moved.ahead.trans (sound.ahead r')
  · exact others r' same ▸ sound.ahead r'
  · subst same
    rw [mover]
    exact moved.cells
  · rw [others r' same]
    intro node member
    rw [untouched r' same node ((sound.ahead r').subset member)]
    exact sound.cells r' node member
  · subst same
    rw [mover]
    intro node member left
    by_cases before : node ∈ (c.workers r').ahead
    · exact moved.passed node before left
    · exact (moved.frame node before).trans (sound.passed r' node member before)
  · rw [others r' same]
    intro node member left
    rw [untouched r' same node member]
    exact sound.passed r' node member left

theorem run_sound (apart : Apart tree) (moves : List (Nat × Nat)) (sound : c.Sound rt sch state cache txs tree) :
    (c.run rt sch state cache moves).Sound rt sch state cache txs tree := by
  induction moves generalizing c with
  | nil => exact sound
  | cons move moves ih => exact ih (step_sound apart move sound)

-- A cell is locked while the thread of its tree is at it, and by nobody else.
theorem Sound.exclusive (apart : Apart tree) (cover : ∀ node < txs.length, ∃ r, node ∈ (tree r).flatten)
    (sound : c.Sound rt sch state cache txs tree) (node : Nat) (cell : SynCell (Option (Transaction × Nat)))
    (there : c.weights[node]? = some cell) :
    cell.state = 0 ∧ (∀ r, (c.workers r).stage.held ≠ some node) ∨
      cell.state = SynCell.writeBit ∧ ∃ r, (c.workers r).stage.held = some node ∧
        ∀ r', (c.workers r').stage.held = some node → r' = r := by
  obtain ⟨r,member⟩ := cover node (sound.sized ▸ (List.getElem?_eq_some_iff.mp there).1)
  have near : ∀ r', (c.workers r').stage.held = some node → node ∈ (c.workers r').ahead :=
    fun r' held => List.mem_append_left _ (Stage.held_left held)
  have only : ∀ r', (c.workers r').stage.held = some node → r' = r :=
    fun r' held => apart.apart r' r node ((sound.ahead r').subset (near r' held)) member
  by_cases left : node ∈ (c.workers r).ahead
  · have same := Option.some.inj (there.symm.trans (sound.cells r node left))
    by_cases held : (c.workers r).stage.held = some node
    · refine .inr ⟨?_,r,held,only⟩
      rw [same,Stage.cell,if_pos held]
    · refine .inl ⟨?_,fun r' other => held (only r' other ▸ other)⟩
      rw [same,Stage.cell,if_neg held]
  · have same := Option.some.inj (there.symm.trans (sound.passed r node member left))
    exact .inl ⟨congrArg SynCell.state same,fun r' held => left (only r' held ▸ near r' held)⟩

end

def treeOf (s : Schedule) (r : Nat) : List (List Nat) := if r ∈ s.roots then treeRows s.graph r else []

section
variable (rt : Runtime) (sch : Scheduler) (u : Components.Labeling) (state cache : View) (txs : List Transaction)

theorem treeOf_apart : Apart (treeOf (new u state txs)) := by
  have distinct := (visited_once state txs u).nodup_iff.mpr List.nodup_range
  constructor
  · intro r
    unfold treeOf
    split
    · rename_i root
      exact (List.nodup_flatMap.mp distinct).1 r root
    · exact List.nodup_nil
  · intro r r' node member member'
    unfold treeOf at member member'
    split at member
    · rename_i root
      split at member'
      · rename_i root'
        exact (tree_member state txs u root member).symm.trans (tree_member state txs u root' member')
      · cases member'
    · cases member

theorem treeOf_cover (node : Nat) (bound : node < txs.length) : ∃ r, node ∈ (treeOf (new u state txs) r).flatten := by
  obtain ⟨r,root,member⟩ := List.mem_flatMap.mp ((visited_once state txs u).mem_iff.mpr (List.mem_range.mpr bound))
  exact ⟨r,by rwa [treeOf,if_pos root]⟩

theorem treeOf_inside {r node : Nat} (member : node ∈ (treeOf (new u state txs) r).flatten) : node < txs.length := by
  unfold treeOf at member
  split at member
  · rename_i root
    exact List.mem_range.mp ((visited_once state txs u).mem_iff.mp (List.mem_flatMap.mpr ⟨r,root,member⟩))
  · cases member

theorem start_sound : (start (new u state txs)).Sound rt sch state cache txs (treeOf (new u state txs)) := by
  have begun : ∀ r, ((start (new u state txs)).workers r).ahead = (treeOf (new u state txs) r).flatten :=
    fun r => Worker.nextRow_ahead
  refine ⟨?_,fun r => Worker.nextRow_fit,fun r => Worker.nextRow_expect,fun r => begun r ▸ .refl _,?_,
    fun r node member left => (left (begun r ▸ member)).elim⟩
  · simp [start,new_cells,cellsAfter]
  · intro r node member
    have bound := treeOf_inside u state txs (begun r ▸ member)
    have fresh : (start (new u state txs)).weights[node]? = some ⟨0,some (entry txs node)⟩ := by
      simp [start,new_cells,cellsAfter_get,bound,entry,SynCell.new]
    exact fresh.trans (congrArg some (Worker.nextRow_cell node).symm)

theorem done_results {c : Crew} (sound : c.Sound rt sch state cache txs (treeOf (new u state txs)))
    (ended : c.done (new u state txs)) : executeMany rt sch u state cache txs = .ok (c.results (new u state txs)) := by
  have distinct := (visited_once state txs u).nodup_iff.mpr List.nodup_range
  have each : ∀ r ∈ (new u state txs).roots,
      (c.workers r).txs = rowResults rt sch state cache txs default (treeRows (new u state txs).graph r) := by
    intro r root
    have expected := sound.expect r
    rw [treeOf,if_pos root] at expected
    simpa only [Worker.expect,ended r root] using expected
  obtain ⟨cells,ran⟩ := runTrees_fresh rt sch state cache txs (Collect.all_end txs) [] []
    (fun i member => List.mem_range.mp ((visited_once state txs u).mem_iff.mp member)) distinct (by simp)
  rw [executeMany_ends (Collect.all_end txs),Schedule.run,new_cells,ran,results,List.flatMap_congr each]
  rfl

theorem step_cheaper (s : Schedule) (c : Crew) (move : Nat × Nat) (root : move.1 ∈ s.roots) (distinct : s.roots.Nodup)
    (less : ((c.step rt sch state cache move).workers move.1).cost < (c.workers move.1).cost) :
    (c.step rt sch state cache move).cost s < c.cost s := by
  obtain ⟨before,after,split⟩ := List.append_of_mem root
  have others : ∀ r, r ≠ move.1 → ((c.step rt sch state cache move).workers r).cost = (c.workers r).cost :=
    fun r differs => congrArg Worker.cost (Function.update_of_ne differs ..)
  rw [split,List.nodup_middle,List.nodup_cons,List.mem_append,not_or] at distinct
  have front : before.map (fun r => ((c.step rt sch state cache move).workers r).cost) =
      before.map fun r => (c.workers r).cost :=
    List.map_congr_left fun r member => others r fun same => distinct.1.1 (same ▸ member)
  have back : after.map (fun r => ((c.step rt sch state cache move).workers r).cost) =
      after.map fun r => (c.workers r).cost :=
    List.map_congr_left fun r member => others r fun same => distinct.1.2 (same ▸ member)
  simp only [cost,split,List.map_append,List.map_cons,List.sum_append,List.sum_cons,front,back]
  omega

theorem run_idle {c : Crew} {r : Nat} (moves : List (Nat × Nat)) (idle : (c.workers r).stage = .finished) :
    ((c.run rt sch state cache moves).workers r).stage = .finished := by
  induction moves generalizing c with
  | nil => exact idle
  | cons move moves ih =>
      refine ih ?_
      by_cases same : r = move.1
      · subst same
        have stays : (c.workers move.1).step rt sch state cache move.2 c.weights = (c.weights,c.workers move.1) := by
          simp only [Worker.step,idle]
        simp only [step,stays,Function.update_self]
        exact idle
      · exact (congrArg Worker.stage (Function.update_of_ne same ..)).trans idle

theorem start_idle {s : Schedule} {r : Nat} (outside : r ∉ s.roots) : ((start s).workers r).stage = .finished := by
  simp only [start,if_neg outside]
  rfl

end
end Crew

-- Block execution on threads of their own, under every interleaving: nothing panics, at
-- most one thread is at a cell, and some move leads on until all threads have ended; then
-- the results are those of running the trees one after the other.
theorem Schedule.crew_executes (rt : Runtime) (sch : Execution.Scheduler) (u : Components.Labeling) (state cache : View)
    (txs : List Transaction) (moves : List (Nat × Nat)) :
    let s := Schedule.new u state txs
    let c := (Crew.start s).run rt sch state cache moves
    (∀ r, (∀ panic, (c.workers r).stage ≠ .panicked panic) ∧ ∀ node, (c.workers r).stage ≠ .retreating node) ∧
    (∀ (node : Nat) cell, c.weights[node]? = some cell →
      cell.state = 0 ∧ (∀ r, (c.workers r).stage.held ≠ some node) ∨
        cell.state = SynCell.writeBit ∧ ∃ r, (c.workers r).stage.held = some node ∧
          ∀ r', (c.workers r').stage.held = some node → r' = r) ∧
    (∀ move, c.step rt sch state cache move = c ∨ (c.step rt sch state cache move).cost s < c.cost s) ∧
    (c.done s ∨ ∃ move, (c.step rt sch state cache move).cost s < c.cost s) ∧
    (c.done s → executeMany rt sch u state cache txs = .ok (c.results s)) := by
  intro s c
  have sound : c.Sound rt sch state cache txs (Crew.treeOf s) :=
    Crew.run_sound (Crew.treeOf_apart u state txs) moves (Crew.start_sound rt sch u state cache txs)
  have distinct : s.roots.Nodup := (rootsOf_exact u (new_linked state txs u) (new_sized state txs u)).1
  refine ⟨?_,sound.exclusive (Crew.treeOf_apart u state txs) (Crew.treeOf_cover u state txs),?_,?_,
    Crew.done_results rt sch u state cache txs sound⟩
  · intro r
    have fit := sound.fit r
    constructor
    · intro panic stage
      simp only [Worker.Fit,stage] at fit
    · intro node stage
      simp only [Worker.Fit,stage] at fit
  · intro move
    by_cases root : move.1 ∈ s.roots
    · rcases @Worker.step_cost rt sch state cache move.2 c.weights (c.workers move.1) with same | less
      · refine .inl ?_
        simp only [Crew.step,same,Function.update_eq_self]
      · refine .inr (Crew.step_cheaper rt sch state cache s c move root distinct ?_)
        simpa only [Crew.step,Function.update_self] using less
    · have idle : (c.workers move.1).stage = .finished :=
        Crew.run_idle rt sch state cache moves (Crew.start_idle root)
      refine .inl ?_
      simp only [Crew.step,Worker.step,idle,Function.update_eq_self]
  · by_cases ended : c.done s
    · exact .inl ended
    · obtain ⟨r,rest⟩ := not_forall.mp ended
      obtain ⟨root,busy⟩ := Classical.not_imp.mp rest
      have costly : (c.workers r).stage.cost ≠ 0 := by
        have fit := sound.fit r
        cases stage : (c.workers r).stage with
        | finished => exact (busy stage).elim
        | panicked panic => simp only [Worker.Fit,stage] at fit
        | gathering rowTxs todo | guarded rowTxs node todo | taken rowTxs tx node todo | running slots | retreating node =>
            simp [Stage.cost]
      obtain ⟨slot,less⟩ := @Worker.step_advances rt sch state cache c.weights (c.workers r) costly
      refine .inr ⟨(r,slot),Crew.step_cheaper rt sch state cache s c (r,slot) root distinct ?_⟩
      simpa only [Crew.step,Function.update_self] using less

namespace CrewExample
open Execution

def txs : List Transaction :=
  [FootprintExample.creates FootprintExample.parent,FootprintExample.creates FootprintExample.child,
    FootprintExample.creates FootprintExample.parent]

def schedule : Schedule := .new .quick FootprintExample.nothing txs

def moves : List (Nat × Nat) := (List.replicate 12 [(0,0),(1,0)]).flatten

def final : Crew :=
  (Crew.start schedule).run acceptHost.runtime .inOrder FootprintExample.nothing FootprintExample.nothing moves

end CrewExample

theorem two_threads_end : CrewExample.final.done CrewExample.schedule ∧
    executeMany acceptHost.runtime .inOrder .quick Execution.FootprintExample.nothing Execution.FootprintExample.nothing
      CrewExample.txs = .ok (CrewExample.final.results CrewExample.schedule) := by
  have roots : CrewExample.schedule.roots = [0,1] := by decide
  have done : CrewExample.final.done CrewExample.schedule := by
    intro r root
    rw [roots] at root
    rcases List.mem_cons.mp root with rfl | root
    · rfl
    · obtain rfl := List.mem_singleton.mp root
      rfl
  obtain ⟨_,_,_,_,same⟩ := Schedule.crew_executes acceptHost.runtime .inOrder .quick Execution.FootprintExample.nothing
    Execution.FootprintExample.nothing CrewExample.txs CrewExample.moves
  exact ⟨done,same done⟩

end AnomaAlpha
