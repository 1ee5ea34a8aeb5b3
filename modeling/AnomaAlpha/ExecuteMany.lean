import AnomaAlpha.Schedule

set_option linter.unusedSectionVars false

namespace AnomaAlpha

-- The two `expect`s of `Tree::run`, and how the iterations over ancestors fail.
inductive Panic where
  | retreivedThroughTraversal
  | transactionVisitedMoreThanOnce
  | halt (reason : Halt)
  deriving DecidableEq

def Panic.ofStop : Stop Empty → Panic
  | .error e => nomatch e
  | .halt reason => .halt reason

abbrev Cells (A : Type := Address) [Ord A] := List (Option (Transaction A × Nat))
abbrev Outcome (A : Type := Address) [Ord A] := Except (Error A) (StateDiff A) × Nat

variable {A : Type} [DecidableEq A] [Ord A] [Std.TransOrd A] [Std.LawfulEqOrd A]
  [AddressSpace A]

namespace Schedule
open Execution Fallible

def takeCell (cells : Cells A) (node : Nat) : Except Panic ((Transaction A × Nat) × Cells A) :=
  match cells[node]? with
  | none => .error .retreivedThroughTraversal
  | some none => .error .transactionVisitedMoreThanOnce
  | some (some entry) => .ok (entry,cells.set node none)

def takeRow (cells : Cells A) : List Nat → Except Panic (List (Transaction A × Nat) × Cells A)
  | [] => .ok ([],cells)
  | node :: row => do
    let (entry,cells) ← takeCell cells node
    let (entries,cells) ← takeRow cells row
    return (entry :: entries,cells)

def accumulate (acc : StateDiff A) (results : List (Outcome A)) : StateDiff A :=
  results.foldl (fun acc result => match result.1 with
    | .ok diff => acc.apply diff
    | .error _ => acc) acc

section
variable (rt : Runtime A) (sch : Scheduler A) (state cache : View A)

def runEntry (rt : Runtime A) (sch : Scheduler A) (view cache : View A) (entry : Transaction A × Nat) :
    Except Panic (Outcome A) := do
  let result ← (Stop.settle (executeOrHalt rt sch entry.1 view cache)).mapError Panic.halt
  return (result,entry.2)

-- The `while let Some(row)` loop of `Tree::run`. The transactions of one row run
-- in parallel on the same view, so their order does not matter.
def runRows : List (List Nat) → Cells A → StateDiff A → List (Outcome A) → Except Panic (List (Outcome A) × Cells A)
  | [],cells,_,txs => .ok (txs,cells)
  | row :: rows,cells,accState,txs => do
    let (rowTxs,cells) ← takeRow cells row
    let view := (Overlayed.mk state accState.get).get
    let results ← rowTxs.mapM (runEntry rt sch view cache)
    runRows rows cells (accumulate accState results) (txs ++ results)

def treeRows (g : Graph A) (root : Nat) : List (List Nat) :=
  BfsRows.rows g.neighbors g.nodeBound (g.nodeBound+1) (BfsRows.new root)

def runTree (g : Graph A) (cells : Cells A) (root : Nat) : Except Panic (List (Outcome A) × Cells A) :=
  runRows rt sch state cache (treeRows g root) cells default []

def run (s : Schedule A) : Except Panic (List (Except (Error A) (StateDiff A))) := do
  let (trees,_) ← s.roots.foldlM (fun (done : List (Outcome A) × Cells A) root => do
    let (results,cells) ← runTree rt sch state cache s.graph done.2 root
    return (done.1 ++ results,cells)) ([],s.graph.cells)
  return (trees.insertionSort fun a b => a.2 ≤ b.2).map Prod.fst

end

end Schedule

def executeMany (rt : Runtime A) (sch : Execution.Scheduler A) (u : Components.Labeling) (state cache : View A)
    (txs : List (Transaction A)) : Except Panic (List (Except (Error A) (StateDiff A))) := do
  let s ← (Schedule.newOrHalt u state txs).mapError Panic.ofStop
  s.run rt sch state cache

instance : Inhabited (Transaction A) := ⟨.new [] ∅⟩

namespace Schedule
open Execution Fallible

def cellsAfter (txs : List (Transaction A)) (taken : List Nat) : Cells A :=
  txs.zipIdx.map fun e => if e.2 ∈ taken then none else some e

def entry (txs : List (Transaction A)) (i : Nat) : Transaction A × Nat := (txs.getD i default,i)

theorem cellsAfter_get (txs : List (Transaction A)) (taken : List Nat) (i : Nat) :
    (cellsAfter txs taken)[i]? = txs[i]?.map fun tx => if i ∈ taken then none else some (tx,i) := by
  rw [cellsAfter,List.getElem?_map,List.getElem?_zipIdx,Option.map_map,Nat.zero_add]
  rfl

theorem takeCell_fresh {txs : List (Transaction A)} {taken : List Nat} {i : Nat} (bound : i < txs.length)
    (fresh : i ∉ taken) : takeCell (cellsAfter txs taken) i = .ok (entry txs i,cellsAfter txs (i :: taken)) := by
  have here : (cellsAfter txs taken)[i]? = some (some (entry txs i)) := by
    simp [cellsAfter_get,bound,fresh,entry]
  have after : (cellsAfter txs taken).set i none = cellsAfter txs (i :: taken) := by
    apply List.ext_getElem?
    intro j
    rw [List.getElem?_set,cellsAfter_get,cellsAfter_get]
    by_cases same : i = j
    · subst same
      simp [cellsAfter,bound]
    · simp [same,Ne.symm same]
  simp only [takeCell,here,after]

theorem takeRow_fresh {txs : List (Transaction A)} (taken : List Nat) {row : List Nat} (bound : ∀ i ∈ row, i < txs.length)
    (distinct : row.Nodup) (fresh : ∀ i ∈ row, i ∉ taken) :
    takeRow (cellsAfter txs taken) row = .ok (row.map (entry txs),cellsAfter txs (row.reverse ++ taken)) := by
  induction row generalizing taken with
  | nil => rfl
  | cons i row ih =>
      obtain ⟨new,rest⟩ := List.nodup_cons.mp distinct
      have later := ih (i :: taken) (fun j member => bound j (List.mem_cons_of_mem _ member)) rest (by
        intro j member seen
        rcases List.mem_cons.mp seen with rfl | old
        · exact new member
        · exact fresh j (List.mem_cons_of_mem _ member) old)
      simp only [takeRow,takeCell_fresh (bound i (by simp)) (fresh i (by simp)),bind,Except.bind,later]
      simp [pure,Except.pure]

section
variable (rt : Runtime A) (sch : Scheduler A) (state cache : View A) (txs : List (Transaction A))

def executeOn (acc : StateDiff A) (i : Nat) : Except (Error A) (StateDiff A) :=
  execute rt sch (txs.getD i default) (Overlayed.mk state acc.get).get cache

def rowResults : StateDiff A → List (List Nat) → List (Outcome A)
  | _,[] => []
  | acc,row :: rows =>
    let results := row.map fun i => (executeOn rt sch state cache txs acc i,i)
    results ++ rowResults (accumulate acc results) rows

theorem row_ends (ends : ∀ tx ∈ txs, Collect.Ends tx) (acc : StateDiff A) {row : List Nat}
    (bound : ∀ i ∈ row, i < txs.length) :
    (row.map (entry txs)).mapM (runEntry rt sch (Overlayed.mk state acc.get).get cache) =
      .ok (row.map fun i => (executeOn rt sch state cache txs acc i,i)) := by
  have each : ∀ i ∈ row, runEntry rt sch (Overlayed.mk state acc.get).get cache (entry txs i) =
      .ok (executeOn rt sch state cache txs acc i,i) := by
    intro i member
    have inside : (entry txs i).1 ∈ txs := by
      simp [entry,List.getD_eq_getElem?_getD,List.getElem?_eq_getElem (bound i member)]
    rw [runEntry,executeOrHalt_ends (ends _ inside)]
    change (Stop.settle ((executeOn rt sch state cache txs acc i).mapError .error)).mapError Panic.halt >>= _ = _
    cases executeOn rt sch state cache txs acc i <;> rfl
  rw [List.mapM_map]
  exact (mapM_congr each).trans mapM_pure

section
variable (ends : ∀ tx ∈ txs, Collect.Ends tx)
include ends

theorem runRows_fresh {rows : List (List Nat)} (taken : List Nat) (acc : StateDiff A) (out : List (Outcome A))
    (bound : ∀ i ∈ rows.flatten, i < txs.length) (distinct : rows.flatten.Nodup)
    (fresh : ∀ i ∈ rows.flatten, i ∉ taken) :
    runRows rt sch state cache rows (cellsAfter txs taken) acc out =
      .ok (out ++ rowResults rt sch state cache txs acc rows,cellsAfter txs (rows.flatten.reverse ++ taken)) := by
  induction rows generalizing taken acc out with
  | nil => simp [runRows,rowResults]
  | cons row rows ih =>
      rw [List.flatten_cons,List.nodup_append'] at distinct
      simp only [List.flatten_cons,List.mem_append] at bound fresh
      have row_taken := takeRow_fresh taken (fun i member => bound i (.inl member)) distinct.1
        fun i member => fresh i (.inl member)
      have results := row_ends rt sch state cache txs ends acc fun i member => bound i (.inl member)
      rw [runRows,row_taken]
      simp only [bind,Except.bind,results]
      rw [ih _ _ _ (fun i member => bound i (.inr member)) distinct.2.1 (by
        intro i member seen
        rcases List.mem_append.mp seen with here | old
        · exact List.disjoint_left.mp distinct.2.2 (List.mem_reverse.mp here) member
        · exact fresh i (.inr member) old)]
      simp [rowResults]

theorem runTrees_fresh {g : Graph A} {roots : List Nat} (taken : List Nat) (out : List (Outcome A))
    (bound : ∀ i ∈ roots.flatMap fun r => (treeRows g r).flatten, i < txs.length)
    (distinct : (roots.flatMap fun r => (treeRows g r).flatten).Nodup)
    (fresh : ∀ i ∈ roots.flatMap fun r => (treeRows g r).flatten, i ∉ taken) :
    ∃ cells, roots.foldlM (fun (done : List (Outcome A) × Cells A) root => do
        let (results,cells) ← runTree rt sch state cache g done.2 root
        return (done.1 ++ results,cells)) (out,cellsAfter txs taken) =
      .ok (out ++ roots.flatMap fun r => rowResults rt sch state cache txs default (treeRows g r),cells) := by
  induction roots generalizing taken out with
  | nil => exact ⟨_,by simp [pure,Except.pure]; rfl⟩
  | cons r roots ih =>
      rw [List.flatMap_cons,List.nodup_append'] at distinct
      simp only [List.flatMap_cons,List.mem_append] at bound fresh
      have tree := runRows_fresh rt sch state cache txs ends taken default []
        (fun i member => bound i (.inl member)) distinct.1 fun i member => fresh i (.inl member)
      obtain ⟨cells,rest⟩ := ih ((treeRows g r).flatten.reverse ++ taken)
        (out ++ rowResults rt sch state cache txs default (treeRows g r))
        (fun i member => bound i (.inr member)) distinct.2.1 (by
          intro i member seen
          rcases List.mem_append.mp seen with here | old
          · exact List.disjoint_left.mp distinct.2.2 (List.mem_reverse.mp here) member
          · exact fresh i (.inr member) old)
      refine ⟨cells,?_⟩
      rw [List.foldlM_cons]
      simp only [runTree,tree,List.nil_append,bind,Except.bind,pure,Except.pure] at rest ⊢
      rw [rest,List.flatMap_cons,List.append_assoc]

end

-- The results of a tree as a function of the transaction: each runs on what the
-- rows above it have left.
theorem rowResults_function {rows : List (List Nat)} (acc : StateDiff A) (distinct : rows.flatten.Nodup) :
    ∃ out : Nat → Except (Error A) (StateDiff A),
      rowResults rt sch state cache txs acc rows = rows.flatten.map (fun i => (out i,i)) ∧
      ∀ above row below, rows = above ++ row :: below → ∀ i ∈ row,
        out i = executeOn rt sch state cache txs (accumulate acc (above.flatten.map fun i => (out i,i))) i := by
  induction rows generalizing acc with
  | nil => exact ⟨fun _ => .error .cancelled,rfl,by simp⟩
  | cons row rows ih =>
      rw [List.flatten_cons,List.nodup_append'] at distinct
      obtain ⟨later,listed,stepped⟩ := ih (accumulate acc
        (row.map fun i => (executeOn rt sch state cache txs acc i,i))) distinct.2.1
      let out := fun i => if i ∈ row then executeOn rt sch state cache txs acc i else later i
      have first : (row.map fun i => (out i,i)) = row.map fun i => (executeOn rt sch state cache txs acc i,i) :=
        List.map_congr_left fun i member => by simp only [out,if_pos member]
      have others : ∀ l : List Nat, (∀ i ∈ l, i ∉ row) → (l.map fun i => (out i,i)) = l.map fun i => (later i,i) :=
        fun l apart => List.map_congr_left fun i member => by simp only [out,if_neg (apart i member)]
      have apart : ∀ i ∈ rows.flatten, i ∉ row := fun i member here => List.disjoint_left.mp distinct.2.2 here member
      refine ⟨out,?_,?_⟩
      · rw [rowResults,List.flatten_cons,List.map_append,first,others _ apart,listed]
      · intro above here below split i member
        cases above with
        | nil =>
            obtain ⟨rfl,rfl⟩ := List.cons.inj split
            simp only [out,if_pos member,List.flatten_nil,List.map_nil]
            rfl
        | cons top above =>
            obtain ⟨rfl,rfl⟩ := List.cons.inj split
            have inside : i ∈ (above ++ here :: below).flatten := by simp [member]
            have covered : ∀ j ∈ above.flatten, j ∉ row := fun j early => apart j (by simp [early])
            have value := stepped above here below rfl i member
            simp only [out,if_neg (apart i inside)]
            rw [value,List.flatten_cons,List.map_append,first,others _ covered,accumulate,accumulate,accumulate,
              List.foldl_append]

end

section
variable (state : View A) (txs : List (Transaction A))

def refsOf : List (TransactionRefs A) := txs.map fun tx => TransactionRefs.new tx state

def earlier (i : Nat) : List Nat :=
  levels (dependencies (refsOf state txs)).children ((dependencies (refsOf state txs)).root i)
    ((dependencies (refsOf state txs)).depth i)

theorem refsOf_length : (refsOf state txs).length = txs.length := List.length_map _

theorem earlier_inside {i k : Nat} (bound : i < txs.length) (member : k ∈ earlier state txs i) :
    (dependencies (refsOf state txs)).depth k < (dependencies (refsOf state txs)).depth i ∧ k < txs.length := by
  obtain ⟨rooted,shallow⟩ := (Forest.mem_levels (Forest.root_parent i) _ k).mp member
  rw [← refsOf_length state txs] at bound ⊢
  exact ⟨shallow,Forest.rooted_inside ((Forest.root_le i).trans_lt bound) rooted⟩

theorem new_linked (u : Components.Labeling) : (new u state txs).graph.edges = edgesOf (refsOf state txs) := by
  simp only [new,edgesOf,refsOf,List.zipIdx_map]
  rfl

theorem new_sized (u : Components.Labeling) : (new u state txs).graph.nodeBound = (refsOf state txs).length := by
  simp [new,Graph.nodeBound,refsOf]

theorem new_cells (u : Components.Labeling) : (new u state txs).graph.cells = cellsAfter txs [] := by
  simp [new,cellsAfter]

theorem treeRows_levels (u : Components.Labeling) {r : Nat} (root : r ∈ (new u state txs).roots) :
    ∃ height ≤ txs.length, level (dependencies (refsOf state txs)).children r height = [] ∧
      treeRows (new u state txs).graph r =
        (List.range height).map (level (dependencies (refsOf state txs)).children r) := by
  have linked := new_linked state txs u
  obtain ⟨bound,top⟩ := ((rootsOf_exact u linked (new_sized state txs u)).2 r).mp root
  rw [treeRows,neighbors_children linked,new_sized,← refsOf_length state]
  exact BfsRows.rows_levels (Forest.levels_nodup top) (Forest.level_narrow top bound) (Forest.level_bottom top bound)

-- All trees together visit every transaction exactly once.
theorem visited_once (u : Components.Labeling) :
    ((new u state txs).roots.flatMap fun r => (treeRows (new u state txs).graph r).flatten).Perm
      (List.range txs.length) := by
  have linked := new_linked state txs u
  obtain ⟨distinct,exact_roots⟩ := rootsOf_exact u linked (new_sized state txs u)
  have cover := Forest.trees_cover distinct exact_roots
  have same : ((new u state txs).roots.flatMap fun r => (treeRows (new u state txs).graph r).flatten) =
      (new u state txs).roots.flatMap fun r =>
        levels (dependencies (refsOf state txs)).children r (refsOf state txs).length := by
    apply List.flatMap_congr
    intro r root
    obtain ⟨height,small,empty,rows⟩ := treeRows_levels state txs u root
    rw [← refsOf_length state txs] at small
    rw [rows,levels_after empty small,levels,List.flatMap_def]
  rw [same,← refsOf_length state txs]
  exact cover

theorem tree_member (u : Components.Labeling) {r i : Nat} (root : r ∈ (new u state txs).roots)
    (member : i ∈ (treeRows (new u state txs).graph r).flatten) : (dependencies (refsOf state txs)).root i = r := by
  obtain ⟨height,_,_,rows⟩ := treeRows_levels state txs u root
  obtain ⟨_,top⟩ := ((rootsOf_exact u (new_linked state txs u) (new_sized state txs u)).2 r).mp root
  rw [rows,← List.flatMap_def] at member
  exact ((Forest.mem_levels top height i).mp member).1

theorem treeRows_at (u : Components.Labeling) {r i : Nat} (root : r ∈ (new u state txs).roots)
    (member : i ∈ (treeRows (new u state txs).graph r).flatten) :
    ∃ below, i ∈ level (dependencies (refsOf state txs)).children r ((dependencies (refsOf state txs)).depth i) ∧
      treeRows (new u state txs).graph r =
        (List.range ((dependencies (refsOf state txs)).depth i)).map
            (level (dependencies (refsOf state txs)).children r) ++
          level (dependencies (refsOf state txs)).children r ((dependencies (refsOf state txs)).depth i) :: below := by
  have rooted := tree_member state txs u root member
  obtain ⟨height,_,empty,rows⟩ := treeRows_levels state txs u root
  obtain ⟨_,top⟩ := ((rootsOf_exact u (new_linked state txs u) (new_sized state txs u)).2 r).mp root
  have here : i ∈ level (dependencies (refsOf state txs)).children r ((dependencies (refsOf state txs)).depth i) :=
    (Forest.mem_level top _ i).mpr ⟨rooted,rfl⟩
  have inside : (dependencies (refsOf state txs)).depth i < height := by
    by_contra deep
    rw [level_after empty (Nat.le_of_not_lt deep)] at here
    cases here
  obtain ⟨more,rfl⟩ := Nat.exists_eq_add_of_lt inside
  refine ⟨(List.range' ((dependencies (refsOf state txs)).depth i + 1) more).map
    (level (dependencies (refsOf state txs)).children r),here,?_⟩
  rw [rows,range_split,List.map_append,List.map_cons]

end

-- Distinct indices leave one way to sort.
theorem sort_outcomes (out : Nat → Except (Error A) (StateDiff A)) {nodes : List Nat} {n : Nat}
    (once : nodes.Perm (List.range n)) :
    ((nodes.map fun i => (out i,i)).insertionSort fun a b => a.2 ≤ b.2).map Prod.fst = (List.range n).map out := by
  have keyed : (nodes.map fun i => (out i,i)).insertionSort (fun a b => a.2 ≤ b.2) =
      (nodes.insertionSort (· ≤ ·)).map fun i => (out i,i) :=
    (List.map_insertionSort (· ≤ ·) (fun a b => a.2 ≤ b.2) (fun i => (out i,i)) nodes fun _ _ _ _ => Iff.rfl).symm
  have sorted : nodes.insertionSort (· ≤ ·) = List.range n :=
    ((List.perm_insertionSort _ nodes).trans once).eq_of_pairwise' (List.pairwise_insertionSort _ nodes)
      List.pairwise_le_range
  rw [keyed,sorted,List.map_map]
  rfl

theorem executeMany_ends {txs : List (Transaction A)} (ends : ∀ tx ∈ txs, Collect.Ends tx) (rt : Runtime A)
    (sch : Scheduler A) (u : Components.Labeling) (state cache : View A) :
    executeMany rt sch u state cache txs = (new u state txs).run rt sch state cache := by
  unfold executeMany
  rw [newOrHalt_kept fun tx member => TransactionRefs.ends_kept (ends tx member)]
  rfl

-- Block execution as a function of the index: every transaction runs once, on
-- the diffs of the rows above it in its own tree.
theorem executeMany_function {txs : List (Transaction A)} (ends : ∀ tx ∈ txs, Collect.Ends tx) (rt : Runtime A)
    (sch : Scheduler A) (u : Components.Labeling) (state cache : View A) :
    ∃ out : Nat → Except (Error A) (StateDiff A),
      executeMany rt sch u state cache txs = .ok ((List.range txs.length).map out) ∧
      ∀ i < txs.length, out i =
        executeOn rt sch state cache txs (accumulate default ((earlier state txs i).map fun k => (out k,k))) i := by
  have once := visited_once state txs u
  have distinct := once.nodup_iff.mpr List.nodup_range
  have trees : ∀ r, ∃ out : Nat → Except (Error A) (StateDiff A), r ∈ (new u state txs).roots →
      rowResults rt sch state cache txs default (treeRows (new u state txs).graph r) =
        (treeRows (new u state txs).graph r).flatten.map (fun i => (out i,i)) ∧
      ∀ above row below, treeRows (new u state txs).graph r = above ++ row :: below → ∀ i ∈ row,
        out i = executeOn rt sch state cache txs (accumulate default (above.flatten.map fun i => (out i,i))) i := by
    intro r
    by_cases root : r ∈ (new u state txs).roots
    · obtain ⟨out,spec⟩ := rowResults_function rt sch state cache txs default ((List.nodup_flatMap.mp distinct).1 r root)
      exact ⟨out,fun _ => spec⟩
    · exact ⟨fun _ => .error .cancelled,fun inside => absurd inside root⟩
  choose outs spec using trees
  let out := fun i => outs ((dependencies (refsOf state txs)).root i) i
  refine ⟨out,?_,?_⟩
  · have listed : ((new u state txs).roots.flatMap fun r =>
        rowResults rt sch state cache txs default (treeRows (new u state txs).graph r)) =
        ((new u state txs).roots.flatMap fun r => (treeRows (new u state txs).graph r).flatten).map
          fun i => (out i,i) := by
      rw [List.map_flatMap]
      apply List.flatMap_congr
      intro r root
      rw [(spec r root).1]
      apply List.map_congr_left
      intro i member
      simp only [out,tree_member state txs u root member]
    obtain ⟨cells,ran⟩ := runTrees_fresh rt sch state cache txs ends [] []
      (fun i member => List.mem_range.mp (once.mem_iff.mp member)) distinct (by simp)
    rw [executeMany_ends ends,run,new_cells,ran,listed]
    simp only [List.nil_append,bind,Except.bind,pure,Except.pure,sort_outcomes out once]
  · intro i bound
    have visited := once.mem_iff.mpr (List.mem_range.mpr bound)
    obtain ⟨r,root,member⟩ := List.mem_flatMap.mp visited
    have rooted := tree_member state txs u root member
    obtain ⟨_,top⟩ := ((rootsOf_exact u (new_linked state txs u) (new_sized state txs u)).2 r).mp root
    obtain ⟨below,here,split⟩ := treeRows_at state txs u root member
    have value := (spec r root).2 _ _ _ split i here
    rw [← List.flatMap_def] at value
    have above : ∀ k ∈ levels (dependencies (refsOf state txs)).children r ((dependencies (refsOf state txs)).depth i),
        outs r k = out k := by
      intro k early
      simp only [out,((Forest.mem_levels top _ k).mp early).1]
    rw [show out i = outs r i by simp only [out,rooted],value,earlier,rooted]
    congr 2
    apply List.map_congr_left
    intro k early
    rw [above k early]

end Schedule
end AnomaAlpha
