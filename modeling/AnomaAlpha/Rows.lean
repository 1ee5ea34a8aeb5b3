import AnomaAlpha.ExecuteMany
import AnomaAlpha.Lib.OutTree

namespace AnomaAlpha
open Components

namespace BfsRows

-- The traversal after `k` calls of `next`, and what the next call returns.
def after (neighbors : Nat → List Nat) (bound start : Nat) : Nat → BfsRows
  | 0 => new start
  | k+1 => (next neighbors bound (after neighbors bound start k)).2

def returned (neighbors : Nat → List Nat) (bound start k : Nat) : Option (List Nat) :=
  (next neighbors bound (after neighbors bound start k)).1

section
variable {neighbors : Nat → List Nat} {bound start : Nat}

theorem nextLoop_more {current fuel : Nat} {stack : List (Nat × Nat)} {discovered row : List Nat} (more : Nat)
    (ended : (nextLoop neighbors current fuel stack discovered row).1.length < row.length + fuel) :
    nextLoop neighbors current (fuel+more) stack discovered row =
      nextLoop neighbors current fuel stack discovered row := by
  induction fuel generalizing stack discovered row with
  | zero => exact absurd ended (Nat.lt_irrefl _)
  | succ fuel ih =>
      rw [Nat.succ_add]
      cases stack with
      | nil => rfl
      | cons entry stack =>
          obtain ⟨node,level⟩ := entry
          simp only [nextLoop] at ended ⊢
          by_cases here : level = current
          · rw [if_pos here] at ended ⊢
            rw [if_pos here]
            apply ih
            rw [List.length_append,List.length_singleton,Nat.add_assoc,Nat.add_comm 1 fuel]
            exact ended
          · rw [if_neg here,if_neg here]

theorem next_more {s : BfsRows} (more : Nat)
    (narrow : ∀ row, (next neighbors bound s).1 = some row → row.length ≤ bound) :
    next neighbors (bound+more) s = next neighbors bound s := by
  have ended : (nextLoop neighbors s.row (bound+1) s.stack s.discovered []).1.length <
      ([] : List Nat).length + (bound+1) := by
    rw [List.length_nil,Nat.zero_add]
    cases filled : (nextLoop neighbors s.row (bound+1) s.stack s.discovered []).1 with
    | nil => exact Nat.succ_pos bound
    | cons node row =>
        apply Nat.lt_succ_of_le
        apply narrow
        simp only [next,filled,reduceCtorEq,if_false]
  rw [next,Nat.add_right_comm,nextLoop_more more ended]
  rfl

theorem rows_filled {fuel : Nat} {s : BfsRows} {row : List Nat} (member : row ∈ rows neighbors bound fuel s) :
    row ≠ [] := by
  induction fuel generalizing s with
  | zero => cases member
  | succ fuel ih =>
      rw [rows] at member
      split at member
      · cases member
      · rename_i first later asked
        rcases List.mem_cons.mp member with rfl | behind
        · simp only [next] at asked
          split at asked
          · cases asked
          · rename_i filled
            cases asked
            exact filled
        · exact ih behind

variable (tree : ∀ k, (levels neighbors start k).Nodup) (narrow : ∀ k, (level neighbors start k).length ≤ bound)
include tree narrow

theorem after_ready (k : Nat) : Ready neighbors start k (after neighbors bound start k) := by
  induction k with
  | zero => exact new_ready neighbors start
  | succ k ih => exact (next_ready tree narrow ih).2

theorem returned_level (k : Nat) : returned neighbors bound start k =
    if level neighbors start k = [] then none else some (level neighbors start k) :=
  (next_ready tree narrow (after_ready tree narrow k)).1

theorem call_ends (k more : Nat) : next neighbors (bound+more) (after neighbors bound start k) =
    next neighbors bound (after neighbors bound start k) := by
  apply next_more
  intro row told
  have here := (returned_level tree narrow k).symm.trans told
  split at here
  · cases here
  · cases here
    exact narrow k

theorem rows_height {fuel : Nat} (deep : level neighbors start fuel = []) :
    ∃ height, (∀ k, level neighbors start k = [] ↔ height ≤ k) ∧
      rows neighbors bound (fuel+1) (new start) = (List.range height).map (level neighbors start) := by
  obtain ⟨height,_,empty,listed⟩ := rows_levels tree narrow deep
  refine ⟨height,fun k => ⟨?_,level_after empty⟩,listed⟩
  intro nothing
  by_contra below
  have member : level neighbors start k ∈ rows neighbors bound (fuel+1) (new start) := by
    rw [listed]
    exact List.mem_map_of_mem (List.mem_range.mpr (Nat.lt_of_not_le below))
  exact rows_filled member nothing

theorem rows_returned {fuel : Nat} (deep : level neighbors start fuel = []) (k : Nat) :
    (rows neighbors bound (fuel+1) (new start))[k]? = returned neighbors bound start k := by
  obtain ⟨height,filled,listed⟩ := rows_height tree narrow deep
  rw [returned_level tree narrow,listed,List.getElem?_map]
  by_cases past : height ≤ k
  · rw [List.getElem?_eq_none (by simpa using past),if_pos ((filled k).mpr past)]
    rfl
  · rw [List.getElem?_range (Nat.lt_of_not_le past),if_neg fun nothing => past ((filled k).mp nothing)]
    rfl

end

end BfsRows

namespace Schedule

section
variable {g : Graph} {refs : List TransactionRefs} {r : Nat}

theorem treeRows_returned (linked : g.edges = edgesOf refs) (sized : g.nodeBound = refs.length)
    (top : (dependencies refs).parent r = none) (bound : r < refs.length) (k : Nat) :
    (treeRows g r)[k]? = BfsRows.returned g.neighbors g.nodeBound r k ∧
      BfsRows.returned g.neighbors g.nodeBound r k =
        if level (dependencies refs).children r k = [] then none else some (level (dependencies refs).children r k) := by
  rw [treeRows,neighbors_children linked,sized]
  have tree := Forest.levels_nodup top
  have narrow := Forest.level_narrow top bound
  exact ⟨BfsRows.rows_returned tree narrow (Forest.level_bottom top bound) k,BfsRows.returned_level tree narrow k⟩

theorem ancestor_above (linked : g.edges = edgesOf refs) {i j : Nat}
    (ancestor : Relation.TransGen (fun a b => (a,b) ∈ g.edges) i j) :
    (dependencies refs).root i = (dependencies refs).root j ∧
      (dependencies refs).depth i < (dependencies refs).depth j := by
  have parent : ∀ {a b}, (a,b) ∈ g.edges → (dependencies refs).parent b = some a := by
    intro a b edge
    rw [linked] at edge
    exact (mem_edgesOf refs a b).mp edge
  induction ancestor with
  | single edge =>
      have up := parent edge
      exact ⟨(Forest.root_step up).symm,by rw [Forest.depth_step up]; exact Nat.lt_succ_self _⟩
  | tail _ edge ih =>
      have up := parent edge
      exact ⟨ih.1.trans (Forest.root_step up).symm,by rw [Forest.depth_step up]; exact Nat.lt_succ_of_lt ih.2⟩

end

end Schedule

-- What the calls return: the nodes at the next distance as long as there are
-- any, and then `None`. More rounds than there are change nothing.
structure BfsRows.ReturnsLevels (neighbors : Nat → List Nat) (bound start height : Nat) : Prop where
  row : ∀ k < height, ∃ row, returned neighbors bound start k = some row ∧ row ≠ [] ∧ row.Nodup ∧
    ∀ j, j ∈ row ↔ Distance neighbors start j k
  finished : ∀ k, height ≤ k → returned neighbors bound start k = none ∧ ∀ j, ¬Distance neighbors start j k
  once : ((List.range height).filterMap (returned neighbors bound start)).flatten.Nodup
  ends : ∀ k more, next neighbors (bound+more) (after neighbors bound start k) =
    next neighbors bound (after neighbors bound start k)

def Schedule.AncestorsFirst (g : Graph) (root : Nat) : Prop :=
  ∀ (i j k : Nat) (row : List Nat), Relation.TransGen (fun a b => (a,b) ∈ g.edges) i j →
    (treeRows g root)[k]? = some row → j ∈ row →
    (∃ (m : Nat) (above : List Nat), m < k ∧ (treeRows g root)[m]? = some above ∧ i ∈ above) ∧
    ∀ (m : Nat) (below : List Nat), k ≤ m → (treeRows g root)[m]? = some below → i ∉ below

theorem BfsRows.tree_levels (t : OutTree) {start bound : Nat} (inside : start ∈ t.nodes)
    (enough : t.nodes.length ≤ bound) : ∃ height, ReturnsLevels t.adj bound start height := by
  have tree := t.levels_nodup inside
  have narrow : ∀ k, (level t.adj start k).length ≤ bound := fun k => (t.level_narrow inside k).trans enough
  have answers := returned_level tree narrow
  obtain ⟨height,filled,_⟩ := rows_height tree narrow (t.level_bottom inside)
  refine ⟨height,?_,?_,?_,call_ends tree narrow⟩
  · intro k below
    have held : level t.adj start k ≠ [] := fun nothing => Nat.not_le_of_lt below ((filled k).mp nothing)
    refine ⟨level t.adj start k,?_,held,t.level_nodup inside k,fun j => t.level_distance inside⟩
    rw [answers,if_neg held]
  · intro k past
    have nothing := (filled k).mpr past
    refine ⟨by rw [answers,if_pos nothing],fun j distance => ?_⟩
    have member := (t.level_distance inside).mpr distance
    rw [nothing] at member
    cases member
  · have listed : (List.range height).filterMap (returned t.adj bound start) =
        (List.range height).map (level t.adj start) := by
      rw [← List.filterMap_eq_map]
      apply List.filterMap_congr
      intro k member
      have held : level t.adj start k ≠ [] := fun nothing =>
        Nat.not_le_of_lt (List.mem_range.mp member) ((filled k).mp nothing)
      rw [answers,if_neg held]
      rfl
    rw [listed,← List.flatMap_def]
    exact tree height

theorem Schedule.ancestors_first {g : Graph} {refs : List TransactionRefs} {r : Nat} (linked : g.edges = edgesOf refs)
    (rows : ∀ k, (treeRows g r)[k]? = if level (dependencies refs).children r k = [] then none
      else some (level (dependencies refs).children r k))
    (top : (dependencies refs).parent r = none) : AncestorsFirst g r := by
  have level_of : ∀ {m above}, (treeRows g r)[m]? = some above → above = level (dependencies refs).children r m := by
    intro m above told
    rw [rows m] at told
    split at told
    · cases told
    · exact (Option.some.inj told).symm
  intro i j k row ancestor asked inside
  obtain ⟨rooted,less⟩ := ancestor_above linked ancestor
  obtain rfl := level_of asked
  obtain ⟨rootedJ,deep⟩ := (Forest.mem_level top k j).mp inside
  have here := (Forest.mem_level top _ i).mpr ⟨rooted.trans rootedJ,rfl⟩
  refine ⟨⟨_,_,deep ▸ less,?_,here⟩,?_⟩
  · rw [rows,if_neg (List.ne_nil_of_mem here)]
  · intro m below later told again
    obtain rfl := level_of told
    have depth := ((Forest.mem_level top m i).mp again).2
    omega

-- Call by call the traversal of a finite tree returns the nodes at the next
-- distance; `Tree::run` takes these rows, so it comes to ancestors first.
theorem rows_are_levels :
    (∀ (t : OutTree) (start bound : Nat), start ∈ t.nodes → t.nodes.length ≤ bound →
      ∃ height, BfsRows.ReturnsLevels t.adj bound start height) ∧
    ∀ (u : Labeling) (state : View) (txs : List Transaction) (root : Nat), root ∈ (Schedule.new u state txs).roots →
      (∃ t : OutTree, t.root = root ∧ t.adj = (Schedule.new u state txs).graph.neighbors ∧
        t.nodes.length ≤ (Schedule.new u state txs).graph.nodeBound) ∧
      (∀ k, (Schedule.treeRows (Schedule.new u state txs).graph root)[k]? =
        BfsRows.returned (Schedule.new u state txs).graph.neighbors (Schedule.new u state txs).graph.nodeBound root k) ∧
      Schedule.AncestorsFirst (Schedule.new u state txs).graph root := by
  constructor
  · intro t start bound inside enough
    exact BfsRows.tree_levels t inside enough
  · intro u state txs root member
    have linked := Schedule.new_linked state txs u
    have sized := Schedule.new_sized state txs u
    obtain ⟨bound,top⟩ := ((Schedule.rootsOf_exact u linked sized).2 root).mp member
    have rows := Schedule.treeRows_returned linked sized top bound
    refine ⟨⟨(Schedule.dependencies (Schedule.refsOf state txs)).outTree root top bound,rfl,
      (Schedule.neighbors_children linked).symm,?_⟩,fun k => (rows k).1,?_⟩
    · rw [sized]
      exact Forest.outTree_size top bound
    · exact Schedule.ancestors_first linked (fun k => (rows k).1.trans (rows k).2) top

namespace RowsExample
def parent (j : Nat) : Option Nat := [none,some 0,some 0,some 1].getD j none

theorem parent_cases {i j : Nat} (edge : parent j = some i) : i < j ∧ j < 4 := by
  rcases j with _ | _ | _ | _ | j <;> simp [parent] at edge <;> omega

def tree : OutTree :=
  Forest.outTree (n:=4) ⟨parent,fun edge => (parent_cases edge).1,fun edge => (parent_cases edge).2⟩ 0 rfl (by decide)

def addr : Address := ⟨"/test/addr",by decide⟩
def state : View := fun _ => none
def writes : Transaction := .new [] ((∅ : BTreeMap Address AccountChange).insert addr (.replaceState [1]))
end RowsExample

theorem tree_of_four_in_rows : Distance RowsExample.tree.adj 0 3 2 ∧
    Schedule.AncestorsFirst (Schedule.new .quick RowsExample.state [RowsExample.writes,RowsExample.writes]).graph 0 := by
  obtain ⟨trees,schedules⟩ := rows_are_levels
  constructor
  · obtain ⟨height,calls⟩ := trees RowsExample.tree 0 4 (by decide) (by decide)
    have answered : BfsRows.returned RowsExample.tree.adj 4 0 2 = some [3] := by decide
    have below : 2 < height := by
      by_contra past
      cases answered.symm.trans (calls.finished 2 (Nat.le_of_not_lt past)).1
    obtain ⟨row,told,_,_,exactly⟩ := calls.row 2 below
    obtain rfl := Option.some.inj (answered.symm.trans told)
    exact (exactly 3).mp (by simp)
  · exact (schedules .quick RowsExample.state [RowsExample.writes,RowsExample.writes] 0 (by decide)).2.2

end AnomaAlpha
