import Mathlib.Data.List.Nodup
import Mathlib.Data.List.Range
import Mathlib.Data.List.Sort
import Mathlib.Logic.Relation

-- The nodes at distance `k` from a start node, in the order of a breadth-first
-- traversal.
def level (adj : Nat → List Nat) (start : Nat) : Nat → List Nat
  | 0 => [start]
  | k+1 => (level adj start k).flatMap adj

def levels (adj : Nat → List Nat) (start k : Nat) : List Nat := (List.range k).flatMap (level adj start)

theorem range_split (k more : Nat) : List.range (k+more+1) = List.range k ++ k :: List.range' (k+1) more := by
  have joined : List.range' 0 k ++ List.range' (0+k) (more+1) = List.range' 0 (k+(more+1)) := List.range'_append_1
  rw [List.range_eq_range',List.range_eq_range',← List.range'_succ,Nat.add_assoc,← joined,Nat.zero_add]

theorem levels_succ (adj : Nat → List Nat) (start k : Nat) :
    levels adj start (k+1) = levels adj start k ++ level adj start k := by
  simp [levels,List.range_succ]

theorem level_empty {adj : Nat → List Nat} {start k : Nat} (empty : level adj start k = []) :
    level adj start (k+1) = [] := by
  rw [level,empty]
  rfl

theorem level_after {adj : Nat → List Nat} {start k m : Nat} (empty : level adj start k = []) (later : k ≤ m) :
    level adj start m = [] := by
  induction m, later using Nat.le_induction with
  | base => exact empty
  | succ m _ ih => exact level_empty ih

theorem levels_after {adj : Nat → List Nat} {start k m : Nat} (empty : level adj start k = []) (later : k ≤ m) :
    levels adj start m = levels adj start k := by
  induction m, later using Nat.le_induction with
  | base => rfl
  | succ m more ih => rw [levels_succ,ih,level_after empty more,List.append_nil]

-- Nodes below `n` with at most one parent each, which is a smaller node.
structure Forest (n : Nat) where
  parent : Nat → Option Nat
  smaller : ∀ {i j}, parent j = some i → i < j
  inside : ∀ {i j}, parent j = some i → j < n

namespace Forest
variable {n : Nat} (f : Forest n)

def children (i : Nat) : List Nat := (List.range n).filter fun j => f.parent j == some i

def root (j : Nat) : Nat := match _edge : f.parent j with
  | none => j
  | some i => root i
termination_by j
decreasing_by exact f.smaller _edge

def depth (j : Nat) : Nat := match edge : f.parent j with
  | none => 0
  | some i => depth i + 1
termination_by j
decreasing_by exact f.smaller edge

variable {f}

theorem root_top (top : f.parent j = none) : f.root j = j := by
  rw [root]
  split
  · rfl
  · rename_i edge; rw [top] at edge; cases edge

theorem root_step (edge : f.parent j = some i) : f.root j = f.root i := by
  rw [root]
  split
  · rename_i top; rw [top] at edge; cases edge
  · rename_i found; obtain rfl := Option.some.inj (found.symm.trans edge); rfl

theorem depth_top (top : f.parent j = none) : f.depth j = 0 := by
  rw [depth]
  split
  · rfl
  · rename_i edge; rw [top] at edge; cases edge

theorem depth_step (edge : f.parent j = some i) : f.depth j = f.depth i + 1 := by
  rw [depth]
  split
  · rename_i top; rw [top] at edge; cases edge
  · rename_i found; obtain rfl := Option.some.inj (found.symm.trans edge); rfl

theorem root_parent (j : Nat) : f.parent (f.root j) = none := by
  induction j using Nat.strongRecOn with
  | ind j ih =>
      cases edge : f.parent j with
      | none => rw [root_top edge,edge]
      | some i => rw [root_step edge]; exact ih i (f.smaller edge)

theorem root_le (j : Nat) : f.root j ≤ j := by
  induction j using Nat.strongRecOn with
  | ind j ih =>
      cases edge : f.parent j with
      | none => exact Nat.le_of_eq (root_top edge)
      | some i =>
          rw [root_step edge]
          exact (ih i (f.smaller edge)).trans (Nat.le_of_lt (f.smaller edge))

theorem depth_le (j : Nat) : f.depth j ≤ j := by
  induction j using Nat.strongRecOn with
  | ind j ih =>
      cases edge : f.parent j with
      | none => simp [depth_top edge]
      | some i =>
          rw [depth_step edge]
          exact Nat.succ_le_of_lt ((ih i (f.smaller edge)).trans_lt (f.smaller edge))

theorem rooted_inside {r j : Nat} (bound : r < n) (rooted : f.root j = r) : j < n := by
  cases edge : f.parent j with
  | none =>
      rw [root_top edge] at rooted
      rwa [rooted]
  | some i => exact f.inside edge

-- Two nodes are connected by edges exactly when they have the same root.
theorem connected_root (i j : Nat) :
    Relation.EqvGen (fun a b => f.parent b = some a) i j ↔ f.root i = f.root j := by
  have climb : ∀ j, Relation.EqvGen (fun a b => f.parent b = some a) (f.root j) j := by
    intro j
    induction j using Nat.strongRecOn with
    | ind j ih =>
        cases edge : f.parent j with
        | none => rw [root_top edge]; exact .refl _
        | some i => rw [root_step edge]; exact .trans _ _ _ (ih i (f.smaller edge)) (.rel _ _ edge)
  constructor
  · intro connected
    induction connected with
    | rel a b edge => exact (root_step edge).symm
    | refl a => rfl
    | symm a b _ ih => exact ih.symm
    | trans a b c _ _ first second => exact first.trans second
  · intro same
    exact .trans _ _ _ (.symm _ _ (climb i)) (same ▸ climb j)

theorem mem_children {i j : Nat} : j ∈ f.children i ↔ f.parent j = some i := by
  simp only [children,List.mem_filter,List.mem_range,beq_iff_eq,and_iff_right_iff_imp]
  exact f.inside

theorem depth_zero (flat : f.depth j = 0) : f.parent j = none := by
  cases edge : f.parent j with
  | none => rfl
  | some i => rw [depth_step edge] at flat; cases flat

theorem mem_level {r : Nat} (top : f.parent r = none) (k j : Nat) :
    j ∈ level f.children r k ↔ f.root j = r ∧ f.depth j = k := by
  induction k generalizing j with
  | zero =>
      rw [level,List.mem_singleton]
      constructor
      · intro same
        subst same
        exact ⟨root_top top,depth_top top⟩
      · intro given
        obtain ⟨rooted,flat⟩ := given
        rw [← rooted,root_top (depth_zero flat)]
  | succ k ih =>
      rw [level,List.mem_flatMap]
      constructor
      · intro given
        obtain ⟨i,above,child⟩ := given
        obtain ⟨rooted,deep⟩ := (ih i).mp above
        have edge := mem_children.mp child
        exact ⟨(root_step edge).trans rooted,by rw [depth_step edge,deep]⟩
      · intro given
        obtain ⟨rooted,deep⟩ := given
        cases edge : f.parent j with
        | none => rw [depth_top edge] at deep; cases deep
        | some i =>
            rw [root_step edge] at rooted
            rw [depth_step edge] at deep
            exact ⟨i,(ih i).mpr ⟨rooted,Nat.succ.inj deep⟩,mem_children.mpr edge⟩

theorem level_nodup {r : Nat} (k : Nat) : (level f.children r k).Nodup := by
  induction k with
  | zero => exact List.nodup_singleton r
  | succ k ih =>
      rw [level,List.nodup_flatMap]
      refine ⟨fun i _ => List.nodup_range.filter _,ih.imp ?_⟩
      intro a b different
      refine List.disjoint_left.mpr ?_
      intro j first second
      exact different (Option.some.inj ((mem_children.mp first).symm.trans (mem_children.mp second)))

theorem mem_levels {r : Nat} (top : f.parent r = none) (k j : Nat) :
    j ∈ levels f.children r k ↔ f.root j = r ∧ f.depth j < k := by
  simp only [levels,List.mem_flatMap,List.mem_range,mem_level top]
  exact ⟨fun ⟨_,less,rooted,deep⟩ => ⟨rooted,deep ▸ less⟩,fun ⟨rooted,less⟩ => ⟨_,less,rooted,rfl⟩⟩

theorem levels_nodup {r : Nat} (top : f.parent r = none) (k : Nat) : (levels f.children r k).Nodup := by
  induction k with
  | zero => simp [levels]
  | succ k ih =>
      rw [levels_succ,List.nodup_append']
      refine ⟨ih,level_nodup k,?_⟩
      rw [List.disjoint_left]
      intro j above here
      have less := ((mem_levels top k j).mp above).2
      rw [((mem_level top k j).mp here).2] at less
      exact Nat.lt_irrefl k less

theorem level_narrow {r : Nat} (top : f.parent r = none) (bound : r < n) (k : Nat) :
    (level f.children r k).length ≤ n := by
  have inside : level f.children r k ⊆ List.range n := by
    intro j member
    exact List.mem_range.mpr (rooted_inside bound ((mem_level top k j).mp member).1)
  have counted := (List.subperm_of_subset (level_nodup k) inside).length_le
  rwa [List.length_range] at counted

theorem level_bottom {r : Nat} (top : f.parent r = none) (bound : r < n) : level f.children r n = [] := by
  rw [List.eq_nil_iff_forall_not_mem]
  intro j member
  obtain ⟨rooted,deep⟩ := (mem_level top n j).mp member
  have shallow := (f.depth_le j).trans_lt (rooted_inside bound rooted)
  exact Nat.ne_of_lt shallow deep

-- Every node below `n` lies in exactly one tree, at exactly one level.
theorem trees_cover {roots : List Nat} (distinct : roots.Nodup)
    (exact_roots : ∀ r, r ∈ roots ↔ r < n ∧ f.parent r = none) :
    (roots.flatMap fun r => levels f.children r n).Perm (List.range n) := by
  have nodup : (roots.flatMap fun r => levels f.children r n).Nodup := by
    rw [List.nodup_flatMap]
    refine ⟨fun r member => levels_nodup ((exact_roots r).mp member).2 n,?_⟩
    rw [List.Nodup] at distinct
    refine distinct.imp_of_mem ?_
    intro a b first second different
    refine List.disjoint_left.mpr ?_
    intro j inFirst inSecond
    have left := ((mem_levels ((exact_roots a).mp first).2 n j).mp inFirst).1
    have right := ((mem_levels ((exact_roots b).mp second).2 n j).mp inSecond).1
    exact different (left.symm.trans right)
  rw [List.perm_ext_iff_of_nodup nodup List.nodup_range]
  intro j
  rw [List.mem_flatMap,List.mem_range]
  constructor
  · intro given
    obtain ⟨r,member,inside⟩ := given
    obtain ⟨bound,top⟩ := (exact_roots r).mp member
    exact rooted_inside bound ((mem_levels top n j).mp inside).1
  · intro bound
    refine ⟨f.root j,(exact_roots _).mpr ⟨(root_le j).trans_lt bound,root_parent j⟩,?_⟩
    exact (mem_levels (root_parent j) n j).mpr ⟨rfl,(depth_le j).trans_lt bound⟩

end Forest
