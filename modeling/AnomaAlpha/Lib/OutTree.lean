import AnomaAlpha.Lib.Forest
import Mathlib.Order.Bounds.Basic

inductive Walk (adj : Nat → List Nat) (start : Nat) : Nat → Nat → Prop where
  | here : Walk adj start 0 start
  | step {k i j : Nat} : Walk adj start k i → j ∈ adj i → Walk adj start (k+1) j

def Distance (adj : Nat → List Nat) (start j k : Nat) : Prop := IsLeast {length | Walk adj start length j} k

namespace Walk
variable {adj : Nat → List Nat} {a b c k m : Nat}

theorem append (first : Walk adj a k b) (second : Walk adj b m c) : Walk adj a (k+m) c := by
  induction second with
  | here => exact first
  | step _ edge ih => exact .step ih edge

end Walk

theorem mem_level_walk (adj : Nat → List Nat) (start k j : Nat) : j ∈ level adj start k ↔ Walk adj start k j := by
  induction k generalizing j with
  | zero =>
      rw [level,List.mem_singleton]
      constructor
      · intro same
        subst same
        exact .here
      · intro walk
        cases walk
        rfl
  | succ k ih =>
      rw [level,List.mem_flatMap]
      constructor
      · intro given
        obtain ⟨i,above,edge⟩ := given
        exact .step ((ih i).mp above) edge
      · intro walk
        cases walk with
        | step before edge => exact ⟨_,(ih _).mpr before,edge⟩

-- The part of an adjacency below a root, when it is a finite tree whose edges
-- lead away from that root. Outside of its nodes the adjacency is free.
structure OutTree where
  nodes : List Nat
  adj : Nat → List Nat
  root : Nat
  spanned : ∀ j, j ∈ nodes ↔ ∃ k, Walk adj root k j
  top : ∀ i ∈ nodes, root ∉ adj i
  parent : ∀ {i i' j}, i ∈ nodes → i' ∈ nodes → j ∈ adj i → j ∈ adj i' → i = i'
  distinct : ∀ i ∈ nodes, (adj i).Nodup

namespace OutTree
variable (t : OutTree) {start i j k m : Nat}

theorem walk_inside (inside : start ∈ t.nodes) (walk : Walk t.adj start k j) : j ∈ t.nodes := by
  obtain ⟨m,down⟩ := (t.spanned start).mp inside
  exact (t.spanned j).mpr ⟨m+k,down.append walk⟩

theorem root_inside : t.root ∈ t.nodes := (t.spanned t.root).mpr ⟨0,.here⟩

-- One parent each and none for the root, so the way down to a node is unique.
theorem root_walk (first : Walk t.adj t.root k j) (second : Walk t.adj t.root m j) : k = m := by
  induction first generalizing m with
  | here =>
      cases second with
      | here => rfl
      | step before edge => exact absurd edge (t.top _ (t.walk_inside t.root_inside before))
  | step above edge ih =>
      cases second with
      | here => exact absurd edge (t.top _ (t.walk_inside t.root_inside above))
      | step before edge' =>
          have same := t.parent (t.walk_inside t.root_inside above) (t.walk_inside t.root_inside before) edge edge'
          subst same
          rw [ih before]

theorem walk_length (inside : start ∈ t.nodes) (first : Walk t.adj start k j) (second : Walk t.adj start m j) :
    k = m := by
  obtain ⟨d,down⟩ := (t.spanned start).mp inside
  exact Nat.add_left_cancel (t.root_walk (down.append first) (down.append second))

theorem distance_walk (inside : start ∈ t.nodes) : Distance t.adj start j k ↔ Walk t.adj start k j := by
  constructor
  · intro least
    exact least.1
  · intro walk
    exact ⟨walk,fun m other => Nat.le_of_eq (t.walk_length inside walk other)⟩

theorem level_distance (inside : start ∈ t.nodes) : j ∈ level t.adj start k ↔ Distance t.adj start j k :=
  (mem_level_walk t.adj start k j).trans (t.distance_walk inside).symm

theorem level_inside (inside : start ∈ t.nodes) (k : Nat) : level t.adj start k ⊆ t.nodes := by
  intro j member
  exact t.walk_inside inside ((mem_level_walk t.adj start k j).mp member)

theorem level_nodup (inside : start ∈ t.nodes) (k : Nat) : (level t.adj start k).Nodup := by
  induction k with
  | zero => exact List.nodup_singleton start
  | succ k ih =>
      rw [level,List.nodup_flatMap]
      refine ⟨fun i member => t.distinct i (t.level_inside inside k member),?_⟩
      rw [List.Nodup] at ih
      refine ih.imp_of_mem ?_
      intro a b first second different
      refine List.disjoint_left.mpr ?_
      intro j here there
      exact different (t.parent (t.level_inside inside k first) (t.level_inside inside k second) here there)

theorem mem_levels (j k : Nat) : j ∈ levels t.adj start k ↔ ∃ m < k, Walk t.adj start m j := by
  simp only [levels,List.mem_flatMap,List.mem_range,mem_level_walk]

theorem levels_nodup (inside : start ∈ t.nodes) (k : Nat) : (levels t.adj start k).Nodup := by
  induction k with
  | zero => exact List.nodup_nil
  | succ k ih =>
      rw [levels_succ,List.nodup_append']
      refine ⟨ih,t.level_nodup inside k,?_⟩
      rw [List.disjoint_left]
      intro j above here
      obtain ⟨m,less,walk⟩ := (t.mem_levels j k).mp above
      exact Nat.ne_of_lt less (t.walk_length inside walk ((mem_level_walk t.adj start k j).mp here))

theorem level_narrow (inside : start ∈ t.nodes) (k : Nat) : (level t.adj start k).length ≤ t.nodes.length :=
  (List.subperm_of_subset (t.level_nodup inside k) (t.level_inside inside k)).length_le

theorem levels_long (filled : level t.adj start k ≠ []) : k < (levels t.adj start (k+1)).length := by
  have each : ∀ m ≤ k+1, m ≤ (levels t.adj start m).length := by
    intro m
    induction m with
    | zero => exact fun _ => Nat.zero_le _
    | succ m ih =>
        intro within
        have held : level t.adj start m ≠ [] := fun empty => filled (level_after empty (Nat.le_of_succ_le_succ within))
        rw [levels_succ,List.length_append]
        exact Nat.add_le_add (ih (Nat.le_of_succ_le within)) (List.length_pos_of_ne_nil held)
  exact each (k+1) (Nat.le_refl _)

theorem level_bottom (inside : start ∈ t.nodes) : level t.adj start t.nodes.length = [] := by
  by_contra filled
  have subset : levels t.adj start (t.nodes.length+1) ⊆ t.nodes := by
    intro j member
    obtain ⟨m,_,walk⟩ := (t.mem_levels j _).mp member
    exact t.walk_inside inside walk
  have counted := (List.subperm_of_subset (t.levels_nodup inside _) subset).length_le
  exact absurd (t.levels_long filled) (Nat.not_lt_of_le counted)

end OutTree

def Forest.outTree {n : Nat} (f : Forest n) (r : Nat) (top : f.parent r = none) (bound : r < n) : OutTree where
  nodes := levels f.children r n
  adj := f.children
  root := r
  spanned j := by
    rw [Forest.mem_levels top]
    simp only [← mem_level_walk,Forest.mem_level top]
    constructor
    · intro given
      exact ⟨f.depth j,given.1,rfl⟩
    · intro given
      obtain ⟨k,rooted,_⟩ := given
      exact ⟨rooted,(f.depth_le j).trans_lt (Forest.rooted_inside bound rooted)⟩
  top i _ member := by
    rw [Forest.mem_children,top] at member
    cases member
  parent _ _ first second :=
    Option.some.inj ((Forest.mem_children.mp first).symm.trans (Forest.mem_children.mp second))
  distinct _ _ := List.nodup_range.filter _

theorem Forest.outTree_size {n r : Nat} {f : Forest n} (top : f.parent r = none) (bound : r < n) :
    (f.outTree r top bound).nodes.length ≤ n := by
  have inside : levels f.children r n ⊆ List.range n := by
    intro j member
    exact List.mem_range.mpr (Forest.rooted_inside bound ((Forest.mem_levels top n j).mp member).1)
  have counted := (List.subperm_of_subset (Forest.levels_nodup top n) inside).length_le
  rwa [List.length_range] at counted
