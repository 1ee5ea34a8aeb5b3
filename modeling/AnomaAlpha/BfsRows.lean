import AnomaAlpha.Lib.Forest

namespace AnomaAlpha

structure BfsRows where
  stack : List (Nat × Nat)
  discovered : List Nat
  row : Nat

namespace BfsRows

def new (start : Nat) : BfsRows := ⟨[(start,0)],[start],0⟩

-- One round of the `for succ in graph.neighbors(node)` loop.
def discover (level : Nat) (s : List (Nat × Nat) × List Nat) (succ : Nat) : List (Nat × Nat) × List Nat :=
  if succ ∈ s.2 then s else (s.1 ++ [(succ,level+1)],succ :: s.2)

-- The `while let` loop of `next`; every round but the last adds a node to the row.
def nextLoop (neighbors : Nat → List Nat) (current : Nat) :
    Nat → List (Nat × Nat) → List Nat → List Nat → List Nat × List (Nat × Nat) × List Nat
  | 0,stack,discovered,row => (row,stack,discovered)
  | _+1,[],discovered,row => (row,[],discovered)
  | fuel+1,(node,level) :: stack,discovered,row =>
    let (stack,discovered) := (neighbors node).foldl (discover level) (stack,discovered)
    if level = current then nextLoop neighbors current fuel stack discovered (row ++ [node])
    else (row,(node,level) :: stack,discovered)

def next (neighbors : Nat → List Nat) (bound : Nat) (s : BfsRows) : Option (List Nat) × BfsRows :=
  let (row,stack,discovered) := nextLoop neighbors s.row (bound+1) s.stack s.discovered []
  (if row = [] then none else some row,⟨stack,discovered,s.row+1⟩)

def rows (neighbors : Nat → List Nat) (bound : Nat) : Nat → BfsRows → List (List Nat)
  | 0,_ => []
  | fuel+1,s => match next neighbors bound s with
    | (none,_) => []
    | (some row,s) => row :: rows neighbors bound fuel s

variable {adj : Nat → List Nat} {start bound : Nat}

theorem discover_fresh (level : Nat) {succs discovered : List Nat} (stack : List (Nat × Nat)) (distinct : succs.Nodup)
    (fresh : ∀ x ∈ succs, x ∉ discovered) :
    succs.foldl (discover level) (stack,discovered) =
      (stack ++ succs.map (·,level+1),succs.reverse ++ discovered) := by
  induction succs generalizing stack discovered with
  | nil => simp
  | cons x succs ih =>
      obtain ⟨new,rest⟩ := List.nodup_cons.mp distinct
      have unseen : discover level (stack,discovered) x = (stack ++ [(x,level+1)],x :: discovered) :=
        if_neg (fresh x (by simp))
      rw [List.foldl_cons,unseen,ih _ rest]
      · simp
      · intro y later seen
        rcases List.mem_cons.mp seen with rfl | old
        · exact new later
        · exact fresh y (List.mem_cons_of_mem _ later) old

theorem discover_known (level : Nat) {succs discovered : List Nat} (stack : List (Nat × Nat))
    (known : ∀ x ∈ succs, x ∈ discovered) :
    succs.foldl (discover level) (stack,discovered) = (stack,discovered) := by
  induction succs with
  | nil => rfl
  | cons x succs ih =>
      have seen : discover level (stack,discovered) x = (stack,discovered) := if_pos (known x (by simp))
      rw [List.foldl_cons,seen]
      exact ih fun y later => known y (List.mem_cons_of_mem _ later)

-- Nodes of the current level whose successors are all new move to the row and
-- put their successors at the end of the queue.
theorem nextLoop_level (adj : Nat → List Nat) (k : Nat) (xs queued discovered row : List Nat) (fuel : Nat)
    (distinct : (xs.flatMap adj).Nodup) (fresh : ∀ x ∈ xs.flatMap adj, x ∉ discovered) :
    ∃ seen, (∀ x, x ∈ seen ↔ x ∈ xs.flatMap adj ∨ x ∈ discovered) ∧
      nextLoop adj k (xs.length + fuel) (xs.map (·,k) ++ queued.map (·,k+1)) discovered row =
        nextLoop adj k fuel ((queued ++ xs.flatMap adj).map (·,k+1)) seen (row ++ xs) := by
  induction xs generalizing queued discovered row with
  | nil => exact ⟨discovered,by simp,by simp⟩
  | cons x xs ih =>
      rw [List.flatMap_cons,List.nodup_append'] at distinct
      obtain ⟨own,later,apart⟩ := distinct
      have unseen : ∀ y ∈ adj x, y ∉ discovered := fun y member => fresh y (by simp [member])
      obtain ⟨seen,members,run⟩ := ih (queued ++ adj x) ((adj x).reverse ++ discovered) (row ++ [x]) later (by
        intro y inside
        rw [List.mem_append,List.mem_reverse,not_or]
        exact ⟨fun early => (List.disjoint_left.mp apart) early inside,
          fresh y (by rw [List.flatMap_cons]; exact List.mem_append_right _ inside)⟩)
      refine ⟨seen,?_,?_⟩
      · intro y
        rw [members,List.mem_append,List.mem_reverse,List.flatMap_cons,List.mem_append,or_left_comm,← or_assoc]
      · rw [List.length_cons,Nat.succ_add,List.map_cons,List.cons_append,nextLoop,discover_fresh k _ own unseen]
        simp only [if_true]
        rw [List.append_assoc,← List.map_append,run]
        simp [List.append_assoc]

-- The queue when row `k` is asked for: the whole level, and behind it the
-- successors of its first node if an earlier call has already looked at it.
structure Ready (adj : Nat → List Nat) (start k : Nat) (s : BfsRows) : Prop where
  row : s.row = k
  peeked : ∃ e ≤ 1, s.stack = (level adj start k).map (·,k) ++ (((level adj start k).take e).flatMap adj).map (·,k+1) ∧
    ∀ x, x ∈ s.discovered ↔ x ∈ levels adj start (k+1) ∨ x ∈ ((level adj start k).take e).flatMap adj

theorem new_ready (adj : Nat → List Nat) (start : Nat) : Ready adj start 0 (new start) :=
  ⟨rfl,0,by simp,by simp [new,level],by simp [new,levels,level]⟩

theorem level_apart (tree : ∀ k, (levels adj start k).Nodup) (k : Nat) :
    (level adj start k).Nodup ∧ ∀ x ∈ level adj start k, x ∉ levels adj start k := by
  have split := tree (k+1)
  rw [levels_succ,List.nodup_append'] at split
  exact ⟨split.2.1,fun x here before => List.disjoint_left.mp split.2.2 before here⟩

theorem fill_row (tree : ∀ k, (levels adj start k).Nodup) {k : Nat} {s : BfsRows} (ready : Ready adj start k s)
    (fuel : Nat) :
    ∃ seen, (∀ x, x ∈ seen ↔ x ∈ levels adj start (k+2)) ∧
      nextLoop adj k ((level adj start k).length + fuel) s.stack s.discovered [] =
        nextLoop adj k fuel ((level adj start (k+1)).map (·,k+1)) seen (level adj start k) := by
  obtain ⟨_,e,small,queue,known⟩ := ready
  obtain ⟨distinct,apart⟩ := level_apart tree (k+1)
  rw [queue]
  have after : ∀ x, x ∈ levels adj start (k+2) ↔ x ∈ level adj start (k+1) ∨ x ∈ levels adj start (k+1) := by
    intro x
    rw [levels_succ,List.mem_append,or_comm]
  cases nodes : level adj start k with
  | nil =>
      have none := level_empty nodes
      refine ⟨s.discovered,?_,by simp [none]⟩
      intro x
      rw [known x,after x]
      simp [nodes,none]
  | cons y xs =>
      have expanded : level adj start (k+1) = adj y ++ xs.flatMap adj := by rw [level,nodes,List.flatMap_cons]
      rw [expanded,List.nodup_append'] at distinct
      rw [nodes] at known
      rcases Nat.le_one_iff_eq_zero_or_eq_one.mp small with rfl | rfl
      · obtain ⟨seen,members,run⟩ := nextLoop_level adj k (y :: xs) [] s.discovered [] fuel
          (by rw [List.flatMap_cons,List.nodup_append']; exact distinct) (by
            intro x inside seen
            rw [List.flatMap_cons,← expanded] at inside
            exact apart x inside (by simpa using (known x).mp seen))
        refine ⟨seen,?_,by simpa [expanded] using run⟩
        intro x
        rw [members,after x,List.flatMap_cons,expanded,known x]
        simp
      · -- the first node was put back by the previous call with its successors queued
        have again : ∀ x ∈ adj y, x ∈ s.discovered := fun x inside => (known x).mpr (.inr (by simpa using inside))
        obtain ⟨seen,members,run⟩ := nextLoop_level adj k xs (adj y) s.discovered [y] fuel distinct.2.1 (by
          intro x inside seen
          rcases (known x).mp seen with before | queued
          · exact apart x (by rw [expanded]; exact List.mem_append_right _ inside) before
          · exact List.disjoint_left.mp distinct.2.2 (by simpa using queued) inside)
        refine ⟨seen,?_,?_⟩
        · intro x
          rw [members,after x,expanded,known x,List.mem_append]
          simp only [List.take_succ_cons,List.take_zero,List.flatMap_cons,List.flatMap_nil,List.append_nil]
          tauto
        · rw [List.length_cons,Nat.succ_add,List.map_cons,List.cons_append,nextLoop,discover_known k _ again]
          simpa [expanded] using run

theorem next_ready (tree : ∀ k, (levels adj start k).Nodup) (narrow : ∀ k, (level adj start k).length ≤ bound)
    {k : Nat} {s : BfsRows} (ready : Ready adj start k s) :
    (next adj bound s).1 = (if level adj start k = [] then none else some (level adj start k)) ∧
      Ready adj start (k+1) (next adj bound s).2 := by
  obtain ⟨fuel,enough⟩ : ∃ fuel, bound+1 = (level adj start k).length + (fuel+1) :=
    ⟨bound-(level adj start k).length,by have := narrow k; omega⟩
  obtain ⟨seen,members,run⟩ := fill_row tree ready (fuel+1)
  simp only [next,ready.row,enough,run]
  cases below : level adj start (k+1) with
  | nil =>
      refine ⟨rfl,rfl,0,by simp,by simp [nextLoop,below],?_⟩
      intro x
      simpa [nextLoop] using members x
  | cons y ys =>
      obtain ⟨distinct,apart⟩ := level_apart tree (k+2)
      have expanded : level adj start (k+2) = adj y ++ ys.flatMap adj := by
        rw [level,below,List.flatMap_cons]
      rw [expanded,List.nodup_append'] at distinct
      have fresh : ∀ x ∈ adj y, x ∉ seen := fun x inside visited =>
        apart x (by rw [expanded]; exact List.mem_append_left _ inside) ((members x).mp visited)
      simp only [List.map_cons,nextLoop,discover_fresh (k+1) _ distinct.1 fresh,Nat.succ_ne_self,if_false]
      refine ⟨trivial,rfl,1,Nat.le_refl 1,by simp [below],?_⟩
      intro x
      simp only [List.mem_append,List.mem_reverse,members,below,List.take_succ_cons,List.take_zero,List.flatMap_cons,
        List.flatMap_nil,List.append_nil]
      exact or_comm

-- Row by row the traversal gives the levels, each node once, and then `None`.
theorem rows_levels (tree : ∀ k, (levels adj start k).Nodup) (narrow : ∀ k, (level adj start k).length ≤ bound)
    {fuel : Nat} (deep : level adj start fuel = []) :
    ∃ height ≤ fuel, level adj start height = [] ∧
      rows adj bound (fuel+1) (new start) = (List.range height).map (level adj start) := by
  have walk : ∀ fuel k s, Ready adj start k s → level adj start (k+fuel) = [] →
      ∃ height ≤ fuel, level adj start (k+height) = [] ∧
        rows adj bound (fuel+1) s = (List.range height).map fun i => level adj start (k+i) := by
    intro fuel
    induction fuel with
    | zero =>
        intro k s ready empty
        obtain ⟨answer,_⟩ := next_ready tree narrow ready
        rw [Nat.add_zero] at empty
        refine ⟨0,Nat.le_refl 0,empty,?_⟩
        rw [if_pos empty] at answer
        rw [rows]
        split
        · rfl
        · rename_i row later asked
          rw [asked] at answer; cases answer
    | succ fuel ih =>
        intro k s ready empty
        obtain ⟨answer,later⟩ := next_ready tree narrow ready
        rw [rows]
        split
        · rename_i rest asked
          rw [asked] at answer
          have done : level adj start k = [] := by
            by_contra more
            rw [if_neg more] at answer; cases answer
          exact ⟨0,Nat.zero_le _,done,rfl⟩
        · rename_i row rest asked
          rw [asked] at answer later
          obtain ⟨height,small,done,walked⟩ := ih (k+1) rest later (by rw [← empty]; congr 1; omega)
          refine ⟨height+1,by omega,by rw [← done]; congr 1; omega,?_⟩
          have here : row = level adj start k := by
            split at answer
            · cases answer
            · exact Option.some.inj answer
          rw [walked,here,List.range_succ_eq_map,List.map_cons,List.map_map,Nat.add_zero]
          congr 1
          apply List.map_congr_left
          intro i _
          simp only [Function.comp,Nat.succ_eq_add_one]
          congr 1
          omega
  have start_walk := walk fuel 0 (new start) (new_ready adj start) (by rwa [Nat.zero_add])
  simpa only [Nat.zero_add] using start_walk

end BfsRows
end AnomaAlpha
