import AnomaAlpha.BfsRows
import AnomaAlpha.Footprint
import AnomaAlpha.Lib.Components

set_option linter.unusedSectionVars false

namespace AnomaAlpha
open Components Fallible

-- A node is its index and its weight is a cell; edges stand in the order of
-- `add_edge`, and an adjacency list is read from its newest edge on.
structure Graph (A : Type := Address) [Ord A] where
  cells : List (Option (Transaction A × Nat))
  edges : List (Nat × Nat)

variable {A : Type} [DecidableEq A] [Ord A] [Std.TransOrd A] [Std.LawfulEqOrd A]
  [AddressSpace A]

namespace Graph

def nodeBound (g : Graph A) : Nat := g.cells.length

def neighbors (g : Graph A) (node : Nat) : List Nat := (g.edges.reverse.filter fun e => e.1 == node).map Prod.snd

-- The sources of `edges_directed(node, Incoming)`.
def incoming (g : Graph A) (node : Nat) : List Nat := (g.edges.reverse.filter fun e => e.2 == node).map Prod.fst

end Graph

structure Schedule (A : Type := Address) [Ord A] where
  graph : Graph A
  roots : List Nat

namespace Schedule

-- The `while let Some(..) = refs.pop_back()` loop of `Schedule::new`, on the
-- queue read from its back.
def link : List (TransactionRefs A × Nat) → List (Nat × Nat)
  | [] => []
  | (r0,ix0) :: refs => match refs.find? fun e => r0.dependsOn e.1 with
    | some (_,ix1) => (ix1,ix0) :: link refs
    | none => link refs

-- `Vec::dedup`: equal neighbours only.
def dedup : List Nat → List Nat
  | [] => []
  | [a] => [a]
  | a :: b :: l => if a = b then dedup (b :: l) else a :: dedup (b :: l)

-- Sources have smaller indices, so the index is enough fuel.
def climb (g : Graph A) : Nat → Nat → Nat
  | 0,index => index
  | fuel+1,index => match (g.incoming index).getLast? with
    | some up => climb g fuel up
    | none => index

def rootsOf (u : Labeling) (g : Graph A) : List Nat :=
  (dedup ((u.labels g.nodeBound g.edges).insertionSort (· ≤ ·))).map (climb g g.nodeBound)

def new (u : Labeling) (state : View A) (txs : List (Transaction A)) : Schedule A :=
  let refs := txs.zipIdx.map fun e => (TransactionRefs.new e.1 state,e.2)
  let graph : Graph A := ⟨txs.zipIdx.map some,link refs.reverse⟩
  ⟨graph,rootsOf u graph⟩

-- On addresses that need not have been checked.
def newOrHalt (u : Labeling) (state : View A) (txs : List (Transaction A)) : Except (Stop Empty) (Schedule A) := do
  let refs ← txs.zipIdx.mapM fun e => do return (← TransactionRefs.newOrHalt e.1 state,e.2)
  let graph : Graph A := ⟨txs.zipIdx.map some,link refs.reverse⟩
  return ⟨graph,rootsOf u graph⟩

theorem newOrHalt_kept {u : Labeling} {state : View A} {txs : List (Transaction A)}
    (kept : ∀ tx ∈ txs, ¬TransactionRefs.Lost state tx) : newOrHalt u state txs = .ok (new u state txs) := by
  have each : ∀ e ∈ txs.zipIdx, (do return (← TransactionRefs.newOrHalt e.1 state,e.2) : Except (Stop Empty) _) =
      .ok (TransactionRefs.new e.1 state,e.2) := by
    intro e member
    rw [TransactionRefs.newOrHalt_kept (kept e.1 (List.fst_mem_of_mem_zipIdx member))]
    rfl
  unfold newOrHalt new
  rw [mapM_congr each,mapM_pure]
  rfl

def parentOf (refs : List (TransactionRefs A)) (j : Nat) : Option Nat :=
  match refs[j]? with
  | none => none
  | some r0 => ((refs.take j).zipIdx.reverse.find? fun e => r0.dependsOn e.1).map Prod.snd

theorem parentOf_inside {refs : List (TransactionRefs A)} (edge : parentOf refs j = some i) : j < refs.length := by
  unfold parentOf at edge
  split at edge
  · cases edge
  · rename_i r0 found
    exact (List.getElem?_eq_some_iff.mp found).1

theorem parentOf_smaller {refs : List (TransactionRefs A)} (edge : parentOf refs j = some i) : i < j := by
  unfold parentOf at edge
  split at edge
  · cases edge
  · obtain ⟨e,found,rfl⟩ := Option.map_eq_some_iff.mp edge
    have member := List.mem_reverse.mp (List.mem_of_find?_eq_some found)
    have bound := List.snd_lt_add_of_mem_zipIdx member
    rw [List.length_take] at bound
    omega

def dependencies (refs : List (TransactionRefs A)) : Forest refs.length :=
  ⟨parentOf refs,parentOf_smaller,parentOf_inside⟩

def edgesOf (refs : List (TransactionRefs A)) : List (Nat × Nat) := link refs.zipIdx.reverse

theorem parentOf_snoc {refs : List (TransactionRefs A)} (r : TransactionRefs A) {j : Nat} (old : j < refs.length) :
    parentOf (refs ++ [r]) j = parentOf refs j := by
  simp only [parentOf,List.getElem?_append_left old,List.take_append_of_le_length (Nat.le_of_lt old)]

theorem parentOf_last (refs : List (TransactionRefs A)) (r : TransactionRefs A) :
    parentOf (refs ++ [r]) refs.length = (refs.zipIdx.reverse.find? fun e => r.dependsOn e.1).map Prod.snd := by
  simp [parentOf]

-- The edges as the loop adds them: from the last transaction to the first, at
-- most one into each.
theorem edgesOf_eq (refs : List (TransactionRefs A)) : edgesOf refs =
    (List.range refs.length).reverse.filterMap fun j => (parentOf refs j).map fun i => (i,j) := by
  induction refs using List.reverseRecOn with
  | nil => rfl
  | append_singleton refs r ih =>
      have unfolded : edgesOf (refs ++ [r]) =
          ((parentOf (refs ++ [r]) refs.length).map fun i => (i,refs.length)).toList ++ edgesOf refs := by
        rw [parentOf_last,edgesOf,List.zipIdx_append,List.reverse_append,List.zipIdx_singleton,List.reverse_singleton,
          List.singleton_append,Nat.zero_add,link]
        cases refs.zipIdx.reverse.find? fun e => r.dependsOn e.1 with
        | none => rfl
        | some e => rfl
      have kept : ((List.range refs.length).reverse.filterMap fun j => (parentOf (refs ++ [r]) j).map fun i => (i,j)) =
          (List.range refs.length).reverse.filterMap fun j => (parentOf refs j).map fun i => (i,j) := by
        apply List.filterMap_congr
        intro j member
        rw [parentOf_snoc r (by simpa using member)]
      rw [unfolded,ih,List.length_append,List.length_singleton,List.range_succ,List.reverse_append,
        List.reverse_singleton,List.singleton_append,List.filterMap_cons,← kept]
      cases parentOf (refs ++ [r]) refs.length <;> rfl

theorem mem_edgesOf (refs : List (TransactionRefs A)) (i j : Nat) :
    (i,j) ∈ edgesOf refs ↔ (dependencies refs).parent j = some i := by
  rw [edgesOf_eq,List.mem_filterMap]
  constructor
  · intro given
    obtain ⟨k,_,mapped⟩ := given
    obtain ⟨up,edge,equal⟩ := Option.map_eq_some_iff.mp mapped
    obtain ⟨rfl,rfl⟩ := Prod.mk.inj equal
    exact edge
  · intro edge
    refine ⟨j,by simpa using parentOf_inside edge,?_⟩
    change parentOf refs j = some i at edge
    rw [edge]
    rfl

theorem filter_source (parent : Nat → Option Nat) (l : List Nat) (i : Nat) :
    ((l.filterMap fun j => (parent j).map fun up => (up,j)).filter fun e => e.1 == i).map Prod.snd =
      l.filter fun j => parent j == some i := by
  induction l with
  | nil => rfl
  | cons j l ih =>
      cases edge : parent j with
      | none => simpa [edge] using ih
      | some up => by_cases same : up = i <;> simpa [edge,same] using ih

theorem filter_target (parent : Nat → Option Nat) (l : List Nat) (j : Nat) :
    ((l.filterMap fun j => (parent j).map fun up => (up,j)).filter fun e => e.2 == j).map Prod.fst =
      (l.filter fun k => k == j).filterMap parent := by
  induction l with
  | nil => rfl
  | cons k l ih =>
      cases edge : parent k with
      | none => by_cases same : k = j <;> simp_all
      | some up => by_cases same : k = j <;> simp_all

theorem edges_reverse (refs : List (TransactionRefs A)) : (edgesOf refs).reverse =
    (List.range refs.length).filterMap fun j => (parentOf refs j).map fun i => (i,j) := by
  rw [edgesOf_eq,List.filterMap_reverse,List.reverse_reverse]

variable {g : Graph A} {refs : List (TransactionRefs A)}

theorem neighbors_children (linked : g.edges = edgesOf refs) : g.neighbors = (dependencies refs).children := by
  funext i
  rw [Graph.neighbors,linked,edges_reverse,filter_source]
  rfl

theorem incoming_toList (linked : g.edges = edgesOf refs) (j : Nat) :
    g.incoming j = ((dependencies refs).parent j).toList := by
  rw [Graph.incoming,linked,edges_reverse,filter_target]
  by_cases bound : j < refs.length
  · have only : ((List.range refs.length).filter fun k => k == j) = [j] := by
      rw [List.filter_beq,List.count_eq_one_of_mem List.nodup_range (List.mem_range.mpr bound)]
      rfl
    rw [only,List.filterMap_cons,List.filterMap_nil]
    change _ = (parentOf refs j).toList
    cases parentOf refs j <;> rfl
  · have none : ((List.range refs.length).filter fun k => k == j) = [] := by
      rw [List.filter_beq,List.count_eq_zero_of_not_mem (by simpa using bound)]
      rfl
    rw [none]
    cases edge : (dependencies refs).parent j with
    | none => rfl
    | some i => exact absurd ((dependencies refs).inside edge) bound

theorem incoming_parent (linked : g.edges = edgesOf refs) (j : Nat) :
    (g.incoming j).getLast? = (dependencies refs).parent j := by
  rw [incoming_toList linked]
  cases (dependencies refs).parent j <;> rfl

theorem climb_root (linked : g.edges = edgesOf refs) (fuel j : Nat) (enough : j ≤ fuel) :
    climb g fuel j = (dependencies refs).root j := by
  induction fuel generalizing j with
  | zero =>
      obtain rfl : j = 0 := Nat.le_zero.mp enough
      cases edge : (dependencies refs).parent 0 with
      | none => rw [Forest.root_top edge]; rfl
      | some i => exact absurd ((dependencies refs).smaller edge) (Nat.not_lt_zero i)
  | succ fuel ih =>
      rw [climb,incoming_parent linked]
      cases edge : (dependencies refs).parent j with
      | none => exact (Forest.root_top edge).symm
      | some i =>
          have less := (dependencies refs).smaller edge
          rw [Forest.root_step edge]
          exact ih i (by omega)

theorem climb_top (linked : g.edges = edgesOf refs) (fuel : Nat) (top : (dependencies refs).parent j = none) :
    climb g fuel j = j := by
  cases fuel with
  | zero => rfl
  | succ fuel => rw [climb,incoming_parent linked,top]

theorem climb_ends (linked : g.edges = edgesOf refs) (fuel j : Nat) (enough : refs.length ≤ fuel) :
    climb g fuel j = (dependencies refs).root j := by
  rcases Nat.lt_or_ge j refs.length with inside | outside
  · exact climb_root linked fuel j ((Nat.le_of_lt inside).trans enough)
  · have top : (dependencies refs).parent j = none := by
      cases edge : (dependencies refs).parent j with
      | none => rfl
      | some i => exact absurd ((dependencies refs).inside edge) (Nat.not_lt_of_le outside)
    rw [climb_top linked fuel top,Forest.root_top top]

theorem mem_dedup (l : List Nat) (x : Nat) : x ∈ dedup l ↔ x ∈ l := by
  fun_induction dedup l with
  | case1 | case2 => rfl
  | case3 a l ih => simp [ih]
  | case4 a b l different ih => simp [ih]

theorem dedup_sorted {l : List Nat} (sorted : l.Pairwise (· ≤ ·)) : (dedup l).Pairwise (· < ·) := by
  fun_induction dedup l with
  | case1 => exact .nil
  | case2 a => exact List.pairwise_singleton _ a
  | case3 a l ih => exact ih (List.pairwise_cons.mp sorted).2
  | case4 a b l different ih =>
      obtain ⟨least,rest⟩ := List.pairwise_cons.mp sorted
      refine List.pairwise_cons.mpr ⟨?_,ih rest⟩
      intro x member
      have first : a < b := Nat.lt_of_le_of_ne (least b (by simp)) different
      rcases List.mem_cons.mp ((mem_dedup _ x).mp member) with rfl | later
      · exact first
      · exact first.trans_le ((List.pairwise_cons.mp rest).1 x later)

-- The roots that `Schedule::roots` finds are the nodes without a parent, each
-- once, whichever members the union-find picks.
theorem rootsOf_exact (u : Labeling) (linked : g.edges = edgesOf refs) (sized : g.nodeBound = refs.length) :
    (rootsOf u g).Nodup ∧ ∀ r, r ∈ rootsOf u g ↔ r < refs.length ∧ (dependencies refs).parent r = none := by
  have graph : ∀ i j, (i,j) ∈ g.edges ↔ (dependencies refs).parent j = some i := by
    intro i j
    rw [linked,mem_edgesOf]
  have ordered := List.pairwise_insertionSort (· ≤ ·) (u.labels refs.length g.edges)
  have found := label_roots graph u (dedup ((u.labels refs.length g.edges).insertionSort (· ≤ ·)))
    (List.Pairwise.imp Nat.ne_of_lt (dedup_sorted ordered)) (by
      intro label
      rw [mem_dedup,List.mem_insertionSort])
  have climbed : rootsOf u g =
      (dedup ((u.labels refs.length g.edges).insertionSort (· ≤ ·))).map (dependencies refs).root := by
    rw [rootsOf,sized]
    apply List.map_congr_left
    intro label _
    exact climb_ends linked _ label (Nat.le_refl _)
  rwa [climbed]

end Schedule
end AnomaAlpha
