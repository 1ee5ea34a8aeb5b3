import AnomaAlpha.ExecuteMany
import Mathlib.Data.Nat.SuccPred

namespace AnomaAlpha.Schedule
open Components

theorem find_last {R : Type} (hit : R → Bool) (l : List R) (i : Nat) :
    (l.zipIdx.reverse.find? fun e => hit e.1).map Prod.snd = some i ↔
      IsGreatest {i : Nat | ∃ r, l[i]? = some r ∧ hit r = true} i := by
  induction l using List.reverseRecOn with
  | nil => simp [IsGreatest]
  | append_singleton l last ih =>
      rw [List.zipIdx_append,List.reverse_append,List.zipIdx_singleton,List.reverse_singleton,List.singleton_append,
        Nat.zero_add,List.find?_cons]
      have inside : ∀ {k r}, (l ++ [last])[k]? = some r → k ≤ l.length := by
        intro k r found
        have bound := (List.getElem?_eq_some_iff.mp found).1
        rw [List.length_append,List.length_singleton] at bound
        exact Nat.le_of_lt_succ bound
      cases here : hit last with
      | true =>
          have greatest : IsGreatest {i : Nat | ∃ r, (l ++ [last])[i]? = some r ∧ hit r = true} l.length := by
            refine ⟨⟨last,List.getElem?_concat_length,here⟩,?_⟩
            intro k given
            obtain ⟨r,found,_⟩ := given
            exact inside found
          simp only [Option.map_some,Option.some.injEq]
          exact ⟨fun same => same ▸ greatest,fun other => greatest.unique other⟩
      | false =>
          have same : {i : Nat | ∃ r, (l ++ [last])[i]? = some r ∧ hit r = true} =
              {i : Nat | ∃ r, l[i]? = some r ∧ hit r = true} := by
            ext k
            constructor
            · intro given
              obtain ⟨r,found,told⟩ := given
              rcases Nat.lt_or_eq_of_le (inside found) with less | rfl
              · exact ⟨r,by rwa [List.getElem?_append_left less] at found,told⟩
              · rw [List.getElem?_concat_length] at found
                cases found
                rw [here] at told
                cases told
            · intro given
              obtain ⟨r,found,told⟩ := given
              exact ⟨r,by rwa [List.getElem?_append_left (List.getElem?_eq_some_iff.mp found).1],told⟩
          rw [same]
          exact ih

def DependsOn (state : View) (txs : List Transaction) (j i : Nat) : Prop :=
  ∃ tx other, txs[j]? = some tx ∧ txs[i]? = some other ∧
    (TransactionRefs.new tx state).dependsOn (TransactionRefs.new other state) = true

theorem parentOf_greatest (state : View) (txs : List Transaction) (i j : Nat) :
    parentOf (refsOf state txs) j = some i ↔ IsGreatest {i : Nat | i < j ∧ DependsOn state txs j i} i := by
  cases found : txs[j]? with
  | none =>
      have nothing : {i : Nat | i < j ∧ DependsOn state txs j i} = ∅ := by
        ext k
        simp [DependsOn,found]
      simp [parentOf,refsOf,found,nothing,IsGreatest]
  | some tx =>
      have same : {i : Nat | i < j ∧ DependsOn state txs j i} =
          {i : Nat | ∃ r, ((refsOf state txs).take j)[i]? = some r ∧
            (TransactionRefs.new tx state).dependsOn r = true} := by
        ext k
        by_cases less : k < j <;> simp [DependsOn,found,refsOf,List.getElem?_take,less]
      have here : (refsOf state txs)[j]? = some (TransactionRefs.new tx state) := by
        rw [refsOf,List.getElem?_map,found]
        rfl
      rw [same,← find_last,parentOf,here]

-- The graph of a block and its roots. The walk of `roots` up the edges ends by
-- itself at a node without an incoming edge.
structure DependencyForest (state : View) (txs : List Transaction) (s : Schedule) : Prop where
  forward : ∀ {i j}, (i,j) ∈ s.graph.edges → i < j ∧ j < txs.length
  single : ∀ j, (s.graph.incoming j).length ≤ 1
  latest : ∀ i j, i ∈ s.graph.incoming j ↔ IsGreatest {i : Nat | i < j ∧ DependsOn state txs j i} i
  independent : ∀ j, s.graph.incoming j = [] ↔ ∀ i < j, ¬DependsOn state txs j i
  ends : ∀ j, s.graph.incoming (climb s.graph s.graph.nodeBound j) = [] ∧
    ∀ more, climb s.graph (s.graph.nodeBound+more) j = climb s.graph s.graph.nodeBound j
  distinct : s.roots.Nodup
  root : ∀ r, r ∈ s.roots ↔ r < txs.length ∧ s.graph.incoming r = []
  inside : ∀ r ∈ s.roots, ∀ j, Relation.ReflTransGen (fun a b => (a,b) ∈ s.graph.edges) r j → j < txs.length
  partition : ∀ j < txs.length, ∃! r, r ∈ s.roots ∧ Relation.ReflTransGen (fun a b => (a,b) ∈ s.graph.edges) r j

section
variable {g : Graph} {refs : List TransactionRefs}

theorem reached_root (linked : g.edges = edgesOf refs) {i j : Nat}
    (reached : Relation.ReflTransGen (fun a b => (a,b) ∈ g.edges) i j) :
    (dependencies refs).root i = (dependencies refs).root j := by
  induction reached with
  | refl => rfl
  | tail _ edge ih =>
      rw [linked,mem_edgesOf] at edge
      exact ih.trans (Forest.root_step edge).symm

theorem root_reaches (linked : g.edges = edgesOf refs) (j : Nat) :
    Relation.ReflTransGen (fun a b => (a,b) ∈ g.edges) ((dependencies refs).root j) j := by
  induction j using Nat.strongRecOn with
  | ind j ih =>
      cases edge : (dependencies refs).parent j with
      | none => rw [Forest.root_top edge]
      | some i =>
          rw [Forest.root_step edge]
          refine (ih i ((dependencies refs).smaller edge)).tail ?_
          rw [linked,mem_edgesOf]
          exact edge

end

section
variable (u : Labeling) (state : View) (txs : List Transaction)

theorem new_incoming (j : Nat) :
    (new u state txs).graph.incoming j = ((dependencies (refsOf state txs)).parent j).toList :=
  incoming_toList (new_linked state txs u) j

theorem new_edge {i j : Nat} (edge : (i,j) ∈ (new u state txs).graph.edges) : i < j ∧ j < txs.length := by
  rw [new_linked state txs u,mem_edgesOf] at edge
  have inside := (dependencies _).inside edge
  rw [refsOf_length] at inside
  exact ⟨(dependencies _).smaller edge,inside⟩

theorem incoming_latest (i j : Nat) : i ∈ (new u state txs).graph.incoming j ↔
    IsGreatest {i : Nat | i < j ∧ DependsOn state txs j i} i := by
  rw [new_incoming,Option.mem_toList]
  exact parentOf_greatest state txs i j

theorem incoming_none (j : Nat) : (new u state txs).graph.incoming j = [] ↔ ∀ i < j, ¬DependsOn state txs j i := by
  constructor
  · intro empty i less depends
    have bounded : BddAbove {i : Nat | i < j ∧ DependsOn state txs j i} := ⟨j,fun k given => Nat.le_of_lt given.1⟩
    obtain ⟨last,latest⟩ := bounded.exists_isGreatest_of_nonempty ⟨i,less,depends⟩
    have member := (incoming_latest u state txs last j).mpr latest
    rw [empty] at member
    cases member
  · intro free
    apply List.eq_nil_iff_forall_not_mem.mpr
    intro i member
    obtain ⟨less,depends⟩ := ((incoming_latest u state txs i j).mp member).1
    exact free i less depends

theorem incoming_top (j : Nat) : (new u state txs).graph.incoming j = [] ↔
    (dependencies (refsOf state txs)).parent j = none := by
  rw [new_incoming,Option.toList_eq_nil_iff]

theorem new_roots (r : Nat) : r ∈ (new u state txs).roots ↔
    r < txs.length ∧ (new u state txs).graph.incoming r = [] := by
  rw [incoming_top,← refsOf_length state txs]
  exact (rootsOf_exact u (new_linked state txs u) (new_sized state txs u)).2 r

theorem climb_stops (j : Nat) :
    (new u state txs).graph.incoming (climb (new u state txs).graph (new u state txs).graph.nodeBound j) = [] ∧
    ∀ more, climb (new u state txs).graph ((new u state txs).graph.nodeBound+more) j =
      climb (new u state txs).graph (new u state txs).graph.nodeBound j := by
  have walks := climb_ends (new_linked state txs u)
  rw [new_sized,walks _ j (Nat.le_refl _),incoming_top]
  exact ⟨Forest.root_parent j,fun more => walks _ j (Nat.le_add_right _ more)⟩

theorem one_root {j : Nat} (bound : j < txs.length) :
    ∃! r, r ∈ (new u state txs).roots ∧
      Relation.ReflTransGen (fun a b => (a,b) ∈ (new u state txs).graph.edges) r j := by
  have linked := new_linked state txs u
  refine ⟨(dependencies (refsOf state txs)).root j,⟨?_,root_reaches linked j⟩,?_⟩
  · apply (new_roots u state txs _).mpr
    exact ⟨(Forest.root_le j).trans_lt bound,(incoming_top u state txs _).mpr (Forest.root_parent j)⟩
  · intro r given
    obtain ⟨member,reached⟩ := given
    have top := (incoming_top u state txs r).mp ((new_roots u state txs r).mp member).2
    rw [← reached_root linked reached,Forest.root_top top]

-- `Schedule::new` builds a forest of the last dependencies, and its roots are
-- one for each tree.
theorem new_dependency_forest : DependencyForest state txs (new u state txs) where
  forward := new_edge u state txs
  single j := by
    rw [new_incoming]
    exact Option.length_toList_le
  latest := incoming_latest u state txs
  independent := incoming_none u state txs
  ends := climb_stops u state txs
  distinct := (rootsOf_exact u (new_linked state txs u) (new_sized state txs u)).1
  root := new_roots u state txs
  inside r member j reached := by
    cases reached with
    | refl => exact ((new_roots u state txs r).mp member).1
    | tail _ edge => exact (new_edge u state txs edge).2
  partition j bound := one_root u state txs bound

end

end AnomaAlpha.Schedule
