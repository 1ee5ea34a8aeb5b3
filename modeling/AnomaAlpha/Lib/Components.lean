import AnomaAlpha.Lib.Forest

-- Connected components of a finite graph and what a union-find says about them.
namespace Components

abbrev Connected (edges : List (Nat × Nat)) : Nat → Nat → Prop := Relation.EqvGen fun a b => (a,b) ∈ edges

def Within (bound : Nat) (edges : List (Nat × Nat)) : Prop := ∀ e ∈ edges, e.1 < bound ∧ e.2 < bound

-- One label for every node below the bound: a member of its component, and the
-- same one for all of them. Which member it is stays open.
structure Labeling where
  labels : (bound : Nat) → (edges : List (Nat × Nat)) → List Nat
  length_eq : Within bound edges → (labels bound edges).length = bound
  member : Within bound edges → (labels bound edges)[i]? = some label → Connected edges i label
  same : Within bound edges → Connected edges i j → (labels bound edges)[i]? = (labels bound edges)[j]?

-- The simplest of them relabels a whole component at every union.
def relabel (labels : List Nat) (edge : Nat × Nat) : List Nat :=
  labels.map fun label => if labels[edge.2]? = some label then labels.getD edge.1 label else label

def quickFind (bound : Nat) (edges : List (Nat × Nat)) : List Nat := edges.foldl relabel (List.range bound)

structure Labels (bound : Nat) (edges : List (Nat × Nat)) (labels : List Nat) : Prop where
  length_eq : labels.length = bound
  member : ∀ {i label}, labels[i]? = some label → Connected edges i label
  same : ∀ {i j}, Connected edges i j → labels[i]? = labels[j]?

theorem labels_start (bound : Nat) : Labels bound [] (List.range bound) where
  length_eq := List.length_range
  member found := by
    obtain ⟨_,rfl⟩ := List.getElem?_eq_some_iff.mp found
    rw [List.getElem_range]
    exact .refl _
  same connected := by
    induction connected with
    | rel a b edge => cases edge
    | refl => rfl
    | symm _ _ _ ih => exact ih.symm
    | trans _ _ _ _ _ first second => exact first.trans second

theorem connected_more {i j : Nat} (old : Connected edges i j) : Connected (edges ++ more) i j := by
  induction old with
  | rel a b edge => exact .rel _ _ (List.mem_append_left _ edge)
  | refl => exact .refl _
  | symm _ _ _ ih => exact .symm _ _ ih
  | trans _ _ _ _ _ first second => exact .trans _ _ _ first second

theorem labels_step {bound : Nat} {edges : List (Nat × Nat)} {labels : List Nat} (inv : Labels bound edges labels)
    {a b : Nat} (left : a < bound) (right : b < bound) : Labels bound (edges ++ [(a,b)]) (relabel labels (a,b)) := by
  obtain ⟨la,foundA⟩ : ∃ la, labels[a]? = some la := ⟨_,List.getElem?_eq_getElem (by rwa [inv.length_eq])⟩
  obtain ⟨lb,foundB⟩ : ∃ lb, labels[b]? = some lb := ⟨_,List.getElem?_eq_getElem (by rwa [inv.length_eq])⟩
  have joined : Connected (edges ++ [(a,b)]) a b := .rel _ _ (by simp)
  have entry : ∀ i : Nat, (relabel labels (a,b))[i]? = labels[i]?.map fun label => if lb = label then la else label := by
    intro i
    simp only [relabel,List.getElem?_map,foundB,Option.some.injEq,List.getD_eq_getElem?_getD,foundA,Option.getD_some]
  constructor
  · rw [relabel,List.length_map,inv.length_eq]
  · intro i label found
    rw [entry] at found
    obtain ⟨old,before,rfl⟩ := Option.map_eq_some_iff.mp found
    have kept : Connected (edges ++ [(a,b)]) i old := connected_more (inv.member before)
    split
    · rename_i same
      have toB : Connected (edges ++ [(a,b)]) i b :=
        .trans _ _ _ (same ▸ kept) (.symm _ _ (connected_more (inv.member foundB)))
      exact .trans _ _ _ toB (.trans _ _ _ (.symm _ _ joined) (connected_more (inv.member foundA)))
    · exact kept
  · intro i j connected
    rw [entry,entry]
    induction connected with
    | rel x y edge =>
        rcases List.mem_append.mp edge with old | new
        · rw [inv.same (.rel _ _ old)]
        · obtain ⟨rfl,rfl⟩ := Prod.mk.inj (List.mem_singleton.mp new)
          rw [foundA,foundB]
          by_cases equal : lb = la <;> simp [equal]
    | refl => rfl
    | symm _ _ _ ih => exact ih.symm
    | trans _ _ _ _ _ first second => exact first.trans second

theorem quickFind_labels {bound : Nat} {edges : List (Nat × Nat)} (within : Within bound edges) :
    Labels bound edges (quickFind bound edges) := by
  have fold : ∀ (rest done : List (Nat × Nat)) (labels : List Nat), Within bound rest → Labels bound done labels →
      Labels bound (done ++ rest) (rest.foldl relabel labels) := by
    intro rest
    induction rest with
    | nil => intro done labels _ inv; rwa [List.append_nil]
    | cons e rest ih =>
        intro done labels inside inv
        obtain ⟨left,right⟩ := inside e (by simp)
        have next := ih (done ++ [e]) _ (fun x member => inside x (List.mem_cons_of_mem _ member))
          (labels_step inv left right)
        rwa [List.append_assoc,List.singleton_append] at next
  exact fold edges [] _ within (labels_start bound)

def Labeling.quick : Labeling where
  labels := quickFind
  length_eq within := (quickFind_labels within).length_eq
  member within := (quickFind_labels within).member
  same within := (quickFind_labels within).same

theorem label_roots {n : Nat} {f : Forest n} {edges : List (Nat × Nat)}
    (graph : ∀ i j, (i,j) ∈ edges ↔ f.parent j = some i) (u : Labeling) (picked : List Nat) (distinct : picked.Nodup)
    (covers : ∀ label, label ∈ picked ↔ label ∈ u.labels n edges) :
    (picked.map f.root).Nodup ∧ ∀ r, r ∈ picked.map f.root ↔ r < n ∧ f.parent r = none := by
  have within : Within n edges := fun ⟨i,j⟩ edge =>
    have up := (graph i j).mp edge
    ⟨(f.smaller up).trans (f.inside up),f.inside up⟩
  have connected : ∀ i j, Connected edges i j ↔ f.root i = f.root j := by
    intro i j
    have same : (fun a b => (a,b) ∈ edges) = fun a b => f.parent b = some a := by
      funext a b
      exact propext (graph a b)
    rw [Connected,same,Forest.connected_root]
  have labelled : ∀ {label}, label ∈ picked → ∃ i, i < n ∧ (u.labels n edges)[i]? = some label := by
    intro label member
    obtain ⟨i,found⟩ := List.mem_iff_getElem?.mp ((covers label).mp member)
    exact ⟨i,by rw [← u.length_eq within]; exact (List.getElem?_eq_some_iff.mp found).1,found⟩
  constructor
  · refine distinct.map_on ?_
    intro x first y second sameRoot
    obtain ⟨i,_,foundX⟩ := labelled first
    obtain ⟨j,_,foundY⟩ := labelled second
    have joined : Connected edges i j := (connected i j).mpr (by
      rw [(connected i x).mp (u.member within foundX),sameRoot,← (connected j y).mp (u.member within foundY)])
    have equal := u.same within joined
    rw [foundX,foundY] at equal
    exact Option.some.inj equal
  · intro r
    rw [List.mem_map]
    constructor
    · intro given
      obtain ⟨label,member,rfl⟩ := given
      obtain ⟨i,bound,found⟩ := labelled member
      rw [← (connected i label).mp (u.member within found)]
      exact ⟨(Forest.root_le i).trans_lt bound,Forest.root_parent i⟩
    · intro given
      obtain ⟨bound,top⟩ := given
      obtain ⟨label,found⟩ : ∃ label, (u.labels n edges)[r]? = some label :=
        ⟨_,List.getElem?_eq_getElem (by rwa [u.length_eq within])⟩
      refine ⟨label,(covers label).mpr (List.mem_of_getElem? found),?_⟩
      rw [← (connected r label).mp (u.member within found),Forest.root_top top]

end Components
