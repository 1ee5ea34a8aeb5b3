import AnomaAlpha.Address
import AnomaAlpha.Lib.Fallible
import AnomaAlpha.Lib.OrderedMap

namespace AnomaAlpha

abbrev Bytes := List UInt8

-- `BTreeMap` and `BTreeSet`: iteration is in key order and two maps with the
-- same entries are equal.
abbrev BTreeMap (k v : Type) [Ord k] := Std.ExtTreeMap k v
abbrev BTreeSet (k : Type) [Ord k] := Std.ExtTreeSet k

-- The data is generic in the addresses: those that `Address::new` has checked, unless
-- it says otherwise.
inductive Param (A : Type := Address) where
  | inline (data : Bytes)
  | accountRef (address : A)
  | proposalRef (address : A)
  | calldataRef (key : String)
  deriving DecidableEq

inductive Code (A : Type := Address) where
  | inline (wasm : Bytes)
  | accountRef (address : A) (entrypoint : String)
  deriving DecidableEq

-- `Predicate<R: Repr>`: the representation chooses the types of code and params.
structure PredicateOf (code param : Type) where
  code : code
  params : List param
  deriving DecidableEq

abbrev Predicate (A : Type := Address) := PredicateOf (Code A) (Param A)

inductive ExpressionTree (α : Type) where
  | id (value : α)
  | not (tree : ExpressionTree α)
  | and (left right : ExpressionTree α)
  | or (left right : ExpressionTree α)
  deriving DecidableEq

abbrev PredicateTree (A : Type := Address) := ExpressionTree (Predicate A)

structure Account (A : Type := Address) where
  state : Bytes
  predicates : PredicateTree A
  deriving DecidableEq

inductive AccountChange (A : Type := Address) where
  | createAccount (account : Account A)
  | replaceState (state : Bytes)
  | replacePredicates (predicates : PredicateTree A)
  | deleteAccount
  deriving DecidableEq

inductive ExpandedAccountChange (A : Type := Address) where
  | createAccount (account : Account A)
  | replaceState (current proposed : Bytes)
  | replacePredicates (current proposed : PredicateTree A)
  | deleteAccount (current : Account A)
  deriving DecidableEq

inductive ExpandedParam (A : Type := Address) where
  | inline (data : Bytes)
  | accountRef (address : A) (state : Bytes)
  | proposalRef (address : A) (change : ExpandedAccountChange A)
  | calldataRef (key : String) (value : Bytes)
  deriving DecidableEq

def ExpandedParam.data {A : Type} : ExpandedParam A → Bytes
  | .inline v => v
  | .accountRef _ v => v
  | .proposalRef _ change => match change with
    | .createAccount account => account.state
    | .replaceState _ proposed => proposed
    | .replacePredicates _ _ => []
    | .deleteAccount _ => []
  | .calldataRef _ v => v

structure ExpandedCode where
  code : Bytes
  entrypoint : String
  deriving DecidableEq

abbrev ExpandedPredicate (A : Type := Address) := PredicateOf ExpandedCode (ExpandedParam A)
abbrev ExpandedTree (A : Type := Address) := ExpressionTree (ExpandedPredicate A)

namespace ExpressionTree
variable {α β ε : Type}

def map (op : α → β) : ExpressionTree α → ExpressionTree β
  | .id p => .id (op p)
  | .not t => .not (t.map op)
  | .and l r => .and (l.map op) (r.map op)
  | .or l r => .or (l.map op) (r.map op)

def tryMap (op : α → Except ε β) : ExpressionTree α → Except ε (ExpressionTree β)
  | .id p => do return .id (← op p)
  | .not t => do return .not (← t.tryMap op)
  | .and l r => do
    let l ← l.tryMap op
    let r ← r.tryMap op
    return .and l r
  | .or l r => do
    let l ← l.tryMap op
    let r ← r.tryMap op
    return .or l r

-- `for_each` with the state that its `FnMut` closure captures made explicit.
def forEach (op : β → α → β) : β → ExpressionTree α → β
  | s,.id p => op s p
  | s,.not t => t.forEach op s
  | s,.and l r => r.forEach op (l.forEach op s)
  | s,.or l r => r.forEach op (l.forEach op s)

def reduce (id : α → β) (not : β → β) (and or : β → β → β) : ExpressionTree α → β
  | .id v => id v
  | .not t => not (t.reduce id not and or)
  | .and l r => and (l.reduce id not and or) (r.reduce id not and or)
  | .or l r => or (l.reduce id not and or) (r.reduce id not and or)

-- Leaves from left to right, which is the order in which `map`, `try_map` and
-- `for_each` reach them.
def leaves : ExpressionTree α → List α
  | .id p => [p]
  | .not t => t.leaves
  | .and l r => l.leaves ++ r.leaves
  | .or l r => l.leaves ++ r.leaves

def size (t : ExpressionTree α) : Nat := t.leaves.length

def holds (leaf : α → Bool) (t : ExpressionTree α) : Bool := t.reduce leaf (!·) (· && ·) (· || ·)

@[simp] theorem leaves_map (op : α → β) (t : ExpressionTree α) : (t.map op).leaves = t.leaves.map op := by
  induction t with
  | id => rfl
  | not t ih => exact ih
  | and l r left right | or l r left right => simp [map,leaves,left,right]

theorem holds_map (op : α → β) (leaf : β → Bool) (t : ExpressionTree α) :
    (t.map op).holds leaf = t.holds fun p => leaf (op p) := by
  unfold holds
  induction t with
  | id => rfl
  | not t ih => simp only [map,reduce,ih]
  | and l r left right | or l r left right => simp only [map,reduce,left,right]

theorem forEach_leaves (op : β → α → β) (s : β) (t : ExpressionTree α) :
    t.forEach op s = t.leaves.foldl op s := by
  induction t generalizing s with
  | id => rfl
  | not t ih => exact ih s
  | and l r left right | or l r left right => simp [forEach,leaves,left,right]

theorem holds_congr (f g : α → Bool) (t : ExpressionTree α) (same : ∀ p ∈ t.leaves, f p = g p) :
    t.holds f = t.holds g := by
  unfold holds
  induction t with
  | id p => exact same p (by simp [leaves])
  | not t ih => simp only [reduce,ih same]
  | and l r left right | or l r left right =>
      have here := left fun p member => same p (List.mem_append_left _ member)
      have there := right fun p member => same p (List.mem_append_right _ member)
      simp only [reduce,here,there]

theorem map_congr {f g : α → β} {t : ExpressionTree α} (same : ∀ p ∈ t.leaves, f p = g p) : t.map f = t.map g := by
  induction t with
  | id p => simp only [map,same p (by simp [leaves])]
  | not t ih => simp only [map,ih same]
  | and l r left right | or l r left right =>
      have here := left fun p member => same p (List.mem_append_left _ member)
      have there := right fun p member => same p (List.mem_append_right _ member)
      simp only [map,here,there]

-- `try_map` stops at the first leaf that fails, so it succeeds exactly when the
-- operation succeeds on every leaf.
theorem tryMap_ok {op : α → Except ε β} {t : ExpressionTree α} {mapped : ExpressionTree β}
    (accepted : t.tryMap op = .ok mapped) : ∀ p ∈ t.leaves, ∃ q, op p = .ok q := by
  induction t generalizing mapped with
  | id p =>
      intro x member
      obtain rfl := List.mem_singleton.mp member
      cases got : op x with
      | error e => simp [tryMap,got,bind,Except.bind] at accepted
      | ok q => exact ⟨q,rfl⟩
  | not t ih =>
      cases got : t.tryMap op with
      | error e => simp [tryMap,got,bind,Except.bind] at accepted
      | ok inner => exact ih got
  | and l r left right | or l r left right =>
      cases gotLeft : l.tryMap op with
      | error e => simp [tryMap,gotLeft,bind,Except.bind] at accepted
      | ok first =>
          cases gotRight : r.tryMap op with
          | error e => simp [tryMap,gotLeft,gotRight,bind,Except.bind] at accepted
          | ok second =>
              intro p member
              rcases List.mem_append.mp member with here | there
              · exact left gotLeft p here
              · exact right gotRight p there

inductive Pointwise (R : α → β → Prop) : ExpressionTree α → ExpressionTree β → Prop where
  | id : R p q → Pointwise R (.id p) (.id q)
  | not : Pointwise R t u → Pointwise R (.not t) (.not u)
  | and : Pointwise R l m → Pointwise R r s → Pointwise R (.and l r) (.and m s)
  | or : Pointwise R l m → Pointwise R r s → Pointwise R (.or l r) (.or m s)

theorem pointwise_id {R : α → β → Prop} : Pointwise R (.id p) (.id q) ↔ R p q :=
  ⟨fun paired => by cases paired with | id here => exact here,.id⟩

theorem pointwise_not {R : α → β → Prop} : Pointwise R (.not t) (.not u) ↔ Pointwise R t u :=
  ⟨fun paired => by cases paired with | not inner => exact inner,.not⟩

theorem pointwise_and {R : α → β → Prop} :
    Pointwise R (.and l r) (.and m s) ↔ Pointwise R l m ∧ Pointwise R r s :=
  ⟨fun paired => by cases paired with | and here there => exact ⟨here,there⟩,fun both => .and both.1 both.2⟩

theorem pointwise_or {R : α → β → Prop} :
    Pointwise R (.or l r) (.or m s) ↔ Pointwise R l m ∧ Pointwise R r s :=
  ⟨fun paired => by cases paired with | or here there => exact ⟨here,there⟩,fun both => .or both.1 both.2⟩

theorem Pointwise.imp {R S : α → β → Prop} (weaker : ∀ p q, R p q → S p q) (paired : Pointwise R t u) :
    Pointwise S t u := by
  induction paired with
  | id here => exact .id (weaker _ _ here)
  | not _ ih => exact .not ih
  | and _ _ left right => exact .and left right
  | or _ _ left right => exact .or left right

theorem Pointwise.leaves {R : α → β → Prop} (paired : Pointwise R t u) : List.Forall₂ R t.leaves u.leaves := by
  induction paired with
  | id here => exact .cons here .nil
  | not _ ih => exact ih
  | and _ _ left right | or _ _ left right => exact List.rel_append left right

theorem Pointwise.on_leaves {R S : α → β → Prop} (paired : Pointwise R t u) :
    Pointwise S t u ↔ ∀ pair ∈ t.leaves.zip u.leaves, S pair.1 pair.2 := by
  induction paired with
  | id here => simp [pointwise_id,ExpressionTree.leaves]
  | not _ ih => exact pointwise_not.trans ih
  | and left _ here there =>
      rw [pointwise_and,here,there,ExpressionTree.leaves,ExpressionTree.leaves,List.zip_append left.leaves.length_eq,
        List.forall_mem_append]
  | or left _ here there =>
      rw [pointwise_or,here,there,ExpressionTree.leaves,ExpressionTree.leaves,List.zip_append left.leaves.length_eq,
        List.forall_mem_append]

theorem Pointwise.split {R S : α → β → Prop} :
    Pointwise (fun p q => R p q ∧ S p q) t u ↔ Pointwise R t u ∧ Pointwise S t u := by
  constructor
  · intro both
    exact ⟨both.imp fun _ _ => And.left,both.imp fun _ _ => And.right⟩
  · intro given
    obtain ⟨first,second⟩ := given
    rw [first.on_leaves] at second ⊢
    exact fun pair member => ⟨(first.on_leaves.mp first) pair member,second pair member⟩

theorem tryMap_pointwise {op : α → Except ε β} {t : ExpressionTree α} {mapped : ExpressionTree β}
    (accepted : t.tryMap op = .ok mapped) : Pointwise (fun p q => op p = .ok q) t mapped := by
  induction t generalizing mapped with
  | id p =>
      obtain ⟨q,here,finished⟩ := Fallible.bind_ok.mp accepted
      cases finished
      exact .id here
  | not t ih =>
      obtain ⟨inner,here,finished⟩ := Fallible.bind_ok.mp accepted
      cases finished
      exact .not (ih here)
  | and l r left right =>
      obtain ⟨first,here,later⟩ := Fallible.bind_ok.mp accepted
      obtain ⟨second,there,finished⟩ := Fallible.bind_ok.mp later
      cases finished
      exact .and (left here) (right there)
  | or l r left right =>
      obtain ⟨first,here,later⟩ := Fallible.bind_ok.mp accepted
      obtain ⟨second,there,finished⟩ := Fallible.bind_ok.mp later
      cases finished
      exact .or (left here) (right there)

-- Where it fails, every leaf further to the left has succeeded.
theorem tryMap_error {op : α → Except ε β} {t : ExpressionTree α} {e : ε} (failed : t.tryMap op = .error e) :
    ∃ front p back, t.leaves = front ++ p :: back ∧ (∀ q ∈ front, ∃ r, op q = .ok r) ∧ op p = .error e := by
  induction t with
  | id p =>
      refine ⟨[],p,[],rfl,by simp,?_⟩
      rcases Fallible.bind_error.mp failed with here | ⟨q,_,finished⟩
      · exact here
      · cases finished
  | not t ih =>
      rcases Fallible.bind_error.mp failed with here | ⟨inner,_,finished⟩
      · exact ih here
      · cases finished
  | and l r left right | or l r left right =>
      rcases Fallible.bind_error.mp failed with here | ⟨first,here,later⟩
      · obtain ⟨front,p,back,parts,fine,stopped⟩ := left here
        exact ⟨front,p,back ++ r.leaves,by simp [leaves,parts],fine,stopped⟩
      · rcases Fallible.bind_error.mp later with there | ⟨second,_,finished⟩
        · obtain ⟨front,p,back,parts,fine,stopped⟩ := right there
          refine ⟨l.leaves ++ front,p,back,by simp [leaves,parts],?_,stopped⟩
          intro q member
          rcases List.mem_append.mp member with early | late
          · exact tryMap_ok here q early
          · exact fine q late
        · cases finished

theorem tryMap_congr {op op' : α → Except ε β} {t : ExpressionTree α}
    (same : ∀ p ∈ t.leaves, op p = op' p) : t.tryMap op = t.tryMap op' := by
  induction t with
  | id p => simp only [tryMap,same p (by simp [leaves])]
  | not t ih => simp only [tryMap,ih same]
  | and l r left right | or l r left right =>
      have here := left fun p member => same p (List.mem_append_left _ member)
      have there := right fun p member => same p (List.mem_append_right _ member)
      simp only [tryMap,here,there]

end ExpressionTree
end AnomaAlpha
