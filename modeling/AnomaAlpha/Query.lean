import AnomaAlpha.Predicate

namespace AnomaAlpha

inductive ParamPattern where
  | any
  | exact (param : Param)
  | inline (name : String)
  | accountRef (name : String)
  | proposalRef (name : String)
  | calldataRef (name : String)
  deriving DecidableEq

inductive MatchValue where
  | address (address : Address)
  | bytes (bytes : Bytes)
  | string (text : String)
  deriving DecidableEq

-- `PredicateTree<Query>`.
abbrev QueryPredicate := PredicateOf Code ParamPattern
abbrev QueryTree := ExpressionTree QueryPredicate

-- The `HashMap` of captures is only asked by name.
abbrev Captures := BTreeMap String MatchValue

namespace Query

-- The loop over the zipped parameters. `Exact` returns from the whole function.
def matchParams : List (Param × ParamPattern) → Captures → Bool × Captures
  | [],captures => (true,captures)
  | (left,right) :: rest,captures => match right,left with
    | .any,_ => matchParams rest captures
    | .exact right,left => (left == right,captures)
    | .inline name,.inline val => matchParams rest (captures.insert name (.bytes val))
    | .accountRef name,.accountRef val => matchParams rest (captures.insert name (.address val))
    | .proposalRef name,.proposalRef val => matchParams rest (captures.insert name (.address val))
    | .calldataRef name,.calldataRef val => matchParams rest (captures.insert name (.string val))
    | _,_ => (false,captures)

def findMatches : PredicateTree → QueryTree → Captures → Bool × Captures
  | .id basic,.id template,captures =>
    if basic.code = template.code ∧ basic.params.length = template.params.length then
      matchParams (basic.params.zip template.params) captures
    else (false,captures)
  | .not left,.not right,captures => findMatches left right captures
  | .and left left',.and right right',captures => match findMatches left right captures with
    | (true,captures) => findMatches left' right' captures
    | (false,captures) => (false,captures)
  | .or left left',.or right right',captures => match findMatches left right captures with
    | (true,captures) => findMatches left' right' captures
    | (false,captures) => (false,captures)
  | _,_,captures => (false,captures)

def ExpressionPattern.matches (basic : PredicateTree) (template : QueryTree) : Option Captures :=
  match findMatches basic template ∅ with
  | (true,captures) => some captures
  | (false,_) => none

inductive Fits : Param → ParamPattern → Prop where
  | any (param : Param) : Fits param .any
  | exact (param : Param) : Fits param (.exact param)
  | inline (val : Bytes) (name : String) : Fits (.inline val) (.inline name)
  | accountRef (val : Address) (name : String) : Fits (.accountRef val) (.accountRef name)
  | proposalRef (val : Address) (name : String) : Fits (.proposalRef val) (.proposalRef name)
  | calldataRef (val name : String) : Fits (.calldataRef val) (.calldataRef name)

theorem fits_exact (left right : Param) : Fits left (.exact right) ↔ left = right := by
  constructor
  · intro fits
    cases fits
    rfl
  · intro same
    subst same
    exact .exact left

def LeafFits (basic : Predicate) (template : QueryPredicate) : Prop :=
  basic.code = template.code ∧ List.Forall₂ Fits basic.params template.params

-- The positions up to the first `Exact`, and the ones behind it.
def seen : List (Param × ParamPattern) → List (Param × ParamPattern)
  | [] => []
  | (left,right) :: rest => match right with
    | .exact _ => [(left,right)]
    | _ => (left,right) :: seen rest

def unseen : List (Param × ParamPattern) → List (Param × ParamPattern)
  | [] => []
  | (_,right) :: rest => match right with
    | .exact _ => rest
    | _ => unseen rest

def LeafSeen (basic : Predicate) (template : QueryPredicate) : Prop :=
  basic.code = template.code ∧ basic.params.length = template.params.length ∧
    ∀ pair ∈ seen (basic.params.zip template.params), Fits pair.1 pair.2

def LeafUnseen (basic : Predicate) (template : QueryPredicate) : Prop :=
  ∀ pair ∈ unseen (basic.params.zip template.params), Fits pair.1 pair.2

theorem seen_free {left : Param} {right : ParamPattern} (free : ∀ param, right ≠ .exact param)
    (rest : List (Param × ParamPattern)) : seen ((left,right) :: rest) = (left,right) :: seen rest := by
  cases right with
  | exact param => exact (free param rfl).elim
  | _ => rfl

theorem seen_unseen (pairs : List (Param × ParamPattern)) : seen pairs ++ unseen pairs = pairs := by
  induction pairs with
  | nil => rfl
  | cons pair rest ih =>
      obtain ⟨left,right⟩ := pair
      cases right with
      | exact param => rfl
      | _ =>
          change (left,_) :: (seen rest ++ unseen rest) = _
          rw [ih]

theorem zip_fits {params : List Param} {patterns : List ParamPattern} : List.Forall₂ Fits params patterns ↔
    params.length = patterns.length ∧ ∀ pair ∈ params.zip patterns, Fits pair.1 pair.2 := by
  rw [List.forall₂_iff_zip]
  constructor
  · intro given
    obtain ⟨sized,each⟩ := given
    exact ⟨sized,fun pair member => each member⟩
  · intro given
    obtain ⟨sized,each⟩ := given
    exact ⟨sized,fun member => each _ member⟩

theorem leaf_split (basic : Predicate) (template : QueryPredicate) :
    LeafFits basic template ↔ LeafSeen basic template ∧ LeafUnseen basic template := by
  have parts := seen_unseen (basic.params.zip template.params)
  unfold LeafFits LeafSeen LeafUnseen
  rw [zip_fits]
  constructor
  · intro given
    obtain ⟨coded,sized,each⟩ := given
    rw [← parts] at each
    exact ⟨⟨coded,sized,fun pair member => each pair (List.mem_append_left _ member)⟩,
      fun pair member => each pair (List.mem_append_right _ member)⟩
  · intro given
    obtain ⟨⟨coded,sized,front⟩,back⟩ := given
    refine ⟨coded,sized,?_⟩
    rw [← parts]
    intro pair member
    exact (List.mem_append.mp member).elim (front pair) (back pair)

def capture : Param × ParamPattern → Option (String × MatchValue)
  | (.inline val,.inline name) => some (name,.bytes val)
  | (.accountRef val,.accountRef name) => some (name,.address val)
  | (.proposalRef val,.proposalRef name) => some (name,.address val)
  | (.calldataRef val,.calldataRef name) => some (name,.string val)
  | _ => none

def record (captures : Captures) (bindings : List (String × MatchValue)) : Captures :=
  bindings.foldl (fun m binding => m.insert binding.1 binding.2) captures

theorem matchParams_any (left : Param) (rest : List (Param × ParamPattern)) (captures : Captures) :
    matchParams ((left,.any) :: rest) captures = matchParams rest captures := by
  cases left <;> rfl

theorem matchParams_exact (left right : Param) (rest : List (Param × ParamPattern)) (captures : Captures) :
    matchParams ((left,.exact right) :: rest) captures = (left == right,captures) := by
  cases left <;> rfl

theorem matchParams_named {left : Param} {right : ParamPattern} (named : right ≠ .any)
    (free : ∀ param, right ≠ .exact param) (rest : List (Param × ParamPattern)) (captures : Captures) :
    (∃ binding, capture (left,right) = some binding ∧ Fits left right ∧
      matchParams ((left,right) :: rest) captures = matchParams rest (captures.insert binding.1 binding.2)) ∨
    ¬Fits left right ∧ matchParams ((left,right) :: rest) captures = (false,captures) := by
  cases right with
  | any => exact (named rfl).elim
  | exact param => exact (free param rfl).elim
  | inline name =>
      cases left with
      | inline val => exact .inl ⟨_,rfl,.inline val name,rfl⟩
      | _ => exact .inr ⟨(by intro fits; cases fits),rfl⟩
  | accountRef name =>
      cases left with
      | accountRef val => exact .inl ⟨_,rfl,.accountRef val name,rfl⟩
      | _ => exact .inr ⟨(by intro fits; cases fits),rfl⟩
  | proposalRef name =>
      cases left with
      | proposalRef val => exact .inl ⟨_,rfl,.proposalRef val name,rfl⟩
      | _ => exact .inr ⟨(by intro fits; cases fits),rfl⟩
  | calldataRef name =>
      cases left with
      | calldataRef val => exact .inl ⟨_,rfl,.calldataRef val name,rfl⟩
      | _ => exact .inr ⟨(by intro fits; cases fits),rfl⟩

theorem matchParams_seen (pairs : List (Param × ParamPattern)) (captures : Captures) :
    ((matchParams pairs captures).1 = true ↔ ∀ pair ∈ seen pairs, Fits pair.1 pair.2) ∧
    ((matchParams pairs captures).1 = true →
      (matchParams pairs captures).2 = record captures ((seen pairs).filterMap capture)) := by
  induction pairs generalizing captures with
  | nil => exact ⟨by simp [matchParams,seen],fun _ => rfl⟩
  | cons pair rest ih =>
      obtain ⟨left,right⟩ := pair
      by_cases named : right = .any
      · subst named
        have fits := Fits.any left
        have silent : capture (left,.any) = none := by cases left <;> rfl
        obtain ⟨accepts,records⟩ := ih captures
        have free : ∀ param, ParamPattern.any ≠ .exact param := by
          intro param same
          cases same
        rw [matchParams_any,seen_free free,List.forall_mem_cons,List.filterMap_cons,silent]
        exact ⟨accepts.trans ⟨fun each => ⟨fits,each⟩,And.right⟩,records⟩
      · by_cases pinned : ∃ param, right = .exact param
        · obtain ⟨param,rfl⟩ := pinned
          have silent : capture (left,.exact param) = none := by cases left <;> rfl
          rw [matchParams_exact,seen,List.filterMap_cons,silent,List.forall_mem_singleton,fits_exact,beq_iff_eq]
          exact ⟨Iff.rfl,fun _ => rfl⟩
        · have free : ∀ param, right ≠ .exact param := fun param same => pinned ⟨param,same⟩
          rw [seen_free free,List.forall_mem_cons,List.filterMap_cons]
          rcases matchParams_named named free rest captures with ⟨binding,bound,fits,same⟩ | ⟨unfit,same⟩
          · obtain ⟨accepts,records⟩ := ih (captures.insert binding.1 binding.2)
            rw [same,bound]
            exact ⟨accepts.trans ⟨fun each => ⟨fits,each⟩,And.right⟩,records⟩
          · rw [same]
            refine ⟨⟨?_,fun each => (unfit each.1).elim⟩,?_⟩ <;> (intro told; cases told)

def positions (basic : PredicateTree) (template : QueryTree) : List (Param × ParamPattern) :=
  (basic.leaves.zip template.leaves).flatMap fun leaf => leaf.1.params.zip leaf.2.params

def seenPositions (basic : PredicateTree) (template : QueryTree) : List (Param × ParamPattern) :=
  (basic.leaves.zip template.leaves).flatMap fun leaf => seen (leaf.1.params.zip leaf.2.params)

theorem record_append (captures : Captures) (front back : List (String × MatchValue)) :
    record captures (front ++ back) = record (record captures front) back := List.foldl_append

theorem pair_positions (look : List (Param × ParamPattern) → List (Param × ParamPattern)) {left : PredicateTree}
    {right : QueryTree} (paired : left.Pointwise LeafSeen right) (left' : PredicateTree) (right' : QueryTree) :
    ((left.leaves ++ left'.leaves).zip (right.leaves ++ right'.leaves)).flatMap
      (fun leaf => look (leaf.1.params.zip leaf.2.params)) =
    (left.leaves.zip right.leaves).flatMap (fun leaf => look (leaf.1.params.zip leaf.2.params)) ++
      (left'.leaves.zip right'.leaves).flatMap fun leaf => look (leaf.1.params.zip leaf.2.params) := by
  rw [List.zip_append paired.leaves.length_eq,List.flatMap_append]

theorem both_seen {left left' : PredicateTree} {right right' : QueryTree} {result : Bool × Captures} (captures : Captures)
    (first : ∀ captures, ((findMatches left right captures).1 = true ↔ left.Pointwise LeafSeen right) ∧
      ((findMatches left right captures).1 = true →
        (findMatches left right captures).2 = record captures ((seenPositions left right).filterMap capture)))
    (second : ∀ captures, ((findMatches left' right' captures).1 = true ↔ left'.Pointwise LeafSeen right') ∧
      ((findMatches left' right' captures).1 = true →
        (findMatches left' right' captures).2 = record captures ((seenPositions left' right').filterMap capture)))
    (same : result = match findMatches left right captures with
      | (true,captures) => findMatches left' right' captures
      | (false,captures) => (false,captures)) :
    (result.1 = true ↔ left.Pointwise LeafSeen right ∧ left'.Pointwise LeafSeen right') ∧
    (result.1 = true → result.2 = record captures ((((left.leaves ++ left'.leaves).zip
      (right.leaves ++ right'.leaves)).flatMap fun leaf => seen (leaf.1.params.zip leaf.2.params)).filterMap capture)) := by
  obtain ⟨accepts,records⟩ := first captures
  subst same
  cases ran : findMatches left right captures with
  | mk found middle =>
      rw [ran] at accepts records
      cases found with
      | false =>
          refine ⟨⟨?_,fun both => nomatch accepts.mpr both.1⟩,?_⟩ <;> (intro told; cases told)
      | true =>
          obtain ⟨accepts',records'⟩ := second middle
          dsimp only at accepts records ⊢
          refine ⟨accepts'.trans ⟨fun later => ⟨accepts.mp rfl,later⟩,And.right⟩,?_⟩
          intro told
          rw [records' told,records rfl,pair_positions seen (accepts.mp rfl) left' right',List.filterMap_append,record_append]
          rfl

theorem findMatches_seen (basic : PredicateTree) (template : QueryTree) (captures : Captures) :
    ((findMatches basic template captures).1 = true ↔ basic.Pointwise LeafSeen template) ∧
    ((findMatches basic template captures).1 = true →
      (findMatches basic template captures).2 = record captures ((seenPositions basic template).filterMap capture)) := by
  induction basic generalizing template captures with
  | id basic =>
      cases template with
      | id template =>
          obtain ⟨accepts,records⟩ := matchParams_seen (basic.params.zip template.params) captures
          have alone : seenPositions (.id basic) (.id template) = seen (basic.params.zip template.params) :=
            List.append_nil _
          rw [findMatches,alone,ExpressionTree.pointwise_id]
          split
          · rename_i fitting
            exact ⟨accepts.trans ⟨fun each => ⟨fitting.1,fitting.2,each⟩,fun looked => looked.2.2⟩,records⟩
          · rename_i other
            refine ⟨⟨?_,fun looked => (other ⟨looked.1,looked.2.1⟩).elim⟩,?_⟩ <;> (intro told; cases told)
      | _ => refine ⟨⟨?_,?_⟩,?_⟩ <;> (intro told; cases told)
  | not left ih =>
      cases template with
      | not right =>
          rw [ExpressionTree.pointwise_not]
          exact ih right captures
      | _ => refine ⟨⟨?_,?_⟩,?_⟩ <;> (intro told; cases told)
  | and left left' first second =>
      cases template with
      | and right right' =>
          rw [ExpressionTree.pointwise_and]
          exact both_seen captures (first right) (second right') rfl
      | _ => refine ⟨⟨?_,?_⟩,?_⟩ <;> (intro told; cases told)
  | or left left' first second =>
      cases template with
      | or right right' =>
          rw [ExpressionTree.pointwise_or]
          exact both_seen captures (first right) (second right') rfl
      | _ => refine ⟨⟨?_,?_⟩,?_⟩ <;> (intro told; cases told)

end Query
end AnomaAlpha
