import AnomaAlpha.Query

namespace AnomaAlpha.Query
open ExpressionTree OrderedMap

section
variable (basic : PredicateTree) (template : QueryTree)

theorem matches_eq (captures : Captures) : ExpressionPattern.matches basic template = some captures ↔
    basic.Pointwise LeafSeen template ∧ captures = record ∅ ((seenPositions basic template).filterMap capture) := by
  obtain ⟨accepts,records⟩ := findMatches_seen basic template ∅
  unfold ExpressionPattern.matches
  rw [← accepts]
  cases ran : findMatches basic template ∅ with
  | mk found all =>
      rw [ran] at records
      cases found with
      | false => simp
      | true =>
          rw [← records rfl]
          simp [eq_comm]

theorem matches_seen : (∃ captures, ExpressionPattern.matches basic template = some captures) ↔
    basic.Pointwise LeafSeen template := by
  simp [matches_eq]

theorem fits_split : basic.Pointwise LeafFits template ↔
    basic.Pointwise LeafSeen template ∧ basic.Pointwise LeafUnseen template := by
  rw [← Pointwise.split]
  exact ⟨fun paired => paired.imp fun b p => (leaf_split b p).mp,fun paired => paired.imp fun b p => (leaf_split b p).mpr⟩

-- Right where the positions behind an `Exact` fit whenever those in front do.
theorem matches_iff : ((∃ captures, ExpressionPattern.matches basic template = some captures) ↔
      basic.Pointwise LeafFits template) ↔
    (basic.Pointwise LeafSeen template → basic.Pointwise LeafUnseen template) := by
  rw [matches_seen,fits_split]
  constructor
  · intro same looked
    exact (same.mp looked).2
  · intro behind
    exact ⟨fun looked => ⟨looked,behind looked⟩,And.left⟩

end

namespace MatchingExample
def code : Code := .accountRef ⟨"/stdpred",by decide⟩ "pred1"
def basic : PredicateTree := .id ⟨code,[.inline [1],.inline [2]]⟩
def template : QueryTree := .id ⟨code,[.exact (.inline [1]),.exact (.inline [3])]⟩
end MatchingExample

theorem exact_hides_mismatch :
    ExpressionPattern.matches MatchingExample.basic MatchingExample.template = some ∅ ∧
    ¬MatchingExample.basic.Pointwise LeafFits MatchingExample.template := by
  refine ⟨rfl,?_⟩
  intro paired
  obtain ⟨_,fits⟩ := pointwise_id.mp paired
  cases fits with
  | cons _ rest => cases rest with
    | cons wrong _ => cases wrong

def ParamPattern.name : ParamPattern → Option String
  | .any => none
  | .exact _ => none
  | .inline name => some name
  | .accountRef name => some name
  | .proposalRef name => some name
  | .calldataRef name => some name

def names (template : QueryTree) : List String :=
  template.leaves.flatMap fun leaf => leaf.params.filterMap ParamPattern.name

def build (captures : Captures) : ParamPattern → Option Param
  | .any => none
  | .exact param => some param
  | .inline name => match captures[name]? with
    | some (.bytes val) => some (.inline val)
    | _ => none
  | .accountRef name => match captures[name]? with
    | some (.address val) => some (.accountRef val)
    | _ => none
  | .proposalRef name => match captures[name]? with
    | some (.address val) => some (.proposalRef val)
    | _ => none
  | .calldataRef name => match captures[name]? with
    | some (.string val) => some (.calldataRef val)
    | _ => none

def LeafRebuilt (captures : Captures) (basic : Predicate) (template : QueryPredicate) : Prop :=
  basic.code = template.code ∧
    List.Forall₂ (fun param pattern => pattern = .any ∨ build captures pattern = some param) basic.params template.params

-- The captures name what the template names, and put back what it matched.
structure Described (basic : PredicateTree) (template : QueryTree) (captures : Captures) : Prop where
  named : ∀ name, name ∈ captures ↔ name ∈ names template
  rebuilt : basic.Pointwise (LeafRebuilt captures) template

def Consistent (bindings : List (String × MatchValue)) : Prop :=
  ∀ name value other, (name,value) ∈ bindings → (name,other) ∈ bindings → value = other

theorem capture_name {pair : Param × ParamPattern} {binding : String × MatchValue} (bound : capture pair = some binding) :
    ParamPattern.name pair.2 = some binding.1 := by
  obtain ⟨param,pattern⟩ := pair
  cases param <;> cases pattern <;> cases bound <;> rfl

theorem capture_total {param : Param} {pattern : ParamPattern} {name : String} (fits : Fits param pattern)
    (named : ParamPattern.name pattern = some name) : ∃ value, capture (param,pattern) = some (name,value) := by
  cases fits <;> cases named
  all_goals exact ⟨_,rfl⟩

theorem build_captured {captures : Captures} {pair : Param × ParamPattern} {name : String} {value : MatchValue}
    (bound : capture pair = some (name,value)) :
    (pair.2 = .any ∨ build captures pair.2 = some pair.1) ↔ captures[name]? = some value := by
  obtain ⟨param,pattern⟩ := pair
  cases param <;> cases pattern <;> cases bound
  all_goals
    simp only [build,reduceCtorEq,false_or]
    split <;> simp_all

theorem built_fits {captures : Captures} {param : Param} {pattern : ParamPattern}
    (built : pattern = .any ∨ build captures pattern = some param) : Fits param pattern := by
  rcases built with rfl | built
  · exact .any param
  · unfold build at built
    split at built
    · cases built
    · cases built
      exact .exact _
    all_goals
      split at built
      · cases built
        constructor
      · cases built

theorem unnamed_built {captures : Captures} {param : Param} {pattern : ParamPattern} (fits : Fits param pattern)
    (unnamed : ParamPattern.name pattern = none) : pattern = .any ∨ build captures pattern = some param := by
  cases fits with
  | any => exact .inl rfl
  | exact => exact .inr rfl
  | _ => cases unnamed

theorem record_list (bindings : List (String × MatchValue)) :
    record ∅ bindings = Std.ExtTreeMap.ofList bindings compare := by
  rw [Std.ExtTreeMap.ofList_eq_insertMany_empty,Std.ExtTreeMap.insertMany_list_eq_foldl]
  rfl

theorem record_get {bindings : List (String × MatchValue)} {name : String} {value : MatchValue}
    (held : (record ∅ bindings)[name]? = some value) : (name,value) ∈ bindings := by
  rw [record_list] at held
  exact get_ofList_mem held

theorem record_holds {bindings : List (String × MatchValue)} {name : String} {value : MatchValue}
    (bound : (name,value) ∈ bindings) : ∃ last, (record ∅ bindings)[name]? = some last := by
  rw [record_list,← Option.ne_none_iff_exists']
  intro absent
  exact get_ofList_none absent _ bound rfl

section
variable {basic : PredicateTree} {template : QueryTree}

theorem positions_iff {S : Param → ParamPattern → Prop} (looked : basic.Pointwise LeafSeen template) :
    basic.Pointwise (fun b p => b.code = p.code ∧ List.Forall₂ S b.params p.params) template ↔
      ∀ pair ∈ positions basic template, S pair.1 pair.2 := by
  have sized := looked.on_leaves.mp looked
  rw [looked.on_leaves]
  constructor
  · intro each pair member
    obtain ⟨leaf,inside,here⟩ := List.mem_flatMap.mp member
    exact (List.forall₂_iff_zip.mp (each leaf inside).2).2 here
  · intro each leaf inside
    obtain ⟨coded,counted,_⟩ := sized leaf inside
    exact ⟨coded,List.forall₂_iff_zip.mpr ⟨counted,fun here => each _ (List.mem_flatMap.mpr ⟨leaf,inside,here⟩)⟩⟩

theorem seen_position {pair : Param × ParamPattern} (member : pair ∈ seenPositions basic template) :
    pair ∈ positions basic template := by
  obtain ⟨leaf,inside,here⟩ := List.mem_flatMap.mp member
  refine List.mem_flatMap.mpr ⟨leaf,inside,?_⟩
  rw [← seen_unseen (leaf.1.params.zip leaf.2.params)]
  exact List.mem_append_left _ here

theorem seen_fits (looked : basic.Pointwise LeafSeen template) : ∀ pair ∈ seenPositions basic template, Fits pair.1 pair.2 := by
  intro pair member
  obtain ⟨leaf,inside,here⟩ := List.mem_flatMap.mp member
  exact (looked.on_leaves.mp looked leaf inside).2.2 pair here

theorem names_positions (looked : basic.Pointwise LeafSeen template) :
    names template = (positions basic template).filterMap fun pair => ParamPattern.name pair.2 := by
  induction looked with
  | id here =>
      rename_i b p
      have patterns : (b.params.zip p.params).map Prod.snd = p.params := List.map_snd_zip (by rw [here.2.1])
      change p.params.filterMap _ ++ [] = (b.params.zip p.params ++ []).filterMap _
      rw [List.append_nil,List.append_nil,← Function.comp_def,← List.filterMap_map,patterns]
  | not _ ih => exact ih
  | and left _ here there | or left _ here there =>
      refine List.flatMap_append.trans (Eq.trans ?_ (congrArg _ (pair_positions id left _ _).symm))
      rw [List.filterMap_append]
      exact congrArg₂ (· ++ ·) here there

theorem captures_describe_iff (basic : PredicateTree) (template : QueryTree) :
    (∀ captures, ExpressionPattern.matches basic template = some captures → Described basic template captures) ↔
    (basic.Pointwise LeafSeen template → basic.Pointwise LeafUnseen template ∧
      (∀ name ∈ names template, ∃ pair ∈ seenPositions basic template, ParamPattern.name pair.2 = some name) ∧
      Consistent ((positions basic template).filterMap capture)) := by
  constructor
  · intro describes looked
    obtain ⟨named,rebuilt⟩ := describes _ ((matches_eq basic template _).mpr ⟨looked,rfl⟩)
    have each := (positions_iff looked).mp rebuilt
    refine ⟨?_,?_,?_⟩
    · have fits : basic.Pointwise LeafFits template :=
        (positions_iff looked).mpr fun pair member => built_fits (each pair member)
      exact ((fits_split basic template).mp fits).2
    · intro name told
      obtain ⟨value,held⟩ := Option.isSome_iff_exists.mp (Std.ExtTreeMap.mem_iff_isSome_getElem?.mp ((named name).mpr told))
      obtain ⟨pair,member,bound⟩ := List.mem_filterMap.mp (record_get held)
      exact ⟨pair,member,capture_name bound⟩
    · intro name value other first second
      obtain ⟨pair,member,bound⟩ := List.mem_filterMap.mp first
      obtain ⟨pair',member',bound'⟩ := List.mem_filterMap.mp second
      have held := (build_captured bound).mp (each pair member)
      have held' := (build_captured bound').mp (each pair' member')
      exact Option.some.inj (held.symm.trans held')
  · intro agree captures matched
    obtain ⟨looked,rfl⟩ := (matches_eq basic template captures).mp matched
    obtain ⟨behind,covered,consistent⟩ := agree looked
    have fits := (positions_iff looked).mp ((fits_split basic template).mpr ⟨looked,behind⟩)
    have held : ∀ name ∈ names template, ∃ value,
        (record ∅ ((seenPositions basic template).filterMap capture))[name]? = some value := by
      intro name told
      obtain ⟨pair,member,named⟩ := covered name told
      obtain ⟨value,bound⟩ := capture_total (seen_fits looked pair member) named
      exact record_holds (List.mem_filterMap.mpr ⟨pair,member,bound⟩)
    refine ⟨?_,(positions_iff looked).mpr ?_⟩
    · intro name
      rw [Std.ExtTreeMap.mem_iff_isSome_getElem?,Option.isSome_iff_exists]
      refine ⟨?_,held name⟩
      intro given
      obtain ⟨value,here⟩ := given
      obtain ⟨pair,member,bound⟩ := List.mem_filterMap.mp (record_get here)
      rw [names_positions looked]
      exact List.mem_filterMap.mpr ⟨pair,seen_position member,capture_name bound⟩
    · intro pair member
      cases named : ParamPattern.name pair.2 with
      | none => exact unnamed_built (fits pair member) named
      | some name =>
          obtain ⟨value,bound⟩ := capture_total (fits pair member) named
          have told : name ∈ names template := by
            rw [names_positions looked]
            exact List.mem_filterMap.mpr ⟨pair,member,named⟩
          obtain ⟨last,here⟩ := held name told
          obtain ⟨late,visited,latest⟩ := List.mem_filterMap.mp (record_get here)
          have same : last = value := consistent name last value
            (List.mem_filterMap.mpr ⟨late,seen_position visited,latest⟩) (List.mem_filterMap.mpr ⟨pair,member,bound⟩)
          subst same
          exact (build_captured bound).mpr here

end

namespace CapturedExample
def stdpred (name : String) : Code := .accountRef ⟨"/stdpred",rfl⟩ name

def donationPattern : QueryTree :=
  .and (.and (.id ⟨stdpred "uint_greater_than_by",
      [.proposalRef "project_wallet_after",.accountRef "project_wallet_before",.inline "donor_amount"]⟩)
    (.id ⟨stdpred "uint_less_than_by",
      [.proposalRef "donor_wallet_after",.accountRef "donor_wallet_before",.inline "donor_amount"]⟩))
  (.id ⟨stdpred "bytes_equal",[.proposalRef "donation_address",.inline "donation_state"]⟩)

def project : Address := ⟨"/token/usda/project",by decide⟩
def donor : Address := ⟨"/token/usda/donor",by decide⟩
def donation : Address := ⟨"/pgqf/donation",by decide⟩

def intent (received given : UInt8) : PredicateTree :=
  .and (.and (.id ⟨stdpred "uint_greater_than_by",[.proposalRef project,.accountRef project,.inline [received]]⟩)
    (.id ⟨stdpred "uint_less_than_by",[.proposalRef donor,.accountRef donor,.inline [given]]⟩))
  (.id ⟨stdpred "bytes_equal",[.proposalRef donation,.inline []]⟩)
end CapturedExample

theorem repeated_name_overwritten : ∃ captures,
    ExpressionPattern.matches (CapturedExample.intent 5 7) CapturedExample.donationPattern = some captures ∧
    captures["donor_amount"]? = some (.bytes [7]) ∧
    ¬Described (CapturedExample.intent 5 7) CapturedExample.donationPattern captures := by
  obtain ⟨captures,matched,held⟩ : ∃ captures,
      ExpressionPattern.matches (CapturedExample.intent 5 7) CapturedExample.donationPattern = some captures ∧
      captures["donor_amount"]? = some (.bytes [7]) := ⟨_,rfl,by decide⟩
  refine ⟨captures,matched,held,?_⟩
  intro described
  obtain ⟨_,built⟩ := pointwise_id.mp (pointwise_and.mp (pointwise_and.mp described.rebuilt).1).1
  cases built with
  | cons _ rest => cases rest with
    | cons _ rest => cases rest with
      | cons built _ =>
          have bound : capture (.inline [5],.inline "donor_amount") = some ("donor_amount",.bytes [5]) := rfl
          cases held.symm.trans ((build_captured bound).mp built)

end AnomaAlpha.Query
