import AnomaAlpha.Collect

namespace AnomaAlpha.Collect
open Fallible

inductive Reference where
  | code (address : Address)
  | account (address : Address)
  | proposal (address : Address)
  | calldata (key : String)

def Code.reference : Code → Option Reference
  | .inline _ => none
  | .accountRef addr _ => some (.code addr)

def Param.reference : Param → Option Reference
  | .inline _ => none
  | .accountRef addr => some (.account addr)
  | .proposalRef addr => some (.proposal addr)
  | .calldataRef key => some (.calldata key)

-- From left to right; the code stands in front of the parameters.
def references (pred : Predicate) : List Reference :=
  (Code.reference pred.code).toList ++ pred.params.filterMap Param.reference

def treeReferences (tree : PredicateTree) : List (Predicate × Reference) :=
  tree.leaves.flatMap fun pred => (references pred).map fun reference => (pred,reference)

def Reference.error (pred : Predicate) : Reference → CollectError
  | .code addr => .codeDoesNotExist addr pred
  | .account addr => .accountRefDoesNotExist addr pred
  | .proposal addr => .proposalDoesNotExist addr pred
  | .calldata key => .calldataNotFound key pred

section
variable (state : View) (context : PredicateContext) (calldata : Calldata)

def Reference.Resolved : Reference → Prop
  | .code addr => ∃ acc, state addr = some acc
  | .account addr => ∃ acc, state addr = some acc
  | .proposal addr => addr ∈ context.proposals
  | .calldata key => key ∈ calldata

inductive CodeExpands : Code → ExpandedCode → Prop where
  | inline (wasm : Bytes) : CodeExpands (.inline wasm) ⟨wasm,"invoke"⟩
  | accountRef (entrypoint : String) : state addr = some acc → CodeExpands (.accountRef addr entrypoint) ⟨acc.state,entrypoint⟩

inductive ParamExpands : Param → ExpandedParam → Prop where
  | inline (data : Bytes) : ParamExpands (.inline data) (.inline data)
  | accountRef : state addr = some acc → ParamExpands (.accountRef addr) (.accountRef addr acc.state)
  | proposalRef : context.proposals[addr]? = some change → ParamExpands (.proposalRef addr) (.proposalRef addr change)
  | calldataRef : calldata[key]? = some value → ParamExpands (.calldataRef key) (.calldataRef key value)

def PredicateExpands (pred : Predicate) (expanded : ExpandedPredicate) : Prop :=
  CodeExpands state pred.code expanded.code ∧
    List.Forall₂ (ParamExpands state context calldata) pred.params expanded.params

end

section
variable {state : View} {context : PredicateContext} {calldata : Calldata} {pred : Predicate}

theorem found_iff {K V : Type} [Ord K] [Std.TransOrd K] [Std.LawfulEqOrd K] {m : BTreeMap K V} {key : K} :
    key ∈ m ↔ ∃ value, m[key]? = some value := by
  rw [Std.ExtTreeMap.mem_iff_isSome_getElem?,Option.isSome_iff_exists]

theorem expandCode_cases (state : View) (context : PredicateContext) (calldata : Calldata) (pred : Predicate) :
    (∃ code, expandCode state pred = .ok code ∧ CodeExpands state pred.code code ∧
      ∀ reference ∈ Code.reference pred.code, reference.Resolved state context calldata) ∨
    ∃ reference, Code.reference pred.code = some reference ∧ ¬reference.Resolved state context calldata ∧
      expandCode state pred = .error (reference.error pred) := by
  unfold expandCode
  cases pred.code with
  | inline wasm => exact .inl ⟨_,rfl,.inline wasm,by simp [Code.reference]⟩
  | accountRef addr entrypoint =>
      cases found : state addr with
      | none => exact .inr ⟨.code addr,rfl,by simp [Reference.Resolved,found],by simp [found,Reference.error]⟩
      | some acc =>
          exact .inl ⟨⟨acc.state,entrypoint⟩,by simp [found],.accountRef entrypoint found,
            by simp [Code.reference,Reference.Resolved,found]⟩

theorem expandParam_cases (pred : Predicate) (param : Param) :
    (∃ expanded, expandParam state context calldata pred param = .ok expanded ∧
      ParamExpands state context calldata param expanded ∧
      ∀ reference ∈ Param.reference param, reference.Resolved state context calldata) ∨
    ∃ reference, Param.reference param = some reference ∧ ¬reference.Resolved state context calldata ∧
      expandParam state context calldata pred param = .error (reference.error pred) := by
  unfold expandParam
  cases param with
  | inline data => exact .inl ⟨_,rfl,.inline data,by simp [Param.reference]⟩
  | accountRef addr =>
      cases found : state addr with
      | none => exact .inr ⟨.account addr,rfl,by simp [Reference.Resolved,found],by simp [found,Reference.error]⟩
      | some acc =>
          exact .inl ⟨_,by simp [found],.accountRef found,by simp [Param.reference,Reference.Resolved,found]⟩
  | proposalRef addr =>
      cases found : context.proposals[addr]? with
      | none =>
          exact .inr ⟨.proposal addr,rfl,by simp [Reference.Resolved,found_iff,found],by simp [found,Reference.error]⟩
      | some change =>
          exact .inl ⟨_,by simp [found],.proposalRef found,by simp [Param.reference,Reference.Resolved,found_iff,found]⟩
  | calldataRef key =>
      cases found : calldata[key]? with
      | none =>
          exact .inr ⟨.calldata key,rfl,by simp [Reference.Resolved,found_iff,found],by simp [found,Reference.error]⟩
      | some value =>
          exact .inl ⟨_,by simp [found],.calldataRef found,by simp [Param.reference,Reference.Resolved,found_iff,found]⟩

theorem expandCode_ok {code : ExpandedCode} (expanded : expandCode state pred = .ok code) :
    CodeExpands state pred.code code ∧ ∀ reference ∈ Code.reference pred.code, reference.Resolved state context calldata := by
  rcases expandCode_cases state context calldata pred with ⟨code',same,here,resolved⟩ | ⟨_,_,_,failed⟩
  · cases same.symm.trans expanded
    exact ⟨here,resolved⟩
  · cases failed.symm.trans expanded

theorem expandParam_ok {param : Param} {expanded : ExpandedParam}
    (done : expandParam state context calldata pred param = .ok expanded) :
    ParamExpands state context calldata param expanded ∧
      ∀ reference ∈ Param.reference param, reference.Resolved state context calldata := by
  rcases expandParam_cases pred param with ⟨expanded',same,here,resolved⟩ | ⟨_,_,_,failed⟩
  · cases same.symm.trans done
    exact ⟨here,resolved⟩
  · cases failed.symm.trans done

theorem params_resolved {params : List Param} (each : ∀ param ∈ params, ∃ expanded,
      expandParam state context calldata pred param = .ok expanded) :
    ∀ reference ∈ params.filterMap Param.reference, reference.Resolved state context calldata := by
  intro reference member
  obtain ⟨param,inside,named⟩ := List.mem_filterMap.mp member
  obtain ⟨expanded,done⟩ := each param inside
  exact (expandParam_ok done).2 reference named

theorem expandPredicate_ok {expanded : ExpandedPredicate} (done : expandPredicate state context calldata pred = .ok expanded) :
    PredicateExpands state context calldata pred expanded ∧
      ∀ reference ∈ references pred, reference.Resolved state context calldata := by
  obtain ⟨code,here,later⟩ := bind_ok.mp done
  obtain ⟨params,mapped,finished⟩ := bind_ok.mp later
  cases finished
  obtain ⟨coded,resolved⟩ := expandCode_ok here
  refine ⟨⟨coded,(mapM_pairs mapped).imp fun _ _ same => (expandParam_ok same).1⟩,?_⟩
  intro reference member
  rcases List.mem_append.mp member with first | behind
  · exact resolved reference (Option.mem_toList.mp first)
  · exact params_resolved (fun param inside => mapM_each mapped inside) reference behind

theorem expand_leaf {home : Address} {entrypoint : String} {params : List Param} {tree : ExpandedTree}
    (expanded : expandPredicateTree state (.id ⟨.accountRef home entrypoint,params⟩) context calldata = .ok tree) :
    ∃ library filled, state home = some library ∧ List.Forall₂ (ParamExpands state context calldata) params filled ∧
      tree = .id ⟨⟨library.state,entrypoint⟩,filled⟩ := by
  obtain ⟨leaf,done,finished⟩ := bind_ok.mp expanded
  cases finished
  obtain ⟨⟨coded,filled⟩,_⟩ := expandPredicate_ok done
  obtain ⟨code,values⟩ := leaf
  cases coded with
  | accountRef _ installed => exact ⟨_,values,installed,filled,rfl⟩

theorem expand_and {l r : PredicateTree} {tree : ExpandedTree}
    (expanded : expandPredicateTree state (.and l r) context calldata = .ok tree) :
    ∃ left right, expandPredicateTree state l context calldata = .ok left ∧
      expandPredicateTree state r context calldata = .ok right ∧ tree = .and left right := by
  obtain ⟨left,first,later⟩ := bind_ok.mp expanded
  obtain ⟨right,second,finished⟩ := bind_ok.mp later
  cases finished
  exact ⟨left,right,first,second,rfl⟩

theorem expandPredicate_error {error : CollectError} (failed : expandPredicate state context calldata pred = .error error) :
    ∃ before reference after, references pred = before ++ reference :: after ∧
      (∀ earlier ∈ before, earlier.Resolved state context calldata) ∧ ¬reference.Resolved state context calldata ∧
      error = reference.error pred := by
  rcases bind_error.mp failed with stopped | ⟨code,here,later⟩
  · rcases expandCode_cases state context calldata pred with ⟨_,same,_,_⟩ | ⟨reference,named,missing,why⟩
    · cases same.symm.trans stopped
    · cases why.symm.trans stopped
      exact ⟨[],reference,pred.params.filterMap Param.reference,by simp [references,named],by simp,missing,rfl⟩
  · rcases bind_error.mp later with stopped | ⟨_,_,finished⟩
    · obtain ⟨front,param,back,parts,fine,stopped⟩ := mapM_error stopped
      rcases expandParam_cases pred param with ⟨_,same,_,_⟩ | ⟨reference,named,missing,why⟩
      · cases same.symm.trans stopped
      · cases why.symm.trans stopped
        refine ⟨(Code.reference pred.code).toList ++ front.filterMap Param.reference,reference,
          back.filterMap Param.reference,by simp [references,parts,named],?_,missing,rfl⟩
        intro earlier member
        rcases List.mem_append.mp member with first | behind
        · exact (expandCode_ok here).2 earlier (Option.mem_toList.mp first)
        · exact params_resolved fine earlier behind
    · cases finished

theorem expandTree_error {tree : PredicateTree} {error : CollectError}
    (failed : expandPredicateTree state tree context calldata = .error error) :
    ∃ before pred reference after, treeReferences tree = before ++ (pred,reference) :: after ∧
      (∀ earlier ∈ before, earlier.2.Resolved state context calldata) ∧ ¬reference.Resolved state context calldata ∧
      error = reference.error pred := by
  obtain ⟨front,pred,back,parts,fine,stopped⟩ := ExpressionTree.tryMap_error failed
  obtain ⟨before,reference,after,named,resolved,unresolved,why⟩ := expandPredicate_error stopped
  refine ⟨(front.flatMap fun pred => (references pred).map fun reference => (pred,reference)) ++ before.map fun r => (pred,r),
    pred,reference,(after.map fun r => (pred,r)) ++ back.flatMap fun pred => (references pred).map fun r => (pred,r),
    by simp [treeReferences,parts,named],?_,unresolved,why⟩
  intro earlier member
  rcases List.mem_append.mp member with left | here
  · obtain ⟨other,inside,listed⟩ := List.mem_flatMap.mp left
    obtain ⟨r,told,rfl⟩ := List.mem_map.mp listed
    obtain ⟨expanded,done⟩ := fine other inside
    exact (expandPredicate_ok done).2 r told
  · obtain ⟨r,told,rfl⟩ := List.mem_map.mp here
    exact resolved r told

-- Expansion succeeds exactly when every reference resolves; it keeps the shape of
-- the tree, and a failure names the leftmost reference that does not resolve.
theorem expansion_faithful (state : View) (tree : PredicateTree) (context : PredicateContext) (calldata : Calldata) :
    ((∃ expanded, expandPredicateTree state tree context calldata = .ok expanded) ↔
      ∀ entry ∈ treeReferences tree, entry.2.Resolved state context calldata) ∧
    (∀ expanded, expandPredicateTree state tree context calldata = .ok expanded →
      tree.Pointwise (PredicateExpands state context calldata) expanded) ∧
    ∀ error, expandPredicateTree state tree context calldata = .error error →
      ∃ before pred reference after, treeReferences tree = before ++ (pred,reference) :: after ∧
        (∀ earlier ∈ before, earlier.2.Resolved state context calldata) ∧
        ¬reference.Resolved state context calldata ∧ error = reference.error pred := by
  refine ⟨?_,?_,fun error failed => expandTree_error failed⟩
  · constructor
    · intro given second member
      obtain ⟨expanded,done⟩ := given
      obtain ⟨pred,reference⟩ := second
      obtain ⟨leaf,inside,listed⟩ := List.mem_flatMap.mp member
      obtain ⟨r,told,same⟩ := List.mem_map.mp listed
      cases same
      obtain ⟨_,mapped⟩ := ExpressionTree.tryMap_ok done _ inside
      exact (expandPredicate_ok mapped).2 reference told
    · intro resolved
      cases done : expandPredicateTree state tree context calldata with
      | ok expanded => exact ⟨expanded,rfl⟩
      | error e =>
          obtain ⟨before,pred,reference,after,parts,_,unresolved,_⟩ := expandTree_error done
          exact (unresolved (resolved (pred,reference) (by simp [parts]))).elim
  · intro expanded done
    exact (ExpressionTree.tryMap_pointwise done).imp fun _ _ same => (expandPredicate_ok same).1

end
end AnomaAlpha.Collect
