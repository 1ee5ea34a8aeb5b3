import AnomaAlpha.Collect

namespace AnomaAlpha.Collect
open OrderedMap Fallible StateDiff

inductive Applied (diff : StateDiff) : View → View → Prop where
  | store (s : InMemoryStateStore) : Applied diff s.get (s.apply diff).get
  | stateDiff (d : StateDiff) : Applied diff d.get (d.apply diff).get

-- What a predicate is told about an account, against the account itself.
def Describes (before after : Option Account) : ExpandedAccountChange → Prop
  | .createAccount acc => before = none ∧ after = some acc
  | .replaceState current proposed =>
    ∃ acc, before = some acc ∧ acc.state = current ∧ after = some ⟨proposed,acc.predicates⟩
  | .replacePredicates current proposed =>
    ∃ acc, before = some acc ∧ acc.predicates = current ∧ after = some ⟨acc.state,proposed⟩
  | .deleteAccount current => before = some current ∧ after = none

def Misplaced (change : AccountChange) (held : Option Account) : Prop :=
  match change with
  | .createAccount _ => held ≠ none
  | _ => held = none

section
variable {w : Hashing} {state : View} {tx : Transaction} {diff : StateDiff}

theorem effect_none (change : AccountChange) (held : Option Account) : effect change held = none ↔ Misplaced change held := by
  cases change <;> cases held <;> simp [effect,Misplaced]

theorem applied_patch {before after : View} (applied : Applied diff before after) :
    after = Patch.apply before diff.patch := by
  cases applied with
  | store s => exact s.apply_get diff
  | stateDiff d =>
      funext address
      simp only [StateDiff.get,StateDiff.apply,Patch.apply,patch,merge_upserts]
      by_cases deleted : address ∈ diff.deletes
      · simp [deleted]
      · cases diff.upserts[address]? <;> simp [deleted]

theorem expand_effect {change : AccountChange} {held after : Option Account} (addr : Address)
    (found : state addr = held) (effected : effect change held = some after) :
    ∃ expanded, expandAccountChange addr state change = .ok expanded ∧ Describes held after expanded := by
  cases change <;> cases held <;> cases effected <;> simp only [expandAccountChange,found]
  all_goals exact ⟨_,rfl,by simp [Describes]⟩

theorem outputStep_fits {output : StateDiff} {addr : Address} {change : AccountChange} :
    (∃ next, outputStep state output (addr,change) = .ok next) ↔ ¬Misplaced change (state addr) := by
  cases change <;> cases found : state addr <;> simp [outputStep,Misplaced,found]

theorem outputs_fail : (∃ error, outputs state tx = .error error) ↔
    ∃ a change, tx.proposals[a]? = some change ∧ Misplaced change (state a) := by
  constructor
  · intro given
    obtain ⟨error,failed⟩ := given
    by_contra! placed
    have total : ∀ entry ∈ tx.proposals.toList, ∀ output, ∃ next, outputStep state output entry = .ok next := by
      intro given member output
      obtain ⟨a,change⟩ := given
      exact outputStep_fits.mpr (placed a change (Std.ExtTreeMap.mem_toList_iff_getElem?_eq_some.mp member))
    obtain ⟨diff,ran⟩ := foldlM_total (b:=default) total
    cases ran.symm.trans failed
  · intro given
    obtain ⟨a,change,proposed,misplaced⟩ := given
    cases ran : outputs state tx with
    | error error => exact ⟨error,rfl⟩
    | ok diff =>
        obtain ⟨result,fits,_⟩ := outputs_fits ran proposed
        rw [(effect_none change (state a)).mpr misplaced] at fits
        cases fits

theorem context_total (ran : outputs state tx = .ok diff) : ∃ context, predicateContext w state tx = .ok context := by
  have each : ∀ entry ∈ tx.proposals.toList, ∀ proposals, ∃ next, contextStep state proposals entry = .ok next := by
    intro given member proposals
    obtain ⟨a,change⟩ := given
    obtain ⟨result,fits,_⟩ := (outputs_steps ran).1 _ member
    obtain ⟨expanded,done,_⟩ := expand_effect a rfl fits
    exact ⟨proposals.insert a expanded,bind_ok.mpr ⟨expanded,done,rfl⟩⟩
  obtain ⟨proposals,folded⟩ := foldlM_total (b:=(∅ : BTreeMap Address ExpandedAccountChange)) each
  exact ⟨_,bind_ok.mpr ⟨proposals,folded,rfl⟩⟩

theorem context_keys {context : PredicateContext} (made : predicateContext w state tx = .ok context) (a : Address) :
    (∃ expanded, context.proposals[a]? = some expanded) ↔ ∃ change, tx.proposals[a]? = some change := by
  constructor
  · intro given
    obtain ⟨expanded,held⟩ := given
    by_contra absent
    rw [← mem_keys_iff] at absent
    cases held.symm.trans ((context_steps made).2 a absent)
  · intro given
    obtain ⟨change,proposed⟩ := given
    obtain ⟨expanded,_,held⟩ := context_proposal made proposed
    exact ⟨expanded,held⟩

theorem iter_keys (diff : StateDiff) (a : Address) : a ∈ diff.iter.map Prod.fst ↔ diff.patch a ≠ none := by
  simp only [iter,patch,List.map_append,List.map_map,List.mem_append,List.mem_map,Function.comp_apply,Prod.exists,
    exists_and_right,exists_eq_right,Std.ExtTreeMap.mem_toList_iff_getElem?_eq_some,Std.ExtTreeSet.mem_toList]
  by_cases deleted : a ∈ diff.deletes
  · simp [deleted]
  · cases diff.upserts[a]? <;> simp [deleted]

theorem iter_once (separate : Separate diff) : (diff.iter.map Prod.fst).Nodup := by
  have upserted : diff.upserts.toList.map (Prod.fst ∘ fun entry => (entry.1,some entry.2)) = diff.upserts.toList.map Prod.fst :=
    rfl
  have deleted : diff.deletes.toList.map (Prod.fst ∘ fun addr => (addr,(none : Option Account))) = diff.deletes.toList :=
    List.map_id _
  rw [iter,List.map_append,List.map_map,List.map_map,upserted,deleted]
  refine List.nodup_append.mpr ⟨nodup_keys diff.upserts,?_,?_⟩
  · refine Std.ExtTreeSet.distinct_toList.imp ?_
    intro a b different equal
    rw [equal] at different
    exact different Std.ReflCmp.compare_self
  · intro a inside b removed same
    subst same
    obtain ⟨acc,held⟩ := (mem_keys_iff diff.upserts a).mp inside
    exact separate a ⟨Std.ExtTreeSet.mem_toList.mp removed,by simp [held]⟩

theorem proposal_described {context : PredicateContext} (ran : outputs state tx = .ok diff)
    (made : predicateContext w state tx = .ok context) {a : Address} {expanded : ExpandedAccountChange}
    (held : context.proposals[a]? = some expanded) : Describes (state a) (Patch.apply state diff.patch a) expanded := by
  obtain ⟨change,proposed⟩ := (context_keys made a).mp ⟨expanded,held⟩
  obtain ⟨result,fits,written⟩ := outputs_fits ran proposed
  obtain ⟨told,done,described⟩ := expand_effect a rfl fits
  obtain ⟨same,expands,kept⟩ := context_proposal made proposed
  cases done.symm.trans expands
  cases kept.symm.trans held
  rw [Patch.apply,written]
  exact described

-- What is shown to the predicates is what is written.
theorem predicates_see_writes (w : Hashing) (state : View) (tx : Transaction) :
    (∀ diff, outputs state tx = .ok diff → ∃ context, predicateContext w state tx = .ok context ∧
      (∀ a, a ∈ context.proposals.toList.map Prod.fst ↔ a ∈ tx.proposals.toList.map Prod.fst) ∧
      (∀ a, a ∈ diff.iter.map Prod.fst ↔ a ∈ tx.proposals.toList.map Prod.fst) ∧ (diff.iter.map Prod.fst).Nodup ∧
      ∀ a expanded, context.proposals[a]? = some expanded →
        ∀ after, Applied diff state after → Describes (state a) (after a) expanded) ∧
    ((∃ error, outputs state tx = .error error) ↔
      ∃ a change, tx.proposals[a]? = some change ∧ Misplaced change (state a)) := by
  refine ⟨?_,outputs_fail⟩
  intro diff ran
  obtain ⟨context,made⟩ := context_total (w:=w) ran
  refine ⟨context,made,?_,?_,iter_once (reachable_separate (outputs_reachable ran)),?_⟩
  · intro a
    rw [mem_keys_iff,mem_keys_iff]
    exact context_keys made a
  · intro a
    rw [iter_keys,mem_keys_iff,Ne,outputs_writes ran,← Ne,Option.ne_none_iff_exists']
  · intro a expanded held after applied
    rw [applied_patch applied]
    exact proposal_described ran made held

end
end AnomaAlpha.Collect
