import AnomaAlpha.Token
import AnomaAlpha.Expansion
import AnomaAlpha.Proposals
import AnomaAlpha.Lib.MapTotal

namespace AnomaAlpha.Token
open Collect StateDiff MapTotal Fallible

section
variable {ed : Ed25519} (format : TokenFormat ed) (token : Address)

def balanceOf (acc : Account) : Nat := ((format.uint acc.state).getD 0).toNat

def circulating (s : InMemoryStateStore) : Nat :=
  ((s.data.toList.filter fun entry => token.isParentOf entry.1).map fun entry => balanceOf format entry.2).sum

def Recorded (s : InMemoryStateStore) : Prop :=
  ∀ acc, s.get token = some acc → ∃ supply, format.uint acc.state = some supply ∧ supply.toNat = circulating format token s

def validity (code : Code) (selfParam mintParam : Bytes) : Predicate :=
  ⟨code,[.inline selfParam,.inline mintParam,.accountRef token]⟩

-- A transaction that goes through as far as the predicate of the token account has a
-- say: it is asked whenever the account or one below it is touched.
structure Accepted (w : Hashing) (pred : Predicate) (s : InMemoryStateStore) (tx : Transaction)
    (context : PredicateContext) (diff : StateDiff) : Prop where
  written : outputs s.get tx = .ok diff
  made : predicateContext w s.get tx = .ok context
  judged : token ∈ touched tx → ∃ expanded, expandPredicate s.get context (boundCalldata context) pred = .ok expanded ∧
    predicate format expanded.params context = some true

inductive Run (w : Hashing) (pred : Predicate) : InMemoryStateStore → List (Transaction × InMemoryStateStore) → Prop where
  | nil : Run w pred s []
  | cons : Accepted format token w pred s tx context diff → Run w pred (s.apply diff) rest →
      Run w pred s ((tx,s.apply diff) :: rest)

-- A transaction under which the balances keep their sum does not record another one.
def Steady (s : InMemoryStateStore) (tx : Transaction) (s' : InMemoryStateStore) : Prop :=
  ∀ acc proposed, s.get token = some acc → tx.proposals[token]? = some (.replaceState proposed) →
    circulating format token s' = circulating format token s → format.uint proposed = format.uint acc.state

def SteadyRun : InMemoryStateStore → List (Transaction × InMemoryStateStore) → Prop
  | _,[] => True
  | s,(tx,s') :: rest => Steady format token s tx s' ∧ SteadyRun s' rest

end

section
variable {ed : Ed25519} {format : TokenFormat ed} {token : Address} {w : Hashing} {code : Code}
  {selfParam mintParam : Bytes} {s : InMemoryStateStore} {tx : Transaction} {context : PredicateContext} {diff : StateDiff}

theorem circulating_total (s : InMemoryStateStore) : circulating format token s =
    MapTotal.total (fun a acc => if token.isParentOf a then balanceOf format acc else 0) s.data :=
  total_filter (fun a => token.isParentOf a) (balanceOf format) s.data

theorem wallets_total (balance : ExpandedAccountChange → Option UInt64) : total balance (wallets token context) =
    MapTotal.total (fun a change => if token.isParentOf a then ((balance change).getD 0).toNat else 0) context.proposals := by
  rw [← total_filter (fun a => token.isParentOf a) fun change => ((balance change).getD 0).toNat]
  rw [total,wallets,List.map_map]
  rfl

theorem described_balance {before after : Option Account} {change : ExpandedAccountChange}
    (described : Describes before after change) :
    after.elim 0 (balanceOf format) + ((currentBalance format change).getD 0).toNat =
      before.elim 0 (balanceOf format) + ((proposedBalance format change).getD 0).toNat := by
  cases change with
  | createAccount acc =>
      obtain ⟨rfl,rfl⟩ := described
      simp [balanceOf,currentBalance,proposedBalance]
  | replaceState current proposed =>
      obtain ⟨acc,rfl,rfl,rfl⟩ := described
      exact Nat.add_comm _ _
  | replacePredicates current proposed =>
      obtain ⟨acc,rfl,rfl,rfl⟩ := described
      rfl
  | deleteAccount current =>
      obtain ⟨rfl,rfl⟩ := described
      exact Nat.add_comm _ _

theorem described_current {before after : Option Account} {change : ExpandedAccountChange}
    (described : Describes before after change) :
    ((currentBalance format change).getD 0).toNat ≤ before.elim 0 (balanceOf format) := by
  cases change with
  | createAccount acc => exact Nat.zero_le _
  | replaceState current proposed =>
      obtain ⟨acc,rfl,rfl,rfl⟩ := described
      exact Nat.le_refl _
  | replacePredicates current proposed => exact Nat.zero_le _
  | deleteAccount current =>
      obtain ⟨rfl,rfl⟩ := described
      exact Nat.le_refl _

theorem untouched_same (ran : outputs s.get tx = .ok diff) {a : Address} (silent : tx.proposals[a]? = none) :
    (s.apply diff).get a = s.get a := by
  rw [s.apply_get diff,Patch.apply,outputs_silent ran silent]
  rfl

theorem proposed_described (ran : outputs s.get tx = .ok diff) (made : predicateContext w s.get tx = .ok context)
    {a : Address} {change : ExpandedAccountChange} (held : context.proposals[a]? = some change) :
    Describes (s.get a) ((s.apply diff).get a) change := by
  rw [s.apply_get diff]
  exact proposal_described ran made held

theorem context_silent (made : predicateContext w s.get tx = .ok context) {a : Address}
    (silent : context.proposals[a]? = none) : tx.proposals[a]? = none := by
  by_contra held
  obtain ⟨expanded,told⟩ := (context_keys made a).mpr (Option.ne_none_iff_exists'.mp held)
  rw [silent] at told
  cases told

-- The store gains what the context proposes and loses what it had there.
theorem circulating_moves (format : TokenFormat ed) (token : Address) (ran : outputs s.get tx = .ok diff)
    (made : predicateContext w s.get tx = .ok context) :
    circulating format token (s.apply diff) + totalBefore format token context =
      circulating format token s + totalAfter format token context := by
  rw [circulating_total,circulating_total,totalBefore,totalAfter,wallets_total,wallets_total]
  refine total_update fun a => ?_
  by_cases below : token.isParentOf a = true
  · simp only [below,if_true]
    cases held : context.proposals[a]? with
    | none =>
        have same := untouched_same ran (context_silent made held)
        change (s.apply diff).data[a]? = s.data[a]? at same
        rw [same]
        rfl
    | some change => exact described_balance (proposed_described ran made held)
  · simp only [below]
    cases (s.apply diff).data[a]? <;> cases s.data[a]? <;> cases context.proposals[a]? <;> rfl

theorem totalBefore_le (format : TokenFormat ed) (token : Address) (ran : outputs s.get tx = .ok diff)
    (made : predicateContext w s.get tx = .ok context) :
    totalBefore format token context ≤ circulating format token s := by
  rw [circulating_total,totalBefore,wallets_total]
  refine total_le fun a => ?_
  by_cases below : token.isParentOf a = true
  · simp only [below,if_true]
    cases held : context.proposals[a]? with
    | none => exact Nat.zero_le _
    | some change => exact described_current (proposed_described ran made held)
  · simp only [below]
    cases context.proposals[a]? <;> exact Nat.zero_le _

theorem expand_validity {calldata : Calldata} {expanded : ExpandedPredicate}
    (done : expandPredicate s.get context calldata (validity token code selfParam mintParam) = .ok expanded) :
    ∃ acc, s.get token = some acc ∧
      expanded.params = [.inline selfParam,.inline mintParam,.accountRef token acc.state] := by
  obtain ⟨⟨_,filled⟩,_⟩ := expandPredicate_ok done
  obtain ⟨code,params⟩ := expanded
  cases filled with
  | cons first filled => cases filled with
    | cons second filled => cases filled with
      | cons third filled =>
          cases first
          cases second
          cases filled
          cases third with
          | accountRef found => exact ⟨_,found,rfl⟩

theorem read_validity {state : Bytes} {selfAddr : Address} {mintAuth : ed.PublicKey} {supply : UInt64}
    (given : readParams format [.inline selfParam,.inline mintParam,.accountRef token state] =
      some (selfAddr,mintAuth,supply)) : selfAddr = token ∧ format.uint state = some supply := by
  obtain ⟨own,_,later⟩ := Option.bind_eq_some_iff.mp given
  obtain ⟨mint,_,checked⟩ := Option.bind_eq_some_iff.mp later
  split at checked
  · rename_i same
    obtain ⟨read,held,finished⟩ := Option.bind_eq_some_iff.mp checked
    cases finished
    exact ⟨same,held⟩
  · cases checked

theorem untouched_wallets (made : predicateContext w s.get tx = .ok context) (silent : token ∉ touched tx) :
    wallets token context = [] ∧ tx.proposals[token]? = none := by
  have apart : ∀ a change, tx.proposals[a]? = some change → a ≠ token ∧ token.isParentOf a ≠ true := by
    intro a change proposed
    have key := (OrderedMap.mem_keys_iff tx.proposals a).mpr ⟨change,proposed⟩
    refine ⟨?_,?_⟩
    · intro same
      subst same
      exact silent (key_touched key)
    · intro below
      exact silent (List.mem_flatMap.mpr ⟨a,key,List.mem_cons_of_mem _ ((isParentOf_iff token a).mp below)⟩)
  constructor
  · rw [wallets,List.map_eq_nil_iff,List.filter_eq_nil_iff]
    intro given member
    obtain ⟨a,change⟩ := given
    obtain ⟨own,proposed⟩ := (context_keys made a).mp ⟨change,Std.ExtTreeMap.mem_toList_iff_getElem?_eq_some.mp member⟩
    exact (apart a own proposed).2
  · by_contra held
    obtain ⟨change,proposed⟩ := Option.ne_none_iff_exists'.mp held
    exact (apart token change proposed).1 rfl

-- Sums that stay in range are the ones that the predicate has added up.
theorem sums_exact (ran : outputs s.get tx = .ok diff) (made : predicateContext w s.get tx = .ok context)
    {pre post : UInt64} (summed : sumBalances format token context = some (pre,post))
    (small : circulating format token s < 2^64) (small' : circulating format token (s.apply diff) < 2^64) :
    pre.toNat = totalBefore format token context ∧ post.toNat = totalAfter format token context := by
  obtain ⟨_,before,after⟩ := sum_some format summed
  have moves := circulating_moves format token ran made
  have held := totalBefore_le format token ran made
  rw [before,after]
  exact ⟨Nat.mod_eq_of_lt (by omega),Nat.mod_eq_of_lt (by omega)⟩

theorem expected_supply {supply pre post : UInt64} {old new : Nat} (held : supply.toNat = old)
    (moves : new + pre.toNat = old + post.toNat) (small : new < 2^64) : (supply + post - pre).toNat = new := by
  rw [UInt64.toNat_sub,UInt64.toNat_add]
  have bound := pre.toNat_lt
  omega

theorem unchanged_recorded (recorded : Recorded format token s)
    (same : circulating format token (s.apply diff) = circulating format token s)
    (kept : ∀ acc', (s.apply diff).get token = some acc' → ∃ acc, s.get token = some acc ∧ acc.state = acc'.state) :
    Recorded format token (s.apply diff) := by
  intro acc' found'
  obtain ⟨acc,found,state⟩ := kept acc' found'
  obtain ⟨supply,held,counted⟩ := recorded acc found
  exact ⟨supply,state ▸ held,counted.trans same.symm⟩

theorem silent_step (ran : outputs s.get tx = .ok diff) (silent : tx.proposals[token]? = none)
    (recorded : Recorded format token s) (same : circulating format token (s.apply diff) = circulating format token s) :
    Recorded format token (s.apply diff) ∧ Steady format token s tx (s.apply diff) := by
  constructor
  · refine unchanged_recorded recorded same fun acc' found' => ⟨acc',?_,rfl⟩
    rwa [untouched_same ran silent] at found'
  · intro acc proposed _ told
    rw [silent] at told
    cases told

theorem proposed_replaces (made : predicateContext w s.get tx = .ok context) {proposed : Bytes} {change : ExpandedAccountChange}
    (held : context.proposals[token]? = some change) (told : tx.proposals[token]? = some (.replaceState proposed)) :
    ∃ acc, s.get token = some acc ∧ change = .replaceState acc.state proposed := by
  obtain ⟨expanded,expands,held'⟩ := context_proposal made told
  cases held.symm.trans held'
  simp only [expandAccountChange] at expands
  cases found : s.get token with
  | none =>
      rw [found] at expands
      cases expands
  | some acc =>
      rw [found] at expands
      cases expands
      exact ⟨acc,rfl,rfl⟩

theorem proposed_told (made : predicateContext w s.get tx = .ok context) {current proposed : Bytes}
    (held : context.proposals[token]? = some (.replaceState current proposed)) :
    tx.proposals[token]? = some (.replaceState proposed) := by
  obtain ⟨change,told⟩ := (context_keys made token).mp ⟨_,held⟩
  obtain ⟨expanded,expands,held'⟩ := context_proposal made told
  cases held.symm.trans held'
  cases change <;> cases found : s.get token <;> simp only [expandAccountChange,found] at expands <;> cases expands
  exact told

theorem balanced_step (ran : outputs s.get tx = .ok diff) (made : predicateContext w s.get tx = .ok context)
    {acc : Account} {supply : UInt64} (found : s.get token = some acc) (read : format.uint acc.state = some supply)
    (counted : supply.toNat = circulating format token s)
    (same : circulating format token (s.apply diff) = circulating format token s) {change : ExpandedAccountChange}
    (held : context.proposals[token]? = some change) :
    Recorded format token (s.apply diff) ↔ Steady format token s tx (s.apply diff) := by
  have described := proposed_described ran made held
  have recorded : Recorded format token s := by
    intro acc' found'
    cases found.symm.trans found'
    exact ⟨supply,read,counted⟩
  rw [found] at described
  cases change with
  | createAccount new => cases described.1
  | replaceState current proposed =>
      obtain ⟨_,here,_,after⟩ := described
      cases here
      have told := proposed_told made held
      constructor
      · intro still acc' proposed' found' told' _
        cases found.symm.trans found'
        cases told.symm.trans told'
        obtain ⟨supply',read',counted'⟩ := still _ after
        rw [read,read',UInt64.toNat_inj.mp (counted'.trans (same.trans counted.symm))]
      · intro steady acc' found'
        cases after.symm.trans found'
        exact ⟨supply,(steady acc proposed found told same).trans read,counted.trans same.symm⟩
  | replacePredicates current proposed =>
      obtain ⟨_,here,_,after⟩ := described
      cases here
      refine ⟨fun _ => ?_,fun _ => ?_⟩
      · intro acc' proposed' _ told
        obtain ⟨_,_,other⟩ := proposed_replaces made held told
        cases other
      · refine unchanged_recorded recorded same fun acc' found' => ⟨_,found,?_⟩
        cases after.symm.trans found'
        rfl
  | deleteAccount current =>
      refine ⟨fun _ => ?_,fun _ => ?_⟩
      · intro acc' proposed' _ told
        obtain ⟨_,_,other⟩ := proposed_replaces made held told
        cases other
      · intro acc' found'
        cases described.2.symm.trans found'

theorem updated_recorded (ran : outputs s.get tx = .ok diff) (made : predicateContext w s.get tx = .ok context)
    {acc : Account} {supply pre post : UInt64} (found : s.get token = some acc)
    (counted : supply.toNat = circulating format token s)
    (moves : circulating format token (s.apply diff) + pre.toNat = circulating format token s + post.toNat)
    (small : circulating format token (s.apply diff) < 2^64) {change : ExpandedAccountChange}
    (held : context.proposals[token]? = some change)
    (updated : supplyUpdated format pre post (supply + post - pre) change = some true) :
    Recorded format token (s.apply diff) := by
  have described := proposed_described ran made held
  rw [found] at described
  intro acc' found'
  cases change with
  | createAccount new => cases described.1
  | replaceState current proposed =>
      obtain ⟨_,_,_,after⟩ := described
      cases after.symm.trans found'
      have compared : (do return (← format.uint proposed) == supply + post - pre) = some true := by
        unfold supplyUpdated at updated
        split at updated <;> exact updated
      obtain ⟨supply',read,finished⟩ := Option.bind_eq_some_iff.mp compared
      have same : supply' = supply + post - pre := by simpa using finished
      exact ⟨supply',read,same ▸ expected_supply counted moves small⟩
  | replacePredicates current proposed =>
      unfold supplyUpdated at updated
      split at updated <;> cases updated
  | deleteAccount current => cases described.2.symm.trans found'

theorem step_recorded (accepted : Accepted format token w (validity token code selfParam mintParam) s tx context diff)
    (recorded : Recorded format token s) (small : circulating format token (s.apply diff) < 2^64) :
    Recorded format token (s.apply diff) ↔ Steady format token s tx (s.apply diff) := by
  obtain ⟨ran,made,judged⟩ := accepted
  have moves := circulating_moves format token ran made
  by_cases asked : token ∈ touched tx
  · obtain ⟨expanded,done,allowed⟩ := judged asked
    obtain ⟨acc,found,params⟩ := expand_validity done
    obtain ⟨selfAddr,mintAuth,supply,pre,post,given,summed,why⟩ := predicate_cases format allowed
    rw [params] at given
    obtain ⟨rfl,read⟩ := read_validity given
    obtain ⟨supply',read',counted⟩ := recorded acc found
    cases read.symm.trans read'
    obtain ⟨before,after⟩ := sums_exact ran made summed (counted ▸ supply.toNat_lt) small
    rw [← before,← after] at moves
    rcases why with balanced | ⟨imbalanced,_,proposal,held,updated⟩
    · have same : circulating format selfAddr (s.apply diff) = circulating format selfAddr s := by
        rw [balanced] at moves
        exact Nat.add_right_cancel moves
      cases held : context.proposals[selfAddr]? with
      | none =>
          obtain ⟨still,steady⟩ := silent_step ran (context_silent made held) recorded same
          exact ⟨fun _ => steady,fun _ => still⟩
      | some change => exact balanced_step ran made found read counted same held
    · have changed : circulating format selfAddr (s.apply diff) ≠ circulating format selfAddr s := by
        intro same
        rw [same] at moves
        exact imbalanced (UInt64.toNat_inj.mp (Nat.add_left_cancel moves))
      refine ⟨fun _ _ _ _ _ same => (changed same).elim,fun _ => ?_⟩
      exact updated_recorded ran made found counted moves small held updated
  · obtain ⟨empty,silent⟩ := untouched_wallets made asked
    have same : circulating format token (s.apply diff) = circulating format token s := by
      rw [totalBefore,totalAfter,empty] at moves
      exact moves
    obtain ⟨still,steady⟩ := silent_step ran silent recorded same
    exact ⟨fun _ => steady,fun _ => still⟩

-- A whole run keeps the supply recorded exactly as long as its steps are steady.
theorem supply_recorded_iff (w : Hashing) (format : TokenFormat ed) (token : Address) (code : Code)
    (selfParam mintParam : Bytes) (s : InMemoryStateStore) (steps : List (Transaction × InMemoryStateStore))
    (recorded : Recorded format token s) (run : Run format token w (validity token code selfParam mintParam) s steps)
    (small : ∀ step ∈ steps, circulating format token step.2 < 2^64) :
    (∀ step ∈ steps, Recorded format token step.2) ↔ SteadyRun format token s steps := by
  induction run with
  | nil => exact ⟨fun _ => trivial,fun _ step member => by cases member⟩
  | cons accepted _ ih =>
      obtain ⟨here,later⟩ := List.forall_mem_cons.mp small
      have step := step_recorded accepted recorded here
      rw [List.forall_mem_cons,SteadyRun,← step]
      constructor
      · intro given
        obtain ⟨still,rest⟩ := given
        exact ⟨still,(ih still later).mp rest⟩
      · intro given
        obtain ⟨still,rest⟩ := given
        exact ⟨still,(ih still later).mpr rest⟩

end
end AnomaAlpha.Token

namespace AnomaAlpha
open Token Collect

namespace TokenExample
def tokenLib : Address := ⟨"/token",by decide⟩
def code : Code := .accountRef tokenLib "predicate"
def hashing : Hashing := SignatureExample.hashing

def start : InMemoryStateStore :=
  ⟨.ofList [(tokenLib,⟨[],anyone⟩),(usdx,⟨amount 1000,anyone⟩),(alice,⟨amount 1000,anyone⟩)] compare⟩

def transfer : Transaction :=
  .new [] (.ofList [(alice,.replaceState (amount 600)),(bob,.createAccount ⟨amount 400,anyone⟩)] compare)
def transferred : StateDiff := ((StateDiff.set default alice ⟨amount 600,anyone⟩).1.set bob ⟨amount 400,anyone⟩).1

def inflate : Transaction := .new [] (.ofList [(usdx,.replaceState (amount 5000))] compare)
def inflated : StateDiff := (StateDiff.set default usdx ⟨amount 5000,anyone⟩).1

def context (changes : List (Address × ExpandedAccountChange)) : PredicateContext := ⟨∅,.ofList changes compare⟩

theorem start_recorded : Recorded format usdx start := by
  intro acc found
  have held : start.get usdx = some ⟨amount 1000,anyone⟩ := by decide
  cases held.symm.trans found
  exact ⟨1000,by decide,by decide⟩

def pred : Predicate := validity usdx code (Wire.address usdx) packedKey

theorem transfer_accepted : Accepted format usdx hashing pred start transfer
    (context [(alice,.replaceState (amount 1000) (amount 600)),(bob,.createAccount ⟨amount 400,anyone⟩)]) transferred :=
  ⟨by decide,rfl,fun _ => ⟨⟨⟨[],"predicate"⟩,params 1000⟩,by decide,by decide⟩⟩

theorem inflate_accepted : Accepted format usdx hashing pred start inflate
    (context [(usdx,.replaceState (amount 1000) (amount 5000))]) inflated :=
  ⟨by decide,rfl,fun _ => ⟨⟨⟨[],"predicate"⟩,params 1000⟩,by decide,by decide⟩⟩

theorem transfer_silent : transfer.proposals[usdx]? = none := by decide

end TokenExample

theorem transfer_stays_recorded : Recorded TokenExample.format TokenExample.usdx
    (TokenExample.start.apply TokenExample.transferred) := by
  have exactly := supply_recorded_iff TokenExample.hashing TokenExample.format TokenExample.usdx TokenExample.code
    (Wire.address TokenExample.usdx) TokenExample.packedKey TokenExample.start
    [(TokenExample.transfer,TokenExample.start.apply TokenExample.transferred)] TokenExample.start_recorded
    (.cons TokenExample.transfer_accepted .nil)
    (List.forall_mem_singleton.mpr (by decide))
  refine exactly.mpr ⟨?_,trivial⟩ _ (List.mem_singleton_self _)
  intro acc proposed _ told
  rw [TokenExample.transfer_silent] at told
  cases told

theorem inflated_supply_accepted : Recorded TokenExample.format TokenExample.usdx TokenExample.start ∧
    Run TokenExample.format TokenExample.usdx TokenExample.hashing TokenExample.pred TokenExample.start
      [(TokenExample.inflate,TokenExample.start.apply TokenExample.inflated)] ∧
    circulating TokenExample.format TokenExample.usdx (TokenExample.start.apply TokenExample.inflated) < 2^64 ∧
    ¬Recorded TokenExample.format TokenExample.usdx (TokenExample.start.apply TokenExample.inflated) := by
  refine ⟨TokenExample.start_recorded,.cons TokenExample.inflate_accepted .nil,by decide,?_⟩
  intro recorded
  have held : (TokenExample.start.apply TokenExample.inflated).get TokenExample.usdx =
      some ⟨TokenExample.amount 5000,TokenExample.anyone⟩ := by decide
  obtain ⟨supply,read,counted⟩ := recorded _ held
  have told : TokenExample.format.uint (TokenExample.amount 5000) = some 5000 := by decide
  cases told.symm.trans read
  revert counted
  decide

end AnomaAlpha
