import AnomaAlpha.Cache
import AnomaAlpha.Lib.TimedMap

namespace AnomaAlpha
open OrderedMap TimedMap

namespace ExpiringMap
variable {K V : Type} [Ord K] [Std.TransOrd K]

def perform (m : ExpiringMap K V) (now : Nat) : Call K V → Answer V × ExpiringMap K V
  | .insert key value =>
    let (old,m) := m.insert now key value
    (.value old,m)
  | .get key => (.value (m.get now key),m)
  | .containsKey key => (.found (m.containsKey now key),m)
  | .remove key =>
    let (old,m) := m.remove now key
    (.value old,m)
  | .prune => (.done,m.pruneExpired now)

def run (m : ExpiringMap K V) : List (Nat × Call K V) → List (Answer V) × ExpiringMap K V
  | [] => ([],m)
  | call :: calls =>
    let performed := m.perform call.1 call.2
    let rest := run performed.2 calls
    (performed.1 :: rest.1,rest.2)

-- An entry was cleaned up at the very age up to which it is answered, and the
-- clock still stands there.
def Hasty (lifespan : Nat) (calls : List (Nat × Call K V)) (now : Nat) (key : K) : Prop :=
  ∃ earlier value since between later, since + lifespan = now ∧
    calls = earlier ++ (since,.insert key value) :: (between ++ (now,.prune) :: later) ∧
    ∀ call ∈ between ++ later, call.2.spares key

variable {m : ExpiringMap K V} {key : K}

omit [Std.TransOrd K] in
theorem fresh_seen (m : ExpiringMap K V) (now : Nat) (entry : Option (V × Nat)) :
    m.fresh now entry = seen m.lifespan now entry := by
  cases entry with
  | none => rfl
  | some entry =>
      unfold fresh seen
      dsimp only [Option.bind_some]
      split
      · rw [if_neg (by omega)]
      · rw [if_pos (by omega)]

theorem perform_answer (m : ExpiringMap K V) (now : Nat) (call : Call K V) :
    (m.perform now call).1 = call.answer (seen m.lifespan now (call.asked.bind fun key => m.data[key]?)) := by
  rw [← fresh_seen]
  cases call <;> rfl

theorem perform_lifespan (m : ExpiringMap K V) (now : Nat) (call : Call K V) :
    (m.perform now call).2.lifespan = m.lifespan := by
  cases call <;> rfl

theorem run_append (m : ExpiringMap K V) (first second : List (Nat × Call K V)) :
    m.run (first ++ second) =
      ((m.run first).1 ++ ((m.run first).2.run second).1,((m.run first).2.run second).2) := by
  induction first generalizing m with
  | nil => rfl
  | cons call first ih =>
      rw [List.cons_append,run,ih]
      rfl

theorem run_lifespan (m : ExpiringMap K V) (calls : List (Nat × Call K V)) : (m.run calls).2.lifespan = m.lifespan := by
  induction calls generalizing m with
  | nil => rfl
  | cons call calls ih => exact (ih (m.perform call.1 call.2).2).trans (perform_lifespan m call.1 call.2)

variable [Std.LawfulEqOrd K] [DecidableEq K] {lifespan now since : Nat} {value : V} {entry : V × Nat}

theorem perform_spared {call : Call K V} (spared : call.spares key)
    (young : call = .prune → ∀ entry, m.data[key]? = some entry → now - entry.2 < m.lifespan) :
    (m.perform now call).2.data[key]? = m.data[key]? := by
  cases call with
  | insert other value =>
      change (m.data.insert other (value,now))[key]? = _
      rw [get_insert,if_neg spared]
  | remove other =>
      change (m.data.erase other)[key]? = _
      rw [get_erase,if_neg spared]
  | get | containsKey => rfl
  | prune =>
      change (m.pruneExpired now).data[key]? = _
      rw [prune_get]
      cases held : m.data[key]? with
      | none => rfl
      | some entry => exact Option.filter_some_pos (decide_eq_true (young rfl entry held))

theorem run_spared {calls : List (Nat × Call K V)} (spared : ∀ call ∈ calls, call.2.spares key)
    (young : ∀ call ∈ calls, call.2 = .prune → ∀ entry, m.data[key]? = some entry → call.1 - entry.2 < m.lifespan) :
    (m.run calls).2.data[key]? = m.data[key]? := by
  induction calls generalizing m with
  | nil => rfl
  | cons call calls ih =>
      have here := perform_spared (spared call (by simp)) (young call (by simp))
      refine (ih (fun call member => spared call (List.mem_cons_of_mem _ member)) ?_).trans here
      intro later member clean entry held
      rw [perform_lifespan]
      exact young later (List.mem_cons_of_mem _ member) clean entry (here ▸ held)

theorem run_insert (m : ExpiringMap K V) (earlier : List (Nat × Call K V)) (since : Nat) (key : K) (value : V) :
    (m.run (earlier ++ [(since,.insert key value)])).2.data[key]? = some (value,since) := by
  rw [run_append]
  change ((m.run earlier).2.data.insert key (value,since))[key]? = _
  rw [get_insert,if_pos rfl]

theorem run_held {calls : List (Nat × Call K V)} (held : ((new lifespan).run calls).2.data[key]? = some entry) :
    entries calls key = some entry := by
  induction calls using List.reverseRecOn with
  | nil =>
      change (∅ : HashMap K (V × Nat))[key]? = some entry at held
      simp at held
  | append_singleton calls last ih =>
      obtain ⟨now,call⟩ := last
      rw [run_append] at held
      change (((new lifespan).run calls).2.perform now call).2.data[key]? = some entry at held
      rw [entries_snoc]
      by_cases spared : call.spares key
      · rw [after_spared spared]
        cases call with
        | prune =>
            change (((new lifespan).run calls).2.pruneExpired now).data[key]? = some entry at held
            rw [prune_get] at held
            exact ih (Option.eq_some_of_filter_eq_some held)
        | _ =>
            rw [perform_spared spared nofun] at held
            exact ih held
      · cases call with
        | insert other value =>
            obtain rfl := not_not.mp spared
            change (((new lifespan).run calls).2.data.insert other (value,now))[other]? = some entry at held
            rw [get_insert,if_pos rfl] at held
            rw [after,Function.update_self,held]
        | remove other =>
            obtain rfl := not_not.mp spared
            change (((new lifespan).run calls).2.data.erase other)[other]? = some entry at held
            rw [get_erase,if_pos rfl] at held
            cases held
        | _ => exact (spared trivial).elim

theorem run_cleaned (earlier : List (Nat × Call K V)) (value : V) {between later : List (Nat × Call K V)}
    (spared : ∀ call ∈ between ++ later, call.2.spares key)
    (old : lifespan ≤ now - since) : ((new lifespan).run
      (earlier ++ (since,.insert key value) :: (between ++ (now,.prune) :: later))).2.data[key]? = none := by
  have inserted : entries (earlier ++ (since,.insert key value) :: between) key = some (value,since) :=
    entries_iff.mpr ⟨earlier,between,rfl,fun call member => spared call (List.mem_append_left _ member)⟩
  have cleaned : ((new lifespan).run
      (earlier ++ (since,.insert key value) :: between ++ [(now,.prune)])).2.data[key]? = none := by
    rw [run_append]
    change (((new lifespan).run (earlier ++ (since,.insert key value) :: between)).2.pruneExpired now).data[key]? = none
    rw [prune_get,run_lifespan]
    cases held : ((new lifespan).run (earlier ++ (since,.insert key value) :: between)).2.data[key]? with
    | none => rfl
    | some entry =>
        cases (run_held held).symm.trans inserted
        exact Option.filter_some_neg (decide_eq_false (by simpa [new] using old))
  have split : earlier ++ (since,.insert key value) :: (between ++ (now,.prune) :: later) =
      earlier ++ (since,.insert key value) :: between ++ [(now,.prune)] ++ later := by simp
  rw [split,run_append,run_spared (fun call member => spared call (List.mem_append_right _ member))]
  · exact cleaned
  · intro call _ _ entry held
    cases cleaned.symm.trans held

theorem run_kept (earlier : List (Nat × Call K V)) (value : V) {later : List (Nat × Call K V)}
    (spared : ∀ call ∈ later, call.2.spares key)
    (young : ∀ call ∈ later, call.2 = .prune → call.1 - since < lifespan) :
    ((new lifespan).run (earlier ++ (since,.insert key value) :: later)).2.data[key]? = some (value,since) := by
  rw [List.append_cons,run_append,run_spared spared,run_insert]
  intro call member clean entry held
  rw [run_insert] at held
  cases held
  rw [run_lifespan]
  exact young call member clean

theorem missed_hasty {calls : List (Nat × Call K V)} (clock : (calls.map Prod.fst ++ [now]).Pairwise (· ≤ ·))
    (missed : seen lifespan now ((new lifespan).run calls).2.data[key]? ≠ seen lifespan now (entries calls key)) :
    Hasty lifespan calls now key := by
  cases known : entries calls key with
  | none =>
      cases held : ((new lifespan).run calls).2.data[key]? with
      | none =>
          rw [held,known] at missed
          exact (missed rfl).elim
      | some entry => cases known.symm.trans (run_held held)
  | some entry =>
      obtain ⟨value,since⟩ := entry
      obtain ⟨earlier,later,rfl,spared⟩ := entries_iff.mp known
      have old : ∃ clean ∈ later, clean.2 = .prune ∧ lifespan ≤ clean.1 - since := by
        by_contra young
        push Not at young
        exact missed (by rw [run_kept earlier value spared young,known])
      obtain ⟨⟨pruned,clean⟩,member,rfl,old⟩ := old
      obtain ⟨between,rest,rfl⟩ := List.append_of_mem member
      have spared : ∀ call ∈ between ++ rest, call.2.spares key := fun call inside =>
        spared call ((List.mem_append.mp inside).elim (List.mem_append_left _)
          fun inside => List.mem_append_right _ (List.mem_cons_of_mem _ inside))
      have ordered : since ≤ pruned ∧ pruned ≤ now := by
        simp only [List.map_append,List.map_cons,List.append_assoc,List.cons_append,List.pairwise_append,
          List.pairwise_cons,List.mem_append,List.mem_cons] at clock
        exact ⟨clock.2.1.1 pruned (.inr (.inl rfl)),clock.2.1.2.2.1.1 now (.inr (.inl rfl))⟩
      rw [known,run_cleaned earlier value spared old] at missed
      -- an entry that is too old is answered by neither
      have young : now - since ≤ lifespan := by
        by_contra stale
        refine missed ?_
        unfold seen
        rw [Option.bind_some,if_neg stale]
        rfl
      have here : pruned = now := by omega
      subst here
      exact ⟨earlier,value,since,between,rest,by omega,rfl,spared⟩

theorem hasty_missed {calls : List (Nat × Call K V)} (hasty : Hasty lifespan calls now key) :
    seen lifespan now ((new lifespan).run calls).2.data[key]? ≠ seen lifespan now (entries calls key) := by
  obtain ⟨earlier,value,since,between,later,rfl,rfl,spared⟩ := hasty
  have old : lifespan ≤ since + lifespan - since := by omega
  have known : entries (earlier ++ (since,.insert key value) :: (between ++ (since+lifespan,.prune) :: later)) key =
      some (value,since) := by
    refine entries_iff.mpr ⟨earlier,between ++ (since+lifespan,.prune) :: later,rfl,?_⟩
    intro call member
    rcases List.mem_append.mp member with inside | inside
    · exact spared call (List.mem_append_left _ inside)
    · rcases List.mem_cons.mp inside with rfl | inside
      · trivial
      · exact spared call (List.mem_append_right _ inside)
  rw [run_cleaned earlier value spared old,known]
  unfold seen
  rw [Option.bind_some,if_pos (by omega)]
  exact nofun

-- The entry that decides an answer is missed exactly when it was cleaned up too
-- early.
theorem missed_iff (lifespan : Nat) (key : K) {calls : List (Nat × Call K V)}
    (clock : (calls.map Prod.fst ++ [now]).Pairwise (· ≤ ·)) :
    seen lifespan now ((new lifespan).run calls).2.data[key]? ≠ seen lifespan now (entries calls key) ↔
      Hasty lifespan calls now key := ⟨missed_hasty clock,hasty_missed⟩

theorem answered_iff (lifespan : Nat) {calls : List (Nat × Call K V)} (clock : (calls.map Prod.fst ++ [now]).Pairwise (· ≤ ·))
    (call : Call K V) : (((new lifespan).run calls).2.perform now call).1 = answer lifespan (entries calls) now call ↔
      ∀ key, call.asked = some key → ¬Hasty lifespan calls now key := by
  rw [perform_answer,run_lifespan]
  change call.answer (seen lifespan now _) = call.answer (seen lifespan now _) ↔ _
  cases asked : call.asked with
  | none => exact ⟨fun _ => nofun,fun _ => rfl⟩
  | some key =>
      have missed := missed_iff lifespan key clock
      rw [← not_iff_not,not_forall]
      refine Iff.trans ?_ (missed.trans ⟨fun hasty => ⟨key,by simpa using hasty⟩,?_⟩)
      · rw [Option.bind_some,Option.bind_some,not_iff_not]
        refine ⟨fun same => ?_,congrArg call.answer⟩
        cases held : ((new lifespan).run calls).2.data[key]? with
        | none => exact answer_seen asked (.inl rfl) (held ▸ same)
        | some entry => rw [run_held held]
      · intro given
        obtain ⟨other,given⟩ := given
        obtain ⟨same,hasty⟩ := Classical.not_imp.mp given
        cases same
        exact not_not.mp hasty

-- Cleaning up changes an answer exactly when it is asked for at the same reading
-- of the clock.
theorem answers_timed_iff (lifespan : Nat) (calls : List (Nat × Call K V)) (clock : (calls.map Prod.fst).Pairwise (· ≤ ·)) :
    ((new lifespan).run calls).1 = answers lifespan (fun _ => none) calls ↔
      ∀ before now call after key, calls = before ++ (now,call) :: after → call.asked = some key →
        ¬Hasty lifespan before now key := by
  induction calls using List.reverseRecOn with
  | nil => exact ⟨fun _ before now call after key split => by simp at split,fun _ => rfl⟩
  | append_singleton calls last ih =>
      obtain ⟨now,call⟩ := last
      rw [List.map_append] at clock
      have here := answered_iff lifespan clock call
      have earlier := ih (List.pairwise_append.mp clock).1
      rw [run_append,answers_append]
      change _ ++ [(((new lifespan).run calls).2.perform now call).1] =
        _ ++ [answer lifespan (entries calls) now call] ↔ _
      rw [List.append_singleton_inj,earlier,here]
      constructor
      · intro apart before time other after key split asked
        rcases List.eq_nil_or_concat after with rfl | ⟨rest,last,rfl⟩
        · obtain ⟨rfl,same⟩ := List.append_inj' split rfl
          cases same
          exact apart.2 key asked
        · rw [List.concat_eq_append,← List.cons_append,← List.append_assoc] at split
          exact apart.1 before time other rest key (List.append_inj' split rfl).1 asked
      · intro apart
        refine ⟨?_,?_⟩
        · intro before time other after key split
          exact apart before time other (after ++ [(now,call)]) key (by rw [split]; simp)
        · intro key
          exact apart calls now call [] key rfl

end ExpiringMap

namespace ExpiryExample

def punctual : List (Nat × Call Nat Nat) :=
  [(0,.insert 7 1),(1,.prune),(2,.get 7),(2,.prune),(3,.prune),(3,.containsKey 7),(4,.insert 7 2),(5,.remove 7)]
def hasty : List (Nat × Call Nat Nat) := [(0,.insert 7 1),(2,.prune),(2,.get 7)]

end ExpiryExample

theorem punctual_is_not_hasty : (ExpiryExample.punctual.map Prod.fst).Pairwise (· ≤ ·) ∧
    ∀ before now call after key, ExpiryExample.punctual = before ++ (now,call) :: after → call.asked = some key →
      ¬ExpiringMap.Hasty 2 before now key :=
  ⟨by decide,(ExpiringMap.answers_timed_iff 2 ExpiryExample.punctual (by decide)).mp (by decide +kernel)⟩

theorem hasty_prune_loses_entry : (ExpiryExample.hasty.map Prod.fst).Pairwise (· ≤ ·) ∧
    ((ExpiringMap.new 2).run ExpiryExample.hasty).1 ≠ answers 2 (fun _ => none) ExpiryExample.hasty ∧
    ((ExpiringMap.new 2).run (ExpiryExample.hasty.filter fun call => call.2 ≠ .prune)).1 =
      answers 2 (fun _ => none) (ExpiryExample.hasty.filter fun call => call.2 ≠ .prune) := by decide +kernel

end AnomaAlpha
