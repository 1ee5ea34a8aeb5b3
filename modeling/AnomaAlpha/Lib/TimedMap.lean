import Mathlib.Data.List.Induction
import Mathlib.Logic.Function.Basic

-- A map whose entries are seen up to an age. Nothing is ever cleaned up.
namespace TimedMap

variable {K V : Type}

inductive Call (K V : Type) where
  | insert (key : K) (value : V)
  | get (key : K)
  | containsKey (key : K)
  | remove (key : K)
  | prune
  deriving DecidableEq

inductive Answer (V : Type) where
  | value (value : Option V)
  | found (found : Bool)
  | done
  deriving DecidableEq

def Call.asked : Call K V → Option K
  | .insert key _ | .get key | .containsKey key | .remove key => some key
  | .prune => none

def Call.answer (call : Call K V) (seen : Option V) : Answer V :=
  match call with
  | .insert _ _ | .get _ | .remove _ => .value seen
  | .containsKey _ => .found seen.isSome
  | .prune => .done

-- The call leaves the entry of the key as it is, if it does not clean up.
def Call.spares (key : K) : Call K V → Prop
  | .insert other _ | .remove other => other ≠ key
  | _ => True

def seen (lifespan now : Nat) (entry : Option (V × Nat)) : Option V :=
  entry.bind fun entry => if now - entry.2 ≤ lifespan then some entry.1 else none

theorem answer_seen {call : Call K V} (asked : call.asked = some key) {a b : Option V} (other : a = none ∨ b = none)
    (same : call.answer a = call.answer b) : a = b := by
  cases call with
  | insert | get | remove => exact Answer.value.inj same
  | containsKey =>
      have both : a.isSome = b.isSome := Answer.found.inj same
      rcases other with rfl | rfl
      · exact (Option.isSome_eq_false_iff.mp both.symm |> Option.isNone_iff_eq_none.mp).symm
      · exact Option.isNone_iff_eq_none.mp (Option.isSome_eq_false_iff.mp both)
  | prune => cases asked

variable [DecidableEq K]

def after (m : K → Option (V × Nat)) (now : Nat) : Call K V → K → Option (V × Nat)
  | .insert key value => Function.update m key (some (value,now))
  | .remove key => Function.update m key none
  | _ => m

def answer (lifespan : Nat) (m : K → Option (V × Nat)) (now : Nat) (call : Call K V) : Answer V :=
  call.answer (seen lifespan now (call.asked.bind m))

def answers (lifespan : Nat) (m : K → Option (V × Nat)) : List (Nat × Call K V) → List (Answer V)
  | [] => []
  | (now,call) :: calls => answer lifespan m now call :: answers lifespan (after m now call) calls

def entries (calls : List (Nat × Call K V)) : K → Option (V × Nat) :=
  calls.foldl (fun m call => after m call.1 call.2) fun _ => none

theorem entries_snoc (calls : List (Nat × Call K V)) (now : Nat) (call : Call K V) :
    entries (calls ++ [(now,call)]) = after (entries calls) now call := by
  unfold entries
  rw [List.foldl_append]
  rfl

theorem answers_append (lifespan : Nat) (first second : List (Nat × Call K V)) :
    answers lifespan (fun _ => none) (first ++ second) =
      answers lifespan (fun _ => none) first ++ answers lifespan (entries first) second := by
  have general : ∀ m, answers lifespan m (first ++ second) = answers lifespan m first ++
      answers lifespan (first.foldl (fun m call => after m call.1 call.2) m) second := by
    induction first with
    | nil => exact fun _ => rfl
    | cons call first ih =>
        intro m
        rw [List.cons_append,answers,ih]
        rfl
  exact general _

theorem after_spared {m : K → Option (V × Nat)} {call : Call K V} (spared : call.spares key) (now : Nat) :
    after m now call key = m key := by
  cases call with
  | insert other value => exact Function.update_of_ne spared.symm ..
  | remove other => exact Function.update_of_ne spared.symm ..
  | _ => rfl

-- An entry is there as long as the calls after its insertion spare it.
theorem entries_iff {calls : List (Nat × Call K V)} {value : V} {since : Nat} :
    entries calls key = some (value,since) ↔ ∃ earlier later, calls = earlier ++ (since,.insert key value) :: later ∧
      ∀ call ∈ later, call.2.spares key := by
  constructor
  · intro held
    induction calls using List.reverseRecOn with
    | nil => cases held
    | append_singleton calls last ih =>
        obtain ⟨now,call⟩ := last
        rw [entries_snoc] at held
        by_cases spared : call.spares key
        · rw [after_spared spared] at held
          obtain ⟨earlier,later,rfl,spare⟩ := ih held
          refine ⟨earlier,later ++ [(now,call)],by simp,?_⟩
          intro entry member
          rcases List.mem_append.mp member with old | new
          · exact spare entry old
          · rw [List.mem_singleton.mp new]
            exact spared
        · cases call with
          | insert other given =>
              obtain rfl := not_not.mp spared
              rw [after,Function.update_self] at held
              cases held
              exact ⟨calls,[],rfl,nofun⟩
          | remove other =>
              obtain rfl := not_not.mp spared
              rw [after,Function.update_self] at held
              cases held
          | _ => exact (spared trivial).elim
  · intro inserted
    obtain ⟨earlier,later,rfl,spare⟩ := inserted
    induction later using List.reverseRecOn with
    | nil => rw [entries_snoc,after,Function.update_self]
    | append_singleton later last ih =>
        have spared := spare last (List.mem_append_right _ (List.mem_singleton_self last))
        rw [← List.cons_append,← List.append_assoc,entries_snoc,after_spared spared]
        exact ih fun call member => spare call (List.mem_append_left _ member)

end TimedMap
