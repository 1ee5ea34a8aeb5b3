import AnomaAlpha.Execution

namespace AnomaAlpha.Execution
open CancelFlag

variable {A : Type}

-- A result is a success, a rejection, or neither.
def verdict : Except (Error A) α → Option Bool
  | .ok _ => some true
  | .error (.rejected _) => some false
  | .error _ => none

def andVerdict : Option Bool → Option Bool → Option Bool
  | none,_ => none
  | some false,_ => some false
  | some true,second => second

def orVerdict : Option Bool → Option Bool → Option Bool
  | none,_ => none
  | some false,some true => some true
  | some false,_ => some false
  | some true,some _ => some true
  | some true,none => none

-- What a tree comes to when only its first `k` leaves are asked.
def settle : ExpressionTree (Leaf A) → Nat → Option Bool
  | .id _,0 => none
  | .id leaf,_+1 => leaf.outcome.toOption
  | .not t,k => (settle t k).map (!·)
  | .and l r,k => andVerdict (settle l k) (settle r (k-l.size))
  | .or l r,k => orVerdict (settle l k) (settle r (k-l.size))

def crashFree (tree : ExpressionTree (Leaf A)) : Nat := clean Leaf.outcome tree.leaves

def answer (leaf : Leaf A) : Bool := leaf.outcome.toOption.getD false

theorem verdict_not (a : Except (Error A) (ExpandedPredicate A)) : verdict (not a) = (verdict a).map (!·) := by
  rcases a with (_ | p | _ | _) | p <;> rfl

-- In an expression a cancelled operand has only cancelled ones to its right. The
-- arms that let `Rejected` win over `Cancelled` matter outside this case only.
theorem verdict_and {a b : Except (Error A) (ExpandedPredicate A)} (ordered : verdict a ≠ none ∨ b = .error .cancelled) :
    verdict (and a b) = andVerdict (verdict a) (verdict b) := by
  rcases a with (_ | p | _ | _) | p <;> rcases b with (_ | q | _ | _) | q <;>
    simp [verdict,and,andVerdict] at ordered ⊢

theorem verdict_or {a b : Except (Error A) (ExpandedPredicate A)} (ordered : verdict a ≠ none ∨ b = .error .cancelled) :
    verdict (or a b) = orVerdict (verdict a) (verdict b) := by
  rcases a with (_ | p | _ | _) | p <;> rcases b with (_ | q | _ | _) | q <;>
    simp [verdict,or,orVerdict] at ordered ⊢

@[simp] theorem size_id (leaf : Leaf A) : (ExpressionTree.id leaf).size = 1 := rfl
@[simp] theorem size_not (t : ExpressionTree (Leaf A)) : t.not.size = t.size := rfl
@[simp] theorem size_and (l r : ExpressionTree (Leaf A)) : (l.and r).size = l.size + r.size := List.length_append
@[simp] theorem size_or (l r : ExpressionTree (Leaf A)) : (l.or r).size = l.size + r.size := List.length_append

theorem settle_id {leaf : Leaf A} {k : Nat} (settled : settle (.id leaf) k = some true) : leaf.outcome = .ok true := by
  cases k with
  | zero => cases settled
  | succ k =>
      cases ran : leaf.outcome with
      | error e => simp [settle,ran,Except.toOption] at settled
      | ok b => simpa [settle,ran,Except.toOption] using settled

theorem settle_and {l r : ExpressionTree (Leaf A)} {k : Nat} (settled : settle (.and l r) k = some true) :
    settle l k = some true ∧ settle r (k-l.size) = some true := by
  unfold settle at settled
  cases first : settle l k with
  | none => simp [first,andVerdict] at settled
  | some answer => cases answer with
    | false => simp [first,andVerdict] at settled
    | true => exact ⟨rfl,by simpa [first,andVerdict] using settled⟩

theorem settle_full {t : ExpressionTree (Leaf A)} {k : Nat} (full : t.size ≤ k) : settle t k = settle t t.size := by
  induction t generalizing k with
  | id leaf => cases k with
    | zero => simp at full
    | succ k => rfl
  | not t ih => simp only [settle,size_not,ih full]
  | and l r left right | or l r left right =>
      simp only [size_and,size_or] at full
      simp only [settle,size_and,size_or]
      rw [left (k:=k) (by omega),left (k:=l.size+r.size) (by omega),right (k:=k-l.size) (by omega),
        right (k:=l.size+r.size-l.size) (by omega)]

-- A leaf that crashes tells no more than one that is not asked.
theorem settle_crash {t : ExpressionTree (Leaf A)} {k : Nat} (bound : k < t.leaves.length)
    (failed : (t.leaves[k]).outcome = .error e) : settle t (k+1) = settle t k := by
  induction t generalizing k with
  | id leaf =>
      simp only [ExpressionTree.leaves,List.length_singleton,Nat.lt_one_iff] at bound
      subst bound
      simp only [ExpressionTree.leaves,List.getElem_cons_zero] at failed
      simp [settle,failed,Except.toOption]
  | not t ih => simp only [settle,ih bound failed]
  | and l r left right | or l r left right =>
      simp only [ExpressionTree.leaves,List.length_append] at bound
      simp only [ExpressionTree.leaves] at failed
      simp only [settle]
      rcases Nat.lt_or_ge k l.size with inside | outside
      · rw [List.getElem_append_left inside] at failed
        rw [left inside failed,Nat.sub_eq_zero_of_le (show k+1 ≤ l.size from inside),
          Nat.sub_eq_zero_of_le (Nat.le_of_lt inside)]
      · rw [List.getElem_append_right outside] at failed
        rw [settle_full (Nat.le_succ_of_le outside),settle_full outside,Nat.succ_sub outside]
        rw [right (k:=k-l.size) (by simp only [ExpressionTree.size] at outside ⊢; omega) failed]

theorem clean_left {l r : ExpressionTree (Leaf A)} (calm : clean Leaf.outcome (l.leaves ++ r.leaves) = l.size + r.size) :
    clean Leaf.outcome l.leaves = l.size ∧ clean Leaf.outcome r.leaves = r.size := by
  have most := clean_le Leaf.outcome l.leaves
  have rest := clean_le Leaf.outcome r.leaves
  simp only [ExpressionTree.size] at calm ⊢
  rcases Nat.lt_or_ge (clean Leaf.outcome l.leaves) l.leaves.length with crashes | whole
  · rw [clean_append_crash crashes] at calm
    omega
  · rw [clean_append_calm (Nat.le_antisymm most whole)] at calm
    omega

theorem settle_calm {t : ExpressionTree (Leaf A)} (calm : crashFree t = t.size) :
    settle t t.size = some (t.holds answer) := by
  unfold ExpressionTree.holds
  induction t with
  | id leaf =>
      cases tried : leaf.outcome with
      | error e => simp [crashFree,ExpressionTree.leaves,clean,tried,Except.isOk,Except.toBool] at calm
      | ok b => simp [settle,ExpressionTree.reduce,answer,tried,Except.toOption]
  | not t ih => simp [settle,ExpressionTree.reduce,ih calm]
  | and l r left right | or l r left right =>
      obtain ⟨here,there⟩ := clean_left (l:=l) (r:=r) (by simpa [crashFree,ExpressionTree.leaves] using calm)
      simp only [settle,size_and,size_or,ExpressionTree.reduce]
      rw [settle_full (Nat.le_add_right _ _),left here,Nat.add_sub_cancel_left,right there]
      cases l.reduce answer (!·) (· && ·) (· || ·) <;> cases r.reduce answer (!·) (· && ·) (· || ·) <;> rfl

theorem refill_append (t : ExpressionTree (Leaf A)) (log rest : List (Poll Bool Crash)) (fits : log.length = t.size) :
    refill t (log ++ rest) = ((refill t log).1,rest) := by
  induction t generalizing log rest with
  | id leaf =>
      obtain ⟨entry,rfl⟩ := List.length_eq_one_iff.mp fits
      rfl
  | not t ih => simp only [refill,ih log rest fits]
  | and l r left right | or l r left right =>
      simp only [size_and,size_or] at fits
      obtain ⟨a,b,rfl,here⟩ : ∃ a b, log = a ++ b ∧ a.length = l.size :=
        ⟨log.take l.size,log.drop l.size,(List.take_append_drop _ _).symm,by rw [List.length_take]; omega⟩
      have there : b.length = r.size := by rw [List.length_append] at fits; omega
      simp only [refill,List.append_assoc,left a _ here,right b rest there]

theorem evaluate_and {l r : ExpressionTree (Leaf A)} {a b : List (Poll Bool Crash)} (here : a.length = l.size) :
    evaluate (l.and r) (a ++ b) = and (evaluate l a) (evaluate r b) := by
  simp only [evaluate,refill,refill_append l a b here,ExpressionTree.reduce]

theorem evaluate_or {l r : ExpressionTree (Leaf A)} {a b : List (Poll Bool Crash)} (here : a.length = l.size) :
    evaluate (l.or r) (a ++ b) = or (evaluate l a) (evaluate r b) := by
  simp only [evaluate,refill,refill_append l a b here,ExpressionTree.reduce]

theorem evaluate_skipped (t : ExpressionTree (Leaf A)) :
    evaluate t (cutLog Leaf.outcome t.leaves 0) = .error .cancelled := by
  induction t with
  | id leaf => rfl
  | not t ih =>
      have inner : evaluate t.not (cutLog Leaf.outcome t.leaves 0) =
          not (evaluate t (cutLog Leaf.outcome t.leaves 0)) := rfl
      rw [show t.not.leaves = t.leaves from rfl,inner,ih]
      rfl
  | and l r left right =>
      rw [ExpressionTree.leaves,cutLog_append,evaluate_and (cutLog_length _ _),Nat.zero_sub,left,right]
      rfl
  | or l r left right =>
      rw [ExpressionTree.leaves,cutLog_append,evaluate_or (cutLog_length _ _),Nat.zero_sub,left,right]
      rfl

-- Both operands of a binary node under one cut: the right one is either not
-- asked at all or the left one has answered in full.
theorem cut_pair {l r : ExpressionTree (Leaf A)} {m : Nat} (within : m ≤ clean Leaf.outcome (l.leaves ++ r.leaves) + 1)
    (left : ∀ k ≤ crashFree l + 1, verdict (evaluate l (cutLog Leaf.outcome l.leaves k)) = settle l k)
    (right : ∀ k ≤ crashFree r + 1, verdict (evaluate r (cutLog Leaf.outcome r.leaves k)) = settle r k) :
    verdict (evaluate l (cutLog Leaf.outcome l.leaves m)) = settle l m ∧
    verdict (evaluate r (cutLog Leaf.outcome r.leaves (m-l.size))) = settle r (m-l.size) ∧
    (verdict (evaluate l (cutLog Leaf.outcome l.leaves m)) ≠ none ∨
      evaluate r (cutLog Leaf.outcome r.leaves (m-l.size)) = .error .cancelled) := by
  rcases Nat.lt_or_ge l.size m with long | short
  · -- the cut lies in the right operand, so the left one has no crash
    have calm : clean Leaf.outcome l.leaves = l.leaves.length := by
      refine Nat.le_antisymm (clean_le _ _) ?_
      by_contra crashes
      rw [clean_append_crash (by omega)] at within
      simp only [ExpressionTree.size] at long
      omega
    rw [clean_append_calm calm] at within
    have whole : verdict (evaluate l (cutLog Leaf.outcome l.leaves m)) = settle l m := by
      rw [cutLog_full (Nat.le_of_lt long),settle_full (Nat.le_of_lt long)]
      exact left _ (by simp only [crashFree,calm]; omega)
    refine ⟨whole,right _ (by simp only [crashFree,ExpressionTree.size]; omega),.inl ?_⟩
    rw [whole,settle_full (Nat.le_of_lt long),settle_calm calm]
    simp
  · have inside : m ≤ crashFree l + 1 := by
      have most := clean_le Leaf.outcome l.leaves
      rcases Nat.lt_or_ge (clean Leaf.outcome l.leaves) l.leaves.length with crashes | whole
      · rwa [clean_append_crash crashes] at within
      · simp only [crashFree,ExpressionTree.size] at short ⊢
        omega
    rw [Nat.sub_eq_zero_of_le short]
    exact ⟨left m inside,right 0 (Nat.zero_le _),.inr (evaluate_skipped r)⟩

theorem evaluate_cut (t : ExpressionTree (Leaf A)) (m : Nat) (within : m ≤ crashFree t + 1) :
    verdict (evaluate t (cutLog Leaf.outcome t.leaves m)) = settle t m := by
  induction t generalizing m with
  | id leaf =>
      cases m with
      | zero => rfl
      | succ m =>
          rw [settle,ExpressionTree.leaves,cutLog_full (by simp)]
          cases tried : leaf.outcome with
          | error e => simp [evaluate,refill,ExpressionTree.reduce,cutLog,poll,tried,leafResult,verdict,Except.toOption]
          | ok b =>
              cases b <;> simp [evaluate,refill,ExpressionTree.reduce,cutLog,poll,tried,leafResult,verdict,Except.toOption]
  | not t ih =>
      have inner : evaluate t.not (cutLog Leaf.outcome t.leaves m) =
          not (evaluate t (cutLog Leaf.outcome t.leaves m)) := rfl
      rw [show t.not.leaves = t.leaves from rfl,inner,verdict_not,ih m within]
      rfl
  | and l r left right =>
      obtain ⟨here,there,ordered⟩ := cut_pair within left right
      rw [ExpressionTree.leaves,cutLog_append,evaluate_and (cutLog_length _ _)]
      rw [settle,← here,← there]
      exact verdict_and ordered
  | or l r left right =>
      obtain ⟨here,there,ordered⟩ := cut_pair within left right
      rw [ExpressionTree.leaves,cutLog_append,evaluate_or (cutLog_length _ _)]
      rw [settle,← here,← there]
      exact verdict_or ordered

theorem and_ok {a b : Except (Error A) Unit} : and a b = .ok () ↔ a = .ok () ∧ b = .ok () := by
  rcases a with (_ | p | _ | _) | p <;> rcases b with (_ | q | _ | _) | q <;> simp [and]

theorem treeResult_ok {t : ExpressionTree (Leaf A)} {log : List (Poll Bool Crash)} {todo : List (Leaf A)} :
    treeResult t (.working log todo) = .ok () ↔ verdict (evaluate t log) = some true := by
  rw [treeResult]
  rcases evaluate t log with (_ | p | _ | _) | p <;> simp [Except.map,verdict]

theorem jobsOf_tree {trees : List (ExpressionTree (Leaf A))} {i : Nat} {t : ExpressionTree (Leaf A)}
    (found : trees[i]? = some t) : jobsOf (jobs trees) i = t.leaves := by
  simp [jobsOf,jobs,found]

theorem threads_ended {trees : List (ExpressionTree (Leaf A))} (steps : List Nat) {i : Nat} {t : ExpressionTree (Leaf A)}
    (found : trees[i]? = some t) :
    ((threads steps trees).tasks i = .refused ∧ (threads steps trees).flag = true) ∨
    ∃ m ≤ t.size, m ≤ crashFree t + 1 ∧ (m < t.size → (threads steps trees).flag = true) ∧
      (threads steps trees).tasks i = .working (cutLog Leaf.outcome t.leaves m) [] := by
  have bound : i < (jobs trees).length := by
    rw [jobs,List.length_map]
    exact (List.getElem?_eq_some_iff.mp found).1
  have ended := finish_ended Leaf.outcome (jobs trees) steps i bound
  rwa [jobsOf_tree found] at ended

theorem parallelInvoke_all (steps : List Nat) (brackets : Bracketing) (trees : List (ExpressionTree (Leaf A))) :
    parallelInvoke steps brackets trees = .ok () ↔
      ∀ i t, trees[i]? = some t → treeResult t ((threads steps trees).tasks i) = .ok () := by
  have reduced := Bracketing.reduceWith_all (fun r : Except (Error A) Unit => r = .ok ()) (fun _ _ => and_ok) brackets
    (trees.mapIdx fun i tree => treeResult tree ((threads steps trees).tasks i))
  have unwrapped : ∀ o : Option (Except (Error A) Unit), o.getD (.ok ()) = .ok () ↔ ∀ r, o = some r → r = .ok () := by
    intro o
    cases o <;> simp
  rw [parallelInvoke,unwrapped,reduced]
  simp only [List.mem_mapIdx,forall_exists_index]
  constructor
  · intro all i t found
    obtain ⟨bound,rfl⟩ := List.getElem?_eq_some_iff.mp found
    exact all _ i bound rfl
  · rintro all _ i bound rfl
    exact all i _ (List.getElem?_eq_getElem bound)

-- A run succeeds exactly when every tree was let in and is settled to true by
-- the leaves that were asked.
theorem parallelInvoke_ok (steps : List Nat) (brackets : Bracketing) (trees : List (ExpressionTree (Leaf A))) :
    parallelInvoke steps brackets trees = .ok () ↔ ∀ i t, trees[i]? = some t →
      ∃ m ≤ t.size, m ≤ crashFree t + 1 ∧ (m < t.size → (threads steps trees).flag = true) ∧
        (threads steps trees).tasks i = .working (cutLog Leaf.outcome t.leaves m) [] ∧ settle t m = some true := by
  rw [parallelInvoke_all]
  refine forall_congr' fun i => forall_congr' fun t => forall_congr' fun found => ?_
  constructor
  · intro succeeded
    rcases threads_ended steps found with ⟨refused,_⟩ | ⟨m,bound,reach,short,ended⟩
    · simp [refused,treeResult] at succeeded
    · rw [ended,treeResult_ok,evaluate_cut t m reach] at succeeded
      exact ⟨m,bound,reach,short,ended,succeeded⟩
  · rintro ⟨m,bound,reach,short,ended,settled⟩
    rw [ended,treeResult_ok,evaluate_cut t m reach]
    exact settled

def SomeCrash (steps : List Nat) (trees : List (ExpressionTree (Leaf A))) : Prop :=
  ∃ i < trees.length, ((threads steps trees).tasks i).broke

-- A crash that no one has to notice: one of the trees that crash is true by the
-- leaves in front of its crash, and every tree is true by leaves in front of
-- its own, so that all of them may be cut off there.
def Masked (trees : List (ExpressionTree (Leaf A))) : Prop :=
  (∃ t ∈ trees, crashFree t < t.size ∧ settle t (crashFree t) = some true) ∧
  ∀ t ∈ trees, ∃ k ≤ crashFree t, settle t k = some true

theorem settle_past {t : ExpressionTree (Leaf A)} (crashes : crashFree t < t.size) :
    settle t (crashFree t + 1) = settle t (crashFree t) := by
  obtain ⟨e,failed⟩ := clean_crash crashes
  exact settle_crash crashes failed

theorem ended_broke {t : ExpressionTree (Leaf A)} {m : Nat} (bound : m ≤ t.size) :
    (Task.working (cutLog Leaf.outcome t.leaves m) [] : Task (Leaf A) Bool Crash).broke ↔ crashFree t < m :=
  crashed_cutLog bound

theorem flag_blame {steps : List Nat} {trees : List (ExpressionTree (Leaf A))}
    (raised : (threads steps trees).flag = true) : SomeCrash steps trees := by
  obtain ⟨i,bound,broke⟩ := finish_blame (jobs trees) steps raised
  rw [jobs,List.length_map] at bound
  exact ⟨i,bound,broke⟩

theorem crash_happens {trees : List (ExpressionTree (Leaf A))} {t : ExpressionTree (Leaf A)} (steps : List Nat)
    (member : t ∈ trees) (crashes : crashFree t < t.size) : SomeCrash steps trees := by
  obtain ⟨i,found⟩ := List.mem_iff_getElem?.mp member
  rcases threads_ended steps found with ⟨_,raised⟩ | ⟨m,bound,_,short,ended⟩
  · exact flag_blame raised
  · rcases Nat.lt_or_ge m t.size with less | full
    · exact flag_blame (short less)
    · refine ⟨i,(List.getElem?_eq_some_iff.mp found).1,?_⟩
      rw [ended,ended_broke bound]
      omega

theorem masked_of_success {steps : List Nat} {brackets : Bracketing} {trees : List (ExpressionTree (Leaf A))}
    (crashed : SomeCrash steps trees) (succeeded : parallelInvoke steps brackets trees = .ok ()) :
    Masked trees := by
  rw [parallelInvoke_ok] at succeeded
  constructor
  · obtain ⟨i,inside,broke⟩ := crashed
    obtain ⟨m,bound,reach,_,ended,settled⟩ := succeeded i _ (List.getElem?_eq_getElem inside)
    rw [ended,ended_broke bound] at broke
    obtain rfl : m = crashFree trees[i] + 1 := by omega
    exact ⟨trees[i],List.getElem_mem inside,bound,by rwa [settle_past bound] at settled⟩
  · intro t member
    obtain ⟨i,found⟩ := List.mem_iff_getElem?.mp member
    obtain ⟨m,bound,reach,_,_,settled⟩ := succeeded i t found
    rcases Nat.lt_or_ge (crashFree t) m with past | before
    · obtain rfl : m = crashFree t + 1 := by omega
      exact ⟨crashFree t,Nat.le_refl _,by rwa [settle_past bound] at settled⟩
    · exact ⟨m,before,settled⟩

theorem masked_succeeds {trees : List (ExpressionTree (Leaf A))} (masked : Masked trees) :
    ∃ steps, SomeCrash steps trees ∧ ∀ brackets, parallelInvoke steps brackets trees = .ok () := by
  obtain ⟨⟨first,member,crashes,settled⟩,others⟩ := masked
  obtain ⟨i,found⟩ := List.mem_iff_getElem?.mp member
  have inside := (List.getElem?_eq_some_iff.mp found).1
  have chosen : ∀ j, ∃ k ≤ clean Leaf.outcome (jobsOf (jobs trees) j),
      ∀ t, trees[j]? = some t → settle t k = some true := by
    intro j
    cases present : trees[j]? with
    | none => exact ⟨0,Nat.zero_le _,by simp⟩
    | some t =>
        obtain ⟨k,before,true_by⟩ := others t (List.mem_of_getElem? present)
        refine ⟨k,by rwa [jobsOf_tree present],?_⟩
        rintro _ ⟨⟩
        exact true_by
  choose cut before true_by using chosen
  obtain ⟨steps,crashing,rest⟩ := finish_realizes Leaf.outcome (jobs trees) i (by rwa [jobs,List.length_map])
    (by rwa [jobsOf_tree found]) (fun j => some (cut j)) (by rintro j _ ⟨⟩; exact before j)
  rw [jobsOf_tree found] at crashing
  refine ⟨steps,⟨i,inside,?_⟩,?_⟩
  · exact crashing ▸ (ended_broke crashes).mpr (Nat.lt_succ_self _)
  · intro brackets
    rw [parallelInvoke_all]
    intro j t present
    have bound := (List.getElem?_eq_some_iff.mp present).1
    by_cases same : j = i
    · subst same
      obtain rfl := Option.some.inj (found.symm.trans present)
      rw [threads,crashing,treeResult_ok]
      exact (evaluate_cut first _ (Nat.le_refl _)).trans ((settle_past crashes).trans settled)
    · have within := before j
      have ended := rest j (by rwa [jobs,List.length_map]) same
      rw [jobsOf_tree present] at within ended
      rw [threads,ended,treeResult_ok,evaluate_cut t _ (Nat.le_succ_of_le within)]
      exact true_by j t present

-- `(Err(e), _) => Err(e)` lets a rejection on the left win over a crash on the
-- right, and `not` makes a success of it.
theorem crash_fails_unless_masked (trees : List (ExpressionTree Leaf)) :
    (∀ steps brackets, SomeCrash steps trees → ∃ e, parallelInvoke steps brackets trees = .error e) ↔
      ¬ Masked trees := by
  constructor
  · intro fails masked
    obtain ⟨steps,crashed,succeeds⟩ := masked_succeeds masked
    obtain ⟨e,failed⟩ := fails steps .chunk crashed
    rw [succeeds .chunk] at failed; cases failed
  · intro bare steps brackets crashed
    cases result : parallelInvoke steps brackets trees with
    | error e => exact ⟨e,rfl⟩
    | ok _ => exact absurd (masked_of_success crashed result) bare

namespace VerdictExample
def pred : ExpandedPredicate := ⟨⟨[],"invoke"⟩,[]⟩
def accepts : ExpressionTree Leaf := .id ⟨pred,.ok true⟩
def rejects : ExpressionTree Leaf := .id ⟨pred,.ok false⟩
def crashes : ExpressionTree Leaf := .id ⟨pred,.error (.execution "unreachable")⟩
def hidden : ExpressionTree Leaf := .not (.and rejects crashes)
end VerdictExample

theorem crash_under_not_succeeds : SomeCrash [] [VerdictExample.hidden] ∧
    parallelInvoke [] .chunk [VerdictExample.hidden] = .ok () :=
  ⟨⟨0,by decide,.execution "unreachable",.tail _ (.head _)⟩,by decide⟩

theorem calm_run {trees : List (ExpressionTree (Leaf A))} (calm : ∀ t ∈ trees, crashFree t = t.size)
    (steps : List Nat) (brackets : Bracketing) :
    parallelInvoke steps brackets trees = .ok () ↔ ∀ t ∈ trees, t.holds answer = true := by
  have quiet : (threads steps trees).flag = false := by
    by_contra raised
    obtain ⟨i,inside,broke⟩ := flag_blame (Bool.eq_true_of_not_eq_false raised)
    have whole := calm _ (List.getElem_mem inside)
    rcases threads_ended steps (List.getElem?_eq_getElem inside) with ⟨refused,_⟩ | ⟨m,bound,_,_,ended⟩
    · simp [refused,Task.broke,Task.log] at broke
    · rw [ended,ended_broke bound] at broke
      omega
  rw [parallelInvoke_ok]
  constructor
  · intro all t member
    obtain ⟨i,found⟩ := List.mem_iff_getElem?.mp member
    obtain ⟨m,bound,_,short,_,settled⟩ := all i t found
    rw [quiet] at short
    obtain rfl : m = t.size := by
      rcases Nat.lt_or_ge m t.size with less | full
      · cases short less
      · omega
    simpa [settle_calm (calm t member)] using settled
  · intro all i t found
    have member := List.mem_of_getElem? found
    rcases threads_ended steps found with ⟨_,raised⟩ | ⟨m,bound,reach,short,ended⟩
    · rw [quiet] at raised; cases raised
    · refine ⟨m,bound,reach,short,ended,?_⟩
      rw [quiet] at short
      obtain rfl : m = t.size := by
        rcases Nat.lt_or_ge m t.size with less | full
        · cases short less
        · omega
      rw [settle_calm (calm t member),all t member]

theorem alone_run {t : ExpressionTree (Leaf A)} (crashes : crashFree t < t.size) (steps : List Nat)
    (brackets : Bracketing) : parallelInvoke steps brackets [t] = .ok () ↔ settle t (crashFree t) = some true := by
  obtain ⟨i,inside,broke⟩ := crash_happens steps (List.mem_singleton_self t) crashes
  obtain rfl : i = 0 := by simpa using inside
  rw [parallelInvoke_all]
  rcases threads_ended steps (show [t][0]? = some t from rfl) with ⟨refused,_⟩ | ⟨m,bound,reach,_,ended⟩
  · simp [refused,Task.broke,Task.log] at broke
  · rw [ended,ended_broke bound] at broke
    obtain rfl : m = crashFree t + 1 := by omega
    have value : treeResult t ((threads steps [t]).tasks 0) = .ok () ↔ settle t (crashFree t) = some true := by
      rw [ended,treeResult_ok,evaluate_cut t _ reach,settle_past crashes]
    rw [← value]
    constructor
    · exact fun all => all 0 t rfl
    · intro succeeded j other found
      obtain ⟨rfl,rfl⟩ : j = 0 ∧ t = other := by
        cases j with
        | zero => exact ⟨rfl,Option.some.inj found⟩
        | succ j => simp at found
      exact succeeded

theorem refused_fails {trees : List (ExpressionTree (Leaf A))} {t : ExpressionTree (Leaf A)} (member : t ∈ trees)
    (crashes : crashFree t < t.size) (several : 1 < trees.length) :
    ∃ steps, ∀ brackets, parallelInvoke steps brackets trees ≠ .ok () := by
  obtain ⟨i,found⟩ := List.mem_iff_getElem?.mp member
  have inside := (List.getElem?_eq_some_iff.mp found).1
  obtain ⟨j,bound,other⟩ : ∃ j, j < trees.length ∧ j ≠ i := by
    rcases Nat.eq_zero_or_pos i with rfl | positive
    · exact ⟨1,several,by decide⟩
    · exact ⟨0,by omega,by omega⟩
  obtain ⟨steps,_,rest⟩ := finish_realizes Leaf.outcome (jobs trees) i (by rwa [jobs,List.length_map])
    (by rwa [jobsOf_tree found]) (fun _ => none) (by simp)
  refine ⟨steps,fun brackets succeeded => ?_⟩
  have result := (parallelInvoke_all steps brackets trees).mp succeeded j _ (List.getElem?_eq_getElem bound)
  rw [threads,rest j (by rwa [jobs,List.length_map]) other] at result
  cases result

theorem verdict_schedule_free (trees : List (ExpressionTree Leaf)) :
    (∀ steps steps' brackets brackets', parallelInvoke steps brackets trees = .ok () ↔
      parallelInvoke steps' brackets' trees = .ok ()) ↔ ¬ (Masked trees ∧ 1 < trees.length) := by
  constructor
  · rintro same ⟨masked,several⟩
    obtain ⟨t,member,crashes,_⟩ := masked.1
    obtain ⟨lucky,_,succeeds⟩ := masked_succeeds masked
    obtain ⟨unlucky,fails⟩ := refused_fails member crashes several
    exact fails .chunk ((same lucky unlucky .chunk .chunk).mp (succeeds .chunk))
  · intro fair steps steps' brackets brackets'
    by_cases crashing : ∃ t ∈ trees, crashFree t < t.size
    · obtain ⟨t,member,crashes⟩ := crashing
      by_cases masked : Masked trees
      · obtain ⟨only,rfl⟩ : ∃ only, trees = [only] := by
          have few : ¬ 1 < trees.length := fun several => fair ⟨masked,several⟩
          have some := List.length_pos_of_mem member
          exact List.length_eq_one_iff.mp (by omega)
        obtain rfl := List.mem_singleton.mp member
        rw [alone_run crashes,alone_run crashes]
      · constructor <;> intro succeeded
        · exact absurd (masked_of_success (crash_happens steps member crashes) succeeded) masked
        · exact absurd (masked_of_success (crash_happens steps' member crashes) succeeded) masked
    · have calm : ∀ t ∈ trees, crashFree t = t.size := by
        intro t member
        have most := clean_le Leaf.outcome t.leaves
        by_contra short
        exact crashing ⟨t,member,Nat.lt_of_le_of_ne most short⟩
      rw [calm_run calm,calm_run calm]

theorem verdict_depends_on_schedule :
    parallelInvoke [1,1] .chunk [VerdictExample.hidden,VerdictExample.accepts] = .ok () ∧
    parallelInvoke [0,0,0,0] .chunk [VerdictExample.hidden,VerdictExample.accepts] = .error .cancelled := by decide

end AnomaAlpha.Execution
