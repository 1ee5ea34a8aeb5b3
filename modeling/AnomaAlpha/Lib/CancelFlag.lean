import Mathlib.Data.List.Sort
import Mathlib.Data.List.Induction
import Mathlib.Data.List.TakeWhile
import Mathlib.Logic.Function.Iterate

-- Tasks that work through their jobs in order and share one flag. A task reads
-- the flag when it starts and again before every job; a job that crashes raises
-- it, in a step of its own. The flag never goes down.
namespace CancelFlag
variable {J R E : Type}

inductive Poll (R E : Type) where
  | done (result : R)
  | crashed (error : E)
  | skipped

inductive Task (J R E : Type) where
  | idle (jobs : List J)
  | refused
  | working (log : List (Poll R E)) (todo : List J)
  | crashing (log : List (Poll R E)) (error : E) (todo : List J)

structure Machine (J R E : Type) where
  flag : Bool
  tasks : Nat → Task J R E

def Task.step (run : J → Except E R) (flag : Bool) : Task J R E → Bool × Task J R E
  | .idle jobs => (flag,if flag then .refused else .working [] jobs)
  | .refused => (flag,.refused)
  | .working log [] => (flag,.working log [])
  | .working log (job :: todo) =>
    if flag then (flag,.working (log ++ [.skipped]) todo)
    else match run job with
      | .ok result => (flag,.working (log ++ [.done result]) todo)
      | .error error => (flag,.crashing log error todo)
  | .crashing log error todo => (true,.working (log ++ [.crashed error]) todo)

def Machine.step (run : J → Except E R) (m : Machine J R E) (i : Nat) : Machine J R E :=
  ⟨((m.tasks i).step run m.flag).1,Function.update m.tasks i ((m.tasks i).step run m.flag).2⟩

-- An interleaving is the list of the tasks in the order in which they move.
def Machine.runs (run : J → Except E R) (m : Machine J R E) (schedule : List Nat) : Machine J R E :=
  schedule.foldl (Machine.step run) m

def jobsOf (jobs : List (List J)) (i : Nat) : List J := (jobs[i]?).getD []

-- A number that names no task stands for one without jobs.
def start (jobs : List (List J)) : Machine J R E := ⟨false,fun i => .idle (jobsOf jobs i)⟩

def blocks (n : Nat) (count : Nat → Nat) : List Nat :=
  (List.range n).flatMap fun i => List.replicate (count i) i

-- Whatever a schedule leaves undone is done at its end, so that every list of
-- numbers stands for a complete interleaving and every one is reached.
def drain (jobs : List (List J)) : List Nat := blocks jobs.length fun i => 2*(jobsOf jobs i).length+1

def finish (run : J → Except E R) (jobs : List (List J)) (schedule : List Nat) : Machine J R E :=
  (start jobs).runs run (schedule ++ drain jobs)

def poll (run : J → Except E R) (job : J) : Poll R E :=
  match run job with
  | .ok result => .done result
  | .error error => .crashed error

def clean (run : J → Except E R) (jobs : List J) : Nat := (jobs.takeWhile fun job => (run job).isOk).length

def cutLog (run : J → Except E R) (jobs : List J) (m : Nat) : List (Poll R E) :=
  (jobs.take m).map (poll run) ++ List.replicate (jobs.length-m) .skipped

def Task.log : Task J R E → List (Poll R E)
  | .idle _ => []
  | .refused => []
  | .working log _ => log
  | .crashing log _ _ => log

def Task.broke (t : Task J R E) : Prop := ∃ error, Poll.crashed error ∈ t.log

variable {run : J → Except E R}

theorem clean_le (run : J → Except E R) (jobs : List J) : clean run jobs ≤ jobs.length :=
  (List.takeWhile_sublist _).length_le

theorem clean_ok {jobs : List J} {m : Nat} (before : m < clean run jobs) (bound : m < jobs.length) :
    (run jobs[m]).isOk = true := by
  have inside := List.mem_takeWhile_imp (List.getElem_mem before)
  rwa [(List.takeWhile_prefix _).getElem before] at inside

theorem clean_stop {jobs : List J} {m : Nat} (before : m ≤ clean run jobs) (bound : m < jobs.length)
    (bad : run jobs[m] = .error error) : m = clean run jobs := by
  rcases Nat.lt_or_ge m (clean run jobs) with less | more
  · have good := clean_ok less bound
    rw [bad] at good; cases good
  · exact Nat.le_antisymm before more

theorem clean_crash {jobs : List J} (crashes : clean run jobs < jobs.length) :
    ∃ error, run jobs[clean run jobs] = .error error := by
  induction jobs with
  | nil => simp at crashes
  | cons job jobs ih =>
      cases tried : run job with
      | error error =>
          have here : clean run (job :: jobs) = 0 := by simp [clean,tried,Except.isOk,Except.toBool]
          exact ⟨error,by simp [here,tried]⟩
      | ok result =>
          have next : clean run (job :: jobs) = clean run jobs + 1 := by
            simp [clean,tried,Except.isOk,Except.toBool]
          simp only [next,List.length_cons,Nat.add_lt_add_iff_right] at crashes
          obtain ⟨error,failed⟩ := ih crashes
          exact ⟨error,by simpa [next] using failed⟩

theorem take_poll {jobs : List J} {m : Nat} (bound : m < jobs.length) :
    (jobs.take (m+1)).map (poll run) = (jobs.take m).map (poll run) ++ [poll run jobs[m]] := by
  rw [List.take_succ_eq_append_getElem bound,List.map_append,List.map_singleton]

theorem clean_total {jobs : List J} (total : ∀ job ∈ jobs, ∃ result, run job = .ok result) :
    clean run jobs = jobs.length := by
  have whole : jobs.takeWhile (fun job => (run job).isOk) = jobs := by
    rw [List.takeWhile_eq_self_iff]
    intro job member
    obtain ⟨result,ran⟩ := total job member
    simp [ran,Except.isOk,Except.toBool]
  rw [clean,whole]

theorem clean_append_calm {first : List J} (calm : clean run first = first.length) (second : List J) :
    clean run (first ++ second) = first.length + clean run second := by
  have whole : first.takeWhile (fun job => (run job).isOk) = first :=
    (List.takeWhile_prefix _).eq_of_length calm
  rw [clean,List.takeWhile_append,if_pos (congrArg List.length whole),List.length_append]
  rfl

theorem clean_append_crash {first : List J} (crashes : clean run first < first.length) (second : List J) :
    clean run (first ++ second) = clean run first := by
  have short : (first.takeWhile fun job => (run job).isOk).length ≠ first.length := Nat.ne_of_lt crashes
  rw [clean,List.takeWhile_append,if_neg short]
  rfl

theorem cutLog_length (jobs : List J) (m : Nat) : (cutLog run jobs m).length = jobs.length := by
  simp only [cutLog,List.length_append,List.length_map,List.length_take,List.length_replicate]
  omega

theorem cutLog_append (first second : List J) (m : Nat) :
    cutLog run (first ++ second) m = cutLog run first m ++ cutLog run second (m - first.length) := by
  simp only [cutLog,List.take_append,List.map_append,List.length_append]
  rcases Nat.le_total m first.length with short | long
  · rw [Nat.sub_eq_zero_of_le short,List.take_zero,List.map_nil,List.append_nil,List.nil_append,List.append_assoc,
      List.replicate_append_replicate]
    congr 2
    omega
  · rw [Nat.sub_eq_zero_of_le long,List.replicate_zero,List.append_nil,List.append_assoc]
    congr 3
    omega

theorem cutLog_full {jobs : List J} {m : Nat} (full : jobs.length ≤ m) :
    cutLog run jobs m = cutLog run jobs jobs.length := by
  simp only [cutLog,List.take_of_length_le full,List.take_length,Nat.sub_eq_zero_of_le full,Nat.sub_self]

-- The crash of a task is in its log exactly when the log reaches past the jobs
-- that do not crash.
theorem crashed_cutLog {jobs : List J} {m : Nat} (reach : m ≤ jobs.length) :
    (∃ error, Poll.crashed error ∈ cutLog run jobs m) ↔ clean run jobs < m := by
  constructor
  · intro given
    obtain ⟨error,member⟩ := given
    by_contra short
    simp only [cutLog,List.mem_append,List.mem_map,List.mem_replicate,reduceCtorEq,and_false,or_false] at member
    obtain ⟨job,taken,polled⟩ := member
    obtain ⟨k,bound,rfl⟩ := List.getElem_of_mem taken
    rw [List.length_take] at bound
    rw [List.getElem_take] at polled
    have before : k < clean run jobs := by omega
    have good := clean_ok before (by omega)
    cases tried : run jobs[k] with
    | ok result => simp [poll,tried] at polled
    | error e => rw [tried] at good; cases good
  · intro past
    have crashes : clean run jobs < jobs.length := by omega
    obtain ⟨error,failed⟩ := clean_crash crashes
    refine ⟨error,List.mem_append_left _ (List.mem_map.mpr ⟨jobs[clean run jobs],?_,by simp [poll,failed]⟩)⟩
    exact List.mem_take_iff_getElem.mpr ⟨clean run jobs,by omega,rfl⟩

-- What a task can look like when its jobs are `jobs` and the flag stands as it
-- does: it executes without a gap, it skips only under a raised flag, and it
-- has raised the flag itself before it goes past a crash.
inductive TaskInv (run : J → Except E R) (flag : Bool) (jobs : List J) : Task J R E → Prop where
  | idle : TaskInv run flag jobs (.idle jobs)
  | refused (raised : flag = true) : TaskInv run flag jobs .refused
  | working (m n : Nat) (inside : m+n ≤ jobs.length) (reach : m ≤ clean run jobs + 1)
      (skips : 0 < n → flag = true) (past : clean run jobs < m → flag = true)
      (logged : log = (jobs.take m).map (poll run) ++ List.replicate n .skipped)
      (left : todo = jobs.drop (m+n)) : TaskInv run flag jobs (.working log todo)
  | crashing (bound : clean run jobs < jobs.length) (failed : run jobs[clean run jobs] = .error error)
      (logged : log = (jobs.take (clean run jobs)).map (poll run))
      (left : todo = jobs.drop (clean run jobs + 1)) : TaskInv run flag jobs (.crashing log error todo)

theorem TaskInv.raise {flag later : Bool} {jobs : List J} {t : Task J R E} (inv : TaskInv run flag jobs t)
    (up : flag = true → later = true) : TaskInv run later jobs t := by
  cases inv with
  | idle => exact .idle
  | refused raised => exact .refused (up raised)
  | working m n inside reach skips past logged left =>
      exact .working m n inside reach (fun some => up (skips some)) (fun beyond => up (past beyond)) logged left
  | crashing bound failed logged left => exact .crashing bound failed logged left

theorem TaskInv.step {flag : Bool} {jobs : List J} {t : Task J R E} (inv : TaskInv run flag jobs t) :
    TaskInv run (t.step run flag).1 jobs (t.step run flag).2 := by
  cases inv with
  | idle =>
      cases flag with
      | true => exact .refused rfl
      | false => exact .working 0 0 (by simp) (by simp) (by simp) (by simp) (by simp) (by simp)
  | refused raised => exact .refused raised
  | @working log todo m n inside reach skips past logged left =>
      cases todo with
      | nil => exact .working m n inside reach skips past logged left
      | cons job todo =>
          have bound : m+n < jobs.length := by
            by_contra beyond
            rw [List.drop_eq_nil_of_le (by omega)] at left; cases left
          rw [List.drop_eq_getElem_cons bound] at left
          obtain ⟨rfl,rfl⟩ := List.cons.inj left
          cases flag with
          | true =>
              refine .working m (n+1) (by omega) reach (fun _ => rfl) past ?_ rfl
              rw [logged,List.replicate_succ',List.append_assoc]
          | false =>
              -- nothing was skipped and no crash was passed, so the task is inside its clean prefix
              obtain rfl : n = 0 := by
                by_contra skipped
                cases skips (by omega)
              have within : m ≤ clean run jobs := by
                by_contra beyond
                cases past (by omega)
              simp only [Nat.add_zero,List.replicate_zero,List.append_nil] at bound logged ⊢
              cases tried : run jobs[m] with
              | error error =>
                  simp only [Task.step,tried]
                  obtain rfl := clean_stop within bound tried
                  exact .crashing bound tried logged rfl
              | ok result =>
                  simp only [Task.step,tried]
                  refine .working (m+1) 0 (by omega) (by omega) (by simp) ?_ ?_ rfl
                  · intro beyond
                    obtain rfl : m = clean run jobs := by omega
                    obtain ⟨error,failed⟩ := clean_crash bound
                    rw [tried] at failed; cases failed
                  · rw [logged,take_poll bound]
                    simp [poll,tried]
  | crashing bound failed logged left =>
      refine .working (clean run jobs + 1) 0 (by omega) (by omega) (by simp) (fun _ => rfl) ?_ left
      rw [logged,take_poll bound]
      simp [poll,failed]

theorem Task.step_flag (t : Task J R E) (flag : Bool) (raised : flag = true) : (t.step run flag).1 = true := by
  cases t with
  | working log todo => cases todo <;> simp [Task.step,raised]
  | idle | refused | crashing => simp [Task.step,raised]

theorem Task.step_broke {t : Task J R E} {flag : Bool} (broke : t.broke) : (t.step run flag).2.broke := by
  obtain ⟨error,member⟩ := broke
  refine ⟨error,?_⟩
  cases t with
  | idle | refused => simp [Task.log] at member
  | crashing log e todo => exact List.mem_append_left _ member
  | working log todo =>
      cases todo with
      | nil => exact member
      | cons job todo =>
          simp only [Task.step]
          split
          · exact List.mem_append_left _ member
          · cases run job with
            | ok result => exact List.mem_append_left _ member
            | error e => exact member

theorem Task.step_raises {t : Task J R E} (raised : (t.step run false).1 = true) : (t.step run false).2.broke := by
  cases t with
  | idle | refused => simp [Task.step] at raised
  | crashing log e todo => exact ⟨e,by simp [Task.step,Task.log]⟩
  | working log todo =>
      cases todo with
      | nil => simp [Task.step] at raised
      | cons job todo => cases tried : run job <;> simp [Task.step,tried] at raised

structure MachineInv (run : J → Except E R) (jobs : List (List J)) (m : Machine J R E) : Prop where
  tasks : ∀ i, TaskInv run m.flag (jobsOf jobs i) (m.tasks i)
  blame : m.flag = true → ∃ i, (m.tasks i).broke

theorem start_inv (run : J → Except E R) (jobs : List (List J)) : MachineInv run jobs (start jobs) :=
  ⟨fun _ => .idle,by simp [start]⟩

theorem MachineInv.step {jobs : List (List J)} {m : Machine J R E} (inv : MachineInv run jobs m) (i : Nat) :
    MachineInv run jobs (m.step run i) := by
  constructor
  · intro j
    by_cases same : j = i
    · subst same
      simpa [Machine.step] using (inv.tasks j).step
    · simp only [Machine.step,Function.update_of_ne same]
      exact (inv.tasks j).raise ((m.tasks i).step_flag m.flag)
  · intro raised
    cases before : m.flag with
    | false =>
        simp only [Machine.step,before] at raised
        exact ⟨i,by simpa [Machine.step,before] using Task.step_raises raised⟩
    | true =>
        obtain ⟨j,broke⟩ := inv.blame before
        refine ⟨j,?_⟩
        by_cases same : j = i
        · subst same
          simpa [Machine.step] using Task.step_broke broke
        · simpa [Machine.step,Function.update_of_ne same] using broke

theorem MachineInv.runs {jobs : List (List J)} {m : Machine J R E} (inv : MachineInv run jobs m)
    (schedule : List Nat) : MachineInv run jobs (m.runs run schedule) := by
  induction schedule generalizing m with
  | nil => exact inv
  | cons i schedule ih => exact ih (inv.step i)

def Task.work : Task J R E → Nat
  | .idle jobs => 2*jobs.length+1
  | .refused => 0
  | .working _ todo => 2*todo.length
  | .crashing _ _ todo => 2*todo.length+1

theorem Task.step_work (run : J → Except E R) (t : Task J R E) (flag : Bool) : (t.step run flag).2.work ≤ t.work-1 := by
  cases t with
  | idle jobs => cases flag <;> simp [Task.step,Task.work]
  | refused => simp [Task.step,Task.work]
  | crashing log e todo => simp [Task.step,Task.work]
  | working log todo =>
      cases todo with
      | nil => simp [Task.step,Task.work]
      | cons job todo =>
          cases flag with
          | true => simp [Task.step,Task.work]; omega
          | false => cases tried : run job <;> simp [Task.step,Task.work,tried] <;> omega

theorem runs_work (run : J → Except E R) (m : Machine J R E) (schedule : List Nat) (i : Nat) :
    ((m.runs run schedule).tasks i).work ≤ (m.tasks i).work - schedule.count i := by
  induction schedule generalizing m with
  | nil => simp [Machine.runs]
  | cons j schedule ih =>
      refine (ih (m.step run j)).trans ?_
      by_cases same : j = i
      · subst same
        have less := (m.tasks j).step_work run m.flag
        simp only [Machine.step,Function.update_self,List.count_cons_self]
        omega
      · simp [Machine.step,Function.update_of_ne (Ne.symm same),List.count_cons_of_ne same]

theorem count_blocks (n : Nat) (count : Nat → Nat) (a : Nat) :
    (blocks n count).count a = if a < n then count a else 0 := by
  induction n with
  | zero => simp [blocks]
  | succ n ih =>
      have split : blocks (n+1) count = blocks n count ++ List.replicate (count n) n := by
        simp [blocks,List.range_succ]
      rw [split,List.count_append,ih,List.count_replicate]
      by_cases same : n = a
      · subst same; simp
      · by_cases less : a < n
        · simp [same,less,Nat.lt_succ_of_lt less]
        · have beyond : ¬ a < n+1 := by omega
          simp [same,less,beyond]

-- A complete interleaving leaves every task either refused or with the log of a
-- prefix of its jobs, and only a raised flag makes it stop short.
theorem finish_ended (run : J → Except E R) (jobs : List (List J)) (schedule : List Nat) (i : Nat)
    (known : i < jobs.length) :
    ((finish run jobs schedule).tasks i = .refused ∧ (finish run jobs schedule).flag = true) ∨
    ∃ m ≤ (jobsOf jobs i).length, m ≤ clean run (jobsOf jobs i) + 1 ∧
      (m < (jobsOf jobs i).length → (finish run jobs schedule).flag = true) ∧
      (finish run jobs schedule).tasks i = .working (cutLog run (jobsOf jobs i) m) [] := by
  have inv := ((start_inv run jobs).runs (schedule ++ drain jobs)).tasks i
  have ended : ((finish run jobs schedule).tasks i).work = 0 := by
    have bounded := runs_work run (start jobs) (schedule ++ drain jobs) i
    rw [List.count_append,drain,count_blocks,if_pos known] at bounded
    simp only [start,Task.work] at bounded
    exact Nat.le_zero.mp (bounded.trans (by omega))
  change TaskInv run (finish run jobs schedule).flag (jobsOf jobs i) ((finish run jobs schedule).tasks i) at inv
  generalize (finish run jobs schedule).tasks i = t at inv ended
  cases inv with
  | idle => simp [Task.work] at ended
  | refused raised => exact .inl ⟨rfl,raised⟩
  | crashing => simp [Task.work] at ended
  | @working log todo m n inside reach skips past logged left =>
      obtain rfl : todo = [] := by
        simp only [Task.work] at ended
        exact List.eq_nil_of_length_eq_zero (by omega)
      have whole : m+n = (jobsOf jobs i).length := by
        have beyond := List.drop_eq_nil_iff.mp left.symm
        omega
      refine .inr ⟨m,by omega,reach,fun short => skips (by omega),?_⟩
      rw [logged,cutLog,← whole,Nat.add_sub_cancel_left]

theorem TaskInv.broke_within {flag : Bool} {jobs : List J} {t : Task J R E} (inv : TaskInv run flag jobs t)
    (broke : t.broke) : jobs ≠ [] := by
  intro same
  subst same
  obtain ⟨error,member⟩ := broke
  cases inv with
  | idle | refused => simp [Task.log] at member
  | crashing bound => simp at bound
  | working m n inside reach skips past logged left =>
      subst logged
      simp [Task.log] at member

theorem finish_blame (jobs : List (List J)) (schedule : List Nat)
    (raised : (finish run jobs schedule).flag = true) :
    ∃ i, i < jobs.length ∧ ((finish run jobs schedule).tasks i).broke := by
  have inv := (start_inv run jobs).runs (schedule ++ drain jobs)
  obtain ⟨i,broke⟩ := inv.blame raised
  refine ⟨i,?_,broke⟩
  by_contra beyond
  exact (inv.tasks i).broke_within broke (by simp [jobsOf,List.getElem?_eq_none (Nat.le_of_not_lt beyond)])

def quiet (run : J → Except E R) (jobs : List J) : Nat → Task J R E
  | 0 => .idle jobs
  | k+1 => .working ((jobs.take k).map (poll run)) (jobs.drop k)

theorem quiet_step {jobs : List J} {k : Nat} (within : k < clean run jobs + 1) :
    (quiet run jobs k).step run false = (false,quiet run jobs (k+1)) := by
  cases k with
  | zero => simp [quiet,Task.step]
  | succ k =>
      have bound : k < jobs.length := by
        have total := clean_le run jobs
        omega
      have good := clean_ok (Nat.lt_of_succ_lt_succ within) bound
      cases tried : run jobs[k] with
      | error error => rw [tried] at good; cases good
      | ok result =>
          simp only [quiet,List.drop_eq_getElem_cons bound,Task.step,tried,take_poll bound]
          simp [poll,tried]

theorem runs_append (m : Machine J R E) (first second : List Nat) :
    m.runs run (first ++ second) = (m.runs run first).runs run second := List.foldl_append

-- As long as no task is moved past its clean prefix, tasks do not see each other.
theorem runs_quiet (jobs : List (List J)) (schedule : List Nat)
    (within : ∀ i, schedule.count i ≤ clean run (jobsOf jobs i) + 1) :
    (start jobs).runs run schedule = ⟨false,fun i => quiet run (jobsOf jobs i) (schedule.count i)⟩ := by
  induction schedule using List.reverseRecOn with
  | nil => rfl
  | append_singleton schedule i ih =>
      have before := ih fun j => by
        have later := within j
        rw [List.count_append] at later
        omega
      have here := within i
      rw [List.count_append,List.count_singleton_self] at here
      rw [runs_append,before]
      simp only [Machine.runs,List.foldl_cons,List.foldl_nil,Machine.step,quiet_step here,Machine.mk.injEq,true_and]
      funext j
      by_cases same : j = i
      · subst same; simp
      · simp [Function.update_of_ne same,List.count_cons_of_ne (Ne.symm same)]

theorem runs_raised (tasks : Nat → Task J R E) (schedule : List Nat) :
    Machine.runs run ⟨true,tasks⟩ schedule =
      ⟨true,fun i => (fun t => (t.step run true).2)^[schedule.count i] (tasks i)⟩ := by
  induction schedule generalizing tasks with
  | nil => rfl
  | cons i schedule ih =>
      have stepped : Machine.step run ⟨true,tasks⟩ i =
          ⟨true,Function.update tasks i ((tasks i).step run true).2⟩ := by
        rw [Machine.step,(tasks i).step_flag true rfl]
      rw [Machine.runs,List.foldl_cons,stepped]
      refine (ih _).trans ?_
      congr 1
      funext j
      by_cases same : j = i
      · subst same; simp
      · simp [Function.update_of_ne same,List.count_cons_of_ne (Ne.symm same)]

theorem skip_all (log : List (Poll R E)) (todo : List J) (k : Nat) (enough : todo.length ≤ k) :
    (fun t => (Task.step run true t).2)^[k] (.working log todo) =
      .working (log ++ List.replicate todo.length .skipped) [] := by
  induction k generalizing log todo with
  | zero =>
      obtain rfl : todo = [] := by simpa using enough
      simp
  | succ k ih =>
      rw [Function.iterate_succ_apply]
      cases todo with
      | nil => exact ih log [] (by simp)
      | cons job todo =>
          refine (ih _ _ (by simpa using enough)).trans ?_
          simp [List.replicate_succ]

theorem refuse_all (jobs : List J) (k : Nat) :
    (fun t => (Task.step run true t).2)^[k+1] (.idle jobs) = (.refused : Task J R E) := by
  rw [Function.iterate_succ_apply]
  exact Function.iterate_fixed rfl k

-- Every task that crashes can be the only one that does, with the others cut
-- off anywhere in their clean prefix or refused at their start.
theorem finish_realizes (run : J → Except E R) (jobs : List (List J)) (first : Nat) (known : first < jobs.length)
    (crashes : clean run (jobsOf jobs first) < (jobsOf jobs first).length) (cut : Nat → Option Nat)
    (within : ∀ i m, cut i = some m → m ≤ clean run (jobsOf jobs i)) :
    ∃ schedule, (finish run jobs schedule).tasks first =
        .working (cutLog run (jobsOf jobs first) (clean run (jobsOf jobs first) + 1)) [] ∧
      ∀ i, i < jobs.length → i ≠ first → (finish run jobs schedule).tasks i = match cut i with
        | none => .refused
        | some m => .working (cutLog run (jobsOf jobs i) m) [] := by
  obtain ⟨error,failed⟩ := clean_crash crashes
  let moves := fun i => if i = first then clean run (jobsOf jobs first) + 1 else match cut i with
    | none => 0
    | some m => m+1
  have bounded : ∀ i, (blocks jobs.length moves).count i ≤ clean run (jobsOf jobs i) + 1 := by
    intro i
    rw [count_blocks]
    split
    · simp only [moves]
      split
      · rename_i same; rw [same]
      · cases chosen : cut i with
        | none => simp
        | some m => simpa using within i m chosen
    · simp
  have calm := runs_quiet jobs (blocks jobs.length moves) bounded
  have crash : (start jobs).runs run (blocks jobs.length moves ++ [first,first]) =
      ⟨true,Function.update (fun i => quiet run (jobsOf jobs i) ((blocks jobs.length moves).count i)) first
        (.working ((jobsOf jobs first).take (clean run (jobsOf jobs first) + 1) |>.map (poll run))
          ((jobsOf jobs first).drop (clean run (jobsOf jobs first) + 1)))⟩ := by
    have ready : (blocks jobs.length moves).count first = clean run (jobsOf jobs first) + 1 := by
      simp [count_blocks,known,moves]
    rw [runs_append,calm]
    simp only [Machine.runs,List.foldl_cons,List.foldl_nil,Machine.step,ready,quiet,
      List.drop_eq_getElem_cons crashes,Task.step,failed,Function.update_self,Function.update_idem,
      take_poll crashes]
    simp [poll,failed]
  have ended : ∀ i, i < jobs.length → (drain jobs).count i = 2*(jobsOf jobs i).length+1 := by
    intro i inside
    rw [drain,count_blocks,if_pos inside]
  refine ⟨blocks jobs.length moves ++ [first,first],?_,?_⟩
  · rw [finish,runs_append,crash,runs_raised]
    simp only [ended first known,Function.update_self]
    rw [skip_all _ _ _ (by rw [List.length_drop]; omega),List.length_drop]
    rfl
  · intro i inside other
    rw [finish,runs_append,crash,runs_raised]
    simp only [ended i inside,Function.update_of_ne other,count_blocks,if_pos inside,moves,if_neg other]
    cases chosen : cut i with
    | none => exact refuse_all _ _
    | some m =>
        simp only [quiet]
        rw [skip_all _ _ _ (by rw [List.length_drop]; omega),List.length_drop]
        rfl

end CancelFlag
