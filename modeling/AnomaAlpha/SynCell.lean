import Mathlib.Logic.Function.Basic
import Mathlib.Data.List.Basic

namespace AnomaAlpha

-- The word counts the shared borrows and has its top bit for a mutable one;
-- `usize` is that of the 64-bit targets.
structure SynCell (α : Type) where
  state : UInt64
  value : α

namespace SynCell
variable {α : Type}

def writeBit : UInt64 := (1 : UInt64) <<< (8*8-1)

inductive CellPanic where
  | mutablyBorrowed
  | immutablyBorrowed
  deriving DecidableEq

-- How `borrow_mut` goes on after its `fetch_or`.
inductive Attempt where
  | granted
  | refused
  | retreats
  deriving DecidableEq

def new (value : α) : SynCell α := ⟨0,value⟩

def borrowMut (cell : SynCell α) : Attempt × SynCell α :=
  let old := cell.state
  let cell := {cell with state := old ||| writeBit}
  if old &&& writeBit ≠ 0 then (.refused,cell)
  else if old ≠ 0 then (.retreats,cell)
  else (.granted,cell)

-- `fetch_and(!WRITE_BIT)`: the drop of a `SynRefMut`, and what a borrow that found
-- shared ones does before it panics.
def unlock (cell : SynCell α) : SynCell α := {cell with state := cell.state &&& ~~~writeBit}

def write (f : α → α) (cell : SynCell α) : SynCell α := {cell with value := f cell.value}

variable {cell : SynCell α}

@[simp] theorem write_value (f : α → α) : (write f cell).value = f cell.value := rfl

theorem borrowMut_free (free : cell.state = 0) : borrowMut cell = (.granted,⟨writeBit,cell.value⟩) := by
  have apart : ¬(0 &&& writeBit ≠ 0) := by decide
  have bit : 0 ||| writeBit = writeBit := by decide
  simp only [borrowMut,free,apart,bit,if_false,ne_eq,not_true_eq_false]

theorem borrowMut_held (held : cell.state = writeBit) : borrowMut cell = (.refused,cell) := by
  have inside : writeBit &&& writeBit ≠ 0 := by decide
  have bit : writeBit ||| writeBit = writeBit := by decide
  unfold borrowMut
  dsimp only
  rw [held,bit,if_pos inside,← held]

theorem unlock_held (held : cell.state = writeBit) : unlock cell = ⟨0,cell.value⟩ := by
  have bit : writeBit &&& ~~~writeBit = 0 := by decide
  simp only [unlock,held,bit]

inductive Borrower where
  | idle
  | holding
  | retreating
  | panicked (panic : CellPanic)
  deriving DecidableEq

-- No thread has met a shared borrow: there is no function that makes one.
def Borrower.unshared : Borrower → Bool
  | .retreating | .panicked .immutablyBorrowed => false
  | .idle | .holding | .panicked .mutablyBorrowed => true

theorem Borrower.unshared_stays {b : Borrower} (unshared : b.unshared = true) : b ≠ .retreating := by
  intro retreats
  rw [retreats] at unshared
  cases unshared

inductive CellAct (α : Type) where
  | borrow
  | write (f : α → α)
  | drop
  | retreat

structure Contention (α : Type) where
  cell : SynCell α
  threads : Nat → Borrower

namespace Contention

def start (value : α) : Contention α := ⟨.new value,fun _ => .idle⟩

-- A thread does what its own code is at; anything else leaves everything as it is.
def step (m : Contention α) (i : Nat) : CellAct α → Contention α
  | .borrow => match m.threads i with
    | .idle => match m.cell.borrowMut with
      | (.granted,cell) => ⟨cell,Function.update m.threads i .holding⟩
      | (.refused,cell) => ⟨cell,Function.update m.threads i (.panicked .mutablyBorrowed)⟩
      | (.retreats,cell) => ⟨cell,Function.update m.threads i .retreating⟩
    | _ => m
  | .write f => match m.threads i with
    | .holding => {m with cell := m.cell.write f}
    | _ => m
  | .drop => match m.threads i with
    | .holding => ⟨m.cell.unlock,Function.update m.threads i .idle⟩
    | _ => m
  | .retreat => match m.threads i with
    | .retreating => ⟨m.cell.unlock,Function.update m.threads i (.panicked .immutablyBorrowed)⟩
    | _ => m

def run (m : Contention α) (acts : List (Nat × CellAct α)) : Contention α :=
  acts.foldl (fun m act => m.step act.1 act.2) m

def Free (m : Contention α) : Prop := m.cell.state = 0 ∧ ∀ i, m.threads i ≠ .holding ∧ (m.threads i).unshared = true

def HeldBy (m : Contention α) (i : Nat) : Prop :=
  m.cell.state = writeBit ∧ m.threads i = .holding ∧
    ∀ j, (m.threads j).unshared = true ∧ (m.threads j = .holding → j = i)

def Sole (m : Contention α) : Prop := m.Free ∨ ∃ i, m.HeldBy i

def writes (i : Nat) (acts : List (Nat × CellAct α)) : List (α → α) := acts.filterMap fun act => match act.2 with
  | .write f => if act.1 = i then some f else none
  | _ => none

variable {m : Contention α} {i j : Nat}

theorem start_free (value : α) : (start value).Free := ⟨rfl,fun _ => ⟨nofun,rfl⟩⟩

theorem misplaced_borrow (other : m.threads i ≠ .idle) : m.step i .borrow = m := by
  cases stands : m.threads i with
  | idle => exact (other stands).elim
  | holding | retreating | panicked _ => simp only [step,stands]

theorem misplaced_write (other : m.threads i ≠ .holding) (f : α → α) : m.step i (.write f) = m := by
  cases stands : m.threads i with
  | holding => exact (other stands).elim
  | idle | retreating | panicked _ => simp only [step,stands]

theorem misplaced_drop (other : m.threads i ≠ .holding) : m.step i .drop = m := by
  cases stands : m.threads i with
  | holding => exact (other stands).elim
  | idle | retreating | panicked _ => simp only [step,stands]

theorem misplaced_retreat (other : m.threads i ≠ .retreating) : m.step i .retreat = m := by
  cases stands : m.threads i with
  | retreating => exact (other stands).elim
  | idle | holding | panicked _ => simp only [step,stands]

theorem Free.borrowed (free : m.Free) (idle : m.threads i = .idle) :
    m.step i .borrow = ⟨⟨writeBit,m.cell.value⟩,Function.update m.threads i .holding⟩ := by
  simp only [step,idle,borrowMut_free free.1]

theorem Free.held (free : m.Free) (idle : m.threads i = .idle) : (m.step i .borrow).HeldBy i := by
  rw [free.borrowed idle]
  refine ⟨rfl,Function.update_self ..,fun j => ?_⟩
  by_cases same : j = i
  · subst same
    exact ⟨by simp [Borrower.unshared],fun _ => rfl⟩
  · dsimp only
    rw [Function.update_of_ne same]
    exact ⟨(free.2 j).2,fun holding => ((free.2 j).1 holding).elim⟩

-- The cell is the holder's: whoever else asks for it is refused, and nothing of
-- the holder's is touched.
theorem HeldBy.refused (held : m.HeldBy j) (idle : m.threads i = .idle) :
    m.step i .borrow = ⟨m.cell,Function.update m.threads i (.panicked .mutablyBorrowed)⟩ := by
  simp only [step,idle,borrowMut_held held.1]

theorem HeldBy.dropped (held : m.HeldBy i) :
    m.step i .drop = ⟨⟨0,m.cell.value⟩,Function.update m.threads i .idle⟩ := by
  simp only [step,held.2.1,unlock_held held.1]

theorem HeldBy.freed (held : m.HeldBy i) : (m.step i .drop).Free := by
  rw [held.dropped]
  refine ⟨rfl,fun j => ?_⟩
  by_cases same : j = i
  · subst same
    simp [Borrower.unshared]
  · dsimp only
    rw [Function.update_of_ne same]
    exact ⟨fun holding => same ((held.2.2 j).2 holding),(held.2.2 j).1⟩

theorem HeldBy.panics (held : m.HeldBy j) (idle : m.threads i = .idle) : (m.step i .borrow).HeldBy j := by
  have apart : j ≠ i := by
    intro same
    subst same
    cases idle.symm.trans held.2.1
  rw [held.refused idle]
  refine ⟨held.1,(Function.update_of_ne apart ..).trans held.2.1,fun k => ?_⟩
  by_cases same : k = i
  · subst same
    simp [Borrower.unshared]
  · dsimp only
    rw [Function.update_of_ne same]
    exact held.2.2 k

theorem HeldBy.wrote (held : m.HeldBy j) (f : α → α) : m.step j (.write f) = {m with cell := m.cell.write f} := by
  simp only [step,held.2.1]

theorem HeldBy.step (held : m.HeldBy j) (act : CellAct α) (kept : (i,act) ≠ (j,.drop)) :
    (m.step i act).HeldBy j ∧ (m.step i act).cell.value = (writes j [(i,act)]).foldl (fun v f => f v) m.cell.value := by
  cases act with
  | borrow =>
      by_cases idle : m.threads i = .idle
      · exact ⟨held.panics idle,by rw [held.refused idle]; rfl⟩
      · rw [misplaced_borrow idle]
        exact ⟨held,rfl⟩
  | write f =>
      by_cases own : i = j
      · subst own
        rw [held.wrote f]
        exact ⟨held,by simp [writes]⟩
      · rw [misplaced_write fun holding => own ((held.2.2 i).2 holding)]
        exact ⟨held,by simp [writes,own]⟩
  | drop =>
      rw [misplaced_drop fun holding => kept (by rw [(held.2.2 i).2 holding])]
      exact ⟨held,rfl⟩
  | retreat =>
      rw [misplaced_retreat (Borrower.unshared_stays (held.2.2 i).1)]
      exact ⟨held,rfl⟩

theorem Free.step (free : m.Free) (act : CellAct α) : (m.step i act).Sole := by
  obtain ⟨holds,unshared⟩ := free.2 i
  cases act with
  | borrow =>
      by_cases idle : m.threads i = .idle
      · exact .inr ⟨i,free.held idle⟩
      · rw [misplaced_borrow idle]
        exact .inl free
  | write f =>
      rw [misplaced_write holds]
      exact .inl free
  | drop =>
      rw [misplaced_drop holds]
      exact .inl free
  | retreat =>
      rw [misplaced_retreat (Borrower.unshared_stays unshared)]
      exact .inl free

theorem Sole.step (sole : m.Sole) (act : CellAct α) : (m.step i act).Sole := by
  rcases sole with free | held
  · exact free.step act
  · obtain ⟨j,held⟩ := held
    by_cases dropped : (i,act) = (j,.drop)
    · cases dropped
      exact .inl held.freed
    · exact .inr ⟨j,(held.step act dropped).1⟩

theorem run_sole (acts : List (Nat × CellAct α)) (sole : m.Sole) : (m.run acts).Sole := by
  induction acts generalizing m with
  | nil => exact sole
  | cons act acts ih => exact ih (sole.step act.2)

theorem run_held (acts : List (Nat × CellAct α)) (held : m.HeldBy j) (kept : ∀ act ∈ acts, act ≠ (j,.drop)) :
    (m.run acts).HeldBy j ∧ (m.run acts).cell.value = (writes j acts).foldl (fun v f => f v) m.cell.value := by
  induction acts generalizing m with
  | nil => exact ⟨held,rfl⟩
  | cons act acts ih =>
      obtain ⟨still,value⟩ := held.step act.2 (kept act List.mem_cons_self)
      obtain ⟨final,wrote⟩ := ih still fun later member => kept later (List.mem_cons_of_mem _ member)
      refine ⟨final,wrote.trans ?_⟩
      have split : writes j (act :: acts) = writes j [act] ++ writes j acts := by
        rw [← List.singleton_append,writes,List.filterMap_append]
        rfl
      rw [value,split,List.foldl_append]

end Contention

-- One cell under any threads: the word says whether somebody has the cell, a borrow
-- is granted exactly when nobody has it and panics otherwise without harm to whoever
-- has, and as long as a thread does not drop its guard the value is what it makes
-- of it.
theorem cell_exclusive (value : α) (acts : List (Nat × CellAct α)) :
    let m := (Contention.start value).run acts
    (m.cell.state = 0 ∧ (∀ i, m.threads i ≠ .holding) ∨
      m.cell.state = writeBit ∧ ∃ i, m.threads i = .holding ∧ ∀ j, m.threads j = .holding → j = i) ∧
    (∀ i, (m.threads i).unshared = true) ∧
    (∀ i, m.threads i = .idle → (m.step i .borrow).threads i =
      if m.cell.state = 0 then .holding else .panicked .mutablyBorrowed) ∧
    ∀ i later, m.threads i = .holding → (∀ act ∈ later, act ≠ (i,.drop)) →
      (m.run later).threads i = .holding ∧
        (m.run later).cell.value = (Contention.writes i later).foldl (fun v f => f v) m.cell.value := by
  intro m
  have sole : m.Sole := Contention.run_sole acts (.inl (Contention.start_free value))
  refine ⟨?_,?_,?_,?_⟩
  · rcases sole with free | held
    · exact .inl ⟨free.1,fun i => (free.2 i).1⟩
    · obtain ⟨i,word,holding,only⟩ := held
      exact .inr ⟨word,i,holding,fun j => (only j).2⟩
  · intro i
    rcases sole with free | held
    · exact (free.2 i).2
    · obtain ⟨j,_,_,only⟩ := held
      exact (only i).1
  · intro i idle
    rcases sole with free | held
    · rw [free.borrowed idle,if_pos free.1]
      exact Function.update_self ..
    · obtain ⟨j,held⟩ := held
      have set : m.cell.state ≠ 0 := by
        rw [held.1]
        decide
      rw [held.refused idle,if_neg set]
      exact Function.update_self ..
  · intro i later holding kept
    rcases sole with free | held
    · exact ((free.2 i).1 holding).elim
    · obtain ⟨j,held⟩ := held
      obtain rfl : i = j := (held.2.2 i).2 holding
      obtain ⟨still,wrote⟩ := Contention.run_held later held kept
      exact ⟨still.2.1,wrote⟩

end SynCell

-- Thread 1 asks twice for a cell that thread 0 is writing to.
theorem second_borrow_refused :
    let m := (SynCell.Contention.start 5).run [(1,.borrow),(1,.drop),(0,.borrow)]
    let later := [(1,.borrow),(0,.write (· + 1)),(1,.write (· * 2)),(0,.write (· * 10))]
    (m.run later).threads 1 = .panicked .mutablyBorrowed ∧ (m.run later).cell.value = 60 := by
  refine ⟨by decide,?_⟩
  obtain ⟨_,_,_,kept⟩ := SynCell.cell_exclusive 5 [(1,.borrow),(1,.drop),(0,.borrow)]
  obtain ⟨_,value⟩ := kept 0 [(1,.borrow),(0,.write (· + 1)),(1,.write (· * 2)),(0,.write (· * 10))] (by decide) (by
    intro act member
    simp only [List.mem_cons,List.not_mem_nil,or_false] at member
    rcases member with rfl | rfl | rfl | rfl <;> simp)
  exact value.trans (by decide)

end AnomaAlpha
