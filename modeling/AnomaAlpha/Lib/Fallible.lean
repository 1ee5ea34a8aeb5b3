import Mathlib.Data.List.Sort

-- Reading the success of a fallible loop back into its steps.
namespace Fallible
variable {α β ε : Type}

theorem bind_ok {x : Except ε α} {f : α → Except ε β} {r : β} :
    (x >>= f) = .ok r ↔ ∃ a, x = .ok a ∧ f a = .ok r := by
  cases x <;> simp [bind,Except.bind]

theorem bind_error {x : Except ε α} {f : α → Except ε β} {e : ε} :
    (x >>= f) = .error e ↔ x = .error e ∨ ∃ a, x = .ok a ∧ f a = .error e := by
  cases x <;> simp [bind,Except.bind]

theorem bind_total {x : Except ε α} {f : α → Except ε β} (first : ∃ a, x = .ok a)
    (rest : ∀ a, x = .ok a → ∃ r, f a = .ok r) : ∃ r, (x >>= f) = .ok r := by
  obtain ⟨a,here⟩ := first
  obtain ⟨r,later⟩ := rest a here
  exact ⟨r,bind_ok.mpr ⟨a,here,later⟩⟩

theorem bind_agree {x : Except ε α} {f g : α → Except ε β} (same : ∀ a, x = .ok a → f a = g a) : x >>= f = x >>= g := by
  cases x with
  | error e => rfl
  | ok a => exact same a rfl

@[simp] theorem mapError_ok {x : Except ε α} {f : ε → β} {r : α} : x.mapError f = .ok r ↔ x = .ok r := by
  cases x <;> simp [Except.mapError]

theorem map_ok {x : Except ε α} {f : α → β} {r : β} : x.map f = .ok r ↔ ∃ a, x = .ok a ∧ f a = r := by
  cases x <;> simp [Except.map]

theorem foldlM_cons_ok {f : β → α → Except ε β} {a : α} {l : List α} {b r : β} :
    (a :: l).foldlM f b = .ok r ↔ ∃ c, f b a = .ok c ∧ l.foldlM f c = .ok r := by
  rw [List.foldlM_cons,bind_ok]

theorem foldlM_nil_ok {f : β → α → Except ε β} {b r : β} : ([] : List α).foldlM f b = .ok r ↔ b = r := by
  simp [pure,Except.pure]

theorem foldlM_invariant {f : β → α → Except ε β} {l : List α} {b r : β} (P : β → Prop)
    (step : ∀ b a c, a ∈ l → P b → f b a = .ok c → P c) (start : P b) (ran : l.foldlM f b = .ok r) : P r := by
  induction l generalizing b with
  | nil =>
      obtain rfl := foldlM_nil_ok.mp ran
      exact start
  | cons a l ih =>
      obtain ⟨middle,first,rest⟩ := foldlM_cons_ok.mp ran
      exact ih (fun b x c member => step b x c (List.mem_cons_of_mem _ member))
        (step b a middle (by simp) start first) rest

theorem foldlM_total {f : β → α → Except ε β} {l : List α} {b : β} (total : ∀ a ∈ l, ∀ b, ∃ c, f b a = .ok c) :
    ∃ r, l.foldlM f b = .ok r := by
  induction l generalizing b with
  | nil => exact ⟨b,rfl⟩
  | cons a l ih =>
      obtain ⟨middle,first⟩ := total a (by simp) b
      obtain ⟨r,rest⟩ := ih fun x member => total x (List.mem_cons_of_mem _ member)
      exact ⟨r,foldlM_cons_ok.mpr ⟨middle,first,rest⟩⟩

theorem foldlM_pure {f : β → α → β} {l : List α} (b : β) :
    l.foldlM (fun b a => (.ok (f b a) : Except ε β)) b = .ok (l.foldl f b) := by
  induction l generalizing b with
  | nil => rfl
  | cons a l ih => exact ih (f b a)

theorem foldlM_congr {f g : β → α → Except ε β} {l : List α} (same : ∀ a ∈ l, ∀ b, f b a = g b a) (b : β) :
    l.foldlM f b = l.foldlM g b := by
  induction l generalizing b with
  | nil => rfl
  | cons a l ih =>
      have rest := ih fun x member => same x (List.mem_cons_of_mem _ member)
      simp only [List.foldlM_cons,same a (by simp),rest]

theorem mapM_cons_ok {f : α → Except ε β} {a : α} {l : List α} {ys : List β} :
    (a :: l).mapM f = .ok ys ↔ ∃ y rest, f a = .ok y ∧ l.mapM f = .ok rest ∧ ys = y :: rest := by
  rw [List.mapM_cons,bind_ok]
  constructor
  · intro given
    obtain ⟨y,first,later⟩ := given
    obtain ⟨rest,mapped,finished⟩ := bind_ok.mp later
    exact ⟨y,rest,first,mapped,(Except.ok.inj finished).symm⟩
  · intro given
    obtain ⟨y,rest,first,mapped,rfl⟩ := given
    exact ⟨y,first,bind_ok.mpr ⟨rest,mapped,rfl⟩⟩

theorem mapM_mem {f : α → Except ε β} {l : List α} {ys : List β} (mapped : l.mapM f = .ok ys) (y : β) :
    y ∈ ys ↔ ∃ a ∈ l, f a = .ok y := by
  induction l generalizing ys with
  | nil =>
      obtain rfl := Except.ok.inj mapped
      simp
  | cons a l ih =>
      obtain ⟨first,rest,here,later,rfl⟩ := mapM_cons_ok.mp mapped
      simp [ih later,here,eq_comm]

theorem mapM_length {f : α → Except ε β} {l : List α} {ys : List β} (mapped : l.mapM f = .ok ys) : ys.length = l.length := by
  induction l generalizing ys with
  | nil =>
      obtain rfl := Except.ok.inj mapped
      rfl
  | cons a l ih =>
      obtain ⟨first,rest,_,later,rfl⟩ := mapM_cons_ok.mp mapped
      rw [List.length_cons,List.length_cons,ih later]

theorem mapM_each {f : α → Except ε β} {l : List α} {ys : List β} {a : α} (mapped : l.mapM f = .ok ys)
    (member : a ∈ l) : ∃ y, f a = .ok y := by
  obtain ⟨front,back,rfl⟩ := List.append_of_mem member
  rw [List.mapM_append] at mapped
  obtain ⟨_,_,rest⟩ := bind_ok.mp mapped
  obtain ⟨later,second,_⟩ := bind_ok.mp rest
  obtain ⟨y,_,here,_⟩ := mapM_cons_ok.mp second
  exact ⟨y,here⟩

theorem mapM_total {f : α → Except ε β} {l : List α} (total : ∀ a ∈ l, ∃ y, f a = .ok y) :
    ∃ ys, l.mapM f = .ok ys := by
  induction l with
  | nil => exact ⟨[],rfl⟩
  | cons a l ih =>
      obtain ⟨first,here⟩ := total a (by simp)
      obtain ⟨rest,later⟩ := ih fun x member => total x (List.mem_cons_of_mem _ member)
      exact ⟨first :: rest,mapM_cons_ok.mpr ⟨first,rest,here,later,rfl⟩⟩

theorem mapM_pairs {f : α → Except ε β} {l : List α} {ys : List β} (mapped : l.mapM f = .ok ys) :
    List.Forall₂ (fun a y => f a = .ok y) l ys := by
  induction l generalizing ys with
  | nil =>
      obtain rfl := Except.ok.inj mapped
      exact .nil
  | cons a l ih =>
      obtain ⟨y,rest,here,later,rfl⟩ := mapM_cons_ok.mp mapped
      exact .cons here (ih later)

theorem mapM_error {f : α → Except ε β} {l : List α} {e : ε} (failed : l.mapM f = .error e) :
    ∃ front a back, l = front ++ a :: back ∧ (∀ b ∈ front, ∃ y, f b = .ok y) ∧ f a = .error e := by
  induction l with
  | nil => cases failed
  | cons a l ih =>
      rw [List.mapM_cons] at failed
      rcases bind_error.mp failed with here | ⟨y,here,later⟩
      · exact ⟨[],a,l,rfl,by simp,here⟩
      · rcases bind_error.mp later with there | ⟨ys,_,finished⟩
        · obtain ⟨front,b,back,rfl,fine,stopped⟩ := ih there
          exact ⟨a :: front,b,back,rfl,by simpa [here] using fine,stopped⟩
        · cases finished

theorem mapM_pure {f : α → β} {l : List α} : l.mapM (fun a => (.ok (f a) : Except ε β)) = .ok (l.map f) := by
  induction l with
  | nil => rfl
  | cons a l ih =>
      rw [List.mapM_cons,ih]
      rfl

theorem mapM_congr {f g : α → Except ε β} {l : List α} (same : ∀ a ∈ l, f a = g a) : l.mapM f = l.mapM g := by
  induction l with
  | nil => rfl
  | cons a l ih =>
      have rest := ih fun x member => same x (List.mem_cons_of_mem _ member)
      simp only [List.mapM_cons,same a (by simp),rest]

def Avoids (bad : ε → Prop) (x : Except ε α) : Prop := ∀ e, x = .error e → ¬bad e

theorem avoids_ok (bad : ε → Prop) (a : α) : Avoids bad (.ok a) := by
  intro e failed
  cases failed

theorem avoids_error {bad : ε → Prop} {e : ε} (fine : ¬bad e) : Avoids bad (.error e : Except ε α) := by
  intro e' failed
  cases failed
  exact fine

theorem avoids_bind {bad : ε → Prop} {x : Except ε α} {f : α → Except ε β} (first : Avoids bad x)
    (rest : ∀ a, x = .ok a → Avoids bad (f a)) : Avoids bad (x >>= f) := by
  cases x with
  | error e =>
      intro e' failed
      cases failed
      exact first e rfl
  | ok a => exact rest a rfl

theorem avoids_foldlM {bad : ε → Prop} {f : β → α → Except ε β} {l : List α}
    (each : ∀ b, ∀ a ∈ l, Avoids bad (f b a)) (b : β) : Avoids bad (l.foldlM f b) := by
  induction l generalizing b with
  | nil => exact avoids_ok bad b
  | cons a l ih =>
      rw [List.foldlM_cons]
      refine avoids_bind (each b a (by simp)) ?_
      intro c _
      exact ih (fun b x member => each b x (List.mem_cons_of_mem _ member)) c

theorem avoids_mapM {bad : ε → Prop} {f : α → Except ε β} {l : List α} (each : ∀ a ∈ l, Avoids bad (f a)) :
    Avoids bad (l.mapM f) := by
  induction l with
  | nil => exact avoids_ok bad []
  | cons a l ih =>
      rw [List.mapM_cons]
      refine avoids_bind (each a (by simp)) ?_
      intro y _
      refine avoids_bind (ih fun x member => each x (List.mem_cons_of_mem _ member)) ?_
      intro ys _
      exact avoids_ok bad (y :: ys)

-- A loop that writes one key at a time: after a successful run over distinct
-- keys every key of the list holds its own value and no other key has changed.
theorem foldlM_writes {S K X R : Type} [DecidableEq K] (look : S → K → Option R) (value : K → X → Option R)
    {f : S → K × X → Except ε S} {l : List (K × X)} {s s' : S}
    (step : ∀ s k x s', f s (k,x) = .ok s' →
      ∃ r, value k x = some r ∧ ∀ a, look s' a = if k = a then some r else look s a)
    (distinct : (l.map Prod.fst).Nodup) (ran : l.foldlM f s = .ok s') :
    (∀ entry ∈ l, ∃ r, value entry.1 entry.2 = some r ∧ look s' entry.1 = some r) ∧
      ∀ a, a ∉ l.map Prod.fst → look s' a = look s a := by
  induction l generalizing s with
  | nil =>
      obtain rfl := foldlM_nil_ok.mp ran
      simp
  | cons entry l ih =>
      obtain ⟨k,x⟩ := entry
      obtain ⟨middle,first,rest⟩ := foldlM_cons_ok.mp ran
      obtain ⟨r,valued,written⟩ := step s k x middle first
      simp only [List.map_cons,List.nodup_cons] at distinct
      obtain ⟨later,untouched⟩ := ih distinct.2 rest
      constructor
      · intro entry member
        rcases List.mem_cons.mp member with rfl | inside
        · exact ⟨r,valued,by rw [untouched k distinct.1,written k]; simp⟩
        · exact later entry inside
      · intro a outside
        simp only [List.map_cons,List.mem_cons,not_or] at outside
        rw [untouched a outside.2,written a,if_neg (Ne.symm outside.1)]

end Fallible
