import AnomaAlpha.Predicate
import AnomaAlpha.Lib.Patch

set_option linter.unusedSectionVars false

namespace AnomaAlpha
open OrderedMap

-- A `&dyn State` that is only read is what its `get` answers.
abbrev View (A : Type := Address) := A → Option (Account A)

structure StateDiff (A : Type := Address) [Ord A] where
  upserts : BTreeMap A (Account A)
  deletes : BTreeSet A

section
variable {A : Type} [DecidableEq A] [Ord A] [Std.TransOrd A] [Std.LawfulEqOrd A]

namespace StateDiff

instance : Inhabited (StateDiff A) := ⟨⟨∅,∅⟩⟩

instance : DecidableEq (StateDiff A) := fun left right =>
  decidable_of_iff (left.upserts = right.upserts ∧ left.deletes = right.deletes) <| by
    cases left; cases right; simp

-- Both mutators also return the account that the diff held at the address.
def set (d : StateDiff A) (address : A) (account : Account A) : StateDiff A × Option (Account A) :=
  (⟨d.upserts.insert address account,d.deletes.erase address⟩,d.upserts[address]?)

def remove (d : StateDiff A) (address : A) : StateDiff A × Option (Account A) :=
  (⟨d.upserts.erase address,d.deletes.insert address⟩,d.upserts[address]?)

def merge (self newer : StateDiff A) : StateDiff A :=
  let upserted := newer.upserts.toList.foldl
    (fun s entry => (s.1.insert entry.1 entry.2,s.2.erase entry.1)) (self.upserts,self.deletes)
  let deleted := newer.deletes.toList.foldl (fun s addr => (s.1.erase addr,s.2.insert addr)) upserted
  ⟨deleted.1,deleted.2⟩

def iter (d : StateDiff A) : List (A × Option (Account A)) :=
  d.upserts.toList.map (fun entry => (entry.1,some entry.2)) ++ d.deletes.toList.map fun addr => (addr,none)

-- `State for StateDiff`.
def get (d : StateDiff A) : View A := fun address => d.upserts[address]?
def apply (self diff : StateDiff A) : StateDiff A := self.merge diff

-- `reduce(|acc, e| acc.merge(e)).unwrap_or_default()`.
def mergeAll : List (StateDiff A) → StateDiff A
  | [] => default
  | d :: ds => ds.foldl merge d

end StateDiff

structure InMemoryStateStore (A : Type := Address) [Ord A] where
  data : Std.ExtTreeMap A (Account A)

namespace InMemoryStateStore

def get (s : InMemoryStateStore A) : View A := fun address => s.data[address]?

def apply (s : InMemoryStateStore A) (diff : StateDiff A) : InMemoryStateStore A :=
  ⟨diff.deletes.toList.foldl (fun data addr => data.erase addr)
    (diff.upserts.toList.foldl (fun data entry => data.insert entry.1 entry.2) s.data)⟩

end InMemoryStateStore

structure Overlayed (A : Type := Address) where
  base : View A
  overlay : View A

def Overlayed.get (s : Overlayed A) : View A := fun address =>
  match s.overlay address with
  | none => s.base address
  | some value => some value

namespace StateDiff

-- What a diff says about every address. A deletion wins over an upsert, as it
-- does in both loops of `merge` and of `apply`.
def patch (d : StateDiff A) : Patch A (Account A) := fun address =>
  if address ∈ d.deletes then some none else (d.upserts[address]?).map some

def Separate (d : StateDiff A) : Prop := ∀ address, ¬ (address ∈ d.deletes ∧ d.upserts[address]? ≠ none)

inductive Reachable : StateDiff A → Prop where
  | default : Reachable default
  | set : Reachable d → Reachable (d.set address account).1
  | remove : Reachable d → Reachable (d.remove address).1
  | merge : Reachable d → Reachable e → Reachable (d.merge e)
  | apply : Reachable d → Reachable e → Reachable (d.apply e)

variable {d e : StateDiff A} {address : A} {account : Account A}

theorem patch_default : patch (A:=A) default = 1 := by
  funext address
  simp [patch,default,Patch.one_at]

-- The two loops of `merge` act on the upserts and on the deletes separately.
theorem merge_split (d e : StateDiff A) : d.merge e =
    ⟨e.deletes.toList.foldl (fun m addr => m.erase addr)
        (e.upserts.toList.foldl (fun m entry => m.insert entry.1 entry.2) d.upserts),
      e.deletes.toList.foldl (fun s addr => s.insert addr)
        (e.upserts.toList.foldl (fun s entry => s.erase entry.1) d.deletes)⟩ := by
  have upserted := foldl_pair (fun (m : BTreeMap A (Account A)) (entry : A × Account A) =>
    m.insert entry.1 entry.2) (fun (s : BTreeSet A) entry => s.erase entry.1)
    e.upserts.toList d.upserts d.deletes
  have deleted := fun (m : BTreeMap A (Account A)) (s : BTreeSet A) =>
    foldl_pair (fun m addr => m.erase addr) (fun s addr => s.insert addr) e.deletes.toList m s
  simp only [merge]
  rw [upserted,deleted]

theorem merge_upserts (d e : StateDiff A) (address : A) :
    (d.merge e).upserts[address]? = if address ∈ e.deletes then none
      else (e.upserts[address]?).or d.upserts[address]? := by
  simp only [merge_split,get_eraseAll,get_insertAll,Std.ExtTreeSet.mem_toList]

theorem merge_deletes (d e : StateDiff A) (address : A) :
    address ∈ (d.merge e).deletes ↔
      address ∈ e.deletes ∨ address ∈ d.deletes ∧ e.upserts[address]? = none := by
  rw [merge_split,mem_insertAll,mem_eraseAll,Std.ExtTreeSet.mem_toList,mem_keys_iff,
    Option.eq_none_iff_forall_ne_some,not_exists]

theorem patch_merge (d e : StateDiff A) : (d.merge e).patch = d.patch * e.patch := by
  funext address
  simp only [patch,Patch.mul_at,merge_upserts,merge_deletes]
  by_cases newer : address ∈ e.deletes
  · simp [newer]
  · cases e.upserts[address]? <;> by_cases older : address ∈ d.deletes <;> simp [newer,older]

theorem apply_silent (d : StateDiff A) {e : StateDiff A} (silent : e.patch address = none) :
    (d.apply e).get address = d.get address := by
  simp only [get,apply,merge_upserts]
  by_cases deleted : address ∈ e.deletes
  · simp [patch,deleted] at silent
  · cases found : e.upserts[address]? with
    | none => simp [deleted]
    | some acc => simp [patch,deleted,found] at silent

theorem default_separate : Separate (A:=A) default := by
  intro address
  simp [default]

theorem set_separate (separate : Separate d) : Separate (d.set address account).1 := by
  intro other
  have before := separate other
  by_cases same : address = other <;> simp_all [set]

theorem remove_separate (separate : Separate d) : Separate (d.remove address).1 := by
  intro other
  have before := separate other
  by_cases same : address = other <;> simp_all [remove]

theorem merge_separate (older : Separate d) (newer : Separate e) : Separate (d.merge e) := by
  intro address
  have before := older address
  have after := newer address
  rw [merge_upserts,merge_deletes]
  by_cases deleted : address ∈ e.deletes <;> simp_all

theorem reachable_separate (reached : Reachable d) : Separate d := by
  induction reached with
  | default => exact default_separate
  | set _ ih => exact set_separate ih
  | remove _ ih => exact remove_separate ih
  | merge _ _ older newer => exact merge_separate older newer
  | apply _ _ older newer => exact merge_separate older newer

theorem Separate.deleted (separate : Separate d) (deleted : address ∈ d.deletes) :
    d.upserts[address]? = none := by
  by_contra upserted
  exact separate address ⟨deleted,upserted⟩

theorem patch_injective (left : Separate d) (right : Separate e) (same : d.patch = e.patch) : d = e := by
  have pointwise : ∀ address, d.upserts[address]? = e.upserts[address]? ∧
      (address ∈ d.deletes ↔ address ∈ e.deletes) := by
    intro address
    have here := congrFun same address
    simp only [patch] at here
    by_cases dd : address ∈ d.deletes <;> by_cases ed : address ∈ e.deletes
    · exact ⟨by rw [left.deleted dd,right.deleted ed],by simp [dd,ed]⟩
    · cases found : e.upserts[address]? <;> simp [dd,ed,found] at here
    · cases found : d.upserts[address]? <;> simp [dd,ed,found] at here
    · simp only [dd,ed,if_false] at here
      exact ⟨Option.map_injective (fun _ _ equal => Option.some.inj equal) here,by simp [dd,ed]⟩
  cases d; cases e
  congr
  · exact Std.ExtTreeMap.ext_getElem? fun address => (pointwise address).1
  · exact Std.ExtTreeSet.ext_mem fun address => (pointwise address).2

theorem foldl_patch (ds : List (StateDiff A)) (d : StateDiff A) :
    (ds.foldl merge d).patch = d.patch * (ds.map patch).prod := by
  induction ds generalizing d with
  | nil => simp
  | cons e ds ih => rw [List.foldl_cons,ih,patch_merge,List.map_cons,List.prod_cons,mul_assoc]

theorem mergeAll_patch (ds : List (StateDiff A)) : (mergeAll ds).patch = (ds.map patch).prod := by
  cases ds with
  | nil => exact patch_default
  | cons d ds => rw [mergeAll,foldl_patch,List.map_cons,List.prod_cons]

end StateDiff

open StateDiff

-- `apply` of a store is the action of what the diff says on what the store holds.
theorem InMemoryStateStore.apply_get (s : InMemoryStateStore A) (d : StateDiff A) :
    (s.apply d).get = Patch.apply s.get d.patch := by
  funext address
  simp only [InMemoryStateStore.get,InMemoryStateStore.apply,Patch.apply,patch,get_eraseAll,get_insertAll,
    Std.ExtTreeSet.mem_toList]
  by_cases deleted : address ∈ d.deletes
  · simp [deleted]
  · cases d.upserts[address]? <;> simp [deleted]

theorem InMemoryStateStore.ext_get {one two : InMemoryStateStore A} (same : one.get = two.get) : one = two := by
  cases one
  cases two
  congr
  exact Std.ExtTreeMap.ext_getElem? fun a => congrFun same a

theorem InMemoryStateStore.foldl_get (s : InMemoryStateStore A) (ds : List (StateDiff A)) :
    (ds.foldl InMemoryStateStore.apply s).get = (ds.map patch).foldl Patch.apply s.get := by
  induction ds generalizing s with
  | nil => rfl
  | cons d ds ih => rw [List.foldl_cons,ih,apply_get,List.map_cons,List.foldl_cons]

theorem Overlayed.get_patch {d : StateDiff A} (base : View A) (separate : Separate d) :
    (Overlayed.mk base d.get).get = Patch.overlay base d.patch := by
  funext address
  simp only [Overlayed.get,StateDiff.get,Patch.overlay,patch]
  by_cases deleted : address ∈ d.deletes
  · simp [deleted,separate.deleted deleted]
  · cases d.upserts[address]? <;> simp [deleted]

end

open StateDiff

theorem merged_diff_acts_as_sequence :
    (∀ d : StateDiff, Reachable d → ∀ address, ¬ (address ∈ d.deletes ∧ d.upserts[address]? ≠ none)) ∧
    (∀ (ds : List StateDiff) (s : InMemoryStateStore), (∀ d ∈ ds, Reachable d) → ∀ address,
      (s.apply (mergeAll ds)).get address = (ds.foldl InMemoryStateStore.apply s).get address) ∧
    (∀ a b c : StateDiff, Reachable a → Reachable b → Reachable c → (a.merge b).merge c = a.merge (b.merge c)) ∧
    (∀ d : StateDiff, Reachable d → StateDiff.merge default d = d ∧ d.merge default = d) := by
  refine ⟨fun d => reachable_separate,?_,?_,?_⟩
  · intro ds s _ address
    rw [InMemoryStateStore.apply_get,InMemoryStateStore.foldl_get,mergeAll_patch,Patch.apply_prod]
  · intro a b c ra rb rc
    apply patch_injective (reachable_separate (.merge (.merge ra rb) rc))
      (reachable_separate (.merge ra (.merge rb rc)))
    simp only [patch_merge,mul_assoc]
  · intro d rd
    constructor
    · apply patch_injective (reachable_separate (.merge .default rd)) (reachable_separate rd)
      rw [patch_merge,patch_default,one_mul]
    · apply patch_injective (reachable_separate (.merge rd .default)) (reachable_separate rd)
      rw [patch_merge,patch_default,mul_one]

namespace StateExample
def addr1 : Address := ⟨"/test/addr1",by decide⟩
def account : Account := ⟨[0,1],.id ⟨.inline [115],[]⟩⟩
def store : InMemoryStateStore := ⟨(∅ : BTreeMap Address Account).insert addr1 account⟩
def creation : StateDiff := (StateDiff.set default addr1 account).1
def removal : StateDiff := (StateDiff.remove default addr1).1
end StateExample

theorem merged_create_then_remove :
    (Reachable StateExample.creation ∧ Reachable StateExample.removal) ∧
    (StateExample.store.apply (mergeAll [StateExample.creation,StateExample.removal])).get StateExample.addr1 =
      (InMemoryStateStore.apply (InMemoryStateStore.apply StateExample.store StateExample.creation)
        StateExample.removal).get StateExample.addr1 ∧
    StateExample.removal.merge default = StateExample.removal := by
  have created : Reachable StateExample.creation := .set .default
  have removed : Reachable StateExample.removal := .remove .default
  refine ⟨⟨created,removed⟩,?_,(merged_diff_acts_as_sequence.2.2.2 _ removed).2⟩
  exact merged_diff_acts_as_sequence.2.1 [StateExample.creation,StateExample.removal] StateExample.store
    (by simp [created,removed]) StateExample.addr1

-- `StateDiff::get` answers `None` for a deleted address, and `Overlayed::get`
-- takes every `None` as leave to ask the base.
theorem overlay_sees_applied (base : InMemoryStateStore) (d : StateDiff) (reached : Reachable d) :
    (∀ address, (Overlayed.mk base.get d.get).get address = (base.apply d).get address ↔
      ¬ (address ∈ d.deletes ∧ base.get address ≠ none)) ∧
    ((Overlayed.mk base.get d.get).get = (base.apply d).get ↔
      ∀ address ∈ d.deletes, base.get address = none) := by
  have pointwise : ∀ address, (Overlayed.mk base.get d.get).get address = (base.apply d).get address ↔
      ¬ (address ∈ d.deletes ∧ base.get address ≠ none) := by
    intro address
    rw [Overlayed.get_patch base.get (reachable_separate reached),InMemoryStateStore.apply_get,
      Patch.overlay_eq_apply]
    have silent : d.patch address = some none ↔ address ∈ d.deletes := by
      by_cases deleted : address ∈ d.deletes <;> simp [patch,deleted]
    rw [silent]
  refine ⟨pointwise,?_⟩
  rw [funext_iff]
  constructor
  · intro same address deleted
    by_contra present
    exact (pointwise address).mp (same address) ⟨deleted,present⟩
  · intro absent address
    exact (pointwise address).mpr fun ⟨deleted,present⟩ => present (absent address deleted)

theorem overlay_sees_created : Reachable StateExample.creation ∧
    (Overlayed.mk StateExample.store.get StateExample.creation.get).get =
      (StateExample.store.apply StateExample.creation).get := by
  have created : Reachable StateExample.creation := .set .default
  refine ⟨created,(overlay_sees_applied StateExample.store StateExample.creation created).2.mpr ?_⟩
  intro address deleted
  have empty : StateExample.creation.deletes = ∅ := by decide
  simp [empty] at deleted

theorem overlay_resurrects_deleted : Reachable StateExample.removal ∧
    (Overlayed.mk StateExample.store.get StateExample.removal.get).get StateExample.addr1 =
      some StateExample.account ∧
    (StateExample.store.apply StateExample.removal).get StateExample.addr1 = none :=
  ⟨.remove .default,by decide,by decide⟩

end AnomaAlpha
