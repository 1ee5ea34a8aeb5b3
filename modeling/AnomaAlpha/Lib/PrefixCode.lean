import Mathlib.Data.List.Basic

-- Ways to write values that can be told apart wherever they stand in front of other
-- bytes, as long as less than `size` bytes are written.
namespace PrefixCode
variable {α β : Type} {size : Nat}

def Apart (size : Nat) (write : α → List UInt8) (a b : α) : Prop :=
  ∀ rest rest', (write a).length < size → (write b).length < size → write a ++ rest = write b ++ rest' →
    a = b ∧ rest = rest'

def Unique (size : Nat) (write : α → List UInt8) : Prop := ∀ a b, Apart size write a b

theorem Apart.same {write : α → List UInt8} {a b : α} (apart : Apart size write a b) (small : (write a).length < size)
    (same : write a = write b) : a = b :=
  (apart [] [] small (same ▸ small) (congrArg (· ++ []) same)).1

theorem unique_read {write : α → List UInt8} (read : List UInt8 → Option (α × List UInt8))
    (reads : ∀ a rest, (write a).length < size → read (write a ++ rest) = some (a,rest)) : Unique size write := by
  intro a b rest rest' small small' same
  have found := reads a rest small
  rw [same,reads b rest' small'] at found
  cases found
  exact ⟨rfl,rfl⟩

theorem Unique.comap {write : β → List UInt8} (unique : Unique size write) {f : α → β} (injective : Function.Injective f) :
    Unique size fun a => write (f a) := by
  intro a b rest rest' small small' same
  obtain ⟨value,rest⟩ := unique _ _ rest rest' small small' same
  exact ⟨injective value,rest⟩

theorem Apart.seq {first : α → List UInt8} {second : β → List UInt8} {a b : α × β} (apart : Apart size first a.1 b.1)
    (apart' : Apart size second a.2 b.2) : Apart size (fun pair : α × β => first pair.1 ++ second pair.2) a b := by
  intro rest rest' small small' same
  rw [List.length_append] at small small'
  rw [List.append_assoc,List.append_assoc] at same
  obtain ⟨left,tail⟩ := apart _ _ (by omega) (by omega) same
  obtain ⟨right,rest⟩ := apart' _ _ (by omega) (by omega) tail
  exact ⟨Prod.ext left right,rest⟩

theorem Apart.front {write : α → List UInt8} {a b : α} (apart : Apart size write a b) (front : List UInt8) :
    Apart size (fun a => front ++ write a) a b := by
  intro rest rest' small small' same
  rw [List.length_append] at small small'
  rw [List.append_assoc,List.append_assoc] at same
  exact apart _ _ (by omega) (by omega) (List.append_cancel_left same)

theorem apart_items {write : α → List UInt8} {items items' : List α} {rest rest' : List UInt8}
    (apart : ∀ a ∈ items, ∀ b ∈ items', Apart size write a b) (small : (items.flatMap write).length < size)
    (small' : (items'.flatMap write).length < size) (count : items.length = items'.length)
    (same : items.flatMap write ++ rest = items'.flatMap write ++ rest') : items = items' ∧ rest = rest' := by
  induction items generalizing items' with
  | nil =>
      rw [List.length_nil,eq_comm,List.length_eq_zero_iff] at count
      subst count
      exact ⟨rfl,same⟩
  | cons a items ih => cases items' with
    | nil => cases count
    | cons b items' =>
        rw [List.flatMap_cons,List.length_append] at small small'
        rw [List.flatMap_cons,List.flatMap_cons,List.append_assoc,List.append_assoc] at same
        obtain ⟨rfl,tail⟩ := apart a (by simp) b (by simp) _ _ (by omega) (by omega) same
        have later : ∀ a ∈ items, ∀ b ∈ items', Apart size write a b :=
          fun a member b member' => apart a (by simp [member]) b (by simp [member'])
        obtain ⟨rfl,rest⟩ := ih later (by omega) (by omega) (Nat.succ.inj count) tail
        exact ⟨rfl,rest⟩

end PrefixCode
