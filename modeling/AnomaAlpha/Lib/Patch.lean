import Mathlib.Algebra.BigOperators.Group.List.Basic
import Mathlib.Data.List.Induction

-- A patch leaves a key alone, writes a value to it, or removes it. Patches
-- compose with the newer one on the right.
def Patch (K V : Type*) := K → Option (Option V)

namespace Patch
variable {K V : Type*}

instance : Mul (Patch K V) := ⟨fun older newer k => (newer k).or (older k)⟩
instance : One (Patch K V) := ⟨fun _ => none⟩

theorem mul_at (older newer : Patch K V) (k : K) : (older * newer) k = (newer k).or (older k) := rfl
theorem one_at (k : K) : (1 : Patch K V) k = none := rfl

instance : Monoid (Patch K V) where
  mul_assoc a b c := by funext k; simp only [mul_at]; rw [Option.or_assoc]
  one_mul a := by funext k; simp only [mul_at,one_at]; exact Option.or_none
  mul_one a := by funext k; simp only [mul_at,one_at]; exact Option.none_or

def apply (base : K → Option V) (p : Patch K V) : K → Option V := fun k => (p k).getD (base k)

-- The view that reads through a patch but cannot tell a removal from silence.
def overlay (base : K → Option V) (p : Patch K V) : K → Option V := fun k => ((p k).join).or (base k)

theorem apply_mul (base : K → Option V) (older newer : Patch K V) :
    apply base (older * newer) = apply (apply base older) newer := by
  funext k
  simp only [apply,mul_at]
  cases newer k <;> simp

theorem apply_one (base : K → Option V) : apply base 1 = base := rfl

theorem apply_prod (base : K → Option V) (ps : List (Patch K V)) :
    apply base ps.prod = ps.foldl apply base := by
  induction ps generalizing base with
  | nil => rfl
  | cons p ps ih => rw [List.prod_cons,apply_mul,ih,List.foldl_cons]

-- Of patches taken in a row the newest one that mentions a key is seen there.
theorem prod_last {I : Type*} (patches : I → Option (Patch K V)) (l : List I) (k : K) :
    (l.filterMap patches).prod k =
      (l.filter fun i => ((patches i).bind (· k)).isSome).getLast?.bind fun i => (patches i).bind (· k) := by
  induction l using List.reverseRecOn with
  | nil => rfl
  | append_singleton l i ih =>
      rw [List.filterMap_append,List.prod_append,mul_at,ih,List.filter_append]
      cases patched : patches i with
      | none => simp [patched,one_at]
      | some p =>
          cases written : p k with
          | none => simp [patched,written]
          | some value => simp [patched,written]

theorem commute_apart {p q : Patch K V} (apart : ∀ k, p k = none ∨ q k = none) : Commute p q := by
  funext k
  rw [mul_at,mul_at]
  rcases apart k with silent | silent <;> simp [silent]

theorem overlay_eq_apply (base : K → Option V) (p : Patch K V) (k : K) :
    overlay base p k = apply base p k ↔ ¬ (p k = some none ∧ base k ≠ none) := by
  simp only [overlay,apply]
  cases p k with
  | none => simp
  | some written => cases written <;> simp

end Patch
