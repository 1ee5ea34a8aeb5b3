import Mathlib.Algebra.Order.Ring.Nat
import Mathlib.Data.List.Basic

-- The unsigned varint: groups of seven bits, the lowest first, with a mark on
-- every byte but the last.
namespace Varint

inductive Fault where
  | insufficient
  | overflow
  | notMinimal
  deriving DecidableEq

def write : Nat → Nat → List UInt8
  | 0,_ => []
  | width+1,n => if n < 128 then [UInt8.ofNat n] else UInt8.ofNat (n % 128 + 128) :: write width (n / 128)

-- A last group of zero is refused unless it is the only one.
def read : (first : Bool) → Nat → List UInt8 → Except Fault (Nat × List UInt8)
  | _,0,_ => .error .overflow
  | _,_+1,[] => .error .insufficient
  | first,width+1,b :: bytes =>
    if b.toNat < 128 then if b.toNat = 0 ∧ first = false then .error .notMinimal else .ok (b.toNat,bytes)
    else match read false width bytes with
      | .ok (high,rest) => .ok (b.toNat - 128 + 128 * high,rest)
      | .error e => .error e

theorem marked_byte (n : Nat) : (UInt8.ofNat (n % 128 + 128)).toNat = n % 128 + 128 := by
  rw [UInt8.toNat_ofNat']
  omega

theorem last_byte {n : Nat} (small : n < 128) : (UInt8.ofNat n).toNat = n := by
  rw [UInt8.toNat_ofNat']
  omega

theorem write_nonempty {width n : Nat} (positive : 0 < width) : write width n ≠ [] := by
  cases width with
  | zero => cases positive
  | succ width =>
      unfold write
      split <;> simp

theorem group_step {width n : Nat} (fits : n < 128^(width+2)) (large : ¬ n < 128) : n / 128 < 128^(width+1) ∧ 0 < n / 128 := by
  constructor
  · rw [Nat.div_lt_iff_lt_mul (by decide),← pow_succ]
    exact fits
  · exact Nat.div_pos (Nat.le_of_not_lt large) (by decide)

theorem read_last {first : Bool} {width n : Nat} (rest : List UInt8) (small : n < 128) (minimal : 0 < n ∨ first = true) :
    read first (width+1) (UInt8.ofNat n :: rest) = .ok (n,rest) := by
  rw [read,last_byte small,if_pos small,if_neg]
  intro given
  obtain ⟨rfl,other⟩ := given
  rcases minimal with positive | only
  · cases positive
  · cases other.symm.trans only

theorem read_write {first : Bool} {width n : Nat} (rest : List UInt8) (fits : n < 128^(width+1))
    (minimal : 0 < n ∨ first = true) : read first (width+1) (write (width+1) n ++ rest) = .ok (n,rest) := by
  induction width generalizing first n with
  | zero =>
      rw [Nat.zero_add,pow_one] at fits
      rw [write,if_pos fits]
      exact read_last rest fits minimal
  | succ width ih =>
      rw [write]
      by_cases small : n < 128
      · rw [if_pos small]
        exact read_last rest small minimal
      · obtain ⟨below,positive⟩ := group_step fits small
        have later := @ih false (n / 128) below (.inl positive)
        rw [if_neg small,List.cons_append,read,marked_byte,if_neg (by omega),later]
        dsimp only
        congr 2
        omega

theorem read_part {first : Bool} {width n : Nat} {part more : List UInt8} (fits : n < 128^(width+1))
    (split : part ++ more = write (width+1) n) (missing : more ≠ []) :
    read first (width+1) part = .error .insufficient := by
  induction width generalizing first n part with
  | zero =>
      rw [Nat.zero_add,pow_one] at fits
      rw [write,if_pos fits] at split
      cases part with
      | nil => rfl
      | cons b part =>
          obtain ⟨_,empty⟩ := List.cons.inj split
          exact absurd (List.append_eq_nil_iff.mp empty).2 missing
  | succ width ih =>
      cases part with
      | nil => rfl
      | cons b part =>
          rw [write] at split
          by_cases small : n < 128
          · rw [if_pos small] at split
            obtain ⟨_,empty⟩ := List.cons.inj split
            exact absurd (List.append_eq_nil_iff.mp empty).2 missing
          · rw [if_neg small] at split
            obtain ⟨rfl,rest⟩ := List.cons.inj split
            rw [read,marked_byte,if_neg (by omega),ih (group_step fits small).1 rest]

end Varint
