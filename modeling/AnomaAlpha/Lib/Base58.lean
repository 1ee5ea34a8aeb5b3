import Mathlib.Data.List.Induction
import Mathlib.Data.List.Nodup
import Mathlib.Data.List.TakeWhile
import Mathlib.Data.Nat.Digits.Lemmas

namespace Base58

-- The Bitcoin alphabet.
def alphabet : List Char := "123456789ABCDEFGHJKLMNPQRSTUVWXYZabcdefghijkmnopqrstuvwxyz".toList

-- What an encoder promises: texts over the alphabet that can be decoded.
structure Encoding where
  encode : List UInt8 → String
  alphabetic : ∀ bytes, ∀ c ∈ (encode bytes).toList, c ∈ alphabet
  nonempty : ∀ bytes, bytes ≠ [] → (encode bytes).toList ≠ []
  injective : Function.Injective encode

-- One that keeps to it: the bytes as one big-endian number, behind a `1` for every
-- leading zero byte.
section

def symbol (digit : Nat) : Char := alphabet.getD digit '1'

def value (bytes : List UInt8) : Nat := bytes.foldl (fun n byte => n*256 + byte.toNat) 0

def encode (bytes : List UInt8) : String :=
  String.ofList ((bytes.takeWhile (· == 0)).map (fun _ => '1') ++
    (Nat.digits 58 (value bytes)).reverse.map symbol)

theorem symbol_mem (digit : Nat) : symbol digit ∈ alphabet := by
  rw [symbol,List.getD_eq_getElem?_getD]
  cases found : alphabet[digit]? with
  | none => decide
  | some c => exact List.mem_of_getElem? found

theorem encode_alphabet (bytes : List UInt8) : ∀ c ∈ (encode bytes).toList, c ∈ alphabet := by
  intro c member
  rw [encode,String.toList_ofList,List.mem_append,List.mem_map,List.mem_map] at member
  rcases member with ⟨_,_,rfl⟩ | ⟨digit,_,rfl⟩
  · decide
  · exact symbol_mem digit

theorem le_fold (bytes : List UInt8) (n : Nat) : n ≤ bytes.foldl (fun n byte => n*256 + byte.toNat) n := by
  induction bytes generalizing n with
  | nil => exact Nat.le_refl n
  | cons byte bytes ih => exact Nat.le_trans (by omega) (ih (n*256 + byte.toNat))

theorem encode_nonempty {bytes : List UInt8} (nonempty : bytes ≠ []) : (encode bytes).toList ≠ [] := by
  rw [encode,String.toList_ofList]
  cases bytes with
  | nil => exact absurd rfl nonempty
  | cons byte bytes =>
      by_cases zero : byte = 0
      · simp [zero]
      · have positive : byte.toNat ≠ 0 := fun same => zero (UInt8.toNat_inj.mp same)
        have above := le_fold bytes (0*256 + byte.toNat)
        have large : value (byte :: bytes) ≠ 0 := by
          simp only [value,List.foldl_cons]
          omega
        simp only [ne_eq,List.append_eq_nil_iff,List.map_eq_nil_iff,List.reverse_eq_nil_iff,not_and]
        exact fun _ => Nat.digits_ne_nil_iff_ne_zero.mpr large

theorem symbol_injective {d e : Nat} (left : d < 58) (right : e < 58) (same : symbol d = symbol e) : d = e := by
  have size : alphabet.length = 58 := by decide
  have distinct : alphabet.Nodup := by decide
  rw [← size] at left right
  simp only [symbol,List.getD_eq_getElem?_getD,List.getElem?_eq_getElem left,List.getElem?_eq_getElem right,
    Option.getD_some] at same
  exact (List.Nodup.getElem_inj_iff distinct).mp same

theorem symbols_injective {l m : List Nat} (left : ∀ d ∈ l, d < 58) (right : ∀ d ∈ m, d < 58)
    (same : l.map symbol = m.map symbol) : l = m := by
  induction l generalizing m with
  | nil => exact (List.map_eq_nil_iff.mp same.symm).symm
  | cons d l ih =>
      cases m with
      | nil => cases same
      | cons e m =>
          obtain ⟨first,rest⟩ := List.cons.inj same
          rw [symbol_injective (left d (by simp)) (right e (by simp)) first,
            ih (fun x member => left x (List.mem_cons_of_mem _ member))
              (fun x member => right x (List.mem_cons_of_mem _ member)) rest]

theorem value_snoc (bytes : List UInt8) (byte : UInt8) : value (bytes ++ [byte]) = value bytes * 256 + byte.toNat := by
  simp [value]

theorem value_digits (bytes : List UInt8) : value bytes = Nat.ofDigits 256 (bytes.reverse.map UInt8.toNat) := by
  induction bytes using List.reverseRecOn with
  | nil => rfl
  | append_singleton bytes byte ih =>
      rw [value_snoc,ih,List.reverse_append,List.reverse_singleton,List.singleton_append,List.map_cons,Nat.ofDigits_cons]
      omega

theorem value_drop (bytes : List UInt8) : value (bytes.dropWhile (· == 0)) = value bytes := by
  induction bytes with
  | nil => rfl
  | cons byte bytes ih =>
      rw [List.dropWhile_cons]
      split
      · rename_i zero
        rw [beq_iff_eq.mp zero,ih]
        rfl
      · rfl

theorem digits_value {byte : UInt8} (nonzero : byte ≠ 0) (bytes : List UInt8) :
    Nat.digits 256 (value (byte :: bytes)) = (byte :: bytes).reverse.map UInt8.toNat := by
  rw [value_digits]
  refine Nat.digits_ofDigits 256 (by decide) _ (fun digit member => ?_) fun filled => ?_
  · obtain ⟨other,_,rfl⟩ := List.mem_map.mp member
    exact other.toNat_lt
  · simpa [UInt8.ext_iff] using nonzero

theorem value_injective {a b : List UInt8} (same : value (a.dropWhile (· == 0)) = value (b.dropWhile (· == 0))) :
    a.dropWhile (· == 0) = b.dropWhile (· == 0) := by
  have digits : ∀ bytes : List UInt8, Nat.digits 256 (value (bytes.dropWhile (· == 0))) =
      (bytes.dropWhile (· == 0)).reverse.map UInt8.toNat := by
    intro bytes
    cases kept : bytes.dropWhile (· == 0) with
    | nil => simp [value]
    | cons byte rest =>
        refine digits_value ?_ rest
        have first := List.head?_dropWhile_not (· == 0) bytes
        rw [kept] at first
        simpa using first
  have lists := (digits a).symm.trans ((congrArg _ same).trans (digits b))
  have reversed := List.map_injective_iff.mpr (fun _ _ => UInt8.toNat_inj.mp) lists
  exact List.reverse_injective reversed

theorem digits_front (n : Nat) : ((Nat.digits 58 n).reverse.map symbol).takeWhile (· == '1') = [] := by
  cases shown : (Nat.digits 58 n).reverse with
  | nil => rfl
  | cons digit rest =>
      have filled : Nat.digits 58 n ≠ [] := by
        intro empty
        rw [empty] at shown
        cases shown
      have top := Nat.getLast_digit_ne_zero 58 (Nat.digits_ne_nil_iff_ne_zero.mp filled)
      have last : (Nat.digits 58 n).getLast filled = digit := by
        rw [← List.head_reverse (by simpa using filled)]
        simp [shown]
      have small : digit < 58 := Nat.digits_lt_base (by decide) (last ▸ List.getLast_mem filled)
      have other : symbol digit ≠ '1' := fun same => top (last.trans (symbol_injective small (by decide) same))
      rw [List.map_cons,List.takeWhile_cons_of_neg (by simpa using other)]

theorem zeros_replicate (bytes : List UInt8) :
    bytes.takeWhile (· == 0) = List.replicate (bytes.takeWhile (· == 0)).length 0 :=
  List.eq_replicate_iff.mpr ⟨rfl,fun byte member => by simpa using List.mem_takeWhile_imp member⟩

theorem encode_injective : Function.Injective encode := by
  intro a b same
  have texts := congrArg String.toList same
  rw [encode,encode,String.toList_ofList,String.toList_ofList] at texts
  have ones : ∀ zeros : List UInt8, ∀ c ∈ zeros.map (fun _ => '1'), (c == '1') = true := by simp
  have fronts := congrArg (List.takeWhile (· == '1')) texts
  rw [List.takeWhile_append_of_pos (ones _),List.takeWhile_append_of_pos (ones _),digits_front,digits_front,
    List.append_nil,List.append_nil] at fronts
  rw [fronts,List.append_right_inj,List.map_reverse,List.map_reverse,List.reverse_inj] at texts
  have digits : Nat.digits 58 (value a) = Nat.digits 58 (value b) :=
    symbols_injective (fun _ member => Nat.digits_lt_base (by decide) member)
      (fun _ member => Nat.digits_lt_base (by decide) member) texts
  have values : value (a.dropWhile (· == 0)) = value (b.dropWhile (· == 0)) := by
    rw [value_drop,value_drop,← Nat.ofDigits_digits 58 (value a),digits,Nat.ofDigits_digits]
  have sizes : (a.takeWhile (· == 0)).length = (b.takeWhile (· == 0)).length := by
    simpa using congrArg List.length fronts
  have zeros : a.takeWhile (· == 0) = b.takeWhile (· == 0) := by
    rw [zeros_replicate a,zeros_replicate b,sizes]
  calc a
    _ = a.takeWhile (· == 0) ++ a.dropWhile (· == 0) := List.takeWhile_append_dropWhile.symm
    _ = b.takeWhile (· == 0) ++ b.dropWhile (· == 0) := by rw [zeros,value_injective values]
    _ = b := List.takeWhile_append_dropWhile

def bitcoin : Encoding := ⟨encode,encode_alphabet,fun _ => encode_nonempty,encode_injective⟩

end

end Base58
