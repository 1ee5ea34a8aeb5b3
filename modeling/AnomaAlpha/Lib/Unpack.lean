import Mathlib.Tactic.Ring
import AnomaAlpha.Lib.MessagePack
import AnomaAlpha.Lib.PrefixCode

-- Reading the heads of the MessagePack formats back, and telling apart what has been
-- written with them.
namespace MessagePack
open PrefixCode
variable {α : Type}

theorem bigEndian_length (width n : Nat) : (bigEndian width n).length = width := by
  induction width with
  | zero => rfl
  | succ width ih => rw [bigEndian,List.length_cons,ih]

theorem fold_bigEndian (width n start : Nat) :
    (bigEndian width n).foldl (fun n byte => n*256 + byte.toNat) start = start*256^width + n % 256^width := by
  induction width generalizing start with
  | zero => simp [bigEndian,Nat.mod_one]
  | succ width ih =>
      have digit : (UInt8.ofNat (n / 256^width)).toNat = n / 256^width % 256 := UInt8.toNat_ofNat'
      have split : n % 256^(width+1) = n % 256^width + 256^width * (n / 256^width % 256) := Nat.mod_mul
      rw [bigEndian,List.foldl_cons,ih,digit,split]
      ring

theorem of_bigEndian {width n : Nat} (small : n < 256^width) : ofBigEndian (bigEndian width n) = n := by
  rw [ofBigEndian,fold_bigEndian,Nat.zero_mul,Nat.zero_add,Nat.mod_eq_of_lt small]

def takeNat (width : Nat) (bytes : List UInt8) : Option (Nat × List UInt8) :=
  if width ≤ bytes.length then some (ofBigEndian (bytes.take width),bytes.drop width) else none

theorem takeNat_bigEndian {n : Nat} (width : Nat) (rest : List UInt8) (small : n < 256^width) :
    takeNat width (bigEndian width n ++ rest) = some (n,rest) := by
  have size := bigEndian_length width n
  rw [takeNat,if_pos (by rw [List.length_append]; omega),List.take_left' size,List.drop_left' size,of_bigEndian small]

-- A head with a short form in one byte from `low` on, and longer ones behind a marker.
def takeHead (low high one two four : Nat) : List UInt8 → Option (Nat × List UInt8)
  | [] => none
  | marker :: bytes =>
    if low ≤ marker.toNat ∧ marker.toNat < high then some (marker.toNat - low,bytes)
    else if marker.toNat = one then takeNat 1 bytes
    else if marker.toNat = two then takeNat 2 bytes
    else if marker.toNat = four then takeNat 4 bytes
    else none

def takeStrLen : List UInt8 → Option (Nat × List UInt8) := takeHead 0xa0 0xc0 0xd9 0xda 0xdb
def takeBinLen : List UInt8 → Option (Nat × List UInt8) := takeHead 0 0 0xc4 0xc5 0xc6
def takeArrayLen : List UInt8 → Option (Nat × List UInt8) := takeHead 0x90 0xa0 0x100 0xdc 0xdd
def takeMapLen : List UInt8 → Option (Nat × List UInt8) := takeHead 0x80 0x90 0x100 0xde 0xdf

def takeUint : List UInt8 → Option (Nat × List UInt8)
  | [] => none
  | marker :: bytes =>
    if marker = 0xcf then takeNat 8 bytes else takeHead 0 0x80 0xcc 0xcd 0xce (marker :: bytes)

theorem takeStrLen_strLen {n : Nat} (rest : List UInt8) (small : n < 2^32) : takeStrLen (strLen n ++ rest) = some (n,rest) := by
  unfold strLen takeStrLen
  split_ifs with tiny short long
  · have head : (UInt8.ofNat (0xa0+n)).toNat = 0xa0+n := by
      rw [UInt8.toNat_ofNat']
      omega
    rw [List.singleton_append,takeHead,head,if_pos (by omega),Nat.add_sub_cancel_left]
  · exact takeNat_bigEndian 1 rest short
  · exact takeNat_bigEndian 2 rest long
  · exact takeNat_bigEndian 4 rest small

theorem takeBinLen_binLen {n : Nat} (rest : List UInt8) (small : n < 2^32) : takeBinLen (binLen n ++ rest) = some (n,rest) := by
  unfold binLen takeBinLen
  split_ifs with short long
  · exact takeNat_bigEndian 1 rest short
  · exact takeNat_bigEndian 2 rest long
  · exact takeNat_bigEndian 4 rest small

theorem takeArrayLen_arrayLen {n : Nat} (rest : List UInt8) (small : n < 2^32) :
    takeArrayLen (arrayLen n ++ rest) = some (n,rest) := by
  unfold arrayLen takeArrayLen
  split_ifs with tiny long
  · have head : (UInt8.ofNat (0x90+n)).toNat = 0x90+n := by
      rw [UInt8.toNat_ofNat']
      omega
    rw [List.singleton_append,takeHead,head,if_pos (by omega),Nat.add_sub_cancel_left]
  · exact takeNat_bigEndian 2 rest long
  · exact takeNat_bigEndian 4 rest small

theorem takeMapLen_mapLen {n : Nat} (rest : List UInt8) (small : n < 2^32) : takeMapLen (mapLen n ++ rest) = some (n,rest) := by
  unfold mapLen takeMapLen
  split_ifs with tiny long
  · have head : (UInt8.ofNat (0x80+n)).toNat = 0x80+n := by
      rw [UInt8.toNat_ofNat']
      omega
    rw [List.singleton_append,takeHead,head,if_pos (by omega),Nat.add_sub_cancel_left]
  · exact takeNat_bigEndian 2 rest long
  · exact takeNat_bigEndian 4 rest small

theorem takeUint_uint {n : Nat} (rest : List UInt8) (small : n < 2^64) : takeUint (uint n ++ rest) = some (n,rest) := by
  unfold uint
  split_ifs with tiny short long longer
  · have head : (UInt8.ofNat n).toNat = n := by
      rw [UInt8.toNat_ofNat']
      omega
    have other : UInt8.ofNat n ≠ 0xcf := by
      intro same
      rw [same] at head
      have : (0xcf : UInt8).toNat = 0xcf := rfl
      omega
    rw [List.singleton_append,takeUint,if_neg other,takeHead,head,if_pos (by omega),Nat.sub_zero]
  · exact takeNat_bigEndian 1 rest short
  · exact takeNat_bigEndian 2 rest long
  · exact takeNat_bigEndian 4 rest longer
  · exact takeNat_bigEndian 8 rest small

theorem head_unique {len : Nat → List UInt8} {take : List UInt8 → Option (Nat × List UInt8)} {limit : Nat}
    (takes : ∀ {n} rest, n < limit → take (len n ++ rest) = some (n,rest)) {n m : Nat} {rest rest' : List UInt8}
    (small : n < limit) (small' : m < limit) (same : len n ++ rest = len m ++ rest') : n = m ∧ rest = rest' := by
  have found := takes rest small
  rw [same,takes rest' small'] at found
  cases found
  exact ⟨rfl,rfl⟩

theorem arrayLen_unique {n m : Nat} {rest rest' : List UInt8} (small : n < 2^32) (small' : m < 2^32)
    (same : arrayLen n ++ rest = arrayLen m ++ rest') : n = m ∧ rest = rest' :=
  head_unique takeArrayLen_arrayLen small small' same

theorem mapLen_unique {n m : Nat} {rest rest' : List UInt8} (small : n < 2^32) (small' : m < 2^32)
    (same : mapLen n ++ rest = mapLen m ++ rest') : n = m ∧ rest = rest' :=
  head_unique takeMapLen_mapLen small small' same

theorem uint_unique {n m : Nat} {rest rest' : List UInt8} (small : n < 2^64) (small' : m < 2^64)
    (same : uint n ++ rest = uint m ++ rest') : n = m ∧ rest = rest' :=
  head_unique takeUint_uint small small' same

def takeContent (take : List UInt8 → Option (Nat × List UInt8)) (bytes : List UInt8) : Option (List UInt8 × List UInt8) := do
  let (n,rest) ← take bytes
  if n ≤ rest.length then some (rest.take n,rest.drop n) else none

theorem takeContent_sized {len : Nat → List UInt8} {take : List UInt8 → Option (Nat × List UInt8)}
    (takes : ∀ {n} rest, n < 2^32 → take (len n ++ rest) = some (n,rest)) (content rest : List UInt8)
    (small : content.length < 2^32) : takeContent take (len content.length ++ content ++ rest) = some (content,rest) := by
  rw [takeContent,List.append_assoc,takes _ small]
  simp

def takeStr (bytes : List UInt8) : Option (String × List UInt8) := do
  let (content,rest) ← takeContent takeStrLen bytes
  let text ← String.fromUTF8? content.toByteArray
  some (text,rest)

theorem utf8_read (text : String) : String.fromUTF8? (text.toList.flatMap String.utf8EncodeChar).toByteArray = some text := by
  have same : (text.toList.flatMap String.utf8EncodeChar).toByteArray = text.toByteArray := by
    rw [← String.ofList_toList (s:=text),String.toByteArray_ofList]
    simp [List.utf8Encode]
  rw [String.fromUTF8?,same,dif_pos text.isValidUTF8]
  rfl

theorem takeStr_str (text : String) (rest : List UInt8) (small : (str text).length < 2^32) :
    takeStr (str text ++ rest) = some (text,rest) := by
  unfold str at small ⊢
  rw [List.length_append] at small
  rw [takeStr,takeContent_sized takeStrLen_strLen _ rest (by omega)]
  simp [utf8_read]

theorem unique_str : Unique (2^32) str := unique_read takeStr takeStr_str

theorem count_small {write : α → List UInt8} {items : List α} {size : Nat} (filled : ∀ a, write a ≠ [])
    (small : (items.flatMap write).length < size) : items.length < size := by
  refine lt_of_le_of_lt ?_ small
  induction items with
  | nil => simp
  | cons a items ih =>
      have first := List.length_pos_iff.mpr (filled a)
      rw [List.flatMap_cons,List.length_append] at small ⊢
      have later := ih (by omega)
      rw [List.length_cons]
      omega

theorem counted_unique {len : Nat → List UInt8} {write : α → List UInt8} {items items' : List α} {rest rest' : List UInt8}
    (heads : ∀ {n m rest rest'}, n < 2^32 → m < 2^32 → len n ++ rest = len m ++ rest' → n = m ∧ rest = rest')
    (filled : ∀ a, write a ≠ []) (apart : ∀ a ∈ items, ∀ b ∈ items', Apart (2^32) write a b)
    (small : (len items.length ++ items.flatMap write).length < 2^32)
    (small' : (len items'.length ++ items'.flatMap write).length < 2^32)
    (same : len items.length ++ items.flatMap write ++ rest = len items'.length ++ items'.flatMap write ++ rest') :
    items = items' ∧ rest = rest' := by
  rw [List.length_append] at small small'
  rw [List.append_assoc,List.append_assoc] at same
  have few := count_small filled (show (items.flatMap write).length < 2^32 by omega)
  have few' := count_small filled (show (items'.flatMap write).length < 2^32 by omega)
  obtain ⟨count,tail⟩ := heads few few' same
  exact apart_items apart (by omega) (by omega) count tail

theorem array_apart {write : α → List UInt8} {items items' : List α} (filled : ∀ a, write a ≠ [])
    (apart : ∀ a ∈ items, ∀ b ∈ items', Apart (2^32) write a b) :
    Apart (2^32) (fun items => array (items.map write)) items items' := by
  intro rest rest' small small' same
  simp only [array,List.length_map,← List.flatMap_def] at small small' same
  exact counted_unique arrayLen_unique filled apart small small' same

theorem map_apart {key : α → List UInt8} {value : α → List UInt8} {entries entries' : List α}
    (filled : ∀ a, key a ++ value a ≠ [])
    (apart : ∀ a ∈ entries, ∀ b ∈ entries', Apart (2^32) (fun a => key a ++ value a) a b) :
    Apart (2^32) (fun entries => map (entries.map fun a => (key a,value a))) entries entries' := by
  intro rest rest' small small' same
  simp only [map,List.length_map,List.flatMap_map] at small small' same
  exact counted_unique mapLen_unique filled apart small small' same

end MessagePack
