import Mathlib.Algebra.Order.Ring.Nat
import Mathlib.Data.List.Sort

namespace AnomaAlpha

inductive AddressError where
  | emptyPath
  | emptyPathSegment
  | missingStartingSlash
  | invalidEndingSlash
  | invalidCharacter (c : Char)
  deriving DecidableEq, Repr

def allowedSymbols : List Char := ['.','-','_']

def allowedChar (c : Char) : Bool :=
  c.isAlphanum || c == '/' || allowedSymbols.any (· == c)

-- The `for c in chars` loop of `Address::new`; the state is `segment_len`.
def scanSegments : Nat → List Char → Except AddressError Nat
  | segmentLen,[] => .ok segmentLen
  | segmentLen,c :: chars =>
    if c = '/' ∧ segmentLen = 0 then .error .emptyPathSegment
    else if allowedChar c then scanSegments (if c = '/' then 0 else segmentLen+1) chars
    else .error (.invalidCharacter c)

def checkPath (path : List Char) : Except AddressError Unit :=
  match path with
  | [] => .error .emptyPath
  | first :: chars =>
    if first ≠ '/' then .error .missingStartingSlash
    else match scanSegments 0 chars with
      | .error e => .error e
      | .ok 0 => .error .invalidEndingSlash
      | .ok (_+1) => .ok ()

-- The string field is private in the source, so the check of `Address::new` travels with
-- the value; what the derived `Deserialize` admits without it is `Decoded.Address`.
structure Address where
  path : String
  checked : checkPath path.toList = .ok ()
  deriving DecidableEq

theorem Address.ext_path {a b : Address} (same : a.path = b.path) : a = b := by
  cases a; cases b; cases same; rfl

def Address.new (path : String) : Except AddressError Address :=
  match checked : checkPath path.toList with
  | .ok () => .ok ⟨path,checked⟩
  | .error e => .error e

def Address.toString (self : Address) : String := self.path

def Address.combine (self : Address) (segment : String) : Except AddressError Address :=
  Address.new (self.path ++ "/" ++ segment)

def Address.isParentOf (self other : Address) : Bool := (self.path.toList ++ ['/']).isPrefixOf other.path.toList

instance : Ord Address := ⟨fun a b => compare a.path b.path⟩
instance : Std.TransOrd Address :=
  inferInstanceAs (Std.TransCmp (compareOn Address.path))
instance : Std.LawfulEqOrd Address where
  eq_of_compare same := Address.ext_path (Std.LawfulEqOrd.eq_of_compare same)

-- `str::len` counts bytes, while `chars().rev().position` counts characters.
def byteLen (chars : List Char) : Nat := (chars.map Char.utf8Size).sum

def slashPos (chars : List Char) : Option Nat :=
  (chars.reverse.findIdx? (· == '/')).map fun position => byteLen chars - 1 - position

theorem scan_append (segmentLen : Nat) (front back : List Char) :
    scanSegments segmentLen (front ++ back) =
      (scanSegments segmentLen front).bind fun n => scanSegments n back := by
  induction front generalizing segmentLen with
  | nil => rfl
  | cons c front ih =>
      simp only [List.cons_append,scanSegments]
      split
      · rfl
      · split
        · exact ih _
        · rfl

theorem scan_allowed (segmentLen n : Nat) (chars : List Char)
    (scanned : scanSegments segmentLen chars = .ok n) : ∀ c ∈ chars, allowedChar c = true := by
  induction chars generalizing segmentLen with
  | nil => simp
  | cons c chars ih =>
      simp only [scanSegments] at scanned
      split at scanned
      · cases scanned
      · split at scanned
        · rename_i allowed
          intro x member
          rcases List.mem_cons.mp member with rfl | later
          · exact allowed
          · exact ih _ scanned x later
        · cases scanned

theorem scan_segment (segmentLen : Nat) (chars : List Char)
    (plain : ∀ c ∈ chars, allowedChar c = true ∧ c ≠ '/') :
    scanSegments segmentLen chars = .ok (segmentLen + chars.length) := by
  induction chars generalizing segmentLen with
  | nil => rfl
  | cons c chars ih =>
      obtain ⟨allowed,inner⟩ := plain c (by simp)
      rw [scanSegments,if_neg (fun bad => inner bad.1),if_pos allowed,if_neg inner,
        ih _ fun x member => plain x (List.mem_cons_of_mem _ member)]
      simp only [List.length_cons]
      congr 1
      omega

theorem check_parts {path : List Char} (checked : checkPath path = .ok ()) :
    ∃ chars n, path = '/' :: chars ∧ scanSegments 0 chars = .ok (n+1) := by
  unfold checkPath at checked
  split at checked
  · cases checked
  · split at checked
    · cases checked
    · rename_i first chars slash
      split at checked
      · cases checked
      · cases checked
      · rename_i n scanned
        have first_slash : first = '/' := by simpa using slash
        exact ⟨chars,n,by rw [first_slash],scanned⟩

theorem check_slash {chars : List Char} {n : Nat} (scanned : scanSegments 0 chars = .ok (n+1)) :
    checkPath ('/' :: chars) = .ok () := by
  simp [checkPath,scanned]

theorem allowed_one_byte {c : Char} (allowed : allowedChar c = true) : c.utf8Size = 1 := by
  have small : c.toNat ≤ 127 := by
    delta allowedChar allowedSymbols Char.isAlphanum Char.isAlpha Char.isUpper Char.isLower Char.isDigit at allowed
    simp only [Bool.or_eq_true,Bool.and_eq_true,decide_eq_true_eq,beq_iff_eq,List.any_cons,
      List.any_nil,Bool.or_false,ge_iff_le] at allowed
    rcases allowed with ((((⟨_,high⟩ | ⟨_,high⟩) | ⟨_,high⟩) | rfl) | rfl | rfl | rfl)
    · exact Nat.le_trans (UInt32.le_iff_toNat_le.mp high) (by decide)
    · exact Nat.le_trans (UInt32.le_iff_toNat_le.mp high) (by decide)
    · exact Nat.le_trans (UInt32.le_iff_toNat_le.mp high) (by decide)
    all_goals decide
  have bound : c.val ≤ 127 := UInt32.le_iff_toNat_le.mpr small
  simp [Char.utf8Size,bound]

theorem byteLen_allowed (chars : List Char) (allowed : ∀ c ∈ chars, allowedChar c = true) :
    byteLen chars = chars.length := by
  induction chars with
  | nil => rfl
  | cons c chars ih =>
      have first := allowed_one_byte (allowed c (by simp))
      have rest := ih fun x member => allowed x (List.mem_cons_of_mem _ member)
      simp only [byteLen,List.map_cons,List.sum_cons,List.length_cons] at rest ⊢
      omega

theorem check_allowed {path : List Char} (checked : checkPath path = .ok ()) :
    ∀ c ∈ path, allowedChar c = true := by
  obtain ⟨chars,n,rfl,scanned⟩ := check_parts checked
  intro c member
  rcases List.mem_cons.mp member with rfl | later
  · decide
  · exact scan_allowed 0 (n+1) chars scanned c later

theorem slashPos_split {path : List Char} {position : Nat} (checked : checkPath path = .ok ())
    (found : slashPos path = some position) :
    ∃ front segment, path = front ++ '/' :: segment ∧ front.length = position ∧ '/' ∉ segment := by
  obtain ⟨back,searched,rfl⟩ := Option.map_eq_some_iff.mp found
  obtain ⟨bound,atBack,earlier⟩ := List.findIdx?_eq_some_iff_getElem.mp searched
  have slash : path.reverse[back] = '/' := by simpa using atBack
  have split : path.reverse = path.reverse.take back ++ '/' :: path.reverse.drop (back+1) := by
    rw [← slash,List.getElem_cons_drop,List.take_append_drop]
  refine ⟨(path.reverse.drop (back+1)).reverse,(path.reverse.take back).reverse,?_,?_,?_⟩
  · have reversed := congrArg List.reverse split
    simpa using reversed
  · rw [byteLen_allowed path (check_allowed checked)]
    simp only [List.length_reverse,List.length_drop]
    omega
  · intro member
    obtain ⟨index,inside,same⟩ := List.getElem_of_mem (List.mem_reverse.mp member)
    have before : index < back := by simpa using (List.length_take_le _ _).trans_lt' inside
    have none := earlier index before
    rw [List.getElem_take] at same
    simp [same] at none

theorem check_front {front segment : List Char} (checked : checkPath (front ++ '/' :: segment) = .ok ())
    (nonempty : front ≠ []) : checkPath front = .ok () := by
  obtain ⟨chars,n,split,scanned⟩ := check_parts checked
  cases front with
  | nil => exact absurd rfl nonempty
  | cons first middle =>
      simp only [List.cons_append,List.cons.injEq] at split
      obtain ⟨rfl,rfl⟩ := split
      rw [scan_append] at scanned
      cases middleScan : scanSegments 0 middle with
      | error e => simp [middleScan,Except.bind] at scanned
      | ok m =>
          -- an empty segment in front of the slash would have been refused
          cases m with
          | zero => simp [middleScan,Except.bind,scanSegments] at scanned
          | succ m => exact check_slash middleScan

theorem slashPos_take {path : List Char} {position : Nat} (checked : checkPath path = .ok ())
    (found : slashPos path = some (position+1)) : checkPath (path.take (position+1)) = .ok () := by
  obtain ⟨front,segment,rfl,length,_⟩ := slashPos_split checked found
  rw [← length,List.take_left]
  exact check_front checked (by intro empty; simp [empty] at length)

def AncestorIterator.next (current : Address) : Option Address :=
  match found : slashPos current.path.toList with
  -- the `expect`: an accepted path always has its leading slash
  | none => none
  | some 0 => none
  | some (position+1) =>
    some ⟨String.ofList (current.path.toList.take (position+1)),by
      rw [String.toList_ofList]
      exact slashPos_take current.checked found⟩

-- One character of the path is gone at every step: its length is enough fuel.
def AncestorIterator.collect : Nat → Address → List Address
  | 0,_ => []
  | fuel+1,current => match AncestorIterator.next current with
    | none => []
    | some ancestor => ancestor :: AncestorIterator.collect fuel ancestor

def Address.ancestors (address : Address) : List Address :=
  AncestorIterator.collect address.path.length address

theorem next_shorter {current ancestor : Address} (step : AncestorIterator.next current = some ancestor) :
    ancestor.path.length < current.path.length := by
  unfold AncestorIterator.next at step
  split at step
  · cases step
  · cases step
  · rename_i position found
    cases Option.some.inj step
    obtain ⟨front,segment,split,length,_⟩ := slashPos_split current.checked found
    rw [← String.length_toList,← String.length_toList (s:=current.path),String.toList_ofList,split]
    simp only [List.length_take,List.length_append,List.length_cons]
    omega

theorem collect_fuel {fuel more : Nat} {current : Address} (enough : current.path.length ≤ fuel)
    (extra : fuel ≤ more) : AncestorIterator.collect more current = AncestorIterator.collect fuel current := by
  induction fuel generalizing more current with
  | zero =>
      cases more with
      | zero => rfl
      | succ more =>
          simp only [AncestorIterator.collect]
          cases step : AncestorIterator.next current with
          | none => rfl
          | some ancestor =>
              have shorter := next_shorter step
              omega
  | succ fuel ih =>
      obtain ⟨more,rfl⟩ : ∃ m, more = m+1 := ⟨more-1,by omega⟩
      simp only [AncestorIterator.collect]
      cases step : AncestorIterator.next current with
      | none => rfl
      | some ancestor =>
          have shorter := next_shorter step
          have rest : AncestorIterator.collect more ancestor = AncestorIterator.collect fuel ancestor :=
            ih (by omega) (by omega)
          simp only [rest]

theorem ancestors_step (address : Address) : address.ancestors =
    match AncestorIterator.next address with
    | none => []
    | some ancestor => ancestor :: ancestor.ancestors := by
  unfold Address.ancestors
  rw [← collect_fuel (Nat.le_refl _) (Nat.le_succ address.path.length)]
  simp only [AncestorIterator.collect]
  cases step : AncestorIterator.next address with
  | none => rfl
  | some ancestor =>
      have shorter := next_shorter step
      have rest := collect_fuel (Nat.le_refl ancestor.path.length) (Nat.le_of_lt shorter)
      simp only [rest]

-- How an iteration over ancestors fails to end: by its `expect`, or never.
inductive Halt where
  | invalidAddress
  | endless
  deriving DecidableEq

-- What the program asks of an address; `ofChecked` is what `Address::new` makes.
class AddressSpace (A : Type) where
  ofChecked : Address → A
  path : A → String
  ancestors : A → List A
  halt : A → Option Halt

instance : AddressSpace Address := ⟨id,Address.path,Address.ancestors,fun _ => none⟩

@[simp] theorem ofChecked_checked (address : Address) : AddressSpace.ofChecked address = address := rfl

@[simp] theorem path_checked (address : Address) : AddressSpace.path address = address.path := rfl

@[simp] theorem ancestors_checked (address : Address) : AddressSpace.ancestors address = address.ancestors := rfl

end AnomaAlpha
