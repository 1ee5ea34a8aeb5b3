import AnomaAlpha.Grammar
import AnomaAlpha.Mempool

-- The data as the derived `Deserialize` makes it of bytes. The one of `Address`
-- takes any string, and only the iterator ever looks at the string again.
namespace AnomaAlpha.Decoded

structure Address where
  path : String
  deriving DecidableEq

namespace Address

theorem ext_path {a b : Address} (same : a.path = b.path) : a = b := by
  cases a; cases b; cases same; rfl

instance ordAddress : Ord Address := ⟨fun a b => compare a.path b.path⟩
instance transAddress : Std.TransOrd Address := inferInstanceAs (Std.TransCmp (compareOn Address.path))
instance lawfulAddress : Std.LawfulEqOrd Address where
  eq_of_compare same := ext_path (Std.LawfulEqOrd.eq_of_compare same)

def new (path : String) : Except AddressError Address := (checkPath path.toList).map fun () => ⟨path⟩

def fromStr (s : String) : Except AddressError Address := new s

def combine (self : Address) (segment : String) : Except AddressError Address := new (self.path ++ "/" ++ segment)

def WellFormed (address : Address) : Prop := Grammatical address.path.toList

end Address

def forget (address : AnomaAlpha.Address) : Address := ⟨address.path⟩

-- Without a slash the `expect` fails.
def AncestorIterator.next (current : Address) : Except Halt (Option Address) :=
  match slashPos current.path.toList with
  | none => .error .invalidAddress
  | some 0 => .ok none
  | some (position+1) => .ok (some ⟨String.ofList (current.path.toList.take (position+1))⟩)

inductive Yields : Address → Address → Prop where
  | first : AncestorIterator.next start = .ok (some address) → Yields start address
  | later : AncestorIterator.next start = .ok (some current) → Yields current address → Yields start address

inductive Finite : Address → Prop where
  | last : AncestorIterator.next address = .ok none → Finite address
  | more : AncestorIterator.next start = .ok (some current) → Finite current → Finite start

-- The iteration with the failure that it comes to. Where characters have more than
-- one byte it can stay at one string for ever.
def AncestorIterator.trail : Nat → Address → List Address × Option Halt
  | 0,_ => ([],some .endless)
  | rounds+1,current => match AncestorIterator.next current with
    | .error reason => ([],some reason)
    | .ok none => ([],none)
    | .ok (some ancestor) => (ancestor :: (trail rounds ancestor).1,(trail rounds ancestor).2)

instance : AddressSpace Address where
  ofChecked := forget
  path := Address.path
  ancestors address := (AncestorIterator.trail (address.path.length+1) address).1
  halt address := (AncestorIterator.trail (address.path.length+1) address).2

def cut (path : List Char) : Nat → Option Address
  | 0 => none
  | position+1 => some ⟨String.ofList (path.take (position+1))⟩

theorem next_found {address : Address} (found : slashPos address.path.toList = some position) :
    AncestorIterator.next address = .ok (cut address.path.toList position) := by
  unfold AncestorIterator.next
  rw [found]
  cases position <;> rfl

theorem next_lost {address : Address} (lost : slashPos address.path.toList = none) :
    AncestorIterator.next address = .error .invalidAddress := by
  unfold AncestorIterator.next
  rw [lost]

theorem slashPos_none {path : List Char} : slashPos path = none ↔ '/' ∉ path := by
  unfold slashPos
  rw [Option.map_eq_none_iff,List.findIdx?_eq_none_iff]
  constructor
  · intro absent member
    have different := absent '/' (List.mem_reverse.mpr member)
    cases different
  · intro absent c member
    apply beq_false_of_ne
    intro slash
    exact absent (slash ▸ List.mem_reverse.mp member)

theorem next_panics {address : Address} {reason : Halt} :
    AncestorIterator.next address = .error reason ↔ reason = .invalidAddress ∧ '/' ∉ address.path.toList := by
  rw [← slashPos_none]
  cases place : slashPos address.path.toList with
  | none =>
      rw [next_lost place]
      exact ⟨fun same => ⟨(Except.error.inj same).symm,rfl⟩,fun given => congrArg Except.error given.1.symm⟩
  | some position =>
      rw [next_found place]
      constructor
      · intro failed
        cases failed
      · intro ⟨_,lost⟩
        cases lost

theorem next_shrinks {start address : Address} (stepped : AncestorIterator.next start = .ok (some address)) :
    address = start ∨ address.path.length < start.path.length := by
  unfold AncestorIterator.next at stepped
  split at stepped
  · cases stepped
  · cases stepped
  · rename_i position found
    cases stepped
    by_cases inside : position+1 < start.path.toList.length
    · right
      rw [← String.length_toList,← String.length_toList,String.toList_ofList,List.length_take]
      omega
    · left
      apply Address.ext_path
      rw [List.take_of_length_le (Nat.le_of_not_lt inside),String.ofList_toList]

namespace AncestorIterator

theorem next_same {start a b : Address} (first : next start = .ok (some a)) (second : next start = .ok (some b)) : a = b :=
  Option.some.inj (Except.ok.inj (first.symm.trans second))

theorem yields_stays {start up : Address} (stays : next start = .ok (some start)) (yielded : Yields start up) :
    up = start := by
  induction yielded with
  | first stepped => exact next_same stepped stays
  | later stepped _ ih =>
      obtain rfl := next_same stepped stays
      exact ih stays

example : next ⟨"é/é"⟩ = .ok (some ⟨"é/é"⟩) := by decide

theorem finite_moves {start : Address} (finite : Finite start) : next start ≠ .ok (some start) := by
  intro stays
  induction finite with
  | last ended =>
      rw [ended] at stays
      cases stays
  | more stepped _ ih =>
      obtain rfl := next_same stepped stays
      exact ih stays

theorem trail_step {start ancestor : Address} (stepped : next start = .ok (some ancestor)) (rounds : Nat) :
    trail (rounds+1) start = (ancestor :: (trail rounds ancestor).1,(trail rounds ancestor).2) := by
  simp only [trail,stepped]

theorem trail_stays {start : Address} (stays : next start = .ok (some start)) (rounds : Nat) :
    (trail rounds start).2 = some .endless := by
  induction rounds with
  | zero => rfl
  | succ rounds ih => rw [trail_step stays,ih]

theorem trail_yields {rounds : Nat} {start up : Address} (member : up ∈ (trail rounds start).1) : Yields start up := by
  induction rounds generalizing start with
  | zero => cases member
  | succ rounds ih =>
      unfold trail at member
      split at member
      · cases member
      · cases member
      · rename_i stepped
        rcases List.mem_cons.mp member with rfl | later
        · exact .first stepped
        · exact .later stepped (ih later)

theorem yields_trail {rounds : Nat} {start up : Address} (enough : start.path.length < rounds) (yielded : Yields start up) :
    up ∈ (trail rounds start).1 := by
  induction rounds generalizing start with
  | zero => omega
  | succ rounds ih =>
      cases yielded with
      | first stepped =>
          rw [trail_step stepped]
          exact List.mem_cons_self
      | later stepped rest =>
          rw [trail_step stepped]
          rcases next_shrinks stepped with rfl | shorter
          · rw [yields_stays stepped rest]
            exact List.mem_cons_self
          · exact List.mem_cons_of_mem _ (ih (by omega) rest)

theorem trail_finite {rounds : Nat} {start : Address} (ended : (trail rounds start).2 = none) : Finite start := by
  induction rounds generalizing start with
  | zero => cases ended
  | succ rounds ih =>
      unfold trail at ended
      split at ended
      · cases ended
      · rename_i stepped
        exact .last stepped
      · rename_i stepped
        exact .more stepped (ih ended)

theorem finite_trail {rounds : Nat} {start : Address} (enough : start.path.length < rounds) (finite : Finite start) :
    (trail rounds start).2 = none := by
  induction rounds generalizing start with
  | zero => omega
  | succ rounds ih =>
      cases finite with
      | last stepped => simp only [trail,stepped]
      | more stepped rest =>
          rw [trail_step stepped]
          rcases next_shrinks stepped with rfl | shorter
          · exact absurd stepped (finite_moves rest)
          · exact ih (by omega) rest

-- The failure is the `expect` where a string without a slash is come to, and no
-- end where the iterator stays.
theorem trail_fails {rounds : Nat} {start : Address} {reason : Halt} (enough : start.path.length < rounds)
    (fails : (trail rounds start).2 = some reason) : ∃ up, (up = start ∨ Yields start up) ∧
      ((reason = .invalidAddress ∧ '/' ∉ up.path.toList) ∨ (reason = .endless ∧ next up = .ok (some up))) := by
  induction rounds generalizing start with
  | zero => omega
  | succ rounds ih =>
      cases stepped : next start with
      | error other =>
          simp only [trail,stepped,Option.some.injEq] at fails
          obtain ⟨rfl,lost⟩ := next_panics.mp stepped
          exact ⟨start,.inl rfl,.inl ⟨fails.symm,lost⟩⟩
      | ok step =>
          cases step with
          | none => simp [trail,stepped] at fails
          | some ancestor =>
              rw [trail_step stepped] at fails
              rcases next_shrinks stepped with rfl | shorter
              · rw [trail_stays stepped] at fails
                exact ⟨ancestor,.inl rfl,.inr ⟨(Option.some.inj fails).symm,stepped⟩⟩
              · obtain ⟨up,path,failure⟩ := ih (by omega) fails
                refine ⟨up,.inr ?_,failure⟩
                rcases path with rfl | yielded
                · exact .first stepped
                · exact .later stepped yielded

end AncestorIterator

theorem mem_ancestors {address up : Address} : up ∈ AddressSpace.ancestors address ↔ Yields address up :=
  ⟨AncestorIterator.trail_yields,AncestorIterator.yields_trail (Nat.lt_succ_self _)⟩

theorem halt_none {address : Address} : AddressSpace.halt address = none ↔ Finite address :=
  ⟨AncestorIterator.trail_finite,AncestorIterator.finite_trail (Nat.lt_succ_self _)⟩

-- On the checked addresses the iterator is the one that needs no `expect`.
theorem next_forget (address : AnomaAlpha.Address) :
    AncestorIterator.next (forget address) = .ok ((AnomaAlpha.AncestorIterator.next address).map forget) := by
  cases place : slashPos address.path.toList with
  | none =>
      obtain ⟨chars,_,parts,_⟩ := check_parts address.checked
      refine (slashPos_none.mp place ?_).elim
      rw [parts]
      exact List.mem_cons_self
  | some position =>
      have goes : AncestorIterator.next (forget address) = .ok (cut address.path.toList position) := next_found place
      rw [goes]
      unfold AnomaAlpha.AncestorIterator.next
      split
      · rename_i lost
        rw [place] at lost
        cases lost
      · rename_i start
        obtain rfl := Option.some.inj (place.symm.trans start)
        rfl
      · rename_i front found
        obtain rfl := Option.some.inj (place.symm.trans found)
        rfl

theorem wellFormed_forget {address : Address} : address.WellFormed ↔ ∃ checked, forget checked = address := by
  constructor
  · intro fine
    exact ⟨⟨address.path,(check_iff _).mpr fine⟩,rfl⟩
  · intro ⟨checked,same⟩
    rw [← same]
    exact checked.grammatical

theorem next_wellFormed {current address : Address} (fine : current.WellFormed)
    (stepped : AncestorIterator.next current = .ok (some address)) : address.WellFormed := by
  obtain ⟨checked,rfl⟩ := wellFormed_forget.mp fine
  rw [next_forget,Except.ok.injEq] at stepped
  obtain ⟨ancestor,_,rfl⟩ := Option.map_eq_some_iff.mp stepped
  exact ancestor.grammatical

theorem yields_wellFormed {start address : Address} (fine : start.WellFormed) (yielded : Yields start address) :
    address.WellFormed := by
  induction yielded with
  | first stepped => exact next_wellFormed fine stepped
  | later stepped _ ih => exact ih (next_wellFormed fine stepped)

theorem trail_forget {rounds : Nat} {address : AnomaAlpha.Address} (enough : address.path.length < rounds) :
    AncestorIterator.trail rounds (forget address) = (address.ancestors.map forget,none) := by
  induction rounds generalizing address with
  | zero => omega
  | succ rounds ih =>
      unfold AncestorIterator.trail
      rw [next_forget,ancestors_step]
      cases step : AnomaAlpha.AncestorIterator.next address with
      | none => rfl
      | some ancestor =>
          have shorter := next_shorter step
          simp only [Option.map_some,ih (show ancestor.path.length < rounds by omega),List.map_cons]

theorem wellFormed_finite {address : Address} (fine : address.WellFormed) : Finite address := by
  obtain ⟨checked,rfl⟩ := wellFormed_forget.mp fine
  have ended := congrArg Prod.snd (trail_forget (Nat.lt_succ_self checked.path.length))
  exact AncestorIterator.trail_finite ended

theorem forget_ancestors (address : AnomaAlpha.Address) :
    AddressSpace.ancestors (forget address) = (AddressSpace.ancestors address).map forget :=
  congrArg Prod.fst (trail_forget (Nat.lt_succ_self _))

end AnomaAlpha.Decoded

namespace AnomaAlpha

-- Every place of a value that holds an address.
section
variable {A : Type}

def Param.addresses : Param A → List A
  | .accountRef addr | .proposalRef addr => [addr]
  | .inline _ | .calldataRef _ => []

def Code.addresses : Code A → List A
  | .accountRef addr _ => [addr]
  | .inline _ => []

def PredicateTree.addresses (tree : PredicateTree A) : List A :=
  tree.leaves.flatMap fun pred => pred.code.addresses ++ pred.params.flatMap Param.addresses

def Account.addresses (acc : Account A) : List A := PredicateTree.addresses acc.predicates

def AccountChange.addresses : AccountChange A → List A
  | .createAccount acc => acc.addresses
  | .replacePredicates tree => PredicateTree.addresses tree
  | .replaceState _ | .deleteAccount => []

variable [Ord A] [Std.TransOrd A]

def Transaction.addresses (tx : Transaction A) : List A :=
  tx.intents.flatMap (fun intent => PredicateTree.addresses intent.expectations) ++
    tx.proposals.toList.flatMap fun proposal => proposal.1 :: proposal.2.addresses

def StateDiff.addresses (d : StateDiff A) : List A :=
  d.upserts.toList.flatMap (fun entry => entry.1 :: entry.2.addresses) ++ d.deletes.toList

end

namespace Decoded

inductive Value where
  | transaction (tx : Transaction Address)
  | block (block : Block Address)
  | stateDiff (diff : StateDiff Address)

namespace Value

def transactions : Value → List (Transaction Address)
  | .transaction tx => [tx]
  | .block b => b.transactions
  | .stateDiff _ => []

def addresses : Value → List Address
  | .transaction tx => tx.addresses
  | .block b => b.transactions.flatMap Transaction.addresses
  | .stateDiff diff => diff.addresses

end Value

-- `rmp_serde::from_slice` at the three types, and bytes that are given to it.
structure Serde where
  transaction : Bytes → Option (Transaction Address)
  block : Bytes → Option (Block Address)
  stateDiff : Bytes → Option (StateDiff Address)

inductive Payload where
  | transaction (bytes : Bytes)
  | block (bytes : Bytes)
  | stateDiff (bytes : Bytes)

namespace Serde
variable (serde : Serde)

def fromSlice : Payload → Option Value
  | .transaction bytes => (serde.transaction bytes).map .transaction
  | .block bytes => (serde.block bytes).map .block
  | .stateDiff bytes => (serde.stateDiff bytes).map .stateDiff

def received (payloads : List Payload) : List Value := payloads.filterMap serde.fromSlice

end Serde

end Decoded
end AnomaAlpha
