import AnomaAlpha.Expansion
import AnomaAlpha.Stdpred
import AnomaAlpha.Wire

namespace AnomaAlpha.Stdpred

section
-- `rmp_serde::from_slice` at `BTreeMap<Vec<u8>,Vec<u8>>`; the `expect` on it panics.
variable (fromSlice : Bytes → Option (BTreeMap Bytes Bytes))

-- The assertion on their number comes first, then one `it.next()` for every position.
def isEmptyMap (params : List ExpandedParam) (_ : PredicateContext) : Option Bool :=
  if params.length = 1 then do
    let first ← params[0]?
    let set ← fromSlice first.data
    return set.isEmpty
  else none

def containsKey (params : List ExpandedParam) (_ : PredicateContext) : Option Bool :=
  if params.length = 2 then do
    let haystack ← params[0]?
    let needle ← params[1]?
    let map ← fromSlice haystack.data
    return map.contains needle.data
  else none

def keyEquals (params : List ExpandedParam) (_ : PredicateContext) : Option Bool :=
  if params.length = 2 then do
    let haystack ← params[0]?
    let needle ← params[1]?
    let value ← params[2]?
    let map ← fromSlice haystack.data
    return (map[needle.data]?.map fun v => v == value.data).getD false
  else none

end

section
variable {fromSlice : Bytes → Option (BTreeMap Bytes Bytes)} {haystack : ExpandedParam} {m : BTreeMap Bytes Bytes}

theorem isEmptyMap_answer (context : PredicateContext) (reads : fromSlice haystack.data = some m) :
    isEmptyMap fromSlice [haystack] context = some m.isEmpty := by
  simp [isEmptyMap,reads]

theorem containsKey_answer (needle : ExpandedParam) (context : PredicateContext)
    (reads : fromSlice haystack.data = some m) :
    containsKey fromSlice [haystack,needle] context = some (m.contains needle.data) := by
  simp [containsKey,reads]

-- With two parameters there is no third one to take, and any other number fails
-- the assertion.
theorem keyEquals_panics (fromSlice : Bytes → Option (BTreeMap Bytes Bytes)) (params : List ExpandedParam)
    (context : PredicateContext) : keyEquals fromSlice params context = none := by
  unfold keyEquals
  split
  · rename_i two
    have third : params[2]? = none := List.getElem?_eq_none (Nat.le_of_eq two)
    rw [third]
    cases params[0]? with
    | none => rfl
    | some haystack => cases params[1]? <;> rfl
  · rfl

theorem isEmpty_absent (m : BTreeMap Bytes Bytes) : m.isEmpty = true ↔ ∀ key, m.contains key = false := by
  rw [Std.ExtTreeMap.isEmpty_iff]
  constructor
  · intro empty key
    rw [empty,Std.ExtTreeMap.contains_empty]
  · intro absent
    apply Std.ExtTreeMap.ext_getElem?
    intro key
    rw [Std.ExtTreeMap.getElem?_eq_none_of_contains_eq_false (absent key),Std.ExtTreeMap.getElem?_empty]

end

def KeyEqualsAgrees (fromSlice : Bytes → Option (BTreeMap Bytes Bytes)) (haystack needle value : ExpandedParam)
    (context : PredicateContext) (m : BTreeMap Bytes Bytes) : Prop :=
  ∃ answer, keyEquals fromSlice [haystack,needle,value] context = some answer ∧
    (answer = true ↔ m[needle.data]? = some value.data)

-- It never answers, whatever it is given. The other two agree with the map and
-- with each other.
theorem key_equals_never_agrees (fromSlice : Bytes → Option (BTreeMap Bytes Bytes)) :
    (∀ (haystack needle value : ExpandedParam) (context : PredicateContext) (m : BTreeMap Bytes Bytes),
      fromSlice haystack.data = some m → ¬KeyEqualsAgrees fromSlice haystack needle value context m) ∧
    (∀ (params : List ExpandedParam) (context : PredicateContext), keyEquals fromSlice params context = none) ∧
    ∀ (haystack : ExpandedParam) (context : PredicateContext) (m : BTreeMap Bytes Bytes),
      fromSlice haystack.data = some m →
      (∀ needle, ∃ held, containsKey fromSlice [haystack,needle] context = some held ∧
        (held = true ↔ ∃ value, m[needle.data]? = some value) ∧
        ((held = true ↔ ∃ value, keyEquals fromSlice [haystack,needle,value] context = some true) ↔ held = false)) ∧
      ∃ empty, isEmptyMap fromSlice [haystack] context = some empty ∧
        (empty = true ↔ ∀ needle, containsKey fromSlice [haystack,needle] context = some false) := by
  refine ⟨?_,keyEquals_panics fromSlice,?_⟩
  · intro haystack needle value context m _ agrees
    obtain ⟨answer,answered,_⟩ := agrees
    rw [keyEquals_panics] at answered
    cases answered
  · intro haystack context m reads
    constructor
    · intro needle
      refine ⟨_,containsKey_answer needle context reads,?_,?_⟩
      · rw [Std.ExtTreeMap.contains_iff_mem,Collect.found_iff]
      · simp only [keyEquals_panics,reduceCtorEq,exists_false,iff_false,Bool.not_eq_true]
    · refine ⟨_,isEmptyMap_answer context reads,?_⟩
      rw [isEmpty_absent]
      constructor
      · intro absent needle
        rw [containsKey_answer needle context reads,absent]
      · intro silent key
        have told := silent (.inline key)
        rw [containsKey_answer _ context reads] at told
        exact Option.some.inj told

namespace MapExample
def donations : BTreeMap Bytes Bytes := (∅ : BTreeMap Bytes Bytes).insert [1] [2]

def encoded : Bytes := MessagePack.map (donations.toList.map fun entry => (Wire.bytes entry.1,Wire.bytes entry.2))

def fromSlice (data : Bytes) : Option (BTreeMap Bytes Bytes) := if data = encoded then some donations else none
def context : PredicateContext := ⟨∅,∅⟩
end MapExample

theorem donations_hold_a_key :
    ¬KeyEqualsAgrees MapExample.fromSlice (.inline MapExample.encoded) (.inline [1]) (.inline [2]) MapExample.context
      MapExample.donations ∧
    ∃ held, containsKey MapExample.fromSlice [.inline MapExample.encoded,.inline [1]] MapExample.context = some held ∧
      (held = true ↔ ∃ value, MapExample.donations[([1] : Bytes)]? = some value) := by
  obtain ⟨never,_,others⟩ := key_equals_never_agrees MapExample.fromSlice
  refine ⟨never _ _ _ _ _ (if_pos rfl),?_⟩
  obtain ⟨keys,_⟩ := others (.inline MapExample.encoded) MapExample.context MapExample.donations (if_pos rfl)
  obtain ⟨held,answered,found,_⟩ := keys (.inline [1])
  exact ⟨held,answered,found⟩

theorem held_entry_panics : MapExample.donations[([1] : Bytes)]? = some [2] ∧
    MapExample.fromSlice MapExample.encoded = some MapExample.donations ∧
    containsKey MapExample.fromSlice [.inline MapExample.encoded,.inline [1]] MapExample.context = some true ∧
    keyEquals MapExample.fromSlice [.inline MapExample.encoded,.inline [1],.inline [2]] MapExample.context = none ∧
    ¬KeyEqualsAgrees MapExample.fromSlice (.inline MapExample.encoded) (.inline [1]) (.inline [2]) MapExample.context
      MapExample.donations := by
  refine ⟨by decide,if_pos rfl,by decide,rfl,?_⟩
  intro agrees
  obtain ⟨answer,answered,_⟩ := agrees
  cases answered

end AnomaAlpha.Stdpred
