import AnomaAlpha.Lib.Varint

-- A decoder of frames that is fed in pieces of any size. Its state and its buffer
-- stand for the bytes that have come in and are not decoded yet.
structure Framing (E : Type) where
  State : Type
  start : State
  max : Nat
  limit : Nat
  frame : List UInt8 → List UInt8
  decode : State → List UInt8 → Except E (Option (List UInt8)) × State × List UInt8
  Holds : State → List UInt8 → List UInt8 → Prop
  begins : Holds start [] []
  grows : Holds st buf bytes → Holds st (buf ++ more) (bytes ++ more)
  filled : frame item ≠ []
  takes : Holds st buf (frame item ++ rest) → item.length < limit → item.length ≤ max →
    ∃ st' buf', decode st buf = (.ok (some item),st',buf') ∧ Holds st' buf' rest
  waits : Holds st buf bytes → bytes ++ more = frame item → more ≠ [] → item.length < limit → item.length ≤ max →
    ∃ st' buf', decode st buf = (.ok none,st',buf') ∧ Holds st' buf' bytes
  refuses : Holds st buf (frame item ++ rest) → item.length < limit → max < item.length → ∃ e, (decode st buf).1 = .error e
  doubts : Holds st buf bytes → bytes ++ more = frame item → more ≠ [] → item.length < limit → max < item.length →
    (∃ e, (decode st buf).1 = .error e) ∨ ∃ st' buf', decode st buf = (.ok none,st',buf') ∧ Holds st' buf' bytes

namespace Framing
variable {E : Type} (f : Framing E)

def frames (items : List (List UInt8)) : List UInt8 := items.flatMap f.frame

-- What a decoder makes of the bytes that it holds, with the items they belong to
-- and the bytes that are still on the way.
inductive Decodes (st : f.State) (buf bytes : List UInt8) (items : List (List UInt8)) (coming : List UInt8) : Prop where
  | failed : (f.decode st buf).1 = .error e → item ∈ items → f.max < item.length → Decodes st buf bytes items coming
  | waiting : f.decode st buf = (.ok none,st',buf') → f.Holds st' buf' bytes → (coming = [] → items = []) →
      Decodes st buf bytes items coming
  | item : items = next :: later → f.decode st buf = (.ok (some next),st',buf') → f.Holds st' buf' rest →
      rest ++ coming = f.frames later → next.length ≤ f.max → Decodes st buf bytes items coming

variable {st : f.State} {buf bytes coming : List UInt8} {items : List (List UInt8)}

theorem decode_empty (holds : f.Holds st buf []) (positive : 0 < f.limit) :
    ∃ st' buf', f.decode st buf = (.ok none,st',buf') ∧ f.Holds st' buf' [] :=
  f.waits holds (List.nil_append (f.frame [])) f.filled positive (Nat.zero_le _)

theorem split_front {bytes coming front tail : List UInt8} (same : bytes ++ coming = front ++ tail) :
    (∃ rest, bytes = front ++ rest ∧ rest ++ coming = tail) ∨ ∃ more, more ≠ [] ∧ bytes ++ more = front := by
  rcases List.append_eq_append_iff.mp same with ⟨more,whole,rest⟩ | ⟨rest,whole,tail⟩
  · cases more with
    | nil => exact .inl ⟨[],by simpa using whole.symm,by simpa using rest⟩
    | cons b more => exact .inr ⟨b :: more,by simp,whole.symm⟩
  · exact .inl ⟨rest,whole,tail.symm⟩

-- Wherever the stream is cut, the next item comes out whole or not at all.
theorem decode_next (holds : f.Holds st buf bytes) (stream : bytes ++ coming = f.frames items)
    (short : ∀ item ∈ items, item.length < f.limit) (positive : 0 < f.limit) :
    f.Decodes st buf bytes items coming := by
  cases items with
  | nil =>
      obtain ⟨rfl,rfl⟩ := List.append_eq_nil_iff.mp stream
      obtain ⟨st',buf',decoded,held⟩ := f.decode_empty holds positive
      exact .waiting decoded held fun _ => rfl
  | cons next later =>
      have fits := short next (by simp)
      rcases split_front stream with ⟨rest,rfl,tail⟩ | ⟨more,missing,whole⟩
      · rcases Nat.lt_or_ge f.max next.length with long | small
        · obtain ⟨e,failed⟩ := f.refuses holds fits long
          exact .failed failed (by simp) long
        · obtain ⟨st',buf',decoded,held⟩ := f.takes holds fits small
          exact .item rfl decoded held tail small
      · have more_comes : coming = [] → next :: later = [] := by
          intro empty
          subst empty
          rw [List.append_nil] at stream
          subst stream
          rw [frames,List.flatMap_cons,List.append_assoc] at whole
          have lengths := congrArg List.length whole
          simp only [List.length_append] at lengths
          have extra := List.length_pos_iff.mpr missing
          omega
        rcases Nat.lt_or_ge f.max next.length with long | small
        · rcases f.doubts holds whole missing fits long with ⟨e,failed⟩ | ⟨st',buf',decoded,held⟩
          · exact .failed failed (by simp) long
          · exact .waiting decoded held more_comes
        · obtain ⟨st',buf',decoded,held⟩ := f.waits holds whole missing fits small
          exact .waiting decoded held more_comes

-- Why a decoder gives up: the item is longer than it may be, or something else.
inductive Refusal where
  | permissionDenied
  | other (fault : Varint.Fault)
  deriving DecidableEq

-- The frames that carry their length as a varint in front. The decoder remembers
-- a length that it has read until the item is there.
def uviLength (len : Option Nat) (src : List UInt8) : Except Varint.Fault (Option Nat × List UInt8) :=
  match len with
  | some n => .ok (some n,src)
  | none => match Varint.read true 10 src with
    | .ok (n,rest) => .ok (some (n % 2^64),rest)
    | .error .insufficient => .ok (none,src)
    | .error fault => .error fault

def uviDecode (max : Nat) (len : Option Nat) (src : List UInt8) :
    Except Refusal (Option (List UInt8)) × Option Nat × List UInt8 :=
  match uviLength len src with
  | .error fault => (.error (.other fault),none,src)
  | .ok (none,src) => (.ok none,none,src)
  | .ok (some n,src) =>
    if max < n then (.error .permissionDenied,none,src)
    else if n ≤ src.length then (.ok (some (src.take n)),none,src.drop n)
    else (.ok none,some n,src)

def uviFrame (item : List UInt8) : List UInt8 := Varint.write 10 item.length ++ item

def uviHolds (len : Option Nat) (buf bytes : List UInt8) : Prop :=
  match len with
  | none => buf = bytes
  | some n => n < 2^64 ∧ bytes = Varint.write 10 n ++ buf

theorem length_fits {n : Nat} (small : n < 2^64) : n < 128^(9+1) := small.trans_le (by decide)

theorem read_length {n : Nat} (rest : List UInt8) (small : n < 2^64) :
    Varint.read true 10 (Varint.write 10 n ++ rest) = .ok (n,rest) :=
  Varint.read_write rest (length_fits small) (.inr rfl)

theorem same_length {n m : Nat} {rest buf : List UInt8} (small : n < 2^64) (small' : m < 2^64)
    (same : Varint.write 10 m ++ buf = Varint.write 10 n ++ rest) : m = n ∧ buf = rest := by
  have one := read_length buf small'
  rw [same,read_length rest small] at one
  cases one
  exact ⟨rfl,rfl⟩

theorem uviLength_whole {len : Option Nat} {buf rest : List UInt8} {n : Nat} (small : n < 2^64)
    (holds : uviHolds len buf (Varint.write 10 n ++ rest)) : uviLength len buf = .ok (some n,rest) := by
  cases len with
  | none =>
      subst holds
      rw [uviLength,read_length rest small]
      dsimp only
      rw [Nat.mod_eq_of_lt small]
  | some m =>
      obtain ⟨small',same⟩ := holds
      obtain ⟨rfl,rfl⟩ := same_length small small' same.symm
      rfl

theorem uviLength_part {len : Option Nat} {buf bytes more item : List UInt8} (small : item.length < 2^64)
    (holds : uviHolds len buf bytes) (whole : bytes ++ more = uviFrame item) :
    uviLength len buf = .ok (none,buf) ∧ len = none ∨
    ∃ rest, uviLength len buf = .ok (some item.length,rest) ∧ bytes = Varint.write 10 item.length ++ rest ∧
      rest ++ more = item := by
  rcases split_front whole with ⟨rest,rfl,tail⟩ | ⟨missing,some_left,number⟩
  · exact .inr ⟨rest,uviLength_whole small holds,rfl,tail⟩
  · cases len with
    | none =>
        subst holds
        rw [uviLength,Varint.read_part (length_fits small) number some_left]
        exact .inl ⟨rfl,rfl⟩
    | some m =>
        obtain ⟨small',rfl⟩ := holds
        rw [List.append_assoc] at number
        obtain ⟨_,empty⟩ := same_length small small' (number.trans (List.append_nil _).symm)
        exact absurd (List.append_eq_nil_iff.mp empty).2 some_left

theorem uviDecode_long {max n : Nat} {len : Option Nat} {buf rest : List UInt8} (read : uviLength len buf = .ok (some n,rest))
    (long : max < n) : (uviDecode max len buf).1 = .error .permissionDenied := by
  rw [uviDecode,read]
  dsimp only
  rw [if_pos long]

theorem uviDecode_short {max n : Nat} {len : Option Nat} {buf rest : List UInt8}
    (read : uviLength len buf = .ok (some n,rest)) (small : n ≤ max) : uviDecode max len buf =
      if n ≤ rest.length then (.ok (some (rest.take n)),none,rest.drop n) else (.ok none,some n,rest) := by
  rw [uviDecode,read]
  dsimp only
  rw [if_neg (Nat.not_lt.mpr small)]

-- `UviBytes` on buffers of any size.
def uvi (max : Nat) : Framing Refusal where
  State := Option Nat
  start := none
  max := max
  limit := 2^64
  frame := uviFrame
  decode := uviDecode max
  Holds := uviHolds
  begins := rfl
  grows := by
    intro len buf bytes more holds
    cases len with
    | none => exact congrArg (· ++ more) holds
    | some n => exact ⟨holds.1,by rw [holds.2,List.append_assoc]⟩
  filled := by
    intro item empty
    exact Varint.write_nonempty (by decide) (List.append_eq_nil_iff.mp empty).1
  takes := by
    intro len buf item rest holds fits small
    rw [uviFrame,List.append_assoc] at holds
    refine ⟨none,rest,?_,rfl⟩
    rw [uviDecode_short (uviLength_whole fits holds) small,if_pos (by simp)]
    simp
  waits := by
    intro len buf bytes more item holds whole missing fits small
    rcases uviLength_part fits holds whole with ⟨read,rfl⟩ | ⟨rest,read,rfl,tail⟩
    · exact ⟨none,buf,by rw [uviDecode,read],holds⟩
    · have less : ¬ item.length ≤ rest.length := by
        have lengths := congrArg List.length tail
        have extra := List.length_pos_iff.mpr missing
        rw [List.length_append] at lengths
        omega
      exact ⟨some item.length,rest,by rw [uviDecode_short read small,if_neg less],fits,rfl⟩
  refuses := by
    intro len buf item rest holds fits long
    rw [uviFrame,List.append_assoc] at holds
    exact ⟨_,uviDecode_long (uviLength_whole fits holds) long⟩
  doubts := by
    intro len buf bytes more item holds whole missing fits long
    rcases uviLength_part fits holds whole with ⟨read,rfl⟩ | ⟨rest,read,rfl,_⟩
    · exact .inr ⟨none,buf,by rw [uviDecode,read],holds⟩
    · exact .inl ⟨_,uviDecode_long read long⟩

end Framing
