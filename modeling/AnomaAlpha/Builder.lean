import AnomaAlpha.ExecuteMany
import AnomaAlpha.Wire
import Mathlib.Data.List.Chain

set_option linter.unusedSectionVars false

namespace AnomaAlpha
open Execution StateDiff

-- What the builder takes from `rmp_serde` and `wasmer` on top of the virtual
-- machine. The encoder sees transactions without the fields that serde skips.
structure Toolchain (A : Type := Address) [Ord A] extends Runtime A where
  encodeBlock : UInt64 → Multihash → List (Transaction A) → Bytes
  serialize : Module → Option Bytes

structure Block (A : Type := Address) [Ord A] where
  height : UInt64
  parent : Multihash
  transactions : List (Transaction A)
  hashCache : Option Multihash

-- Every panic that is written on the way of a block.
inductive BlockStateBuilder.Panic where
  | noRecentBlock
  | heightOverflow
  | execution (panic : AnomaAlpha.Panic)
  deriving DecidableEq

inductive BlockStateBuilder.Error where
  | invalidBlockHeight (height expected : UInt64)
  | invalidBlockParent (parent expected : Multihash)
  | noInitialBlocks
  deriving DecidableEq

variable {A : Type} [DecidableEq A] [Ord A] [Std.TransOrd A] [Std.LawfulEqOrd A]
  [AddressSpace A]

-- Heights are added with overflow checks.
def nextHeight (height : UInt64) : Except BlockStateBuilder.Panic UInt64 :=
  if height.toNat + 1 < 2^64 then .ok (height+1) else .error .heightOverflow

namespace Block

def hash (c : Toolchain A) (b : Block A) : Multihash × Block A :=
  match b.hashCache with
  | some cached => (cached,b)
  | none =>
    let init := c.wrap (c.encodeBlock b.height b.parent (b.transactions.map Transaction.fresh))
    (init,{b with hashCache := some init})

-- Also returns the parent, whose cell is filled by then.
def new (c : Toolchain A) (parent : Block A) (transactions : List (Transaction A)) :
    Except BlockStateBuilder.Panic (Block A × Block A) := do
  let height ← nextHeight parent.height
  let (parentHash,parent) := parent.hash c
  return (⟨height,parentHash,transactions,none⟩,parent)

def zero : Block A := ⟨0,⟨0,[]⟩,[],none⟩

end Block

def Wire.block (height : UInt64) (parent : Multihash) (transactions : List (Transaction A)) : Bytes :=
  MessagePack.array [MessagePack.uint height.toNat,Wire.multihash parent,
    MessagePack.array (transactions.map Wire.transaction)]

structure NonZeroUsize where
  get : Nat
  nonzero : 0 < get

-- `recent` is read from its front.
structure BlockStateBuilder (A : Type := Address) [Ord A] where
  historyLen : NonZeroUsize
  state : InMemoryStateStore A
  codecache : InMemoryStateStore A
  recent : List (Block A)

namespace BlockStateBuilder

def wasmSig : Bytes := [0x00,0x61,0x73,0x6d]

def precompilePath (w : Hashing A) (code : Bytes) : String :=
  "/predcache/" ++ w.bs58.encode (w.wrap code).toBytes

theorem precompilePath_checked (w : Hashing A) (code : Bytes) : checkPath (precompilePath w code).toList = .ok () :=
  cachePath_checked w code

def unguarded (state : Bytes) : Account A := ⟨state,.id ⟨.inline [],[]⟩⟩

def tryPrecompile (c : Toolchain A) (output : StateDiff A) (change : Account A) : StateDiff A :=
  if wasmSig.isPrefixOf change.state then match c.fromBinary change.state with
    | .error _ => output
    | .ok compiled => match c.serialize compiled with
      | none => output
      | some serialized =>
        (output.set (AddressSpace.ofChecked
          ⟨precompilePath c.toHashing change.state,precompilePath_checked c.toHashing change.state⟩) (unguarded serialized)).1
  else output

def tryPrecompilePredicates (c : Toolchain A) (diff : StateDiff A) : StateDiff A :=
  diff.iter.foldl (fun output entry => match entry.2 with
    | some change => tryPrecompile c output change
    | none => output) default

def new (historyLen : NonZeroUsize) (state codecache : InMemoryStateStore A) (recent : List (Block A)) :
    Except Error (BlockStateBuilder A) :=
  if recent.isEmpty then .error .noInitialBlocks else .ok ⟨historyLen,state,codecache,recent⟩

def last (b : BlockStateBuilder A) : Except Panic (Block A) :=
  match b.recent with
  | [] => .error .noRecentBlock
  | front :: _ => .ok front

def pushRecent (historyLen : Nat) (recent : List (Block A)) (block : Block A) : List (Block A) :=
  if (block :: recent).length > historyLen then (block :: recent).dropLast else block :: recent

section
variable (c : Toolchain A) (sch : Scheduler A) (u : Components.Labeling)

def advance (b : BlockStateBuilder A) (block : Block A) : Except Panic (BlockStateBuilder A) := do
  let results ← (executeMany c.toRuntime sch u b.state.get b.codecache.get block.transactions).mapError .execution
  let statediff := mergeAll (successes results)
  return {b with
    recent := pushRecent b.historyLen.get b.recent block
    codecache := b.codecache.apply (tryPrecompilePredicates c statediff)
    state := b.state.apply statediff}

-- Asking the last block for its hash fills its cell, also when the new block is
-- then refused.
def consume (b : BlockStateBuilder A) (block : Block A) : Except Panic (Except Error Unit × BlockStateBuilder A) :=
  match b.recent with
  | [] => .error .noRecentBlock
  | last :: older =>
    let (prevHash,last) := last.hash c
    let b := {b with recent := last :: older}
    if prevHash ≠ block.parent then .ok (.error (.invalidBlockParent block.parent prevHash),b)
    else do
      let expected ← nextHeight last.height
      if expected ≠ block.height then return (.error (.invalidBlockHeight block.height expected),b)
      else return (.ok (),← advance c sch u b block)

def consumeAll (b : BlockStateBuilder A) : List (Block A) → Except Panic (List (Except Error Unit) × BlockStateBuilder A)
  | [] => .ok ([],b)
  | block :: blocks => do
    let (result,b) ← consume c sch u b block
    let (results,b) ← consumeAll b blocks
    return (result :: results,b)

end

end BlockStateBuilder

def Block.hashed (c : Toolchain A) (b : Block A) : Block A := (b.hash c).2

def Block.Follows (c : Toolchain A) (newer older : Block A) : Prop :=
  newer.parent = (older.hash c).1 ∧ newer.height.toNat = older.height.toNat + 1

theorem hashed_fields (c : Toolchain A) (b : Block A) : (b.hashed c).height = b.height ∧ (b.hashed c).parent = b.parent ∧
    (b.hashed c).transactions = b.transactions ∧ ((b.hashed c).hash c) = b.hash c := by
  obtain ⟨height,parent,transactions,cell⟩ := b
  cases cell <;> exact ⟨rfl,rfl,rfl,rfl⟩

theorem hashed_twice (c : Toolchain A) (b : Block A) : (b.hashed c).hashed c = b.hashed c :=
  congrArg Prod.snd (hashed_fields c b).2.2.2

theorem follows_hashed {c : Toolchain A} {newer older : Block A} :
    newer.Follows c (older.hashed c) ↔ newer.Follows c older := by
  unfold Block.Follows
  rw [(hashed_fields c older).1,(hashed_fields c older).2.2.2]

theorem hashed_follows {c : Toolchain A} {newer older : Block A} :
    (newer.hashed c).Follows c older ↔ newer.Follows c older := by
  unfold Block.Follows
  rw [(hashed_fields c newer).1,(hashed_fields c newer).2.1]

theorem nextHeight_ok {height next : UInt64} :
    nextHeight height = .ok next ↔ height.toNat + 1 < 2^64 ∧ next.toNat = height.toNat + 1 := by
  unfold nextHeight
  split
  · rename_i fits
    have sum : (height+1).toNat = height.toNat + 1 := by
      rw [UInt64.toNat_add]
      exact Nat.mod_eq_of_lt fits
    rw [Except.ok.injEq,← UInt64.toNat_inj,sum]
    omega
  · rename_i full
    constructor
    · intro counted
      cases counted
    · intro fits
      exact absurd fits.1 full

theorem nextHeight_error {height : UInt64} {panic : BlockStateBuilder.Panic} (stopped : nextHeight height = .error panic) :
    panic = .heightOverflow ∧ ¬ height.toNat + 1 < 2^64 := by
  unfold nextHeight at stopped
  split at stopped
  · cases stopped
  · rename_i full
    exact ⟨(Except.error.inj stopped).symm,full⟩

namespace BlockStateBuilder
section
variable {c : Toolchain A} {sch : Scheduler A} {u : Components.Labeling} {b next : BlockStateBuilder A} {block : Block A}

def replay (c : Toolchain A) (sch : Scheduler A) (u : Components.Labeling)
    (stores : InMemoryStateStore A × InMemoryStateStore A) (block : Block A) : InMemoryStateStore A × InMemoryStateStore A :=
  match executeMany c.toRuntime sch u stores.1.get stores.2.get block.transactions with
  | .ok results => ((successes results).foldl InMemoryStateStore.apply stores.1,
      stores.2.apply (tryPrecompilePredicates c (mergeAll (successes results))))
  | .error _ => stores

theorem apply_mergeAll (store : InMemoryStateStore A) (diffs : List (StateDiff A)) :
    store.apply (mergeAll diffs) = diffs.foldl InMemoryStateStore.apply store := by
  apply InMemoryStateStore.ext_get
  rw [InMemoryStateStore.apply_get,InMemoryStateStore.foldl_get,mergeAll_patch,Patch.apply_prod]

theorem advance_replay (c : Toolchain A) (sch : Scheduler A) (u : Components.Labeling) (b : BlockStateBuilder A)
    {block : Block A} (ends : ∀ tx ∈ block.transactions, Collect.Ends tx) : advance c sch u b block = .ok ⟨b.historyLen,(replay c sch u (b.state,b.codecache) block).1,
      (replay c sch u (b.state,b.codecache) block).2,pushRecent b.historyLen.get b.recent block⟩ := by
  obtain ⟨out,ran,_⟩ := Schedule.executeMany_function ends c.toRuntime sch u b.state.get b.codecache.get
  unfold advance replay
  simp only [ran,Except.mapError,bind,Except.bind,pure,Except.pure,apply_mergeAll]

-- Everything that `consume` can do: refuse the block, stop at the last height of
-- all, or take the block in.
theorem consume_cases (c : Toolchain A) (sch : Scheduler A) (u : Components.Labeling) {block last : Block A}
    {older : List (Block A)} (ends : ∀ tx ∈ block.transactions, Collect.Ends tx) (front : b.recent = last :: older) :
    (∃ error, consume c sch u b block = .ok (.error error,{b with recent := last.hashed c :: older}) ∧
      ¬ block.Follows c last) ∨
    (consume c sch u b block = .error .heightOverflow ∧ block.parent = (last.hash c).1 ∧
      ¬ last.height.toNat + 1 < 2^64) ∨
    (block.Follows c last ∧ consume c sch u b block = .ok (.ok (),
      ⟨b.historyLen,(replay c sch u (b.state,b.codecache) block).1,(replay c sch u (b.state,b.codecache) block).2,
        pushRecent b.historyLen.get (last.hashed c :: older) block⟩)) := by
  have kept : (last.hash c).2.height = last.height := (hashed_fields c last).1
  unfold consume
  simp only [front,kept]
  split
  · rename_i other
    exact .inl ⟨_,rfl,fun follows => other follows.1.symm⟩
  · rename_i same
    cases counted : nextHeight last.height with
    | error panic =>
        obtain ⟨rfl,full⟩ := nextHeight_error counted
        exact .inr (.inl ⟨rfl,(not_not.mp same).symm,full⟩)
    | ok expected =>
        obtain ⟨fits,value⟩ := nextHeight_ok.mp counted
        simp only [bind,Except.bind,pure,Except.pure]
        split
        · rename_i different
          refine .inl ⟨_,rfl,fun follows => different (UInt64.toNat_inj.mp ?_)⟩
          rw [value,follows.2]
        · rename_i equal
          obtain rfl := not_not.mp equal
          refine .inr (.inr ⟨⟨(not_not.mp same).symm,value⟩,?_⟩)
          rw [advance_replay c sch u _ ends]
          rfl

end

section
variable {c : Toolchain} {sch : Scheduler} {u : Components.Labeling} {b next : BlockStateBuilder} {block : Block}

structure Valid (c : Toolchain) (b : BlockStateBuilder) : Prop where
  nonempty : b.recent ≠ []
  bounded : b.recent.length ≤ b.historyLen.get
  linked : b.recent.IsChain (Block.Follows c)

theorem dropLast_linked {R : Block → Block → Prop} {l : List Block} (linked : l.IsChain R) : l.dropLast.IsChain R :=
  List.IsChain.prefix linked (List.dropLast_prefix l)

theorem push_valid {last : Block} {older : List Block} (valid : Valid c b) (front : b.recent = last :: older)
    (follows : block.Follows c last) (state codecache : InMemoryStateStore) :
    Valid c ⟨b.historyLen,state,codecache,pushRecent b.historyLen.get (last.hashed c :: older) block⟩ := by
  obtain ⟨_,bounded,linked⟩ := valid
  have positive := b.historyLen.nonzero
  rw [front] at bounded linked
  simp only [List.length_cons] at bounded
  have whole : (block :: last.hashed c :: older).IsChain (Block.Follows c) := by
    refine List.isChain_cons_cons.mpr ⟨follows_hashed.mpr follows,?_⟩
    cases older with
    | nil => exact List.isChain_singleton _
    | cons next older =>
        obtain ⟨first,rest⟩ := List.isChain_cons_cons.mp linked
        exact List.isChain_cons_cons.mpr ⟨hashed_follows.mpr first,rest⟩
  unfold pushRecent
  split
  · rename_i long
    refine ⟨?_,?_,dropLast_linked whole⟩
    · simp
    · simp only [List.length_dropLast,List.length_cons]
      omega
  · rename_i short
    exact ⟨by simp,Nat.le_of_not_lt short,whole⟩

theorem hashed_valid {last : Block} {older : List Block} (valid : Valid c b) (front : b.recent = last :: older) :
    Valid c {b with recent := last.hashed c :: older} := by
  obtain ⟨_,bounded,linked⟩ := valid
  rw [front] at bounded linked
  refine ⟨by simp,by simpa using bounded,?_⟩
  cases older with
  | nil => exact List.isChain_singleton _
  | cons next older =>
      obtain ⟨first,rest⟩ := List.isChain_cons_cons.mp linked
      exact List.isChain_cons_cons.mpr ⟨hashed_follows.mpr first,rest⟩

def Low (blocks : List Block) : Prop := ∀ block ∈ blocks, block.height.toNat + 1 < 2^64

theorem push_low {n : Nat} {recent : List Block} (low : Low recent) (fits : block.height.toNat + 1 < 2^64) :
    Low (pushRecent n recent block) := by
  intro other member
  have inside : other ∈ block :: recent := by
    unfold pushRecent at member
    split at member
    · exact List.dropLast_subset _ member
    · exact member
  rcases List.mem_cons.mp inside with rfl | old
  · exact fits
  · exact low other old

theorem hashed_low {last : Block} {older : List Block} (low : Low (last :: older)) : Low (last.hashed c :: older) := by
  intro other member
  rcases List.mem_cons.mp member with rfl | old
  · rw [(hashed_fields c last).1]
    exact low last (by simp)
  · exact low other (List.mem_cons_of_mem _ old)

def accepted : List Block → List (Except Error Unit) → List Block
  | block :: blocks,.ok () :: results => block :: accepted blocks results
  | _ :: blocks,.error _ :: results => accepted blocks results
  | _,_ => []

theorem consumeAll_valid (sch : Scheduler) (u : Components.Labeling) (valid : Valid c b) (recent : Low b.recent) {blocks : List Block} (low : Low blocks) :
    ∃ results next, consumeAll c sch u b blocks = .ok (results,next) ∧ results.length = blocks.length ∧
      Valid c next ∧ next.historyLen = b.historyLen ∧
      (next.state,next.codecache) = (accepted blocks results).foldl (replay c sch u) (b.state,b.codecache) := by
  induction blocks generalizing b with
  | nil => exact ⟨[],b,rfl,rfl,valid,rfl,rfl⟩
  | cons block blocks ih =>
      have later : Low blocks := fun other member => low other (List.mem_cons_of_mem _ member)
      cases front : b.recent with
      | nil => exact absurd front valid.nonempty
      | cons last older =>
          rw [front] at recent
          rcases consume_cases c sch u (Collect.all_end block.transactions) front with
            ⟨error,refused,_⟩ | ⟨_,_,full⟩ | ⟨follows,taken⟩
          · obtain ⟨results,next,ran,sized,kept,same,stores⟩ := ih (hashed_valid valid front) (hashed_low recent) later
            refine ⟨.error error :: results,next,?_,by simp [sized],kept,same,stores⟩
            simp only [consumeAll,refused,bind,Except.bind,ran,pure,Except.pure]
          · exact absurd (recent last (by simp)) full
          · obtain ⟨results,next,ran,sized,kept,same,stores⟩ := ih (push_valid valid front follows
              (replay c sch u (b.state,b.codecache) block).1 (replay c sch u (b.state,b.codecache) block).2)
              (push_low (hashed_low recent) (low block (by simp))) later
            refine ⟨.ok () :: results,next,?_,by simp [sized],kept,same,stores⟩
            simp only [consumeAll,taken,bind,Except.bind,ran,pure,Except.pure]

-- Whatever blocks come in, the builder holds a linked piece of chain and the
-- state that the accepted blocks give; a refused block only fills the cell with
-- the hash of the last block.
theorem builder_follows_chain (c : Toolchain) (sch : Scheduler) (u : Components.Labeling) (historyLen : NonZeroUsize)
    (state codecache : InMemoryStateStore) (initial : Block) (b : BlockStateBuilder) (blocks : List Block)
    (made : new historyLen state codecache [initial] = .ok b) (start : initial.height.toNat + 1 < 2^64)
    (low : ∀ block ∈ blocks, block.height.toNat + 1 < 2^64) :
    ∃ results next, consumeAll c sch u b blocks = .ok (results,next) ∧ results.length = blocks.length ∧
      (∃ last, next.last = .ok last) ∧ next.recent.length ≤ historyLen.get ∧
      next.recent.IsChain (Block.Follows c) ∧
      next.state = ((accepted blocks results).foldl (replay c sch u) (state,codecache)).1 ∧
      ∀ block error after, consume c sch u next block = .ok (.error error,after) →
        after.state = next.state ∧ after.codecache = next.codecache ∧
        after.recent.map (Block.hashed c) = next.recent.map (Block.hashed c) := by
  obtain rfl := Except.ok.inj made
  have valid : Valid c ⟨historyLen,state,codecache,[initial]⟩ :=
    ⟨by simp,historyLen.nonzero,List.isChain_singleton _⟩
  have recent : Low [initial] := by
    intro block member
    rw [List.mem_singleton.mp member]
    exact start
  obtain ⟨results,next,ran,sized,kept,same,stores⟩ := consumeAll_valid sch u valid recent low
  have length : next.recent.length ≤ historyLen.get := by simpa [same] using kept.bounded
  cases front : next.recent with
  | nil => exact absurd front kept.nonempty
  | cons last older =>
      refine ⟨results,next,ran,sized,⟨last,by simp [BlockStateBuilder.last,front]⟩,length,kept.linked,
        congrArg Prod.fst stores,?_⟩
      intro block error after refused
      rcases consume_cases c sch u (Collect.all_end block.transactions) front with
        ⟨_,result,_⟩ | ⟨result,_⟩ | ⟨_,result⟩
      · rw [result] at refused
        cases refused
        refine ⟨rfl,rfl,?_⟩
        simp [front,hashed_twice]
      · rw [result] at refused
        cases refused
      · rw [result] at refused
        cases refused

end

end BlockStateBuilder

namespace BuilderExample
open BlockStateBuilder

def zeroDigest : Bytes :=
  [0x67,0x93,0xbc,0xf0,0x74,0x62,0x57,0x10,0x7f,0xfe,0x44,0x52,0x0e,0x9a,0xec,0xd9,
   0x1b,0xb4,0x15,0xd0,0x39,0x2c,0xf7,0x5f,0x00,0x3c,0xc8,0x9c,0x60,0xb3,0x92,0x36]

def childDigest : Bytes :=
  [0xaf,0xbc,0x91,0x27,0xb4,0x5f,0x14,0xa5,0x40,0x48,0xea,0x33,0x20,0xb8,0xbd,0xeb,
   0x1b,0xb1,0x69,0x66,0x45,0x3f,0x28,0xd5,0xe7,0x87,0x35,0x45,0x84,0x97,0xc1,0x6e]

def library : Account := ⟨acceptWasm,.id ⟨.inline acceptWasm,[]⟩⟩
def publishes : Transaction :=
  .new [] ((∅ : BTreeMap Address AccountChange).insert FootprintExample.parent (.createAccount library))
def child : Block := ⟨1,⟨sha3Code,zeroDigest⟩,[publishes],none⟩

def sha3 (message : Bytes) : Bytes :=
  if message = Wire.block (A:=Address) 0 ⟨0,[]⟩ [] then zeroDigest
  else if message = Wire.block 1 ⟨sha3Code,zeroDigest⟩ [publishes] then childDigest
  else if message = acceptWasm then acceptDigest
  else List.replicate 32 0

def hashing : Hashing := Wire.hashing sha3 <| by
  intro message
  unfold sha3
  split
  · rfl
  · split
    · rfl
    · split <;> rfl

def artifact : Bytes := [0x57,0x41,0x53,0x4d,0x45,0x52]

def toolchain : Toolchain := {acceptHost.runtime with
  toHashing := hashing
  deserialize := fun bytes => if bytes = artifact then some acceptExports else none
  encodeBlock := Wire.block
  serialize := fun _ => some artifact}

def empty : InMemoryStateStore := ⟨∅⟩
def historyLen : NonZeroUsize := ⟨1,Nat.one_pos⟩
def builder : BlockStateBuilder := ⟨historyLen,empty,empty,[.zero]⟩
end BuilderExample

theorem child_of_zero_taken :
    (BlockStateBuilder.consumeAll BuilderExample.toolchain .inOrder .quick BuilderExample.builder
      [BuilderExample.child,BuilderExample.child]).map Prod.fst =
        .ok [.ok (),.error (.invalidBlockParent ⟨sha3Code,BuilderExample.zeroDigest⟩
          ⟨sha3Code,BuilderExample.childDigest⟩)] ∧
    ∃ results next, BlockStateBuilder.consumeAll BuilderExample.toolchain .inOrder .quick BuilderExample.builder
      [BuilderExample.child,BuilderExample.child] = .ok (results,next) ∧ next.recent.length ≤ 1 := by
  refine ⟨by decide +kernel,?_⟩
  obtain ⟨results,next,ran,_,_,bounded,_⟩ := BlockStateBuilder.builder_follows_chain BuilderExample.toolchain .inOrder
    .quick BuilderExample.historyLen BuilderExample.empty BuilderExample.empty .zero BuilderExample.builder
    [BuilderExample.child,BuilderExample.child] rfl (by decide) (by decide)
  exact ⟨results,next,ran,bounded⟩

end AnomaAlpha
