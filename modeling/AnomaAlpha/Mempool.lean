import AnomaAlpha.Builder

set_option linter.unusedSectionVars false

namespace AnomaAlpha
open Execution BlockStateBuilder

structure Mempool (A : Type := Address) [Ord A] where
  txs : List (Transaction A)
  blocks : BlockStateBuilder A

variable {A : Type} [DecidableEq A] [Ord A] [Std.TransOrd A] [Std.LawfulEqOrd A]
  [AddressSpace A]

-- `rejected` is the `expect` of `produce`.
inductive Mempool.Panic where
  | block (panic : BlockStateBuilder.Panic)
  | rejected (error : BlockStateBuilder.Error)

-- What comes back when the encoding of a block is decoded.
def Block.fresh (b : Block A) : Block A := ⟨b.height,b.parent,b.transactions.map Transaction.fresh,none⟩

structure Produced (A : Type := Address) [Ord A] where
  block : Block A
  state : InMemoryStateStore A
  codecache : InMemoryStateStore A

section
variable (c : Toolchain A) (sch : Scheduler A) (u : Components.Labeling)

namespace Mempool

def new (blockConsumer : BlockStateBuilder A) : Mempool A := ⟨[],blockConsumer⟩

def consume (m : Mempool A) (tx : Transaction A) : Mempool A := {m with txs := m.txs ++ [tx]}

-- The parent stays in `recent`, with its cell filled by `Block::new`.
def produce (m : Mempool A) : Except Panic (Block A × Mempool A) := do
  let parent ← m.blocks.last.mapError Panic.block
  let (block,parent) ← (Block.new c parent m.txs).mapError Panic.block
  let blocks := {m.blocks with recent := parent :: m.blocks.recent.tail}
  let (result,blocks) ← (blocks.consume c sch u block).mapError Panic.block
  match result with
  | .error error => throw (.rejected error)
  | .ok () => return (block,⟨[],blocks⟩)

inductive Run (start : Mempool A) : Mempool A → List (Produced A) → Prop where
  | start : Run start start []
  | consume : Run start m log → tx.fresh = tx → Run start (m.consume tx) log
  | produce : Run start m log → m.produce c sch u = .ok (block,next) →
      Run start next (⟨block,next.blocks.state,next.blocks.codecache⟩ :: log)

end Mempool

def Produced.Follows (newer older : Produced A) : Prop :=
  newer.block.Follows c older.block ∧ newer.block.fresh = newer.block ∧
    (newer.state,newer.codecache) = replay c sch u (older.state,older.codecache) newer.block

-- The builder stands at this block, up to the cell of the block.
structure BlockStateBuilder.At (b : BlockStateBuilder A) (entry : Produced A) : Prop where
  front : ∃ last older, b.recent = last :: older ∧ last.hashed c = entry.block.hashed c
  state : b.state = entry.state
  codecache : b.codecache = entry.codecache

end

section
variable {c : Toolchain A} {sch : Scheduler A} {u : Components.Labeling}

theorem hashed_same {a b : Block A} (same : a.hashed c = b.hashed c) : a.hash c = b.hash c ∧ a.height = b.height := by
  constructor
  · rw [← (hashed_fields c a).2.2.2,same,(hashed_fields c b).2.2.2]
  · rw [← (hashed_fields c a).1,same,(hashed_fields c b).1]

theorem follows_same {block a b : Block A} (same : a.hashed c = b.hashed c) : block.Follows c a ↔ block.Follows c b := by
  rw [← follows_hashed,same,follows_hashed]

theorem pushRecent_front {n : Nat} (positive : 0 < n) (recent : List (Block A)) (block : Block A) :
    ∃ older, pushRecent n recent block = block :: older := by
  unfold pushRecent
  split
  · rename_i long
    cases recent with
    | nil =>
        simp only [List.length_singleton] at long
        omega
    | cons last older => exact ⟨(last :: older).dropLast,rfl⟩
  · exact ⟨recent,rfl⟩

theorem consume_at (sch : Scheduler A) (u : Components.Labeling) {b : BlockStateBuilder A} {entry : Produced A}
    (at_entry : b.At c entry) {block : Block A} (ends : ∀ tx ∈ block.transactions, Collect.Ends tx) :
    (∃ error next, b.consume c sch u block = .ok (.error error,next) ∧ next.At c entry ∧ ¬ block.Follows c entry.block) ∨
    (b.consume c sch u block = .error .heightOverflow ∧ block.parent = (entry.block.hash c).1 ∧
      ¬ entry.block.height.toNat + 1 < 2^64) ∨
    (block.Follows c entry.block ∧ ∃ next, b.consume c sch u block = .ok (.ok (),next) ∧
      next.At c ⟨block,(replay c sch u (entry.state,entry.codecache) block).1,
        (replay c sch u (entry.state,entry.codecache) block).2⟩) := by
  obtain ⟨⟨last,older,front,same⟩,state,codecache⟩ := at_entry
  obtain ⟨hash,height⟩ := hashed_same same
  rcases consume_cases c sch u ends front with ⟨error,refused,other⟩ | ⟨stopped,parent,full⟩ | ⟨follows,taken⟩
  · refine .inl ⟨error,_,refused,⟨⟨last.hashed c,older,rfl,?_⟩,state,codecache⟩,fun follows => other ?_⟩
    · rw [hashed_twice,same]
    · exact (follows_same same).mpr follows
  · rw [hash] at parent
    rw [height] at full
    exact .inr (.inl ⟨stopped,parent,full⟩)
  · rw [state,codecache] at taken
    obtain ⟨rest,pushed⟩ := pushRecent_front b.historyLen.nonzero (last.hashed c :: older) block
    exact .inr (.inr ⟨(follows_same same).mp follows,_,taken,⟨⟨block,rest,pushed,rfl⟩,rfl,rfl⟩⟩)

-- The `expect` of `produce` holds: only the end of the heights stops it.
theorem produce_cases (sch : Scheduler A) (u : Components.Labeling) {m : Mempool A} {entry : Produced A}
    (at_entry : m.blocks.At c entry) (ends : ∀ tx ∈ m.txs, Collect.Ends tx) :
    (m.produce c sch u = .error (.block .heightOverflow) ∧ ¬ entry.block.height.toNat + 1 < 2^64) ∨
    ∃ block next, m.produce c sch u = .ok (block,next) ∧ next.txs = [] ∧ block.transactions = m.txs ∧
      block.hashCache = none ∧ block.Follows c entry.block ∧
      next.blocks.At c ⟨block,(replay c sch u (entry.state,entry.codecache) block).1,
        (replay c sch u (entry.state,entry.codecache) block).2⟩ := by
  obtain ⟨⟨last,older,front,same⟩,state,codecache⟩ := at_entry
  have found : m.blocks.last = .ok last := by
    unfold BlockStateBuilder.last
    rw [front]
  cases counted : nextHeight last.height with
  | error panic =>
      obtain ⟨rfl,full⟩ := nextHeight_error counted
      rw [(hashed_same same).2] at full
      refine .inl ⟨?_,full⟩
      simp only [Mempool.produce,found,Block.new,counted,Except.mapError,bind,Except.bind]
  | ok height =>
      let block : Block A := ⟨height,(last.hash c).1,m.txs,none⟩
      obtain ⟨_,value⟩ := nextHeight_ok.mp counted
      have follows : block.Follows c entry.block := (follows_same same).mp ⟨rfl,value⟩
      have parent : ({m.blocks with recent := last.hashed c :: older} : BlockStateBuilder A).At c entry :=
        ⟨⟨last.hashed c,older,rfl,by rw [hashed_twice,same]⟩,state,codecache⟩
      rcases consume_at sch u parent (show ∀ tx ∈ block.transactions, Collect.Ends tx from ends) with
        ⟨_,_,_,_,other⟩ | ⟨_,_,full⟩ | ⟨_,next,taken,moved⟩
      · exact absurd follows other
      · have bound := follows.2
        have small := block.height.toNat_lt
        omega
      · refine .inr ⟨block,⟨[],next⟩,?_,rfl,rfl,rfl,follows,moved⟩
        have cell : (last.hash c).2 = last.hashed c := rfl
        simp only [Mempool.produce,found,Block.new,counted,Except.mapError,bind,Except.bind,pure,Except.pure,front,
          List.tail_cons,cell]
        simp only [block] at taken
        rw [taken]

end

section
namespace Mempool

inductive Call (A : Type := Address) [Ord A] where
  | consume (tx : Transaction A)
  | produce

def Call.consumed : Call A → List (Transaction A)
  | .consume tx => [tx]
  | .produce => []

def asked (calls : List (Call A)) : Nat := calls.countP fun call => call.consumed.isEmpty

def run (c : Toolchain A) (sch : Scheduler A) (u : Components.Labeling) (m : Mempool A) :
    List (Call A) → Except Panic (List (Block A) × Mempool A)
  | [] => .ok ([],m)
  | .consume tx :: calls => run c sch u (m.consume tx) calls
  | .produce :: calls => do
    let (block,m) ← m.produce c sch u
    let (blocks,m) ← run c sch u m calls
    return (block :: blocks,m)

variable {c : Toolchain A} {sch : Scheduler A} {u : Components.Labeling} {m : Mempool A} {entry : Produced A}

theorem run_accounts (at_entry : m.blocks.At c entry) {calls : List (Call A)}
    (ends : ∀ tx ∈ m.txs ++ calls.flatMap Call.consumed, Collect.Ends tx)
    (low : entry.block.height.toNat + asked calls < 2^64) :
    ∃ blocks next, m.run c sch u calls = .ok (blocks,next) ∧
      (entry.block :: blocks).IsChain (fun older newer => newer.Follows c older) ∧
      blocks.flatMap Block.transactions ++ next.txs = m.txs ++ calls.flatMap Call.consumed := by
  induction calls generalizing m entry with
  | nil => exact ⟨[],m,rfl,List.isChain_singleton _,by simp⟩
  | cons call calls ih =>
      cases call with
      | consume tx =>
          have same : asked (.consume tx :: calls) = asked calls := by simp [asked,Call.consumed]
          obtain ⟨blocks,next,ran,linked,accounted⟩ := ih (m:=m.consume tx) at_entry
            (by simpa [Mempool.consume,Call.consumed] using ends) (same ▸ low)
          refine ⟨blocks,next,ran,linked,?_⟩
          rw [accounted,List.flatMap_cons,← List.append_assoc]
          rfl
      | produce =>
          have more : asked (.produce :: calls) = asked calls + 1 := by simp [asked,Call.consumed]
          rw [more] at low
          rcases produce_cases sch u at_entry fun tx member => ends tx (List.mem_append_left _ member) with
            ⟨_,full⟩ | ⟨block,after,made,cleared,txs,_,follows,moved⟩
          · omega
          · have height := follows.2
            obtain ⟨blocks,next,ran,linked,accounted⟩ := ih moved (by
              rw [cleared]
              intro tx member
              exact ends tx (List.mem_append_right _ member)) (by
              change block.height.toNat + asked calls < 2^64
              omega)
            refine ⟨block :: blocks,next,?_,List.isChain_cons_cons.mpr ⟨follows,linked⟩,?_⟩
            · unfold run
              exact Fallible.bind_ok.mpr ⟨_,made,Fallible.bind_ok.mpr ⟨_,ran,rfl⟩⟩
            · rw [List.flatMap_cons,List.append_assoc,accounted,cleared,txs,List.flatMap_cons]
              rfl

end Mempool

end

section
variable {c : Toolchain} {sch : Scheduler} {u : Components.Labeling}

theorem run_linked {start m : Mempool} {genesis : Produced} {log : List Produced} (run : Mempool.Run c sch u start m log)
    (empty : start.txs = []) (at_genesis : start.blocks.At c genesis) :
    (log ++ [genesis]).IsChain (Produced.Follows c sch u) ∧ (∀ tx ∈ m.txs, tx.fresh = tx) ∧
    ∃ entry, (log ++ [genesis]).head? = some entry ∧ m.blocks.At c entry := by
  induction run with
  | start => exact ⟨List.isChain_singleton _,by simp [empty],genesis,rfl,at_genesis⟩
  | consume _ decoded ih =>
      obtain ⟨linked,fresh,standing⟩ := ih
      refine ⟨linked,?_,standing⟩
      intro tx member
      rcases List.mem_append.mp member with old | new
      · exact fresh tx old
      · rw [List.mem_singleton.mp new]
        exact decoded
  | @produce m log block next _ produced ih =>
      obtain ⟨linked,fresh,entry,head,standing⟩ := ih
      rcases produce_cases sch u standing (Collect.all_end _) with ⟨stopped,_⟩ | ⟨made,after,result,cleared,txs,cell,follows,moved⟩
      · rw [stopped] at produced
        cases produced
      · obtain ⟨rfl,rfl⟩ := Prod.mk.inj (Except.ok.inj (result.symm.trans produced))
        have decoded : made.fresh = made := by
          obtain ⟨height,parent,transactions,hashCache⟩ := made
          simp only at txs cell
          subst txs cell
          simp only [Block.fresh,Block.mk.injEq,and_true,true_and]
          exact (List.map_congr_left fresh).trans (List.map_id _)
        refine ⟨?_,by simp [cleared],_,rfl,⟨moved.front,rfl,rfl⟩⟩
        refine List.isChain_cons.mpr ⟨?_,linked⟩
        intro older isHead
        obtain rfl := Option.some.inj (head.symm.trans isHead)
        refine ⟨follows,decoded,?_⟩
        rw [moved.state,moved.codecache]

theorem linked_before {log : List Produced} {genesis entry : Produced} {R : Produced → Produced → Prop}
    (linked : (log ++ [genesis]).IsChain R) (member : entry ∈ log) : ∃ before ∈ log ++ [genesis], R entry before := by
  induction log with
  | nil => cases member
  | cons newest log ih =>
      rw [List.cons_append,List.isChain_cons] at linked
      obtain ⟨newestBefore,rest⟩ := linked
      rcases List.mem_cons.mp member with rfl | older
      · cases log with
        | nil => exact ⟨genesis,by simp,newestBefore genesis rfl⟩
        | cons next log => exact ⟨next,by simp,newestBefore next rfl⟩
      · obtain ⟨before,inside,related⟩ := ih rest older
        exact ⟨before,List.mem_cons_of_mem _ inside,related⟩

theorem linked_height {entries : List Produced} (linked : entries.IsChain (Produced.Follows c sch u)) {a b : Produced}
    (left : a ∈ entries) (right : b ∈ entries) (same : a.block.height.toNat = b.block.height.toNat) : a = b := by
  have falling : (entries.map fun entry => entry.block.height.toNat).IsChain (· > ·) := by
    refine (List.isChain_map _).mpr (linked.imp ?_)
    intro newer older follows
    have step := follows.1.2
    omega
  have distinct : (entries.map fun entry => entry.block.height.toNat).Nodup :=
    (List.isChain_iff_pairwise.mp falling).imp Nat.ne_of_gt
  exact List.inj_on_of_nodup_map distinct left right same

-- The chain of a producer does not give two heights to one hash.
def HashesApart (c : Toolchain) (entries : List Produced) : Prop := ∀ a ∈ entries, ∀ b ∈ entries,
  (a.block.hash c).1 = (b.block.hash c).1 → a.block.height = b.block.height

-- A delivered block is refused or is the next one after the block where the
-- follower stands.
theorem deliver_at {b : BlockStateBuilder} {log : List Produced} {genesis entry sent : Produced}
    (linked : (log ++ [genesis]).IsChain (Produced.Follows c sch u)) (apart : HashesApart c (log ++ [genesis]))
    (inside : entry ∈ log ++ [genesis]) (at_entry : b.At c entry) (member : sent ∈ log) :
    ∃ result next, b.consume c sch u sent.block.fresh = .ok (result,next) ∧
      ∃ after ∈ log ++ [genesis], next.At c after := by
  obtain ⟨before,beforeInside,follows,decoded,stores⟩ := linked_before linked member
  rw [decoded]
  rcases consume_at sch u at_entry (Collect.all_end sent.block.transactions) with
    ⟨error,next,refused,stays,_⟩ | ⟨_,parent,full⟩ | ⟨taken,next,accepted,moved⟩
  · exact ⟨_,next,refused,entry,inside,stays⟩
  · have height := apart before beforeInside entry inside (follows.1.symm.trans parent)
    have small := sent.block.height.toNat_lt
    have step := follows.2
    rw [height] at step
    omega
  · have height : before.block.height.toNat = entry.block.height.toNat := by
      have one := follows.2
      have two := taken.2
      omega
    obtain rfl := linked_height linked beforeInside inside height
    refine ⟨_,next,accepted,sent,List.mem_append_left _ member,⟨moved.front,?_,?_⟩⟩
    · rw [moved.state,← stores]
    · rw [moved.codecache,← stores]

theorem deliveries_at {b : BlockStateBuilder} {log : List Produced} {genesis entry : Produced}
    (linked : (log ++ [genesis]).IsChain (Produced.Follows c sch u)) (apart : HashesApart c (log ++ [genesis]))
    (inside : entry ∈ log ++ [genesis]) (at_entry : b.At c entry) {deliveries : List Block}
    (sent : ∀ block ∈ deliveries, ∃ entry ∈ log, block = entry.block.fresh) :
    ∃ results next, consumeAll c sch u b deliveries = .ok (results,next) ∧
      ∃ after ∈ log ++ [genesis], next.At c after := by
  induction deliveries generalizing b entry with
  | nil => exact ⟨[],b,rfl,entry,inside,at_entry⟩
  | cons block deliveries ih =>
      obtain ⟨source,member,rfl⟩ := sent block (by simp)
      obtain ⟨result,next,consumed,after,afterInside,at_after⟩ := deliver_at linked apart inside at_entry member
      obtain ⟨results,last,ran,standing⟩ := ih afterInside at_after
        fun other later => sent other (List.mem_cons_of_mem _ later)
      refine ⟨result :: results,last,?_,standing⟩
      simp only [consumeAll,consumed,ran,bind,Except.bind,pure,Except.pure]

end

-- Whatever is lost, repeated or reordered, a follower stands at a block of the
-- producer with the stores that the producer had there.
theorem followers_agree (c : Toolchain) (sch : Scheduler) (u : Components.Labeling) (historyLen ownLen : NonZeroUsize)
    (state codecache : InMemoryStateStore) (genesis : Block) (blocks follower : BlockStateBuilder) (m : Mempool)
    (log : List Produced) (deliveries : List Block)
    (made : BlockStateBuilder.new historyLen state codecache [genesis] = .ok blocks)
    (joined : BlockStateBuilder.new ownLen state codecache [genesis] = .ok follower)
    (run : Mempool.Run c sch u (.new blocks) m log) (apart : HashesApart c (log ++ [⟨genesis,state,codecache⟩]))
    (sent : ∀ block ∈ deliveries, ∃ entry ∈ log, block = entry.block.fresh) :
    ∃ results next last, consumeAll c sch u follower deliveries = .ok (results,next) ∧ next.last = .ok last ∧
      ∃ entry ∈ log ++ [⟨genesis,state,codecache⟩], last.hashed c = entry.block.hashed c ∧
        ∀ a, next.state.get a = entry.state.get a ∧ next.codecache.get a = entry.codecache.get a := by
  obtain rfl := Except.ok.inj made
  obtain rfl := Except.ok.inj joined
  have start : ∀ len, (⟨len,state,codecache,[genesis]⟩ : BlockStateBuilder).At c ⟨genesis,state,codecache⟩ :=
    fun _ => ⟨⟨genesis,[],rfl,rfl⟩,rfl,rfl⟩
  obtain ⟨linked,_⟩ := run_linked run rfl (start historyLen)
  obtain ⟨results,next,ran,entry,inside,⟨⟨last,older,front,same⟩,sameState,sameCache⟩⟩ :=
    deliveries_at linked apart (by simp) (start ownLen) sent
  refine ⟨results,next,last,ran,?_,entry,inside,same,?_⟩
  · unfold BlockStateBuilder.last
    rw [front]
  · intro a
    rw [sameState,sameCache]
    exact ⟨rfl,rfl⟩

namespace MempoolExample
open BuilderExample

def filled : Mempool := (Mempool.new builder).consume publishes

theorem hashes_differ : (child.hash toolchain).1 ≠ (Block.zero.hash toolchain).1 := by
  have zeroHash : (Block.zero.hash toolchain).1 = ⟨sha3Code,zeroDigest⟩ := by decide
  have childHash : (child.hash toolchain).1 = ⟨sha3Code,childDigest⟩ := by decide +kernel
  rw [zeroHash,childHash]
  decide

theorem child_produced : ∃ next, filled.produce toolchain .inOrder .quick = .ok (child,next) := by
  have start : filled.blocks.At toolchain ⟨.zero,empty,empty⟩ := ⟨⟨.zero,[],rfl,rfl⟩,rfl,rfl⟩
  rcases produce_cases .inOrder .quick start (Collect.all_end _) with ⟨_,full⟩ | ⟨block,next,made,_,txs,cell,⟨parent,height⟩,_⟩
  · exact absurd (by decide) full
  · have named : (Block.zero.hash toolchain).1 = ⟨sha3Code,zeroDigest⟩ := by decide
    have first : block.height = 1 := UInt64.toNat_inj.mp height
    have same : block = child := by
      obtain ⟨_,_,_,_⟩ := block
      simp only at txs cell parent first
      subst txs cell parent first
      rw [named]
      rfl
    exact ⟨next,same ▸ made⟩

end MempoolExample

theorem child_reaches_follower : ∃ m entry,
    Mempool.Run BuilderExample.toolchain .inOrder .quick (.new BuilderExample.builder) m [entry] ∧
    ∃ results next, BlockStateBuilder.consumeAll BuilderExample.toolchain .inOrder .quick BuilderExample.builder
        [BuilderExample.child.fresh,BuilderExample.child.fresh] = .ok (results,next) := by
  obtain ⟨next,produced⟩ := MempoolExample.child_produced
  have run : Mempool.Run BuilderExample.toolchain .inOrder .quick (.new BuilderExample.builder) next
      [⟨BuilderExample.child,next.blocks.state,next.blocks.codecache⟩] := .produce (.consume .start rfl) produced
  refine ⟨next,_,run,?_⟩
  have apart : HashesApart BuilderExample.toolchain ([⟨BuilderExample.child,next.blocks.state,next.blocks.codecache⟩] ++
      [⟨.zero,BuilderExample.empty,BuilderExample.empty⟩]) := by
    intro a left b right same
    rw [List.singleton_append,List.mem_pair] at left right
    rcases left with rfl | rfl <;> rcases right with rfl | rfl
    · rfl
    · exact absurd same MempoolExample.hashes_differ
    · exact absurd same.symm MempoolExample.hashes_differ
    · rfl
  obtain ⟨results,after,_,ran,_⟩ := followers_agree BuilderExample.toolchain .inOrder .quick BuilderExample.historyLen
    BuilderExample.historyLen BuilderExample.empty BuilderExample.empty .zero BuilderExample.builder
    BuilderExample.builder next _ [BuilderExample.child.fresh,BuilderExample.child.fresh] rfl rfl run apart (by simp)
  exact ⟨results,after,ran⟩

end AnomaAlpha
