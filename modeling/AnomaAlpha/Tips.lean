import AnomaAlpha.Encodings
import AnomaAlpha.Mempool
import AnomaAlpha.Watcher

namespace AnomaAlpha
open Execution BlockStateBuilder PrefixCode

def Clear (sha3 : Bytes → Bytes) (messages : List Bytes) : Prop :=
  ∀ m ∈ messages, ∀ m' ∈ messages, sha3 m = sha3 m' → m = m'

structure Client.Wired (c : Client) : Prop where
  encodeHash : c.encodeHash = Wire.multihash
  encodeTree : c.encodeTree = Wire.tree
  encodeIntent : c.encodeIntent = Wire.intent
  encodeTransaction : c.encodeTransaction = Wire.transaction
  encodeBlock : c.encodeBlock = Wire.block

namespace Intent

def hashed (i : Intent) : Bytes := Wire.intent i.recentBlockhash i.expectations i.calldata
def signed (i : Intent) : Bytes := Wire.multihash i.recentBlockhash ++ Wire.tree i.expectations

variable {c : Client} {i j : Intent}

theorem signed_apart (typed : i.Typed) (typed' : j.Typed) (small : i.signed.length < 2^32) (same : i.signed = j.signed) :
    i.recentBlockhash = j.recentBlockhash ∧ i.expectations = j.expectations := by
  have apart : Apart (2^32) _ (i.recentBlockhash,i.expectations) (j.recentBlockhash,j.expectations) :=
    (Wire.multihash_apart typed typed').seq (Wire.unique_tree i.expectations j.expectations)
  have pairs := apart.same small same
  simpa using pairs

theorem hashed_apart (typed : i.Typed) (typed' : j.Typed) (small : i.hashed.length < 2^32) (same : i.hashed = j.hashed) :
    i.fresh = j.fresh := by
  have apart : Apart (2^32) _ (Wire.content i) (Wire.content j) := Wire.intent_apart typed typed'
  have contents := apart.same small same
  simp only [Wire.content,Prod.mk.injEq] at contents
  unfold fresh
  rw [contents.1,contents.2.1,contents.2.2]

theorem uint_no_array {n : Nat} {rest rest' : Bytes} : MessagePack.uint n ++ rest ≠ MessagePack.arrayLen 3 ++ rest' := by
  intro same
  unfold MessagePack.uint at same
  split_ifs at same with tiny
  · have head := congrArg UInt8.toNat (List.cons.inj same).1
    rw [UInt8.toNat_ofNat'] at head
    have three : (UInt8.ofNat (0x90+3)).toNat = 0x93 := rfl
    omega
  all_goals exact absurd (List.cons.inj same).1 (by decide)

-- A name is the hash of an array of an array, where a signed message begins with the
-- code of the block hash.
theorem signed_not_hashed : i.signed ≠ j.hashed := by
  intro same
  unfold signed hashed at same
  rw [Wire.multihash_eq,List.append_assoc] at same
  have whole : Wire.intent j.recentBlockhash j.expectations j.calldata = MessagePack.arrayLen 3 ++
      (Wire.multihash j.recentBlockhash ++ (Wire.tree j.expectations ++ Wire.calldata j.calldata)) := by
    simp [Wire.intent,MessagePack.array]
  rw [whole,Wire.multihash_eq,List.append_assoc (MessagePack.arrayLen 3),List.append_assoc] at same
  exact uint_no_array (List.append_cancel_left same)

-- As long as no two of the messages collide: the name of an intent stands for all of
-- it, a signature for the block hash and the expectations, and neither passes for the
-- other.
theorem names_apart (c : Client) (wired : c.Wired) (i j : Intent) (typed : i.Typed) (typed' : j.Typed)
    (small : i.hashed.length < 2^32) (small' : i.signed.length < 2^32)
    (clear : Clear c.sha3 [i.hashed,j.hashed,i.signed,j.signed]) :
    ((i.fresh.hash c.toHashing).1 = (j.fresh.hash c.toHashing).1 ↔ i.fresh = j.fresh) ∧
    ((i.fresh.signingHash c.toHashing).1 = (j.fresh.signingHash c.toHashing).1 ↔
      i.recentBlockhash = j.recentBlockhash ∧ i.expectations = j.expectations) ∧
    (i.fresh.signingHash c.toHashing).1 ≠ (j.fresh.hash c.toHashing).1 := by
  have hash : ∀ i : Intent, (i.fresh.hash c.toHashing).1 = c.wrap i.hashed := by
    intro i
    simp [Intent.hash,getOrInit,fresh,hashed,wired.encodeIntent]
  have signing : ∀ i : Intent, (i.fresh.signingHash c.toHashing).1 = c.wrap i.signed := by
    intro i
    simp [signingHash,getOrInit,fresh,signed,wired.encodeHash,wired.encodeTree]
  have wraps : ∀ {m m'}, c.wrap m = c.wrap m' → c.sha3 m = c.sha3 m' := fun same => (Multihash.mk.inj same).2
  rw [hash,hash,signing,signing]
  refine ⟨⟨fun same => ?_,fun same => ?_⟩,⟨fun same => ?_,fun same => ?_⟩,fun same => ?_⟩
  · exact hashed_apart typed typed' small (clear _ (by simp) _ (by simp) (wraps same))
  · rw [← hash,same,hash]
  · exact signed_apart typed typed' small' (clear _ (by simp) _ (by simp) (wraps same))
  · unfold signed
    rw [same.1,same.2]
  · exact signed_not_hashed (clear _ (by simp) _ (by simp) (wraps same))

end Intent

namespace NamesExample

def plain : Intent := ⟨⟨sha3Code,List.replicate 32 7⟩,.id ⟨.inline [],[]⟩,∅,none⟩
def called : Intent := {plain with calldata := (∅ : Calldata).insert "amount" [5]}

def plainDigest : Bytes :=
  [0xcf,0xaa,0x9d,0xed,0xc7,0x4b,0x03,0x66,0xda,0x8a,0x15,0xb4,0xe0,0x28,0x0e,0xf6,
   0xc7,0x2f,0x7c,0x4a,0xa7,0xec,0x09,0xea,0x42,0xc2,0x55,0x20,0xba,0x15,0x21,0x83]

def calledDigest : Bytes :=
  [0xef,0x7f,0x90,0x97,0x2b,0x6b,0x39,0x81,0xe2,0x29,0x61,0xb8,0x38,0x5f,0xee,0x49,
   0x0b,0x9b,0x1e,0x74,0x4e,0x3f,0xb7,0x9f,0x9a,0xb9,0xbf,0x9a,0xbb,0x75,0xc2,0x6d]

def signedDigest : Bytes :=
  [0x81,0xf4,0xf8,0x0b,0x28,0x42,0xed,0x45,0x3d,0xd1,0x25,0x40,0x3f,0x7b,0x3e,0x97,
   0x0f,0xff,0x54,0x9f,0x6b,0x65,0xa9,0x2d,0x90,0xa5,0xdd,0x88,0xc7,0xf6,0x81,0x3b]

def plainTransactionDigest : Bytes :=
  [0xe5,0x24,0x23,0xde,0xc7,0x35,0x54,0x88,0xcc,0xf2,0x4c,0xba,0xd2,0x07,0x28,0x5a,
   0xba,0xb3,0xdc,0x0b,0xb3,0xb1,0xf3,0x65,0x1b,0xfa,0xd9,0x30,0xeb,0x07,0x45,0x9c]

def calledTransactionDigest : Bytes :=
  [0x0a,0xae,0xdd,0x12,0xea,0xae,0xa1,0x0a,0xb0,0x72,0x06,0x64,0x04,0x53,0x9c,0x2b,
   0x9f,0x19,0xf6,0xe6,0xca,0x13,0xf2,0x5c,0xc8,0x80,0xfe,0x36,0x2d,0x7f,0x47,0xd9]

def sha3 (message : Bytes) : Bytes :=
  if message = plain.hashed then plainDigest
  else if message = called.hashed then calledDigest
  else if message = plain.signed then signedDigest
  else if message = Wire.transaction (.new [plain] ∅) then plainTransactionDigest
  else if message = Wire.transaction (.new [called] ∅) then calledTransactionDigest
  else List.replicate 32 0

def hashing : Hashing := Wire.hashing sha3 <| by
  intro message
  unfold sha3
  split_ifs <;> rfl

def client : Client := {BuilderExample.toolchain with
  toHashing := hashing
  encodeTransaction := Wire.transaction}

theorem wired : client.Wired := ⟨rfl,rfl,rfl,rfl,rfl⟩

theorem typed : plain.Typed ∧ called.Typed := by
  unfold Intent.Typed
  decide

end NamesExample

-- Calldata that is added after signing changes the name and not what is signed.
open NamesExample in
theorem calldata_only_named : (plain.fresh.hash client.toHashing).1 ≠ (called.fresh.hash client.toHashing).1 ∧
    (plain.fresh.signingHash client.toHashing).1 = (called.fresh.signingHash client.toHashing).1 := by
  obtain ⟨name,signature,_⟩ := Intent.names_apart client wired plain called typed.1 typed.2 (by decide)
    (by decide) (by unfold Clear; decide)
  refine ⟨fun same => ?_,signature.mpr ⟨rfl,rfl⟩⟩
  have calldata := congrArg Intent.calldata (name.mp same)
  exact absurd calldata (by decide)

theorem transactions_apart (c : Client) (wired : c.Wired) (tx tx' : Transaction) (typed : tx.Typed) (typed' : tx'.Typed)
    (small : (Wire.transaction tx).length < 2^32) (clear : Clear c.sha3 [Wire.transaction tx,Wire.transaction tx']) :
    (tx.fresh.hash c).1 = (tx'.fresh.hash c).1 ↔ tx.fresh = tx'.fresh := by
  have hash : ∀ tx : Transaction, (tx.fresh.hash c).1 = c.wrap (Wire.transaction tx) := by
    intro tx
    have message : Wire.transaction tx.fresh.fresh = Wire.transaction tx := by
      simp [Transaction.fresh,Wire.transaction,Intent.fresh,Function.comp_def]
    rw [← message,← wired.encodeTransaction]
    rfl
  rw [hash,hash]
  refine ⟨fun same => ?_,fun same => ?_⟩
  · have message := clear _ (by simp) _ (by simp) (Multihash.mk.inj same).2
    have bytes : Wire.transaction tx ++ [] = Wire.transaction tx' ++ [] := by rw [message]
    exact (Wire.transaction_apart typed typed' small (message ▸ small) bytes).1
  · rw [← hash,same,hash]

open NamesExample in
theorem called_transaction_differs : ((Transaction.new [plain] ∅).fresh.hash client).1 ≠
    ((Transaction.new [called] ∅).fresh.hash client).1 := by
  have apart := transactions_apart client wired (.new [plain] ∅) (.new [called] ∅) (by simp [Transaction.Typed,Transaction.new,typed.1])
    (by simp [Transaction.Typed,Transaction.new,typed.2]) (by decide) (by unfold Clear; decide)
  intro same
  have calldata := congrArg (fun tx => tx.intents.map Intent.calldata) (apart.mp same)
  exact absurd calldata (by decide)

-- A block as it comes out of the decoder, of a size that the encoder can write.
structure Block.Plain (b : Block) : Prop where
  fresh : b.fresh = b
  parent : b.parent.code < 2^64
  typed : ∀ tx ∈ b.transactions, tx.Typed
  small : (Wire.block b.height b.parent b.transactions).length < 2^32

namespace Block
variable {c : Client} {a b : Block}

def message (b : Block) : Bytes := Wire.block b.height b.parent b.transactions

theorem Plain.hash (wired : c.Wired) (plain : b.Plain) : (b.hash c.toToolchain).1 = c.wrap b.message := by
  have cell : b.hashCache = none := by rw [← plain.fresh]; rfl
  have same : b.transactions.map Transaction.fresh = b.transactions := congrArg Block.transactions plain.fresh
  unfold Block.hash message
  rw [cell,same,wired.encodeBlock]

theorem Plain.fresh_each (plain : b.Plain) : ∀ tx ∈ b.transactions, tx.Typed ∧ tx.fresh = tx := by
  have same : b.transactions.map Transaction.fresh = b.transactions := congrArg Block.transactions plain.fresh
  have each := List.map_inj_left.mp (same.trans (List.map_id b.transactions).symm)
  exact fun tx member => ⟨plain.typed tx member,each tx member⟩

theorem Plain.same (wired : c.Wired) (plain : a.Plain) (plain' : b.Plain)
    (clear : c.sha3 a.message = c.sha3 b.message → a.message = b.message)
    (same : (a.hash c.toToolchain).1 = (b.hash c.toToolchain).1) : a = b := by
  rw [plain.hash wired,plain'.hash wired] at same
  obtain ⟨height,parent,transactions⟩ := Wire.block_apart plain.parent plain'.parent plain.fresh_each plain'.fresh_each
    plain.small (clear (Multihash.mk.inj same).2)
  rw [← plain.fresh,← plain'.fresh]
  unfold Block.fresh
  rw [height,parent,transactions]

end Block

section
variable {c : Client} {sch : Scheduler} {u : Components.Labeling} {genesis : Block} {chain chain' : List Block}

def Chained (c : Toolchain) (genesis : Block) (chain : List Block) : Prop :=
  (chain ++ [genesis]).IsChain (Block.Follows c)

theorem chain_front (genesis : Block) (chain : List Block) : ∃ tip, (chain ++ [genesis]).head? = some tip := by
  cases chain <;> exact ⟨_,rfl⟩

theorem chained_height {c : Toolchain} (chained : Chained c genesis chain) {tip : Block}
    (front : (chain ++ [genesis]).head? = some tip) : tip.height.toNat = genesis.height.toNat + chain.length := by
  induction chain generalizing tip with
  | nil =>
      cases front
      rfl
  | cons block chain ih =>
      cases front
      obtain ⟨older,front⟩ := chain_front genesis chain
      rw [Chained,List.cons_append,List.isChain_cons] at chained
      rw [(chained.1 older front).2,ih chained.2 front,List.length_cons,Nat.add_assoc]

theorem tips_same {known : List Block} (wired : c.Wired) (plain : ∀ b ∈ known, b.Plain)
    (clear : Clear c.sha3 (known.map Block.message)) {tip tip' : Block} (inside : tip ∈ known) (inside' : tip' ∈ known)
    (same : (tip.hash c.toToolchain).1 = (tip'.hash c.toToolchain).1) : tip = tip' :=
  (plain tip inside).same wired (plain tip' inside')
    (clear _ (List.mem_map_of_mem inside) _ (List.mem_map_of_mem inside')) same

-- The hash of the newest block fixes all blocks under it.
theorem tip_fixes_chain {known : List Block} (wired : c.Wired) (plain : ∀ b ∈ known, b.Plain)
    (clear : Clear c.sha3 (known.map Block.message)) (chained : Chained c.toToolchain genesis chain)
    (chained' : Chained c.toToolchain genesis chain') (inside : chain ++ [genesis] ⊆ known)
    (inside' : chain' ++ [genesis] ⊆ known) {tip tip' : Block} (front : (chain ++ [genesis]).head? = some tip)
    (front' : (chain' ++ [genesis]).head? = some tip')
    (same : (tip.hash c.toToolchain).1 = (tip'.hash c.toToolchain).1) : chain = chain' := by
  induction chain generalizing chain' tip tip' with
  | nil =>
      obtain rfl := tips_same wired plain clear (inside (List.mem_of_mem_head? front)) (inside' (List.mem_of_mem_head? front')) same
      have height := chained_height chained front
      rw [chained_height chained' front',List.length_nil,Nat.add_right_inj,List.length_eq_zero_iff] at height
      exact height.symm
  | cons block chain ih =>
      obtain rfl := tips_same wired plain clear (inside (List.mem_of_mem_head? front)) (inside' (List.mem_of_mem_head? front')) same
      cases chain' with
      | nil =>
          have height := chained_height chained front
          rw [chained_height chained' front'] at height
          simp at height
      | cons block' chain' =>
          cases front
          cases front'
          obtain ⟨older,below⟩ := chain_front genesis chain
          obtain ⟨older',below'⟩ := chain_front genesis chain'
          rw [Chained,List.cons_append,List.isChain_cons] at chained chained'
          rw [List.cons_append,List.cons_subset] at inside inside'
          have parents : (older.hash c.toToolchain).1 = (older'.hash c.toToolchain).1 := by
            rw [← (chained.1 older below).1,← (chained'.1 older' below').1]
          rw [ih chained.2 chained'.2 inside.2 inside'.2 below below' parents]

theorem consumeAll_chained {c : Toolchain} {b next : BlockStateBuilder} {blocks : List Block}
    {results : List (Except BlockStateBuilder.Error Unit)} {entry : Produced} (at_entry : b.At c entry) (chained : Chained c genesis chain)
    (front : (chain ++ [genesis]).head? = some entry.block) (ran : consumeAll c sch u b blocks = .ok (results,next)) :
    ∃ tip, Chained c genesis ((accepted blocks results).reverse ++ chain) ∧
      ((accepted blocks results).reverse ++ chain ++ [genesis]).head? = some tip ∧
      next.At c ⟨tip,((accepted blocks results).foldl (BlockStateBuilder.replay c sch u) (entry.state,entry.codecache)).1,
        ((accepted blocks results).foldl (BlockStateBuilder.replay c sch u) (entry.state,entry.codecache)).2⟩ := by
  induction blocks generalizing b entry chain results with
  | nil =>
      cases ran
      exact ⟨entry.block,chained,front,at_entry⟩
  | cons block blocks ih =>
      unfold consumeAll at ran
      obtain ⟨⟨result,mid⟩,first,ran⟩ := Fallible.bind_ok.mp ran
      obtain ⟨⟨rest,last⟩,more,made⟩ := Fallible.bind_ok.mp ran
      cases made
      rcases consume_at sch u at_entry (Collect.all_end block.transactions) with ⟨error,mid',refused,stays,_⟩ | ⟨stopped,_,_⟩ | ⟨follows,mid',taken,moved⟩
      · cases refused.symm.trans first
        exact ih stays chained front more
      · cases stopped.symm.trans first
      · cases taken.symm.trans first
        have grown : Chained c genesis (block :: chain) := by
          rw [Chained,List.cons_append,List.isChain_cons]
          refine ⟨fun older below => ?_,chained⟩
          cases front.symm.trans below
          exact follows
        have later := ih moved grown rfl more
        simpa [accepted] using later

theorem accepted_subset (blocks : List Block) (results : List (Except BlockStateBuilder.Error Unit)) :
    accepted blocks results ⊆ blocks := by
  fun_induction accepted blocks results with
  | case1 block blocks results ih => exact List.cons_subset_cons block ih
  | case2 block blocks e results ih => exact fun taken member => List.mem_cons_of_mem _ (ih member)
  | case3 => exact List.nil_subset _

theorem BlockStateBuilder.At.last_hash {c : Toolchain} {b : BlockStateBuilder} {entry : Produced} {last : Block}
    (stands : b.At c entry) (found : b.last = .ok last) : last.hash c = entry.block.hash c := by
  obtain ⟨⟨front,older,recent,same⟩,_,_⟩ := stands
  unfold BlockStateBuilder.last at found
  rw [recent] at found
  cases found
  exact (hashed_same same).1

-- Two nodes that started from the same block and took in what they were given: when
-- their last blocks have the same hash, they have taken in the same blocks, and hold
-- the same accounts if their executions were scheduled alike.
theorem tip_names_history (c : Client) (wired : c.Wired) (sch sch' : Scheduler) (u u' : Components.Labeling)
    (historyLen historyLen' : NonZeroUsize) (state codecache : InMemoryStateStore) (genesis : Block)
    (start start' next next' : BlockStateBuilder) (blocks blocks' : List Block)
    (results results' : List (Except BlockStateBuilder.Error Unit))
    (made : BlockStateBuilder.new historyLen state codecache [genesis] = .ok start)
    (made' : BlockStateBuilder.new historyLen' state codecache [genesis] = .ok start')
    (plain : ∀ b ∈ genesis :: (blocks ++ blocks'), b.Plain)
    (clear : Clear c.sha3 ((genesis :: (blocks ++ blocks')).map Block.message))
    (ran : consumeAll c.toToolchain sch u start blocks = .ok (results,next))
    (ran' : consumeAll c.toToolchain sch' u' start' blocks' = .ok (results',next')) (last last' : Block)
    (tip : next.last = .ok last) (tip' : next'.last = .ok last')
    (same : (last.hash c.toToolchain).1 = (last'.hash c.toToolchain).1) :
    accepted blocks results = accepted blocks' results' ∧
      (sch = sch' → u = u' → next.state = next'.state ∧ next.codecache = next'.codecache) := by
  obtain rfl := Except.ok.inj made
  obtain rfl := Except.ok.inj made'
  have at_genesis : ∀ len, (⟨len,state,codecache,[genesis]⟩ : BlockStateBuilder).At c.toToolchain ⟨genesis,state,codecache⟩ :=
    fun _ => ⟨⟨genesis,[],rfl,rfl⟩,rfl,rfl⟩
  have alone : Chained c.toToolchain genesis [] := List.isChain_singleton _
  obtain ⟨top,chained,front,stands⟩ := consumeAll_chained (at_genesis historyLen) alone rfl ran
  obtain ⟨top',chained',front',stands'⟩ := consumeAll_chained (at_genesis historyLen') alone rfl ran'
  rw [List.append_nil] at chained front chained' front'
  have tops : (top.hash c.toToolchain).1 = (top'.hash c.toToolchain).1 := by
    rw [← stands.last_hash tip,← stands'.last_hash tip',same]
  have inside : (accepted blocks results).reverse ++ [genesis] ⊆ genesis :: (blocks ++ blocks') := by
    intro block member
    have known := accepted_subset blocks results
    grind
  have inside' : (accepted blocks' results').reverse ++ [genesis] ⊆ genesis :: (blocks ++ blocks') := by
    intro block member
    have known := accepted_subset blocks' results'
    grind
  have equal := tip_fixes_chain wired plain clear chained chained' inside inside' front front' tops
  have taken : accepted blocks results = accepted blocks' results' := List.reverse_injective equal
  refine ⟨taken,?_⟩
  rintro rfl rfl
  rw [stands.state,stands'.state,stands.codecache,stands'.codecache,taken]
  exact ⟨rfl,rfl⟩

end

namespace TipsExample
open WatcherExample BuilderExample

theorem wired : client.Wired := ⟨rfl,rfl,rfl,rfl,rfl⟩

theorem plain : ∀ b ∈ [Block.zero,child,child,child], b.Plain := by
  have zero : Block.zero.Plain := ⟨rfl,by decide,by simp [Block.zero],by decide⟩
  have one : child.Plain := ⟨rfl,by decide,by simp [child,publishes,Transaction.new,Transaction.Typed],by decide +kernel⟩
  simp [zero,one]

theorem clear : Clear client.sha3 ([Block.zero,child,child,child].map Block.message) := by
  unfold Clear
  decide +kernel

theorem once : (consumeAll client.toToolchain .inOrder .quick builder [child]).map (fun r => (r.1,r.2.recent)) =
    .ok ([.ok ()],[child]) := by decide

theorem twice : (consumeAll client.toToolchain .inOrder .quick builder [child,child]).map (fun r => (r.1,r.2.recent)) =
    .ok ([.ok (),.error (.invalidBlockParent ⟨sha3Code,zeroDigest⟩ ⟨sha3Code,childDigest⟩)],[child.hashed client.toToolchain]) := by
  decide +kernel

end TipsExample

open WatcherExample BuilderExample in
theorem sent_twice_same_tip : ∃ results next results' next',
    consumeAll client.toToolchain .inOrder .quick builder [child,child] = .ok (results,next) ∧
    consumeAll client.toToolchain .inOrder .quick builder [child] = .ok (results',next') ∧
    accepted [child,child] results = accepted [child] results' ∧ next.state = next'.state := by
  have twice := TipsExample.twice
  have once := TipsExample.once
  cases ran : consumeAll client.toToolchain .inOrder .quick builder [child,child] with
  | error panic => rw [ran] at twice; cases twice
  | ok run => cases ran' : consumeAll client.toToolchain .inOrder .quick builder [child] with
    | error panic => rw [ran'] at once; cases once
    | ok run' =>
        rw [ran] at twice
        rw [ran'] at once
        obtain ⟨_,recent⟩ := Prod.mk.inj (Except.ok.inj twice)
        obtain ⟨_,recent'⟩ := Prod.mk.inj (Except.ok.inj once)
        have history := tip_names_history client TipsExample.wired .inOrder .inOrder .quick .quick historyLen historyLen empty empty
          .zero builder builder run.2 run'.2 [child,child] [child] run.1 run'.1 rfl rfl TipsExample.plain TipsExample.clear
          ran ran' (child.hashed client.toToolchain) child (by rw [BlockStateBuilder.last,recent])
          (by rw [BlockStateBuilder.last,recent']) (by rw [(hashed_fields client.toToolchain child).2.2.2])
        exact ⟨run.1,run.2,run'.1,run'.2,rfl,rfl,history.1,(history.2 rfl rfl).1⟩

end AnomaAlpha
