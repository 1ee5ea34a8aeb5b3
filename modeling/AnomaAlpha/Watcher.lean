import AnomaAlpha.Builder
import AnomaAlpha.Cache

namespace AnomaAlpha
open OrderedMap Execution

instance : DecidableEq Block := fun left right =>
  decidable_of_iff (left.height = right.height ∧ left.parent = right.parent ∧
      left.transactions = right.transactions ∧ left.hashCache = right.hashCache) <| by
    cases left; cases right; simp

-- What the watcher takes from `rmp_serde` on top of the builder.
structure Client extends Toolchain where
  encodeTransaction : Transaction → Bytes

def Transaction.hash (c : Client) (tx : Transaction) : Multihash × Transaction :=
  match tx.hashCache with
  | some cached => (cached,tx)
  | none =>
    let init := c.wrap (c.encodeTransaction tx.fresh)
    (init,{tx with hashCache := some init})

inductive WatchlistKey where
  | intent (hash : Multihash)
  | transaction (hash : Multihash)
  | accountChange (address : Address)
  deriving DecidableEq

inductive WatchlistValue where
  | intent (tx : Transaction)
  | transaction (block : Block)
  | accountChange (tx : Transaction)
  deriving DecidableEq

namespace WatchlistKey

def rank : WatchlistKey → List Nat
  | .intent hash => 0 :: hash.key
  | .transaction hash => 1 :: hash.key
  | .accountChange address => 2 :: address.path.toList.map Char.toNat

theorem rank_injective {a b : WatchlistKey} (same : a.rank = b.rank) : a = b := by
  cases a <;> cases b <;> simp only [rank,List.cons.injEq,Nat.zero_ne_one,Nat.one_ne_zero,
    OfNat.zero_ne_ofNat,OfNat.ofNat_ne_zero,OfNat.one_ne_ofNat,OfNat.ofNat_ne_one,false_and,true_and] at same
  · rw [Multihash.key_injective same]
  · rw [Multihash.key_injective same]
  · have chars := List.map_injective_iff.mpr (fun _ _ equal => Char.toNat_inj.mp equal) same
    rw [Address.ext_path (String.toList_inj.mp chars)]

instance ordWatchlistKey : Ord WatchlistKey := ⟨fun a b => compare a.rank b.rank⟩
instance transWatchlistKey : Std.TransOrd WatchlistKey := inferInstanceAs (Std.TransCmp (compareOn WatchlistKey.rank))
instance lawfulWatchlistKey : Std.LawfulEqOrd WatchlistKey where
  eq_of_compare same := rank_injective (Std.LawfulEqOrd.eq_of_compare same)

end WatchlistKey

inductive Reply where
  | ok (value : WatchlistValue)
  | recvError
  | incompatibleSignalType
  deriving DecidableEq

-- The receiving end of a oneshot channel, up to what its future made of it.
inductive Receiver where
  | waiting
  | sent (value : WatchlistValue)
  | closed
  | dropped
  | resolved (reply : Reply)
  deriving DecidableEq

structure Waiter where
  key : WatchlistKey
  receiver : Receiver
  deriving DecidableEq

abbrev Signal := WatchlistKey × WatchlistValue

-- Where the background task is: what is left to signal of a block, beside the
-- block as it came and as it is by now.
inductive Task where
  | listening
  | signalling (arrived block : Block) (left : List Signal)
  | finished
  | panicked (panic : BlockStateBuilder.Panic)

-- A sender is known by the place of its receiver.
structure BlockchainWatcher where
  watchlist : HashMap WatchlistKey Nat
  waiters : List Waiter
  stateBuilder : BlockStateBuilder
  task : Task

namespace BlockchainWatcher

def new (historyLen : NonZeroUsize) (state codecache : InMemoryStateStore) (recent : List Block) :
    Except BlockStateBuilder.Error BlockchainWatcher :=
  (BlockStateBuilder.new historyLen state codecache recent).map fun builder => ⟨∅,[],builder,.listening⟩

def get (w : BlockchainWatcher) (address : Address) : Option Account := w.stateBuilder.state.get address

section
variable (c : Client)

-- Asking for a hash fills a cell, so what is cloned later has more of them filled.

def intentSignals (put : List Intent → Transaction) (done : List Intent) : List Intent → List Signal × List Intent
  | [] => ([],done)
  | intent :: intents =>
    let (hash,intent) := intent.hash c.toHashing
    let (signals,all) := intentSignals put (done ++ [intent]) intents
    ((.intent hash,.intent (put (done ++ intent :: intents))) :: signals,all)

def transactionSignals (put : Transaction → Block) (tx : Transaction) : List Signal × Transaction :=
  let (hash,tx) := tx.hash c
  let (signals,intents) := intentSignals c (fun intents => {tx with intents := intents}) [] tx.intents
  let hashed := {tx with intents := intents}
  ((.transaction hash,.transaction (put tx)) :: signals ++
    tx.proposals.keys.map (fun address => (.accountChange address,.accountChange hashed)),hashed)

def blockSignals (put : List Transaction → Block) (done : List Transaction) :
    List Transaction → List Signal × List Transaction
  | [] => ([],done)
  | tx :: transactions =>
    let (signals,tx) := transactionSignals c (fun tx => put (done ++ tx :: transactions)) tx
    let (later,all) := blockSignals put (done ++ [tx]) transactions
    (signals ++ later,all)

def signals (block : Block) : List Signal × Block :=
  let (signals,transactions) := blockSignals c (fun transactions => {block with transactions := transactions}) []
    block.transactions
  (signals,{block with transactions := transactions})

end

def modify (waiters : List Waiter) (id : Nat) (f : Receiver → Receiver) : List Waiter :=
  waiters.modify id fun waiter => {waiter with receiver := f waiter.receiver}

-- The sender is dropped.
def hangUp : Receiver → Receiver
  | .waiting => .closed
  | receiver => receiver

-- A second registration of a key takes the place of the first one.
def register (w : BlockchainWatcher) (key : WatchlistKey) : BlockchainWatcher :=
  {w with
    watchlist := w.watchlist.insert key w.waiters.length
    waiters := (match w.watchlist[key]? with
      | some old => modify w.waiters old hangUp
      | none => w.waiters) ++ [⟨key,.waiting⟩]}

def deliver (value : WatchlistValue) : Receiver → Receiver
  | .waiting => .sent value
  | receiver => receiver

def isWaiting : Receiver → Bool
  | .waiting => true
  | _ => false

-- What `rx.await.map` makes of a value.
def answer : WatchlistKey → WatchlistValue → Reply
  | .intent _,.intent tx => .ok (.intent tx)
  | .transaction _,.transaction block => .ok (.transaction block)
  | .accountChange _,.accountChange tx => .ok (.accountChange tx)
  | _,_ => .incompatibleSignalType

inductive Event where
  | registered (waiter : Nat) (key : WatchlistKey)
  | arrived (block : Block)
  | looked (key : WatchlistKey) (block : Block)
  | signalled (waiter : Nat) (value : WatchlistValue) (block : Block)
  | consumed (block : Block) (result : Except BlockStateBuilder.Error Unit)
  | resolved (waiter : Nat) (reply : Reply)
  | abandoned (waiter : Nat)
  deriving DecidableEq

-- A client polls an `await_*` future for the first time, polls it again, or drops
-- it; the task takes the next block of its stream or finds its end, looks up the
-- next key, or consumes the block.
inductive Act where
  | register (key : WatchlistKey)
  | poll (waiter : Nat)
  | abandon (waiter : Nat)
  | arrive (block : Block)
  | finish
  | signal
  | consume

section
variable (c : Client) (sch : Scheduler) (u : Components.Labeling)

def signalNext (w : BlockchainWatcher) : Option (List Event × BlockchainWatcher) :=
  match w.task with
  | .signalling arrived block ((key,value) :: left) =>
    let w' := {w with watchlist := w.watchlist.erase key, task := .signalling arrived block left}
    match w.watchlist[key]? with
    | none => some ([.looked key arrived],w')
    | some id => some (.looked key arrived ::
        (if (w.waiters[id]?.any fun waiter => isWaiting waiter.receiver) then [.signalled id value arrived] else []),
        {w' with waiters := modify w.waiters id (deliver value)})
  | _ => none

def consumeBlock (w : BlockchainWatcher) : Option (List Event × BlockchainWatcher) :=
  match w.task with
  | .signalling arrived block [] => match w.stateBuilder.consume c.toToolchain sch u block with
    | .ok (result,builder) => some ([.consumed arrived result],{w with stateBuilder := builder, task := .listening})
    | .error panic => some ([],{w with task := .panicked panic})
  | _ => none

def poll (w : BlockchainWatcher) (id : Nat) : Option (List Event × BlockchainWatcher) :=
  match w.waiters[id]? with
  | some ⟨key,.sent value⟩ =>
    some ([.resolved id (answer key value)],{w with waiters := modify w.waiters id fun _ => .resolved (answer key value)})
  | some ⟨_,.closed⟩ => some ([.resolved id .recvError],{w with waiters := modify w.waiters id fun _ => .resolved .recvError})
  | _ => none

def step (w : BlockchainWatcher) : Act → Option (List Event × BlockchainWatcher)
  | .register key => some ([.registered w.waiters.length key],w.register key)
  | .poll id => w.poll id
  | .abandon id => match w.waiters[id]? with
    | none => none
    | some ⟨_,.resolved _⟩ => none
    | some _ => some ([.abandoned id],{w with waiters := modify w.waiters id fun _ => .dropped})
  | .arrive block => match w.task with
    | .listening =>
      let (signals,hashed) := signals c block
      some ([.arrived block],{w with task := .signalling block hashed signals})
    | _ => none
  | .finish => match w.task with
    | .listening => some ([],{w with task := .finished})
    | _ => none
  | .signal => w.signalNext
  | .consume => w.consumeBlock c sch u

inductive Runs (start : BlockchainWatcher) : List Event → BlockchainWatcher → Prop where
  | nil : Runs start [] start
  | snoc : Runs start log w → w.step c sch u act = some (events,next) → Runs start (log ++ events) next

def play (w : BlockchainWatcher) : List Act → Option (List Event × BlockchainWatcher)
  | [] => some ([],w)
  | act :: acts => match w.step c sch u act with
    | none => none
    | some (events,w) => (w.play acts).map fun rest => (events ++ rest.1,rest.2)

end

end BlockchainWatcher

namespace WatcherExample
open BuilderExample

def publishDigest : Bytes :=
  [0xeb,0x85,0xcd,0xf3,0x43,0x16,0x13,0xeb,0x96,0x08,0x8c,0x08,0xce,0x4f,0x91,0x56,
   0x42,0xc4,0x3a,0x8d,0x56,0x04,0xd0,0xf5,0xd1,0xb7,0x3e,0x45,0x10,0x44,0x64,0xef]

def sha3 (message : Bytes) : Bytes := if message = Wire.transaction publishes then publishDigest else BuilderExample.sha3 message

def hashing : Hashing := Wire.hashing sha3 <| by
  intro message
  unfold sha3
  split
  · rfl
  · exact BuilderExample.hashing.sha3_length message

def client : Client := {toolchain with
  toHashing := hashing
  encodeTransaction := Wire.transaction}

def start : BlockchainWatcher := ⟨∅,[],builder,.listening⟩
def key : WatchlistKey := .accountChange FootprintExample.parent

-- A block with the transaction that no chain has.
def forged : Block := ⟨1,⟨0,[]⟩,[publishes],none⟩

def arrival (block : Block) : List BlockchainWatcher.Act := [.arrive block,.signal,.signal,.consume]

end WatcherExample

end AnomaAlpha
