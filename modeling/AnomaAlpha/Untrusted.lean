import AnomaAlpha.Decoded

namespace AnomaAlpha.Decoded
open Execution Fallible

theorem new_ok {path : String} {address : Address} :
    Address.new path = .ok address ↔ address.path = path ∧ address.WellFormed := by
  unfold Address.new Address.WellFormed
  rw [← check_iff]
  cases checked : checkPath path.toList with
  | error e =>
      constructor
      · intro failed
        cases failed
      · intro ⟨same,other⟩
        rw [same,checked] at other
        cases other
  | ok u =>
      constructor
      · intro made
        cases made
        exact ⟨rfl,checked⟩
      · intro ⟨same,_⟩
        rw [← same]
        rfl

theorem accepted_iff {address : Address} : (∃ same, Address.new address.path = .ok same) ↔ address.WellFormed := by
  constructor
  · intro ⟨same,made⟩
    obtain ⟨equal,fine⟩ := new_ok.mp made
    rwa [Address.ext_path equal] at fine
  · intro fine
    exact ⟨address,new_ok.mpr ⟨rfl,fine⟩⟩

-- Above every address that a transaction proposes to change the iteration ends.
def FiniteKeys (tx : Transaction Address) : Prop := ∀ addr change, tx.proposals[addr]? = some change → Finite addr

theorem finiteKeys_ends {tx : Transaction Address} : FiniteKeys tx ↔ Collect.Ends tx := by
  constructor
  · intro finite addr key
    obtain ⟨change,proposed⟩ := (OrderedMap.mem_keys_iff _ _).mp key
    exact halt_none.mpr (finite addr change proposed)
  · intro ends addr change proposed
    exact halt_none.mp (ends addr ((OrderedMap.mem_keys_iff _ _).mpr ⟨change,proposed⟩))

-- Whatever is done with the transactions, no iteration over ancestors fails: not
-- when one is executed, nor any batch, nor a block of them in a node.
def Quiet (txs : List (Transaction Address)) : Prop :=
  (∀ (rt : Runtime Address) (sch : Scheduler Address) (state cache : View Address) (reason : Halt),
    (∀ tx ∈ txs, executeOrHalt rt sch tx state cache ≠ .error (.halt reason)) ∧
    ∀ (u : Components.Labeling) (batch : List (Transaction Address)), (∀ tx ∈ batch, tx ∈ txs) →
      executeMany rt sch u state cache batch ≠ .error (.halt reason)) ∧
  ∀ (c : Toolchain Address) (sch : Scheduler Address) (u : Components.Labeling) (builder : BlockStateBuilder Address)
    (block : Block Address) (reason : Halt), (∀ tx ∈ block.transactions, tx ∈ txs) →
      builder.consume c sch u block ≠ .error (.execution (.halt reason))

theorem finite_quiet {txs : List (Transaction Address)} (finite : ∀ tx ∈ txs, FiniteKeys tx) : Quiet txs := by
  have ends : ∀ tx ∈ txs, Collect.Ends tx := fun tx member => finiteKeys_ends.mp (finite tx member)
  refine ⟨fun rt sch state cache reason => ⟨?_,?_⟩,?_⟩
  · intro tx member
    rw [executeOrHalt_ends (ends tx member)]
    intro failed
    cases ran : execute rt sch tx state cache with
    | error e => rw [ran] at failed; cases failed
    | ok diff => rw [ran] at failed; cases failed
  · intro u batch inside
    obtain ⟨_,ran,_⟩ := Schedule.executeMany_function (fun tx member => ends tx (inside tx member)) rt sch u state cache
    rw [ran]
    intro failed
    cases failed
  · intro c sch u builder block reason inside
    cases front : builder.recent with
    | nil =>
        unfold BlockStateBuilder.consume
        rw [front]
        intro failed
        cases failed
    | cons last older =>
        intro failed
        rcases BlockStateBuilder.consume_cases c sch u (fun tx member => ends tx (inside tx member)) front with
          ⟨_,refused,_⟩ | ⟨stopped,_⟩ | ⟨_,taken⟩
        · rw [refused] at failed
          cases failed
        · rw [stopped] at failed
          cases failed
        · rw [taken] at failed
          cases failed

theorem Value.key_addresses {value : Value} {tx : Transaction Address} {addr : Address} {change : AccountChange Address}
    (carried : tx ∈ value.transactions) (proposed : tx.proposals[addr]? = some change) : addr ∈ value.addresses := by
  have listed := Std.ExtTreeMap.mem_toList_iff_getElem?_eq_some.mpr proposed
  have here : addr ∈ tx.addresses :=
    List.mem_append_right _ (List.mem_flatMap.mpr ⟨_,listed,List.mem_cons_self⟩)
  cases value with
  | transaction tx' =>
      rw [List.mem_singleton.mp carried] at here
      exact here
  | block b => exact List.mem_flatMap.mpr ⟨tx,carried,here⟩
  | stateDiff diff => cases carried

theorem decoded_addresses_iff (serde : Serde) (payloads : List Payload) :
    (∀ (path : String) (address : Address), Address.new path = .ok address ∨ Address.fromStr path = .ok address →
      address.WellFormed) ∧
    (∀ (self address : Address) (segment : String), self.combine segment = .ok address → address.WellFormed) ∧
    (((∀ address ∈ (serde.received payloads).flatMap Value.addresses,
          address.WellFormed ∧ ∀ ancestor, Yields address ancestor → ancestor.WellFormed) ∧
        Quiet ((serde.received payloads).flatMap Value.transactions)) ↔
      ∀ address ∈ (serde.received payloads).flatMap Value.addresses, ∃ same, Address.new address.path = .ok same) := by
  refine ⟨?_,?_,?_,?_⟩
  · intro path address made
    rcases made with made | made <;> exact (new_ok.mp made).2
  · intro self address segment made
    exact (new_ok.mp made).2
  · intro ⟨each,_⟩ address member
    exact accepted_iff.mpr (each address member).1
  · intro accepted
    refine ⟨?_,finite_quiet ?_⟩
    · intro address member
      have fine := accepted_iff.mp (accepted address member)
      exact ⟨fine,fun ancestor yielded => yields_wellFormed fine yielded⟩
    · intro tx member addr change proposed
      obtain ⟨value,inside,carried⟩ := List.mem_flatMap.mp member
      have listed := List.mem_flatMap.mpr ⟨value,inside,Value.key_addresses carried proposed⟩
      exact wellFormed_finite (accepted_iff.mp (accepted addr listed))

namespace DecodedExample

def token : Address := ⟨"token"⟩

-- An account is created at `token`: the transaction as it comes over the wire.
def forged : Transaction Address :=
  .new [] ((∅ : BTreeMap Address (AccountChange Address)).insert token (.createAccount ⟨[],.id ⟨.inline [],[]⟩⟩))

def payload : Bytes :=
  [0x92,0x90,0x81,0xa5,0x74,0x6f,0x6b,0x65,0x6e,0x81,0xad,0x43,0x72,0x65,0x61,0x74,0x65,0x41,0x63,0x63,0x6f,0x75,0x6e,0x74,
   0x92,0x90,0x81,0xa2,0x49,0x64,0x92,0x81,0xa6,0x49,0x6e,0x6c,0x69,0x6e,0x65,0x90,0x90]

def serde : Serde := ⟨fun bytes => if bytes = payload then some forged else none,fun _ => none,fun _ => none⟩

def nothing : View Address := fun _ => none

def host : Host Address := .single acceptWasm acceptDigest acceptDigest_length acceptExports

def toolchain : Toolchain Address := {host.runtime with
  toHashing := Wire.hashing BuilderExample.hashing.sha3 BuilderExample.hashing.sha3_length
  encodeBlock := Wire.block
  serialize := fun _ => some BuilderExample.artifact}

def account : Account Address := ⟨[0,1],.id ⟨.inline acceptWasm,[]⟩⟩
def ledger : View Address := fun addr => if addr = ⟨"/a"⟩ ∨ addr = ⟨"/a/b"⟩ then some account else none
def update : Transaction Address :=
  .new [] ((∅ : BTreeMap Address (AccountChange Address)).insert ⟨"/a/b"⟩ (.replaceState [7]))
def updated : StateDiff Address := (StateDiff.set default ⟨"/a/b"⟩ ⟨[7],account.predicates⟩).1

def builder : BlockStateBuilder Address := ⟨BuilderExample.historyLen,⟨∅⟩,⟨∅⟩,[.zero]⟩

theorem update_finite : FiniteKeys update := by
  rw [finiteKeys_ends]
  intro addr key
  have keys : update.proposals.toList.map Prod.fst = [⟨"/a/b"⟩] := by decide
  rw [keys,List.mem_singleton] at key
  subst key
  exact halt_none.mpr (wellFormed_finite ((check_iff _).mp (by decide)))

end DecodedExample

theorem forged_address_panics :
    DecodedExample.serde.fromSlice (.transaction DecodedExample.payload) = some (.transaction DecodedExample.forged) ∧
    Wire.transaction DecodedExample.forged = DecodedExample.payload ∧
    DecodedExample.token ∈ DecodedExample.forged.addresses ∧ ¬ DecodedExample.token.WellFormed ∧
    executeOrHalt DecodedExample.host.runtime .inOrder DecodedExample.forged DecodedExample.nothing
      DecodedExample.nothing = .error (.halt .invalidAddress) ∧
    executeMany DecodedExample.host.runtime .inOrder .quick DecodedExample.nothing DecodedExample.nothing
      [DecodedExample.forged] = .error (.halt .invalidAddress) := by
  refine ⟨rfl,by decide,by decide,?_,?_,by decide⟩
  · intro fine
    have checked := (check_iff _).mpr fine
    exact absurd checked (by decide)
  · decide

section
variable {rt : Runtime Address} {sch : Scheduler Address} {tx : Transaction Address} {state cache : View Address}

-- The outputs fit, every tree expands, and the tree of every account at or above a
-- proposed address and of every intent is true.
def Approved (rt : Runtime Address) (state cache : View Address) (tx : Transaction Address) (diff : StateDiff Address) : Prop :=
  Collect.outputs state tx = .ok diff ∧ ∃ context, Collect.predicateContext rt.toHashing state tx = .ok context ∧
    (∀ addr change, tx.proposals[addr]? = some change → ∀ up, up = addr ∨ Yields addr up →
      ∀ acc, state up = some acc → Approves rt context cache
        (Collect.expandPredicateTree state acc.predicates context (Collect.boundCalldata context))) ∧
    ∀ intent ∈ tx.intents, Approves rt context cache
      (Collect.expandPredicateTree state intent.expectations context intent.calldata)

theorem mem_upward {addr up : Address} : up ∈ addr :: AddressSpace.ancestors addr ↔ up = addr ∨ Yields addr up := by
  rw [List.mem_cons,mem_ancestors]

-- An approved transaction is stopped by nothing but an iteration without an end.
theorem approved_stuck {diff : StateDiff Address} (approved : Approved rt state cache tx diff) (infinite : ¬FiniteKeys tx) :
    Collect.Stuck rt.toHashing state tx := by
  obtain ⟨written,context,gathered,accounts,_⟩ := approved
  rw [finiteKeys_ends] at infinite
  obtain ⟨front,addr,back,reason,parts,_,fails⟩ := Collect.first_halt infinite
  refine ⟨⟨diff,written⟩,context,gathered,front,addr,back,parts,by simp [fails],?_⟩
  intro up inside acc found
  obtain ⟨key,member,path⟩ := List.mem_flatMap.mp inside
  have listed : key ∈ tx.proposals.toList.map Prod.fst := by
    rw [parts]
    simp only [List.mem_append,List.mem_cons,List.not_mem_nil,or_false] at member ⊢
    exact member.imp_right .inl
  obtain ⟨change,proposed⟩ := (OrderedMap.mem_keys_iff _ _).mp listed
  exact (accounts key change proposed up (mem_upward.mp path) acc found).imp fun _ => And.left

theorem executes_approved_iff (encodes : ∀ context, ∃ bytes, rt.encodeContext context = .ok bytes)
    (answers : ∀ context bytes tree, Collect.predicateContext rt.toHashing state tx = .ok context →
      rt.encodeContext context = .ok bytes → Required state context tx tree →
      ∀ pred ∈ tree.leaves, ∃ b, invoke rt bytes pred cache = .ok b) :
    ((∀ diff, executeOrHalt rt sch tx state cache = .ok diff ↔ Approved rt state cache tx diff) ↔
      FiniteKeys tx ∨ ¬∃ diff, Approved rt state cache tx diff) ∧
    ∀ diff, executeOrHalt rt sch tx state cache = .ok diff → ∀ addr, tx.proposals[addr]? = none →
      (∀ store : InMemoryStateStore Address, store.get = state → (store.apply diff).get addr = store.get addr) ∧
      ∀ store : StateDiff Address, store.get = state → (store.apply diff).get addr = store.get addr := by
  have reads : ∀ diff, executeOrHalt rt sch tx state cache = .ok diff → execute rt sch tx state cache = .ok diff := by
    intro diff ran
    rcases executeOrHalt_cases rt sch tx state cache with ⟨_,reason,stopped⟩ | ⟨_,same⟩
    · rw [stopped] at ran
      cases ran
    · rwa [same,mapError_ok] at ran
  have approves : ∀ diff, execute rt sch tx state cache = .ok diff ↔ Approved rt state cache tx diff := by
    intro diff
    rw [executes_iff_approved encodes answers diff]
    simp only [mem_upward,Approved]
  refine ⟨⟨?_,?_⟩,?_⟩
  · intro exactly
    by_contra neither
    obtain ⟨infinite,some⟩ := not_or.mp neither
    obtain ⟨diff,approved⟩ := not_not.mp some
    have ran := (exactly diff).mpr approved
    rcases executeOrHalt_cases rt sch tx state cache with ⟨_,reason,stopped⟩ | ⟨free,_⟩
    · rw [stopped] at ran
      cases ran
    · exact free (approved_stuck approved infinite)
  · intro given diff
    rcases given with finite | none
    · rw [executeOrHalt_ends (finiteKeys_ends.mp finite),mapError_ok]
      exact approves diff
    · constructor
      · exact fun ran => (approves diff).mp (reads diff ran)
      · exact fun approved => (none ⟨diff,approved⟩).elim
  · intro diff ran addr outside
    exact executes_silent (reads diff ran) outside

end

theorem accepted_state_change :
    executeOrHalt DecodedExample.host.runtime .inOrder DecodedExample.update DecodedExample.ledger
      DecodedExample.nothing = .ok DecodedExample.updated := by
  have only : ∀ addr acc, DecodedExample.ledger addr = some acc → acc = DecodedExample.account := by
    intro addr acc found
    unfold DecodedExample.ledger at found
    split at found <;> cases found
    rfl
  have expands : ∀ context, Collect.expandPredicateTree DecodedExample.ledger DecodedExample.account.predicates context
      (Collect.boundCalldata context) = .ok (.id ⟨⟨acceptWasm,"invoke"⟩,[]⟩) := fun _ => rfl
  have answered : ∀ bytes, invoke DecodedExample.host.runtime bytes ⟨⟨acceptWasm,"invoke"⟩,[]⟩ DecodedExample.nothing =
      .ok true := fun bytes => Host.single_invoke rfl bytes [] _
  refine ((executes_approved_iff (fun _ => ⟨_,rfl⟩) ?_).1.mpr (.inl DecodedExample.update_finite) _).mpr
    ⟨by decide,_,rfl,?_,by simp [DecodedExample.update,Transaction.new]⟩
  · intro context bytes tree _ _ required pred member
    cases required with
    | account proposed path found expanded =>
        rw [only _ _ found,expands] at expanded
        obtain rfl := Except.ok.inj expanded
        obtain rfl := List.mem_singleton.mp member
        exact ⟨true,answered bytes⟩
    | intent inside => simp [DecodedExample.update,Transaction.new] at inside
  · intro addr change proposed up path acc found
    rw [only _ _ found]
    refine ⟨_,expands _,?_⟩
    simp only [ExpressionTree.holds,ExpressionTree.reduce,accepts]
    exact congrArg (fun answer => answer.toOption.getD false) (answered _)

-- Nothing that exists is in the way of the forged transaction.
theorem forged_approved_panics :
    (∃ diff, Approved DecodedExample.host.runtime DecodedExample.nothing DecodedExample.nothing DecodedExample.forged diff) ∧
    executeOrHalt DecodedExample.host.runtime .inOrder DecodedExample.forged DecodedExample.nothing
      DecodedExample.nothing = .error (.halt .invalidAddress) := by
  refine ⟨⟨(StateDiff.set default DecodedExample.token ⟨[],.id ⟨.inline [],[]⟩⟩).1,by decide,_,rfl,?_,?_⟩,by decide⟩
  · intro addr change proposed up path acc found
    cases found
  · exact List.forall_mem_nil _

-- Every consumed transaction is in one produced block or still waits, in the
-- order in which they came.
theorem mempool_accounts (c : Toolchain Address) (sch : Scheduler Address) (u : Components.Labeling)
    (historyLen : NonZeroUsize) (state codecache : InMemoryStateStore Address) (genesis : Block Address)
    (builder : BlockStateBuilder Address) (calls : List (Mempool.Call Address))
    (made : BlockStateBuilder.new historyLen state codecache [genesis] = .ok builder)
    (finite : ∀ tx ∈ calls.flatMap Mempool.Call.consumed, FiniteKeys tx)
    (low : genesis.height.toNat + Mempool.asked calls < 2^64) :
    ∃ blocks m, (Mempool.new builder).run c sch u calls = .ok (blocks,m) ∧
      (genesis :: blocks).IsChain (fun older newer => newer.parent = (older.hash c).1 ∧
        newer.height.toNat = older.height.toNat + 1) ∧
      blocks.flatMap Block.transactions ++ m.txs = calls.flatMap Mempool.Call.consumed := by
  obtain rfl := Except.ok.inj made
  have start : (Mempool.new ⟨historyLen,state,codecache,[genesis]⟩).blocks.At c ⟨genesis,state,codecache⟩ :=
    ⟨⟨genesis,[],rfl,rfl⟩,rfl,rfl⟩
  exact Mempool.run_accounts start (fun tx member => finiteKeys_ends.mp (finite tx member)) low

theorem updates_accounted : ∃ blocks m, (Mempool.new DecodedExample.builder).run DecodedExample.toolchain .inOrder .quick
      [.produce,.consume DecodedExample.update,.produce,.consume DecodedExample.update] = .ok (blocks,m) ∧
    blocks.flatMap Block.transactions ++ m.txs = [DecodedExample.update,DecodedExample.update] := by
  have finite : ∀ tx ∈ [DecodedExample.update,DecodedExample.update], FiniteKeys tx := by
    simp [DecodedExample.update_finite]
  obtain ⟨blocks,m,ran,_,accounted⟩ := mempool_accounts DecodedExample.toolchain .inOrder .quick
    BuilderExample.historyLen ⟨∅⟩ ⟨∅⟩ .zero DecodedExample.builder
    [.produce,.consume DecodedExample.update,.produce,.consume DecodedExample.update] rfl finite (by decide)
  exact ⟨blocks,m,ran,accounted⟩

theorem forged_block_panics :
    (Mempool.new DecodedExample.builder).run DecodedExample.toolchain .inOrder .quick
      [.consume DecodedExample.forged,.produce] = .error (.block (.execution (.halt .invalidAddress))) := by
  rfl

end AnomaAlpha.Decoded
