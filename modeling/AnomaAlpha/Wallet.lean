import AnomaAlpha.Arithmetic
import AnomaAlpha.Guards

namespace AnomaAlpha
open Execution Collect Stdpred BlockStateBuilder

def atLeast (home wallet : Address) : Predicate :=
  ⟨.accountRef home "uint_greater_than_equal",[.proposalRef wallet,.accountRef wallet]⟩

def ownerSigns (home : Address) (pubkey : Bytes) : Predicate :=
  ⟨.accountRef home "require_ed25519_signature",[.inline pubkey]⟩

-- The predicates of the wallets that `mint` and `transfer` create: receive from
-- anyone, spend with a signature.
def walletGuard (home wallet : Address) (pubkey : Bytes) : PredicateTree :=
  .or (.id (atLeast home wallet)) (.id (ownerSigns home pubkey))

def Carries (ed : Ed25519) (key : ed.PublicKey) (entry : Multihash × Calldata) : Prop :=
  ∃ bytes signature, entry.2[ed.calldataKey key]? = some bytes ∧ ed.signatureFromBytes bytes = some signature ∧
    ed.verify key entry.1.toBytes signature = true

def SignedBy (w : Hashing) (ed : Ed25519) (key : ed.PublicKey) (tx : Transaction) : Prop :=
  ∃ intent ∈ tx.intents, Carries ed key ((intent.hash w).1,intent.calldata)

section
variable {ed : Ed25519} {w : Hashing} {state : View} {tx : Transaction} {context : PredicateContext}

theorem search_carries (key : ed.PublicKey) {entries : List (Multihash × Calldata)}
    (found : searchSignature ed key (ed.calldataKey key) entries = true) : ∃ entry ∈ entries, Carries ed key entry := by
  induction entries with
  | nil => cases found
  | cons entry entries ih =>
      have later : searchSignature ed key (ed.calldataKey key) entries = true →
          ∃ other ∈ entry :: entries, Carries ed key other :=
        fun rest => (ih rest).imp fun _ given => given.imp_left (List.mem_cons_of_mem _)
      rw [searchSignature] at found
      split at found
      · rename_i bytes held
        split at found
        · rename_i signature parsed
          exact ⟨entry,by simp,bytes,signature,held,parsed,found⟩
        · exact later found
      · exact later found

theorem required_signed (gathered : predicateContext w state tx = .ok context) {data : Bytes}
    (asked : requireEd25519Signature ed [.inline data] context = some true) :
    ∃ key, ed.fromBytes data = some key ∧ SignedBy w ed key tx := by
  simp only [requireEd25519Signature,ExpandedParam.data] at asked
  cases parsed : ed.fromBytes data with
  | none => simp [parsed] at asked
  | some key =>
      rw [parsed] at asked
      obtain ⟨entry,member,carried⟩ := search_carries key (Option.some.inj asked)
      have found := Std.ExtTreeMap.mem_toList_iff_getElem?_eq_some.mp member
      rw [context_calldata gathered] at found
      obtain ⟨intent,inside,same,data⟩ := gather_mem found
      refine ⟨key,rfl,intent,inside,?_⟩
      rwa [same,data]

end

theorem settle_or {l r : ExpressionTree Leaf} {k : Nat} (settled : settle (.or l r) k = some true) :
    settle l k = some true ∨ settle l k = some false ∧ settle r (k-l.size) = some true := by
  unfold settle at settled
  cases first : settle l k with
  | none => simp [first,orVerdict] at settled
  | some answer => cases answer with
    | true => exact .inl rfl
    | false =>
        refine .inr ⟨rfl,?_⟩
        cases second : settle r (k-l.size) with
        | none => simp [first,second,orVerdict] at settled
        | some answer => cases answer <;> simp [first,second,orVerdict] at settled ⊢

theorem settle_leaf {leaf : Leaf} {k : Nat} {answer : Bool} (settled : settle (.id leaf) k = some answer) :
    leaf.outcome = .ok answer := by
  cases k with
  | zero => cases settled
  | succ k =>
      cases tried : leaf.outcome with
      | error e => simp [settle,tried,Except.toOption] at settled
      | ok value => simpa [settle,tried,Except.toOption] using settled

theorem expand_or {state : View} {context : PredicateContext} {calldata : Calldata} {l r : PredicateTree}
    {tree : ExpandedTree} (expanded : expandPredicateTree state (.or l r) context calldata = .ok tree) :
    ∃ left right, expandPredicateTree state l context calldata = .ok left ∧
      expandPredicateTree state r context calldata = .ok right ∧ tree = .or left right := by
  obtain ⟨left,first,later⟩ := Fallible.bind_ok.mp expanded
  obtain ⟨right,second,finished⟩ := Fallible.bind_ok.mp later
  cases finished
  exact ⟨left,right,first,second,rfl⟩

theorem compare_reads {sliceToU64 : Bytes → Option UInt64} {test : UInt64 → UInt64 → Bool} {first second : ExpandedParam}
    {context : PredicateContext} {answer : Bool} (compared : compareUints sliceToU64 test [first,second] context = some answer) :
    ∃ a b, sliceToU64 first.data = some a ∧ sliceToU64 second.data = some b ∧ test a b = answer := by
  obtain ⟨a,read,later⟩ := Option.bind_eq_some_iff.mp compared
  obtain ⟨b,read',finished⟩ := Option.bind_eq_some_iff.mp later
  exact ⟨a,b,read,read',Option.some.inj finished⟩

section
variable {rt : Runtime} {sch : Scheduler} {cache view : View} {tx : Transaction} {diff : StateDiff} {ed : Ed25519}
  {sliceToU64 : Bytes → Option UInt64} {home wallet : Address} {pubkey : Bytes} {account : Account}

theorem expand_atLeast {context : PredicateContext} {calldata : Calldata} {leaf : ExpandedPredicate}
    (seen : view wallet = some account) (done : expandPredicate view context calldata (atLeast home wallet) = .ok leaf) :
    ∃ change, context.proposals[wallet]? = some change ∧
      leaf.params = [.proposalRef wallet change,.accountRef wallet account.state] := by
  obtain ⟨⟨_,filled⟩,_⟩ := expandPredicate_ok done
  obtain ⟨code,params⟩ := leaf
  cases filled with
  | cons proposal filled => cases proposal with
    | proposalRef proposed => cases filled with
      | cons current rest => cases current with
        | accountRef held =>
            cases rest
            cases held.symm.trans seen
            exact ⟨_,proposed,rfl⟩

-- An accepted change of a wallet replaces its balance, and by a smaller one only
-- when the owner has signed.
theorem wallet_change (ed : Ed25519) (empty : sliceToU64 [] = none) (seen : view wallet = some account)
    (guarded : account.predicates = walletGuard home wallet pubkey)
    (compares : Answers rt cache tx view (atLeast home wallet) (uintGreaterThanEqual sliceToU64))
    (verifies : Answers rt cache tx view (ownerSigns home pubkey) (requireEd25519Signature ed))
    (ran : execute rt sch tx view cache = .ok diff) {after : Option Account} (wrote : diff.patch wallet = some after) :
    ∃ proposed now balance, after = some ⟨proposed,account.predicates⟩ ∧
      tx.proposals[wallet]? = some (.replaceState proposed) ∧ sliceToU64 account.state = some now ∧
      sliceToU64 proposed = some balance ∧
      (balance < now → ∃ key, ed.fromBytes pubkey = some key ∧ SignedBy rt.toHashing ed key tx) := by
  obtain ⟨change,proposed,fits⟩ := written_proposed ran wrote
  obtain ⟨context,tree,bytes,m,gathered,expanded,encoded,settled⟩ :=
    proposed_approves ran proposed (by simp) seen
  rw [guarded] at expanded
  obtain ⟨_,_,first,second,rfl⟩ := expand_or expanded
  obtain ⟨compared,here,finished⟩ := Fallible.bind_ok.mp first
  cases finished
  obtain ⟨verified,there,finished⟩ := Fallible.bind_ok.mp second
  cases finished
  obtain ⟨told,held,operands⟩ := expand_atLeast seen here
  have read : ∀ answer, invoke rt bytes compared cache = .ok answer → ∃ balance now, sliceToU64 (ExpandedParam.proposalRef wallet told).data = some balance ∧
      sliceToU64 account.state = some now ∧ decide (balance ≥ now) = answer := by
    intro answer invoked
    have means := compares context bytes compared answer gathered encoded here invoked
    rw [operands] at means
    exact compare_reads means
  have outcome : ∃ balance now, sliceToU64 (ExpandedParam.proposalRef wallet told).data = some balance ∧
      sliceToU64 account.state = some now ∧
      (balance < now → ∃ key, ed.fromBytes pubkey = some key ∧ SignedBy rt.toHashing ed key tx) := by
    rcases settle_or settled with enough | ⟨less,signed⟩
    · obtain ⟨balance,now,readAfter,readNow,above⟩ := read true (settle_leaf enough)
      exact ⟨balance,now,readAfter,readNow,fun below => absurd (of_decide_eq_true above) (UInt64.not_le.mpr below)⟩
    · obtain ⟨balance,now,readAfter,readNow,_⟩ := read false (settle_leaf less)
      have means := verifies context bytes verified true gathered encoded there (settle_leaf signed)
      rw [expand_inline there] at means
      exact ⟨balance,now,readAfter,readNow,fun _ => required_signed gathered means⟩
  obtain ⟨balance,now,readAfter,readNow,spends⟩ := outcome
  obtain ⟨shown,expands,held'⟩ := context_proposal gathered proposed
  cases held.symm.trans held'
  rw [seen] at fits
  cases change with
  | createAccount fresh => cases fits
  | replaceState state =>
      simp only [expandAccountChange,seen,Except.ok.injEq] at expands
      subst expands
      exact ⟨state,now,balance,(Option.some.inj fits).symm,proposed,readNow,readAfter,spends⟩
  | replacePredicates predicates =>
      simp only [expandAccountChange,seen,Except.ok.injEq] at expands
      subst expands
      cases empty.symm.trans readAfter
  | deleteAccount =>
      simp only [expandAccountChange,seen,Except.ok.injEq] at expands
      subst expands
      cases empty.symm.trans readAfter

end

def Spends (sliceToU64 : Bytes → Option UInt64) (wallet : Address) (tx : Transaction) (view : View) : Prop :=
  ∃ seen proposed now balance, view wallet = some seen ∧ tx.proposals[wallet]? = some (.replaceState proposed) ∧
    sliceToU64 seen.state = some now ∧ sliceToU64 proposed = some balance ∧ balance < now

-- Whatever blocks come in, a wallet stays a wallet, and it loses nothing but by
-- accepted transactions that its owner has signed. The library that guards itself
-- is the one that answers throughout.
theorem wallet_spent_by_owner (c : Toolchain) (sch : Scheduler) (u : Components.Labeling) (b next : BlockStateBuilder)
    (blocks : List Block) (results : List (Except BlockStateBuilder.Error Unit)) (encode : Address → Bytes)
    (decode : Bytes → Option Address) (ed : Ed25519) (sliceToU64 : Bytes → Option UInt64) (home wallet : Address)
    (library account : Account) (pubkey : Bytes) (start : UInt64)
    (ran : consumeAll c sch u b blocks = .ok (results,next))
    (installed : Installed c sch u (b.state,b.codecache) (accepted blocks results) encode decode home home library)
    (compares : ∀ tx view cache diff, Taken c sch u (b.state,b.codecache) (accepted blocks results) tx view cache diff →
      view home = some library →
      Answers c.toRuntime cache tx view (atLeast home wallet) (uintGreaterThanEqual sliceToU64))
    (verifies : ∀ tx view cache diff, Taken c sch u (b.state,b.codecache) (accepted blocks results) tx view cache diff →
      view home = some library →
      Answers c.toRuntime cache tx view (ownerSigns home pubkey) (requireEd25519Signature ed))
    (empty : sliceToU64 [] = none) (held : b.state.get wallet = some account)
    (guarded : account.predicates = walletGuard home wallet pubkey) (reads : sliceToU64 account.state = some start) :
    (∃ state balance, next.state.get wallet = some ⟨state,account.predicates⟩ ∧ sliceToU64 state = some balance ∧
      (balance < start → ∃ tx view cache diff,
        Taken c sch u (b.state,b.codecache) (accepted blocks results) tx view cache diff ∧
        Spends sliceToU64 wallet tx view)) ∧
    ∀ tx view cache diff, Taken c sch u (b.state,b.codecache) (accepted blocks results) tx view cache diff →
      Spends sliceToU64 wallet tx view → ∃ key, ed.fromBytes pubkey = some key ∧ SignedBy c.toHashing ed key tx := by
  have homes := (installed_kept installed).1
  have kept := blocks_keep c sch u (b.state,b.codecache) (accepted blocks results)
    (P:=fun a x => a = wallet → ∃ state balance, x = some ⟨state,account.predicates⟩ ∧ sliceToU64 state = some balance ∧
      (balance < start → ∃ tx view cache diff,
        Taken c sch u (b.state,b.codecache) (accepted blocks results) tx view cache diff ∧
        Spends sliceToU64 wallet tx view))
    (fun a same => by
      subst same
      exact ⟨account.state,start,held,reads,fun below => absurd below (UInt64.lt_irrefl start)⟩)
    fun tx view cache diff taken shown a after wrote same => by
      subst same
      obtain ⟨state,before,seen,readBefore,earlier⟩ := shown a rfl
      have library := homes tx view cache diff taken
      obtain ⟨proposed,now,balance,rfl,proposal,readNow,readAfter,_⟩ := wallet_change ed empty seen guarded
        (compares tx view cache diff taken library) (verifies tx view cache diff taken library) taken.executed wrote
      cases readBefore.symm.trans readNow
      refine ⟨proposed,balance,rfl,readAfter,fun below => ?_⟩
      rcases UInt64.lt_or_le balance before with spends | enough
      · exact ⟨tx,view,cache,diff,taken,_,proposed,before,balance,seen,proposal,readBefore,readAfter,spends⟩
      · exact earlier (UInt64.lt_of_le_of_lt enough below)
  rw [← consumeAll_stores ran] at kept
  refine ⟨kept.2 wallet rfl,?_⟩
  intro tx view cache diff taken spends
  obtain ⟨seen,proposed,now,balance,found,proposal,readNow,readAfter,less⟩ := spends
  obtain ⟨state,_,shown,_⟩ := kept.1 tx view cache diff taken wallet rfl
  cases found.symm.trans shown
  have library := homes tx view cache diff taken
  have written : ∃ after, diff.patch wallet = some after := by
    obtain ⟨after,_,wrote⟩ := outputs_fits (execute_ok.mp taken.executed).1 proposal
    exact ⟨after,wrote⟩
  obtain ⟨after,wrote⟩ := written
  obtain ⟨proposed',now',balance',_,proposal',readNow',readAfter',signed⟩ := wallet_change ed empty shown guarded
    (compares tx view cache diff taken library) (verifies tx view cache diff taken library) taken.executed wrote
  cases proposal.symm.trans proposal'
  cases readNow.symm.trans readNow'
  cases readAfter.symm.trans readAfter'
  exact signed less

namespace WalletExample
open TransferExample

def account (balance : UInt64) : Account := ⟨uint balance,walletGuard stdaddr alice SignatureExample.publicKey⟩
def store : InMemoryStateStore := ⟨.ofList [(stdaddr,GuardExample.library),(alice,account 1000)] compare⟩
def builder : BlockStateBuilder := ⟨BuilderExample.historyLen,store,BuilderExample.empty,[.zero]⟩
def signed : Intent := SignatureExample.intent.sign GuardExample.toolchain.toHashing SignatureExample.ed ()
def spend : Transaction :=
  .new [signed] ((∅ : BTreeMap Address AccountChange).insert alice (.replaceState (uint 600)))
def block : Block := GuardExample.child spend

def next : BlockStateBuilder :=
  ⟨BuilderExample.historyLen,(BlockStateBuilder.replay GuardExample.toolchain .inOrder .quick (store,BuilderExample.empty) block).1,
    (BlockStateBuilder.replay GuardExample.toolchain .inOrder .quick (store,BuilderExample.empty) block).2,
    pushRecent 1 [Block.zero.hashed GuardExample.toolchain] block⟩

theorem consumed : consumeAll GuardExample.toolchain .inOrder .quick builder [block] = .ok ([.ok ()],next) :=
  consumeAll_single rfl (GuardExample.child_follows spend) (by decide)

theorem held : store.get stdaddr = some GuardExample.library ∧ store.get alice = some (account 1000) :=
  GuardExample.stored_pair (by decide) GuardExample.library (account 1000)

theorem changed_get (s : InMemoryStateStore) (a : Address) (acc : Account) :
    (s.apply (StateDiff.set default a acc).1).get a = some acc := by
  rw [InMemoryStateStore.apply_get]
  simp [StateDiff.set,StateDiff.patch,Patch.apply]

theorem compares (cache : View) : Answers GuardExample.toolchain.toRuntime cache spend store.get (atLeast stdaddr alice)
    (uintGreaterThanEqual readUint) := by
  refine GuardExample.library_answers false held.1 rfl fun context leaf gathered done => ?_
  obtain ⟨change,told,operands⟩ := expand_atLeast held.2 done
  have proposed : spend.proposals[alice]? = some (.replaceState (uint 600)) := by decide
  obtain ⟨shown,expands,told'⟩ := context_proposal gathered proposed
  cases told.symm.trans told'
  simp only [expandAccountChange,held.2,Except.ok.injEq] at expands
  subst expands
  rw [operands]
  rfl

theorem evaluated : requireEd25519Signature SignatureExample.ed [.inline SignatureExample.publicKey]
      ⟨gather GuardExample.toolchain.toHashing spend.intents,∅⟩ = some true ∧
    executeMany GuardExample.toolchain.toRuntime .inOrder .quick store.get BuilderExample.empty.get [spend] =
      .ok [.ok (StateDiff.set default alice (account 600)).1] := by decide +kernel

theorem verifies (cache : View) : Answers GuardExample.toolchain.toRuntime cache spend store.get
    (ownerSigns stdaddr SignatureExample.publicKey) (requireEd25519Signature SignatureExample.ed) := by
  refine GuardExample.library_answers true held.1 rfl fun context leaf gathered done => ?_
  rw [expand_inline done]
  refine Eq.trans ?_ evaluated.1
  rw [requireEd25519Signature,context_calldata gathered]
  rfl
end WalletExample

theorem alice_spends : WalletExample.next.state.get TransferExample.alice = some (WalletExample.account 600) ∧
    ∃ key, SignatureExample.ed.fromBytes SignatureExample.publicKey = some key ∧
      SignedBy GuardExample.toolchain.toHashing SignatureExample.ed key WalletExample.spend := by
  have after : WalletExample.next.state.get TransferExample.alice = some (WalletExample.account 600) := by
    unfold WalletExample.next BlockStateBuilder.replay
    simp only [WalletExample.block,GuardExample.child,WalletExample.evaluated.2]
    exact WalletExample.changed_get WalletExample.store TransferExample.alice (WalletExample.account 600)
  obtain ⟨⟨state,balance,found,read,spent⟩,signed⟩ := wallet_spent_by_owner GuardExample.toolchain .inOrder .quick
    WalletExample.builder WalletExample.next [WalletExample.block] [.ok ()] Wire.address Wire.readAddress
    SignatureExample.ed TransferExample.readUint stdaddr TransferExample.alice GuardExample.library
    (WalletExample.account 1000) SignatureExample.publicKey 1000 WalletExample.consumed
    (GuardExample.installed (by decide) WalletExample.store WalletExample.held.1)
    (fun tx view cache diff taken _ => by
      obtain ⟨rfl,rfl,rfl⟩ := taken_single rfl taken
      exact WalletExample.compares _)
    (fun tx view cache diff taken _ => by
      obtain ⟨rfl,rfl,rfl⟩ := taken_single rfl taken
      exact WalletExample.verifies _)
    rfl WalletExample.held.2 rfl (by decide)
  cases found.symm.trans after
  have six : TransferExample.readUint (TransferExample.uint 600) = some 600 := by decide
  cases read.symm.trans six
  obtain ⟨tx,view,cache,diff,taken,spends⟩ := spent (by decide)
  obtain ⟨rfl,_⟩ := taken_single rfl taken
  exact ⟨after,signed _ view cache diff taken spends⟩

end AnomaAlpha
