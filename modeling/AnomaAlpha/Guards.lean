import AnomaAlpha.Histories
import AnomaAlpha.Immutable
import AnomaAlpha.Proposals
import AnomaAlpha.Signature

namespace AnomaAlpha
open Execution Collect Stdpred BlockStateBuilder

-- A leaf that a tree cannot be true without.
inductive Conjunct {α : Type} (pred : α) : ExpressionTree α → Prop where
  | id : Conjunct pred (.id pred)
  | left : Conjunct pred l → Conjunct pred (.and l r)
  | right : Conjunct pred r → Conjunct pred (.and l r)

-- The code that a leaf names answers it, if it answers, as `means` says.
def Answers (rt : Runtime) (cache : View) (tx : Transaction) (view : View) (pred : Predicate)
    (means : List ExpandedParam → PredicateContext → Option Bool) : Prop :=
  ∀ context bytes expanded answer, predicateContext rt.toHashing view tx = .ok context →
    rt.encodeContext context = .ok bytes →
    expandPredicate view context (boundCalldata context) pred = .ok expanded →
    invoke rt bytes expanded cache = .ok answer → means expanded.params context = some answer

section
variable {rt : Runtime} {sch : Scheduler} {cache view : View} {tx : Transaction} {pred : Predicate}

theorem conjunct_expands {context : PredicateContext} {calldata : Calldata} {tree : PredicateTree} {expanded : ExpandedTree}
    (conjunct : Conjunct pred tree) (done : expandPredicateTree view tree context calldata = .ok expanded) :
    ∃ leaf, expandPredicate view context calldata pred = .ok leaf ∧ Conjunct leaf expanded := by
  induction conjunct generalizing expanded with
  | id =>
      obtain ⟨leaf,here,finished⟩ := Fallible.bind_ok.mp done
      cases finished
      exact ⟨leaf,here,.id⟩
  | left _ ih =>
      obtain ⟨l,r,first,_,rfl⟩ := expand_and done
      obtain ⟨leaf,here,inside⟩ := ih first
      exact ⟨leaf,here,.left inside⟩
  | right _ ih =>
      obtain ⟨l,r,_,second,rfl⟩ := expand_and done
      obtain ⟨leaf,here,inside⟩ := ih second
      exact ⟨leaf,here,.right inside⟩

theorem conjunct_settles {bytes : Bytes} {leaf : ExpandedPredicate} {tree : ExpandedTree} {m : Nat}
    (conjunct : Conjunct leaf tree) (settled : settle (attach rt bytes cache tree) m = some true) :
    invoke rt bytes leaf cache = .ok true := by
  induction conjunct generalizing m with
  | id => exact settle_id settled
  | left _ ih => exact ih (settle_and settled).1
  | right _ ih => exact ih (settle_and settled).2

theorem conjunct_approved {acc : Account} (conjunct : Conjunct pred acc.predicates)
    (approved : ApprovedBy rt cache tx view acc) :
    ∃ context bytes leaf, predicateContext rt.toHashing view tx = .ok context ∧ rt.encodeContext context = .ok bytes ∧
      expandPredicate view context (boundCalldata context) pred = .ok leaf ∧ invoke rt bytes leaf cache = .ok true := by
  obtain ⟨context,tree,bytes,m,gathered,expanded,encoded,settled⟩ := approved
  obtain ⟨leaf,here,inside⟩ := conjunct_expands conjunct expanded
  exact ⟨context,bytes,leaf,gathered,encoded,here,conjunct_settles inside settled⟩

theorem conjunct_means {acc : Account} {means : List ExpandedParam → PredicateContext → Option Bool}
    (conjunct : Conjunct pred acc.predicates) (answers : Answers rt cache tx view pred means)
    (approved : ApprovedBy rt cache tx view acc) :
    ∃ context leaf, predicateContext rt.toHashing view tx = .ok context ∧
      expandPredicate view context (boundCalldata context) pred = .ok leaf ∧ means leaf.params context = some true := by
  obtain ⟨context,bytes,leaf,gathered,encoded,here,invoked⟩ := conjunct_approved conjunct approved
  exact ⟨context,leaf,gathered,here,answers context bytes leaf true gathered encoded here invoked⟩

theorem expand_inline {context : PredicateContext} {calldata : Calldata} {code : Code} {data : Bytes}
    {leaf : ExpandedPredicate} (done : expandPredicate view context calldata ⟨code,[.inline data]⟩ = .ok leaf) :
    leaf.params = [.inline data] := by
  obtain ⟨⟨_,filled⟩,_⟩ := expandPredicate_ok done
  obtain ⟨code,params⟩ := leaf
  cases filled with
  | cons own rest =>
      cases own
      cases rest
      rfl

end

section
variable {c : Toolchain} {sch : Scheduler} {u : Components.Labeling} {b next : BlockStateBuilder} {blocks : List Block}
  {results : List (Except BlockStateBuilder.Error Unit)}

-- Every change below an account asks its predicates, so what these can never
-- approve never happens, whatever a block makes of its transactions.
theorem frozen_below {top : Address} {acc : Account} (ran : consumeAll c sch u b blocks = .ok (results,next))
    (held : b.state.get top = some acc)
    (refuses : ∀ tx view cache diff, Taken c sch u (b.state,b.codecache) (accepted blocks results) tx view cache diff →
      view top = some acc → ¬ApprovedBy c.toRuntime cache tx view acc) :
    ∀ a, top ∈ a :: a.ancestors → next.state.get a = b.state.get a := by
  have kept := blocks_keep c sch u (b.state,b.codecache) (accepted blocks results)
    (P:=fun a x => top ∈ a :: a.ancestors → x = b.state.get a) (fun _ _ => rfl)
    fun tx view cache diff taken reads a after wrote path => by
      have whole : view top = some acc := (reads top (by simp)).trans held
      obtain ⟨change,proposed,_⟩ := written_proposed taken.executed wrote
      exact absurd (proposed_approves taken.executed proposed path whole)
        (refuses tx view cache diff taken whole)
  rw [← consumeAll_stores ran] at kept
  exact kept.2

-- The standard way to close an account for good: `constant` of false in its
-- predicates. It closes everything below as well.
theorem constant_false_freezes (c : Toolchain) (sch : Scheduler) (u : Components.Labeling) (b next : BlockStateBuilder)
    (blocks : List Block) (results : List (Except BlockStateBuilder.Error Unit)) (fromSlice : Bytes → Option Bool)
    (home top : Address) (acc : Account) (data : Bytes) (reads : fromSlice data = some false)
    (ran : consumeAll c sch u b blocks = .ok (results,next)) (held : b.state.get top = some acc)
    (conjunct : Conjunct ⟨.accountRef home "constant",[.inline data]⟩ acc.predicates)
    (answers : ∀ tx view cache diff, Taken c sch u (b.state,b.codecache) (accepted blocks results) tx view cache diff →
      Answers c.toRuntime cache tx view ⟨.accountRef home "constant",[.inline data]⟩ (constant fromSlice)) :
    ∀ a, top ∈ a :: a.ancestors → next.state.get a = b.state.get a := by
  refine frozen_below ran held fun tx view cache diff taken _ approved => ?_
  obtain ⟨context,leaf,_,expanded,meant⟩ := conjunct_means conjunct (answers tx view cache diff taken) approved
  rw [expand_inline expanded] at meant
  cases reads.symm.trans meant

end

-- `constant` and `uint_greater_than_equal` return 0 and the other predicates 1.
def guardWasm : Bytes :=
  [0x00,0x61,0x73,0x6d,0x01,0x00,0x00,0x00,0x01,0x0c,0x02,0x60,0x01,0x7f,0x01,0x7f,
   0x60,0x02,0x7f,0x7f,0x01,0x7f,0x03,0x09,0x08,0x00,0x01,0x01,0x01,0x01,0x01,0x01,
   0x01,0x07,0x9d,0x01,0x08,0x0a,0x5f,0x5f,0x61,0x6c,0x6c,0x6f,0x63,0x61,0x74,0x65,
   0x00,0x00,0x10,0x5f,0x5f,0x69,0x6e,0x67,0x65,0x73,0x74,0x5f,0x63,0x6f,0x6e,0x74,
   0x65,0x78,0x74,0x00,0x01,0x0f,0x5f,0x5f,0x69,0x6e,0x67,0x65,0x73,0x74,0x5f,0x70,
   0x61,0x72,0x61,0x6d,0x73,0x00,0x02,0x08,0x63,0x6f,0x6e,0x73,0x74,0x61,0x6e,0x74,
   0x00,0x03,0x0f,0x69,0x6d,0x6d,0x75,0x74,0x61,0x62,0x6c,0x65,0x5f,0x73,0x74,0x61,
   0x74,0x65,0x00,0x04,0x14,0x69,0x6d,0x6d,0x75,0x74,0x61,0x62,0x6c,0x65,0x5f,0x70,
   0x72,0x65,0x64,0x69,0x63,0x61,0x74,0x65,0x73,0x00,0x05,0x17,0x75,0x69,0x6e,0x74,
   0x5f,0x67,0x72,0x65,0x61,0x74,0x65,0x72,0x5f,0x74,0x68,0x61,0x6e,0x5f,0x65,0x71,
   0x75,0x61,0x6c,0x00,0x06,0x19,0x72,0x65,0x71,0x75,0x69,0x72,0x65,0x5f,0x65,0x64,
   0x32,0x35,0x35,0x31,0x39,0x5f,0x73,0x69,0x67,0x6e,0x61,0x74,0x75,0x72,0x65,0x00,
   0x07,0x0a,0x29,0x08,0x04,0x00,0x41,0x00,0x0b,0x04,0x00,0x20,0x00,0x0b,0x04,0x00,
   0x20,0x00,0x0b,0x04,0x00,0x41,0x00,0x0b,0x04,0x00,0x41,0x01,0x0b,0x04,0x00,0x41,
   0x01,0x0b,0x04,0x00,0x41,0x00,0x0b,0x04,0x00,0x41,0x01,0x0b]

def guardDigest : Bytes :=
  [0x2a,0x68,0xbe,0x7f,0x6c,0x94,0xd3,0x17,0xca,0xd2,0xc7,0x62,0xfd,0x80,0xeb,0xf2,
   0xcb,0x47,0x26,0xd5,0xef,0x82,0x26,0x3f,0x3b,0x73,0xf1,0xe0,0x45,0x45,0x43,0x99]

def guardExports (name : String) : Option Entrypoint :=
  if name = "constant" ∨ name = "uint_greater_than_equal" then some fun _ _ => .ok 0
  else if name = "immutable_state" ∨ name = "immutable_predicates" ∨ name = "require_ed25519_signature" then
    some fun _ _ => .ok 1
  else none

namespace GuardExample

def sha3 (message : Bytes) : Bytes :=
  if message = Wire.block (A:=Address) 0 ⟨0,[]⟩ [] then BuilderExample.zeroDigest
  else if message = guardWasm then guardDigest
  else if message = Wire.multihash SignatureExample.recentBlockhash ++ Wire.tree SignatureExample.expectations then
    SignatureExample.signingDigest
  else List.replicate 32 0

theorem sha3_length (message : Bytes) : (sha3 message).length = 32 := by
  unfold sha3
  split
  · rfl
  · split
    · rfl
    · split <;> rfl

def host : Host where
  toHashing := Wire.hashing sha3 sha3_length
  encodeContext context := .ok (Wire.context context)
  encodeParams params := .ok (Wire.params params)
  modules code := if code = guardWasm then some guardExports else none

def toolchain : Toolchain := {host.runtime with
  encodeBlock := Wire.block
  serialize := fun _ => some BuilderExample.artifact}

def library : Account := ⟨guardWasm,immutableGuard Wire.address stdaddr stdaddr⟩

def no : Bytes := [0xc2]
def readBool (data : Bytes) : Option Bool :=
  if data = [0xc2] then some false else if data = [0xc3] then some true else none

def closed : Address := ⟨"/closed",by decide⟩
def sealed : Account := ⟨[7],.id ⟨.accountRef stdaddr "constant",[.inline no]⟩⟩
def store : InMemoryStateStore := ⟨.ofList [(stdaddr,library),(closed,sealed)] compare⟩
def builder : BlockStateBuilder := ⟨BuilderExample.historyLen,store,BuilderExample.empty,[.zero]⟩

def creates : Transaction :=
  .new [] ((∅ : BTreeMap Address AccountChange).insert FootprintExample.parent (.createAccount ⟨[1],.id ⟨.inline [],[]⟩⟩))
def child (tx : Transaction) : Block := ⟨1,⟨sha3Code,BuilderExample.zeroDigest⟩,[tx],none⟩

theorem child_follows (tx : Transaction) : (child tx).Follows toolchain .zero := by
  have digest : sha3 (Wire.block (A:=Address) 0 ⟨0,[]⟩ []) = BuilderExample.zeroDigest := if_pos rfl
  exact ⟨congrArg (Multihash.mk sha3Code) digest.symm,rfl⟩

theorem stored_pair {a b : Address} (apart : a ≠ b) (x y : Account) :
    (⟨.ofList [(a,x),(b,y)] compare⟩ : InMemoryStateStore).get a = some x ∧
    (⟨.ofList [(a,x),(b,y)] compare⟩ : InMemoryStateStore).get b = some y := by
  have distinct : [(a,x),(b,y)].Pairwise fun p q => ¬ compare p.1 q.1 = .eq := by
    simpa using fun same => apart (Std.LawfulEqOrd.eq_of_compare same)
  exact ⟨Std.ExtTreeMap.getElem?_ofList_of_mem Std.ReflCmp.compare_self distinct (by simp),
    Std.ExtTreeMap.getElem?_ofList_of_mem Std.ReflCmp.compare_self distinct (by simp)⟩

theorem stored : store.get stdaddr = some library ∧ store.get closed = some sealed := stored_pair (by decide) library sealed

theorem library_answers {view cache : View} {tx : Transaction} {entrypoint : String} {params : List Param}
    {means : List ExpandedParam → PredicateContext → Option Bool} (value : Bool) (installed : view stdaddr = some library)
    (exported : Host.lookup guardExports entrypoint 2 = .ok (.entry fun _ _ => .ok (if value then 1 else 0)))
    (meant : ∀ context leaf, predicateContext toolchain.toHashing view tx = .ok context →
      expandPredicate view context (boundCalldata context) ⟨.accountRef stdaddr entrypoint,params⟩ = .ok leaf →
      means leaf.params context = some value) :
    Answers toolchain.toRuntime cache tx view ⟨.accountRef stdaddr entrypoint,params⟩ means := by
  intro context bytes leaf answer gathered encoded done ran
  have known : host.modules guardWasm = some guardExports := by simp [host]
  obtain ⟨⟨coded,_⟩,_⟩ := expandPredicate_ok done
  have meaning := meant context leaf gathered done
  obtain ⟨code,filled⟩ := leaf
  cases coded with
  | accountRef _ held =>
      cases held.symm.trans installed
      have invoked : invoke toolchain.toRuntime bytes ⟨⟨guardWasm,entrypoint⟩,filled⟩ cache = .ok value := by
        have same : toolchain.toRuntime = host.runtime := rfl
        have answered : invoke host.runtime bytes ⟨⟨guardWasm,entrypoint⟩,filled⟩ cache = _ :=
          Host.invoke_runtime host known exported rfl
        rw [same,answered]
        cases value <;> rfl
      cases invoked.symm.trans ran
      exact meaning

end GuardExample

theorem closed_stays : ∃ next,
    consumeAll GuardExample.toolchain .inOrder .quick GuardExample.builder [GuardExample.child GuardExample.creates] =
      .ok ([.ok ()],next) ∧ next.state.get GuardExample.closed = some GuardExample.sealed := by
  refine ⟨_,consumeAll_single rfl (GuardExample.child_follows _) (by decide),?_⟩
  have held := GuardExample.stored.2
  refine (constant_false_freezes GuardExample.toolchain .inOrder .quick GuardExample.builder _
    [GuardExample.child GuardExample.creates] [.ok ()] GuardExample.readBool stdaddr GuardExample.closed
    GuardExample.sealed GuardExample.no (by decide) (consumeAll_single rfl (GuardExample.child_follows _) (by decide))
    held .id ?_ GuardExample.closed (by simp)).trans held
  intro tx view cache diff taken
  obtain ⟨rfl,rfl,rfl⟩ := taken_single rfl taken
  refine GuardExample.library_answers false GuardExample.stored.1 rfl fun context leaf _ done => ?_
  rw [expand_inline done]
  rfl

section
variable {c : Toolchain} {sch : Scheduler} {u : Components.Labeling} {b next : BlockStateBuilder} {blocks : List Block}
  {results : List (Except BlockStateBuilder.Error Unit)}

-- An account under `immutable_state` and `immutable_predicates` of a library, in
-- a run of blocks that never propose to delete it.
structure Installed (c : Toolchain) (sch : Scheduler) (u : Components.Labeling)
    (stores : InMemoryStateStore × InMemoryStateStore) (blocks : List Block) (encode : Address → Bytes)
    (decode : Bytes → Option Address) (home target : Address) (account : Account) : Prop where
  decodes : decode (encode target) = some target
  held : stores.1.get target = some account
  guarded : account.predicates = immutableGuard encode home target
  keepsState : ∀ tx view cache diff, Taken c sch u stores blocks tx view cache diff → view target = some account →
    Answers c.toRuntime cache tx view ⟨.accountRef home "immutable_state",[.inline (encode target)]⟩ (immutableState decode)
  keepsPredicates : ∀ tx view cache diff, Taken c sch u stores blocks tx view cache diff → view target = some account →
    Answers c.toRuntime cache tx view ⟨.accountRef home "immutable_predicates",[.inline (encode target)]⟩
      (immutablePredicates decode)
  undeleted : ∀ block ∈ blocks, ∀ tx ∈ block.transactions, tx.proposals[target]? ≠ some .deleteAccount

variable {stores : InMemoryStateStore × InMemoryStateStore} {encode : Address → Bytes} {decode : Bytes → Option Address}
  {home target : Address} {account : Account}

theorem Taken.member {tx : Transaction} {view cache : View} {diff : StateDiff}
    (taken : Taken c sch u stores blocks tx view cache diff) : ∃ block ∈ blocks, tx ∈ block.transactions := by
  obtain ⟨front,block,back,rfl,shown,_⟩ := taken
  exact ⟨block,by simp,shown_member shown⟩

theorem installed_change {tx : Transaction} {view cache : View} {diff : StateDiff} {change : AccountChange}
    (installed : Installed c sch u stores blocks encode decode home target account)
    (taken : Taken c sch u stores blocks tx view cache diff) (seen : view target = some account)
    (proposed : tx.proposals[target]? = some change) (fits : effect change (some account) ≠ none) :
    change = .deleteAccount := by
  have approved := proposed_approves taken.executed proposed (by simp) seen
  have first : Conjunct ⟨.accountRef home "immutable_state",[.inline (encode target)]⟩ account.predicates := by
    rw [installed.guarded]
    exact .left .id
  have second : Conjunct ⟨.accountRef home "immutable_predicates",[.inline (encode target)]⟩ account.predicates := by
    rw [installed.guarded]
    exact .right .id
  obtain ⟨context,leaf,gathered,expanded,asState⟩ :=
    conjunct_means first (installed.keepsState tx view cache diff taken seen) approved
  obtain ⟨again,other,gathered',expanded',asPredicates⟩ :=
    conjunct_means second (installed.keepsPredicates tx view cache diff taken seen) approved
  cases gathered.symm.trans gathered'
  rw [expand_inline expanded] at asState
  rw [expand_inline expanded'] at asPredicates
  obtain ⟨told,expands,shown⟩ := context_proposal gathered proposed
  have keepsState := immutable_allows installed.decodes shown asState
  have keepsPredicates := immutable_allows installed.decodes shown asPredicates
  cases change with
  | createAccount fresh => exact absurd rfl fits
  | replaceState proposed =>
      simp [expandAccountChange,seen] at expands
      simp [← expands] at keepsState
  | replacePredicates proposed =>
      simp [expandAccountChange,seen] at expands
      simp [← expands] at keepsPredicates
  | deleteAccount => rfl

theorem installed_kept (installed : Installed c sch u stores blocks encode decode home target account) :
    (∀ tx view cache diff, Taken c sch u stores blocks tx view cache diff → view target = some account) ∧
    (blocks.foldl (BlockStateBuilder.replay c sch u) stores).1.get target = some account := by
  have kept := blocks_keep c sch u stores blocks
    (P:=fun a x => a = target → x = some account) (fun a same => same ▸ installed.held)
    fun tx view cache diff taken reads a after wrote same => by
      subst same
      have seen := reads a rfl
      obtain ⟨change,proposed,fits⟩ := written_proposed taken.executed wrote
      rw [seen] at fits
      have deleted := installed_change installed taken seen proposed (by simp [fits])
      obtain ⟨block,inside,member⟩ := taken.member
      exact absurd (proposed.trans (congrArg some deleted)) (installed.undeleted block inside tx member)
  exact ⟨fun tx view cache diff taken => kept.1 tx view cache diff taken target rfl,kept.2 target rfl⟩

theorem installed_survives (c : Toolchain) (sch : Scheduler) (u : Components.Labeling) (b next : BlockStateBuilder)
    (blocks : List Block) (results : List (Except BlockStateBuilder.Error Unit)) (encode : Address → Bytes)
    (decode : Bytes → Option Address) (home target : Address) (account : Account)
    (ran : consumeAll c sch u b blocks = .ok (results,next))
    (installed : Installed c sch u (b.state,b.codecache) (accepted blocks results) encode decode home target account) :
    next.state.get target = some account := by
  have kept := (installed_kept installed).2
  rwa [← consumeAll_stores ran] at kept

end

namespace GuardExample

theorem installed {tx : Transaction} (silent : tx.proposals[stdaddr]? = none) (store : InMemoryStateStore)
    (held : store.get stdaddr = some library) :
    Installed toolchain .inOrder .quick (store,BuilderExample.empty) [child tx] Wire.address Wire.readAddress stdaddr
      stdaddr library := by
  have untouched : ∀ context, predicateContext toolchain.toHashing store.get tx = .ok context →
      context.proposals[stdaddr]? = none := by
    intro context gathered
    cases found : context.proposals[stdaddr]? with
    | none => rfl
    | some change =>
        obtain ⟨proposed,told⟩ := (context_keys gathered stdaddr).mp ⟨change,found⟩
        cases silent.symm.trans told
  have decodes : Wire.readAddress (Wire.address stdaddr) = some stdaddr := by decide
  refine ⟨decodes,held,rfl,?_,?_,?_⟩
  · intro other view cache diff taken _
    obtain ⟨rfl,rfl,rfl⟩ := taken_single rfl taken
    refine library_answers true held rfl fun context leaf gathered done => ?_
    rw [expand_inline done]
    simp [immutableState,immutable,ExpandedParam.data,decodes,untouched context gathered]
  · intro other view cache diff taken _
    obtain ⟨rfl,rfl,rfl⟩ := taken_single rfl taken
    refine library_answers true held rfl fun context leaf gathered done => ?_
    rw [expand_inline done]
    simp [immutablePredicates,immutable,ExpandedParam.data,decodes,untouched context gathered]
  · intro block member other inside proposed
    obtain rfl := List.mem_singleton.mp member
    obtain rfl := List.mem_singleton.mp inside
    cases silent.symm.trans proposed

end GuardExample

theorem library_stays : ∃ next,
    consumeAll GuardExample.toolchain .inOrder .quick GuardExample.builder [GuardExample.child GuardExample.creates] =
      .ok ([.ok ()],next) ∧ next.state.get stdaddr = some GuardExample.library := by
  refine ⟨_,consumeAll_single rfl (GuardExample.child_follows _) (by decide),?_⟩
  exact installed_survives GuardExample.toolchain .inOrder .quick GuardExample.builder _
    [GuardExample.child GuardExample.creates] [.ok ()] Wire.address Wire.readAddress stdaddr stdaddr GuardExample.library
    (consumeAll_single rfl (GuardExample.child_follows _) (by decide))
    (GuardExample.installed (by decide) GuardExample.store GuardExample.stored.1)

end AnomaAlpha
