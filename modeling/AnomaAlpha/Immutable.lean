import AnomaAlpha.Approval
import AnomaAlpha.Expansion
import AnomaAlpha.Stdpred

namespace AnomaAlpha
open Execution Collect Stdpred

-- The predicates of `/stdpred/v1` and `/token`: the library at `home` is asked
-- whether `target` stays as it is.
def immutableGuard (encode : Address → Bytes) (home target : Address) : PredicateTree :=
  .and (.id ⟨.accountRef home "immutable_state",[.inline (encode target)]⟩)
    (.id ⟨.accountRef home "immutable_predicates",[.inline (encode target)]⟩)

structure Round where
  transaction : Transaction
  schedule : Scheduler
  cache : View

def Round.result (rt : Runtime) (round : Round) (store : InMemoryStateStore) : Except Error StateDiff :=
  execute rt round.schedule round.transaction store.get round.cache

def play (rt : Runtime) (store : InMemoryStateStore) (rounds : List Round) : InMemoryStateStore :=
  rounds.foldl (fun store round => store.advance (round.result rt store)) store

section
variable {rt : Runtime} {encode : Address → Bytes} {decode : Bytes → Option Address} {home target : Address}

-- The code that is installed at `home` answers the two leaves of the guard, if
-- it answers, as the library does.
def AsLibrary (rt : Runtime) (encode : Address → Bytes) (decode : Bytes → Option Address) (home target : Address)
    (round : Round) (state : View) : Prop :=
  ∀ library context bytes answer, state home = some library →
    predicateContext rt.toHashing state round.transaction = .ok context → rt.encodeContext context = .ok bytes →
    (invoke rt bytes ⟨⟨library.state,"immutable_state"⟩,[.inline (encode target)]⟩ round.cache = .ok answer →
      Stdpred.immutableState decode [.inline (encode target)] context = some answer) ∧
    (invoke rt bytes ⟨⟨library.state,"immutable_predicates"⟩,[.inline (encode target)]⟩ round.cache = .ok answer →
      Stdpred.immutablePredicates decode [.inline (encode target)] context = some answer)

theorem guard_expands {state : View} {context : PredicateContext} {calldata : Calldata} {tree : ExpandedTree}
    (expanded : expandPredicateTree state (immutableGuard encode home target) context calldata = .ok tree) :
    ∃ library, state home = some library ∧
      tree = .and (.id ⟨⟨library.state,"immutable_state"⟩,[.inline (encode target)]⟩)
        (.id ⟨⟨library.state,"immutable_predicates"⟩,[.inline (encode target)]⟩) := by
  have own : ∀ {values}, List.Forall₂ (ParamExpands state context calldata) [.inline (encode target)] values →
      values = [.inline (encode target)] := by
    intro values filled
    cases filled with
    | cons own rest =>
        cases own
        cases rest
        rfl
  obtain ⟨left,right,first,second,rfl⟩ := expand_and expanded
  obtain ⟨library,values,installed,filled,rfl⟩ := expand_leaf first
  obtain ⟨library',values',again,filled',rfl⟩ := expand_leaf second
  cases installed.symm.trans again
  exact ⟨library,installed,by rw [own filled,own filled']⟩

theorem guarded_change {round : Round} {state : View} {account : Account} {diff : StateDiff} {change : AccountChange}
    (decodes : decode (encode target) = some target) (held : state target = some account)
    (guarded : account.predicates = immutableGuard encode home target)
    (library : AsLibrary rt encode decode home target round state)
    (accepted : execute rt round.schedule round.transaction state round.cache = .ok diff)
    (proposed : round.transaction.proposals[target]? = some change) : change = .deleteAccount := by
  obtain ⟨written,context,accounts,intents,gathered,asked,expected,invoked⟩ := execute_ok.mp accepted
  have inside := key_touched ((OrderedMap.mem_keys_iff _ _).mpr ⟨change,proposed⟩)
  obtain ⟨tree,expanded⟩ := accountsPredicates_expands asked inside held
  have required := (gathered_required round.schedule asked expected tree).mpr (.account proposed (by simp) held expanded)
  rw [guarded] at expanded
  obtain ⟨code,installed,rfl⟩ := guard_expands expanded
  obtain ⟨bytes,m,encoded,settled⟩ := invoked_settles invoked required
  obtain ⟨first,second⟩ := settle_and settled
  obtain ⟨expanded,fits,shown⟩ := context_proposal gathered proposed
  obtain ⟨asState,asPredicates⟩ := library code context bytes true installed gathered encoded
  have keepsState := immutable_allows decodes shown (asState (settle_id first))
  have keepsPredicates := immutable_allows decodes shown (asPredicates (settle_id second))
  cases change with
  | createAccount fresh =>
      obtain ⟨result,fit,_⟩ := outputs_fits written proposed
      simp [effect,held] at fit
  | replaceState proposed =>
      simp [expandAccountChange,held] at fits
      simp [← fits] at keepsState
  | replacePredicates proposed =>
      simp [expandAccountChange,held] at fits
      simp [← fits] at keepsPredicates
  | deleteAccount => rfl

theorem round_keeps {round : Round} {store : InMemoryStateStore} {account : Account}
    (decodes : decode (encode target) = some target) (held : store.get target = some account)
    (guarded : account.predicates = immutableGuard encode home target)
    (library : AsLibrary rt encode decode home target round store.get)
    (undeleted : round.transaction.proposals[target]? ≠ some .deleteAccount) :
    (store.advance (round.result rt store)).get target = some account := by
  cases ran : round.result rt store with
  | error e => exact held
  | ok diff =>
      cases proposed : round.transaction.proposals[target]? with
      | none =>
          have silent := outputs_silent (execute_ok.mp ran).1 proposed
          simp [InMemoryStateStore.advance,InMemoryStateStore.apply_get,Patch.apply,silent,held]
      | some change =>
          have deleted := guarded_change decodes held guarded library ran proposed
          exact absurd (proposed.trans (congrArg some deleted)) undeleted

-- The two predicates stop every change of the account but its deletion, and
-- nobody else can change it, so a run that never proposes the deletion keeps it.
theorem immutable_account_survives (rt : Runtime) (encode : Address → Bytes) (decode : Bytes → Option Address)
    (home target : Address) (store : InMemoryStateStore) (account : Account) (rounds : List Round)
    (decodes : decode (encode target) = some target) (held : store.get target = some account)
    (guarded : account.predicates = immutableGuard encode home target)
    (library : ∀ k round, rounds[k]? = some round →
      AsLibrary rt encode decode home target round (play rt store (rounds.take k)).get)
    (undeleted : ∀ round ∈ rounds, round.transaction.proposals[target]? ≠ some .deleteAccount) :
    ∀ k, (play rt store (rounds.take k)).get target = some account := by
  intro k
  induction k with
  | zero => exact held
  | succ k ih =>
      rw [List.take_add_one]
      cases next : rounds[k]? with
      | none => simpa using ih
      | some round =>
          have member := List.mem_of_getElem? next
          have kept := round_keeps decodes ih guarded (library k round next) (undeleted round member)
          simpa [play,List.foldl_append] using kept

end

-- The two predicates return 1, which is what they answer when nothing is replaced.
def libraryWasm : Bytes :=
  [0x00,0x61,0x73,0x6d,0x01,0x00,0x00,0x00,
   0x01,0x0c,0x02,0x60,0x01,0x7f,0x01,0x7f,0x60,0x02,0x7f,0x7f,0x01,0x7f,
   0x03,0x06,0x05,0x00,0x01,0x01,0x01,0x01,
   0x07,0x5c,0x05,
   0x0a,0x5f,0x5f,0x61,0x6c,0x6c,0x6f,0x63,0x61,0x74,0x65,0x00,0x00,
   0x10,0x5f,0x5f,0x69,0x6e,0x67,0x65,0x73,0x74,0x5f,0x63,0x6f,0x6e,0x74,0x65,0x78,0x74,0x00,0x01,
   0x0f,0x5f,0x5f,0x69,0x6e,0x67,0x65,0x73,0x74,0x5f,0x70,0x61,0x72,0x61,0x6d,0x73,0x00,0x02,
   0x0f,0x69,0x6d,0x6d,0x75,0x74,0x61,0x62,0x6c,0x65,0x5f,0x73,0x74,0x61,0x74,0x65,0x00,0x03,
   0x14,0x69,0x6d,0x6d,0x75,0x74,0x61,0x62,0x6c,0x65,0x5f,0x70,0x72,0x65,0x64,0x69,0x63,0x61,0x74,0x65,0x73,0x00,0x04,
   0x0a,0x1a,0x05,0x04,0x00,0x41,0x00,0x0b,0x04,0x00,0x20,0x00,0x0b,0x04,0x00,0x20,0x00,0x0b,0x04,0x00,0x41,0x01,0x0b,
   0x04,0x00,0x41,0x01,0x0b]

def libraryDigest : Bytes :=
  [0x41,0xb6,0xc7,0x69,0xea,0x9d,0x61,0x81,0x0e,0x4e,0x91,0x61,0xe5,0xf7,0x2d,0x44,
   0x6c,0xca,0x7f,0x9e,0x45,0xcd,0x8e,0x50,0x70,0x61,0x59,0x85,0x65,0x37,0x89,0x02]

def libraryExports : String → Option Entrypoint :=
  fun name => if name = "immutable_state" ∨ name = "immutable_predicates" then some fun _ _ => .ok 1 else none

namespace StdpredExample
def child : Address := ⟨"/stdpred/v1/child",by decide⟩
def host : Host := .single libraryWasm libraryDigest rfl libraryExports
def library : Account := ⟨libraryWasm,immutableGuard Wire.address stdaddr stdaddr⟩
def installed : InMemoryStateStore := ⟨(∅ : BTreeMap Address Account).insert stdaddr library⟩
def round (addr : Address) (change : AccountChange) : Round :=
  ⟨.new [] ((∅ : BTreeMap Address AccountChange).insert addr change),.inOrder,fun _ => none⟩
def adopts : Round := round child (.createAccount library)
def deletes : Round := round stdaddr .deleteAccount

theorem answers {round : Round} {context : PredicateContext}
    (gathered : predicateContext host.toHashing installed.get round.transaction = .ok context)
    (kept : immutableState Wire.readAddress [.inline (Wire.address stdaddr)] context = some true ∧
      immutablePredicates Wire.readAddress [.inline (Wire.address stdaddr)] context = some true) :
    AsLibrary host.runtime Wire.address Wire.readAddress stdaddr stdaddr round installed.get := by
  intro code other bytes answer found again encoded
  have held : installed.get stdaddr = some library := by decide
  obtain rfl := Option.some.inj (held.symm.trans found)
  obtain rfl := Except.ok.inj (gathered.symm.trans again)
  have accepted : ∀ name, Host.lookup libraryExports name 2 = .ok (.entry fun _ _ => .ok 1) →
      invoke host.runtime bytes ⟨⟨libraryWasm,name⟩,[.inline (Wire.address stdaddr)]⟩ round.cache = .ok true :=
    fun name exported => Host.single_invoke exported bytes _ _
  constructor
  · intro ran
    obtain rfl := Except.ok.inj ((accepted "immutable_state" rfl).symm.trans ran)
    exact kept.1
  · intro ran
    obtain rfl := Except.ok.inj ((accepted "immutable_predicates" rfl).symm.trans ran)
    exact kept.2

end StdpredExample

theorem library_keeps_itself :
    StdpredExample.installed.get stdaddr = some StdpredExample.library ∧
    (play StdpredExample.host.runtime StdpredExample.installed [StdpredExample.adopts]).get StdpredExample.child =
      some StdpredExample.library ∧
    (play StdpredExample.host.runtime StdpredExample.installed [StdpredExample.adopts]).get stdaddr =
      some StdpredExample.library := by
  have held : StdpredExample.installed.get stdaddr = some StdpredExample.library := by decide
  refine ⟨held,by decide,?_⟩
  refine immutable_account_survives StdpredExample.host.runtime Wire.address Wire.readAddress stdaddr
    stdaddr StdpredExample.installed StdpredExample.library [StdpredExample.adopts]
    (by decide) held rfl ?_ ?_ 1
  · intro k round found
    obtain rfl : k = 0 := Nat.lt_one_iff.mp (List.getElem?_eq_some_iff.mp found).1
    obtain rfl := Option.some.inj found
    exact StdpredExample.answers rfl ⟨by decide,by decide⟩
  · intro round member
    obtain rfl := List.mem_singleton.mp member
    decide

-- A `DeleteAccount` is neither a `ReplaceState` nor a `ReplacePredicates`.
theorem library_deletes_itself :
    AsLibrary StdpredExample.host.runtime Wire.address Wire.readAddress stdaddr stdaddr
      StdpredExample.deletes StdpredExample.installed.get ∧
    StdpredExample.installed.get stdaddr = some StdpredExample.library ∧
    StdpredExample.library.predicates =
      immutableGuard Wire.address stdaddr stdaddr ∧
    (play StdpredExample.host.runtime StdpredExample.installed [StdpredExample.deletes]).get stdaddr =
      none := by
  exact ⟨StdpredExample.answers rfl ⟨by decide,by decide⟩,by decide,rfl,by decide⟩

end AnomaAlpha
