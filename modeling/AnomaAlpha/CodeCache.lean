import AnomaAlpha.Builder

namespace AnomaAlpha
open Execution StateDiff BlockStateBuilder Collect

-- The account is the artifact of the code that gives the address.
def Entry (c : Toolchain) (addr : Address) (acc : Account) (code : Bytes) : Prop :=
  addr = cachekey c.toHashing code ∧ ∃ module, c.fromBinary code = .ok module ∧ c.serialize module = some acc.state

def Compiled (c : Toolchain) (cache : View) : Prop := ∀ addr acc, cache addr = some acc → ∃ code, Entry c addr acc code

-- No code that the transaction runs has the digest of another code whose
-- artifact is in the cache.
def CollisionFree (c : Toolchain) (cache : View) (tx : Transaction) (state : View) : Prop :=
  ∀ context tree pred addr acc code, predicateContext c.toHashing state tx = .ok context →
    Required state context tx tree → pred ∈ tree.leaves → cache addr = some acc → Entry c addr acc code →
    c.sha3 pred.code.code = c.sha3 code → pred.code.code = code

-- What the runtime promises about artifacts: they load as what was compiled or
-- not at all.
def Toolchain.Reloads (c : Toolchain) : Prop := ∀ code module bytes, c.fromBinary code = .ok module →
  c.serialize module = some bytes → c.deserialize bytes = some module ∨ c.deserialize bytes = none

theorem Address.new_checked (path : String) (checked : checkPath path.toList = .ok ()) :
    Address.new path = .ok ⟨path,checked⟩ := by
  unfold Address.new
  split
  · rfl
  · rename_i e failed
    rw [checked] at failed
    cases failed

theorem cachekey_sha3 {w : Hashing} {code other : Bytes} (same : cachekey w code = cachekey w other) :
    w.sha3 code = w.sha3 other := by
  have paths : cachePath w code = cachePath w other := congrArg Address.path same
  unfold cachePath at paths
  have keys := String.append_right_inj _ |>.mp paths
  rw [Multihash.toBytes_wrap,Multihash.toBytes_wrap] at keys
  have bytes := w.bs58.injective keys
  simpa using bytes

theorem precompile_key (w : Hashing) (code : Bytes) :
    (⟨precompilePath w code,precompilePath_checked w code⟩ : Address) = cachekey w code := rfl

section
variable {c : Toolchain} {sch : Scheduler} {u : Components.Labeling}

theorem tryPrecompile_entries {output : StateDiff}
    (entries : ∀ addr value, output.patch addr = some value → ∃ acc code, value = some acc ∧ Entry c addr acc code)
    (change : Account) : ∀ addr value, (tryPrecompile c output change).patch addr = some value →
      ∃ acc code, value = some acc ∧ Entry c addr acc code := by
  unfold tryPrecompile
  split
  · cases compiled : c.fromBinary change.state with
    | error e => exact entries
    | ok module =>
        cases serialized : c.serialize module with
        | none => simpa [serialized] using entries
        | some artifact =>
            intro addr value written
            have stored := write_patch output (cachekey c.toHashing change.state) (some (unguarded artifact)) addr
            simp only [serialized] at written
            have here := stored.symm.trans written
            split at here
            · rename_i same
              obtain rfl := Option.some.inj here
              exact ⟨_,change.state,rfl,same.symm,module,compiled,serialized⟩
            · exact entries addr value here
  · exact entries

theorem precompiled_entries (c : Toolchain) (diff : StateDiff) : ∀ addr value,
    (tryPrecompilePredicates c diff).patch addr = some value → ∃ acc code, value = some acc ∧ Entry c addr acc code := by
  unfold tryPrecompilePredicates
  refine List.foldlRecOn (motive:=fun (output : StateDiff) => ∀ addr value,
    output.patch addr = some value → ∃ acc code, value = some acc ∧ Entry c addr acc code) diff.iter _ ?_ ?_
  · intro addr value written
    rw [patch_default] at written
    cases written
  · intro output entries entry _
    split
    · exact tryPrecompile_entries entries _
    · exact entries

theorem replay_compiled (stores : InMemoryStateStore × InMemoryStateStore) (compiled : Compiled c stores.2.get)
    (block : Block) : Compiled c (replay c sch u stores block).2.get := by
  unfold replay
  split
  · rename_i results ran
    intro addr acc found
    rw [InMemoryStateStore.apply_get] at found
    unfold Patch.apply at found
    cases written : (tryPrecompilePredicates c (mergeAll (successes results))).patch addr with
    | none => exact compiled addr acc (by simpa [written] using found)
    | some value =>
        obtain ⟨stored,code,rfl,entry⟩ := precompiled_entries c _ addr value written
        obtain rfl : stored = acc := by simpa [written] using found
        exact ⟨code,entry⟩
  · exact compiled

theorem consumeAll_compiled {b next : BlockStateBuilder} {blocks : List Block}
    {results : List (Except BlockStateBuilder.Error Unit)} (compiled : Compiled c b.codecache.get)
    (ran : consumeAll c sch u b blocks = .ok (results,next)) : Compiled c next.codecache.get := by
  induction blocks generalizing b results with
  | nil =>
      cases ran
      exact compiled
  | cons block blocks ih =>
      obtain ⟨⟨result,between⟩,stepped,later⟩ := Fallible.bind_ok.mp ran
      obtain ⟨⟨rest,last⟩,ranLater,finished⟩ := Fallible.bind_ok.mp later
      cases finished
      refine ih ?_ ranLater
      cases front : b.recent with
      | nil => simp [consume,front] at stepped
      | cons last older =>
          rcases consume_cases c sch u (Collect.all_end block.transactions) front with ⟨error,refused,_⟩ | ⟨stopped,_,_⟩ | ⟨_,taken⟩
          · rw [refused] at stepped
            cases stepped
            exact compiled
          · rw [stopped] at stepped
            cases stepped
          · rw [taken] at stepped
            cases stepped
            exact replay_compiled (b.state,b.codecache) compiled block

-- The key holds the artifact of this very code, and an artifact loads as what
-- the code compiles to.
theorem loadModule_compiled {cache : View} (code : Bytes) (reloads : c.Reloads) (compiled : Compiled c cache)
    (free : ∀ acc other, cache (cachekey c.toHashing code) = some acc → Entry c (cachekey c.toHashing code) acc other →
      c.sha3 code = c.sha3 other → code = other) :
    loadModule c.toRuntime code cache = loadModule c.toRuntime code fun _ => none := by
  unfold loadModule
  cases found : cache (cachekey c.toHashing code) with
  | none => rfl
  | some acc =>
      obtain ⟨other,entry⟩ := compiled _ acc found
      obtain rfl := free acc other found entry (cachekey_sha3 entry.1)
      obtain ⟨_,module,binary,serialized⟩ := entry
      rcases reloads code module acc.state binary serialized with loaded | broken
      · simp [loaded,binary,Except.mapError]
      · simp [broken]

theorem invoke_loaded {rt : Runtime} {cache other : View} {bytes : Bytes} {pred : ExpandedPredicate}
    (loaded : loadModule rt pred.code.code cache = loadModule rt pred.code.code other) :
    invoke rt bytes pred cache = invoke rt bytes pred other := by
  unfold invoke
  rw [loaded]

theorem execute_compiled {cache state : View} {tx : Transaction} (reloads : c.Reloads) (compiled : Compiled c cache)
    (free : CollisionFree c cache tx state) :
    execute c.toRuntime sch tx state cache = execute c.toRuntime sch tx state fun _ => none := by
  have invoked : ∀ context accounts intents, predicateContext c.toHashing state tx = .ok context →
      accountsPredicates state context tx = .ok accounts → intentsPredicates state context tx = .ok intents →
      parallelInvokePredicates c.toRuntime sch context (sch.order accounts ++ intents) cache =
        parallelInvokePredicates c.toRuntime sch context (sch.order accounts ++ intents) fun _ => none := by
    intro context accounts intents gathered asked expected
    unfold parallelInvokePredicates
    refine bind_congr fun bytes => ?_
    congr 1
    apply List.map_congr_left
    intro tree member
    apply ExpressionTree.map_congr
    intro pred leaf
    have required := (gathered_required sch asked expected tree).mp member
    have loaded := loadModule_compiled pred.code.code reloads compiled fun acc other found entry =>
      free context tree pred _ acc other gathered required leaf found entry
    rw [invoke_loaded loaded]
  unfold execute
  refine bind_congr fun diff => Fallible.bind_agree fun context gathered => Fallible.bind_agree fun accounts asked =>
    Fallible.bind_agree fun intents expected => ?_
  rw [Fallible.mapError_ok] at gathered asked expected
  rw [invoked context accounts intents gathered asked expected]

end

-- Reader and writer of the cache meet at the key, so the fast path of `invoke`
-- loads what the slow one compiles.
theorem code_cache_transparent (c : Toolchain) (sch : Scheduler) (u : Components.Labeling) (historyLen : NonZeroUsize)
    (state : InMemoryStateStore) (recent blocks : List Block) (b next : BlockStateBuilder)
    (results : List (Except BlockStateBuilder.Error Unit)) (reloads : c.Reloads)
    (made : BlockStateBuilder.new historyLen state ⟨∅⟩ recent = .ok b)
    (ran : consumeAll c sch u b blocks = .ok (results,next)) :
    (∀ tx s, CollisionFree c next.codecache.get tx s →
      execute c.toRuntime sch tx s next.codecache.get = execute c.toRuntime sch tx s fun _ => none) ∧
    (∀ addr acc, next.codecache.get addr = some acc → ∃ code module,
      addr.path = "/predcache/" ++ c.bs58.encode (c.wrap code).toBytes ∧
      c.fromBinary code = .ok module ∧ c.serialize module = some acc.state) ∧
    ∀ code, Address.new (cachePath c.toHashing code) = .ok (cachekey c.toHashing code) ∧
      Address.new (precompilePath c.toHashing code) = .ok (cachekey c.toHashing code) := by
  have start : Compiled c b.codecache.get := by
    unfold BlockStateBuilder.new at made
    split at made
    · cases made
    · cases made
      intro addr acc found
      simp [InMemoryStateStore.get] at found
  have compiled := consumeAll_compiled start ran
  refine ⟨fun tx s free => execute_compiled reloads compiled free,?_,?_⟩
  · intro addr acc found
    obtain ⟨code,rfl,module,binary,serialized⟩ := compiled addr acc found
    exact ⟨code,module,rfl,binary,serialized⟩
  · intro code
    exact ⟨Address.new_checked _ _,Address.new_checked _ (precompilePath_checked _ _)⟩

namespace CodeCacheExample
open BuilderExample

theorem compiles {code : Bytes} {module : toolchain.Module} (binary : toolchain.fromBinary code = .ok module) :
    code = acceptWasm ∧ module = acceptExports := by
  unfold toolchain acceptHost Host.single Host.runtime at binary
  by_cases known : code = acceptWasm
  · simp only [known,if_true] at binary
    exact ⟨known,(Except.ok.inj binary).symm⟩
  · simp [known] at binary

theorem reloads : toolchain.Reloads := by
  intro code module bytes binary serialized
  obtain ⟨_,rfl⟩ := compiles binary
  obtain rfl := Option.some.inj serialized
  exact .inl rfl

def update : Transaction :=
  .new [] ((∅ : BTreeMap Address AccountChange).insert FootprintExample.parent (.replaceState [7]))

def published : View := fun addr => if addr = FootprintExample.parent then some library else none

theorem update_free (cache : View) : CollisionFree toolchain cache update published := by
  intro context tree pred addr acc code _ required leaf _ entry _
  obtain ⟨_,module,binary,_⟩ := entry
  rw [(compiles binary).1]
  cases required with
  | account proposed path found expanded =>
      unfold published at found
      split at found
      · obtain rfl := Option.some.inj found
        obtain rfl := Except.ok.inj expanded
        rw [List.mem_singleton.mp leaf]
      · cases found
  | intent inside => simp [update,Transaction.new] at inside

theorem child_executed : executeMany toolchain.toRuntime .inOrder .quick empty.get empty.get [publishes] =
    .ok [.ok (StateDiff.set default FootprintExample.parent library).1] := by decide

theorem child_precompiled :
    tryPrecompilePredicates toolchain (mergeAll (successes [.ok (StateDiff.set default FootprintExample.parent library).1])) =
      (StateDiff.set default (cachekey toolchain.toHashing library.state) (unguarded artifact)).1 := by
  have merged : mergeAll (successes [.ok (StateDiff.set default FootprintExample.parent library).1]) =
      (StateDiff.set default FootprintExample.parent library).1 := rfl
  have entries : (StateDiff.set default FootprintExample.parent library).1.iter =
      [(FootprintExample.parent,some library)] := by decide
  have signed : wasmSig.isPrefixOf library.state = true := by decide
  have binary : toolchain.fromBinary library.state = .ok acceptExports := by
    unfold toolchain acceptHost Host.single Host.runtime
    simp [library]
  have serialized : toolchain.serialize acceptExports = some artifact := rfl
  rw [merged,tryPrecompilePredicates,entries,List.foldl_cons,List.foldl_nil]
  simp only [tryPrecompile,signed,if_true,binary,serialized,precompile_key,ofChecked_checked]

def grown : BlockStateBuilder :=
  ⟨historyLen,(replay toolchain .inOrder .quick (empty,empty) child).1,
    (replay toolchain .inOrder .quick (empty,empty) child).2,pushRecent 1 [Block.zero.hashed toolchain] child⟩

theorem child_follows : child.Follows toolchain .zero := by
  have parent : (Block.zero.hash toolchain).1 = ⟨sha3Code,zeroDigest⟩ := by decide
  exact ⟨parent.symm,rfl⟩

theorem child_consumed : consumeAll toolchain .inOrder .quick builder [child] = .ok ([.ok ()],grown) := by
  rcases consume_cases toolchain .inOrder .quick (b:=builder) (Collect.all_end child.transactions) rfl with
    ⟨_,_,other⟩ | ⟨_,_,full⟩ | ⟨_,taken⟩
  · exact absurd child_follows other
  · exact absurd (by decide) full
  · have first : consume toolchain .inOrder .quick builder child = .ok (.ok (),grown) := taken
    simp only [consumeAll,first,bind,Except.bind,pure,Except.pure]

theorem grown_cached : grown.codecache.get (cachekey toolchain.toHashing library.state) = some (unguarded artifact) := by
  have replayed : grown.codecache = empty.apply (tryPrecompilePredicates toolchain
      (mergeAll (successes [.ok (StateDiff.set default FootprintExample.parent library).1]))) := by
    unfold grown replay
    simp only [child,child_executed]
  have stored := write_patch default (cachekey toolchain.toHashing library.state) (some (unguarded artifact))
    (cachekey toolchain.toHashing library.state)
  rw [if_pos rfl] at stored
  rw [replayed,child_precompiled,InMemoryStateStore.apply_get]
  unfold Patch.apply
  rw [show (StateDiff.set default (cachekey toolchain.toHashing library.state) (unguarded artifact)).1.patch
    (cachekey toolchain.toHashing library.state) = some (some (unguarded artifact)) from stored]
  rfl

end CodeCacheExample

theorem update_runs_cached :
    CodeCacheExample.grown.codecache.get (cachekey BuilderExample.toolchain.toHashing BuilderExample.library.state) =
      some (unguarded BuilderExample.artifact) ∧
    execute BuilderExample.toolchain.toRuntime .inOrder CodeCacheExample.update CodeCacheExample.published
        CodeCacheExample.grown.codecache.get =
      execute BuilderExample.toolchain.toRuntime .inOrder CodeCacheExample.update CodeCacheExample.published
        fun _ => none := by
  have transparent := (code_cache_transparent BuilderExample.toolchain .inOrder .quick BuilderExample.historyLen
    BuilderExample.empty [.zero] [BuilderExample.child] BuilderExample.builder CodeCacheExample.grown [.ok ()]
    CodeCacheExample.reloads rfl CodeCacheExample.child_consumed).1
  exact ⟨CodeCacheExample.grown_cached,transparent _ _ (CodeCacheExample.update_free _)⟩

end AnomaAlpha
