import AnomaAlpha.Watcher

namespace AnomaAlpha
open OrderedMap Execution

namespace BlockchainWatcher
variable {c : Client} {sch : Scheduler} {u : Components.Labeling} {w w' start : BlockchainWatcher} {log events : List Event}

-- Everything that a step can do.
inductive Stepped (c : Client) (sch : Scheduler) (u : Components.Labeling) (w : BlockchainWatcher) :
    List Event → BlockchainWatcher → Prop where
  | registered (key : WatchlistKey) : Stepped c sch u w [.registered w.waiters.length key] (w.register key)
  | answered : w.waiters[place]? = some ⟨key,.sent value⟩ → Stepped c sch u w [.resolved place (answer key value)]
      {w with waiters := modify w.waiters place fun _ => .resolved (answer key value)}
  | failed : w.waiters[place]? = some ⟨key,.closed⟩ → Stepped c sch u w [.resolved place .recvError]
      {w with waiters := modify w.waiters place fun _ => .resolved .recvError}
  | abandoned : w.waiters[place]? = some ⟨key,receiver⟩ → (∀ reply, receiver ≠ .resolved reply) →
      Stepped c sch u w [.abandoned place] {w with waiters := modify w.waiters place fun _ => .dropped}
  | arrived : w.task = .listening → Stepped c sch u w [.arrived block]
      {w with task := .signalling block (signals c block).2 (signals c block).1}
  | finished : w.task = .listening → Stepped c sch u w [] {w with task := .finished}
  | missed : w.task = .signalling arrived block ((key,value) :: left) → w.watchlist[key]? = none →
      Stepped c sch u w [.looked key arrived]
        {w with watchlist := w.watchlist.erase key, task := .signalling arrived block left}
  | told : w.task = .signalling arrived block ((key,value) :: left) → w.watchlist[key]? = some place →
      w.waiters[place]? = some ⟨kind,.waiting⟩ → Stepped c sch u w [.looked key arrived,.signalled place value arrived]
        {w with
          watchlist := w.watchlist.erase key
          waiters := modify w.waiters place (deliver value)
          task := .signalling arrived block left}
  | unheard : w.task = .signalling arrived block ((key,value) :: left) → w.watchlist[key]? = some place →
      (∀ kind, w.waiters[place]? ≠ some ⟨kind,.waiting⟩) → Stepped c sch u w [.looked key arrived]
        {w with
          watchlist := w.watchlist.erase key
          waiters := modify w.waiters place (deliver value)
          task := .signalling arrived block left}
  | consumed : w.task = .signalling arrived block [] →
      w.stateBuilder.consume c.toToolchain sch u block = .ok (result,builder) →
      Stepped c sch u w [.consumed arrived result] {w with stateBuilder := builder, task := .listening}
  | panicked {panic : BlockStateBuilder.Panic} : w.task = .signalling arrived block [] → Stepped c sch u w [] {w with task := .panicked panic}

theorem isWaiting_iff {receiver : Receiver} : isWaiting receiver = true ↔ receiver = .waiting := by
  cases receiver <;> simp [isWaiting]

theorem step_stepped (stepped : w.step c sch u act = some (events,w')) : Stepped c sch u w events w' := by
  cases act with
  | register key =>
      cases stepped
      exact .registered key
  | poll id =>
      unfold step poll at stepped
      dsimp only at stepped
      split at stepped
      · rename_i found
        cases stepped
        exact .answered found
      · rename_i found
        cases stepped
        exact .failed found
      · cases stepped
  | abandon id =>
      unfold step at stepped
      dsimp only at stepped
      split at stepped
      · cases stepped
      · cases stepped
      · rename_i waiter unresolved found
        cases stepped
        exact .abandoned found fun reply resolved => unresolved waiter.key reply (by rw [← resolved])
  | arrive block =>
      unfold step at stepped
      dsimp only at stepped
      split at stepped
      · rename_i idle
        cases stepped
        exact .arrived idle
      · cases stepped
  | finish =>
      unfold step at stepped
      dsimp only at stepped
      split at stepped
      · rename_i idle
        cases stepped
        exact .finished idle
      · cases stepped
  | signal =>
      unfold step signalNext at stepped
      dsimp only at stepped
      split at stepped
      · rename_i arrived block key value left busy
        split at stepped
        · rename_i absent
          cases stepped
          exact .missed busy absent
        · rename_i id found
          split at stepped
          · rename_i hears
            obtain ⟨⟨kind,receiver⟩,present,waiting⟩ := (Option.any_eq_true _ _).mp hears
            obtain rfl := isWaiting_iff.mp waiting
            cases stepped
            exact .told busy found present
          · rename_i deaf
            cases stepped
            exact .unheard busy found fun kind present => deaf (by simp [present,isWaiting])
      · cases stepped
  | consume =>
      unfold step consumeBlock at stepped
      dsimp only at stepped
      split at stepped
      · rename_i arrived block busy
        split at stepped
        · rename_i result builder taken
          cases stepped
          exact .consumed busy taken
        · cases stepped
          exact .panicked busy
      · cases stepped

-- The hashes of a block are those that it came with.

theorem hash_fresh (w : Hashing) (intent : Intent) : (intent.hash w).2.fresh = intent.fresh := by
  obtain ⟨blockhash,expectations,calldata,cell⟩ := intent
  cases cell <;> rfl

theorem intentSignals_fresh (put : List Intent → Transaction) (done intents : List Intent) :
    (intentSignals c put done intents).2.map Intent.fresh = (done ++ intents).map Intent.fresh := by
  induction intents generalizing done with
  | nil => simp [intentSignals]
  | cons intent intents ih =>
      have same := hash_fresh c.toHashing intent
      unfold intentSignals
      dsimp only
      rw [ih]
      simp [same]

theorem transactionSignals_fresh (put : Transaction → Block) (tx : Transaction) :
    (transactionSignals c put tx).2.fresh = tx.fresh := by
  have same : (tx.hash c).2.fresh = tx.fresh ∧ (tx.hash c).2.intents = tx.intents := by
    obtain ⟨intents,proposals,cell⟩ := tx
    cases cell <;> exact ⟨rfl,rfl⟩
  have hashed := intentSignals_fresh (c:=c) (fun intents => {(tx.hash c).2 with intents := intents}) [] (tx.hash c).2.intents
  rw [← same.1]
  unfold transactionSignals Transaction.fresh
  dsimp only
  rw [hashed]
  rfl

theorem blockSignals_fresh (put : List Transaction → Block) (done transactions : List Transaction) :
    (blockSignals c put done transactions).2.map Transaction.fresh = (done ++ transactions).map Transaction.fresh := by
  induction transactions generalizing done put with
  | nil => simp [blockSignals]
  | cons tx transactions ih =>
      unfold blockSignals
      dsimp only
      rw [ih]
      simp [transactionSignals_fresh]

def Same (c : Toolchain) (a b : Block) : Prop := (a.hash c).1 = (b.hash c).1 ∧ a.height = b.height

theorem watched_same (c : Client) (block : Block) : Same c.toToolchain (signals c block).2 block := by
  refine ⟨?_,rfl⟩
  obtain ⟨height,parent,transactions,cell⟩ := block
  have same := blockSignals_fresh (c:=c) (fun transactions => ⟨height,parent,transactions,cell⟩) [] transactions
  cases cell with
  | some cached => rfl
  | none =>
      unfold signals Block.hash
      dsimp only
      rw [same]
      rfl

theorem follows_same {c : Toolchain} {block older other : Block} (same : Same c older other) :
    block.Follows c older ↔ block.Follows c other := by
  unfold Block.Follows
  rw [same.1,same.2]

-- What the log says about blocks.

def processed (log : List Event) : List Block := log.filterMap fun
  | .consumed block _ => some block
  | _ => none

def accepted (log : List Event) : List Block := log.filterMap fun
  | .consumed block (.ok ()) => some block
  | _ => none

instance decidableFollows (c : Toolchain) (newer older : Block) : Decidable (newer.Follows c older) :=
  inferInstanceAs (Decidable (_ ∧ _))

def fitting (c : Toolchain) (last : Block) : List Block → List Block
  | [] => []
  | block :: blocks => if block.Follows c last then block :: fitting c block blocks else fitting c last blocks

def tip (c : Toolchain) (last : Block) : List Block → Block
  | [] => last
  | block :: blocks => if block.Follows c last then tip c block blocks else tip c last blocks

theorem fitting_snoc (c : Toolchain) (last block : Block) (blocks : List Block) :
    fitting c last (blocks ++ [block]) =
      fitting c last blocks ++ if block.Follows c (tip c last blocks) then [block] else [] := by
  induction blocks generalizing last with
  | nil => rfl
  | cons head blocks ih =>
      rw [List.cons_append]
      unfold fitting tip
      split
      · rw [ih,List.cons_append]
      · exact ih last

theorem tip_snoc (c : Toolchain) (last block : Block) (blocks : List Block) :
    tip c last (blocks ++ [block]) = if block.Follows c (tip c last blocks) then block else tip c last blocks := by
  induction blocks generalizing last with
  | nil => rfl
  | cons head blocks ih =>
      rw [List.cons_append]
      unfold tip
      split
      · exact ih head
      · exact ih last

-- What the accepted blocks make of the stores, with the cells that are filled by
-- the time they are consumed.
def replayed (c : Client) (sch : Scheduler) (u : Components.Labeling)
    (stores : InMemoryStateStore × InMemoryStateStore) (blocks : List Block) : InMemoryStateStore × InMemoryStateStore :=
  blocks.foldl (fun stores block => BlockStateBuilder.replay c.toToolchain sch u stores (signals c block).2) stores

-- The builder is where the fitting ones among the processed blocks lead.
structure Chained (c : Client) (sch : Scheduler) (u : Components.Labeling) (initial : Block)
    (base : InMemoryStateStore × InMemoryStateStore) (log : List Event) (w : BlockchainWatcher) : Prop where
  front : ∃ last older, w.stateBuilder.recent = last :: older ∧
    Same c.toToolchain last (tip c.toToolchain initial (processed log))
  took : accepted log = fitting c.toToolchain initial (processed log)
  holds : (w.stateBuilder.state,w.stateBuilder.codecache) = replayed c sch u base (fitting c.toToolchain initial (processed log))
  task : ∀ arrived block left, w.task = .signalling arrived block left → block = (signals c arrived).2

theorem hashed_same {c : Toolchain} {block other : Block} (same : Same c block other) : Same c (block.hashed c) other := by
  obtain ⟨height,_,_,hash⟩ := hashed_fields c block
  exact ⟨by rw [hash]; exact same.1,height.trans same.2⟩

theorem Same.trans {c : Toolchain} {x y z : Block} (first : Same c x y) (second : Same c y z) : Same c x z :=
  ⟨first.1.trans second.1,first.2.trans second.2⟩

theorem Same.symm {c : Toolchain} {x y : Block} (same : Same c x y) : Same c y x := ⟨same.1.symm,same.2.symm⟩

theorem pushRecent_front (n : NonZeroUsize) (last : Block) (older : List Block) (block : Block) :
    ∃ rest, BlockStateBuilder.pushRecent n.get (last :: older) block = block :: rest := by
  unfold BlockStateBuilder.pushRecent
  split
  · exact ⟨(last :: older).dropLast,by simp⟩
  · exact ⟨_,rfl⟩

theorem Chained.keeps (chained : Chained c sch u initial base log w) (builder : w'.stateBuilder = w.stateBuilder)
    (quiet : processed events = [] ∧ accepted events = [])
    (task : ∀ arrived block left, w'.task = .signalling arrived block left → block = (signals c arrived).2) :
    Chained c sch u initial base (log ++ events) w' := by
  have same : processed (log ++ events) = processed log := by
    unfold processed at quiet ⊢
    rw [List.filterMap_append,quiet.1,List.append_nil]
  have none : accepted (log ++ events) = accepted log := by
    unfold accepted at quiet ⊢
    rw [List.filterMap_append,quiet.2,List.append_nil]
  refine ⟨?_,?_,?_,task⟩
  · rw [builder,same]
    exact chained.front
  · rw [none,same]
    exact chained.took
  · rw [builder,same]
    exact chained.holds

theorem Chained.step (chained : Chained c sch u initial base log w) (stepped : Stepped c sch u w events w') :
    Chained c sch u initial base (log ++ events) w' := by
  cases stepped with
  | consumed busy taken =>
      rename_i arrived block result builder
      obtain ⟨last,older,recent,same⟩ := chained.front
      obtain rfl := chained.task _ _ _ busy
      have watched := watched_same c arrived
      have follows : (signals c arrived).2.Follows c.toToolchain last ↔
          arrived.Follows c.toToolchain (tip c.toToolchain initial (processed log)) := follows_same same
      have blocks : processed (log ++ [.consumed arrived result]) = processed log ++ [arrived] := by simp [processed]
      rcases BlockStateBuilder.consume_cases c.toToolchain sch u (Collect.all_end (signals c arrived).2.transactions) recent with
        ⟨error,refused,unfit⟩ | ⟨overflow,_⟩ | ⟨fits,took⟩
      · rw [refused] at taken
        cases taken
        rw [follows] at unfit
        have none : accepted (log ++ [.consumed arrived (.error error)]) =
            accepted log := by simp [accepted]
        refine ⟨⟨last.hashed c.toToolchain,older,rfl,?_⟩,?_,?_,by intro arrived block left task; cases task⟩
        · rw [blocks,tip_snoc,if_neg unfit]
          exact hashed_same same
        · rw [none,blocks,fitting_snoc,if_neg unfit,List.append_nil]
          exact chained.took
        · rw [blocks,fitting_snoc,if_neg unfit,List.append_nil]
          exact chained.holds
      · rw [overflow] at taken
        cases taken
      · rw [took] at taken
        cases taken
        rw [follows] at fits
        have one : accepted (log ++ [.consumed arrived (.ok ())]) =
            accepted log ++ [arrived] := by simp [accepted]
        obtain ⟨rest,pushed⟩ := pushRecent_front w.stateBuilder.historyLen (last.hashed c.toToolchain) older (signals c arrived).2
        refine ⟨⟨(signals c arrived).2,rest,pushed,?_⟩,?_,?_,by intro arrived block left task; cases task⟩
        · rw [blocks,tip_snoc,if_pos fits]
          exact watched
        · rw [one,blocks,fitting_snoc,if_pos fits,chained.took]
        · rw [blocks,fitting_snoc,if_pos fits]
          unfold replayed
          rw [List.foldl_append]
          exact congrArg (fun stores => BlockStateBuilder.replay c.toToolchain sch u stores (signals c arrived).2)
            chained.holds
  | arrived idle =>
      refine chained.keeps rfl ⟨rfl,rfl⟩ ?_
      intro arrived block left task
      cases task
      rfl
  | missed busy _ =>
      refine chained.keeps rfl ⟨rfl,rfl⟩ ?_
      intro arrived block left task
      cases task
      exact chained.task _ _ _ busy
  | told busy _ _ =>
      refine chained.keeps rfl ⟨rfl,rfl⟩ ?_
      intro arrived block left task
      cases task
      exact chained.task _ _ _ busy
  | unheard busy _ _ =>
      refine chained.keeps rfl ⟨rfl,rfl⟩ ?_
      intro arrived block left task
      cases task
      exact chained.task _ _ _ busy
  | finished _ => exact chained.keeps rfl ⟨rfl,rfl⟩ (by intro arrived block left task; cases task)
  | panicked _ => exact chained.keeps rfl ⟨rfl,rfl⟩ (by intro arrived block left task; cases task)
  | registered key => exact chained.keeps rfl ⟨rfl,rfl⟩ chained.task
  | answered _ => exact chained.keeps rfl ⟨rfl,rfl⟩ chained.task
  | failed _ => exact chained.keeps rfl ⟨rfl,rfl⟩ chained.task
  | abandoned _ _ => exact chained.keeps rfl ⟨rfl,rfl⟩ chained.task

theorem new_chained {initial : Block} (made : new historyLen state codecache (initial :: recent) = .ok start) :
    Chained c sch u initial (state,codecache) [] start := by
  cases made
  exact ⟨⟨initial,recent,rfl,rfl,rfl⟩,rfl,rfl,by intro arrived block left task; cases task⟩

theorem Runs.chained (run : Runs c sch u start log w) (begun : Chained c sch u initial base [] start) :
    Chained c sch u initial base log w := by
  induction run with
  | nil => exact begun
  | snoc _ stepped ih => exact ih.step (step_stepped stepped)

theorem modify_found {waiters : List Waiter} {f : Receiver → Receiver} {receiver : Receiver} {i j : Nat} :
    (modify waiters i f)[j]? = some ⟨key,receiver⟩ ↔
      ∃ old, waiters[j]? = some ⟨key,old⟩ ∧ (if i = j then f old else old) = receiver := by
  unfold modify
  rw [List.getElem?_modify]
  cases found : waiters[j]? with
  | none => simp
  | some waiter =>
      obtain ⟨kind,old⟩ := waiter
      by_cases same : i = j
      · simp [same]
      · simp [same]

-- The waiters before a registration, of which one may have lost its sender.
def bereaved (w : BlockchainWatcher) (key : WatchlistKey) : List Waiter :=
  match w.watchlist[key]? with
  | some old => modify w.waiters old hangUp
  | none => w.waiters

theorem bereaved_found {receiver : Receiver} {j : Nat} :
    (w.bereaved key)[j]? = some ⟨kind,receiver⟩ ↔
      ∃ old, w.waiters[j]? = some ⟨kind,old⟩ ∧ (if w.watchlist[key]? = some j then hangUp old else old) = receiver := by
  unfold bereaved
  split
  · rename_i place found
    rw [modify_found]
    simp [found]
  · rename_i absent
    simp [absent]

theorem bereaved_length (w : BlockchainWatcher) (key : WatchlistKey) : (w.bereaved key).length = w.waiters.length := by
  unfold bereaved modify
  split <;> simp

theorem register_found {receiver : Receiver} {j : Nat} : (w.register key).waiters[j]? = some ⟨kind,receiver⟩ ↔
    j = w.waiters.length ∧ kind = key ∧ receiver = .waiting ∨
      ∃ old, w.waiters[j]? = some ⟨kind,old⟩ ∧ (if w.watchlist[key]? = some j then hangUp old else old) = receiver := by
  change (w.bereaved key ++ [⟨key,.waiting⟩])[j]? = _ ↔ _
  rw [← bereaved_found]
  by_cases inside : j < w.waiters.length
  · rw [List.getElem?_append_left (by rw [bereaved_length]; exact inside)]
    have other : j ≠ w.waiters.length := by omega
    simp [other]
  · rw [List.getElem?_append_right (by rw [bereaved_length]; omega),bereaved_length]
    have absent : (w.bereaved key)[j]? = none := List.getElem?_eq_none (by rw [bereaved_length]; omega)
    rw [absent]
    by_cases last : j = w.waiters.length
    · simp [last,eq_comm]
    · have beyond : j - w.waiters.length ≠ 0 := by omega
      obtain ⟨k,more⟩ := Nat.exists_eq_succ_of_ne_zero beyond
      simp [last,more]

theorem Runs.sent_signalled (run : Runs c sch u start log w) (fresh : start.waiters = []) {j : Nat}
    (found : w.waiters[j]? = some ⟨key,.sent value⟩) : ∃ block, .signalled j value block ∈ log := by
  induction run generalizing j key with
  | nil => simp [fresh] at found
  | snoc _ stepped ih =>
      rename_i log w act events next run
      have earlier : (∃ kind, w.waiters[j]? = some ⟨kind,.sent value⟩) → ∃ block, .signalled j value block ∈ log ++ events := by
        intro ⟨kind,before⟩
        obtain ⟨block,member⟩ := ih before
        exact ⟨block,List.mem_append_left _ member⟩
      have swapped : ∀ place reply, (modify w.waiters place fun _ => reply)[j]? = some ⟨key,.sent value⟩ →
          (∀ given, reply ≠ .sent given) → ∃ block, .signalled j value block ∈ log ++ events := by
        intro place reply changed other
        obtain ⟨old,before,same⟩ := modify_found.mp changed
        split at same
        · exact (other value same).elim
        · exact earlier ⟨key,same ▸ before⟩
      cases step_stepped stepped with
      | registered given =>
          rcases register_found.mp found with ⟨_,_,new⟩ | ⟨old,before,same⟩
          · cases new
          · refine earlier ⟨key,?_⟩
            split at same
            · cases old with
              | sent old =>
                  cases same
                  exact before
              | _ => cases same
            · exact same ▸ before
      | told busy listed waits =>
          rename_i arrived block kind given left place _
          obtain ⟨old,before,same⟩ := modify_found.mp found
          split at same
          · rename_i here
            subst here
            rw [waits] at before
            cases before
            cases same
            exact ⟨arrived,by simp⟩
          · exact earlier ⟨key,same ▸ before⟩
      | unheard busy listed deaf =>
          obtain ⟨old,before,same⟩ := modify_found.mp found
          refine earlier ⟨key,?_⟩
          split at same
          · rename_i here
            subst here
            cases old with
            | waiting => exact (deaf key before).elim
            | sent old =>
                cases same
                exact before
            | _ => cases same
          · exact same ▸ before
      | answered _ => exact swapped _ _ found nofun
      | failed _ => exact swapped _ _ found nofun
      | abandoned _ _ => exact swapped _ _ found nofun
      | _ => exact earlier ⟨key,found⟩

theorem answer_ok {given : WatchlistValue} (answered : answer key given = .ok value) : value = given := by
  cases key <;> cases given <;> cases answered <;> rfl

theorem poll_ok {j : Nat} (resolves : w.step c sch u (.poll j) = some ([.resolved j (.ok value)],w')) :
    ∃ key, w.waiters[j]? = some ⟨key,.sent value⟩ := by
  unfold step poll at resolves
  dsimp only at resolves
  split at resolves
  · rename_i key given found
    have answered : answer key given = .ok value := by simpa using congrArg (Option.map fun pair => pair.1) resolves
    exact ⟨key,by rw [found,answer_ok answered]⟩
  · simp at resolves
  · cases resolves

theorem told_of_accepted_iff (historyLen : NonZeroUsize) (state codecache : InMemoryStateStore) (initial : Block)
    (recent : List Block) (made : new historyLen state codecache (initial :: recent) = .ok start)
    (run : Runs c sch u start log w) (waiter : Nat)
    (resolves : w.step c sch u (.poll waiter) = some ([.resolved waiter (.ok value)],w')) :
    (∃ block, .signalled waiter value block ∈ log) ∧ ∀ block, .signalled waiter value block ∈ log →
      ((block ∈ accepted log ∧
          ∀ address, w.get address = (replayed c sch u (state,codecache) (accepted log)).1.get address) ↔
        block ∈ fitting c.toToolchain initial (processed log)) := by
  obtain ⟨key,sent⟩ := poll_ok resolves
  have fresh : start.waiters = [] := by
    cases made
    rfl
  refine ⟨run.sent_signalled fresh sent,fun block _ => ?_⟩
  have chained := run.chained (new_chained made)
  rw [chained.took]
  refine ⟨fun told => told.1,fun fits => ⟨fits,fun address => ?_⟩⟩
  exact congrArg (fun stores : InMemoryStateStore × InMemoryStateStore => stores.1.get address) chained.holds

theorem Runs.play (run : Runs c sch u start log w) (played : w.play c sch u acts = some (more,last)) :
    Runs c sch u start (log ++ more) last := by
  induction acts generalizing log w more with
  | nil =>
      cases played
      rw [List.append_nil]
      exact run
  | cons act acts ih =>
      unfold BlockchainWatcher.play at played
      split at played
      · cases played
      · rename_i events middle stepped
        obtain ⟨⟨rest,after⟩,later,same⟩ := Option.map_eq_some_iff.mp played
        cases same
        rw [← List.append_assoc]
        exact ih (run.snoc stepped) later

def Event.cause : Event → Option Block
  | .signalled _ _ block => some block
  | _ => none

def answered (w : BlockchainWatcher) (waiter : Nat) : Bool := w.waiters[waiter]?.any fun waiter => match waiter.receiver with
  | .sent value => match answer waiter.key value with
    | .ok _ => true
    | _ => false
  | _ => false

theorem answered_poll {waiter : Nat} (heard : w.answered waiter = true) (c : Client) (sch : Scheduler)
    (u : Components.Labeling) : ∃ value w', w.step c sch u (.poll waiter) = some ([.resolved waiter (.ok value)],w') := by
  obtain ⟨⟨key,receiver⟩,found,heard⟩ := (Option.any_eq_true _ _).mp heard
  cases receiver with
  | sent given =>
      dsimp only at heard
      split at heard
      · rename_i value answers
        refine ⟨value,{w with waiters := modify w.waiters waiter fun _ => .resolved (.ok value)},?_⟩
        unfold step poll
        dsimp only
        rw [found]
        dsimp only
        rw [answers]
      · cases heard
  | _ => cases heard

def Task.isListening : Task → Bool
  | .listening => true
  | _ => false

theorem Task.listening_iff {task : Task} : Task.isListening task = true ↔ task = .listening := by
  cases task <;> simp [Task.isListening]

theorem child_told_once_taken : ∃ log w w' value,
    Runs WatcherExample.client .inOrder .quick WatcherExample.start log w ∧
    w.step WatcherExample.client .inOrder .quick (.poll 0) = some ([.resolved 0 (.ok value)],w') ∧
    .signalled 0 value BuilderExample.child ∈ log ∧ BuilderExample.child ∈ accepted log := by
  obtain ⟨⟨log,w⟩,played,heard⟩ := (Option.any_eq_true _ _).mp
    (show (WatcherExample.start.play WatcherExample.client .inOrder .quick
      (.register WatcherExample.key :: WatcherExample.arrival BuilderExample.child)).any (fun reached =>
        reached.2.answered 0 && decide (BuilderExample.child ∈
          fitting WatcherExample.client.toToolchain .zero (processed reached.1)) &&
        decide (∀ event ∈ reached.1, ∀ block ∈ event.cause, block = BuilderExample.child)) = true by decide)
  rw [Bool.and_eq_true,Bool.and_eq_true,decide_eq_true_eq,decide_eq_true_eq] at heard
  obtain ⟨⟨heard,fits⟩,every⟩ := heard
  obtain ⟨value,w',resolves⟩ := answered_poll heard WatcherExample.client .inOrder .quick
  have run : Runs WatcherExample.client .inOrder .quick WatcherExample.start log w := Runs.nil.play played
  obtain ⟨⟨block,signalled⟩,accepts⟩ := told_of_accepted_iff BuilderExample.historyLen BuilderExample.empty
    BuilderExample.empty .zero [] rfl run 0 resolves
  obtain rfl := every _ signalled block rfl
  exact ⟨log,w,w',value,run,resolves,signalled,((accepts _ signalled).mpr fits).1⟩

theorem forged_block_is_told : ∃ log w w' value,
    Runs WatcherExample.client .inOrder .quick WatcherExample.start log w ∧ w.task = .listening ∧
    w.step WatcherExample.client .inOrder .quick (.poll 0) = some ([.resolved 0 (.ok value)],w') ∧
    .signalled 0 value WatcherExample.forged ∈ log ∧ WatcherExample.forged ∉ accepted log := by
  obtain ⟨⟨log,w⟩,played,heard⟩ := (Option.any_eq_true _ _).mp
    (show (WatcherExample.start.play WatcherExample.client .inOrder .quick
      (.register WatcherExample.key :: WatcherExample.arrival WatcherExample.forged)).any (fun reached =>
        reached.2.answered 0 && Task.isListening reached.2.task && decide (WatcherExample.forged ∉ accepted reached.1) &&
        decide (∀ event ∈ reached.1, ∀ block ∈ event.cause, block = WatcherExample.forged)) = true by decide)
  rw [Bool.and_eq_true,Bool.and_eq_true,Bool.and_eq_true,decide_eq_true_eq,decide_eq_true_eq] at heard
  obtain ⟨⟨⟨heard,idle⟩,refused⟩,every⟩ := heard
  obtain ⟨value,w',resolves⟩ := answered_poll heard WatcherExample.client .inOrder .quick
  have run : Runs WatcherExample.client .inOrder .quick WatcherExample.start log w := Runs.nil.play played
  obtain ⟨key,sent⟩ := poll_ok resolves
  obtain ⟨block,signalled⟩ := run.sent_signalled rfl sent
  obtain rfl := every _ signalled block rfl
  exact ⟨log,w,w',value,run,Task.listening_iff.mp idle,resolves,signalled,refused⟩

-- What becomes of the waiters.

-- Who waits is found under its key, and whatever is sent is of the kind of the
-- key.
structure Wired (w : BlockchainWatcher) : Prop where
  found : ∀ (j : Nat) (key : WatchlistKey), w.waiters[j]? = some ⟨key,.waiting⟩ → w.watchlist[key]? = some j
  listed : ∀ (key : WatchlistKey) (j : Nat), w.watchlist[key]? = some j →
    ∃ receiver, w.waiters[j]? = some ⟨key,receiver⟩
  left : ∀ arrived block left, w.task = .signalling arrived block left → ∀ s ∈ left, answer s.1 s.2 = .ok s.2
  kind : ∀ (j : Nat) (key : WatchlistKey) (value : WatchlistValue), w.waiters[j]? = some ⟨key,.sent value⟩ →
    answer key value = .ok value

theorem intentSignals_fit (put : List Intent → Transaction) (done intents : List Intent) :
    ∀ s ∈ (intentSignals c put done intents).1, answer s.1 s.2 = .ok s.2 := by
  induction intents generalizing done with
  | nil =>
      intro s member
      cases member
  | cons intent intents ih =>
      intro s member
      unfold intentSignals at member
      rcases List.mem_cons.mp member with rfl | member
      · rfl
      · exact ih _ s member

theorem transactionSignals_fit (put : Transaction → Block) (tx : Transaction) :
    ∀ s ∈ (transactionSignals c put tx).1, answer s.1 s.2 = .ok s.2 := by
  intro s member
  unfold transactionSignals at member
  rcases List.mem_append.mp member with member | member
  · rcases List.mem_cons.mp member with rfl | member
    · rfl
    · exact intentSignals_fit _ _ _ s member
  · obtain ⟨address,_,rfl⟩ := List.mem_map.mp member
    rfl

theorem blockSignals_fit (put : List Transaction → Block) (done transactions : List Transaction) :
    ∀ s ∈ (blockSignals c put done transactions).1, answer s.1 s.2 = .ok s.2 := by
  induction transactions generalizing done with
  | nil =>
      intro s member
      cases member
  | cons tx transactions ih =>
      intro s member
      unfold blockSignals at member
      rcases List.mem_append.mp member with member | member
      · exact transactionSignals_fit _ _ s member
      · exact ih _ s member

theorem hangUp_waiting (receiver : Receiver) : hangUp receiver ≠ .waiting := by
  cases receiver <;> exact nofun

theorem deliver_waiting (value : WatchlistValue) (receiver : Receiver) : deliver value receiver ≠ .waiting := by
  cases receiver <;> exact nofun

theorem hangUp_settled {receiver : Receiver} (settled : receiver ≠ .waiting) : hangUp receiver = receiver := by
  cases receiver <;> first | rfl | exact (settled rfl).elim

theorem deliver_settled {receiver : Receiver} (settled : receiver ≠ .waiting) : deliver value receiver = receiver := by
  cases receiver <;> first | rfl | exact (settled rfl).elim

theorem Wired.register (wired : w.Wired) (key : WatchlistKey) : (w.register key).Wired := by
  refine ⟨?_,?_,wired.left,?_⟩
  · intro j kind found
    change (w.watchlist.insert key w.waiters.length)[kind]? = some j
    rw [get_insert]
    rcases register_found.mp found with ⟨rfl,rfl,_⟩ | ⟨old,before,same⟩
    · rw [if_pos rfl]
    · split at same
      · exact (hangUp_waiting old same).elim
      · rename_i other
        subst same
        have listed := wired.found j kind before
        rw [if_neg,listed]
        intro equal
        exact other (equal ▸ listed)
  · intro kind j listed
    change (w.watchlist.insert key w.waiters.length)[kind]? = some j at listed
    rw [get_insert] at listed
    split at listed
    · rename_i same
      cases listed
      exact ⟨.waiting,register_found.mpr (.inl ⟨rfl,same.symm,rfl⟩)⟩
    · obtain ⟨receiver,before⟩ := wired.listed kind j listed
      exact ⟨_,register_found.mpr (.inr ⟨receiver,before,rfl⟩)⟩
  · intro j kind value found
    rcases register_found.mp found with ⟨_,_,new⟩ | ⟨old,before,same⟩
    · cases new
    · split at same
      · rename_i hung
        have settled : old ≠ .waiting := fun waiting => by
          subst waiting
          cases same
        rw [hangUp_settled settled] at same
        exact wired.kind j kind value (same ▸ before)
      · exact wired.kind j kind value (same ▸ before)

theorem Wired.settle (wired : w.Wired) (place : Nat) {reply : Receiver} (settled : reply ≠ .waiting)
    (unsent : ∀ value, reply ≠ .sent value) :
    Wired {w with waiters := modify w.waiters place fun _ => reply} := by
  refine ⟨?_,?_,wired.left,?_⟩
  · intro j key found
    dsimp only at found
    obtain ⟨old,before,same⟩ := modify_found.mp found
    split at same
    · exact (settled same).elim
    · exact wired.found j key (same ▸ before)
  · intro key j listed
    obtain ⟨receiver,before⟩ := wired.listed key j listed
    exact ⟨if place = j then reply else receiver,(modify_found (f:=fun _ => reply)).mpr ⟨receiver,before,rfl⟩⟩
  · intro j key value found
    dsimp only at found
    obtain ⟨old,before,same⟩ := modify_found.mp found
    split at same
    · exact (unsent value same).elim
    · exact wired.kind j key value (same ▸ before)

theorem Wired.told (wired : w.Wired) (busy : w.task = .signalling arrived block ((key,value) :: rest))
    (listed : w.watchlist[key]? = some place) :
    Wired {w with
      watchlist := w.watchlist.erase key
      waiters := modify w.waiters place (deliver value)
      task := .signalling arrived block rest} := by
  have fits := wired.left _ _ _ busy
  refine ⟨?_,?_,?_,?_⟩
  · intro j kind found
    dsimp only at found
    obtain ⟨old,before,same⟩ := modify_found.mp found
    split at same
    · exact (deliver_waiting value old same).elim
    · rename_i other
      subst same
      have here := wired.found j kind before
      change (w.watchlist.erase key)[kind]? = some j
      rw [get_erase,if_neg]
      · exact here
      · intro equal
        rw [← equal,listed] at here
        exact other (Option.some.inj here)
  · intro kind j found
    obtain ⟨receiver,before⟩ := wired.listed kind j (erase_found found).2
    exact ⟨if place = j then deliver value receiver else receiver,modify_found.mpr ⟨receiver,before,rfl⟩⟩
  · intro _ _ later task s member
    cases task
    exact fits s (List.mem_cons_of_mem _ member)
  · intro j kind given found
    dsimp only at found
    obtain ⟨old,before,same⟩ := modify_found.mp found
    split at same
    · rename_i here
      subst here
      cases old with
      | waiting =>
          cases same
          obtain ⟨receiver,known⟩ := wired.listed key place listed
          rw [before] at known
          cases known
          exact fits (key,value) (by simp)
      | sent old =>
          cases same
          exact wired.kind place kind given before
      | _ => cases same
    · exact wired.kind j kind given (same ▸ before)

theorem Wired.step (wired : w.Wired) (stepped : Stepped c sch u w events w') : w'.Wired := by
  cases stepped with
  | registered key => exact wired.register key
  | answered _ => exact wired.settle _ nofun nofun
  | failed _ => exact wired.settle _ nofun nofun
  | abandoned _ _ => exact wired.settle _ nofun nofun
  | arrived _ =>
      refine ⟨wired.found,wired.listed,?_,wired.kind⟩
      intro _ _ left task
      cases task
      exact blockSignals_fit _ _ _
  | finished _ => exact ⟨wired.found,wired.listed,(by intro _ _ _ task; cases task),wired.kind⟩
  | missed busy absent =>
      rename_i arrived block key value left
      refine ⟨?_,?_,?_,wired.kind⟩
      · intro j kind found
        have here := wired.found j kind found
        change (w.watchlist.erase key)[kind]? = some j
        rw [get_erase,if_neg]
        · exact here
        · intro equal
          rw [← equal,absent] at here
          cases here
      · intro kind j found
        exact wired.listed kind j (erase_found found).2
      · intro _ _ rest task s member
        cases task
        exact wired.left _ _ _ busy s (List.mem_cons_of_mem _ member)
  | told busy listed _ => exact wired.told busy listed
  | unheard busy listed _ => exact wired.told busy listed
  | consumed _ _ => exact ⟨wired.found,wired.listed,(by intro _ _ _ task; cases task),wired.kind⟩
  | panicked _ => exact ⟨wired.found,wired.listed,(by intro _ _ _ task; cases task),wired.kind⟩

theorem new_wired (made : new historyLen state codecache recent = .ok start) : start.Wired := by
  unfold new BlockStateBuilder.new at made
  split at made
  · cases made
  · cases made
    exact ⟨by simp,by simp,(by intro _ _ _ task; cases task),by simp⟩

theorem Runs.wired (run : Runs c sch u start log w) (wired : start.Wired) : w.Wired := by
  induction run with
  | nil => exact wired
  | snoc _ stepped ih => exact ih.step (step_stepped stepped)

-- No future finds a value of another kind.
theorem Runs.compatible (run : Runs c sch u start log w) (wired : start.Wired) (waiter : Nat) :
    .resolved waiter .incompatibleSignalType ∉ log := by
  induction run with
  | nil => simp
  | snoc run stepped ih =>
      intro member
      rcases List.mem_append.mp member with member | member
      · exact ih member
      · cases step_stepped stepped with
        | answered found =>
            have kind := (run.wired wired).kind _ _ _ found
            rw [kind] at member
            simp at member
        | _ => simp at member

-- What a registration has come to: its key is still to be looked up, another one
-- took its place or the future was dropped, or the key has been looked up.
inductive Fate where
  | open
  | lost
  | told
  deriving DecidableEq

def Fate.next (waiter : Nat) (key : WatchlistKey) : Fate → Event → Fate
  | .open,.registered _ given => if given = key then .lost else .open
  | .open,.abandoned other => if other = waiter then .lost else .open
  | .open,.looked given _ => if given = key then .told else .open
  | fate,_ => fate

def fate (waiter : Nat) (key : WatchlistKey) (since : List Event) : Fate := since.foldl (Fate.next waiter key) .open

def undisturbed (waiter : Nat) (key : WatchlistKey) (since : List Event) : Bool := fate waiter key since != .lost

def Untold (waiter : Nat) (log : List Event) : Prop := ∀ value block, .signalled waiter value block ∉ log

theorem fate_append (waiter : Nat) (key : WatchlistKey) (since events : List Event) :
    fate waiter key (since ++ events) = events.foldl (Fate.next waiter key) (fate waiter key since) := List.foldl_append ..

theorem fate_settled (waiter : Nat) (key : WatchlistKey) {settled : Fate} (unopen : settled ≠ .open) (events : List Event) :
    events.foldl (Fate.next waiter key) settled = settled := by
  induction events with
  | nil => rfl
  | cons event events ih =>
      have same : Fate.next waiter key settled event = settled := by
        cases settled with
        | «open» => exact (unopen rfl).elim
        | lost => rfl
        | told => rfl
      rw [List.foldl_cons,same,ih]

theorem looked_settles (waiter : Nat) (key : WatchlistKey) {since : List Event} (looked : .looked key block ∈ since) :
    fate waiter key since ≠ .open := by
  obtain ⟨before,after,rfl⟩ := List.append_of_mem looked
  rw [fate_append,List.foldl_cons]
  have left : Fate.next waiter key (fate waiter key before) (.looked key block) ≠ .open := by
    cases fate waiter key before <;> simp [Fate.next]
  rw [fate_settled waiter key left]
  exact left

theorem Untold.append (before : Untold waiter log) (events : Untold waiter more) : Untold waiter (log ++ more) := by
  intro value block member
  rcases List.mem_append.mp member with member | member
  · exact before value block member
  · exact events value block member

theorem settled_step {receiver : Receiver} (found : w.waiters[waiter]? = some ⟨key,receiver⟩) (settled : receiver ≠ .waiting)
    (stepped : Stepped c sch u w events w') : Untold waiter events ∧
    ∃ later, w'.waiters[waiter]? = some ⟨key,later⟩ ∧ (later = receiver ∨ later = .dropped ∧ (∀ reply, receiver ≠ .resolved reply) ∨
      (∃ value, receiver = .sent value ∧ later = .resolved (answer key value)) ∨
      receiver = .closed ∧ later = .resolved .recvError) := by
  have silent : Untold waiter [] := fun _ _ => nofun
  cases stepped with
  | registered given =>
      refine ⟨by simp [Untold],receiver,register_found.mpr (.inr ⟨receiver,found,?_⟩),.inl rfl⟩
      split
      · exact hangUp_settled settled
      · rfl
  | answered present =>
      rename_i place kind value
      refine ⟨by simp [Untold],if place = waiter then .resolved (answer kind value) else receiver,
        (modify_found (f:=fun _ => .resolved (answer kind value))).mpr ⟨receiver,found,rfl⟩,?_⟩
      split
      · rename_i here
        subst here
        rw [found] at present
        cases present
        exact .inr (.inr (.inl ⟨value,rfl,rfl⟩))
      · exact .inl rfl
  | failed present =>
      rename_i place kind
      refine ⟨by simp [Untold],if place = waiter then .resolved .recvError else receiver,
        (modify_found (f:=fun _ => .resolved .recvError)).mpr ⟨receiver,found,rfl⟩,?_⟩
      split
      · rename_i here
        subst here
        rw [found] at present
        cases present
        exact .inr (.inr (.inr ⟨rfl,rfl⟩))
      · exact .inl rfl
  | abandoned present unresolved =>
      rename_i place kind old
      refine ⟨by simp [Untold],if place = waiter then .dropped else receiver,
        (modify_found (f:=fun _ => .dropped)).mpr ⟨receiver,found,rfl⟩,?_⟩
      split
      · rename_i here
        subst here
        rw [found] at present
        cases present
        exact .inr (.inl ⟨rfl,unresolved⟩)
      · exact .inl rfl
  | told busy listed waits =>
      rename_i arrived block given value left place _
      have other : place ≠ waiter := by
        intro here
        subst here
        rw [found] at waits
        cases waits
        exact settled rfl
      exact ⟨by simp [Untold,other.symm],receiver,modify_found.mpr ⟨receiver,found,if_neg other⟩,.inl rfl⟩
  | unheard busy listed deaf =>
      rename_i arrived block given value left place
      refine ⟨by simp [Untold],receiver,modify_found.mpr ⟨receiver,found,?_⟩,.inl rfl⟩
      split
      · exact deliver_settled settled
      · rfl
  | missed _ _ => exact ⟨by simp [Untold],receiver,found,.inl rfl⟩
  | arrived _ => exact ⟨by simp [Untold],receiver,found,.inl rfl⟩
  | finished _ => exact ⟨silent,receiver,found,.inl rfl⟩
  | consumed _ _ => exact ⟨by simp [Untold],receiver,found,.inl rfl⟩
  | panicked _ => exact ⟨silent,receiver,found,.inl rfl⟩

-- Where a waiter stands by its fate.
def Stands (waiter : Nat) (key : WatchlistKey) (since : List Event) (receiver : Receiver) : Fate → Prop
  | .open => receiver = .waiting ∧ Untold waiter since
  | .lost => receiver ≠ .waiting ∧ Untold waiter since
  | .told => ∃ value block, .signalled waiter value block ∈ since ∧ answer key value = .ok value ∧
      (receiver = .sent value ∨ receiver = .resolved (.ok value) ∨ receiver = .dropped)

def Fated (waiter : Nat) (key : WatchlistKey) (since : List Event) (w : BlockchainWatcher) : Prop :=
  ∃ receiver, w.waiters[waiter]? = some ⟨key,receiver⟩ ∧ Stands waiter key since receiver (fate waiter key since)

theorem Fated.wait (wired : w.Wired) (waits : w.waiters[waiter]? = some ⟨key,.waiting⟩) (untold : Untold waiter since)
    (opened : fate waiter key since = .open) (stepped : Stepped c sch u w events w') :
    Fated waiter key (since ++ events) w' := by
  have listed := wired.found waiter key waits
  -- the step leaves the waiter as it is
  have still : w'.waiters[waiter]? = some ⟨key,.waiting⟩ → Untold waiter events →
      events.foldl (Fate.next waiter key) .open = .open → Fated waiter key (since ++ events) w' := by
    intro found silent kept
    refine ⟨.waiting,found,?_⟩
    rw [fate_append,opened,kept]
    exact ⟨rfl,untold.append silent⟩
  have elsewhere : ∀ {given place}, w.watchlist[given]? = some place → given ≠ key → place ≠ waiter := by
    intro given place present other here
    subst here
    obtain ⟨receiver,known⟩ := wired.listed given place present
    rw [waits] at known
    cases known
    exact other rfl
  have other : ∀ {place kind receiver}, w.waiters[place]? = some ⟨kind,receiver⟩ → receiver ≠ .waiting →
      place ≠ waiter := by
    intro place kind receiver present served here
    subst here
    rw [waits] at present
    cases present
    exact served rfl
  cases stepped with
  | registered given =>
      by_cases same : given = key
      · subst same
        refine ⟨.closed,register_found.mpr (.inr ⟨.waiting,waits,by rw [if_pos listed]; rfl⟩),?_⟩
        rw [fate_append,opened]
        simp only [List.foldl_cons,List.foldl_nil,Fate.next,if_pos]
        exact ⟨nofun,untold.append (by simp [Untold])⟩
      · refine still (register_found.mpr (.inr ⟨.waiting,waits,?_⟩)) (by simp [Untold]) (by simp [Fate.next,same])
        rw [if_neg (fun present => elsewhere present same rfl)]
  | answered present =>
      rename_i place kind value
      exact still ((modify_found (f:=fun _ => .resolved (answer kind value))).mpr
        ⟨.waiting,waits,if_neg (other present nofun)⟩) (by simp [Untold]) (by simp [Fate.next])
  | failed present =>
      rename_i place kind
      exact still ((modify_found (f:=fun _ => .resolved .recvError)).mpr
        ⟨.waiting,waits,if_neg (other present nofun)⟩) (by simp [Untold]) (by simp [Fate.next])
  | abandoned present unresolved =>
      rename_i place kind old
      by_cases here : place = waiter
      · subst here
        refine ⟨.dropped,(modify_found (f:=fun _ => .dropped)).mpr ⟨.waiting,waits,if_pos rfl⟩,?_⟩
        rw [fate_append,opened]
        simp only [List.foldl_cons,List.foldl_nil,Fate.next,if_pos]
        exact ⟨nofun,untold.append (by simp [Untold])⟩
      · exact still ((modify_found (f:=fun _ => .dropped)).mpr ⟨.waiting,waits,if_neg here⟩) (by simp [Untold])
          (by simp [Fate.next,here])
  | missed busy absent =>
      rename_i arrived block given value left
      have other : given ≠ key := by
        intro same
        rw [same,listed] at absent
        cases absent
      exact still waits (by simp [Untold]) (by simp [Fate.next,other])
  | told busy present heard =>
      rename_i arrived block given value left place kind
      by_cases same : given = key
      · subst same
        rw [listed] at present
        cases present
        refine ⟨.sent value,modify_found.mpr ⟨.waiting,waits,if_pos rfl⟩,?_⟩
        rw [fate_append,opened]
        simp only [List.foldl_cons,List.foldl_nil,Fate.next,if_pos]
        exact ⟨value,arrived,by simp,wired.left _ _ _ busy (given,value) (by simp),.inl rfl⟩
      · have other := elsewhere present same
        exact still (modify_found.mpr ⟨.waiting,waits,if_neg other⟩) (by simp [Untold,other.symm]) (by simp [Fate.next,same])
  | unheard busy present deaf =>
      rename_i arrived block given value left place
      by_cases same : given = key
      · subst same
        rw [listed] at present
        cases present
        exact (deaf given waits).elim
      · exact still (modify_found.mpr ⟨.waiting,waits,if_neg (elsewhere present same)⟩) (by simp [Untold])
          (by simp [Fate.next,same])
  | arrived _ => exact still waits (by simp [Untold]) rfl
  | finished _ => exact still waits (by simp [Untold]) rfl
  | consumed _ _ => exact still waits (by simp [Untold]) rfl
  | panicked _ => exact still waits (by simp [Untold]) rfl

theorem Fated.step (fated : Fated waiter key since w) (wired : w.Wired) (stepped : Stepped c sch u w events w') :
    Fated waiter key (since ++ events) w' := by
  obtain ⟨receiver,found,stands⟩ := fated
  cases decided : fate waiter key since with
  | «open» =>
      rw [decided] at stands
      obtain ⟨rfl,untold⟩ := stands
      exact Fated.wait wired found untold decided stepped
  | lost =>
      rw [decided] at stands
      obtain ⟨silent,later,now,turned⟩ := settled_step found stands.1 stepped
      refine ⟨later,now,?_⟩
      rw [fate_append,decided,fate_settled waiter key (show Fate.lost ≠ .open by decide)]
      refine ⟨?_,stands.2.append silent⟩
      rcases turned with rfl | ⟨rfl,_⟩ | ⟨_,_,rfl⟩ | ⟨_,rfl⟩
      · exact stands.1
      · exact nofun
      · exact nofun
      · exact nofun
  | told =>
      rw [decided] at stands
      obtain ⟨value,block,signalled,answers,held⟩ := stands
      have settled : receiver ≠ .waiting := by
        rcases held with rfl | rfl | rfl <;> exact nofun
      obtain ⟨_,later,now,turned⟩ := settled_step found settled stepped
      refine ⟨later,now,?_⟩
      rw [fate_append,decided,fate_settled waiter key (show Fate.told ≠ .open by decide)]
      refine ⟨value,block,List.mem_append_left _ signalled,answers,?_⟩
      rcases turned with rfl | ⟨rfl,_⟩ | ⟨given,sent,rfl⟩ | ⟨closed,_⟩
      · exact held
      · exact .inr (.inr rfl)
      · rw [sent] at held
        rcases held with same | other | other
        · cases same
          exact .inr (.inl (congrArg Receiver.resolved answers))
        · cases other
        · cases other
      · rw [closed] at held
        rcases held with other | other | other <;> cases other

-- How far the task is with a block that it has not yet consumed.
def Halfway (c : Client) (block : Block) (log : List Event) (w : BlockchainWatcher) : Prop :=
  ((∃ panic, w.task = .panicked panic) ∨ ∃ hashed done left, w.task = .signalling block hashed left ∧
    (signals c block).1 = done ++ left ∧ ∀ s ∈ done, .looked s.1 block ∈ log) ∧
  ∀ waiter value other, .signalled waiter value other ∈ log → other = block

theorem Halfway.keep (halfway : Halfway c block log w) (task : w'.task = w.task)
    (silent : ∀ waiter value other, .signalled waiter value other ∉ events) : Halfway c block (log ++ events) w' := by
  refine ⟨?_,?_⟩
  · rw [task]
    refine halfway.1.imp_right fun ⟨hashed,done,left,busy,parts,looked⟩ => ⟨hashed,done,left,busy,parts,?_⟩
    intro s member
    exact List.mem_append_left _ (looked s member)
  · intro waiter value other member
    rcases List.mem_append.mp member with member | member
    · exact halfway.2 waiter value other member
    · exact (silent waiter value other member).elim

theorem Halfway.look (halfway : Halfway c block log w) (busy : w.task = .signalling arrived hashed ((key,value) :: left))
    (task : w'.task = .signalling arrived hashed left) (looked : .looked key arrived ∈ events)
    (told : ∀ waiter value other, .signalled waiter value other ∈ events → other = arrived) :
    Halfway c block (log ++ events) w' := by
  obtain ⟨panicked | ⟨_,done,rest,same,parts,before⟩,earlier⟩ := halfway
  · obtain ⟨panic,stopped⟩ := panicked
    rw [busy] at stopped
    cases stopped
  · rw [busy] at same
    cases same
    refine ⟨.inr ⟨hashed,done ++ [(key,value)],left,task,by simp [parts],?_⟩,?_⟩
    · intro s member
      rcases List.mem_append.mp member with member | member
      · exact List.mem_append_left _ (before s member)
      · cases List.mem_singleton.mp member
        exact List.mem_append_right _ looked
    · intro waiter given other member
      rcases List.mem_append.mp member with member | member
      · exact earlier waiter given other member
      · exact told waiter given other member

theorem Halfway.step (halfway : Halfway c block log w) (stepped : Stepped c sch u w events w')
    (during : ∀ other result, .consumed other result ∉ events) : Halfway c block (log ++ events) w' := by
  have busy : w.task ≠ .listening := by
    intro idle
    obtain ⟨⟨panic,stopped⟩ | ⟨_,_,_,busy,_⟩,_⟩ := halfway
    · rw [idle] at stopped
      cases stopped
    · rw [idle] at busy
      cases busy
  cases stepped with
  | missed at_ _ => exact halfway.look at_ rfl (by simp) (by simp)
  | told at_ _ _ => exact halfway.look at_ rfl (by simp) (by simp)
  | unheard at_ _ _ => exact halfway.look at_ rfl (by simp) (by simp)
  | arrived idle => exact (busy idle).elim
  | finished idle => exact (busy idle).elim
  | consumed _ _ => exact (during _ _ (.head _)).elim
  | panicked _ =>
      refine ⟨.inl ⟨_,rfl⟩,?_⟩
      rw [List.append_nil]
      exact halfway.2
  | registered _ => exact halfway.keep rfl (by simp)
  | answered _ => exact halfway.keep rfl (by simp)
  | failed _ => exact halfway.keep rfl (by simp)
  | abandoned _ _ => exact halfway.keep rfl (by simp)

theorem Runs.halfway (run : Runs c sch u start log w) (begun : start.task = .signalling block hashed (signals c block).1)
    (during : ∀ other result, .consumed other result ∉ log) : Halfway c block log w := by
  induction run with
  | nil => exact ⟨.inr ⟨hashed,[],_,begun,rfl,nofun⟩,nofun⟩
  | snoc _ stepped ih =>
      refine (ih fun other result member => ?_).step (step_stepped stepped) fun other result member => ?_
      · exact during other result (List.mem_append_left _ member)
      · exact during other result (List.mem_append_right _ member)

theorem Runs.fated (run : Runs c sch u start log w) (wired : start.Wired) (fated : Fated waiter key since start) :
    Fated waiter key (since ++ log) w := by
  induction run with
  | nil => simpa using fated
  | snoc run stepped ih =>
      rw [← List.append_assoc]
      exact ih.step (run.wired wired) (step_stepped stepped)

theorem register_fated (w : BlockchainWatcher) (key : WatchlistKey) : Fated w.waiters.length key [] (w.register key) :=
  ⟨.waiting,register_found.mpr (.inl ⟨rfl,rfl,rfl⟩),rfl,fun _ _ => nofun⟩

theorem fate_arrived (waiter : Nat) (key : WatchlistKey) (since after : List Event) (block : Block) :
    fate waiter key (since ++ [.arrived block] ++ after) = fate waiter key (since ++ after) := by
  rw [fate_append,fate_append,fate_append,List.foldl_cons,List.foldl_nil]
  cases fate waiter key since <;> rfl

theorem arrive_cases (arrives : w.step c sch u (.arrive block) = some (events,w')) : events = [.arrived block] ∧
    w'.task = .signalling block (signals c block).2 (signals c block).1 := by
  unfold step at arrives
  dsimp only at arrives
  split at arrives
  · cases arrives
    exact ⟨rfl,rfl⟩
  · cases arrives

-- By the end of its signals a block has had all its keys looked up.
theorem Runs.looked (run : Runs c sch u start log w) (begun : start.task = .signalling block hashed (signals c block).1)
    (during : ∀ other result, .consumed other result ∉ log) (through : w.task = .signalling arrived last [])
    (contains : key ∈ (signals c block).1.map Prod.fst) : .looked key block ∈ log := by
  obtain ⟨⟨panic,stopped⟩ | ⟨_,done,_,busy,parts,looked⟩,_⟩ := run.halfway begun during
  · rw [through] at stopped
    cases stopped
  · rw [through] at busy
    cases busy
    rw [parts,List.append_nil] at contains
    obtain ⟨s,member,rfl⟩ := List.mem_map.mp contains
    exact looked s member

-- A waiter that is registered before a block with its key comes, and has not
-- heard of an earlier one.
theorem waiter_told_iff (historyLen : NonZeroUsize) (state codecache : InMemoryStateStore) (recent : List Block)
    (made : new historyLen state codecache recent = .ok start) (earlier : Runs c sch u start before first)
    (waiting : Runs c sch u (first.register key) since w) (untold : Untold first.waiters.length since)
    (arrives : w.step c sch u (.arrive block) = some (events,next))
    (contains : key ∈ (signals c block).1.map Prod.fst) (later : Runs c sch u next after w')
    (during : ∀ other result, .consumed other result ∉ after) (through : w'.task = .signalling block hashed []) :
    ((∃ value, .signalled first.waiters.length value block ∈ after ∧ answer key value = .ok value ∧
        ∃ receiver, w'.waiters[first.waiters.length]? = some ⟨key,receiver⟩ ∧
          (receiver = .sent value ∨ receiver = .resolved (.ok value) ∨ receiver = .dropped)) ↔
      undisturbed first.waiters.length key (since ++ after) = true) ∧
    ∀ log last waiter, Runs c sch u start log last → .resolved waiter .incompatibleSignalType ∉ log := by
  have wired : start.Wired := new_wired made
  refine ⟨?_,fun log last waiter run => run.compatible wired waiter⟩
  obtain ⟨rfl,begun⟩ := arrive_cases arrives
  have settled := looked_settles first.waiters.length key
    (List.mem_append_right since (later.looked begun during through contains))
  have before := waiting.wired ((earlier.wired wired).register key)
  have fated := waiting.fated ((earlier.wired wired).register key) (register_fated first key)
  have arrived := fated.step before (step_stepped arrives)
  obtain ⟨receiver,found,stands⟩ := later.fated (before.step (step_stepped arrives)) arrived
  rw [List.nil_append,fate_arrived] at stands
  unfold undisturbed
  cases decided : fate first.waiters.length key (since ++ after) with
  | «open» => exact (settled decided).elim
  | lost =>
      rw [decided] at stands
      refine ⟨fun ⟨value,signalled,_⟩ => ?_,fun heard => by cases heard⟩
      exact (stands.2 value block (List.mem_append_right _ signalled)).elim
  | told =>
      rw [decided] at stands
      obtain ⟨value,other,signalled,answers,held⟩ := stands
      refine ⟨fun _ => rfl,fun _ => ⟨value,?_,answers,receiver,found,held⟩⟩
      rcases List.mem_append.mp signalled with early | signalled
      · rcases List.mem_append.mp early with early | early
        · exact (untold value other early).elim
        · simp at early
      · rw [(later.halfway begun during).2 _ _ _ signalled] at signalled
        exact signalled

def signalledAll (block : Block) : Task → Bool
  | .signalling arrived _ [] => decide (arrived = block)
  | _ => false

theorem signalledAll_iff {task : Task} (done : signalledAll block task = true) : ∃ hashed, task = .signalling block hashed [] := by
  unfold signalledAll at done
  split at done
  · rename_i arrived hashed
    exact ⟨hashed,by rw [of_decide_eq_true done]⟩
  · cases done

theorem only_waiter_told : ∃ next after w' value,
    (WatcherExample.start.register WatcherExample.key).step WatcherExample.client .inOrder .quick
      (.arrive BuilderExample.child) = some ([.arrived BuilderExample.child],next) ∧
    Runs WatcherExample.client .inOrder .quick next after w' ∧ .signalled 0 value BuilderExample.child ∈ after := by
  obtain ⟨⟨after,w'⟩,played,heard⟩ := (Option.any_eq_true _ _).mp
    (show (BlockchainWatcher.play WatcherExample.client .inOrder .quick
      {WatcherExample.start.register WatcherExample.key with
        task := .signalling BuilderExample.child (signals WatcherExample.client BuilderExample.child).2
          (signals WatcherExample.client BuilderExample.child).1} [.signal,.signal]).any (fun reached =>
        signalledAll BuilderExample.child reached.2.task && (processed reached.1).isEmpty &&
        undisturbed 0 WatcherExample.key reached.1) = true by decide)
  rw [Bool.and_eq_true,Bool.and_eq_true,List.isEmpty_iff] at heard
  obtain ⟨⟨done,none⟩,alone⟩ := heard
  obtain ⟨hashed,through⟩ := signalledAll_iff done
  have later : Runs WatcherExample.client .inOrder .quick _ after w' := Runs.nil.play played
  have during : ∀ other result, .consumed other result ∉ after := by
    intro other result member
    have inside : other ∈ processed after := List.mem_filterMap.mpr ⟨_,member,rfl⟩
    rw [show processed after = [] from none] at inside
    cases inside
  have first : Runs WatcherExample.client .inOrder .quick WatcherExample.start [] WatcherExample.start := .nil
  obtain ⟨value,signalled,_⟩ := (waiter_told_iff BuilderExample.historyLen BuilderExample.empty BuilderExample.empty [.zero]
    rfl first .nil (fun _ _ => nofun) rfl (by decide) later during through).1.mpr alone
  exact ⟨_,after,w',value,rfl,later,signalled⟩

theorem first_of_two_waiters_lost : ∃ before next after w w',
    Runs WatcherExample.client .inOrder .quick WatcherExample.start before next ∧ .registered 0 WatcherExample.key ∈ before ∧
    Runs WatcherExample.client .inOrder .quick next after w ∧ .looked WatcherExample.key BuilderExample.child ∈ after ∧
    BuilderExample.child ∈ accepted after ∧
    w.step WatcherExample.client .inOrder .quick (.poll 0) = some ([.resolved 0 .recvError],w') := by
  obtain ⟨⟨before,next⟩,registers,heard⟩ := (Option.any_eq_true _ _).mp
    (show (WatcherExample.start.play WatcherExample.client .inOrder .quick
      [.register WatcherExample.key,.register WatcherExample.key]).any (fun reached =>
        decide (.registered 0 WatcherExample.key ∈ reached.1) &&
        (reached.2.play WatcherExample.client .inOrder .quick (WatcherExample.arrival BuilderExample.child)).any
          fun ending => decide (.looked WatcherExample.key BuilderExample.child ∈ ending.1) &&
            decide (BuilderExample.child ∈ accepted ending.1) &&
            decide (ending.2.waiters[0]? = some ⟨WatcherExample.key,.closed⟩)) = true by decide)
  rw [Bool.and_eq_true,decide_eq_true_eq] at heard
  obtain ⟨registered,ends⟩ := heard
  obtain ⟨⟨after,w⟩,arrives,heard⟩ := (Option.any_eq_true _ _).mp ends
  rw [Bool.and_eq_true,Bool.and_eq_true,decide_eq_true_eq,decide_eq_true_eq,decide_eq_true_eq] at heard
  obtain ⟨⟨looked,accepts⟩,closed⟩ := heard
  refine ⟨before,next,after,w,{w with waiters := modify w.waiters 0 fun _ => .resolved .recvError},
    Runs.nil.play registers,registered,Runs.nil.play arrives,looked,accepts,?_⟩
  change w.poll 0 = _
  unfold poll
  rw [closed]

end BlockchainWatcher

end AnomaAlpha
