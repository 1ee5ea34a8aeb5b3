import AnomaAlpha.LiveLinks
import Mathlib.Data.Set.Finite.Lattice
import Mathlib.Logic.Relation

-- A relation that branches finitely and along which a bounded rank rises has
-- finitely many descendants of anything.
namespace Descent
variable {A : Type} {child : A → A → Prop} {rank : A → Nat} {limit : Nat}

def descendants (child : A → A → Prop) (a : A) : Set A := {b | Relation.ReflTransGen child a b}

theorem descendants_step (child : A → A → Prop) (a : A) :
    descendants child a = insert a (⋃ b ∈ {b | child a b}, descendants child b) := by
  ext c
  simp only [descendants,Set.mem_ofPred_eq,Set.mem_insert_iff,Set.mem_iUnion,exists_prop]
  rw [Relation.ReflTransGen.cases_head_iff,eq_comm]

theorem descendants_finite (branches : ∀ a, {b | child a b}.Finite) (rises : ∀ a b, child a b → rank a < rank b)
    (bounded : ∀ a b, child a b → rank b ≤ limit) (a : A) : (descendants child a).Finite := by
  induction room : limit - rank a using Nat.strong_induction_on generalizing a with
  | _ room ih =>
      rw [descendants_step]
      refine Set.Finite.insert a ((branches a).biUnion ?_)
      intro b next
      have rise := rises a b next
      have bound := bounded a b next
      exact ih (limit - rank b) (by omega) b rfl

theorem descendants_of_finite {roots : Set A} (few : roots.Finite) (branches : ∀ a, {b | child a b}.Finite)
    (rises : ∀ a b, child a b → rank a < rank b) (bounded : ∀ a b, child a b → rank b ≤ limit) :
    (⋃ a ∈ roots, descendants child a).Finite :=
  few.biUnion fun a _ => descendants_finite branches rises bounded a

end Descent

namespace AnomaAlpha
open Fallible OrderedMap

def Action.hops : Action → Option UInt16
  | .forwardJoin msg => some msg.hop
  | .shuffle msg => some msg.hop
  | _ => none

def receives (sender : PeerId) (connection : ConnectionId) (msg : Message) : Deed :=
  .command (.injectEvent (.messageReceived sender connection msg))

inductive Spreads (c : NetworkConfig) : Deed → Action → Prop where
  | welcome : Spreads c (receives sender connection ⟨topic,.join msg⟩) (.forwardJoin ⟨1,msg.node⟩)
  | forwardJoin : msg.hop.toNat < c.randomWalkLength → msg.hop.toNat + 1 < 2^16 →
      Spreads c (receives sender connection ⟨topic,.forwardJoin msg⟩) (.forwardJoin ⟨msg.hop+1,msg.node⟩)
  | initiate : Spreads c .tick (.shuffle ⟨1,node,peers⟩)
  | shuffle : msg.hop.toNat < c.randomWalkLength → msg.hop.toNat + 1 < 2^16 →
      Spreads c (receives sender connection ⟨topic,.shuffle msg⟩) (.shuffle ⟨msg.hop+1,msg.origin,msg.peers⟩)

theorem FedBy.floods (fed : FedBy home turn before log after) (filed : Named before.1) (homed : Homed home before.1) :
    ∃ sent, after.2 = before.2 ++ sent ∧ ∀ p c msg, .sendMessage p c msg ∈ sent → msg.action.hops ≠ none →
      ∃ name event topic, (name,event) ∈ log ∧ topic.networkConfig = home.1 ∧
        TopicInner.Emission topic event (.sendMessage p c msg) := by
  induction fed with
  | refl => exact ⟨[],by simp,nofun⟩
  | @event log fed name topic event next earlier found handled ih =>
      obtain ⟨sent,written,spread⟩ := ih
      obtain ⟨_,drained⟩ := earlier.named filed name topic found
      obtain ⟨more,emitted,allowed⟩ := (TopicInner.injectEvent_emits handled).sends
      rw [drained,List.nil_append] at emitted
      refine ⟨sent ++ more,by rw [emitted,written,List.append_assoc],?_⟩
      intro p c msg member floods
      rcases List.mem_append.mp member with member | member
      · obtain ⟨name,event,topic,member,config,emission⟩ := spread p c msg member floods
        exact ⟨name,event,topic,List.mem_append.mpr (.inl member),config,emission⟩
      · exact ⟨name,event,topic,by simp,(earlier.homed homed name topic found).1,allowed _ member⟩
  | @join log fed config addresses topic earlier absent built ih =>
      obtain ⟨sent,written,spread⟩ := ih
      refine ⟨sent ++ topic.cmdtx,by rw [written,List.append_assoc],?_⟩
      intro p c msg member floods
      rcases List.mem_append.mp member with member | member
      · exact spread p c msg member floods
      · rw [← built] at member
        obtain ⟨addr,same⟩ := (TopicInner.new_sends _ _ _ _).2 _ member
        cases same
  | @gossip log fed name topic next data earlier found spoken ih =>
      obtain ⟨sent,written,spread⟩ := ih
      obtain ⟨_,drained⟩ := earlier.named filed name topic found
      have quiet : Quiet (fun command => ∀ p c msg, command = .sendMessage p c msg → msg.action.hops = none) topic next := by
        refine TopicInner.gossip_quiet spoken ?_
        intro peer conn linked p c msg same
        cases same
        rfl
      obtain ⟨more,emitted,allowed⟩ := quiet.sends
      rw [drained,List.nil_append] at emitted
      refine ⟨sent ++ more,by rw [emitted,written,List.append_assoc],?_⟩
      intro p c msg member floods
      rcases List.mem_append.mp member with member | member
      · exact spread p c msg member floods
      · exact absurd (allowed _ member p c msg rfl) floods

namespace Network
variable {n n' : Network} {turn : Turn} {hash : Message → Multihash}

theorem injections_tick (injected : (name,.tick) ∈ n.injections hash turn deed) : deed = .tick := by
  cases injections_injected injected with
  | tick => rfl

theorem perform_spreads (tidy : n.Tidy) (performed : n.perform hash turn deed = .ok n') :
    ∃ sent, n'.commands = n.commands ++ sent ∧
      ∀ p c msg, .sendMessage p c msg ∈ sent → msg.action.hops ≠ none → Spreads n.config deed msg.action := by
  obtain ⟨sent,written,spread⟩ := (perform_ok performed).1.floods tidy.named tidy.homed
  refine ⟨sent,written,?_⟩
  intro p c msg member floods
  obtain ⟨name,event,topic,injected,config,emission⟩ := spread p c msg member floods
  have config : topic.networkConfig = n.config := config
  cases emission with
  | welcome linked =>
      obtain ⟨rfl,_⟩ := injections_message injected
      exact .welcome
  | forwardJoin linked short fits =>
      obtain ⟨rfl,_⟩ := injections_message injected
      exact .forwardJoin (config ▸ short) fits
  | initiate linked =>
      obtain rfl := injections_tick injected
      exact .initiate
  | shuffle linked short fits =>
      obtain ⟨rfl,_⟩ := injections_message injected
      exact .shuffle (config ▸ short) fits
  | _ => exact absurd rfl floods

end Network

-- Nodes that share a configuration take turns. In every round a node may do
-- anything, whatever is in its channel by then; but every flood that it receives
-- is a copy that some node has sent before, and no copy arrives twice.
structure Execution (P : Type) (hash : Message → Multihash) (config : NetworkConfig) where
  nodes : Nat → P → Network
  rounds : Nat → Option (P × Turn × Deed)
  queue : Nat → List Command
  sent : Nat → List Command
  origin : Nat → Nat × Nat
  starts : ∀ x, ∃ peerId, nodes 0 x = .new config peerId
  rests : ∀ t, rounds t = none → nodes (t+1) = nodes t ∧ sent t = []
  performs : ∀ t x turn deed, rounds t = some (x,turn,deed) →
    {nodes t x with commands := queue t}.perform hash turn deed = .ok (nodes (t+1) x) ∧
      (nodes (t+1) x).commands = queue t ++ sent t ∧ ∀ y, y ≠ x → nodes (t+1) y = nodes t y
  carries : ∀ t x turn sender connection msg, rounds t = some (x,turn,receives sender connection msg) →
    msg.action.hops ≠ none → (origin t).1 < t ∧
      ∃ p c, (sent (origin t).1)[(origin t).2]? = some (.sendMessage p c msg)
  once : ∀ t t' x x' turn turn' sender sender' connection connection' msg msg',
    rounds t = some (x,turn,receives sender connection msg) → msg.action.hops ≠ none →
      rounds t' = some (x',turn',receives sender' connection' msg') → msg'.action.hops ≠ none →
        origin t = origin t' → t = t'

namespace Execution
variable {P : Type} {hash : Message → Multihash} {config : NetworkConfig}

def flood (e : Execution P hash config) (copy : Nat × Nat) : Option Action :=
  (e.sent copy.1)[copy.2]?.bind fun command => match command with
    | .sendMessage _ _ msg => if msg.action.hops.isSome then some msg.action else none
    | _ => none

def Forwards (e : Execution P hash config) (a b : Nat × Nat) : Prop :=
  (e.flood b).isSome ∧ e.origin b.1 = a ∧
    ∃ x turn sender connection msg, e.rounds b.1 = some (x,turn,receives sender connection msg) ∧ msg.action.hops ≠ none

theorem flood_iff (e : Execution P hash config) (copy : Nat × Nat) (action : Action) : e.flood copy = some action ↔
    ∃ p c msg, (e.sent copy.1)[copy.2]? = some (.sendMessage p c msg) ∧ msg.action = action ∧ msg.action.hops ≠ none := by
  unfold flood
  cases found : (e.sent copy.1)[copy.2]? with
  | none => simp
  | some command =>
      cases command with
      | sendMessage p c msg =>
          simp [Option.isSome_iff_ne_none]
          tauto
      | _ => simp

theorem tidy (e : Execution P hash config) (t : Nat) (x : P) : (e.nodes t x).Tidy ∧ (e.nodes t x).config = config := by
  induction t with
  | zero =>
      obtain ⟨peerId,start⟩ := e.starts x
      rw [start]
      exact ⟨Network.new_tidy config peerId,rfl⟩
  | succ t ih =>
      cases round : e.rounds t with
      | none =>
          rw [(e.rests t round).1]
          exact ih
      | some entry =>
          obtain ⟨y,turn,deed⟩ := entry
          obtain ⟨performed,_,others⟩ := e.performs t y turn deed round
          by_cases same : x = y
          · subst same
            obtain ⟨fed,_,home⟩ := Network.perform_ok performed
            refine ⟨Network.Tidy.fed (m:={e.nodes t x with commands := e.queue t}) ⟨ih.1.named,ih.1.homed⟩ fed home,?_⟩
            exact (congrArg Prod.fst home).trans ih.2
          · rw [others x same]
            exact ih

theorem flood_spreads (e : Execution P hash config) (flooded : e.flood copy = some action) :
    ∃ x turn deed, e.rounds copy.1 = some (x,turn,deed) ∧ Spreads config deed action := by
  obtain ⟨p,c,msg,found,rfl,floods⟩ := (e.flood_iff copy action).mp flooded
  have member := List.mem_of_getElem? found
  cases round : e.rounds copy.1 with
  | none =>
      rw [(e.rests copy.1 round).2] at member
      cases member
  | some entry =>
      obtain ⟨x,turn,deed⟩ := entry
      obtain ⟨performed,written,_⟩ := e.performs copy.1 x turn deed round
      obtain ⟨tidy,own⟩ := e.tidy copy.1 x
      obtain ⟨sent,emitted,spread⟩ := Network.perform_spreads
        (n:={e.nodes copy.1 x with commands := e.queue copy.1}) ⟨tidy.named,tidy.homed⟩ performed
      rw [written] at emitted
      obtain rfl := List.append_cancel_left emitted
      exact ⟨x,turn,deed,rfl,own ▸ spread p c msg member floods⟩

def Onward : Action → Action → Prop
  | .forwardJoin msg,.forwardJoin next => next.node = msg.node ∧ next.hop.toNat = msg.hop.toNat + 1
  | .shuffle msg,.shuffle next => next.origin = msg.origin ∧ next.peers = msg.peers ∧ next.hop.toNat = msg.hop.toNat + 1
  | _,_ => False

theorem next_hop {hop : UInt16} (fits : hop.toNat + 1 < 2^16) : (hop+1).toNat = hop.toNat + 1 := by
  rw [UInt16.toNat_add]
  exact Nat.mod_eq_of_lt fits

theorem spreads_onward (spread : Spreads config (receives sender connection msg) action) (floods : msg.action.hops ≠ none) :
    Onward msg.action action := by
  cases spread with
  | welcome => exact absurd rfl floods
  | forwardJoin _ fits => exact ⟨rfl,next_hop fits⟩
  | shuffle _ fits => exact ⟨rfl,rfl,next_hop fits⟩

theorem spreads_hops (spread : Spreads config deed action) : ∃ hop, action.hops = some hop ∧ 1 ≤ hop.toNat ∧
    hop.toNat ≤ max 1 config.randomWalkLength := by
  cases spread with
  | welcome => exact ⟨1,rfl,Nat.le_refl _,Nat.le_max_left _ _⟩
  | forwardJoin short fits =>
      refine ⟨_,rfl,?_⟩
      rw [next_hop fits]
      omega
  | initiate => exact ⟨1,rfl,Nat.le_refl _,Nat.le_max_left _ _⟩
  | shuffle short fits =>
      refine ⟨_,rfl,?_⟩
      rw [next_hop fits]
      omega

theorem onward_hops (onward : Onward action next) : ∃ hop later, action.hops = some hop ∧ next.hops = some later ∧
    later.toNat = hop.toNat + 1 := by
  cases action with
  | forwardJoin msg =>
      cases next with
      | forwardJoin next => exact ⟨msg.hop,next.hop,rfl,rfl,onward.2⟩
      | _ => exact onward.elim
  | shuffle msg =>
      cases next with
      | shuffle next => exact ⟨msg.hop,next.hop,rfl,rfl,onward.2.2⟩
      | _ => exact onward.elim
  | _ => exact onward.elim

def hops (e : Execution P hash config) (copy : Nat × Nat) : Nat :=
  ((e.flood copy).bind Action.hops).elim 0 UInt16.toNat

theorem forwards_rise (e : Execution P hash config) (forwards : e.Forwards a b) :
    e.hops b = e.hops a + 1 ∧ e.hops b ≤ max 1 config.randomWalkLength := by
  obtain ⟨flooded,rfl,x,turn,sender,connection,msg,round,floods⟩ := forwards
  obtain ⟨action,flooded⟩ := Option.isSome_iff_exists.mp flooded
  obtain ⟨_,_,_,same,spread⟩ := e.flood_spreads flooded
  cases round.symm.trans same
  obtain ⟨_,p,c,copied⟩ := e.carries b.1 x turn sender connection msg round floods
  have before : e.flood (e.origin b.1) = some msg.action :=
    (e.flood_iff _ _).mpr ⟨p,c,msg,copied,rfl,floods⟩
  obtain ⟨hop,later,here,there,rise⟩ := onward_hops (spreads_onward spread floods)
  obtain ⟨counted,some_,_,bounded⟩ := spreads_hops spread
  have earlier : e.hops (e.origin b.1) = hop.toNat := by
    unfold hops
    rw [before,Option.bind_some,here]
    rfl
  have after : e.hops b = later.toNat := by
    unfold hops
    rw [flooded,Option.bind_some,there]
    rfl
  cases some_.symm.trans there
  rw [after,earlier]
  exact ⟨rise,bounded⟩

theorem forwards_finite (e : Execution P hash config) (a : Nat × Nat) : {b | e.Forwards a b}.Finite := by
  by_cases handled : ∃ b, e.Forwards a b
  · obtain ⟨⟨t,_⟩,_,from_,x,turn,sender,connection,msg,round,floods⟩ := handled
    refine ((Set.finite_lt_nat (e.sent t).length).image fun place => (t,place)).subset ?_
    intro b ⟨flooded,origin,x',turn',sender',connection',msg',round',floods'⟩
    have same : t = b.1 := e.once t b.1 x x' turn turn' sender sender' connection connection' msg msg' round floods
      round' floods' (from_.trans origin.symm)
    obtain ⟨action,flooded⟩ := Option.isSome_iff_exists.mp flooded
    obtain ⟨_,_,_,found,_⟩ := (e.flood_iff _ _).mp flooded
    refine ⟨b.2,?_,?_⟩
    · rw [same]
      exact (List.getElem?_eq_some_iff.mp found).1
    · rw [same]
  · refine Set.finite_empty.subset ?_
    intro b forwards
    exact handled ⟨b,forwards⟩

def roots (e : Execution P hash config) (t : Nat) : Set (Nat × Nat) := {copy | copy.1 = t ∧ (e.flood copy).isSome}

theorem roots_finite (e : Execution P hash config) (t : Nat) : (e.roots t).Finite := by
  refine ((Set.finite_lt_nat (e.sent t).length).image fun place => (t,place)).subset ?_
  intro copy ⟨same,flooded⟩
  obtain ⟨action,flooded⟩ := Option.isSome_iff_exists.mp flooded
  obtain ⟨_,_,_,found,_⟩ := (e.flood_iff _ _).mp flooded
  rw [same] at found
  exact ⟨copy.2,(List.getElem?_eq_some_iff.mp found).1,by rw [← same]⟩

theorem floods_die_out (e : Execution P hash config) (walk : config.randomWalkLength < 2^16) :
    (∀ t p c msg hop, .sendMessage p c msg ∈ e.sent t → msg.action.hops = some hop →
      1 ≤ hop.toNat ∧ hop.toNat ≤ max 1 config.randomWalkLength) ∧
    (∀ t x turn sender connection msg p c next, e.rounds t = some (x,turn,receives sender connection msg) →
      msg.action.hops ≠ none → .sendMessage p c next ∈ e.sent t → next.action.hops ≠ none →
        Onward msg.action next.action) ∧
    (∀ t x name topic env event, (e.nodes t x).topics[name]? = some topic → TopicInner.onTopic name event = true →
      topic.injectEvent env event ≠ .error .hopOverflow) ∧
    ∀ t, (⋃ root ∈ e.roots t, Descent.descendants e.Forwards root).Finite := by
  have copied : ∀ {t p c msg}, .sendMessage p c msg ∈ e.sent t → msg.action.hops ≠ none →
      ∃ copy : Nat × Nat, copy.1 = t ∧ e.flood copy = some msg.action := by
    intro t p c msg member floods
    obtain ⟨place,found⟩ := List.getElem?_of_mem member
    exact ⟨(t,place),rfl,(e.flood_iff _ _).mpr ⟨p,c,msg,found,rfl,floods⟩⟩
  refine ⟨?_,?_,?_,?_⟩
  · intro t p c msg hop member counted
    obtain ⟨copy,_,flooded⟩ := copied member (by rw [counted]; exact nofun)
    obtain ⟨_,_,_,_,spread⟩ := e.flood_spreads flooded
    obtain ⟨_,same,bounds⟩ := spreads_hops spread
    cases counted.symm.trans same
    exact bounds
  · intro t x turn sender connection msg p c next round floods member later
    obtain ⟨copy,rfl,flooded⟩ := copied member later
    obtain ⟨_,_,_,same,spread⟩ := e.flood_spreads flooded
    cases round.symm.trans same
    exact spreads_onward spread floods
  · intro t x name topic env event found named wrapped
    obtain ⟨tidy,own⟩ := e.tidy t x
    have short : topic.networkConfig.randomWalkLength < 2^16 := by
      rw [(tidy.homed name topic found).1,show (e.nodes t x).home.1 = config from own]
      exact walk
    exact TopicInner.injectEvent_avoids ((tidy.named name topic found).1.symm ▸ named) _ wrapped (.inr ⟨short,rfl⟩)
  · intro t
    refine Descent.descendants_of_finite (e.roots_finite t) e.forwards_finite (fun a b forwards => ?_)
      fun a b forwards => (e.forwards_rise forwards).2
    rw [(e.forwards_rise forwards).1]
    exact Nat.lt_succ_self _

-- Nodes that play a script, which names the copy that a flood in it is.
structure Cue (P : Type) where
  node : P
  turn : Turn
  deed : Deed
  origin : Nat × Nat := (0,0)

def floodIn : Deed → Option Message
  | .command (.injectEvent (.messageReceived _ _ msg)) => if msg.action.hops.isSome then some msg else none
  | _ => none

theorem floodIn_receives (floods : msg.action.hops ≠ none) : floodIn (receives sender connection msg) = some msg :=
  if_pos (Option.isSome_iff_ne_none.mpr floods)

section
variable [DecidableEq P] (hash : Message → Multihash) (start : P → Network) (script : List (Cue P))

def stage : Nat → P → Network
  | 0 => start
  | t+1 => match script[t]? with
    | none => stage t
    | some cue => match {stage t cue.node with commands := []}.perform hash cue.turn cue.deed with
      | .ok n => Function.update (stage t) cue.node n
      | .error _ => stage t

def plays (t : Nat) : Option (P × Turn × Deed) :=
  script[t]?.bind fun cue => match {stage hash start script t cue.node with commands := []}.perform hash cue.turn cue.deed with
    | .ok _ => some (cue.node,cue.turn,cue.deed)
    | .error _ => none

def said (t : Nat) : List Command :=
  (plays hash start script t).elim [] fun round => (stage hash start script (t+1) round.1).commands

def carried (t : Nat) (cue : Cue P) : Bool :=
  (floodIn cue.deed).all fun msg => cue.origin.1 < t &&
    (said hash start script cue.origin.1)[cue.origin.2]?.any fun command => match command with
      | .sendMessage _ _ copy => copy = msg
      | _ => false

end

section
variable [DecidableEq P] {hash : Message → Multihash} {start : P → Network} {script : List (Cue P)} {t : Nat}

theorem plays_some (round : plays hash start script t = some (x,turn,deed)) :
    ∃ cue, script[t]? = some cue ∧ cue.node = x ∧ cue.turn = turn ∧ cue.deed = deed ∧
      ∃ n, {stage hash start script t x with commands := []}.perform hash turn deed = .ok n ∧
        stage hash start script (t+1) = Function.update (stage hash start script t) x n := by
  obtain ⟨cue,found,played⟩ := Option.bind_eq_some_iff.mp round
  split at played
  · rename_i n did
    cases played
    refine ⟨cue,found,rfl,rfl,rfl,n,did,?_⟩
    rw [stage,found]
    dsimp only
    rw [did]
  · cases played

theorem stage_rests (idle : plays hash start script t = none) : stage hash start script (t+1) = stage hash start script t := by
  unfold plays at idle
  rw [stage]
  cases found : script[t]? with
  | none => rfl
  | some cue =>
      rw [found,Option.bind_some] at idle
      dsimp only
      split
      · rename_i did
        rw [did] at idle
        cases idle
      · rfl

end

def played [DecidableEq P] (hash : Message → Multihash) (config : NetworkConfig) (peerId : P → PeerId) (script : List (Cue P))
    (copied : ∀ t, (h : t < script.length) → carried hash (fun x => .new config (peerId x)) script t script[t] = true)
    (single : script.Pairwise fun a b => (floodIn a.deed).isSome → (floodIn b.deed).isSome → a.origin ≠ b.origin) :
    Execution P hash config where
  nodes := stage hash (fun x => .new config (peerId x)) script
  rounds := plays hash (fun x => .new config (peerId x)) script
  queue _ := []
  sent := said hash (fun x => .new config (peerId x)) script
  origin t := script[t]?.elim (0,0) Cue.origin
  starts x := ⟨peerId x,rfl⟩
  rests t idle := ⟨stage_rests idle,by rw [said,idle]; rfl⟩
  performs t x turn deed round := by
    obtain ⟨cue,_,_,_,_,n,did,next⟩ := plays_some round
    rw [said,round,next]
    refine ⟨?_,rfl,fun y other => Function.update_of_ne other _ _⟩
    rw [Function.update_self]
    exact did
  carries t x turn sender connection msg round floods := by
    obtain ⟨cue,found,_,_,arrives,_⟩ := plays_some round
    obtain ⟨short,rfl⟩ := List.getElem?_eq_some_iff.mp found
    have copied := copied t short
    rw [carried,arrives,floodIn_receives floods,Option.all_some,Bool.and_eq_true] at copied
    rw [found]
    refine ⟨of_decide_eq_true copied.1,?_⟩
    obtain ⟨command,sent,same⟩ := (Option.any_eq_true _ _).mp copied.2
    cases command with
    | sendMessage p c copy =>
        obtain rfl := of_decide_eq_true same
        exact ⟨p,c,sent⟩
    | _ => cases same
  once t t' x x' turn turn' sender sender' connection connection' msg msg' round floods round' floods' same := by
    obtain ⟨cue,found,_,_,arrives,_⟩ := plays_some round
    obtain ⟨cue',found',_,_,arrives',_⟩ := plays_some round'
    rw [found,found'] at same
    obtain ⟨short,rfl⟩ := List.getElem?_eq_some_iff.mp found
    obtain ⟨short',rfl⟩ := List.getElem?_eq_some_iff.mp found'
    have flooded : (floodIn script[t].deed).isSome := by rw [arrives,floodIn_receives floods]; rfl
    have flooded' : (floodIn script[t'].deed).isSome := by rw [arrives',floodIn_receives floods']; rfl
    rcases Nat.lt_trichotomy t t' with before | rfl | after
    · exact absurd same (List.pairwise_iff_getElem.mp single t t' short short' before flooded flooded')
    · rfl
    · exact absurd same.symm (List.pairwise_iff_getElem.mp single t' t short' short after flooded' flooded)

theorem played_rounds [DecidableEq P] {peerId : P → PeerId} {script : List (Cue P)} {copied} {single} (t : Nat) :
    (played hash config peerId script copied single).rounds t = plays hash (fun x => .new config (peerId x)) script t := rfl

end Execution

namespace FloodExample
open TopicExample NetworkExample

def event (event : SwarmEvent) : Deed := .command (.injectEvent event)
def cue (node : Bool) (deed : Deed) : Execution.Cue Bool := ⟨node,.first 0,deed,(0,0)⟩
def linkedBy (n : UInt8) : Message := ⟨"topic",.neighbour ⟨peer n,true⟩⟩
def forwarded : Message := ⟨"topic",.forwardJoin ⟨1,peer 2⟩⟩

-- Two nodes are linked and the second one is linked to a peer as well. Another
-- peer joins at the first node, whose FORWARDJOIN then reaches the second one.
def script : List (Execution.Cue Bool) :=
  [cue false (.join ⟨"topic",[]⟩),cue false (event (.connectionEstablished (peer 1) false 1)),
   cue false (event (arrival 1 neighbour)),cue true (.join ⟨"topic",[]⟩),
   cue true (event (.connectionEstablished (peer 0) false 0)),cue true (event (arrival 0 (linkedBy 0))),
   cue true (event (.connectionEstablished (peer 3) false 3)),cue true (event (arrival 3 (linkedBy 3))),
   cue false (event (.connectionEstablished (peer 2) false 2)),cue false (event (arrival 2 join)),
   ⟨true,.first 0,event (arrival 0 forwarded),(9,0)⟩]

def execution : Execution Bool NetworkExample.hash {config with dedupeInterval := none} :=
  .played NetworkExample.hash {config with dedupeInterval := none} (fun second => (peer (if second then 1 else 0)).peerId)
    script (by decide) (by decide)

end FloodExample

theorem forwarded_flood_dies_out : (9,0) ∈ FloodExample.execution.roots 9 ∧
    FloodExample.execution.Forwards (9,0) (10,1) ∧
    (⋃ root ∈ FloodExample.execution.roots 9, Descent.descendants FloodExample.execution.Forwards root).Finite := by
  have heard : (FloodExample.execution.rounds 10).isSome ∧ (FloodExample.execution.flood (10,1)).isSome := by decide
  obtain ⟨⟨x,turn,deed⟩,round⟩ := Option.isSome_iff_exists.mp heard.1
  rw [FloodExample.execution,Execution.played_rounds] at round
  obtain ⟨cue,found,_,_,rfl,_⟩ := Execution.plays_some round
  cases found
  refine ⟨⟨rfl,by decide⟩,⟨heard.2,rfl,x,turn,_,_,_,round,?_⟩,
    (FloodExample.execution.floods_die_out (by decide)).2.2.2 9⟩
  exact Option.some_ne_none _

end AnomaAlpha
