import AnomaAlpha.TopicSafety
import Mathlib.Data.List.Count
import Mathlib.Data.List.Perm.Subperm

-- Drawing a number of elements from a pool, in which an element may occur more
-- than once, without putting them back.
namespace Sampling
variable {A : Type} [DecidableEq A] {a : A} {pool drawn : List A} {n : Nat}

theorem length_apart (a : A) (pool : List A) : (pool.filter (· ≠ a)).length + pool.count a = pool.length := by
  have counted : pool.count a = (pool.filter (· = a)).length := by
    rw [List.count_eq_length_filter]
    rfl
  rw [counted,Nat.add_comm,List.length_eq_length_filter_add (l:=pool) (· = a)]
  simp

def sparing (a : A) (pool : List A) (n : Nat) : List A := (pool.filter (· ≠ a) ++ pool.filter (· = a)).take n

theorem sparing_pool (a : A) (pool : List A) : (pool.filter (· ≠ a) ++ pool.filter (· = a)).Perm pool := by
  have apart := List.filter_append_perm (fun x => decide (x ≠ a)) pool
  simpa using apart

theorem sparing_subperm (a : A) (pool : List A) (n : Nat) : (sparing a pool n).Subperm pool :=
  (List.take_sublist n _).subperm.trans (sparing_pool a pool).subperm

theorem sparing_length (a : A) (pool : List A) (n : Nat) : (sparing a pool n).length = min n pool.length := by
  unfold sparing
  rw [List.length_take,(sparing_pool a pool).length_eq]

theorem not_mem_sparing (few : n + pool.count a ≤ pool.length) : a ∉ sparing a pool n := by
  have others : n ≤ (pool.filter (· ≠ a)).length := by
    have apart := length_apart a pool
    omega
  unfold sparing
  rw [List.take_append_of_le_length others]
  intro member
  have other := (List.mem_filter.mp (List.mem_of_mem_take member)).2
  simp at other

theorem mem_drawn (sub : drawn.Subperm pool) (many : pool.length < drawn.length + pool.count a) : a ∈ drawn := by
  by_contra absent
  have kept : drawn.filter (· ≠ a) = drawn := by
    rw [List.filter_eq_self]
    intro x member
    exact decide_eq_true fun same => absent (same ▸ member)
  have short := (sub.filter fun x => decide (x ≠ a)).length_le
  rw [kept] at short
  have apart := length_apart a pool
  omega

end Sampling

namespace AnomaAlpha
open Fallible OrderedMap

def Dice.sparing (id : PeerId) : Dice where
  choose _ ids := ids.head?
  chooseMultiple _ ids n := Sampling.sparing id ids n
  order _ ids := ids
  toss := true
  choose_mem := Dice.first.choose_mem
  choose_some := Dice.first.choose_some
  chooseMultiple_mem _ ids n := Sampling.sparing_subperm id ids n
  chooseMultiple_length _ ids n := Sampling.sparing_length id ids n
  order_perm _ ids := .refl ids

namespace TopicInner
variable {s s' : TopicInner} {env : Env} {sender id : PeerId} {connection : ConnectionId} {msg : ShuffleReply} {max : Nat}

def unnamed (s : TopicInner) (msg : ShuffleReply) : List PeerId :=
  s.passivePeers.keys.filter (· ∉ msg.peers.map AddressablePeer.peerId)

-- What the new view is drawn from: the unnamed peers stand in it twice.
def mixed (s : TopicInner) (msg : ShuffleReply) : List PeerId := s.passivePeers.keys ++ s.unnamed msg

theorem mixed_length (s : TopicInner) (msg : ShuffleReply) :
    (s.mixed msg).length = s.passivePeers.size + (s.unnamed msg).length := by
  unfold mixed
  rw [List.length_append,Std.ExtTreeMap.length_keys]

theorem mem_mixed (member : id ∈ s.mixed msg) : id ∈ s.passivePeers := by
  rcases List.mem_append.mp member with inside | rest
  · exact mem_keys.mp inside
  · exact mem_keys.mp (List.mem_filter.mp rest).1

theorem count_mixed (msg : ShuffleReply) (inside : id ∈ s.passivePeers) :
    (s.mixed msg).count id = 1 + (s.unnamed msg).count id := by
  unfold mixed
  rw [List.count_append,List.count_eq_one_of_mem Std.ExtTreeMap.nodup_keys (mem_keys.mpr inside)]

theorem count_unnamed (member : id ∈ s.unnamed msg) : (s.unnamed msg).count id = 1 :=
  List.count_eq_one_of_mem (Std.ExtTreeMap.nodup_keys.filter _) member

theorem unnamed_length (s : TopicInner) (msg : ShuffleReply) : (s.unnamed msg).length ≤ s.passivePeers.size :=
  (List.length_filter_le _ _).trans_eq Std.ExtTreeMap.length_keys

theorem unnamed_whole (whole : (s.unnamed msg).length = s.passivePeers.size) (inside : id ∈ s.passivePeers) :
    id ∈ s.unnamed msg := by
  have same : s.unnamed msg = s.passivePeers.keys :=
    List.filter_sublist.eq_of_length (whole.trans Std.ExtTreeMap.length_keys.symm)
  rw [same]
  exact mem_keys.mpr inside

theorem exists_named (partly : (s.unnamed msg).length ≠ s.passivePeers.size) :
    ∃ id, id ∈ s.passivePeers ∧ id ∉ s.unnamed msg := by
  by_contra none
  refine partly ?_
  unfold unnamed
  rw [List.filter_eq_self.mpr,Std.ExtTreeMap.length_keys]
  intro id inside
  by_contra named
  exact none ⟨id,mem_keys.mp inside,fun member => named (List.mem_filter.mp member).2⟩

theorem collected_view {view : HashMap PeerId (HashSet Multiaddr)} {drawn : List PeerId}
    {look : PeerId → Except TopicPanic (PeerId × HashSet Multiaddr)} {found : List (PeerId × HashSet Multiaddr)}
    (known : ∀ id ∈ drawn, ∃ addresses, view[id]? = some addresses ∧ look id = .ok (id,addresses))
    (collected : drawn.mapM look = .ok found) (id : PeerId) :
    (Std.ExtTreeMap.ofList found compare)[id]? = if id ∈ drawn then view[id]? else none := by
  cases filed : (Std.ExtTreeMap.ofList found compare)[id]? with
  | some addresses =>
      obtain ⟨other,member,looked⟩ := (mapM_mem collected _).mp (get_ofList_mem filed)
      obtain ⟨given,inside,here⟩ := known other member
      cases here.symm.trans looked
      rw [if_pos member,inside]
  | none =>
      split
      · rename_i member
        obtain ⟨given,_,here⟩ := known id member
        exact (get_ofList_none filed _ ((mapM_mem collected _).mpr ⟨id,member,here⟩) rfl).elim
      · rfl

theorem consumeShuffleReply_view (env : Env) (sender : PeerId) (msg : ShuffleReply) (connection : ConnectionId)
    (limit : s.networkConfig.maxPassiveViewSize = .ok max) :
    ∃ s', s.consumeShuffleReply env sender msg connection = .ok s' ∧
      ∀ id, s'.passivePeers[id]? =
        if id ∈ env.dice.chooseMultiple .view (s.mixed msg) max then s.passivePeers[id]? else none := by
  let look : PeerId → Except TopicPanic (PeerId × HashSet Multiaddr) := fun id =>
    (expect s.passivePeers[id]? .coveredAllSources).map fun addresses => (id,addresses)
  let drawn := env.dice.chooseMultiple .view (s.mixed msg) max
  have known : ∀ id ∈ drawn, ∃ addresses, s.passivePeers[id]? = some addresses ∧ look id = .ok (id,addresses) := by
    intro id member
    obtain ⟨addresses,found⟩ := found_inside (mem_mixed ((env.dice.chooseMultiple_mem _ _ _).subset member))
    exact ⟨addresses,found,by simp [look,found,expect,Except.map]⟩
  obtain ⟨view,collected⟩ : ∃ view, drawn.mapM look = .ok view :=
    mapM_total fun id member => (known id member).elim fun addresses found => ⟨_,found.2⟩
  have filed := collected_view known collected
  let next : TopicInner := {s with passivePeers := Std.ExtTreeMap.ofList view compare}
  let rest : Except TopicPanic TopicInner :=
    if next.isActive sender then pure next else pure (next.disconnect env sender connection)
  have ran : ∀ s', rest = .ok s' → s.consumeShuffleReply env sender msg connection = .ok s' := by
    intro s' ended
    refine bind_ok.mpr ⟨max,limit,bind_ok.mpr ⟨view,(mapM_congr ?_).trans collected,ended⟩⟩
    intro id member
    obtain ⟨addresses,found,here⟩ := known id member
    rw [here,found]
  cases active : next.isActive sender with
  | true => exact ⟨next,ran next (if_pos active),filed⟩
  | false =>
      refine ⟨next.disconnect env sender connection,ran _ (if_neg (Bool.eq_false_iff.mp active)),fun id => ?_⟩
      exact (congrArg (fun o => o.passive[id]?) (disconnect_overlay env next sender connection)).trans (filed id)

def novel (s : TopicInner) (msg : ShuffleReply) : List AddressablePeer :=
  msg.peers.filter fun peer => !s.isActive peer.peerId && peer.peerId ≠ s.thisNode.peerId

def Roomy (s : TopicInner) (msg : ShuffleReply) (max : Nat) : Prop :=
  (s.passivePeers.keys ++ (s.novel msg).map AddressablePeer.peerId).dedup.length ≤ max

def Files (s : TopicInner) (peer : AddressablePeer) : Prop :=
  ∃ addresses, s.passivePeers[peer.peerId]? = some addresses ∧ ∀ addr, addr ∈ addresses ↔ addr ∈ peer.addresses

structure Learnt (s : TopicInner) (msg : ShuffleReply) (s' : TopicInner) : Prop where
  keeps : ∀ (id : PeerId) addresses, s.passivePeers[id]? = some addresses → s'.passivePeers[id]? = some addresses
  learns : ∀ peer ∈ s.novel msg, s'.Files peer

-- The pool is drawn as a whole, or it holds every peer twice and one place is short.
def Exhausted (s : TopicInner) (msg : ShuffleReply) (max : Nat) : Prop :=
  s.passivePeers.size + (s.unnamed msg).length ≤ max ∨
    (s.unnamed msg).length = s.passivePeers.size ∧ 2 * s.passivePeers.size = max + 1

structure Redundant (s : TopicInner) (msg : ShuffleReply) (max : Nat) : Prop where
  known : ∀ peer ∈ s.novel msg, s.Files peer
  exhausted : s.Exhausted msg max

theorem everyone_drawn (exhausted : s.Exhausted msg max) (inside : id ∈ s.passivePeers) :
    id ∈ env.dice.chooseMultiple .view (s.mixed msg) max := by
  refine Sampling.mem_drawn (env.dice.chooseMultiple_mem _ _ _) ?_
  have length := env.dice.chooseMultiple_length .view (s.mixed msg) max
  have count := count_mixed msg inside
  have pool := mixed_length s msg
  rcases exhausted with room | ⟨all,odd⟩
  · omega
  · have twice := count_unnamed (unnamed_whole all inside)
    omega

theorem someone_spared (partly : ¬s.Exhausted msg max) :
    ∃ id, id ∈ s.passivePeers ∧ id ∉ (Dice.sparing id).chooseMultiple .view (s.mixed msg) max := by
  have pool := mixed_length s msg
  have short := unnamed_length s msg
  unfold Exhausted at partly
  have spared : ∀ id, id ∈ s.passivePeers → max + (1 + (s.unnamed msg).count id) ≤ (s.mixed msg).length →
      ∃ id, id ∈ s.passivePeers ∧ id ∉ (Dice.sparing id).chooseMultiple .view (s.mixed msg) max := by
    intro id inside few
    rw [← count_mixed msg inside] at few
    exact ⟨id,inside,Sampling.not_mem_sparing few⟩
  by_cases all : (s.unnamed msg).length = s.passivePeers.size
  · obtain ⟨id,member⟩ : ∃ id, id ∈ s.unnamed msg := List.exists_mem_of_length_pos (by omega)
    refine spared id (mem_keys.mp (List.mem_filter.mp member).1) ?_
    rw [count_unnamed member]
    omega
  · obtain ⟨id,inside,named⟩ := exists_named all
    refine spared id inside ?_
    rw [List.count_eq_zero_of_not_mem named]
    omega

-- A reply adds nobody to the view, and may have somebody dropped even where
-- there is room for all.
theorem reply_learnt_iff (s : TopicInner) (sender : PeerId) (msg : ShuffleReply) (connection : ConnectionId)
    (limit : s.networkConfig.maxPassiveViewSize = .ok max) :
    (Roomy s msg max → ∀ env, ∃ s', s.consumeShuffleReply env sender msg connection = .ok s' ∧ Learnt s msg s') ↔
      (Roomy s msg max → Redundant s msg max) := by
  refine imp_congr_right fun _ => ⟨fun learnt => ⟨?_,?_⟩,fun redundant env => ?_⟩
  · intro peer novel
    obtain ⟨s',consumed,_,learns⟩ := learnt ⟨0,.first⟩
    obtain ⟨next,ran,view⟩ := consumeShuffleReply_view ⟨0,.first⟩ sender msg connection limit
    cases consumed.symm.trans ran
    obtain ⟨addresses,found,same⟩ := learns peer novel
    rw [view] at found
    split at found
    · exact ⟨addresses,found,same⟩
    · cases found
  · by_contra partly
    obtain ⟨id,inside,spared⟩ := someone_spared partly
    obtain ⟨s',consumed,keeps,_⟩ := learnt ⟨0,.sparing id⟩
    obtain ⟨next,ran,view⟩ := consumeShuffleReply_view ⟨0,.sparing id⟩ sender msg connection limit
    cases consumed.symm.trans ran
    obtain ⟨addresses,found⟩ := found_inside inside
    have kept := keeps id addresses found
    rw [view,if_neg spared] at kept
    cases kept
  · obtain ⟨s',ran,view⟩ := consumeShuffleReply_view env sender msg connection limit
    have kept : ∀ (id : PeerId) addresses, s.passivePeers[id]? = some addresses →
        s'.passivePeers[id]? = some addresses := by
      intro id addresses found
      have inside : id ∈ s.passivePeers := Std.ExtTreeMap.mem_iff_isSome_getElem?.mpr (by rw [found]; rfl)
      rw [view,if_pos (everyone_drawn redundant.exhausted inside),found]
    refine ⟨s',ran,kept,fun peer novel => ?_⟩
    obtain ⟨addresses,found,same⟩ := redundant.known peer novel
    exact ⟨addresses,kept _ _ found,same⟩

def informed : TopicInner :=
  {TopicExample.topic with
    passivePeers := (∅ : HashMap _ _).insert (TopicExample.peer 2).peerId (TopicExample.peer 2).addresses}

theorem known_peer_kept : (informed.novel ⟨[TopicExample.peer 2]⟩).length = 1 ∧
    ∀ env, ∃ s', informed.consumeShuffleReply env (TopicExample.peer 1).peerId ⟨[TopicExample.peer 2]⟩ 1 = .ok s' ∧
      Learnt informed ⟨[TopicExample.peer 2]⟩ s' := by
  have limit : informed.networkConfig.maxPassiveViewSize = .ok 48 := rfl
  have roomy : Roomy informed ⟨[TopicExample.peer 2]⟩ 48 := by
    unfold Roomy
    decide
  refine ⟨by decide,(reply_learnt_iff informed _ ⟨[TopicExample.peer 2]⟩ 1 limit).mpr (fun _ => ⟨?_,?_⟩) roomy⟩
  · intro peer novel
    obtain rfl := List.mem_singleton.mp (List.mem_filter.mp novel).1
    exact ⟨_,by simp [informed],fun _ => Iff.rfl⟩
  · exact .inl (by decide)

theorem new_peer_not_learnt : ∃ s, Reached (fun _ _ _ => True) TopicExample.topic s ∧
    s.networkConfig.maxPassiveViewSize = .ok 48 ∧ Roomy s ⟨[TopicExample.peer 2]⟩ 48 ∧
    ¬∃ s', s.consumeShuffleReply TopicExample.env (TopicExample.peer 1).peerId ⟨[TopicExample.peer 2]⟩ 1 = .ok s' ∧
      Learnt s ⟨[TopicExample.peer 2]⟩ s' := by
  obtain ⟨s,reached,holds⟩ := run_reaches (fun _ _ _ => True) TopicExample.topic
    [TopicExample.receives 1 (.neighbour ⟨TopicExample.peer 1,true⟩)]
    (fun s => s.networkConfig.maxPassiveViewSize.toOption = some 48 && (s.passivePeers.isEmpty &&
      s.novel ⟨[TopicExample.peer 2]⟩ = [TopicExample.peer 2]))
    (fun _ _ _ => trivial) (by decide)
  obtain ⟨size,holds⟩ := Bool.and_eq_true_iff.mp holds
  obtain ⟨empty,novel⟩ := Bool.and_eq_true_iff.mp holds
  have novel := of_decide_eq_true novel
  have none : s.passivePeers = ∅ := Std.ExtTreeMap.isEmpty_iff.mp empty
  have limit : s.networkConfig.maxPassiveViewSize = .ok 48 := by
    cases given : s.networkConfig.maxPassiveViewSize with
    | ok max =>
        rw [given] at size
        exact congrArg _ (Option.some.inj (of_decide_eq_true size))
    | error panic =>
        rw [given] at size
        cases size
  refine ⟨s,reached,limit,?_,?_⟩
  · unfold Roomy
    rw [novel,none]
    decide
  · intro given
    obtain ⟨s',consumed,_,learns⟩ := given
    obtain ⟨next,ran,view⟩ := consumeShuffleReply_view TopicExample.env _ ⟨[TopicExample.peer 2]⟩ 1 limit
    cases consumed.symm.trans ran
    obtain ⟨addresses,found,_⟩ := learns (TopicExample.peer 2) (by rw [novel]; simp)
    rw [view,none] at found
    simp at found

end TopicInner
end AnomaAlpha
