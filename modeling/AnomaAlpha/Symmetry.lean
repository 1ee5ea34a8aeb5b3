import AnomaAlpha.Simulation

namespace AnomaAlpha
open Fallible OrderedMap Linking

namespace World
variable {name : TopicName} {hash : Message → Multihash} {w w' : World} {x y : PeerId} {c : ConnectionId}

theorem start_here {configs : BTreeMap PeerId NetworkConfig} {s : Site} (here : (start configs)[x]? = some s) :
    ∃ config, s = ⟨.new config x,0,∅⟩ := by
  unfold start at here
  rw [Std.ExtTreeMap.getElem?_map] at here
  obtain ⟨config,_,rfl⟩ := Option.map_eq_some_iff.mp here
  exact ⟨config,rfl⟩

theorem start_blank (configs : BTreeMap PeerId NetworkConfig) (x : PeerId) : (view name (start configs) x).Blank := by
  cases here : (start configs)[x]? with
  | none =>
      unfold view
      rw [here]
      exact ⟨fun _ => rfl,rfl,rfl,fun _ => rfl⟩
  | some s =>
      rw [view_here here]
      obtain ⟨config,rfl⟩ := start_here here
      refine ⟨fun y => ?_,rfl,rfl,fun c => ?_⟩
      · change linkOf (∅,[]) name y = none
        simp [linkOf]
      · change (∅ : HashMap ConnectionId Link)[c]?.map Link.side = none
        simp

theorem start_sane (configs : BTreeMap PeerId NetworkConfig) : (start configs).Sane name hash := by
  intro x s here
  obtain ⟨config,rfl⟩ := start_here here
  refine ⟨?_,Nat.zero_le _,config,[],[],_,.nil,rfl,rfl,fun c _ => rfl,?_⟩
  · intro other inside
    simp [Network.new] at inside
  · intro c link held
    simp at held

theorem run_steps {happenings : List Happening} (sound : Sound (w.view name)) (sane : w.Sane name hash)
    (smooth : w.allSmooth hash name happenings = true) (ran : w.run hash name happenings = some w') :
    Sound (w'.view name) := by
  induction happenings generalizing w with
  | nil =>
      cases ran
      exact sound
  | cons happening later ih =>
      obtain ⟨middle,moved,rest⟩ := Option.bind_eq_some_iff.mp ran
      obtain ⟨here,there⟩ := Bool.and_eq_true_iff.mp smooth
      rw [moved] at there
      obtain ⟨steps,kept⟩ := move_steps sound sane here moved
      exact ih (steps_sound steps sound) kept there rest

theorem linked_iff : w.linked name x y = true ↔ ∃ c, (w.view name x).active y = some c := by
  unfold linked
  cases here : w[x]? with
  | none =>
      unfold view
      rw [here]
      simp
  | some s =>
      rw [view_here here,Option.any_some]
      change (s.net.topics[name]?.any fun topic => topic.isActive y) = true ↔ ∃ c, linkOf s.net.inside name y = some c
      simp only [linkOf_iff]
      change _ ↔ ∃ c topic, s.net.topics[name]? = some topic ∧ topic.Linked y c
      cases found : s.net.topics[name]? with
      | none => simp
      | some topic =>
          rw [Option.any_some]
          constructor
          · intro active
            obtain ⟨c,linked⟩ := TopicInner.isActive_linked active
            exact ⟨c,topic,rfl,linked⟩
          · intro given
            obtain ⟨c,same,equal,linked⟩ := given
            cases equal
            exact TopicInner.linked_active linked

theorem resting_here {s : Site} (rest : w.resting = true) (here : w[x]? = some s) : s.net.commands = [] ∧
    s.handled = s.net.runloop.length ∧
    ∀ (c : ConnectionId) (link : Link), s.ends[c]? = some link → w.settled link = true := by
  unfold resting at rest
  have each := List.all_eq_true.mp rest (x,s) (Std.ExtTreeMap.mem_toList_iff_getElem?_eq_some.mpr here)
  simp only [Bool.and_eq_true,List.isEmpty_iff,beq_iff_eq,List.all_eq_true] at each
  obtain ⟨⟨quiet,done⟩,ends⟩ := each
  exact ⟨quiet,done,fun c link held => ends (c,link) (Std.ExtTreeMap.mem_toList_iff_getElem?_eq_some.mpr held)⟩

theorem resting_rest (rest : w.resting = true) : Rest (w.view name) := by
  have empty : ∀ x, (w.view name x).channel = [] ∧ (w.view name x).out = [] := by
    intro x
    cases here : w[x]? with
    | none =>
        unfold view
        rw [here]
        exact ⟨rfl,rfl⟩
    | some s =>
        obtain ⟨quiet,done,_⟩ := resting_here rest here
        rw [view_here here]
        constructor
        · change s.net.commands.map Command.item = []
          rw [quiet]
          rfl
        · change (s.net.runloop.drop s.handled).map RunloopCommand.ask = []
          rw [done,List.drop_length]
          rfl
  have ended : ∀ {x c side}, (w.view name x).sides c = some side → ∃ link, w.endAt x c = some link ∧ side = link.side ∧
      w.settled link = true := by
    intro x c side found
    rw [view_side] at found
    obtain ⟨link,held,rfl⟩ := Option.map_eq_some_iff.mp found
    obtain ⟨s,here,inside⟩ := Option.bind_eq_some_iff.mp held
    exact ⟨link,held,rfl,(resting_here rest here).2.2 c link inside⟩
  refine ⟨fun x => (empty x).1,fun x => (empty x).2,?_,?_⟩
  · intro x c side found alive
    obtain ⟨link,_,rfl,settled⟩ := ended found
    have alive : link.closed = false := alive
    have carried : link.wire = [] := by
      simp only [World.settled,alive,Bool.false_or,Bool.and_eq_true,List.isEmpty_iff] at settled
      exact settled.2.1.1
    change link.wire.map Message.parcel = []
    rw [carried]
    rfl
  · intro x c side far found there down
    obtain ⟨link,_,rfl,settled⟩ := ended found
    obtain ⟨beyond,held,rfl,_⟩ := ended there
    change link.closed = true
    cases alive : link.closed with
    | true => rfl
    | false =>
        change w.endAt link.peer link.remote = some beyond at held
        simp only [World.settled,alive,Bool.false_or,Bool.and_eq_true,held,Option.all_some] at settled
        rcases down with down | down
        · change link.up = false at down
          rw [settled.2.1.2] at down
          cases down
        · change beyond.up = false at down
          rw [settled.2.2] at down
          cases down

-- A run without a hitch leaves every link with two ends.
theorem links_symmetric (hash : Message → Multihash) (name : TopicName) (configs : BTreeMap PeerId NetworkConfig)
    (happenings : List Happening) (smooth : (start configs).allSmooth hash name happenings = true)
    (ran : (start configs).run hash name happenings = some w) (rest : w.resting = true) (x y : PeerId) :
    w.linked name x y = true ↔ w.linked name y x = true := by
  have sound := run_steps (blank_sound (start_blank configs)) (start_sane configs) smooth ran
  rw [linked_iff,linked_iff]
  exact rest_symmetric sound (resting_rest rest) x y

end World

-- Node `q` bootstraps from `p`.
namespace SymmetryExample
open NetworkExample TopicExample

def p : PeerId := (peer 1).peerId
def q : PeerId := (peer 2).peerId
def begun : World := World.start (.ofList [(p,config),(q,config)] compare)
def now : Turn := .first 0
def next (x : PeerId) : Happening := .network x now .command

def joined : List Happening :=
  [.address p [.ip4 1],next p,.network p now (.join ⟨"topic",[]⟩),.address q [.ip4 2],next q,
   .network q now (.join ⟨"topic",[[.ip4 1]]⟩),next q,.runloop q,.connect q p 1 1,.establish q 1 [[.ip4 1]],next q,next q,
   .runloop q,.establish p 1 [],next p,.deliver p 1,next p,next p,next p,.runloop p,.runloop p,.close p 1,next p]

def answered : List Happening :=
  [.connect p q 2 2,.establish p 2 [[.ip4 2]],next p,next p,.runloop p,.establish q 2 [],next q,.deliver q 2,next q]

def closed : List Happening := [.close q 1,next q]
def timely : List Happening := joined ++ closed ++ answered
def late : List Happening := joined ++ answered ++ closed

end SymmetryExample

theorem bootstrap_links_both : ∃ w, SymmetryExample.begun.run NetworkExample.hash "topic" SymmetryExample.timely = some w ∧
    w.linked "topic" SymmetryExample.q SymmetryExample.p = true ∧
    w.linked "topic" SymmetryExample.p SymmetryExample.q = true := by
  have played : (SymmetryExample.begun.run NetworkExample.hash "topic" SymmetryExample.timely).any
      (fun w => w.resting && w.linked "topic" SymmetryExample.p SymmetryExample.q) = true := by decide
  obtain ⟨w,ran,outcome⟩ := (Option.any_eq_true _ _).mp played
  obtain ⟨rest,linked⟩ := Bool.and_eq_true_iff.mp outcome
  refine ⟨w,ran,?_,linked⟩
  exact (World.links_symmetric NetworkExample.hash "topic" _ SymmetryExample.timely (by decide) ran rest
    SymmetryExample.p SymmetryExample.q).mp linked

-- The closing of connection 1 takes the link over connection 2 away from `q`.
theorem late_close_unlinks_one_end :
    ∃ w, SymmetryExample.begun.run NetworkExample.hash "topic" SymmetryExample.late = some w ∧ w.resting = true ∧
      w.linked "topic" SymmetryExample.p SymmetryExample.q = true ∧
      w.linked "topic" SymmetryExample.q SymmetryExample.p = false := by
  have played : (SymmetryExample.begun.run NetworkExample.hash "topic" SymmetryExample.late).any
      (fun w => w.resting && (w.linked "topic" SymmetryExample.p SymmetryExample.q &&
        !w.linked "topic" SymmetryExample.q SymmetryExample.p)) = true := by decide
  obtain ⟨w,ran,outcome⟩ := (Option.any_eq_true _ _).mp played
  obtain ⟨rest,ends⟩ := Bool.and_eq_true_iff.mp outcome
  obtain ⟨here,there⟩ := Bool.and_eq_true_iff.mp ends
  exact ⟨w,ran,rest,here,Bool.not_eq_true' _ ▸ there⟩

end AnomaAlpha
