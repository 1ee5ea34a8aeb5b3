import Mathlib.Logic.Function.Basic
import Mathlib.Logic.Relation

-- Nodes that link to each other over connections of which there may be several
-- between two of them. A link is entered by its two ends at different times.
namespace AnomaAlpha.Linking

variable {P C : Type}

inductive Parcel where
  | offer
  | other

inductive Ask (P C : Type) where
  | send (peer : P) (side : C) (parcel : Parcel)
  | cut (peer : P) (side : C)
  | ban (peer : P)
  | other

inductive Notice (P C : Type) where
  | opened (peer : P) (side : C)
  | arrived (peer : P) (side : C) (parcel : Parcel)
  | closed (peer : P) (side : C)
  | other

inductive Item (P C : Type) where
  | ask (ask : Ask P C)
  | notice (notice : Notice P C)

def Notice.about : Notice P C → Option (P × C)
  | .opened peer side => some (peer,side)
  | .arrived peer side _ => some (peer,side)
  | .closed peer side => some (peer,side)
  | .other => none

-- One side of a connection: `wire` is on its way to this side, and nothing comes
-- after the node was told that it is closed.
structure Side (P C : Type) where
  peer : P
  remote : C
  up : Bool
  closed : Bool
  wire : List Parcel

-- What waits in the channel of a node is an ask of its own or a notice for it.
structure Node (P C : Type) where
  active : P → Option C
  bound : P → C → Prop
  channel : List (Item P C)
  out : List (Ask P C)
  sides : C → Option (Side P C)

abbrev Net (P C : Type) := P → Node P C

def Node.asked (node : Node P C) (ask : Ask P C) : Prop := .ask ask ∈ node.channel ∨ ask ∈ node.out

def Hears (taken : Option (Item P C)) (y : P) (c : C) : Prop :=
  taken = some (.notice (.opened y c)) ∨ ∃ parcel, taken = some (.notice (.arrived y c parcel))

-- What a node may do on its own: it takes one item from its channel or none. A
-- link is entered with an offer, or when one arrives; an offer that is not
-- accepted is refused.
structure Act (taken : Option (Item P C)) (sent issued : List (Ask P C)) (b a : Node P C) : Prop where
  channel : ∃ rest, b.channel = taken.toList ++ rest ∧ a.channel = rest ++ sent.map .ask
  out : a.out = b.out ++ issued
  sides : a.sides = b.sides
  passes : ∀ ask, taken = some (.ask ask) → ask ≠ .other → ask ∈ issued
  relays : ∀ y c, .send y c .offer ∈ issued → taken = some (.ask (.send y c .offer))
  offers : ∀ y c, .send y c .offer ∈ sent → a.active y = some c ∨ Hears taken y c ∧ .ban y ∈ sent
  keeps : ∀ y c, b.active y = some c →
    a.active y = some c ∨ taken = some (.notice (.closed y c)) ∨ .ban y ∈ sent
  gains : ∀ y c, a.active y = some c → b.active y = some c ∨
    a.bound y c ∧ Hears taken y c ∧ (.send y c .offer ∈ sent ∨ taken = some (.notice (.arrived y c .offer)))
  accepts : ∀ y c, taken = some (.notice (.arrived y c .offer)) →
    a.active y = some c ∨ .ban y ∈ sent ++ issued ∨ .cut y c ∈ sent ++ issued
  holds : ∀ y c, b.bound y c → a.bound y c ∨ taken = some (.notice (.closed y c))
  drops : ∀ y c, taken = some (.notice (.closed y c)) → b.bound y c → a.active y ≠ some c

inductive Tells (c : C) : Side P C → Side P C → Notice P C → Prop where
  | opened : side.closed = false → Tells c side side (.opened side.peer c)
  | arrived : side.closed = false → side.wire = parcel :: rest →
      Tells c side {side with wire := rest} (.arrived side.peer c parcel)
  | closed : side.closed = false → Tells c side {side with up := false, closed := true, wire := []} (.closed side.peer c)

def Done (n : Net P C) (x : P) : Ask P C → Prop
  | .send y c .offer => ∀ side, (n x).sides c = some side → side.peer = y →
      side.closed = true ∨ ∃ far, (n y).sides side.remote = some far ∧ .offer ∈ far.wire
  | .cut y c => ∀ side, (n x).sides c = some side → side.peer = y → side.up = false
  | .ban y => ∀ c side, (n x).sides c = some side → side.peer = y → side.up = false
  | _ => True

section
variable [DecidableEq C]

def Node.put (node : Node P C) (c : C) (side : Side P C) : Node P C :=
  {node with sides := Function.update node.sides c (some side)}

def Node.tell (node : Node P C) (notice : Notice P C) : Node P C :=
  {node with channel := node.channel ++ [.notice notice]}

def Node.sever (node : Node P C) (which : C → P → Bool) : Node P C :=
  {node with sides := fun c => (node.sides c).map fun side => {side with up := side.up && !which c side.peer}}

variable [DecidableEq P]

inductive Step : Net P C → Net P C → Prop where
  | act (x : P) : Act taken sent issued (n x) node → Step n (Function.update n x node)
  | sever (x : P) (which : C → P → Bool) : Step n (Function.update n x ((n x).sever which))
  | post (x y : P) : (n x).out = .send y c parcel :: rest → (n x).sides c = some side → side.peer = y →
      (n y).sides side.remote = some far →
      Step n (Function.update n y ((n y).put side.remote {far with wire := far.wire ++ [parcel]}))
  | done (x : P) : (n x).out = ask :: rest → Done n x ask → Step n (Function.update n x {n x with out := rest})
  | connect (x y : P) (c d : C) : x ≠ y → (n x).sides c = none → (n y).sides d = none →
      Step n (Function.update (Function.update n x ((n x).put c ⟨y,d,true,false,[]⟩)) y
        ((n y).put d ⟨x,c,true,false,[]⟩))
  | tell (x : P) : (n x).sides c = some before → Tells c before after notice →
      Step n (Function.update n x (((n x).put c after).tell notice))
  | news (x : P) : Step n (Function.update n x ((n x).tell .other))

end

def Cut (n : Net P C) (x : P) (c : C) (side : Side P C) : Prop :=
  side.up = false ∨ (n x).asked (.cut side.peer c) ∨ (n x).asked (.ban side.peer)

def Doomed (n : Net P C) (x : P) (c : C) : Prop :=
  ∃ side, (n x).sides c = some side ∧
    (Cut n x c side ∨ ∃ far, (n side.peer).sides side.remote = some far ∧ Cut n side.peer side.remote far)

-- An offer that has arrived at a side, or is on its way there, is backed by the
-- link of its sender.
def Backed (n : Net P C) (y : P) (d : C) : Prop :=
  ∃ side, (n y).sides d = some side ∧ ((n side.peer).active y = some side.remote ∨ Doomed n y d)

def Offered (n : Net P C) (x : P) (c : C) (side : Side P C) : Prop :=
  (n x).asked (.send side.peer c .offer) ∨
    (∃ far, (n side.peer).sides side.remote = some far ∧ .offer ∈ far.wire) ∨
    .notice (.arrived x side.remote .offer) ∈ (n side.peer).channel

def Paired (n : Net P C) : Prop := ∀ x c side, (n x).sides c = some side → side.peer ≠ x ∧
  ∃ far, (n side.peer).sides side.remote = some far ∧ far.peer = x ∧ far.remote = c

-- The channel of a node holds nothing about a side after its closing.
structure Node.Orderly (node : Node P C) : Prop where
  closed : ∀ c side, node.sides c = some side → side.closed = true → side.up = false
  told : ∀ notice y c, .notice notice ∈ node.channel → notice.about = some (y,c) →
    ∃ side, node.sides c = some side ∧ side.peer = y ∧ (side.closed = true ↔ .notice (.closed y c) ∈ node.channel)
  last : node.channel.Pairwise fun first second => ∀ y c notice,
    first = .notice (.closed y c) → second = .notice notice → notice.about ≠ some (y,c)

structure Sound (n : Net P C) : Prop where
  paired : Paired n
  orderly : ∀ x, (n x).Orderly
  sends : ∀ x y c, (n x).asked (.send y c .offer) →
    ∃ side, (n x).sides c = some side ∧ side.peer = y ∧ Backed n y side.remote
  wires : ∀ y d side, (n y).sides d = some side → .offer ∈ side.wire → Backed n y d
  arrivals : ∀ x y d, .notice (.arrived x d .offer) ∈ (n y).channel → Backed n y d
  links : ∀ x y c, (n x).active y = some c → (n x).bound y c ∧
    ∃ side, (n x).sides c = some side ∧ side.peer = y ∧
      (side.closed = true → .notice (.closed y c) ∈ (n x).channel) ∧
      ((n y).active x = some side.remote ∨ Offered n x c side ∨ Doomed n x c)

variable {n n' : Net P C} {x y : P} {c d : C} {side far : Side P C}

theorem done_of_sides (same : ∀ z, (n' z).sides = (n z).sides) {ask : Ask P C} (done : Done n x ask) : Done n' x ask := by
  cases ask with
  | send y c parcel =>
      cases parcel with
      | offer => simpa only [Done,same] using done
      | other => trivial
  | cut y c => simpa only [Done,same] using done
  | ban y => simpa only [Done,same] using done
  | other => trivial

theorem doomed_far (paired : Paired n) (here : (n x).sides c = some side) (doomed : Doomed n x c) :
    Doomed n side.peer side.remote := by
  obtain ⟨_,far,there,peer,remote⟩ := paired x c side here
  obtain ⟨same,found,cut⟩ := doomed
  cases Option.some.inj (here.symm.trans found)
  refine ⟨far,there,?_⟩
  rcases cut with cut | ⟨beyond,found,cut⟩
  · refine .inr ⟨side,?_⟩
    rw [peer,remote]
    exact ⟨here,cut⟩
  · cases Option.some.inj (there.symm.trans found)
    exact .inl cut

-- What becomes of a side: an offer on its wire goes to the channel of the node,
-- or gets lost when the side goes down.
structure Later (a : Node P C) (c : C) (side later : Side P C) : Prop where
  peer : later.peer = side.peer
  remote : later.remote = side.remote
  down : side.up = false → later.up = false
  wire : .offer ∈ side.wire →
    .offer ∈ later.wire ∨ later.up = false ∨ .notice (.arrived side.peer c .offer) ∈ a.channel
  shut : later.closed = true → side.closed = true ∨ .notice (.closed side.peer c) ∈ a.channel

def Node.Ages (b a : Node P C) : Prop :=
  ∀ c side, b.sides c = some side → ∃ later, a.sides c = some later ∧ Later a c side later

theorem Later.refl (a : Node P C) (c : C) (side : Side P C) : Later a c side side := ⟨rfl,rfl,id,.inl,.inl⟩

theorem ages_of_sides {b a : Node P C} (same : a.sides = b.sides) : b.Ages a := by
  intro c side here
  exact ⟨side,same ▸ here,.refl a c side⟩

theorem Node.Orderly.of_sides {b a : Node P C} (orderly : b.Orderly) (same : a.channel = b.channel)
    (closed : ∀ c side, a.sides c = some side → side.closed = true → side.up = false)
    (kept : ∀ c side, b.sides c = some side →
      ∃ later, a.sides c = some later ∧ later.peer = side.peer ∧ later.closed = side.closed) : a.Orderly := by
  refine ⟨closed,?_,same ▸ orderly.last⟩
  intro notice y c queued about
  rw [same] at queued ⊢
  obtain ⟨side,here,peer,shut⟩ := orderly.told notice y c queued about
  obtain ⟨later,now,samePeer,sameClosed⟩ := kept c side here
  exact ⟨later,now,samePeer.trans peer,sameClosed ▸ shut⟩

theorem mem_asks {notice : Notice P C} {rest : List (Item P C)} {sent : List (Ask P C)} :
    .notice notice ∈ rest ++ sent.map .ask ↔ .notice notice ∈ rest := by simp

theorem Act.closes (acted : Act taken sent issued b a) (orderly : b.Orderly) (queued : .notice notice ∈ a.channel)
    (about : notice.about = some (y,c)) : .notice (.closed y c) ∈ b.channel ↔ .notice (.closed y c) ∈ a.channel := by
  obtain ⟨rest,before,after⟩ := acted.channel
  have last := orderly.last
  rw [before] at last ⊢
  rw [after,mem_asks] at queued ⊢
  rw [List.mem_append,Option.mem_toList]
  refine ⟨?_,.inr⟩
  intro given
  rcases given with rfl | waits
  · exact ((List.pairwise_cons.mp last).1 _ queued y c notice rfl rfl about).elim
  · exact waits

theorem Act.orderly (acted : Act taken sent issued b a) (orderly : b.Orderly) : a.Orderly := by
  obtain ⟨rest,before,after⟩ := acted.channel
  refine ⟨acted.sides ▸ orderly.closed,?_,?_⟩
  · intro notice y c queued about
    rw [acted.sides,← acted.closes orderly queued about]
    rw [after,mem_asks] at queued
    exact orderly.told notice y c (before ▸ List.mem_append_right _ queued) about
  · have last := orderly.last
    rw [before] at last
    rw [after,List.pairwise_append]
    refine ⟨(List.pairwise_append.mp last).2.1,?_,?_⟩
    · exact List.pairwise_map.mpr (List.pairwise_of_forall fun _ _ _ _ _ equal => by cases equal)
    · intro first _ second asked y c notice _ equal
      obtain ⟨ask,_,rfl⟩ := List.mem_map.mp asked
      cases equal

theorem Act.taken_mem (acted : Act (some item) sent issued b a) : item ∈ b.channel := by
  obtain ⟨rest,before,_⟩ := acted.channel
  rw [before]
  exact List.mem_append_left _ (List.mem_singleton.mpr rfl)

theorem Act.waits (acted : Act taken sent issued b a) (waits : item ∈ b.channel) :
    taken = some item ∨ item ∈ a.channel := by
  obtain ⟨rest,before,after⟩ := acted.channel
  rw [before,List.mem_append,Option.mem_toList] at waits
  exact waits.imp_right fun waits => after ▸ List.mem_append_left _ waits

theorem Act.sent_asked (acted : Act taken sent issued b a) (asked : ask ∈ sent) : a.asked ask := by
  obtain ⟨rest,_,after⟩ := acted.channel
  exact .inl (after ▸ List.mem_append_right _ (List.mem_map_of_mem asked))

theorem Act.issued_asked (acted : Act taken sent issued b a) (asked : ask ∈ issued) : a.asked ask :=
  .inr (acted.out ▸ List.mem_append_right _ asked)

theorem Act.given_asked (acted : Act taken sent issued b a) (asked : ask ∈ sent ++ issued) : a.asked ask :=
  (List.mem_append.mp asked).elim acted.sent_asked acted.issued_asked

theorem heard_about {taken : Option (Item P C)} (heard : Hears taken y c) :
    ∃ notice, taken = some (.notice notice) ∧ notice.about = some (y,c) := by
  rcases heard with rfl | ⟨parcel,rfl⟩
  · exact ⟨_,rfl,rfl⟩
  · exact ⟨_,rfl,rfl⟩

-- What a node finds changed when it did not act itself.
structure Node.Served (b a : Node P C) : Prop where
  active : a.active = b.active
  bound : a.bound = b.bound
  waits : ∀ item ∈ b.channel, item ∈ a.channel
  asks : ∀ ask, .ask ask ∈ a.channel → .ask ask ∈ b.channel
  out : ∀ ask ∈ a.out, ask ∈ b.out

theorem Node.Served.refl (node : Node P C) : node.Served node := ⟨rfl,rfl,fun _ => id,fun _ => id,fun _ => id⟩

theorem Node.Served.tell {b a : Node P C} {notice : Notice P C} (served : b.Served a) : b.Served (a.tell notice) := by
  refine ⟨served.active,served.bound,fun item waits => List.mem_append_left _ (served.waits item waits),?_,served.out⟩
  intro ask queued
  rcases List.mem_append.mp queued with waits | new
  · exact served.asks ask waits
  · cases List.mem_singleton.mp new

structure Tells.Facts (c : C) (before after : Side P C) (notice : Notice P C) : Prop where
  peer : after.peer = before.peer
  alive : before.closed = false
  about : notice.about = some (before.peer,c)
  shut : after.closed = true ↔ notice = .closed before.peer c
  down : after.closed = true → after.up = false

theorem Tells.facts (tells : Tells c before after notice) : Tells.Facts c before after notice := by
  cases tells with
  | opened up => exact ⟨rfl,up,rfl,by simp [up],by simp [up]⟩
  | arrived up _ => exact ⟨rfl,up,rfl,by simp [up],by simp [up]⟩
  | closed up => exact ⟨rfl,up,rfl,by simp,by simp⟩

theorem Node.Orderly.open (orderly : Node.Orderly node) (here : node.sides c = some side) (up : side.closed = false) :
    .notice (.closed side.peer c) ∉ node.channel := by
  intro queued
  obtain ⟨same,found,_,shut⟩ := orderly.told _ side.peer c queued rfl
  cases Option.some.inj (here.symm.trans found)
  rw [shut.mpr queued] at up
  cases up

theorem sever_orderly {node : Node P C} (orderly : node.Orderly) (which : C → P → Bool) : (node.sever which).Orderly := by
  refine orderly.of_sides rfl ?_ ?_
  · intro c side found shut
    obtain ⟨before,here,rfl⟩ := Option.map_eq_some_iff.mp found
    dsimp only at shut ⊢
    rw [orderly.closed c before here shut,Bool.false_and]
  · intro c side here
    exact ⟨_,congrArg (Option.map _) here,rfl,rfl⟩

theorem news_orderly {node : Node P C} (orderly : node.Orderly) : (node.tell .other).Orderly := by
  refine ⟨orderly.closed,?_,?_⟩
  · intro notice y c queued about
    change Item.notice notice ∈ node.channel ++ [.notice .other] at queued
    rcases List.mem_append.mp queued with waits | new
    · obtain ⟨side,here,peer,shut⟩ := orderly.told notice y c waits about
      refine ⟨side,here,peer,shut.trans ?_⟩
      change _ ↔ Item.notice (.closed y c) ∈ node.channel ++ [.notice .other]
      simp
    · cases List.mem_singleton.mp new
      cases about
  · change (node.channel ++ [Item.notice .other]).Pairwise _
    rw [List.pairwise_append]
    refine ⟨orderly.last,List.pairwise_singleton ..,?_⟩
    intro first _ second new y c notice _ equal about
    cases List.mem_singleton.mp new
    cases equal
    cases about

section
variable [DecidableEq C]

theorem put_sides (node : Node P C) (c : C) (later : Side P C) (d : C) :
    (node.put c later).sides d = if d = c then some later else node.sides d := Function.update_apply ..

theorem put_ages {node a : Node P C} {later : Side P C} (sides : a.sides = (node.put c later).sides)
    (fits : ∀ side, node.sides c = some side → Later a c side later) : node.Ages a := by
  intro d side here
  rw [sides,put_sides]
  split
  · rename_i same
    cases same
    exact ⟨later,rfl,fits side here⟩
  · exact ⟨side,here,.refl a d side⟩

theorem put_absent {node : Node P C} {later : Side P C} (here : node.sides c = some side)
    (absent : node.sides d = none) : (node.put c later).sides d = none := by
  rw [put_sides,if_neg,absent]
  intro same
  subst same
  cases here.symm.trans absent

theorem Tells.orderly {node : Node P C} (orderly : node.Orderly) (here : node.sides c = some before)
    (tells : Tells c before after notice) : ((node.put c after).tell notice).Orderly := by
  have facts := tells.facts
  have still := orderly.open here facts.alive
  refine ⟨?_,?_,?_⟩
  · intro d side found shut
    change (node.put c after).sides d = some side at found
    rw [put_sides] at found
    split at found
    · cases found
      exact facts.down shut
    · exact orderly.closed d side found shut
  · intro given y d queued about
    change Item.notice given ∈ node.channel ++ [.notice notice] at queued
    change ∃ side, (node.put c after).sides d = some side ∧ side.peer = y ∧
      (side.closed = true ↔ Item.notice (.closed y d) ∈ node.channel ++ [.notice notice])
    rw [put_sides,List.mem_append,List.mem_singleton]
    by_cases same : d = c
    · cases same
      have sender : y = before.peer := by
        rcases List.mem_append.mp queued with waits | new
        · obtain ⟨side,found,peer,_⟩ := orderly.told given y c waits about
          cases Option.some.inj (here.symm.trans found)
          exact peer.symm
        · cases List.mem_singleton.mp new
          exact congrArg Prod.fst (Option.some.inj (about.symm.trans facts.about))
      cases sender
      refine ⟨after,if_pos rfl,facts.peer,facts.shut.trans ?_⟩
      constructor
      · intro same
        subst same
        exact .inr rfl
      · intro given
        rcases given with waits | new
        · exact (still waits).elim
        · exact (Item.notice.inj new).symm
    · rw [if_neg same]
      have elsewhere : notice.about ≠ some (y,d) := by
        rw [facts.about]
        intro equal
        cases equal
        exact same rfl
      have waits : Item.notice given ∈ node.channel := by
        rcases List.mem_append.mp queued with waits | new
        · exact waits
        · cases List.mem_singleton.mp new
          exact (elsewhere about).elim
      obtain ⟨side,found,peer,shut⟩ := orderly.told given y d waits about
      refine ⟨side,found,peer,shut.trans ⟨.inl,?_⟩⟩
      intro given
      rcases given with waits | new
      · exact waits
      · cases new
        exact (elsewhere rfl).elim
  · change (node.channel ++ [Item.notice notice]).Pairwise _
    rw [List.pairwise_append]
    refine ⟨orderly.last,List.pairwise_singleton ..,?_⟩
    intro first queued second new y d given closing equal about
    cases List.mem_singleton.mp new
    cases equal
    cases closing
    cases facts.about.symm.trans about
    exact still queued

theorem put_orderly {node : Node P C} {later : Side P C} (orderly : node.Orderly)
    (closed : later.closed = true → later.up = false)
    (fits : ∀ side, node.sides c = some side → later.peer = side.peer ∧ later.closed = side.closed) :
    (node.put c later).Orderly := by
  refine orderly.of_sides rfl ?_ ?_
  · intro d side found
    rw [put_sides] at found
    split at found
    · cases found
      exact closed
    · exact orderly.closed d side found
  · intro d side here
    rw [put_sides]
    split
    · rename_i same
      cases same
      exact ⟨later,rfl,fits side here⟩
    · exact ⟨side,here,rfl,rfl⟩

variable [DecidableEq P]

theorem step_ages (step : Step n n') : ∀ x, (n x).Ages (n' x) := by
  have one : ∀ {x node}, (n x).Ages node → ∀ z, (n z).Ages (Function.update n x node z) := by
    intro x node aged
    exact (Function.forall_update_iff n fun z node => (n z).Ages node).mpr ⟨aged,fun _ _ => ages_of_sides rfl⟩
  cases step with
  | act _ acted => exact one (ages_of_sides acted.sides)
  | sever =>
      refine one ?_
      intro c side here
      refine ⟨_,congrArg (Option.map _) here,rfl,rfl,?_,.inl,.inl⟩
      intro down
      simp [down]
  | post _ _ _ _ _ there =>
      refine one (put_ages rfl ?_)
      intro side here
      cases Option.some.inj (there.symm.trans here)
      exact ⟨rfl,rfl,id,fun offered => .inl (List.mem_append_left _ offered),.inl⟩
  | done => exact one (ages_of_sides rfl)
  | connect _ _ _ _ _ noneX noneY =>
      refine (Function.forall_update_iff _ fun z node => (n z).Ages node).mpr
        ⟨put_ages rfl ?_,fun z _ => one (put_ages rfl ?_) z⟩
      · intro side here
        cases noneY.symm.trans here
      · intro side here
        cases noneX.symm.trans here
  | tell _ here tells =>
      refine one (put_ages rfl (fun side found => ?_))
      cases Option.some.inj (here.symm.trans found)
      cases tells with
      | opened => exact .refl ..
      | arrived _ wire =>
          refine ⟨rfl,rfl,id,?_,.inl⟩
          intro offered
          rw [wire,List.mem_cons] at offered
          rcases offered with rfl | waits
          · exact .inr (.inr (List.mem_append_right _ (List.mem_singleton.mpr rfl)))
          · exact .inl waits
      | closed =>
          exact ⟨rfl,rfl,fun _ => rfl,fun _ => .inr (.inl rfl),
            fun _ => .inr (List.mem_append_right _ (List.mem_singleton.mpr rfl))⟩
  | news => exact one (ages_of_sides rfl)

theorem step_asked (step : Step n n') {ask : Ask P C} (asked : (n x).asked ask) (some : ask ≠ .other) :
    (n' x).asked ask ∨ Done n' x ask := by
  have one : ∀ {z node}, (z = x → node.asked ask) → (Function.update n z node x).asked ask := by
    intro z node here
    by_cases same : x = z
    · cases same
      rw [Function.update_self]
      exact here rfl
    · rw [Function.update_of_ne same]
      exact asked
  cases step with
  | act _ acted =>
      refine .inl (one ?_)
      intro same
      subst same
      obtain ⟨rest,before,after⟩ := acted.channel
      rcases asked with queued | issued
      · rw [before,List.mem_append,Option.mem_toList] at queued
        rcases queued with taken | waits
        · exact .inr (acted.out ▸ List.mem_append_right _ (acted.passes ask taken some))
        · exact .inl (after ▸ List.mem_append_left _ waits)
      · exact .inr (acted.out ▸ List.mem_append_left _ issued)
  | sever => exact .inl (one fun same => by cases same; exact asked)
  | post => exact .inl (one fun same => by cases same; exact asked)
  | done z out done =>
      by_cases same : x = z
      · cases same
        rcases asked with queued | issued
        · exact .inl (one fun _ => .inl queued)
        · rw [out,List.mem_cons] at issued
          rcases issued with rfl | waits
          · refine .inr (done_of_sides (fun z => ?_) done)
            by_cases here : z = x
            · cases here
              rw [Function.update_self]
            · rw [Function.update_of_ne here]
          · exact .inl (one fun _ => .inr waits)
      · exact .inl (one fun equal => (same equal.symm).elim)
  | connect u v _ _ =>
      left
      by_cases same : x = v
      · cases same
        rw [Function.update_self]
        exact asked
      · rw [Function.update_of_ne same]
        exact one fun equal => by cases equal; exact asked
  | tell =>
      refine .inl (one fun same => ?_)
      cases same
      rcases asked with queued | issued
      · exact .inl (List.mem_append_left _ queued)
      · exact .inr issued
  | news =>
      refine .inl (one fun same => ?_)
      cases same
      rcases asked with queued | issued
      · exact .inl (List.mem_append_left _ queued)
      · exact .inr issued

theorem cut_step (step : Step n n') (here : (n x).sides c = some side) (cut : Cut n x c side) :
    ∃ later, (n' x).sides c = some later ∧ Later (n' x) c side later ∧ Cut n' x c later := by
  obtain ⟨later,now,aged⟩ := step_ages step x c side here
  refine ⟨later,now,aged,?_⟩
  unfold Cut
  rw [aged.peer]
  rcases cut with down | cut | ban
  · exact .inl (aged.down down)
  · rcases step_asked step cut nofun with asked | done
    · exact .inr (.inl asked)
    · exact .inl (done later now aged.peer)
  · rcases step_asked step ban nofun with asked | done
    · exact .inr (.inr asked)
    · exact .inl (done c later now aged.peer)

theorem doomed_step (step : Step n n') (doomed : Doomed n x c) : Doomed n' x c := by
  obtain ⟨side,here,cut | ⟨far,there,cut⟩⟩ := doomed
  · obtain ⟨later,now,_,cut⟩ := cut_step step here cut
    exact ⟨later,now,.inl cut⟩
  · obtain ⟨later,now,aged⟩ := step_ages step x c side here
    obtain ⟨beyond,then',_,cut⟩ := cut_step step there cut
    refine ⟨later,now,.inr ⟨beyond,?_⟩⟩
    rw [aged.peer,aged.remote]
    exact ⟨then',cut⟩

theorem step_fresh (step : Step n n') (absent : (n x).sides c = none) (now : (n' x).sides c = some side) :
    side.peer ≠ x ∧ side.closed = false ∧ side.wire = [] ∧
      ∃ far, (n' side.peer).sides side.remote = some far ∧ far.peer = x ∧ far.remote = c := by
  have one : ∀ {z node}, (z = x → node.sides c = none) → (Function.update n z node x).sides c ≠ some side := by
    intro z node gone found
    by_cases same : x = z
    · cases same
      rw [Function.update_self,gone rfl] at found
      cases found
    · rw [Function.update_of_ne same,absent] at found
      cases found
  cases step with
  | act z acted =>
      refine (one ?_ now).elim
      intro same
      subst same
      rw [acted.sides,absent]
  | sever z which =>
      refine (one ?_ now).elim
      intro same
      subst same
      exact congrArg (Option.map _) absent
  | post z _ out here peer there =>
      refine (one ?_ now).elim
      intro same
      subst same
      exact put_absent there absent
  | done => exact (one (fun same => by cases same; exact absent) now).elim
  | connect u v a b other noneU noneV =>
      by_cases atV : x = v
      · cases atV
        rw [Function.update_self,put_sides] at now
        split at now
        · rename_i same
          cases same
          cases now
          refine ⟨other,rfl,rfl,⟨x,c,true,false,[]⟩,?_,rfl,rfl⟩
          rw [Function.update_of_ne other,Function.update_self,put_sides,if_pos rfl]
        · cases absent.symm.trans now
      · rw [Function.update_of_ne atV,Function.update_apply] at now
        split at now
        · rename_i atU
          cases atU
          rw [put_sides] at now
          split at now
          · rename_i same
            cases same
            cases now
            refine ⟨other.symm,rfl,rfl,⟨x,c,true,false,[]⟩,?_,rfl,rfl⟩
            rw [Function.update_self,put_sides,if_pos rfl]
          · cases absent.symm.trans now
        · cases absent.symm.trans now
  | tell z here =>
      refine (one ?_ now).elim
      intro same
      subst same
      exact put_absent here absent
  | news => exact (one (fun same => by cases same; exact absent) now).elim

theorem step_paired (step : Step n n') (paired : Paired n) : Paired n' := by
  intro x c later now
  cases before : (n x).sides c with
  | some side =>
      obtain ⟨same,found,aged⟩ := step_ages step x c side before
      cases Option.some.inj (now.symm.trans found)
      obtain ⟨other,far,there,peer,remote⟩ := paired x c side before
      obtain ⟨beyond,then',kept⟩ := step_ages step side.peer side.remote far there
      rw [aged.peer,aged.remote]
      exact ⟨other,beyond,then',kept.peer.trans peer,kept.remote.trans remote⟩
  | none =>
      obtain ⟨other,_,_,far⟩ := step_fresh step before now
      exact ⟨other,far⟩

theorem step_orderly (step : Step n n') (orderly : ∀ x, (n x).Orderly) : ∀ x, (n' x).Orderly := by
  have one : ∀ {x node}, node.Orderly → ∀ z, (Function.update n x node z).Orderly := by
    intro x node changed
    exact (Function.forall_update_iff n fun _ node => node.Orderly).mpr ⟨changed,fun z _ => orderly z⟩
  cases step with
  | act x acted => exact one (acted.orderly (orderly x))
  | sever x which => exact one (sever_orderly (orderly x) which)
  | post x y out here peer there =>
      have closed := (orderly y).closed _ _ there
      refine one (put_orderly (orderly y) closed ?_)
      intro side found
      cases Option.some.inj (there.symm.trans found)
      exact ⟨rfl,rfl⟩
  | done x => exact one ((orderly x).of_sides rfl (orderly x).closed fun _ side here => ⟨side,here,rfl,rfl⟩)
  | connect x y c d other noneX noneY =>
      refine (Function.forall_update_iff _ fun _ (node : Node P C) => node.Orderly).mpr
        ⟨put_orderly (orderly y) (by simp) ?_,fun z _ => one (put_orderly (orderly x) (by simp) ?_) z⟩
      · intro side here
        cases noneY.symm.trans here
      · intro side here
        cases noneX.symm.trans here
  | tell x here tells => exact one (tells.orderly (orderly x) here)
  | news x => exact one (news_orderly (orderly x))

theorem step_node (step : Step n n') (x : P) :
    (∃ taken sent issued, Act taken sent issued (n x) (n' x)) ∨ (n x).Served (n' x) := by
  have one : ∀ {z node}, (n z).Served node → ∀ x, (n x).Served (Function.update n z node x) := by
    intro z node served
    exact (Function.forall_update_iff n fun x node => (n x).Served node).mpr ⟨served,fun z _ => .refl (n z)⟩
  cases step with
  | act z acted =>
      by_cases same : x = z
      · cases same
        rw [Function.update_self]
        exact .inl ⟨_,_,_,acted⟩
      · rw [Function.update_of_ne same]
        exact .inr (.refl (n x))
  | sever =>
      refine .inr (one ?_ x)
      exact ⟨rfl,rfl,fun _ => id,fun _ => id,fun _ => id⟩
  | post =>
      refine .inr (one ?_ x)
      exact ⟨rfl,rfl,fun _ => id,fun _ => id,fun _ => id⟩
  | done z out =>
      refine .inr (one ?_ x)
      refine ⟨rfl,rfl,fun _ => id,fun _ => id,?_⟩
      intro ask waits
      rw [out]
      exact List.mem_cons_of_mem _ waits
  | connect =>
      refine .inr ((Function.forall_update_iff _ fun z node => (n z).Served node).mpr ⟨?_,fun z _ => one ?_ z⟩ x)
      · exact ⟨rfl,rfl,fun _ => id,fun _ => id,fun _ => id⟩
      · exact ⟨rfl,rfl,fun _ => id,fun _ => id,fun _ => id⟩
  | tell =>
      refine .inr (one (.tell ?_) x)
      exact ⟨rfl,rfl,fun _ => id,fun _ => id,fun _ => id⟩
  | news => exact .inr (one (.tell (.refl _)) x)

theorem step_notice (step : Step n n') (waits : .notice notice ∈ (n y).channel) :
    .notice notice ∈ (n' y).channel ∨ ∃ sent issued, Act (some (.notice notice)) sent issued (n y) (n' y) := by
  rcases step_node step y with ⟨taken,sent,issued,acted⟩ | served
  · rcases acted.waits waits with rfl | waits
    · exact .inr ⟨sent,issued,acted⟩
    · exact .inl waits
  · exact .inl (served.waits _ waits)

theorem step_active (step : Step n n') (sound : Sound n) (linked : (n x).active y = some c) :
    (n' x).active y = some c ∨ Doomed n' x c := by
  obtain ⟨_,side,here,peer,_,_⟩ := sound.links x y c linked
  rcases step_node step x with ⟨taken,sent,issued,acted⟩ | served
  · rcases acted.keeps y c linked with stays | rfl | banned
    · exact .inl stays
    · refine .inr (doomed_step step ⟨side,here,.inl (.inl ?_)⟩)
      obtain ⟨found,there,_,shut⟩ := (sound.orderly x).told _ y c acted.taken_mem rfl
      cases Option.some.inj (here.symm.trans there)
      exact (sound.orderly x).closed c side here (shut.mpr acted.taken_mem)
    · obtain ⟨later,now,aged⟩ := step_ages step x c side here
      refine .inr ⟨later,now,.inl (.inr (.inr ?_))⟩
      rw [aged.peer,peer]
      exact acted.sent_asked banned
  · exact .inl (served.active ▸ linked)

theorem step_backed (step : Step n n') (sound : Sound n) (backed : Backed n y d) : Backed n' y d := by
  obtain ⟨side,here,backing⟩ := backed
  obtain ⟨later,now,aged⟩ := step_ages step y d side here
  refine ⟨later,now,?_⟩
  rw [aged.peer,aged.remote]
  rcases backing with linked | doomed
  · rcases step_active step sound linked with stays | doomed
    · exact .inl stays
    · obtain ⟨_,far,there,peer,remote⟩ := sound.paired y d side here
      obtain ⟨beyond,then',kept⟩ := step_ages step side.peer side.remote far there
      have near := doomed_far (step_paired step sound.paired) then' doomed
      rw [kept.peer,kept.remote,peer,remote] at near
      exact .inr near
  · exact .inr (doomed_step step doomed)

-- An offer stays on its way until the link is entered, or its connection ends.
theorem step_offered (step : Step n n') (sound : Sound n) (here : (n x).sides c = some side)
    (now : (n' x).sides c = some later) (aged : Later (n' x) c side later) (offered : Offered n x c side) :
    (n' side.peer).active x = some side.remote ∨ Offered n' x c later ∨ Doomed n' x c := by
  obtain ⟨_,far,there,peer,remote⟩ := sound.paired x c side here
  obtain ⟨beyond,then',kept⟩ := step_ages step side.peer side.remote far there
  have orderly := step_orderly step sound.orderly
  have ended : beyond.up = false → Doomed n' x c := by
    intro down
    refine ⟨later,now,.inr ⟨beyond,?_⟩⟩
    rw [aged.peer,aged.remote]
    exact ⟨then',.inl down⟩
  unfold Offered
  rw [aged.peer,aged.remote]
  rcases offered with asked | ⟨found,same,carried⟩ | waits
  · rcases step_asked step asked nofun with asked | done
    · exact .inr (.inl (.inl asked))
    · rcases done later now aged.peer with shut | ⟨found,same,carried⟩
      · exact .inr (.inr ⟨later,now,.inl (.inl ((orderly x).closed c later now shut))⟩)
      · rw [aged.remote] at same
        exact .inr (.inl (.inr (.inl ⟨found,same,carried⟩)))
  · cases Option.some.inj (there.symm.trans same)
    rcases kept.wire carried with carried | down | waits
    · exact .inr (.inl (.inr (.inl ⟨beyond,then',carried⟩)))
    · exact .inr (.inr (ended down))
    · rw [peer] at waits
      exact .inr (.inl (.inr (.inr waits)))
  · rcases step_notice step waits with waits | ⟨sent,issued,acted⟩
    · exact .inr (.inl (.inr (.inr waits)))
    · rcases acted.accepts x side.remote rfl with linked | refused
      · exact .inl linked
      · refine .inr (.inr ⟨later,now,.inr ⟨beyond,?_⟩⟩)
        unfold Cut
        rw [aged.peer,aged.remote,kept.peer,peer]
        rcases refused with banned | cut
        · exact ⟨then',.inr (.inr (acted.given_asked banned))⟩
        · exact ⟨then',.inr (.inl (acted.given_asked cut))⟩

theorem step_told (step : Step n n') (waits : .notice notice ∈ (n' y).channel) : .notice notice ∈ (n y).channel ∨
    notice = .other ∨ ∃ c before after, (n y).sides c = some before ∧ Tells c before after notice := by
  have one : ∀ {z node}, (z = y → .notice notice ∈ node.channel → .notice notice ∈ (n y).channel) →
      .notice notice ∈ (Function.update n z node y).channel → .notice notice ∈ (n y).channel := by
    intro z node back found
    by_cases same : y = z
    · cases same
      rw [Function.update_self] at found
      exact back rfl found
    · rw [Function.update_of_ne same] at found
      exact found
  cases step with
  | act z acted =>
      refine .inl (one ?_ waits)
      intro same queued
      subst same
      obtain ⟨rest,before,after⟩ := acted.channel
      rw [after,mem_asks] at queued
      exact before ▸ List.mem_append_right _ queued
  | connect u v =>
      left
      by_cases same : y = v
      · cases same
        rw [Function.update_self] at waits
        exact waits
      · rw [Function.update_of_ne same] at waits
        exact one (fun equal => by cases equal; exact id) waits
  | tell z here tells =>
      by_cases same : y = z
      · cases same
        rw [Function.update_self] at waits
        rcases List.mem_append.mp waits with waits | new
        · exact .inl waits
        · cases List.mem_singleton.mp new
          exact .inr (.inr ⟨_,_,_,here,tells⟩)
      · rw [Function.update_of_ne same] at waits
        exact .inl waits
  | news z =>
      by_cases same : y = z
      · cases same
        rw [Function.update_self] at waits
        rcases List.mem_append.mp waits with waits | new
        · exact .inl waits
        · cases List.mem_singleton.mp new
          exact .inr (.inl rfl)
      · rw [Function.update_of_ne same] at waits
        exact .inl waits
  | _ => exact .inl (one (fun same => by cases same; exact id) waits)

theorem step_arrivals (step : Step n n') (sound : Sound n) (waits : .notice (.arrived x d .offer) ∈ (n' y).channel) :
    Backed n' y d := by
  refine step_backed step sound ?_
  rcases step_told step waits with waits | other | ⟨c,before,after,here,tells⟩
  · exact sound.arrivals x y d waits
  · cases other
  · cases tells with
    | arrived _ wire => exact sound.wires y d before here (wire ▸ List.mem_cons_self)

theorem step_links (step : Step n n') (sound : Sound n) (linked : (n' x).active y = some c) : (n' x).bound y c ∧
    ∃ side, (n' x).sides c = some side ∧ side.peer = y ∧
      (side.closed = true → .notice (.closed y c) ∈ (n' x).channel) ∧
      ((n' y).active x = some side.remote ∨ Offered n' x c side ∨ Doomed n' x c) := by
  have stays : ∀ sent issued, (n x).bound y c → ¬Act (some (.notice (.closed y c))) sent issued (n x) (n' x) :=
    fun _ _ bound acted => acted.drops y c rfl bound linked
  by_cases before : (n x).active y = some c
  · obtain ⟨bound,side,here,rfl,live,standing⟩ := sound.links x y c before
    obtain ⟨later,now,aged⟩ := step_ages step x c side here
    refine ⟨?_,later,now,aged.peer,?_,?_⟩
    · rcases step_node step x with ⟨taken,sent,issued,acted⟩ | served
      · rcases acted.holds side.peer c bound with holds | rfl
        · exact holds
        · exact (stays sent issued bound acted).elim
      · rw [served.bound]
        exact bound
    · intro shut
      rcases aged.shut shut with shut | queued
      · rcases step_notice step (live shut) with queued | ⟨sent,issued,acted⟩
        · exact queued
        · exact (stays sent issued bound acted).elim
      · exact queued
    · rw [aged.remote]
      rcases standing with both | offered | doomed
      · rcases step_active step sound both with both | doomed
        · exact .inl both
        · obtain ⟨_,far,there,peer,remote⟩ := sound.paired x c side here
          obtain ⟨beyond,then',kept⟩ := step_ages step side.peer side.remote far there
          have near := doomed_far (step_paired step sound.paired) then' doomed
          rw [kept.peer,kept.remote,peer,remote] at near
          exact .inr (.inr near)
      · exact step_offered step sound here now aged offered
      · exact .inr (.inr (doomed_step step doomed))
  · rcases step_node step x with ⟨taken,sent,issued,acted⟩ | served
    · rcases acted.gains y c linked with same | ⟨bound,heard,entered⟩
      · exact (before same).elim
      · obtain ⟨side,here,peer,shut⟩ : ∃ side, (n x).sides c = some side ∧ side.peer = y ∧
            (side.closed = true ↔ .notice (.closed y c) ∈ (n x).channel) := by
          obtain ⟨notice,rfl,about⟩ := heard_about heard
          exact (sound.orderly x).told notice y c acted.taken_mem about
        refine ⟨bound,side,acted.sides ▸ here,peer,?_,?_⟩
        · intro closed
          rcases acted.waits (shut.mp closed) with rfl | queued
          · rcases heard with opened | ⟨parcel,arrived⟩
            · cases opened
            · cases arrived
          · exact queued
        · rcases entered with offered | rfl
          · exact .inr (.inl (.inl (peer ▸ acted.sent_asked offered)))
          · obtain ⟨same,found,backing⟩ := step_backed step sound (sound.arrivals y x c acted.taken_mem)
            cases Option.some.inj ((acted.sides ▸ here).symm.trans found)
            rw [peer] at backing
            exact backing.imp_right .inr
    · exact (before (served.active ▸ linked)).elim

theorem step_asked_back (step : Step n n') (asked : (n' x).asked (.send y c .offer)) :
    (n x).asked (.send y c .offer) ∨ (n' x).active y = some c ∨
      ∃ taken sent issued, Act taken sent issued (n x) (n' x) ∧ Hears taken y c ∧ .ban y ∈ sent := by
  rcases step_node step x with ⟨taken,sent,issued,acted⟩ | served
  · obtain ⟨rest,before,after⟩ := acted.channel
    rcases asked with queued | queued
    · rw [after,List.mem_append] at queued
      rcases queued with waits | new
      · exact .inl (.inl (before ▸ List.mem_append_right _ waits))
      · obtain ⟨ask,offered,equal⟩ := List.mem_map.mp new
        cases equal
        rcases acted.offers y c offered with linked | refused
        · exact .inr (.inl linked)
        · exact .inr (.inr ⟨taken,sent,issued,acted,refused⟩)
    · rw [acted.out,List.mem_append] at queued
      rcases queued with waits | new
      · exact .inl (.inr waits)
      · cases acted.relays y c new
        exact .inl (.inl acted.taken_mem)
  · exact .inl (asked.imp (served.asks _) (served.out _))

theorem step_sends (step : Step n n') (sound : Sound n) (asked : (n' x).asked (.send y c .offer)) :
    ∃ side, (n' x).sides c = some side ∧ side.peer = y ∧ Backed n' y side.remote := by
  rcases step_asked_back step asked with asked | linked | ⟨taken,sent,issued,acted,heard,banned⟩
  · obtain ⟨side,here,rfl,backed⟩ := sound.sends x y c asked
    obtain ⟨later,now,aged⟩ := step_ages step x c side here
    exact ⟨later,now,aged.peer,aged.remote ▸ step_backed step sound backed⟩
  · obtain ⟨_,side,now,rfl,_⟩ := step_links step sound linked
    obtain ⟨_,far,there,peer,remote⟩ := step_paired step sound.paired x c side now
    refine ⟨side,now,rfl,far,there,.inl ?_⟩
    rw [peer,remote]
    exact linked
  · obtain ⟨notice,rfl,about⟩ := heard_about heard
    obtain ⟨side,here,rfl,_⟩ := (sound.orderly x).told notice y c acted.taken_mem about
    have now : (n' x).sides c = some side := acted.sides ▸ here
    obtain ⟨_,far,there,peer,remote⟩ := step_paired step sound.paired x c side now
    have cut : Cut n' x c side := .inr (.inr (acted.sent_asked banned))
    refine ⟨side,now,rfl,far,there,.inr (doomed_far (step_paired step sound.paired) now ⟨side,now,.inl cut⟩)⟩

theorem step_posted (step : Step n n') (paired : Paired n) (here : (n y).sides d = some side)
    (now : (n' y).sides d = some later) (carried : .offer ∈ later.wire) :
    .offer ∈ side.wire ∨ (n side.peer).asked (.send y side.remote .offer) := by
  have still : (n' y).sides d = (n y).sides d → .offer ∈ side.wire := by
    intro same
    cases Option.some.inj (now.symm.trans (same.trans here))
    exact carried
  have one : ∀ {z node}, (z = y → node.sides = (n y).sides) → (Function.update n z node y).sides d = (n y).sides d := by
    intro z node kept
    by_cases same : y = z
    · cases same
      rw [Function.update_self,kept rfl]
    · rw [Function.update_of_ne same]
  cases step with
  | act z acted => exact .inl (still (one fun same => by cases same; exact acted.sides))
  | sever z which =>
      by_cases same : y = z
      · cases same
        rw [Function.update_self] at now
        obtain ⟨before,found,rfl⟩ := Option.map_eq_some_iff.mp now
        cases Option.some.inj (here.symm.trans found)
        exact .inl carried
      · exact .inl (still (one fun equal => (same equal.symm).elim))
  | post z v out near peer there =>
      by_cases same : y = v
      · cases same
        rw [Function.update_self,put_sides] at now
        split at now
        · rename_i equal
          cases equal
          cases now
          cases Option.some.inj (here.symm.trans there)
          obtain ⟨_,far,found,back,remote⟩ := paired _ _ _ near
          rw [peer] at found
          cases Option.some.inj (there.symm.trans found)
          rcases List.mem_append.mp carried with carried | new
          · exact .inl carried
          · cases List.mem_singleton.mp new
            rw [back,remote]
            exact .inr (.inr (out ▸ List.mem_cons_self))
        · cases Option.some.inj (here.symm.trans now)
          exact .inl carried
      · exact .inl (still (one fun equal => (same equal.symm).elim))
  | done z => exact .inl (still (one fun same => by cases same; rfl))
  | connect u v a b other noneU noneV =>
      have kept : ∀ {node : Node P C} {c : C} {fresh : Side P C}, (n y).sides = node.sides → node.sides c = none →
          (node.put c fresh).sides d = (n y).sides d := by
        intro node c fresh same absent
        rw [put_sides,if_neg,same]
        intro same
        subst same
        cases (same ▸ here).symm.trans absent
      refine .inl (still ?_)
      by_cases atV : y = v
      · cases atV
        rw [Function.update_self,kept rfl noneV]
      · rw [Function.update_of_ne atV]
        by_cases atU : y = u
        · cases atU
          rw [Function.update_self,kept rfl noneU]
        · rw [Function.update_of_ne atU]
  | tell z found tells =>
      by_cases same : y = z
      · cases same
        rw [Function.update_self] at now
        change ((n y).put _ _).sides d = some later at now
        rw [put_sides] at now
        split at now
        · rename_i equal
          cases equal
          cases now
          cases Option.some.inj (here.symm.trans found)
          cases tells with
          | opened => exact .inl carried
          | arrived _ wire => exact .inl (wire ▸ List.mem_cons_of_mem _ carried)
          | closed => cases carried
        · cases Option.some.inj (here.symm.trans now)
          exact .inl carried
      · exact .inl (still (one fun equal => (same equal.symm).elim))
  | news z => exact .inl (still (one fun same => by cases same; rfl))

theorem step_wires (step : Step n n') (sound : Sound n) (now : (n' y).sides d = some later)
    (carried : .offer ∈ later.wire) : Backed n' y d := by
  cases before : (n y).sides d with
  | none =>
      obtain ⟨_,_,wire,_⟩ := step_fresh step before now
      rw [wire] at carried
      cases carried
  | some side =>
      refine step_backed step sound ?_
      rcases step_posted step sound.paired before now carried with carried | asked
      · exact sound.wires y d side before carried
      · obtain ⟨_,far,there,peer,remote⟩ := sound.paired y d side before
        obtain ⟨same,found,_,backed⟩ := sound.sends side.peer y side.remote asked
        cases Option.some.inj (there.symm.trans found)
        exact remote ▸ backed

theorem step_sound (step : Step n n') (sound : Sound n) : Sound n' where
  paired := step_paired step sound.paired
  orderly := step_orderly step sound.orderly
  sends _ _ _ asked := step_sends step sound asked
  wires _ _ _ now carried := step_wires step sound now carried
  arrivals _ _ _ waits := step_arrivals step sound waits
  links _ _ _ linked := step_links step sound linked

theorem steps_sound (steps : Relation.ReflTransGen Step n n') (sound : Sound n) : Sound n' := by
  induction steps with
  | refl => exact sound
  | tail _ step ih => exact step_sound step ih

end

structure Node.Blank (node : Node P C) : Prop where
  active : ∀ y, node.active y = none
  channel : node.channel = []
  out : node.out = []
  sides : ∀ c, node.sides c = none

theorem blank_sound (blank : ∀ x, (n x).Blank) : Sound n := by
  have absent : ∀ {x c side}, (n x).sides c ≠ some side := by
    intro x c side found
    rw [(blank x).sides c] at found
    cases found
  refine ⟨fun x c side found => (absent found).elim,fun x => ⟨fun c side found => (absent found).elim,?_,?_⟩,?_,
    fun y d side found => (absent found).elim,?_,?_⟩
  · intro notice y c waits
    rw [(blank x).channel] at waits
    cases waits
  · rw [(blank x).channel]
    exact .nil
  · intro x y c asked
    unfold Node.asked at asked
    rw [(blank x).channel,(blank x).out] at asked
    rcases asked with asked | asked <;> cases asked
  · intro x y d waits
    rw [(blank y).channel] at waits
    cases waits
  · intro x y c linked
    rw [(blank x).active y] at linked
    cases linked

-- Nothing waits anywhere, and what is down was told to be.
structure Rest (n : Net P C) : Prop where
  channel : ∀ x, (n x).channel = []
  out : ∀ x, (n x).out = []
  wire : ∀ x c side, (n x).sides c = some side → side.closed = false → side.wire = []
  told : ∀ x c side far, (n x).sides c = some side → (n side.peer).sides side.remote = some far →
    side.up = false ∨ far.up = false → side.closed = true

theorem Rest.quiet (rest : Rest n) (x : P) (ask : Ask P C) : ¬(n x).asked ask := by
  unfold Node.asked
  rw [rest.channel,rest.out]
  simp

theorem rest_linked (sound : Sound n) (rest : Rest n) (linked : (n x).active y = some c) :
    ∃ d, (n y).active x = some d := by
  obtain ⟨_,side,here,rfl,live,standing⟩ := sound.links x y c linked
  obtain ⟨_,far,there,peer,remote⟩ := sound.paired x c side here
  have alive : ∀ far', (n side.peer).sides side.remote = some far' → side.up = false ∨ far'.up = false → False := by
    intro far' there' down
    have queued := live (rest.told x c side far' here there' down)
    rw [rest.channel] at queued
    cases queued
  rcases standing with both | offered | doomed
  · exact ⟨side.remote,both⟩
  · rcases offered with asked | ⟨far',there',carried⟩ | queued
    · exact (rest.quiet _ _ asked).elim
    · cases shut : far'.closed with
      | true => exact (alive far' there' (.inr ((sound.orderly _).closed _ far' there' shut))).elim
      | false =>
          rw [rest.wire _ _ far' there' shut] at carried
          cases carried
    · rw [rest.channel] at queued
      cases queued
  · obtain ⟨same,found,cut⟩ := doomed
    cases Option.some.inj (here.symm.trans found)
    have down : ∀ {z e t}, Cut n z e t → t.up = false := by
      intro z e t given
      rcases given with down | asked | asked
      · exact down
      · exact (rest.quiet _ _ asked).elim
      · exact (rest.quiet _ _ asked).elim
    rcases cut with cut | ⟨far',there',cut⟩
    · exact (alive far there (.inl (down cut))).elim
    · exact (alive far' there' (.inr (down cut))).elim

theorem rest_symmetric (sound : Sound n) (rest : Rest n) (x y : P) :
    (∃ c, (n x).active y = some c) ↔ ∃ c, (n y).active x = some c := by
  constructor
  · intro given
    obtain ⟨c,linked⟩ := given
    exact rest_linked sound rest linked
  · intro given
    obtain ⟨c,linked⟩ := given
    exact rest_linked sound rest linked

end AnomaAlpha.Linking
