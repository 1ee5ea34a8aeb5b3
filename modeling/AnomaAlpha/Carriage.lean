import AnomaAlpha.Copies
import AnomaAlpha.Symmetry

-- Where the copies of one gossip are in the world.
namespace AnomaAlpha
open Fallible OrderedMap

def Site.Asks (s : Site) (z : PeerId) (c : ConnectionId) (msg : Message) : Prop :=
  .sendMessage z c msg ∈ s.net.commands ∨ .sendMessage z c msg ∈ s.net.runloop.drop s.handled

namespace World

def linkAt (name : TopicName) (w : World) (x y : PeerId) : Option ConnectionId := w[x]?.bind fun s => linkOf s.net.inside name y

def heardAt (name : TopicName) (w : World) (x : PeerId) : List Bytes := (w[x]?.map fun s => heard s.net.topics name).getD []

def overlay (name : TopicName) (w : World) : List (PeerId × Option (List (PeerId × ConnectionId))) :=
  w.toList.map fun entry => (entry.1,entry.2.net.topics[name]?.map TopicInner.links)

def carries (name : TopicName) (w : World) (x : PeerId) (c : ConnectionId) : Bool :=
  (w.endAt x c).any fun link => w.linkAt name x link.peer == some c || w.linkAt name link.peer x == some link.remote

def spares (name : TopicName) (w : World) : Happening → Bool
  | .close x c => !w.carries name x c
  | _ => true

def steady (hash : Message → Multihash) (name : TopicName) (w : World) : List Happening → Bool
  | [] => true
  | happening :: later => w.spares name happening && (w.move hash name happening).all fun next =>
    next.overlay name == w.overlay name && steady hash name next later

def Coming (w : World) (msg : Message) (y z : PeerId) : Prop :=
  (∃ s c, w[y]? = some s ∧ s.Asks z c msg) ∨
  (∃ d far, w.endAt z d = some far ∧ far.peer = y ∧ far.closed = false ∧ msg ∈ far.wire) ∨
  ∃ t d, w[z]? = some t ∧ .injectEvent (.messageReceived y d msg) ∈ t.net.commands

variable {name : TopicName} {hash : Message → Multihash} {w w' : World} {x y z : PeerId} {c d : ConnectionId} {s t : Site}
  {msg : Message}

theorem linkAt_links (here : w[x]? = some s) (found : s.net.topics[name]? = some topic) :
    w.linkAt name x y = some c ↔ (y,c) ∈ topic.links := by
  unfold linkAt
  rw [here,Option.bind_some,linkOf_iff]
  change (∃ given, s.net.topics[name]? = some given ∧ given.Linked y c) ↔ _
  rw [found]
  simp only [Option.some.injEq,exists_eq_left']
  unfold TopicInner.links
  rw [List.mem_map]
  constructor
  · intro given
    obtain ⟨addresses,held⟩ := given
    exact ⟨(y,c,addresses),Std.ExtTreeMap.mem_toList_iff_getElem?_eq_some.mpr held,rfl⟩
  · intro given
    obtain ⟨⟨_,_,addresses⟩,member,same⟩ := given
    cases same
    exact ⟨addresses,Std.ExtTreeMap.mem_toList_iff_getElem?_eq_some.mp member⟩

theorem linkAt_iff : w.linkAt name x y = some c ↔ ∃ links, (x,some links) ∈ w.overlay name ∧ (y,c) ∈ links := by
  unfold overlay
  simp only [List.mem_map,Prod.mk.injEq]
  constructor
  · intro linked
    obtain ⟨s,here,there⟩ := Option.bind_eq_some_iff.mp linked
    obtain ⟨topic,found,_⟩ := linkOf_iff.mp there
    change s.net.topics[name]? = some topic at found
    refine ⟨topic.links,⟨(x,s),Std.ExtTreeMap.mem_toList_iff_getElem?_eq_some.mpr here,rfl,?_⟩,
      (linkAt_links here found).mp linked⟩
    rw [found]
    rfl
  · intro given
    obtain ⟨links,⟨⟨_,s⟩,member,rfl,held⟩,inside⟩ := given
    have here := Std.ExtTreeMap.mem_toList_iff_getElem?_eq_some.mp member
    obtain ⟨topic,found,rfl⟩ := Option.map_eq_some_iff.mp held
    exact (linkAt_links here found).mpr inside

theorem overlay_links (same : w'.overlay name = w.overlay name) (x y : PeerId) :
    w'.linkAt name x y = w.linkAt name x y := by
  refine Option.ext fun c => ?_
  rw [linkAt_iff,linkAt_iff,same]

theorem linkAt_here (here : w[x]? = some s) : w.linkAt name x y = linkOf s.net.inside name y := by
  unfold linkAt
  rw [here]
  rfl

theorem heardAt_here (here : w[x]? = some s) : w.heardAt name x = heard s.net.topics name := by
  unfold heardAt
  rw [here]
  rfl

theorem endAt_here (here : w[x]? = some s) : w.endAt x c = s.ends[c]? := by
  unfold endAt
  rw [here]
  rfl

theorem insert_here (w : World) (x y : PeerId) (s : Site) : (w.insert x s)[y]? = if x = y then some s else w[y]? :=
  get_insert ..

theorem insert_bind {α : Type} (here : w[x]? = some s) (s' : Site) (look : Site → Option α) (same : look s' = look s) (y : PeerId) :
    (w.insert x s')[y]?.bind look = w[y]?.bind look := by
  rw [insert_here]
  split
  · rename_i equal
    subst equal
    rw [here,Option.bind_some,Option.bind_some,same]
  · rfl

theorem insert_map {α : Type} (here : w[x]? = some s) (s' : Site) (look : Site → α) (same : look s' = look s) (y : PeerId) :
    (w.insert x s')[y]?.map look = w[y]?.map look := by
  rw [insert_here]
  split
  · rename_i equal
    subst equal
    rw [here,Option.map_some,Option.map_some,same]
  · rfl

def Route (w : World) (x : PeerId) (c : ConnectionId) (y : PeerId) : Prop :=
  ∃ near far, w.endAt x c = some near ∧ near.peer = y ∧ near.closed = false ∧
    w.endAt y near.remote = some far ∧ far.peer = x ∧ far.remote = c ∧ far.closed = false

-- Copies keep to the links, and links to open connections.
structure Carried (name : TopicName) (msg : Message) (w : World) : Prop where
  routed : ∀ x y c, w.linkAt name x y = some c → w.Route x c y
  asked : ∀ x s y c, w[x]? = some s → s.Asks y c msg → w.linkAt name x y = some c
  wired : ∀ y d far, w.endAt y d = some far → far.closed = false → msg ∈ far.wire →
    w.linkAt name far.peer y = some far.remote
  arrived : ∀ y t x d, w[y]? = some t → .injectEvent (.messageReceived x d msg) ∈ t.net.commands → w.linkAt name x y ≠ none

theorem Carried.coming_linked (carried : Carried name msg w) (coming : w.Coming msg x y) : w.linkAt name x y ≠ none := by
  rcases coming with ⟨s,c,here,asks⟩ | ⟨d,far,there,rfl,open_,inside⟩ | ⟨t,d,there,arrived⟩
  · rw [carried.asked x s y c here asks]
    exact nofun
  · rw [carried.wired y d far there open_ inside]
    exact nofun
  · exact carried.arrived y t x d there arrived

-- The runloop changes a node at its ends, and tells its network of it. An end
-- that carries a link does not close, what comes off a wire is told of, and what
-- comes onto it was asked for.
structure Edits (name : TopicName) (msg : Message) (w : World) (x : PeerId) (s : Site) (told : List SwarmEvent)
    (s' : Site) : Prop where
  net : s'.net = {s.net with commands := s.net.commands ++ told.map .injectEvent}
  handled : s'.handled = s.handled
  news : ∀ p c, .messageReceived p c msg ∈ told →
    ∃ link : Link, s.ends[c]? = some link ∧ link.peer = p ∧ link.closed = false ∧ msg ∈ link.wire
  kept : ∀ (c : ConnectionId) (link : Link), s.ends[c]? = some link → ∃ later : Link, s'.ends[c]? = some later ∧
    later.peer = link.peer ∧ later.remote = link.remote ∧
    (later.closed = link.closed ∧ (msg ∈ link.wire → msg ∈ later.wire ∨ .messageReceived link.peer c msg ∈ told) ∨
      w.carries name x c = false)
  wires : ∀ (c : ConnectionId) (later : Link), s'.ends[c]? = some later → later.closed = false → msg ∈ later.wire →
    ∃ link : Link, s.ends[c]? = some link ∧ link.closed = false ∧
      (msg ∈ link.wire ∨ ∃ t, w[link.peer]? = some t ∧ t.Asks x link.remote msg)

section
variable (here : w[x]? = some s) (edits : Edits name msg w x s told s')
include here edits

theorem edit_link (y z : PeerId) : linkAt name (w.insert x s') y z = w.linkAt name y z :=
  insert_bind here s' (fun s => linkOf s.net.inside name z) (by rw [edits.net]; rfl) y

theorem edit_heard (y : PeerId) : heardAt name (w.insert x s') y = w.heardAt name y :=
  congrArg (·.getD []) (insert_map here s' (fun s => heard s.net.topics name) (by rw [edits.net]) y)

theorem edit_asks (y z : PeerId) (c : ConnectionId) :
    (∃ t, (w.insert x s')[y]? = some t ∧ t.Asks z c msg) ↔ ∃ t, w[y]? = some t ∧ t.Asks z c msg := by
  rw [insert_here]
  split
  · rename_i same
    subst same
    rw [here]
    simp only [Option.some.injEq,exists_eq_left']
    unfold Site.Asks
    rw [edits.net,edits.handled]
    simp
  · rfl

theorem edit_kept (held : w.endAt y c = some link) : ∃ later, endAt (w.insert x s') y c = some later ∧
    later.peer = link.peer ∧ later.remote = link.remote ∧ (w.carries name y c = true → later.closed = link.closed) := by
  unfold endAt at held ⊢
  rw [insert_here]
  split
  · rename_i same
    subst same
    rw [here] at held
    obtain ⟨later,found,peer,remote,⟨shut,_⟩ | spared⟩ := edits.kept c link held
    · exact ⟨later,found,peer,remote,fun _ => shut⟩
    · refine ⟨later,found,peer,remote,fun carried => ?_⟩
      rw [spared] at carried
      cases carried
  · exact ⟨link,held,rfl,rfl,fun _ => rfl⟩

end

theorem carries_near (near : w.endAt x c = some link) (linked : w.linkAt name x link.peer = some c) :
    w.carries name x c = true := by
  unfold carries
  rw [near,Option.any_some,linked]
  simp

theorem carries_far (far : w.endAt y d = some link) (linked : w.linkAt name link.peer y = some link.remote) :
    w.carries name y d = true := by
  unfold carries
  rw [far,Option.any_some,linked]
  simp

section
variable (here : w[x]? = some s) (edits : Edits name msg w x s told s')
include here edits

theorem edit_route (linked : w.linkAt name y z = some c) (route : w.Route y c z) : Route (w.insert x s') y c z := by
  obtain ⟨near,far,found,rfl,open_,there,rfl,remote,far_open⟩ := route
  obtain ⟨near',found',peer,same,shut⟩ := edit_kept here edits found
  obtain ⟨far',there',peer',same',shut'⟩ := edit_kept here edits there
  refine ⟨near',far',found',peer,?_,same ▸ there',peer',same'.trans remote,?_⟩
  · exact (shut (carries_near found linked)).trans open_
  · refine (shut' (carries_far there ?_)).trans far_open
    rw [remote]
    exact linked

theorem edit_wired (far : endAt (w.insert x s') z d = some later) (open_ : later.closed = false) (inside : msg ∈ later.wire) :
    ∃ link, w.endAt z d = some link ∧ later.peer = link.peer ∧ later.remote = link.remote ∧ link.closed = false ∧
      (msg ∈ link.wire ∨ ∃ t, w[link.peer]? = some t ∧ t.Asks z link.remote msg) := by
  unfold endAt at far ⊢
  rw [insert_here] at far
  split at far
  · rename_i same
    subst same
    obtain ⟨link,held,shut,carried⟩ := edits.wires d later far open_ inside
    obtain ⟨found,there,peer,remote,_⟩ := edits.kept d link held
    cases far.symm.trans there
    refine ⟨link,?_,peer,remote,shut,carried⟩
    rw [here]
    exact held
  · exact ⟨later,far,rfl,rfl,open_,.inl inside⟩

theorem edit_arrived (y : PeerId) (d : ConnectionId) :
    (∃ t, (w.insert x s')[z]? = some t ∧ .injectEvent (.messageReceived y d msg) ∈ t.net.commands) →
    (∃ t, w[z]? = some t ∧ .injectEvent (.messageReceived y d msg) ∈ t.net.commands) ∨
      ∃ link, w.endAt z d = some link ∧ link.peer = y ∧ link.closed = false ∧ msg ∈ link.wire := by
  intro given
  obtain ⟨t,there,waits⟩ := given
  rw [insert_here] at there
  split at there
  · rename_i same
    subst same
    cases there
    rw [edits.net] at waits
    rcases List.mem_append.mp waits with before | now
    · exact .inl ⟨s,here,before⟩
    · obtain ⟨event,member,same⟩ := List.mem_map.mp now
      cases same
      obtain ⟨link,held,peer,shut,inside⟩ := edits.news y d member
      exact .inr ⟨link,(endAt_here here).trans held,peer,shut,inside⟩
  · exact .inl ⟨t,there,waits⟩

theorem edit_carried (carried : Carried name msg w) : Carried name msg (w.insert x s') where
  routed y z c linked := by
    rw [edit_link here edits] at linked
    exact edit_route here edits linked (carried.routed y z c linked)
  asked y t z c found asks := by
    rw [edit_link here edits]
    obtain ⟨before,there,asked⟩ := (edit_asks here edits y z c).mp ⟨t,found,asks⟩
    exact carried.asked y before z c there asked
  wired z d far there open_ inside := by
    rw [edit_link here edits]
    obtain ⟨link,held,peer,remote,shut,waits⟩ := edit_wired here edits there open_ inside
    rw [peer,remote]
    rcases waits with waits | ⟨t,found,asks⟩
    · exact carried.wired z d link held shut waits
    · exact carried.asked link.peer t z link.remote found asks
  arrived z t y d found waits := by
    rw [edit_link here edits]
    rcases edit_arrived here edits y d ⟨t,found,waits⟩ with ⟨before,there,waits⟩ | ⟨link,held,rfl,shut,inside⟩
    · exact carried.arrived z before y d there waits
    · exact carried.coming_linked (.inr (.inl ⟨d,link,held,rfl,shut,inside⟩))

theorem edit_coming (carried : Carried name msg w) (y z : PeerId) :
    Coming (w.insert x s') msg y z ↔ w.Coming msg y z := by
  constructor
  · intro given
    rcases given with ⟨t,c,found,asks⟩ | ⟨d,far,there,rfl,open_,inside⟩ | ⟨t,d,found,waits⟩
    · obtain ⟨before,there,asked⟩ := (edit_asks here edits y z c).mp ⟨t,found,asks⟩
      exact .inl ⟨before,c,there,asked⟩
    · obtain ⟨link,held,peer,_,shut,waits⟩ := edit_wired here edits there open_ inside
      rcases waits with waits | ⟨t,found,asks⟩
      · exact .inr (.inl ⟨d,link,held,peer.symm,shut,waits⟩)
      · exact .inl ⟨t,link.remote,peer ▸ found,asks⟩
    · rcases edit_arrived here edits y d ⟨t,found,waits⟩ with ⟨before,there,waits⟩ | ⟨link,held,peer,shut,inside⟩
      · exact .inr (.inr ⟨before,d,there,waits⟩)
      · exact .inr (.inl ⟨d,link,held,peer,shut,inside⟩)
  · intro given
    rcases given with ⟨t,c,found,asks⟩ | ⟨d,far,there,rfl,open_,inside⟩ | ⟨t,d,found,waits⟩
    · obtain ⟨after,there,asked⟩ := (edit_asks here edits y z c).mpr ⟨t,found,asks⟩
      exact .inl ⟨after,c,there,asked⟩
    · by_cases same : x = z
      · subst same
        obtain ⟨later,held,peer,_,⟨shut,kept⟩ | spared⟩ := edits.kept d far ((endAt_here here).symm.trans there)
        · have found : (w.insert x s')[x]? = some s' := by rw [insert_here,if_pos rfl]
          rcases kept inside with stays | told
          · exact .inr (.inl ⟨d,later,(endAt_here found).trans held,peer,shut.trans open_,stays⟩)
          · refine .inr (.inr ⟨s',d,found,?_⟩)
            rw [edits.net]
            exact List.mem_append_right _ (List.mem_map_of_mem told)
        · -- An end that holds a copy carries a link.
          rw [carries_far there (carried.wired x d far there open_ inside)] at spared
          cases spared
      · refine .inr (.inl ⟨d,far,?_,rfl,open_,inside⟩)
        unfold endAt at there ⊢
        rw [insert_here,if_neg same]
        exact there
    · refine .inr (.inr ?_)
      rw [insert_here]
      split
      · rename_i same
        subst same
        cases here.symm.trans found
        refine ⟨s',d,rfl,?_⟩
        rw [edits.net]
        exact List.mem_append_left _ waits
      · exact ⟨t,d,found,waits⟩

end

theorem put_edits {s' : Site} (c : ConnectionId) (later : Link) (told : List SwarmEvent)
    (net : s'.net = {s.net with commands := s.net.commands ++ told.map .injectEvent}) (handled : s'.handled = s.handled)
    (ends : s'.ends = s.ends.insert c later)
    (news : ∀ p d, .messageReceived p d msg ∈ told → d = c ∧
      ∃ link : Link, s.ends[c]? = some link ∧ link.peer = p ∧ link.closed = false ∧ msg ∈ link.wire)
    (kept : ∀ link : Link, s.ends[c]? = some link → later.peer = link.peer ∧ later.remote = link.remote ∧
      (later.closed = link.closed ∧ (msg ∈ link.wire → msg ∈ later.wire ∨ .messageReceived link.peer c msg ∈ told) ∨
        w.carries name x c = false))
    (wires : later.closed = false → msg ∈ later.wire → ∃ link : Link, s.ends[c]? = some link ∧ link.closed = false ∧
      (msg ∈ link.wire ∨ ∃ t, w[link.peer]? = some t ∧ t.Asks x link.remote msg)) : Edits name msg w x s told s' where
  net := net
  handled := handled
  news p d member := by
    obtain ⟨rfl,held⟩ := news p d member
    exact held
  kept d link held := by
    rw [ends,get_insert]
    split
    · rename_i same
      subst same
      exact ⟨later,rfl,kept link held⟩
    · exact ⟨link,held,rfl,rfl,.inl ⟨rfl,.inl⟩⟩
  wires d given held open_ inside := by
    rw [ends,get_insert] at held
    split at held
    · rename_i same
      subst same
      cases held
      exact wires open_ inside
    · exact ⟨given,held,open_,.inl inside⟩

theorem sever_edits (w : World) (x : PeerId) (s : Site) (which : ConnectionId → PeerId → Bool) :
    Edits name msg w x s [] (s.sever which) where
  net := by
    rw [List.map_nil,List.append_nil]
    rfl
  handled := rfl
  news _ _ := nofun
  kept c link held := by
    refine ⟨{link with up := link.up && !which c link.peer},?_,rfl,rfl,.inl ⟨rfl,.inl⟩⟩
    unfold Site.sever
    dsimp only
    rw [Std.ExtTreeMap.getElem?_map,held]
    rfl
  wires c later held open_ inside := by
    unfold Site.sever at held
    dsimp only at held
    rw [Std.ExtTreeMap.getElem?_map] at held
    obtain ⟨link,found,rfl⟩ := Option.map_eq_some_iff.mp held
    exact ⟨link,found,open_,.inl inside⟩

-- The runloop and the transport leave the networks and the copies as they are, but
-- for where the copies are.
structure Serves (name : TopicName) (msg : Message) (w w' : World) : Prop where
  link : ∀ y z, w'.linkAt name y z = w.linkAt name y z
  heard : ∀ y, w'.heardAt name y = w.heardAt name y
  coming : ∀ y z, w'.Coming msg y z ↔ w.Coming msg y z
  carried : Carried name msg w'
  kept : ∀ (y : PeerId) (t : Site), w'[y]? = some t →
    ∃ s, w[y]? = some s ∧ t.net.history = s.net.history ∧ t.net.config = s.net.config

theorem Serves.refl (carried : Carried name msg w) : Serves name msg w w :=
  ⟨fun _ _ => rfl,fun _ => rfl,fun _ _ => .rfl,carried,fun _ t here => ⟨t,here,rfl,rfl⟩⟩

theorem Serves.trans (first : Serves name msg w v) (second : Serves name msg v w') : Serves name msg w w' where
  link y z := (second.link y z).trans (first.link y z)
  heard y := (second.heard y).trans (first.heard y)
  coming y z := (second.coming y z).trans (first.coming y z)
  carried := second.carried
  kept y t there := by
    obtain ⟨middle,found,history,config⟩ := second.kept y t there
    obtain ⟨s,here,history',config'⟩ := first.kept y middle found
    exact ⟨s,here,history.trans history',config.trans config'⟩

theorem edit_serves (carried : Carried name msg w) (here : w[x]? = some s) (edits : Edits name msg w x s told s') :
    Serves name msg w (w.insert x s') where
  link := edit_link here edits
  heard := edit_heard here edits
  coming := edit_coming here edits carried
  carried := edit_carried here edits carried
  kept y t there := by
    rw [insert_here] at there
    split at there
    · rename_i same
      subst same
      cases there
      exact ⟨s,here,by rw [edits.net],by rw [edits.net]⟩
    · exact ⟨t,there,rfl,rfl⟩

theorem revise_insert (here : w[x]? = some s) (f : Site → Site) : w.revise x f = w.insert x (f s) := by
  unfold revise
  rw [here]

theorem count_serves {command : RunloopCommand} (carried : Carried name msg w) (here : w[x]? = some s)
    (due : s.net.runloop[s.handled]? = some command)
    (done : ∀ z c, command = .sendMessage z c msg →
      ∃ d far, w.endAt z d = some far ∧ far.peer = x ∧ far.closed = false ∧ msg ∈ far.wire) :
    Serves name msg w (w.insert x s.count) := by
  have out : s.net.runloop.drop s.handled = command :: s.net.runloop.drop (s.handled + 1) := by
    obtain ⟨bound,found⟩ := List.getElem?_eq_some_iff.mp due
    rw [List.drop_eq_getElem_cons bound,found]
  have sites : ∀ (y : PeerId) (t : Site), (w.insert x s.count)[y]? = some t → ∃ before : Site, w[y]? = some before ∧
      t.net = before.net ∧ ∀ z c, t.Asks z c msg → before.Asks z c msg := by
    intro y t there
    rw [insert_here] at there
    split at there
    · rename_i same
      subst same
      cases there
      refine ⟨s,here,rfl,fun z c asks => asks.imp_right fun member => ?_⟩
      rw [out]
      exact List.mem_cons_of_mem _ member
    · exact ⟨t,there,rfl,fun _ _ => id⟩
  have link : ∀ y z, linkAt name (w.insert x s.count) y z = w.linkAt name y z := fun y z =>
    insert_bind here s.count (fun s => linkOf s.net.inside name z) rfl y
  have ends : ∀ y c, endAt (w.insert x s.count) y c = w.endAt y c := fun y c =>
    insert_bind here s.count (fun s => s.ends[c]?) rfl y
  have told : ∀ y, heardAt name (w.insert x s.count) y = w.heardAt name y := fun y =>
    congrArg (·.getD []) (insert_map here s.count (fun s => heard s.net.topics name) rfl y)
  refine ⟨link,told,?_,?_,?_⟩
  · intro y z
    unfold Coming
    simp only [ends]
    constructor
    · intro given
      rcases given with ⟨t,c,found,asks⟩ | given | ⟨t,d,found,waits⟩
      · obtain ⟨before,there,_,asked⟩ := sites y t found
        exact .inl ⟨before,c,there,asked z c asks⟩
      · exact .inr (.inl given)
      · obtain ⟨before,there,net,_⟩ := sites z t found
        exact .inr (.inr ⟨before,d,there,net ▸ waits⟩)
    · intro given
      rcases given with ⟨t,c,found,asks⟩ | given | ⟨t,d,found,waits⟩
      · by_cases same : x = y
        · subst same
          cases here.symm.trans found
          have now : (w.insert x s.count)[x]? = some s.count := by rw [insert_here,if_pos rfl]
          rcases asks with queued | issued
          · exact .inl ⟨s.count,c,now,.inl queued⟩
          · rw [out] at issued
            rcases List.mem_cons.mp issued with same | later
            · exact .inr (.inl (done z c same.symm))
            · exact .inl ⟨s.count,c,now,.inr later⟩
        · exact .inl ⟨t,c,by rw [insert_here,if_neg same,found],asks⟩
      · exact .inr (.inl given)
      · refine .inr (.inr ?_)
        rw [insert_here]
        split
        · rename_i same
          subst same
          cases here.symm.trans found
          exact ⟨s.count,d,rfl,waits⟩
        · exact ⟨t,d,found,waits⟩
  · refine ⟨?_,?_,?_,?_⟩
    · intro y z c linked
      unfold Route
      simp only [ends]
      exact carried.routed y z c (link y z ▸ linked)
    · intro y t z c found asks
      obtain ⟨before,there,_,asked⟩ := sites y t found
      exact (link y z).trans (carried.asked y before z c there (asked z c asks))
    · intro z d far held open_ inside
      rw [ends] at held
      exact (link _ _).trans (carried.wired z d far held open_ inside)
    · intro z t y d found waits
      obtain ⟨before,there,net,_⟩ := sites z t found
      rw [link]
      exact carried.arrived z before y d there (net ▸ waits)
  · intro y t found
    obtain ⟨before,there,net,_⟩ := sites y t found
    exact ⟨before,there,congrArg Network.history net,congrArg Network.config net⟩

theorem send_serves (carried : Carried name msg w) (here : w[x]? = some s)
    (asks : sent = msg → s.Asks peer connection msg) : Serves name msg w (w.carryOut x (.sendMessage peer connection sent)) ∧
      (sent = msg → ∃ d far, (w.carryOut x (.sendMessage peer connection sent)).endAt peer d = some far ∧ far.peer = x ∧
        far.closed = false ∧ msg ∈ far.wire) := by
  have route : sent = msg → w.Route x connection peer := fun same =>
    carried.routed x peer connection (carried.asked x s peer connection here (asks same))
  unfold carryOut
  dsimp only
  cases near : w.endAt x connection with
  | none =>
      refine ⟨.refl carried,fun same => ?_⟩
      obtain ⟨_,_,found,_⟩ := route same
      cases near.symm.trans found
  | some link =>
      dsimp only
      split
      · rename_i same
        subst same
        cases reached : w.endAt link.peer link.remote with
        | none =>
            refine ⟨.refl carried,fun same => ?_⟩
            obtain ⟨_,_,found,_,_,there,_⟩ := route same
            cases near.symm.trans found
            cases reached.symm.trans there
        | some far =>
            dsimp only
            obtain ⟨t,there,held⟩ := Option.bind_eq_some_iff.mp reached
            rw [revise_insert there]
            have backed : sent = msg → far.peer = x ∧ far.remote = connection ∧ far.closed = false := by
              intro same
              obtain ⟨_,_,found,_,_,beyond,peer,remote,open_⟩ := route same
              cases near.symm.trans found
              cases reached.symm.trans beyond
              exact ⟨peer,remote,open_⟩
            constructor
            · refine edit_serves carried there (put_edits link.remote {far with wire := far.wire ++ [sent]} [] ?_ rfl rfl (fun _ _ => nofun) ?_ ?_)
              · rw [List.map_nil,List.append_nil]
                rfl
              · intro link' held'
                cases held.symm.trans held'
                exact ⟨rfl,rfl,.inl ⟨rfl,fun inside => .inl (List.mem_append_left _ inside)⟩⟩
              · intro open_ inside
                refine ⟨far,held,open_,(List.mem_append.mp inside).imp_right fun now => ?_⟩
                have same : sent = msg := (List.mem_singleton.mp now).symm
                obtain ⟨peer,remote,_⟩ := backed same
                rw [peer,remote]
                exact ⟨s,here,asks same⟩
            · intro same
              obtain ⟨peer,_,open_⟩ := backed same
              refine ⟨link.remote,{far with wire := far.wire ++ [sent]},?_,peer,open_,by simp [same]⟩
              unfold endAt
              rw [insert_here,if_pos rfl,Option.bind_some]
              change (t.ends.insert link.remote _)[link.remote]? = _
              rw [get_insert,if_pos rfl]
      · rename_i other
        refine ⟨.refl carried,fun same => ?_⟩
        obtain ⟨_,_,found,peer,_⟩ := route same
        cases near.symm.trans found
        exact (other peer).elim

theorem runloop_serves {command : RunloopCommand} (carried : Carried name msg w) (here : w[x]? = some s)
    (due : s.net.runloop[s.handled]? = some command) :
    Serves name msg w ((w.carryOut x command).revise x .count) := by
  have served : Serves name msg w (w.carryOut x command) ∧ ∀ z c, command = .sendMessage z c msg →
      ∃ d far, (w.carryOut x command).endAt z d = some far ∧ far.peer = x ∧ far.closed = false ∧ msg ∈ far.wire := by
    cases command with
    | connect addr => exact ⟨.refl carried,fun _ _ => nofun⟩
    | disconnect peer connection =>
        unfold carryOut
        dsimp only
        rw [revise_insert here]
        exact ⟨edit_serves carried here (sever_edits w x s _),fun _ _ => nofun⟩
    | banPeer peer =>
        unfold carryOut
        dsimp only
        rw [revise_insert here]
        exact ⟨edit_serves carried here (sever_edits w x s _),fun _ _ => nofun⟩
    | sendMessage peer connection sent =>
        have asks : sent = msg → s.Asks peer connection msg := by
          intro same
          obtain ⟨bound,found⟩ := List.getElem?_eq_some_iff.mp due
          refine .inr ?_
          rw [List.drop_eq_getElem_cons bound,found,same]
          exact List.mem_cons_self
        obtain ⟨serves,done⟩ := send_serves carried here asks
        refine ⟨serves,fun z c same => ?_⟩
        cases same
        exact done rfl
  obtain ⟨serves,done⟩ := served
  obtain ⟨t,there,net,handled⟩ := carryOut_site w x command here
  rw [revise_insert there]
  exact serves.trans (count_serves serves.carried there (by rw [net,handled,due]) done)

theorem fresh_edits {link : Link} (absent : s.ends[c]? = none) (bare : link.wire = []) :
    Edits name msg w x s [] (s.put c link) := by
  refine put_edits c link [] ?_ rfl rfl (fun _ _ => nofun) ?_ ?_
  · rw [List.map_nil,List.append_nil]
    rfl
  · intro given held
    cases absent.symm.trans held
  · intro _ inside
    rw [bare] at inside
    cases inside

theorem tell_edits (w : World) (x : PeerId) (s : Site) {event : SwarmEvent}
    (other : ∀ p c, event ≠ .messageReceived p c msg) : Edits name msg w x s [event] (s.tell event) where
  net := rfl
  handled := rfl
  news p c member := (other p c (List.mem_singleton.mp member).symm).elim
  kept _ link held := ⟨link,held,rfl,rfl,.inl ⟨rfl,.inl⟩⟩
  wires _ later held open_ inside := ⟨later,held,open_,.inl inside⟩

theorem move_serves (carried : Carried name msg w) {happening : Happening} (spared : w.spares name happening = true)
    (other : ∀ x turn input, happening ≠ .network x turn input) (moved : w.move hash name happening = some w') :
    Serves name msg w w' := by
  cases happening with
  | network x turn input => exact (other x turn input rfl).elim
  | runloop x =>
      obtain ⟨s,here,moved⟩ := Option.bind_eq_some_iff.mp moved
      obtain ⟨command,due,moved⟩ := Option.bind_eq_some_iff.mp moved
      cases moved
      exact runloop_serves carried here due
  | connect x y c d =>
      obtain ⟨s,here,moved⟩ := Option.bind_eq_some_iff.mp moved
      obtain ⟨t,there,moved⟩ := Option.bind_eq_some_iff.mp moved
      split at moved
      · rename_i free
        cases moved
        obtain ⟨apart,freeX,freeY⟩ := free
        have first : Serves name msg w (w.insert x (s.put c ⟨y,d,true,false,true,false,[]⟩)) :=
          edit_serves carried here (fresh_edits (vacant freeX) rfl)
        refine first.trans (edit_serves first.carried (s:=t) ?_ (fresh_edits (vacant freeY) rfl))
        rw [insert_here,if_neg apart,there]
      · cases moved
  | establish x c addresses =>
      obtain ⟨s,here,moved⟩ := Option.bind_eq_some_iff.mp moved
      obtain ⟨link,held,moved⟩ := Option.bind_eq_some_iff.mp moved
      split at moved
      · cases moved
      · cases moved
        refine edit_serves carried here (put_edits c {link with opened := true} [_] rfl rfl rfl ?_ ?_ ?_)
        · intro p d member
          cases List.mem_singleton.mp member
        · intro given found
          cases held.symm.trans found
          exact ⟨rfl,rfl,.inl ⟨rfl,.inl⟩⟩
        · exact fun open_ inside => ⟨link,held,open_,.inl inside⟩
  | deliver x c =>
      obtain ⟨s,here,moved⟩ := Option.bind_eq_some_iff.mp moved
      obtain ⟨link,held,moved⟩ := Option.bind_eq_some_iff.mp moved
      split at moved
      · cases moved
      · rename_i next wire loaded
        split at moved
        · rename_i alive
          cases moved
          have shut : link.closed = false := by simpa using alive.2
          refine edit_serves carried here (put_edits c {link with wire := wire} [_] rfl rfl rfl ?_ ?_ ?_)
          · intro p d member
            cases List.mem_singleton.mp member
            exact ⟨rfl,link,held,rfl,shut,by rw [loaded]; exact List.mem_cons_self⟩
          · intro given found
            cases held.symm.trans found
            refine ⟨rfl,rfl,.inl ⟨rfl,fun inside => ?_⟩⟩
            rw [loaded] at inside
            rcases List.mem_cons.mp inside with same | later
            · exact .inr (same ▸ List.mem_singleton_self _)
            · exact .inl later
          · exact fun open_ inside => ⟨link,held,open_,.inl (by rw [loaded]; exact List.mem_cons_of_mem _ inside)⟩
        · cases moved
  | close x c =>
      obtain ⟨s,here,moved⟩ := Option.bind_eq_some_iff.mp moved
      obtain ⟨link,held,moved⟩ := Option.bind_eq_some_iff.mp moved
      split at moved
      · cases moved
        refine edit_serves carried here (put_edits c {link with up := false, closed := true, wire := []} [_] rfl rfl rfl
          ?_ ?_ ?_)
        · intro p d member
          cases List.mem_singleton.mp member
        · intro given found
          cases held.symm.trans found
          exact ⟨rfl,rfl,.inr (by simpa [spares] using spared)⟩
        · exact fun open_ => nofun
      · cases moved
  | address x addr =>
      obtain ⟨s,here,moved⟩ := Option.bind_eq_some_iff.mp moved
      cases moved
      exact edit_serves carried here (tell_edits w x s fun _ _ => nofun)

end World

end AnomaAlpha
