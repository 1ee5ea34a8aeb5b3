import AnomaAlpha.Carriage
import AnomaAlpha.Lib.Flooding

-- A gossip comes to all who are linked to its publisher, by way of others or not.
namespace AnomaAlpha
open Fallible OrderedMap

def Hears (data : Bytes) (before after : List Bytes) : Prop := ∃ gained, after = before ++ gained ∧ data ∈ gained

theorem Hears.grows (hears : Hears data before middle) (more : List Bytes) : Hears data before (middle ++ more) := by
  obtain ⟨gained,rfl,inside⟩ := hears
  exact ⟨gained ++ more,List.append_assoc ..,List.mem_append_left _ inside⟩

theorem hears_append (grown : before <+: middle) : Hears data before (middle ++ more) ↔ Hears data before middle ∨ data ∈ more := by
  obtain ⟨early,rfl⟩ := grown
  constructor
  · intro hears
    obtain ⟨gained,same,inside⟩ := hears
    rw [List.append_assoc,List.append_cancel_left_eq] at same
    rw [← same] at inside
    exact (List.mem_append.mp inside).imp_left fun inside => ⟨early,rfl,inside⟩
  · intro hears
    rcases hears with hears | inside
    · exact hears.grows more
    · exact ⟨early ++ more,List.append_assoc ..,List.mem_append_right _ inside⟩

theorem not_hears_self (data : Bytes) (before : List Bytes) : ¬Hears data before before := by
  rintro ⟨gained,same,inside⟩
  rw [List.self_eq_append_right.mp same] at inside
  cases inside

namespace World
variable {name : TopicName} {data : Bytes} {hash : Message → Multihash} {before w w' : World} {x : PeerId} {s : Site}
  {source : PeerId → Prop}

def Fits (data : Bytes) (w : World) (x : PeerId) : Prop :=
  ∃ s, w[x]? = some s ∧ data.length ≤ s.net.config.maxTransmitSize

-- Who has published or heard the bytes since, and where their copies are.
def news (name : TopicName) (data : Bytes) (before : World) (source : PeerId → Prop) (w : World) : News PeerId where
  told y := source y ∨ Hears data (before.heardAt name y) (w.heardAt name y)
  coming := w.Coming (copyOf name data)

structure Informed (hash : Message → Multihash) (name : TopicName) (data : Bytes) (before w : World) : Prop where
  carried : Carried name (copyOf name data) w
  grown : ∀ y, before.heardAt name y <+: w.heardAt name y
  remembered : ∀ (y : PeerId) (s : Site), w[y]? = some s → s.net.Recalls (hash (copyOf name data)) →
    Hears data (before.heardAt name y) (w.heardAt name y)
  links : ∀ y z, w.linkAt name y z = before.linkAt name y z
  sized : ∀ (y : PeerId) (s : Site), w[y]? = some s → ∃ t, before[y]? = some t ∧ s.net.config = t.net.config

def Linked (name : TopicName) (w : World) (x y : PeerId) : Prop := w.linkAt name x y ≠ none

-- Where no network acts the news is where it was.
theorem served_passes {more : PeerId → Prop} (informed : Informed hash name data before w)
    (serves : Serves name (copyOf name data) w w') (none : ∀ y, ¬more y) : Informed hash name data before w' ∧
      News.Passes (before.Linked name) more (news name data before source w)
        (news name data before (fun y => source y ∨ more y) w') := by
  have same : news name data before (fun y => source y ∨ more y) w' = news name data before source w := by
    unfold news
    simp only [serves.heard,none,or_false]
    congr 1
    funext y z
    exact propext (serves.coming y z)
  have silent : more = fun _ => False := funext fun y => eq_false (none y)
  refine ⟨⟨serves.carried,?_,?_,?_,?_⟩,?_⟩
  · intro y
    rw [serves.heard]
    exact informed.grown y
  · intro y t there known
    obtain ⟨s,here,history,_⟩ := serves.kept y t there
    rw [serves.heard]
    refine informed.remembered y s here ?_
    unfold Network.Recalls
    rw [← history]
    exact known
  · exact fun y z => (serves.link y z).trans (informed.links y z)
  · intro y t there
    obtain ⟨s,here,_,config⟩ := serves.kept y t there
    obtain ⟨first,started,same⟩ := informed.sized y s here
    exact ⟨first,started,config.trans same⟩
  · rw [same,silent]
    exact .refl _ _

theorem acted_here (w : World) (x : PeerId) (s : Site) (net : Network) :
    (w.insert x {s with net := net})[x]? = some {s with net := net} := by rw [insert_here,if_pos rfl]

structure Acted (hash : Message → Multihash) (name : TopicName) (data : Bytes) (w : World) (x : PeerId) (s : Site)
    (deed : Deed) (net : Network) (queue sent : List Command) (issued : List RunloopCommand) (gained : List Bytes) : Prop where
  here : w[x]? = some s
  queued : s.net.commands = deed.taken ++ queue
  deals : Network.Deals hash name data {s.net with commands := queue} deed net sent issued gained
  behind : s.handled ≤ s.net.runloop.length
  clean : ∀ event, .injectEvent event ∉ sent
  kept : Carried name (copyOf name data) w
  links : ∀ y z, linkAt name (w.insert x {s with net := net}) y z = w.linkAt name y z
  config : net.config = s.net.config

namespace Acted
variable {deed : Deed} {queue sent : List Command} {issued : List RunloopCommand} {gained : List Bytes} {net : Network}
  (acted : Acted hash name data w x s deed net queue sent issued gained)
include acted

theorem heard (y : PeerId) : heardAt name (w.insert x {s with net := net}) y =
    w.heardAt name y ++ if x = y then gained else [] := by
  by_cases same : x = y
  · subst same
    rw [if_pos rfl,heardAt_here acted.here,heardAt_here (acted_here w x s net)]
    exact acted.deals.grown
  · rw [if_neg same,List.append_nil]
    unfold heardAt
    rw [insert_here,if_neg same]

theorem ends (y : PeerId) (c : ConnectionId) : endAt (w.insert x {s with net := net}) y c = w.endAt y c :=
  insert_bind acted.here {s with net := net} (fun s => s.ends[c]?) rfl y

theorem out : ({s with net := net} : Site).net.runloop.drop s.handled = s.net.runloop.drop s.handled ++ issued := by
  rw [show ({s with net := net} : Site).net.runloop = s.net.runloop ++ issued from acted.deals.runloop]
  exact List.drop_append_of_le_length acted.behind

theorem stays (asks : s.Asks z c (copyOf name data)) : ({s with net := net} : Site).Asks z c (copyOf name data) := by
  unfold Site.Asks at asks ⊢
  rw [acted.out]
  dsimp only
  rw [acted.deals.commands]
  rw [acted.queued] at asks
  rcases asks with waits | issued
  · rcases List.mem_append.mp waits with taken | waits
    · cases deed with
      | command command =>
          cases List.mem_singleton.mp taken
          exact .inr (List.mem_append_right _ ((acted.deals.relays z c).mpr rfl))
      | _ => cases taken
    · exact .inl (List.mem_append_left _ waits)
  · exact .inr (List.mem_append_left _ issued)

theorem asks (asks : ({s with net := net} : Site).Asks z c (copyOf name data)) :
    s.Asks z c (copyOf name data) ∨ .sendMessage z c (copyOf name data) ∈ sent := by
  unfold Site.Asks at asks ⊢
  rw [acted.out] at asks
  dsimp only at asks
  rw [acted.deals.commands] at asks
  rw [acted.queued]
  rcases asks with waits | issued
  · rcases List.mem_append.mp waits with waits | sends
    · exact .inl (.inl (List.mem_append_right _ waits))
    · exact .inr sends
  · rcases List.mem_append.mp issued with issued | now
    · exact .inl (.inr issued)
    · cases (acted.deals.relays z c).mp now
      exact .inl (.inl (List.mem_append_left _ (List.mem_singleton_self _)))

theorem link (z : PeerId) : linkOf net.inside name z = w.linkAt name x z := by
  rw [← acted.links x z]
  exact (linkAt_here (acted_here w x s net)).symm

theorem arrived (waits : .injectEvent (.messageReceived y d (copyOf name data)) ∈ net.commands) :
    .injectEvent (.messageReceived y d (copyOf name data)) ∈ s.net.commands := by
  rw [acted.deals.commands] at waits
  rw [acted.queued]
  exact (List.mem_append.mp waits).elim (List.mem_append_right _) fun now => (acted.clean _ now).elim

theorem carried : Carried name (copyOf name data) (w.insert x {s with net := net}) where
  routed y z c linked := by
    unfold Route
    simp only [acted.ends]
    exact acted.kept.routed y z c (acted.links y z ▸ linked)
  asked y t z c found asks := by
    rw [acted.links]
    rw [insert_here] at found
    split at found
    · rename_i same
      subst same
      cases found
      rcases acted.asks asks with asks | sends
      · exact acted.kept.asked x s z c acted.here asks
      · exact acted.link z ▸ (acted.deals.sends z c sends).1
    · exact acted.kept.asked y t z c found asks
  wired z d far held open_ inside := by
    rw [acted.ends] at held
    rw [acted.links]
    exact acted.kept.wired z d far held open_ inside
  arrived z t y d found waits := by
    rw [acted.links]
    rw [insert_here] at found
    split at found
    · rename_i same
      subst same
      cases found
      exact acted.kept.arrived x s y d acted.here (acted.arrived waits)
    · exact acted.kept.arrived z t y d found waits

theorem new_sent (inside : .sendMessage z c (copyOf name data) ∈ sent) :
    Coming (w.insert x {s with net := net}) (copyOf name data) x z := by
  refine .inl ⟨_,c,acted_here w x s net,.inl ?_⟩
  dsimp only
  rw [acted.deals.commands]
  exact List.mem_append_right _ inside

theorem came (coming : Coming (w.insert x {s with net := net}) (copyOf name data) y z) :
    w.Coming (copyOf name data) y z ∨ y = x ∧ ∃ c, .sendMessage z c (copyOf name data) ∈ sent := by
  rcases coming with ⟨t,c,found,asks⟩ | given | ⟨t,d,found,waits⟩
  · rw [insert_here] at found
    split at found
    · rename_i same
      subst same
      cases found
      exact (acted.asks asks).imp (fun asks => .inl ⟨s,c,acted.here,asks⟩) fun sends => ⟨rfl,c,sends⟩
    · exact .inl (.inl ⟨t,c,found,asks⟩)
  · simp only [acted.ends] at given
    exact .inl (.inr (.inl given))
  · rw [insert_here] at found
    split at found
    · rename_i same
      subst same
      cases found
      exact .inl (.inr (.inr ⟨s,d,acted.here,acted.arrived waits⟩))
    · exact .inl (.inr (.inr ⟨t,d,found,waits⟩))

end Acted

-- Links are mutual, and no linked peer gets banned.
structure Heeded (hash : Message → Multihash) (name : TopicName) (data : Bytes) (before w : World) (x : PeerId) (s : Site)
    (deed : Deed) (net : Network) (queue sent : List Command) (issued : List RunloopCommand) (gained : List Bytes) : Prop
    extends Acted hash name data w x s deed net queue sent issued gained where
  informed : Informed hash name data before w
  both : ∀ y z, w.linkAt name y z ≠ none → w.linkAt name z y ≠ none
  unbanned : ∀ p, .banPeer p ∈ issued → w.linkAt name x p = none

namespace Heeded
variable {deed : Deed} {queue sent : List Command} {issued : List RunloopCommand} {gained : List Bytes} {net : Network}
  (acted : Heeded hash name data before w x s deed net queue sent issued gained)
include acted

theorem taken (same : deed = .command (.injectEvent (.messageReceived y d (copyOf name data)))) :
    w.Coming (copyOf name data) y x ∧ w.linkAt name x y ≠ none := by
  have waits : .injectEvent (.messageReceived y d (copyOf name data)) ∈ s.net.commands := by
    rw [acted.queued,same]
    exact List.mem_append_left _ (List.mem_singleton_self _)
  exact ⟨.inr (.inr ⟨s,d,acted.here,waits⟩),
    acted.both y x (acted.kept.arrived x s y d acted.here waits)⟩

theorem taken_heard (same : deed = .command (.injectEvent (.messageReceived y d (copyOf name data)))) :
    Hears data (before.heardAt name x) (heardAt name (w.insert x {s with net := net}) x) := by
  have linked := (acted.taken same).2
  rw [acted.heard,if_pos rfl,hears_append (acted.informed.grown x)]
  rcases acted.deals.takes y d same (by
      rw [linkAt_here acted.here] at linked
      exact linked) with known | heard | banned
  · exact .inl (acted.informed.remembered x s acted.here known)
  · exact .inr heard
  · exact (linked (acted.unbanned y banned)).elim

theorem spread : Informed hash name data before (w.insert x {s with net := net}) where
  carried := acted.carried
  grown y := by
    rw [acted.heard]
    exact (acted.informed.grown y).trans (List.prefix_append _ _)
  remembered y t found known := by
    rw [insert_here] at found
    split at found
    · rename_i same
      subst same
      cases found
      rcases acted.deals.remembers known with earlier | ⟨p,c,took⟩
      · rw [acted.heard]
        exact (acted.informed.remembered x s acted.here earlier).grows _
      · exact acted.taken_heard took
    · rw [acted.heard]
      exact (acted.informed.remembered y t found known).grows _
  links y z := (acted.links y z).trans (acted.informed.links y z)
  sized y t found := by
    rw [insert_here] at found
    split at found
    · rename_i same
      subst same
      cases found
      obtain ⟨first,started,same⟩ := acted.informed.sized x s acted.here
      exact ⟨first,started,acted.config.trans same⟩
    · exact acted.informed.sized y t found

theorem linked (y z : PeerId) : before.Linked name y z ↔ w.linkAt name y z ≠ none := by
  unfold Linked
  rw [acted.informed.links]

theorem arrives (coming : w.Coming (copyOf name data) y z) :
    Coming (w.insert x {s with net := net}) (copyOf name data) y z ∨
      Hears data (before.heardAt name z) (heardAt name (w.insert x {s with net := net}) z) := by
  rcases coming with ⟨t,c,found,asks⟩ | given | ⟨t,d,found,waits⟩
  · refine .inl (.inl ?_)
    rw [insert_here]
    split
    · rename_i same
      subst same
      cases acted.here.symm.trans found
      exact ⟨_,c,rfl,acted.stays asks⟩
    · exact ⟨t,c,found,asks⟩
  · refine .inl (.inr (.inl ?_))
    simp only [acted.ends]
    exact given
  · by_cases same : x = z
    · subst same
      cases acted.here.symm.trans found
      rw [acted.queued] at waits
      rcases List.mem_append.mp waits with took | waits
      · refine .inr (acted.taken_heard (y:=y) (d:=d) ?_)
        cases deed with
        | command command => rw [List.mem_singleton.mp took]
        | _ => cases took
      · refine .inl (.inr (.inr ⟨_,d,acted_here w x s net,?_⟩))
        dsimp only
        rw [acted.deals.commands]
        exact List.mem_append_left _ waits
    · exact .inl (.inr (.inr ⟨t,d,by rw [insert_here,if_neg same,found],waits⟩))

theorem fits : Fits data before x ↔ data.length ≤ s.net.config.maxTransmitSize := by
  obtain ⟨first,started,same⟩ := acted.informed.sized x s acted.here
  unfold Fits
  rw [started,same]
  simp

theorem heard_now (hears : Hears data (before.heardAt name y) (heardAt name (w.insert x {s with net := net}) y)) :
    Hears data (before.heardAt name y) (w.heardAt name y) ∨ y = x ∧ data ∈ gained := by
  rw [acted.heard,hears_append (acted.informed.grown y)] at hears
  refine hears.imp_right fun now => ?_
  split at now
  · rename_i same
    exact ⟨same.symm,now⟩
  · cases now

theorem passes {more : PeerId → Prop} (covers : News.Covers (before.Linked name) source (news name data before source w))
    (own : ∀ y, more y ↔ y = x ∧ deed = .gossip name data ∧ Fits data before x) :
    News.Passes (before.Linked name) more (news name data before source w)
      (news name data before (fun y => source y ∨ more y) (w.insert x {s with net := net})) where
  keeps y told := by
    refine told.imp .inl fun hears => ?_
    rw [acted.heard]
    exact hears.grows _
  rises y given := .inl (.inr given)
  arrives y z coming := (acted.arrives coming).imp_right .inr
  spreads y z told linked := by
    obtain ⟨c,link⟩ := Option.ne_none_iff_exists'.mp ((acted.linked y z).mp linked)
    rcases told with (known | published) | hears
    · exact .inl (.inl known)
    · obtain ⟨rfl,did,fits⟩ := (own y).mp published
      exact .inr (.inl (acted.new_sent (acted.deals.publishes did (acted.fits.mp fits) z c ((acted.link z).trans link))))
    · rcases acted.heard_now hears with earlier | ⟨rfl,now⟩
      · exact .inl (.inr earlier)
      · obtain ⟨p,d,took,goesOn⟩ := acted.deals.hears now
        by_cases back : z = p
        · -- The sender has been told.
          subst back
          obtain ⟨told,_⟩ := covers.backed z y (acted.taken took).1
          refine .inr (.inr (told.imp .inl fun hears => ?_))
          rw [acted.heard]
          exact hears.grows _
        · exact .inr (.inl (acted.new_sent (goesOn z c back ((acted.link z).trans link))))
  hears z told := by
    rcases told with (known | published) | hears
    · exact .inl (.inl known)
    · exact .inr (.inl published)
    · rcases acted.heard_now hears with earlier | ⟨rfl,now⟩
      · exact .inl (.inr earlier)
      · obtain ⟨p,d,took,_⟩ := acted.deals.hears now
        exact .inr (.inr ⟨p,(acted.taken took).1⟩)
  sends y z coming := by
    refine (acted.came coming).imp_right fun given => ?_
    obtain ⟨rfl,c,sends⟩ := given
    obtain ⟨link,cause⟩ := acted.deals.sends z c sends
    refine ⟨?_,(acted.linked y z).mpr (by rw [← acted.link z,link]; exact nofun)⟩
    rcases cause with ⟨did,fits⟩ | now
    · exact .inl (.inr ((own y).mpr ⟨rfl,did,acted.fits.mpr fits⟩))
    · refine .inr ?_
      rw [acted.heard,if_pos rfl,hears_append (acted.informed.grown y)]
      exact .inr now

end Heeded

end World

theorem Site.Sane.tidy {name : TopicName} {hash : Message → Multihash} {x : PeerId} {s : Site} (sane : s.Sane name hash x) :
    s.net.Tidy := by
  obtain ⟨config,deeds,log,m,history,is,_⟩ := sane.history
  have tidy := (history.tidy (Network.new_tidy config x)).1
  rw [is]
  exact ⟨tidy.named,tidy.homed⟩

theorem Network.step_published {n n' : Network} {hash : Message → Multihash} {input : Input} (ours : input.ours name = true)
    (stepped : n.step hash turn input = .ok n') (data : Bytes) : n' = n ∧ input = .command ∨
      ∃ deed queue, n.commands = deed.taken ++ queue ∧ {n with commands := queue}.perform hash turn deed = .ok n' ∧
        (deed = .gossip name data ↔ input = .gossip name data) := by
  cases input with
  | tick => exact .inr ⟨.tick,n.commands,rfl,stepped,by simp⟩
  | join config => exact .inr ⟨.join config,n.commands,rfl,stepped,by simp⟩
  | gossip file bytes => exact .inr ⟨.gossip file bytes,n.commands,rfl,stepped,by simp⟩
  | event event => cases ours
  | command =>
      unfold step at stepped
      dsimp only at stepped
      cases queued : n.commands with
      | nil =>
          rw [queued] at stepped
          cases stepped
          exact .inl ⟨rfl,rfl⟩
      | cons command queue =>
          rw [queued] at stepped
          exact .inr ⟨.command command,queue,rfl,stepped,by simp⟩

theorem Site.Sane.wired {name : TopicName} {hash : Message → Multihash} {x : PeerId} {s : Site} (sane : s.Sane name hash x) :
    s.net.Wired s.net.config.dedupeInterval := by
  obtain ⟨config,deeds,log,m,history,is,_⟩ := sane.history
  have wired := history.wired (Network.new_wired config x)
  have home : m.config = config := congrArg Prod.fst (history.tidy (Network.new_tidy config x)).2
  rw [is]
  dsimp only
  rw [home]
  exact ⟨wired.named,wired.window⟩

namespace World
variable {name : TopicName} {data : Bytes} {hash : Message → Multihash} {before w w' : World} {x y : PeerId} {s : Site}
  {source : PeerId → Prop} {happening : Happening}

def Publishes (name : TopicName) (data : Bytes) (before : World) (happening : Happening) (y : PeerId) : Prop :=
  (∃ turn, happening = .network y turn (.gossip name data)) ∧ Fits data before y

def Unbanned (name : TopicName) (w : World) : Prop := ∀ (x : PeerId) (s : Site) (p : PeerId), w[x]? = some s →
  .banPeer p ∈ s.net.runloop.drop s.handled → w.linkAt name x p = none

theorem idle_edits (w : World) (x : PeerId) (s : Site) : Edits name msg w x s [] s where
  net := by rw [List.map_nil,List.append_nil]
  handled := rfl
  news _ _ := nofun
  kept _ link held := ⟨link,held,rfl,rfl,.inl ⟨rfl,.inl⟩⟩
  wires _ later held open_ inside := ⟨later,held,open_,.inl inside⟩

theorem move_cases (unclashed : ∀ msg, hash msg = hash (copyOf name data) → msg = copyOf name data)
    (carried : Carried name (copyOf name data) w) (sane : w.Sane name hash) (spared : w.spares name happening = true)
    (links : ∀ y z, w'.linkAt name y z = w.linkAt name y z) (moved : w.move hash name happening = some w') :
    Serves name (copyOf name data) w w' ∧ (∀ y turn, happening ≠ .network y turn (.gossip name data)) ∨
      ∃ x s turn input deed net queue sent issued gained, happening = .network x turn input ∧
        (deed = .gossip name data ↔ input = .gossip name data) ∧ w' = w.insert x {s with net := net} ∧
        Acted hash name data w x s deed net queue sent issued gained := by
  by_cases network : ∃ x turn input, happening = .network x turn input
  · obtain ⟨x,turn,input,rfl⟩ := network
    obtain ⟨s,here,moved⟩ := Option.bind_eq_some_iff.mp moved
    split at moved
    · rename_i ours
      split at moved
      · rename_i net stepped
        cases moved
        rcases Network.step_published ours stepped data with ⟨rfl,rfl⟩ | ⟨deed,queue,queued,performed,published⟩
        · exact .inl ⟨edit_serves carried here (idle_edits w x s),fun _ _ => nofun⟩
        · have tidy : Network.Tidy {s.net with commands := queue} := ⟨(sane x s here).tidy.named,(sane x s here).tidy.homed⟩
          obtain ⟨sent,issued,gained,deals⟩ := Network.perform_deals unclashed tidy performed
          obtain ⟨fed,_,home⟩ := Network.perform_ok performed
          obtain ⟨sent',written,clean⟩ := fed.asks tidy.named
          obtain rfl : sent' = sent := List.append_cancel_left (written.symm.trans deals.commands)
          exact .inr ⟨x,s,turn,input,deed,net,queue,sent',issued,gained,rfl,published,rfl,here,queued,deals,
            (sane x s here).behind,clean,carried,links,congrArg Prod.fst home⟩
      · cases moved
    · cases moved
  · have other : ∀ x turn input, happening ≠ .network x turn input := fun x turn input same => network ⟨x,turn,input,same⟩
    exact .inl ⟨move_serves carried spared other moved,fun y turn => other y turn _⟩

theorem move_carried (unclashed : ∀ msg, hash msg = hash (copyOf name data) → msg = copyOf name data)
    (carried : Carried name (copyOf name data) w) (sane : w.Sane name hash) (spared : w.spares name happening = true)
    (links : ∀ y z, w'.linkAt name y z = w.linkAt name y z) (moved : w.move hash name happening = some w') :
    Carried name (copyOf name data) w' := by
  rcases move_cases unclashed carried sane spared links moved with
    ⟨serves,_⟩ | ⟨x,s,_,_,_,net,_,_,_,_,_,_,rfl,acted⟩
  · exact serves.carried
  · exact acted.carried

theorem move_passes (unclashed : ∀ msg, hash msg = hash (copyOf name data) → msg = copyOf name data)
    (informed : Informed hash name data before w) (sane : w.Sane name hash)
    (covers : News.Covers (before.Linked name) source (news name data before source w))
    (spared : w.spares name happening = true) (links : ∀ y z, w'.linkAt name y z = w.linkAt name y z)
    (both : ∀ y z, w.linkAt name y z ≠ none → w.linkAt name z y ≠ none) (unbanned : w'.Unbanned name)
    (moved : w.move hash name happening = some w') : Informed hash name data before w' ∧
      News.Passes (before.Linked name) (Publishes name data before happening) (news name data before source w)
        (news name data before (fun y => source y ∨ Publishes name data before happening y) w') := by
  rcases move_cases unclashed informed.carried sane spared links moved with
    ⟨serves,other⟩ | ⟨x,s,turn,input,deed,net,queue,sent,issued,gained,rfl,published,rfl,acted⟩
  · refine served_passes informed serves fun y given => ?_
    obtain ⟨⟨turn,same⟩,_⟩ := given
    exact other y turn same
  · have heeded : Heeded hash name data before w x s deed net queue sent issued gained := by
      refine ⟨acted,informed,both,fun p banned => ?_⟩
      rw [← links]
      refine unbanned x _ p (acted_here w x s net) ?_
      rw [acted.out]
      exact List.mem_append_right _ banned
    refine ⟨heeded.spread,heeded.passes covers fun y => ?_⟩
    unfold Publishes
    constructor
    · intro given
      obtain ⟨⟨_,same⟩,fits⟩ := given
      cases same
      exact ⟨rfl,published.mpr rfl,fits⟩
    · intro given
      obtain ⟨rfl,did,fits⟩ := given
      exact ⟨⟨turn,by rw [published.mp did]⟩,fits⟩

-- A window of a run in which the overlay is left as it is.
structure Plays (hash : Message → Multihash) (name : TopicName) (w : World) (window : List Happening) (w' : World) : Prop where
  sound : Linking.Sound (w.view name)
  sane : w.Sane name hash
  smooth : w.allSmooth hash name window = true
  steady : w.steady hash name window = true
  ran : w.run hash name window = some w'

theorem Plays.next (plays : Plays hash name w (happening :: later) w') : ∃ next, w.move hash name happening = some next ∧
    w.spares name happening = true ∧ (∀ y z, next.linkAt name y z = w.linkAt name y z) ∧
    Relation.ReflTransGen Linking.Step (w.view name) (next.view name) ∧ Plays hash name next later w' := by
  obtain ⟨next,moved,ran⟩ := Option.bind_eq_some_iff.mp plays.ran
  obtain ⟨here,there⟩ := Bool.and_eq_true_iff.mp plays.smooth
  obtain ⟨spared,still⟩ := Bool.and_eq_true_iff.mp plays.steady
  rw [moved] at there still
  obtain ⟨same,steady⟩ := Bool.and_eq_true_iff.mp still
  obtain ⟨steps,sane⟩ := move_steps plays.sound plays.sane here moved
  exact ⟨next,moved,spared,overlay_links (beq_iff_eq.mp same),steps,Linking.steps_sound steps plays.sound,sane,there,steady,ran⟩

theorem Plays.carried (unclashed : ∀ msg, hash msg = hash (copyOf name data) → msg = copyOf name data)
    (plays : Plays hash name w window w') (carried : Carried name (copyOf name data) w) :
    Carried name (copyOf name data) w' ∧ (∀ y z, w'.linkAt name y z = w.linkAt name y z) ∧
      Relation.ReflTransGen Linking.Step (w.view name) (w'.view name) := by
  induction window generalizing w with
  | nil =>
      cases plays.ran
      exact ⟨carried,fun _ _ => rfl,.refl⟩
  | cons happening later ih =>
      obtain ⟨next,moved,spared,links,steps,plays'⟩ := plays.next
      obtain ⟨carried,same,more⟩ := ih plays' (move_carried unclashed carried plays.sane spared links moved)
      exact ⟨carried,fun y z => (same y z).trans (links y z),steps.trans more⟩

theorem cut_steps {n n' : Linking.Net PeerId ConnectionId} {side : Linking.Side PeerId ConnectionId}
    (steps : Relation.ReflTransGen Linking.Step n n') (held : (n x).sides c = some side) (cut : Linking.Cut n x c side) :
    ∃ later, (n' x).sides c = some later ∧ Linking.Cut n' x c later := by
  induction steps with
  | refl => exact ⟨side,held,cut⟩
  | tail _ step ih =>
      obtain ⟨middle,found,cut⟩ := ih
      obtain ⟨later,found,_,cut⟩ := Linking.cut_step step found cut
      exact ⟨later,found,cut⟩

-- A ban would have cut the connection of a link by the time that all is at rest.
theorem Plays.unbanned (unclashed : ∀ msg, hash msg = hash (copyOf name data) → msg = copyOf name data)
    (plays : Plays hash name w window w') (carried : Carried name (copyOf name data) w) (rest : w'.resting = true) :
    w.Unbanned name := by
  intro x s p here banned
  by_contra linked
  obtain ⟨c,link⟩ := Option.ne_none_iff_exists'.mp linked
  obtain ⟨carried',same,steps⟩ := plays.carried unclashed carried
  obtain ⟨near,_,held,rfl,_⟩ := carried.routed x p c link
  have side : (w.view name x).sides c = some near.side := by
    rw [view_side,held]
    rfl
  have asked : (w.view name x).asked (.ban near.side.peer) := by
    rw [view_here here]
    exact .inr (List.mem_map_of_mem banned)
  obtain ⟨later,found,cut⟩ := cut_steps steps side (.inr (.inr asked))
  have still : Linking.Rest (w'.view name) := resting_rest rest
  have down : later.up = false := cut.elim id fun given => (given.elim (still.quiet x _) (still.quiet x _)).elim
  obtain ⟨near',far,held',peer,open_,reached,_⟩ := carried'.routed x near.peer c ((same _ _).trans link)
  have now : (w'.view name x).sides c = some near'.side := by
    rw [view_side,held']
    rfl
  cases found.symm.trans now
  have beyond : (w'.view name near'.peer).sides near'.remote = some far.side := by
    rw [view_side,peer,reached]
    rfl
  have shut : near'.closed = true := still.told x c near'.side far.side now beyond (.inl down)
  rw [open_] at shut
  cases shut

theorem Plays.covers (unclashed : ∀ msg, hash msg = hash (copyOf name data) → msg = copyOf name data)
    (both : ∀ y z, before.linkAt name y z ≠ none → before.linkAt name z y ≠ none) (rest : w'.resting = true)
    (plays : Plays hash name w window w') (informed : Informed hash name data before w)
    (covers : News.Covers (before.Linked name) source (news name data before source w)) :
    Informed hash name data before w' ∧ ∃ sources : PeerId → Prop,
      (∀ y, sources y ↔ source y ∨ ∃ happening ∈ window, Publishes name data before happening y) ∧
      News.Covers (before.Linked name) sources (news name data before sources w') := by
  induction window generalizing w source with
  | nil =>
      cases plays.ran
      exact ⟨informed,source,fun y => by simp,covers⟩
  | cons happening later ih =>
      obtain ⟨next,moved,spared,links,_,plays'⟩ := plays.next
      have carried := move_carried unclashed informed.carried plays.sane spared links moved
      have mutually : ∀ y z, w.linkAt name y z ≠ none → w.linkAt name z y ≠ none := by
        intro y z
        rw [informed.links,informed.links]
        exact both y z
      obtain ⟨informed',passes⟩ := move_passes unclashed informed plays.sane covers spared links mutually
        (plays'.unbanned unclashed carried rest) moved
      obtain ⟨final,sources,same,covers'⟩ := ih plays' informed' (passes.covers covers)
      refine ⟨final,sources,fun y => (same y).trans ?_,covers'⟩
      simp [or_assoc]

theorem resting_still (rest : w.resting = true) (msg : Message) (y z : PeerId) : ¬w.Coming msg y z := by
  intro coming
  rcases coming with ⟨s,c,here,asks⟩ | ⟨d,far,there,_,open_,inside⟩ | ⟨t,d,here,waits⟩
  · obtain ⟨quiet,done,_⟩ := resting_here rest here
    rcases asks with waits | issued
    · rw [quiet] at waits
      cases waits
    · rw [done,List.drop_length] at issued
      cases issued
  · obtain ⟨s,here,held⟩ := Option.bind_eq_some_iff.mp there
    have settled := (resting_here rest here).2.2 d far held
    simp only [World.settled,open_,Bool.false_or,Bool.and_eq_true,List.isEmpty_iff] at settled
    rw [settled.2.1.1] at inside
    cases inside
  · obtain ⟨quiet,_,_⟩ := resting_here rest here
    rw [quiet] at waits
    cases waits

theorem view_link (name : TopicName) (w : World) (x y : PeerId) : (w.view name x).active y = w.linkAt name x y := by
  unfold view linkAt
  cases w[x]? <;> rfl

theorem resting_carried (sound : Linking.Sound (w.view name)) (rest : w.resting = true) (msg : Message) :
    Carried name msg w := by
  have still : Linking.Rest (w.view name) := resting_rest rest
  refine ⟨?_,?_,?_,?_⟩
  · intro x y c linked
    rw [← view_link] at linked
    obtain ⟨_,side,held,rfl,alive,_⟩ := sound.links x y c linked
    have open_ : side.closed = false := by
      cases shut : side.closed with
      | false => rfl
      | true =>
          have told := alive shut
          rw [still.channel] at told
          cases told
    obtain ⟨_,far,there,peer,remote⟩ := sound.paired x c side held
    rw [view_side] at held there
    obtain ⟨near,at_,rfl⟩ := Option.map_eq_some_iff.mp held
    obtain ⟨beyond,found,rfl⟩ := Option.map_eq_some_iff.mp there
    refine ⟨near,beyond,at_,rfl,open_,found,peer,remote,?_⟩
    cases shut : beyond.closed with
    | false => rfl
    | true =>
        have far : (w.view name near.peer).sides near.remote = some beyond.side := by
          rw [view_side]
          exact there
        have down : beyond.side.up = false := (sound.orderly near.peer).closed near.remote beyond.side far shut
        have closed := still.told x c near.side beyond.side (by rw [view_side]; exact held) far (.inr down)
        rw [open_] at closed
        cases closed
  · intro x s y c here asks
    exact (resting_still rest msg x y (.inl ⟨s,c,here,asks⟩)).elim
  · intro y d far there open_ inside
    exact (resting_still rest msg far.peer y (.inr (.inl ⟨d,far,there,rfl,open_,inside⟩))).elim
  · intro y t x d here waits
    exact (resting_still rest msg x y (.inr (.inr ⟨t,d,here,waits⟩))).elim

theorem linked_linkAt : w.linked name x y = true ↔ w.Linked name x y := by
  rw [linked_iff,view_link]
  exact Option.ne_none_iff_exists'.symm

theorem run_kept {happenings : List Happening} (sound : Linking.Sound (w.view name)) (sane : w.Sane name hash)
    (smooth : w.allSmooth hash name happenings = true) (ran : w.run hash name happenings = some w') :
    Linking.Sound (w'.view name) ∧ w'.Sane name hash := by
  induction happenings generalizing w with
  | nil =>
      cases ran
      exact ⟨sound,sane⟩
  | cons happening later ih =>
      obtain ⟨middle,moved,rest⟩ := Option.bind_eq_some_iff.mp ran
      obtain ⟨here,there⟩ := Bool.and_eq_true_iff.mp smooth
      rw [moved] at there
      obtain ⟨steps,kept⟩ := move_steps sound sane here moved
      exact ih (Linking.steps_sound steps sound) kept there rest

def clocks (x : PeerId) (window : List Happening) : List Nat := window.filterMap fun happening => match happening with
  | .network z turn _ => if z = x then some turn.now else none
  | _ => none

theorem other_clocks {later : List Happening} (other : ¬∃ turn input, happening = .network x turn input) :
    clocks x (happening :: later) = clocks x later := by
  unfold clocks
  rw [List.filterMap_cons]
  cases happening with
  | network z turn input =>
      have apart : z ≠ x := fun same => other ⟨turn,input,by rw [same]⟩
      simp [apart]
  | _ => rfl

theorem insert_frame {t : Site} {z : PeerId} (t' : Site) (here : w[x]? = some s) (there : w[z]? = some t)
    (topics : t'.net.topics = t.net.topics) (history : t'.net.history = t.net.history) :
    ∃ after, (w.insert z t')[x]? = some after ∧ after.net.topics = s.net.topics ∧ after.net.history = s.net.history := by
  rw [insert_here]
  split
  · rename_i same
    subst same
    cases here.symm.trans there
    exact ⟨t',rfl,topics,history⟩
  · exact ⟨s,here,rfl,rfl⟩

theorem move_frame (here : w[x]? = some s) (other : ∀ turn input, happening ≠ .network x turn input)
    (moved : w.move hash name happening = some w') :
    ∃ t, w'[x]? = some t ∧ t.net.topics = s.net.topics ∧ t.net.history = s.net.history := by
  cases happening with
  | network z turn input =>
      obtain ⟨t,there,moved⟩ := Option.bind_eq_some_iff.mp moved
      split at moved
      · split at moved
        · cases moved
          rw [insert_here]
          split
          · rename_i same
            subst same
            exact (other turn input rfl).elim
          · exact ⟨s,here,rfl,rfl⟩
        · cases moved
      · cases moved
  | runloop z =>
      obtain ⟨t,there,moved⟩ := Option.bind_eq_some_iff.mp moved
      obtain ⟨command,due,moved⟩ := Option.bind_eq_some_iff.mp moved
      cases moved
      obtain ⟨now,found,net,_⟩ := carryOut_site w z command here
      rw [revise_here,found]
      split
      · exact ⟨now.count,rfl,congrArg Network.topics net,congrArg Network.history net⟩
      · exact ⟨now,rfl,congrArg Network.topics net,congrArg Network.history net⟩
  | connect z v c d =>
      obtain ⟨t,there,moved⟩ := Option.bind_eq_some_iff.mp moved
      obtain ⟨u,beyond,moved⟩ := Option.bind_eq_some_iff.mp moved
      split at moved
      · rename_i free
        cases moved
        have still : (w.insert z (t.put c ⟨v,d,true,false,true,false,[]⟩))[v]? = some u := by
          rw [insert_here,if_neg free.1,beyond]
        obtain ⟨now,found,topics,history⟩ := insert_frame (t.put c ⟨v,d,true,false,true,false,[]⟩) here there rfl rfl
        obtain ⟨after,final,topics',history'⟩ := insert_frame (u.put d ⟨z,c,false,false,true,false,[]⟩) found still rfl rfl
        exact ⟨after,final,topics'.trans topics,history'.trans history⟩
      · cases moved
  | establish z c addresses =>
      obtain ⟨t,there,moved⟩ := Option.bind_eq_some_iff.mp moved
      obtain ⟨link,held,moved⟩ := Option.bind_eq_some_iff.mp moved
      split at moved
      · cases moved
      · cases moved
        exact insert_frame _ here there rfl rfl
  | deliver z c =>
      obtain ⟨t,there,moved⟩ := Option.bind_eq_some_iff.mp moved
      obtain ⟨link,held,moved⟩ := Option.bind_eq_some_iff.mp moved
      split at moved
      · cases moved
      · split at moved
        · cases moved
          exact insert_frame _ here there rfl rfl
        · cases moved
  | close z c =>
      obtain ⟨t,there,moved⟩ := Option.bind_eq_some_iff.mp moved
      obtain ⟨link,held,moved⟩ := Option.bind_eq_some_iff.mp moved
      split at moved
      · cases moved
        exact insert_frame _ here there rfl rfl
      · cases moved
  | address z addr =>
      obtain ⟨t,there,moved⟩ := Option.bind_eq_some_iff.mp moved
      cases moved
      exact insert_frame _ here there rfl rfl

theorem network_frame {turn : Turn} {input : Network.Input} (here : w[x]? = some s)
    (moved : w.move hash name (.network x turn input) = some w') :
    ∃ t, w'[x]? = some t ∧ s.net.step hash turn input = .ok t.net := by
  obtain ⟨t,there,moved⟩ := Option.bind_eq_some_iff.mp moved
  cases here.symm.trans there
  split at moved
  · split at moved
    · rename_i net stepped
      cases moved
      exact ⟨_,acted_here w x s net,stepped⟩
    · cases moved
  · cases moved

theorem run_spared {start interval : Nat} {window : List Happening} (here : w[x]? = some s)
    (known : Remembers start interval (hash (copyOf name data)) s.net.history)
    (timely : ∀ t ∈ clocks x window, start ≤ t ∧ t < start + interval) (ran : w.run hash name window = some w') :
    ∃ t, w'[x]? = some t ∧ Spares name data s.net.topics t.net.topics := by
  induction window generalizing w s with
  | nil =>
      cases ran
      exact ⟨s,here,.refl⟩
  | cons happening later ih =>
      obtain ⟨next,moved,rest⟩ := Option.bind_eq_some_iff.mp ran
      by_cases mine : ∃ turn input, happening = .network x turn input
      · obtain ⟨turn,input,rfl⟩ := mine
        have clock : clocks x (.network x turn input :: later) = turn.now :: clocks x later := by simp [clocks]
        rw [clock] at timely
        obtain ⟨t,there,stepped⟩ := network_frame here moved
        obtain ⟨late,early⟩ := timely turn.now List.mem_cons_self
        obtain ⟨kept,spared⟩ := Network.window_step known late early stepped
        obtain ⟨final,found,spares⟩ := ih there kept (fun t member => timely t (List.mem_cons_of_mem _ member)) rest
        exact ⟨final,found,spared.trans spares⟩
      · obtain ⟨t,there,topics,history⟩ := move_frame here (fun turn input same => mine ⟨turn,input,same⟩) moved
        obtain ⟨final,found,spares⟩ := ih there (history ▸ known) (other_clocks mine ▸ timely) rest
        exact ⟨final,found,topics ▸ spares⟩

theorem run_once {interval : Nat} {window : List Happening} (here : w[x]? = some s) (wired : s.net.Wired (some interval))
    (timely : (clocks x window).Pairwise fun a b => a ≤ b ∧ b < a + interval) (ran : w.run hash name window = some w') :
    ∃ t, w'[x]? = some t ∧ ∃ gained, heard t.net.topics name = heard s.net.topics name ++ gained ∧ gained.count data ≤ 1 := by
  induction window generalizing w s with
  | nil =>
      cases ran
      exact ⟨s,here,[],(List.append_nil _).symm,Nat.zero_le 1⟩
  | cons happening later ih =>
      obtain ⟨next,moved,rest⟩ := Option.bind_eq_some_iff.mp ran
      by_cases mine : ∃ turn input, happening = .network x turn input
      · obtain ⟨turn,input,rfl⟩ := mine
        have clock : clocks x (.network x turn input :: later) = turn.now :: clocks x later := by simp [clocks]
        rw [clock,List.pairwise_cons] at timely
        obtain ⟨t,there,stepped⟩ := network_frame here moved
        obtain ⟨soon,timely⟩ := timely
        rcases Network.step_once wired stepped with spares | ⟨known,early,grown,once⟩
        · obtain ⟨fed,recalls⟩ := Network.step_fed stepped
          obtain ⟨final,found,gained,heard,once⟩ := ih there ⟨fed.named wired.named,recalls.lifespan.trans wired.window⟩ timely rest
          obtain ⟨early,grown,absent⟩ := spares
          refine ⟨final,found,early ++ gained,by rw [heard,grown,List.append_assoc],?_⟩
          rw [List.count_append,List.count_eq_zero.mpr absent,Nat.zero_add]
          exact once
        · obtain ⟨final,found,gained,heard,absent⟩ := run_spared there known soon rest
          refine ⟨final,found,early ++ gained,by rw [heard,grown,List.append_assoc],?_⟩
          rw [List.count_append,List.count_eq_zero.mpr absent]
          exact once
      · obtain ⟨t,there,topics,history⟩ := move_frame here (fun turn input same => mine ⟨turn,input,same⟩) moved
        obtain ⟨final,found,gained,heard,once⟩ := ih there ⟨topics ▸ wired.named,history ▸ wired.window⟩ (other_clocks mine ▸ timely) rest
        exact ⟨final,found,gained,topics ▸ heard,once⟩

-- What an application publishes while the overlay stays as it is comes to the
-- nodes that links reach from there, and once if they remember it until then.
theorem gossip_reaches (hash : Message → Multihash) (name : TopicName) (data : Bytes) (configs : BTreeMap PeerId NetworkConfig)
    (past window : List Happening) (unclashed : ∀ msg, hash msg = hash (copyOf name data) → msg = copyOf name data)
    (smooth : (start configs).allSmooth hash name past = true) (began : (start configs).run hash name past = some w)
    (rested : w.resting = true)
    (forgotten : ∀ (x : PeerId) (s : Site), w[x]? = some s → ¬s.net.Recalls (hash (copyOf name data)))
    (smooth' : w.allSmooth hash name window = true) (steady : w.steady hash name window = true)
    (ran : w.run hash name window = some w') (rest : w'.resting = true) (y : PeerId)
    (unpublished : ∀ happening ∈ window, ¬Publishes name data w happening y) :
    (Hears data (w.heardAt name y) (w'.heardAt name y) ↔
      ∃ x, (∃ happening ∈ window, Publishes name data w happening x) ∧
        Relation.ReflTransGen (fun x y => w.linked name x y = true) x y) ∧
    ∀ interval, (∀ s, w[y]? = some s → s.net.config.dedupeInterval = some interval) →
      ((clocks y window).Pairwise fun a b => a ≤ b ∧ b < a + interval) →
      ∃ gained, w'.heardAt name y = w.heardAt name y ++ gained ∧ gained.count data ≤ 1 := by
  obtain ⟨sound,sane⟩ := run_kept (Linking.blank_sound (start_blank configs)) (start_sane configs) smooth began
  have plays : Plays hash name w window w' := ⟨sound,sane,smooth',steady,ran⟩
  have informed : Informed hash name data w w := ⟨resting_carried sound rested _,fun _ => List.prefix_refl _,fun x s here known =>
    (forgotten x s here known).elim,fun _ _ => rfl,fun _ s here => ⟨s,here,rfl⟩⟩
  have silent : News.Covers (w.Linked name) (fun _ => False) (news name data w (fun _ => False) w) :=
    News.silent_covers (fun x told => told.elim id (not_hears_self data _)) (resting_still rested _)
  have both : ∀ y z, w.linkAt name y z ≠ none → w.linkAt name z y ≠ none := fun y z linked =>
    linked_linkAt.mp ((links_symmetric hash name configs past smooth began rested y z).mp (linked_linkAt.mpr linked))
  obtain ⟨after,sources,same,covers⟩ := plays.covers unclashed both rest informed silent
  constructor
  · have adjacent : (fun x y => w.linked name x y = true) = w.Linked name := by
      funext x y
      exact propext linked_linkAt
    have source : ∀ x, sources x ↔ ∃ happening ∈ window, Publishes name data w happening x := by
      intro x
      rw [same]
      simp
    have told := covers.told_iff (resting_still rest _) y
    simp only [source] at told
    rw [adjacent,← told]
    refine ⟨.inr,fun given => given.resolve_left fun published => ?_⟩
    obtain ⟨happening,member,published⟩ := (source y).mp published
    exact unpublished happening member published
  · intro interval dedupes timely
    cases here : w[y]? with
    | none =>
        refine ⟨[],?_,Nat.zero_le 1⟩
        have absent : w'[y]? = none := by
          cases found : w'[y]? with
          | none => rfl
          | some t =>
              obtain ⟨s,there,_⟩ := after.sized y t found
              cases here.symm.trans there
        unfold heardAt
        rw [absent,here,List.append_nil]
    | some s =>
        have wired := (sane y s here).wired
        rw [dedupes s here] at wired
        obtain ⟨t,found,gained,grown,once⟩ := run_once here wired timely ran
        rw [heardAt_here found,heardAt_here here]
        exact ⟨gained,grown,once⟩

end World

-- Node `q` publishes to its neighbour `p`.
namespace BroadcastExample
open NetworkExample SymmetryExample

def published : List Happening :=
  [.network q now (.gossip "topic" [7]),next q,.runloop q,.deliver p 2,next p]

def forgotten (w : World) : Bool := w.toList.all fun entry =>
  entry.2.net.history.all fun history => !history.inner.data.contains (hash (copyOf "topic" [7]))

def plays (w : World) : Bool :=
  w.resting && forgotten w && w.linked "topic" q p && w.allSmooth hash "topic" published &&
    w.steady hash "topic" published && (w.run hash "topic" published).any World.resting

theorem hash_apart (msg : Message) (same : hash msg = hash (copyOf "topic" [7])) : msg = copyOf "topic" [7] := by
  have digests : digest msg = digest gossip := congrArg Multihash.digest same
  rw [digest] at digests
  split at digests
  · exact absurd digests (by decide)
  · split at digests
    · exact absurd digests (by decide)
    · split at digests
      · rename_i is
        exact is
      · exact absurd digests (by decide)

theorem forgotten_recalls {w : World} (free : forgotten w = true) (x : PeerId) (s : Site) (here : w[x]? = some s) :
    ¬s.net.Recalls (hash (copyOf "topic" [7])) := by
  intro known
  obtain ⟨history,kept,inside⟩ := known
  have each := List.all_eq_true.mp free (x,s) (Std.ExtTreeMap.mem_toList_iff_getElem?_eq_some.mpr here)
  dsimp only at each
  rw [kept,Option.all_some,Std.ExtTreeMap.contains_iff_mem.mpr inside] at each
  cases each

theorem unpublished {w : World} : ∀ happening ∈ published, ¬w.Publishes "topic" [7] happening p := by
  intro happening member published
  obtain ⟨⟨turn,rfl⟩,_⟩ := published
  have apart : p ≠ q := by decide
  simp [BroadcastExample.published,next,apart] at member

end BroadcastExample

theorem published_reaches_once : ∃ w w', SymmetryExample.begun.run NetworkExample.hash "topic" SymmetryExample.timely = some w ∧
    w.run NetworkExample.hash "topic" BroadcastExample.published = some w' ∧
    ∃ gained, w'.heardAt "topic" SymmetryExample.p = w.heardAt "topic" SymmetryExample.p ++ gained ∧ gained.count [7] = 1 := by
  have played : (SymmetryExample.begun.allSmooth NetworkExample.hash "topic" SymmetryExample.timely &&
      (SymmetryExample.begun.run NetworkExample.hash "topic" SymmetryExample.timely).any fun w => BroadcastExample.plays w &&
        (w[SymmetryExample.q]?.any fun s => decide (1 ≤ s.net.config.maxTransmitSize)) &&
        w[SymmetryExample.p]?.any fun s => s.net.config.dedupeInterval == some 5000) = true := by
    decide
  obtain ⟨smooth,played⟩ := Bool.and_eq_true_iff.mp played
  obtain ⟨w,began,facts⟩ := (Option.any_eq_true _ _).mp played
  unfold BroadcastExample.plays at facts
  simp only [Bool.and_eq_true] at facts
  obtain ⟨⟨⟨⟨⟨⟨⟨rested,free⟩,linked⟩,smooth'⟩,steady⟩,ends⟩,fits⟩,dedupes⟩ := facts
  obtain ⟨w',ran,rest⟩ := (Option.any_eq_true _ _).mp ends
  obtain ⟨s,here,fits⟩ := (Option.any_eq_true _ _).mp fits
  obtain ⟨t,there,dedupes⟩ := (Option.any_eq_true _ _).mp dedupes
  obtain ⟨reaches,once⟩ := World.gossip_reaches NetworkExample.hash "topic" [7] _ SymmetryExample.timely
    BroadcastExample.published BroadcastExample.hash_apart smooth began rested (BroadcastExample.forgotten_recalls free)
    smooth' steady ran rest SymmetryExample.p BroadcastExample.unpublished
  obtain ⟨gained,grown,one⟩ := once 5000 (fun s here => by
    cases there.symm.trans here
    exact beq_iff_eq.mp dedupes) (by decide)
  refine ⟨w,w',began,ran,gained,grown,Nat.le_antisymm one ?_⟩
  obtain ⟨given,same,inside⟩ := reaches.mpr ⟨SymmetryExample.q,⟨_,List.mem_cons_self,⟨_,rfl⟩,s,here,of_decide_eq_true fits⟩,
    .single linked⟩
  rw [grown,List.append_cancel_left_eq] at same
  rw [same]
  exact List.count_pos_iff.mpr inside

end AnomaAlpha
