import AnomaAlpha.World

namespace AnomaAlpha
open Fallible OrderedMap Linking

-- The world in the terms of linking.
def Link.side (link : Link) : Side PeerId ConnectionId :=
  ⟨link.peer,link.remote,link.up,link.closed,link.wire.map Message.parcel⟩

def Site.node (name : TopicName) (s : Site) : Node PeerId ConnectionId :=
  s.net.node name s.handled fun c => s.ends[c]?.map Link.side

def World.view (name : TopicName) (w : World) : Net PeerId ConnectionId := fun x =>
  w[x]?.elim ⟨fun _ => none,fun _ _ => False,[],[],fun _ => none⟩ (Site.node name)

namespace World
variable {name : TopicName} {w w' : World} {x y : PeerId} {c d : ConnectionId} {s : Site} {link : Link}

theorem view_here (here : w[x]? = some s) : w.view name x = s.node name := by
  unfold view
  rw [here]
  rfl

theorem view_insert (name : TopicName) (w : World) (x : PeerId) (s : Site) :
    view name (w.insert x s) = Function.update (w.view name) x (s.node name) := by
  funext y
  unfold view
  rw [get_insert]
  by_cases same : x = y
  · subst same
    rw [if_pos rfl,Function.update_self]
    rfl
  · rw [if_neg same,Function.update_of_ne fun equal => same equal.symm]

theorem view_revise (name : TopicName) (here : w[x]? = some s) (f : Site → Site) :
    view name (w.revise x f) = Function.update (w.view name) x ((f s).node name) := by
  unfold revise
  rw [here]
  exact view_insert name w x (f s)

theorem view_side (name : TopicName) (w : World) (x : PeerId) (c : ConnectionId) :
    (w.view name x).sides c = (w.endAt x c).map Link.side := by
  unfold view endAt
  cases w[x]? <;> rfl

theorem node_put (name : TopicName) (s : Site) (c : ConnectionId) (link : Link) :
    (s.put c link).node name = (s.node name).put c link.side := by
  have sides : (fun d => (s.ends.insert c link)[d]?.map Link.side) =
      Function.update (fun d => s.ends[d]?.map Link.side) c (some link.side) := by
    funext d
    rw [get_insert]
    by_cases same : c = d
    · subst same
      rw [if_pos rfl,Function.update_self]
      rfl
    · rw [if_neg same,Function.update_of_ne fun equal => same equal.symm]
  unfold Site.node Site.put Network.node Node.put
  dsimp only
  rw [sides]

theorem node_tell (name : TopicName) (s : Site) (event : SwarmEvent) :
    (s.tell event).node name = (s.node name).tell event.notice := by
  unfold Site.node Site.tell Network.node Node.tell
  dsimp only
  rw [List.map_append]
  rfl

theorem node_sever (name : TopicName) (s : Site) (which : ConnectionId → PeerId → Bool) :
    (s.sever which).node name = (s.node name).sever which := by
  unfold Site.node Site.sever Network.node Node.sever
  dsimp only
  congr 1
  funext c
  rw [Std.ExtTreeMap.getElem?_map,Option.map_map,Option.map_map]
  rfl

theorem node_count (name : TopicName) {command : RunloopCommand} (due : s.net.runloop[s.handled]? = some command) :
    ∃ rest, (s.node name).out = command.ask :: rest ∧ s.count.node name = {s.node name with out := rest} := by
  refine ⟨(s.net.runloop.drop (s.handled + 1)).map RunloopCommand.ask,?_,rfl⟩
  obtain ⟨bound,found⟩ := List.getElem?_eq_some_iff.mp due
  change (s.net.runloop.drop s.handled).map RunloopCommand.ask = _
  rw [List.drop_eq_getElem_cons bound,found,List.map_cons]

theorem revise_here (w : World) (x y : PeerId) (f : Site → Site) :
    (w.revise x f)[y]? = if x = y then w[y]?.map f else w[y]? := by
  unfold revise
  cases here : w[x]? with
  | none =>
      dsimp only
      split
      · rename_i same
        subst same
        rw [here]
        rfl
      · rfl
  | some s =>
      dsimp only
      rw [get_insert]
      split
      · rename_i same
        subst same
        rw [here]
        rfl
      · rfl

theorem sever_step (name : TopicName) (here : w[x]? = some s) (which : ConnectionId → PeerId → Bool) :
    Linking.Step (w.view name) (view name (w.revise x fun s => s.sever which)) := by
  rw [view_revise name here,node_sever,← view_here here]
  exact .sever x which

theorem severed_side {which : ConnectionId → PeerId → Bool} (here : w[x]? = some s) {side : Side PeerId ConnectionId}
    (found : (view name (w.revise x fun s => s.sever which) x).sides c = some side) (chosen : which c side.peer = true) :
    side.up = false := by
  rw [view_revise name here,Function.update_self,node_sever] at found
  obtain ⟨before,_,rfl⟩ := Option.map_eq_some_iff.mp found
  dsimp only at chosen ⊢
  rw [chosen,Bool.not_true,Bool.and_false]

theorem post_step {link beyond : Link} {msg : Message} (away : link.peer ≠ x)
    (due : (w.view name x).out = .send link.peer c msg.parcel :: rest) (near : w.endAt x c = some link)
    (reached : w.endAt link.peer link.remote = some beyond) :
    let w' := w.revise link.peer fun s => s.put link.remote {beyond with wire := beyond.wire ++ [msg]}
    Linking.Step (w.view name) (w'.view name) ∧ Done (w'.view name) x (.send link.peer c msg.parcel) := by
  intro w'
  have side : (w.view name x).sides c = some link.side := by
    rw [view_side,near]
    rfl
  have there : (w.view name link.peer).sides link.remote = some beyond.side := by
    rw [view_side,reached]
    rfl
  have posted : w'.view name = Function.update (w.view name) link.peer ((w.view name link.peer).put link.remote
      {beyond.side with wire := beyond.side.wire ++ [msg.parcel]}) := by
    obtain ⟨t,site,_⟩ := Option.bind_eq_some_iff.mp reached
    rw [view_revise name site,node_put,view_here site]
    unfold Link.side
    rw [List.map_append]
    rfl
  rw [posted]
  refine ⟨.post x link.peer due side rfl there,?_⟩
  cases parcel : msg.parcel with
  | other => trivial
  | offer =>
      intro given found _
      rw [Function.update_of_ne fun equal => away equal.symm] at found
      cases Option.some.inj (side.symm.trans found)
      refine .inr ⟨{beyond.side with wire := beyond.side.wire ++ [.offer]},?_,by simp⟩
      rw [Function.update_self]
      exact (put_sides _ _ _ _).trans (if_pos rfl)

theorem unsent_done {peer : PeerId} {parcel : Parcel} (other : ∀ link, w.endAt x c = some link → link.peer ≠ peer) :
    Done (w.view name) x (.send peer c parcel) := by
  cases parcel with
  | other => trivial
  | offer =>
      intro side found same
      rw [view_side] at found
      obtain ⟨link,held,rfl⟩ := Option.map_eq_some_iff.mp found
      exact (other link held same).elim

theorem carryOut_steps (sound : Sound (w.view name)) (here : w[x]? = some s) {command : RunloopCommand}
    (due : (w.view name x).out = command.ask :: rest) :
    Relation.ReflTransGen Linking.Step (w.view name) (view name (w.carryOut x command)) ∧
      Done (view name (w.carryOut x command)) x command.ask := by
  cases command with
  | connect addr => exact ⟨.refl,trivial⟩
  | disconnect peer connection =>
      refine ⟨.single (sever_step name here _),?_⟩
      intro side found same
      exact severed_side here found (by simp [same])
  | banPeer peer =>
      refine ⟨.single (sever_step name here _),?_⟩
      intro c side found same
      exact severed_side here found (by simp [same])
  | sendMessage peer connection msg =>
      unfold carryOut
      dsimp only
      cases near : w.endAt x connection with
      | none => exact ⟨.refl,unsent_done fun link held => by cases near.symm.trans held⟩
      | some link =>
          dsimp only
          split
          · rename_i same
            subst same
            have side : (w.view name x).sides connection = some link.side := by
              rw [view_side,near]
              rfl
            obtain ⟨away,far,there,_⟩ := sound.paired x connection link.side side
            obtain ⟨beyond,reached,rfl⟩ :=
              Option.map_eq_some_iff.mp ((view_side name w link.peer link.remote).symm.trans there)
            rw [reached]
            obtain ⟨step,done⟩ := post_step away due near reached
            exact ⟨.single step,done⟩
          · rename_i other
            exact ⟨.refl,unsent_done fun given held => by cases near.symm.trans held; exact other⟩

theorem carryOut_site (w : World) (z : PeerId) (command : RunloopCommand) (here : w[x]? = some s) :
    ∃ t, (w.carryOut z command)[x]? = some t ∧ t.net = s.net ∧ t.handled = s.handled := by
  have revised : ∀ (z : PeerId) (f : Site → Site), (f s).net = s.net → (f s).handled = s.handled →
      ∃ t, (w.revise z f)[x]? = some t ∧ t.net = s.net ∧ t.handled = s.handled := by
    intro z f net handled
    rw [revise_here,here]
    split
    · exact ⟨f s,rfl,net,handled⟩
    · exact ⟨s,rfl,rfl,rfl⟩
  unfold carryOut
  split
  · exact ⟨s,here,rfl,rfl⟩
  · exact revised _ _ rfl rfl
  · exact revised _ _ rfl rfl
  · split
    · exact ⟨s,here,rfl,rfl⟩
    · split
      · split
        · exact ⟨s,here,rfl,rfl⟩
        · exact revised _ _ rfl rfl
      · exact ⟨s,here,rfl,rfl⟩

theorem runloop_steps (sound : Sound (w.view name)) (here : w[x]? = some s) {command : RunloopCommand}
    (due : s.net.runloop[s.handled]? = some command) :
    Relation.ReflTransGen Linking.Step (w.view name) (view name ((w.carryOut x command).revise x .count)) := by
  obtain ⟨rest,out,_⟩ := node_count name due
  rw [← view_here here] at out
  obtain ⟨steps,done⟩ := carryOut_steps sound here out
  obtain ⟨t,there,net,handled⟩ := carryOut_site w x command here
  obtain ⟨rest',out',counted⟩ := node_count name (show t.net.runloop[t.handled]? = some command by rw [net,handled,due])
  rw [view_revise name there,counted,← view_here there]
  rw [← view_here there] at out'
  exact steps.tail (.done x out' done)

end World

-- What the runloop has told a network, and what has not been taken up yet.
def pending (commands : List Command) : List SwarmEvent := commands.filterMap fun command => (Deed.command command).event

def Link.flags (link : Link) : PeerId × Bool × Bool := (link.peer,link.opened,link.closed)

structure Told (told : List SwarmEvent) (ends : HashMap ConnectionId Link) : Prop where
  ordered : inOrder told = true
  fresh : ∀ c, (∀ link, ends[c]? = some link → link.opened = false) → told.any (establishes c) = false
  alive : ∀ c link, ends[c]? = some link → link.opened = true → link.closed = false → isOpen told link.peer c = true

namespace Told
variable {told : List SwarmEvent} {ends ends' : HashMap ConnectionId Link} {link later : Link} {c : ConnectionId}

theorem same (kept : Told told ends)
    (flags : ∀ c : ConnectionId, ends'[c]?.map Link.flags = ends[c]?.map Link.flags) : Told told ends' := by
  have back : ∀ (c : ConnectionId) (later : Link), ends'[c]? = some later →
      ∃ link : Link, ends[c]? = some link ∧ link.flags = later.flags := by
    intro c later found
    have both := flags c
    rw [found] at both
    exact Option.map_eq_some_iff.mp both.symm
  refine ⟨kept.ordered,?_,?_⟩
  · intro c unopened
    refine kept.fresh c fun link held => ?_
    have both := flags c
    rw [held] at both
    obtain ⟨later,found,equal⟩ := Option.map_eq_some_iff.mp both
    exact (congrArg (·.2.1) equal).symm.trans (unopened later found)
  · intro c later found opened alive
    obtain ⟨link,held,equal⟩ := back c later found
    rw [← show link.peer = later.peer from congrArg Prod.fst equal]
    exact kept.alive c link held ((congrArg (·.2.1) equal).trans opened) ((congrArg (·.2.2) equal).trans alive)

theorem put (kept : Told told ends) (held : ends[c]? = some link) (flags : later.flags = link.flags) :
    Told told (ends.insert c later) := by
  refine kept.same fun d => ?_
  rw [get_insert]
  split
  · rename_i same
    subst same
    rw [held,Option.map_some,Option.map_some,flags]
  · rfl

theorem connected (kept : Told told ends) (absent : ends[c]? = none) (unopened : later.opened = false) :
    Told told (ends.insert c later) := by
  refine ⟨kept.ordered,?_,?_⟩
  · intro d quiet
    refine kept.fresh d fun link held => quiet link ?_
    rw [get_insert,if_neg]
    · exact held
    · intro same
      subst same
      cases absent.symm.trans held
  · intro d given found opened alive
    rw [get_insert] at found
    split at found
    · cases found
      rw [unopened] at opened
      cases opened
    · exact kept.alive d given found opened alive

theorem passing (kept : Told told ends) (event : SwarmEvent) (passes : AnomaAlpha.passing event = true)
    (admitted : admits told event = true) : Told (told ++ [event]) ends := by
  refine ⟨?_,?_,?_⟩
  · rw [inOrder_snoc,kept.ordered,admitted]
    rfl
  · intro c unopened
    rw [List.any_append,kept.fresh c unopened]
    cases event with
    | messageReceived sender connection msg => rfl
    | localAddressDiscovered addr => rfl
    | _ => cases passes
  · intro c link held opened alive
    rw [isOpen_passing passes]
    exact kept.alive c link held opened alive

theorem established (kept : Told told ends) (held : ends[c]? = some link) (unopened : link.opened = false)
    (addresses : HashSet Multiaddr) : Told (told ++ [.connectionEstablished ⟨link.peer,addresses⟩ link.dialer c])
      (ends.insert c {link with opened := true}) := by
  have admitted : admits told (.connectionEstablished ⟨link.peer,addresses⟩ link.dialer c) = true := by
    change (!told.any (establishes c)) = true
    rw [kept.fresh c fun given found => by cases held.symm.trans found; exact unopened]
    rfl
  refine ⟨?_,?_,?_⟩
  · rw [inOrder_snoc,kept.ordered,admitted]
    rfl
  · intro d unopened
    have other : c ≠ d := by
      intro same
      subst same
      have opened := unopened _ (by rw [get_insert,if_pos rfl])
      cases opened
    rw [List.any_append,kept.fresh d fun given found => unopened given (by rw [get_insert,if_neg other]; exact found)]
    simp [establishes,other]
  · intro d given found opened alive
    rw [get_insert] at found
    refine (isOpen_established kept.ordered admitted _ _).mpr ?_
    split at found
    · rename_i same
      cases found
      exact .inl ⟨rfl,same⟩
    · exact .inr (kept.alive d given found opened alive)

theorem closed (kept : Told told ends) (held : ends[c]? = some link) (opened : link.opened = true)
    (alive : link.closed = false) (shut : later.closed = true) (still : later.opened = true) :
    Told (told ++ [.connectionClosed link.peer c]) (ends.insert c later) := by
  refine ⟨?_,?_,?_⟩
  · rw [inOrder_snoc,kept.ordered]
    exact kept.alive c link held opened alive
  · intro d unopened
    rw [List.any_append,kept.fresh d ?_]
    · rfl
    · intro given found
      by_cases same : c = d
      · subst same
        have opened := unopened later (by rw [get_insert,if_pos rfl])
        rw [still] at opened
        cases opened
      · exact unopened given (by rw [get_insert,if_neg same]; exact found)
  · intro d given found opened alive
    rw [get_insert] at found
    split at found
    · cases found
      rw [shut] at alive
      cases alive
    · rename_i other
      exact (isOpen_closed _ _ _ _ _).mpr ⟨kept.alive d given found opened alive,fun same => other same.2⟩

end Told

structure Site.Sane (name : TopicName) (hash : Message → Multihash) (x : PeerId) (s : Site) : Prop where
  sole : s.net.Sole name
  behind : s.handled ≤ s.net.runloop.length
  history : ∃ config deeds log m, Performed hash (fun _ _ _ => True) (.new config x) deeds log m ∧
    s.net = {m with commands := s.net.commands} ∧ Told (swarmEvents deeds ++ pending s.net.commands) s.ends

theorem Network.step_deed {n n' : Network} {hash : Message → Multihash} {input : Input} (ours : input.ours name = true)
    (stepped : n.step hash turn input = .ok n') : n' = n ∧ input = .command ∧ n.commands = [] ∨
      ∃ deed queue, n.commands = deed.taken ++ queue ∧ {n with commands := queue}.perform hash turn deed = .ok n' ∧
        (∀ config, deed = .join config → config.name = name) ∧
        (quietly deed = true ∨ input = .command ∧ ∃ command, deed = .command command) := by
  cases input with
  | tick => exact .inr ⟨.tick,n.commands,rfl,stepped,nofun,.inl rfl⟩
  | join config =>
      refine .inr ⟨.join config,n.commands,rfl,stepped,?_,.inl rfl⟩
      intro given same
      cases same
      exact beq_iff_eq.mp ours
  | gossip file data => exact .inr ⟨.gossip file data,n.commands,rfl,stepped,nofun,.inl rfl⟩
  | event event => cases ours
  | command =>
      cases queued : n.commands with
      | nil =>
          unfold step at stepped
          dsimp only at stepped
          rw [queued] at stepped
          cases stepped
          exact .inl ⟨rfl,rfl,rfl⟩
      | cons command queue =>
          unfold step at stepped
          dsimp only at stepped
          rw [queued] at stepped
          exact .inr ⟨.command command,queue,rfl,stepped,nofun,.inr ⟨rfl,command,rfl⟩⟩

theorem pending_asks {commands sent : List Command} {asks : List (Ask PeerId ConnectionId)}
    (items : sent.map Command.item = asks.map .ask) : pending (commands ++ sent) = pending commands := by
  have none : ∀ command ∈ sent, (Deed.command command).event = none := by
    intro command member
    cases command with
    | injectEvent event =>
        have mapped : Command.item (.injectEvent event) ∈ asks.map Item.ask := items ▸ List.mem_map_of_mem member
        obtain ⟨_,_,same⟩ := List.mem_map.mp mapped
        cases same
    | _ => rfl
  unfold pending
  rw [List.filterMap_append,List.filterMap_eq_nil_iff.mpr none,List.append_nil]

theorem pending_taken (deed : Deed) (queue : List Command) :
    pending (deed.taken ++ queue) = deed.event.toList ++ pending queue := by
  unfold pending
  rw [List.filterMap_append]
  cases deed with
  | command command => cases about : (Deed.command command).event <;> simp [Deed.taken,about]
  | _ => rfl

theorem told_admitted {past later : List SwarmEvent} {event : SwarmEvent}
    (ordered : inOrder (past ++ event :: later) = true) : admits past event = true := by
  unfold inOrder at ordered
  rw [inOrderFrom_append,List.nil_append] at ordered
  exact (Bool.and_eq_true_iff.mp (Bool.and_eq_true_iff.mp ordered).2).1

namespace Site.Sane
variable {name : TopicName} {hash : Message → Multihash} {x : PeerId} {s : Site}

theorem ends {ends : HashMap ConnectionId Link} (sane : s.Sane name hash x)
    (flags : ∀ c : ConnectionId, ends[c]?.map Link.flags = s.ends[c]?.map Link.flags) :
    Site.Sane name hash x {s with ends := ends} := by
  obtain ⟨config,deeds,log,m,history,is,told⟩ := sane.history
  exact ⟨sane.sole,sane.behind,config,deeds,log,m,history,is,told.same flags⟩

theorem sever (sane : s.Sane name hash x) (which : ConnectionId → PeerId → Bool) :
    (s.sever which).Sane name hash x := by
  refine sane.ends fun c => ?_
  rw [Std.ExtTreeMap.getElem?_map,Option.map_map]
  rfl

theorem connected {c : ConnectionId} {link : Link} (sane : s.Sane name hash x) (absent : s.ends[c]? = none)
    (unopened : link.opened = false) : (s.put c link).Sane name hash x := by
  obtain ⟨config,deeds,log,m,history,is,told⟩ := sane.history
  exact ⟨sane.sole,sane.behind,config,deeds,log,m,history,is,told.connected absent unopened⟩

theorem tell (sane : s.Sane name hash x) {ends : HashMap ConnectionId Link} (event : SwarmEvent)
    (told : ∀ past, Told past s.ends → Told (past ++ [event]) ends) :
    (Site.tell {s with ends := ends} event).Sane name hash x := by
  obtain ⟨config,deeds,log,m,history,is,before⟩ := sane.history
  refine ⟨sane.sole,sane.behind,config,deeds,log,m,history,?_,?_⟩
  · unfold Site.tell
    dsimp only
    rw [is]
  · have more : pending (s.net.commands ++ [.injectEvent event]) = pending s.net.commands ++ [event] := by
      unfold pending
      rw [List.filterMap_append]
      rfl
    unfold Site.tell
    dsimp only
    rw [more,← List.append_assoc]
    exact told _ before

end Site.Sane

namespace World
variable {name : TopicName} {hash : Message → Multihash} {w w' : World} {x y : PeerId} {s : Site}

theorem network_deed (sound : Sound (w.view name)) (here : w[x]? = some s) (sane : s.Sane name hash x) {deed : Deed}
    {queue : List Command} {net : Network} (queued : s.net.commands = deed.taken ++ queue)
    (performed : {s.net with commands := queue}.perform hash turn deed = .ok net)
    (ours : ∀ config, deed = .join config → config.name = name)
    (smooth : Network.quietly deed = false → {s.net with commands := queue}.smooth hash name turn deed = true) :
    Linking.Step (w.view name) (view name (w.insert x {s with net := net})) ∧
      Site.Sane name hash x {s with net := net} := by
  obtain ⟨config,deeds,log,m,history,is,told⟩ := sane.history
  rw [queued,pending_taken,← List.append_assoc] at told
  have ordered : inOrder (swarmEvents deeds) = true := by
    have whole := told.ordered
    unfold inOrder at whole ⊢
    rw [List.append_assoc,inOrderFrom_append] at whole
    exact (Bool.and_eq_true_iff.mp whole).1
  have tidy := history.tidy (Network.new_tidy config x)
  have booked := history.booked (Muxer.new_booked _) ordered
  have live := history.live (fun name topic p c found => by simp [Network.new] at found) (Network.new_tidy config x)
    (Muxer.new_booked _) ordered
  have topics : s.net.topics = m.topics := by rw [is]
  have muxer : s.net.muxer = m.muxer := by rw [is]
  have home : s.net.home = m.home := by rw [is]; rfl
  have own : s.net.this.peerId = x := congrArg Prod.snd (home.trans tidy.2)
  have admitted : ∀ event ∈ deed.event, admits (swarmEvents deeds) event = true := by
    intro event about
    have whole := told.ordered
    rw [Option.mem_def.mp about,List.append_assoc] at whole
    exact told_admitted whole
  have foreign : ∀ notice p c, deed.item = some (.notice notice) → notice.about = some (p,c) → p ≠ s.net.this.peerId := by
    intro notice p c is about
    have waits : .notice notice ∈ (w.view name x).channel := by
      rw [view_here here]
      change _ ∈ s.net.commands.map Command.item
      rw [queued]
      cases deed with
      | command command =>
          injection is with same
          rw [← same]
          exact List.mem_map_of_mem (List.mem_append_left _ (List.mem_singleton_self _))
      | _ => cases is
    obtain ⟨side,held,rfl,_⟩ := (sound.orderly x).told notice p c waits about
    rw [own]
    exact (sound.paired x c side held).1
  have acts := Network.perform_act (n:={s.net with commands := queue})
    ⟨topics ▸ tidy.1.named,by
      change Homed s.net.home s.net.topics
      rw [home,topics]
      exact tidy.1.homed⟩ (muxer ▸ booked : s.net.muxer.Booked _)
    (by
      change ∀ name topic p c, s.net.topics[name]? = some topic → topic.Linked p c →
        s.net.muxer.resolveTopic p c = some name
      rw [topics,muxer]
      exact live) sane.sole admitted foreign smooth performed sane.behind fun c => s.ends[c]?.map Link.side
  obtain ⟨sent,asks,issued,written,items,longer,act⟩ := acts
  constructor
  · have before : {s.net with commands := deed.taken ++ queue} = s.net := by rw [← queued]
    change Act deed.item asks issued ({s.net with commands := deed.taken ++ queue}.node name s.handled _) _ at act
    rw [before] at act
    rw [view_insert]
    refine .act x (?_ : Act deed.item asks issued _ _)
    rw [view_here here]
    exact act
  · refine ⟨Network.sole_kept (n:={s.net with commands := queue}) sane.sole performed ours,?_,?_⟩
    · exact sane.behind.trans (by rw [longer]; exact Nat.le_add_right _ _)
    · have did : {m with commands := queue}.perform hash turn deed = .ok net := by
        rw [← performed,is]
      refine ⟨config,deeds ++ [(turn,deed)],_,net,.snoc history trivial did,rfl,?_⟩
      dsimp only
      rw [written,pending_asks items,swarmEvents_snoc]
      exact told

theorem network_steps (sound : Sound (w.view name)) (here : w[x]? = some s) (sane : s.Sane name hash x)
    {input : Network.Input} {net : Network} (ours : input.ours name = true)
    (smooth : w.smooth hash name (.network x turn input) = true) (stepped : s.net.step hash turn input = .ok net) :
    Relation.ReflTransGen Linking.Step (w.view name) (view name (w.insert x {s with net := net})) ∧
      Site.Sane name hash x {s with net := net} := by
  rcases Network.step_deed ours stepped with ⟨rfl,_⟩ | ⟨deed,queue,queued,performed,joins,quiet⟩
  · refine ⟨?_,sane⟩
    rw [view_insert,← view_here here,Function.update_eq_self]
  · obtain ⟨step,sane'⟩ := network_deed sound here sane queued performed joins (by
      intro loud
      rcases quiet with quiet | ⟨rfl,command,rfl⟩
      · rw [loud] at quiet
        cases quiet
      · unfold World.smooth at smooth
        dsimp only at smooth
        rw [here] at smooth
        change s.net.commands = command :: queue at queued
        simpa [queued] using smooth)
    exact ⟨.single step,sane'⟩

def Sane (name : TopicName) (hash : Message → Multihash) (w : World) : Prop :=
  ∀ (x : PeerId) (s : Site), w[x]? = some s → s.Sane name hash x

theorem Sane.insert (sane : w.Sane name hash) (here : s.Sane name hash x) : World.Sane name hash (w.insert x s) := by
  intro y t found
  rw [get_insert] at found
  split at found
  · rename_i same
    cases found
    exact same ▸ here
  · exact sane y t found

theorem Sane.revise {f : Site → Site} (sane : w.Sane name hash)
    (kept : ∀ s, w[x]? = some s → s.Sane name hash x → (f s).Sane name hash x) : World.Sane name hash (w.revise x f) := by
  unfold World.revise
  split
  · rename_i s here
    exact sane.insert (kept s here (sane x s here))
  · exact sane

theorem carryOut_sane (sane : w.Sane name hash) (x : PeerId) (command : RunloopCommand) :
    (w.carryOut x command).Sane name hash := by
  unfold carryOut
  split
  · exact sane
  · exact sane.revise fun s _ here => here.sever _
  · exact sane.revise fun s _ here => here.sever _
  · split
    · exact sane
    · rename_i link near
      split
      · split
        · exact sane
        · rename_i far reached
          refine sane.revise fun s there here => here.ends fun c => ?_
          obtain ⟨t,site,held⟩ := Option.bind_eq_some_iff.mp reached
          cases there.symm.trans site
          rw [get_insert]
          split
          · rename_i same
            subst same
            rw [held]
            rfl
          · rfl
      · exact sane

theorem runloop_sane (sane : w.Sane name hash) (here : w[x]? = some s) {command : RunloopCommand}
    (due : s.net.runloop[s.handled]? = some command) : World.Sane name hash ((w.carryOut x command).revise x .count) := by
  refine (carryOut_sane sane x command).revise fun t there kept => ?_
  obtain ⟨t',there',net,handled⟩ := carryOut_site w x command here
  cases there.symm.trans there'
  refine ⟨kept.sole,?_,kept.history⟩
  change t.handled + 1 ≤ t.net.runloop.length
  rw [net,handled]
  exact (List.getElem?_eq_some_iff.mp due).1

theorem vacant {ends : HashMap ConnectionId Link} (free : (!ends.contains c) = true) : ends[c]? = none := by
  refine Std.ExtTreeMap.getElem?_eq_none fun inside => ?_
  rw [Std.ExtTreeMap.contains_iff_mem.mpr inside] at free
  cases free

theorem connect_step {t : Site} (here : w[x]? = some s) (there : w[y]? = some t) (apart : x ≠ y)
    (noneX : s.ends[c]? = none) (noneY : t.ends[d]? = none) : Linking.Step (w.view name) (view name
      ((w.insert x (s.put c ⟨y,d,true,false,true,false,[]⟩)).insert y (t.put d ⟨x,c,false,false,true,false,[]⟩))) := by
  rw [view_insert,view_insert,node_put,node_put,← view_here here,← view_here there]
  refine .connect x y c d apart ?_ ?_
  · rw [view_here here]
    exact congrArg (Option.map Link.side) noneX
  · rw [view_here there]
    exact congrArg (Option.map Link.side) noneY

theorem told_step {c : ConnectionId} {link later : Link} {event : SwarmEvent} (here : w[x]? = some s)
    (held : s.ends[c]? = some link) (tells : Tells c link.side later.side event.notice) :
    Linking.Step (w.view name) (view name (w.insert x ((s.put c later).tell event))) := by
  rw [view_insert,node_tell,node_put,← view_here here]
  refine .tell x ?_ tells
  rw [view_here here]
  exact congrArg (Option.map Link.side) held

theorem told_sane {c : ConnectionId} {later : Link} {event : SwarmEvent} (sane : w.Sane name hash) (here : w[x]? = some s)
    (told : ∀ past, Told past s.ends → Told (past ++ [event]) (s.ends.insert c later)) :
    World.Sane name hash (w.insert x ((s.put c later).tell event)) :=
  sane.insert ((sane x s here).tell event told)

-- What happens in the world happens among nodes that link.
theorem move_steps (sound : Sound (w.view name)) (sane : w.Sane name hash) {happening : Happening}
    (smooth : w.smooth hash name happening = true) (moved : w.move hash name happening = some w') :
    Relation.ReflTransGen Linking.Step (w.view name) (w'.view name) ∧ w'.Sane name hash := by
  cases happening with
  | network x turn input =>
      obtain ⟨s,here,moved⟩ := Option.bind_eq_some_iff.mp moved
      split at moved
      · rename_i ours
        split at moved
        · rename_i net stepped
          cases moved
          obtain ⟨steps,sane'⟩ := network_steps sound here (sane x s here) ours smooth stepped
          exact ⟨steps,sane.insert sane'⟩
        · cases moved
      · cases moved
  | runloop x =>
      obtain ⟨s,here,moved⟩ := Option.bind_eq_some_iff.mp moved
      obtain ⟨command,due,moved⟩ := Option.bind_eq_some_iff.mp moved
      cases moved
      exact ⟨runloop_steps sound here due,runloop_sane sane here due⟩
  | connect x y c d =>
      obtain ⟨s,here,moved⟩ := Option.bind_eq_some_iff.mp moved
      obtain ⟨t,there,moved⟩ := Option.bind_eq_some_iff.mp moved
      split at moved
      · rename_i free
        cases moved
        obtain ⟨apart,freeX,freeY⟩ := free
        exact ⟨.single (connect_step here there apart (vacant freeX) (vacant freeY)),
          (sane.insert ((sane x s here).connected (vacant freeX) rfl)).insert
            ((sane y t there).connected (vacant freeY) rfl)⟩
      · cases moved
  | establish x c addresses =>
      obtain ⟨s,here,moved⟩ := Option.bind_eq_some_iff.mp moved
      obtain ⟨link,held,moved⟩ := Option.bind_eq_some_iff.mp moved
      split at moved
      · cases moved
      · rename_i unopened
        cases moved
        obtain ⟨unopened,alive⟩ := not_or.mp unopened
        have unopened : link.opened = false := by simpa using unopened
        have alive : link.closed = false := by simpa using alive
        exact ⟨.single (told_step here held (.opened alive)),told_sane sane here fun past told =>
          told.established held unopened _⟩
  | deliver x c =>
      obtain ⟨s,here,moved⟩ := Option.bind_eq_some_iff.mp moved
      obtain ⟨link,held,moved⟩ := Option.bind_eq_some_iff.mp moved
      split at moved
      · cases moved
      · rename_i msg wire carried
        split at moved
        · rename_i alive
          cases moved
          obtain ⟨opened,alive⟩ := alive
          have alive : link.closed = false := by simpa using alive
          refine ⟨.single (told_step here held ?_),told_sane sane here fun past told => ?_⟩
          · refine .arrived alive ?_
            change link.wire.map Message.parcel = _
            rw [carried]
            rfl
          · have kept : Told past (s.ends.insert c {link with wire := wire}) := told.put held rfl
            exact kept.passing (.messageReceived link.peer c msg) rfl (told.alive c link held opened alive)
        · cases moved
  | close x c =>
      obtain ⟨s,here,moved⟩ := Option.bind_eq_some_iff.mp moved
      obtain ⟨link,held,moved⟩ := Option.bind_eq_some_iff.mp moved
      split at moved
      · rename_i alive
        cases moved
        obtain ⟨opened,alive⟩ := alive
        have alive : link.closed = false := by simpa using alive
        refine ⟨.single (told_step here held (.closed alive)),told_sane sane here fun past told => ?_⟩
        exact told.closed held opened alive rfl opened
      · cases moved
  | address x addr =>
      obtain ⟨s,here,moved⟩ := Option.bind_eq_some_iff.mp moved
      cases moved
      refine ⟨.single ?_,sane.insert ((sane x s here).tell (.localAddressDiscovered addr) fun past told =>
        told.passing _ rfl rfl)⟩
      rw [view_insert,node_tell,← view_here here]
      exact .news x

end World
end AnomaAlpha
