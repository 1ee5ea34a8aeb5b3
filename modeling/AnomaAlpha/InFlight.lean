import AnomaAlpha.Dials

namespace AnomaAlpha
open Fallible OrderedMap

-- A dial that the runloop has been told to make, for whom and when. A tick finds
-- it overdue once its time is up.
structure Dial where
  addr : Multiaddr
  topic : TopicName
  since : Nat
  overdue : Bool
  deriving DecidableEq

namespace Dial

def host (dial : Dial) : Option IpAddress := IpAddress.ofMultiaddr dial.addr

def timely (timeout now : Nat) (dial : Dial) : Bool := !dial.overdue && decide (now - dial.since ≤ timeout)

def tick (timeout now : Nat) (dial : Dial) : Dial :=
  {dial with overdue := dial.overdue || decide (timeout ≤ now - dial.since)}

theorem timely_iff {dial : Dial} : dial.timely timeout now = true ↔ dial.overdue = false ∧ now - dial.since ≤ timeout := by
  simp [timely]

theorem timely_earlier {dial : Dial} (later : clock ≤ now) (timely : dial.timely timeout now = true) :
    dial.timely timeout clock = true := by
  obtain ⟨fresh,young⟩ := timely_iff.mp timely
  exact timely_iff.mpr ⟨fresh,by omega⟩

theorem tick_timely {dial : Dial} (timely : (dial.tick timeout now).timely timeout now = true) :
    dial.timely timeout now = true ∧ now - dial.since < timeout := by
  obtain ⟨fresh,young⟩ := timely_iff.mp timely
  obtain ⟨before,left⟩ := Bool.or_eq_false_iff.mp fresh
  exact ⟨timely_iff.mpr ⟨before,young⟩,by simpa using left⟩

end Dial

def Opens (now : Nat) (before : ExpiringMap IpAddress TopicName) (dial : Option (Multiaddr × TopicName))
    (after : ExpiringMap IpAddress TopicName) : Prop :=
  dial = none ∧ after = before ∨ ∃ addr topic ip, dial = some (addr,topic) ∧ IpAddress.ofMultiaddr addr = some ip ∧
    before.get now ip = none ∧ after = (before.insert now ip topic).2

def begun (now : Nat) (made : Option (Multiaddr × TopicName)) : List Dial :=
  (made.map fun made => ⟨made.1,made.2,now,false⟩).toList

namespace Deed

def answers : Deed → Bool
  | .command (.injectEvent (.connectionEstablished _ true _)) => true
  | _ => false

def completes (peer : PeerId) (addr : Multiaddr) (connection : ConnectionId) : Deed :=
  .command (.injectEvent (.connectionEstablished ⟨peer,[addr]⟩ true connection))

-- What a deed does to the dials in flight before it makes another one.
def ages (timeout now : Nat) : Deed → List Dial → List Dial
  | .tick,dials => dials.map (Dial.tick timeout now)
  | _,dials => dials

end Deed

namespace Muxer
variable {m : Muxer} {turn : Turn} {addr given : Multiaddr} {topic name : TopicName} {ip : IpAddress}

theorem tryDial_opens (now : Nat) (m : Muxer) (given : Multiaddr) (name : TopicName) :
    Opens now m.ongoingDials (m.tryDial now given name).1 (m.tryDial now given name).2.ongoingDials := by
  unfold tryDial
  cases next : m.nextDial now given name with
  | mk made muxer =>
      cases made with
      | false => exact .inl ⟨rfl,by rw [nextDial_unmade next]⟩
      | true =>
          obtain ⟨ip,known,free,_,_,table⟩ := nextDial_made next
          exact .inr ⟨given,name,ip,rfl,known,free,table⟩

theorem putDial_ongoing (m : Muxer) (given : Multiaddr) (name : TopicName) :
    (m.putDial given name).ongoingDials = m.ongoingDials := by
  unfold putDial
  split <;> rfl

def found (m : Muxer) (turn : Turn) : Deed → ExpiringMap IpAddress TopicName
  | .tick => m.ongoingDials.pruneExpired turn.now
  | _ => m.ongoingDials

theorem dials_opens (turn : Turn) (m : Muxer) (other : deed.answers = false) :
    Opens turn.now (m.found turn deed) (m.dials turn deed).1 (m.dials turn deed).2.ongoingDials := by
  cases deed with
  | tick =>
      unfold dials
      dsimp only
      split
      · exact .inl ⟨rfl,rfl⟩
      · exact tryDial_opens turn.now (m.pruneExpired turn.now) _ _
  | command command =>
      cases command with
      | connect given name =>
          have opens := tryDial_opens turn.now (m.putDial given name) given name
          rw [putDial_ongoing] at opens
          exact opens
      | injectEvent event =>
          cases event with
          | connectionEstablished peer dialer connection =>
              cases dialer with
              | true => cases other
              | false => exact .inl ⟨rfl,rfl⟩
          | _ => exact .inl ⟨rfl,rfl⟩
      | _ => exact .inl ⟨rfl,rfl⟩
  | _ => exact .inl ⟨rfl,rfl⟩

theorem dials_completes {m : Muxer} (known : IpAddress.ofMultiaddr addr = some ip) (tracked : m.ongoingDials.get turn.now ip = some name)
    (peer : PeerId) (connection : ConnectionId) :
    Opens turn.now (m.ongoingDials.remove turn.now ip).2 (m.dials turn (.completes peer addr connection)).1
      (m.dials turn (.completes peer addr connection)).2.ongoingDials := by
  obtain ⟨answer,freed⟩ := matchDial_one turn.now m peer connection known
  rw [tracked] at answer
  unfold dials Deed.completes
  dsimp only
  cases matched : m.matchDial turn.now peer connection [addr] with
  | mk found muxer =>
      rw [matched] at answer freed
      dsimp only at answer freed
      subst answer
      rw [← freed]
      have opens := tryDial_opens turn.now muxer addr name
      unfold tryDials
      cases tried : muxer.tryDial turn.now addr name with
      | mk dial last =>
          rw [tried] at opens
          cases dial with
          | some dial =>
              dsimp only
              rw [tried]
              exact opens
          | none =>
              dsimp only
              rw [tried]
              exact opens

end Muxer

def Listed (ongoing : ExpiringMap IpAddress TopicName) (dials : List Dial) : Prop :=
  ∀ ip topic since, ongoing.data[ip]? = some (topic,since) →
    ∃ dial ∈ dials, dial.host = some ip ∧ dial.topic = topic ∧ dial.since = since ∧ dial.overdue = false

-- And every dial that still has time is the only one of its host, and has its
-- entry there.
structure Flies (timeout now : Nat) (ongoing : ExpiringMap IpAddress TopicName) (dials : List Dial) : Prop where
  lifespan : ongoing.lifespan = timeout
  held : ∀ dial ∈ dials, dial.timely timeout now = true →
    ∃ ip, dial.host = some ip ∧ ongoing.data[ip]? = some (dial.topic,dial.since)
  apart : dials.Pairwise fun first second => first.timely timeout now = true → second.timely timeout now = true →
    first.host ≠ second.host

namespace Flies
variable {ongoing after : ExpiringMap IpAddress TopicName} {dials before rest : List Dial} {dial : Dial}

theorem wait (flies : Flies timeout clock ongoing dials) (later : clock ≤ now) : Flies timeout now ongoing dials :=
  ⟨flies.lifespan,fun dial member timely => flies.held dial member (Dial.timely_earlier later timely),
    flies.apart.imp fun apart first second => apart (Dial.timely_earlier later first) (Dial.timely_earlier later second)⟩

theorem prune (flies : Flies timeout now ongoing dials) :
    Flies timeout now (ongoing.pruneExpired now) (dials.map (Dial.tick timeout now)) := by
  refine ⟨flies.lifespan,?_,?_⟩
  · intro ticked member timely
    obtain ⟨dial,flying,rfl⟩ := List.mem_map.mp member
    obtain ⟨before,left⟩ := Dial.tick_timely timely
    obtain ⟨ip,host,entry⟩ := flies.held dial flying before
    refine ⟨ip,host,?_⟩
    rw [ExpiringMap.prune_get,entry,flies.lifespan,Option.filter_some,if_pos (by simpa using left)]
    rfl
  · refine List.pairwise_map.mpr (flies.apart.imp fun apart first second => ?_)
    exact apart (Dial.tick_timely first).1 (Dial.tick_timely second).1

theorem tracked (flies : Flies timeout now ongoing dials) (member : dial ∈ dials) (timely : dial.timely timeout now = true) :
    ∃ ip, dial.host = some ip ∧ ongoing.get now ip = some dial.topic := by
  obtain ⟨ip,host,entry⟩ := flies.held dial member timely
  refine ⟨ip,host,?_⟩
  unfold ExpiringMap.get
  rw [entry,ExpiringMap.fresh_young]
  rw [flies.lifespan]
  exact (Dial.timely_iff.mp timely).2

theorem complete (flies : Flies timeout now ongoing (before ++ dial :: rest)) (timely : dial.timely timeout now = true)
    (host : dial.host = some ip) : Flies timeout now (ongoing.remove now ip).2 (before ++ rest) := by
  obtain ⟨left,right,across⟩ := List.pairwise_append.mp flies.apart
  obtain ⟨ahead,right⟩ := List.pairwise_cons.mp right
  refine ⟨flies.lifespan,?_,List.pairwise_append.mpr ⟨left,right,fun a ina b inb => across a ina b (.tail _ inb)⟩⟩
  intro other member still
  have differs : other.host ≠ dial.host := by
    rcases List.mem_append.mp member with member | member
    · exact across other member dial (.head _) still timely
    · exact (ahead other member timely still).symm
  obtain ⟨place,known,entry⟩ := flies.held other (by
    rcases List.mem_append.mp member with member | member <;> simp [member]) still
  refine ⟨place,known,?_⟩
  unfold ExpiringMap.remove
  rw [get_erase,if_neg]
  · exact entry
  · intro same
    exact differs (by rw [known,host,same])

theorem opens (flies : Flies timeout now ongoing dials) (opens : Opens now ongoing made after) :
    Flies timeout now after (dials ++ begun now made) := by
  rcases opens with ⟨rfl,rfl⟩ | ⟨addr,topic,ip,rfl,known,free,rfl⟩
  · simpa [begun] using flies
  · have elsewhere : ∀ other ∈ dials, other.timely timeout now = true → other.host ≠ some ip := by
      intro other member timely host
      obtain ⟨place,known,answer⟩ := flies.tracked member timely
      rw [host] at known
      cases known
      rw [free] at answer
      cases answer
    refine ⟨flies.lifespan,?_,List.pairwise_append.mpr ⟨flies.apart,List.pairwise_singleton _ _,?_⟩⟩
    · intro other member timely
      rcases List.mem_append.mp member with member | member
      · obtain ⟨place,host,entry⟩ := flies.held other member timely
        refine ⟨place,host,?_⟩
        unfold ExpiringMap.insert
        rw [get_insert,if_neg]
        · exact entry
        · intro same
          exact elsewhere other member timely (by rw [host,same])
      · cases List.mem_singleton.mp member
        exact ⟨ip,known,by simp [ExpiringMap.insert]⟩
    · intro other member new single first _
      cases List.mem_singleton.mp single
      exact fun same => elsewhere other member first (same.trans known)

end Flies

namespace Listed
variable {ongoing after : ExpiringMap IpAddress TopicName} {dials before rest : List Dial} {dial : Dial}

theorem prune (listed : Listed ongoing dials) (lifespan : ongoing.lifespan = timeout) :
    Listed (ongoing.pruneExpired now) (dials.map (Dial.tick timeout now)) := by
  intro ip topic since entry
  rw [ExpiringMap.prune_get] at entry
  obtain ⟨entry,young⟩ := Option.filter_eq_some_iff.mp entry
  obtain ⟨dial,member,host,same,begun,fresh⟩ := listed ip topic since entry
  refine ⟨dial.tick timeout now,List.mem_map_of_mem member,host,same,begun,?_⟩
  rw [lifespan,← begun,decide_eq_true_eq] at young
  simp only [Dial.tick,fresh,Bool.false_or,decide_eq_false_iff_not]
  omega

theorem complete (listed : Listed ongoing (before ++ dial :: rest)) (host : dial.host = some ip) :
    Listed (ongoing.remove now ip).2 (before ++ rest) := by
  intro place topic since entry
  unfold ExpiringMap.remove at entry
  rw [get_erase] at entry
  split at entry
  · cases entry
  · rename_i elsewhere
    obtain ⟨other,member,known,kept⟩ := listed place topic since entry
    refine ⟨other,?_,known,kept⟩
    rcases List.mem_append.mp member with member | member
    · exact List.mem_append_left _ member
    · rcases List.mem_cons.mp member with rfl | member
      · rw [host] at known
        exact (elsewhere (Option.some.inj known)).elim
      · exact List.mem_append_right _ member

theorem opens (listed : Listed ongoing dials) (opens : Opens now ongoing made after) : Listed after (dials ++ begun now made) := by
  rcases opens with ⟨rfl,rfl⟩ | ⟨addr,topic,ip,rfl,known,free,rfl⟩
  · simpa [begun] using listed
  · intro place name since entry
    unfold ExpiringMap.insert at entry
    rw [get_insert] at entry
    split at entry
    · rename_i same
      cases entry
      exact ⟨⟨addr,topic,now,false⟩,by simp [begun],known.trans (congrArg some same),rfl,rfl,rfl⟩
    · obtain ⟨dial,member,kept⟩ := listed place name since entry
      exact ⟨dial,List.mem_append_left _ member,kept⟩

theorem lost (listed : Listed ongoing dials) (lifespan : ongoing.lifespan = timeout)
    (late : ∀ dial ∈ dials, dial.host = some ip → dial.timely timeout now = false) : ongoing.get now ip = none := by
  cases found : ongoing.get now ip with
  | none => rfl
  | some topic =>
      obtain ⟨since,entry,young⟩ := ExpiringMap.get_some found
      obtain ⟨dial,member,host,_,begun,fresh⟩ := listed ip topic since entry
      have timely := Dial.timely_iff.mpr ⟨fresh,show now - dial.since ≤ timeout by rw [begun,← lifespan]; exact young⟩
      rw [late dial member host] at timely
      cases timely

end Listed

-- A run of the network with the dials that are in flight and the time of its last
-- deed. An outbound connection completes one of them, which is then gone.
inductive InFlight (hash : Message → Multihash) (timeout : Nat) (may : Nat → Dial → Prop) (start : Network) :
    List (Turn × Deed) → List Dial → Nat → Network → Prop where
  | nil : InFlight hash timeout may start [] [] clock start
  | other : InFlight hash timeout may start deeds dials clock m → clock ≤ turn.now → deed.answers = false →
      {m with commands := queue}.perform hash turn deed = .ok n →
      InFlight hash timeout may start (deeds ++ [(turn,deed)])
        (deed.ages timeout turn.now dials ++ begun turn.now (m.muxer.dials turn deed).1) turn.now n
  | completed : InFlight hash timeout may start deeds (before ++ dial :: rest) clock m → clock ≤ turn.now →
      may turn.now dial → {m with commands := queue}.perform hash turn (.completes peer dial.addr connection) = .ok n →
      InFlight hash timeout may start (deeds ++ [(turn,.completes peer dial.addr connection)])
        (before ++ rest ++ begun turn.now (m.muxer.dials turn (.completes peer dial.addr connection)).1) turn.now n

namespace InFlight
variable {hash : Message → Multihash} {may : Nat → Dial → Prop} {start n : Network} {turn : Turn} {dial : Dial}
  {dials : List Dial}

theorem performed (run : InFlight hash timeout may start deeds dials clock n) :
    ∃ log, Performed hash (fun _ _ _ => True) start deeds log n := by
  induction run with
  | nil => exact ⟨[],.nil⟩
  | other _ _ _ did ih => exact ⟨_,.snoc ih.choose_spec trivial did⟩
  | completed _ _ _ did ih => exact ⟨_,.snoc ih.choose_spec trivial did⟩

theorem handed (run : InFlight hash timeout may start deeds dials clock n) : ∀ dial ∈ dials, dial.addr ∈ n.handed := by
  have opened : ∀ {m n : Network} {made muxer now}, m.Dials n made muxer → ∀ dial ∈ begun now made, dial.addr ∈ n.handed := by
    intro m n made muxer now step dial member
    obtain ⟨given,made,rfl⟩ := Option.map_eq_some_iff.mp (Option.mem_toList.mp member)
    rw [step.handed,made]
    simp
  have kept : ∀ {m n : Network} {made muxer addr}, m.Dials n made muxer → addr ∈ m.handed → addr ∈ n.handed := by
    intro m n made muxer addr step member
    rw [step.handed]
    exact List.mem_append_left _ member
  induction run with
  | nil =>
      intro dial member
      cases member
  | other earlier _ _ did ih =>
      rename_i deed _ _ _ _
      intro dial member
      rcases List.mem_append.mp member with member | member
      · refine kept (queued_dials did) ?_
        cases deed with
        | tick =>
            obtain ⟨dial,flying,rfl⟩ := List.mem_map.mp member
            exact ih dial flying
        | _ => exact ih dial member
      · exact opened (queued_dials did) dial member
  | completed _ _ _ did ih =>
      intro dial member
      rcases List.mem_append.mp member with member | member
      · refine kept (queued_dials did) (ih dial ?_)
        rcases List.mem_append.mp member with member | member <;> simp [member]
      · exact opened (queued_dials did) dial member

theorem found_name {m : Network} (did : m.perform hash turn (.completes peer addr connection) = .ok n) :
    ∃ ip name, IpAddress.ofMultiaddr addr = some ip ∧ m.muxer.ongoingDials.get turn.now ip = some name := by
  obtain ⟨name,matched,_⟩ := Network.completeConnect_ok did
  cases known : IpAddress.ofMultiaddr addr with
  | none => simp [Muxer.matchDial,known] at matched
  | some ip =>
      rw [(Muxer.matchDial_one turn.now m.muxer peer connection known).1] at matched
      exact ⟨ip,name,rfl,matched⟩

theorem flies (run : InFlight hash timeout (fun now dial => dial.timely timeout now = true) start deeds dials clock n)
    (fresh : start.muxer.ongoingDials = .new timeout) : Flies timeout clock n.muxer.ongoingDials dials := by
  induction run with
  | nil => exact ⟨by rw [fresh]; rfl,(fun dial member => by cases member),.nil⟩
  | other earlier later unanswered did ih =>
      rename_i deed _ _
      rw [(queued_dials did).tables.2]
      have waited := (ih.wait later)
      refine Flies.opens ?_ (Muxer.dials_opens _ _ unanswered)
      cases deed with
      | tick => exact waited.prune
      | _ => exact waited
  | completed earlier later timely did ih =>
      obtain ⟨ip,name,known,tracked⟩ := found_name did
      rw [(queued_dials did).tables.2]
      exact ((ih.wait later).complete timely known).opens (Muxer.dials_completes known tracked _ _)

theorem listed (run : InFlight hash timeout may start deeds dials clock n)
    (fresh : start.muxer.ongoingDials = .new timeout) :
    n.muxer.ongoingDials.lifespan = timeout ∧ Listed n.muxer.ongoingDials dials := by
  have lasts : ∀ {now before made after}, Opens now before made after → after.lifespan = before.lifespan := by
    intro now before made after opens
    rcases opens with ⟨_,rfl⟩ | ⟨_,_,_,_,_,_,rfl⟩ <;> rfl
  induction run with
  | nil =>
      rw [fresh]
      exact ⟨rfl,fun ip topic since entry => by simp [ExpiringMap.new] at entry⟩
  | other earlier later unanswered did ih =>
      rename_i m turn deed _ _
      rw [(queued_dials did).tables.2]
      have opens := Muxer.dials_opens turn m.muxer unanswered
      cases deed with
      | tick => exact ⟨(lasts opens).trans ih.1,(ih.2.prune ih.1).opens opens⟩
      | _ => exact ⟨(lasts opens).trans ih.1,ih.2.opens opens⟩
  | completed earlier later timely did ih =>
      rename_i peer connection _ _
      obtain ⟨ip,name,known,tracked⟩ := found_name did
      rw [(queued_dials did).tables.2]
      have opens := Muxer.dials_completes known tracked peer connection
      exact ⟨(lasts opens).trans ih.1,(ih.2.complete known).opens opens⟩

end InFlight

theorem Network.injectTopic_panics {n : Network} {panic : NetworkPanic}
    (injected : n.injectTopic turn name topic event = .error panic) :
    ∃ inner, panic = .topic inner := by
  unfold injectTopic at injected
  cases handled : topic.injectEvent (turn.env name) event with
  | ok next =>
      rw [handled] at injected
      cases injected
  | error inner =>
      rw [handled] at injected
      cases injected
      exact ⟨inner,rfl⟩

variable {hash : Message → Multihash} {may : Nat → Dial → Prop} {n : Network} {turn : Turn} {dial : Dial} {dials : List Dial}

theorem completed_dial_finds_topic (config : NetworkConfig) (peerId : PeerId) (turn : Turn)
    (run : InFlight hash config.pendingTimeout (fun now dial => dial.timely config.pendingTimeout now = true)
      (.new config peerId) deeds dials clock n)
    (flying : dial ∈ dials) (later : clock ≤ turn.now) (timely : dial.timely config.pendingTimeout turn.now = true)
    (queue : List Command) (peer : PeerId) (connection : ConnectionId) :
    (n.muxer.matchDial turn.now peer connection [dial.addr]).1 = some dial.topic ∧
      {n with commands := queue}.perform hash turn (.completes peer dial.addr connection) ≠ .error .dialNotTracked := by
  obtain ⟨ip,known,tracked⟩ := ((run.flies rfl).wait later).tracked flying timely
  have answer := (Muxer.matchDial_one turn.now n.muxer peer connection known).1.trans tracked
  refine ⟨answer,fun panicked => ?_⟩
  unfold Deed.completes Network.perform Network.handleCommand Network.injectEvent Network.completeConnect at panicked
  dsimp only at panicked
  rw [if_pos rfl] at panicked
  cases matched : n.muxer.matchDial turn.now peer connection [dial.addr] with
  | mk found muxer =>
      rw [matched] at panicked answer
      dsimp only at answer
      subst answer
      dsimp only at panicked
      split at panicked
      · cases panicked
      · obtain ⟨inner,other⟩ := Network.injectTopic_panics panicked
        cases other

-- A connection that comes late for every dial of its host panics.
theorem late_dial_untracked (config : NetworkConfig) (peerId : PeerId) (turn : Turn)
    (run : InFlight hash config.pendingTimeout may (.new config peerId) deeds dials clock n)
    (late : ∀ other ∈ dials, other.host = IpAddress.ofMultiaddr addr → other.timely config.pendingTimeout turn.now = false)
    (queue : List Command) (peer : PeerId) (connection : ConnectionId) :
    {n with commands := queue}.perform hash turn (.completes peer addr connection) = .error .dialNotTracked := by
  have missing : (n.muxer.matchDial turn.now peer connection [addr]).1 = none := by
    cases known : IpAddress.ofMultiaddr addr with
    | none => simp [Muxer.matchDial,known]
    | some ip =>
        rw [(Muxer.matchDial_one turn.now n.muxer peer connection known).1]
        obtain ⟨lifespan,listed⟩ := run.listed rfl
        exact listed.lost lifespan fun other member host => late other member (host.trans known.symm)
  unfold Deed.completes Network.perform Network.handleCommand Network.injectEvent Network.completeConnect
  dsimp only
  rw [if_pos rfl]
  cases matched : n.muxer.matchDial turn.now peer connection [addr] with
  | mk found muxer =>
      rw [matched] at missing
      dsimp only at missing
      subst missing
      rfl

def Network.fly (hash : Message → Multihash) (timeout : Nat) (dials : List Dial) (clock : Nat) (n : Network) :
    List (Turn × Deed) → Option (List Dial × Nat × Network)
  | [] => some (dials,clock,n)
  | (turn,deed) :: deeds =>
    if decide (clock ≤ turn.now) && !deed.answers then match n.perform hash turn deed with
      | .ok next =>
        next.fly hash timeout (deed.ages timeout turn.now dials ++ begun turn.now (n.muxer.dials turn deed).1) turn.now deeds
      | .error _ => none
    else none

theorem Network.fly_inFlight {start : Network} {later : List Dial} {deeds : List (Turn × Deed)}
    (run : InFlight hash timeout may start earlier dials clock n)
    (flown : n.fly hash timeout dials clock deeds = some (later,now,after)) :
    InFlight hash timeout may start (earlier ++ deeds) later now after := by
  induction deeds generalizing earlier dials clock n with
  | nil =>
      cases flown
      rw [List.append_nil]
      exact run
  | cons head deeds ih =>
      obtain ⟨turn,deed⟩ := head
      unfold fly at flown
      split at flown
      · rename_i fits
        rw [Bool.and_eq_true,decide_eq_true_eq,Bool.not_eq_true'] at fits
        split at flown
        · rename_i next did
          have did : {n with commands := n.commands}.perform hash turn deed = .ok next := did
          rw [List.append_cons]
          exact ih (.other run fits.1 fits.2 did) flown
        · cases flown
      · cases flown

namespace InFlightExample
open TopicExample NetworkExample DialsExample

def asked : Dial := ⟨host 1,"topic",0,false⟩

def dialing : List (Turn × Deed) :=
  [(.first 0,.join ⟨"topic",[]⟩),(.first 0,.command (.connect (host 1) "topic"))]

-- Another topic dials the same host once the first dial has expired.
def redialing : List (Turn × Deed) := dialing ++ [(.first 16000,.command (.connect (host 2) "other"))]

def flight (deeds : List (Turn × Deed)) : Option (List Dial × Nat × Network) :=
  start.fly NetworkExample.hash config.pendingTimeout [] 0 deeds

end InFlightExample

theorem dial_in_time_finds_topic : ∃ deeds clock n,
    InFlight NetworkExample.hash 15000 (fun now dial => dial.timely 15000 now = true) NetworkExample.start deeds
      [InFlightExample.asked] clock n ∧
    (n.muxer.matchDial 15000 (TopicExample.peer 1).peerId 1 [InFlightExample.asked.addr]).1 = some "topic" := by
  obtain ⟨⟨dials,clock,n⟩,flown,flying⟩ := (Option.any_eq_true _ _).mp
    (show (InFlightExample.flight InFlightExample.dialing).any (fun flight =>
      decide (flight.1 = [InFlightExample.asked] ∧ flight.2.1 ≤ 15000)) = true by decide)
  obtain ⟨rfl,later⟩ := of_decide_eq_true flying
  have run : InFlight NetworkExample.hash 15000 (fun now dial => dial.timely 15000 now = true) NetworkExample.start _
      [InFlightExample.asked] clock n := Network.fly_inFlight .nil flown
  exact ⟨_,clock,n,run,
    (completed_dial_finds_topic TopicExample.config _ (.first 15000) run (.head _) later (by decide) n.commands _ 1).1⟩

theorem late_dials_go_astray :
    (∃ deeds clock n, InFlight NetworkExample.hash 15000 (fun _ _ => True) NetworkExample.start deeds
        [InFlightExample.asked] clock n ∧
      n.perform NetworkExample.hash (.first 15001) (.completes (TopicExample.peer 1).peerId InFlightExample.asked.addr 1) =
        .error .dialNotTracked) ∧
    ∃ deeds dials clock n, InFlight NetworkExample.hash 15000 (fun _ _ => True) NetworkExample.start deeds dials clock n ∧
      InFlightExample.asked ∈ dials ∧
      (n.muxer.matchDial 16001 (TopicExample.peer 1).peerId 1 [InFlightExample.asked.addr]).1 = some "other" := by
  constructor
  · obtain ⟨⟨dials,clock,n⟩,flown,flying⟩ := (Option.any_eq_true _ _).mp
      (show (InFlightExample.flight InFlightExample.dialing).any (fun flight =>
        decide (flight.1 = [InFlightExample.asked])) = true by decide)
    obtain rfl := of_decide_eq_true flying
    have run : InFlight NetworkExample.hash 15000 (fun _ _ => True) NetworkExample.start _ [InFlightExample.asked] clock n :=
      Network.fly_inFlight .nil flown
    refine ⟨_,clock,n,run,late_dial_untracked TopicExample.config _ (.first 15001) run ?_ n.commands _ 1⟩
    intro other member _
    cases List.mem_singleton.mp member
    decide
  · obtain ⟨⟨dials,clock,n⟩,flown,astray⟩ := (Option.any_eq_true _ _).mp
      (show (InFlightExample.flight InFlightExample.redialing).any (fun flight =>
        decide (InFlightExample.asked ∈ flight.1 ∧
          (flight.2.2.muxer.matchDial 16001 (TopicExample.peer 1).peerId 1 [InFlightExample.asked.addr]).1 = some "other")) =
        true by decide)
    obtain ⟨flying,matched⟩ := of_decide_eq_true astray
    exact ⟨_,dials,clock,n,Network.fly_inFlight .nil flown,flying,matched⟩

end AnomaAlpha
