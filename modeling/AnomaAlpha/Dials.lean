import AnomaAlpha.Tracking

namespace AnomaAlpha
open Fallible OrderedMap

namespace Muxer
variable {m m' : Muxer} {turn : Turn} {addr : Multiaddr} {topic name : TopicName} {ip : IpAddress}

def requested (m : Muxer) (ip : IpAddress) (topic : TopicName) : Option Multiaddr :=
  m.requestedDials[ip]?.bind fun topics => topics[topic]?

theorem requested_putDial (m : Muxer) (known : IpAddress.ofMultiaddr addr = some ip) (topic : TopicName) (host : IpAddress)
    (name : TopicName) :
    (m.putDial addr topic).requested host name = if ip = host ∧ topic = name then some addr else m.requested host name := by
  unfold putDial requested
  rw [known]
  dsimp only
  rw [get_insert]
  by_cases same : ip = host
  · cases same
    rw [if_pos rfl,Option.bind_some,get_insert]
    by_cases equal : topic = name
    · rw [if_pos equal,if_pos ⟨rfl,equal⟩]
    · rw [if_neg equal,if_neg (fun both => equal both.2)]
      cases m.requestedDials[ip]? <;> simp
  · rw [if_neg same,if_neg (fun both => same both.1)]

theorem nextDial_unmade (unmade : m.nextDial now addr topic = (false,m')) : m' = m := by
  unfold nextDial at unmade
  split at unmade
  · cases unmade
    rfl
  · split at unmade
    · cases unmade
      rfl
    · split at unmade
      · cases unmade
        rfl
      · split at unmade <;> cases unmade
        rfl

-- A dial is made of what its topic waits for, at a host that is not being dialed.
theorem nextDial_made (made : m.nextDial now addr topic = (true,m')) : ∃ ip, IpAddress.ofMultiaddr addr = some ip ∧
    m.ongoingDials.get now ip = none ∧ (m.requested ip topic).isSome = true ∧
    (∀ host name, m'.requested host name = if ip = host ∧ topic = name then none else m.requested host name) ∧
    m'.ongoingDials = (m.ongoingDials.insert now ip topic).2 := by
  unfold nextDial at made
  split at made
  · cases made
  · rename_i ip known
    split at made
    · cases made
    · rename_i free
      split at made
      · cases made
      · rename_i topics found
        split at made
        · rename_i waiting
          cases made
          refine ⟨ip,known,by simpa [ExpiringMap.containsKey] using free,?_,?_,rfl⟩
          · unfold requested
            rw [found,Option.bind_some]
            exact Std.ExtTreeMap.mem_iff_isSome_getElem?.mp (Std.ExtTreeMap.contains_iff_mem.mp waiting)
          · intro host name
            unfold requested
            dsimp only
            rw [get_shrink]
            by_cases same : ip = host
            · cases same
              rw [if_pos rfl,lookup_shrunk,get_erase,found,Option.bind_some]
              by_cases equal : topic = name <;> simp [equal]
            · rw [if_neg same,if_neg (fun both => same both.1)]
        · cases made

theorem nextDial_free (known : IpAddress.ofMultiaddr addr = some ip) (free : m.ongoingDials.get now ip = none)
    (waiting : m.requested ip topic = some held) : (m.nextDial now addr topic).1 = true := by
  unfold requested at waiting
  obtain ⟨topics,found,entry⟩ := Option.bind_eq_some_iff.mp waiting
  unfold nextDial
  rw [known]
  dsimp only
  rw [if_neg (by simp [ExpiringMap.containsKey,free]),found]
  dsimp only
  rw [if_pos]
  rw [Std.ExtTreeMap.contains_iff_mem,Std.ExtTreeMap.mem_iff_isSome_getElem?,entry]
  rfl

theorem matchDial_requested (now : Nat) (m : Muxer) (peer : PeerId) (connection : ConnectionId)
    (addresses : HashSet Multiaddr) : (m.matchDial now peer connection addresses).2.requestedDials = m.requestedDials := by
  induction addresses generalizing m with
  | nil => rfl
  | cons addr addresses ih =>
      unfold matchDial
      split
      · exact ih m
      · dsimp only
        split
        · rfl
        · exact ih _

theorem matchDial_one (now : Nat) (m : Muxer) (peer : PeerId) (connection : ConnectionId)
    (known : IpAddress.ofMultiaddr addr = some ip) :
    (m.matchDial now peer connection [addr]).1 = m.ongoingDials.get now ip ∧
      (m.matchDial now peer connection [addr]).2.ongoingDials = (m.ongoingDials.remove now ip).2 := by
  unfold matchDial
  rw [known]
  dsimp only
  split
  · rename_i topic found
    exact ⟨found.symm,rfl⟩
  · rename_i missing
    exact ⟨missing.symm,rfl⟩

-- The dial that a deed has made, for whom, and the muxer with its tables after that.

def tryDial (now : Nat) (m : Muxer) (addr : Multiaddr) (topic : TopicName) : Option (Multiaddr × TopicName) × Muxer :=
  match m.nextDial now addr topic with
  | (true,m) => (some (addr,topic),m)
  | (false,m) => (none,m)

def tryDials (now : Nat) (m : Muxer) (topic : TopicName) : HashSet Multiaddr → Option (Multiaddr × TopicName) × Muxer
  | [] => (none,m)
  | addr :: addresses => match m.tryDial now addr topic with
    | (some dial,m) => (some dial,m)
    | (none,m) => m.tryDials now topic addresses

def dials (turn : Turn) (m : Muxer) (deed : Deed) : Option (Multiaddr × TopicName) × Muxer :=
  match deed with
  | .tick =>
    let m := m.pruneExpired turn.now
    match m.pollDial turn.host turn.request with
    | none => (none,m)
    | some (topic,addr) => m.tryDial turn.now addr topic
  | .command (.connect addr topic) => (m.putDial addr topic).tryDial turn.now addr topic
  | .command (.injectEvent (.connectionEstablished peer true connection)) =>
    match m.matchDial turn.now peer.peerId connection peer.addresses with
    | (none,m) => (none,m)
    | (some topic,m) => m.tryDials turn.now topic peer.addresses
  | _ => (none,m)

def SameDials (after before : Muxer) : Prop :=
  after.requestedDials = before.requestedDials ∧ after.ongoingDials = before.ongoingDials

theorem SameDials.requested (same : m'.SameDials m) (ip : IpAddress) (topic : TopicName) :
    m'.requested ip topic = m.requested ip topic := by
  unfold Muxer.requested
  rw [same.1]

theorem register_dials (m : Muxer) (sender : AddressablePeer) (connection : ConnectionId) :
    (m.register sender connection).SameDials m := by
  unfold register
  split <;> exact ⟨rfl,rfl⟩

theorem assign_dials (m : Muxer) (peer : PeerId) (connection : ConnectionId) (topic : TopicName) :
    (m.assign peer connection topic).2.SameDials m := by
  unfold assign
  split
  · exact ⟨rfl,rfl⟩
  · split <;> exact ⟨rfl,rfl⟩

theorem disconnect_dials (m : Muxer) (peer : PeerId) (connection : ConnectionId) :
    (m.disconnect peer connection).SameDials m := by
  unfold disconnect
  split
  · exact ⟨rfl,rfl⟩
  · split <;> exact ⟨rfl,rfl⟩

end Muxer

namespace Network
variable {n n' m : Network} {turn : Turn} {hash : Message → Multihash} {msg : Message}

def dialed : RunloopCommand → Option Multiaddr
  | .connect addr => some addr
  | _ => none

def handed (n : Network) : List Multiaddr := n.runloop.filterMap dialed

-- How the tables of dials and the runloop are after one more dial.
structure Dials (before after : Network) (dial : Option (Multiaddr × TopicName)) (muxer : Muxer) : Prop where
  tables : after.muxer.SameDials muxer
  handed : after.handed = before.handed ++ (dial.map Prod.fst).toList

theorem handed_same (same : n'.runloop = n.runloop) : n'.handed = n.handed :=
  congrArg (List.filterMap dialed) same

theorem Dials.none (tables : n'.muxer.SameDials n.muxer) (same : n'.handed = n.handed) : n.Dials n' none n.muxer :=
  ⟨tables,by simpa using same⟩

theorem dialNext_dials (turn : Turn) (n : Network) (addr : Multiaddr) (topic : TopicName) :
    n.Dials (n.dialNext turn addr topic).2 (n.muxer.tryDial turn.now addr topic).1 (n.muxer.tryDial turn.now addr topic).2 := by
  unfold dialNext Muxer.tryDial
  cases next : n.muxer.nextDial turn.now addr topic with
  | mk made muxer =>
      cases made with
      | true => exact ⟨⟨rfl,rfl⟩,by simp [handed,sendCommand,dialed]⟩
      | false => exact ⟨⟨rfl,rfl⟩,by simp [handed]⟩

theorem dialAnother_dials (turn : Turn) (n : Network) (topic : TopicName) (addresses : HashSet Multiaddr) :
    n.Dials (n.dialAnother turn topic addresses) (n.muxer.tryDials turn.now topic addresses).1
      (n.muxer.tryDials turn.now topic addresses).2 := by
  induction addresses generalizing n with
  | nil => exact ⟨⟨rfl,rfl⟩,by simp [dialAnother,Muxer.tryDials]⟩
  | cons addr addresses ih =>
      unfold dialAnother dialNext Muxer.tryDials Muxer.tryDial
      cases next : n.muxer.nextDial turn.now addr topic with
      | mk made muxer =>
          cases made with
          | true => exact ⟨⟨rfl,rfl⟩,by simp [handed,sendCommand,dialed]⟩
          | false =>
              obtain ⟨tables,handed⟩ := ih {n with muxer := muxer}
              exact ⟨tables,handed⟩

theorem acceptMessage_dials (accepted : n.acceptMessage turn hash sender connection msg = .ok n') :
    n.Dials n' none n.muxer := by
  obtain ⟨absent,rfl⟩ | ⟨joined,history,_,⟨duplicate,rfl⟩ | ⟨fresh,accepted⟩⟩ := acceptMessage_cases accepted
  · exact .none ⟨rfl,rfl⟩ (by simp [handed,sendCommand,dialed])
  · exact .none ⟨rfl,rfl⟩ rfl
  · unfold routeMessage at accepted
    have kept := n.muxer.assign_dials sender connection msg.topic
    cases assigned : n.muxer.assign sender connection msg.topic with
    | mk peer muxer =>
        rw [assigned] at kept
        dsimp only at accepted
        rw [assigned] at accepted
        obtain ⟨announced,announce,deliver⟩ := bind_ok.mp accepted
        obtain ⟨first,still,sent,_⟩ := announce_ok (n:={n with muxer := muxer, history := history}) joined announce
        obtain ⟨same,_,_,_,⟨_,_,quiet⟩ | ⟨_,_,banned⟩⟩ := deliver_ok (first.joined joined) deliver
        · exact .none (by rw [same,still]; exact kept) (handed_same (quiet.trans sent))
        · refine .none (by rw [same,still]; exact kept) ?_
          unfold Network.handed
          rw [banned,sent]
          simp [dialed]

theorem completeDisconnect_dials (disconnected : n.completeDisconnect turn peer connection = .ok n') :
    n.Dials n' none n.muxer := by
  have kept := n.muxer.disconnect_dials peer connection
  obtain ⟨told,rfl,⟨_,rfl⟩ | ⟨name,topic,_,found,injected⟩⟩ := completeDisconnect_cases disconnected
  · exact .none kept rfl
  · obtain ⟨_,muxer,runloop,_⟩ := injectTopic_ok found injected
    have same : {told with muxer := told.muxer.disconnect peer connection}.handed = n.handed := handed_same runloop
    refine .none ?_ same
    dsimp only
    rw [muxer]
    exact kept

theorem perform_dials (performed : n.perform hash turn deed = .ok n') :
    n.Dials n' (n.muxer.dials turn deed).1 (n.muxer.dials turn deed).2 := by
  cases deed with
  | tick =>
      obtain ⟨fed,pruned,injected,cleared,ended⟩ := tick_cases performed
      obtain ⟨_,muxer,runloop,_⟩ := injectAll_ok injected
      have held : pruned.muxer = n.muxer.pruneExpired turn.now := by rw [cleared,muxer]
      have handed : pruned.handed = n.handed := handed_same (by rw [cleared,runloop])
      unfold Muxer.dials
      dsimp only
      rw [← held]
      obtain ⟨idle,rfl⟩ | ⟨topic,addr,polled,rfl⟩ := ended
      · rw [idle]
        exact ⟨⟨rfl,rfl⟩,handed.trans (by simp)⟩
      · rw [polled]
        obtain ⟨tables,dialed⟩ := dialNext_dials turn pruned addr topic
        exact ⟨tables,dialed.trans (congrArg (· ++ _) handed)⟩
  | join config =>
      unfold perform at performed
      dsimp only at performed
      obtain refused | ⟨_,joined⟩ := join_cases turn.now n config
      · rw [refused] at performed
        cases performed
        exact .none ⟨rfl,rfl⟩ rfl
      · rw [joined] at performed
        cases performed
        exact .none ⟨rfl,rfl⟩ rfl
  | gossip name data =>
      cases performed
      obtain same | ⟨_,_,_,_,put⟩ := gossip_cases turn n name data
      · rw [same]
        exact .none ⟨rfl,rfl⟩ rfl
      · rw [put]
        exact .none ⟨rfl,rfl⟩ rfl
  | command command =>
      cases command with
      | connect addr topic =>
          cases performed
          obtain ⟨tables,handed⟩ := dialNext_dials turn {n with muxer := n.muxer.putDial addr topic} addr topic
          exact ⟨tables,handed⟩
      | injectEvent event =>
          cases event with
          | localAddressDiscovered addr =>
              obtain ⟨_,muxer,runloop,_⟩ := injectAll_ok performed
              exact .none (by rw [muxer]; exact ⟨rfl,rfl⟩) (handed_same runloop)
          | connectionEstablished peer dialer connection =>
              cases dialer with
              | true =>
                  unfold perform handleCommand injectEvent completeConnect at performed
                  unfold Muxer.dials
                  dsimp only at performed ⊢
                  rw [if_pos rfl] at performed
                  rcases matched : n.muxer.matchDial turn.now peer.peerId connection peer.addresses with ⟨_|name,muxer⟩
                  · rw [matched] at performed
                    cases performed
                  · rw [matched] at performed
                    dsimp only at performed ⊢
                    obtain ⟨tables,handed⟩ := dialAnother_dials turn {n with muxer := muxer} name peer.addresses
                    split at performed
                    · cases performed
                    · rename_i topic found
                      obtain ⟨_,kept,runloop,_⟩ := injectTopic_ok found performed
                      exact ⟨by rw [kept]; exact tables,(handed_same runloop).trans handed⟩
              | false =>
                  cases performed
                  exact .none (n.muxer.register_dials _ _) rfl
          | connectionClosed peer connection => exact completeDisconnect_dials performed
          | messageReceived sender connection msg => exact acceptMessage_dials performed
      | _ =>
          cases performed
          exact .none ⟨rfl,rfl⟩ (by simp [handed,beginDisconnect,banPeer,sendCommand,dialed])

end Network

namespace Muxer
variable {m m' : Muxer} {turn : Turn} {addr given : Multiaddr} {topic name : TopicName} {ip : IpAddress}

def Stores (m : Muxer) (addr : Multiaddr) (topic : TopicName) : Prop := ∃ ip, m.requested ip topic = some addr

def Keyed (m : Muxer) : Prop := ∀ ip topic addr, m.requested ip topic = some addr → IpAddress.ofMultiaddr addr = some ip

def agrees (m : Muxer) (topic : TopicName) (addr : Multiaddr) : Bool :=
  match IpAddress.ofMultiaddr addr with
  | none => true
  | some ip => (m.requested ip topic).all fun held => held == addr

-- A topic asks for the address of a host, and does not change its mind about the
-- port. No connection to another port is taken for what it still waits for.
def spares (turn : Turn) (m : Muxer) (deed : Deed) : Bool :=
  match deed with
  | .command (.connect addr topic) => (IpAddress.ofMultiaddr addr).isSome && m.agrees topic addr
  | .command (.injectEvent (.connectionEstablished peer true connection)) =>
    match (m.matchDial turn.now peer.peerId connection peer.addresses).1 with
    | none => true
    | some topic => peer.addresses.all (m.agrees topic)
  | _ => true

theorem agrees_held (agree : m.agrees topic addr = true) (known : IpAddress.ofMultiaddr addr = some ip)
    (waiting : m.requested ip topic = some held) : held = addr := by
  unfold agrees at agree
  rw [known] at agree
  simpa [waiting] using agree

theorem agrees_same (same : ∀ ip name, m'.requested ip name = m.requested ip name) (topic : TopicName) (addr : Multiaddr) :
    m'.agrees topic addr = m.agrees topic addr := by
  unfold agrees
  simp only [same]

theorem agrees_not (careless : m.agrees topic addr = false) :
    ∃ ip held, IpAddress.ofMultiaddr addr = some ip ∧ m.requested ip topic = some held ∧ held ≠ addr := by
  unfold agrees at careless
  split at careless
  · cases careless
  · rename_i ip known
    cases waiting : m.requested ip topic with
    | none =>
        rw [waiting] at careless
        cases careless
    | some held => exact ⟨ip,held,known,waiting,by simpa [waiting] using careless⟩

-- One dial crosses out what it makes and nothing else.
theorem tryDial_keeps (stored : m.requested ip topic = some addr) (agree : m.agrees name given = true) (now : Nat) :
    (m.tryDial now given name).2.requested ip topic = some addr ∨
      (m.tryDial now given name).1 = some (addr,topic) := by
  unfold tryDial
  cases next : m.nextDial now given name with
  | mk made muxer =>
      cases made with
      | false =>
          obtain rfl := nextDial_unmade next
          exact .inl stored
      | true =>
          obtain ⟨host,known,_,_,rest,_⟩ := nextDial_made next
          dsimp only
          rw [rest]
          split
          · rename_i same
            rw [← same.1,← same.2] at stored
            rw [agrees_held agree known stored,same.2]
            exact .inr rfl
          · exact .inl stored

theorem tryDial_unmade (unmade : (m.tryDial now given name).1 = none) : (m.tryDial now given name).2 = m := by
  unfold tryDial at unmade ⊢
  cases next : m.nextDial now given name with
  | mk made muxer =>
      cases made with
      | false => exact nextDial_unmade next
      | true =>
          rw [next] at unmade
          cases unmade

theorem tryDial_dial (now : Nat) (m : Muxer) (given : Multiaddr) (name : TopicName) :
    ∀ made ∈ (m.tryDial now given name).1, made = (given,name) := by
  unfold tryDial
  intro made member
  split at member <;> cases member
  rfl

theorem tryDial_leaves (now : Nat) (m : Muxer) (given : Multiaddr) (name : TopicName) (ip : IpAddress) (topic : TopicName) :
    (m.tryDial now given name).2.requested ip topic = none ∨
      (m.tryDial now given name).2.requested ip topic = m.requested ip topic := by
  unfold tryDial
  cases next : m.nextDial now given name with
  | mk made muxer =>
      cases made with
      | false => exact .inr (by rw [nextDial_unmade next])
      | true =>
          obtain ⟨host,_,_,_,rest,_⟩ := nextDial_made next
          dsimp only
          rw [rest]
          split
          · exact .inl rfl
          · exact .inr rfl

theorem tryDial_crosses (known : IpAddress.ofMultiaddr given = some ip) (free : m.ongoingDials.get now ip = none)
    (waiting : m.requested ip name = some held) : (m.tryDial now given name).1 = some (given,name) ∧
    (m.tryDial now given name).2.requested ip name = none := by
  have made := nextDial_free known free waiting
  unfold tryDial
  cases next : m.nextDial now given name with
  | mk dial muxer =>
      rw [next] at made
      dsimp only at made
      subst made
      obtain ⟨host,same,_,_,rest,_⟩ := nextDial_made next
      cases known.symm.trans same
      exact ⟨rfl,by rw [rest,if_pos ⟨rfl,rfl⟩]⟩

theorem tryDials_keeps {addresses : HashSet Multiaddr} (stored : m.requested ip topic = some addr)
    (agree : addresses.all (m.agrees name) = true) (now : Nat) :
    (m.tryDials now name addresses).2.requested ip topic = some addr ∨
      (m.tryDials now name addresses).1 = some (addr,topic) := by
  induction addresses with
  | nil => exact .inl stored
  | cons given addresses ih =>
      rw [List.all_cons,Bool.and_eq_true] at agree
      have first := tryDial_keeps stored agree.1 now
      unfold tryDials
      cases tried : m.tryDial now given name with
      | mk dial muxer =>
          rw [tried] at first
          cases dial with
          | some dial => exact first
          | none =>
              have same := tryDial_unmade (congrArg Prod.fst tried)
              rw [tried] at same
              dsimp only at same ⊢
              rw [same]
              exact ih agree.2

theorem poll_waits (polled : m.pollDial host request = some (topic,addr)) : ∃ ip, m.requested ip topic = some addr := by
  unfold pollDial at polled
  obtain ⟨ip,_,polled⟩ := Option.bind_eq_some_iff.mp polled
  obtain ⟨dial,found,polled⟩ := Option.bind_eq_some_iff.mp polled
  obtain ⟨name,_,polled⟩ := Option.bind_eq_some_iff.mp polled
  obtain ⟨held,entry,polled⟩ := Option.bind_eq_some_iff.mp polled
  cases polled
  refine ⟨ip,?_⟩
  unfold requested
  rw [found]
  exact entry

theorem dials_keeps (keyed : m.Keyed) (stored : m.requested ip topic = some addr) (spared : m.spares turn deed = true) :
    (m.dials turn deed).2.requested ip topic = some addr ∨ (m.dials turn deed).1 = some (addr,topic) := by
  cases deed with
  | tick =>
      unfold dials
      dsimp only
      split
      · exact .inl stored
      · rename_i name given polled
        obtain ⟨host,waiting⟩ := poll_waits polled
        refine tryDial_keeps (m:=m.pruneExpired turn.now) stored ?_ turn.now
        unfold agrees
        rw [keyed host name given waiting]
        dsimp only
        rw [waiting]
        simp
  | command command =>
      cases command with
      | connect given name =>
          obtain ⟨addressed,agree⟩ := Bool.and_eq_true _ _ ▸ spared
          obtain ⟨host,known⟩ := Option.isSome_iff_exists.mp addressed
          have put := requested_putDial m known name
          refine tryDial_keeps ?_ ?_ turn.now
          · rw [put]
            split
            · rename_i same
              rw [← same.1,← same.2] at stored
              rw [agrees_held agree known stored]
            · exact stored
          · unfold agrees
            rw [known]
            dsimp only
            rw [put,if_pos ⟨rfl,rfl⟩]
            simp
      | injectEvent event =>
          cases event with
          | connectionEstablished peer dialer connection =>
              cases dialer with
              | true =>
                  unfold spares at spared
                  unfold dials
                  dsimp only at spared ⊢
                  have same := matchDial_requested turn.now m peer.peerId connection peer.addresses
                  cases matched : m.matchDial turn.now peer.peerId connection peer.addresses with
                  | mk found muxer =>
                      rw [matched] at spared same
                      have kept : ∀ ip name, muxer.requested ip name = m.requested ip name := by
                        intro ip name
                        unfold requested
                        rw [show muxer.requestedDials = m.requestedDials from same]
                      cases found with
                      | none =>
                          dsimp only
                          rw [kept]
                          exact .inl stored
                      | some name =>
                          dsimp only at spared ⊢
                          refine tryDials_keeps (by rw [kept]; exact stored) ?_ turn.now
                          rw [funext (agrees_same kept name)]
                          exact spared
              | false => exact .inl stored
          | _ => exact .inl stored
      | _ => exact .inl stored
  | _ => exact .inl stored

theorem dials_takes (spared : m.spares turn (.command (.connect addr topic)) = true) :
    ∃ ip, (m.dials turn (.command (.connect addr topic))).2.requested ip topic = some addr ∨
      (m.dials turn (.command (.connect addr topic))).1 = some (addr,topic) := by
  obtain ⟨host,known⟩ := Option.isSome_iff_exists.mp (Bool.and_eq_true _ _ ▸ spared).1
  have put := requested_putDial m known topic
  refine ⟨host,tryDial_keeps (by rw [put,if_pos ⟨rfl,rfl⟩]) ?_ turn.now⟩
  unfold agrees
  rw [known]
  dsimp only
  rw [put,if_pos ⟨rfl,rfl⟩]
  simp

-- A table keeps its addresses under their hosts.

theorem Keyed.try (keyed : m.Keyed) (now : Nat) (given : Multiaddr) (name : TopicName) :
    (m.tryDial now given name).2.Keyed := by
  unfold tryDial
  cases next : m.nextDial now given name with
  | mk made muxer =>
      cases made with
      | false =>
          obtain rfl := nextDial_unmade next
          exact keyed
      | true =>
          obtain ⟨host,_,_,_,rest,_⟩ := nextDial_made next
          intro ip topic addr stored
          dsimp only at stored
          rw [rest] at stored
          split at stored
          · cases stored
          · exact keyed ip topic addr stored

theorem Keyed.same (keyed : m.Keyed) (same : m'.requestedDials = m.requestedDials) : m'.Keyed := by
  unfold Keyed requested
  rw [same]
  exact keyed

theorem Keyed.put (keyed : m.Keyed) (given : Multiaddr) (name : TopicName) : (m.putDial given name).Keyed := by
  cases known : IpAddress.ofMultiaddr given with
  | none =>
      unfold putDial
      rw [known]
      exact keyed
  | some host =>
      intro ip topic addr stored
      rw [requested_putDial m known name] at stored
      split at stored
      · rename_i same
        cases stored
        rw [known,same.1]
      · exact keyed ip topic addr stored

theorem Keyed.tries (keyed : m.Keyed) (now : Nat) (name : TopicName) (addresses : HashSet Multiaddr) :
    (m.tryDials now name addresses).2.Keyed := by
  induction addresses generalizing m with
  | nil => exact keyed
  | cons given addresses ih =>
      have first := keyed.try now given name
      unfold tryDials
      cases tried : m.tryDial now given name with
      | mk dial muxer =>
          rw [tried] at first
          cases dial with
          | some dial => exact first
          | none => exact ih first

theorem Keyed.dials (keyed : m.Keyed) (turn : Turn) (deed : Deed) : (m.dials turn deed).2.Keyed := by
  cases deed with
  | tick =>
      unfold Muxer.dials
      dsimp only
      split
      · exact keyed.same rfl
      · exact Keyed.try (m:=m.pruneExpired turn.now) (keyed.same rfl) _ _ _
  | command command =>
      cases command with
      | connect given name => exact (keyed.put given name).try _ _ _
      | injectEvent event =>
          cases event with
          | connectionEstablished peer dialer connection =>
              cases dialer with
              | true =>
                  unfold Muxer.dials
                  have kept := keyed.same (matchDial_requested turn.now m peer.peerId connection peer.addresses)
                  dsimp only
                  split
                  · rename_i muxer matched
                    rw [matched] at kept
                    exact kept
                  · rename_i name muxer matched
                    rw [matched] at kept
                    exact kept.tries _ _ _
              | false => exact keyed
          | _ => exact keyed
      | _ => exact keyed
  | _ => exact keyed

end Muxer

-- Every run in which topics keep to one port of a host.

variable {hash : Message → Multihash} {fit : Network → Turn → Deed → Prop} {start m n asked : Network} {turn : Turn}

theorem queued_dials (did : {m with commands := queue}.perform hash turn deed = .ok n) :
    m.Dials n (m.muxer.dials turn deed).1 (m.muxer.dials turn deed).2 :=
  ⟨(Network.perform_dials did).tables,(Network.perform_dials did).handed⟩

theorem Performed.keyed (performed : Performed hash fit start deeds log n) (keyed : start.muxer.Keyed) : n.muxer.Keyed := by
  induction performed with
  | nil => exact keyed
  | snoc _ _ did ih => exact (ih.dials _ _).same (queued_dials did).tables.1

def spares (n : Network) (turn : Turn) (deed : Deed) : Bool := n.muxer.spares turn deed

def Kept (before after : Network) (addr : Multiaddr) (topic : TopicName) : Prop :=
  addr ∈ after.handed.drop before.handed.length ∨ after.muxer.Stores addr topic

theorem Performed.hands (performed : Performed hash fit start deeds log n) : start.handed <+: n.handed := by
  induction performed with
  | nil => exact List.prefix_refl _
  | snoc _ _ did ih =>
      rw [(queued_dials did).handed]
      exact ih.trans (List.prefix_append _ _)

theorem handed_made (grown : m.handed <+: start.handed) (dials : start.Dials n (some (addr,topic)) muxer) :
    addr ∈ n.handed.drop m.handed.length := by
  obtain ⟨since,same⟩ := grown
  rw [dials.handed,← same,List.append_assoc,List.drop_left]
  simp

theorem handed_still (grown : m.handed <+: start.handed) (dials : start.Dials n dial muxer)
    (handed : addr ∈ start.handed.drop m.handed.length) : addr ∈ n.handed.drop m.handed.length := by
  obtain ⟨since,same⟩ := grown
  rw [← same,List.drop_left] at handed
  rw [dials.handed,← same,List.append_assoc,List.drop_left]
  simp [handed]

theorem requested_dials_kept (config : NetworkConfig) (peerId : PeerId)
    (earlier : Performed hash (fun n turn deed => spares n turn deed = true) (.new config peerId) before log m)
    (spared : spares m turn (.command (.connect addr topic)) = true)
    (did : {m with commands := queue}.perform hash turn (.command (.connect addr topic)) = .ok asked)
    (later : Performed hash (fun n turn deed => spares n turn deed = true) asked after more n) : Kept m n addr topic := by
  have keyed := earlier.keyed (fun ip topic addr stored => by simp [Network.new,Muxer.new,Muxer.requested] at stored)
  have first := queued_dials did
  have grown : m.handed <+: asked.handed := by
    rw [first.handed]
    exact List.prefix_append _ _
  induction later with
  | nil =>
      obtain ⟨ip,waiting | made⟩ := Muxer.dials_takes spared
      · exact .inr ⟨ip,by rw [first.tables.requested]; exact waiting⟩
      · rw [made] at first
        exact .inl (handed_made (List.prefix_refl _) first)
  | snoc run spared did ih =>
      have step := queued_dials did
      have kept := run.keyed ((keyed.dials turn (.command (.connect addr topic))).same first.tables.1)
      rcases ih with handed | ⟨ip,waiting⟩
      · exact .inl (handed_still (grown.trans run.hands) step handed)
      · rcases Muxer.dials_keeps kept waiting spared with waiting | made
        · exact .inr ⟨ip,by rw [step.tables.requested]; exact waiting⟩
        · rw [made] at step
          exact .inl (handed_made (grown.trans run.hands) step)

theorem Muxer.Keyed.filed {m : Muxer} (keyed : m.Keyed) (stored : m.Stores addr topic)
    (known : IpAddress.ofMultiaddr addr = some ip) : m.requested ip topic = some addr := by
  obtain ⟨host,waiting⟩ := stored
  rw [keyed host topic addr waiting] at known
  cases known
  exact waiting

theorem unkept (dials : m.Dials n dial muxer) (keyed : n.muxer.Keyed) (known : IpAddress.ofMultiaddr held = some ip)
    (gone : n.muxer.requested ip topic ≠ some held) (other : ∀ made ∈ dial, made.1 ≠ held) : ¬Kept m n held topic := by
  intro given
  rcases given with handed | stored
  · rw [dials.handed,List.drop_left] at handed
    obtain ⟨made,member,same⟩ := Option.map_eq_some_iff.mp (Option.mem_toList.mp handed)
    exact other made member same
  · exact gone (keyed.filed stored known)

theorem careless_connect_loses (keyed : m.muxer.Keyed) (careless : spares m turn (.command (.connect given name)) = false)
    (did : {m with commands := queue}.perform hash turn (.command (.connect given name)) = .ok n) :
    ∃ addr, (m.muxer.Stores addr name ∨ addr = given) ∧ ¬Kept m n addr name := by
  have dials := queued_dials did
  have after : n.muxer.Keyed := (keyed.dials turn _).same dials.tables.1
  cases known : IpAddress.ofMultiaddr given with
  | none =>
      refine ⟨given,.inr rfl,?_⟩
      have idle : m.muxer.dials turn (.command (.connect given name)) = (none,m.muxer) := by
        simp [Muxer.dials,Muxer.tryDial,Muxer.nextDial,Muxer.putDial,known]
      rw [idle] at dials
      intro kept
      rcases kept with handed | ⟨ip,stored⟩
      · rw [dials.handed,List.drop_left] at handed
        cases handed
      · rw [after ip name given stored] at known
        cases known
  | some host =>
      have agrees : m.muxer.agrees name given = false := by simpa [spares,Muxer.spares,known] using careless
      obtain ⟨ip,held,same,waiting,other⟩ := Muxer.agrees_not agrees
      cases known.symm.trans same
      refine ⟨held,.inl ⟨host,waiting⟩,unkept dials after (keyed host name held waiting) ?_ ?_⟩
      · have put := Muxer.requested_putDial m.muxer known name host name
        rw [if_pos ⟨rfl,rfl⟩] at put
        intro stored
        rw [dials.tables.requested] at stored
        rcases Muxer.tryDial_leaves turn.now (m.muxer.putDial given name) given name host name with gone | left
        · cases gone.symm.trans stored
        · exact other (Option.some.inj (stored.symm.trans (left.trans put)))
      · intro made member
        rw [Muxer.tryDial_dial _ _ _ _ made member]
        exact other.symm

theorem careless_completion_loses (keyed : m.muxer.Keyed)
    (careless : spares m turn (.command (.injectEvent (.connectionEstablished ⟨peer,[given]⟩ true connection))) = false)
    (did : {m with commands := queue}.perform hash turn
      (.command (.injectEvent (.connectionEstablished ⟨peer,[given]⟩ true connection))) = .ok n) :
    ∃ addr name, m.muxer.Stores addr name ∧ ¬Kept m n addr name := by
  have dials := queued_dials did
  have after : n.muxer.Keyed := (keyed.dials turn _).same dials.tables.1
  unfold spares Muxer.spares at careless
  dsimp only at careless
  split at careless
  · cases careless
  · rename_i name matched
    rw [List.all_cons,List.all_nil,Bool.and_true] at careless
    obtain ⟨host,held,known,waiting,other⟩ := Muxer.agrees_not careless
    refine ⟨held,name,⟨host,waiting⟩,?_⟩
    obtain ⟨_,freed⟩ := Muxer.matchDial_one turn.now m.muxer peer connection known
    have same := Muxer.matchDial_requested turn.now m.muxer peer connection [given]
    have tables := dials.tables.requested host name
    unfold Muxer.dials Muxer.tryDials at dials tables
    dsimp only at dials tables
    cases found : m.muxer.matchDial turn.now peer connection [given] with
    | mk answer muxer =>
        rw [found] at dials tables matched freed same
        dsimp only at matched freed same
        subst matched
        dsimp only at dials tables
        -- the host is not being dialed any more, so what waits there is next
        have free : muxer.ongoingDials.get turn.now host = none := by
          rw [freed]
          simp [ExpiringMap.remove,ExpiringMap.get,ExpiringMap.fresh]
        have still : muxer.requested host name = some held := by
          unfold Muxer.requested at waiting ⊢
          rw [same]
          exact waiting
        obtain ⟨made,crossed⟩ := Muxer.tryDial_crosses known free still
        cases tried : muxer.tryDial turn.now given name with
        | mk dial last =>
            rw [tried] at made crossed dials tables
            dsimp only at made crossed
            subst made
            refine unkept dials after (keyed host name held waiting) ?_ ?_
            · intro stored
              cases crossed.symm.trans (tables.symm.trans stored)
            · intro made member
              cases member
              exact other.symm

namespace DialsExample
open TopicExample NetworkExample TrackingExample

def tcp (port : UInt8) : Protocol := .other [6,0x30,port]
def host (port : UInt8) : Multiaddr := [.ip4 0x01020304,tcp port]

-- `/dnsaddr/bootstrap.example.com/tcp/12345`
def bootstrap : Multiaddr :=
  [.other [0x38,21,0x62,0x6f,0x6f,0x74,0x73,0x74,0x72,0x61,0x70,0x2e,0x65,0x78,0x61,0x6d,0x70,0x6c,0x65,0x2e,0x63,0x6f,0x6d],
   tcp 0x39]

def asks (addr : Multiaddr) (topic : TopicName) : Turn × Deed := does (.command (.connect addr topic))

def requests : List (Turn × Deed) :=
  [asks bootstrap "topic",asks (host 1) "topic",asks (host 2) "topic",asks (host 3) "topic"]

def knows : List (Turn × Deed) := [does (.join ⟨"topic",[]⟩),asks (host 1) "topic"]
def connects : List (Turn × Deed) :=
  [hears (.connectionEstablished ⟨(peer 1).peerId,[host 1]⟩ true 1),does .tick]

def loses (n : Network) (addr : Multiaddr) : Bool :=
  !n.handed.contains addr && (IpAddress.ofMultiaddr addr).all fun ip => n.muxer.requested ip "topic" != some addr

end DialsExample

theorem asked_dial_kept : ∃ m n : Network, m.handed = [DialsExample.host 1] ∧ n.handed = [DialsExample.host 1,DialsExample.host 2] ∧
    Kept m n (DialsExample.host 2) "other" := by
  obtain ⟨m,prepared,plays⟩ := (Option.any_eq_true _ _).mp
    (show (NetworkExample.start.rehearse NetworkExample.hash spares DialsExample.knows).any (fun m =>
      decide (m.handed = [DialsExample.host 1]) &&
      spares m (.first 0) (.command (.connect (DialsExample.host 2) "other")) &&
      ((m.beginConnect (.first 0) (DialsExample.host 2) "other").rehearse NetworkExample.hash spares
        DialsExample.connects).any fun n => decide (n.handed = [DialsExample.host 1,DialsExample.host 2])) = true by
      decide)
  rw [Bool.and_eq_true,Bool.and_eq_true,decide_eq_true_eq] at plays
  obtain ⟨⟨first,spared⟩,later⟩ := plays
  obtain ⟨n,connected,second⟩ := (Option.any_eq_true _ _).mp later
  obtain ⟨_,earlier⟩ := Network.rehearse_performed prepared
  obtain ⟨_,after⟩ := Network.rehearse_performed connected
  have did : {m with commands := m.commands}.perform NetworkExample.hash (.first 0)
      (.command (.connect (DialsExample.host 2) "other")) = .ok (m.beginConnect (.first 0) (DialsExample.host 2) "other") := rfl
  exact ⟨m,n,first,of_decide_eq_true second,requested_dials_kept _ _ earlier spared did after⟩

theorem requested_dials_are_lost : ∃ log n,
    Performed NetworkExample.hash (fun _ _ _ => True) NetworkExample.start DialsExample.requests log n ∧
      ∀ addr ∈ [DialsExample.bootstrap,DialsExample.host 2], DialsExample.asks addr "topic" ∈ DialsExample.requests ∧
        addr ∉ n.handed ∧ ¬n.muxer.Stores addr "topic" := by
  obtain ⟨n,played,lost⟩ := (Option.any_eq_true _ _).mp
    (show (NetworkExample.start.rehearse NetworkExample.hash (fun _ _ _ => true) DialsExample.requests).any
      (fun n => [DialsExample.bootstrap,DialsExample.host 2].all (DialsExample.loses n)) = true by decide)
  obtain ⟨log,performed⟩ := Network.rehearse_performed played
  have keyed := performed.keyed (fun ip topic addr stored => by
    simp [NetworkExample.start,Network.new,Muxer.new,Muxer.requested] at stored)
  refine ⟨log,n,performed.free,?_⟩
  intro addr member
  have gone := List.all_eq_true.mp lost addr member
  unfold DialsExample.loses at gone
  rw [Bool.and_eq_true,Bool.not_eq_true',List.contains_eq_mem,decide_eq_false_iff_not] at gone
  refine ⟨?_,gone.1,?_⟩
  · rcases List.mem_pair.mp member with rfl | rfl <;> simp [DialsExample.requests]
  · intro given
    obtain ⟨ip,stored⟩ := given
    have known := keyed ip "topic" addr stored
    simpa [known,stored] using gone.2

end AnomaAlpha
