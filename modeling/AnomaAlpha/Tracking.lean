import AnomaAlpha.Connections

namespace AnomaAlpha
open Fallible OrderedMap

namespace Muxer
variable {m m' : Muxer} {p q : PeerId} {c d : ConnectionId} {topic : TopicName}

def assignedTo (m : Muxer) (peer : PeerId) (connection : ConnectionId) : Bool := (m.resolveTopic peer connection).isSome

def waits (m : Muxer) (peer : PeerId) (connection : ConnectionId) : Bool :=
  m.unassigned[peer]?.any fun entry => decide (connection ∈ entry.2)

theorem waits_iff : m.waits p c = true ↔ ∃ entry, m.unassigned[p]? = some entry ∧ c ∈ entry.2 := by
  unfold waits
  cases m.unassigned[p]? <;> simp

theorem resolve_same (same : m'.Same m) (p : PeerId) (c : ConnectionId) : m'.resolveTopic p c = m.resolveTopic p c := by
  unfold resolveTopic
  rw [same.1]

theorem waits_same (same : m'.Same m) (p : PeerId) (c : ConnectionId) : m'.waits p c = m.waits p c := by
  unfold waits
  rw [same.2]

-- What the operations do to the binding of any one connection.

theorem resolve_bind (m : Muxer) (p q : PeerId) (c d : ConnectionId) (topic : TopicName) :
    (m.bind p c topic).resolveTopic q d = if p = q ∧ c = d then some topic else m.resolveTopic q d := by
  unfold bind resolveTopic
  dsimp only
  rw [get_insert]
  by_cases peer : p = q
  · cases peer
    rw [if_pos rfl,Option.bind_some,get_insert]
    by_cases connection : c = d
    · rw [if_pos connection,if_pos ⟨rfl,connection⟩]
    · rw [if_neg connection,if_neg (fun both => connection both.2)]
      cases m.assigned[p]? <;> simp
  · rw [if_neg peer,if_neg (fun both => peer both.1)]

theorem waits_bind (m : Muxer) (p q : PeerId) (c d : ConnectionId) (topic : TopicName) :
    (m.bind p c topic).waits q d = m.waits q d := rfl

theorem resolve_register (m : Muxer) (sender : AddressablePeer) (c d : ConnectionId) (q : PeerId) :
    (m.register sender c).resolveTopic q d = m.resolveTopic q d := by
  unfold register
  split <;> rfl

theorem waits_register (m : Muxer) (sender : AddressablePeer) (c d : ConnectionId) (q : PeerId) :
    (m.register sender c).waits q d = true ↔ sender.peerId = q ∧ c = d ∨ m.waits q d = true := by
  rw [waits_iff,waits_iff]
  unfold register
  split
  · rename_i peer conns found
    rw [get_insert]
    by_cases same : sender.peerId = q
    · cases same
      simp [found]
    · simp [same]
  · rename_i absent
    rw [get_insert]
    by_cases same : sender.peerId = q
    · cases same
      simp [absent]
    · simp [same]

theorem mem_shrunk (peer : AddressablePeer) (conns : Std.ExtTreeSet ConnectionId) (d : ConnectionId) :
    (∃ entry, (if conns.isEmpty then none else some (peer,conns)) = some entry ∧ d ∈ entry.2) ↔ d ∈ conns := by
  split
  · rename_i empty
    rw [Std.ExtTreeSet.isEmpty_iff.mp empty]
    simp
  · simp

theorem resolve_disconnect (m : Muxer) (p q : PeerId) (c d : ConnectionId) :
    (m.disconnect p c).resolveTopic q d = if p = q ∧ c = d then none else m.resolveTopic q d := by
  unfold disconnect
  split
  · rename_i conns found
    unfold resolveTopic
    dsimp only
    rw [get_shrink]
    by_cases peer : p = q
    · cases peer
      rw [if_pos rfl,lookup_shrunk,get_erase,found,Option.bind_some]
      by_cases connection : c = d <;> simp [connection]
    · rw [if_neg peer,if_neg (fun both => peer both.1)]
  · rename_i absent
    have free : m.resolveTopic p c = none := by
      unfold resolveTopic
      rw [absent]
      rfl
    have same : ∀ m' : Muxer, m'.assigned = m.assigned →
        m'.resolveTopic q d = if p = q ∧ c = d then none else m.resolveTopic q d := by
      intro m' kept
      have equal : m'.resolveTopic q d = m.resolveTopic q d := congrArg (fun assigned : HashMap PeerId _ => assigned[q]?.bind _) kept
      rw [equal]
      split
      · rename_i both
        rw [← both.1,← both.2]
        exact free
      · rfl
    split <;> exact same _ rfl

theorem waits_disconnect (m : Muxer) (p q : PeerId) (c d : ConnectionId) :
    (m.disconnect p c).waits q d = true ↔ m.waits q d = true ∧ ¬(p = q ∧ c = d ∧ m.assigned[p]? = none) := by
  rw [waits_iff,waits_iff]
  unfold disconnect
  split
  · rename_i found
    simp [found]
  · rename_i absent
    split
    · rename_i peer conns found
      dsimp only
      rw [get_shrink]
      by_cases same : p = q
      · cases same
        rw [if_pos rfl,mem_shrunk,mem_erase_iff]
        simp [found,absent,and_comm]
      · simp [same]
    · rename_i unknown
      by_cases same : p = q
      · cases same
        simp [unknown]
      · simp [same]

theorem assign_waiting (waiting : m.waits p c = true) (topic : TopicName) : ∃ entry, m.unassigned[p]? = some entry ∧
    (m.assign p c topic).1 = some entry.1 ∧
    (∀ q d, (m.assign p c topic).2.resolveTopic q d = if p = q ∧ c = d then some topic else m.resolveTopic q d) ∧
    ∀ q d, (m.assign p c topic).2.waits q d = true ↔ m.waits q d = true ∧ ¬(p = q ∧ c = d) := by
  obtain ⟨⟨peer,conns⟩,found,member⟩ := waits_iff.mp waiting
  unfold assign
  rw [found]
  dsimp only
  rw [if_pos member]
  refine ⟨(peer,conns),rfl,rfl,fun q d => resolve_bind m p q c d topic,?_⟩
  intro q d
  rw [waits_iff,waits_iff]
  dsimp only
  rw [get_shrink]
  by_cases same : p = q
  · cases same
    rw [if_pos rfl,mem_shrunk,mem_erase_iff]
    simp [found,and_comm]
  · rw [if_neg same]
    exact ⟨fun waiting => ⟨waiting,fun both => same both.1⟩,fun waiting => waiting.1⟩

theorem assign_settled (settled : m.waits p c = false) (topic : TopicName) : m.assign p c topic = (none,m) := by
  unfold assign
  split
  · rfl
  · rename_i peer conns found
    rw [if_neg]
    intro member
    rw [waits_iff.mpr ⟨_,found,member⟩] at settled
    cases settled

def Filled (_ : PeerId) (conns : HashMap ConnectionId TopicName) : Prop := conns.isEmpty = false
def Queued (p : PeerId) (entry : AddressablePeer × Std.ExtTreeSet ConnectionId) : Prop :=
  entry.2.isEmpty = false ∧ entry.1.peerId = p

structure Neat (m : Muxer) : Prop where
  filled : ∀ p conns, m.assigned[p]? = some conns → Filled p conns
  queued : ∀ p entry, m.unassigned[p]? = some entry → Queued p entry

namespace Neat

theorem same (neat : m.Neat) (same : m'.Same m) : m'.Neat :=
  ⟨by rw [same.1]; exact neat.filled,by rw [same.2]; exact neat.queued⟩

theorem bind (neat : m.Neat) (p : PeerId) (c : ConnectionId) (topic : TopicName) : (m.bind p c topic).Neat :=
  ⟨every_insert neat.filled (by simp [Filled]),neat.queued⟩

theorem register (neat : m.Neat) (peer : AddressablePeer) (c : ConnectionId) : (m.register peer c).Neat := by
  unfold Muxer.register
  split
  · rename_i known
    exact ⟨neat.filled,every_insert neat.queued ⟨by simp,(neat.queued _ _ known).2⟩⟩
  · exact ⟨neat.filled,every_insert neat.queued ⟨by simp,rfl⟩⟩

theorem assign (neat : m.Neat) (p : PeerId) (c : ConnectionId) (topic : TopicName) : (m.assign p c topic).2.Neat := by
  unfold Muxer.assign
  split
  · exact neat
  · rename_i known
    split
    · exact ⟨(neat.bind p c topic).filled,every_shrink neat.queued fun left => ⟨left,(neat.queued _ _ known).2⟩⟩
    · exact neat

theorem disconnect (neat : m.Neat) (p : PeerId) (c : ConnectionId) : (m.disconnect p c).Neat := by
  unfold Muxer.disconnect
  split
  · exact ⟨every_shrink neat.filled fun left => left,neat.queued⟩
  · split
    · rename_i known
      exact ⟨neat.filled,every_shrink neat.queued fun left => ⟨left,(neat.queued _ _ known).2⟩⟩
    · exact neat

end Neat

-- What holds of the muxer in whatever order its connections come and go.
structure Booked (m : Muxer) (past : List SwarmEvent) : Prop where
  assigned : ∀ p c, m.assignedTo p c = true → isOpen past p c = true
  waiting : ∀ p c, m.waits p c = true → past.any (opens p c) = true
  held : ∀ p c, isOpen past p c = true → m.assignedTo p c = true ∨ m.waits p c = true
  apart : ∀ p c, m.waits p c = true → m.resolveTopic p c = none
  neat : m.Neat

end Muxer

theorem isOpen_iff {past : List SwarmEvent} : isOpen past p c = true ↔
    past.any (opens p c) = true ∧ .connectionClosed p c ∉ past := by
  simp [isOpen]

theorem opens_establishes {past : List SwarmEvent} (opened : past.any (opens p c) = true) : past.any (establishes c) = true := by
  obtain ⟨event,member,opened⟩ := List.any_eq_true.mp opened
  refine List.any_eq_true.mpr ⟨event,member,?_⟩
  cases event with
  | connectionEstablished remote dialer id =>
      unfold opens at opened
      exact (Bool.and_eq_true _ _ ▸ opened).2
  | _ => cases opened

-- A connection is closed only after it was established.
theorem closed_establishes (ordered : inOrder past = true) (closed : .connectionClosed p c ∈ past) :
    past.any (establishes c) = true := by
  obtain ⟨before,after,rfl⟩ := List.append_of_mem closed
  unfold inOrder at ordered
  rw [inOrderFrom_append,Bool.and_eq_true,inOrderFrom,Bool.and_eq_true] at ordered
  have opened : before.any (opens p c) = true := (isOpen_iff.mp ordered.2.1).1
  rw [List.any_append,opens_establishes opened,Bool.true_or]

theorem isOpen_established (ordered : inOrder past = true)
    (admitted : admits past (.connectionEstablished peer dialer c) = true) (q : PeerId) (d : ConnectionId) :
    isOpen (past ++ [.connectionEstablished peer dialer c]) q d = true ↔
      peer.peerId = q ∧ c = d ∨ isOpen past q d = true := by
  rw [isOpen_iff,isOpen_iff]
  have unclosed : peer.peerId = q ∧ c = d → .connectionClosed q d ∉ past := by
    intro same closed
    change (!past.any (establishes c)) = true at admitted
    rw [same.2,closed_establishes ordered closed] at admitted
    cases admitted
  rw [List.any_append]
  simp only [List.any_cons,List.any_nil,opens,Bool.or_false,Bool.or_eq_true,Bool.and_eq_true,beq_iff_eq,List.mem_append,
    List.mem_singleton,reduceCtorEq,or_false]
  tauto

def passing : SwarmEvent → Bool
  | .messageReceived _ _ _ => true
  | .localAddressDiscovered _ => true
  | _ => false

theorem isOpen_passing (passed : passing event = true) (past : List SwarmEvent) (p : PeerId) (c : ConnectionId) :
    isOpen (past ++ [event]) p c = isOpen past p c := by
  cases event with
  | messageReceived sender connection msg => simp [isOpen,opens]
  | localAddressDiscovered addr => simp [isOpen,opens]
  | _ => cases passed

theorem isOpen_closed (past : List SwarmEvent) (p q : PeerId) (c d : ConnectionId) :
    isOpen (past ++ [.connectionClosed p c]) q d = true ↔ isOpen past q d = true ∧ ¬(p = q ∧ c = d) := by
  rw [isOpen_iff,isOpen_iff,List.any_append]
  simp only [List.any_cons,List.any_nil,opens,Bool.or_false,List.mem_append,List.mem_singleton,
    SwarmEvent.connectionClosed.injEq]
  tauto

namespace Muxer
variable {m m' : Muxer} {past : List SwarmEvent} {p q : PeerId} {c d : ConnectionId} {topic : TopicName} {msg : Message}

theorem assignedTo_resolves (assigned : m.assignedTo p c = true) : ∃ topic, m.resolveTopic p c = some topic :=
  Option.isSome_iff_exists.mp assigned

namespace Booked

theorem same (booked : m.Booked past) (same : m'.Same m) : m'.Booked past := by
  constructor
  · intro p c assigned
    unfold assignedTo at assigned
    rw [resolve_same same] at assigned
    exact booked.assigned p c assigned
  · intro p c waiting
    rw [waits_same same] at waiting
    exact booked.waiting p c waiting
  · intro p c opened
    unfold assignedTo
    rw [resolve_same same,waits_same same]
    exact booked.held p c opened
  · intro p c waiting
    rw [waits_same same] at waiting
    rw [resolve_same same]
    exact booked.apart p c waiting
  · exact booked.neat.same same

-- A connection with a new id is not known yet.
theorem fresh (booked : m.Booked past) (admitted : admits past (.connectionEstablished peer dialer c) = true)
    (p : PeerId) : m.resolveTopic p c = none ∧ m.waits p c = false := by
  change (!past.any (establishes c)) = true at admitted
  constructor
  · cases resolved : m.resolveTopic p c with
    | none => rfl
    | some topic =>
        have opened := booked.assigned p c (by unfold assignedTo; rw [resolved]; rfl)
        rw [opens_establishes (isOpen_iff.mp opened).1] at admitted
        cases admitted
  · cases waiting : m.waits p c with
    | false => rfl
    | true =>
        rw [opens_establishes (booked.waiting p c waiting)] at admitted
        cases admitted

theorem bind (booked : m.Booked past) (ordered : inOrder past = true)
    (admitted : admits past (.connectionEstablished peer dialer c) = true) (topic : TopicName) :
    (m.bind peer.peerId c topic).Booked (past ++ [.connectionEstablished peer dialer c]) := by
  constructor
  · intro q d assigned
    unfold assignedTo at assigned
    rw [resolve_bind] at assigned
    refine (isOpen_established ordered admitted q d).mpr ?_
    split at assigned
    · rename_i same
      exact .inl same
    · exact .inr (booked.assigned q d assigned)
  · intro q d waiting
    rw [waits_bind] at waiting
    rw [List.any_append,booked.waiting q d waiting,Bool.true_or]
  · intro q d opened
    unfold assignedTo
    rw [resolve_bind,waits_bind]
    split
    · exact .inl rfl
    · rename_i other
      exact booked.held q d (((isOpen_established ordered admitted q d).mp opened).resolve_left other)
  · intro q d waiting
    rw [waits_bind] at waiting
    rw [resolve_bind,if_neg]
    · exact booked.apart q d waiting
    · intro same
      rw [← same.2,(booked.fresh admitted q).2] at waiting
      cases waiting
  · exact booked.neat.bind _ _ _

theorem register (booked : m.Booked past) (ordered : inOrder past = true)
    (admitted : admits past (.connectionEstablished peer dialer c) = true) :
    (m.register peer c).Booked (past ++ [.connectionEstablished peer dialer c]) := by
  constructor
  · intro q d assigned
    unfold assignedTo at assigned
    rw [resolve_register] at assigned
    exact (isOpen_established ordered admitted q d).mpr (.inr (booked.assigned q d assigned))
  · intro q d waiting
    rw [List.any_append]
    rcases (waits_register m peer c d q).mp waiting with same | waiting
    · simp [opens,same]
    · rw [booked.waiting q d waiting,Bool.true_or]
  · intro q d opened
    unfold assignedTo
    rw [resolve_register,waits_register]
    rcases (isOpen_established ordered admitted q d).mp opened with same | opened
    · exact .inr (.inl same)
    · exact (booked.held q d opened).imp_right .inr
  · intro q d waiting
    rw [resolve_register]
    rcases (waits_register m peer c d q).mp waiting with same | waiting
    · rw [← same.2]
      exact (booked.fresh admitted q).1
    · exact booked.apart q d waiting
  · exact booked.neat.register _ _

theorem passing (booked : m.Booked past) (passed : passing event = true) : m.Booked (past ++ [event]) := by
  constructor
  · intro p c assigned
    rw [isOpen_passing passed]
    exact booked.assigned p c assigned
  · intro p c waiting
    rw [List.any_append,booked.waiting p c waiting,Bool.true_or]
  · intro p c opened
    rw [isOpen_passing passed] at opened
    exact booked.held p c opened
  · exact booked.apart
  · exact booked.neat

theorem message (booked : m.Booked past) (opened : isOpen past p c = true) (topic : TopicName) (msg : Message) :
    (m.assign p c topic).2.Booked (past ++ [.messageReceived p c msg]) := by
  have later : m.Booked (past ++ [.messageReceived p c msg]) := booked.passing rfl
  cases waiting : m.waits p c with
  | false =>
      rw [assign_settled waiting]
      exact later
  | true =>
      obtain ⟨entry,found,peer,resolve,waits⟩ := assign_waiting waiting topic
      constructor
      · intro q d assigned
        unfold assignedTo at assigned
        rw [resolve] at assigned
        split at assigned
        · rename_i same
          rw [isOpen_passing rfl,← same.1,← same.2]
          exact opened
        · exact later.assigned q d assigned
      · intro q d waiting
        exact later.waiting q d ((waits q d).mp waiting).1
      · intro q d opened
        unfold assignedTo
        rw [resolve,waits]
        split
        · exact .inl rfl
        · rename_i other
          exact (later.held q d opened).imp_right fun waiting => ⟨waiting,other⟩
      · intro q d waiting
        obtain ⟨waiting,other⟩ := (waits q d).mp waiting
        rw [resolve,if_neg other]
        exact booked.apart q d waiting
      · exact booked.neat.assign p c topic

theorem disconnect (booked : m.Booked past) :
    (m.disconnect p c).Booked (past ++ [.connectionClosed p c]) := by
  constructor
  · intro q d assigned
    unfold assignedTo at assigned
    rw [resolve_disconnect] at assigned
    split at assigned
    · cases assigned
    · rename_i other
      exact (isOpen_closed past p q c d).mpr ⟨booked.assigned q d assigned,other⟩
  · intro q d waiting
    rw [List.any_append,booked.waiting q d ((waits_disconnect m p q c d).mp waiting).1,Bool.true_or]
  · intro q d opened
    obtain ⟨opened,other⟩ := (isOpen_closed past p q c d).mp opened
    unfold assignedTo
    rw [resolve_disconnect,if_neg other,waits_disconnect]
    exact (booked.held q d opened).imp_right fun waiting => ⟨waiting,fun same => other ⟨same.1,same.2.1⟩⟩
  · intro q d waiting
    rw [resolve_disconnect]
    split
    · rfl
    · exact booked.apart q d ((waits_disconnect m p q c d).mp waiting).1
  · exact booked.neat.disconnect p c

-- The books stay in order whatever a network does, if the events of connections
-- come in order.
theorem follows (booked : m.Booked past) (ordered : inOrder past = true)
    (admitted : ∀ event ∈ deed.event, admits past event = true) (follows : m.Follows m' deed) :
    m'.Booked (past ++ deed.event.toList) := by
  cases deed with
  | command command =>
      cases command with
      | injectEvent event =>
          have admitted := admitted event rfl
          cases event with
          | localAddressDiscovered addr => exact (booked.passing rfl).same follows
          | connectionEstablished peer dialer connection =>
              cases dialer with
              | true =>
                  obtain ⟨name,same⟩ := follows
                  exact (booked.bind ordered admitted name).same same
              | false => exact (booked.register ordered admitted).same follows
          | connectionClosed peer connection => exact booked.disconnect.same follows
          | messageReceived sender connection msg =>
              rcases follows with same | same
              · exact (booked.passing rfl).same same
              · exact (booked.message admitted msg.topic msg).same same
      | _ => simpa [Deed.event] using booked.same follows
  | _ => simpa [Deed.event] using booked.same follows

end Booked

theorem follows_waits (follows : m.Follows m' deed) (waiting : m'.waits p c = true) :
    m.waits p c = true ∧ ¬(deed.event = some (.connectionClosed p c) ∧ m.assigned[p]? = none) ∨
      ∃ peer, deed.event = some (.connectionEstablished peer false c) ∧ peer.peerId = p := by
  have same : m'.Same m → deed.event ≠ some (.connectionClosed p c) →
      m.waits p c = true ∧ ¬(deed.event = some (.connectionClosed p c) ∧ m.assigned[p]? = none) := by
    intro same other
    rw [waits_same same] at waiting
    exact ⟨waiting,fun closed => other closed.1⟩
  cases deed with
  | command command =>
      cases command with
      | injectEvent event =>
          cases event with
          | localAddressDiscovered addr => exact .inl (same follows (by simp [Deed.event]))
          | connectionEstablished peer dialer connection =>
              cases dialer with
              | true =>
                  obtain ⟨name,bound⟩ := follows
                  rw [waits_same bound,waits_bind] at waiting
                  exact .inl ⟨waiting,by simp [Deed.event]⟩
              | false =>
                  rw [waits_same follows] at waiting
                  rcases (waits_register m peer connection c p).mp waiting with ⟨remote,rfl⟩ | waiting
                  · exact .inr ⟨peer,rfl,remote⟩
                  · exact .inl ⟨waiting,by simp [Deed.event]⟩
          | connectionClosed peer connection =>
              rw [waits_same follows] at waiting
              obtain ⟨waiting,unclosed⟩ := (waits_disconnect m peer p connection c).mp waiting
              refine .inl ⟨waiting,fun ⟨closed,unassigned⟩ => ?_⟩
              cases closed
              exact unclosed ⟨rfl,rfl,unassigned⟩
          | messageReceived sender connection msg =>
              rcases follows with unchanged | assigned
              · exact .inl (same unchanged (by simp [Deed.event]))
              · refine .inl ⟨?_,by simp [Deed.event]⟩
                rw [waits_same assigned] at waiting
                cases first : m.waits sender connection with
                | false =>
                    rw [assign_settled first] at waiting
                    exact waiting
                | true =>
                    obtain ⟨_,_,_,_,waits⟩ := assign_waiting first msg.topic
                    exact ((waits p c).mp waiting).1
      | _ => exact .inl (same follows (by simp [Deed.event]))
  | _ => exact .inl (same follows (by simp [Deed.event]))

theorem new_booked (pendingTimeout : Nat) : (new pendingTimeout).Booked [] := by
  constructor
  · intro p c assigned
    simp [assignedTo,resolveTopic,new] at assigned
  · intro p c waiting
    simp [waits,new] at waiting
  · intro p c opened
    simp [isOpen] at opened
  · intro p c waiting
    simp [waits,new] at waiting
  · exact ⟨fun p conns found => by simp [new] at found,fun p entry found => by simp [new] at found⟩

end Muxer

theorem isOpen_later {past : List SwarmEvent} (opened : isOpen past p c = true)
    (unclosed : event ≠ some (.connectionClosed p c)) : isOpen (past ++ event.toList) p c = true := by
  obtain ⟨established,open_⟩ := isOpen_iff.mp opened
  rw [isOpen_iff,List.any_append,established,Bool.true_or]
  refine ⟨rfl,fun closed => ?_⟩
  rcases List.mem_append.mp closed with closed | closed
  · exact open_ closed
  · exact unclosed (Option.mem_toList.mp closed)

-- Every run in which the events of connections come in order.

variable {hash : Message → Multihash} {fit : Network → Turn → Deed → Prop} {start n : Network}

theorem swarmEvents_admitted (ordered : inOrder (swarmEvents (deeds ++ [(turn,deed)])) = true) :
    inOrder (swarmEvents deeds) = true ∧ ∀ event ∈ deed.event, admits (swarmEvents deeds) event = true := by
  rw [swarmEvents_snoc] at ordered
  cases about : deed.event with
  | none =>
      rw [about] at ordered
      exact ⟨by simpa using ordered,fun event member => by cases member⟩
  | some event =>
      rw [about] at ordered
      obtain ⟨earlier,admitted⟩ := Bool.and_eq_true _ _ ▸ inOrder_snoc _ _ ▸ ordered
      refine ⟨earlier,fun given member => ?_⟩
      cases member
      exact admitted

theorem Performed.booked (performed : Performed hash fit start deeds log n) (fresh : start.muxer.Booked [])
    (ordered : inOrder (swarmEvents deeds) = true) : n.muxer.Booked (swarmEvents deeds) := by
  induction performed with
  | nil => exact fresh
  | snoc _ _ did ih =>
      obtain ⟨earlier,admitted⟩ := swarmEvents_admitted ordered
      rw [swarmEvents_snoc]
      exact (ih earlier).follows earlier admitted (Network.perform_ok did).2.1

-- What the muxer is to hold when all is well.
structure Muxer.Tracks (m : Muxer) (past : List SwarmEvent) : Prop where
  pairs : ∀ p c, (m.assignedTo p c = true ∨ m.waits p c = true) ↔ isOpen past p c = true
  apart : ∀ p c, ¬(m.assignedTo p c = true ∧ m.waits p c = true)
  neat : m.Neat

-- No connection is closed while it waits for its first message beside another
-- one that its peer has been assigned.
def closesCleanly (n : Network) (_ : Turn) (deed : Deed) : Bool :=
  match deed with
  | .command (.injectEvent (.connectionClosed peer connection)) =>
    !n.muxer.waits peer connection || n.muxer.assigned[peer]?.isNone
  | _ => true

theorem Performed.waiting_open (performed : Performed hash (fun n turn deed => closesCleanly n turn deed = true) start deeds log n)
    (fresh : ∀ p c, start.muxer.waits p c = false) (ordered : inOrder (swarmEvents deeds) = true) (p : PeerId)
    (c : ConnectionId) (waiting : n.muxer.waits p c = true) : isOpen (swarmEvents deeds) p c = true := by
  induction performed generalizing p c with
  | nil =>
      rw [fresh p c] at waiting
      cases waiting
  | snoc _ clean did ih =>
      rename_i turn deed _ _ _
      obtain ⟨earlier,admitted⟩ := swarmEvents_admitted ordered
      rw [swarmEvents_snoc]
      rcases Muxer.follows_waits (Network.perform_ok did).2.1 waiting with ⟨before,unclosed⟩ | ⟨peer,event,rfl⟩
      · refine isOpen_later (ih earlier p c before) ?_
        intro closed
        refine unclosed ⟨closed,?_⟩
        cases deed with
        | command command =>
            cases command with
            | injectEvent event =>
                cases closed
                simpa [closesCleanly,show _ = true from before] using clean
            | _ => cases closed
        | _ => cases closed
      · rw [event] at admitted ⊢
        exact (isOpen_established earlier (admitted _ rfl) _ _).mpr (.inl ⟨rfl,rfl⟩)

theorem muxer_tracks_open (config : NetworkConfig) (peerId : PeerId)
    (performed : Performed hash (fun n turn deed => closesCleanly n turn deed = true) (.new config peerId) deeds log n)
    (ordered : inOrder (swarmEvents deeds) = true) : n.muxer.Tracks (swarmEvents deeds) := by
  have booked := performed.booked (Muxer.new_booked _) ordered
  have opened := performed.waiting_open (fun p c => by simp [Network.new,Muxer.new,Muxer.waits]) ordered
  constructor
  · intro p c
    exact ⟨fun held => held.elim (booked.assigned p c) (opened p c),booked.held p c⟩
  · intro p c both
    obtain ⟨topic,resolved⟩ := Muxer.assignedTo_resolves both.1
    rw [booked.apart p c both.2] at resolved
    cases resolved
  · exact booked.neat

theorem unclean_close_leaks (unclean : closesCleanly n turn deed = false) (did : n.perform hash turn deed = .ok n')
    (past : List SwarmEvent) : ¬n'.muxer.Tracks (past ++ deed.event.toList) := by
  intro tracks
  cases deed with
  | command command =>
      cases command with
      | injectEvent event =>
          cases event with
          | connectionClosed peer connection =>
              obtain ⟨waiting,assigned⟩ : n.muxer.waits peer connection = true ∧ n.muxer.assigned[peer]? ≠ none := by
                simpa [closesCleanly] using unclean
              have left := (Muxer.waits_disconnect n.muxer peer peer connection connection).mpr
                ⟨waiting,fun both => assigned both.2.2⟩
              rw [← Muxer.waits_same (Network.perform_ok did).2.1] at left
              exact ((isOpen_closed past peer peer connection connection).mp ((tracks.pairs _ _).mp (.inr left))).2
                ⟨rfl,rfl⟩
          | _ => cases unclean
      | _ => cases unclean
  | _ => cases unclean

namespace TrackingExample
open TopicExample NetworkExample

def does (deed : Deed) : Turn × Deed := (.first 0,deed)
def hears (event : SwarmEvent) : Turn × Deed := does (.command (.injectEvent event))

-- A peer comes over two connections and sends over the first one.
def visit : List (Turn × Deed) :=
  [does (.join ⟨"topic",[]⟩),hears (.connectionEstablished (peer 1) false 1),hears (arrival 1 neighbour),
   hears (.connectionEstablished (peer 1) false 2)]

def leave : List (Turn × Deed) := visit ++ [hears (.connectionClosed (peer 1).peerId 2)]
def speak : List (Turn × Deed) :=
  visit ++ [hears (.messageReceived (peer 1).peerId 2 gossip),hears (.connectionClosed (peer 1).peerId 2)]

end TrackingExample

theorem spoken_connections_tracked : ∃ log n,
    Performed NetworkExample.hash (fun n turn deed => closesCleanly n turn deed = true) NetworkExample.start
      TrackingExample.speak log n ∧ n.muxer.Tracks (swarmEvents TrackingExample.speak) := by
  obtain ⟨n,played⟩ := Option.isSome_iff_exists.mp
    (show (NetworkExample.start.rehearse NetworkExample.hash closesCleanly TrackingExample.speak).isSome = true by
      decide)
  obtain ⟨log,performed⟩ := Network.rehearse_performed played
  exact ⟨log,n,performed,muxer_tracks_open _ _ performed (by decide)⟩

theorem silent_connection_leaks : ∃ log n,
    Performed NetworkExample.hash (fun _ _ _ => True) NetworkExample.start TrackingExample.leave log n ∧
      inOrder (swarmEvents TrackingExample.leave) = true ∧ ¬n.muxer.Tracks (swarmEvents TrackingExample.leave) := by
  obtain ⟨n,played,waiting⟩ := (Option.any_eq_true _ _).mp
    (show (NetworkExample.start.rehearse NetworkExample.hash (fun _ _ _ => true) TrackingExample.leave).any
      (fun n => n.muxer.waits (TopicExample.peer 1).peerId 2) = true by decide)
  obtain ⟨log,performed⟩ := Network.rehearse_performed played
  refine ⟨log,n,performed.free,by decide,fun tracks => ?_⟩
  have opened := (tracks.pairs _ _).mp (.inr waiting)
  revert opened
  decide

end AnomaAlpha
