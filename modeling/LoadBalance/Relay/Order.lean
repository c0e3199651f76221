import LoadBalance.Relay.Invariant

/-!
# The order on one link

An inner server answers in the order in which it is asked: what was forwarded to it is,
in this order, what has been answered followed by what is on its way. This holds in every
state, whatever the clients and their descriptors do.
-/

namespace LoadBalance.Relay

variable {servers : ℕ} {boot : Boot servers} {world next : World servers}

namespace Link

/-- The forwards of a link in the order of their serial numbers, which are below `count`. -/
structure InOrder (count : ℕ) (link : Link) : Prop where
  split : link.forwarded = link.replies.map Reply.serial ++ link.packets.map Packet.serial
  correct : ∀ reply ∈ link.replies, reply.data = correctRes
  increasing : link.forwarded.Pairwise (· < ·)
  bounded : ∀ serial ∈ link.forwarded, serial < count

namespace InOrder

variable {count : ℕ} {link after : Link}

theorem congr (inOrder : link.InOrder count) (forwarded : after.forwarded = link.forwarded)
    (replies : after.replies = link.replies) (packets : after.packets = link.packets) :
    after.InOrder count where
  split := by rw [forwarded, replies, packets, inOrder.split]
  correct := replies ▸ inOrder.correct
  increasing := forwarded ▸ inOrder.increasing
  bounded := forwarded ▸ inOrder.bounded

theorem mono (inOrder : link.InOrder count) {later : ℕ} (grown : count ≤ later) :
    link.InOrder later where
  split := inOrder.split
  correct := inOrder.correct
  increasing := inOrder.increasing
  bounded := fun serial serialMem => (inOrder.bounded serial serialMem).trans_le grown

theorem enqueue (inOrder : link.InOrder count) {packet : Packet} (serial : packet.serial = count) :
    InOrder (count + 1) { link with
      toServer := link.toServer ++ [packet], forwarded := link.forwarded ++ [packet.serial] } where
  split := by
    rw [packets_enqueue, List.map_append, ← List.append_assoc, ← inOrder.split]
    rfl
  correct := inOrder.correct
  increasing := by
    refine List.pairwise_append.mpr ⟨inOrder.increasing, List.pairwise_singleton _ _, ?_⟩
    intro old oldMem fresh freshMem
    rw [List.mem_singleton.mp freshMem, serial]
    exact inOrder.bounded old oldMem
  bounded := by
    intro other otherMem
    rcases List.mem_append.mp otherMem with old | fresh
    · have bound := inOrder.bounded other old
      omega
    · rw [List.mem_singleton.mp fresh, serial]
      omega

theorem settle (inOrder : link.InOrder count) {packet : Packet} {rest : List Packet}
    (waiting : link.fromServer = packet :: rest) (target : Option ConnId) :
    InOrder count { link with
      fromServer := rest
      replies := link.replies ++ [⟨packet.serial, correctRes, target⟩] } where
  split := by
    have oldest := inOrder.split
    rw [packets_eq_cons waiting (link.replies ++ [⟨packet.serial, correctRes, target⟩]),
      List.map_cons] at oldest
    simpa using oldest
  correct := by
    intro reply replyMem
    rcases List.mem_append.mp replyMem with old | fresh
    · exact inOrder.correct reply old
    · rw [List.mem_singleton.mp fresh]
  increasing := inOrder.increasing
  bounded := inOrder.bounded

/-- A forward without a reply is on its way, and one with a reply is not. -/
theorem mem_forwarded_iff (inOrder : link.InOrder count) {serial : ℕ} :
    serial ∈ link.forwarded ↔
      (∃ reply ∈ link.replies, reply.serial = serial) ∨
        ∃ packet ∈ link.packets, packet.serial = serial := by
  rw [inOrder.split, List.mem_append, List.mem_map, List.mem_map]

theorem serial_ne (inOrder : link.InOrder count) {reply : Reply} (replyMem : reply ∈ link.replies)
    {packet : Packet} (packetMem : packet ∈ link.packets) : reply.serial ≠ packet.serial := by
  have increasing := inOrder.increasing
  rw [inOrder.split, List.pairwise_append] at increasing
  exact (increasing.2.2 _ (List.mem_map_of_mem replyMem) _ (List.mem_map_of_mem packetMem)).ne

end InOrder

end Link

namespace World

def Ordered (world : World servers) : Prop :=
  ∀ server, (world.link server).InOrder world.requests.length

theorem ordered_boot (boot : Boot servers) (garbage : Fin servers → Message Byte) :
    (boot.world garbage).Ordered := by
  intro server
  constructor <;> simp [Boot.world, Link.packets]

namespace Ordered

theorem congr (ordered : world.Ordered) (link : next.link = world.link)
    (requests : next.requests = world.requests) : next.Ordered := by
  rw [Ordered, link, requests]
  exact ordered

theorem took (ordered : world.Ordered) (conn : ConnId) (rest : List (List Byte))
    (mess : Message Byte) : (world.took conn rest mess).Ordered :=
  fun server => (ordered server).mono (by simp)

theorem move {event : Event servers} (ordered : world.Ordered) (move : Move world event next) :
    next.Ordered := by
  cases move with
  | connect conn unborn => exact ordered.congr rfl rfl
  | client conn value acts => exact ordered.congr rfl rfl
  | listen answers _ enrolled _ =>
      refine Machine.run_invariant Ordered ?_ ordered enrolled
      intro state fd after before step
      exact before.congr (enroll_link step) (enroll_requests step)
  | listenHalt answers halt => exact ordered.congr rfl rfl
  | forward fd conn index request rest mess isClient waiting =>
      refine Family.forall_update (fun _ => Link.InOrder _) (ordered.took conn rest mess) ?_
      have enqueued := (ordered index).enqueue
        (show (Packet.mk (fdBytes fd ++ request) world.requests.length).serial = _ from rfl)
      simpa using enqueued
  | refuse fd conn index request rest mess isClient waiting =>
      exact (ordered.took conn rest mess).congr rfl rfl
  | again fd conn index moved isClient nothing going => exact ordered.congr rfl rfl
  | close fd conn index moved isClient nothing ended => exact ordered.congr rfl rfl
  | reply fd server index moved packet rest mess isWork waiting =>
      have settled : (world.settle server packet rest mess).Ordered :=
        Family.forall_update (fun _ => Link.InOrder _) ordered
          ((ordered server).settle waiting (world.clientAt packet.fd))
      exact settled.congr (by simp) (by simp)
  | serverRead server packet rest mess free waiting =>
      exact Family.forall_update (fun _ => Link.InOrder _) ordered
        ((ordered server).congr rfl rfl (Link.packets_read free waiting mess))
  | serverWrite server packet holding =>
      exact Family.forall_update (fun _ => Link.InOrder _) ordered
        ((ordered server).congr rfl rfl (Link.packets_write holding))

end Ordered

end World

end LoadBalance.Relay
