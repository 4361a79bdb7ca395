import SquimpChat.Steps
import SquimpChat.ClientState

/-!
# Packets and RECEIVE events

A stream carries bytes. `sqmp_stream_send` writes those of a packet, and MsQuic cuts what
is written into RECEIVE events of one or more buffers. `stream_cb` copies the buffers of
one event behind each other and passes them to `on_stream_recv`, which hands them to the
handler of the type in their second byte. No packet says how long it is.

Results:
1. `received_eq`: `on_stream_recv` is called with the bytes of one event.
2. `framing_iff`: the packets handed to the handlers are those sent exactly when each of
   them comes in an event of its own.
3. `coalesced_and_split`: two packets in one event, and one packet in two.
-/

namespace SquimpChat
open Octets

/-! ## 1. Sending and receiving -/

/-- The bytes `sqmp_stream_send` gives to StreamSend. `QUIC_BUFFER.Length` has 32 bits. -/
def streamSendBytes (data : Bytes) : Bytes := data.take (UInt32.ofNat data.length).toNat

/-- `QUIC_STREAM_EVENT_RECEIVE`, and whether the `malloc` of `stream_cb` succeeds for it. -/
structure RecvEvent where
  buffers : List Bytes
  totalBufferLength : Nat
  allocated : Bool
  total : buffers.flatten.length = totalBufferLength

namespace RecvEvent

/-- An event with these buffers that is received. -/
def ofBuffers (buffers : List Bytes) : RecvEvent := ⟨buffers, _, true, rfl⟩

def bytes (ev : RecvEvent) : Bytes := ev.buffers.flatten

end RecvEvent

/-- `memcpy(flat + off, buf, n)` with the `n` bytes of `buf`. -/
def memcpyAt (flat : Bytes) (off : Nat) (buf : Bytes) : Bytes :=
  flat.take off ++ buf ++ flat.drop (off + buf.length)

/-- The loop of `stream_cb` over the buffers of an event. -/
def copyBuffers (flat : Bytes) (off : Nat) : List Bytes → Bytes
  | [] => flat
  | buf :: bufs => copyBuffers (memcpyAt flat off buf) (off + buf.length) bufs

/-- What `stream_cb` calls `on_stream_recv` with. The copy has a NUL behind its end;
`uninit` is what `malloc` leaves in it. -/
def RecvEvent.received (uninit : Nat → UInt8) (ev : RecvEvent) : Option Bytes :=
  if ev.allocated then
    let flat := (List.range (ev.totalBufferLength + 1)).map uninit
    let flat := (copyBuffers flat 0 ev.buffers).set ev.totalBufferLength 0
    some (flat.take ev.totalBufferLength)
  else none

inductive Side
  | server | client
deriving DecidableEq

/-- The types the side's `on_stream_recv` has a case for. -/
def Side.handles : Side → MsgType → Bool
  | server => serverHandles
  | client => Client.handles

/-- The handler call of an `on_stream_recv`: which handler, and the packet with its body. -/
def handedTo (side : Side) (data : Bytes) : Option (MsgType × Bytes) :=
  match dispatch side.handles data with
  | .ok (some t) => some (t, data)
  | _ => none

/-- The handler calls of a list of events. -/
def handed (side : Side) (uninit : Nat → UInt8) (evs : List RecvEvent) : List (MsgType × Bytes) :=
  evs.filterMap fun ev => (ev.received uninit).bind (handedTo side)

/-- The packet as a handler ought to see it. -/
def Packet.asHanded (p : Packet) : MsgType × Bytes := (p.msg.type, p.bytes)

/-- MsQuic delivers the bytes written for the packets, cut into these events. -/
def Cutting (ps : List Packet) (evs : List RecvEvent) : Prop :=
  (evs.map (·.bytes)).flatten = (ps.map fun p => streamSendBytes p.bytes).flatten

instance (ps : List Packet) (evs : List RecvEvent) : Decidable (Cutting ps evs) :=
  inferInstanceAs (Decidable (_ = _))

/-- The events that have bytes are one for each packet, and none of them is dropped. -/
def OnePerEvent (ps : List Packet) (evs : List RecvEvent) : Prop :=
  (evs.filter fun ev => ev.bytes ≠ []).map (fun ev => (ev.bytes, ev.allocated)) =
    ps.map fun p => (p.bytes, true)

instance (ps : List Packet) (evs : List RecvEvent) : Decidable (OnePerEvent ps evs) :=
  inferInstanceAs (Decidable (_ = _))

/-! ## 2. One event -/

section Event

variable {side : Side} {data : Bytes} {t : MsgType} {uninit : Nat → UInt8}

/-- `copyBuffers` overwrites the bytes from `off` on. -/
theorem copyBuffers_eq (bufs : List Bytes) (flat : Bytes) (off : Nat) (h : off ≤ flat.length) :
    copyBuffers flat off bufs =
      flat.take off ++ bufs.flatten ++ flat.drop (off + bufs.flatten.length) := by
  induction bufs generalizing flat off with
  | nil => simp [copyBuffers]
  | cons buf bufs ih =>
    have hlen : (flat.take off ++ buf).length = off + buf.length := by simp [h]
    have htake : (memcpyAt flat off buf).take (off + buf.length) = flat.take off ++ buf := by
      rw [memcpyAt, ← hlen, List.take_left]
    have hdrop : ∀ n, (memcpyAt flat off buf).drop (off + buf.length + n) =
        flat.drop (off + buf.length + n) := by
      intro n
      rw [memcpyAt, ← List.drop_drop, ← hlen, List.drop_left, List.drop_drop, hlen]
    have hle : off + buf.length ≤ (memcpyAt flat off buf).length := by
      rw [memcpyAt, List.length_append, hlen]
      exact Nat.le_add_right _ _
    rw [copyBuffers, ih _ _ hle, htake, hdrop]
    simp [Nat.add_assoc]

/-- The bytes of one event, and no others, are one call of `on_stream_recv`. -/
theorem received_eq (uninit : Nat → UInt8) (ev : RecvEvent) :
    ev.received uninit = if ev.allocated then some ev.bytes else none := by
  have hlen : ev.bytes.length = ev.totalBufferLength := ev.total
  unfold RecvEvent.received
  dsimp only
  rw [copyBuffers_eq _ _ _ (Nat.zero_le _), List.take_zero, List.nil_append, ev.total,
    ← RecvEvent.bytes, List.take_set, List.take_append_of_le_length (Nat.le_of_eq hlen.symm),
    List.take_of_length_le (Nat.le_of_eq hlen), List.set_eq_of_length_le (Nat.le_of_eq hlen)]

/-- A handler is given all the bytes there are. -/
theorem handedTo_eq_some {pkt : Bytes} :
    handedTo side data = some (t, pkt) ↔
      dispatch side.handles data = .ok (some t) ∧ pkt = data := by
  unfold handedTo
  split
  · next t' h =>
    rw [h]
    simp [eq_comm]
  · next h =>
    constructor
    · nofun
    · rintro ⟨hd, _⟩
      exact absurd hd (h t)

/-- No handler is called for less than a header. -/
theorem header_le_of_handedTo {pkt : Bytes} (h : handedTo side data = some (t, pkt)) :
    pktFixedLen ≤ data.length := by
  obtain ⟨hd, _⟩ := handedTo_eq_some.mp h
  unfold dispatch at hd
  split at hd
  · cases hd
  · exact Nat.le_of_not_lt ‹_›

/-- The server does nothing with bytes that it hands to no handler. -/
theorem onStreamRecv_unhanded (env : Env) (σ : Server) (st : StreamId)
    (h : handedTo .server data = none) : onStreamRecv env σ st data = .ok σ := by
  obtain ⟨o, hd⟩ := StepLemmas.dispatch_ok serverHandles data
  cases o with
  | none => rw [onStreamRecv, hd, ok_bind]
  | some t =>
    have hsome : handedTo .server data = some (t, data) := handedTo_eq_some.mpr ⟨hd, rfl⟩
    rw [h] at hsome
    cases hsome

theorem handedTo_packet {p : Packet} (h : side.handles p.msg.type = true) :
    handedTo side p.bytes = some p.asHanded := by
  refine handedTo_eq_some.mpr ⟨?_, rfl⟩
  rw [ClientStateLemmas.dispatch_bytes, Option.filter_some, if_pos h]

end Event

/-! ## 3. All events -/

namespace FramingLemmas

variable {side : Side} {uninit : Nat → UInt8} {ev : RecvEvent} {evs : List RecvEvent}
  {x : MsgType × Bytes}

/-- What an event's bytes and the outcome of `malloc` come to. -/
def call (side : Side) (b : Bytes × Bool) : Option (MsgType × Bytes) :=
  if b.2 then handedTo side b.1 else none

theorem handed_eq : handed side uninit evs =
    (evs.map fun ev => (ev.bytes, ev.allocated)).filterMap (call side) := by
  rw [handed, List.filterMap_map]
  congr 1
  funext ev
  rw [received_eq]
  show _ = if ev.allocated then handedTo side ev.bytes else none
  split <;> rfl

theorem call_nil {b : Bool} : call side ([], b) = none := by
  unfold call
  split
  · show handedTo side [] = none
    by_contra h
    obtain ⟨⟨t, pkt⟩, h⟩ := Option.ne_none_iff_exists'.mp h
    exact absurd (header_le_of_handedTo h) (by decide)
  · rfl

/-- Events without bytes call no handler. -/
theorem handed_filter :
    handed side uninit (evs.filter fun ev => ev.bytes ≠ []) = handed side uninit evs := by
  rw [handed_eq, handed_eq]
  induction evs with
  | nil => rfl
  | cons ev evs ih =>
    by_cases h : ev.bytes = []
    · rw [List.filter_cons_of_neg (by simp [h]), ih, List.map_cons, h,
        List.filterMap_cons_none call_nil]
    · rw [List.filter_cons_of_pos (by simp [h]), List.map_cons, List.filterMap_cons,
        List.map_cons, List.filterMap_cons, ih]

/-- The handlers see at most the bytes received; if they see as many, every event that has
bytes has called one. -/
theorem handed_total (side : Side) (uninit : Nat → UInt8) (evs : List RecvEvent) :
    ((handed side uninit evs).map (·.2)).flatten.length ≤ (evs.map (·.bytes)).flatten.length ∧
    (((handed side uninit evs).map (·.2)).flatten.length = (evs.map (·.bytes)).flatten.length →
      (evs.filter fun ev => ev.bytes ≠ []).map (fun ev => (ev.bytes, ev.allocated)) =
        (handed side uninit evs).map fun x => (x.2, true)) := by
  rw [handed_eq]
  induction evs with
  | nil => exact ⟨Nat.le_refl _, fun _ => rfl⟩
  | cons ev evs ih =>
    obtain ⟨hle, heq⟩ := ih
    rw [List.map_cons, List.map_cons, List.flatten_cons, List.length_append]
    cases hc : call side (ev.bytes, ev.allocated) with
    | none =>
      -- the bytes of an event that calls no handler are missing from the sum
      rw [List.filterMap_cons_none hc]
      refine ⟨Nat.le_trans hle (Nat.le_add_left _ _), fun h => ?_⟩
      have hnil : ev.bytes = [] := List.length_eq_zero_iff.mp (by omega)
      rw [List.filter_cons_of_neg (by simp [hnil])]
      exact heq (by rw [h, hnil, List.length_nil, Nat.zero_add])
    | some x =>
      obtain ⟨t, pkt⟩ := x
      rw [List.filterMap_cons_some hc, List.map_cons, List.map_cons, List.flatten_cons,
        List.length_append]
      unfold call at hc
      split at hc
      · next ha =>
        obtain ⟨_, rfl⟩ := handedTo_eq_some.mp hc
        have hne : ev.bytes ≠ [] := by
          intro hnil
          have h := header_le_of_handedTo hc
          rw [show (ev.bytes, ev.allocated).1 = [] from hnil] at h
          exact absurd h (by decide)
        refine ⟨Nat.add_le_add_left hle _, fun h => ?_⟩
        rw [List.filter_cons_of_pos (by simp [hne]), List.map_cons,
          heq (Nat.add_left_cancel h), show ev.allocated = true from ha]
      · cases hc

theorem streamSendBytes_length_le (data : Bytes) : (streamSendBytes data).length ≤ data.length := by
  rw [streamSendBytes, List.length_take]
  exact Nat.min_le_right _ _

/-- No more bytes are received than the packets have. -/
theorem cutting_total {ps : List Packet} (h : Cutting ps evs) :
    (evs.map (·.bytes)).flatten.length ≤ (ps.map (·.bytes)).flatten.length := by
  rw [h]
  clear h
  induction ps with
  | nil => exact Nat.le_refl _
  | cons p ps ih =>
    rw [List.map_cons, List.map_cons, List.flatten_cons, List.flatten_cons, List.length_append,
      List.length_append]
    exact Nat.add_le_add (streamSendBytes_length_le p.bytes) ih

end FramingLemmas
open FramingLemmas

/-- However the bytes of the packets are cut, the handlers are given exactly the packets
sent when each of them comes in one event, and not otherwise. -/
theorem framing_iff (side : Side) (uninit : Nat → UInt8) (ps : List Packet) (evs : List RecvEvent)
    (hps : ∀ p ∈ ps, side.handles p.msg.type = true) (hcut : Cutting ps evs) :
    handed side uninit evs = ps.map Packet.asHanded ↔ OnePerEvent ps evs := by
  constructor
  · intro h
    obtain ⟨hle, heq⟩ := handed_total side uninit evs
    rw [h, List.map_map, List.map_map] at heq
    rw [h, List.map_map] at hle
    exact heq (Nat.le_antisymm hle (cutting_total hcut))
  · intro h
    rw [← handed_filter, handed_eq, h, List.filterMap_map, ← List.filterMap_eq_map]
    refine List.filterMap_congr fun p hp => ?_
    exact handedTo_packet (hps p hp)

/-! ## 4. Concrete cuttings -/

/-- The HELLO of the client's `main`. -/
def clientHello : Packet := ⟨0, .hello ⟨1, (Buf.zero 8).store [1], 1, 65535⟩⟩

/-- A client says HELLO and BYE. -/
def helloBye : List Packet := [clientHello, ⟨0, .bye⟩]

/-- The HELLO comes in two buffers; an event without bytes follows. -/
def wholePackets : List RecvEvent :=
  [.ofBuffers [clientHello.bytes.take 5, clientHello.bytes.drop 5], .ofBuffers [],
    .ofBuffers [byeBytes]]

theorem framing_wholePackets : handed .server (fun _ => 0) wholePackets =
    helloBye.map Packet.asHanded :=
  (framing_iff .server (fun _ => 0) helloBye wholePackets (by decide) (by decide +kernel)).mpr
    (by decide +kernel)

/-- Both packets come in one event. -/
def coalesced : List RecvEvent := [.ofBuffers [clientHello.bytes ++ byeBytes]]

/-- The HELLO comes in two events. -/
def split : List RecvEvent :=
  [.ofBuffers [clientHello.bytes.take 20], .ofBuffers [clientHello.bytes.drop 20],
    .ofBuffers [byeBytes]]

/-- The BYE is swallowed by the HELLO, or the HELLO is cut short. -/
theorem coalesced_and_split : (∀ p ∈ helloBye, Side.server.handles p.msg.type = true) ∧
    (Cutting helloBye coalesced ∧ (handed .server (fun _ => 0) coalesced).length = 1) ∧
      Cutting helloBye split ∧
        (handed .server (fun _ => 0) split).map (·.2.length) = [20, 12] ∧
          ¬ ∀ evs, Cutting helloBye evs →
            handed .server (fun _ => 0) evs = helloBye.map Packet.asHanded := by
  have hone : (handed .server (fun _ => 0) coalesced).length = 1 := by decide +kernel
  have hcut : Cutting helloBye coalesced := by decide +kernel
  refine ⟨by decide, ⟨hcut, hone⟩, by decide +kernel, by decide +kernel, fun h => ?_⟩
  rw [h coalesced hcut] at hone
  exact absurd hone (by decide)

end SquimpChat
