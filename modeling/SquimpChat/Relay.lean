import SquimpChat.AccessControl
import SquimpChat.Framing
import SquimpChat.PacketReads

/-!
# The relay

A CHAT_SEND is answered by one CHAT_DELIVER on the recipient's stream or by one ERROR on the
sender's. `Outcome` says which of the two, and with what fields; a run is then a sequence of
CHAT_SENDs with their outcomes, and what the recipients receive is these outcomes in order.

`sqmp_stream_send` hands the packet to MsQuic with its length cut to 32 bits, so a
CHAT_DELIVER of 2^32 bytes or more is not accepted as a whole, and no ERROR reports it.

Results:
1. `outcome_iff`: a complete CHAT_SEND has an outcome exactly when its CHAT_DELIVER is short
   enough or is not sent.
2. `relay_run`: the deliveries of a run are the outcomes of its CHAT_SENDs, in order.
3. `truncated_delivery`: a CHAT_SEND with 2^32 - 319 bytes of ciphertext.
-/

namespace SquimpChat
open Octets Transition StepLemmas AtomicLemmas AccessControlLemmas

variable {env : Env} {σ σ' : Server} {a : Action} {acts : List Action}

/-! ## 1. Outcomes -/

/-- The stream, the session and the packet of a CHAT_SEND of an established session. -/
def chatSendOn (σ : Server) : Action → Option (StreamId × SessionId × Bytes)
  | .received st data =>
    if dispatch serverHandles data = .ok (some .chatSend) then
      ((σ.stream st).userData.filter fun s => (σ.session s).state = .connEstablished).map
        (st, ·, data)
    else none
  | _ => none

/-- A CHAT_SEND and the states before and behind its handler. -/
structure ChatSend where
  before : Server
  after : Server
  stream : StreamId
  session : SessionId
  data : Bytes

/-- The CHAT_SENDs of established sessions that a run handles, in order. -/
def chatSends (env : Env) : Server → List Action → List ChatSend
  | _, [] => []
  | σ, a :: as =>
    match atomicStep env σ a with
    | none => []
    | some σ' =>
      ((chatSendOn σ a).map fun c => ⟨σ, σ', c.1, c.2.1, c.2.2⟩).toList ++ chatSends env σ' as

/-- What a step has added to the trace. -/
def newEvents (σ σ' : Server) : List Event := σ'.trace.take (σ'.trace.length - σ.trace.length)

/-- A CHAT_DELIVER that MsQuic has accepted as a whole, and its stream. -/
def Event.asDelivered : Event → Option (StreamId × MsgChatDeliver)
  | sent st ⟨sid, .chatDeliver m⟩ _ true =>
    if streamSendBytes (Packet.mk sid (.chatDeliver m)).bytes =
      (Packet.mk sid (.chatDeliver m)).bytes then some (st, m) else none
  | _ => none

/-- An ERROR that is sent, and its stream. -/
def Event.asError : Event → Option (StreamId × MsgError)
  | sent st ⟨_, .error m⟩ _ _ => some (st, m)
  | _ => none

/-- A CHAT_DELIVER that could not be sent. -/
def Event.isSendFailure : Event → Bool
  | sent _ ⟨_, .chatDeliver _⟩ _ false => true
  | _ => false

/-- The accepted CHAT_DELIVERs in a trace, in order. -/
def deliveredIn (es : List Event) : List (StreamId × MsgChatDeliver) :=
  (es.filterMap (·.asDelivered)).reverse

/-- The sender of the CHAT_DELIVER is the user of the session, and its other fields are those
of the CHAT_SEND. -/
structure Carries (x : Session) (data : Bytes) (m : MsgChatDeliver) : Prop where
  sender : countedName m.senderLen m.sender = x.name
  encKeyLen : Pkt.chatEncKeyLen data = .ok m.encKeyLen
  encryptedKey : Pkt.chatEncryptedKey data 256 = .ok m.encryptedKey
  nonce : Pkt.chatNonce data = .ok m.nonce
  ciphertextLen : Pkt.chatCiphertextLen data = .ok m.ciphertextLen
  ciphertext : Pkt.chatCiphertext data m.ciphertextLen.toNat = .ok m.ciphertext

/-- The session was registered under its name, behind an accepting `verify_credentials`. -/
def Authenticated (σ : Server) (s : SessionId) : Prop :=
  (∃ h, .verified s (cString (σ.session s).name.2) h true ∈ σ.trace) ∧
    ∃ st pk, .registered s (σ.session s).name st pk ∈ σ.trace

/-- The name of a CHAT_SEND is registered with this stream. -/
def Reaches (σ : Server) (data : Bytes) (r : StreamId) : Prop :=
  ∃ e ∈ σ.registry.used, chatRecipient data = some e.key ∧ e.stream = some r

/-- The one outcome of a CHAT_SEND: `some` delivery, or an ERROR. -/
inductive Outcome (c : ChatSend) : Option (StreamId × MsgChatDeliver) → Prop
  | delivered {r : StreamId} {m : MsgChatDeliver} (hr : Reaches c.before c.data r)
      (hopen : c.before.isLive r = true) (hauth : Authenticated c.before c.session)
      (hm : Carries (c.before.session c.session) c.data m)
      (hd : deliveredIn (newEvents c.before c.after) = [(r, m)])
      (herr : (newEvents c.before c.after).filterMap (·.asError) = []) : Outcome c (some (r, m))
  | refused {m : MsgError} (hd : deliveredIn (newEvents c.before c.after) = [])
      (herr : (newEvents c.before c.after).filterMap (·.asError) = [(c.stream, m)])
      (hnotFound : m.errorCode = ErrorCode.userNotFound.code ↔ ¬ ∃ r, Reaches c.before c.data r)
      (hnotSent : m.errorCode = ErrorCode.couldNotSend.code ↔
        ∃ e ∈ newEvents c.before c.after, e.isSendFailure = true) : Outcome c none

/-! ## 2. Conditions -/

/-- A CHAT_SEND that is handled has as many ciphertext bytes as it announces. -/
def CompleteChat (σ : Server) (a : Action) : Prop :=
  ∀ c ∈ chatSendOn σ a, 319 ≤ c.2.2.length ∧
    ∀ n ∈ (Pkt.chatCiphertextLen c.2.2).toOption, c.2.2.length = 319 + n.toNat

-- the announced length is looked up: a search over all `UInt32` would not end
instance : Decidable (CompleteChat σ a) :=
  haveI (c : StreamId × SessionId × Bytes) : Decidable
      (∀ n ∈ (Pkt.chatCiphertextLen c.2.2).toOption, c.2.2.length = 319 + n.toNat) :=
    Option.decidableForallMem _
  inferInstanceAs (Decidable (∀ _ ∈ _, _))

/-- The registered streams are open when a CHAT_SEND is handled. -/
def StreamsOpen (σ : Server) (a : Action) : Prop :=
  ∀ c ∈ chatSendOn σ a, ∀ e ∈ σ.registry.used, ∀ st ∈ e.stream, σ.isLive st = true

instance : Decidable (StreamsOpen σ a) := inferInstanceAs (Decidable (∀ _ ∈ _, _))

/-- The CHAT_DELIVER for a registered recipient is shorter than 2^32 bytes. -/
def ShortChat (σ : Server) (a : Action) : Prop :=
  ∀ c ∈ chatSendOn σ a, ∀ e ∈ σ.registry.used, chatRecipient c.2.2 = some e.key →
    e.stream.isSome = true → c.2.2.length < 2 ^ 32

instance : Decidable (ShortChat σ a) := inferInstanceAs (Decidable (∀ _ ∈ _, _))

/-! ## 3. One CHAT_SEND -/

namespace RelayLemmas

variable {st r : StreamId} {s : SessionId} {data : Bytes} {es tr : List Event}

theorem chatSendOn_some {c : StreamId × SessionId × Bytes} (h : chatSendOn σ a = some c) :
    a = .received c.1 c.2.2 ∧ dispatch serverHandles c.2.2 = .ok (some .chatSend) ∧
      (σ.stream c.1).userData = some c.2.1 ∧ (σ.session c.2.1).state = .connEstablished := by
  unfold chatSendOn at h
  split at h
  · split at h
    · next hd =>
      obtain ⟨s, hs, rfl⟩ := Option.map_eq_some_iff.mp h
      obtain ⟨hs, hst⟩ := Option.filter_eq_some_iff.mp hs
      exact ⟨rfl, hd, hs, by simpa using hst⟩
    · cases h
  · cases h

theorem newEvents_eq (htr : σ'.trace = es ++ σ.trace) : newEvents σ σ' = es := by
  rw [newEvents, htr, List.length_append, Nat.add_sub_cancel, List.take_left]

theorem deliveredIn_append : deliveredIn (es ++ tr) = deliveredIn tr ++ deliveredIn es := by
  rw [deliveredIn, List.filterMap_append, List.reverse_append]
  rfl

/-- The lookup of a complete CHAT_SEND. -/
theorem chatSendLookup_complete (hd : σ.registry.Distinct)
    (ht : dispatch serverHandles data = .ok (some .chatSend)) (hlen : 319 ≤ data.length) :
    ∃ o, chatSendLookup σ data = .ok o ∧ ∀ r, o = some r ↔ Reaches σ data r := by
  obtain ⟨n, hn⟩ : ∃ n, Pkt.chatNameLen data = .ok n :=
    readU8_isOk_iff.mpr (Nat.lt_of_lt_of_le (by decide) hlen)
  have hname : 13 + n.toNat ≤ data.length := by
    have := n.toNat_lt
    omega
  have hread : Pkt.chatName data n.toNat = .ok ((data.drop 13).take n.toNat) := readAt_of_le hname
  have hrec : chatRecipient data = some (n, (data.drop 13).take n.toNat) := by
    rw [chatRecipient, if_pos ht, hn]
    dsimp only
    rw [hread]
    rfl
  obtain ⟨o, ho⟩ : ∃ o, findEntry (.ok ((data.drop 13).take n.toNat)) n σ.registry.slots = .ok o :=
    findEntry_isOk _
  refine ⟨o.bind (·.stream), ?_, fun r => ?_⟩
  · rw [chatSendLookup, hn, ok_bind, hread, sqmpRegistryFind, ho, ok_bind]
    rfl
  · unfold Reaches
    rw [hrec]
    cases o with
    | none =>
      refine iff_of_false (by simp) ?_
      rintro ⟨e, he, hk, _⟩
      exact findEntry_none ho he (Option.some.inj hk).symm
    | some e =>
      obtain ⟨he, hlen, hu⟩ := findEntry_ok ho
      have hk : e.key = (n, (data.drop 13).take n.toNat) := Prod.ext hlen (Except.ok.inj hu).symm
      constructor
      · exact fun hr => ⟨e, he, congrArg some hk.symm, hr⟩
      · rintro ⟨e', he', hk', hr⟩
        rw [Distinct.unique hd he he' (hk.trans (Option.some.inj hk'))]
        exact hr

/-- The CHAT_DELIVER of a complete CHAT_SEND. -/
theorem chatDeliverMsg_complete (x : Session) (hlen : 319 ≤ data.length)
    (hc : ∀ n ∈ (Pkt.chatCiphertextLen data).toOption, data.length = 319 + n.toNat) :
    ∃ n sid m, Pkt.chatCiphertextLen data = .ok n ∧ Pkt.sessionId data = .ok sid ∧
      chatDeliverMsg x data = .ok m ∧ Carries x data m ∧ m.ciphertext.length = n.toNat := by
  obtain ⟨sid, hsid⟩ : ∃ sid, Pkt.sessionId data = .ok sid :=
    readU32_isOk (Nat.le_trans (by decide) hlen)
  obtain ⟨k, hk⟩ : ∃ k, Pkt.chatEncKeyLen data = .ok k :=
    readU16_isOk (Nat.le_trans (by decide) hlen)
  obtain ⟨key, hkey⟩ : ∃ key, Pkt.chatEncryptedKey data 256 = .ok key :=
    readBuf_isOk (Nat.le_trans (by decide) hlen)
  obtain ⟨nonce, hnonce⟩ : ∃ nonce, Pkt.chatNonce data = .ok nonce :=
    readBuf_isOk (Nat.le_trans (by decide) hlen)
  obtain ⟨n, hn⟩ : ∃ n, Pkt.chatCiphertextLen data = .ok n := readU32_isOk hlen
  have htotal : data.length = 319 + n.toNat := hc n (by rw [hn]; rfl)
  have hct : Pkt.chatCiphertext data n.toNat = .ok ((data.drop 319).take n.toNat) :=
    readAt_of_le (Nat.le_of_eq htotal.symm)
  refine ⟨n, sid,
    { senderLen := x.usernameLen
      sender := (Buf.zero 32).store (x.username.first x.usernameLen.toNat)
      encKeyLen := k, encryptedKey := key, nonce, ciphertextLen := n
      ciphertext := (data.drop 319).take n.toNat },
    hn, hsid, ?_, ⟨?_, hk, hkey, hnonce, hn, hct⟩, length_of_readAt hct⟩
  · rw [chatDeliverMsg, hn, ok_bind, hk, ok_bind, hkey, ok_bind, hnonce, ok_bind, hct]
    rfl
  · exact Prod.ext rfl (RegistryLemmas.first_store_first _ _ _)

end RelayLemmas
open RelayLemmas

/-- What the handler of a complete CHAT_SEND leaves in the trace: the ERROR USER_NOT_FOUND, or
the CHAT_DELIVER and, if that is not sent, the ERROR COULD_NOT_SEND. -/
inductive ChatEvents (env : Env) (σ : Server) (st : StreamId) (s : SessionId) (data : Bytes) :
    List Event → Prop
  | notFound {sid : UInt32} {desc : String} {live ok : Bool}
      (hr : ¬ ∃ r, Reaches σ data r) : ChatEvents env σ st s data
        (.sent st ⟨sid, .error (errorMsg .userNotFound desc)⟩ live ok :: σ.touched s)
  | sent {r : StreamId} {m : MsgChatDeliver} {sid : UInt32} (hr : Reaches σ data r)
      (hm : Carries (σ.session s) data m) (hlen : 319 + m.ciphertext.length = data.length) :
      ChatEvents env σ st s data (.sent r ⟨sid, .chatDeliver m⟩ (σ.isLive r) true ::
        .copied .deliverSender m.senderLen.toNat :: σ.touched s)
  | notSent {r : StreamId} {m : MsgChatDeliver} {sid sid' : UInt32} {desc : String} {live ok : Bool}
      (hr : Reaches σ data r) (hm : Carries (σ.session s) data m)
      (hfail : ∃ n, env.streamSend n = false) : ChatEvents env σ st s data
        (.sent st ⟨sid', .error (errorMsg .couldNotSend desc)⟩ live ok ::
          .sent r ⟨sid, .chatDeliver m⟩ (σ.isLive r) false ::
            .copied .deliverSender m.senderLen.toNat :: σ.touched s)

theorem chatSend_events {st : StreamId} {s : SessionId} {data : Bytes}
    (hd : σ.registry.Distinct) (hmalloc : ∀ n, env.malloc n = true)
    (hon : chatSendOn σ a = some (st, s, data)) (hcomplete : CompleteChat σ a)
    (h : atomicStep env σ a = some σ') : ChatEvents env σ st s data (newEvents σ σ') := by
  obtain ⟨rfl, ht, hs, hst⟩ := chatSendOn_some hon
  obtain ⟨hlen, hc⟩ := hcomplete _ hon
  obtain ⟨_, h⟩ := Option.ite_none_right_eq_some.mp h
  cases h
  obtain ⟨o, ho, hreach⟩ := chatSendLookup_complete hd ht hlen
  have ho' : chatSendLookup (σ.append (σ.touched s)) data = .ok o := ho
  simp only [onStreamRecv, ht, ok_bind, withSession, hs, sqmpProcessChatSend, chatSendHead,
    Server.append_session, hst, ne_eq, not_true_eq_false, if_false, ho']
  cases o with
  | none =>
    have hnone : ¬ ∃ r, Reaches σ data r := by
      rintro ⟨r, hr⟩
      cases (hreach r).mpr hr
    rw [newEvents_eq (show _ = _ :: σ.touched s ++ σ.trace from rfl)]
    exact .notFound hnone
  | some r =>
    have hr := (hreach r).mp rfl
    obtain ⟨n, sid, m, hn, hsid, hm, hcarry, hct⟩ :=
      chatDeliverMsg_complete (σ.session s) hlen hc
    dsimp only
    rw [chatSendForward, hn, ok_bind, if_pos (hmalloc _), hsid, ok_bind, Server.append_session, hm,
      ok_bind]
    have htotal : 319 + m.ciphertext.length = data.length := by
      rw [hct]
      exact (hc n (by rw [hn]; rfl)).symm
    unfold settle forwardChat
    dsimp only
    split
    · next hok =>
      rw [newEvents_eq (show _ = _ :: _ :: σ.touched s ++ σ.trace from rfl), sentEvent, hok]
      exact .sent hr hcarry htotal
    · next hok =>
      rw [newEvents_eq (show _ = _ :: _ :: _ :: σ.touched s ++ σ.trace from rfl)]
      simp only [sentEvent, Bool.eq_false_iff.mpr hok]
      exact .notSent hr hcarry ⟨_, Bool.eq_false_iff.mpr hok⟩

namespace RelayLemmas

variable {st r : StreamId} {s : SessionId} {data : Bytes} {es : List Event}

theorem whole_iff (bs : Bytes) : streamSendBytes bs = bs ↔ bs.length < 2 ^ 32 := by
  rw [streamSendBytes, UInt32.toNat_ofNat']
  constructor
  · intro h
    have hle := congrArg List.length h
    rw [List.length_take] at hle
    have hmod : bs.length % 2 ^ 32 < 2 ^ 32 := Nat.mod_lt _ (by decide)
    omega
  · intro h
    rw [Nat.mod_eq_of_lt h]
    exact List.take_length

theorem touched_filterMap {α : Type} {f : Event → Option α} (hf : f (.useAfterFree s) = none) :
    (σ.touched s).filterMap f = [] := by
  unfold Server.touched
  split
  · rfl
  · rw [List.filterMap_cons_none hf]
    rfl

end RelayLemmas

/-- A complete CHAT_SEND has its outcome exactly when its CHAT_DELIVER is short or fails to be
sent. -/
theorem outcome_iff {st : StreamId} {s : SessionId} {data : Bytes}
    (hd : σ.registry.Distinct) (hauth : Authenticated σ s) (hopen : StreamsOpen σ a)
    (hmalloc : ∀ n, env.malloc n = true) (hon : chatSendOn σ a = some (st, s, data))
    (hcomplete : CompleteChat σ a) (h : atomicStep env σ a = some σ') :
    (∃ o, Outcome ⟨σ, σ', st, s, data⟩ o) ↔
      (ShortChat σ a ∨ ∃ e ∈ newEvents σ σ', e.isSendFailure = true) := by
  have hev := chatSend_events hd hmalloc hon hcomplete h
  have hnofail : ∀ e ∈ σ.touched s, e.isSendFailure = false := fun e he => by
    obtain ⟨_, rfl⟩ := mem_touched.mp he
    rfl
  have hlive : ∀ r, Reaches σ data r → σ.isLive r = true := by
    rintro r ⟨e, he, _, hr⟩
    exact hopen _ hon e he r hr
  generalize hes : newEvents σ σ' = es at hev
  cases hev with
  | @notFound sid desc live ok hr =>
    have hshort : ShortChat σ a := by
      intro c hc e he hk hst
      rw [hon] at hc
      cases hc
      obtain ⟨r, hst⟩ := Option.isSome_iff_exists.mp hst
      exact absurd ⟨r, e, he, hk, hst⟩ hr
    refine iff_of_true ⟨none, ?_⟩ (.inl hshort)
    refine .refused (m := errorMsg .userNotFound desc) ?_ ?_ (iff_of_true rfl hr) ?_
    · rw [hes, deliveredIn, List.filterMap_cons_none rfl, touched_filterMap rfl]
      rfl
    · rw [hes]
      show _ :: (σ.touched s).filterMap (·.asError) = _
      rw [touched_filterMap rfl]
    · refine iff_of_false
        (show ErrorCode.userNotFound.code ≠ ErrorCode.couldNotSend.code by decide) ?_
      rw [hes]
      rintro ⟨e, he, hf⟩
      rcases List.mem_cons.mp he with rfl | he
      · cases hf
      · rw [hnofail e he] at hf
        cases hf
  | @notSent r m sid sid' desc live ok hr hm hfail =>
    refine iff_of_true ⟨none, ?_⟩ (.inr ⟨_, List.mem_cons_of_mem _ List.mem_cons_self, rfl⟩)
    refine .refused (m := errorMsg .couldNotSend desc) ?_ ?_
      (iff_of_false (show ErrorCode.couldNotSend.code ≠ ErrorCode.userNotFound.code by decide)
        (not_not.mpr ⟨r, hr⟩)) ?_
    · rw [hes, deliveredIn, List.filterMap_cons_none rfl, List.filterMap_cons_none rfl,
        List.filterMap_cons_none rfl, touched_filterMap rfl]
      rfl
    · rw [hes]
      show _ :: (σ.touched s).filterMap (·.asError) = _
      rw [touched_filterMap rfl]
    · rw [hes]
      exact iff_of_true rfl ⟨_, List.mem_cons_of_mem _ List.mem_cons_self, rfl⟩
  | @sent r m sid hr hm hlen =>
    have hwhole : streamSendBytes (Packet.mk sid (.chatDeliver m)).bytes =
        (Packet.mk sid (.chatDeliver m)).bytes ↔ data.length < 2 ^ 32 := by
      rw [whole_iff, Packet.length_bytes, ← hlen]
      rfl
    have hout : (Event.sent r ⟨sid, .chatDeliver m⟩ (σ.isLive r) true).asDelivered =
        if data.length < 2 ^ 32 then some (r, m) else none := by
      simp only [Event.asDelivered, hwhole]
    have hshort : ShortChat σ a ↔ data.length < 2 ^ 32 := by
      obtain ⟨e, he, hk, hst⟩ := hr
      constructor
      · exact fun h => h _ hon e he hk (by rw [hst]; rfl)
      · intro h c hc _ _ _ _
        rw [hon] at hc
        cases hc
        exact h
    have herr : (newEvents σ σ').filterMap (·.asError) = [] := by
      rw [hes, List.filterMap_cons_none rfl, List.filterMap_cons_none rfl, touched_filterMap rfl]
    rw [hshort, or_iff_left]
    · constructor
      · rintro ⟨o, ho⟩
        by_contra hlong
        have hdel : deliveredIn (newEvents σ σ') = [] := by
          rw [hes, deliveredIn, List.filterMap_cons_none (hout.trans (if_neg hlong)),
            List.filterMap_cons_none rfl, touched_filterMap rfl]
          rfl
        cases ho with
        | delivered _ _ _ _ hd' _ =>
          rw [hdel] at hd'
          cases hd'
        | refused _ herr' _ _ =>
          rw [herr] at herr'
          cases herr'
      · intro hlong
        refine ⟨some (r, m), .delivered hr (hlive r hr) hauth hm ?_ herr⟩
        rw [hes, deliveredIn, List.filterMap_cons_some (hout.trans (if_pos hlong)),
          List.filterMap_cons_none rfl, touched_filterMap rfl]
        rfl
    · rintro ⟨e, he, hf⟩
      rcases List.mem_cons.mp he with rfl | he
      · cases hf
      · rcases List.mem_cons.mp he with rfl | he
        · cases hf
        · rw [hnofail e he] at hf
          cases hf

/-! ## 4. Runs -/

/-- What the outcomes of a run rest on. -/
structure RelayInv (σ : Server) : Prop where
  between : Between σ
  distinct : σ.registry.Distinct
  authenticated : ∀ s, (σ.session s).state = .connEstablished → Authenticated σ s

namespace RelayInv

theorem init : RelayInv .init where
  between := .init
  distinct := distinct_empty
  authenticated s h := by simp [Server.init, Session.fresh] at h

theorem step (hi : RelayInv σ) (h : atomicStep env σ a = some σ') : RelayInv σ' where
  between := hi.between.step h
  distinct := (login_cases hi.between h).distinct hi.distinct
  authenticated s hst := by
    rcases established_step hi.between h hst with ⟨hst, hname⟩ | hadm
    · obtain ⟨⟨hash, hv⟩, st, pk, hr⟩ := hi.authenticated s hst
      obtain ⟨es, htr⟩ := (login_cases hi.between h).trace
      unfold Authenticated
      rw [hname, htr]
      exact ⟨⟨hash, List.mem_append_right _ hv⟩, st, pk, List.mem_append_right _ hr⟩
    · unfold Authenticated
      rw [hadm.name]
      exact ⟨⟨_, hadm.verified⟩, _, _, hadm.registered⟩

end RelayInv

namespace RelayLemmas

variable {st r : StreamId} {s : SessionId} {data : Bytes} {es : List Event}

theorem asSent_of_asDelivered {e : Event} {d : StreamId × MsgChatDeliver}
    (h : e.asDelivered = some d) : ∃ sid, e.asSent = some (d.1, ⟨sid, .chatDeliver d.2⟩) := by
  unfold Event.asDelivered at h
  split at h
  · split at h
    · cases h
      exact ⟨_, rfl⟩
    · cases h
  · cases h

/-- Steps that send no CHAT_DELIVER. -/
theorem deliveredIn_nil (h : ∀ q ∈ sentIn es, q.2.msg.type ≠ .chatDeliver) :
    deliveredIn es = [] := by
  rw [deliveredIn, List.filterMap_eq_nil_iff.mpr, List.reverse_nil]
  intro e he
  cases hd : e.asDelivered with
  | none => rfl
  | some d =>
    obtain ⟨sid, hs⟩ := asSent_of_asDelivered hd
    exact absurd rfl (h _ (List.mem_filterMap.mpr ⟨e, he, hs⟩))

theorem type_of_isReply {m : Msg} (h : m.isReply = true) : m.type ≠ .chatDeliver := by
  cases m with
  | keyResp | error | bye => simp [Msg.type]
  | _ => cases h

/-- Only CHAT_SENDs of established sessions are followed by a CHAT_DELIVER. -/
theorem no_delivery (hb : Between σ) (h : atomicStep env σ a = some σ')
    (hon : chatSendOn σ a = none) (htr : σ'.trace = es ++ σ.trace) : deliveredIn es = [] := by
  refine deliveredIn_nil fun q hq ht => ?_
  obtain ⟨st, s, hs, data, rfl⟩ := private_packet hb.rested h htr hq (by rw [ht]; rfl)
  by_cases hst : (σ.session s).state = .connEstablished
  · have hdisp : dispatch serverHandles data ≠ .ok (some .chatSend) := by
      intro hd
      simp [chatSendOn, hd, hs, hst] at hon
    obtain ⟨l, ok, hsent⟩ := mem_sentIn.mp hq
    have hnew : ∀ {es'}, es' ++ σ.trace = es ++ σ.trace → .sent q.1 q.2 l ok ∈ es' :=
      fun heq => by
        rw [List.append_cancel_right heq]
        exact hsent
    have hstate : ∀ {x : SessionState}, x ≠ .connEstablished →
        ∀ {t}, (σ.stream st).userData = some t → (σ.session t).state = x → False := by
      intro x hx t ht hx'
      rw [hs] at ht
      cases ht
      exact hx (hx'.symm.trans hst)
    cases atomic_cases hb.rested h with
    | rest h => cases h
    | callback ha h =>
      cases h with
      | ignored _ hes => cases hes _ (hnew htr)
      | answered _ _ hes =>
        cases hq' : q.2 with
        | mk sid m =>
          have ha := hes _ (hnew htr)
          rw [hq'] at ha ht
          cases ha with
          | reply hp => exact type_of_isReply hp ht
          | deliver hr =>
            obtain ⟨_, _, _, hrec⟩ := hr
            rw [chatAsked, chatRecipient, if_neg hdisp, ite_self] at hrec
            cases hrec
      | hello _ ht hx => exact hstate (by decide) ht hx
      | authReq _ ht hx => exact hstate (by decide) ht hx
      | bye => cases (mem_touched.mp (hnew htr)).2
      | left hd | freed hd | disconnectNull hd =>
        obtain ⟨hd, _⟩ | ⟨hd, _⟩ := hd
        all_goals cases hd
  · obtain ⟨es', htr', hpub⟩ := (received_harmless hs hst h).sent
    rw [List.append_cancel_right (htr.symm.trans htr')] at hq
    have hpub := (hpub q hq).2
    rw [ht] at hpub
    cases hpub

end RelayLemmas

/-- What a run delivers, from a state in which what the outcomes rest on holds. -/
theorem relay_from (hmalloc : ∀ n, env.malloc n = true) (hi : RelayInv σ)
    (hP : Along (atomicStep env)
      (fun σ a => CompleteChat σ a ∧ StreamsOpen σ a ∧ ShortChat σ a) σ acts)
    (h : run (atomicStep env) σ acts = some σ') :
    ∃ os, List.Forall₂ Outcome (chatSends env σ acts) os ∧
      deliveredIn σ'.trace = deliveredIn σ.trace ++ os.reduceOption := by
  induction acts generalizing σ with
  | nil =>
    cases h
    exact ⟨[], .nil, (List.append_nil _).symm⟩
  | cons a acts ih =>
    obtain ⟨τ, hs, hr⟩ := run_cons.mp h
    obtain ⟨⟨hcomplete, hopen, hshort⟩, hP⟩ := along_cons hP hs
    obtain ⟨os, hos, hdel⟩ := ih (hi.step hs) hP hr
    obtain ⟨es, htr⟩ := (login_cases hi.between hs).trace
    have hchats : chatSends env σ (a :: acts) =
        ((chatSendOn σ a).map fun c => ⟨σ, τ, c.1, c.2.1, c.2.2⟩).toList ++
          chatSends env τ acts := by
      rw [chatSends, hs]
    rw [htr, deliveredIn_append, List.append_assoc] at hdel
    cases hon : chatSendOn σ a with
    | none =>
      rw [no_delivery hi.between hs hon htr] at hdel
      refine ⟨os, ?_, hdel⟩
      rw [hchats, hon]
      exact hos
    | some c =>
      obtain ⟨st, s, data⟩ := c
      obtain ⟨_, _, _, hst⟩ := chatSendOn_some hon
      obtain ⟨o, ho⟩ := (outcome_iff hi.distinct (hi.authenticated s hst) hopen hmalloc hon
        hcomplete hs).mpr (.inl hshort)
      have heq : deliveredIn es = o.toList := by
        rw [← newEvents_eq htr]
        cases ho with
        | delivered _ _ _ _ hd _ => exact hd
        | refused hd _ _ _ => exact hd
      refine ⟨o :: os, ?_, ?_⟩
      · rw [hchats, hon]
        exact .cons ho hos
      · rw [hdel, heq]
        cases o <;> rfl

/-- The CHAT_SEND of this ciphertext to `abc`. -/
def abcPacket (ct : Bytes) : Packet :=
  ⟨1, .chatSend ⟨3, (Buf.zero 32).store [97, 98, 99], 32, .zero 256, .zero 12,
    UInt32.ofNat ct.length, ct⟩⟩

/-- `abc` sends itself this ciphertext. -/
def abcMessage (ct : Bytes) : Action := .received 0 (abcPacket ct).bytes

namespace RelayLemmas

variable {ct : Bytes}

theorem dispatch_abcPacket :
    dispatch serverHandles (abcPacket ct).bytes = .ok (some .chatSend) :=
  ClientStateLemmas.dispatch_bytes _ _

theorem length_abcPacket : (abcPacket ct).bytes.length = 319 + ct.length :=
  (abcPacket ct).length_bytes

theorem abcPacket_reads : ChatReads (abcPacket ct).bytes
    ⟨3, (Buf.zero 32).store [97, 98, 99], 32, .zero 256, .zero 12, UInt32.ofNat ct.length, ct⟩ :=
  chatSend_reads 1 ⟨3, (Buf.zero 32).store [97, 98, 99], 32, .zero 256, .zero 12,
    UInt32.ofNat ct.length, ct⟩

theorem chatRecipient_abcPacket : chatRecipient (abcPacket ct).bytes = some (3, [97, 98, 99]) := by
  have hname : Pkt.chatName (abcPacket ct).bytes (3 : UInt8).toNat = .ok [97, 98, 99] :=
    abcPacket_reads.name 3 (by decide)
  rw [chatRecipient, if_pos dispatch_abcPacket, abcPacket_reads.nameLen]
  dsimp only
  rw [hname]
  rfl

theorem chatSends_append {as bs : List Action} {τ : Server}
    (h : run (atomicStep env) σ as = some τ) :
    chatSends env σ (as ++ bs) = chatSends env σ as ++ chatSends env τ bs := by
  induction as generalizing σ with
  | nil =>
    cases h
    rfl
  | cons a as ih =>
    obtain ⟨υ, hs, hr⟩ := run_cons.mp h
    simp only [List.cons_append, chatSends, hs, ih hr, List.append_assoc]

end RelayLemmas

/-- `abc` is logged in on stream 0, and the streams of all users are open. -/
structure AbcReady (σ : Server) : Prop where
  receivable : receivable σ 0 = true
  session : (σ.stream 0).userData = some 0
  established : (σ.session 0).state = .connEstablished
  entry : ∃ e ∈ σ.registry.used, e.key = (3, [97, 98, 99]) ∧ e.stream = some 0
  opened : ∀ e ∈ σ.registry.used, ∀ st ∈ e.stream, σ.isLive st = true

/-- A message of `abc` to itself that is too long has no outcome. -/
theorem abcMessage_lost {ct : Bytes} (hi : RelayInv σ) (hready : AbcReady σ)
    (hmalloc : ∀ n, env.malloc n = true) (hsend : ∀ n, env.streamSend n = true)
    (hlong : 2 ^ 32 ≤ 319 + ct.length) (hct : ct.length < 2 ^ 32) :
    ∃ σ', atomicStep env σ (abcMessage ct) = some σ' ∧ ShortName σ (abcMessage ct) ∧
      CompleteChat σ (abcMessage ct) ∧ StreamsOpen σ (abcMessage ct) ∧
      ∃ c ∈ chatSends env σ [abcMessage ct], ∀ o, ¬ Outcome c o := by
  have hon : chatSendOn σ (abcMessage ct) = some (0, 0, (abcPacket ct).bytes) := by
    rw [abcMessage, chatSendOn, if_pos dispatch_abcPacket, hready.session]
    simp [hready.established]
  obtain ⟨σ', hs⟩ : ∃ σ', atomicStep env σ (abcMessage ct) = some σ' :=
    ⟨_, if_pos hready.receivable⟩
  have hcomplete : CompleteChat σ (abcMessage ct) := by
    intro c hc
    rw [hon] at hc
    cases hc
    refine ⟨?_, fun n hn => ?_⟩
    · rw [length_abcPacket]
      omega
    · rw [abcPacket_reads.ciphertextLen] at hn
      cases hn
      rw [length_abcPacket, UInt32.toNat_ofNat_of_lt' hct]
  have hopen : StreamsOpen σ (abcMessage ct) := fun _ _ => hready.opened
  refine ⟨σ', hs, ?_, hcomplete, hopen, ⟨σ, σ', 0, 0, (abcPacket ct).bytes⟩, ?_, fun o ho => ?_⟩
  · intro p hp
    rw [abcMessage, authReqOn, dispatch_abcPacket, if_neg (by decide)] at hp
    cases hp
  · rw [chatSends, hs]
    simp [hon]
  · rcases (outcome_iff hi.distinct (hi.authenticated 0 hready.established) hopen hmalloc hon
      hcomplete hs).mp ⟨o, ho⟩ with hshort | ⟨e, he, hf⟩
    · obtain ⟨e, he, hk, hst⟩ := hready.entry
      have hlt := hshort _ hon e he (by rw [chatRecipient_abcPacket, hk]) (by rw [hst]; rfl)
      rw [length_abcPacket] at hlt
      omega
    · have hnone : ∀ e ∈ σ.touched 0, e.isSendFailure = false := fun e he => by
        obtain ⟨_, rfl⟩ := mem_touched.mp he
        rfl
      have hev := chatSend_events hi.distinct hmalloc hon hcomplete hs
      generalize newEvents σ σ' = es at hev he
      cases hev with
      | notFound hr =>
        obtain ⟨e, he, hk, hst⟩ := hready.entry
        exact hr ⟨0, e, he, by rw [chatRecipient_abcPacket, hk], hst⟩
      | notSent _ _ hfail =>
        obtain ⟨n, hn⟩ := hfail
        rw [hsend n] at hn
        cases hn
      | sent =>
        rcases List.mem_cons.mp he with rfl | he
        · cases hf
        · rcases List.mem_cons.mp he with rfl | he
          · cases hf
          · rw [hnone e he] at hf
            cases hf

end SquimpChat
