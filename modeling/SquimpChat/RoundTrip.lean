import SquimpChat.Accounts
import SquimpChat.KeyFetch
import SquimpChat.LoginOrder
import SquimpChat.Registrations
import SquimpChat.Relay

/-!
# A message from end to end

A message passes five encoders and decoders: the AUTH_REQ of `sqmp_login`, the registration of
the worker, the encryption and the CHAT_SEND of `send_chat`, the CHAT_DELIVER of the server, and
the decryption of the recipient. A `Party` is a client that has logged in together with its
session and stream at the server; its name and its key reach the registry by its AUTH_REQ
only.

Results:
1. `homes_run`: what is registered for a session goes to a stream of the session.
2. `chat_round_trip`: a message that `send_chat` encrypts with the recipient's registered key
   is shown by the recipient as it was written, behind the name of its sender, and every
   buffer on its way is large enough.
-/

namespace SquimpChat
open Octets Transition RegistrationLemmas

/-! ## 1. Parties -/

/-- What two OpenSSL libraries compute together: an agreed key, and the decryption of what was
encrypted. -/
structure OpenSSL.Agrees (enc dec : OpenSSL) : Prop where
  x25519 : ∀ a b k, enc.derive a (dec.publicKey b) = some k →
    dec.derive b (enc.publicKey a) = some k
  /-- a key of zeros agrees with nothing -/
  noZero : ∀ a, enc.derive a (Buf.zero 32) = none
  sha256 : enc.sha256 = dec.sha256
  gcm : ∀ key nonce p ct, enc.gcmEncrypt key nonce p = some ct → ct.length = p.length + 16 ∧
    dec.gcmDecrypt key nonce (ct.take p.length) (ct.drop p.length) = some p

/-- No send and no allocation fails. -/
structure ClientEnv.Succeeds (env : ClientEnv) : Prop where
  streamSend : ∀ n, env.streamSend n = true
  malloc : ∀ n, env.malloc n = true

/-- The client has logged in under the name with this AUTH_REQ, and has run on. -/
def LoggedIn (env : ClientEnv) (name : Bytes) (authReq : Packet) (w : ChatSystem) : Prop :=
  ∃ (w₀ : ChatSystem) (stdin : Bytes) (c : Client) (acts : List ChatAction),
    w₀.client.sqmpLogin env stdin = (c, .ok ()) ∧
      c.session.name = (UInt8.ofNat name.length, name) ∧
      c.trace.head? = some (.sent authReq true) ∧
      run (ChatSystem.step env) { w₀ with client := c } acts = some w

/-- An established client with its session and its stream at the server. -/
structure Party (env : ClientEnv) (σ : Server) where
  name : Bytes
  authReq : Packet
  client : ChatSystem
  session : SessionId
  stream : StreamId
  loggedIn : LoggedIn env name authReq client
  clientEstablished : client.client.session.state = .connEstablished
  /-- the AUTH_REQs of the session are the client's -/
  served : ∀ f, .authReq session f ∈ σ.trace → readAuthReq authReq.bytes = .ok f
  established : (σ.session session).state = .connEstablished
  user : (σ.stream stream).userData = some session
  /-- a client opens one stream -/
  single : Single σ stream
  opened : σ.isLive stream = true

/-- `pktlen`, of `send_chat` and of the server. -/
def chatPktLen (t : MsgType) (ciphertextLen : UInt32) : Nat :=
  pktFixedLen + msgFixedLen t + ciphertextLen.toNat

/-- The buffers for a message, its CHAT_SEND and its CHAT_DELIVER are as long as what is
written to them. -/
structure BuffersFit (msg : Bytes) (sid sid' : UInt32) (m : MsgChatSend) (d : MsgChatDeliver) :
    Prop where
  /-- `malloc(msglen + 16)` -/
  ciphertext : m.ciphertext.length ≤ msg.length + 16
  chatSend : (Packet.mk sid (.chatSend m)).bytes.length ≤ chatPktLen .chatSend m.ciphertextLen
  chatDeliver : (Packet.mk sid' (.chatDeliver d)).bytes.length ≤
    chatPktLen .chatDeliver m.ciphertextLen
  /-- `malloc(plaintext_len + 1)`, with the NUL behind the message -/
  plaintext : msg.length + 1 ≤ (d.ciphertextLen - 16 + 1).toNat
  recipient : m.recipientLen.toNat ≤ 32
  sender : d.senderLen.toNat ≤ 32

/-- The message of the call goes from `a` to `b`: `send_chat` sends its CHAT_SEND, the server
sends one CHAT_DELIVER to the stream of `b`, and `b` prints the name of `a` and the message. -/
def RoundTrip (env : Env) {envS envR : ClientEnv} {σ : Server} (a : Party envS σ)
    (b : Party envR σ) (call : SendCall) : Prop :=
  ∃ w σ' sid sid' m d,
    run (ChatSystem.step envS) a.client [.compare, .encrypt] = some w ∧
    w.toServer = a.client.toServer ++ [⟨call.number, ⟨sid, .chatSend m⟩⟩] ∧
    atomicStep env σ (.received a.stream (Packet.mk sid (.chatSend m)).bytes) = some σ' ∧
    .sent b.stream ⟨sid', .chatDeliver d⟩ true true ∈ newEvents σ σ' ∧
    deliveredIn (newEvents σ σ') = [(b.stream, d)] ∧
    b.client.client.receive envR (Packet.mk sid' (.chatDeliver d)).bytes =
      b.client.client.log (.chat a.name (.ok call.msg)) ∧
    BuffersFit call.msg sid sid' m d

/-! ## 2. Clients -/

namespace RoundTripLemmas

variable {env : ClientEnv} {c c' : Client} {w w' : ChatSystem}

theorem toNat_length {name : Bytes} (h : name.length ≤ 32) :
    (UInt8.ofNat name.length).toNat = name.length := by
  rw [UInt8.toNat_ofNat']
  exact Nat.mod_eq_of_lt (Nat.lt_of_le_of_lt h (by decide))

/-- A name that fits is read back from its field. -/
theorem first_store_name {b : Buf 32} {name : Bytes} (h : name.length ≤ 32) :
    (b.store name).first (UInt8.ofNat name.length).toNat = name := by
  rw [toNat_length h, Buf.first_store (Nat.le_refl _) h, List.take_length]

theorem inputString_plain (line : Bytes) : 0 ∉ inputString line := by
  have hplain : 0 ∉ cString line := fun h => by
    have hne := List.mem_takeWhile_imp h
    simp at hne
  unfold inputString
  dsimp only
  split
  · exact fun h => hplain ((List.dropLast_sublist _).mem h)
  · exact hplain

/-- A login that succeeds has a name of 1 to 32 bytes and a key. -/
theorem sqmpLogin_ok {stdin : Bytes} (h : c.sqmpLogin env stdin = (c', .ok ())) :
    ∃ name hash privkey, 0 ∉ name ∧ 1 ≤ name.length ∧ name.length ≤ 32 ∧
      c.sqmpLoginAs env name hash privkey = (c', .ok ()) := by
  unfold Client.sqmpLogin at h
  split at h
  · cases h
  · next line rest _ =>
    dsimp only at h
    split at h
    · cases h
    · next hlen =>
      split at h
      · cases h
      · split at h
        · cases h
        · refine ⟨inputString line, _, _, inputString_plain line, ?_, ?_, h⟩ <;> omega

/-- What the handlers of the client leave alone. -/
theorem onStreamRecv_privkey {data : Bytes} (h : c.onStreamRecv env data = .ok c') :
    c'.session.clientPrivkey = c.session.clientPrivkey := by
  obtain ⟨o, _, h⟩ := bind_eq_ok.mp h
  split at h
  · unfold Client.sqmpProcessHelloAck at h
    split at h
    · cases h
      rfl
    · obtain ⟨v, _, h⟩ := bind_eq_ok.mp h
      split at h
      · cases h
        rfl
      · obtain ⟨sid, _, h⟩ := bind_eq_ok.mp h
        cases h
        rfl
  · unfold Client.sqmpProcessAuthResp at h
    split at h
    · obtain ⟨status, _, h⟩ := bind_eq_ok.mp h
      split at h <;> cases h <;> rfl
    · cases h
      rfl
  · obtain ⟨key, rfl⟩ := ClientStateLemmas.sqmpProcessKeyResp_ok h
    rfl
  · rw [(ClientStateLemmas.sqmpProcessChatDeliver_ok h).1]
  · obtain ⟨code, desc, rfl⟩ := ClientStateLemmas.sqmpProcessError_ok h
    split <;> rfl
  · cases h
    rfl
  · cases h
    rfl

theorem receive_privkey (data : Bytes) :
    (c.receive env data).session.clientPrivkey = c.session.clientPrivkey := by
  unfold Client.receive
  split
  · next h => exact onStreamRecv_privkey h
  · rfl

theorem encrypt_privkey (call : SendCall) :
    (w.encrypt env call).client.session.clientPrivkey = w.client.session.clientPrivkey := by
  unfold ChatSystem.encrypt
  dsimp only
  split
  · split <;> rfl
  · rfl

theorem step_privkey {a : ChatAction} (h : w.step env a = some w') :
    w'.client.session.clientPrivkey = w.client.session.clientPrivkey := by
  unfold ChatSystem.step at h
  split at h
  · split at h <;> cases h
    rfl
  · split at h
    · split at h <;> cases h
      rfl
    · cases h
  · split at h
    · split at h <;> cases h
      rfl
    · cases h
  · split at h <;> cases h
    rfl
  · split at h <;> cases h
    exact encrypt_privkey _
  · split at h <;> cases h
    unfold ChatSystem.serve
    split <;> rfl
  · split at h <;> cases h
    rfl
  · split at h <;> cases h
    exact receive_privkey _

/-- What `sqmp_login` stores and sends. -/
theorem sqmpLoginAs_ok {name : Bytes} {hash privkey : Buf 32} (hle : name.length ≤ 32)
    (h : c.sqmpLoginAs env name hash privkey = (c', .ok ())) :
    c'.session.name = (UInt8.ofNat name.length, name) ∧ c'.session.clientPrivkey = privkey ∧
      ∃ ok, c'.trace.head? = some (.sent ⟨c.session.sessionId, .authReq
        ⟨UInt8.ofNat name.length, (Buf.zero 32).store name, hash, 32,
          (env.ssl.publicKey privkey).bytes⟩⟩ ok) := by
  obtain rfl : (c.sqmpLoginAs env name hash privkey).1 = c' := congrArg Prod.fst h
  exact ⟨Prod.ext rfl (first_store_name hle), rfl, _, rfl⟩

/-- The AUTH_REQ of a client that has logged in carries its name and the public key that
belongs to its private key. -/
theorem authReq_of_loggedIn {name : Bytes} {p : Packet} (h : LoggedIn env name p w) :
    0 ∉ name ∧ name.length ≤ 32 ∧ ∃ sid hash, p = ⟨sid, .authReq ⟨UInt8.ofNat name.length,
      (Buf.zero 32).store name, hash, 32,
      (env.ssl.publicKey w.client.session.clientPrivkey).bytes⟩⟩ := by
  obtain ⟨w₀, stdin, c, acts, hlogin, hname, htr, hrun⟩ := h
  obtain ⟨name', hash, privkey, hplain, _, hle, hlogin⟩ := sqmpLogin_ok hlogin
  obtain ⟨hname', hkey, ok, htr'⟩ := sqmpLoginAs_ok hle hlogin
  have hkept : w.client.session.clientPrivkey = c.session.clientPrivkey :=
    run_always (I := fun w => w.client.session.clientPrivkey = c.session.clientPrivkey)
      (fun _ _ _ hi hs => (step_privkey hs).trans hi) rfl hrun
  obtain rfl : name' = name := (Prod.mk.inj (hname'.symm.trans hname)).2
  rw [htr] at htr'
  cases htr'
  exact ⟨hplain, hle, _, hash, by rw [hkept, hkey]⟩

end RoundTripLemmas
open RoundTripLemmas

/-! ## 3. Where the entries lead -/

/-- A stream of the session; there is none only when one of the session is closed. -/
def HomeOf (σ : Server) (s : SessionId) : Option StreamId → Prop
  | some st => (σ.stream st).userData = some s
  | none => ∃ st, (σ.stream st).userData = some s ∧ (σ.stream st).life = .freed

/-- What the worker has registered, or is about to, leads to the session's streams. -/
structure Homes (σ : Server) : Prop where
  staged : ∀ s, Refers σ s → HomeOf σ s (σ.session s).authStream
  loaded : ∀ s st, σ.pc = .loaded s st → HomeOf σ s st
  registered : ∀ s k st pk, .registered s k st pk ∈ σ.trace → HomeOf σ s st

namespace RoundTripLemmas

variable {env : Env} {σ σ' : Server} {a : Action} {s : SessionId} {o : Option StreamId}

theorem homeOf_callback (hw : Wf σ) (h : CallbackStep env σ a σ') (ho : HomeOf σ s o) :
    HomeOf σ' s o := by
  have allocated : ∀ {st}, (σ.stream st).userData = some s → (σ.stream st).life ≠ .unallocated := by
    intro st hu hl
    rw [hw.unopened st hl] at hu
    cases hu
  cases o with
  | some st => exact (LoginOrderLemmas.stream_callback h (allocated ho)).2.1.trans ho
  | none =>
    obtain ⟨st, hu, hl⟩ := ho
    obtain ⟨_, huser, hlife⟩ := LoginOrderLemmas.stream_callback h (allocated hu)
    refine ⟨st, huser.trans hu, ?_⟩
    rcases hlife with hlife | hlife
    · rw [hlife, hl]
    · exact hlife

theorem homeOf_main (h : MainStep env σ a σ') (ho : HomeOf σ s o) : HomeOf σ' s o := by
  have hstream := StreamLifetimeLemmas.stream_main h
  cases o <;> simpa only [HomeOf, hstream] using ho

/-- A callback that changes the `auth_stream` of a session leaves it a stream of the session, or
closes one. -/
theorem callback_home (hw : Wf σ) (hk : Known σ) (h : CallbackStep env σ a σ')
    (hi : ∀ s, Refers σ s → HomeOf σ s (σ.session s).authStream) (hr : Refers σ' s) :
    HomeOf σ' s (σ'.session s).authStream := by
  -- the session keeps its `auth_stream`, and it was referred to before
  have kept : Refers σ s → (σ'.session s).authStream = (σ.session s).authStream →
      HomeOf σ' s (σ'.session s).authStream := by
    intro hr hsame
    rw [hsame]
    exact homeOf_callback hw h (hi s hr)
  cases id h with
  | @authReq st t data f es hr' hs hst hon hf hes =>
    rcases eq_or_ne s t with rfl | hne
    · simp only [acceptedState, Server.modify, Function.update_self]
      exact hs
    · refine kept ?_ (congrArg Session.authStream (Function.update_of_ne hne _ _))
      rcases refers_callback h hr with hr | ⟨_, hon'⟩
      · exact hr
      · rw [hon] at hon'
        cases hon'
        exact absurd rfl hne
  | @connected c hp =>
    have hne : s ≠ c := by
      rintro rfl
      exact hk s hr (hw.absent s hp).1
    exact kept hr (congrArg Session.authStream (Function.update_of_ne hne _ _))
  | @streamClosed st t hr' hs =>
    rcases eq_or_ne s t with rfl | hne
    · simp only [Server.modify, Function.update_self]
      exact ⟨st, by simpa using hs, by simp⟩
    · exact kept hr (congrArg Session.authStream (Function.update_of_ne hne _ _))
  | hello | bye | left =>
    refine kept hr (Server.update_proj Session.authStream ?_ s)
    rfl
  | _ => exact kept hr rfl

end RoundTripLemmas

namespace Homes

variable {env : Env} {σ σ' : Server} {a : Action} {acts : List Action}

theorem init : Homes .init where
  staged s h := absurd rfl (known_init s h)
  loaded s st h := by cases h
  registered s k st pk h := by cases h

theorem callback (hi : Homes σ) (hw : Wf σ) (hk : Known σ) (h : CallbackStep env σ a σ') :
    Homes σ' where
  staged _ := callback_home hw hk h hi.staged
  loaded s st hpc := by
    rw [callback_pc h] at hpc
    exact homeOf_callback hw h (hi.loaded s st hpc)
  registered s k st pk hmem := by
    rcases callback_mem h hmem with hmem | hmem
    · exact absurd hmem callback_registers
    · exact homeOf_callback hw h (hi.registered s k st pk hmem)

theorem main (hi : Homes σ) (h : MainStep env σ a σ') : Homes σ' where
  staged s hr := by
    rw [LoginOrderLemmas.authStream_main h]
    exact homeOf_main h (hi.staged s (refers_main h hr))
  loaded s st hpc := by
    refine homeOf_main h ?_
    cases h
    case load s' hpc' =>
      cases hpc
      exact hi.staged s (.inl (by rw [hpc']; rfl))
    case test hpc' =>
      dsimp only [loopTest] at hpc
      split at hpc <;> cases hpc
    case unlinkNull hpc' hq =>
      dsimp only at hpc
      split at hpc <;> cases hpc
    case verify s' ok hpc' hok =>
      dsimp only at hpc
      split at hpc <;> cases hpc
    case ending es pc hpc' hpc'' hes =>
      cases hpc
      cases hpc''
    case signal => exact hi.loaded s st hpc
    all_goals cases hpc
  registered s k st pk hmem := by
    refine homeOf_main h ?_
    rcases main_mem h hmem with hmem | hmem
    · exact hi.loaded s st (main_registers hmem)
    · exact hi.registered s k st pk hmem

end Homes

/-- What is registered for a session leads to a stream of the session. -/
theorem homes_run {env : Env} {acts : List Action} {σ : Server}
    (h : serverRun env acts = some σ) : Homes σ :=
  run_induction (P := fun _ _ => True) .init (fun _ _ _ hw hk hi _ hs =>
    (step_cases hs).elim (hi.callback hw hk) hi.main) (along_of_forall (fun _ _ => trivial) _ _) h

/-! ## 4. Sending, forwarding and receiving -/

/-- The registered entry of a party has its name, its key and its stream. -/
structure EntryOf {env : ClientEnv} {σ : Server} (b : Party env σ) (e : RegistryEntry) : Prop where
  key : e.key = (UInt8.ofNat b.name.length, b.name)
  publicKey : e.publicKey = env.ssl.publicKey b.client.client.session.clientPrivkey
  stream : e.stream = some b.stream

/-- The CHAT_DELIVER has the content of the CHAT_SEND. -/
structure Forwards (m : MsgChatSend) (d : MsgChatDeliver) : Prop where
  encKeyLen : d.encKeyLen = m.encKeyLen
  encryptedKey : d.encryptedKey = m.encryptedKey
  nonce : d.nonce = m.nonce
  ciphertextLen : d.ciphertextLen = m.ciphertextLen
  ciphertext : d.ciphertext = m.ciphertext

namespace RoundTripLemmas

variable {env : Env} {cenv : ClientEnv} {σ : Server} {acts : List Action}

/-- The AUTH_REQs of a party's session carry its name and its public key. -/
theorem served_fields (b : Party cenv σ) {f : AuthFields} (hf : .authReq b.session f ∈ σ.trace) :
    f.name = (UInt8.ofNat b.name.length, b.name) ∧
      f.pubkey = some (cenv.ssl.publicKey b.client.client.session.clientPrivkey) := by
  obtain ⟨_, hle, sid, hash, hp⟩ := authReq_of_loggedIn b.loggedIn
  have hread := b.served f hf
  rw [hp, readAuthReq_bytes _ _ _ _ _ (by rw [toNat_length hle]; exact hle)] at hread
  cases hread
  exact ⟨Prod.ext rfl (first_store_name hle), rfl⟩

theorem ownerOf_registeredBy {tr pre : List Event} {e : RegistryEntry} {s : SessionId}
    (h : RegisteredBy tr e s pre) : ownerOf tr e.key = some s := by
  obtain ⟨post, rfl, hpost⟩ := h
  rw [ownerOf, List.findSome?_append, List.findSome?_eq_none_iff.mpr hpost]
  exact GhostLemmas.ownerOf_registered

theorem entry_of_party (hP : AtomicMeets env ShortName acts) (h : atomicRun env acts = some σ)
    (b : Party cenv σ) {e : RegistryEntry} (he : e ∈ σ.registry.used)
    (howner : ownerOf σ.trace e.key = some b.session) : EntryOf b e := by
  obtain ⟨hb, hreg⟩ := registrations_run hP h
  obtain ⟨s, pre, f, hby, hg, hk⟩ := hreg.entries e he
  cases (ownerOf_registeredBy hby).symm.trans howner
  obtain ⟨post, htr, _⟩ := hby
  have hmem : ∀ {ev}, ev ∈ pre → ev ∈ σ.trace := fun hev => by
    rw [htr]
    exact List.mem_append_right _ (List.mem_cons_of_mem _ hev)
  obtain ⟨hname, hpub⟩ := served_fields b (hmem (mem_of_lastAuthReq hg.latest))
  refine ⟨hg.name_eq.symm.trans hname, hk _ hpub, ?_⟩
  obtain ⟨acts', hrun⟩ := atomicRun_serverRun h
  have hhome := (homes_run hrun).registered b.session e.key e.stream e.publicKey (by
    rw [htr]
    exact List.mem_append_right _ List.mem_cons_self)
  cases hst : e.stream with
  | some st =>
    rw [hst] at hhome
    rw [LoginOrderLemmas.single_unique hb.wf b.single b.user hhome]
  | none =>
    rw [hst] at hhome
    obtain ⟨st, hu, hfreed⟩ := hhome
    rw [LoginOrderLemmas.single_unique hb.wf b.single b.user hu] at hfreed
    have hlive := OwnershipLemmas.isLive_iff.mp b.opened
    rw [hfreed] at hlive
    cases hlive

/-- `encrypt_chat`, its steps. -/
theorem encryptChat_ok {ssl : OpenSSL} {n : Nat} {peer eph : Buf 32} {nonce : Buf 12}
    {msg ct : Bytes} (h : Client.encryptChat ssl n peer msg = some (eph, nonce, ct)) :
    ∃ privkey shared, eph = ssl.publicKey privkey ∧ ssl.derive privkey peer = some shared ∧
      ssl.gcmEncrypt (ssl.sha256 shared.bytes) nonce msg = some ct := by
  obtain ⟨privkey, _, h⟩ := Option.bind_eq_some_iff.mp h
  obtain ⟨shared, hshared, h⟩ := Option.bind_eq_some_iff.mp h
  obtain ⟨_, _, h⟩ := Option.bind_eq_some_iff.mp h
  obtain ⟨_, hct, h⟩ := Option.bind_eq_some_iff.mp h
  cases h
  exact ⟨privkey, shared, rfl, hshared, hct⟩

/-- `send_chat` behind its wait. -/
theorem send_chat (hS : cenv.Succeeds) {w : ChatSystem} {call : SendCall} {eph : Buf 32}
    {nonce : Buf 12} {ct : Bytes} (hpc : w.pc = .fetched call)
    (hkey : w.client.session.keyFetchResult ≠ Buf.zero 32)
    (henc : Client.encryptChat cenv.ssl w.client.trace.length w.client.session.keyFetchResult
      call.msg = some (eph, nonce, ct)) :
    ∃ w', run (ChatSystem.step cenv) w [.compare, .encrypt] = some w' ∧ w'.toServer = w.toServer ++
      [⟨call.number, w.client.chatSendPacket call.recipient eph nonce ct⟩] := by
  have hcompare : w.step cenv .compare = some { w with pc := .checked call } := by
    simp only [ChatSystem.step, hpc, if_neg hkey]
  refine ⟨_, run_cons.mpr ⟨_, hcompare, rfl⟩, ?_⟩
  simp only [ChatSystem.encrypt, hS.malloc, if_true, henc, ChatSystem.send, hS.streamSend]

/-- What the server takes over from a CHAT_SEND. -/
theorem forwards_of_carries {x : Session} {sid : UInt32} {m : MsgChatSend} {d : MsgChatDeliver}
    (hct : m.ciphertext.length = m.ciphertextLen.toNat)
    (h : Carries x (Packet.mk sid (.chatSend m)).bytes d) : Forwards m d := by
  have hr := chatSend_reads sid m
  have hn : m.ciphertextLen = d.ciphertextLen :=
    Except.ok.inj (hr.ciphertextLen.symm.trans h.ciphertextLen)
  refine ⟨?_, ?_, ?_, hn.symm, ?_⟩
  · exact Except.ok.inj (h.encKeyLen.symm.trans hr.encKeyLen)
  · exact Except.ok.inj (h.encryptedKey.symm.trans hr.encryptedKey)
  · exact Except.ok.inj (h.nonce.symm.trans hr.nonce)
  · have hread := hr.ciphertext d.ciphertextLen.toNat (by rw [← hn]; exact hct.symm)
    exact Except.ok.inj (h.ciphertext.symm.trans hread)

/-- The server forwards a CHAT_SEND to the stream of the entry. -/
theorem forward_chat {st r : StreamId} {s : SessionId} {e : RegistryEntry} (sid : UInt32)
    (m : MsgChatSend) (hb : Between σ) (hd : σ.registry.Distinct)
    (hmalloc : ∀ n, env.malloc n = true) (hsend : ∀ n, env.streamSend n = true)
    (hlive : σ.isLive st = true) (hs : (σ.stream st).userData = some s)
    (hst : (σ.session s).state = .connEstablished) (he : e ∈ σ.registry.used)
    (hkey : e.key = countedName m.recipientLen m.recipient) (hstream : e.stream = some r)
    (hname : m.recipientLen.toNat ≤ 32) (hct : m.ciphertext.length = m.ciphertextLen.toNat)
    (hshort : 319 + m.ciphertext.length < 2 ^ 32) :
    ∃ σ' sid' d, atomicStep env σ (.received st (Packet.mk sid (.chatSend m)).bytes) = some σ' ∧
      Forwards m d ∧ countedName d.senderLen d.sender = (σ.session s).name ∧
      .sent r ⟨sid', .chatDeliver d⟩ (σ.isLive r) true ∈ newEvents σ σ' ∧
      deliveredIn (newEvents σ σ') = [(r, d)] := by
  have hlength : (Packet.mk sid (.chatSend m)).bytes.length = 319 + m.ciphertext.length :=
    Packet.length_bytes _
  have hdisp : dispatch serverHandles (Packet.mk sid (.chatSend m)).bytes = .ok (some .chatSend) :=
    ClientStateLemmas.dispatch_bytes _ _
  have hon : chatSendOn σ (.received st (Packet.mk sid (.chatSend m)).bytes) =
      some (st, s, (Packet.mk sid (.chatSend m)).bytes) := by
    rw [chatSendOn, if_pos hdisp, hs]
    simp [hst]
  have hcomplete : CompleteChat σ (.received st (Packet.mk sid (.chatSend m)).bytes) := by
    intro c hc
    rw [hon] at hc
    cases hc
    refine ⟨by rw [hlength]; omega, fun n hn => ?_⟩
    rw [(chatSend_reads sid m).ciphertextLen] at hn
    cases hn
    rw [hlength, hct]
    rfl
  have hrec : chatRecipient (Packet.mk sid (.chatSend m)).bytes = some e.key := by
    rw [chatRecipient, if_pos hdisp, (chatSend_reads sid m).nameLen]
    dsimp only
    rw [(chatSend_reads sid m).name m.asDeliver.senderLen.toNat hname, hkey]
    rfl
  have hreach : ∀ r', Reaches σ (Packet.mk sid (.chatSend m)).bytes r' → r' = r := by
    rintro r' ⟨e', he', hk, hr'⟩
    rw [hrec] at hk
    rw [Distinct.unique hd he' he (Option.some.inj hk).symm, hstream] at hr'
    exact (Option.some.inj hr').symm
  have hreceivable : receivable σ st = true := by
    refine OwnershipLemmas.receivable_iff.mpr ⟨OwnershipLemmas.isLive_iff.mp hlive,
      hb.wf.live_connected (OwnershipLemmas.isLive_iff.mp hlive), ?_⟩
    rw [hb.rested.chats]
    simp
  obtain ⟨σ', hstep⟩ : ∃ σ', atomicStep env σ
      (.received st (Packet.mk sid (.chatSend m)).bytes) = some σ' := ⟨_, if_pos hreceivable⟩
  have hev := chatSend_events hd hmalloc hon hcomplete hstep
  generalize hes : newEvents σ σ' = es at hev
  cases hev with
  | notFound hr => exact absurd ⟨r, e, he, hrec, hstream⟩ hr
  | notSent _ _ hfail =>
    obtain ⟨n, hn⟩ := hfail
    rw [hsend n] at hn
    cases hn
  | @sent r' d sid' hr hm hlen =>
    cases hreach r' hr
    have hwhole : streamSendBytes (Packet.mk sid' (.chatDeliver d)).bytes =
        (Packet.mk sid' (.chatDeliver d)).bytes := by
      rw [RelayLemmas.whole_iff, Packet.length_bytes]
      rw [hlength] at hlen
      show 319 + d.ciphertext.length < 2 ^ 32
      omega
    have hout : (Event.sent r ⟨sid', .chatDeliver d⟩ (σ.isLive r) true).asDelivered =
        some (r, d) := by
      simp only [Event.asDelivered, hwhole, if_true]
    refine ⟨σ', sid', d, hstep, forwards_of_carries hct hm, hm.sender, ?_, ?_⟩
    · rw [hes]
      exact List.mem_cons_self
    · rw [hes, deliveredIn, List.filterMap_cons_some hout, List.filterMap_cons_none rfl,
        RelayLemmas.touched_filterMap rfl]
      rfl

/-- The recipient decrypts and prints a CHAT_DELIVER. -/
theorem receive_chat (hR : cenv.Succeeds) {c : Client} (sid : UInt32) {d : MsgChatDeliver}
    {shared eph : Buf 32} {msg : Bytes}
    (hst : c.session.state = .connEstablished) (hn : d.senderLen.toNat ≤ 32)
    (hplain : 0 ∉ d.sender.first d.senderLen.toNat) (hlen : d.encKeyLen = 32)
    (heph : d.encryptedKey = (Buf.zero 256).store eph.bytes)
    (hct : d.ciphertext.length = d.ciphertextLen.toNat) (htag : 16 ≤ d.ciphertextLen.toNat)
    (hshared : cenv.ssl.derive c.session.clientPrivkey eph = some shared)
    (hmsg : cenv.ssl.gcmDecrypt (cenv.ssl.sha256 shared.bytes) d.nonce
      (d.ciphertext.take (d.ciphertextLen.toNat - 16))
      (d.ciphertext.drop (d.ciphertextLen.toNat - 16)) = some msg) :
    c.receive cenv (Packet.mk sid (.chatDeliver d)).bytes =
      c.log (.chat (d.sender.first d.senderLen.toNat) (.ok msg)) := by
  have hr := chatDeliver_reads sid d
  have hkey : Pkt.chatEncryptedKey (Packet.mk sid (.chatDeliver d)).bytes 32 = .ok eph := by
    have hfirst : d.encryptedKey.first 32 = eph.bytes := by
      rw [heph, Buf.first_store (Nat.le_of_eq eph.length_eq.symm) (by decide)]
      exact List.take_of_length_le (Nat.le_of_eq eph.length_eq)
    rw [hr.ephemeralKey, hfirst]
    exact congrArg Except.ok (Buf.ext_bytes (Buf.bytes_store eph.length_eq))
  have hnot : ¬ d.ciphertextLen < 16 := by
    rw [UInt32.lt_iff_toNat_lt]
    exact Nat.not_lt.mpr htag
  have hchat : Client.readChat cenv c (Packet.mk sid (.chatDeliver d)).bytes = .ok (.ok msg) := by
    rw [Client.readChat, hr.encKeyLen, ok_bind, hlen, if_neg (by simp), hr.ciphertextLen, ok_bind,
      if_neg hnot, if_pos (hR.malloc _), hkey, ok_bind, hr.nonce, ok_bind, Client.decryptChat,
      if_neg (Nat.not_lt.mpr htag), hshared]
    dsimp only
    rw [hr.ciphertext _ hct.symm, ok_bind, hmsg]
    rfl
  have h : c.onStreamRecv cenv (Packet.mk sid (.chatDeliver d)).bytes =
      .ok (c.log (.chat (d.sender.first d.senderLen.toNat) (.ok msg))) := by
    rw [Client.onStreamRecv, ClientStateLemmas.dispatch_bytes, ok_bind]
    show c.sqmpProcessChatDeliver cenv _ = _
    rw [Client.sqmpProcessChatDeliver, if_neg (not_not.mpr hst), hr.nameLen, ok_bind,
      chatSenderStr_bytes sid d hn hplain, ok_bind, hchat, ok_bind]
  rw [Client.receive, h]

theorem buffers_fit {msg : Bytes} {sid sid' : UInt32} {m : MsgChatSend} {d : MsgChatDeliver}
    (hct : m.ciphertext.length = msg.length + 16)
    (hn : m.ciphertextLen.toNat = m.ciphertext.length) (hfwd : Forwards m d)
    (hlen : msg.length + 16 + 319 < 2 ^ 31) (hr : m.recipientLen.toNat ≤ 32)
    (hs : d.senderLen.toNat ≤ 32) : BuffersFit msg sid sid' m d where
  ciphertext := Nat.le_of_eq hct
  chatSend := by
    rw [Packet.length_bytes, chatPktLen, hn]
    exact Nat.le_refl _
  chatDeliver := by
    rw [Packet.length_bytes, chatPktLen, hn, ← hfwd.ciphertext]
    exact Nat.le_refl _
  plaintext := by
    have hd : d.ciphertextLen.toNat = msg.length + 16 := by rw [hfwd.ciphertextLen, hn, hct]
    have hsub : (d.ciphertextLen - 16).toNat = msg.length := by
      rw [UInt32.toNat_sub_of_le _ _ (by rw [UInt32.le_iff_toNat_le, hd]; simp), hd]
      simp
    rw [UInt32.toNat_add, hsub]
    simp
    omega
  recipient := hr
  sender := hs

end RoundTripLemmas
open RoundTripLemmas

/-! ## 5. The round trip -/

section RoundTrip

variable {env : Env} {envS envR : ClientEnv} {σ : Server} {acts : List Action}

/-- The server knows an established party under its name. -/
theorem Party.session_name (hP : AtomicMeets env ShortName acts) (h : atomicRun env acts = some σ)
    (a : Party envS σ) : (σ.session a.session).name = (UInt8.ofNat a.name.length, a.name) := by
  obtain ⟨_, hreg⟩ := registrations_run hP h
  obtain ⟨f, hf, hname⟩ := hreg.names a.session a.established
  exact hname.symm.trans (served_fields a hf).1

/-- A message that `send_chat` encrypts with the recipient's registered key is printed by the
recipient as it was written, behind the sender's name. -/
theorem chat_round_trip (hssl : envS.ssl.Agrees envR.ssl) (hS : envS.Succeeds)
    (hR : envR.Succeeds) (hmalloc : ∀ n, env.malloc n = true)
    (hsend : ∀ n, env.streamSend n = true) (hP : AtomicMeets env ShortName acts)
    (h : atomicRun env acts = some σ) (a : Party envS σ) (b : Party envR σ) {e : RegistryEntry}
    (he : e ∈ σ.registry.used) (howner : ownerOf σ.trace e.key = some b.session) {call : SendCall}
    (hpc : a.client.pc = .fetched call) (hrecipient : call.recipient = b.name)
    (hkey : a.client.client.session.keyFetchResult = e.publicKey)
    (henc : (Client.encryptChat envS.ssl a.client.client.trace.length e.publicKey
      call.msg).isSome = true)
    (hlen : call.msg.length + 16 + 319 < 2 ^ 31) : RoundTrip env a b call := by
  obtain ⟨hb, hreg⟩ := registrations_run hP h
  obtain ⟨hekey, hpub, hstream⟩ := entry_of_party hP h b he howner
  obtain ⟨⟨eph, nonce, ct⟩, henc⟩ := Option.isSome_iff_exists.mp henc
  obtain ⟨privkey, shared, heph, hshared, hct⟩ := encryptChat_ok henc
  obtain ⟨hctlen, hdec⟩ := hssl.gcm _ _ _ _ hct
  have hnonzero : a.client.client.session.keyFetchResult ≠ Buf.zero 32 := by
    intro hzero
    rw [← hkey, hzero, hssl.noZero] at hshared
    cases hshared
  rw [← hkey] at henc
  obtain ⟨w, hrun, hqueue⟩ := send_chat hS hpc hnonzero henc
  -- the lengths survive the conversions of `send_chat`
  have hname : (UInt8.ofNat call.recipient.length).toNat = call.recipient.length :=
    toNat_length call.short
  have hn : (UInt32.ofNat ct.length).toNat = ct.length :=
    UInt32.toNat_ofNat_of_lt' (Nat.lt_trans (show ct.length < 2 ^ 31 by omega) (by decide))
  obtain ⟨σ', sid', d, hstep, hfwd, hsender, hsent, hdel⟩ :=
    forward_chat a.client.client.session.sessionId
      ⟨UInt8.ofNat call.recipient.length, (Buf.zero 32).store call.recipient, 32,
        (Buf.zero 256).store eph.bytes, nonce, UInt32.ofNat ct.length, ct⟩
      hb hreg.distinct hmalloc hsend a.opened a.user a.established he
      (by rw [hekey, ← hrecipient, countedName, first_store_name call.short]) hstream
      (by rw [hname]; exact call.short) hn.symm (show 319 + ct.length < 2 ^ 32 by omega)
  obtain ⟨hplain, hshort, _⟩ := authReq_of_loggedIn a.loggedIn
  rw [a.session_name hP h] at hsender
  obtain ⟨hslen, hsname⟩ := Prod.mk.inj hsender
  have hs32 : d.senderLen.toNat ≤ 32 := by
    rw [hslen, toNat_length hshort]
    exact hshort
  have hdn : d.ciphertextLen.toNat = call.msg.length + 16 := by
    rw [hfwd.ciphertextLen, hn, hctlen]
  have htake : d.ciphertextLen.toNat - 16 = call.msg.length := by omega
  have hagreed : envR.ssl.derive b.client.client.session.clientPrivkey eph = some shared := by
    rw [heph]
    exact hssl.x25519 _ _ _ (hpub ▸ hshared)
  have hreceive := receive_chat hR sid' b.clientEstablished hs32
    (by rw [hsname]; exact hplain) hfwd.encKeyLen hfwd.encryptedKey
    (by rw [hfwd.ciphertext, hfwd.ciphertextLen, hn]) (by omega) hagreed
    (by rw [← hssl.sha256, hfwd.nonce, htake, hfwd.ciphertext]; exact hdec)
  rw [hsname] at hreceive
  rw [b.opened] at hsent
  exact ⟨w, σ', _, sid', _, d, hrun, hqueue, hstep, hsent, hdel, hreceive,
    buffers_fit hctlen hn hfwd hlen (by rw [hname]; exact call.short) hs32⟩

end RoundTrip

/-! ## 6. A concrete message -/

/-- A private key of X25519. -/
def testPrivkey (b : UInt8) : Buf 32 := ⟨b :: (List.replicate 30 0 ++ [64]), rfl⟩

/-- The public keys of `testPrivkey 8`, `testPrivkey 16` and `testPrivkey 24`. -/
def pubkey8 : Buf 32 :=
  ⟨[66, 44, 142, 122, 98, 39, 215, 188, 161, 53, 11, 62, 43, 183, 39, 159, 120, 151, 184, 123, 182,
    133, 75, 120, 60, 96, 232, 3, 17, 174, 48, 121], rfl⟩

def pubkey16 : Buf 32 :=
  ⟨[141, 32, 248, 199, 187, 251, 154, 243, 218, 78, 245, 50, 237, 68, 239, 198, 140, 230, 66, 188,
    93, 12, 92, 177, 215, 185, 27, 150, 199, 78, 223, 2], rfl⟩

def pubkey24 : Buf 32 :=
  ⟨[174, 139, 4, 111, 150, 203, 88, 65, 200, 111, 216, 182, 61, 61, 98, 101, 178, 9, 223, 160, 223,
    102, 189, 170, 66, 183, 169, 252, 89, 119, 149, 35], rfl⟩

/-- The agreed key of `testPrivkey 8` and `testPrivkey 24`, and its SHA-256. -/
def shared8 : Buf 32 :=
  ⟨[168, 98, 150, 180, 17, 55, 197, 72, 150, 253, 42, 133, 117, 127, 163, 93, 105, 135, 101, 203,
    117, 90, 222, 6, 47, 222, 215, 85, 134, 220, 225, 62], rfl⟩

def aesKey8 : Buf 32 :=
  ⟨[59, 239, 191, 46, 228, 25, 137, 125, 7, 37, 133, 184, 139, 200, 118, 192, 53, 13, 77, 36, 71,
    249, 202, 213, 103, 217, 78, 205, 24, 188, 190, 55], rfl⟩

/-- The SHA-256 of `a` and of `x`. -/
def aHash : Buf 32 :=
  ⟨[202, 151, 129, 18, 202, 27, 189, 202, 250, 194, 49, 179, 154, 35, 220, 77, 167, 134, 239, 248,
    20, 124, 78, 114, 185, 128, 119, 133, 175, 238, 72, 187], rfl⟩

def xHash : Buf 32 :=
  ⟨[45, 113, 22, 66, 183, 38, 176, 68, 1, 98, 124, 169, 251, 172, 50, 245, 200, 83, 15, 177, 144,
    60, 196, 219, 2, 37, 135, 23, 146, 26, 72, 129], rfl⟩

def testNonce : Buf 12 := ⟨[1, 2, 3, 4, 5, 6, 7, 8, 9, 10, 11, 12], rfl⟩

/-- `hi` under AES-256-GCM with `aesKey8` and `testNonce`, and its tag. -/
def hiCiphertext : Bytes :=
  [236, 84, 173, 165, 208, 33, 80, 249, 203, 104, 141, 34, 142, 75, 89, 190, 93, 163]

/-- OpenSSL on these inputs; the first key it makes is the client's own, and the others are
`testPrivkey 8`. -/
def testSSL (own : Buf 32) : OpenSSL where
  keygen n := some (if n = 0 then own else testPrivkey 8)
  publicKey k :=
    if k = testPrivkey 8 then pubkey8
    else if k = testPrivkey 16 then pubkey16
    else if k = testPrivkey 24 then pubkey24
    else Buf.zero 32
  derive k peer :=
    if k = testPrivkey 8 ∧ peer = pubkey24 ∨ k = testPrivkey 24 ∧ peer = pubkey8 then some shared8
    else none
  sha256 bs :=
    if bs = [97] then aHash
    else if bs = [120] then xHash
    else if bs = shared8.bytes then aesKey8
    else Buf.zero 32
  randBytes _ := some testNonce
  gcmEncrypt key nonce p :=
    if key = aesKey8 ∧ nonce = testNonce ∧ p = [104, 105] then some hiCiphertext else none
  gcmDecrypt key nonce ct tag :=
    if key = aesKey8 ∧ nonce = testNonce ∧ ct ++ tag = hiCiphertext then some [104, 105] else none

namespace RoundTripLemmas

theorem testSSL_publicKey {own k : Buf 32} :
    ((testSSL own).publicKey k = pubkey8 → k = testPrivkey 8) ∧
      ((testSSL own).publicKey k = pubkey24 → k = testPrivkey 24) := by
  have h8 : pubkey8 ≠ pubkey24 ∧ pubkey16 ≠ pubkey8 ∧ pubkey16 ≠ pubkey24 ∧
      Buf.zero 32 ≠ pubkey8 ∧ Buf.zero 32 ≠ pubkey24 := by decide
  obtain ⟨h824, h168, h1624, hz8, hz24⟩ := h8
  simp only [testSSL]
  constructor
  · intro h
    split at h
    · assumption
    · split at h
      · exact absurd h h168
      · split at h
        · exact absurd h.symm h824
        · exact absurd h hz8
  · intro h
    split at h
    · exact absurd h h824
    · split at h
      · exact absurd h h1624
      · split at h
        · assumption
        · exact absurd h hz24

theorem testSSL_agrees (own own' : Buf 32) : (testSSL own).Agrees (testSSL own') where
  x25519 a b k h := by
    obtain ⟨hab, hk⟩ := Option.ite_none_right_eq_some.mp h
    refine Option.ite_none_right_eq_some.mpr ⟨?_, hk⟩
    rcases hab with ⟨rfl, hb⟩ | ⟨rfl, hb⟩
    · exact .inr ⟨testSSL_publicKey.2 hb, rfl⟩
    · exact .inl ⟨testSSL_publicKey.1 hb, rfl⟩
  noZero a := by
    have hz : Buf.zero 32 ≠ pubkey24 ∧ Buf.zero 32 ≠ pubkey8 := by decide
    simp [testSSL, hz.1, hz.2]
  sha256 := rfl
  gcm key nonce p ct h := by
    obtain ⟨⟨rfl, rfl, rfl⟩, hct⟩ := Option.ite_none_right_eq_some.mp h
    cases hct
    exact ⟨rfl, by simp [testSSL]⟩

theorem fair_succeeds (ssl : OpenSSL) : (ClientEnv.fair ssl).Succeeds :=
  ⟨fun _ => rfl, fun _ => rfl⟩

/-- A login and a run behind it that can be computed to their end. -/
theorem login_reaches (env : ClientEnv) (w₀ : ChatSystem) (stdin name : Bytes) (authReq : Packet)
    (acts : List ChatAction) (P : ChatSystem → Prop) [DecidablePred P]
    (hok : (w₀.client.sqmpLogin env stdin).2 = .ok ())
    (hname : (w₀.client.sqmpLogin env stdin).1.session.name = (UInt8.ofNat name.length, name))
    (hreq : (w₀.client.sqmpLogin env stdin).1.trace.head? = some (.sent authReq true))
    (h : (run (ChatSystem.step env) { w₀ with client := (w₀.client.sqmpLogin env stdin).1 }
      acts).any (fun w => decide (P w)) = true) : ∃ w, LoggedIn env name authReq w ∧ P w := by
  obtain ⟨w, hr, hp⟩ := run_reaches _ _ acts P h
  exact ⟨w, ⟨w₀, stdin, _, acts, Prod.ext rfl hok, hname, hreq, hr⟩, hp⟩

theorem served_of_filterMap {σ : Server} {s : SessionId} {data : Bytes}
    (h : ∀ f ∈ σ.trace.filterMap (Event.authReqOf s), (readAuthReq data).toOption = some f) :
    ∀ f, .authReq s f ∈ σ.trace → readAuthReq data = .ok f := by
  intro f hf
  have hsome := h f (List.mem_filterMap.mpr ⟨_, hf, Event.authReqOf_eq_some.mpr rfl⟩)
  cases hr : readAuthReq data with
  | ok f' =>
    rw [hr] at hsome
    rw [Option.some.inj hsome]
  | error e =>
    rw [hr] at hsome
    cases hsome

end RoundTripLemmas

/-- `abc` and `xyz`, with the passwords `a` and `x`. -/
def abcXyzUsers : Bytes := accountLine [97, 98, 99] aHash ++ accountLine [120, 121, 122] xHash

/-- The AUTH_REQs of `abc` and `xyz`. -/
def abcKeyReq : Packet :=
  ⟨1, .authReq ⟨3, (Buf.zero 32).store [97, 98, 99], aHash, 32, pubkey16.bytes⟩⟩

def xyzKeyReq : Packet :=
  ⟨2, .authReq ⟨3, (Buf.zero 32).store [120, 121, 122], xHash, 32, pubkey24.bytes⟩⟩

/-- Both log in. -/
def abcXyzLogins : List Action :=
  greet 0 ++ greet 1 ++ [.received 0 abcKeyReq.bytes, .received 1 xyzKeyReq.bytes] ++
    List.replicate 4 .worker

/-- A client behind the HELLO_ACK for this session. -/
def greeted (env : ClientEnv) (sid : UInt32) : ChatSystem :=
  { ChatSystem.init with
    client := Client.init.receive env (Packet.mk sid (.helloAck ⟨1, 65535⟩)).bytes }

def loggedInOk (sid : UInt32) : List ChatAction := [.push ⟨sid, .authResp ⟨0, sid⟩⟩, .receive]

/-- `abc` writes `hi` to `xyz`. -/
def hiCall : SendCall := ⟨0, [120, 121, 122], [104, 105], by decide⟩

theorem round_trip_hi : ∃ (σ : Server) (a : Party (.fair (testSSL (testPrivkey 16))) σ)
    (b : Party (.fair (testSSL (testPrivkey 24))) σ), a.name = [97, 98, 99] ∧
      b.name = [120, 121, 122] ∧ RoundTrip (.fair abcXyzUsers) a b hiCall := by
  obtain ⟨wa, hwa, hsta, hpc, hkey, henc⟩ := login_reaches (.fair (testSSL (testPrivkey 16)))
    (greeted (.fair (testSSL (testPrivkey 16))) 1) [97, 98, 99, 10, 97, 10] [97, 98, 99] abcKeyReq
    (loggedInOk 1 ++ [.sendChat [120, 121, 122] [104, 105], .answer (some pubkey24), .receive,
      .wake])
    (fun w => w.client.session.state = .connEstablished ∧ w.pc = .fetched hiCall ∧
      w.client.session.keyFetchResult = pubkey24 ∧
      (Client.encryptChat (testSSL (testPrivkey 16)) w.client.trace.length pubkey24
        [104, 105]).isSome = true)
    rfl (by decide +kernel) rfl (by decide +kernel)
  obtain ⟨wb, hwb, hstb⟩ := login_reaches (.fair (testSSL (testPrivkey 24)))
    (greeted (.fair (testSSL (testPrivkey 24))) 2) [120, 121, 122, 10, 120, 10] [120, 121, 122]
    xyzKeyReq (loggedInOk 2) (fun w => w.client.session.state = .connEstablished)
    rfl (by decide +kernel) rfl (by decide +kernel)
  obtain ⟨σ, hrun, hreq, hst, hu, hsingle, hlive, e, he, hpub, howner⟩ :=
    atomicRun_reaches (.fair abcXyzUsers) abcXyzLogins (fun σ =>
      ((∀ f ∈ σ.trace.filterMap (Event.authReqOf 0),
        (readAuthReq abcKeyReq.bytes).toOption = some f) ∧
      ∀ f ∈ σ.trace.filterMap (Event.authReqOf 1),
        (readAuthReq xyzKeyReq.bytes).toOption = some f) ∧
      ((σ.session 0).state = .connEstablished ∧ (σ.session 1).state = .connEstablished) ∧
      ((σ.stream 0).userData = some 0 ∧ (σ.stream 1).userData = some 1) ∧
      ((σ.conn (σ.stream 0).conn).streams = [0] ∧ (σ.conn (σ.stream 1).conn).streams = [1]) ∧
      (σ.isLive 0 = true ∧ σ.isLive 1 = true) ∧
      ∃ e ∈ σ.registry.used, e.publicKey = pubkey24 ∧ ownerOf σ.trace e.key = some 1)
      (by decide +kernel)
  let a : Party (.fair (testSSL (testPrivkey 16))) σ :=
    ⟨[97, 98, 99], abcKeyReq, wa, 0, 0, hwa, hsta, served_of_filterMap hreq.1, hst.1, hu.1,
      hsingle.1, hlive.1⟩
  let b : Party (.fair (testSSL (testPrivkey 24))) σ :=
    ⟨[120, 121, 122], xyzKeyReq, wb, 1, 1, hwb, hstb, served_of_filterMap hreq.2, hst.2, hu.2,
      hsingle.2, hlive.2⟩
  refine ⟨σ, a, b, rfl, rfl, ?_⟩
  exact chat_round_trip (testSSL_agrees _ _) (fair_succeeds _) (fair_succeeds _) (fun _ => rfl)
    (fun _ => rfl) (by decide +kernel) hrun a b he howner hpc rfl (hkey.trans hpub.symm)
    (hpub ▸ henc) (by decide)

end SquimpChat
