import SquimpChat.RegistryMap
import SquimpChat.KeyFetch
import SquimpChat.AccessControl
import Mathlib.Data.List.Induction

/-!
# Key lookup

A KEY_REQ names a user by a length byte that nothing checks and a field of 32 bytes. The
lookup compares the field only with entries of that length, and no entry is longer than
the field, so the length of every comparison and copy is one that the registry has let in.

`CurrentKey` says which key a name has behind a list of calls of the registry: that of a
successful add that no remove of the name follows.

Results:
1. `currentKey_iff`: the map that the registry refines holds the current keys.
2. `key_lookup`: the answer to a KEY_REQ, what it compares and copies, and what a client makes
   of it.
-/

namespace SquimpChat
open Octets Simulation StepLemmas RegistryLemmas AccessControlLemmas

/-! ## 1. Current keys -/

/-- The call is an add of the name with this key, and it succeeds on `r`. -/
def RegistryOp.Registers (r : Registry) (k : Key) (key : Buf 32) : RegistryOp → Prop
  | .add uname ulen _ stream pubkey => countedName ulen uname = k ∧ pubkey = key ∧
      (sqmpRegistryAdd r uname ulen stream pubkey).isSome = true
  | _ => False

/-- The call removes the name. -/
def RegistryOp.Removes (k : Key) : RegistryOp → Prop
  | .remove name => name.1 = k
  | _ => False

/-- Behind the calls `key` is the key of the latest registration of the name, and that has not
been removed. -/
def CurrentKey (ops : List RegistryOp) (k : Key) (key : Buf 32) : Prop :=
  ∃ pre op post, ops = pre ++ op :: post ∧ op.Registers (after registryStep .empty pre) k key ∧
    ∀ op' ∈ post, ¬ op'.Removes k

namespace KeyLookupLemmas

variable {r : Registry} {m : UserMap} {k : Key} {key : Buf 32} {ops : List RegistryOp}

theorem currentKey_concat (op : RegistryOp) : CurrentKey (ops ++ [op]) k key ↔
    op.Registers (after registryStep .empty ops) k key ∨
      CurrentKey ops k key ∧ ¬ op.Removes k := by
  constructor
  · rintro ⟨pre, op', post, hops, hreg, hpost⟩
    rcases List.eq_nil_or_concat post with rfl | ⟨post, last, rfl⟩
    · obtain ⟨rfl, hop⟩ := List.append_inj' hops rfl
      cases hop
      exact .inl hreg
    · rw [List.concat_eq_append, ← List.cons_append, ← List.append_assoc] at hops
      obtain ⟨rfl, hop⟩ := List.append_inj' hops rfl
      cases hop
      rw [List.concat_eq_append] at hpost
      exact .inr ⟨⟨pre, op', post, rfl, hreg, fun o ho => hpost o (List.mem_append_left _ ho)⟩,
        hpost op (List.mem_append_right _ List.mem_cons_self)⟩
  · rintro (hreg | ⟨⟨pre, op', post, rfl, hreg, hpost⟩, hop⟩)
    · exact ⟨ops, op, [], rfl, hreg, nofun⟩
    · refine ⟨pre, op', post ++ [op], by rw [List.append_assoc]; rfl, hreg, fun o ho => ?_⟩
      rcases List.mem_append.mp ho with ho | ho
      · exact hpost o ho
      · exact List.mem_singleton.mp ho ▸ hop

/-- Counted names that have their length are equal as soon as their bytes are. -/
theorem key_ext {k k' : Key} (hk : k.2.length = k.1.toNat) (hk' : k'.2.length = k'.1.toNat)
    (h : k.2 = k'.2) : k = k' :=
  Prod.ext (UInt8.toNat_inj.mp (by rw [← hk, ← hk', h])) h

/-- What one call does to the key of a name. -/
theorem mapStep_key (h : Models r m) (hk : k.2.length = k.1.toNat) (op : RegistryOp) :
    ((mapStep m op).1.get k.2).map (·.2) = some key ↔
      op.Registers r k key ∨ (m.get k.2).map (·.2) = some key ∧ ¬ op.Removes k := by
  cases op with
  | add uname ulen fits st pk =>
    have hiff : (sqmpRegistryAdd r uname ulen st pk).isSome = true ↔
        (m.add (uname.first ulen.toNat) (st, pk)).isSome = true := h.add_isSome_iff fits st pk
    have hname : countedName ulen uname = k ↔ k.2 = uname.first ulen.toNat :=
      ⟨fun he => he ▸ rfl, fun he => key_ext (Buf.length_first fits) hk he.symm⟩
    simp only [mapStep, RegistryOp.Registers, RegistryOp.Removes, hiff, hname, not_false_eq_true,
      and_true]
    cases hm : m.add (uname.first ulen.toNat) (st, pk) with
    | none => simp
    | some m' =>
      dsimp only
      rw [CappedMap.get_add hm]
      split
      · next heq =>
        have hnone : m.get (uname.first ulen.toNat) = none :=
          (CappedMap.add_isSome_iff.mp (by rw [hm]; rfl)).1
        simp [heq, hnone]
      · next hne => simp [hne]
  | remove name =>
    have hname : name.1 = k ↔ k.2 = name.1.2 :=
      ⟨fun he => he ▸ rfl, fun he => key_ext name.2 hk he.symm⟩
    simp only [mapStep, RegistryOp.Registers, RegistryOp.Removes, hname, CappedMap.get_remove,
      false_or]
    split
    · next heq => simp [heq]
    · next hne => simp [hne]
  | find name => simp [mapStep, RegistryOp.Registers, RegistryOp.Removes]
  | getPubkey name => simp [mapStep, RegistryOp.Registers, RegistryOp.Removes]

end KeyLookupLemmas
open KeyLookupLemmas

/-- The map that the array refines holds the current keys. -/
theorem currentKey_iff {ops : List RegistryOp} {k : Key} {key : Buf 32}
    (hk : k.2.length = k.1.toNat) :
    ((after mapStep .empty ops).get k.2).map (·.2) = some key ↔ CurrentKey ops k key := by
  induction ops using List.reverseRecOn with
  | nil =>
    refine ⟨fun h => by simp [after] at h, ?_⟩
    rintro ⟨pre, op, post, hops, _⟩
    exact absurd hops (by simp)
  | append_singleton ops op ih =>
    rw [after_concat, mapStep_key (registry_simulates.after_rel .init ops) hk, ih,
      currentKey_concat]

/-- A name that is longer than the field has no key. -/
theorem CurrentKey.fits {ops : List RegistryOp} {k : Key} {key : Buf 32}
    (h : CurrentKey ops k key) : k.1.toNat ≤ 32 := by
  obtain ⟨pre, op, post, _, hreg, _⟩ := h
  cases op with
  | add uname ulen fits st pk =>
    rw [← hreg.1]
    exact fits
  | _ => exact hreg.elim

/-! ## 2. The handler -/

/-- A complete KEY_REQ with this length byte and this name field. -/
structure IsKeyReq (data : Bytes) (n : UInt8) (field : Buf 32) : Prop where
  complete : pktFixedLen + msgFixedLen .keyReq ≤ data.length
  type : data[1]? = some MsgType.keyReq.code
  usernameLen : data[12]? = some n
  username : field.bytes = (data.drop 13).take 32

/-- The message is a KEY_RESP with the requested name and this key, or the ERROR that there is
no such user. -/
def AnswersKey (n : UInt8) (field : Buf 32) (msg : Msg) : Option (Buf 32) → Prop
  | some key => ∃ m, msg = .keyResp m ∧ m.usernameLen = n ∧
      m.username.first n.toNat = field.first n.toNat ∧ m.pubkeyLen = 32 ∧ m.publicKey = key.bytes
  | none => ∃ m, msg = .error m ∧ m.errorCode = ErrorCode.userNotFound.code

namespace IsKeyReq

variable {data : Bytes} {n : UInt8} {field : Buf 32}

theorem dispatch_eq (h : IsKeyReq data n field) :
    dispatch serverHandles data = .ok (some .keyReq) := by
  have hc := h.complete
  simp only [pktFixedLen, msgFixedLen] at hc
  have htype : Pkt.msgType data = .ok MsgType.keyReq.code := by rw [Pkt.msgType, readU8, h.type]
  rw [dispatch, if_neg (by rw [pktFixedLen]; omega), htype, ok_bind, MsgType.ofCode_code]
  rfl

theorem len_eq (h : IsKeyReq data n field) : Pkt.keyReqUsernameLen data = .ok n := by
  rw [Pkt.keyReqUsernameLen, readU8, h.usernameLen]

theorem sessionId_isOk (h : IsKeyReq data n field) : ∃ sid, Pkt.sessionId data = .ok sid := by
  have hc := h.complete
  simp only [pktFixedLen, msgFixedLen] at hc
  exact readU32_isOk (by omega)

theorem name_eq (h : IsKeyReq data n field) {k : Nat} (hk : k ≤ 32) :
    Pkt.keyReqUsername data k = .ok (field.first k) := by
  have hc := h.complete
  simp only [pktFixedLen, msgFixedLen] at hc
  rw [Pkt.keyReqUsername, readAt_of_le (by omega), Buf.first, h.username, List.take_take,
    Nat.min_eq_left hk]

end IsKeyReq

namespace KeyLookupLemmas

variable {r : Registry} {n : UInt8}

/-- Where no entry has the length, the name is not read. -/
theorem findEntry_unread {uname : Except OutOfRange Bytes} {es : List RegistryEntry}
    (h : ∀ e ∈ es, e.inUse = true → e.usernameLen ≠ n) : findEntry uname n es = .ok none := by
  induction es with
  | nil => rfl
  | cons e es ih =>
    have hskip : (e.inUse && e.usernameLen == n) = false := by
      cases hu : e.inUse with
      | false => rfl
      | true => simpa using h e List.mem_cons_self hu
    rw [findEntry, hskip]
    exact ih fun e' he' => h e' (List.mem_cons_of_mem _ he')

theorem mem_used {e : RegistryEntry} (he : e ∈ r.slots) (hu : e.inUse = true) : e ∈ r.used :=
  List.mem_filter.mpr ⟨he, hu⟩

/-- The lookup answers with the current key, however the bytes of the name are read as long as
a name that fits its field is read from there. -/
theorem getPubkey_current {ops : List RegistryOp} {field : Buf 32}
    {uname : Except OutOfRange Bytes}
    (hread : n.toNat ≤ 32 → uname = .ok (field.first n.toNat)) :
    ∃ found, sqmpRegistryGetPubkey (after registryStep .empty ops) uname n = .ok found ∧
      ∀ key, found = some key ↔ CurrentKey ops (countedName n field) key := by
  have hm : Models (after registryStep .empty ops) (after mapStep .empty ops) :=
    registry_simulates.after_rel .init ops
  rcases Nat.lt_or_ge 32 n.toNat with hlong | hfits
  · have hnone : findEntry uname n (after registryStep .empty ops).slots = .ok none := by
      refine findEntry_unread fun e he hu hn => ?_
      have := hm.fits e (mem_used he hu)
      rw [hn] at this
      omega
    refine ⟨none, by rw [sqmpRegistryGetPubkey, hnone]; rfl, fun key => ⟨nofun, fun h => ?_⟩⟩
    exact absurd h.fits (Nat.not_le.mpr hlong)
  · have hk : (countedName n field).2.length = (countedName n field).1.toNat :=
      Buf.length_first hfits
    obtain ⟨o, ho, hget⟩ := hm.findEntry_eq hk
    refine ⟨o.map (·.publicKey), ?_, fun key => ?_⟩
    · rw [sqmpRegistryGetPubkey, hread hfits]
      exact congrArg (· >>= _) ho
    · rw [← currentKey_iff hk, hget, Option.map_map]
      rfl

end KeyLookupLemmas

/-- A complete KEY_REQ of an established session is answered by one packet on its stream: the
current key of exactly the requested name, or USER_NOT_FOUND when it has none. The lookup
compares entries with names that fit only and copies no more than a name field; it reads the
name as well from the 32 bytes of the field alone. A client keeps the key it is given. -/
theorem key_lookup (env : Env) (hmalloc : ∀ n, env.malloc n = true) (ops : List RegistryOp)
    (σ : Server) (hreg : σ.registry = after registryStep .empty ops) (st : StreamId)
    (s : SessionId) (hs : (σ.stream st).userData = some s)
    (hst : (σ.session s).state = .connEstablished) (data : Bytes) (n : UInt8) (field : Buf 32)
    (hdata : IsKeyReq data n field) :
    ∃ found p ok es,
      (∀ key, found = some key ↔ CurrentKey ops (countedName n field) key) ∧
      onStreamRecv env σ st data = .ok (σ.append (.sent st p (σ.isLive st) ok :: es)) ∧
      sentIn es = [] ∧
      AnswersKey n field p.msg found ∧
      (∀ e ∈ σ.registry.used, e.usernameLen = n → n.toNat ≤ 32) ∧
      (∀ dest k, .copied dest k ∈ es → k ≤ 32) ∧
      sqmpRegistryGetPubkey σ.registry (readAt field.bytes 0 n.toNat) n = .ok found ∧
      ∀ cenv c key, found = some key →
        (Client.receive cenv c p.bytes).session.keyFetchResult = key := by
  obtain ⟨found, hfound, hcur⟩ := getPubkey_current fun h => hdata.name_eq h
  have hfield : n.toNat ≤ 32 → readAt field.bytes 0 n.toNat = .ok (field.first n.toNat) := by
    intro hn
    rw [readAt_of_le (by rw [field.length_eq]; omega), List.drop_zero]
    rfl
  obtain ⟨found', hfound', hcur'⟩ := getPubkey_current hfield
  have heq : found' = found := Option.ext fun key => (hcur' key).trans (hcur key).symm
  rw [heq, ← hreg] at hfound'
  rw [← hreg] at hfound
  have hcompared : ∀ e ∈ σ.registry.used, e.usernameLen = n → n.toNat ≤ 32 := by
    intro e he hn
    rw [hreg] at he
    exact hn ▸ (registry_simulates.after_rel .init ops).fits e he
  have hrecv : onStreamRecv env σ st data = sqmpProcessKeyReq env σ st s data := by
    rw [onStreamRecv, hdata.dispatch_eq, ok_bind]
    show withSession σ st _ = _
    rw [withSession, hs]
  rw [hrecv]
  unfold sqmpProcessKeyReq
  dsimp only
  rw [if_neg (by rw [Server.append_session, hst]; exact not_not.mpr rfl), hdata.len_eq, ok_bind,
    Server.append_registry, hfound, ok_bind]
  cases found with
  | none =>
    refine ⟨none, _, _, _, hcur, rfl, sentIn_touched, ⟨_, rfl, rfl⟩, hcompared, ?_, hfound',
      by simp⟩
    intro dest k hk
    cases (mem_touched.mp hk).2
  | some key =>
    have hn : n.toNat ≤ 32 := ((hcur key).mp rfl).fits
    obtain ⟨sid, hsid⟩ := hdata.sessionId_isOk
    dsimp only
    rw [if_pos (hmalloc _), hsid, ok_bind, hdata.name_eq hn, ok_bind]
    refine ⟨some key, ⟨sid, .keyResp (keyRespMsg n (field.first n.toNat) key)⟩, _,
      .copied .respUsername n.toNat :: σ.touched s, hcur, rfl, sentIn_touched, ?_, hcompared, ?_,
      hfound', ?_⟩
    · exact ⟨_, rfl, rfl, first_store_first _ _ _, rfl, rfl⟩
    · intro dest k hk
      rcases List.mem_cons.mp hk with hk | hk
      · cases hk
        exact hn
      · cases (mem_touched.mp hk).2
    · intro cenv c key' hkey
      cases hkey
      rw [KeyFetchLemmas.receive_keyResp]
      rfl

/-- A name of three bytes that is registered, removed and registered with another key. -/
def reregistered : List RegistryOp :=
  [.add ((Buf.zero 32).store [97, 98, 99]) 3 (by decide) (some 0) (keyOf 1),
    .remove ⟨(3, [97, 98, 99]), rfl⟩,
    .add ((Buf.zero 32).store [97, 98, 99]) 3 (by decide) (some 0) (keyOf 2)]

/-- An established session on stream 0 of a server behind these calls. -/
def lookupServer : Server :=
  { Server.init with
    registry := after registryStep .empty reregistered
    session := fun _ => { Session.fresh with state := .connEstablished }
    stream := fun _ => ⟨.live, 0, some 0⟩ }

theorem key_lookup_reregistered : ∃ p ok es,
    onStreamRecv (.fair none) lookupServer 0
      (Packet.mk 0 (.keyReq ⟨3, (Buf.zero 32).store [97, 98, 99]⟩)).bytes =
        .ok (lookupServer.append (.sent 0 p true ok :: es)) ∧
    AnswersKey 3 ((Buf.zero 32).store [97, 98, 99]) p.msg (some (keyOf 2)) := by
  obtain ⟨found, p, ok, es, hcur, hrecv, _, hans, _⟩ :=
    key_lookup (.fair none) (fun _ => rfl) reregistered lookupServer rfl 0 0 rfl rfl
      (Packet.mk 0 (.keyReq ⟨3, (Buf.zero 32).store [97, 98, 99]⟩)).bytes 3
      ((Buf.zero 32).store [97, 98, 99]) ⟨by decide, rfl, rfl, by decide⟩
  have hkey : found = some (keyOf 2) :=
    (hcur _).mpr ⟨reregistered.take 2, _, [], rfl, ⟨by decide, rfl, by decide⟩, nofun⟩
  rw [hkey] at hans
  exact ⟨p, ok, es, hrecv, hans⟩

end SquimpChat
