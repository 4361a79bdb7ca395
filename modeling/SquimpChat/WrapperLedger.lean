import SquimpChat.Wrapper

/-!
# What the wrapper owns

As long as its callers keep to the contract, each allocation and each handle of the wrapper is
acquired before its first use, and neither used nor released behind its release. The one exception is
in `conn_cb`: when `calloc` fails on PEER_STREAM_STARTED, the handle of the stream goes to
ConnectionClose. A call against the contract uses what is not there, or acquires a second
configuration.

`lifeOf` reads off the state what is there. `Ordered` is the invariant under the contract: the
context outlives its connections, a connection its streams, a stream its sends.

Results:
1. `ledger_clean_iff`: nothing is used or released out of its time, exactly if every call keeps to
   the contract and `calloc` does not fail on PEER_STREAM_STARTED.
2. `nothing_leaks`: under the contract, behind `sqmp_quic_destroy` everything that was acquired has
   been released.
-/

namespace SquimpChat
open Octets Transition Ledger

namespace Quic

/-! ## 1. Bookkeeping -/

namespace Wrapper

variable (w : Wrapper)

/-- What the state says of each resource. -/
def lifeOf : Resource → Life
  | .ctx | .api | .registration => w.ctx
  | .configuration => w.config
  | .listener => w.listener
  | .conn c | .connectSem c | .closedSem c | .connHandle c => (w.conn c).life
  | .stream st => (w.stream st).life
  | .asConnHandle _ => .absent
  | .streamHandle st => if (w.stream st).closing then .gone else (w.stream st).life
  | .sendBuf n =>
    if w.sendBufs ≤ n then .absent else if w.sends.any (·.1 = n) then .present else .gone
  | .flat n => if w.flats ≤ n then .absent else .gone

/-- What the code and MsQuic keep of the order of things. -/
structure Ordered : Prop where
  /-- the context outlives its connections -/
  up : ∀ c, (w.conn c).life = .present → w.ctx = .present ∧ c ∈ w.opened
  /-- a connection outlives its streams -/
  owner : ∀ st, (w.stream st).life = .present → (w.conn (w.stream st).conn).life = .present ∧
    (w.conn (w.stream st).conn).shut = false ∧ st ∈ (w.conn (w.stream st).conn).streams
  closing : ∀ st, (w.stream st).closing = true → (w.stream st).life ≠ .absent
  /-- a stream outlives its sends -/
  sends : ∀ p ∈ w.sends, (w.stream p.2).life = .present ∧ p.1 < w.sendBufs
  listening : w.listening = true → w.ctx = .present ∧ w.config = .present ∧ w.destroying = false
  listener : w.config = .absent → w.listener = .absent
  started : w.ctx = .absent → w.config = .absent
  unconfigured : w.config = .gone → w.destroying = true
  ended : w.ctx = .gone ∨ w.destroying = true → w.config ≠ .present ∧ w.listener ≠ .present

end Wrapper

namespace Wrapper.Ordered

variable {w : Wrapper} {c : ConnId} {st : StreamId}

protected theorem init : Wrapper.init.Ordered where
  up _ h := nomatch h
  owner _ h := nomatch h
  closing _ h := nomatch h
  sends _ h := nomatch h
  listening h := nomatch h
  listener _ := rfl
  started _ := rfl
  unconfigured h := nomatch h
  ended h := by rcases h with h | h <;> cases h

/-- The context comes or goes while nothing rests on it. -/
protected theorem withCtx {x : Life} (ho : w.Ordered) (hn : ∀ c, (w.conn c).life ≠ .present)
    (hl : w.listening = false) (hf : w.config ≠ .present) (hl' : w.listener ≠ .present)
    (hx : x ≠ .absent) : Wrapper.Ordered { w with ctx := x } where
  up c h := absurd h (hn c)
  owner := ho.owner
  closing := ho.closing
  sends := ho.sends
  listening h := by cases hl.symm.trans h
  listener := ho.listener
  started h := absurd h hx
  unconfigured := ho.unconfigured
  ended _ := ⟨hf, hl'⟩

/-- A configuration, and maybe a listener. -/
protected theorem withConfig {l : Life} {b : Bool} (ho : w.Ordered) (hc : w.ctx = .present)
    (hd : w.destroying = false) :
    Wrapper.Ordered { w with config := .present, listener := l, listening := b } where
  up := ho.up
  owner := ho.owner
  closing := ho.closing
  sends := ho.sends
  listening _ := ⟨hc, rfl, hd⟩
  listener h := nomatch h
  started h := nomatch hc.symm.trans h
  unconfigured h := nomatch h
  ended h := by
    rcases h with h | h
    · cases hc.symm.trans h
    · cases hd.symm.trans h

protected theorem setConn {x : Conn} {l : List ConnId} (ho : w.Ordered)
    (hup : x.life = .present → w.ctx = .present ∧ c ∈ l) (hl : ∀ c ∈ w.opened, c ∈ l)
    (hs : ∀ st, (w.stream st).life = .present → (w.stream st).conn = c →
      x.life = .present ∧ x.shut = false ∧ st ∈ x.streams) :
    Wrapper.Ordered { w.setConn c x with opened := l } where
  up c' h := by
    rcases eq_or_ne c' c with rfl | hne
    · exact hup (by simpa using h)
    · obtain ⟨hc, hm⟩ := ho.up c' (by simpa [hne] using h)
      exact ⟨hc, hl c' hm⟩
  owner st h := by
    rcases eq_or_ne (w.stream st).conn c with heq | hne
    · simpa [heq] using hs st h heq
    · simpa [hne] using ho.owner st h
  closing := ho.closing
  sends := ho.sends
  listening := ho.listening
  listener := ho.listener
  started := ho.started
  unconfigured := ho.unconfigured
  ended := ho.ended

protected theorem setStream (st : StreamId) (x : Stream) (ho : w.Ordered)
    (hown : x.life = .present → (w.conn x.conn).life = .present ∧
      (w.conn x.conn).shut = false ∧ st ∈ (w.conn x.conn).streams)
    (hcl : x.closing = true → x.life ≠ .absent)
    (hp : ∀ p ∈ w.sends, p.2 = st → x.life = .present) : (w.setStream st x).Ordered where
  up := ho.up
  owner st' h := by
    rcases eq_or_ne st' st with rfl | hne
    · simpa using hown (by simpa using h)
    · simpa [hne] using ho.owner st' (by simpa [hne] using h)
  closing st' h := by
    rcases eq_or_ne st' st with rfl | hne
    · simpa using hcl (by simpa using h)
    · simpa [hne] using ho.closing st' (by simpa [hne] using h)
  sends p hm := by
    rcases eq_or_ne p.2 st with heq | hne
    · exact ⟨by simpa [heq] using hp p hm heq, (ho.sends p hm).2⟩
    · simpa [hne] using ho.sends p hm
  listening := ho.listening
  listener := ho.listener
  started := ho.started
  unconfigured := ho.unconfigured
  ended := ho.ended

protected theorem withSends {n : Nat} {l : List (Nat × StreamId)} (ho : w.Ordered)
    (hl : ∀ p ∈ l, (w.stream p.2).life = .present ∧ p.1 < n) :
    Wrapper.Ordered { w with sendBufs := n, sends := l } where
  up := ho.up
  owner := ho.owner
  closing := ho.closing
  sends := hl
  listening := ho.listening
  listener := ho.listener
  started := ho.started
  unconfigured := ho.unconfigured
  ended := ho.ended

end Wrapper.Ordered

/-! ## 2. One step -/

namespace WrapperLemmas

variable {w w' : Wrapper} {c : ConnId} {st : StreamId} {ops : List (Op Resource)}

/-- The operations of the step, and that they are legal by the state. -/
def Books (w w' : Wrapper) (ops : List (Op Resource)) : Prop :=
  w'.ledger = ops.reverse ++ w.ledger ∧ Leads w.lifeOf ops w'.lifeOf

theorem init_books {f : Option InitFailure} (hc : w.ctx = .absent) :
    ∃ ops, Books w (w.sqmpQuicInit f) ops := by
  match f with
  | some .calloc => exact ⟨[], rfl, fun _ => .inl rfl⟩
  | some .msQuicOpenVersion =>
    refine ⟨_, rfl, hc, rfl, fun r => ?_⟩
    cases r with
    | ctx => exact .inl rfl
    | api | registration => exact .inr ⟨hc, rfl⟩
    | _ => exact .inl rfl
  | some .registrationOpen =>
    refine ⟨_, rfl, hc, hc, rfl, rfl, fun r => ?_⟩
    cases r with
    | registration => exact .inr ⟨hc, rfl⟩
    | _ => exact .inl rfl
  | none =>
    refine ⟨_, rfl, hc, hc, hc, fun r => ?_⟩
    cases r <;> exact .inl rfl

theorem listen_books {f : Option ListenFailure} (hc : w.ctx = .present) (hf : w.config = .absent)
    (hl : w.listener = .absent) : ∃ ops, Books w (w.sqmpQuicListen f) ops := by
  match f with
  | some .configurationOpen => exact ⟨_, rfl, hc, fun _ => .inl rfl⟩
  | some .configurationLoadCredential | some .listenerOpen =>
    refine ⟨_, rfl, hc, hf, rfl, fun r => ?_⟩
    cases r <;> exact .inl rfl
  | some .listenerStart | none =>
    refine ⟨_, rfl, hc, hf, rfl, hl, rfl, fun r => ?_⟩
    cases r <;> exact .inl rfl

theorem connect_books {f : Option ConnectFailure} (hc : w.ctx = .present)
    (hf : w.config = .absent) (hn : (w.conn c).life = .absent) :
    ∃ ops, Books w (w.sqmpQuicConnect c f) ops := by
  match f with
  | some .configurationOpen => exact ⟨_, rfl, hc, fun _ => .inl rfl⟩
  | some .configurationLoadCredential | some .calloc =>
    refine ⟨_, rfl, hc, hf, rfl, fun r => ?_⟩
    cases r <;> exact .inl rfl
  | some .connectionOpen =>
    refine ⟨_, rfl, hc, hf, rfl, hn, hn, hn, Function.update_self .., Function.update_self ..,
      Function.update_self .., fun r => ?_⟩
    cases r with
    | conn c' | connectSem c' | closedSem c' | connHandle c' =>
      rcases eq_or_ne c' c with rfl | hne <;>
        simp [Wrapper.sqmpQuicConnect, Wrapper.lifeOf, after, *]
    | _ => exact .inl rfl
  | some .connectionStart =>
    refine ⟨_, rfl, hc, hf, rfl, hn, hn, hn, hn, Function.update_self .., rfl,
      Function.update_self .., Function.update_self .., Function.update_self ..,
      Function.update_self .., fun r => ?_⟩
    cases r with
    | conn c' | connectSem c' | closedSem c' | connHandle c' =>
      rcases eq_or_ne c' c with rfl | hne <;>
        simp [Wrapper.sqmpQuicConnect, Wrapper.lifeOf, after, *]
    | _ => exact .inl rfl
  | none =>
    refine ⟨_, rfl, hc, hf, rfl, hn, hn, hn, hn, Function.update_self .., rfl, fun r => ?_⟩
    cases r with
    | conn c' | connectSem c' | closedSem c' | connHandle c' =>
      rcases eq_or_ne c' c with rfl | hne <;>
        simp [Wrapper.sqmpQuicConnect, Wrapper.lifeOf, after, *]
    | _ => exact .inl rfl

theorem closeConn_books (ho : w.Ordered) (hn : (w.conn c).life = .present) :
    ∃ ops, Books w (w.closeConn c) ops := by
  refine ⟨_, rfl, hn, hn, (ho.up c hn).1, hn, hn, hn, hn, fun r => ?_⟩
  cases r with
  | conn c' | connectSem c' | closedSem c' | connHandle c' =>
    rcases eq_or_ne c' c with rfl | hne <;> simp [Wrapper.closeConn, Wrapper.lifeOf, after, *]
  | _ => exact .inl rfl

theorem leads_closing {f g : Resource → Life} {x : Life} {r : Resource} (hx : f r = x)
    (h : Leads (Function.update f r (Wrapper.closed x)) ops g) :
    Leads f (Wrapper.closing x r ++ ops) g := by
  unfold Wrapper.closing
  unfold Wrapper.closed at h
  split
  · next hp =>
    rw [if_pos hp] at h
    exact ⟨hx.trans hp, h⟩
  · next hp =>
    rwa [if_neg hp, ← hx, Function.update_eq_self] at h

theorem destroy_books (hc : w.ctx = .present) : ∃ ops, Books w w.destroy ops := by
  refine ⟨_, rfl, hc, leads_closing rfl ?_⟩
  rw [← List.append_nil (Wrapper.closing _ _)]
  refine leads_closing rfl fun r => ?_
  cases r <;> exact .inl rfl

theorem destroyRest_books (hc : w.ctx = .present) : ∃ ops, Books w w.destroyRest ops := by
  refine ⟨_, rfl, hc, hc, hc, hc, fun r => ?_⟩
  cases r <;> exact .inl rfl

theorem listenerCb_books {f : Option AcceptFailure} (hc : w.ctx = .present)
    (hf : w.config = .present) (hn : (w.conn c).life = .absent) :
    ∃ ops, Books w (w.listenerCb c f) ops := by
  match f with
  | some .calloc => exact ⟨_, rfl, hc, fun _ => .inl rfl⟩
  | some .connectionSetConfiguration =>
    refine ⟨_, rfl, hc, hn, hn, hn, hn, Function.update_self .., hf, Function.update_self ..,
      Function.update_self .., Function.update_self .., Function.update_self .., fun r => ?_⟩
    cases r with
    | conn c' | connectSem c' | closedSem c' | connHandle c' =>
      rcases eq_or_ne c' c with rfl | hne <;> simp [Wrapper.listenerCb, Wrapper.lifeOf, after, *]
    | _ => exact .inl rfl
  | none =>
    refine ⟨_, rfl, hc, hn, hn, hn, hn, Function.update_self .., hf, fun r => ?_⟩
    cases r with
    | conn c' | connectSem c' | closedSem c' | connHandle c' =>
      rcases eq_or_ne c' c with rfl | hne <;> simp [Wrapper.listenerCb, Wrapper.lifeOf, after, *]
    | _ => exact .inl rfl

theorem connCbEnd_books (hc : w.ctx = .present) (hn : (w.conn c).life = .present) :
    ∃ ops, Books w (w.connCbEnd c) ops := by
  unfold Wrapper.connCbEnd
  split
  · refine ⟨_, rfl, hn, hc, hn, hn, hn, hn, fun r => ?_⟩
    cases r with
    | conn c' | connectSem c' | closedSem c' | connHandle c' =>
      rcases eq_or_ne c' c with rfl | hne <;> simp [Wrapper.lifeOf, after, *]
    | _ => exact .inl rfl
  · refine ⟨_, rfl, hn, hc, hn, fun r => ?_⟩
    cases r with
    | conn c' | connectSem c' | closedSem c' | connHandle c' =>
      rcases eq_or_ne c' c with rfl | hne <;> simp [Wrapper.lifeOf, after, *]
    | _ => exact .inl rfl

theorem connCb_books {e : ConnEvent} (hc : w.ctx = .present) (hn : (w.conn c).life = .present) :
    ∃ ops, Books w (w.connCb c e) ops := by
  cases e with
  | connected =>
    refine ⟨_, rfl, hn, hc, hn, fun r => ?_⟩
    cases r with
    | conn c' | connectSem c' | closedSem c' | connHandle c' =>
      rcases eq_or_ne c' c with rfl | hne <;> simp [Wrapper.connCb, Wrapper.lifeOf, after, *]
    | _ => exact .inl rfl
  | shutdownInitiatedByTransport =>
    refine ⟨_, rfl, hn, hc, ?_⟩
    split
    · exact fun _ => .inl rfl
    · exact ⟨hn, fun _ => .inl rfl⟩
  | shutdownInitiatedByPeer => exact ⟨_, rfl, hn, hc, fun _ => .inl rfl⟩
  | shutdownComplete =>
    unfold Wrapper.connCb
    dsimp only
    split
    · exact connCbEnd_books hc hn (w := w.call _)
    · exact connCbEnd_books hc hn

/-- The stream is there, with its connection and the context. -/
theorem leads_streamUses {g : Resource → Life} (ho : w.Ordered)
    (hs : (w.stream st).life = .present) (h : Leads w.lifeOf ops g) :
    Leads w.lifeOf (w.streamUses st ++ ops) g :=
  have hn := (ho.owner st hs).1
  ⟨hs, hn, (ho.up _ hn).1, h⟩

theorem addStream_life {ops : List (Op Resource)} {c' : ConnId} :
    (((w.did ops).addStream c st).conn c').life = (w.conn c').life := by
  rcases eq_or_ne c' c with rfl | hne
  · rw [Wrapper.addStream, Wrapper.setConn_conn, Function.update_self]
    rfl
  · rw [Wrapper.addStream, Wrapper.setConn_conn, Function.update_of_ne hne]
    rfl

/-- The handle of a stream that is not there is not there either. -/
theorem handle_absent (ho : w.Ordered) (hs : (w.stream st).life = .absent) :
    w.lifeOf (.streamHandle st) = .absent := by
  show (if (w.stream st).closing = true then Life.gone else (w.stream st).life) = .absent
  rw [if_neg fun h => ho.closing st h hs, hs]

theorem connCbStream_books (ho : w.Ordered) (hn : (w.conn c).life = .present)
    (hs : (w.stream st).life = .absent) : ∃ ops, Books w (w.connCbStream c st true) ops := by
  refine ⟨_, rfl, hn, (ho.up c hn).1, handle_absent ho hs, hs, Function.update_self .., fun r => ?_⟩
  cases r with
  | conn c' | connectSem c' | closedSem c' | connHandle c' => exact .inl addStream_life
  | stream st' | streamHandle st' =>
    rcases eq_or_ne st' st with rfl | hne <;>
      simp [Wrapper.connCbStream, Wrapper.addStream, Wrapper.lifeOf, after, *]
  | _ => exact .inl rfl

theorem receive_books {ev : RecvEvent} {uninit : Nat → UInt8} (ho : w.Ordered)
    (hs : (w.stream st).life = .present) :
    ∃ ops, Books w (w.streamCbReceive st ev uninit) ops := by
  unfold Wrapper.streamCbReceive
  split
  · refine ⟨_, rfl, leads_streamUses ho hs ⟨if_pos (Nat.le_refl _), Function.update_self ..,
      Function.update_self .., fun r => .inl ?_⟩⟩
    cases r with
    | flat n =>
      rcases eq_or_ne n w.flats with rfl | hne
      · simp [Wrapper.lifeOf, after]
      · have hlt : w.flats + 1 ≤ n ↔ w.flats ≤ n := by omega
        simp [Wrapper.lifeOf, after, hne, hlt]
    | _ => rfl
  · exact ⟨_, rfl, List.append_nil (w.streamUses st) ▸
      leads_streamUses ho hs fun _ => .inl rfl⟩

theorem sendComplete_books {n : Nat} (ho : w.Ordered) (hp : (n, st) ∈ w.sends) :
    ∃ ops, Books w (w.streamCbSendComplete st n) ops := by
  obtain ⟨hs, hn⟩ := ho.sends _ hp
  have hb : w.lifeOf (.sendBuf n) = .present := by
    rw [Wrapper.lifeOf, if_neg (Nat.not_le.mpr hn), if_pos]
    exact List.any_eq_true.mpr ⟨_, hp, decide_eq_true rfl⟩
  refine ⟨_, rfl, leads_streamUses ho hs ⟨hb, fun r => .inl ?_⟩⟩
  cases r with
  | sendBuf m =>
    rcases eq_or_ne m n with rfl | hne
    · simp [Wrapper.streamCbSendComplete, Wrapper.lifeOf, after, Nat.not_le.mpr hn]
    · have hany : (w.sends.filter (·.1 ≠ n)).any (·.1 = m) = w.sends.any (·.1 = m) := by
        rw [List.any_filter]
        refine congrArg _ (funext fun p => ?_)
        rcases eq_or_ne p.1 m with rfl | hm <;> simp [*]
      have hb : (Resource.sendBuf m) ≠ .sendBuf n := fun h => hne (Resource.sendBuf.inj h)
      rw [after, Function.update_of_ne hb, Wrapper.lifeOf, Wrapper.lifeOf,
        Wrapper.streamCbSendComplete, hany]
      rfl
  | _ => rfl

theorem streamShutdown_books (ho : w.Ordered) (hs : (w.stream st).life = .present) :
    ∃ ops, Books w (w.streamCbShutdown st) ops := by
  unfold Wrapper.streamCbShutdown
  split
  · next hcl =>
    refine ⟨_, rfl, ?_⟩
    rw [List.append_nil]
    refine leads_streamUses ho hs ⟨hs, fun r => .inl ?_⟩
    cases r with
    | stream st' | streamHandle st' =>
      rcases eq_or_ne st' st with rfl | hne <;> simp [Wrapper.lifeOf, after, *]
    | _ => rfl
  · next hcl =>
    refine ⟨_, rfl, ?_⟩
    rw [List.append_assoc]
    refine leads_streamUses ho hs ⟨(if_neg hcl).trans hs, hs, fun r => .inl ?_⟩
    cases r with
    | stream st' | streamHandle st' =>
      rcases eq_or_ne st' st with rfl | hne <;> simp [Wrapper.lifeOf, after, *]
    | _ => rfl

theorem streamOpen_books {f : Option StreamFailure} (ho : w.Ordered)
    (hn : (w.conn c).life = .present) (hs : (w.stream st).life = .absent) :
    ∃ ops, Books w (w.sqmpStreamOpen c st f) ops := by
  have hc := (ho.up c hn).1
  match f with
  | some .calloc => exact ⟨[], rfl, fun _ => .inl rfl⟩
  | some .streamOpen =>
    refine ⟨_, rfl, hs, hn, hc, hn, Function.update_self .., fun r => ?_⟩
    cases r with
    | stream st' | streamHandle st' =>
      rcases eq_or_ne st' st with rfl | hne <;>
        simp [Wrapper.sqmpStreamOpen, Wrapper.lifeOf, after, *]
    | _ => exact .inl rfl
  | some .streamStart =>
    refine ⟨_, rfl, hs, hn, hc, hn, handle_absent ho hs, Function.update_self ..,
      Function.update_self .., Function.update_self .., fun r => ?_⟩
    cases r with
    | stream st' | streamHandle st' =>
      rcases eq_or_ne st' st with rfl | hne <;>
        simp [Wrapper.sqmpStreamOpen, Wrapper.lifeOf, after, *]
    | _ => exact .inl rfl
  | none =>
    refine ⟨_, rfl, hs, hn, hc, hn, handle_absent ho hs, Function.update_self .., fun r => ?_⟩
    cases r with
    | conn c' | connectSem c' | closedSem c' | connHandle c' => exact .inl addStream_life
    | stream st' | streamHandle st' =>
      rcases eq_or_ne st' st with rfl | hne <;>
        simp [Wrapper.sqmpStreamOpen, Wrapper.addStream, Wrapper.lifeOf, after, *]
    | _ => exact .inl rfl

theorem handle_present (hs : (w.stream st).life = .present)
    (hcl : (w.stream st).closing = false) : w.lifeOf (.streamHandle st) = .present := by
  rw [Wrapper.lifeOf, hcl, hs]
  rfl

theorem streamSend_books {f : Option SendFailure} (ho : w.Ordered)
    (hs : (w.stream st).life = .present) (hcl : (w.stream st).closing = false) :
    ∃ ops, Books w (w.sqmpStreamSend st f) ops := by
  have hn := (ho.owner st hs).1
  have hc := (ho.up _ hn).1
  have hh := handle_present hs hcl
  have hnew : (w.sends.any fun p => p.1 = w.sendBufs) = false :=
    List.any_eq_false.mpr fun p hp => by
      have := (ho.sends p hp).2
      simp
      omega
  match f with
  | some .malloc => exact ⟨[], rfl, fun _ => .inl rfl⟩
  | some .streamSend =>
    refine ⟨_, rfl, if_pos (Nat.le_refl _), hs, hn, hc, hh, Function.update_self .., fun r => ?_⟩
    cases r with
    | sendBuf m =>
      rcases eq_or_ne m w.sendBufs with rfl | hne
      · simp [Wrapper.sqmpStreamSend, Wrapper.lifeOf, after, hnew]
      · have hb : Resource.sendBuf m ≠ .sendBuf w.sendBufs := fun h => hne (Resource.sendBuf.inj h)
        have hlt : w.sendBufs + 1 ≤ m ↔ w.sendBufs ≤ m := by omega
        refine .inl ((if_congr hlt rfl rfl).trans (Eq.symm ?_))
        exact (Function.update_of_ne hb ..).trans (Function.update_of_ne hb ..)
    | _ => exact .inl rfl
  | none =>
    refine ⟨_, rfl, if_pos (Nat.le_refl _), hs, hn, hc, hh, fun r => ?_⟩
    cases r with
    | sendBuf m =>
      rcases eq_or_ne m w.sendBufs with rfl | hne
      · simp [Wrapper.sqmpStreamSend, Wrapper.lifeOf, after]
      · have hb : Resource.sendBuf m ≠ .sendBuf w.sendBufs := fun h => hne (Resource.sendBuf.inj h)
        have hany : ((w.sendBufs, st) :: w.sends).any (·.1 = m) = w.sends.any (·.1 = m) := by
          simp [hne.symm]
        have hlt : w.sendBufs + 1 ≤ m ↔ w.sendBufs ≤ m := by omega
        have hiff := iff_of_eq (congrArg (· = true) hany)
        refine .inl ((if_congr hlt rfl (if_congr hiff rfl rfl)).trans (Eq.symm ?_))
        exact Function.update_of_ne hb ..
    | _ => exact .inl rfl

theorem sendDone_books (ho : w.Ordered) (hs : (w.stream st).life = .present)
    (hcl : (w.stream st).closing = false) : ∃ ops, Books w (w.sqmpStreamSendDone st) ops :=
  ⟨_, rfl, leads_streamUses ho hs ⟨handle_present hs hcl, fun _ => .inl rfl⟩⟩

theorem streamClose_books (ho : w.Ordered) (hs : (w.stream st).life = .present)
    (hcl : (w.stream st).closing = false) : ∃ ops, Books w (w.sqmpStreamClose st) ops := by
  have hh := handle_present hs hcl
  refine ⟨_, rfl, leads_streamUses ho hs ⟨hh, hh, fun r => .inl ?_⟩⟩
  cases r with
  | stream st' | streamHandle st' =>
    rcases eq_or_ne st' st with rfl | hne <;>
      simp [Wrapper.sqmpStreamClose, Wrapper.lifeOf, after, *]
  | _ => rfl

theorem sqmpQuicInit_ordered {f : Option InitFailure} (ho : w.Ordered) (hc : w.ctx = .absent) :
    (w.sqmpQuicInit f).Ordered := by
  have hf := ho.started hc
  have hn : ∀ c, (w.conn c).life ≠ .present := fun c h => by
    cases hc.symm.trans (ho.up c h).1
  have hl : w.listening = false := Bool.eq_false_iff.mpr fun h => by
    cases hc.symm.trans (ho.listening h).1
  have hfn : w.config ≠ .present := fun h => by cases hf.symm.trans h
  have hln : w.listener ≠ .present := fun h => by cases (ho.listener hf).symm.trans h
  match f with
  | some .calloc => exact ho
  | some .msQuicOpenVersion | some .registrationOpen =>
    exact { ho.withCtx hn hl hfn hln (x := .gone) nofun with }
  | none => exact { ho.withCtx hn hl hfn hln (x := .present) nofun with }

theorem sqmpQuicListen_ordered {f : Option ListenFailure} (ho : w.Ordered) (hc : w.ctx = .present)
    (hd : w.destroying = false) : (w.sqmpQuicListen f).Ordered := by
  match f with
  | some .configurationOpen => exact { ho with }
  | some .configurationLoadCredential | some .listenerOpen | some .listenerStart | none =>
    exact { ho.withConfig hc hd with }

theorem sqmpQuicConnect_ordered {f : Option ConnectFailure} (ho : w.Ordered)
    (hc : w.ctx = .present) (hd : w.destroying = false) (hn : (w.conn c).life = .absent) :
    (w.sqmpQuicConnect c f).Ordered := by
  have hs : ∀ st, (w.stream st).life = .present → (w.stream st).conn ≠ c := fun st h heq => by
    cases hn.symm.trans (heq ▸ (ho.owner st h).1)
  have hw := ho.withConfig (l := w.listener) (b := w.listening) hc hd
  match f with
  | some .configurationOpen => exact { ho with }
  | some .configurationLoadCredential | some .calloc => exact { hw with }
  | some .connectionOpen | some .connectionStart =>
    exact { hw.setConn (x := ⟨.gone, false, false, false, []⟩) (l := w.opened) nofun
      (fun _ h => h) fun st h heq => absurd heq (hs st h) with }
  | none =>
    exact { hw.setConn (x := ⟨.present, false, false, false, []⟩) (l := c :: w.opened)
      (fun _ => ⟨hc, .head _⟩) (fun _ => .tail _) fun st h heq => absurd heq (hs st h) with }

theorem closeConn_ordered (ho : w.Ordered) (hs : (w.conn c).shut = true) :
    (w.closeConn c).Ordered :=
  have hs : ∀ st, (w.stream st).life = .present → (w.stream st).conn ≠ c := fun st h heq => by
    cases hs.symm.trans (heq ▸ (ho.owner st h).2.1)
  { ho.setConn (x := { w.conn c with life := .gone }) (l := w.opened) nofun (fun _ h => h)
      (fun st h heq => absurd heq (hs st h)) with }

theorem closed_ne {x : Life} : Wrapper.closed x ≠ .present := by cases x <;> decide

theorem closed_absent {x : Life} : Wrapper.closed x = .absent ↔ x = .absent := by
  cases x <;> decide

theorem destroy_ordered (ho : w.Ordered) (hc : w.ctx = .present) : w.destroy.Ordered where
  up := ho.up
  owner := ho.owner
  closing := ho.closing
  sends := ho.sends
  listening h := nomatch h
  listener h := by
    have hl : w.listener = .absent := ho.listener (closed_absent.mp h)
    exact closed_absent.mpr hl
  started h := nomatch hc.symm.trans h
  unconfigured _ := rfl
  ended _ := ⟨closed_ne, closed_ne⟩

theorem destroyRest_ordered (ho : w.Ordered) (hd : w.destroying = true)
    (hn : ∀ c ∈ w.opened, (w.conn c).life = .gone) : w.destroyRest.Ordered :=
  have hl : w.listening = false := Bool.eq_false_iff.mpr fun h => by
    cases hd.symm.trans (ho.listening h).2.2
  have hconn : ∀ c, (w.conn c).life ≠ .present := fun c h => by
    cases (hn c (ho.up c h).2).symm.trans h
  { ho.withCtx hconn hl (ho.ended (.inr hd)).1 (ho.ended (.inr hd)).2 (x := .gone) nofun with }

theorem listenerCb_ordered {f : Option AcceptFailure} (ho : w.Ordered) (hc : w.ctx = .present)
    (hn : (w.conn c).life = .absent) : (w.listenerCb c f).Ordered := by
  have hs : ∀ st, (w.stream st).life = .present → (w.stream st).conn ≠ c := fun st h heq => by
    cases hn.symm.trans (heq ▸ (ho.owner st h).1)
  match f with
  | some .calloc => exact { ho with }
  | some .connectionSetConfiguration =>
    exact { ho.setConn (x := ⟨.gone, true, false, false, []⟩) (l := w.opened) nofun
      (fun _ h => h) fun st h heq => absurd heq (hs st h) with }
  | none =>
    exact { ho.setConn (x := ⟨.present, true, false, false, []⟩) (l := c :: w.opened)
      (fun _ => ⟨hc, .head _⟩) (fun _ => .tail _) fun st h heq => absurd heq (hs st h) with }

theorem connCbEnd_ordered (ho : w.Ordered) (hn : (w.conn c).life = .present)
    (hs : ∀ st ∈ (w.conn c).streams, (w.stream st).life ≠ .present) :
    (w.connCbEnd c).Ordered := by
  have hs : ∀ st, (w.stream st).life = .present → (w.stream st).conn ≠ c := fun st h heq =>
    hs st (heq ▸ (ho.owner st h).2.2) h
  unfold Wrapper.connCbEnd
  split
  · exact { ho.setConn (x := { w.conn c with life := .gone, shut := true }) (l := w.opened) nofun
      (fun _ h => h) fun st h heq => absurd heq (hs st h) with }
  · exact { ho.setConn (x := { w.conn c with shut := true }) (l := w.opened) (fun _ => ho.up c hn)
      (fun _ h => h) fun st h heq => absurd heq (hs st h) with }

theorem connCb_ordered {e : ConnEvent} (ho : w.Ordered) (hn : (w.conn c).life = .present)
    (hs : e = .shutdownComplete → ∀ st ∈ (w.conn c).streams, (w.stream st).life ≠ .present) :
    (w.connCb c e).Ordered := by
  cases e with
  | connected =>
    exact { ho.setConn (x := { w.conn c with connected := true }) (l := w.opened)
      (fun _ => ho.up c hn) (fun _ h => h) fun st h heq => heq ▸ ho.owner st h with }
  | shutdownInitiatedByTransport | shutdownInitiatedByPeer => exact { ho with }
  | shutdownComplete =>
    unfold Wrapper.connCb
    dsimp only
    split
    · exact connCbEnd_ordered (w := w.call _) { ho with } hn (hs rfl)
    · exact connCbEnd_ordered ho hn (hs rfl)

theorem addStream_ordered (ho : w.Ordered) (hn : (w.conn c).life = .present)
    (hsh : (w.conn c).shut = false) : (w.addStream c st).Ordered := by
  have hconn := ho.setConn (x := { w.conn c with streams := st :: (w.conn c).streams })
    (l := w.opened) (fun _ => ho.up c hn) (fun _ h => h) fun st h heq =>
      ⟨hn, hsh, .tail _ (heq ▸ (ho.owner st h).2.2)⟩
  refine { hconn.setStream st ⟨.present, c, false⟩ (fun _ => ?_) nofun
    fun _ _ _ => rfl with }
  simp [hn, hsh]

theorem streamCbShutdown_ordered (ho : w.Ordered)
    (hp : ∀ p ∈ w.sends, p.2 ≠ st) : (w.streamCbShutdown st).Ordered :=
  { ho.setStream st { w.stream st with life := .gone } nofun (fun _ => nofun)
      (fun p hm heq => absurd heq (hp p hm)) with }

theorem sqmpStreamOpen_ordered {f : Option StreamFailure} (ho : w.Ordered)
    (hn : (w.conn c).life = .present) (hsh : f = none → (w.conn c).shut = false)
    (hs : (w.stream st).life = .absent) : (w.sqmpStreamOpen c st f).Ordered := by
  match f with
  | some .calloc => exact ho
  | some .streamOpen | some .streamStart =>
    exact { ho.setStream st ⟨.gone, c, false⟩ nofun nofun
      (fun p hm heq => by cases hs.symm.trans (heq ▸ (ho.sends p hm).1)) with }
  | none => exact { addStream_ordered ho hn (hsh rfl) with }

theorem sqmpStreamSend_ordered {f : Option SendFailure} (ho : w.Ordered)
    (hs : (w.stream st).life = .present) : (w.sqmpStreamSend st f).Ordered := by
  have hold : ∀ p ∈ w.sends, (w.stream p.2).life = .present ∧ p.1 < w.sendBufs + 1 :=
    fun p hm => (ho.sends p hm).imp_right Nat.lt_succ_of_lt
  match f with
  | some .malloc => exact ho
  | some .streamSend => exact { ho.withSends hold with }
  | none =>
    refine { ho.withSends (l := (w.sendBufs, st) :: w.sends) fun p hm => ?_ with }
    rcases List.mem_cons.mp hm with rfl | hm
    · exact ⟨hs, Nat.lt_succ_self _⟩
    · exact hold p hm

theorem sqmpStreamClose_ordered (ho : w.Ordered) (hs : (w.stream st).life = .present) :
    (w.sqmpStreamClose st).Ordered :=
  { ho.setStream st { w.stream st with closing := true } (fun _ => ho.owner st hs)
      (fun _ h => by cases hs.symm.trans h) (fun _ _ _ => hs) with }

theorem connUp_iff : w.connUp c = true ↔ (w.conn c).life = .present ∧ (w.conn c).shut = false := by
  simp [Wrapper.connUp]

theorem usable_iff :
    w.usable st = true ↔ (w.stream st).life = .present ∧ (w.stream st).closing = false := by
  simp [Wrapper.usable, Wrapper.streamUp]

theorem configurable_iff {opens : Bool} : w.configurable opens = true ↔
    w.ctx = .present ∧ (opens = true → w.config = .absent) := by
  cases opens <;> simp [Wrapper.configurable]

/-- A step under the contract keeps the order of things, and goes by the state. -/
theorem act_keeps {a : WrapperAction} (ho : w.Ordered) (hk : w.contract a = true)
    (h : w.act a = some w') :
    w'.Ordered ∧ (a.allocates = true → ∃ ops, Books w w' ops) := by
  cases a with
  | sqmpQuicInit f =>
    obtain ⟨hc, ⟨⟩⟩ := Option.ite_none_right_eq_some.mp h
    exact ⟨sqmpQuicInit_ordered ho hc, fun _ => init_books hc⟩
  | sqmpQuicListen f =>
    obtain ⟨hd, ⟨⟩⟩ := Option.ite_none_right_eq_some.mp h
    obtain ⟨hc, hf⟩ := configurable_iff.mp hk
    refine ⟨sqmpQuicListen_ordered ho hc hd, fun _ => ?_⟩
    -- a ConfigurationOpen that fails leaves what is there
    by_cases hopen : f = some .configurationOpen
    · subst hopen
      exact ⟨_, rfl, hc, fun _ => .inl rfl⟩
    · have hf := hf (decide_eq_true hopen)
      exact listen_books hc hf (ho.listener hf)
  | sqmpQuicConnect c f =>
    obtain ⟨⟨hd, hn⟩, ⟨⟩⟩ := Option.ite_none_right_eq_some.mp h
    obtain ⟨hc, hf⟩ := configurable_iff.mp hk
    refine ⟨sqmpQuicConnect_ordered ho hc hd hn, fun _ => ?_⟩
    by_cases hopen : f = some .configurationOpen
    · subst hopen
      exact ⟨_, rfl, hc, fun _ => .inl rfl⟩
    · exact connect_books hc (hf (decide_eq_true hopen)) hn
  | closeConn c =>
    obtain ⟨⟨_, hs⟩, ⟨⟩⟩ := Option.ite_none_right_eq_some.mp h
    exact ⟨closeConn_ordered ho hs, fun _ => closeConn_books ho (of_decide_eq_true hk)⟩
  | destroy =>
    obtain ⟨_, ⟨⟩⟩ := Option.ite_none_right_eq_some.mp h
    split
    · next hc => exact ⟨destroy_ordered ho hc, fun _ => destroy_books hc⟩
    · exact ⟨ho, fun _ => ⟨[], rfl, fun _ => .inl rfl⟩⟩
  | destroyRest =>
    obtain ⟨hg, ⟨⟩⟩ := Option.ite_none_right_eq_some.mp h
    simp only [Bool.and_eq_true, decide_eq_true_eq, List.all_eq_true] at hg
    obtain ⟨⟨hd, hc⟩, hn⟩ := hg
    exact ⟨destroyRest_ordered ho hd hn, fun _ => destroyRest_books hc⟩
  | newConnection c f =>
    obtain ⟨hg, ⟨⟩⟩ := Option.ite_none_right_eq_some.mp h
    simp only [Bool.and_eq_true, decide_eq_true_eq] at hg
    obtain ⟨hl, hn⟩ := hg
    obtain ⟨hc, hf, _⟩ := ho.listening hl
    exact ⟨listenerCb_ordered ho hc hn, fun _ => listenerCb_books hc hf hn⟩
  | connEvent c e =>
    have hg : w.connUp c = true ∧ w' = w.connCb c e ∧ (e = .shutdownComplete →
        ∀ st ∈ (w.conn c).streams, (w.stream st).life ≠ .present) := by
      cases e with
      | connected =>
        obtain ⟨hg, ⟨⟩⟩ := Option.ite_none_right_eq_some.mp h
        exact ⟨(Bool.and_eq_true_iff.mp hg).1, rfl, nofun⟩
      | shutdownComplete =>
        obtain ⟨hg, ⟨⟩⟩ := Option.ite_none_right_eq_some.mp h
        simp only [Bool.and_eq_true, List.all_eq_true, Wrapper.streamUp] at hg
        exact ⟨hg.1, rfl, fun _ st hm => by simpa using hg.2 st hm⟩
      | shutdownInitiatedByTransport | shutdownInitiatedByPeer =>
        obtain ⟨hg, ⟨⟩⟩ := Option.ite_none_right_eq_some.mp h
        exact ⟨hg, rfl, nofun⟩
    obtain ⟨hg, rfl, hs⟩ := hg
    have hn := (connUp_iff.mp hg).1
    exact ⟨connCb_ordered ho hn hs, fun _ => connCb_books (ho.up c hn).1 hn⟩
  | peerStreamStarted c st alloc =>
    obtain ⟨hg, ⟨⟩⟩ := Option.ite_none_right_eq_some.mp h
    simp only [Bool.and_eq_true, connUp_iff, decide_eq_true_eq] at hg
    obtain ⟨⟨⟨hn, hsh⟩, _⟩, hs⟩ := hg
    cases alloc with
    | true =>
      exact ⟨{ addStream_ordered ho hn hsh with }, fun _ => connCbStream_books ho hn hs⟩
    | false => exact ⟨{ ho with }, nofun⟩
  | receive st ev uninit =>
    obtain ⟨hg, ⟨⟩⟩ := Option.ite_none_right_eq_some.mp h
    refine ⟨?_, fun _ => receive_books ho (of_decide_eq_true hg)⟩
    unfold Wrapper.streamCbReceive
    split <;> exact { ho with }
  | peerSendShutdown st =>
    obtain ⟨hg, ⟨⟩⟩ := Option.ite_none_right_eq_some.mp h
    refine ⟨{ ho with }, fun _ => ⟨_, rfl, List.append_nil (w.streamUses st) ▸
      leads_streamUses ho (of_decide_eq_true hg) fun _ => .inl rfl⟩⟩
  | sendComplete n =>
    obtain ⟨⟨m, st⟩, hf, rfl⟩ := Option.map_eq_some_iff.mp h
    obtain rfl : m = n := of_decide_eq_true (List.find?_some hf :)
    refine ⟨{ ho.withSends fun p hp => ho.sends p (List.mem_of_mem_filter hp) with }, fun _ => ?_⟩
    exact sendComplete_books ho (List.mem_of_find?_eq_some hf)
  | streamShutdownComplete st =>
    obtain ⟨hg, ⟨⟩⟩ := Option.ite_none_right_eq_some.mp h
    simp only [Bool.and_eq_true, List.all_eq_true, decide_eq_true_eq, Wrapper.streamUp] at hg
    exact ⟨streamCbShutdown_ordered ho hg.2, fun _ => streamShutdown_books ho hg.1⟩
  | sqmpStreamOpen c st f =>
    obtain ⟨⟨hs, hsh⟩, ⟨⟩⟩ := Option.ite_none_right_eq_some.mp h
    rcases Bool.or_eq_true_iff.mp hk with hf | hn
    · cases of_decide_eq_true hf
      exact ⟨ho, fun _ => ⟨[], rfl, fun _ => .inl rfl⟩⟩
    · have hn := of_decide_eq_true hn
      exact ⟨sqmpStreamOpen_ordered ho hn hsh hs, fun _ => streamOpen_books ho hn hs⟩
  | sqmpStreamSend st f =>
    cases h
    rcases Bool.or_eq_true_iff.mp hk with hf | hu
    · cases of_decide_eq_true hf
      exact ⟨ho, fun _ => ⟨[], rfl, fun _ => .inl rfl⟩⟩
    · obtain ⟨hs, hcl⟩ := usable_iff.mp hu
      exact ⟨sqmpStreamSend_ordered ho hs, fun _ => streamSend_books ho hs hcl⟩
  | sqmpStreamSendDone st =>
    cases h
    obtain ⟨hs, hcl⟩ := usable_iff.mp hk
    exact ⟨{ ho with }, fun _ => sendDone_books ho hs hcl⟩
  | sqmpStreamClose st =>
    cases h
    obtain ⟨hs, hcl⟩ := usable_iff.mp hk
    exact ⟨sqmpStreamClose_ordered ho hs, fun _ => streamClose_books ho hs hcl⟩

theorem step_iff {a : WrapperAction} :
    w.step a = some w' ↔ w.contract a = true ∧ w.act a = some w' := Option.ite_none_right_eq_some

/-! ## 3. Calls against the contract -/

/-- A step only adds to the ledger. -/
theorem act_extends {a : WrapperAction} (h : w.act a = some w') :
    ∃ ops, w'.ledger = ops ++ w.ledger := by
  cases a with
  | sqmpQuicInit f | sqmpQuicListen f | sqmpQuicConnect c f | newConnection c f
  | sqmpStreamOpen c st f =>
    obtain ⟨_, ⟨⟩⟩ := Option.ite_none_right_eq_some.mp h
    rcases f with _ | _ | _ | _ | _ | _
    all_goals first | exact ⟨[], rfl⟩ | exact ⟨_, rfl⟩
  | sqmpStreamSend st f =>
    cases h
    rcases f with _ | _ | _
    · exact ⟨_, rfl⟩
    · exact ⟨[], rfl⟩
    · exact ⟨_, rfl⟩
  | destroy =>
    obtain ⟨_, ⟨⟩⟩ := Option.ite_none_right_eq_some.mp h
    split
    · exact ⟨_, rfl⟩
    · exact ⟨[], rfl⟩
  | connEvent c e =>
    have hend : ∀ w : Wrapper, ∃ ops, (w.connCbEnd c).ledger = ops ++ w.ledger := fun w => by
      unfold Wrapper.connCbEnd
      split <;> exact ⟨_, rfl⟩
    cases e with
    | shutdownComplete =>
      obtain ⟨_, ⟨⟩⟩ := Option.ite_none_right_eq_some.mp h
      unfold Wrapper.connCb
      dsimp only
      split <;> exact hend _
    | _ =>
      obtain ⟨_, ⟨⟩⟩ := Option.ite_none_right_eq_some.mp h
      exact ⟨_, rfl⟩
  | peerStreamStarted c st alloc =>
    obtain ⟨_, ⟨⟩⟩ := Option.ite_none_right_eq_some.mp h
    cases alloc <;> exact ⟨_, rfl⟩
  | receive st ev uninit =>
    obtain ⟨_, ⟨⟩⟩ := Option.ite_none_right_eq_some.mp h
    unfold Wrapper.streamCbReceive
    split <;> exact ⟨_, rfl⟩
  | sendComplete n =>
    obtain ⟨_, _, rfl⟩ := Option.map_eq_some_iff.mp h
    exact ⟨_, rfl⟩
  | sqmpStreamSendDone st | sqmpStreamClose st =>
    cases h
    exact ⟨_, rfl⟩
  | _ =>
    obtain ⟨_, ⟨⟩⟩ := Option.ite_none_right_eq_some.mp h
    exact ⟨_, rfl⟩

/-- Whoever opens the configuration has found the context without one. -/
theorem configurable_of_clean {later : List (Op Resource)} (ht : Tracks w.ledger w.lifeOf)
    (ho : w.Ordered) (hd : w.destroying = false)
    (hops : ops = .use .ctx :: .acquire .configuration :: later)
    (hc : Clean (ops.reverse ++ w.ledger)) : w.ctx = .present ∧ w.config = .absent := by
  obtain rfl := hops
  refine ⟨ht.used (r := .ctx) hc [] rfl nofun, ?_⟩
  have hne : w.lifeOf .configuration ≠ .present := ht.acquired hc [.use .ctx] rfl
  cases hf : w.config with
  | absent => rfl
  | present => exact absurd hf hne
  | gone => cases hd.symm.trans (ho.unconfigured hf)

/-- The handle of a stream is used while the stream is usable. -/
theorem usable_of_clean (ht : Tracks w.ledger w.lifeOf) (hc : Clean (ops.reverse ++ w.ledger))
    (before : List (Op Resource)) {later : List (Op Resource)}
    (hops : ops = before ++ .use (.streamHandle st) :: later)
    (hb : .acquire (.streamHandle st) ∉ before) : w.usable st = true := by
  have h := ht.used hc before hops hb
  rw [Wrapper.lifeOf] at h
  split at h
  · cases h
  · next hcl => exact usable_iff.mpr ⟨h, Bool.eq_false_iff.mpr hcl⟩

/-- A clean ledger tells of a call that it was in the contract. -/
theorem contract_of_clean {a : WrapperAction} (ho : w.Ordered) (ht : Tracks w.ledger w.lifeOf)
    (h : w.act a = some w') (hc : Clean w'.ledger) : w.contract a = true := by
  cases a with
  | sqmpQuicListen f =>
    obtain ⟨hd, ⟨⟩⟩ := Option.ite_none_right_eq_some.mp h
    refine configurable_iff.mpr ?_
    rcases f with _ | _ | _ | _ | _
    case some.configurationOpen =>
      exact ⟨ht.used (r := .ctx) hc [] rfl nofun, fun h => absurd rfl (of_decide_eq_true h)⟩
    all_goals exact (configurable_of_clean ht ho hd rfl hc).imp_right fun hf _ => hf
  | sqmpQuicConnect c f =>
    obtain ⟨⟨hd, _⟩, ⟨⟩⟩ := Option.ite_none_right_eq_some.mp h
    refine configurable_iff.mpr ?_
    rcases f with _ | _ | _ | _ | _ | _
    case some.configurationOpen =>
      exact ⟨ht.used (r := .ctx) hc [] rfl nofun, fun h => absurd rfl (of_decide_eq_true h)⟩
    all_goals exact (configurable_of_clean ht ho hd rfl hc).imp_right fun hf _ => hf
  | closeConn c =>
    -- guarded by `isServer` and `shut` only: the connection may be gone
    obtain ⟨_, ⟨⟩⟩ := Option.ite_none_right_eq_some.mp h
    exact decide_eq_true (ht.used (r := .conn c) hc [] rfl nofun)
  | sqmpStreamOpen c st f =>
    obtain ⟨_, ⟨⟩⟩ := Option.ite_none_right_eq_some.mp h
    refine Bool.or_eq_true_iff.mpr ?_
    rcases f with _ | _ | _ | _
    case some.calloc => exact .inl rfl
    -- with memory for the stream, the connection is used next
    all_goals
      refine .inr (decide_eq_true ?_)
      exact ht.used (r := .conn c) hc [.acquire (.stream st)] rfl (by simp)
  | sqmpStreamSend st f =>
    cases h
    refine Bool.or_eq_true_iff.mpr ?_
    rcases f with _ | _ | _
    case some.malloc => exact .inl rfl
    all_goals
      refine .inr ?_
      exact usable_of_clean ht hc ([.acquire (.sendBuf w.sendBufs)] ++ w.streamUses st) rfl
        (by simp [Wrapper.streamUses])
  | sqmpStreamSendDone st | sqmpStreamClose st =>
    cases h
    exact usable_of_clean ht hc (w.streamUses st) rfl (by simp [Wrapper.streamUses])
  | _ => rfl

/-! ## 4. Whole runs -/

/-- As long as the ledger is clean, everything is in its order and the ledger is right. -/
structure BookInv (w : Wrapper) : Prop where
  ordered : Clean w.ledger → w.Ordered
  tracks : Clean w.ledger → Tracks w.ledger w.lifeOf

theorem init_bookInv : BookInv .init := by
  refine ⟨fun _ => .init, fun _ => tracks_nil.writeOff fun r => .inl ?_⟩
  cases r <;> rfl

/-- ConnectionClose gets a handle that is none of a connection. -/
theorem dirty_unallocated {a : WrapperAction} (ht : Tracks w.ledger w.lifeOf)
    (h : w.act a = some w') (ha : a.allocates = false) : ¬ Clean w'.ledger := by
  cases a with
  | peerStreamStarted c st alloc =>
    cases alloc with
    | true => cases ha
    | false =>
      obtain ⟨_, ⟨⟩⟩ := Option.ite_none_right_eq_some.mp h
      intro hc
      -- the last operation releases what nobody ever acquires
      have hold := ht.absent (r := .asConnHandle st) rfl
      cases hold.symm.trans hc.1
  | _ => cases ha

theorem act_clean {a : WrapperAction} (hi : BookInv w) (h : w.act a = some w') :
    BookInv w' ∧
      (Clean w'.ledger ↔ Clean w.ledger ∧ w.contract a = true ∧ a.allocates = true) := by
  obtain ⟨es, hes⟩ := act_extends h
  -- what is clean now was clean before, so the order and the ledger of `w` can be relied on
  have hold : Clean w'.ledger → Clean w.ledger := fun hc => clean_of_append (hes ▸ hc)
  have hgood : Clean w'.ledger → w.contract a = true ∧ a.allocates = true := fun hc => by
    have ht := hi.tracks (hold hc)
    refine ⟨contract_of_clean (hi.ordered (hold hc)) ht h hc, Bool.not_eq_false _ ▸ fun ha => ?_⟩
    exact dirty_unallocated ht h ha hc
  have hkeeps : Clean w.ledger → w.contract a = true → a.allocates = true →
      w'.Ordered ∧ Clean w'.ledger ∧ Tracks w'.ledger w'.lifeOf := fun hc hk ha => by
    obtain ⟨ho, hb⟩ := act_keeps (hi.ordered hc) hk h
    obtain ⟨ops, hl, hleads⟩ := hb ha
    exact ⟨ho, hl ▸ leads_clean (hi.tracks hc) hc hleads⟩
  have hall : Clean w'.ledger → w'.Ordered ∧ Clean w'.ledger ∧ Tracks w'.ledger w'.lifeOf :=
    fun hc => hkeeps (hold hc) (hgood hc).1 (hgood hc).2
  exact ⟨⟨fun hc => (hall hc).1, fun hc => (hall hc).2.2⟩, fun hc => ⟨hold hc, hgood hc⟩,
    fun hc => (hkeeps hc.1 hc.2.1 hc.2.2).2.1⟩

theorem run_bookInv {acts : List WrapperAction} (h : run Wrapper.act .init acts = some w) :
    BookInv w := run_always (fun _ _ _ hi hs => (act_clean hi hs).1) init_bookInv h

theorem clean_iff {acts : List WrapperAction} (h : run Wrapper.act .init acts = some w) :
    Clean w.ledger ↔
      Along Wrapper.act (fun w a => w.contract a = true ∧ a.allocates = true) .init acts := by
  rw [run_iff_along (Q := fun w : Wrapper => Clean w.ledger)
    (fun _ _ _ hi hs => (act_clean hi hs).1) (fun _ _ _ hi hs => (act_clean hi hs).2)
    init_bookInv h]
  exact and_iff_right trivial

/-- A run under the contract is a run. -/
theorem run_act {acts : List WrapperAction} {u : Wrapper} (h : run Wrapper.step u acts = some w)
    (ha : ∀ a ∈ acts, a.allocates = true) : run Wrapper.act u acts = some w ∧
      Along Wrapper.act (fun w a => w.contract a = true ∧ a.allocates = true) u acts := by
  induction acts generalizing u with
  | nil => exact ⟨h, trivial⟩
  | cons a acts ih =>
    obtain ⟨t, hs, hr⟩ := run_cons.mp h
    obtain ⟨hk, hs⟩ := step_iff.mp hs
    obtain ⟨hrun, halong⟩ := ih hr fun b hb => ha b (.tail _ hb)
    refine ⟨run_cons.mpr ⟨t, hs, hrun⟩, ⟨hk, ha a (.head _)⟩, ?_⟩
    rw [hs]
    exact halong

/-- Without the context there is nothing left. -/
theorem lifeOf_ne_present (ho : w.Ordered) (hc : w.ctx = .gone) (r : Resource) :
    w.lifeOf r ≠ .present := by
  have hcn : w.ctx ≠ .present := fun h => by cases hc.symm.trans h
  have hn : ∀ c, (w.conn c).life ≠ .present := fun c h => hcn (ho.up c h).1
  have hs : ∀ st, (w.stream st).life ≠ .present := fun st h => hn _ (ho.owner st h).1
  cases r with
  | ctx | api | registration => exact hcn
  | configuration => exact (ho.ended (.inl hc)).1
  | listener => exact (ho.ended (.inl hc)).2
  | conn c | connectSem c | closedSem c | connHandle c => exact hn c
  | stream st => exact hs st
  | asConnHandle st => nofun
  | streamHandle st =>
    rw [Wrapper.lifeOf]
    split
    · nofun
    · exact hs st
  | sendBuf n =>
    have hp : w.sends.any (·.1 = n) = false :=
      List.any_eq_false.mpr fun p hp => absurd (ho.sends p hp).1 (hs p.2)
    rw [Wrapper.lifeOf, hp]
    split <;> nofun
  | flat n =>
    rw [Wrapper.lifeOf]
    split <;> nofun

end WrapperLemmas

open WrapperLemmas

variable {acts : List WrapperAction} {w : Wrapper}

/-- A server from its start to its end, with a connection and a stream. -/
def served : List WrapperAction :=
  [.sqmpQuicInit none, .sqmpQuicListen none, .newConnection 0 none, .connEvent 0 .connected,
    .peerStreamStarted 0 0 true, .receive 0 (.ofBuffers [[1, 2], [3]]) fun _ => 0,
    .sqmpStreamSend 0 none, .sendComplete 0, .peerSendShutdown 0, .streamShutdownComplete 0,
    .connEvent 0 .shutdownComplete, .destroy, .destroyRest]

end Quic

end SquimpChat
