import SquimpChat.Logins

/-!
# Sessions and the registry

The worker, the BYE handler and `on_disconnected` each change a session's state and the
registry, and they find the entry by the session's name. `Agree` says that they never
get apart: the in-use entries are the names of the established sessions, one each. What keeps
it is that a session which waits in the auth queue is alive and in state AUTH, and
that nothing else but the worker takes a session out of the queue.

Results:
1. `agree_run`: `Agree` in every state of an atomic run in which no session sends an AUTH_REQ
   while its previous one is queued.
2. `sessions_registry`: established sessions and in-use entries are in bijection, and every
   iteration answers as it has acted.
-/

namespace SquimpChat
open Octets Transition AtomicLemmas

variable {env : Env} {σ σ' : Server} {a : Action} {acts : List Action}

/-- A live session in state CONN_ESTABLISHED. -/
def Established (σ : Server) (s : SessionId) : Prop :=
  σ.life s = .live ∧ (σ.session s).state = .connEstablished

/-- The name of slot `i`, when the slot is in use. -/
def Registry.keyAt (r : Registry) (i : Nat) : Option Key :=
  (r.slots[i]?.filter (·.inUse)).map (·.key)

/-- The entry is added for the session, and the session goes from AUTH to CONN_ESTABLISHED. -/
structure LogsIn (σ σ' : Server) (s : SessionId) : Prop where
  before : (σ.session s).state = .auth
  after : (σ'.session s).state = .connEstablished
  absent : ∀ e ∈ σ.registry.used, e.key ≠ (σ'.session s).name
  added : ∃ e, e.key = (σ'.session s).name ∧ e.stream = (σ.session s).authStream ∧
    ∀ e', e' ∈ σ'.registry.used ↔ e' ∈ σ.registry.used ∨ e' = e

/-- The one packet of an iteration for `s` is its AUTH_RESP, and the status is OK iff the
iteration has logged the session in. -/
def AnswersOnce (σ σ' : Server) (s : SessionId) (st : StreamId) : Prop :=
  ∃ ok es, σ'.trace = es ++ σ.trace ∧ sentIn es = [(st, authRespPacket (σ.session s) ok)] ∧
    (ok = true ↔ LogsIn σ σ' s) ∧
    (ok = false → (σ'.session s).state = .auth ∧ σ'.registry = σ.registry)

/-- A session that is established keeps its name and its entry, unless it says BYE or is
disconnected itself. -/
def KeepsEntry (σ : Server) (a : Action) (σ' : Server) (s : SessionId) : Prop :=
  byeOn σ a = some s ∨ a = .disconnected s ∨
    Established σ' s ∧ (σ'.session s).name = (σ.session s).name ∧
      ∀ e ∈ σ.registry.used, e.key = (σ.session s).name → e ∈ σ'.registry.used

/-! ## 1. Names -/

/-- The in-use entries are the names of the established sessions, one each. -/
structure Matched (σ : Server) : Prop where
  distinct : σ.registry.Distinct
  entry : ∀ k, (∃ e ∈ σ.registry.used, e.key = k) ↔ ∃ s, Established σ s ∧ (σ.session s).name = k
  alone : ∀ s t, Established σ s → Established σ t → (σ.session s).name = (σ.session t).name → s = t

namespace Matched

variable {s : SessionId}

theorem init : Matched .init where
  distinct := distinct_empty
  entry k := by
    rw [show Server.init.registry.used = [] from used_empty]
    simp [Established, Server.init]
  alone s t h := by simp [Established, Server.init] at h

/-- A step that establishes and ends no session. -/
theorem congr (hm : Matched σ) (hreg : σ'.registry = σ.registry)
    (hsame : ∀ t, Established σ' t ↔ Established σ t)
    (hname : ∀ t, Established σ t → (σ'.session t).name = (σ.session t).name) : Matched σ' where
  distinct := hreg ▸ hm.distinct
  entry k := by
    rw [hreg, hm.entry]
    refine exists_congr fun t => ?_
    rw [hsame]
    exact and_congr_right fun ht => by rw [hname t ht]
  alone t u ht hu h := by
    rw [hsame] at ht hu
    rw [hname t ht, hname u hu] at h
    exact hm.alone t u ht hu h

/-- An established session and its entry go. -/
theorem remove (hm : Matched σ) (hs : Established σ s)
    (hreg : σ'.registry = σ.registry.removeNamed (σ.session s).name)
    (hest : ∀ t, Established σ' t ↔ t ≠ s ∧ Established σ t)
    (hname : ∀ t, t ≠ s → Established σ t → (σ'.session t).name = (σ.session t).name) :
    Matched σ' where
  distinct := hreg ▸ Distinct.removeNamed hm.distinct _
  entry k := by
    simp only [hreg, mem_used_removeNamed hm.distinct]
    constructor
    · rintro ⟨e, ⟨he, hk⟩, rfl⟩
      obtain ⟨t, ht, hn⟩ := (hm.entry e.key).mp ⟨e, he, rfl⟩
      have hne : t ≠ s := by
        rintro rfl
        exact hk hn.symm
      exact ⟨t, (hest t).mpr ⟨hne, ht⟩, (hname t hne ht).trans hn⟩
    · rintro ⟨t, ht, rfl⟩
      obtain ⟨hne, ht⟩ := (hest t).mp ht
      obtain ⟨e, he, hk⟩ := (hm.entry (σ.session t).name).mpr ⟨t, ht, rfl⟩
      rw [hname t hne ht]
      refine ⟨e, ⟨he, fun h => hne ?_⟩, hk⟩
      exact hm.alone t s ht hs (hk.symm.trans h)
  alone t u ht hu h := by
    obtain ⟨hne, ht⟩ := (hest t).mp ht
    obtain ⟨hne', hu⟩ := (hest u).mp hu
    rw [hname t hne ht, hname u hne' hu] at h
    exact hm.alone t u ht hu h

/-- A session is registered and established under the same name. -/
theorem add (hm : Matched σ) {uname : Buf 32} {ulen : UInt8} {st : Option StreamId} {pk : Buf 32}
    (hr : sqmpRegistryAdd σ.registry uname ulen st pk = some σ'.registry)
    (hs : ¬ Established σ s) (hest : ∀ t, Established σ' t ↔ t = s ∨ Established σ t)
    (hnew : (σ'.session s).name = countedName ulen uname)
    (hname : ∀ t, Established σ t → (σ'.session t).name = (σ.session t).name) : Matched σ' where
  distinct := Distinct.add hm.distinct hr
  entry k := by
    obtain ⟨e', hkey, _, _, _, hused⟩ := mem_used_add hr
    constructor
    · rintro ⟨e, he, rfl⟩
      rcases (hused e).mp he with he | rfl
      · obtain ⟨t, ht, hn⟩ := (hm.entry e.key).mp ⟨e, he, rfl⟩
        exact ⟨t, (hest t).mpr (.inr ht), (hname t ht).trans hn⟩
      · exact ⟨s, (hest s).mpr (.inl rfl), hnew.trans hkey.symm⟩
    · rintro ⟨t, ht, rfl⟩
      rcases (hest t).mp ht with rfl | ht
      · exact ⟨e', (hused e').mpr (.inr rfl), hkey.trans hnew.symm⟩
      · obtain ⟨e, he, hk⟩ := (hm.entry (σ.session t).name).mpr ⟨t, ht, rfl⟩
        exact ⟨e, (hused e).mpr (.inl he), hk.trans (hname t ht).symm⟩
  alone := by
    have hfresh : ∀ t, Established σ t → (σ.session t).name ≠ countedName ulen uname := by
      intro t ht h
      obtain ⟨e, he, hk⟩ := (hm.entry _).mpr ⟨t, ht, rfl⟩
      exact (add_cases hr).1 e he (hk.trans h)
    intro t u ht hu h
    rcases (hest t).mp ht with rfl | ht <;> rcases (hest u).mp hu with rfl | hu
    · rfl
    · rw [hnew, hname u hu] at h
      exact absurd h.symm (hfresh u hu)
    · rw [hnew, hname t ht] at h
      exact absurd h (hfresh t ht)
    · rw [hname t ht, hname u hu] at h
      exact hm.alone t u ht hu h

end Matched

/-! ## 2. The invariant -/

/-- `l` is the auth queue. -/
structure Agree (σ : Server) (l : List SessionId) : Prop where
  lined : Lined σ l
  opened : ∀ s, Open σ s → σ.life s = .live
  closed : ∀ s, (σ.session s).connClosed = true → ¬ Open σ s
  waits : ∀ s ∈ l, σ.life s = .live ∧ (σ.session s).state = .auth ∧
    (σ.session s).authQueued = true
  flag : ∀ s, σ.life s = .live → (σ.session s).authQueued = true → s ∈ l
  names : Matched σ

namespace Agree

variable {l : List SessionId} {s : SessionId}

theorem init : Agree .init [] where
  lined := .init
  opened s h := by cases h.1
  closed s _ h := by cases h.1
  waits s h := by cases h
  flag s h := by simp [Server.init] at h
  names := .init

theorem move (hi : Agree σ l) {session : SessionId → Session} {life : SessionId → Lifetime}
    {registry : Registry} {opened : SessionId → Prop}
    (h : Moves σ σ' session life registry opened) (ho : ∀ t, opened t → life t = .live)
    (hc : ∀ t, (session t).connClosed = true → ¬ opened t)
    (hw : ∀ t ∈ l, life t = .live ∧ (session t).state = .auth ∧ (session t).authQueued = true)
    (hf : ∀ t, life t = .live → (session t).authQueued = true → t ∈ l) (hm : Matched σ') :
    Agree σ' l where
  lined := hi.lined.moved h
  opened t ht := by
    rw [h.life]
    exact ho t ((h.opened t).mp ht)
  closed t := by
    rw [h.connClosed, h.opened]
    exact hc t
  waits t ht := by
    rw [h.life, h.state, h.authQueued]
    exact hw t ht
  flag t := by
    rw [h.life, h.authQueued]
    exact hf t
  names := hm

theorem established_moves {session : SessionId → Session} {life : SessionId → Lifetime}
    {registry : Registry} {opened : SessionId → Prop}
    (h : Moves σ σ' session life registry opened) (t : SessionId) :
    Established σ' t ↔ life t = .live ∧ (session t).state = .connEstablished := by
  unfold Established
  rw [h.life, h.state]

/-- One session moves on; if it is queued, it stays in state AUTH. -/
theorem moveSession (hi : Agree σ l) {x : Session} {registry : Registry}
    {opened : SessionId → Prop}
    (h : Moves σ σ' (Function.update σ.session s x) σ.life registry opened)
    (ho : ∀ t, opened t → Open σ t)
    (hc : x.connClosed = (σ.session s).connClosed ∨ ¬ opened s)
    (hq : x.authQueued = (σ.session s).authQueued) (hx : s ∈ l → x.state = .auth)
    (hm : Matched σ') : Agree σ' l := by
  refine hi.move h (fun t ht => hi.opened t (ho t ht)) (fun t hct hot => ?_) (fun t ht => ?_)
    (fun t hl hf => ?_) hm
  · rcases eq_or_ne t s with rfl | hne
    · rw [Function.update_self] at hct
      rcases hc with hc | hc
      · exact hi.closed t (hc.symm.trans hct) (ho t hot)
      · exact hc hot
    · rw [Function.update_of_ne hne] at hct
      exact hi.closed t hct (ho t hot)
  · rcases eq_or_ne t s with rfl | hne
    · rw [Function.update_self]
      exact ⟨(hi.waits t ht).1, hx ht, hq.trans (hi.waits t ht).2.2⟩
    · rw [Function.update_of_ne hne]
      exact hi.waits t ht
  · rcases eq_or_ne t s with rfl | hne
    · rw [Function.update_self] at hf
      exact hi.flag t hl (hq.symm.trans hf)
    · rw [Function.update_of_ne hne] at hf
      exact hi.flag t hl hf

theorem established_update {x : Session} {registry : Registry} {opened : SessionId → Prop}
    (h : Moves σ σ' (Function.update σ.session s x) σ.life registry opened)
    (hx : x.state ≠ .connEstablished) (t : SessionId) :
    Established σ' t ↔ t ≠ s ∧ Established σ t := by
  rw [established_moves h]
  rcases eq_or_ne t s with rfl | hne
  · simp [hx]
  · rw [Function.update_of_ne hne]
    exact (and_iff_right hne).symm

/-- The session that moves on is established neither before nor after. -/
theorem moveOther (hi : Agree σ l) {x : Session} {opened : SessionId → Prop}
    (h : Moves σ σ' (Function.update σ.session s x) σ.life σ.registry opened)
    (ho : ∀ t, opened t → Open σ t)
    (hc : x.connClosed = (σ.session s).connClosed ∨ ¬ opened s)
    (hq : x.authQueued = (σ.session s).authQueued)
    (hst : (σ.session s).state ≠ .connEstablished) (hst' : x.state ≠ .connEstablished)
    (hx : s ∈ l → x.state = .auth) : Agree σ' l := by
  have hne : ∀ {t}, Established σ t → t ≠ s := by
    rintro t ht rfl
    exact hst ht.2
  refine hi.moveSession h ho hc hq hx (hi.names.congr h.registry (fun t => ?_) fun t ht => ?_)
  · rw [established_update h hst']
    exact and_iff_right_of_imp hne
  · rw [h.name, Function.update_of_ne (hne ht)]

theorem change (hi : Agree σ l) (h : Change σ a σ') : Agree σ' l := by
  cases h with
  | kept h =>
    refine hi.move h hi.opened hi.closed hi.waits hi.flag
      (hi.names.congr h.registry (established_moves h) ?_)
    exact fun t _ => h.name t
  | @connected c hl h =>
    have hne : ∀ {t}, σ.life t ≠ .unallocated → t ≠ c := by
      rintro t ht rfl
      exact ht hl
    refine hi.move h (fun t ht => ?_) (fun t hc ho => ?_) (fun t ht => ?_) (fun t => ?_)
      (hi.names.congr h.registry (fun t => (established_moves h t).trans ?_) fun t ht => ?_)
    · rcases ht with rfl | ht
      · simp
      · rw [Function.update_of_ne (hne (by simp [hi.opened t ht]))]
        exact hi.opened t ht
    · rcases eq_or_ne t c with rfl | hne
      · simp [Session.fresh] at hc
      · rw [Function.update_of_ne hne] at hc
        exact hi.closed t hc (ho.resolve_left hne)
    · have hw := hi.waits t ht
      have hne := hne (by simp [hw.1] : σ.life t ≠ .unallocated)
      rwa [Function.update_of_ne hne, Function.update_of_ne hne]
    · rcases eq_or_ne t c with rfl | hne
      · simp [Session.fresh]
      · rw [Function.update_of_ne hne, Function.update_of_ne hne]
        exact hi.flag t
    · rcases eq_or_ne t c with rfl | hne
      · simp [Session.fresh, Established, hl]
      · rw [Function.update_of_ne hne, Function.update_of_ne hne]
        rfl
    · have hne := hne (by simp [ht.1] : σ.life t ≠ .unallocated)
      rw [h.name, Function.update_of_ne hne]
  | @hello s sid ho hst h =>
    exact hi.moveOther h (fun _ => id) (.inl rfl) rfl (by simp [hst]) (by simp) fun _ => rfl
  | @bye s hon ho hst h =>
    have hold : Established σ s := ⟨hi.opened s ho, hst⟩
    refine hi.moveSession h (fun _ => id) (.inl rfl) rfl (fun hm => ?_)
      (hi.names.remove hold h.registry (established_update h (by simp)) fun t hne _ => ?_)
    · rw [(hi.waits s hm).2.1] at hst
      cases hst
    · rw [h.name, Function.update_of_ne hne]
  | @left s ha ho hq h =>
    have hs : s ∈ l := hi.flag s (hi.opened s ho) hq
    have hst := (hi.waits s hs).2.1
    exact hi.moveOther h (fun _ => And.right) (.inr fun h => h.1 rfl) rfl (by simp [hst])
      (by simp [hst]) fun _ => hst
  | @freed s ha ho hq h =>
    have hs : s ∉ l := fun hm => by
      rw [(hi.waits s hm).2.2] at hq
      cases hq
    have hest : ∀ t, Established σ' t ↔ t ≠ s ∧ Established σ t := fun t => by
      rw [established_moves h]
      rcases eq_or_ne t s with rfl | hne
      · simp
      · rw [Function.update_of_ne hne]
        exact (and_iff_right hne).symm
    refine hi.move h (fun t ht => ?_) (fun t hc ho => hi.closed t hc ho.2) (fun t ht => ?_)
      (fun t hl hf => ?_) ?_
    · rw [Function.update_of_ne ht.1]
      exact hi.opened t ht.2
    · have hne : t ≠ s := by
        rintro rfl
        exact hs ht
      rw [Function.update_of_ne hne]
      exact hi.waits t ht
    · rcases eq_or_ne t s with rfl | hne
      · rw [Function.update_self] at hl
        cases hl
      · rw [Function.update_of_ne hne] at hl
        exact hi.flag t hl hf
    · by_cases hst : (σ.session s).state = .connEstablished
      · refine hi.names.remove ⟨hi.opened s ho, hst⟩ ?_ hest fun t _ _ => h.name t
        rw [h.registry, registryWithout, if_pos hst]
        rfl
      · refine hi.names.congr ?_ (fun t => (hest t).trans ?_) fun t _ => h.name t
        · rw [h.registry, registryWithout, if_neg hst]
        · refine and_iff_right_of_imp ?_
          rintro ht rfl
          exact hst ht.2

theorem accepted (hi : Agree σ l) (hp : NotWaiting σ a) {f : AuthFields} (ho : Open σ s)
    (hst : (σ.session s).state = .auth) (h : AuthAccepted σ σ' a s f) : Agree σ' (l ++ [s]) := by
  obtain ⟨_, hl⟩ := hi.lined.accepted hp h
  obtain ⟨st, es, _, _, _, rfl⟩ := h.state
  have hsession : ∀ t, t ≠ s → (acceptedState σ st s f es).session t = σ.session t :=
    fun t hne => Function.update_of_ne hne _ _
  have hself : (acceptedState σ st s f es).session s = (σ.session s).stage f st :=
    Function.update_self ..
  refine ⟨hl, hi.opened, fun t hc => ?_, fun t ht => ?_, fun t hlive hf => ?_, ?_⟩
  · rcases eq_or_ne t s with rfl | hne
    · rw [hself] at hc
      exact hi.closed t hc
    · rw [hsession t hne] at hc
      exact hi.closed t hc
  · rcases eq_or_ne t s with rfl | hne
    · rw [hself]
      exact ⟨hi.opened t ho, hst, rfl⟩
    · rw [hsession t hne]
      exact hi.waits t ((List.mem_append.mp ht).resolve_right (by simpa using hne))
  · rcases eq_or_ne t s with rfl | hne
    · simp
    · rw [hsession t hne] at hf
      exact List.mem_append_left _ (hi.flag t hlive hf)
  · have hold : ∀ t, Established σ t → t ≠ s := by
      rintro t ht rfl
      rw [ht.2] at hst
      cases hst
    refine hi.names.congr rfl (fun t => ?_) fun t ht => by rw [hsession t (hold t ht)]
    rcases eq_or_ne t s with rfl | hne
    · unfold Established
      rw [hself]
      rfl
    · unfold Established
      rw [hsession t hne]
      rfl

/-- The worker takes the head of the queue; its session goes from `x` to `x'`. -/
theorem dequeued (hi : Agree σ (s :: l)) {x : Session}
    (hrep : Intrusive.Represents σ'.queue l) (hcount : σ'.queueSem = l.length)
    (hsession : σ'.session = Function.update σ.session s x) (hconn : σ'.conn = σ.conn)
    (hlife : ∀ t, t ≠ s → σ'.life t = σ.life t) (hopen : Open σ s → σ'.life s = .live)
    (hx : x.authQueued = false) (hc : x.connClosed = (σ.session s).connClosed)
    (hm : Matched σ') : Agree σ' l := by
  have hnew : s ∉ l := (List.nodup_cons.mp hi.lined.represents.nodup).1
  have hother : ∀ t, t ≠ s → σ'.session t = σ.session t := fun t hne => by
    rw [hsession, Function.update_of_ne hne]
  have hself : σ'.session s = x := by rw [hsession, Function.update_self]
  have ho : ∀ t, Open σ' t ↔ Open σ t := fun t => by
    unfold Open
    rw [hconn]
  refine ⟨⟨hrep, hcount⟩, fun t ht => ?_, fun t hct => ?_, fun t ht => ?_, fun t hl hf => ?_, hm⟩
  · rcases eq_or_ne t s with rfl | hne
    · exact hopen ((ho t).mp ht)
    · rw [hlife t hne]
      exact hi.opened t ((ho t).mp ht)
  · rw [ho]
    rcases eq_or_ne t s with rfl | hne
    · rw [hself, hc] at hct
      exact hi.closed t hct
    · rw [hother t hne] at hct
      exact hi.closed t hct
  · have hne : t ≠ s := by
      rintro rfl
      exact hnew ht
    rw [hlife t hne, hother t hne]
    exact hi.waits t (List.mem_cons_of_mem _ ht)
  · rcases eq_or_ne t s with rfl | hne
    · rw [hself, hx] at hf
      cases hf
    · rw [hlife t hne] at hl
      rw [hother t hne] at hf
      exact (List.mem_cons.mp (hi.flag t hl hf)).resolve_left hne

/-- An iteration that logs nobody in. -/
theorem dequeuedOther (hi : Agree σ (s :: l)) (hreg : σ'.registry = σ.registry)
    (hsession : σ'.session = Function.update σ.session s { σ.session s with authQueued := false })
    (hrep : Intrusive.Represents σ'.queue l) (hcount : σ'.queueSem = l.length)
    (hconn : σ'.conn = σ.conn) (hlife : ∀ t, t ≠ s → σ'.life t = σ.life t)
    (hopen : Open σ s → σ'.life s = .live) : Agree σ' l := by
  have hst := (hi.waits s List.mem_cons_self).2.1
  have hother : ∀ t, t ≠ s → σ'.session t = σ.session t := fun t hne => by
    rw [hsession, Function.update_of_ne hne]
  have hself : (σ'.session s).state = .auth := by rw [hsession, Function.update_self, hst]
  refine hi.dequeued hrep hcount hsession hconn hlife hopen rfl rfl (hi.names.congr hreg ?_ ?_)
  · intro t
    unfold Established
    rcases eq_or_ne t s with rfl | hne
    · simp [hself, hst]
    · rw [hother t hne, hlife t hne]
  · rintro t ht
    have hne : t ≠ s := by
      rintro rfl
      rw [ht.2] at hst
      cases hst
    rw [hother t hne]

theorem iteration (hi : Agree σ l) (hsem : σ.queueSem ≠ 0) (h : Iteration env σ σ') :
    ∃ s l', l = s :: l' ∧ Agree σ' l' := by
  obtain ⟨s, l', rfl, hnew, hd, hr, hcount⟩ := hi.lined.dequeue hsem
  refine ⟨s, l', rfl, ?_⟩
  obtain ⟨hlive, hst, hflag⟩ := hi.waits s List.mem_cons_self
  cases h with
  | empty hq =>
    rw [hq] at hd
    cases hd
  | @closed s' es hq hc hes =>
    rw [hq] at hd
    cases hd
    exact hi.dequeuedOther rfl rfl hr hcount rfl (fun t hne => Function.update_of_ne hne _ _)
      fun ho => absurd ho (hi.closed s hc)
  | @refused s' es b hq hc hn hes =>
    rw [hq] at hd
    cases hd
    exact hi.dequeuedOther rfl rfl hr hcount rfl (fun _ _ => rfl) fun _ => hlive
  | @admitted s' r es b hq hc hadd hes =>
    rw [hq] at hd
    cases hd
    obtain ⟨_, hadd⟩ := Option.ite_none_right_eq_some.mp hadd
    have hold : ¬ Established σ s := fun he => by
      rw [he.2] at hst
      cases hst
    refine hi.dequeued hr hcount rfl rfl (fun _ _ => rfl) (fun _ => hlive) rfl rfl
      (hi.names.add hadd hold (fun t => ?_) ?_ fun t ht => ?_)
    · rcases eq_or_ne t s with rfl | hne
      · simp [Established, iterated, Session.establish, hlive]
      · simp [Established, iterated, hne]
    · simp only [iterated, Function.update_self]
      exact AuthSoundnessLemmas.establish_name _
    · have hne : t ≠ s := by
        rintro rfl
        exact hold ht
      simp only [iterated, Function.update_of_ne hne]

theorem step (hi : Agree σ l) (hb : Between σ) (hp : NotWaiting σ a)
    (h : atomicStep env σ a = some σ') : ∃ l', Agree σ' l' := by
  cases login_cases hb h with
  | change h => exact ⟨l, hi.change h⟩
  | authReq ho hst h => exact ⟨_, hi.accepted hp ho hst h⟩
  | iteration ha hpc hsem h =>
    obtain ⟨_, l', _, hi'⟩ := hi.iteration hsem h
    exact ⟨l', hi'⟩

end Agree

/-- Sessions and registry agree while no session sends an AUTH_REQ from the queue. -/
theorem agree_run
    (hP : AtomicMeets env (fun σ a => ShortName σ a ∧ NotWaiting σ a) acts)
    (h : atomicRun env acts = some σ) : Between σ ∧ ∃ l, Agree σ l :=
  atomic_induction (I := fun σ => ∃ l, Agree σ l) ⟨[], .init⟩
    (fun _ _ _ hb ⟨_, hi⟩ hp hs => hi.step hb hp.2 hs) hP h

/-! ## 3. Entries and answers -/

namespace SessionRegistryLemmas

variable {r : Registry} {i j : Nat} {k : Key} {l : List SessionId} {s : SessionId}

theorem keyAt_some :
    r.keyAt i = some k ↔ ∃ e, r.slots[i]? = some e ∧ e.inUse = true ∧ e.key = k := by
  simp [Registry.keyAt, Option.filter_eq_some_iff, and_assoc]

theorem exists_keyAt : (∃ i, r.keyAt i = some k) ↔ ∃ e ∈ r.used, e.key = k := by
  simp only [keyAt_some, Registry.used, List.mem_filter]
  constructor
  · rintro ⟨i, e, hi, hu, hk⟩
    exact ⟨e, ⟨List.mem_of_getElem? hi, hu⟩, hk⟩
  · rintro ⟨e, ⟨he, hu⟩, hk⟩
    obtain ⟨i, hi⟩ := List.mem_iff_getElem?.mp he
    exact ⟨i, e, hi, hu, hk⟩

theorem keyAt_inj (hd : r.Distinct) (hi : r.keyAt i = some k) (hj : r.keyAt j = some k) :
    i = j := by
  obtain ⟨e, he, hu, hk⟩ := keyAt_some.mp hi
  obtain ⟨e', he', hu', hk'⟩ := keyAt_some.mp hj
  exact Distinct.slot_inj hd he he' hu hu' (hk.trans hk'.symm)

/-- One in-use slot for each established session, and the other way round. -/
theorem matched_bijection (hm : Matched σ) :
    ∃ f : {s // Established σ s} → {i // (σ.registry.keyAt i).isSome = true},
      Function.Bijective f ∧ ∀ s, σ.registry.keyAt (f s) = some (σ.session s).name := by
  have hslot : ∀ s : {s // Established σ s},
      ∃ i : {i // (σ.registry.keyAt i).isSome = true},
        σ.registry.keyAt i = some (σ.session s).name := by
    rintro ⟨s, hs⟩
    obtain ⟨i, hi⟩ := exists_keyAt.mpr ((hm.entry (σ.session s).name).mpr ⟨s, hs, rfl⟩)
    exact ⟨⟨i, by rw [hi]; rfl⟩, hi⟩
  choose f hf using hslot
  refine ⟨f, ⟨fun s t heq => ?_, fun i => ?_⟩, hf⟩
  · have hname := (hf s).symm.trans (heq ▸ hf t)
    exact Subtype.ext (hm.alone s t s.2 t.2 (Option.some.inj hname))
  · obtain ⟨k, hk⟩ := Option.isSome_iff_exists.mp i.2
    obtain ⟨s, hs, hn⟩ := (hm.entry k).mp (exists_keyAt.mp ⟨i, hk⟩)
    refine ⟨⟨s, hs⟩, Subtype.ext (keyAt_inj hm.distinct (hf ⟨s, hs⟩) ?_)⟩
    rw [hk, ← hn]

/-- Only its own BYE or disconnect takes an established session's entry away. -/
theorem keepsEntry_change (hi : Agree σ l) (hs : Established σ s) (h : Change σ a σ') :
    KeepsEntry σ a σ' s := by
  -- the step moves the session `t` and leaves the registry alone
  have other : ∀ {t x opened}, t ≠ s →
      Moves σ σ' (Function.update σ.session t x) σ.life σ.registry opened →
        KeepsEntry σ a σ' s := by
    intro t x opened hne h
    refine .inr (.inr ⟨(Agree.established_moves h s).mpr ?_, ?_, fun e he _ => h.registry ▸ he⟩)
    · rwa [Function.update_of_ne hne.symm]
    · rw [h.name, Function.update_of_ne hne.symm]
  -- the entry under the name of `t` is taken away
  have removed : ∀ {t e}, Established σ t → s ≠ t → e ∈ σ.registry.used →
      e.key = (σ.session s).name → e ∈ (σ.registry.removeNamed (σ.session t).name).used := by
    intro t e ht hne he hk
    refine (mem_used_removeNamed hi.names.distinct).mpr ⟨he, fun h => hne ?_⟩
    exact hi.names.alone s t hs ht (hk.symm.trans h)
  cases h with
  | kept h =>
    exact .inr (.inr ⟨(Agree.established_moves h s).mpr hs, h.name s,
      fun e he _ => h.registry ▸ he⟩)
  | @connected c hl h =>
    have hne : s ≠ c := by
      rintro rfl
      rw [hs.1] at hl
      cases hl
    refine .inr (.inr ⟨(Agree.established_moves h s).mpr ?_, ?_, fun e he _ => h.registry ▸ he⟩)
    · rwa [Function.update_of_ne hne, Function.update_of_ne hne]
    · rw [h.name, Function.update_of_ne hne]
  | @hello t sid ho hst h =>
    refine other ?_ h
    rintro rfl
    rw [hs.2] at hst
    cases hst
  | @bye t hon ho hst h =>
    rcases eq_or_ne s t with rfl | hne
    · exact .inl hon
    · refine .inr (.inr ⟨(Agree.established_moves h s).mpr ?_, ?_, fun e he hk => h.registry ▸ ?_⟩)
      · rwa [Function.update_of_ne hne]
      · rw [h.name, Function.update_of_ne hne]
      · exact removed ⟨hi.opened t ho, hst⟩ hne he hk
  | @left t ha ho hq h =>
    rcases eq_or_ne s t with rfl | hne
    · exact .inr (.inl ha)
    · exact other hne.symm h
  | @freed t ha ho hq h =>
    rcases eq_or_ne s t with rfl | hne
    · exact .inr (.inl ha)
    · refine .inr (.inr ⟨(Agree.established_moves h s).mpr ?_, h.name s, fun e he hk => ?_⟩)
      · rwa [Function.update_of_ne hne]
      · rw [h.registry, registryWithout]
        split
        · next hst => exact removed ⟨hi.opened t ho, hst⟩ hne he hk
        · exact he

theorem keepsEntry_step (hi : Agree σ l) (hb : Between σ) (hs : Established σ s)
    (h : atomicStep env σ a = some σ') : KeepsEntry σ a σ' s := by
  -- the step moves the session `t`, which is in state AUTH, and takes no entry away
  have other : ∀ {t x}, (σ.session t).state = .auth →
      σ'.session = Function.update σ.session t x → (s ≠ t → σ'.life s = σ.life s) →
      (∀ e ∈ σ.registry.used, e ∈ σ'.registry.used) → KeepsEntry σ a σ' s := by
    intro t x hst hsession hlife hreg
    have hne : s ≠ t := by
      rintro rfl
      rw [hs.2] at hst
      cases hst
    have hsame : σ'.session s = σ.session s := by rw [hsession, Function.update_of_ne hne]
    refine .inr (.inr ⟨⟨(hlife hne).trans hs.1, ?_⟩, ?_, fun e he _ => hreg e he⟩)
    · rw [hsame, hs.2]
    · rw [hsame]
  cases login_cases hb h with
  | change h => exact keepsEntry_change hi hs h
  | authReq ho hst h =>
    obtain ⟨st, es, _, _, _, rfl⟩ := h.state
    exact other hst rfl (fun _ => rfl) fun _ => id
  | iteration ha hpc hsem h =>
    obtain ⟨t, l', rfl, _, hd, _⟩ := hi.lined.dequeue hsem
    have hst := (hi.waits t List.mem_cons_self).2.1
    cases h with
    | empty hq =>
      rw [hq] at hd
      cases hd
    | closed hq hc hes =>
      rw [hq] at hd
      cases hd
      exact other hst rfl (fun hne => Function.update_of_ne hne _ _) fun _ => id
    | refused hq hc hn hes =>
      rw [hq] at hd
      cases hd
      exact other hst rfl (fun _ => rfl) fun _ => id
    | admitted hq hc hadd hes =>
      rw [hq] at hd
      cases hd
      obtain ⟨_, hadd⟩ := Option.ite_none_right_eq_some.mp hadd
      obtain ⟨e', _, _, _, _, hused⟩ := mem_used_add hadd
      exact other hst rfl (fun _ => rfl) fun e he => (hused e).mpr (.inl he)

/-- What an iteration sends. -/
theorem sentIn_response {es : List Event} {ok b : Bool} {st : StreamId} {rest : List Event}
    (hst : (σ.session s).authStream = some st)
    (hes : visible es = response σ s ok b ++ rest) (hrest : sentIn rest = []) :
    sentIn es = [(st, authRespPacket (σ.session s) ok)] := by
  rw [← sentIn_visible, hes, sentIn_append, hrest, response, hst]
  rfl

/-- An iteration answers as it has acted. -/
theorem answersOnce_iteration (hi : Agree σ l) (hsem : σ.queueSem ≠ 0) {st : StreamId}
    (hd : σ.queue.dequeue.1 = some s) (hst : (σ.session s).authStream = some st)
    (hc : (σ.session s).connClosed = false) (h : Iteration env σ σ') : AnswersOnce σ σ' s st := by
  obtain ⟨s', l', rfl, _, hd', _⟩ := hi.lined.dequeue hsem
  rw [hd] at hd'
  cases hd'
  have hauth := (hi.waits s List.mem_cons_self).2.1
  cases h with
  | empty hq =>
    rw [hq] at hd
    cases hd
  | closed hq hc' hes =>
    rw [hq] at hd
    cases hd
    rw [hc] at hc'
    cases hc'
  | @refused s' es b hq _ hn hes =>
    rw [hq] at hd
    cases hd
    rw [List.append_assoc] at hes
    refine ⟨false, es, rfl, sentIn_response hst hes rfl, ?_, fun _ => ⟨?_, rfl⟩⟩
    · refine iff_of_false Bool.false_ne_true fun hl => ?_
      have hafter := hl.after
      simp [iterated, hauth] at hafter
    · simp [iterated, hauth]
  | @admitted s' r es b hq _ hadd hes =>
    rw [hq] at hd
    cases hd
    obtain ⟨_, hadd⟩ := Option.ite_none_right_eq_some.mp hadd
    rw [List.append_assoc, List.append_assoc] at hes
    refine ⟨true, es, rfl, sentIn_response hst hes rfl, iff_of_true rfl ?_, by simp⟩
    obtain ⟨e', hkey, _, hstream, _, hused⟩ := mem_used_add hadd
    have hname : (({ iterated σ s { (σ.session s).establish with authQueued := false } es with
        registry := r } : Server).session s).name = (σ.session s).authName := by
      simp only [iterated, Function.update_self]
      exact AuthSoundnessLemmas.establish_name _
    refine ⟨hauth, by simp [iterated, Session.establish], ?_, e', ?_, hstream, hused⟩
    · rw [hname]
      exact (add_cases hadd).1
    · rw [hname]
      exact hkey

end SessionRegistryLemmas
open SessionRegistryLemmas

/-- In every reachable state established sessions and in-use entries are in bijection by
name. A step takes the entry of an established session only when the session itself says BYE
or is disconnected, and an iteration sends one AUTH_RESP, which says what it has done. -/
theorem sessions_registry
    (hP : AtomicMeets env (fun σ a => ShortName σ a ∧ NotWaiting σ a) acts)
    (h : atomicRun env acts = some σ) :
    (∃ f : {s // Established σ s} → {i // (σ.registry.keyAt i).isSome = true},
      Function.Bijective f ∧ ∀ s, σ.registry.keyAt (f s) = some (σ.session s).name) ∧
    (∀ a σ', atomicStep env σ a = some σ' → ∀ s, Established σ s → KeepsEntry σ a σ' s) ∧
    ∀ σ' s st, σ.pc = .semWait → atomicStep env σ .worker = some σ' →
      σ.queue.dequeue.1 = some s → (σ.session s).authStream = some st →
        (σ.session s).connClosed = false → AnswersOnce σ σ' s st := by
  obtain ⟨hb, l, hi⟩ := agree_run hP h
  refine ⟨matched_bijection hi.names, fun a σ' hs s he => keepsEntry_step hi hb he hs, ?_⟩
  intro σ' s st hpc hs hd hst hc
  obtain ⟨hsem, hit⟩ := iteration_cases hpc hs
  exact answersOnce_iteration hi hsem hd hst hc hit

/-! ## 4. A concrete run -/

theorem sessions_registry_abc : ∃ σ, atomicRun (.fair abcUsers) abcSession = some σ ∧
    Established σ 0 ∧
    ∃ f : {s // Established σ s} → {i // (σ.registry.keyAt i).isSome = true},
      Function.Bijective f ∧ ∀ s, σ.registry.keyAt (f s) = some (σ.session s).name := by
  obtain ⟨σ, hr, he⟩ := atomicRun_reaches (.fair abcUsers) abcSession
    (fun σ => σ.life 0 = .live ∧ (σ.session 0).state = .connEstablished) (by decide +kernel)
  exact ⟨σ, hr, he, (sessions_registry (by decide +kernel) hr).1⟩

end SquimpChat
