import SquimpChat.Registrations

/-!
# Keys and accounts of the entries

An entry should hold the public key its AUTH_REQ has brought, and stand for the account its
password was checked for. Both can fail. `sqmp_process_auth_req` takes over a key only when
`pubkey_len` is 32, so that an AUTH_REQ without a key is admitted with whatever key the
session had before. And the password is checked for the C string at the start of the name,
while the registry compares all its bytes, so that a name with a NUL is another name
for the same account.

Results:
1. `keyBound_step_iff`, `keyBound_run`: the keys are right as long as every AUTH_REQ that is
   admitted carries one.
2. `accountBound_step_iff`, `accountBound_run`: an account has one entry, under its own name,
   as long as no name that is admitted has a NUL.
3. `stale_key`, `one_account_twice`: an AUTH_REQ without a key, and a name with a NUL.
-/

namespace SquimpChat
open Octets Transition StepLemmas AtomicLemmas AuthSoundnessLemmas RegistrationLemmas

variable {env : Env} {σ σ' : Server} {a : Action} {acts : List Action}

/-- The key of every entry is the one that its AUTH_REQ carried. -/
def KeyBound (σ : Server) : Prop :=
  ∀ e ∈ σ.registry.used, ∃ s pre f, RegisteredBy σ.trace e s pre ∧ Granted pre s e.key f ∧
    f.pubkey = some e.publicKey

/-- The AUTH_REQ of a session that is admitted carries a key of 32 bytes. -/
def CarriesKey (env : Env) (σ : Server) (a : Action) : Prop :=
  ∀ s ∈ admitting env σ a, ∀ f ∈ lastAuthReq σ.trace s, f.pubkey.isSome = true

instance : Decidable (CarriesKey env σ a) := inferInstanceAs (Decidable (∀ _ ∈ _, ∀ _ ∈ _, _))

/-- The line of the users file, counted in `fgets` chunks, whose name `verify_credentials` finds
equal to the C string. -/
def matchedChunk (username : Bytes) : List Bytes → Option Nat
  | [] => none
  | line :: rest =>
    match splitColon (cString line) with
    | none => (matchedChunk username rest).map (· + 1)
    | some (name, _) =>
      if username ≠ name then (matchedChunk username rest).map (· + 1) else some 0

def matchedLine (users : Option Bytes) (username : Bytes) : Option Nat :=
  users.bind fun f => matchedChunk username (fgetsChunks 256 [] f)

/-- The entry was admitted by a verification of this C string. -/
def VerifiedAs (tr : List Event) (e : RegistryEntry) (username : Bytes) : Prop :=
  ∃ s pre h, RegisteredBy tr e s pre ∧ lastVerified pre = some (s, username, h, true)

/-- Each line of the users file has admitted one entry at most, and an entry stands under the
name that was verified for it. -/
structure AccountBound (users : Option Bytes) (σ : Server) : Prop where
  one : ∀ {i j : Nat} {e e' : RegistryEntry} {u u' : Bytes} {n : Nat},
    σ.registry.slots[i]? = some e → e.inUse = true →
      σ.registry.slots[j]? = some e' → e'.inUse = true →
        VerifiedAs σ.trace e u → VerifiedAs σ.trace e' u' →
          matchedLine users u = some n → matchedLine users u' = some n → i = j
  named : ∀ e ∈ σ.registry.used, VerifiedAs σ.trace e e.key.2

/-- The name of a session that is admitted has no NUL. -/
def PlainName (env : Env) (σ : Server) (a : Action) : Prop :=
  ∀ s ∈ admitting env σ a, 0 ∉ (σ.session s).authName.2

instance : Decidable (PlainName env σ a) := inferInstanceAs (Decidable (∀ _ ∈ _, _))

/-! ## 1. Keys -/

namespace BindingLemmas

variable {s t : SessionId} {tr pre pre' : List Event} {e : RegistryEntry} {u u' : Bytes}

/-- The last registration of a name is one event. -/
theorem registeredBy_unique (h : RegisteredBy tr e s pre) (h' : RegisteredBy tr e t pre') :
    s = t ∧ pre = pre' := by
  obtain ⟨post, rfl, hpost⟩ := h
  obtain ⟨post', heq, hpost'⟩ := h'
  have hself : ∀ s, (Event.registered s e.key e.stream e.publicKey).registeredAs e.key ≠ none := by
    simp [Event.registeredAs]
  rcases List.append_eq_append_iff.mp heq with ⟨m, rfl, hm⟩ | ⟨m, rfl, hm⟩
  · cases m with
    | nil =>
      cases hm
      exact ⟨rfl, rfl⟩
    | cons ev m =>
      cases hm
      exact absurd (hpost' _ (List.mem_append_right _ List.mem_cons_self)) (hself _)
  · cases m with
    | nil =>
      cases hm
      exact ⟨rfl, rfl⟩
    | cons ev m =>
      cases hm
      exact absurd (hpost _ (List.mem_append_right _ List.mem_cons_self)) (hself _)

end BindingLemmas
open BindingLemmas

/-- A step keeps the keys right exactly when the AUTH_REQ it admits carries a key. -/
theorem keyBound_step_iff (hk : KeyBound σ) (h : EntryStep env σ a σ') :
    KeyBound σ' ↔ CarriesKey env σ a := by
  cases h with
  | @kept es hnone hsub htr hes =>
    refine iff_of_true (fun e he => ?_) fun s hs => ?_
    · obtain ⟨s, pre, f, hr, hg, hf⟩ := hk e (hsub e he)
      exact ⟨s, pre, f, htr ▸ registeredBy_append hr fun ev hev => hes ev hev e.key, hg, hf⟩
    · rw [hnone] at hs
      cases hs
  | @added s e f post pre hsome hname hused hnew htr hpost hpre hf hg hkey =>
    have hr : RegisteredBy σ'.trace e s (pre ++ σ.trace) :=
      ⟨post, htr, fun ev hev => hpost ev hev _⟩
    constructor
    · intro hk' t ht f' hf'
      rw [hsome] at ht
      cases ht
      obtain ⟨s', pre', g, hr', hg', hgkey⟩ := hk' e ((hused e).mpr (.inr rfl))
      obtain ⟨rfl, rfl⟩ := registeredBy_unique hr hr'
      have hgf : g = f := Option.some.inj (hg'.latest.symm.trans hg.latest)
      have hff' : f = f' := Option.some.inj (hf.symm.trans hf')
      rw [← hff', ← hgf, hgkey]
      rfl
    · intro hcarries e' he'
      rcases (hused e').mp he' with he' | rfl
      · obtain ⟨s', pre', f', hr', hg', hf'⟩ := hk e' he'
        exact ⟨s', pre', f', htr ▸ registeredBy_older hr' (hnew e' he').symm hpost hpre, hg', hf'⟩
      · obtain ⟨k, hfk⟩ := Option.isSome_iff_exists.mp (hcarries s hsome f hf)
        exact ⟨s, _, f, hr, hg, hfk.trans (congrArg some (hkey k hfk).symm)⟩

theorem keyBound_init : KeyBound .init := by
  intro e he
  rw [show Server.init.registry.used = [] from used_empty] at he
  cases he

/-- While every AUTH_REQ that is admitted carries a key, the entries hold these keys. -/
theorem keyBound_run (hP : AtomicMeets env (fun σ a => ShortName σ a ∧ CarriesKey env σ a) acts)
    (h : atomicRun env acts = some σ) : KeyBound σ := by
  have hi := atomic_induction (I := fun σ => Registrations σ ∧ KeyBound σ) ⟨.init, keyBound_init⟩
    (fun σ a σ' hb hi hp hs => ⟨hi.1.step hb hp.1 hs, (keyBound_step_iff hi.2
      (entry_cases hi.1.staged hi.1.distinct hb hs)).mpr hp.2⟩) hP h
  exact hi.2.2

/-- An AUTH_REQ under the name `abc`. -/
def abcAuthReq (hash : Buf 32) (key : Option (Buf 32)) : Bytes :=
  (Packet.mk 0 (.authReq ⟨3, (Buf.zero 32).store [97, 98, 99], hash, if key.isSome then 32 else 0,
    (key.map (·.bytes)).getD []⟩)).bytes

/-- A key, or a wrong hash. -/
def ones : Buf 32 := ⟨List.replicate 32 1, List.length_replicate⟩

/-- `abc` logs in with a key. -/
def keyLogin : List Action :=
  greet 0 ++ [.received 0 (abcAuthReq (.zero 32) (some ones)), .worker, .worker]

theorem keyBound_keyLogin : ∃ σ, atomicRun (.fair abcUsers) keyLogin = some σ ∧
    σ.registry.used.map (·.publicKey) = [ones] ∧ KeyBound σ := by
  obtain ⟨σ, hr, hk⟩ := atomicRun_reaches (.fair abcUsers) keyLogin
    (fun σ => σ.registry.used.map (·.publicKey) = [ones]) (by decide +kernel)
  exact ⟨σ, hr, hk, keyBound_run (by decide +kernel) hr⟩

/-- A login with a key and a wrong password is rejected; the next one, without a key, waits in
the queue. -/
def keylessRetry : List Action :=
  greet 0 ++ [.received 0 (abcAuthReq ones (some ones)), .worker, .worker,
    .received 0 (abcAuthReq (.zero 32) none), .worker]

theorem stale_key : ∃ env acts σ, AtomicMeets env ShortName acts ∧
    (∀ a ∈ acts, ∀ data ∈ a.packet, StructComplete data) ∧ atomicRun env acts = some σ ∧
      σ.registry.used.map (·.publicKey) = [ones] ∧ ¬ KeyBound σ := by
  obtain ⟨σ, hr, hused, hnot⟩ := atomicRun_reaches (.fair abcUsers) keylessRetry
    (fun σ => σ.registry.used = [] ∧ ¬ CarriesKey (.fair abcUsers) σ .worker) (by decide +kernel)
  obtain ⟨σ', hr', hkeys⟩ := atomicRun_reaches (.fair abcUsers) (keylessRetry ++ [.worker])
    (fun σ => σ.registry.used.map (·.publicKey) = [ones]) (by decide +kernel)
  refine ⟨.fair abcUsers, keylessRetry ++ [.worker], σ', by decide +kernel, by decide +kernel, hr',
    hkeys, fun hk' => hnot ?_⟩
  obtain ⟨hb, hi⟩ := registrations_run (by decide +kernel) hr
  obtain ⟨τ, hτ, hs⟩ := run_append.mp hr'
  obtain rfl : σ = τ := Option.some.inj (hr.symm.trans hτ)
  obtain ⟨τ', hs, hτ'⟩ := run_cons.mp hs
  cases hτ'
  have hk : KeyBound σ := fun e he => by
    rw [hused] at he
    cases he
  exact (keyBound_step_iff hk (entry_cases hi.staged hi.distinct hb hs)).mp hk'

/-! ## 2. Accounts -/

namespace BindingLemmas

variable {s t : SessionId} {tr pre pre' : List Event} {e e' : RegistryEntry} {u u' : Bytes}
  {n : Nat}

theorem matchedChunk_name {lines : List Bytes} (h : matchedChunk u lines = some n) :
    ∃ line hex, lines[n]? = some line ∧ splitColon (cString line) = some (u, hex) := by
  induction lines generalizing n with
  | nil => cases h
  | cons line rest ih =>
    have next : (matchedChunk u rest).map (· + 1) = some n →
        ∃ line' hex, (line :: rest)[n]? = some line' ∧
          splitColon (cString line') = some (u, hex) := by
      intro h
      obtain ⟨m, hm, rfl⟩ := Option.map_eq_some_iff.mp h
      exact ih hm
    unfold matchedChunk at h
    split at h
    · exact next h
    · next name hex hsplit =>
      split at h
      · exact next h
      · next heq =>
        cases h
        exact ⟨line, hex, rfl, by rw [hsplit, Decidable.not_not.mp heq]⟩

/-- A line matches one name. -/
theorem matchedLine_inj {users : Option Bytes} (h : matchedLine users u = some n)
    (h' : matchedLine users u' = some n) : u = u' := by
  obtain ⟨f, rfl, h⟩ := Option.bind_eq_some_iff.mp h
  obtain ⟨line, hex, hl, hs⟩ := matchedChunk_name h
  obtain ⟨line', hex', hl', hs'⟩ := matchedChunk_name h'
  rw [hl] at hl'
  cases hl'
  rw [hs] at hs'
  exact (Prod.mk.inj (Option.some.inj hs')).1

theorem verifiedAs_unique (h : VerifiedAs tr e u) (h' : VerifiedAs tr e u') : u = u' := by
  obtain ⟨s, pre, hash, hr, hv⟩ := h
  obtain ⟨s', pre', hash', hr', hv'⟩ := h'
  obtain ⟨_, rfl⟩ := registeredBy_unique hr hr'
  rw [hv] at hv'
  cases hv'
  rfl

/-- Counted names that fit their fields are equal when their bytes are. -/
theorem key_ext (he : e.usernameLen.toNat ≤ 32) (he' : e'.usernameLen.toNat ≤ 32)
    (h : e.key.2 = e'.key.2) : e.key = e'.key := by
  refine Prod.ext (UInt8.toNat_inj.mp ?_) h
  have hlen : e.key.2.length = e.usernameLen.toNat := Buf.length_first he
  have hlen' : e'.key.2.length = e'.usernameLen.toNat := Buf.length_first he'
  exact hlen.symm.trans ((congrArg List.length h).trans hlen')

/-- When the names are right, an account has one entry. -/
theorem accountBound_of_named {users : Option Bytes} (hd : σ.registry.Distinct) (hfit : NamesFit σ)
    (hnamed : ∀ e ∈ σ.registry.used, VerifiedAs σ.trace e e.key.2) : AccountBound users σ where
  named := hnamed
  one := by
    intro i j e e' u u' n hi hu hj hu' hv hv' hl hl'
    have he : e ∈ σ.registry.used := List.mem_filter.mpr ⟨List.mem_of_getElem? hi, hu⟩
    have he' : e' ∈ σ.registry.used := List.mem_filter.mpr ⟨List.mem_of_getElem? hj, hu'⟩
    have hbytes : e.key.2 = e'.key.2 := by
      rw [verifiedAs_unique (hnamed e he) hv, verifiedAs_unique (hnamed e' he') hv']
      exact matchedLine_inj hl hl'
    exact Distinct.slot_inj hd hi hj hu hu' (key_ext (hfit.entry e he) (hfit.entry e' he') hbytes)

theorem namesFit_step (hn : NamesFit σ) (hshort : ShortName σ a)
    (h : atomicStep env σ a = some σ') : NamesFit σ' :=
  atomicStep_invariant (P := ShortName) (fun _ _ _ hn hp h =>
    (step_cases h).elim (hn.callback hp) hn.main) (fun _ _ hp => by cases hp) hn hshort h

end BindingLemmas

/-- A step keeps accounts and entries together exactly when the name it admits has no
NUL. -/
theorem accountBound_step_iff {users : Option Bytes} (hb : AccountBound users σ)
    (hd : σ'.registry.Distinct) (hfit : NamesFit σ') (h : EntryStep env σ a σ') :
    AccountBound users σ' ↔ PlainName env σ a := by
  cases h with
  | @kept es hnone hsub htr hes =>
    refine iff_of_true (accountBound_of_named hd hfit fun e he => ?_) fun s hs => ?_
    · obtain ⟨s, pre, hash, hr, hv⟩ := hb.named e (hsub e he)
      exact ⟨s, pre, hash, htr ▸ registeredBy_append hr fun ev hev => hes ev hev e.key, hv⟩
    · rw [hnone] at hs
      cases hs
  | @added s e f post pre hsome hname hused hnew htr hpost hpre hf hg hkey =>
    have hv : VerifiedAs σ'.trace e (cString e.key.2) :=
      ⟨s, _, _, ⟨post, htr, fun ev hev => hpost ev hev _⟩, hg.verified⟩
    constructor
    · intro hb' t ht
      rw [hsome] at ht
      cases ht
      rw [← hname, ← cString_eq_self]
      exact verifiedAs_unique hv (hb'.named e ((hused e).mpr (.inr rfl)))
    · intro hplain
      refine accountBound_of_named hd hfit fun e' he' => ?_
      rcases (hused e').mp he' with he' | rfl
      · obtain ⟨s', pre', hash, hr, hv'⟩ := hb.named e' he'
        exact ⟨s', pre', hash, htr ▸ registeredBy_older hr (hnew e' he').symm hpost hpre, hv'⟩
      · rwa [cString_eq_self.mpr (hname ▸ hplain s hsome)] at hv

theorem accountBound_init {users : Option Bytes} : AccountBound users .init :=
  accountBound_of_named distinct_empty .init fun e he => by
    rw [show Server.init.registry.used = [] from used_empty] at he
    cases he

theorem accountBound_invariant
    (hP : AtomicMeets env (fun σ a => ShortName σ a ∧ PlainName env σ a) acts)
    (h : atomicRun env acts = some σ) :
    Between σ ∧ Registrations σ ∧ NamesFit σ ∧ AccountBound env.users σ := by
  refine atomic_induction (I := fun σ => Registrations σ ∧ NamesFit σ ∧ AccountBound env.users σ)
    ⟨.init, .init, accountBound_init⟩ ?_ hP h
  rintro σ a σ' hb ⟨hi, hfit, hbound⟩ ⟨hshort, hplain⟩ hs
  have hi' := hi.step hb hshort hs
  have hfit' := namesFit_step hfit hshort hs
  exact ⟨hi', hfit', (accountBound_step_iff hbound hi'.distinct hfit'
    (entry_cases hi.staged hi.distinct hb hs)).mpr hplain⟩

/-- While no name that is admitted has a NUL, an account has one entry at most, and the entry
stands under the account's name. -/
theorem accountBound_run (hP : AtomicMeets env (fun σ a => ShortName σ a ∧ PlainName env σ a) acts)
    (h : atomicRun env acts = some σ) : AccountBound env.users σ :=
  (accountBound_invariant hP h).2.2.2

theorem accountBound_abcSession : ∃ σ, atomicRun (.fair abcUsers) abcSession = some σ ∧
    σ.registry.used.map (·.key) = [(3, [97, 98, 99])] ∧ AccountBound (some abcUsers) σ := by
  obtain ⟨σ, hr, hk⟩ := atomicRun_reaches (.fair abcUsers) abcSession
    (fun σ => σ.registry.used.map (·.key) = [(3, [97, 98, 99])]) (by decide +kernel)
  have hplain : AtomicMeets (.fair abcUsers)
      (fun σ a => ShortName σ a ∧ PlainName (.fair abcUsers) σ a) abcSession := by decide +kernel
  exact ⟨σ, hr, hk, accountBound_run hplain hr⟩

/-- `abc` is logged in; a login under the name `abc`, NUL, `x` waits in the queue. -/
def secondName : List Action :=
  abcSession ++ greet 1 ++ [.received 1 (authReqBytes 5 [97, 98, 99, 0, 120] []), .worker]

theorem one_account_twice : ∃ env acts σ, env.users = some abcUsers ∧
    AtomicMeets env ShortName acts ∧ (∀ a ∈ acts, ∀ data ∈ a.packet, StructComplete data) ∧
      atomicRun env acts = some σ ∧
        σ.registry.used.map (·.key) = [(3, [97, 98, 99]), (5, [97, 98, 99, 0, 120])] ∧
          ¬ AccountBound env.users σ := by
  obtain ⟨σ, hr, hnot⟩ := atomicRun_reaches (.fair abcUsers) secondName
    (fun σ => ¬ PlainName (.fair abcUsers) σ .worker) (by decide +kernel)
  obtain ⟨σ', hr', hkeys⟩ := atomicRun_reaches (.fair abcUsers) (secondName ++ [.worker])
    (fun σ => σ.registry.used.map (·.key) = [(3, [97, 98, 99]), (5, [97, 98, 99, 0, 120])])
    (by decide +kernel)
  refine ⟨.fair abcUsers, secondName ++ [.worker], σ', rfl, by decide +kernel, by decide +kernel,
    hr', hkeys, fun hb' => hnot ?_⟩
  obtain ⟨hb, hi, hfit, hbound⟩ := accountBound_invariant (by decide +kernel) hr
  obtain ⟨τ, hτ, hs⟩ := run_append.mp hr'
  obtain rfl : σ = τ := Option.some.inj (hr.symm.trans hτ)
  obtain ⟨τ', hs, hτ'⟩ := run_cons.mp hs
  cases hτ'
  have hshort : ShortName σ .worker := fun _ hp => by cases hp
  exact (accountBound_step_iff hbound (hi.step hb hshort hs).distinct
    (namesFit_step hfit hshort hs) (entry_cases hi.staged hi.distinct hb hs)).mp hb'

end SquimpChat
