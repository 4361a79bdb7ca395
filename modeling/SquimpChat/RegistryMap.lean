import SquimpChat.Registry
import SquimpChat.Lib.CappedMap
import SquimpChat.Lib.Simulation

/-!
# The registry as a finite map

To its callers the array of `sqmp_registry_entry_t` is a map from names to streams and keys
with `SQMP_REGISTRY_MAX` places. `mapStep` is that map, `registryStep` the four functions of
`sqmp.c` on the array, and `Models` relates the two states: the map's keys are the counted
bytes of the in-use entries.

Results:
1. `registry_simulates`: each operation keeps `Models` and is answered as by the map.
2. `registry_refines`: so do all sequences of operations from the zeroed array.
-/

namespace SquimpChat
open Octets Simulation

/-! ## 1. Operations -/

/-- `ulen` readable bytes at `uname`. -/
abbrev CountedName := { k : Key // k.2.length = k.1.toNat }

/-- A call of one of the four functions. Added names are those of a name field. -/
inductive RegistryOp
  | add (uname : Buf 32) (ulen : UInt8) (fits : ulen.toNat ≤ 32) (stream : Option StreamId)
      (pubkey : Buf 32)
  | remove (name : CountedName)
  | find (name : CountedName)
  | getPubkey (name : CountedName)

inductive RegistryResult
  /-- whether the result was 0 -/
  | added (ok : Bool)
  | removed
  | found (r : Except OutOfRange (Option StreamId))
  /-- the copied key, `none` for the result -1 -/
  | pubkey (r : Except OutOfRange (Option (Buf 32)))
deriving DecidableEq

/-- The call on the array. -/
def registryStep (r : Registry) : RegistryOp → Registry × RegistryResult
  | .add uname ulen _ stream pubkey =>
    match sqmpRegistryAdd r uname ulen stream pubkey with
    | some r' => (r', .added true)
    | none => (r, .added false)
  | .remove name => (r.removeNamed name.1, .removed)
  | .find name => (r, .found (sqmpRegistryFind r (.ok name.1.2) name.1.1))
  | .getPubkey name => (r, .pubkey (sqmpRegistryGetPubkey r (.ok name.1.2) name.1.1))

/-- Names to streams and keys. -/
abbrev UserMap := CappedMap Bytes (Option StreamId × Buf 32) registryMax

/-- The call on the map. -/
def mapStep (m : UserMap) : RegistryOp → UserMap × RegistryResult
  | .add uname ulen _ stream pubkey =>
    match m.add (uname.first ulen.toNat) (stream, pubkey) with
    | some m' => (m', .added true)
    | none => (m, .added false)
  | .remove name => (m.remove name.1.2, .removed)
  | .find name => (m, .found (.ok ((m.get name.1.2).bind (·.1))))
  | .getPubkey name => (m, .pubkey (.ok ((m.get name.1.2).map (·.2))))

/-! ## 2. The relation -/

/-- The bytes and the value of an entry. -/
def RegistryEntry.pair (e : RegistryEntry) : Bytes × (Option StreamId × Buf 32) :=
  (e.key.2, e.stream, e.publicKey)

/-- The in-use entries are the map. -/
structure Models (r : Registry) (m : UserMap) : Prop where
  distinct : r.Distinct
  fits : ∀ e ∈ r.used, e.usernameLen.toNat ≤ 32
  get : ∀ u v, m.get u = some v ↔ ∃ e ∈ r.used, e.pair = (u, v)

namespace Models

variable {r r' : Registry} {m m' : UserMap} {k : Key} {e : RegistryEntry}

theorem init : Models .empty .empty where
  distinct := distinct_empty
  fits := by simp
  get := by simp

/-- The bytes of an entry are as many as its length says. -/
theorem length_key (h : Models r m) (he : e ∈ r.used) : e.key.2.length = e.key.1.toNat :=
  Buf.length_first (h.fits e he)

/-- Entries are told apart by their bytes. -/
theorem key_eq (h : Models r m) (he : e ∈ r.used) (hk : k.2.length = k.1.toNat)
    (hb : e.key.2 = k.2) : e.key = k := by
  refine Prod.ext (UInt8.toNat_inj.mp ?_) hb
  rw [← h.length_key he, ← hk, hb]

theorem get_eq_none (h : Models r m) (hk : k.2.length = k.1.toNat) :
    m.get k.2 = none ↔ ∀ e ∈ r.used, e.key ≠ k := by
  rw [Option.eq_none_iff_forall_ne_some]
  constructor
  · rintro hn e he rfl
    exact hn _ ((h.get _ _).mpr ⟨e, he, rfl⟩)
  · intro hn v hv
    obtain ⟨e, he, hp⟩ := (h.get _ _).mp hv
    exact hn e he (h.key_eq he hk (Prod.mk.inj hp).1)

theorem get_key (h : Models r m) (he : e ∈ r.used) : m.get e.key.2 = some (e.stream, e.publicKey) :=
  (h.get _ _).mpr ⟨e, he, rfl⟩

/-- The map is as large as the entries in use are many. -/
theorem size_eq (h : Models r m) : m.size = r.used.length := by
  have hkeys : m.entries.keys = (r.used.map fun e => e.key.2).toFinset := by
    ext u
    rw [CappedMap.mem_keys_iff, List.mem_toFinset, List.mem_map]
    constructor
    · rintro ⟨v, hv⟩
      obtain ⟨e, he, hp⟩ := (h.get _ _).mp hv
      exact ⟨e, he, (Prod.mk.inj hp).1⟩
    · rintro ⟨e, he, rfl⟩
      exact ⟨_, h.get_key he⟩
  have hnodup : (r.used.map fun e => e.key.2).Nodup := by
    refine List.pairwise_map.mpr (List.pairwise_filter.mpr ?_)
    refine h.distinct.imp_of_mem fun {a b} ha hb hne hua hub heq => ?_
    have ha := List.mem_filter.mpr ⟨ha, hua⟩
    exact hne hua hub (h.key_eq ha (h.length_key (List.mem_filter.mpr ⟨hb, hub⟩)) heq)
  rw [CappedMap.size, hkeys, List.toFinset_card_of_nodup hnodup, List.length_map]

theorem size_lt_iff (h : Models r m) :
    m.size < registryMax ↔ ∃ e ∈ r.slots, e.inUse = false := by
  rw [h.size_eq, ← r.size, Registry.used, List.length_filter_lt_length_iff_exists]
  simp

/-- A lookup of a counted name finds the entry that the map has under it. -/
theorem findEntry_eq (h : Models r m) (hk : k.2.length = k.1.toNat) :
    ∃ o, findEntry (.ok k.2) k.1 r.slots = .ok o ∧
      m.get k.2 = o.map fun e => (e.stream, e.publicKey) := by
  obtain ⟨o, ho⟩ : ∃ o, findEntry (.ok k.2) k.1 r.slots = .ok o := findEntry_isOk _
  refine ⟨o, ho, ?_⟩
  cases o with
  | none => exact (h.get_eq_none hk).mpr fun e he => findEntry_none ho he
  | some e =>
    obtain ⟨he, _, hb⟩ := findEntry_ok ho
    rw [Except.ok.inj hb]
    exact h.get_key he

theorem add (h : Models r m) {uname : Buf 32} {ulen : UInt8} (hfits : ulen.toNat ≤ 32)
    {st : Option StreamId} {pk : Buf 32} (hr : sqmpRegistryAdd r uname ulen st pk = some r')
    (hm : m.add (uname.first ulen.toNat) (st, pk) = some m') : Models r' m' := by
  obtain ⟨hnew, _⟩ := add_cases hr
  obtain ⟨e', hkey, hlen, hst, hpk, hused⟩ := mem_used_add hr
  have hpair : e'.pair = (uname.first ulen.toNat, (st, pk)) := by
    rw [RegistryEntry.pair, hkey, hst, hpk]
    rfl
  refine ⟨Distinct.add h.distinct hr, fun e he => ?_, fun u v => ?_⟩
  · rcases (hused e).mp he with he | rfl
    · exact h.fits e he
    · rw [hlen]
      exact hfits
  · rw [CappedMap.get_add hm]
    split
    · next heq =>
      constructor
      · rintro ⟨⟩
        exact ⟨e', (hused e').mpr (.inr rfl), by rw [hpair, heq]⟩
      · rintro ⟨e, he, hp⟩
        rcases (hused e).mp he with he | rfl
        · have hb : e.key.2 = (countedName ulen uname).2 := (Prod.mk.inj hp).1.trans heq
          exact absurd (h.key_eq he (Buf.length_first hfits) hb) (hnew e he)
        · rw [hpair] at hp
          rw [(Prod.mk.inj hp).2]
    · next hne =>
      rw [h.get]
      constructor
      · rintro ⟨e, he, hp⟩
        exact ⟨e, (hused e).mpr (.inl he), hp⟩
      · rintro ⟨e, he, hp⟩
        rcases (hused e).mp he with he | rfl
        · exact ⟨e, he, hp⟩
        · rw [hpair] at hp
          exact absurd (Prod.mk.inj hp).1.symm hne

theorem remove (h : Models r m) (hk : k.2.length = k.1.toNat) :
    Models (r.removeNamed k) (m.remove k.2) := by
  refine ⟨Distinct.removeNamed h.distinct k, fun e he => ?_, fun u v => ?_⟩
  · exact h.fits e ((mem_used_removeNamed h.distinct).mp he).1
  · rw [CappedMap.get_remove]
    split
    · next heq =>
      refine iff_of_false (by simp) ?_
      rintro ⟨e, he, hp⟩
      obtain ⟨he, hne⟩ := (mem_used_removeNamed h.distinct).mp he
      exact hne (h.key_eq he hk ((Prod.mk.inj hp).1.trans heq))
    · next hne =>
      rw [h.get]
      constructor
      · rintro ⟨e, he, hp⟩
        refine ⟨e, (mem_used_removeNamed h.distinct).mpr ⟨he, ?_⟩, hp⟩
        rintro rfl
        exact hne (Prod.mk.inj hp).1.symm
      · rintro ⟨e, he, hp⟩
        exact ⟨e, ((mem_used_removeNamed h.distinct).mp he).1, hp⟩

/-- The array accepts a name exactly when the map does. -/
theorem add_isSome_iff (h : Models r m) {uname : Buf 32} {ulen : UInt8}
    (hfits : ulen.toNat ≤ 32) (st : Option StreamId) (pk : Buf 32) :
    (sqmpRegistryAdd r uname ulen st pk).isSome = true ↔
      (m.add (uname.first ulen.toNat) (st, pk)).isSome = true := by
  have hnone := h.get_eq_none (k := countedName ulen uname) (Buf.length_first hfits)
  rw [CappedMap.add_isSome_iff, h.size_lt_iff]
  constructor
  · intro hs
    obtain ⟨r', hr⟩ := Option.isSome_iff_exists.mp hs
    obtain ⟨hnew, i, e₀, hi, hfree, _⟩ := add_cases hr
    exact ⟨hnone.mpr hnew, e₀, List.mem_of_getElem? hi, hfree⟩
  · rintro ⟨hn, hf⟩
    exact add_succeeds (hnone.mp hn) hf st pk

end Models

/-- One call on the array keeps `Models` and is answered as on the map. -/
theorem registry_simulates : Simulates Models registryStep mapStep := by
  intro r m op h
  cases op with
  | add uname ulen fits st pk =>
    have hiff : (sqmpRegistryAdd r uname ulen st pk).isSome = true ↔
        (m.add (uname.first ulen.toNat) (st, pk)).isSome = true := h.add_isSome_iff fits st pk
    simp only [registryStep, mapStep]
    cases hr : sqmpRegistryAdd r uname ulen st pk with
    | some r' =>
      obtain ⟨m', hm⟩ := Option.isSome_iff_exists.mp (hiff.mp (by rw [hr]; rfl))
      rw [hm]
      exact ⟨h.add fits hr hm, rfl⟩
    | none =>
      rw [hr] at hiff
      rw [Option.not_isSome_iff_eq_none.mp (mt hiff.mpr Bool.false_ne_true)]
      exact ⟨h, rfl⟩
  | remove name => exact ⟨h.remove name.2, rfl⟩
  | find name =>
    obtain ⟨o, ho, hget⟩ := h.findEntry_eq name.2
    refine ⟨h, ?_⟩
    simp only [registryStep, mapStep, sqmpRegistryFind, ho, hget, ok_bind]
    cases o <;> rfl
  | getPubkey name =>
    obtain ⟨o, ho, hget⟩ := h.findEntry_eq name.2
    refine ⟨h, ?_⟩
    simp only [registryStep, mapStep, sqmpRegistryGetPubkey, ho, hget, ok_bind]
    cases o <;> rfl

/-- Calls on the zeroed array are answered as by a map with `SQMP_REGISTRY_MAX` places, and
the names in use stay pairwise distinct. -/
theorem registry_refines (ops : List RegistryOp) :
    outputs registryStep .empty ops = outputs mapStep .empty ops ∧
      (after registryStep .empty ops).Distinct :=
  ⟨registry_simulates.outputs_eq .init ops, (registry_simulates.after_rel .init ops).distinct⟩

end SquimpChat
