import SquimpChat.Wire
import Mathlib.Data.List.Pairwise

/-!
# The connected-user registry

`g_registry` is an array of `SQMP_REGISTRY_MAX` entries that every logged-in user
has one of. `sqmpRegistryAdd` looks at all slots for a duplicate name while it
remembers the first free one; `sqmpRegistryRemove` zeroes the first entry of a
name; the lookups read the requested name only when some entry has its length.

Names are compared by length and bytes: an entry's `key` is its length byte and
the bytes the length counts.

Results:
1. `add_cases`, `add_succeeds`: what a successful add changes, and when it succeeds.
2. `mem_used_remove`: a remove takes away exactly the entries of its name.
3. `Distinct.add`, `Distinct.remove`: the in-use names stay pairwise distinct.
4. `findEntry_ok`: a lookup answers with an in-use entry of the requested name.
-/

namespace SquimpChat
open Octets

abbrev StreamId := Nat

/-- A counted name: its length byte and the bytes it counts. -/
abbrev Key := UInt8 × Bytes

/-- `SQMP_REGISTRY_MAX`. -/
def registryMax : Nat := 64

/-- `sqmp_registry_entry_t`. -/
structure RegistryEntry where
  inUse : Bool
  usernameLen : UInt8
  username : Buf 32
  publicKey : Buf 32
  stream : Option StreamId
deriving DecidableEq

/-- The counted name at a buffer. -/
def countedName (ulen : UInt8) (uname : Buf 32) : Key := (ulen, uname.first ulen.toNat)

namespace RegistryEntry

def zero : RegistryEntry := ⟨false, 0, Buf.zero 32, Buf.zero 32, none⟩

def key (e : RegistryEntry) : Key := countedName e.usernameLen e.username

/-- `in_use && username_len == ulen && memcmp(username, uname, ulen) == 0`. -/
def isNamed (e : RegistryEntry) (k : Key) : Bool := e.inUse && e.key == k

theorem isNamed_iff {e : RegistryEntry} {k : Key} :
    e.isNamed k = true ↔ e.inUse = true ∧ e.key = k := by
  simp [isNamed]

end RegistryEntry

/-- `g_registry`. -/
structure Registry where
  slots : List RegistryEntry
  size : slots.length = registryMax

namespace Registry

def empty : Registry := ⟨List.replicate registryMax .zero, List.length_replicate⟩

/-- The in-use entries. -/
def used (r : Registry) : List RegistryEntry := r.slots.filter (·.inUse)

/-- The entries in use have pairwise distinct names. -/
def Distinct (r : Registry) : Prop :=
  r.slots.Pairwise fun a b => a.inUse = true → b.inUse = true → a.key ≠ b.key

end Registry

/-- The loop of `sqmp_registry_add` from index `i` on, `slot` being the first free
index met so far: `none` when the name is already registered. -/
def addScan (k : Key) : List RegistryEntry → Nat → Option Nat → Option (Option Nat)
  | [], _, slot => some slot
  | e :: es, i, slot =>
    if e.inUse then
      if e.isNamed k then none else addScan k es (i + 1) slot
    else addScan k es (i + 1) (slot.or (some i))

/-- The entry written to a free slot. The bytes behind a shorter name stay. -/
def RegistryEntry.fill (e : RegistryEntry) (ulen : UInt8) (uname : Buf 32)
    (stream : Option StreamId) (pubkey : Buf 32) : RegistryEntry :=
  { e with
    inUse := true
    usernameLen := ulen
    username := e.username.store (uname.first ulen.toNat)
    publicKey := pubkey
    stream := stream }

/-- `sqmp_registry_add`; `none` is the result -1. -/
def sqmpRegistryAdd (r : Registry) (uname : Buf 32) (ulen : UInt8) (stream : Option StreamId)
    (pubkey : Buf 32) : Option Registry :=
  match addScan (countedName ulen uname) r.slots 0 none with
  | some (some i) =>
    some ⟨r.slots.modify i (·.fill ulen uname stream pubkey), by simp [r.size]⟩
  | _ => none

/-- The loop of `sqmp_registry_remove`. -/
def removeScan (k : Key) : List RegistryEntry → List RegistryEntry
  | [] => []
  | e :: es => if e.isNamed k then .zero :: es else e :: removeScan k es

theorem length_removeScan (k : Key) (es : List RegistryEntry) :
    (removeScan k es).length = es.length := by
  induction es with
  | nil => rfl
  | cons e es ih =>
    simp only [removeScan]
    split <;> simp [ih]

/-- `sqmp_registry_remove` of any counted name. -/
def Registry.removeNamed (r : Registry) (k : Key) : Registry :=
  ⟨removeScan k r.slots, by rw [length_removeScan, r.size]⟩

/-- `sqmp_registry_remove`. -/
def sqmpRegistryRemove (r : Registry) (uname : Buf 32) (ulen : UInt8) : Registry :=
  ⟨removeScan (countedName ulen uname) r.slots, by rw [length_removeScan, r.size]⟩

/-- The loop of the lookups. `uname` is the read of `ulen` bytes at the requested
name, made only where an entry of that length is met. -/
def findEntry (uname : Except OutOfRange Bytes) (ulen : UInt8) :
    List RegistryEntry → Except OutOfRange (Option RegistryEntry)
  | [] => .ok none
  | e :: es =>
    if e.inUse && e.usernameLen == ulen then do
      let u ← uname
      if e.username.first ulen.toNat = u then return some e
      findEntry uname ulen es
    else findEntry uname ulen es

/-- `sqmp_registry_find`. -/
def sqmpRegistryFind (r : Registry) (uname : Except OutOfRange Bytes) (ulen : UInt8) :
    Except OutOfRange (Option StreamId) := do
  let e ← findEntry uname ulen r.slots
  return e.bind (·.stream)

/-- `sqmp_registry_get_pubkey`; `none` is the result -1. -/
def sqmpRegistryGetPubkey (r : Registry) (uname : Except OutOfRange Bytes) (ulen : UInt8) :
    Except OutOfRange (Option (Buf 32)) := do
  let e ← findEntry uname ulen r.slots
  return e.map (·.publicKey)

/-! ## 1. Adding -/

namespace RegistryLemmas

variable {k : Key} {es : List RegistryEntry}

theorem first_store_first (b uname : Buf 32) (n : Nat) :
    (b.store (uname.first n)).first n = uname.first n := by
  have hu := uname.length_eq
  rcases Nat.le_total n 32 with h | h
  · rw [Buf.first_store (by simp [Buf.first, hu, h]) h]
    exact List.take_of_length_le (Nat.le_of_eq (Buf.length_first h))
  · have hw : uname.first n = uname.bytes := List.take_of_length_le (by omega)
    rw [hw, Buf.first, Buf.bytes_store hu]
    exact List.take_of_length_le (by omega)

/-- A scan that does not meet the name returns the first free index. -/
theorem addScan_some {i : Nat} {slot o : Option Nat} (h : addScan k es i slot = some o) :
    (∀ e ∈ es, e.isNamed k = false) ∧
      (o = slot ∨ slot = none ∧ ∃ j e, o = some (i + j) ∧ es[j]? = some e ∧ e.inUse = false) := by
  induction es generalizing i slot with
  | nil =>
    simp only [addScan, Option.some.injEq] at h
    exact ⟨by simp, .inl h.symm⟩
  | cons e es ih =>
    simp only [addScan] at h
    split at h
    · next hu =>
      split at h
      · cases h
      · next hn =>
        obtain ⟨hall, ho⟩ := ih h
        refine ⟨by simpa [hn] using hall, ho.imp_right ?_⟩
        rintro ⟨hs, j, e', rfl, hj, he'⟩
        exact ⟨hs, j + 1, e', by congr 1; omega, by simpa using hj, he'⟩
    · next hu =>
      obtain ⟨hall, ho⟩ := ih h
      have hu' : e.inUse = false := by simpa using hu
      refine ⟨by simpa [RegistryEntry.isNamed, hu'] using hall, ?_⟩
      cases slot with
      | some s =>
        rcases ho with rfl | ⟨hs, _⟩
        · exact .inl rfl
        · simp at hs
      | none =>
        refine .inr ⟨rfl, ?_⟩
        rcases ho with rfl | ⟨hs, _⟩
        · exact ⟨0, e, by simp, rfl, hu'⟩
        · simp at hs

/-- The scan fails on a registered name only, and finds a free slot if there is one. -/
theorem addScan_isSome (hn : ∀ e ∈ es, e.isNamed k = false) (i : Nat) (slot : Option Nat)
    (hf : slot.isSome = true ∨ ∃ e ∈ es, e.inUse = false) :
    ∃ j, addScan k es i slot = some (some j) := by
  induction es generalizing i slot with
  | nil =>
    obtain ⟨s, rfl⟩ := Option.isSome_iff_exists.mp (by simpa using hf)
    exact ⟨s, rfl⟩
  | cons e es ih =>
    have htail : ∀ e ∈ es, e.isNamed k = false := fun e' he' => hn e' (List.mem_cons_of_mem _ he')
    simp only [addScan, hn e List.mem_cons_self]
    split
    · next hu =>
      refine ih htail _ _ (hf.imp_right ?_)
      rintro ⟨e', he', hfree⟩
      rcases List.mem_cons.mp he' with rfl | he'
      · rw [hu] at hfree
        cases hfree
      · exact ⟨e', he', hfree⟩
    · exact ih htail _ _ (.inl (by cases slot <;> rfl))

end RegistryLemmas

open RegistryLemmas

/-- The entry a successful add writes. -/
theorem fill_key (e : RegistryEntry) (ulen : UInt8) (uname : Buf 32) (st : Option StreamId)
    (pk : Buf 32) : (e.fill ulen uname st pk).key = countedName ulen uname := by
  simp [RegistryEntry.key, RegistryEntry.fill, countedName, first_store_first]

/-- What a successful add does: no entry of the name was in use, and the in-use
entries are the old ones and one new entry with the given name, stream and key. -/
theorem add_cases {r r' : Registry} {uname : Buf 32} {ulen : UInt8} {st : Option StreamId}
    {pk : Buf 32} (h : sqmpRegistryAdd r uname ulen st pk = some r') :
    (∀ e ∈ r.used, e.key ≠ countedName ulen uname) ∧
    ∃ i e₀, r.slots[i]? = some e₀ ∧ e₀.inUse = false ∧
      r'.slots = r.slots.set i (e₀.fill ulen uname st pk) := by
  unfold sqmpRegistryAdd at h
  split at h
  · next i hs =>
    obtain ⟨hall, ho⟩ := addScan_some hs
    cases h
    refine ⟨fun e he hk => ?_, ?_⟩
    · obtain ⟨hm, hu⟩ := List.mem_filter.mp he
      have := hall e hm
      simp [RegistryEntry.isNamed, hu, hk] at this
    · rcases ho with ho | ⟨_, j, e₀, hj, he₀, hfree⟩
      · cases ho
      · simp only [Option.some.injEq, Nat.zero_add] at hj
        subst hj
        refine ⟨i, e₀, he₀, hfree, ?_⟩
        show r.slots.modify i _ = _
        rw [List.modify_eq_set_getElem?, he₀]
        rfl
  · cases h

/-- The in-use entries after a successful add. -/
theorem mem_used_add {r r' : Registry} {uname : Buf 32} {ulen : UInt8} {st : Option StreamId}
    {pk : Buf 32} (h : sqmpRegistryAdd r uname ulen st pk = some r') :
    ∃ e', e'.key = countedName ulen uname ∧ e'.usernameLen = ulen ∧ e'.stream = st ∧
      e'.publicKey = pk ∧ ∀ e, e ∈ r'.used ↔ e ∈ r.used ∨ e = e' := by
  obtain ⟨_, i, e₀, hi, hfree, hr'⟩ := add_cases h
  refine ⟨e₀.fill ulen uname st pk, fill_key .., rfl, rfl, rfl, fun e => ?_⟩
  obtain ⟨hlt, hget⟩ := List.getElem?_eq_some_iff.mp hi
  simp only [Registry.used, hr', List.mem_filter]
  constructor
  · rintro ⟨hm, hu⟩
    exact (List.mem_or_eq_of_mem_set hm).imp_left fun hm => ⟨hm, hu⟩
  · rintro (⟨hm, hu⟩ | rfl)
    · obtain ⟨j, hj, rfl⟩ := List.mem_iff_getElem.mp hm
      have hne : i ≠ j := by
        rintro rfl
        rw [hget, hfree] at hu
        cases hu
      refine ⟨List.mem_iff_getElem.mpr ⟨j, by simpa using hj, ?_⟩, hu⟩
      exact List.getElem_set_ne hne _
    · exact ⟨List.mem_set hlt _, rfl⟩

/-- An add of a name that no entry has succeeds as long as a slot is free. -/
theorem add_succeeds {r : Registry} {uname : Buf 32} {ulen : UInt8}
    (hn : ∀ e ∈ r.used, e.key ≠ countedName ulen uname) (hf : ∃ e ∈ r.slots, e.inUse = false)
    (st : Option StreamId) (pk : Buf 32) :
    (sqmpRegistryAdd r uname ulen st pk).isSome = true := by
  have hall : ∀ e ∈ r.slots, e.isNamed (countedName ulen uname) = false := by
    intro e he
    by_contra hc
    obtain ⟨hu, hk⟩ := RegistryEntry.isNamed_iff.mp (by simpa using hc)
    exact hn e (List.mem_filter.mpr ⟨he, hu⟩) hk
  obtain ⟨j, hj⟩ := addScan_isSome hall 0 none (.inr hf)
  simp [sqmpRegistryAdd, hj]

theorem Distinct.add {r r' : Registry} {uname : Buf 32} {ulen : UInt8} {st : Option StreamId}
    {pk : Buf 32} (hd : r.Distinct) (h : sqmpRegistryAdd r uname ulen st pk = some r') :
    r'.Distinct := by
  obtain ⟨hnew, i, e₀, hi, _, hr'⟩ := add_cases h
  have hfresh : ∀ j (hj : j < r.slots.length), r.slots[j].inUse = true →
      r.slots[j].key ≠ countedName ulen uname :=
    fun j hj hu => hnew _ (List.mem_filter.mpr ⟨List.getElem_mem hj, hu⟩)
  unfold Registry.Distinct at hd ⊢
  rw [hr']
  rw [List.pairwise_iff_getElem] at hd ⊢
  intro a b ha hb hab
  simp only [List.length_set] at ha hb
  simp only [List.getElem_set]
  split <;> split
  · omega
  · intro _ hu
    rw [fill_key]
    exact (hfresh b hb hu).symm
  · intro hu _
    rw [fill_key]
    exact hfresh a ha hu
  · exact hd a b ha hb hab

/-! ## 2. Removing -/

namespace RegistryLemmas

theorem mem_of_mem_removeScan {k : Key} {es : List RegistryEntry} {e : RegistryEntry}
    (h : e ∈ removeScan k es) (hu : e.inUse = true) : e ∈ es := by
  induction es with
  | nil => exact h
  | cons e₀ es ih =>
    simp only [removeScan] at h
    split at h
    · rcases List.mem_cons.mp h with rfl | h
      · cases hu
      · exact List.mem_cons_of_mem _ h
    · rcases List.mem_cons.mp h with rfl | h
      · exact List.mem_cons_self
      · exact List.mem_cons_of_mem _ (ih h)

theorem mem_removeScan_of_ne {k : Key} {es : List RegistryEntry} {e : RegistryEntry}
    (h : e ∈ es) (hn : e.isNamed k = false) : e ∈ removeScan k es := by
  induction es with
  | nil => exact h
  | cons e₀ es ih =>
    simp only [removeScan]
    split
    · next hk =>
      rcases List.mem_cons.mp h with rfl | h
      · rw [hn] at hk
        cases hk
      · exact List.mem_cons_of_mem _ h
    · rcases List.mem_cons.mp h with rfl | h
      · exact List.mem_cons_self
      · exact List.mem_cons_of_mem _ (ih h)

/-- With distinct names the first entry of a name is the only one. -/
theorem key_ne_of_mem_removeScan {k : Key} {es : List RegistryEntry} {e : RegistryEntry}
    (hd : es.Pairwise fun a b => a.inUse = true → b.inUse = true → a.key ≠ b.key)
    (h : e ∈ removeScan k es) (hu : e.inUse = true) : e.key ≠ k := by
  induction es with
  | nil => cases h
  | cons e₀ es ih =>
    obtain ⟨hhead, htail⟩ := List.pairwise_cons.mp hd
    simp only [removeScan] at h
    split at h
    · next hk =>
      obtain ⟨hu₀, rfl⟩ := RegistryEntry.isNamed_iff.mp hk
      rcases List.mem_cons.mp h with rfl | h
      · cases hu
      · exact (hhead e h hu₀ hu).symm
    · next hk =>
      rcases List.mem_cons.mp h with rfl | h
      · intro hkey
        exact hk (RegistryEntry.isNamed_iff.mpr ⟨hu, hkey⟩)
      · exact ih htail h

end RegistryLemmas

/-- A remove takes away exactly the entries of the name. -/
theorem mem_used_removeNamed {r : Registry} (hd : r.Distinct) {k : Key} {e : RegistryEntry} :
    e ∈ (r.removeNamed k).used ↔ e ∈ r.used ∧ e.key ≠ k := by
  simp only [Registry.used, Registry.removeNamed, List.mem_filter]
  constructor
  · rintro ⟨hm, hu⟩
    exact ⟨⟨mem_of_mem_removeScan hm hu, hu⟩, key_ne_of_mem_removeScan hd hm hu⟩
  · rintro ⟨⟨hm, hu⟩, hk⟩
    refine ⟨mem_removeScan_of_ne hm ?_, hu⟩
    simpa [RegistryEntry.isNamed, hu] using hk

theorem mem_used_remove {r : Registry} (hd : r.Distinct) {uname : Buf 32} {ulen : UInt8}
    {e : RegistryEntry} :
    e ∈ (sqmpRegistryRemove r uname ulen).used ↔ e ∈ r.used ∧ e.key ≠ countedName ulen uname :=
  mem_used_removeNamed hd

/-- A remove adds no entry, whatever the names are. -/
theorem used_remove_subset {r : Registry} {uname : Buf 32} {ulen : UInt8} {e : RegistryEntry}
    (h : e ∈ (sqmpRegistryRemove r uname ulen).used) : e ∈ r.used := by
  obtain ⟨hm, hu⟩ := List.mem_filter.mp h
  exact List.mem_filter.mpr ⟨mem_of_mem_removeScan hm hu, hu⟩

theorem Distinct.removeNamed {r : Registry} (hd : r.Distinct) (k : Key) :
    (r.removeNamed k).Distinct := by
  show (removeScan k r.slots).Pairwise _
  unfold Registry.Distinct at hd
  generalize r.slots = es at hd
  induction es with
  | nil => exact .nil
  | cons e es ih =>
    obtain ⟨hhead, htail⟩ := List.pairwise_cons.mp hd
    simp only [removeScan]
    split
    · exact .cons (fun _ _ hu => nomatch hu) htail
    · refine .cons (fun b hb hu hub => ?_) (ih htail)
      exact hhead b (mem_of_mem_removeScan hb hub) hu hub

theorem Distinct.remove {r : Registry} (hd : r.Distinct) (uname : Buf 32) (ulen : UInt8) :
    (sqmpRegistryRemove r uname ulen).Distinct := Distinct.removeNamed hd _

/-- Two in-use slots of one name are one slot. -/
theorem Distinct.slot_inj {r : Registry} (hd : r.Distinct) {i j : Nat} {e e' : RegistryEntry}
    (hi : r.slots[i]? = some e) (hj : r.slots[j]? = some e') (hu : e.inUse = true)
    (hu' : e'.inUse = true) (hk : e.key = e'.key) : i = j := by
  obtain ⟨hlt, rfl⟩ := List.getElem?_eq_some_iff.mp hi
  obtain ⟨hlt', rfl⟩ := List.getElem?_eq_some_iff.mp hj
  have hpair := List.pairwise_iff_getElem.mp hd
  rcases Nat.lt_trichotomy i j with hij | hij | hij
  · exact absurd hk (hpair i j hlt hlt' hij hu hu')
  · exact hij
  · exact absurd hk.symm (hpair j i hlt' hlt hij hu' hu)

theorem Distinct.unique {r : Registry} (hd : r.Distinct) {e e' : RegistryEntry} (he : e ∈ r.used)
    (he' : e' ∈ r.used) (hk : e.key = e'.key) : e = e' := by
  obtain ⟨hm, hu⟩ := List.mem_filter.mp he
  obtain ⟨hm', hu'⟩ := List.mem_filter.mp he'
  obtain ⟨i, hi⟩ := List.mem_iff_getElem?.mp hm
  obtain ⟨j, hj⟩ := List.mem_iff_getElem?.mp hm'
  obtain rfl := Distinct.slot_inj hd hi hj hu hu' hk
  exact Option.some.inj (hi.symm.trans hj)

theorem distinct_empty : Registry.empty.Distinct := by
  unfold Registry.Distinct Registry.empty
  exact List.pairwise_replicate.mpr (.inr fun h => nomatch h)

@[simp] theorem used_empty : Registry.empty.used = [] := by
  simp [Registry.used, Registry.empty, RegistryEntry.zero]

/-! ## 3. Lookups -/

/-- A lookup that answers has found an in-use entry of the requested length
whose name is the one that was read. -/
theorem findEntry_ok {uname : Except OutOfRange Bytes} {ulen : UInt8} {r : Registry}
    {e : RegistryEntry} (h : findEntry uname ulen r.slots = .ok (some e)) :
    e ∈ r.used ∧ e.usernameLen = ulen ∧ uname = .ok e.key.2 := by
  suffices hs : e ∈ r.slots ∧ e.inUse = true ∧ e.usernameLen = ulen ∧ uname = .ok e.key.2 from
    ⟨List.mem_filter.mpr ⟨hs.1, hs.2.1⟩, hs.2.2⟩
  generalize r.slots = es at h
  induction es with
  | nil => cases h
  | cons e₀ es ih =>
    simp only [findEntry] at h
    split at h
    · next hu =>
      simp only [Bool.and_eq_true, beq_iff_eq] at hu
      obtain ⟨u, rfl, h⟩ := bind_eq_ok.mp h
      split at h
      · next hn =>
        cases h
        refine ⟨List.mem_cons_self, hu.1, hu.2, ?_⟩
        rw [← hn, RegistryEntry.key, countedName, hu.2]
      · obtain ⟨hm, hrest⟩ := ih h
        exact ⟨List.mem_cons_of_mem _ hm, hrest⟩
    · obtain ⟨hm, hrest⟩ := ih h
      exact ⟨List.mem_cons_of_mem _ hm, hrest⟩

/-- A lookup whose name can be read answers. -/
theorem findEntry_isOk {u : Bytes} {ulen : UInt8} (es : List RegistryEntry) :
    ∃ o, findEntry (.ok u) ulen es = .ok o := by
  induction es with
  | nil => exact ⟨none, rfl⟩
  | cons e es ih =>
    simp only [findEntry, ok_bind]
    split
    · split
      · exact ⟨some e, rfl⟩
      · exact ih
    · exact ih

/-- A lookup that finds nothing has passed every entry of the name. -/
theorem findEntry_none {u : Bytes} {ulen : UInt8} {r : Registry}
    (h : findEntry (.ok u) ulen r.slots = .ok none) {e : RegistryEntry} (he : e ∈ r.used) :
    e.key ≠ (ulen, u) := by
  obtain ⟨hm, hu⟩ := List.mem_filter.mp he
  generalize r.slots = es at h hm
  induction es with
  | nil => cases hm
  | cons e₀ es ih =>
    have htail : findEntry (.ok u) ulen es = .ok none ∧ e₀.key ≠ (ulen, u) ∨ e₀.inUse = false ∧
        findEntry (.ok u) ulen es = .ok none := by
      simp only [findEntry, ok_bind] at h
      split at h
      · next hc =>
        split at h
        · cases h
        · next hn =>
          refine .inl ⟨h, fun hk => hn ?_⟩
          obtain rfl : e₀.usernameLen = ulen := congrArg Prod.fst hk
          exact congrArg Prod.snd hk
      · next hc =>
        cases hu₀ : e₀.inUse with
        | false => exact .inr ⟨rfl, h⟩
        | true =>
          refine .inl ⟨h, fun hk => hc ?_⟩
          rw [hu₀, show e₀.usernameLen = ulen from congrArg Prod.fst hk]
          simp
    rcases List.mem_cons.mp hm with rfl | hm
    · rcases htail with ⟨_, hk⟩ | ⟨hf, _⟩
      · exact hk
      · rw [hf] at hu
        cases hu
    · exact ih (htail.elim And.left And.right) hm

/-- The stream a lookup returns is the stream of an in-use entry of the name. -/
theorem find_ok {uname : Except OutOfRange Bytes} {ulen : UInt8} {r : Registry} {st : StreamId}
    (h : sqmpRegistryFind r uname ulen = .ok (some st)) :
    ∃ e ∈ r.used, e.stream = some st ∧ e.usernameLen = ulen ∧ uname = .ok e.key.2 := by
  obtain ⟨o, ho, h⟩ := bind_eq_ok.mp h
  cases o with
  | none => cases h
  | some e =>
    obtain ⟨hm, hlen, hname⟩ := findEntry_ok ho
    exact ⟨e, hm, by simpa [pure, Except.pure] using h, hlen, hname⟩

end SquimpChat
