import Mathlib.Data.Finmap

/-!
# Finite maps of bounded size

* `CappedMap κ ν cap`: a finite map that carries the proof that it has at most `cap` keys.
* `add` inserts a new key while there is a place for it, `remove` deletes a key, `get`
  looks one up.

`add_isSome_iff` says when `add` succeeds; the `get` lemmas say what the operations do to
every key.
-/

/-- A finite map with at most `cap` keys. -/
structure CappedMap (κ ν : Type*) (cap : Nat) where
  entries : Finmap fun _ : κ => ν
  bound : entries.keys.card ≤ cap

namespace CappedMap

variable {κ ν : Type*} [DecidableEq κ] {cap : Nat}

def empty : CappedMap κ ν cap := ⟨∅, by simp⟩

def get (m : CappedMap κ ν cap) (k : κ) : Option ν := m.entries.lookup k

/-- The keys in use. -/
def size (m : CappedMap κ ν cap) : Nat := m.entries.keys.card

/-- Map `k` to `v`; `none` when `k` is in use or the map is full. -/
def add (m : CappedMap κ ν cap) (k : κ) (v : ν) : Option (CappedMap κ ν cap) :=
  if h : k ∉ m.entries ∧ m.entries.keys.card < cap then
    some ⟨m.entries.insert k v, by
      have hk : (m.entries.insert k v).keys = insert k m.entries.keys := by
        ext k'
        simp [Finmap.mem_keys, Finmap.mem_insert]
      rw [hk, Finset.card_insert_of_notMem (by simpa [Finmap.mem_keys] using h.1)]
      exact h.2⟩
  else none

def remove (m : CappedMap κ ν cap) (k : κ) : CappedMap κ ν cap :=
  ⟨m.entries.erase k, by
    rw [Finmap.keys_erase]
    exact (Finset.card_erase_le).trans m.bound⟩

variable {m m' : CappedMap κ ν cap} {k k' : κ} {v : ν}

@[simp] theorem get_empty : (empty : CappedMap κ ν cap).get k = none := Finmap.lookup_empty k

theorem get_eq_none_iff : m.get k = none ↔ k ∉ m.entries := Finmap.lookup_eq_none

theorem mem_keys_iff : k ∈ m.entries.keys ↔ ∃ v, m.get k = some v := by
  rw [Finmap.mem_keys, Finmap.mem_iff]
  rfl

theorem add_isSome_iff : (m.add k v).isSome = true ↔ m.get k = none ∧ m.size < cap := by
  rw [get_eq_none_iff, add]
  split
  · next h => simpa [size] using h
  · next h => simpa [size] using h

/-- A successful `add` changes the new key only. -/
theorem get_add (h : m.add k v = some m') :
    m'.get k' = if k' = k then some v else m.get k' := by
  rw [add] at h
  split at h
  · cases h
    split
    · next heq => exact heq ▸ Finmap.lookup_insert _
    · next hne => exact Finmap.lookup_insert_of_ne _ hne
  · cases h

theorem get_remove : (m.remove k).get k' = if k' = k then none else m.get k' := by
  split
  · next heq => exact heq ▸ Finmap.lookup_erase _ _
  · next hne => exact Finmap.lookup_erase_ne hne

end CappedMap
