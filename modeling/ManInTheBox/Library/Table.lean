import Mathlib.Data.List.AList

/-! # Finite tables

Mathlib's association lists with distinct keys, at a fixed value type, with the
operations a hash map offers besides lookup, insertion and removal: `retain`
with a closure that may rewrite the value, the list of values and the size.
The order of the entries carries no meaning.
-/

namespace ManInTheBox.Library

abbrev Table (κ ν : Type*) := AList (fun _ : κ => ν)

namespace Table

variable {κ ν : Type*}

/-- The number of entries. -/
def size (m : Table κ ν) : ℕ := m.entries.length

def isEmpty (m : Table κ ν) : Bool := m.entries.isEmpty

def values (m : Table κ ν) : List ν := m.entries.map Sigma.snd

/-- The entry that `f` leaves of one entry. -/
def retainEntry (f : ν → Option ν) (e : Sigma fun _ : κ => ν) : Option (Sigma fun _ : κ => ν) :=
  (f e.2).map fun v => ⟨e.1, v⟩

private theorem mem_keys_filterMap {f : ν → Option ν} {l : List (Sigma fun _ : κ => ν)} {k : κ}
    (h : k ∈ (l.filterMap (retainEntry f)).keys) : k ∈ l.keys := by
  obtain ⟨v, hv⟩ := List.mem_keys.mp h
  obtain ⟨e, he, hf⟩ := List.mem_filterMap.mp hv
  obtain ⟨w, -, hw⟩ := Option.map_eq_some_iff.mp hf
  obtain rfl : e.1 = k := (Sigma.mk.inj hw).1
  exact List.mem_keys_of_mem he

private theorem nodupKeys_filterMap (f : ν → Option ν) {l : List (Sigma fun _ : κ => ν)}
    (h : l.NodupKeys) : (l.filterMap (retainEntry f)).NodupKeys := by
  induction l with
  | nil => simp
  | cons e l ih =>
    obtain ⟨hnot, hl⟩ := List.nodupKeys_cons.mp h
    cases hf : f e.2 with
    | none => simpa [List.filterMap_cons, retainEntry, hf] using ih hl
    | some v =>
      rw [List.filterMap_cons_some (show retainEntry f e = some ⟨e.1, v⟩ by rw [retainEntry, hf]; rfl),
        List.nodupKeys_cons]
      exact ⟨fun hk => hnot (mem_keys_filterMap hk), ih hl⟩

/-- Visit every entry once: drop it where `f` gives nothing, else keep the value `f` gives. -/
def retain (f : ν → Option ν) (m : Table κ ν) : Table κ ν :=
  ⟨m.entries.filterMap (retainEntry f), nodupKeys_filterMap f m.nodupKeys⟩

theorem size_retain_le (f : ν → Option ν) (m : Table κ ν) : size (retain f m) ≤ size m :=
  List.length_filterMap_le _ _

variable [DecidableEq κ]

private theorem dlookup_filterMap (f : ν → Option ν) {l : List (Sigma fun _ : κ => ν)}
    (h : l.NodupKeys) (k : κ) :
    (l.filterMap (retainEntry f)).dlookup k = Option.bind (l.dlookup k) f := by
  induction l with
  | nil => rfl
  | cons e l ih =>
    obtain ⟨hnot, hl⟩ := List.nodupKeys_cons.mp h
    obtain ⟨a, v⟩ := e
    by_cases hk : k = a
    · subst hk
      rw [List.dlookup_cons_eq, Option.bind_some]
      cases hf : f v with
      | none =>
        rw [List.filterMap_cons_none (show retainEntry f ⟨k, v⟩ = none by rw [retainEntry, hf]; rfl),
          ih hl, List.dlookup_eq_none.mpr hnot, Option.bind_none]
      | some w =>
        rw [List.filterMap_cons_some
          (show retainEntry f ⟨k, v⟩ = some ⟨k, w⟩ by rw [retainEntry, hf]; rfl), List.dlookup_cons_eq]
    · rw [List.dlookup_cons_ne _ _ hk, ← ih hl]
      cases hf : f v with
      | none =>
        rw [List.filterMap_cons_none (show retainEntry f ⟨a, v⟩ = none by rw [retainEntry, hf]; rfl)]
      | some w =>
        rw [List.filterMap_cons_some
          (show retainEntry f ⟨a, v⟩ = some ⟨a, w⟩ by rw [retainEntry, hf]; rfl),
          List.dlookup_cons_ne _ _ hk]

@[simp] theorem lookup_retain (f : ν → Option ν) (m : Table κ ν) (k : κ) :
    (retain f m).lookup k = Option.bind (m.lookup k) f :=
  dlookup_filterMap f m.nodupKeys k

theorem mem_values {m : Table κ ν} {v : ν} : v ∈ values m ↔ ∃ k, m.lookup k = some v := by
  constructor
  · intro h
    obtain ⟨⟨k, w⟩, he, rfl⟩ := List.mem_map.mp h
    exact ⟨k, List.mem_dlookup m.nodupKeys he⟩
  · rintro ⟨k, hk⟩
    exact List.mem_map.mpr ⟨⟨k, v⟩, List.of_mem_dlookup hk, rfl⟩

theorem isEmpty_iff {m : Table κ ν} : isEmpty m = true ↔ ∀ k, m.lookup k = none := by
  rw [isEmpty, List.isEmpty_iff]
  constructor
  · intro h k
    rw [AList.lookup, h, List.dlookup_nil]
  · intro h
    rw [List.eq_nil_iff_forall_not_mem]
    intro e he
    have := List.mem_dlookup (a := e.1) (b := e.2) m.nodupKeys he
    rw [← AList.lookup, h e.1] at this
    cases this

theorem size_insert_of_absent {m : Table κ ν} {k : κ} (v : ν) (h : m.lookup k = none) :
    size (m.insert k v) = size m + 1 := by
  rw [size, AList.entries_insert_of_notMem (AList.lookup_eq_none.mp h), List.length_cons, size]

theorem size_insert_of_present {m : Table κ ν} {k : κ} (v : ν) (h : (m.lookup k).isSome) :
    size (m.insert k v) = size m := by
  have hmem : k ∈ m.entries.keys := AList.lookup_isSome.mp h
  have hpos : 0 < m.entries.keys.length := List.length_pos_of_mem hmem
  have hkeys : ∀ t : Table κ ν, size t = t.entries.keys.length := fun t => by
    rw [size, List.keys, List.length_map]
  have hinsert : (m.insert k v).entries.keys = k :: m.entries.keys.erase k := AList.keys_insert m
  rw [hkeys, hkeys, hinsert, List.length_cons, List.length_erase_of_mem hmem]
  omega

theorem lookup_insert_ite (m : Table κ ν) (k k' : κ) (v : ν) :
    (m.insert k v).lookup k' = if k' = k then some v else m.lookup k' := by
  split_ifs with h
  · rw [h, AList.lookup_insert]
  · rw [AList.lookup_insert_ne h]

theorem lookup_erase_ite (m : Table κ ν) (k k' : κ) :
    (m.erase k).lookup k' = if k' = k then none else m.lookup k' := by
  split_ifs with h
  · rw [h, AList.lookup_erase]
  · rw [AList.lookup_erase_ne h]

end Table
end ManInTheBox.Library
