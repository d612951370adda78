import Mathlib

/-!
# Maps kept in key order

The finite maps of the program iterate over their keys in increasing order.
An `OrderedMap` is the list of its entries with strictly increasing keys, so
every map has one representation and equality of maps is equality of entries.
-/

namespace Cuber.Maps

variable {K V : Type*} [LinearOrder K]

/-- Insert an entry at its place, or overwrite the value stored at its key. -/
def insertEntry (key : K) (value : V) : List (K × V) → List (K × V)
  | [] => [(key, value)]
  | entry :: entries =>
      if key < entry.1 then (key, value) :: entry :: entries
      else if key = entry.1 then (key, value) :: entries
      else entry :: insertEntry key value entries

/-- Inserting adds no key but its own. -/
theorem mem_keys_insertEntry {key other : K} {value : V}
    {entries : List (K × V)}
    (hmem : other ∈ (insertEntry key value entries).map Prod.fst) :
    other = key ∨ other ∈ entries.map Prod.fst := by
  induction entries with
  | nil => simpa [insertEntry] using hmem
  | cons entry entries ih =>
      simp only [insertEntry] at hmem
      split_ifs at hmem with hlt heq
      · simpa using hmem
      · simp only [List.map_cons, List.mem_cons] at hmem ⊢
        tauto
      · simp only [List.map_cons, List.mem_cons] at hmem ⊢
        rcases hmem with rfl | hmem
        · exact Or.inr (Or.inl rfl)
        · rcases ih hmem with hkey | hrest
          · exact Or.inl hkey
          · exact Or.inr (Or.inr hrest)

/-- Inserting keeps the keys in order. -/
theorem pairwise_insertEntry (key : K) (value : V) {entries : List (K × V)}
    (hsorted : (entries.map Prod.fst).Pairwise (· < ·)) :
    ((insertEntry key value entries).map Prod.fst).Pairwise (· < ·) := by
  induction entries with
  | nil => simp [insertEntry]
  | cons entry entries ih =>
      rw [List.map_cons, List.pairwise_cons] at hsorted
      obtain ⟨hhead, htail⟩ := hsorted
      simp only [insertEntry]
      split_ifs with hlt heq
      · simp only [List.map_cons, List.pairwise_cons, List.mem_cons]
        refine ⟨?_, hhead, htail⟩
        rintro other (rfl | hmem)
        · exact hlt
        · exact hlt.trans (hhead other hmem)
      · subst heq
        simpa only [List.map_cons, List.pairwise_cons] using ⟨hhead, htail⟩
      · rw [List.map_cons, List.pairwise_cons]
        refine ⟨fun other hmem => ?_, ih htail⟩
        rcases mem_keys_insertEntry hmem with rfl | hrest
        · exact lt_of_le_of_ne (not_lt.mp hlt) fun heq' => heq heq'.symm
        · exact hhead other hrest

/-- The value of the last entry with a key. -/
def lastValue (entries : List (K × V)) (key : K) : Option V :=
  (entries.filter fun entry => entry.1 = key).getLast?.map Prod.snd

theorem lastValue_filter (entries : List (K × V)) (keep : K → Bool) {key : K}
    (hkey : keep key = true) :
    lastValue (entries.filter fun entry => keep entry.1) key = lastValue entries key := by
  rw [lastValue, lastValue, List.filter_filter]
  congr 2
  apply List.filter_congr
  intro entry _
  by_cases hentry : entry.1 = key
  · simp [hentry, hkey]
  · simp [hentry]

omit [LinearOrder K] in
/-- An entry is the only one with its key. -/
theorem filter_eq_singleton {entries : List (K × V)} {key : K} {value : V}
    {keep : K × V → Bool} (hkeep : ∀ entry ∈ entries, keep entry = true ↔ entry.1 = key)
    (hnodup : (entries.map Prod.fst).Nodup) (hmem : (key, value) ∈ entries) :
    entries.filter keep = [(key, value)] := by
  induction entries with
  | nil => cases hmem
  | cons entry entries ih =>
      rw [List.map_cons, List.nodup_cons] at hnodup
      have hlaterKeep := fun other hother => hkeep other (List.mem_cons_of_mem entry hother)
      rcases List.mem_cons.mp hmem with rfl | hlater
      · rw [List.filter_cons_of_pos ((hkeep _ List.mem_cons_self).mpr rfl),
          List.filter_eq_nil_iff.mpr]
        intro other hother hkept
        exact hnodup.1 (List.mem_map.mpr ⟨other, hother, (hlaterKeep other hother).mp hkept⟩)
      · have hne : entry.1 ≠ key := by
          rintro rfl
          exact hnodup.1 (List.mem_map.mpr ⟨_, hlater, rfl⟩)
        rw [List.filter_cons_of_neg fun hkept => hne ((hkeep _ List.mem_cons_self).mp hkept),
          ih hlaterKeep hnodup.2 hlater]

theorem lastValue_eq_some {entries : List (K × V)} {key : K} {value : V}
    (hnodup : (entries.map Prod.fst).Nodup) (hmem : (key, value) ∈ entries) :
    lastValue entries key = some value := by
  rw [lastValue, filter_eq_singleton (fun _ _ => decide_eq_true_iff) hnodup hmem]
  rfl

theorem mem_of_lastValue {entries : List (K × V)} {key : K} {value : V}
    (hlast : lastValue entries key = some value) : (key, value) ∈ entries := by
  obtain ⟨entry, hentry, rfl⟩ := Option.map_eq_some_iff.mp hlast
  have hmem := List.mem_of_mem_getLast? hentry
  rw [List.mem_filter, decide_eq_true_eq] at hmem
  obtain ⟨hmem, rfl⟩ := hmem
  exact hmem

theorem lastValue_ne_none {entries : List (K × V)} {entry : K × V} (hmem : entry ∈ entries) :
    lastValue entries entry.1 ≠ none := by
  have hne : (entries.filter fun other => other.1 = entry.1) ≠ [] :=
    List.ne_nil_of_mem (List.mem_filter.mpr ⟨hmem, decide_eq_true rfl⟩)
  rw [lastValue, List.getLast?_eq_some_getLast hne]
  exact Option.some_ne_none _

structure OrderedMap (K V : Type*) [LinearOrder K] where
  entries : List (K × V)
  sorted : (entries.map Prod.fst).Pairwise (· < ·)
  deriving DecidableEq

namespace OrderedMap

def empty : OrderedMap K V := ⟨[], List.Pairwise.nil⟩

instance : Inhabited (OrderedMap K V) := ⟨empty⟩

def insert (map : OrderedMap K V) (key : K) (value : V) : OrderedMap K V :=
  ⟨insertEntry key value map.entries,
    pairwise_insertEntry key value map.sorted⟩

def find? (map : OrderedMap K V) (key : K) : Option V :=
  (map.entries.find? fun entry => entry.1 = key).map Prod.snd

def erase (map : OrderedMap K V) (key : K) : OrderedMap K V :=
  ⟨map.entries.filter fun entry => entry.1 ≠ key,
    map.sorted.sublist (List.filter_sublist.map Prod.fst)⟩

def keys (map : OrderedMap K V) : Finset K := (map.entries.map Prod.fst).toFinset

/-- What `operator[]` leaves behind: a missing key is stored with a default. -/
def touch (map : OrderedMap K V) (key : K) (default : V) : OrderedMap K V :=
  if key ∈ map.keys then map else map.insert key default

def insertAll (map : OrderedMap K V) (entries : List (K × V)) : OrderedMap K V :=
  entries.foldl (fun map entry => map.insert entry.1 entry.2) map

section Lookup

variable {map map' : OrderedMap K V} {key : K} {value : V}

theorem nodup_keys (map : OrderedMap K V) : (map.entries.map Prod.fst).Nodup :=
  map.sorted.imp ne_of_lt

/-- What is found is what is stored. -/
theorem find?_eq_some_iff :
    map.find? key = some value ↔ (key, value) ∈ map.entries := by
  obtain ⟨entries, hsorted⟩ := map
  rw [find?]
  induction entries with
  | nil => simp
  | cons entry entries ih =>
      obtain ⟨first, stored⟩ := entry
      rw [List.map_cons, List.pairwise_cons] at hsorted
      by_cases hfirst : first = key
      · subst hfirst
        have hrest : (first, value) ∉ entries := fun hmem =>
          lt_irrefl _ (hsorted.1 first (List.mem_map_of_mem hmem))
        simp [hrest, eq_comm]
      · rw [List.find?_cons_of_neg (by simpa using hfirst), ih hsorted.2]
        simp [Ne.symm hfirst]

theorem ext_find? (hfind : ∀ key, map.find? key = map'.find? key) : map = map' := by
  have hmem : ∀ entry, entry ∈ map.entries ↔ entry ∈ map'.entries := by
    rintro ⟨key, value⟩
    rw [← find?_eq_some_iff, ← find?_eq_some_iff, hfind]
  have hperm : map.entries.Perm map'.entries :=
    (List.perm_ext_iff_of_nodup map.nodup_keys.of_map map'.nodup_keys.of_map).mpr hmem
  have hentries : map.entries = map'.entries :=
    hperm.eq_of_pairwise (fun _ _ _ _ hlt hgt => absurd hlt hgt.asymm)
      (List.pairwise_map.mp map.sorted) (List.pairwise_map.mp map'.sorted)
  cases map
  cases map'
  cases hentries
  rfl

theorem mem_keys_iff : key ∈ map.keys ↔ ∃ value, map.find? key = some value := by
  rw [keys, List.mem_toFinset, List.mem_map]
  constructor
  · rintro ⟨⟨_, value⟩, hentry, rfl⟩
    exact ⟨value, find?_eq_some_iff.mpr hentry⟩
  · rintro ⟨value, hfind⟩
    exact ⟨(key, value), find?_eq_some_iff.mp hfind, rfl⟩

theorem touch_of_mem (hkey : key ∈ map.keys) (default : V) : map.touch key default = map :=
  if_pos hkey

@[simp]
theorem find?_empty (key : K) : (empty : OrderedMap K V).find? key = none := rfl

/-- Inserting changes what is found at its key only. -/
theorem find?_insertEntry (key other : K) (value : V) (entries : List (K × V)) :
    (insertEntry key value entries).find? (fun entry => entry.1 = other) =
      if other = key then some (key, value)
      else entries.find? fun entry => entry.1 = other := by
  induction entries with
  | nil => by_cases hkey : other = key <;> simp [insertEntry, hkey, eq_comm]
  | cons entry entries ih =>
      by_cases hkey : other = key
      · subst hkey
        simp only [insertEntry, if_true] at ih ⊢
        split_ifs with hlt heq
        · simp
        · simp
        · rw [List.find?_cons_of_neg (by simpa using Ne.symm heq), ih]
      · simp only [insertEntry, if_neg hkey] at ih ⊢
        split_ifs with hlt heq
        · simp [Ne.symm hkey]
        · simp [Ne.symm hkey, heq ▸ Ne.symm hkey]
        · rw [List.find?_cons, ih, List.find?_cons]

theorem find?_insert (map : OrderedMap K V) (key other : K) (value : V) :
    (map.insert key value).find? other =
      if other = key then some value else map.find? other := by
  rw [find?, insert, find?_insertEntry key other value map.entries, find?]
  split_ifs <;> rfl

@[simp]
theorem keys_insert (map : OrderedMap K V) (key : K) (value : V) :
    (map.insert key value).keys = Insert.insert key map.keys := by
  ext other
  rw [Finset.mem_insert, mem_keys_iff, mem_keys_iff, find?_insert]
  split_ifs with hkey
  · simp [hkey]
  · simp [hkey]

theorem find?_erase (map : OrderedMap K V) (key other : K) :
    (map.erase key).find? other = if other = key then none else map.find? other := by
  apply Option.ext
  intro value
  rw [find?_eq_some_iff, erase, List.mem_filter]
  split_ifs with hkey
  · simp [hkey]
  · simp [hkey, find?_eq_some_iff]

theorem insertAll_append (map : OrderedMap K V) (entries later : List (K × V)) :
    map.insertAll (entries ++ later) = (map.insertAll entries).insertAll later :=
  List.foldl_append

/-- The last entry with a key decides what is found at it. -/
theorem find?_insertAll (map : OrderedMap K V) (entries : List (K × V)) (key : K) :
    (map.insertAll entries).find? key =
      (lastValue entries key).or (map.find? key) := by
  rw [lastValue]
  induction entries generalizing map with
  | nil => simp [insertAll]
  | cons entry entries ih =>
      rw [insertAll, List.foldl_cons, ← insertAll, ih, find?_insert]
      by_cases hkey : entry.1 = key
      · rw [List.filter_cons_of_pos (by simpa using hkey), if_pos hkey.symm,
          List.getLast?_cons]
        cases (entries.filter fun entry => entry.1 = key).getLast? <;> simp
      · rw [List.filter_cons_of_neg (by simpa using hkey), if_neg (Ne.symm hkey)]

/-- A map is rebuilt from its entries in whatever order they come. -/
theorem insertAll_of_perm {entries : List (K × V)} (hperm : entries.Perm map.entries) :
    empty.insertAll entries = map := by
  apply ext_find?
  intro key
  rw [find?_insertAll, find?_empty, Option.or_none, lastValue]
  cases hlast : (entries.filter fun entry => entry.1 = key).getLast? with
  | none =>
      rw [List.getLast?_eq_none_iff, List.filter_eq_nil_iff] at hlast
      symm
      apply Option.eq_none_iff_forall_ne_some.mpr
      intro value hfind
      have hmem := hperm.mem_iff.mpr (find?_eq_some_iff.mp hfind)
      exact hlast _ hmem (by simp)
  | some entry =>
      have hmem := List.mem_of_mem_getLast? hlast
      rw [List.mem_filter, decide_eq_true_eq] at hmem
      obtain ⟨hentry, rfl⟩ := hmem
      exact (find?_eq_some_iff.mpr (hperm.mem_iff.mp hentry)).symm

/-- A map that stores the last value of each key has room for all the entries
exactly when no key comes twice. -/
theorem subperm_entries_iff {entries : List (K × V)}
    (hstored : ∀ entry ∈ entries, map.find? entry.1 = lastValue entries entry.1) :
    entries.Subperm map.entries ↔ (entries.map Prod.fst).Nodup := by
  constructor
  · rintro ⟨others, hperm, hsublist⟩
    have hothers := map.nodup_keys.sublist (hsublist.map Prod.fst)
    exact (hperm.map Prod.fst).nodup_iff.mp hothers
  · intro hnodup
    apply List.subperm_of_subset hnodup.of_map
    rintro ⟨key, value⟩ hmem
    exact find?_eq_some_iff.mp
      ((hstored _ hmem).trans (lastValue_eq_some hnodup hmem))

theorem insertEntry_perm {entries : List (K × V)} (key : K) (value : V)
    (hkey : key ∉ entries.map Prod.fst) :
    (insertEntry key value entries).Perm ((key, value) :: entries) := by
  induction entries with
  | nil => exact List.Perm.refl _
  | cons entry entries ih =>
      rw [List.map_cons, List.mem_cons, not_or] at hkey
      simp only [insertEntry, if_neg hkey.1]
      split_ifs
      · exact List.Perm.refl _
      · exact ((ih hkey.2).cons entry).trans (List.Perm.swap _ _ _)

/-- An entry written ahead of the entries of a map is a new entry of it. -/
theorem insertAll_cons_of_perm {entries : List (K × V)}
    (hperm : entries.Perm map.entries) (hkey : map.find? key = none) (value : V) :
    empty.insertAll ((key, value) :: entries) = map.insert key value := by
  apply insertAll_of_perm
  have hfree : key ∉ map.entries.map Prod.fst := by
    intro hmem
    obtain ⟨⟨_, stored⟩, hentry, rfl⟩ := List.mem_map.mp hmem
    rw [find?_eq_some_iff.mpr hentry] at hkey
    cases hkey
  exact (hperm.cons (key, value)).trans (insertEntry_perm key value hfree).symm

end Lookup

end OrderedMap

end Cuber.Maps
