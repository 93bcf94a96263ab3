import StoreQuery.Dict

/-!
# Keys of dictionaries

Which keys are in use, and how many, is read off the list of keys, and inserting entries changes
this list in a way that the values have no part in (`keys_insert_congr`, `keys_insertAll_congr`).
The keys of entries are all that it adds (`mem_keys_insertAll_iff`). Entries with different keys
are all found afterwards, and every other key keeps its value (`find?_insertAll_of_mem`,
`find?_insertAll_of_notMem`), and they are the entries of a dictionary that is made of them
(`entries_ofList_perm`). What is found is all there is to a dictionary (`eq_of_find?`), so entries
with different keys can be put in in any order (`insert_comm`). Entries that are kept are found as
before (`find?_keepKeys`).
-/

namespace StoreQuery.Dict

variable {α β : Type} {d : Dict α} {d' : Dict β} {key : String}

theorem length_keys (d : Dict α) : d.keys.length = d.size := by rw [keys, List.length_map, size]

theorem contains_iff_mem_keys : d.contains key = true ↔ key ∈ d.keys := by
  rw [contains, find?, keys]
  induction d.entries with
  | nil => simp
  | cons entry entries ih =>
    obtain ⟨k, v⟩ := entry
    rw [lookup_cons_eq, List.map_cons, List.mem_cons, ← ih]
    by_cases hk : key = k <;> simp [hk]

theorem mem_keys_of_contains (h : d.contains key = true) : key ∈ d.keys :=
  contains_iff_mem_keys.1 h

theorem contains_congr (h : d.keys = d'.keys) (key : String) :
    d.contains key = d'.contains key := by
  rw [Bool.eq_iff_iff, contains_iff_mem_keys, contains_iff_mem_keys, h]

theorem size_congr (h : d.keys = d'.keys) : d.size = d'.size := by
  rw [← length_keys, ← length_keys, h]

/-! ## Inserting -/

theorem map_insertEntry_congr {key : String} {value : α} {value' : β}
    {entries : List (String × α)} {entries' : List (String × β)}
    (h : entries.map (·.1) = entries'.map (·.1)) :
    (insertEntry key value entries).map (·.1) = (insertEntry key value' entries').map (·.1) := by
  induction entries generalizing entries' with
  | nil =>
    obtain rfl : entries' = [] := by simpa using h.symm
    rfl
  | cons entry rest ih =>
    obtain ⟨⟨k, v'⟩, rest', rfl⟩ : ∃ entry' rest', entries' = entry' :: rest' :=
      List.exists_cons_of_ne_nil (by rintro rfl; simp at h)
    obtain ⟨k, v⟩ := entry
    simp only [List.map_cons, List.cons.injEq] at h
    obtain ⟨rfl, hrest⟩ := h
    simp only [insertEntry]
    by_cases hlt : key < k
    · simp [hlt, hrest]
    · by_cases heq : key = k
      · simp [heq, hrest]
      · simp [hlt, heq, ih hrest]

/-- The keys after an insertion are determined by those before. -/
theorem keys_insert_congr (h : d.keys = d'.keys) (key : String) (value : α) (value' : β) :
    (d.insert key value).keys = (d'.insert key value').keys :=
  map_insertEntry_congr h

theorem keys_insertAll_congr {entries : List (String × α)} {entries' : List (String × β)}
    (h : d.keys = d'.keys) (hentries : entries.map (·.1) = entries'.map (·.1)) :
    (d.insertAll entries).keys = (d'.insertAll entries').keys := by
  induction entries generalizing entries' d d' with
  | nil =>
    obtain rfl : entries' = [] := by simpa using hentries.symm
    exact h
  | cons entry rest ih =>
    obtain ⟨⟨key, value'⟩, rest', rfl⟩ : ∃ entry' rest', entries' = entry' :: rest' :=
      List.exists_cons_of_ne_nil (by rintro rfl; simp at hentries)
    obtain ⟨key, value⟩ := entry
    simp only [List.map_cons, List.cons.injEq] at hentries
    obtain ⟨rfl, hrest⟩ := hentries
    show ((d.insert key value).insertAll rest).keys = ((d'.insert key value').insertAll rest').keys
    exact ih (keys_insert_congr h key value value') hrest

theorem mem_keys_insert_iff {value : α} {other : String} :
    other ∈ (d.insert key value).keys ↔ other = key ∨ other ∈ d.keys := by
  rw [← contains_iff_mem_keys, ← contains_iff_mem_keys, contains, contains, find?_insert]
  by_cases h : other = key <;> simp [h]

/-- A key was there before, or it is that of an entry. -/
theorem mem_keys_insertAll_iff {entries : List (String × α)} :
    key ∈ (d.insertAll entries).keys ↔ key ∈ d.keys ∨ key ∈ entries.map (·.1) := by
  induction entries generalizing d with
  | nil => simp [insertAll]
  | cons entry rest ih =>
    show key ∈ ((d.insert entry.1 entry.2).insertAll rest).keys ↔ _
    rw [ih, mem_keys_insert_iff, List.map_cons, List.mem_cons]
    rw [or_assoc, or_left_comm]

/-! ## Values after insertions -/

/-- A key that no entry has keeps its value. -/
theorem find?_insertAll_of_notMem {entries : List (String × α)} (h : key ∉ entries.map (·.1)) :
    (d.insertAll entries).find? key = d.find? key := by
  induction entries generalizing d with
  | nil => rfl
  | cons entry rest ih =>
    obtain ⟨hkey, hrest⟩ := not_or.1 (mt List.mem_cons.2 h)
    show ((d.insert entry.1 entry.2).insertAll rest).find? key = _
    rw [ih hrest, find?_insert, if_neg hkey]

/-- Entries with different keys are all found. -/
theorem find?_insertAll_of_mem {entries : List (String × α)} (hkeys : (entries.map (·.1)).Nodup)
    {entry : String × α} (h : entry ∈ entries) :
    (d.insertAll entries).find? entry.1 = some entry.2 := by
  induction entries generalizing d with
  | nil => cases h
  | cons first rest ih =>
    obtain ⟨hfirst, hrest⟩ := List.nodup_cons.1 hkeys
    show ((d.insert first.1 first.2).insertAll rest).find? entry.1 = _
    rcases List.mem_cons.1 h with rfl | h
    · rw [find?_insertAll_of_notMem hfirst, find?_insert, if_pos rfl]
    · exact ih hrest h

/-! ## Entries -/

theorem nodup_keys (d : Dict α) : d.keys.Nodup :=
  List.Pairwise.map _ (fun _ _ hlt => String.ne_of_lt hlt) d.sorted

theorem find?_eq_none (h : key ∉ d.keys) : d.find? key = none := by
  rw [← contains_iff_mem_keys, contains] at h
  simpa using h

theorem lookup_of_mem {entries : List (String × α)} (hkeys : (entries.map (·.1)).Nodup)
    {entry : String × α} (h : entry ∈ entries) : entries.lookup entry.1 = some entry.2 := by
  induction entries with
  | nil => cases h
  | cons first rest ih =>
    obtain ⟨hfirst, hrest⟩ := List.nodup_cons.1 hkeys
    rw [lookup_cons_eq]
    rcases List.mem_cons.1 h with rfl | h
    · rw [if_pos rfl]
    · have hne : entry.1 ≠ first.1 := by
        intro hsame
        exact hfirst (List.mem_map.2 ⟨entry, h, hsame⟩)
      rw [if_neg hne, ih hrest h]

theorem mem_of_lookup {entries : List (String × α)} {value : α}
    (h : entries.lookup key = some value) : (key, value) ∈ entries := by
  obtain ⟨before, after, hentries, -⟩ := List.lookup_eq_some_iff.1 h
  rw [hentries]
  exact List.mem_append_right _ List.mem_cons_self

theorem mem_entries_of_find? {value : α} (h : d.find? key = some value) :
    (key, value) ∈ d.entries :=
  mem_of_lookup h

/-- Where a dictionary is put into another one, it is looked at first. -/
theorem find?_insertAll_dict (d e : Dict α) (key : String) :
    (d.insertAll e.entries).find? key = (e.find? key).or (d.find? key) := by
  by_cases h : key ∈ e.keys
  · obtain ⟨entry, hentry, rfl⟩ := List.mem_map.1 h
    rw [find?_insertAll_of_mem e.nodup_keys hentry, find?, lookup_of_mem e.nodup_keys hentry]
    rfl
  · rw [find?_insertAll_of_notMem h, find?_eq_none h, Option.none_or]

theorem insertEntry_perm {value : α} {entries : List (String × α)}
    (h : key ∉ entries.map (·.1)) :
    (insertEntry key value entries).Perm ((key, value) :: entries) := by
  induction entries with
  | nil => exact .refl _
  | cons entry rest ih =>
    obtain ⟨hkey, hrest⟩ := not_or.1 (mt List.mem_cons.2 h)
    obtain ⟨k, v⟩ := entry
    rw [insertEntry]
    split
    · exact .refl _
    · exact ((ih hrest).cons _).trans (.swap ..)

/-- New entries with different keys are all put in. -/
theorem entries_insertAll_perm {entries : List (String × α)} (hkeys : (entries.map (·.1)).Nodup)
    (hnew : ∀ key ∈ entries.map (·.1), key ∉ d.keys) :
    (d.insertAll entries).entries.Perm (entries ++ d.entries) := by
  induction entries generalizing d with
  | nil => exact .refl _
  | cons entry rest ih =>
    obtain ⟨hentry, hrest⟩ := List.nodup_cons.1 hkeys
    obtain ⟨hfirst, hnew⟩ := List.forall_mem_cons.1 hnew
    have hnext : ∀ key ∈ rest.map (·.1), key ∉ (d.insert entry.1 entry.2).keys := by
      intro key hkey hmem
      rcases mem_keys_insert_iff.1 hmem with rfl | hmem
      · exact hentry hkey
      · exact hnew key hkey hmem
    show ((d.insert entry.1 entry.2).insertAll rest).entries.Perm _
    exact (ih hrest hnext).trans
      (((insertEntry_perm hfirst).append_left rest).trans List.perm_middle)

/-- A dictionary has the entries it is made of, if their keys differ. -/
theorem entries_ofList_perm {entries : List (String × α)} (hkeys : (entries.map (·.1)).Nodup) :
    (ofList entries).entries.Perm entries := by
  have hperm := entries_insertAll_perm (d := empty) hkeys fun _ _ => List.not_mem_nil
  rwa [show (empty : Dict α).entries = [] from rfl, List.append_nil] at hperm

theorem mem_entries_iff {entry : String × α} :
    entry ∈ d.entries ↔ d.find? entry.1 = some entry.2 :=
  ⟨lookup_of_mem d.nodup_keys, mem_entries_of_find?⟩

/-- **A dictionary is known by what is found in it.** -/
theorem eq_of_find? {e : Dict α} (h : ∀ key, d.find? key = e.find? key) : d = e := by
  have hnodup : ∀ d : Dict α, d.entries.Nodup := fun d =>
    d.sorted.imp fun hlt heq => String.ne_of_lt hlt (congrArg Prod.fst heq)
  have hperm : d.entries.Perm e.entries := by
    rw [List.perm_ext_iff_of_nodup (hnodup d) (hnodup e)]
    intro entry
    rw [mem_entries_iff, mem_entries_iff, h]
  refine Dict.ext (hperm.eq_of_pairwise ?_ d.sorted e.sorted)
  intro a b _ _ hab hba
  exact absurd (String.lt_trans hab hba) (String.lt_irrefl _)

/-- A dictionary is made of its own entries. -/
theorem ofList_entries (d : Dict α) : ofList d.entries = d := by
  apply eq_of_find?
  intro key
  rw [ofList, find?_insertAll_dict, find?_empty, Option.or_none]

/-- Entries with different keys are put in in any order. -/
theorem insert_comm {other : String} (hne : key ≠ other) (value value' : α) :
    (d.insert key value).insert other value' = (d.insert other value').insert key value := by
  refine eq_of_find? fun k => ?_
  simp only [find?_insert]
  by_cases hother : k = other
  · subst hother
    simp [Ne.symm hne]
  · simp [hother]

/-! ## Keeping entries -/

/-- What is kept has the value it had. -/
theorem find?_keepKeys (d : Dict α) (keep : String → Bool) (key : String) :
    (d.keepKeys keep).find? key = if keep key = true then d.find? key else none := by
  show (d.entries.filter fun entry => keep entry.1).lookup key =
    if keep key = true then d.entries.lookup key else none
  induction d.entries with
  | nil => simp
  | cons entry entries ih =>
    obtain ⟨k, v⟩ := entry
    rw [lookup_cons_eq, List.filter_cons]
    by_cases hk : key = k
    · subst hk
      by_cases hkeep : keep key = true
      · rw [if_pos hkeep, if_pos hkeep, if_pos rfl, lookup_cons_eq, if_pos rfl]
      · rw [if_neg hkeep, if_neg hkeep, ih, if_neg hkeep]
    · rw [if_neg hk, ← ih]
      split
      · rw [lookup_cons_eq, if_neg hk]
      · rfl

theorem find?_keepKeys_iff {keep : String → Bool} {value : α} :
    (d.keepKeys keep).find? key = some value ↔ d.find? key = some value ∧ keep key = true := by
  rw [find?_keepKeys]
  split
  · rename_i hkeep
    exact (and_iff_left hkeep).symm
  · rename_i hkeep
    exact ⟨nofun, fun h => absurd h.2 hkeep⟩

/-- Where every key is kept, nothing changes. -/
theorem keepKeys_eq_self {keep : String → Bool} (h : ∀ key ∈ d.keys, keep key = true) :
    d.keepKeys keep = d := by
  apply Dict.ext
  refine List.filter_eq_self.2 fun entry hentry => h entry.1 ?_
  exact List.mem_map.2 ⟨entry, hentry, rfl⟩

end StoreQuery.Dict
