import LayeredConfig.OrderedMap
import Mathlib.Data.List.Nodup

/-!
# Look-ups and keys of ordered maps

Each operation of an ordered map is described twice: by what it does to every look-up, and by what
it does to the list of keys. `ext_get?` says that the two together determine a map whose keys are
distinct, so nothing above this file has to look at the list of entries.
-/

namespace LayeredConfig.OrderedMap

variable {α : Type u} {map map' : OrderedMap α} {key k : String} {v : α}

/-! ## Look-ups -/

/-- A key is looked up in the first entry, and otherwise in the others. -/
theorem lookup_cons_ite (k k₀ : String) (v₀ : α) (entries : List (String × α)) :
    ((k₀, v₀) :: entries).lookup k = if k = k₀ then some v₀ else entries.lookup k := by
  rw [List.lookup_cons]
  by_cases h : k = k₀
  · simp [h]
  · rw [if_neg h, beq_false_of_ne h]

/-- The same for an ordered map. -/
theorem get?_mk_cons (k k₀ : String) (v₀ : α) (entries : List (String × α)) :
    (OrderedMap.mk ((k₀, v₀) :: entries)).get? k =
      if k = k₀ then some v₀ else (OrderedMap.mk entries).get? k :=
  lookup_cons_ite k k₀ v₀ entries

/-- After an insertion, the key has the new value and the others have theirs. -/
theorem lookup_insertEntry (key k : String) (v : α) (entries : List (String × α)) :
    (insertEntry key v entries).lookup k = if k = key then some v else entries.lookup k := by
  induction entries with
  | nil => simp [insertEntry, lookup_cons_ite]
  | cons entry entries ih =>
    obtain ⟨k₀, v₀⟩ := entry
    simp only [insertEntry]
    -- the first entry is replaced, or the insertion goes on behind it
    by_cases hk₀ : k₀ = key
    · subst hk₀
      simp only [if_true, lookup_cons_ite]
      split <;> rfl
    · simp only [if_neg hk₀, lookup_cons_ite, ih]
      by_cases h : k = k₀
      · rw [if_pos h, if_neg (h ▸ hk₀), if_pos h]
      · rw [if_neg h, if_neg h]

/-- Inserting changes the look-up of one key only. -/
theorem get?_insert (map : OrderedMap α) (key k : String) (v : α) :
    (map.insert key v).get? k = if k = key then some v else map.get? k :=
  lookup_insertEntry key k v map.toList

/-- Inserting what is there already changes nothing. -/
theorem insert_of_get? (h : map.get? key = some v) : map.insert key v = map := by
  obtain ⟨entries⟩ := map
  simp only [get?, insert, mk.injEq] at *
  induction entries with
  | nil => cases h
  | cons entry entries ih =>
    obtain ⟨k₀, v₀⟩ := entry
    rw [lookup_cons_ite] at h
    rw [insertEntry]
    by_cases hk₀ : k₀ = key
    · rw [if_pos hk₀.symm] at h
      rw [if_pos hk₀, Option.some.inj h]
    · rw [if_neg (Ne.symm hk₀)] at h
      rw [if_neg hk₀, ih h]

/-- Of two values that are inserted at one key, the second stays. -/
theorem insert_insert (map : OrderedMap α) (key : String) (v w : α) :
    (map.insert key v).insert key w = map.insert key w := by
  obtain ⟨entries⟩ := map
  simp only [insert, mk.injEq]
  induction entries with
  | nil => simp [insertEntry]
  | cons entry entries ih =>
    obtain ⟨k₀, v₀⟩ := entry
    by_cases hk₀ : k₀ = key
    · simp [insertEntry, hk₀]
    · simp [insertEntry, hk₀, ih]

/-- Modifying changes the look-up of one key only. -/
theorem get?_modify (map : OrderedMap α) (key k : String) (f : α → α) :
    (map.modify key f).get? k = if k = key then (map.get? k).map f else map.get? k := by
  obtain ⟨entries⟩ := map
  simp only [get?, modify]
  induction entries with
  | nil => simp
  | cons entry entries ih =>
    obtain ⟨k₀, v₀⟩ := entry
    by_cases hk₀ : k₀ = key
    · simp only [List.map_cons, if_pos hk₀, lookup_cons_ite, ih]
      subst hk₀
      by_cases h : k = k₀ <;> simp [h]
    · simp only [List.map_cons, if_neg hk₀, lookup_cons_ite, ih]
      by_cases h : k = k₀
      · subst h
        simp [hk₀]
      · simp only [if_neg h]

/-- Looking up in a mapped map maps what is found. -/
theorem get?_map {β : Type v} (map : OrderedMap α) (f : α → β) (k : String) :
    (map.map f).get? k = (map.get? k).map f := by
  obtain ⟨entries⟩ := map
  simp only [get?, OrderedMap.map]
  induction entries with
  | nil => rfl
  | cons entry entries ih =>
    obtain ⟨k₀, v₀⟩ := entry
    rw [List.map_cons, lookup_cons_ite, lookup_cons_ite, ih]
    split <;> rfl

/-! ## Keys -/

/-- A key is not found exactly if it is not among the keys of the entries. -/
theorem lookup_eq_none_iff {entries : List (String × α)} :
    entries.lookup k = none ↔ k ∉ entries.map (·.1) := by
  induction entries with
  | nil => simp
  | cons entry entries ih =>
    obtain ⟨k₀, v₀⟩ := entry
    rw [lookup_cons_ite, List.map_cons, List.mem_cons]
    by_cases h : k = k₀
    · simp [h]
    · rw [if_neg h, ih]
      simp [h]

/-- A key is not found exactly if it is not among the keys. -/
theorem get?_eq_none_iff : map.get? k = none ↔ k ∉ map.keys :=
  lookup_eq_none_iff

/-- A key is there exactly if it has a value. -/
theorem mem_keys_iff : k ∈ map.keys ↔ ∃ v, map.get? k = some v := by
  rw [← not_iff_not, ← get?_eq_none_iff, ← Option.isSome_iff_exists, Option.not_isSome_iff_eq_none]

/-- A key with a value is there. -/
theorem mem_keys_of_get? (h : map.get? k = some v) : k ∈ map.keys :=
  mem_keys_iff.mpr ⟨v, h⟩

/-- Inserting appends a new key and leaves the order of the others alone. -/
theorem keys_insert (map : OrderedMap α) (key : String) (v : α) :
    (map.insert key v).keys = if key ∈ map.keys then map.keys else map.keys ++ [key] := by
  obtain ⟨entries⟩ := map
  simp only [keys, insert]
  induction entries with
  | nil => simp [insertEntry]
  | cons entry entries ih =>
    obtain ⟨k₀, v₀⟩ := entry
    simp only [insertEntry]
    by_cases h : k₀ = key
    · simp [h]
    · simp only [if_neg h, List.map_cons, ih, List.mem_cons]
      have hne : key ≠ k₀ := fun e => h e.symm
      by_cases hm : key ∈ entries.map (·.1) <;> simp [hm, hne]

/-- Modifying a value leaves the keys as they are. -/
@[simp] theorem keys_modify (map : OrderedMap α) (key : String) (f : α → α) :
    (map.modify key f).keys = map.keys := by
  simp only [keys, modify, List.map_map]
  refine List.map_congr_left fun entry _ => ?_
  obtain ⟨k₀, v₀⟩ := entry
  by_cases h : k₀ = key <;> simp [h]

/-- Mapping the values leaves the keys as they are. -/
@[simp] theorem keys_map {β : Type v} (map : OrderedMap α) (f : α → β) :
    (map.map f).keys = map.keys := by
  rw [keys, keys, OrderedMap.map, List.map_map]
  rfl

/-- The keys after an insertion are the old ones and the one inserted. -/
theorem mem_keys_insert : k ∈ (map.insert key v).keys ↔ k = key ∨ k ∈ map.keys := by
  rw [keys_insert]
  split
  · rename_i hkey
    constructor
    · exact Or.inr
    · rintro (rfl | h)
      · exact hkey
      · exact h
  · simp [or_comm]

/-- An insertion keeps the keys distinct. -/
theorem nodup_keys_insert (h : map.keys.Nodup) (key : String) (v : α) :
    (map.insert key v).keys.Nodup := by
  rw [keys_insert]
  split
  · exact h
  · rename_i hkey
    exact h.append (List.nodup_singleton key) (by simpa using hkey)

/-- What is found is among the entries. -/
theorem mem_of_get? (h : map.get? k = some v) : (k, v) ∈ map.toList := by
  obtain ⟨before, after, heq, -⟩ := List.lookup_eq_some_iff.mp h
  rw [heq]
  exact List.mem_append_right before List.mem_cons_self

/-! ## Changing every value -/

/-- Mapping twice is mapping once. -/
theorem map_map {β γ : Type v} (map : OrderedMap α) (f : α → β) (g : β → γ) :
    (map.map f).map g = map.map fun v => g (f v) := by
  simp only [OrderedMap.map, List.map_map]
  rfl

/-- Functions that agree on the values of a map map it alike. -/
theorem map_congr {β : Type v} {f g : α → β} (h : ∀ entry ∈ map.toList, f entry.2 = g entry.2) :
    map.map f = map.map g := by
  simp only [OrderedMap.map]
  exact congrArg _ (List.map_congr_left fun entry hentry => by rw [h entry hentry])

/-- Inserting and then mapping is mapping and then inserting. -/
theorem map_insert {β : Type v} (map : OrderedMap α) (f : α → β) (key : String) (v : α) :
    (map.insert key v).map f = (map.map f).insert key (f v) := by
  obtain ⟨entries⟩ := map
  simp only [OrderedMap.map, insert, mk.injEq]
  induction entries with
  | nil => rfl
  | cons entry entries ih =>
    simp only [insertEntry, List.map_cons]
    split
    · rfl
    · rw [List.map_cons, ih]

/-- Changing one value and then all of them is changing all of them and then that one. -/
theorem map_modify {β : Type v} (map : OrderedMap α) {f : α → β} {g : α → α} {g' : β → β}
    (h : ∀ v, f (g v) = g' (f v)) (key : String) :
    (map.modify key g).map f = (map.map f).modify key g' := by
  simp only [OrderedMap.map, modify, List.map_map, mk.injEq]
  refine List.map_congr_left fun entry _ => ?_
  obtain ⟨k, v⟩ := entry
  simp only [Function.comp_apply]
  split
  · rw [h]
  · rfl

/-! ## Maps with distinct keys -/

/-- With distinct keys, every entry is found under its key. -/
theorem get?_of_mem (hmap : map.keys.Nodup) (h : (k, v) ∈ map.toList) : map.get? k = some v := by
  obtain ⟨entries⟩ := map
  simp only [get?, keys] at *
  induction entries with
  | nil => cases h
  | cons entry entries ih =>
    obtain ⟨k₀, v₀⟩ := entry
    rw [List.map_cons, List.nodup_cons] at hmap
    rw [lookup_cons_ite]
    rcases List.mem_cons.mp h with heq | hmem
    · cases heq
      rw [if_pos rfl]
    · have hne : k ≠ k₀ := by
        rintro rfl
        exact hmap.1 (List.mem_map_of_mem (f := (·.1)) hmem)
      rw [if_neg hne]
      exact ih hmap.2 hmem

/-- The keys in order and all look-ups determine a map. -/
theorem ext_get? (hmap : map.keys.Nodup) (hkeys : map.keys = map'.keys)
    (hget : ∀ k, map.get? k = map'.get? k) : map = map' := by
  obtain ⟨entries⟩ := map
  obtain ⟨entries'⟩ := map'
  simp only [get?, keys, OrderedMap.mk.injEq] at *
  induction entries generalizing entries' with
  | nil => simpa using hkeys
  | cons entry entries ih =>
    obtain ⟨k₀, v₀⟩ := entry
    cases entries' with
    | nil => simp at hkeys
    | cons entry' entries' =>
      obtain ⟨k₀', v₀'⟩ := entry'
      simp only [List.map_cons, List.cons.injEq, List.nodup_cons] at hkeys hmap
      obtain ⟨rfl, hkeys⟩ := hkeys
      have hhead : v₀ = v₀' := by simpa using hget k₀
      refine List.cons_eq_cons.mpr ⟨by rw [hhead], ih hmap.2 entries' hkeys fun k => ?_⟩
      by_cases hk : k = k₀
      · -- the head has taken this key, so neither tail holds it
        subst hk
        rw [lookup_eq_none_iff.mpr hmap.1, lookup_eq_none_iff.mpr (hkeys ▸ hmap.1)]
      · simpa only [lookup_cons_ite, if_neg hk] using hget k

end LayeredConfig.OrderedMap
