import LayeredConfig.Proofs.OrderedMap
import Mathlib.Data.List.Forall2
import Mathlib.Data.List.Induction
import Mathlib.Data.String.Basic

/-!
# Histories of ordered maps

An ordered map is compared with an unordered one to which the same operations have been applied.
The unordered map knows every look-up, and so when a key was absent; what the ordered map adds is
the order of the keys. `Records` says what the two have to do with each other after a history of
operations: the look-ups are the same, and every key stands where it was last inserted while it was
absent. One operation keeps that (`Records.concat`), so every history does
(`records_history`).
-/

namespace LayeredConfig.OrderedMap

/-- An operation that changes a map. What is done to a value in its place is a function. -/
inductive Operation (α : Type u)
  /-- Writes a value. -/
  | insert (key : String) (value : α)
  /-- Inserts a value unless there is one, and changes the value that is there then. -/
  | getOrInsert (key : String) (value : α) (change : α → α)
  /-- Changes the value at a key, if there is one. -/
  | modify (key : String) (change : α → α)
  /-- Changes every value. -/
  | modifyAll (change : String → α → α)
  /-- Drops a key. -/
  | erase (key : String)
  /-- Drops the keys for which there is no new value, and changes the other values. -/
  | retain (keep : String → α → Option α)

namespace Operation

/-- What an operation makes of a map. -/
def apply : Operation α → OrderedMap α → OrderedMap α
  | insert key value, map => map.insert key value
  | getOrInsert key value change, map => (map.insertIfNew key value).modify key change
  | modify key change, map => map.modify key change
  | modifyAll change, map => map.filterMap fun k v => some (change k v)
  | erase key, map => map.erase key
  | retain keep, map => map.filterMap keep

/-- What an operation makes of a map without an order. -/
def applyUnordered : Operation α → Std.ExtHashMap String α → Std.ExtHashMap String α
  | insert key value, map => map.insert key value
  | getOrInsert key value change, map => (map.insertIfNew key value).modify key change
  | modify key change, map => map.modify key change
  | modifyAll change, map => map.map change
  | erase key, map => map.erase key
  | retain keep, map => map.filterMap keep

/-- The key that an operation inserts if it is absent. -/
def inserted? : Operation α → Option String
  | insert key _ => some key
  | getOrInsert key _ _ => some key
  | modify _ _ => none
  | modifyAll _ => none
  | erase _ => none
  | retain _ => none

/-- Applies one operation after the other. -/
def applyAll (operations : List (Operation α)) (map : OrderedMap α) : OrderedMap α :=
  operations.foldl (fun map op => op.apply map) map

/-- Applies one operation after the other to a map without an order. -/
def applyAllUnordered (operations : List (Operation α)) (map : Std.ExtHashMap String α) :
    Std.ExtHashMap String α :=
  operations.foldl (fun map op => op.applyUnordered map) map

/-- Two histories are applied one after the other. -/
theorem applyAll_append (operations operations' : List (Operation α)) (map : OrderedMap α) :
    applyAll (operations ++ operations') map = applyAll operations' (applyAll operations map) :=
  List.foldl_append

/-- So they are to an unordered map. -/
theorem applyAllUnordered_append (operations operations' : List (Operation α))
    (map : Std.ExtHashMap String α) :
    applyAllUnordered (operations ++ operations') map =
      applyAllUnordered operations' (applyAllUnordered operations map) :=
  List.foldl_append

/-- The operations that collect a list of pairs. -/
def collect (pairs : List (String × α)) : List (Operation α) :=
  pairs.map fun (key, value) => .insert key value

end Operation

open Operation

variable {α : Type u} {map : OrderedMap α} {unordered : Std.ExtHashMap String α}
  {history : List (Operation α)} {op : Operation α} {key : String} {i j : Nat}

/-! ## Look-ups -/

/-- After an erasure, the key is gone and the others have their values. -/
theorem get?_erase (map : OrderedMap α) (key k : String) :
    (map.erase key).get? k = if k = key then none else map.get? k := by
  obtain ⟨entries⟩ := map
  simp only [get?, erase]
  induction entries with
  | nil => simp
  | cons entry entries ih =>
    obtain ⟨k₀, v₀⟩ := entry
    by_cases hk₀ : k₀ = key
    · rw [List.filter_cons_of_neg (by simpa using hk₀), ih, lookup_cons_ite, hk₀]
      split_ifs <;> rfl
    · rw [List.filter_cons_of_pos (by simpa using hk₀), lookup_cons_ite, lookup_cons_ite, ih]
      by_cases h : k = k₀
      · rw [if_pos h, if_neg (h ▸ hk₀), if_pos h]
      · rw [if_neg h, if_neg h]

/-- Inserting a key that is there changes nothing. -/
theorem get?_insertIfNew (map : OrderedMap α) (key k : String) (v : α) :
    (map.insertIfNew key v).get? k =
      if k = key ∧ map.get? key = none then some v else map.get? k := by
  rw [insertIfNew, contains]
  cases hget : map.get? key with
  | none => simp [get?_insert]
  | some w => simp

/-- Dropping entries leaves the first one at each key only if there is no second one. -/
theorem get?_filterMap {β : Type v} (hmap : map.keys.Nodup) (f : String → α → Option β)
    (k : String) : (map.filterMap f).get? k = (map.get? k).bind (f k) := by
  obtain ⟨entries⟩ := map
  simp only [get?, keys, OrderedMap.filterMap] at *
  induction entries with
  | nil => simp
  | cons entry entries ih =>
    obtain ⟨k₀, v₀⟩ := entry
    rw [List.map_cons, List.nodup_cons] at hmap
    rw [lookup_cons_ite, List.filterMap_cons]
    by_cases h : k = k₀
    · subst h
      rw [if_pos rfl, Option.bind_some]
      cases hf : f k v₀ with
      | some w => simp
      | none =>
        -- the keys are distinct, so that no later entry takes the place of the dropped one
        have habsent : entries.lookup k = none := lookup_eq_none_iff.mpr hmap.1
        simp [ih hmap.2, habsent]
    · rw [if_neg h, ← ih hmap.2]
      cases f k₀ v₀ with
      | some w => simp [lookup_cons_ite, h]
      | none => simp

/-- An operation does to every look-up what it does without an order. -/
theorem get?_apply (hmap : map.keys.Nodup) (h : ∀ k, map.get? k = unordered[k]?)
    (op : Operation α) (k : String) :
    (op.apply map).get? k = (op.applyUnordered unordered)[k]? := by
  cases op with
  | insert key value =>
    simp only [apply, applyUnordered, get?_insert, Std.ExtHashMap.getElem?_insert, h, beq_iff_eq,
      @eq_comm _ key k]
  | getOrInsert key value change =>
    -- the key is inserted if it is absent, which both maps say alike
    have habsent : unordered[key]? = none ↔ key ∉ unordered := by
      rw [Std.ExtHashMap.mem_iff_isSome_getElem?, Option.not_isSome_iff_eq_none]
    simp only [apply, applyUnordered, get?_modify, get?_insertIfNew, h, habsent,
      Std.ExtHashMap.getElem?_modify, Std.ExtHashMap.getElem?_insertIfNew, beq_iff_eq]
    by_cases hk : k = key
    · simp [hk]
    · simp [hk, Ne.symm hk]
  | modify key change =>
    simp only [apply, applyUnordered, get?_modify, Std.ExtHashMap.getElem?_modify, h, beq_iff_eq]
    by_cases hk : k = key
    · simp [hk]
    · simp [hk, Ne.symm hk]
  | modifyAll change =>
    rw [apply, applyUnordered, get?_filterMap hmap, Std.ExtHashMap.getElem?_map, h,
      Option.map_eq_bind]
    rfl
  | erase key =>
    simp only [apply, applyUnordered, get?_erase, Std.ExtHashMap.getElem?_erase, h, beq_iff_eq,
      @eq_comm _ key k]
  | retain keep =>
    rw [apply, applyUnordered, get?_filterMap hmap, Std.ExtHashMap.getElem?_filterMap', h]

/-! ## The order of the keys -/

/-- An erasure leaves the other keys in their order. -/
theorem keys_erase (map : OrderedMap α) (key : String) :
    (map.erase key).keys = map.keys.filter (· ≠ key) := by
  rw [keys, erase, keys, List.filter_map]
  rfl

/-- Dropping entries keeps the order of the others. -/
theorem keys_filterMap_sublist {β : Type v} (map : OrderedMap α) (f : String → α → Option β) :
    (map.filterMap f).keys.Sublist map.keys := by
  obtain ⟨entries⟩ := map
  simp only [keys, OrderedMap.filterMap]
  induction entries with
  | nil => simp
  | cons entry entries ih =>
    obtain ⟨k, v⟩ := entry
    rw [List.filterMap_cons, List.map_cons]
    cases f k v with
    | none => exact ih.cons k
    | some w => exact ih.cons_cons k

/-- A new key is put at the end. -/
theorem keys_insertIfNew (map : OrderedMap α) (key : String) (v : α) :
    (map.insertIfNew key v).keys = if key ∈ map.keys then map.keys else map.keys ++ [key] := by
  rw [insertIfNew, contains]
  cases hget : map.get? key with
  | none => simp [keys_insert]
  | some w => simp [mem_keys_of_get? hget]

/-- Inserting appends a key that is absent. A key that is there does not move. -/
theorem keys_apply_of_inserted (h : op.inserted? = some key) (map : OrderedMap α) :
    (op.apply map).keys = if key ∈ map.keys then map.keys else map.keys ++ [key] := by
  cases op with
  | insert k value =>
    obtain rfl : k = key := Option.some.inj h
    exact keys_insert map k value
  | getOrInsert k value change =>
    obtain rfl : k = key := Option.some.inj h
    rw [apply, keys_modify, keys_insertIfNew]
  | _ => cases h

/-- An operation that inserts nothing drops keys at most. -/
theorem keys_apply_sublist (h : op.inserted? = none) (map : OrderedMap α) :
    (op.apply map).keys.Sublist map.keys := by
  cases op with
  | insert _ _ => cases h
  | getOrInsert _ _ _ => cases h
  | modify key change => rw [apply, keys_modify]
  | modifyAll change => exact keys_filterMap_sublist map _
  | erase key =>
    rw [apply, keys_erase]
    exact List.filter_sublist
  | retain keep => exact keys_filterMap_sublist map keep

/-- An operation drops keys and keeps the order of the others, or appends the key that it inserts
while it is absent. -/
theorem keys_apply (op : Operation α) (map : OrderedMap α) :
    (op.apply map).keys.Sublist map.keys ∨
      ∃ key, op.inserted? = some key ∧ key ∉ map.keys ∧
        (op.apply map).keys = map.keys ++ [key] := by
  cases hop : op.inserted? with
  | none => exact .inl (keys_apply_sublist hop map)
  | some key =>
    rw [keys_apply_of_inserted hop]
    split_ifs with hkey
    · exact .inl (.refl _)
    · exact .inr ⟨key, rfl, hkey, rfl⟩

/-! ## When a key was inserted -/

/-- The operation at place `i` of a history inserts `key` while it is absent. -/
def InsertsNew (history : List (Operation α)) (i : Nat) (key : String) : Prop :=
  (∃ op, history[i]? = some op ∧ op.inserted? = some key) ∧
    key ∉ applyAllUnordered (history.take i) ∅

/-- The last operation of a history that inserts `key` while it is absent is at place `i`. -/
def LastInsertedAt (history : List (Operation α)) (i : Nat) (key : String) : Prop :=
  InsertsNew history i key ∧ ∀ j, InsertsNew history j key → j ≤ i

/-- A key is inserted at a moment of its history. -/
theorem InsertsNew.lt_length (h : InsertsNew history i key) : i < history.length := by
  obtain ⟨⟨op, hop, -⟩, -⟩ := h
  exact (List.getElem?_eq_some_iff.mp hop).1

/-- A later operation does not change what was inserted before. -/
theorem insertsNew_concat_of_lt (hi : i < history.length) :
    InsertsNew (history ++ [op]) i key ↔ InsertsNew history i key := by
  rw [InsertsNew, InsertsNew, List.getElem?_append_left hi,
    List.take_append_of_le_length (by omega)]

/-- The last operation inserts a key if the map does not have it yet. -/
theorem insertsNew_concat_length :
    InsertsNew (history ++ [op]) history.length key ↔
      op.inserted? = some key ∧ key ∉ applyAllUnordered history ∅ := by
  simp [InsertsNew]

/-- A key that is there stays where it was inserted. -/
theorem LastInsertedAt.concat (h : LastInsertedAt history i key)
    (hkey : key ∈ applyAllUnordered history ∅) (op : Operation α) :
    LastInsertedAt (history ++ [op]) i key := by
  refine ⟨(insertsNew_concat_of_lt h.1.lt_length).mpr h.1, fun j hj => ?_⟩
  have hlt := hj.lt_length
  rw [List.length_append, List.length_singleton] at hlt
  rcases Nat.lt_succ_iff_lt_or_eq.mp hlt with hlt | rfl
  · exact h.2 j ((insertsNew_concat_of_lt hlt).mp hj)
  · exact absurd hkey (insertsNew_concat_length.mp hj).2

/-- A key that the last operation inserts has been inserted last by it. -/
theorem lastInsertedAt_concat (hop : op.inserted? = some key)
    (hkey : key ∉ applyAllUnordered history ∅) :
    LastInsertedAt (history ++ [op]) history.length key := by
  refine ⟨insertsNew_concat_length.mpr ⟨hop, hkey⟩, fun j hj => ?_⟩
  have hlt := hj.lt_length
  rw [List.length_append, List.length_singleton] at hlt
  omega

/-! ## Maps and their histories -/

/-- What an ordered map has to do with the history that it comes from. -/
structure Records (history : List (Operation α)) (map : OrderedMap α) : Prop where
  nodup : map.keys.Nodup
  lookup : ∀ key, map.get? key = (applyAllUnordered history ∅)[key]?
  /-- The keys stand in the order in which they were last inserted while they were absent. -/
  arranged : ∃ moment : String → Nat,
    (∀ key ∈ map.keys, LastInsertedAt history (moment key) key) ∧
      map.keys.Pairwise fun k k' => moment k < moment k'

/-- Both maps have the same keys. -/
theorem Records.mem_iff (h : Records history map) :
    key ∈ applyAllUnordered history ∅ ↔ key ∈ map.keys := by
  rw [Std.ExtHashMap.mem_iff_isSome_getElem?, ← h.lookup, mem_keys_iff, Option.isSome_iff_exists]

/-- The empty map records the empty history. -/
theorem records_nil : Records ([] : List (Operation α)) ∅ where
  nodup := List.nodup_nil
  lookup key := by
    show none = _
    simp [applyAllUnordered]
  arranged := ⟨fun _ => 0, by simp [keys, EmptyCollection.emptyCollection, empty]⟩

/-- What a map records it still records after one more operation. -/
theorem Records.concat (h : Records history map) (op : Operation α) :
    Records (history ++ [op]) (op.apply map) := by
  have hlookup : ∀ key, (op.apply map).get? key =
      (applyAllUnordered (history ++ [op]) ∅)[key]? := by
    rw [applyAllUnordered_append]
    exact get?_apply h.nodup h.lookup op
  obtain ⟨moment, hmoment, hsorted⟩ := h.arranged
  -- the keys that are there keep their moments, since no operation inserts a key that is there
  have hstays : ∀ key ∈ map.keys, LastInsertedAt (history ++ [op]) (moment key) key :=
    fun key hkey => (hmoment key hkey).concat (h.mem_iff.mpr hkey) op
  rcases keys_apply op map with hsub | ⟨key, hop, hkey, hkeys⟩
  · exact
      { nodup := h.nodup.sublist hsub
        lookup := hlookup
        arranged := ⟨moment, fun key hkey => hstays key (hsub.subset hkey), hsorted.sublist hsub⟩ }
  · -- the new key comes last, and its moment is later than all others
    have hother : ∀ k ∈ map.keys, k ≠ key := fun k hk heq => hkey (heq ▸ hk)
    have hnew : LastInsertedAt (history ++ [op]) history.length key :=
      lastInsertedAt_concat hop (fun hmem => hkey (h.mem_iff.mp hmem))
    refine
      { nodup := ?_
        lookup := hlookup
        arranged := ⟨Function.update moment key history.length, fun k hk => ?_, ?_⟩ }
    · rw [hkeys]
      exact h.nodup.append (List.nodup_singleton key) (by simpa using hkey)
    · rw [hkeys] at hk
      rcases List.mem_append.mp hk with hk | hk
      · rw [Function.update_of_ne (hother k hk)]
        exact hstays k hk
      · rw [List.mem_singleton.mp hk, Function.update_self]
        exact hnew
    · rw [hkeys, List.pairwise_append]
      refine ⟨hsorted.imp_of_mem fun {a b} ha hb hlt => ?_, List.pairwise_singleton _ _, ?_⟩
      · rwa [Function.update_of_ne (hother a ha), Function.update_of_ne (hother b hb)]
      · intro a ha b hb
        rw [List.mem_singleton.mp hb, Function.update_self, Function.update_of_ne (hother a ha)]
        exact (hmoment a ha).1.lt_length

/-- A map to which a history is applied records it. -/
theorem records_history (history : List (Operation α)) : Records history (applyAll history ∅) := by
  induction history using List.reverseRecOn with
  | nil => exact records_nil
  | append_singleton history op ih =>
    rw [applyAll_append]
    exact ih.concat op

/-- Collecting pairs is inserting them one by one. -/
theorem applyAll_collect (pairs : List (String × α)) :
    applyAll (collect pairs) ∅ = ofList pairs := by
  rw [applyAll, collect, List.foldl_map]
  rfl

/-- So it is for an unordered map. -/
theorem applyAllUnordered_collect (pairs : List (String × α)) :
    applyAllUnordered (collect pairs) ∅ = Std.ExtHashMap.ofList pairs := by
  rw [applyAllUnordered, collect, List.foldl_map, Std.ExtHashMap.ofList_eq_foldl]
  rfl

/-! ## Equality -/

/-- Maps are equal exactly when they list equal entries in the same order, whatever it is that makes
two values equal. -/
theorem beq_eq_true_iff_forall₂ [BEq α] (map map' : OrderedMap α) :
    map.beq map' = true ↔ List.Forall₂ (fun entry entry' =>
      entry.1 = entry'.1 ∧ (entry.2 == entry'.2) = true) map.toList map'.toList := by
  have hpair (entry entry' : String × α) : (entry == entry') = true ↔
      entry.1 = entry'.1 ∧ (entry.2 == entry'.2) = true := by
    show (entry.1 == entry'.1 && entry.2 == entry'.2) = true ↔ _
    rw [Bool.and_eq_true, beq_iff_eq]
  rw [List.forall₂_iff_zip, beq, Bool.and_eq_true, beq_iff_eq, List.all_eq_true]
  refine and_congr_right fun _ => ⟨fun h entry entry' hmem => ?_, fun h pair hmem => ?_⟩
  · exact (hpair entry entry').mp (h (entry, entry') hmem)
  · exact (hpair pair.1 pair.2).mpr (h hmem)

/-- Where values are equal only to themselves, so are maps. -/
theorem beq_eq_true_iff [BEq α] [LawfulBEq α] (map map' : OrderedMap α) :
    map.beq map' = true ↔ map = map' := by
  obtain ⟨entries⟩ := map
  obtain ⟨entries'⟩ := map'
  rw [beq_eq_true_iff_forall₂, OrderedMap.mk.injEq, ← List.forall₂_eq_eq_eq]
  simp [Prod.ext_iff]

/-! ## What a history determines -/

/-- A map that is collected from pairs and then worked on has distinct keys, each at the place where
it was last inserted while it was absent: overwriting moves none, and dropping one leaves the order
of the others alone. Its look-ups are those of a map without an order, and it is equal to the maps
that list equal entries in the same order. -/
theorem history_arranges_keys [BEq α] (pairs : List (String × α))
    (operations : List (Operation α)) :
    let history := collect pairs ++ operations
    let map := applyAll operations (ofList pairs)
    let unordered := applyAllUnordered operations (Std.ExtHashMap.ofList pairs)
    map.keys.Nodup ∧
      (∃ moment : String → Nat,
        (∀ key ∈ map.keys, LastInsertedAt history (moment key) key) ∧
          map.keys.Pairwise fun k k' => moment k < moment k') ∧
      (∀ (op : Operation α) (key : String), op.inserted? = some key → key ∈ map.keys →
        (op.apply map).keys = map.keys) ∧
      (∀ key, (map.erase key).keys = map.keys.filter (· ≠ key)) ∧
      (∀ key, map.get? key = unordered[key]? ∧ map.contains key = unordered.contains key) ∧
      ∀ map' : OrderedMap α, map.beq map' = true ↔ List.Forall₂ (fun entry entry' =>
        entry.1 = entry'.1 ∧ (entry.2 == entry'.2) = true) map.toList map'.toList := by
  intro history map unordered
  have hmap : applyAll history ∅ = map := by
    rw [applyAll_append, applyAll_collect]
  have hunordered : applyAllUnordered history ∅ = unordered := by
    rw [applyAllUnordered_append, applyAllUnordered_collect]
  -- collecting the pairs is the start of the history, so that all of it starts from the empty map
  have hrecords : Records history map := hmap ▸ records_history history
  have hlookup : ∀ key, map.get? key = unordered[key]? := hunordered ▸ hrecords.lookup
  refine ⟨hrecords.nodup, hrecords.arranged, fun op key hop hkey => ?_, keys_erase map,
    fun key => ⟨hlookup key, ?_⟩, beq_eq_true_iff_forall₂ map⟩
  · rw [keys_apply_of_inserted hop, if_pos hkey]
  · rw [contains, hlookup, Std.ExtHashMap.isSome_getElem?_eq_contains]

example : (applyAll [.erase "y", .insert "y" 5, .erase "x", .insert "z" 7]
    (ofList [("x", 0), ("y", 1), ("z", 2), ("w", 3)])).toList =
      [("z", 7), ("w", 3), ("y", 5)] := by
  decide

end LayeredConfig.OrderedMap
