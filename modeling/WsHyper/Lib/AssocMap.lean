import Mathlib.Data.List.Basic

/-!
# Maps as association lists

A map is the list of its entries; `List.lookup` reads it.  `insert` keeps the
entries in key order, as an ordered map iterates over them, and `put` is for
maps whose order nobody sees.  The lemmas read a map after it was written and
need no invariant: the first entry of a key is the one that counts.
-/

namespace WsHyper.Lib

/-- A map from `κ` to `ν`, read by `List.lookup`. -/
abbrev AssocMap (κ ν : Type*) := List (κ × ν)

namespace AssocMap

variable {κ ν : Type*} [BEq κ]

/-- Set the value of `key`, in front of the first greater key. -/
def insert [LT κ] [DecidableLT κ] (key : κ) (value : ν) : AssocMap κ ν → AssocMap κ ν
  | [] => [(key, value)]
  | (k, v) :: map =>
      if k == key then (key, value) :: map
      else if key < k then (key, value) :: (k, v) :: map
      else (k, v) :: insert key value map

def erase (key : κ) (map : AssocMap κ ν) : AssocMap κ ν :=
  map.filter fun entry => entry.1 != key

/-- Set the value of `key` in a map without an order. -/
def put (key : κ) (value : ν) (map : AssocMap κ ν) : AssocMap κ ν :=
  (key, value) :: map.erase key

def orInsert [LT κ] [DecidableLT κ] (key : κ) (value : ν) (map : AssocMap κ ν) :
    AssocMap κ ν :=
  if (map.lookup key).isSome then map else map.insert key value

variable [LawfulBEq κ]

theorem mem_erase {key : κ} {entry : κ × ν} {map : AssocMap κ ν} :
    entry ∈ map.erase key ↔ entry ∈ map ∧ entry.1 ≠ key := by
  rw [erase, List.mem_filter, bne_iff_ne]

@[simp] theorem lookup_erase_self (key : κ) (map : AssocMap κ ν) :
    (map.erase key).lookup key = none := by
  simp only [erase, List.lookup_eq_none_iff, List.mem_filter]
  rintro entry ⟨-, hne⟩
  simpa using Ne.symm (bne_iff_ne.1 hne)

theorem lookup_erase_of_ne {key other : κ} (hne : other ≠ key) (map : AssocMap κ ν) :
    (map.erase key).lookup other = map.lookup other := by
  induction map with
  | nil => rfl
  | cons entry map ih =>
      obtain ⟨k, v⟩ := entry
      by_cases hk : k = key
      · subst hk
        have hbeq : (other == k) = false := by simpa using hne
        simpa [erase, List.lookup_cons, hbeq] using ih
      · have hkeep : erase key ((k, v) :: map) = (k, v) :: erase key map := by
          simp [erase, hk]
        rw [hkeep, List.lookup_cons, List.lookup_cons, ih]

variable [DecidableEq κ]

theorem lookup_of_lookup_erase {key other : κ} {value : ν} {map : AssocMap κ ν}
    (hlookup : (map.erase key).lookup other = some value) : map.lookup other = some value := by
  by_cases hother : other = key
  · simp [hother] at hlookup
  · rwa [lookup_erase_of_ne hother] at hlookup

@[simp] theorem lookup_cons_eq (key k : κ) (v : ν) (map : AssocMap κ ν) :
    List.lookup key ((k, v) :: map) = if k = key then some v else map.lookup key := by
  by_cases hk : k = key
  · simp [hk]
  · have hbeq : (key == k) = false := by simpa using Ne.symm hk
    simp [List.lookup_cons, hk, hbeq]

theorem lookup_put (key other : κ) (value : ν) (map : AssocMap κ ν) :
    (map.put key value).lookup other = if key = other then some value else map.lookup other := by
  rw [put, lookup_cons_eq]
  split_ifs with hkey
  · rfl
  · exact lookup_erase_of_ne (Ne.symm hkey) map

theorem mem_of_lookup {key : κ} {value : ν} {map : AssocMap κ ν}
    (hlookup : map.lookup key = some value) : (key, value) ∈ map := by
  induction map with
  | nil => simp at hlookup
  | cons entry map ih =>
      obtain ⟨k, v⟩ := entry
      rw [lookup_cons_eq] at hlookup
      split_ifs at hlookup with hk
      · rw [hk, Option.some.inj hlookup]
        exact List.mem_cons_self
      · exact List.mem_cons_of_mem _ (ih hlookup)

theorem lookup_eq_none_of_not_mem {key : κ} {map : AssocMap κ ν}
    (hkey : key ∉ map.map Prod.fst) : map.lookup key = none := by
  cases hlookup : map.lookup key with
  | none => rfl
  | some value => exact absurd (List.mem_map_of_mem (mem_of_lookup hlookup)) hkey

/-- With one entry for each key, reading a map is membership. -/
theorem lookup_of_mem {key : κ} {value : ν} {map : AssocMap κ ν}
    (hnodup : (map.map Prod.fst).Nodup) (hmem : (key, value) ∈ map) :
    map.lookup key = some value := by
  induction map with
  | nil => simp at hmem
  | cons entry map ih =>
      obtain ⟨k, v⟩ := entry
      rw [List.map_cons, List.nodup_cons] at hnodup
      rw [lookup_cons_eq]
      rcases List.mem_cons.1 hmem with heq | htail
      · obtain ⟨rfl, rfl⟩ := Prod.mk.inj heq
        rw [if_pos rfl]
      · have hne : k ≠ key := by
          rintro rfl
          exact hnodup.1 (List.mem_map.2 ⟨_, htail, rfl⟩)
        rw [if_neg hne, ih hnodup.2 htail]

theorem lookup_append_cons {key : κ} {front : AssocMap κ ν} (hkey : key ∉ front.map Prod.fst)
    (value : ν) (back : AssocMap κ ν) :
    List.lookup key (front ++ (key, value) :: back) = some value := by
  rw [List.lookup_append, lookup_eq_none_of_not_mem hkey, Option.none_or, lookup_cons_eq,
    if_pos rfl]

omit [BEq κ] [LawfulBEq κ] in
theorem map_append_cons {key : κ} {front back : AssocMap κ ν}
    (hfront : key ∉ front.map Prod.fst) (hback : key ∉ back.map Prod.fst) (value : ν)
    (f : κ × ν → κ × ν) :
    (front ++ (key, value) :: back).map (fun entry => if entry.1 = key then f entry else entry) =
      front ++ f (key, value) :: back := by
  have hsame : ∀ map : AssocMap κ ν, key ∉ map.map Prod.fst →
      map.map (fun entry => if entry.1 = key then f entry else entry) = map := by
    intro map hmap
    calc
      _ = map.map id := by
        apply List.map_congr_left
        intro entry hentry
        have hne : entry.1 ≠ key := fun heq => hmap (List.mem_map.2 ⟨entry, hentry, heq⟩)
        rw [if_neg hne, id]
      _ = map := List.map_id map
  rw [List.map_append, List.map_cons, hsame front hfront, hsame back hback, if_pos rfl]

omit [DecidableEq κ] in
theorem erase_eq_self {key : κ} {map : AssocMap κ ν} (hkey : key ∉ map.map Prod.fst) :
    map.erase key = map := by
  rw [erase, List.filter_eq_self]
  intro entry hentry
  have hne : entry.1 ≠ key := fun heq => hkey (List.mem_map.2 ⟨entry, hentry, heq⟩)
  exact bne_iff_ne.2 hne

section Ordered

variable [LT κ] [DecidableLT κ]

@[simp] theorem lookup_insert_self (key : κ) (value : ν) (map : AssocMap κ ν) :
    (map.insert key value).lookup key = some value := by
  induction map with
  | nil => simp [insert]
  | cons entry map ih =>
      obtain ⟨k, v⟩ := entry
      rw [insert]
      split_ifs with hk
      · simp
      · simp
      · simpa [beq_iff_eq.not.1 hk] using ih

theorem lookup_insert_of_ne {key other : κ} (hne : other ≠ key) (value : ν)
    (map : AssocMap κ ν) :
    (map.insert key value).lookup other = map.lookup other := by
  have hne' : key ≠ other := Ne.symm hne
  induction map with
  | nil => simp [insert, hne']
  | cons entry map ih =>
      obtain ⟨k, v⟩ := entry
      rw [insert]
      split_ifs with hk
      · simp [beq_iff_eq.1 hk, hne']
      · simp [hne']
      · simp [ih]

theorem lookup_insert (key other : κ) (value : ν) (map : AssocMap κ ν) :
    (map.insert key value).lookup other =
      if key = other then some value else map.lookup other := by
  split_ifs with hkey
  · subst hkey
    exact lookup_insert_self key value map
  · exact lookup_insert_of_ne (Ne.symm hkey) value map

theorem lookup_orInsert (key other : κ) (value : ν) (map : AssocMap κ ν) :
    (map.orInsert key value).lookup other =
      if key = other then some ((map.lookup key).getD value) else map.lookup other := by
  rw [orInsert]
  cases hkey : map.lookup key with
  | some v =>
      rw [if_pos (by simp)]
      split_ifs with hother
      · rw [← hother, hkey, Option.getD_some]
      · rfl
  | none => simp [lookup_insert]

end Ordered

end AssocMap

end WsHyper.Lib
