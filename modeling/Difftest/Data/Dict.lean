import Mathlib.Tactic

/-!
# Insertion-ordered dictionaries

A dictionary is a list of entries with distinct keys.  Assigning to a present
key keeps its place, assigning to a new key appends it, so `keys` enumerates in
insertion order.  Everything else is stated through `get?`, the partial
function the dictionary denotes.
-/

namespace Difftest

universe u v

/-- A dictionary with distinct keys, in insertion order. -/
structure Dict (κ : Type u) (ν : Type v) where
  /-- The entries in insertion order. -/
  entries : List (κ × ν)
  /-- No key occurs twice. -/
  distinct : (entries.map Prod.fst).Nodup

namespace Dict

variable {κ : Type u} {ν : Type v}

/-- The dictionary without entries. -/
def empty : Dict κ ν := ⟨[], List.nodup_nil⟩

instance : Inhabited (Dict κ ν) := ⟨empty⟩

/-- The keys in insertion order. -/
def keys (dict : Dict κ ν) : List κ := dict.entries.map Prod.fst

/-- The values in insertion order of their keys. -/
def values (dict : Dict κ ν) : List ν := dict.entries.map Prod.snd

theorem keys_nodup (dict : Dict κ ν) : dict.keys.Nodup := dict.distinct

/-- Dictionaries with the same entries are equal. -/
theorem eq_of_entries {first second : Dict κ ν} (same : first.entries = second.entries) :
    first = second := by
  cases first
  cases second
  cases same
  rfl

variable [DecidableEq κ]

/-- Value of the first entry with the given key. -/
def find (key : κ) : List (κ × ν) → Option ν
  | [] => none
  | entry :: rest => if entry.1 = key then some entry.2 else find key rest

/-- Replace the value of the given key, or append a new entry. -/
def assign (key : κ) (value : ν) : List (κ × ν) → List (κ × ν)
  | [] => [(key, value)]
  | entry :: rest =>
      if entry.1 = key then (key, value) :: rest else entry :: assign key value rest

theorem find_eq_none_iff {key : κ} {entries : List (κ × ν)} :
    find key entries = none ↔ key ∉ entries.map Prod.fst := by
  induction entries with
  | nil => simp [find]
  | cons entry rest ih =>
      by_cases same : entry.1 = key
      · simp [find, same]
      · simp [find, same, ih, Ne.symm same]

theorem mem_of_find {key : κ} {value : ν} {entries : List (κ × ν)}
    (found : find key entries = some value) : (key, value) ∈ entries := by
  induction entries with
  | nil => cases found
  | cons entry rest ih =>
      rw [find] at found
      split at found
      · rename_i same
        cases found
        rw [← same]
        exact List.mem_cons_self
      · exact List.mem_cons_of_mem entry (ih found)

theorem find_assign_self (key : κ) (value : ν) (entries : List (κ × ν)) :
    find key (assign key value entries) = some value := by
  induction entries with
  | nil => simp [assign, find]
  | cons entry rest ih =>
      by_cases same : entry.1 = key
      · simp [assign, find, same]
      · simp [assign, find, same, ih]

theorem find_assign_of_ne {key other : κ} (ne : other ≠ key) (value : ν)
    (entries : List (κ × ν)) :
    find other (assign key value entries) = find other entries := by
  induction entries with
  | nil => simp [assign, find, Ne.symm ne]
  | cons entry rest ih =>
      by_cases same : entry.1 = key
      · simp [assign, find, same, Ne.symm ne]
      · simp [assign, find, same, ih]

theorem mem_keys_assign {key other : κ} {value : ν} {entries : List (κ × ν)} :
    other ∈ (assign key value entries).map Prod.fst ↔
      other = key ∨ other ∈ entries.map Prod.fst := by
  induction entries with
  | nil => simp [assign]
  | cons entry rest ih =>
      by_cases same : entry.1 = key
      · simp [assign, same]
      · simp only [assign, same, if_false, List.map_cons, List.mem_cons, ih]
        tauto

/-- A new key comes last. -/
theorem assign_of_notMem {key : κ} {entries : List (κ × ν)} (new : key ∉ entries.map Prod.fst)
    (value : ν) : assign key value entries = entries ++ [(key, value)] := by
  induction entries with
  | nil => rfl
  | cons entry rest inductionHypothesis =>
      rw [List.map_cons, List.mem_cons, not_or] at new
      rw [assign, if_neg (Ne.symm new.1), inductionHypothesis new.2, List.cons_append]

theorem assign_distinct {key : κ} {value : ν} {entries : List (κ × ν)}
    (distinct : (entries.map Prod.fst).Nodup) :
    ((assign key value entries).map Prod.fst).Nodup := by
  induction entries with
  | nil => simp [assign]
  | cons entry rest ih =>
      rw [List.map_cons, List.nodup_cons] at distinct
      by_cases same : entry.1 = key
      · subst same
        simpa [assign] using distinct
      · rw [assign, if_neg same, List.map_cons, List.nodup_cons]
        refine ⟨?_, ih distinct.2⟩
        rw [mem_keys_assign]
        rintro (clash | mem)
        · exact same clash
        · exact distinct.1 mem

/-- `dict.get(key)`: the value of a present key. -/
def get? (dict : Dict κ ν) (key : κ) : Option ν := find key dict.entries

/-- `dict.get(key, default)`. -/
def getD (dict : Dict κ ν) (key : κ) (default : ν) : ν := (dict.get? key).getD default

/-- `dict[key] = value`. -/
def set (dict : Dict κ ν) (key : κ) (value : ν) : Dict κ ν :=
  ⟨assign key value dict.entries, assign_distinct dict.distinct⟩

/-- `dict.pop(key)` without its result; an absent key changes nothing here, the
callers check for it. -/
def erase (dict : Dict κ ν) (key : κ) : Dict κ ν :=
  ⟨dict.entries.filter fun entry => entry.1 ≠ key,
    dict.distinct.sublist (List.filter_sublist.map Prod.fst)⟩

/-- `dict[key] = default` unless the key is present. -/
def setDefault (dict : Dict κ ν) (key : κ) (default : ν) : Dict κ ν :=
  match dict.get? key with
  | some _ => dict
  | none => dict.set key default

@[simp]
theorem get?_empty (key : κ) : (empty : Dict κ ν).get? key = none := rfl

@[simp]
theorem get?_set_self (dict : Dict κ ν) (key : κ) (value : ν) :
    (dict.set key value).get? key = some value :=
  find_assign_self key value dict.entries

theorem get?_set_of_ne (dict : Dict κ ν) {key other : κ} (ne : other ≠ key) (value : ν) :
    (dict.set key value).get? other = dict.get? other :=
  find_assign_of_ne ne value dict.entries

theorem get?_set (dict : Dict κ ν) (key other : κ) (value : ν) :
    (dict.set key value).get? other = if other = key then some value else dict.get? other := by
  by_cases same : other = key
  · simp [same]
  · simp [same, get?_set_of_ne dict same]

theorem getD_set (dict : Dict κ ν) (key other : κ) (value default : ν) :
    (dict.set key value).getD other default =
      if other = key then value else dict.getD other default := by
  by_cases same : other = key
  · simp [getD, same]
  · simp [getD, same, get?_set_of_ne dict same]

theorem mem_keys_iff (dict : Dict κ ν) (key : κ) :
    key ∈ dict.keys ↔ (dict.get? key).isSome := by
  rw [← not_iff_not, keys, get?, ← find_eq_none_iff]
  simp

/-- Inserting the default does not change what a lookup with that default sees. -/
@[simp]
theorem getD_setDefault (dict : Dict κ ν) (key other : κ) (default : ν) :
    (dict.setDefault key default).getD other default = dict.getD other default := by
  unfold setDefault
  cases present : dict.get? key with
  | some value => rfl
  | none =>
      rw [getD_set]
      split
      · rename_i same
        rw [same, getD, present]
        rfl
      · rfl

/-- Assign `compute key` to every listed key in turn, failing at the first key
without a value. -/
def collect (compute : κ → Option ν) : List κ → Dict κ ν → Option (Dict κ ν)
  | [], dict => some dict
  | key :: rest, dict =>
      (compute key).bind fun value => collect compute rest (dict.set key value)

theorem get?_of_collect {compute : κ → Option ν} {list : List κ} {dict result : Dict κ ν}
    (collected : collect compute list dict = some result) (key : κ) :
    result.get? key = if key ∈ list then compute key else dict.get? key := by
  induction list generalizing dict with
  | nil =>
      cases collected
      simp
  | cons first rest ih =>
      obtain ⟨value, computed, collected⟩ := Option.bind_eq_some_iff.mp collected
      rw [ih collected]
      by_cases mem : key ∈ rest
      · simp [mem]
      · by_cases same : key = first
        · subst same
          simp [mem, computed]
        · simp [mem, same, get?_set_of_ne dict same]

theorem isSome_of_collect {compute : κ → Option ν} {list : List κ} {dict result : Dict κ ν}
    (collected : collect compute list dict = some result) {key : κ} (mem : key ∈ list) :
    (compute key).isSome := by
  induction list generalizing dict with
  | nil => simp at mem
  | cons first rest ih =>
      obtain ⟨value, computed, collected⟩ := Option.bind_eq_some_iff.mp collected
      rcases List.mem_cons.mp mem with rfl | mem
      · exact Option.isSome_of_eq_some computed
      · exact ih collected mem

theorem collect_isSome {compute : κ → Option ν} {list : List κ}
    (defined : ∀ key ∈ list, (compute key).isSome) (dict : Dict κ ν) :
    (collect compute list dict).isSome := by
  induction list generalizing dict with
  | nil => rfl
  | cons first rest ih =>
      obtain ⟨value, computed⟩ := Option.isSome_iff_exists.mp (defined first List.mem_cons_self)
      rw [collect, computed, Option.bind_some]
      exact ih (fun key mem => defined key (List.mem_cons_of_mem first mem)) _

@[simp]
theorem set_empty_set (key : κ) (first second : ν) :
    (empty.set key first).set key second = empty.set key second := by
  simp [set, empty, assign]

@[simp]
theorem set_empty_erase (key : κ) (value : ν) : (empty.set key value).erase key = empty := by
  simp [erase, set, empty, assign]

theorem mem_keys_set (dict : Dict κ ν) (key other : κ) (value : ν) :
    other ∈ (dict.set key value).keys ↔ other = key ∨ other ∈ dict.keys :=
  mem_keys_assign

theorem mem_keys_setDefault (dict : Dict κ ν) (key other : κ) (default : ν) :
    other ∈ (dict.setDefault key default).keys ↔ other = key ∨ other ∈ dict.keys := by
  unfold setDefault
  cases present : dict.get? key with
  | none => exact mem_keys_set dict key other default
  | some value =>
      have held : key ∈ dict.keys := by
        rw [mem_keys_iff, present]
        rfl
      constructor
      · exact Or.inr
      · rintro (rfl | mem)
        · exact held
        · exact mem

/-- The dictionary that the entries make when they are assigned in turn. -/
def ofList (entries : List (κ × ν)) : Dict κ ν :=
  entries.foldl (fun dict entry => dict.set entry.1 entry.2) empty

theorem mem_of_mem_assign {key : κ} {value : ν} {entries : List (κ × ν)} {entry : κ × ν}
    (mem : entry ∈ assign key value entries) : entry = (key, value) ∨ entry ∈ entries := by
  induction entries with
  | nil => exact Or.inl (List.mem_singleton.mp mem)
  | cons first rest ih =>
      rw [assign] at mem
      split at mem
      · rcases List.mem_cons.mp mem with same | later
        · exact Or.inl same
        · exact Or.inr (List.mem_cons_of_mem _ later)
      · rcases List.mem_cons.mp mem with same | later
        · exact Or.inr (same ▸ List.mem_cons_self)
        · exact (ih later).imp_right (List.mem_cons_of_mem _)

/-- Every entry of the dictionary was assigned. -/
theorem mem_of_mem_ofList {entries : List (κ × ν)} {entry : κ × ν}
    (mem : entry ∈ (ofList entries).entries) : entry ∈ entries := by
  have assigned : ∀ dict : Dict κ ν,
      entry ∈ (entries.foldl (fun dict entry => dict.set entry.1 entry.2) dict).entries →
        entry ∈ entries ∨ entry ∈ dict.entries := by
    clear mem
    induction entries with
    | nil => exact fun _ mem => Or.inr mem
    | cons first entries ih =>
        intro dict mem
        rcases ih _ mem with later | before
        · exact Or.inl (List.mem_cons_of_mem _ later)
        · rcases mem_of_mem_assign before with same | old
          · exact Or.inl (same ▸ List.mem_cons_self)
          · exact Or.inr old
  exact (assigned empty mem).resolve_right List.not_mem_nil

theorem mem_keys_foldl_set (entries : List (κ × ν)) (dict : Dict κ ν) (key : κ) :
    key ∈ (entries.foldl (fun dict entry => dict.set entry.1 entry.2) dict).keys ↔
      key ∈ entries.map Prod.fst ∨ key ∈ dict.keys := by
  induction entries generalizing dict with
  | nil => simp
  | cons entry entries ih =>
      rw [List.foldl_cons, ih, mem_keys_set, List.map_cons, List.mem_cons]
      constructor
      · rintro (later | same | before)
        · exact Or.inl (Or.inr later)
        · exact Or.inl (Or.inl same)
        · exact Or.inr before
      · rintro ((same | later) | before)
        · exact Or.inr (Or.inl same)
        · exact Or.inl later
        · exact Or.inr (Or.inr before)

theorem get?_foldl_set {entries : List (κ × ν)} (distinct : (entries.map Prod.fst).Nodup)
    (dict : Dict κ ν) (key : κ) (value : ν) :
    (entries.foldl (fun dict entry => dict.set entry.1 entry.2) dict).get? key = some value ↔
      (key, value) ∈ entries ∨ (key ∉ entries.map Prod.fst ∧ dict.get? key = some value) := by
  induction entries generalizing dict with
  | nil => simp
  | cons entry entries ih =>
      rw [List.map_cons, List.nodup_cons] at distinct
      rw [List.foldl_cons, ih distinct.2, get?_set, List.map_cons, List.mem_cons, List.mem_cons]
      rcases entry with ⟨first, held⟩
      by_cases same : key = first
      · subst same
        have fresh : (key, value) ∉ entries := fun mem =>
          distinct.1 (List.mem_map.mpr ⟨(key, value), mem, rfl⟩)
        have absent : key ∉ entries.map Prod.fst := distinct.1
        simp [fresh, absent, eq_comm]
      · simp [same]

theorem mem_keys_ofList (entries : List (κ × ν)) (key : κ) :
    key ∈ (ofList entries).keys ↔ key ∈ entries.map Prod.fst := by
  rw [ofList, mem_keys_foldl_set]
  simp [keys, empty]

theorem get?_ofList {entries : List (κ × ν)} (distinct : (entries.map Prod.fst).Nodup) (key : κ)
    (value : ν) : (ofList entries).get? key = some value ↔ (key, value) ∈ entries := by
  rw [ofList, get?_foldl_set distinct, get?_empty]
  simp

theorem mem_entries_iff (dict : Dict κ ν) {key : κ} {value : ν} :
    (key, value) ∈ dict.entries ↔ dict.get? key = some value := by
  constructor
  · intro mem
    have isKey : key ∈ dict.keys := List.mem_map.mpr ⟨(key, value), mem, rfl⟩
    rcases Option.isSome_iff_exists.mp ((dict.mem_keys_iff key).mp isKey) with ⟨held, found⟩
    have same := List.inj_on_of_nodup_map dict.distinct (mem_of_find found) mem rfl
    rw [found, (Prod.mk.inj same).2]
  · exact mem_of_find

/-- Keys that are always assigned the same value have that value. -/
theorem mem_entries_ofList_of_functional {entries : List (κ × ν)}
    (functional : ∀ key value value', (key, value) ∈ entries → (key, value') ∈ entries →
      value = value') {key : κ} {value : ν} :
    (key, value) ∈ (ofList entries).entries ↔ (key, value) ∈ entries := by
  constructor
  · exact mem_of_mem_ofList
  · intro mem
    have isKey : key ∈ (ofList entries).keys := by
      rw [mem_keys_ofList]
      exact List.mem_map.mpr ⟨(key, value), mem, rfl⟩
    rcases List.mem_map.mp isKey with ⟨⟨_, held⟩, isEntry, rfl⟩
    rwa [functional _ value held mem (mem_of_mem_ofList isEntry)]

/-- The last assignment to a key counts. -/
theorem mem_entries_ofList_iff {entries : List (κ × ν)} {key : κ} {value : ν} :
    (key, value) ∈ (ofList entries).entries ↔
      ∃ before after, entries = before ++ (key, value) :: after ∧ key ∉ after.map Prod.fst := by
  induction entries using List.reverseRecOn with
  | nil =>
      constructor
      · intro mem
        cases mem
      · rintro ⟨before, after, empty, _⟩
        exact absurd (List.append_eq_nil_iff.mp empty.symm).2 (List.cons_ne_nil _ _)
  | append_singleton entries last inductionHypothesis =>
      have assigned : ofList (entries ++ [last]) = (ofList entries).set last.1 last.2 := by
        rw [ofList, List.foldl_append]
        rfl
      rw [assigned, mem_entries_iff, get?_set]
      by_cases same : key = last.1
      · rw [if_pos same]
        constructor
        · intro isValue
          refine ⟨entries, [], ?_, List.not_mem_nil⟩
          rw [same, ← Option.some.inj isValue]
        · rintro ⟨before, after, parts, absent⟩
          rcases List.eq_nil_or_concat' after with rfl | ⟨after, other, rfl⟩
          · have isLast := (List.cons.inj (List.append_inj_right' parts rfl)).1
            rw [isLast]
          · rw [← List.cons_append, ← List.append_assoc] at parts
            have isLast := (List.cons.inj (List.append_inj_right' parts rfl)).1
            rw [List.map_append, List.mem_append, not_or, ← isLast, same] at absent
            exact absurd (List.mem_singleton_self _) absent.2
      · rw [if_neg same, ← mem_entries_iff, inductionHypothesis]
        constructor
        · rintro ⟨before, after, rfl, absent⟩
          refine ⟨before, after ++ [last], ?_, ?_⟩
          · rw [← List.cons_append, ← List.append_assoc]
          · rw [List.map_append, List.mem_append, not_or]
            exact ⟨absent, fun isLast => same (List.mem_singleton.mp isLast)⟩
        · rintro ⟨before, after, parts, absent⟩
          rcases List.eq_nil_or_concat' after with rfl | ⟨after, other, rfl⟩
          · have isLast := (List.cons.inj (List.append_inj_right' parts rfl)).1
            exact absurd (congrArg Prod.fst isLast).symm same
          · rw [← List.cons_append, ← List.append_assoc] at parts
            refine ⟨before, after, List.append_inj_left' parts rfl, ?_⟩
            rw [List.map_append, List.mem_append, not_or] at absent
            exact absent.1

end Dict

end Difftest
