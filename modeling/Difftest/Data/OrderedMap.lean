import Mathlib.Tactic

/-!
# Ordered maps

A map over a linear order is the list of its entries by increasing key.  Inserting
replaces the entry of a present key.  `floor` is the entry with the greatest key that
is not above the one searched for: the entry before the upper bound.
-/

namespace Difftest

universe u v

/-- A map whose entries are listed by increasing key. -/
structure OrderedMap (κ : Type u) (ν : Type v) [LinearOrder κ] where
  /-- The entries by increasing key. -/
  entries : List (κ × ν)
  /-- The keys increase. -/
  sorted : entries.Pairwise fun entry later => entry.1 < later.1

namespace OrderedMap

variable {κ : Type u} {ν : Type v} [LinearOrder κ]

/-- The map without entries. -/
def empty : OrderedMap κ ν := ⟨[], List.Pairwise.nil⟩

/-- Put an entry in its place, or replace the one with its key. -/
def insertEntry (key : κ) (value : ν) : List (κ × ν) → List (κ × ν)
  | [] => [(key, value)]
  | entry :: rest =>
      if entry.1 < key then entry :: insertEntry key value rest
      else if entry.1 = key then (key, value) :: rest
      else (key, value) :: entry :: rest

theorem mem_insertEntry_of_sorted {key : κ} {value : ν} {entries : List (κ × ν)}
    (sorted : entries.Pairwise fun entry later => entry.1 < later.1) {entry : κ × ν} :
    entry ∈ insertEntry key value entries ↔
      entry = (key, value) ∨ entry ∈ entries ∧ entry.1 ≠ key := by
  induction entries with
  | nil => simp [insertEntry]
  | cons head rest inductionHypothesis =>
      rw [List.pairwise_cons] at sorted
      rcases lt_trichotomy head.1 key with below | same | above
      · rw [insertEntry, if_pos below, List.mem_cons, inductionHypothesis sorted.2, List.mem_cons]
        constructor
        · rintro (rfl | new | ⟨old, ne⟩)
          · exact Or.inr ⟨Or.inl rfl, below.ne⟩
          · exact Or.inl new
          · exact Or.inr ⟨Or.inr old, ne⟩
        · rintro (new | ⟨rfl | old, ne⟩)
          · exact Or.inr (Or.inl new)
          · exact Or.inl rfl
          · exact Or.inr (Or.inr ⟨old, ne⟩)
      · rw [insertEntry, if_neg (not_lt.mpr same.ge), if_pos same, List.mem_cons, List.mem_cons]
        constructor
        · rintro (new | old)
          · exact Or.inl new
          · exact Or.inr ⟨Or.inr old, (same ▸ sorted.1 entry old).ne'⟩
        · rintro (new | ⟨rfl | old, ne⟩)
          · exact Or.inl new
          · exact absurd same ne
          · exact Or.inr old
      · rw [insertEntry, if_neg (not_lt.mpr above.le), if_neg above.ne', List.mem_cons]
        apply or_congr_right
        constructor
        · intro old
          rcases List.mem_cons.mp old with rfl | later
          · exact ⟨old, above.ne'⟩
          · exact ⟨old, (above.trans (sorted.1 entry later)).ne'⟩
        · exact And.left

theorem sorted_insertEntry {key : κ} {value : ν} {entries : List (κ × ν)}
    (sorted : entries.Pairwise fun entry later => entry.1 < later.1) :
    (insertEntry key value entries).Pairwise fun entry later => entry.1 < later.1 := by
  induction entries with
  | nil => exact List.pairwise_singleton _ _
  | cons head rest inductionHypothesis =>
      have tail := (List.pairwise_cons.mp sorted).2
      have later := (List.pairwise_cons.mp sorted).1
      rcases lt_trichotomy head.1 key with below | same | above
      · rw [insertEntry, if_pos below, List.pairwise_cons]
        refine ⟨?_, inductionHypothesis tail⟩
        intro entry mem
        rcases (mem_insertEntry_of_sorted tail).mp mem with rfl | ⟨old, _⟩
        · exact below
        · exact later entry old
      · rw [insertEntry, if_neg (not_lt.mpr same.ge), if_pos same, List.pairwise_cons]
        exact ⟨fun entry mem => same ▸ later entry mem, tail⟩
      · rw [insertEntry, if_neg (not_lt.mpr above.le), if_neg above.ne', List.pairwise_cons]
        refine ⟨?_, sorted⟩
        intro entry mem
        rcases List.mem_cons.mp mem with rfl | old
        · exact above
        · exact above.trans (later entry old)

/-- Assign a value to a key. -/
def insert (map : OrderedMap κ ν) (key : κ) (value : ν) : OrderedMap κ ν :=
  ⟨insertEntry key value map.entries, sorted_insertEntry map.sorted⟩

@[simp]
theorem mem_insert {map : OrderedMap κ ν} {key : κ} {value : ν} {entry : κ × ν} :
    entry ∈ (map.insert key value).entries ↔
      entry = (key, value) ∨ entry ∈ map.entries ∧ entry.1 ≠ key :=
  mem_insertEntry_of_sorted map.sorted

/-- Entries with the same key are equal. -/
theorem eq_of_key_eq (map : OrderedMap κ ν) {entry other : κ × ν} (mem : entry ∈ map.entries)
    (otherMem : other ∈ map.entries) (same : entry.1 = other.1) : entry = other := by
  have distinct : (map.entries.map Prod.fst).Nodup := by
    rw [List.nodup_iff_pairwise_ne, List.pairwise_map]
    exact map.sorted.imp fun below => below.ne
  exact List.inj_on_of_nodup_map distinct mem otherMem same

/-- The entry before the upper bound of a key. -/
def floor (map : OrderedMap κ ν) (key : κ) : Option (κ × ν) :=
  (map.entries.takeWhile fun entry => entry.1 ≤ key).getLast?

theorem takeWhile_le_eq_filter {entries : List (κ × ν)} (key : κ)
    (sorted : entries.Pairwise fun entry later => entry.1 < later.1) :
    entries.takeWhile (fun entry => decide (entry.1 ≤ key)) =
      entries.filter fun entry => decide (entry.1 ≤ key) := by
  induction entries with
  | nil => rfl
  | cons head rest inductionHypothesis =>
      rw [List.pairwise_cons] at sorted
      by_cases low : head.1 ≤ key
      · rw [List.takeWhile_cons_of_pos (by simpa using low),
          List.filter_cons_of_pos (by simpa using low), inductionHypothesis sorted.2]
      · rw [List.takeWhile_cons_of_neg (by simpa using low),
          List.filter_cons_of_neg (by simpa using low)]
        symm
        apply List.filter_eq_nil_iff.mpr
        intro entry mem
        simpa using (not_le.mp low).trans (sorted.1 entry mem)

/-- The floor is the entry with the greatest key up to the given one. -/
theorem floor_eq_some_iff {map : OrderedMap κ ν} {key : κ} {entry : κ × ν} :
    map.floor key = some entry ↔
      (entry ∈ map.entries ∧ entry.1 ≤ key) ∧
        ∀ other ∈ map.entries, other.1 ≤ key → other.1 ≤ entry.1 := by
  have sorted := map.sorted.filter fun entry => decide (entry.1 ≤ key)
  have mem_low : ∀ other, other ∈ (map.entries.filter fun entry => decide (entry.1 ≤ key)) ↔
      other ∈ map.entries ∧ other.1 ≤ key := by
    simp
  rw [floor, takeWhile_le_eq_filter key map.sorted]
  have shape := List.eq_nil_or_concat (map.entries.filter fun entry => decide (entry.1 ≤ key))
  rcases shape with none | ⟨front, last, split⟩
  · rw [none] at mem_low
    rw [none, ← mem_low]
    simp
  · rw [split] at mem_low sorted
    have below := (List.pairwise_append.mp (List.concat_eq_append ▸ sorted)).2.2
    rw [split, ← mem_low]
    simp only [List.concat_eq_append, List.getLast?_concat, Option.some.injEq]
    constructor
    · rintro rfl
      refine ⟨by simp, ?_⟩
      intro other mem low
      rcases List.mem_append.mp (List.concat_eq_append ▸ (mem_low other).mpr ⟨mem, low⟩) with
        before | same
      · exact (below other before last List.mem_cons_self).le
      · rw [List.mem_singleton.mp same]
    · rintro ⟨mem, greatest⟩
      rcases List.mem_append.mp mem with before | same
      · have isLast := (mem_low last).mp (by simp)
        have above := below entry before last List.mem_cons_self
        exact absurd above (not_lt.mpr (greatest last isLast.1 isLast.2))
      · exact (List.mem_singleton.mp same).symm

/-! ## Many assignments -/

/-- Assign the entries of a list one after the other. -/
def insertAll (map : OrderedMap κ ν) (entries : List (κ × ν)) : OrderedMap κ ν :=
  entries.foldl (fun map entry => map.insert entry.1 entry.2) map

section InsertAll

variable {map : OrderedMap κ ν} {entries : List (κ × ν)} {entry : κ × ν} {key : κ}

/-- The last assignment to a key counts. -/
theorem mem_insertAll : entry ∈ (map.insertAll entries).entries ↔
    (entry ∈ map.entries ∧ ∀ other ∈ entries, other.1 ≠ entry.1) ∨
      ∃ earlier later, entries = earlier ++ entry :: later ∧ ∀ other ∈ later, other.1 ≠ entry.1 := by
  induction entries generalizing map with
  | nil => simp [insertAll]
  | cons head rest inductionHypothesis =>
      rw [insertAll, List.foldl_cons, ← insertAll, inductionHypothesis, mem_insert]
      constructor
      · rintro (⟨rfl | ⟨mem, different⟩, fresh⟩ | ⟨earlier, later, rfl, fresh⟩)
        · exact Or.inr ⟨[], rest, rfl, fresh⟩
        · refine Or.inl ⟨mem, ?_⟩
          intro other otherMem
          rcases List.mem_cons.mp otherMem with rfl | otherMem
          · exact different.symm
          · exact fresh other otherMem
        · exact Or.inr ⟨head :: earlier, later, rfl, fresh⟩
      · rintro (⟨mem, fresh⟩ | ⟨earlier, later, split, fresh⟩)
        · exact Or.inl ⟨Or.inr ⟨mem, (fresh head List.mem_cons_self).symm⟩,
            fun other otherMem => fresh other (List.mem_cons_of_mem head otherMem)⟩
        · cases earlier with
          | nil =>
              cases split
              exact Or.inl ⟨Or.inl rfl, fresh⟩
          | cons first earlier =>
              cases split
              exact Or.inr ⟨earlier, later, rfl, fresh⟩

/-- The keys of the assignments are keys afterwards. -/
theorem exists_mem_insertAll (mem : key ∈ entries.map Prod.fst) :
    ∃ entry ∈ (map.insertAll entries).entries, entry.1 = key := by
  induction entries generalizing map with
  | nil => cases mem
  | cons head rest inductionHypothesis =>
      by_cases later : key ∈ rest.map Prod.fst
      · exact inductionHypothesis later
      · have same : key = head.1 := (List.mem_cons.mp mem).resolve_right later
        subst same
        refine ⟨head, mem_insertAll.mpr (Or.inr ⟨[], rest, rfl, ?_⟩), rfl⟩
        rintro other otherMem equal
        exact later (equal ▸ List.mem_map_of_mem otherMem)

end InsertAll

end OrderedMap

end Difftest
