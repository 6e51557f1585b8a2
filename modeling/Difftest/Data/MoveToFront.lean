import Mathlib.Tactic

/-!
# Lists that their searches reorder

A list is searched for the first element that answers a query, and the element that was found
may be moved to the front.  Every element has a key.  When the elements that answer one query
have one key, and an element is only moved away from neighbours with other keys, a search finds
what it would have found in the list as it was at first.
-/

namespace Difftest.MoveToFront

variable {α κ : Type} {hit : α → Bool} {key : α → κ}

/-- The elements before the first that answers, that element, and those after it. -/
def seek (hit : α → Bool) : List α → Option (List α × α × List α)
  | [] => none
  | a :: rest =>
      if hit a then some ([], a, rest)
      else (seek hit rest).map fun (before, found, after) => (a :: before, found, after)

theorem seek_eq_none {l : List α} : seek hit l = none ↔ l.find? hit = none := by
  induction l with
  | nil => exact ⟨fun _ => rfl, fun _ => rfl⟩
  | cons a rest inductionHypothesis =>
      by_cases answers : hit a = true
      · simp [seek, answers]
      · simpa [seek, answers] using inductionHypothesis

/-- A search cuts the list at the element it finds. -/
theorem seek_spec {l before after : List α} {found : α}
    (sought : seek hit l = some (before, found, after)) :
    l = before ++ found :: after ∧ l.find? hit = some found := by
  induction l generalizing before with
  | nil => cases sought
  | cons a rest inductionHypothesis =>
      by_cases answers : hit a = true
      · simp only [seek, if_pos answers, Option.some.injEq, Prod.mk.injEq] at sought
        obtain ⟨rfl, rfl, rfl⟩ := sought
        exact ⟨rfl, List.find?_cons_of_pos answers⟩
      · simp only [seek, if_neg answers, Option.map_eq_some_iff, Prod.mk.injEq, Prod.exists]
          at sought
        obtain ⟨before', found', after', later, rfl, rfl, rfl⟩ := sought
        obtain ⟨parts, first⟩ := inductionHypothesis later
        refine ⟨congrArg (a :: ·) parts, ?_⟩
        rw [List.find?_cons_of_neg answers]
        exact first

/-! ## Groups of a key -/

/-- Elements with the same key stand next to each other. -/
def Grouped (key : α → κ) (l : List α) : Prop :=
  ∀ a b c, [a, b, c].Sublist l → key a = key c → key b = key a

theorem Grouped.sublist {l l' : List α} (grouped : Grouped key l) (part : l'.Sublist l) :
    Grouped key l' :=
  fun a b c inside => grouped a b c (inside.trans part)

/-- A list that is sorted by its keys is grouped. -/
theorem grouped_of_pairwise [PartialOrder κ] {l : List α}
    (sorted : l.Pairwise fun a b => key b ≤ key a) : Grouped key l := by
  intro a b c inside same
  have ordered := sorted.sublist inside
  simp only [List.pairwise_cons, List.mem_cons, List.not_mem_nil, or_false, forall_eq_or_imp,
    forall_eq] at ordered
  obtain ⟨⟨ba, -⟩, cb, -⟩ := ordered
  exact le_antisymm ba (same.trans_le cb)

/-- An element whose neighbours have other keys is the only one with its key. -/
theorem Grouped.alone {before after : List α} {a : α}
    (grouped : Grouped key (before ++ a :: after))
    (left : ∀ b ∈ before.getLast?, key b ≠ key a) (right : ∀ b ∈ after.head?, key b ≠ key a) :
    ∀ b ∈ before ++ after, key b ≠ key a := by
  intro b mem same
  rcases List.mem_append.mp mem with inBefore | inAfter
  · rcases List.eq_nil_or_concat' before with rfl | ⟨front, last, rfl⟩
    · cases inBefore
    · have differs : key last ≠ key a := left last (by simp)
      rcases List.mem_append.mp inBefore with inFront | isLast
      · have chain : [b, last, a].Sublist (front ++ [last] ++ a :: after) := by
          have first : [b].Sublist front := List.singleton_sublist.mpr inFront
          have second : [a].Sublist (a :: after) := List.singleton_sublist.mpr List.mem_cons_self
          exact (first.append (List.Sublist.refl [last])).append second
        exact differs ((grouped b last a chain same).trans same)
      · rw [List.mem_singleton] at isLast
        exact differs (isLast ▸ same)
  · cases after with
    | nil => cases inAfter
    | cons first rest =>
        have differs : key first ≠ key a := right first rfl
        rcases List.mem_cons.mp inAfter with rfl | inRest
        · exact differs same
        · have chain : [a, first, b].Sublist (before ++ a :: first :: rest) := by
            have tail : [b].Sublist rest := List.singleton_sublist.mpr inRest
            exact ((tail.cons_cons first).cons_cons a).trans (List.sublist_append_right before _)
          exact differs (grouped a first b chain same.symm)

/-- Such an element may be moved to the front. -/
theorem Grouped.moved {before after : List α} {a : α}
    (grouped : Grouped key (before ++ a :: after))
    (alone : ∀ b ∈ before ++ after, key b ≠ key a) : Grouped key (a :: (before ++ after)) := by
  have without : (before ++ after).Sublist (before ++ a :: after) :=
    (List.Sublist.refl before).append (List.sublist_cons_self a after)
  intro b c d inside same
  cases inside with
  | cons _ rest => exact grouped b c d (rest.trans without) same
  | cons_cons _ rest =>
      have mem : d ∈ before ++ after := rest.subset (by simp)
      exact absurd same.symm (alone d mem)

/-! ## Searches -/

section Order

variable [DecidableEq κ]

/-- The elements of each key are those of the other list, in the same order. -/
def SameOrder (key : α → κ) (l l' : List α) : Prop :=
  ∀ k, l'.filter (fun a => key a = k) = l.filter (fun a => key a = k)

theorem SameOrder.mem_iff {l l' : List α} (order : SameOrder key l l') {a : α} :
    a ∈ l' ↔ a ∈ l := by
  have members : a ∈ l'.filter (fun b => key b = key a) ↔ a ∈ l.filter (fun b => key b = key a) := by
    rw [order]
  simpa [List.mem_filter] using members

/-- Moving an element that is alone with its key keeps the order. -/
theorem sameOrder_moved {before after : List α} {a : α}
    (alone : ∀ b ∈ before ++ after, key b ≠ key a) :
    SameOrder key (before ++ a :: after) (a :: (before ++ after)) := by
  intro k
  by_cases own : key a = k
  · have noneBefore : before.filter (fun b => key b = k) = [] := by
      rw [List.filter_eq_nil_iff]
      intro b mem
      simpa [← own] using alone b (List.mem_append_left _ mem)
    simp [own, noneBefore]
  · simp [own]

/-- What has one key is found in its group. -/
theorem find?_eq_find?_group {l : List α} {k : κ} (share : ∀ a ∈ l, hit a = true → key a = k) :
    l.find? hit = (l.filter fun a => key a = k).find? hit := by
  induction l with
  | nil => rfl
  | cons a rest inductionHypothesis =>
      have restShare : ∀ b ∈ rest, hit b = true → key b = k :=
        fun b mem => share b (List.mem_cons_of_mem a mem)
      by_cases answers : hit a = true
      · have own : key a = k := share a List.mem_cons_self answers
        simp [own, answers]
      · by_cases own : key a = k
        · simpa [own, answers] using inductionHypothesis restShare
        · simpa [own, answers] using inductionHypothesis restShare

/-- When all that answers has one key, a search finds the same in both lists. -/
theorem SameOrder.find?_eq {l l' : List α} (order : SameOrder key l l')
    (share : ∀ a ∈ l, ∀ b ∈ l, hit a = true → hit b = true → key a = key b) :
    l'.find? hit = l.find? hit := by
  by_cases someAnswers : ∃ a ∈ l, hit a = true
  · obtain ⟨a, mem, answers⟩ := someAnswers
    have shareHere : ∀ b ∈ l, hit b = true → key b = key a :=
      fun b member hits => share b member a mem hits answers
    have shareThere : ∀ b ∈ l', hit b = true → key b = key a :=
      fun b member hits => shareHere b (order.mem_iff.mp member) hits
    rw [find?_eq_find?_group shareThere, find?_eq_find?_group shareHere, order]
  · have silent : ∀ a ∈ l, ¬ hit a = true := fun a mem answers => someAnswers ⟨a, mem, answers⟩
    rw [List.find?_eq_none.mpr silent, List.find?_eq_none]
    intro a mem
    exact silent a (order.mem_iff.mp mem)

end Order

end Difftest.MoveToFront
