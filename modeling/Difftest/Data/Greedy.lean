import Mathlib.Tactic

/-!
# Greedy growth under a closed property

A value is grown by one addition at a time, and an addition is kept when the result still
has a property.  When everything below a value with the property has it too, one pass over
the additions is enough: what was rejected once is rejected at the end.
-/

namespace Difftest.Greedy

variable {α κ : Type} {Below : α → α → Prop} {add : κ → α → α} {P : α → Bool}

/-- One pass over the additions. -/
def grow (P : α → Bool) (add : κ → α → α) (keys : List κ) (a : α) : α :=
  keys.foldl (fun a k => if P (add k a) = true then add k a else a) a

/-- The property stays, and an addition that is missing at the end would break it. -/
theorem grow_spec (refl : ∀ a, Below a a) (trans : ∀ {a b c}, Below a b → Below b c → Below a c)
    (above : ∀ k a, Below a (add k a)) (mono : ∀ k {a b}, Below a b → Below (add k a) (add k b))
    (closed : ∀ {a b}, Below a b → P b = true → P a = true) (keys : List κ) {a : α}
    (start : P a = true) :
    P (grow P add keys a) = true ∧ Below a (grow P add keys a) ∧
      ∀ k ∈ keys, Below (add k a) (grow P add keys a) ∨ P (add k (grow P add keys a)) = false := by
  induction keys generalizing a with
  | nil => exact ⟨start, refl a, nofun⟩
  | cons k keys ih =>
      rw [grow, List.foldl_cons]
      by_cases accepted : P (add k a) = true
      · rw [if_pos accepted]
        rcases ih accepted with ⟨holds, below, others⟩
        refine ⟨holds, trans (above k a) below, ?_⟩
        intro other mem
        rcases List.mem_cons.mp mem with rfl | later
        · exact Or.inl below
        · exact (others other later).imp_left (trans (mono other (above k a)))
      · rw [if_neg accepted]
        rcases ih start with ⟨holds, below, others⟩
        refine ⟨holds, below, ?_⟩
        intro other mem
        rcases List.mem_cons.mp mem with rfl | later
        · right
          rw [← Bool.not_eq_true]
          exact fun kept => accepted (closed (mono other below) kept)
        · exact others other later

end Difftest.Greedy
