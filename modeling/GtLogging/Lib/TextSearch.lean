import Mathlib

/-! @lib text-search | kind:library | first occurrence of a pattern

    The left-to-right search behind `std::search` and `std::string::find`: the index of the first
    place where the pattern is a prefix of the rest. A search succeeds exactly on an infix, and an
    infix that avoids a separator character lies on one side of it. -/

namespace TextSearch

variable {α : Type*}

/-- Index of the first occurrence of `p`. -/
def search [DecidableEq α] (p : List α) : List α → Option ℕ
  | [] => if p = [] then some 0 else none
  | c :: s => if p <+: c :: s then some 0 else (search p s).map (· + 1)

/-- A search succeeds exactly when the pattern occurs. -/
theorem isSome_search [DecidableEq α] (p s : List α) : (search p s).isSome ↔ p <:+: s := by
  induction s with
  | nil => by_cases h : p = [] <;> simp [search, h]
  | cons c s ih =>
    rw [List.infix_cons_iff, ← ih, search]
    by_cases h : p <+: c :: s <;> simp [h]

/-- The pattern stands where it is found. -/
theorem eq_of_search [DecidableEq α] {p s : List α} {i : ℕ} (h : search p s = some i) :
    s = s.take i ++ p ++ s.drop (i + p.length) := by
  induction s generalizing i with
  | nil =>
    rw [search] at h
    split_ifs at h with hp
    simp [hp]
  | cons c s ih =>
    rw [search] at h
    split_ifs at h with hp
    · obtain rfl := Option.some.inj h
      obtain ⟨t, ht⟩ := hp
      simp [← ht]
    · obtain ⟨j, hj, rfl⟩ := Option.map_eq_some_iff.mp h
      rw [show j + 1 + p.length = j + p.length + 1 by omega, List.take_succ_cons,
        List.drop_succ_cons, List.cons_append, List.cons_append, ← ih hj]

/-- A search finds the first place where the pattern stands. -/
theorem search_eq_some_iff [DecidableEq α] {p s : List α} {i : ℕ} :
    search p s = some i ↔
      i ≤ s.length ∧ p <+: s.drop i ∧ ∀ j < i, ¬ p <+: s.drop j := by
  induction s generalizing i with
  | nil =>
    by_cases hp : p = []
    · simp only [search, hp, if_true, Option.some.injEq, List.length_nil, Nat.le_zero,
        List.nil_prefix, not_true, true_and]
      exact ⟨fun h => ⟨h.symm, fun j hj => by omega⟩, fun h => h.1.symm⟩
    · simp [search, hp]
  | cons c s ih =>
    rw [search]
    split_ifs with hp
    · refine ⟨fun h => ?_, fun ⟨_, _, h⟩ => ?_⟩
      · obtain rfl := Option.some.inj h
        exact ⟨Nat.zero_le _, hp, fun j hj => by omega⟩
      · rcases Nat.eq_zero_or_pos i with rfl | hi
        · rfl
        · exact absurd hp (h 0 hi)
    · cases i with
      | zero => simp [hp]
      | succ i =>
        rw [Option.map_eq_some_iff]
        constructor
        · rintro ⟨j, hj, hji⟩
          obtain rfl := Nat.succ_injective hji
          obtain ⟨hle, hpre, hfirst⟩ := ih.mp hj
          refine ⟨by simpa using hle, hpre, ?_⟩
          rintro (_ | k) hk
          · exact hp
          · exact hfirst k (by omega)
        · rintro ⟨hle, hpre, hfirst⟩
          refine ⟨i, ih.mpr ⟨by simpa using hle, hpre, fun j hj => ?_⟩, rfl⟩
          exact hfirst (j + 1) (by omega)

/-- Whether a pattern is found at the end of `x` depends on `x` alone. -/
theorem search_append_append [DecidableEq α] (x p t : List α) :
    search p (x ++ p ++ t) = some x.length ↔ search p (x ++ p) = some x.length := by
  have hlong : ∀ j < x.length, (p <+: (x ++ p ++ t).drop j ↔ p <+: (x ++ p).drop j) := by
    intro j hj
    rw [List.drop_append_of_le_length (by simp; omega)]
    refine ⟨fun h => ?_, fun h => h.trans (List.prefix_append _ _)⟩
    exact List.prefix_of_prefix_length_le h (List.prefix_append _ _) (by simp; omega)
  rw [search_eq_some_iff, search_eq_some_iff]
  refine and_congr (by simp) (and_congr (by simp) ?_)
  exact forall₂_congr fun j hj => not_congr (hlong j hj)

/-- A separator of two different characters is found at the end of `x` iff `x` is free of it. -/
theorem search_append_pair [DecidableEq α] {a b : α} (hab : a ≠ b) (x : List α) :
    search [a, b] (x ++ [a, b]) = some x.length ↔ ¬ [a, b] <:+: x := by
  induction x with
  | nil => simp [search]
  | cons c x ih =>
    have hpre : [a, b] <+: c :: (x ++ [a, b]) ↔ [a, b] <+: c :: x := by
      cases x with
      | nil => simp [List.cons_prefix_cons, hab.symm]
      | cons d x => simp [List.cons_prefix_cons]
    rw [List.infix_cons_iff, not_or, ← ih, List.cons_append, search, ← hpre]
    split_ifs with h
    · simp [h]
    · simp [h]

/-- A pattern without `c` cannot straddle a `c`. -/
theorem infix_append_cons {p xs ys : List α} {c : α} (hc : c ∉ p) :
    p <:+: xs ++ c :: ys ↔ p <:+: xs ∨ p <:+: ys := by
  constructor
  · intro h
    rcases List.infix_append_iff.mp h with h | h | ⟨l₁, l₂, rfl, h₁, h₂⟩
    · exact Or.inl h
    · rcases List.infix_cons_iff.mp h with h | h
      · cases p with
        | nil => exact Or.inl List.nil_infix
        | cons a p => rw [List.cons_prefix_cons] at h; exact absurd h.1 (by rintro rfl; simp at hc)
      · exact Or.inr h
    · cases l₂ with
      | nil => exact Or.inl (by simpa using h₁.isInfix)
      | cons a l₂ => rw [List.cons_prefix_cons] at h₂; exact absurd h₂.1 (by rintro rfl; simp at hc)
  · rintro (h | h)
    · exact List.infix_append_of_infix_left h
    · exact List.infix_append_of_infix_right (List.infix_cons h)

/-- A pattern whose first character is none of `xs` does not occur in `xs`. -/
theorem not_infix_of_head {a : α} {p xs : List α} (ha : a ∉ xs) : ¬ (a :: p) <:+: xs :=
  fun h => ha (h.subset List.mem_cons_self)

end TextSearch
