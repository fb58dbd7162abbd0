import Mathlib

/-! @lib slots | kind:library | numbered slots, read from the highest index down

    Every slot holds a list of entries. Reading them from slot `k - 1` down to slot `0`
    gives the stack. In a thinning shift each slot ends up empty, as it was, or with the entries of
    the slot below, and entries that were kept in their slot are not moved as well. No thinning
    shift reorders or doubles an entry. `Takes l` is the effect of any mix of thinning shifts (a
    slot that moves up, a slot that is lost) and appends: at most `l` arrives, behind all the
    rest. -/

open scoped List

/-- The entries of each slot. -/
abbrev Slots (β : Type*) := ℕ → List β

namespace Slots

variable {β : Type*} {kept : ℕ → Prop} {l l' : List β} {s s' s'' : Slots β}

/-- The entries below slot `k`, those of the highest slot first. -/
def stack (s : Slots β) : ℕ → List β
  | 0 => []
  | k + 1 => s k ++ stack s k

/-- What slot `i` may hold after a thinning shift. -/
def Settles (kept : ℕ → Prop) (s : Slots β) (i : ℕ) (l : List β) : Prop :=
  l = [] ∨ (kept i ∧ l = s i) ∨ ∃ j, i = j + 1 ∧ ¬ kept j ∧ l = s j

/-- A shift by at most one slot that may lose entries. -/
def Thinned (kept : ℕ → Prop) (s s' : Slots β) : Prop := ∀ i, Settles kept s i (s' i)

/-- At most `l` is new, and it is behind what was there. -/
def Takes (l : List β) (s s' : Slots β) : Prop := ∀ k, stack s' k <+ stack s k ++ l

/-- Slot `0` is at the end of the stack. -/
theorem stack_update_zero (s : Slots β) (k : ℕ) :
    ∃ upper, ∀ l, stack (Function.update s 0 l) (k + 1) = upper ++ l := by
  induction k with
  | zero => exact ⟨[], fun l => by simp [stack]⟩
  | succ k ih =>
    obtain ⟨upper, hupper⟩ := ih
    refine ⟨s (k + 1) ++ upper, fun l => ?_⟩
    rw [stack, hupper, Function.update_of_ne (Nat.succ_ne_zero k), List.append_assoc]

theorem stack_filterMap {γ : Type*} (g : β → Option γ) (s : Slots β) (k : ℕ) :
    stack (fun i => (s i).filterMap g) k = (stack s k).filterMap g := by
  induction k with
  | zero => rfl
  | succ k ih => rw [stack, ih, stack, List.filterMap_append]

theorem exists_mem_of_mem_stack {k : ℕ} {x : β} (hx : x ∈ stack s k) : ∃ i, x ∈ s i := by
  induction k with
  | zero => cases hx
  | succ k ih =>
    rcases List.mem_append.mp hx with h | h
    · exact ⟨k, h⟩
    · exact ih h

theorem sublist_of_ite (p : Prop) [Decidable p] (a b : List β) :
    (if p then a else []) ++ b <+ a ++ b := by
  split_ifs
  · exact .refl _
  · exact List.sublist_append_right a b

/-- STEP: up to slot `k`, the new entries are among the old ones without those of slot `k`, unless
    they were kept there. -/
theorem stack_thinned (h : Thinned kept s s') [DecidablePred kept] (k : ℕ) :
    stack s' (k + 1) <+ (if kept k then s k else []) ++ stack s k := by
  induction k with
  | zero =>
    rcases h 0 with hnil | ⟨hk, hsame⟩ | ⟨j, hj, -⟩
    · simp [stack, hnil]
    · simp [stack, hk, hsame]
    · omega
  | succ k ih =>
    have hdrop : stack s' (k + 1) <+ stack s (k + 1) := ih.trans (sublist_of_ite _ _ _)
    rw [stack]
    rcases h (k + 1) with hnil | ⟨hk, hsame⟩ | ⟨j, hj, hk, hmoved⟩
    · -- emptied
      rw [hnil, List.nil_append]
      exact hdrop.trans (List.sublist_append_right _ _)
    · -- kept
      rw [if_pos hk, hsame]
      exact (List.Sublist.refl _).append hdrop
    · -- moved up: then nothing of slot `k` is left below
      obtain rfl := Nat.succ_injective hj
      rw [if_neg hk, List.nil_append] at ih
      rw [hmoved, stack]
      exact ((List.Sublist.refl _).append ih).trans (List.sublist_append_right _ _)

namespace Takes

/-- Nothing happened; what could have arrived was lost. -/
theorem refl (l : List β) (s : Slots β) : Takes l s s := fun _ => List.sublist_append_left _ _

theorem trans (h : Takes l s s') (h' : Takes l' s' s'') : Takes (l ++ l') s s'' := by
  intro k
  rw [← List.append_assoc]
  exact (h' k).trans ((h k).append_right l')

/-- A thinning shift brings nothing new. -/
theorem of_thinned (kept : ℕ → Prop) (h : Thinned kept s s') : Takes [] s s' := by
  classical
  rintro (_ | k)
  · exact List.nil_sublist _
  · rw [List.append_nil]
    exact (stack_thinned h k).trans (sublist_of_ite _ _ _)

/-- The entries of one slot are lost. -/
theorem drop (s : Slots β) (i : ℕ) : Takes [] s (Function.update s i []) := by
  refine of_thinned (· ≠ i) fun k => ?_
  by_cases hk : k = i
  · subst hk
    exact Or.inl (Function.update_self ..)
  · exact Or.inr (Or.inl ⟨hk, Function.update_of_ne hk ..⟩)

/-- Slot `i` moves up and replaces what was there. -/
theorem shift (s : Slots β) (i : ℕ) :
    Takes [] s (Function.update (Function.update s (i + 1) (s i)) i []) := by
  refine of_thinned (· ≠ i) fun k => ?_
  by_cases hk : k = i
  · subst hk
    exact Or.inl (Function.update_self ..)
  · rw [Function.update_of_ne hk]
    by_cases hk' : k = i + 1
    · subst hk'
      exact Or.inr (Or.inr ⟨i, rfl, by simp, Function.update_self ..⟩)
    · exact Or.inr (Or.inl ⟨hk, Function.update_of_ne hk' ..⟩)

/-- Entries put behind some of those of slot `0`. -/
theorem put {l₀ : List β} (h₀ : l₀ <+ s 0) (l : List β) :
    Takes l s (Function.update s 0 (l₀ ++ l)) := by
  rintro (_ | k)
  · exact List.nil_sublist _
  · obtain ⟨upper, hupper⟩ := stack_update_zero s k
    have hs := hupper (s 0)
    rw [Function.update_eq_self] at hs
    rw [hupper, hs, ← List.append_assoc]
    exact ((List.Sublist.refl upper).append h₀).append_right l

/-- What arrives was there or is new. -/
theorem mem (h : Takes l s s') {i : ℕ} {x : β} (hx : x ∈ s' i) : (∃ j, x ∈ s j) ∨ x ∈ l := by
  have hstack : x ∈ stack s' (i + 1) := List.mem_append_left _ hx
  rcases List.mem_append.mp ((h (i + 1)).subset hstack) with hold | hnew
  · exact Or.inl (exists_mem_of_mem_stack hold)
  · exact Or.inr hnew

/-- Reading the entries keeps the order. -/
theorem filterMap {γ : Type*} (g : β → Option γ) (h : Takes l s s') :
    Takes (l.filterMap g) (fun i => (s i).filterMap g) (fun i => (s' i).filterMap g) := by
  intro k
  rw [stack_filterMap, stack_filterMap, ← List.filterMap_append]
  exact (h k).filterMap g

end Takes

end Slots
