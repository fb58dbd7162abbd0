import Mathlib

/-! @lib journal | kind:library | a bounded window of generations

    What a rotating log is for: a journal holds the entries of the current generation and, newest
    first, the generations it still keeps. Rotating with a bound `n` closes the current generation
    and forgets the one that was the `n`-th; generations beyond `n`, left over from a larger bound,
    are not touched, and `n = 0` drops the closed generation itself. Read oldest first, a journal is
    always a subsequence of what was appended; under a constant bound it is a suffix of it. -/

open scoped List

structure Journal (α : Type*) where
  current : List α := []
  backups : List (List α) := []

namespace Journal

variable {α : Type*}

/-- Append one entry to the current generation. -/
def append (a : α) (j : Journal α) : Journal α := { j with current := j.current ++ [a] }

/-- Close the current generation under bound `n`. -/
def rotate (n : ℕ) (j : Journal α) : Journal α where
  current := []
  backups := if n = 0 then j.backups
    else j.current :: (j.backups.take (n - 1) ++ j.backups.drop n)

/-- All kept entries, oldest first. -/
def chronicle (j : Journal α) : List α := j.backups.reverse.flatten ++ j.current

/-- Slot `0` is the current generation, slot `i` the `i`-th newest backup. -/
def slot (j : Journal α) (i : ℕ) : Option (List α) := (j.current :: j.backups)[i]?

@[simp] theorem slot_zero (j : Journal α) : j.slot 0 = some j.current := rfl

@[simp] theorem slot_succ (j : Journal α) (i : ℕ) : j.slot (i + 1) = j.backups[i]? := by
  simp [slot]

@[simp] theorem slot_append_succ (j : Journal α) (a : α) (i : ℕ) :
    (j.append a).slot (i + 1) = j.slot (i + 1) := by
  simp [append]

/-- The backups fill the slots `1 .. backups.length` without a gap. -/
theorem isSome_slot (j : Journal α) (i : ℕ) : (j.slot i).isSome ↔ i ≤ j.backups.length := by
  rw [slot, isSome_getElem?, List.length_cons]; omega

/-- SHIFT: rotating moves every slot below the bound up by one and touches nothing above it. -/
theorem slot_rotate (n : ℕ) (j : Journal α) (i : ℕ) :
    (j.rotate n).slot (i + 1) = if i < n then j.slot i else j.slot (i + 1) := by
  obtain ⟨cur, bs⟩ := j
  rcases Nat.eq_zero_or_pos n with rfl | hn
  · simp [rotate]
  · simp only [rotate, if_neg hn.ne', slot, List.getElem?_cons_succ]
    cases i with
    | zero => simp [hn]
    | succ k =>
      simp only [List.getElem?_cons_succ]
      by_cases hk : k + 1 < n
      · rw [if_pos hk]
        by_cases hb : k < bs.length
        · rw [List.getElem?_append_left (by simp; omega), List.getElem?_take_of_lt (by omega)]
        · have hd : bs.drop n = [] := List.drop_eq_nil_of_le (by omega)
          rw [hd, List.append_nil, List.getElem?_take_of_lt (by omega)]
      · rw [if_neg hk]
        by_cases hb : n ≤ bs.length
        · rw [List.getElem?_append_right (by simp; omega), List.getElem?_drop]
          congr 1; simp; omega
        · rw [List.drop_eq_nil_of_le (by omega), List.append_nil,
            List.getElem?_eq_none (by simp; omega), List.getElem?_eq_none (by omega)]

/-- Rotating forgets entries but never reorders or invents any. -/
theorem chronicle_rotate (n : ℕ) (j : Journal α) :
    (j.rotate n).chronicle <+ j.chronicle := by
  obtain ⟨cur, bs⟩ := j
  have hbs : bs.take (n - 1) ++ bs.drop n <+ bs := by
    conv_rhs => rw [← List.take_append_drop (n - 1) bs]
    exact (List.Sublist.refl _).append (List.drop_sublist_drop_left bs (Nat.sub_le n 1))
  simp only [chronicle, rotate]
  split_ifs
  · exact (List.Sublist.refl _).append (List.nil_sublist _)
  · simp only [List.reverse_cons, List.flatten_append, List.append_nil]
    simpa using (List.Sublist.flatten hbs.reverse).append_right cur

theorem chronicle_append (a : α) (j : Journal α) :
    (j.append a).chronicle = j.chronicle ++ [a] := by
  simp [chronicle, append]

/-- WINDOW: under one bound `n`, a journal holding the newest `n` of the past generations still
    does after the next rotation. -/
theorem backups_rotate {n : ℕ} {j : Journal α} {past : List (List α)}
    (h : j.backups = past.take n) : (j.rotate n).backups = (j.current :: past).take n := by
  cases n with
  | zero => simpa [rotate] using h
  | succ m => simp [rotate, h, List.take_take]

end Journal
