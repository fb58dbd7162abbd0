import Mathlib

/-! @lib history | kind:library | observers of one numbered history

    A history numbered from zero has no repetitions, so observers that each saw a slice of it saw
    the entries they share in the same order. -/

namespace History
open scoped List

variable {α : Type*}

/-- A slice of a numbered history. -/
theorem slice_sublist (before slice after : List α) :
    slice.zipIdx before.length <+ (before ++ slice ++ after).zipIdx := by
  rw [List.zipIdx_append, List.zipIdx_append, Nat.zero_add]
  exact (List.sublist_append_right _ _).trans (List.sublist_append_left _ _)

theorem nodup_zipIdx (l : List α) : l.zipIdx.Nodup :=
  List.Nodup.of_map Prod.snd (List.nodup_zipIdx_map_snd l)

variable [BEq α] [LawfulBEq α]

/-- A sublist is what its own members select. -/
theorem select_members {l L : List α} (h : l <+ L) (hL : L.Nodup) :
    L.filter (· ∈ l) = l := by
  have hself : l.filter (· ∈ l) = l := List.filter_eq_self.mpr (by simp)
  have hsub : l <+ L.filter (· ∈ l) := by
    have hfilter := h.filter (· ∈ l)
    rwa [hself] at hfilter
  -- without repetitions, the members of `l` are no more than `l` has
  have hlen : (L.filter (· ∈ l)).length ≤ l.length :=
    (List.subperm_of_subset (hL.filter _) fun x hx => by
      simpa using List.of_mem_filter hx).length_le
  exact (hsub.eq_of_length_le hlen).symm

/-- Two sublists of one list without repetitions order their common entries alike. -/
theorem common_order {l₁ l₂ L : List α} (h₁ : l₁ <+ L) (h₂ : l₂ <+ L) (hL : L.Nodup) :
    l₁.filter (· ∈ l₂) = l₂.filter (· ∈ l₁) := by
  have e₁ := congrArg (List.filter (· ∈ l₂)) (select_members h₁ hL)
  have e₂ := congrArg (List.filter (· ∈ l₁)) (select_members h₂ hL)
  rw [← e₁, ← e₂, List.filter_filter, List.filter_filter]
  exact List.filter_congr fun x _ => Bool.and_comm _ _

end History
