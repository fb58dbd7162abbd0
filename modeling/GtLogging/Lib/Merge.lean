import Mathlib

/-! @lib merge | kind:library | a text merged from several sources

    A text is a merge when it can be cut into pieces, each labelled with its source, such that the
    pieces of every source are that source's share, in order. What is appended piece by piece by
    several writers is always one; with a single writer it is that writer's share. -/

variable {κ α : Type*} [DecidableEq κ]

/-- `shares k` lists the pieces of source `k`. -/
def Merge (shares : κ → List (List α)) (text : List α) : Prop :=
  ∃ pieces : List (κ × List α), text = pieces.flatMap Prod.snd ∧
    ∀ k, (pieces.filter (·.1 = k)).map Prod.snd = shares k

namespace Merge

variable {shares : κ → List (List α)} {text : List α} {k : κ}

theorem nil : Merge (fun _ : κ => ([] : List (List α))) [] := ⟨[], rfl, fun _ => rfl⟩

/-- Labelled letters, one a piece. -/
theorem ofLabelled (xs : List (κ × α)) :
    Merge (fun k => ((xs.filter (·.1 = k)).map Prod.snd).map ([·])) (xs.map Prod.snd) := by
  refine ⟨xs.map fun x => (x.1, [x.2]), ?_, fun k => ?_⟩
  · rw [List.flatMap_map, List.map_eq_flatMap]
  · simp only [List.filter_map, List.map_map]
    rfl

end Merge
