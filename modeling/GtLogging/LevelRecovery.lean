import GtLogging.Formatter

/-! @src src/gt_loglevel.cpp | layer:result | reading the level back from a default line

    The default line is `LEVEL [time] [id] message`. No level text contains a bracket, and none
    fits into the time, so a level text occurs in the line iff it is the line's own level, or it
    occurs in the id or in the message. The decoder searches the whole line in a fixed order: it
    finds the right level unless the id or the message mentions an earlier one. -/

namespace GtLogging
open TextSearch Level Formatter

/-- A level text neither contains a bracket nor starts with a space. -/
theorem levelToString_chars {l : Level} (hl : l ∈ searchOrder) :
    ('[' ∉ levelToString l ∧ ']' ∉ levelToString l) ∧
      ∃ a p, levelToString l = a :: p ∧ a ≠ ' ' ∧ a ≠ ':' ∧ a.isDigit = false := by
  simp only [searchOrder, List.mem_cons, List.not_mem_nil, or_false] at hl
  rcases hl with rfl | rfl | rfl | rfl | rfl | rfl <;>
    exact ⟨by decide, _, _, rfl, by decide, by decide, by decide⟩

/-- In front of the first bracket stands the line's own level. -/
theorem infix_level_piece {l k : Level} (hl : l ∈ searchOrder) (hk : k ∈ searchOrder) :
    levelToString k <:+: levelToString l ++ [' '] ↔ k = l := by
  simp only [searchOrder, List.mem_cons, List.not_mem_nil, or_false] at hl hk
  rcases hl with rfl | rfl | rfl | rfl | rfl | rfl <;>
    rcases hk with rfl | rfl | rfl | rfl | rfl | rfl <;> decide

theorem not_infix_formatTime {k : Level} (hk : k ∈ searchOrder) (t : Tm) :
    ¬ levelToString k <:+: formatTime t := by
  obtain ⟨-, a, p, he, -, hcolon, hdigit⟩ := levelToString_chars hk
  rw [he]
  refine not_infix_of_head fun ha => ?_
  rcases mem_formatTime ha with h | h
  · rw [hdigit] at h; cases h
  · exact hcolon h

/-- A space in front adds no occurrence. -/
theorem infix_space_cons {k : Level} (hk : k ∈ searchOrder) (s : Str) :
    levelToString k <:+: ' ' :: s ↔ levelToString k <:+: s := by
  obtain ⟨-, a, p, he, hspace, -⟩ := levelToString_chars hk
  rw [he, List.infix_cons_iff, List.cons_prefix_cons]
  exact ⟨fun h => h.resolve_left fun h' => hspace h'.1, Or.inr⟩

/-- Where a level text can occur in a default line. -/
theorem infix_Default {l k : Level} (hl : l ∈ searchOrder) (hk : k ∈ searchOrder) (msg : Str)
    (dts : Details) :
    levelToString k <:+: Default msg l dts ↔
      k = l ∨ levelToString k <:+: dts.id ∨ levelToString k <:+: msg := by
  obtain ⟨⟨hopen, hclose⟩, -⟩ := levelToString_chars hk
  have hassoc : levelToString l ++ ' ' :: '[' :: (formatTime dts.time ++ ']' :: ' ' ::
      if dts.id = [] then msg else '[' :: (dts.id ++ ']' :: ' ' :: msg)) =
      (levelToString l ++ [' ']) ++ '[' :: (formatTime dts.time ++ ']' :: ' ' ::
      if dts.id = [] then msg else '[' :: (dts.id ++ ']' :: ' ' :: msg)) := by simp
  rw [Default_eq, hassoc, infix_append_cons hopen, infix_append_cons hclose, infix_space_cons hk,
    infix_level_piece hl hk, or_iff_right (not_infix_formatTime hk dts.time)]
  refine or_congr_right ?_
  split_ifs with hid
  · -- no id: `levelToString k` is not empty
    obtain ⟨-, a, p, he, -⟩ := levelToString_chars hk
    rw [hid, he, List.infix_nil]
    simp
  · rw [← List.nil_append ('[' :: _), infix_append_cons hopen, infix_append_cons hclose,
      infix_space_cons hk, or_iff_right]
    obtain ⟨-, a, p, he, -⟩ := levelToString_chars hk
    rw [he, List.infix_nil]
    simp

theorem mem_searchOrder_of_before {l k : Level} (h : k ∈ searchedBefore l) :
    k ∈ searchOrder ∧ k ≠ l :=
  ⟨(List.takeWhile_sublist _).subset h, by simpa using List.mem_takeWhile_imp h⟩

/-- EXACT: the level is read back from a default line iff neither the id nor the message mentions
    a level that is searched for earlier. -/
theorem levelFromString_Default_iff (msg : Str) (l : Level) (dts : Details)
    (hl : l ∈ searchOrder) :
    levelFromString (Default msg l dts) = (l, true) ↔
      ∀ k ∈ searchedBefore l,
        ¬ levelToString k <:+: dts.id ∧ ¬ levelToString k <:+: msg := by
  rw [levelFromString_iff hl, infix_Default hl hl, and_iff_right (Or.inl rfl)]
  refine forall₂_congr fun k hk => ?_
  obtain ⟨hk, hne⟩ := mem_searchOrder_of_before hk
  rw [infix_Default hl hk, or_iff_right hne, not_or]

/-- An error line may mention what is searched for after `ERROR`. -/
theorem error_line_recovered :
    ErrorLevel ∈ searchOrder ∧
      levelFromString (Default "not FATAL, see disk".toList ErrorLevel ⟨"disk".toList, noon⟩) =
        (ErrorLevel, true) :=
  ⟨by decide, (levelFromString_Default_iff _ ErrorLevel ⟨"disk".toList, noon⟩ (by decide)).mpr
    (by decide)⟩

/-- COUNTEREXAMPLE: an error line that mentions `TRACE` reads as a trace line. -/
theorem error_line_reads_as_trace :
    levelFromString (Default "TRACE lost".toList ErrorLevel ⟨[], noon⟩) ≠ (ErrorLevel, true) := by
  decide

end GtLogging
