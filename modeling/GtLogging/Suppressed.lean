import GtLogging.Layout

/-! @src src/gt_logstream.h | layer:result | what a suppressed stream accepts

    A stream whose verbosity level exceeds the verbosity of the logger should take no text. Every
    operator asks `mayLog` before it prints, the pointer operator excepted, whose last `doLogSpace`
    is reached in any case: so a suppressed stream takes a space for each raw pointer that is logged
    while the space flag is set, and nothing else. -/

namespace GtLogging
open GtLogging.Stream

namespace StreamOp

/-- A value or a manipulator, what is streamed with `<<`. -/
def isStreamed : StreamOp → Bool
  | value _ | manip _ | setw _ | setprecision _ | ostream _ => true
  | _ => false

/-- The streaming of a raw pointer. -/
def isPointer : StreamOp → Bool
  | value t => t.isPointer
  | _ => false

end StreamOp

open StreamOp

variable {verbosity : ℤ} {s : Stream}

/-- A logged space is at least one character, more under a field width. -/
theorem length_doLogSpace (h : s.spaceFlag = true) : s.text.length < s.doLogSpace.text.length := by
  have hpad : 1 ≤ (s.ios.pad [' ']).length := s.ios.length_pad [' ']
  have hput : s.doLogSpace.text = s.text ++ s.ios.pad [' '] := by rw [doLogSpace, if_pos h]; rfl
  rw [hput, List.length_append]
  omega

/-- STEP: what one operation does to a suppressed stream. -/
theorem exec_suppressed (h : s.mayLog verbosity = false) {op : StreamOp}
    (hop : op.isStreamed = true) :
    op.exec verbosity s = if op.isPointer then s.doLogSpace else s := by
  cases op with
  | value t => rw [exec, log_suppressed t h]; rfl
  | manip m => rw [exec, h]; rfl
  | setw n => rw [exec, h]; rfl
  | setprecision n => rw [exec, h]; rfl
  | ostream written => rw [exec, h]; rfl
  | _ => cases hop

theorem mayLog_doLogSpace : s.doLogSpace.mayLog verbosity = s.mayLog verbosity := by
  rw [doLogSpace_eq, mayLog_emit]

theorem spaceFlag_doLogSpace : s.doLogSpace.spaceFlag = s.spaceFlag := by
  rw [doLogSpace_eq, emit_spaceFlag]

/-- RUN: without a pointer that logs its space, nothing changes at all. -/
theorem run_suppressed {ops : List StreamOp} (h : s.mayLog verbosity = false)
    (hops : ∀ op ∈ ops, op.isStreamed = true)
    (hptr : s.spaceFlag = true → ∀ op ∈ ops, op.isPointer = false) :
    run verbosity ops s = s := by
  induction ops with
  | nil => exact run_nil verbosity s
  | cons op ops ih =>
    have hstep : op.exec verbosity s = s := by
      rw [exec_suppressed h (hops op List.mem_cons_self)]
      cases hs : s.spaceFlag with
      | false => rw [doLogSpace_of_nospace hs, ite_self]
      | true => rw [hptr hs op List.mem_cons_self]; rfl
    rw [run_cons, hstep]
    exact ih (fun o ho => hops o (List.mem_cons_of_mem _ ho))
      fun hs o ho => hptr hs o (List.mem_cons_of_mem _ ho)

/-- RUN: with the space flag set, each raw pointer adds to the text. -/
theorem length_run_suppressed {ops : List StreamOp} (h : s.mayLog verbosity = false)
    (hops : ∀ op ∈ ops, op.isStreamed = true) (hs : s.spaceFlag = true) :
    s.text.length + ops.countP isPointer ≤ (run verbosity ops s).text.length := by
  induction ops generalizing s with
  | nil => rw [run_nil]; exact le_refl _
  | cons op ops ih =>
    have hrest : ∀ o ∈ ops, o.isStreamed = true := fun o ho => hops o (List.mem_cons_of_mem _ ho)
    rw [run_cons, exec_suppressed h (hops op List.mem_cons_self), List.countP_cons]
    cases hp : op.isPointer with
    | false => exact ih h hrest hs
    | true =>
      have hrec := ih (s := s.doLogSpace) (mayLog_doLogSpace.trans h) hrest
        (spaceFlag_doLogSpace.trans hs)
      have hlt := length_doLogSpace hs
      simp only [if_true]
      omega

/-- EXACT: values and manipulators streamed into a suppressed stream leave its text alone iff no raw
    pointer is among them while the space flag is set; then they leave the whole stream alone, so
    that nothing of them shows up later. -/
theorem suppressed_takes_no_text_iff {ops : List StreamOp} (h : s.mayLog verbosity = false)
    (hops : ∀ op ∈ ops, op.isStreamed = true) :
    ((run verbosity ops s).str = s.str ↔
      (s.spaceFlag = true → ∀ op ∈ ops, op.isPointer = false)) ∧
    ((run verbosity ops s).str = s.str → run verbosity ops s = s) := by
  have hexact : (run verbosity ops s).str = s.str ↔
      (s.spaceFlag = true → ∀ op ∈ ops, op.isPointer = false) := by
    constructor
    · intro htext hs
      have hlen := length_run_suppressed h hops hs
      rw [str, str] at htext
      rw [htext] at hlen
      simpa using List.countP_eq_zero.mp (show ops.countP isPointer = 0 by omega)
    · intro hptr
      rw [run_suppressed h hops hptr]
  exact ⟨hexact, fun htext => run_suppressed h hops (hexact.mp htext)⟩

/-- Nested pointers are harmless. -/
theorem suppressed_pair_of_pointers :
    ({ vlevel := Everything } : Stream).mayLog Silent = false ∧
    (run Silent [.value (.pair (.pointer 1) (.tuple [.pointer 2] (.pointer 3)))]
      { vlevel := Everything }).str = [] :=
  ⟨by decide, (suppressed_takes_no_text_iff (s := { vlevel := Everything }) (by decide)
    (by decide)).1.mpr (by decide)⟩

/-- COUNTEREXAMPLE: a raw pointer leaves its space in the text of a suppressed stream. -/
theorem suppressed_pointer_leaves_space :
    ({ vlevel := Everything } : Stream).mayLog Silent = false ∧
    (run Silent [.value (.pointer 1)] { vlevel := Everything }).str ≠
      ({ vlevel := Everything } : Stream).str := by
  decide

end GtLogging
