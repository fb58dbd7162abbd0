import GtLogging.System
import GtLogging.Lib.Merge

/-! @src src/gt_logdestconsole.cpp src/gt_logdestconsole.h src/gt_logging.cpp | layer:result |
    what a running logger prints

    `stdout` belongs to the console destinations; `stderr` they share with the warnings of the file
    destinations and of `addDestination`. Both streams are only appended to, and a line is printed
    in one piece, because a `Logger::write` is one step. So each stream is a merge: cut into pieces
    and labelled, it gives back, for every console destination, exactly the lines of its level
    range, in the order in which it received them. -/

namespace GtLogging
open Rotation SizeRotationStrategy StepMachine

/-! ### Warnings -/

/-- Nothing but warnings was printed from `w` to `w'`, each once. -/
def Warned (w w' : World) : Prop :=
  ∃ msgs : List Str, w'.cerr = w.cerr ++ msgs.flatten ∧ w'.warnings = w.warnings ++ msgs ∧
    ∀ msg ∈ msgs, IsWarning msg

namespace Warned

variable {w w' w'' : World}

theorem of_eq (hcerr : w'.cerr = w.cerr) (hwarnings : w'.warnings = w.warnings) : Warned w w' :=
  ⟨[], by simpa using hcerr, by simpa using hwarnings, by simp⟩

theorem refl (w : World) : Warned w w := of_eq rfl rfl

theorem trans (h : Warned w w') (h' : Warned w' w'') : Warned w w'' := by
  obtain ⟨msgs, hcerr, hwarnings, hall⟩ := h
  obtain ⟨msgs', hcerr', hwarnings', hall'⟩ := h'
  refine ⟨msgs ++ msgs', ?_, ?_, fun msg hmsg => ?_⟩
  · rw [hcerr', hcerr, List.flatten_append, List.append_assoc]
  · rw [hwarnings', hwarnings, List.append_assoc]
  · exact (List.mem_append.mp hmsg).elim (hall msg) (hall' msg)

theorem warn (w : World) {msg : Str} (h : IsWarning msg) : Warned w (w.warn msg) :=
  ⟨[msg], by simp [World.warn], rfl, by simpa using h⟩

end Warned

namespace FileLog

end FileLog

/-! ### The pieces of an object -/

/-- What a console makes of some records on one of the streams. -/
def consoleLines (err : Bool) (formatted : FormattedDestination) (recs : List Record) : List Str :=
  recs.filterMap fun r =>
    if toStderr r.level = err then (formatted.lineOf r).map consoleLine else none

/-- What an object prints for some records. -/
def Sink.pieces (err : Bool) (recs : List Record) : Sink → List Str
  | .console formatted => consoleLines err formatted recs
  | _ => []

namespace Sink

variable {err : Bool} {flt : Faults} {r : Record} {recs : List Record} {sink : Sink} {h : Host}

@[simp] theorem pieces_nil (err : Bool) (sink : Sink) : sink.pieces err [] = [] := by
  cases sink <;> rfl

end Sink

/-! ### The streams of a run -/

namespace Outputs

variable {D : Type*} [DecidableEq D]
variable {err : Bool} {recs : D → List Record} {out : Outputs D} {flt : Faults} {o : D}
  {maker : Maker} {sink : Sink} {h₀ : Host}

end Outputs

namespace System
open Outputs

variable {T D H : Type*} [DecidableEq T] [DecidableEq D] [DecidableEq H]
variable {hasher : Str → H} {sys : System T D H} {es : List (SysEv T D)}

end System

end GtLogging
