import GtLogging.LogOnce
import GtLogging.Rendering

/-! @src src/gt_logging.h, src/gt_logging.cpp, src/gt_logstream.h | layer:model,result | gating

    A statement of the default macros is gated twice: its level is compared with the logging level
    before anything is streamed, and the verbosity of its stream is compared with that of the logger
    at every value and once more at its end. A run under a higher verbosity of the logger renders
    every value the other run renders, so its text contains the other text; `Below` is the relation
    between the two streams. -/

namespace GtLogging
open Iostream StreamOp StreamStateSaver
open scoped List

/-! ### Statements of the default macros -/

/-- A statement: its level, its id, and what it does to its stream. -/
structure LogStatement where
  level : Level
  id : Str := []
  ops : List StreamOp

/-- `Logger::Helper::writeToLog`, what it hands to `Logger::log`. -/
def writeToLog (verbosity : ℤ) (level : Level) (id : Str) (gtStream : Stream) : Option Message :=
  if gtStream.mayLog verbosity then
    if gtStream.str = [] then none else some ⟨gtStream.str, id, level⟩
  else none

/-- `GT_LOG_IMPL_MESSAGE`: test the level, stream, and write to the log at the end. -/
def LogStatement.delivered (g : Settings) (st : LogStatement) : Option Message :=
  if levelToInt g.level ≤ levelToInt st.level then
    writeToLog g.verbosity st.level st.id (run g.verbosity st.ops {})
  else none

theorem writeToLog_eq_some {verbosity : ℤ} {level : Level} {id : Str} {s : Stream} {m : Message} :
    writeToLog verbosity level id s = some m ↔
      s.mayLog verbosity = true ∧ s.str ≠ [] ∧ ⟨s.str, id, level⟩ = m := by
  rw [writeToLog]
  split_ifs with h₁ h₂
  · simp [h₂]
  · simp [h₁, h₂]
  · simp [h₁]

mutual

/-- No manipulator, not under a saver either. -/
def StreamOp.manipFree : StreamOp → Bool
  | .manip _ | .setw _ | .setprecision _ | .ostream _ => false
  | .saver scope => manipsFree scope
  | .value _ | .space | .nospace | .quote | .noquote | .verbose _ => true

def manipsFree : List StreamOp → Bool
  | [] => true
  | op :: ops => op.manipFree && manipsFree ops

end

/-! ### The two runs -/

/-- SIMULATION: equal flags and levels, plain formatting states, and a text within the other. -/
structure Below (s s' : Stream) : Prop where
  text : s.text <+ s'.text
  spaceFlag : s.spaceFlag = s'.spaceFlag
  quoteFlag : s.quoteFlag = s'.quoteFlag
  vlevel : s.vlevel = s'.vlevel
  plain : Plain s.ios
  plain' : Plain s'.ios

variable {v v' : ℤ} {s s' : Stream}

/-- What may log under the lower verbosity may log under the higher one. -/
theorem Below.mayLog (h : Below s s') (hv : v ≤ v') (hs : s.mayLog v = true) :
    s'.mayLog v' = true := by
  rw [Stream.mayLog, decide_eq_true_eq] at hs ⊢
  rw [← h.vlevel]
  exact hs.trans hv

/-- STEP for a value: rendered in both runs, in the second only, or in none of them. -/
theorem below_log (hv : v ≤ v') (t : Value) (h : Below s s') :
    Below (s.log v t) (s'.log v' t) := by
  obtain ⟨htext, hplain, hspace, hquote, hlevel⟩ := log_text v h.plain t
  obtain ⟨htext', hplain', hspace', hquote', hlevel'⟩ := log_text v' h.plain' t
  refine ⟨?_, by rw [hspace, hspace', h.spaceFlag], by rw [hquote, hquote', h.quoteFlag],
    by rw [hlevel, hlevel', h.vlevel], hplain, hplain'⟩
  rw [htext, htext', ← h.spaceFlag, ← h.quoteFlag]
  refine h.text.append ?_
  cases hs : s.mayLog v with
  | true =>
    rw [if_pos rfl, if_pos (h.mayLog hv hs)]
  | false =>
    cases hs' : s'.mayLog v' with
    | true =>
      -- the space of a suppressed pointer is the one after the rendered pointer
      rw [if_neg Bool.false_ne_true, if_pos rfl]
      split_ifs
      · exact List.sublist_append_right _ _
      · exact List.nil_sublist _
    | false => exact List.Sublist.refl _

theorem plain_setf {ios : Ios} {fl : FmtFlags} (h : Plain ios)
    (hfl : fl = freshFlags ∨ fl = insert .hex freshFlags) : Plain (ios.manip (.setf fl)) := by
  refine ⟨?_, h.width, h.precision⟩
  rw [Ios.manip_flags, Manip.apply_setf]
  rcases h.flags with hf | hf <;> rcases hfl with rfl | rfl <;> rw [hf] <;> decide

/-- Both savers put back the same flags and levels. -/
theorem below_destroy {t t' : Stream} (h : Below s s') (ht : Below t t') :
    Below ((new s).destroy t) ((new s').destroy t') :=
  ⟨ht.text, h.spaceFlag, h.quoteFlag, h.vlevel, plain_setf ht.plain h.plain.flags,
    plain_setf ht.plain' h.plain'.flags⟩

mutual

/-- STEP: every operation keeps the relation. -/
theorem below_exec (hv : v ≤ v') : ∀ (op : StreamOp) {s s' : Stream}, op.manipFree = true →
    Below s s' → Below (op.exec v s) (op.exec v' s')
  | .value t, s, s', _, h => by rw [exec, exec]; exact below_log hv t h
  | .space, s, s', _, h => by rw [exec, exec]; exact { h with spaceFlag := rfl }
  | .nospace, s, s', _, h => by rw [exec, exec]; exact { h with spaceFlag := rfl }
  | .quote, s, s', _, h => by rw [exec, exec]; exact { h with quoteFlag := rfl }
  | .noquote, s, s', _, h => by rw [exec, exec]; exact { h with quoteFlag := rfl }
  | .verbose level, s, s', _, h => by rw [exec, exec]; exact { h with vlevel := rfl }
  | .saver scope, s, s', hop, h => by
    rw [exec, exec]
    rw [manipFree] at hop
    exact below_destroy h (below_run hv scope hop h)
  | .manip m, _, _, hop, _ => by simp [manipFree] at hop
  | .setw n, _, _, hop, _ => by simp [manipFree] at hop
  | .setprecision n, _, _, hop, _ => by simp [manipFree] at hop
  | .ostream written, _, _, hop, _ => by simp [manipFree] at hop

/-- RUN: so does every sequence of them. -/
theorem below_run (hv : v ≤ v') : ∀ (ops : List StreamOp) {s s' : Stream}, manipsFree ops = true →
    Below s s' → Below (run v ops s) (run v' ops s')
  | [], s, s', _, h => by rw [run, run]; exact h
  | op :: ops, s, s', hops, h => by
    rw [manipsFree, Bool.and_eq_true] at hops
    rw [run, run]
    exact below_run hv ops hops.2 (below_exec hv op hops.1 h)

end

theorem below_fresh : Below {} {} :=
  ⟨List.Sublist.refl _, rfl, rfl, rfl, ⟨Or.inl rfl, rfl, rfl⟩, ⟨Or.inl rfl, rfl, rfl⟩⟩

/-- MONOTONE: what a statement without manipulators delivers, it also delivers under a lower or
    equal logging level and a higher or equal verbosity, and with a text that contains the other. -/
theorem gating_monotone {g g' : Settings} (hlevel : levelToInt g'.level ≤ levelToInt g.level)
    (hverb : g.verbosity ≤ g'.verbosity) {st : LogStatement} (hops : manipsFree st.ops = true)
    {m : Message} (h : st.delivered g = some m) :
    ∃ m', st.delivered g' = some m' ∧ m'.id = m.id ∧ m'.level = m.level ∧ m.text <+ m'.text := by
  rw [LogStatement.delivered] at h
  split_ifs at h with hgate
  obtain ⟨hmay, hne, rfl⟩ := writeToLog_eq_some.mp h
  have hb : Below (run g.verbosity st.ops {}) (run g'.verbosity st.ops {}) :=
    below_run hverb st.ops hops below_fresh
  have hne' : (run g'.verbosity st.ops {}).str ≠ [] := by
    intro he
    have hsub := hb.text
    rw [show (run g'.verbosity st.ops {}).text = [] from he] at hsub
    exact hne (List.sublist_nil.mp hsub)
  refine ⟨⟨(run g'.verbosity st.ops {}).str, st.id, st.level⟩, ?_, rfl, rfl, hb.text⟩
  rw [LogStatement.delivered, if_pos (hlevel.trans hgate)]
  exact writeToLog_eq_some.mpr ⟨hb.mayLog hverb hmay, hne', rfl⟩

/-- Under verbosity 9 the pointer is rendered, under 0 only its space is. -/
theorem pointer_rendered_under_everything :
    ∃ m', LogStatement.delivered ⟨.TraceLevel, Everything⟩ ⟨.ErrorLevel, [],
        [.value (.int .int 7), .verbose Medium, .value (.pointer 10), .verbose Silent]⟩ = some m' ∧
      m'.id = [] ∧ m'.level = .ErrorLevel ∧ "7  ".toList <+ m'.text :=
  gating_monotone (g := ⟨.InfoLevel, Silent⟩) (m := ⟨"7  ".toList, [], .ErrorLevel⟩) (by decide)
    (by decide) (by decide) (by decide)

end GtLogging
