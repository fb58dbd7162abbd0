import GtLogging.Layout

/-! @src src/gt_logstream.h | layer:result | what a StreamStateSaver restores

    The destructor of a saver writes back the space flag, the quote flag and the verbosity level,
    but hands the saved format flags to `setf`, which sets them without clearing any other. Each
    operation of a statement clears some format flags and then sets some; which ones depends on the
    operation and on whether the stream may log, not on the flags. So a sequence of operations is
    one manipulator on the format flags, and a saver around it restores them iff all that this
    manipulator sets was set before. -/

namespace GtLogging
open Iostream StreamStateSaver

/-! ### What an operation does to the format flags -/

namespace StreamOp

mutual

/-- The manipulator an operation amounts to at a verbosity level, and the level afterwards. -/
def effect (verbosity : ℤ) : StreamOp → ℤ → Manip × ℤ
  | .value t, vlevel =>
    (if vlevel ≤ verbosity ∧ t.printsPointer then .setf {.hex} else .none, vlevel)
  | .verbose level, _ => (.none, level)
  | .manip m, vlevel => (if vlevel ≤ verbosity then m else .none, vlevel)
  | .saver scope, vlevel =>
    -- what was set before is set again
    (.setf (effects verbosity scope vlevel).1.set, vlevel)
  | .space, vlevel | .nospace, vlevel | .quote, vlevel | .noquote, vlevel | .setw _, vlevel
  | .setprecision _, vlevel | .ostream _, vlevel => (.none, vlevel)

def effects (verbosity : ℤ) : List StreamOp → ℤ → Manip × ℤ
  | [], vlevel => (.none, vlevel)
  | op :: ops, vlevel =>
    ((effect verbosity op vlevel).1.comp (effects verbosity ops (effect verbosity op vlevel).2).1,
      (effects verbosity ops (effect verbosity op vlevel).2).2)

end

/-- The format flags that some operation turns on and no later one turns off. -/
def flagsLeftOn (verbosity : ℤ) (ops : List StreamOp) (vlevel : ℤ) : FmtFlags :=
  (effects verbosity ops vlevel).1.set

end StreamOp

open StreamOp

/-- What an operation may do, its manipulator and its level given. -/
structure Performs (e : Manip × ℤ) (s s' : Stream) : Prop where
  flags : s'.ios.flags = e.1.apply s.ios.flags
  vlevel : s'.vlevel = e.2
  text : s.text <+: s'.text

variable {verbosity : ℤ} {s : Stream}

/-- An operation that neither prints nor touches the format flags and the level. -/
theorem Performs.quiet {s' : Stream} (hflags : s'.ios.flags = s.ios.flags)
    (hvlevel : s'.vlevel = s.vlevel) (htext : s.text <+: s'.text) :
    Performs (.none, s.vlevel) s s' :=
  ⟨by rw [hflags, Manip.apply_none], hvlevel, htext⟩

theorem Performs.comp {e e' : Manip × ℤ} {s s' s'' : Stream} (h : Performs e s s')
    (h' : Performs e' s' s'') : Performs (e.1.comp e'.1, e'.2) s s'' :=
  ⟨by rw [Manip.apply_comp, h'.flags, h.flags], h'.vlevel, h.text.trans h'.text⟩

theorem mayLog_iff : s.mayLog verbosity = true ↔ s.vlevel ≤ verbosity := by simp [Stream.mayLog]

theorem performs_emit (as : List Atom) :
    Performs (if hasPointer as then .setf {.hex} else .none, s.vlevel) s (s.emit as) := by
  refine ⟨?_, rfl, List.prefix_append _ _⟩
  rw [Stream.emit, spell_flags, flagsAfter]
  split_ifs
  · rw [Manip.apply_setf, Finset.union_comm]; rfl
  · rw [Manip.apply_none]

theorem performs_log (v : Value) :
    Performs (effect verbosity (.value v) s.vlevel) s (s.log verbosity v) := by
  rw [effect]
  cases h : s.mayLog verbosity with
  | true =>
    have hemit := performs_emit (s := s) (v.layout s.quoteFlag ++ trail s.spaceFlag)
    rw [hasPointer_layout_trail] at hemit
    rw [Stream.log_eq v h]
    simpa only [mayLog_iff.mp h, true_and] using hemit
  | false =>
    have hlevel : ¬ s.vlevel ≤ verbosity := fun hl => by rw [mayLog_iff.mpr hl] at h; cases h
    rw [Stream.log_suppressed v h, if_neg fun hl => hlevel hl.1]
    split_ifs
    · rw [Stream.doLogSpace_eq]
      exact Performs.quiet (by rw [Stream.emit, spell_flags]; cases s.spaceFlag <;> rfl) rfl
        (List.prefix_append _ _)
    · exact Performs.quiet rfl rfl (List.prefix_refl _)

mutual

/-- STEP: an operation performs its effect. -/
theorem performs_exec : ∀ (op : StreamOp) (s : Stream),
    Performs (op.effect verbosity s.vlevel) s (op.exec verbosity s)
  | .value t, s => by rw [exec]; exact performs_log t
  | .space, s => by rw [exec, effect]; exact .quiet rfl rfl (List.prefix_refl _)
  | .nospace, s => by rw [exec, effect]; exact .quiet rfl rfl (List.prefix_refl _)
  | .quote, s => by rw [exec, effect]; exact .quiet rfl rfl (List.prefix_refl _)
  | .noquote, s => by rw [exec, effect]; exact .quiet rfl rfl (List.prefix_refl _)
  | .verbose level, s => by
    rw [exec, effect]
    exact ⟨(Manip.apply_none _).symm, rfl, List.prefix_refl _⟩
  | .manip m, s => by
    rw [exec, effect]
    simp only [mayLog_iff]
    split_ifs
    · exact ⟨rfl, rfl, List.prefix_refl _⟩
    · exact .quiet rfl rfl (List.prefix_refl _)
  | .setw n, s => by
    rw [exec, effect]
    split_ifs
    · exact .quiet rfl rfl (List.prefix_refl _)
    · exact .quiet rfl rfl (List.prefix_refl _)
  | .setprecision n, s => by
    rw [exec, effect]
    split_ifs
    · exact .quiet rfl rfl (List.prefix_refl _)
    · exact .quiet rfl rfl (List.prefix_refl _)
  | .ostream written, s => by
    rw [exec, effect]
    split_ifs
    · exact .quiet rfl rfl (List.prefix_append _ _)
    · exact .quiet rfl rfl (List.prefix_refl _)
  | .saver scope, s => by
    have h := performs_run scope s
    rw [exec, effect]
    refine ⟨?_, rfl, h.text⟩
    -- (fl \ clear ∪ set) ∪ fl = fl ∪ set
    ext f
    simp only [destroy, new, Ios.manip_flags, h.flags, Manip.apply,
      Finset.mem_union, Finset.mem_sdiff]
    tauto

/-- RUN: so does a sequence of them. -/
theorem performs_run : ∀ (ops : List StreamOp) (s : Stream),
    Performs (effects verbosity ops s.vlevel) s (run verbosity ops s)
  | [], s => by rw [run, effects]; exact .quiet rfl rfl (List.prefix_refl _)
  | op :: ops, s => by
    have h := performs_exec op s
    have h' := performs_run ops (op.exec verbosity s)
    rw [h.vlevel] at h'
    rw [run, effects]
    exact h.comp h'

end

/-! ### Saving and restoring -/

/-- A saver made in `s` and destroyed in `inner` restored everything and kept what was logged. -/
structure Restored (s inner after : Stream) : Prop where
  flags : after.ios.flags = s.ios.flags
  spaceFlag : after.spaceFlag = s.spaceFlag
  quoteFlag : after.quoteFlag = s.quoteFlag
  vlevel : after.vlevel = s.vlevel
  text : after.text = inner.text
  logged : s.text <+: after.text

/-- EXACT: a saver restores what it saved iff every format flag that the operations under it leave
    on was on before. -/
theorem saver_restores_iff (verbosity : ℤ) (s : Stream) (ops : List StreamOp) :
    Restored s (run verbosity ops s) ((new s).destroy (run verbosity ops s)) ↔
      flagsLeftOn verbosity ops s.vlevel ⊆ s.ios.flags := by
  have h : Performs (effects verbosity ops s.vlevel) s (run verbosity ops s) := performs_run ops s
  have hflags : ((new s).destroy (run verbosity ops s)).ios.flags = s.ios.flags ↔
      flagsLeftOn verbosity ops s.vlevel ⊆ s.ios.flags := by
    rw [destroy, Ios.manip_flags, Manip.apply_setf, new, Finset.union_eq_right, h.flags]
    exact Manip.apply_subset_iff
  exact ⟨fun hr => hflags.mp hr.flags,
    fun hle => ⟨hflags.mpr hle, rfl, rfl, rfl, rfl, h.text⟩⟩

/-- COUNTEREXAMPLE: after `std::hex` under a saver, the stream is left with both base bits. -/
theorem saver_keeps_hex :
    ¬ Restored {} (run Silent [.manip .hex] {}) ((new {}).destroy (run Silent [.manip .hex] {})) :=
  fun h => absurd h.flags (by decide)

end GtLogging
