import GtLogging.Value

/-! @src src/gt_logstream.h, src/gt_logging/*.h | layer:spec | what logging a value does to a stream

    The layout of a value is the sequence of items and pointers it prints, whatever the state of the
    stream; `spell` prints a layout from a formatting state. On a stream that may log, `s << v`
    spells the layout of `v` and a space where the space flag is set, and changes nothing but the
    text and the formatting state; the only flag it can leave behind is `hex`, after a pointer. On a
    stream that may not log it does nothing, except that a raw pointer still logs its space. -/

namespace GtLogging
open Iostream

/-! ### Spelling -/

inductive Atom where
  | item (t : Item)
  | pointer (t : BitVec 64)

namespace Atom

abbrev text (t : Str) : Atom := .item (.text t)

def isPointer : Atom → Bool
  | .item _ => false
  | .pointer _ => true

/-- The text of an atom, and the formatting state afterwards. A pointer prints in hexadecimal and
    then adds the former flags again. -/
def print (ios : Ios) : Atom → Str × Ios
  | .item t => t.print ios
  | .pointer t =>
    let r₁ := Item.print (ios.manip .hex) "0x".toList
    let r₂ := Item.print r₁.2 (.int .uintptr t)
    (r₁.1 ++ r₂.1, r₂.2.manip (.setf ios.flags))

end Atom

/-- Print a sequence of atoms. -/
def spell : List Atom → Ios → Str × Ios
  | [], ios => ([], ios)
  | a :: as, ios =>
    ((a.print ios).1 ++ (spell as (a.print ios).2).1, (spell as (a.print ios).2).2)

theorem spell_append (as bs : List Atom) (ios : Ios) :
    spell (as ++ bs) ios =
      ((spell as ios).1 ++ (spell bs (spell as ios).2).1, (spell bs (spell as ios).2).2) := by
  induction as generalizing ios with
  | nil => rfl
  | cons a as ih => simp [spell, ih]

/-- Some atom is a pointer. -/
def hasPointer (as : List Atom) : Bool := as.any Atom.isPointer

/-- The format flags after a layout. -/
def flagsAfter (as : List Atom) (fl : FmtFlags) : FmtFlags :=
  if hasPointer as then insert .hex fl else fl

theorem print_flags (a : Atom) (ios : Ios) :
    (a.print ios).2.flags = flagsAfter [a] ios.flags := by
  cases a with
  | item t => rfl
  | pointer t =>
    ext f
    simp [Atom.print, flagsAfter, hasPointer, Atom.isPointer, Manip.apply, Manip.hex]
    tauto

theorem flagsAfter_cons (a : Atom) (as : List Atom) (fl : FmtFlags) :
    flagsAfter (a :: as) fl = flagsAfter as (flagsAfter [a] fl) := by
  by_cases ha : a.isPointer <;> by_cases has : hasPointer as <;>
    simp_all [flagsAfter, hasPointer]

theorem spell_flags (as : List Atom) (ios : Ios) :
    (spell as ios).2.flags = flagsAfter as ios.flags := by
  induction as generalizing ios with
  | nil => rfl
  | cons a as ih => rw [spell, ih, print_flags, flagsAfter_cons a as]

theorem subset_flagsAfter (as : List Atom) (fl : FmtFlags) : fl ⊆ flagsAfter as fl := by
  rw [flagsAfter]
  split_ifs
  · exact Finset.subset_insert _ _
  · exact Finset.Subset.refl _

theorem spell_precision (as : List Atom) (ios : Ios) :
    (spell as ios).2.precision = ios.precision := by
  induction as generalizing ios with
  | nil => rfl
  | cons a as ih => rw [spell, ih]; cases a <;> rfl

theorem spell_width {ios : Ios} (h : ios.width = 0) (as : List Atom) :
    (spell as ios).2.width = 0 := by
  induction as generalizing ios with
  | nil => exact h
  | cons a as ih => rw [spell]; exact ih (by cases a <;> rfl)

/-! ### Layouts -/

mutual

/-- What `v` prints, for a quote flag. -/
def Value.layout (q : Bool) : Value → List Atom
  | .nullptr => [.text "(nullptr)".toList]
  | .pointer t => [.pointer t]
  | .bool t => [.item (.bool t)]
  | .char t => [.text [t]]
  | .wide pre k t => [.text pre, .item (.int k t), .text ['\'']]
  | .int k t => [.item (.int k t)]
  | .float shown => [.item (.float shown)]
  | .cstring t => [.text t]
  | .string t => if q then [.text ['"'], .text t, .text ['"']] else [.text t]
  | .pair first second =>
    .text ['('] :: first.layout true ++ .text ", ".toList :: second.layout true ++ [.text [')']]
  | .tuple init last => .text ['('] :: layoutInit init ++ last.layout true ++ [.text [')']]
  | .smartPtr pre get => [.text pre, .pointer get, .text [')']]
  | .range elems pre suf sep => .text pre :: layoutElems sep elems ++ [.text suf]

/-- The components of a tuple except the last. -/
def layoutInit : List Value → List Atom
  | [] => []
  | v :: vs => v.layout true ++ .text ", ".toList :: layoutInit vs

/-- The elements of a range. -/
def layoutElems (sep : Str) : List Value → List Atom
  | [] => []
  | [v] => v.layout true
  | v :: w :: vs => v.layout true ++ .text sep :: layoutElems sep (w :: vs)

end

/-- A raw pointer, the one value that ends with an unguarded `doLogSpace`. -/
def Value.isPointer : Value → Bool
  | .pointer _ => true
  | _ => false

/-- The space after a value. -/
def trail (space : Bool) : List Atom := if space then [.text [' ']] else []

/-- Whether a value prints a pointer. -/
def Value.printsPointer (v : Value) : Bool := hasPointer (v.layout false)

theorem hasPointer_layout (v : Value) (q : Bool) : hasPointer (v.layout q) = v.printsPointer := by
  cases v with
  | string t => cases q <;> rfl
  | _ => rfl

theorem hasPointer_layout_trail (v : Value) (q space : Bool) :
    hasPointer (v.layout q ++ trail space) = v.printsPointer := by
  rw [hasPointer, List.any_append, ← hasPointer, hasPointer_layout]
  cases space <;> simp [trail, Atom.isPointer]

namespace Stream
open StreamStateSaver

variable {verbosity : ℤ} {s : Stream}

/-- Print a layout into the stream. -/
def emit (as : List Atom) (s : Stream) : Stream :=
  { s with text := s.text ++ (spell as s.ios).1, ios := (spell as s.ios).2 }

@[simp] theorem emit_spaceFlag (as : List Atom) : (s.emit as).spaceFlag = s.spaceFlag := rfl
@[simp] theorem emit_quoteFlag (as : List Atom) : (s.emit as).quoteFlag = s.quoteFlag := rfl
@[simp] theorem emit_vlevel (as : List Atom) : (s.emit as).vlevel = s.vlevel := rfl
@[simp] theorem mayLog_emit (as : List Atom) :
    (s.emit as).mayLog verbosity = s.mayLog verbosity := rfl

@[simp] theorem emit_nil : s.emit [] = s := by simp [emit, spell]

@[simp] theorem emit_emit (as bs : List Atom) : (s.emit as).emit bs = s.emit (as ++ bs) := by
  simp [emit, spell_append]

theorem put_eq (t : Item) : s.put t = s.emit [.item t] := by
  simp [put, emit, spell, Atom.print]

theorem doLogSpace_eq : s.doLogSpace = s.emit (trail s.spaceFlag) := by
  rw [doLogSpace, trail]
  split_ifs
  · exact put_eq _
  · exact emit_nil.symm

theorem doLog_eq (h : s.mayLog verbosity = true) (t : Item) :
    s.doLog verbosity t = s.emit (.item t :: trail s.spaceFlag) := by
  rw [doLog, if_pos h, doLogSpace_eq, put_eq]
  exact emit_emit _ _

theorem emit_doLog (h : s.mayLog verbosity = true) (as : List Atom) (t : Item) :
    (s.emit as).doLog verbosity t = s.emit (as ++ .item t :: trail s.spaceFlag) := by
  rw [doLog_eq (s := s.emit as) h, emit_emit, emit_spaceFlag]

theorem emit_put (as : List Atom) (t : Item) : (s.emit as).put t = s.emit (as ++ [.item t]) := by
  rw [put_eq, emit_emit]

theorem emit_doLogSpace (as : List Atom) :
    (s.emit as).doLogSpace = s.emit (as ++ trail s.spaceFlag) := by
  rw [doLogSpace_eq, emit_emit, emit_spaceFlag]

theorem doLog_suppressed (h : s.mayLog verbosity = false) (t : Item) : s.doLog verbosity t = s := by
  rw [doLog, h]; rfl

theorem doLogQuoted_eq (h : s.mayLog verbosity = true) (t : Str) :
    s.doLogQuoted verbosity t =
      s.emit ((Value.string t).layout s.quoteFlag ++ trail s.spaceFlag) := by
  rw [doLogQuoted, if_pos h, doLogSpace_eq, Value.layout]
  cases hq : s.quoteFlag with
  | false => simp [doLogQuote, put_eq, hq]
  | true => simp [doLogQuote, put_eq, hq]

/-! ### A stream that may log -/

/-- A saver puts back all but what was printed under it. -/
theorem destroy_emit (s s' : Stream) (htext : s'.text = s.text) (hios : s'.ios = s.ios)
    (as : List Atom) : (new s).destroy (s'.emit as) = s.emit as := by
  have hflags : (spell as s.ios).2.manip (.setf s.ios.flags) = (spell as s.ios).2 := by
    rw [Ios.manip, Manip.apply_setf, spell_flags,
      Finset.union_eq_left.mpr (subset_flagsAfter as s.ios.flags), ← spell_flags]
  simp only [destroy, emit, new, htext, hios, hflags]

theorem logPointer_eq (h : s.mayLog verbosity = true) (t : BitVec 64) :
    s.logPointer verbosity t = s.emit (.pointer t :: trail s.spaceFlag) := by
  have h₁ : s.nospace.mayLog verbosity = true := h
  have h₂ : (s.nospace.putManip .hex).mayLog verbosity = true := h
  have hmanip : s.nospace.doLogManip verbosity .hex = s.nospace.putManip .hex := by
    rw [doLogManip, if_pos h₁]; rfl
  have hbody : (new s).destroy (((s.nospace.doLogManip verbosity .hex).doLog verbosity
      "0x".toList).doLog verbosity (.int .uintptr t)) = s.emit [.pointer t] := by
    rw [hmanip, doLog_eq h₂, emit_doLog h₂]
    simp [destroy, emit, new, spell, Atom.print, trail, nospace, putManip]
  rw [logPointer, hbody, emit_doLogSpace]
  rfl

theorem logWide_eq (h : s.mayLog verbosity = true) (pre : Str) (k : IntType) (t : BitVec k.bits) :
    s.logWide verbosity pre k t =
      s.emit ((Value.wide pre k t).layout s.quoteFlag ++ trail s.spaceFlag) := by
  have h₁ : s.nospace.mayLog verbosity = true := h
  rw [logWide, doLog_eq h₁, emit_doLog h₁, destroy_emit s s.nospace rfl rfl, emit_doLog h]
  rfl

theorem logSmartPtr_eq (h : s.mayLog verbosity = true) (pre : Str) (get : BitVec 64) :
    s.logSmartPtr verbosity pre get =
      s.emit ((Value.smartPtr pre get).layout s.quoteFlag ++ trail s.spaceFlag) := by
  have h₁ : s.nospace.mayLog verbosity = true := h
  rw [logSmartPtr, doLog_eq h₁, logPointer_eq (s := s.nospace.emit _) h₁, emit_emit,
    destroy_emit s s.nospace rfl rfl, emit_doLog h]
  rfl

mutual

/-- SPEC of `s << v` on a stream that may log. -/
theorem log_eq : ∀ (v : Value) {s : Stream}, s.mayLog verbosity = true →
    s.log verbosity v = s.emit (v.layout s.quoteFlag ++ trail s.spaceFlag)
  | .nullptr, s, h => by rw [log, doLog_eq h]; rfl
  | .pointer t, s, h => by rw [log, logPointer_eq h]; rfl
  | .bool t, s, h => by rw [log, doLog_eq h]; rfl
  | .char t, s, h => by rw [log, doLog_eq h]; rfl
  | .wide pre k t, s, h => by rw [log, logWide_eq h]
  | .int k t, s, h => by rw [log, doLog_eq h]; rfl
  | .float shown, s, h => by rw [log, doLog_eq h]; rfl
  | .cstring t, s, h => by rw [log, doLog_eq h]; rfl
  | .string t, s, h => by rw [log, doLogQuoted_eq h]
  | .pair first second, s, h => by
    have h₁ : s.nospace.quote.mayLog verbosity = true := h
    have hbody : log verbosity second ((log verbosity first
        (s.nospace.quote.doLog verbosity ['('])).doLog verbosity ", ".toList) =
        s.nospace.quote.emit
          (.text ['('] :: first.layout true ++ .text ", ".toList :: second.layout true) := by
      rw [doLog_eq h₁, log_eq first (s := s.nospace.quote.emit _) h₁, emit_emit, emit_doLog h₁,
        log_eq second (s := s.nospace.quote.emit _) h₁, emit_emit]
      simp [trail, nospace, quote]
    rw [log, if_pos h, hbody, destroy_emit s s.nospace.quote rfl rfl]
    simp only [emit_doLog h, Value.layout]
    simp
  | .tuple init last, s, h => by
    have h₁ : s.nospace.quote.mayLog verbosity = true := h
    have hbody : log verbosity last (logInit verbosity init
        (s.nospace.quote.doLog verbosity ['('])) =
        s.nospace.quote.emit (.text ['('] :: layoutInit init ++ last.layout true) := by
      rw [doLog_eq h₁, logInit_eq init (s := s.nospace.quote.emit _) h₁ rfl rfl, emit_emit,
        log_eq last (s := s.nospace.quote.emit _) h₁, emit_emit]
      simp [trail, nospace, quote]
    rw [log, hbody, destroy_emit s s.nospace.quote rfl rfl, emit_doLog h, Value.layout]
    simp
  | .smartPtr pre get, s, h => by rw [log, logSmartPtr_eq h]
  | .range elems pre suf sep, s, h => by
    have h₁ : (s.put pre).nospace.quote.mayLog verbosity = true := h
    have hbody : (if elems.isEmpty then s.put pre else
        (new (s.put pre)).destroy (logElems verbosity sep elems (s.put pre).nospace.quote)) =
        s.emit (.text pre :: layoutElems sep elems) := by
      split_ifs with he
      · rw [List.isEmpty_iff.mp he, put_eq]; rfl
      · rw [logElems_eq sep elems h₁ rfl rfl,
          destroy_emit (s.put pre) (s.put pre).nospace.quote rfl rfl, put_eq, emit_emit]
        rfl
    rw [log, if_pos h]
    simp only [hbody]
    rw [emit_put, emit_doLogSpace, Value.layout]

theorem logInit_eq : ∀ (vs : List Value) {s : Stream}, s.mayLog verbosity = true →
    s.spaceFlag = false → s.quoteFlag = true → s.logInit verbosity vs = s.emit (layoutInit vs)
  | [], s, _, _, _ => by rw [logInit, layoutInit, emit_nil]
  | v :: vs, s, h, hs, hq => by
    have h₁ : (s.log verbosity v).doLog verbosity ", ".toList =
        s.emit (v.layout true ++ [.text ", ".toList]) := by
      rw [log_eq v h, emit_doLog h]
      simp [hs, hq, trail]
    rw [logInit, h₁, logInit_eq vs (s := s.emit _) h hs hq, emit_emit, layoutInit]
    simp

theorem logElems_eq (sep : Str) : ∀ (vs : List Value) {s : Stream}, s.mayLog verbosity = true →
    s.spaceFlag = false → s.quoteFlag = true →
    s.logElems verbosity sep vs = s.emit (layoutElems sep vs)
  | [], s, _, _, _ => by rw [logElems, layoutElems, emit_nil]
  | [v], s, h, hs, hq => by rw [logElems, layoutElems, log_eq v h, hs, hq]; simp [trail]
  | v :: w :: vs, s, h, hs, hq => by
    have h₁ : (s.log verbosity v).put sep = s.emit (v.layout true ++ [.text sep]) := by
      rw [log_eq v h, emit_put]
      simp [hs, hq, trail]
    rw [logElems, h₁, logElems_eq sep (w :: vs) (s := s.emit _) h hs hq, emit_emit, layoutElems]
    simp

end

/-! ### A stream that may not log -/

/-- A saver around nothing is nothing. -/
theorem destroy_new (s s' : Stream) (htext : s'.text = s.text) (hios : s'.ios = s.ios) :
    (new s).destroy s' = s := by
  have h := destroy_emit s s' htext hios []
  rwa [emit_nil, emit_nil] at h

theorem logPointer_suppressed (h : s.mayLog verbosity = false) (t : BitVec 64) :
    s.logPointer verbosity t = s.doLogSpace := by
  have h₁ : s.nospace.mayLog verbosity = false := h
  rw [logPointer, doLogManip, h₁, if_neg Bool.false_ne_true, doLog_suppressed h₁,
    doLog_suppressed h₁, destroy_new s s.nospace rfl rfl]

theorem doLogSpace_of_nospace (h : s.spaceFlag = false) : s.doLogSpace = s := by
  rw [doLogSpace, h]; rfl

theorem logWide_suppressed (h : s.mayLog verbosity = false) (pre : Str) (k : IntType)
    (t : BitVec k.bits) : s.logWide verbosity pre k t = s := by
  have h₁ : s.nospace.mayLog verbosity = false := h
  rw [logWide, doLog_suppressed h₁, doLog_suppressed h₁, destroy_new s s.nospace rfl rfl,
    doLog_suppressed h]

theorem logSmartPtr_suppressed (h : s.mayLog verbosity = false) (pre : Str) (get : BitVec 64) :
    s.logSmartPtr verbosity pre get = s := by
  have h₁ : s.nospace.mayLog verbosity = false := h
  rw [logSmartPtr, doLog_suppressed h₁, logPointer_suppressed h₁, doLogSpace_of_nospace rfl,
    destroy_new s s.nospace rfl rfl, doLog_suppressed h]

mutual

/-- SPEC of `s << v` on a stream that may not log. -/
theorem log_suppressed : ∀ (v : Value) {s : Stream}, s.mayLog verbosity = false →
    s.log verbosity v = if v.isPointer then s.doLogSpace else s
  | .nullptr, s, h => by rw [log, doLog_suppressed h]; rfl
  | .pointer t, s, h => by rw [log, logPointer_suppressed h]; rfl
  | .bool t, s, h => by rw [log, doLog_suppressed h]; rfl
  | .char t, s, h => by rw [log, doLog_suppressed h]; rfl
  | .wide pre k t, s, h => by rw [log, logWide_suppressed h]; rfl
  | .int k t, s, h => by rw [log, doLog_suppressed h]; rfl
  | .float shown, s, h => by rw [log, doLog_suppressed h]; rfl
  | .cstring t, s, h => by rw [log, doLog_suppressed h]; rfl
  | .string t, s, h => by rw [log, doLogQuoted, h]; rfl
  | .pair first second, s, h => by rw [log, h]; simp [doLog_suppressed h, Value.isPointer]
  | .tuple init last, s, h => by
    -- the tuple is not guarded as a whole, but its components are logged without space
    have h₁ : s.nospace.quote.mayLog verbosity = false := h
    have hlast : log verbosity last s.nospace.quote = s.nospace.quote := by
      rw [log_suppressed last h₁, doLogSpace_of_nospace rfl, ite_self]
    rw [log, doLog_suppressed h₁, logInit_suppressed init h₁ rfl, hlast,
      destroy_new s s.nospace.quote rfl rfl, doLog_suppressed h]
    rfl
  | .smartPtr pre get, s, h => by rw [log, logSmartPtr_suppressed h]; rfl
  | .range elems pre suf sep, s, h => by rw [log, h]; rfl

theorem logInit_suppressed : ∀ (vs : List Value) {s : Stream}, s.mayLog verbosity = false →
    s.spaceFlag = false → s.logInit verbosity vs = s
  | [], s, _, _ => by rw [logInit]
  | v :: vs, s, h, hs => by
    rw [logInit, log_suppressed v h, doLogSpace_of_nospace hs, ite_self, doLog_suppressed h,
      logInit_suppressed vs h hs]

end

end Stream

end GtLogging
