import GtLogging.Layout

/-! @src src/gt_logstream.h, src/gt_logging/*.h | layer:refinement,result | the reference printer

    Without manipulators the formatting state of a stream stays *plain*: a fresh one, except that a
    pointer leaves `hex` set next to `dec`, under which integers still print in decimal. In a plain
    state the text of an atom does not depend on what was printed before, so that logging a value
    appends what a recursive printer yields. -/

namespace GtLogging
open Iostream

/-! ### The reference printer -/

/-- An address: `0x` and the hexadecimal digits. -/
def address (t : BitVec 64) : Str := "0x".toList ++ Nat.toDigits 16 t.toNat

mutual

/-- REFERENCE: the text of a value. Components and elements are rendered with quotes. -/
def render (q : Bool) : Value → Str
  | .nullptr => ['(', 'n', 'u', 'l', 'l', 'p', 't', 'r', ')']
  | .pointer t => address t
  | .bool t => if t then "true".toList else "false".toList
  | .char t => [t]
  | .wide pre k t => pre ++ stdToStringInt (k.value t) ++ ['\'']
  | .int k t => stdToStringInt (k.value t)
  | .float shown => shown ∅ 6
  | .cstring t => t
  | .string t => if q then ['"'] ++ t ++ ['"'] else t
  | .pair first second => ['('] ++ render true first ++ ", ".toList ++ render true second ++ [')']
  | .tuple init last =>
    ['('] ++ List.intercalate ", ".toList (renderAll init ++ [render true last]) ++ [')']
  | .smartPtr pre get => pre ++ address get ++ [')']
  | .range elems pre suf sep => pre ++ List.intercalate sep (renderAll elems) ++ suf

def renderAll : List Value → List Str
  | [] => []
  | v :: vs => render true v :: renderAll vs

end

/-- The text of an atom. -/
def Atom.plain : Atom → Str
  | .item (.text t) => t
  | .item (.bool b) => if b then "true".toList else "false".toList
  | .item (.int k n) => stdToStringInt (k.value n)
  | .item (.float shown) => shown ∅ 6
  | .pointer t => address t

theorem intercalate_cons (sep : Str) (x : Str) {xs : List Str} (h : xs ≠ []) :
    List.intercalate sep (x :: xs) = x ++ sep ++ List.intercalate sep xs := by
  obtain ⟨y, ys, rfl⟩ := List.exists_cons_of_ne_nil h
  simp [List.intercalate]

mutual

/-- The atoms of a layout, put side by side, are the reference text. -/
theorem plain_layout : ∀ (q : Bool) (v : Value), (v.layout q).flatMap Atom.plain = render q v
  | q, .nullptr => by simp [Value.layout, render, Atom.plain]
  | q, .pointer t => by simp [Value.layout, render, Atom.plain]
  | q, .bool t => by rw [Value.layout, render, List.flatMap_singleton]; rfl
  | q, .char t => by simp [Value.layout, render, Atom.plain]
  | q, .wide pre k t => by simp [Value.layout, render, Atom.plain]
  | q, .int k t => by simp [Value.layout, render, Atom.plain]
  | q, .float shown => by simp [Value.layout, render, Atom.plain]
  | q, .cstring t => by simp [Value.layout, render, Atom.plain]
  | q, .string t => by cases q <;> simp [Value.layout, render, Atom.plain]
  | q, .pair first second => by
    simp [Value.layout, render, Atom.plain, plain_layout true first, plain_layout true second]
  | q, .tuple init last => by
    have h := plain_layoutInit init (render true last)
    simp only [Value.layout, render, List.flatMap_append, List.flatMap_cons, List.flatMap_nil,
      Atom.plain, plain_layout true last, List.append_nil, ← h, List.append_assoc]
  | q, .smartPtr pre get => by simp [Value.layout, render, Atom.plain]
  | q, .range elems pre suf sep => by
    simp [Value.layout, render, Atom.plain, plain_layoutElems sep elems]

theorem plain_layoutInit : ∀ (vs : List Value) (last : Str),
    (layoutInit vs).flatMap Atom.plain ++ last =
      List.intercalate ", ".toList (renderAll vs ++ [last])
  | [], last => by simp [layoutInit, renderAll, List.intercalate]
  | v :: vs, last => by
    rw [renderAll, List.cons_append, intercalate_cons _ _ (by simp), ← plain_layoutInit vs last]
    simp [layoutInit, Atom.plain, plain_layout true v]

theorem plain_layoutElems (sep : Str) : ∀ vs : List Value,
    (layoutElems sep vs).flatMap Atom.plain = List.intercalate sep (renderAll vs)
  | [] => by simp [layoutElems, renderAll, List.intercalate]
  | [v] => by simp [layoutElems, renderAll, List.intercalate, plain_layout true v]
  | v :: w :: vs => by
    rw [renderAll, intercalate_cons _ _ (by simp [renderAll]), ← plain_layoutElems sep (w :: vs)]
    simp [layoutElems, Atom.plain, plain_layout true v]

end

/-! ### Plain formatting states -/

/-- The format flags of a fresh stream. -/
def freshFlags : FmtFlags := {.boolalpha, .skipws, .dec}

/-- A state that a stream without manipulators can be in. -/
structure Plain (ios : Ios) : Prop where
  flags : ios.flags = freshFlags ∨ ios.flags = insert .hex freshFlags
  width : ios.width = 0
  precision : ios.precision = 6

/-- What matters of plain flags. -/
theorem plain_flags {fl : FmtFlags} (h : fl = freshFlags ∨ fl = insert .hex freshFlags) :
    base fl = 10 ∧ .boolalpha ∈ fl ∧ .showpos ∉ fl ∧ .uppercase ∉ fl ∧ fl ∩ floatflags = ∅ ∧
      base (Manip.hex.apply fl) = 16 ∧ .uppercase ∉ Manip.hex.apply fl ∧
      .showbase ∉ Manip.hex.apply fl := by
  rcases h with rfl | rfl
  · decide
  · decide

/-- In a plain state an atom prints as its text, and the state stays plain. -/
theorem print_plain {ios : Ios} (h : Plain ios) (a : Atom) :
    (a.print ios).1 = a.plain ∧ Plain (a.print ios).2 := by
  obtain ⟨hbase, halpha, hpos, hupper, hfloat, hhex, hupper', hshow⟩ := plain_flags h.flags
  cases a with
  | item t =>
    refine ⟨?_, h.flags, rfl, h.precision⟩
    rw [Atom.print, Item.print_fst h.width]
    cases t with
    | text t => rfl
    | bool b => rw [Item.shown, if_pos halpha]; rfl
    | int k n =>
      have hsign : sign ios.flags k n = if k.value n < 0 then ['-'] else [] := by simp [sign, hpos]
      rw [Item.shown, intText, if_pos hbase, hsign, digits, if_neg hupper, hbase, Atom.plain,
        stdToStringInt, stdToString]
      split_ifs <;> rfl
    | float shown => simp [Item.shown, Atom.plain, hfloat, h.precision]
  | pointer t =>
    constructor
    · have hw : (ios.manip .hex).width = 0 := h.width
      have hdigits : intText (Manip.hex.apply ios.flags) .uintptr t = Nat.toDigits 16 t.toNat := by
        simp [intText, basePrefix, digits, hhex, hupper', hshow]
      simp only [Atom.print, Item.print_fst hw, Item.print_snd]
      rw [Item.print_fst rfl]
      simp [Item.shown, Atom.plain, address, hdigits]
    · refine ⟨?_, rfl, h.precision⟩
      have hflags : (Atom.print ios (.pointer t)).2.flags = insert .hex ios.flags := print_flags _ _
      rw [hflags]
      rcases h.flags with hf | hf
      · exact Or.inr (congrArg _ hf)
      · exact Or.inr (by rw [hf, Finset.insert_idem])

theorem spell_plain {ios : Ios} (h : Plain ios) (as : List Atom) :
    (spell as ios).1 = as.flatMap Atom.plain ∧ Plain (spell as ios).2 := by
  induction as generalizing ios with
  | nil => exact ⟨rfl, h⟩
  | cons a as ih =>
    obtain ⟨htext, hplain⟩ := print_plain h a
    obtain ⟨htexts, hplains⟩ := ih hplain
    refine ⟨?_, hplains⟩
    rw [spell, htext, htexts, List.flatMap_cons]

/-- The space after a value. -/
def spaceIf (space : Bool) : Str := if space then [' '] else []

theorem plain_trail (space : Bool) : (trail space).flatMap Atom.plain = spaceIf space := by
  cases space <;> rfl

/-! ### Streams without manipulators -/

variable {verbosity : ℤ} {s : Stream}

/-- STEP: logging a value appends its text, or nothing but the space of a pointer. -/
theorem log_text (verbosity : ℤ) (hs : Plain s.ios) (v : Value) :
    (s.log verbosity v).text =
      s.text ++ (if s.mayLog verbosity then render s.quoteFlag v ++ spaceIf s.spaceFlag
        else if v.isPointer then spaceIf s.spaceFlag else []) ∧
    Plain (s.log verbosity v).ios ∧ (s.log verbosity v).spaceFlag = s.spaceFlag ∧
    (s.log verbosity v).quoteFlag = s.quoteFlag ∧ (s.log verbosity v).vlevel = s.vlevel := by
  cases h : s.mayLog verbosity with
  | true =>
    obtain ⟨htext, hplain⟩ := spell_plain hs (v.layout s.quoteFlag ++ trail s.spaceFlag)
    rw [Stream.log_eq v h]
    refine ⟨?_, hplain, rfl, rfl, rfl⟩
    rw [Stream.emit, htext, List.flatMap_append, plain_layout, plain_trail, if_pos rfl]
  | false =>
    obtain ⟨htext, hplain⟩ := spell_plain hs (trail s.spaceFlag)
    rw [Stream.log_suppressed v h, if_neg Bool.false_ne_true]
    split_ifs
    · rw [Stream.doLogSpace_eq]
      refine ⟨?_, hplain, rfl, rfl, rfl⟩
      rw [Stream.emit, htext, plain_trail]
    · exact ⟨(List.append_nil _).symm, hs, rfl, rfl, rfl⟩

/-- A stream reached from a fresh one by logging values, under any verbosities of the logger, and
    by setting its flags. -/
inductive Reached : Stream → Prop where
  | fresh : Reached {}
  | log {s : Stream} (verbosity : ℤ) (v : Value) : Reached s → Reached (s.log verbosity v)
  | space {s : Stream} : Reached s → Reached s.space
  | nospace {s : Stream} : Reached s → Reached s.nospace
  | quote {s : Stream} : Reached s → Reached s.quote
  | noquote {s : Stream} : Reached s → Reached s.noquote

theorem plain_of_reached (h : Reached s) : Plain s.ios := by
  induction h with
  | fresh => exact ⟨Or.inl rfl, rfl, rfl⟩
  | log verbosity v _ ih => exact (log_text verbosity ih v).2.1
  | space _ ih => exact ih
  | nospace _ ih => exact ih
  | quote _ ih => exact ih
  | noquote _ ih => exact ih

/-- CORRECT: on a stream without manipulators that may log, `s << v` appends the reference text of
    `v` and a space iff the space flag is set, and keeps the flags and the verbosity level. -/
theorem log_renders (hs : Reached s) (h : s.mayLog verbosity = true) (v : Value) :
    (s.log verbosity v).text = s.text ++ render s.quoteFlag v ++ spaceIf s.spaceFlag ∧
    (s.log verbosity v).spaceFlag = s.spaceFlag ∧ (s.log verbosity v).quoteFlag = s.quoteFlag ∧
    (s.log verbosity v).vlevel = s.vlevel := by
  obtain ⟨htext, -, hflags⟩ := log_text verbosity (plain_of_reached hs) v
  refine ⟨?_, hflags⟩
  rw [htext, if_pos h, List.append_assoc]

/-- After a pointer: `(5, ["a", ()])`, quoted inside. -/
theorem log_renders_after_pointer :
    Reached (Stream.log 0 (.pointer 255) {}).nospace ∧
    (Stream.log 0 (.pair (.int .int 5) (.array [.string ['a'], .vector []]))
      (Stream.log 0 (.pointer 255) {}).nospace).text = "0xff (5, [\"a\", ()])".toList :=
  ⟨.nospace (.log 0 _ .fresh),
    (log_renders (.nospace (.log 0 (.pointer 255) .fresh)) (by decide) _).1.trans (by decide)⟩

end GtLogging
