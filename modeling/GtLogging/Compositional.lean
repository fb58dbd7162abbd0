import GtLogging.Layout

/-! @src src/gt_logstream.h, src/gt_logging/memory.h | layer:result | values after values

    What a value prints should not depend on the values before it. All that a value leaves behind in
    the formatting state is the flag `hex`, after a pointer. Next to `dec` it changes nothing, since
    integers keep printing in decimal, and with `hex` selected it is there already; but next to
    `oct` it makes the integers that follow print in decimal, up to the next pointer, which prints
    the same and leaves the same state either way. -/

namespace GtLogging
open Iostream

/-! ### Spelling with and without `hex` -/

/-- The items that stand in front of the first pointer. -/
def itemsBeforePointer : List Atom → List Item
  | .item t :: as => t :: itemsBeforePointer as
  | _ => []

/-- Set `hex` without clearing the base. -/
def withHex (ios : Ios) : Ios := ios.manip (.setf {.hex})

theorem withHex_flags (ios : Ios) : (withHex ios).flags = insert .hex ios.flags := by
  rw [withHex, Ios.manip_flags, Manip.apply_setf, Finset.union_comm]; rfl

theorem sameButBase_withHex (ios : Ios) : SameButBase ios.flags (withHex ios).flags := by
  rw [SameButBase, withHex_flags, Finset.insert_sdiff_of_mem _ (by decide)]

/-- A pointer prints the same, and afterwards `hex` is set in any case. -/
theorem print_pointer_withHex (ios : Ios) (t : BitVec 64) :
    Atom.print (withHex ios) (.pointer t) = Atom.print ios (.pointer t) := by
  have happly : Manip.hex.apply (withHex ios).flags = Manip.hex.apply ios.flags := by
    rw [withHex_flags, Manip.apply, Manip.apply, Manip.hex,
      Finset.insert_sdiff_of_mem _ (by decide)]
  have hmanip : (withHex ios).manip .hex = ios.manip .hex := by
    rw [Ios.manip, happly]; rfl
  have hset : Manip.hex.apply ios.flags ∪ (withHex ios).flags =
      Manip.hex.apply ios.flags ∪ ios.flags := by
    have hmem : .hex ∈ Manip.hex.apply ios.flags :=
      Finset.mem_union_right _ (Finset.mem_singleton_self _)
    rw [withHex_flags, Finset.union_insert,
      Finset.insert_eq_of_mem (Finset.mem_union_left _ hmem)]
  simp only [Atom.print, hmanip, Item.print_snd]
  refine Prod.ext rfl ?_
  simp only [Ios.manip, Manip.apply_setf, Ios.mk.injEq, and_true]
  exact hset

/-- Spelled with and without `hex`, a layout differs only in the items before its first pointer. -/
theorem spell_withHex {ios : Ios} (hw : ios.width = 0) (as : List Atom) :
    ∃ rest,
      (spell as ios).1 =
        (itemsBeforePointer as).flatMap (Item.shown ios.flags ios.precision) ++ rest ∧
      (spell as (withHex ios)).1 =
        (itemsBeforePointer as).flatMap (Item.shown (withHex ios).flags ios.precision) ++ rest := by
  induction as with
  | nil => exact ⟨[], rfl, rfl⟩
  | cons a as ih =>
    cases a with
    | item t =>
      obtain ⟨rest, h₁, h₂⟩ := ih
      have hsame : ∀ io : Ios, io.width = 0 → (Atom.print io (.item t)) =
          (t.shown io.flags io.precision, io) := by
        intro io hio
        refine Prod.ext (Item.print_fst hio t) ?_
        rw [Atom.print, Item.print_snd, ← hio]
      refine ⟨rest, ?_, ?_⟩
      · rw [spell, hsame ios hw, h₁, itemsBeforePointer, List.flatMap_cons, List.append_assoc]
      · rw [spell, hsame (withHex ios) hw, h₂, itemsBeforePointer, List.flatMap_cons,
          List.append_assoc]
        rfl
    | pointer t =>
      refine ⟨(spell (.pointer t :: as) ios).1, rfl, ?_⟩
      rw [spell, print_pointer_withHex]
      rfl

theorem withHex_inter_basefield (ios : Ios) :
    (withHex ios).flags ∩ basefield = insert .hex (ios.flags ∩ basefield) := by
  rw [withHex_flags, Finset.insert_inter_of_mem (by decide)]

/-- Two spellings agree iff the items before the first pointer read the same. -/
theorem spell_withHex_iff {ios : Ios} (hw : ios.width = 0)
    (hb : ∃ b ∈ basefield, ios.flags ∩ basefield = {b}) (as : List Atom) :
    (spell as (withHex ios)).1 = (spell as ios).1 ↔
      (ios.flags ∩ basefield = {.oct} → ∀ t ∈ itemsBeforePointer as,
        t.shown ios.flags ios.precision = t.shown (Manip.dec.apply ios.flags) ios.precision) := by
  obtain ⟨rest, h₁, h₂⟩ := spell_withHex hw as
  have hsame := sameButBase_withHex ios
  have hinter := withHex_inter_basefield ios
  rcases hb with ⟨b, hmem, hb⟩
  rw [hb] at hinter
  rw [h₁, h₂, List.append_cancel_right_eq]
  by_cases hoct : b = .oct
  · -- octal turns into decimal
    subst hoct
    have ho : base ios.flags = 8 := by rw [base, hb]; decide
    have hd : base (withHex ios).flags = 10 := by rw [base, hinter]; decide
    have hshown : ∀ t : Item, t.shown (withHex ios).flags ios.precision =
        t.shown (Manip.dec.apply ios.flags) ios.precision :=
      shown_congr (hsame.symm.trans (sameButBase_dec ios.flags))
        (hd.trans (base_dec_apply ios.flags).symm) ios.precision
    rw [eq_comm, octal_eq_decimal_iff hsame ho hd]
    constructor
    · intro h _ t ht
      rw [h t ht, hshown]
    · intro h t ht
      rw [h hb t ht, hshown]
  · -- the base stays
    have hbase : base ios.flags = base (withHex ios).flags := by
      rw [base, base, hinter, hb]
      revert hoct
      revert hmem
      cases b <;> decide
    refine iff_of_true ?_ fun h => absurd (Finset.singleton_inj.mp (hb.symm.trans h)) hoct
    exact List.flatMap_congr fun t _ => (shown_congr hsame hbase _ t).symm

/-! ### Logging several values -/

namespace Stream

variable {verbosity : ℤ} {s : Stream}

def logAll (verbosity : ℤ) (vs : List Value) (s : Stream) : Stream :=
  vs.foldl (fun t v => t.log verbosity v) s

/-- The text that logging `vs` appends. -/
def appended (verbosity : ℤ) (vs : List Value) (s : Stream) : Str :=
  (s.logAll verbosity vs).text.drop s.text.length

/-- The layout of several values. -/
def layoutAll (vs : List Value) (s : Stream) : List Atom :=
  vs.flatMap fun v => v.layout s.quoteFlag ++ trail s.spaceFlag

theorem logAll_eq (h : s.mayLog verbosity = true) (vs : List Value) :
    s.logAll verbosity vs = s.emit (s.layoutAll vs) := by
  induction vs generalizing s with
  | nil => exact emit_nil.symm
  | cons v vs ih =>
    rw [logAll, List.foldl_cons, ← logAll, log_eq v h, ih (s := s.emit _) h, emit_emit]
    rfl

theorem appended_eq (h : s.mayLog verbosity = true) (vs : List Value) :
    s.appended verbosity vs = (spell (s.layoutAll vs) s.ios).1 := by
  rw [appended, logAll_eq h, emit, List.drop_left]

theorem hasPointer_layoutAll (vs : List Value) :
    hasPointer (s.layoutAll vs) = true ↔ ∃ v ∈ vs, v.printsPointer = true := by
  have hv : ∀ v : Value, (v.layout s.quoteFlag ++ trail s.spaceFlag).any Atom.isPointer =
      v.printsPointer := fun v => hasPointer_layout_trail v _ _
  simp only [hasPointer, layoutAll, List.any_flatMap, hv, List.any_eq_true]

/-- The formatting state after a layout. -/
theorem spell_snd {ios : Ios} (hw : ios.width = 0) (as : List Atom) :
    (spell as ios).2 = if hasPointer as then withHex ios else ios := by
  have hflags := spell_flags as ios
  have hwidth : (spell as ios).2.width = ios.width := (spell_width hw as).trans hw.symm
  have hprecision := spell_precision as ios
  rw [flagsAfter] at hflags
  split_ifs with hp
  · rw [if_pos hp, ← withHex_flags] at hflags
    exact Ios.ext hflags hwidth hprecision
  · rw [if_neg hp] at hflags
    exact Ios.ext hflags hwidth hprecision

/-- EXACT: with one base selected and no field width, logging `vs` and then `ws` appends what both
    append from the same state, unless the base is octal, `vs` prints a pointer and some integer of
    `ws` in front of the first pointer of `ws` reads differently in octal and in decimal. -/
theorem compositional_iff (h : s.mayLog verbosity = true) (hw : s.ios.width = 0)
    (hb : ∃ b ∈ basefield, s.ios.flags ∩ basefield = {b}) (vs ws : List Value) :
    s.appended verbosity (vs ++ ws) = s.appended verbosity vs ++ s.appended verbosity ws ↔
      (s.ios.flags ∩ basefield = {.oct} → (∃ v ∈ vs, v.printsPointer = true) →
        ∀ t ∈ itemsBeforePointer (s.layoutAll ws), t.shown s.ios.flags s.ios.precision =
          t.shown (Manip.dec.apply s.ios.flags) s.ios.precision) := by
  have happ : s.layoutAll (vs ++ ws) = s.layoutAll vs ++ s.layoutAll ws := List.flatMap_append
  rw [appended_eq h, appended_eq h, appended_eq h, happ, spell_append,
    List.append_cancel_left_eq, spell_snd hw, ← hasPointer_layoutAll (s := s)]
  cases hp : hasPointer (s.layoutAll vs) with
  | false => simp
  | true => simpa using spell_withHex_iff hw hb (s.layoutAll ws)

/-- From a fresh stream a pointer does not disturb the number after it. -/
theorem number_after_pointer :
    ({} : Stream).mayLog Silent = true ∧ ({} : Stream).ios.width = 0 ∧
    (∃ b ∈ basefield, ({} : Stream).ios.flags ∩ basefield = {b}) ∧
    ({} : Stream).appended Silent ([.sharedPtr 16] ++ [.int .int 9]) =
      ({} : Stream).appended Silent [.sharedPtr 16] ++
        ({} : Stream).appended Silent [.int .int 9] :=
  ⟨by decide, rfl, ⟨.dec, by decide, by decide⟩,
    (compositional_iff (s := {}) (by decide) rfl ⟨.dec, by decide, by decide⟩ [.sharedPtr 16]
      [.int .int 9]).mpr fun h => absurd h (by decide)⟩

/-- COUNTEREXAMPLE: with `std::oct` in force, 9 reads `11` before a pointer and `9` after it. -/
theorem octal_lost_after_pointer :
    (({} : Stream).putManip .oct).appended Silent ([.pointer 16] ++ [.int .int 9]) ≠
      (({} : Stream).putManip .oct).appended Silent [.pointer 16] ++
        (({} : Stream).putManip .oct).appended Silent [.int .int 9] := by
  decide

end Stream

end GtLogging
