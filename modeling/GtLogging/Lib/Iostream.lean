import Mathlib

/-! @lib iostream | kind:library | formatted output of the C++ standard library

    An output stream formats by its format flags, its field width and its precision. A manipulator
    clears some flags and then sets some, so that a sequence of manipulators is one manipulator
    again. An integer prints in the base that is selected alone; with none or several of the base
    bits set it prints in decimal. Every item resets the field width. -/

namespace Iostream

/-! ### Format flags -/

inductive FmtFlag where
  | boolalpha | dec | fixed | hex | internal | left | oct | right | scientific
  | showbase | showpoint | showpos | skipws | unitbuf | uppercase
  deriving DecidableEq

abbrev FmtFlags := Finset FmtFlag

def basefield : FmtFlags := {.dec, .oct, .hex}
def adjustfield : FmtFlags := {.left, .right, .internal}
def floatfield : FmtFlags := {.fixed, .scientific}

/-- What a floating-point number is printed by, the precision apart. -/
def floatflags : FmtFlags := floatfield ∪ {.showpoint, .showpos, .uppercase}

structure Manip where
  clear : FmtFlags := ∅
  set : FmtFlags := ∅
  deriving DecidableEq

namespace Manip

def apply (m : Manip) (fl : FmtFlags) : FmtFlags := (fl \ m.clear) ∪ m.set

/-- First `m`, then `n`. -/
def comp (m n : Manip) : Manip := ⟨m.clear ∪ n.clear, (m.set \ n.clear) ∪ n.set⟩

/-- The manipulator that does nothing. -/
def none : Manip := {}

/-- `ios_base::setf` with one argument. -/
def setf (fl : FmtFlags) : Manip := { set := fl }

def boolalpha : Manip := { set := {.boolalpha} }
def noboolalpha : Manip := { clear := {.boolalpha} }
def showbase : Manip := { set := {.showbase} }
def noshowbase : Manip := { clear := {.showbase} }
def showpoint : Manip := { set := {.showpoint} }
def noshowpoint : Manip := { clear := {.showpoint} }
def showpos : Manip := { set := {.showpos} }
def noshowpos : Manip := { clear := {.showpos} }
def skipws : Manip := { set := {.skipws} }
def noskipws : Manip := { clear := {.skipws} }
def uppercase : Manip := { set := {.uppercase} }
def nouppercase : Manip := { clear := {.uppercase} }
def unitbuf : Manip := { set := {.unitbuf} }
def nounitbuf : Manip := { clear := {.unitbuf} }
def internal : Manip := ⟨adjustfield, {.internal}⟩
def left : Manip := ⟨adjustfield, {.left}⟩
def right : Manip := ⟨adjustfield, {.right}⟩
def dec : Manip := ⟨basefield, {.dec}⟩
def hex : Manip := ⟨basefield, {.hex}⟩
def oct : Manip := ⟨basefield, {.oct}⟩
def fixed : Manip := ⟨floatfield, {.fixed}⟩
def scientific : Manip := ⟨floatfield, {.scientific}⟩
def hexfloat : Manip := ⟨floatfield, floatfield⟩
def defaultfloat : Manip := { clear := floatfield }

/-- `std::setbase`; any other base selects none. -/
def setbase (base : ℤ) : Manip :=
  if base = 8 then oct else if base = 10 then dec else if base = 16 then hex
  else { clear := basefield }

@[simp] theorem apply_none (fl : FmtFlags) : none.apply fl = fl := by simp [apply, none]

@[simp] theorem apply_setf (fl fl' : FmtFlags) : (setf fl).apply fl' = fl' ∪ fl := by
  simp [apply, setf]

@[simp] theorem apply_comp (m n : Manip) (fl : FmtFlags) :
    (m.comp n).apply fl = n.apply (m.apply fl) := by
  ext f
  simp only [apply, comp, Finset.mem_union, Finset.mem_sdiff]
  tauto

/-- A manipulator adds no flag exactly when all it sets was set. -/
theorem apply_subset_iff {m : Manip} {fl : FmtFlags} : m.apply fl ⊆ fl ↔ m.set ⊆ fl := by
  rw [apply, Finset.union_subset_iff]
  exact and_iff_right Finset.sdiff_subset

end Manip

/-! ### The formatting state -/

@[ext] structure Ios where
  flags : FmtFlags := {.skipws, .dec}
  width : ℤ := 0
  precision : ℤ := 6
  deriving DecidableEq

namespace Ios

def manip (m : Manip) (ios : Ios) : Ios := { ios with flags := m.apply ios.flags }

@[simp] theorem manip_flags (m : Manip) (ios : Ios) : (ios.manip m).flags = m.apply ios.flags := rfl
@[simp] theorem manip_width (m : Manip) (ios : Ios) : (ios.manip m).width = ios.width := rfl
@[simp] theorem manip_precision (m : Manip) (ios : Ios) :
    (ios.manip m).precision = ios.precision := rfl

/-- The fill characters a text of length `len` is short of. -/
def fill (ios : Ios) (len : ℕ) : List Char := List.replicate (ios.width.toNat - len) ' '

/-- Pad a text to the field width, on the left unless `left` is selected. -/
def pad (ios : Ios) (txt : List Char) : List Char :=
  if ios.flags ∩ adjustfield = {.left} then txt ++ ios.fill txt.length
  else ios.fill txt.length ++ txt

/-- The sign or base prefix of a number, which internal padding stays behind. -/
def prefixLength : List Char → ℕ
  | '-' :: _ => 1
  | '+' :: _ => 1
  | '0' :: 'x' :: _ => 2
  | '0' :: 'X' :: _ => 2
  | _ => 0

/-- Pad a number. -/
def padNumber (ios : Ios) (txt : List Char) : List Char :=
  if ios.flags ∩ adjustfield = {.internal} then
    txt.take (prefixLength txt) ++ ios.fill txt.length ++ txt.drop (prefixLength txt)
  else ios.pad txt

theorem length_pad (ios : Ios) (txt : List Char) : txt.length ≤ (ios.pad txt).length := by
  rw [pad]
  split_ifs <;> simp

theorem fill_zero {ios : Ios} (h : ios.width = 0) (len : ℕ) : ios.fill len = [] := by
  simp [fill, h]

theorem pad_zero {ios : Ios} (h : ios.width = 0) (txt : List Char) : ios.pad txt = txt := by
  simp [pad, fill_zero h]

theorem padNumber_zero {ios : Ios} (h : ios.width = 0) (txt : List Char) :
    ios.padNumber txt = txt := by
  simp [padNumber, fill_zero h, pad_zero h]

end Ios

/-! ### Integers -/

/-- An integer type: whether it has a sign, and its number of bits. -/
structure IntType where
  signed : Bool
  bits : ℕ
  deriving DecidableEq

namespace IntType

abbrev short : IntType := ⟨true, 16⟩
abbrev unsignedShort : IntType := ⟨false, 16⟩
abbrev int : IntType := ⟨true, 32⟩
abbrev unsignedInt : IntType := ⟨false, 32⟩
abbrev long : IntType := ⟨true, 64⟩
abbrev unsignedLong : IntType := ⟨false, 64⟩
abbrev uintptr : IntType := ⟨false, 64⟩

/-- The integer a bit pattern stands for. -/
def value (k : IntType) (n : BitVec k.bits) : ℤ := if k.signed then n.toInt else n.toNat

end IntType

/-- The base of a conversion. -/
def base (fl : FmtFlags) : ℕ :=
  if fl ∩ basefield = {.oct} then 8 else if fl ∩ basefield = {.hex} then 16 else 10

/-- The digits of `n`, in the case the flags ask for. -/
def digits (fl : FmtFlags) (n : ℕ) : List Char :=
  if .uppercase ∈ fl then (Nat.toDigits (base fl) n).map Char.toUpper
  else Nat.toDigits (base fl) n

/-- What stands in front of the digits of a decimal conversion. -/
def sign (fl : FmtFlags) (k : IntType) (n : BitVec k.bits) : List Char :=
  if k.value n < 0 then ['-'] else if k.signed ∧ .showpos ∈ fl then ['+'] else []

/-- What stands in front of the digits of an octal or hexadecimal conversion. -/
def basePrefix (fl : FmtFlags) (n : ℕ) : List Char :=
  if .showbase ∈ fl ∧ n ≠ 0 then
    if base fl = 8 then ['0'] else if .uppercase ∈ fl then ['0', 'X'] else ['0', 'x']
  else []

/-- Octal and hexadecimal conversions print the bit pattern, decimal ones the value. -/
def intText (fl : FmtFlags) (k : IntType) (n : BitVec k.bits) : List Char :=
  if base fl = 10 then sign fl k n ++ digits fl (k.value n).natAbs
  else basePrefix fl n.toNat ++ digits fl n.toNat

/-! ### Items -/

/-- What `operator<<` of an output stream is given. A floating-point number is given by what it
    prints as under the flags and the precision that matter to it. -/
inductive Item where
  | text (t : List Char)
  | bool (b : Bool)
  | int (k : IntType) (n : BitVec k.bits)
  | float (shown : FmtFlags → ℤ → List Char)

namespace Item

instance : Coe (List Char) Item := ⟨.text⟩

/-- An item without padding; a `bool` that is not printed as a word is a `long`. -/
def shown (fl : FmtFlags) (precision : ℤ) : Item → List Char
  | .text t => t
  | .bool b =>
    if .boolalpha ∈ fl then (if b then ['t', 'r', 'u', 'e'] else ['f', 'a', 'l', 's', 'e'])
    else intText fl .long (if b then 1 else 0)
  | .int k n => intText fl k n
  | .float shown => shown (fl ∩ floatflags) precision

/-- Whether internal padding treats the item as a number. -/
def numeric (fl : FmtFlags) : Item → Bool
  | .text _ => false
  | .bool _ => .boolalpha ∉ fl
  | _ => true

/-- `os << item`: the text, and the formatting state afterwards. -/
def print (ios : Ios) (t : Item) : List Char × Ios :=
  (if t.numeric ios.flags then ios.padNumber (t.shown ios.flags ios.precision)
    else ios.pad (t.shown ios.flags ios.precision),
   { ios with width := 0 })

@[simp] theorem print_snd (ios : Ios) (t : Item) : (t.print ios).2 = { ios with width := 0 } := rfl

theorem print_fst {ios : Ios} (h : ios.width = 0) (t : Item) :
    (t.print ios).1 = t.shown ios.flags ios.precision := by
  simp [print, Ios.pad_zero h, Ios.padNumber_zero h]

end Item

/-! ### Comparing two bases -/

/-- Flags that differ in the base only. -/
def SameButBase (fl fl' : FmtFlags) : Prop := fl \ basefield = fl' \ basefield

section SameButBase
variable {fl fl' : FmtFlags}

theorem SameButBase.mem_iff (h : SameButBase fl fl') {f : FmtFlag} (hf : f ∉ basefield) :
    f ∈ fl ↔ f ∈ fl' := by
  have hmem := Finset.ext_iff.mp h f
  simpa only [Finset.mem_sdiff, hf, not_false_eq_true, and_true] using hmem

theorem SameButBase.floatflags (h : SameButBase fl fl') :
    fl ∩ floatflags = fl' ∩ floatflags := by
  have hdisj : ∀ f ∈ Iostream.floatflags, f ∉ basefield := by decide
  ext f
  simp only [Finset.mem_inter]
  exact and_congr_left fun hf => h.mem_iff (hdisj f hf)

theorem intText_congr (h : SameButBase fl fl') (hb : base fl = base fl') (k : IntType)
    (n : BitVec k.bits) : intText fl k n = intText fl' k n := by
  have hupper := h.mem_iff (f := .uppercase) (by decide)
  have hpos := h.mem_iff (f := .showpos) (by decide)
  have hshow := h.mem_iff (f := .showbase) (by decide)
  simp only [intText, sign, basePrefix, digits, hb, hupper, hpos, hshow]

/-- Only integers can tell two bases apart. -/
theorem shown_cases (h : SameButBase fl fl') (precision : ℤ) (t : Item) :
    t.shown fl precision = t.shown fl' precision ∨
      ∃ (k : IntType) (n : BitVec k.bits), t.shown fl precision = intText fl k n ∧
        t.shown fl' precision = intText fl' k n := by
  cases t with
  | text t => exact Or.inl rfl
  | bool b =>
    have halpha := h.mem_iff (f := .boolalpha) (by decide)
    simp only [Item.shown, halpha]
    split_ifs
    · exact Or.inl rfl
    · exact Or.inl rfl
    · exact Or.inr ⟨_, _, rfl, rfl⟩
    · exact Or.inr ⟨_, _, rfl, rfl⟩
  | int k n => exact Or.inr ⟨k, n, rfl, rfl⟩
  | float shown => exact Or.inl (by rw [Item.shown, Item.shown, h.floatflags])

theorem shown_congr (h : SameButBase fl fl') (hb : base fl = base fl') (precision : ℤ) (t : Item) :
    t.shown fl precision = t.shown fl' precision := by
  rcases shown_cases h precision t with heq | ⟨k, n, h₁, h₂⟩
  · exact heq
  · rw [h₁, h₂, intText_congr h hb]

/-- `std::dec` changes the base only. -/
theorem sameButBase_dec (fl : FmtFlags) : SameButBase fl (Manip.dec.apply fl) := by
  ext f
  simp only [Manip.apply, Manip.dec, Finset.mem_sdiff, Finset.mem_union, Finset.mem_singleton]
  constructor
  · intro h
    exact ⟨Or.inl h, h.2⟩
  · rintro ⟨⟨hf, -⟩ | rfl, hbase⟩
    · exact ⟨hf, hbase⟩
    · exact absurd (by decide) hbase

theorem base_dec_apply (fl : FmtFlags) : base (Manip.dec.apply fl) = 10 := by
  have hinter : Manip.dec.apply fl ∩ basefield = {.dec} := by
    rw [Manip.apply, Finset.union_inter_distrib_right]
    simp only [Manip.dec, Finset.sdiff_inter_self, Finset.empty_union]
    decide
  rw [base, hinter]
  decide

end SameButBase

/-- Up to base ten the digits have no case. -/
theorem digits_eq {fl : FmtFlags} (hb : base fl ≤ 10) (n : ℕ) :
    digits fl n = Nat.toDigits (base fl) n := by
  have hpos : 0 < base fl := by rw [base]; split_ifs <;> decide
  have hupper : ∀ c ∈ Nat.toDigits (base fl) n, c.toUpper = c := by
    intro c hc
    have hd := Nat.isDigit_of_mem_toDigits hpos hb hc
    simp only [Char.isDigit, Bool.and_eq_true, decide_eq_true_eq] at hd
    rw [Char.toUpper, dif_neg]
    rintro ⟨hlo, -⟩
    exact absurd (UInt32.le_trans hlo hd.2) (by decide)
  rw [digits]
  split_ifs
  · exact (List.map_congr_left hupper).trans (List.map_id _)
  · rfl

theorem length_toDigits_le (n : ℕ) : (Nat.toDigits 10 n).length ≤ (Nat.toDigits 8 n).length := by
  have hlt : n < 8 ^ (Nat.toDigits 8 n).length :=
    (Nat.length_toDigits_le_iff (by decide) Nat.length_toDigits_pos).mp le_rfl
  exact (Nat.length_toDigits_le_iff (by decide) Nat.length_toDigits_pos).mpr
    (hlt.trans_le (Nat.pow_le_pow_left (by decide) _))

/-- Pieces that are nowhere longer on the right are equal piece by piece once they are equal put
    together. -/
theorem eq_of_flatMap_eq {α β : Type*} {f g : α → List β} {l : List α}
    (hle : ∀ a ∈ l, (g a).length ≤ (f a).length) (h : l.flatMap f = l.flatMap g) :
    ∀ a ∈ l, f a = g a := by
  induction l with
  | nil => simp
  | cons a l ih =>
    have hrest : (l.flatMap g).length ≤ (l.flatMap f).length := by
      rw [List.length_flatMap, List.length_flatMap]
      exact List.sum_le_sum fun b hb => hle b (List.mem_cons_of_mem _ hb)
    rw [List.flatMap_cons, List.flatMap_cons] at h
    have hlen := congrArg List.length h
    rw [List.length_append, List.length_append] at hlen
    have ha := hle a List.mem_cons_self
    obtain ⟨h₁, h₂⟩ := List.append_inj h (by omega)
    intro b hb
    rcases List.mem_cons.mp hb with rfl | hb
    · exact h₁
    · exact ih (fun c hc => hle c (List.mem_cons_of_mem _ hc)) h₂ b hb

/-- The signs in a text. -/
def signs (txt : List Char) : List Char := txt.filter fun c => c = '-' ∨ c = '+'

theorem signs_append (s t : List Char) : signs (s ++ t) = signs s ++ signs t :=
  List.filter_append ..

theorem signs_toDigits {b : ℕ} (hpos : 0 < b) (hb : b ≤ 10) (n : ℕ) :
    signs (Nat.toDigits b n) = [] := by
  rw [signs, List.filter_eq_nil_iff]
  intro c hc hsign
  have hd := Nat.isDigit_of_mem_toDigits hpos hb hc
  rcases of_decide_eq_true hsign with rfl | rfl
  · exact absurd hd (by decide)
  · exact absurd hd (by decide)

section OctalDecimal
variable {fl fl' : FmtFlags} (h : SameButBase fl fl') (ho : base fl = 8) (hd : base fl' = 10)

include ho in
theorem intText_octal (k : IntType) (n : BitVec k.bits) :
    intText fl k n = basePrefix fl n.toNat ++ Nat.toDigits 8 n.toNat := by
  rw [intText, if_neg (by omega), digits_eq (by omega), ho]

include hd in
theorem intText_decimal (k : IntType) (n : BitVec k.bits) :
    intText fl' k n = sign fl' k n ++ Nat.toDigits 10 (k.value n).natAbs := by
  rw [intText, if_pos hd, digits_eq (by omega), hd]

include ho in
/-- Octal conversions print no sign. -/
theorem signs_octal (k : IntType) (n : BitVec k.bits) : signs (intText fl k n) = [] := by
  have hprefix : signs (basePrefix fl n.toNat) = [] := by
    rw [basePrefix, ho]
    split_ifs <;> simp_all [signs]
  rw [intText_octal ho, signs_append, hprefix, signs_toDigits (by decide) (by decide)]
  rfl

include hd in
/-- A number that a decimal conversion prints without sign stands for itself. -/
theorem intText_decimal_of_signs {k : IntType} {n : BitVec k.bits}
    (hs : signs (intText fl' k n) = []) : intText fl' k n = Nat.toDigits 10 n.toNat := by
  have hsign : sign fl' k n = [] := by
    rw [intText_decimal hd, signs_append, List.append_eq_nil_iff] at hs
    have hs₁ := hs.1
    rw [sign] at hs₁ ⊢
    split_ifs at hs₁ ⊢ with h₁ h₂
    · simp [signs] at hs₁
    · simp [signs] at hs₁
    · rfl
  have hnonneg : 0 ≤ k.value n := by
    by_contra hlt
    rw [sign, if_pos (by omega)] at hsign
    cases hsign
  have hvalue : (k.value n).natAbs = n.toNat := by
    rw [IntType.value] at hnonneg ⊢
    split_ifs at hnonneg ⊢
    · rw [BitVec.toInt] at hnonneg ⊢
      have hlt := n.isLt
      split_ifs at hnonneg ⊢ <;> omega
    · rfl
  rw [intText_decimal hd, hsign, hvalue]
  rfl

include h ho hd in
/-- Texts in octal and in decimal agree iff they agree item by item: the signs of the decimal text
    must be missing, and then no number is longer in decimal. -/
theorem octal_eq_decimal_iff (precision : ℤ) (ts : List Item) :
    ts.flatMap (Item.shown fl precision) = ts.flatMap (Item.shown fl' precision) ↔
      ∀ t ∈ ts, t.shown fl precision = t.shown fl' precision := by
  refine ⟨fun heq => ?_, fun hall => List.flatMap_congr hall⟩
  have hsigns : ∀ t ∈ ts, signs (t.shown fl' precision) = signs (t.shown fl precision) := by
    refine eq_of_flatMap_eq (fun t _ => ?_) ?_
    · rcases shown_cases h precision t with hsame | ⟨k, n, h₁, -⟩
      · rw [hsame]
      · rw [h₁, signs_octal ho]
        exact Nat.zero_le _
    · have hfilter := congrArg signs heq
      simpa only [signs, List.filter_flatMap] using hfilter.symm
  refine eq_of_flatMap_eq (fun t ht => ?_) heq
  rcases shown_cases h precision t with hsame | ⟨k, n, h₁, h₂⟩
  · rw [hsame]
  · have hs := hsigns t ht
    rw [h₁, h₂, signs_octal ho] at hs
    rw [h₁, h₂, intText_decimal_of_signs hd hs, intText_octal ho, List.length_append]
    exact (length_toDigits_le n.toNat).trans (Nat.le_add_left _ _)

end OctalDecimal

end Iostream
