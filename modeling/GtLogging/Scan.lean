import GtLogging.Formatter

/-! @src src/gt_logformatter.h | layer:abstract | scanning a format

    What `format` is for: read the format once from left to right and replace every identifier by
    the text of its argument. The scan turns a format into characters to copy and identifiers;
    searching for one identifier, as `formatImpl` does, splits the scan at its first token. Of the
    two sides only the later arguments are asked for, so what matters is whether an identifier comes
    again before a lower one. -/

namespace GtLogging
open TextSearch

/-! ### The reference -/

/-- A piece of a format: a character to copy, or the identifier of an argument, counted from 0. -/
inductive Token where
  | lit (c : Char)
  | arg (d : ℕ)
  deriving DecidableEq

/-- The argument a digit from `'1'` to `'9'` stands for. -/
def argumentOf (c : Char) : Option ℕ :=
  if '1' ≤ c ∧ c ≤ '9' then some (c.toNat - '1'.toNat) else none

/-- The argument that two characters identify, if it is one of the first `k`. -/
def identified (k : ℕ) (c c' : Char) : Option ℕ :=
  if c = '%' then (argumentOf c').filter (· < k) else none

/-- Scan a format from left to right for the identifiers of the first `k` arguments. -/
def scan (k : ℕ) : Str → List Token
  | [] => []
  | [c] => [.lit c]
  | c :: c' :: s =>
    match identified k c c' with
    | some d => .arg d :: scan k s
    | none => .lit c :: scan k (c' :: s)

/-- What a token turns into. -/
def Token.text (args : List Str) : Token → Str
  | .lit c => [c]
  | .arg d => args.getD d []

/-- ABSTRACT: replace every identifier `%1` to `%9` that has an argument. -/
def substitute (fmt : Str) (args : List Str) : Str :=
  (scan (min args.length 9) fmt).flatMap (Token.text args)

/-! ### Identifiers -/

theorem argumentOf_eq_some {c : Char} {d : ℕ} :
    argumentOf c = some d ↔ d < 9 ∧ c = Char.ofNat ('1'.toNat + d) := by
  rw [argumentOf]
  constructor
  · intro h
    split_ifs at h with hc
    obtain rfl := Option.some.inj h
    have h₁ : '1'.toNat ≤ c.toNat := hc.1
    have h₂ : c.toNat ≤ '9'.toNat := hc.2
    have hnine : '9'.toNat = '1'.toNat + 8 := by decide
    refine ⟨by omega, ?_⟩
    rw [Nat.add_sub_cancel' h₁, Char.ofNat_toNat]
  · rintro ⟨hd, rfl⟩
    revert d
    decide

/-- The identifiers of the first nine arguments are what the scan looks for. -/
theorem identified_eq_some {k d : ℕ} (hk : k ≤ 9) {c c' : Char} :
    identified k c c' = some d ↔ d < k ∧ ident d = [c, c'] := by
  rw [identified, ident]
  have hmod : d < 9 → ('1'.toNat + d) % 256 = '1'.toNat + d := by
    intro hd
    have : '1'.toNat = 49 := rfl
    omega
  split_ifs with hc
  · rw [Option.filter_eq_some_iff, argumentOf_eq_some, decide_eq_true_eq]
    constructor
    · rintro ⟨⟨hd, rfl⟩, hlt⟩
      exact ⟨hlt, by rw [hmod hd, hc]⟩
    · rintro ⟨hlt, he⟩
      rw [hmod (by omega)] at he
      exact ⟨⟨by omega, (List.cons.inj (List.cons.inj he).2).1.symm⟩, hlt⟩
  · constructor
    · intro h; cases h
    · rintro ⟨-, he⟩
      exact absurd (List.cons.inj he).1.symm hc

theorem ident_prefix_iff {d : ℕ} {c c' : Char} {s : Str} :
    ident d <+: c :: c' :: s ↔ ident d = [c, c'] := by
  simp [ident]

/-! ### Searching and scanning -/

theorem search_skip {d : ℕ} {c c' : Char} (h : ident d ≠ [c, c']) (s : Str) :
    search (ident d) (c :: c' :: s) = (search (ident d) (c' :: s)).map (· + 1) := by
  rw [search, if_neg (mt ident_prefix_iff.mp h)]

/-- Another identifier is skipped as a whole: its second character is no percent sign. -/
theorem search_skip_ident {d : ℕ} {c c' : Char} (h : ident d ≠ [c, c']) (hc' : '%' ≠ c') (s : Str) :
    search (ident d) (c :: c' :: s) = (search (ident d) s).map (· + 2) := by
  have hsecond : ¬ ident d <+: c' :: s := fun hp => hc' (List.cons_prefix_cons.mp hp).1
  rw [search_skip h, search, if_neg hsecond, Option.map_map]
  rfl

theorem ne_percent_of_identified {k d : ℕ} {c c' : Char} (h : identified k c c' = some d) :
    '%' ≠ c' := by
  rintro rfl
  rw [identified] at h
  split_ifs at h
  cases h

theorem scan_take {k : ℕ} {c c' : Char} (h : identified k c c' = none) (s : Str) (i : ℕ) :
    scan k (c :: (c' :: s).take i) = .lit c :: scan k ((c' :: s).take i) := by
  cases i with
  | zero => simp [scan]
  | succ i => rw [List.take_succ_cons, scan, h]

/-- Searching for an identifier splits the scan at its first token. -/
theorem search_scan {k d : ℕ} (hk : k ≤ 9) (hd : d < k) (s : Str) :
    (search (ident d) s = none ∧ .arg d ∉ scan k s) ∨
      ∃ i, search (ident d) s = some i ∧
        scan k s = scan k (s.take i) ++ .arg d :: scan k (s.drop (i + 2)) ∧
        .arg d ∉ scan k (s.take i) := by
  fun_induction scan k s with
  | case1 => exact Or.inl ⟨by simp [search, ident], by simp⟩
  | case2 c => exact Or.inl ⟨by simp [search, ident], by simp⟩
  | case3 c c' s e he ih =>
    by_cases hed : e = d
    · -- found at once
      subst hed
      refine Or.inr ⟨0, ?_, by simp [scan], by simp [scan]⟩
      rw [search, if_pos (ident_prefix_iff.mpr ((identified_eq_some hk).mp he).2)]
    · have hne : ident d ≠ [c, c'] := fun h =>
        hed (Option.some.inj (he.symm.trans ((identified_eq_some hk).mpr ⟨hd, h⟩)))
      have hsearch := search_skip_ident hne (ne_percent_of_identified he) s
      rcases ih with ⟨hnone, hnot⟩ | ⟨i, hi, hscan, hnot⟩
      · exact Or.inl ⟨by rw [hsearch, hnone]; rfl, by simp [hnot, Ne.symm hed]⟩
      · refine Or.inr ⟨i + 2, by rw [hsearch, hi]; rfl, ?_, ?_⟩
        · rw [List.take_succ_cons, List.take_succ_cons, List.drop_succ_cons, List.drop_succ_cons,
            hscan, scan, he]
          rfl
        · rw [List.take_succ_cons, List.take_succ_cons, scan, he]
          simp [hnot, Ne.symm hed]
  | case4 c c' s he ih =>
    have hne : ident d ≠ [c, c'] := by
      intro h
      rw [(identified_eq_some hk).mpr ⟨hd, h⟩] at he
      cases he
    have hsearch := search_skip hne s
    rcases ih with ⟨hnone, hnot⟩ | ⟨i, hi, hsplit, hnot⟩
    · exact Or.inl ⟨by rw [hsearch, hnone]; rfl, by simp [hnot]⟩
    · refine Or.inr ⟨i + 1, by rw [hsearch, hi]; rfl, ?_, ?_⟩
      · rw [List.take_succ_cons, scan_take he, show i + 1 + 2 = i + 2 + 1 by omega,
          List.drop_succ_cons, hsplit, List.cons_append]
      · rw [List.take_succ_cons, scan_take he]
        simp [hnot]

theorem lt_of_mem_scan {k d : ℕ} (hk : k ≤ 9) {s : Str} (h : .arg d ∈ scan k s) : d < k := by
  fun_induction scan k s with
  | case1 => cases h
  | case2 c => simp at h
  | case3 c c' s e he ih =>
    rcases List.mem_cons.mp h with heq | h
    · obtain rfl := Token.arg.inj heq
      exact ((identified_eq_some hk).mp he).1
    · exact ih h
  | case4 c c' s he ih =>
    rcases List.mem_cons.mp h with heq | h
    · cases heq
    · exact ih h

/-- Past the last argument no identifier is left. -/
theorem not_mem_scan {k idx : ℕ} (hk : k ≤ 9) (hidx : k ≤ idx) {s : Str}
    (hleft : ∀ d, .arg d ∈ scan k s → idx ≤ d) (d : ℕ) : .arg d ∉ scan k s := by
  intro hd
  have hle := hleft d hd
  have hlt := lt_of_mem_scan hk hd
  omega

/-- A format without identifiers is copied. -/
theorem scan_literal {k : ℕ} {s : Str} (h : ∀ d, .arg d ∉ scan k s) :
    scan k s = s.map .lit := by
  fun_induction scan k s with
  | case1 => rfl
  | case2 c => rfl
  | case3 c c' s e he ih => exact absurd List.mem_cons_self (h e)
  | case4 c c' s he ih =>
    rw [ih fun d hd => h d (List.mem_cons_of_mem _ hd)]
    rfl

theorem flatMap_text_lit (args : List Str) (s : Str) :
    (s.map Token.lit).flatMap (Token.text args) = s := by
  rw [List.flatMap_map]
  exact List.flatMap_singleton' s

/-! ### Separated identifiers -/

/-- The identifier of `d` does not come before a lower one. -/
def Shielded (d : ℕ) : List Token → Prop
  | [] => True
  | .lit _ :: ts => Shielded d ts
  | .arg e :: ts => e < d ∨ (e ≠ d ∧ Shielded d ts)

/-- No identifier comes twice without a lower one in between. -/
def Separated : List Token → Prop
  | [] => True
  | .lit _ :: ts => Separated ts
  | .arg d :: ts => Shielded d ts ∧ Separated ts

instance Shielded.decidable (d : ℕ) : ∀ ts, Decidable (Shielded d ts)
  | [] => isTrue trivial
  | .lit _ :: ts => Shielded.decidable d ts
  | .arg e :: ts =>
    have := Shielded.decidable d ts
    inferInstanceAs (Decidable (e < d ∨ (e ≠ d ∧ Shielded d ts)))

instance Separated.decidable : ∀ ts, Decidable (Separated ts)
  | [] => isTrue trivial
  | .lit _ :: ts => Separated.decidable ts
  | .arg d :: ts =>
    have := Separated.decidable ts
    inferInstanceAs (Decidable (Shielded d ts ∧ Separated ts))

theorem shielded_of_lower {d : ℕ} {ts : List Token} (h : ∀ e, .arg e ∈ ts → d < e) :
    Shielded d ts := by
  induction ts with
  | nil => trivial
  | cons t ts ih =>
    have hts := ih fun e he => h e (List.mem_cons_of_mem _ he)
    cases t with
    | lit c => exact hts
    | arg e => exact Or.inr ⟨(h e List.mem_cons_self).ne', hts⟩

theorem not_mem_of_shielded {d : ℕ} {ts : List Token} (h : Shielded d ts)
    (hle : ∀ e, .arg e ∈ ts → d ≤ e) : .arg d ∉ ts := by
  induction ts with
  | nil => exact List.not_mem_nil
  | cons t ts ih =>
    have hrest : ∀ e, .arg e ∈ ts → d ≤ e := fun e he => hle e (List.mem_cons_of_mem _ he)
    cases t with
    | lit c => simpa using ih h hrest
    | arg e =>
      have hde := hle e List.mem_cons_self
      obtain ⟨hne, hg⟩ := h.resolve_left (by omega)
      simpa [Ne.symm hne] using ih hg hrest

/-- A lower identifier ends what has to be looked at. -/
theorem shielded_append {d i : ℕ} (hi : i < d) (l r : List Token) :
    Shielded d (l ++ .arg i :: r) ↔ Shielded d l := by
  induction l with
  | nil => exact iff_of_true (Or.inl hi) trivial
  | cons t l ih =>
    cases t with
    | lit c => exact ih
    | arg e => exact or_congr_right (and_congr_right fun _ => ih)

/-- Around the lowest identifier, both sides are separated on their own. -/
theorem separated_append {i : ℕ} {l r : List Token} (hl : ∀ d, .arg d ∈ l → i < d)
    (hr : ∀ d, .arg d ∈ r → i < d) :
    Separated (l ++ .arg i :: r) ↔ Separated l ∧ Separated r := by
  induction l with
  | nil =>
    constructor
    · intro h
      exact ⟨trivial, h.2⟩
    · intro h
      exact ⟨shielded_of_lower hr, h.2⟩
  | cons t l ih =>
    have ih := ih fun d hd => hl d (List.mem_cons_of_mem _ hd)
    cases t with
    | lit c => exact ih
    | arg d =>
      rw [List.cons_append, Separated, shielded_append (hl d List.mem_cons_self), ih, ← and_assoc]
      rfl

theorem shielded_of_separated {i : ℕ} {l r : List Token} (h : Separated (l ++ .arg i :: r)) :
    Shielded i r := by
  induction l with
  | nil => exact h.1
  | cons t l ih =>
    cases t with
    | lit c => exact ih h
    | arg d => exact ih h.2

/-- Where the lowest identifier comes first, only higher ones are left on both sides of it. -/
theorem Separated.sides {i : ℕ} {l r : List Token} (h : Separated (l ++ .arg i :: r))
    (hleft : ∀ d, .arg d ∈ l ++ .arg i :: r → i ≤ d) (hfirst : .arg i ∉ l) :
    ((∀ d, .arg d ∈ l → i < d) ∧ Separated l) ∧ (∀ d, .arg d ∈ r → i < d) ∧ Separated r := by
  have hler : ∀ d, .arg d ∈ r → i ≤ d := fun d hd =>
    hleft d (List.mem_append_right _ (List.mem_cons_of_mem _ hd))
  have hnot := not_mem_of_shielded (shielded_of_separated h) hler
  have hl : ∀ d, .arg d ∈ l → i < d := fun d hd =>
    Nat.lt_of_le_of_ne (hleft d (List.mem_append_left _ hd)) fun he => hfirst (he ▸ hd)
  have hr : ∀ d, .arg d ∈ r → i < d := fun d hd =>
    Nat.lt_of_le_of_ne (hler d hd) fun he => hnot (he ▸ hd)
  obtain ⟨hsl, hsr⟩ := (separated_append hl hr).mp h
  exact ⟨⟨hl, hsl⟩, hr, hsr⟩

theorem separated_of_literal {ts : List Token} (h : ∀ d, .arg d ∉ ts) : Separated ts := by
  induction ts with
  | nil => trivial
  | cons t ts ih =>
    cases t with
    | lit c => exact ih fun d hd => h d (List.mem_cons_of_mem _ hd)
    | arg d => exact absurd List.mem_cons_self (h d)

end GtLogging
