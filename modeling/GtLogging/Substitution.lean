import GtLogging.Pieces

/-! @src src/gt_logformatter.h | layer:result | format as simultaneous substitution

    `formatImpl` splits a format at the first occurrence of an identifier and gives both sides the
    later arguments only, so that an identifier is lost if it comes again before a lower one; and
    from the tenth argument on it takes `%:`, `%;` and so on for identifiers. Otherwise it is the
    substitution. -/

namespace GtLogging
open TextSearch

/-! ### Where every identifier is separated -/

/-- The tenth and later identifiers do not occur outside the others. -/
def NoSurplus (n : ℕ) (ts : List Token) : Prop :=
  ∀ j, 9 ≤ j → j < n → ¬ (ident j).map Token.lit <:+: ts

/-- No identifier straddles the token of an argument. -/
theorem noSurplus_append {n i : ℕ} {l r : List Token} :
    NoSurplus n (l ++ .arg i :: r) ↔ NoSurplus n l ∧ NoSurplus n r := by
  have hnot : ∀ j, Token.arg i ∉ (ident j).map Token.lit := fun j => by simp
  simp only [NoSurplus, infix_append_cons (hnot _), not_or]
  exact ⟨fun h => ⟨fun j hj hjn => (h j hj hjn).1, fun j hj hjn => (h j hj hjn).2⟩,
    fun h j hj hjn => ⟨h.1 j hj hjn, h.2 j hj hjn⟩⟩

/-- A surplus identifier is not found where only characters to copy are left. -/
theorem search_surplus {n k j : ℕ} {s : Str} (h : NoSurplus n (scan k s)) (hj : 9 ≤ j) (hjn : j < n)
    (hlit : ∀ d, .arg d ∉ scan k s) : search (ident j) s = none := by
  rw [← Option.not_isSome_iff_eq_none, isSome_search]
  intro hin
  refine h j hj hjn ?_
  rw [scan_literal hlit]
  exact hin.map _

/-- RUN: where every identifier that is left is separated, the pieces from argument `idx` on are
    those of the scan. -/
theorem pieces_eq_scan {n k m idx : ℕ} (hk : k = min n 9) (hm : idx + m = n) {s : Str}
    (hleft : ∀ d, .arg d ∈ scan k s → idx ≤ d) (hsep : Separated (scan k s))
    (hextra : NoSurplus n (scan k s)) : pieces idx m s = scan k s := by
  induction m generalizing idx s with
  | zero => rw [pieces, scan_literal (not_mem_scan (by omega) (by omega) hleft)]
  | succ m ih =>
    have hlater := fun {t} => @ih (idx + 1) (by omega) t
    rw [pieces]
    by_cases hnine : idx < 9
    · rcases search_scan (k := k) (by omega) (show idx < k by omega) s with
        ⟨hnone, hnot⟩ | ⟨i, hi, hscan, hnot⟩
      · rw [hnone]
        refine hlater (fun d hd => ?_) hsep hextra
        exact Nat.lt_of_le_of_ne (hleft d hd) fun h => hnot (h ▸ hd)
      · rw [hi]
        rw [hscan] at hleft hsep hextra ⊢
        obtain ⟨⟨hl, hsl⟩, hr, hsr⟩ := hsep.sides hleft hnot
        obtain ⟨hel, her⟩ := noSurplus_append.mp hextra
        simp only [hlater hl hsl hel, hlater hr hsr her]
    · -- only characters to copy are left
      have hlit := not_mem_scan (show k ≤ 9 by omega) (show k ≤ idx by omega) hleft
      rw [search_surplus hextra (by omega) (by omega) hlit]
      exact hlater (fun d hd => absurd hd (hlit d)) hsep hextra

/-! ### Arguments that tell

    The percent signs of a result show what became of the identifiers. Where the texts of the first
    nine arguments have none, each identifier that is passed over adds one; where every later text
    has more than the two an identifier can have, so does each surplus one that is replaced. -/

/-- The percent signs to copy. -/
def percents (ts : List Token) : ℕ := ts.count (.lit '%')

/-- The number of identifiers of arguments below `idx`. -/
def lost (idx : ℕ) (ts : List Token) : ℕ := ts.countP fun | .lit _ => false | .arg d => d < idx

theorem percents_split (l r : List Token) (d : ℕ) :
    percents (l ++ .arg d :: r) = percents l + percents r := by
  simp [percents]

theorem lost_split (l r : List Token) (d : ℕ) :
    lost d (l ++ .arg d :: r) = lost d l + lost d r := by
  simp [lost]

theorem lost_succ (d : ℕ) (ts : List Token) : lost d ts ≤ lost (d + 1) ts := by
  refine List.countP_mono_left ?_
  intro t _ ht
  cases t with
  | lit c => cases ht
  | arg e => simp only [decide_eq_true_eq] at ht ⊢; omega

theorem lost_eq_zero {idx : ℕ} {ts : List Token} (h : lost idx ts = 0) :
    ∀ d, .arg d ∈ ts → idx ≤ d := by
  intro d hd
  have hd' := List.countP_eq_zero.mp h _ hd
  simpa using hd'

/-- Every percent sign to copy and every identifier is one of the text. -/
theorem percents_le {k idx : ℕ} (hk : k ≤ 9) (hidx : k ≤ idx) (s : Str) :
    percents (scan k s) + lost idx (scan k s) ≤ s.count '%' := by
  fun_induction scan k s with
  | case1 => exact le_refl _
  | case2 c => simp [percents, lost, List.count_cons]
  | case3 c c' s e he ih =>
    obtain ⟨hlt, hident⟩ := (identified_eq_some hk).mp he
    obtain rfl : '%' = c := (List.cons.inj hident).1
    have hlost : lost idx (.arg e :: scan k s) = lost idx (scan k s) + 1 := by
      simp [lost, hlt.trans_le hidx]
    have hpercents : percents (.arg e :: scan k s) = percents (scan k s) := by simp [percents]
    rw [hlost, hpercents, List.count_cons_self, List.count_cons]
    omega
  | case4 c c' s he ih =>
    have hlost : lost idx (.lit c :: scan k (c' :: s)) = lost idx (scan k (c' :: s)) := by
      simp [lost]
    rw [hlost, percents, List.count_cons, ← percents, List.count_cons]
    simp only [beq_iff_eq, Token.lit.injEq]
    omega

/-- Where the identified texts have no percent sign, those to copy are the result's. -/
theorem count_flatMap_text {args : List Str} {ts : List Token}
    (h : ∀ d, .arg d ∈ ts → '%' ∉ args.getD d []) :
    (ts.flatMap (Token.text args)).count '%' = percents ts := by
  induction ts with
  | nil => rfl
  | cons t ts ih =>
    have hrest := ih fun d hd => h d (List.mem_cons_of_mem _ hd)
    rw [List.flatMap_cons, List.count_append, hrest]
    cases t with
    | lit c => simp [Token.text, percents, List.count_cons, Nat.add_comm]
    | arg d =>
      rw [Token.text, List.count_eq_zero.mpr (h d List.mem_cons_self)]
      simp [percents]

/-- Arguments from number `idx` on whose percent signs tell. -/
def Telling : ℕ → List Str → Prop
  | _, [] => True
  | idx, arg :: args => (if idx < 9 then '%' ∉ arg else 2 < arg.count '%') ∧ Telling (idx + 1) args

theorem telling_of_free {args : List Str} {idx : ℕ} (hlen : idx + args.length ≤ 9)
    (h : ∀ a ∈ args, '%' ∉ a) : Telling idx args := by
  induction args generalizing idx with
  | nil => trivial
  | cons arg args ih =>
    rw [List.length_cons] at hlen
    refine ⟨?_, ih (by omega) fun a ha => h a (List.mem_cons_of_mem _ ha)⟩
    rw [if_pos (by omega)]
    exact h arg List.mem_cons_self

/-- Any number of arguments can tell. -/
theorem exists_telling (idx m : ℕ) : ∃ args : List Str, args.length = m ∧ Telling idx args := by
  induction m generalizing idx with
  | zero => exact ⟨[], rfl, trivial⟩
  | succ m ih =>
    obtain ⟨args, hlen, htell⟩ := ih (idx + 1)
    refine ⟨(if idx < 9 then [] else ['%', '%', '%']) :: args, ?_, ?_, htell⟩
    · rw [List.length_cons, hlen]
    split_ifs
    · exact List.not_mem_nil
    · decide

theorem Telling.not_mem {args : List Str} {idx d : ℕ} (h : Telling idx args) (hd : idx + d < 9) :
    '%' ∉ args.getD d [] := by
  induction args generalizing idx d with
  | nil => exact List.not_mem_nil
  | cons arg args ih =>
    cases d with
    | zero =>
      have harg := h.1
      rwa [if_pos (by omega)] at harg
    | succ d => exact ih h.2 (by omega)

/-- The tenth and later arguments add percent signs, unless none of them is inserted. -/
theorem count_formatImpl_surplus {args : List Str} {idx : ℕ} (hidx : 9 ≤ idx)
    (htell : Telling idx args) (s : Str) :
    s.count '%' ≤ (formatImpl idx s args).count '%' ∧
      ((formatImpl idx s args).count '%' ≤ s.count '%' →
        ∀ j, idx ≤ j → j < idx + args.length → ¬ ident j <:+: s) := by
  induction args generalizing idx s with
  | nil =>
    refine ⟨le_refl _, ?_⟩
    intro _ j hj hlt
    rw [List.length_nil] at hlt
    omega
  | cons arg args ih =>
    obtain ⟨harg, hrest⟩ := htell
    rw [if_neg (by omega)] at harg
    rw [formatImpl]
    cases hs : search (ident idx) s with
    | none =>
      obtain ⟨hle, hnot⟩ := ih (by omega) hrest s
      refine ⟨hle, ?_⟩
      intro hge j hj hlt
      rw [List.length_cons] at hlt
      rcases Nat.eq_or_lt_of_le hj with rfl | hj
      · rw [← isSome_search, hs]
        exact Bool.false_ne_true
      · exact hnot hge j hj (by omega)
    | some i =>
      have hcount := congrArg (List.count '%') (eq_of_search hs)
      have hident : (ident idx).count '%' ≤ 2 := List.count_le_length
      have hl := (ih (by omega) hrest (s.take i)).1
      have hr := (ih (by omega) hrest (s.drop (i + 2))).1
      rw [List.count_append, List.count_append, show (ident idx).length = 2 from rfl] at hcount
      simp only [List.count_append]
      exact ⟨by omega, fun hge => by omega⟩

/-- What the percent signs of a result show: identifiers below `idx` are lost, and only those to
    copy are left only if every identifier is separated and none is surplus. -/
def Shows (idx k n : ℕ) (s result : Str) : Prop :=
  percents (scan k s) + lost idx (scan k s) ≤ result.count '%' ∧
    (result.count '%' ≤ percents (scan k s) → Separated (scan k s) ∧ NoSurplus n (scan k s))

/-- BASE: no identifier is left to be replaced. -/
theorem shows_literal {idx k n : ℕ} (hk : k ≤ idx) (hidx : idx ≤ 9) {s result : Str}
    (hle : s.count '%' ≤ result.count '%')
    (hnot : result.count '%' ≤ s.count '%' → ∀ j, 9 ≤ j → j < n → ¬ ident j <:+: s) :
    Shows idx k n s result := by
  have hcount := percents_le (hk.trans hidx) hk s
  refine ⟨hcount.trans hle, ?_⟩
  intro h
  have hlit := not_mem_scan (hk.trans hidx) hk
    (lost_eq_zero (show lost idx (scan k s) = 0 by omega))
  refine ⟨separated_of_literal hlit, ?_⟩
  intro j hj hjn hin
  rw [scan_literal hlit, List.infix_map_iff] at hin
  obtain ⟨p, hp, heq⟩ := hin
  have hinj : Function.Injective Token.lit := fun _ _ h => Token.lit.inj h
  rw [← List.map_injective_iff.mpr hinj heq] at hp
  exact hnot (by omega) j hj hjn hp

/-- STEP: an identifier that is found splits the text. -/
theorem Shows.split {idx k n i : ℕ} {s arg l r : Str} (harg : '%' ∉ arg)
    (hscan : scan k s = scan k (s.take i) ++ .arg idx :: scan k (s.drop (i + 2)))
    (hl : Shows (idx + 1) k n (s.take i) l) (hr : Shows (idx + 1) k n (s.drop (i + 2)) r) :
    Shows idx k n s (l ++ arg ++ r) := by
  obtain ⟨hlcount, hl⟩ := hl
  obtain ⟨hrcount, hr⟩ := hr
  have hlsucc := lost_succ idx (scan k (s.take i))
  have hrsucc := lost_succ idx (scan k (s.drop (i + 2)))
  rw [Shows, hscan, percents_split, lost_split, List.count_append, List.count_append,
    List.count_eq_zero.mpr harg]
  refine ⟨by omega, ?_⟩
  intro h
  obtain ⟨hsl, hnl⟩ := hl (by omega)
  obtain ⟨hsr, hnr⟩ := hr (by omega)
  have hleft := lost_eq_zero (show lost (idx + 1) (scan k (s.take i)) = 0 by omega)
  have hright := lost_eq_zero (show lost (idx + 1) (scan k (s.drop (i + 2))) = 0 by omega)
  exact ⟨(separated_append hleft hright).mpr ⟨hsl, hsr⟩, noSurplus_append.mpr ⟨hnl, hnr⟩⟩

/-- RUN: telling arguments show what became of the identifiers, from any of the first nine on. -/
theorem shows_formatImpl {args : List Str} {idx k : ℕ} (htell : Telling idx args) (hidx : idx ≤ 9)
    (hk : k = min (idx + args.length) 9) (s : Str) :
    Shows idx k (idx + args.length) s (formatImpl idx s args) := by
  induction args generalizing idx s with
  | nil =>
    rw [List.length_nil] at hk ⊢
    exact shows_literal (by omega) hidx (le_refl _) fun _ j hj hjn => by omega
  | cons arg args ih =>
    rcases Nat.eq_or_lt_of_le hidx with rfl | hnine
    · obtain ⟨hle, hnot⟩ := count_formatImpl_surplus (le_refl 9) htell s
      exact shows_literal (by omega) hidx hle hnot
    · obtain ⟨harg, hrest⟩ := htell
      rw [if_pos hnine] at harg
      rw [List.length_cons] at hk ⊢
      have hnext := fun t => ih hrest hnine (by omega) t
      rw [show idx + 1 + args.length = idx + (args.length + 1) by omega] at hnext
      rw [formatImpl]
      rcases search_scan (k := k) (by omega) (show idx < k by omega) s with
        ⟨hnone, -⟩ | ⟨i, hi, hscan, -⟩
      · -- skipped: what is lost below `idx` is lost below `idx + 1`
        rw [hnone]
        obtain ⟨hcount, hshow⟩ := hnext s
        have hsucc := lost_succ idx (scan k s)
        exact ⟨le_trans (by omega) hcount, hshow⟩
      · rw [hi]
        exact Shows.split harg hscan (hnext _) (hnext _)

/-! ### When format substitutes -/

theorem format_eq_substitute {fmt : Str} {args : List Str}
    (hsep : Separated (scan (min args.length 9) fmt))
    (hextra : NoSurplus args.length (scan (min args.length 9) fmt)) :
    format fmt args = substitute fmt args := by
  have hfill : format fmt args = (pieces 0 args.length fmt).flatMap (Token.text args) :=
    formatImpl_pieces rfl fmt
  rw [hfill, pieces_eq_scan rfl (Nat.zero_add _) (fun d _ => Nat.zero_le d) hsep hextra, substitute]

/-- One list of telling arguments is enough. -/
theorem of_format_eq_substitute {fmt : Str} {args : List Str} (htell : Telling 0 args)
    (h : format fmt args = substitute fmt args) :
    Separated (scan (min args.length 9) fmt) ∧
      NoSurplus args.length (scan (min args.length 9) fmt) := by
  have hshow := (shows_formatImpl htell (Nat.zero_le 9)
    (show min args.length 9 = min (0 + args.length) 9 by omega) fmt).2
  rw [Nat.zero_add, ← format, h, substitute] at hshow
  refine hshow (le_of_eq (count_flatMap_text ?_))
  intro d hd
  have := lt_of_mem_scan (Nat.min_le_right args.length 9) hd
  exact htell.not_mem (by omega)

/-- EXACT: for a format and a number of arguments, `format` is the substitution for all argument
    texts iff no identifier comes twice without a lower one in between and no surplus identifier
    occurs among the characters to copy. For up to nine texts without percent signs the condition
    is exact list by list. -/
theorem format_substitute_iff (fmt : Str) (n : ℕ) :
    ((∀ args : List Str, args.length = n → format fmt args = substitute fmt args) ↔
      Separated (scan (min n 9) fmt) ∧ NoSurplus n (scan (min n 9) fmt)) ∧
    ∀ args : List Str, args.length = n → n ≤ 9 → (∀ a ∈ args, '%' ∉ a) →
      (format fmt args = substitute fmt args ↔ Separated (scan (min n 9) fmt)) := by
  refine ⟨⟨?_, ?_⟩, ?_⟩
  · intro h
    obtain ⟨args, rfl, htell⟩ := exists_telling 0 n
    exact of_format_eq_substitute htell (h args rfl)
  · rintro ⟨hsep, hextra⟩ args rfl
    exact format_eq_substitute hsep hextra
  · rintro args rfl hnine hfree
    constructor
    · intro h
      exact (of_format_eq_substitute (telling_of_free (by omega) hfree) h).1
    · intro hsep
      exact format_eq_substitute hsep fun j hj hjn => by omega

/-- COUNTEREXAMPLE: the second `%1` is left as it is. -/
theorem format_loses_second_identifier :
    format "%1-%1".toList ["a".toList] ≠ substitute "%1-%1".toList ["a".toList] := by
  decide

/-- A tenth argument is inserted for `%:`. -/
example : format "100%:".toList (List.replicate 10 "x".toList) = "100x".toList := by decide

end GtLogging
