import GtLogging.Scan

/-! @src src/gt_logformatter.h | layer:abstract,result | the pieces of a format

    Which identifiers `formatImpl` replaces does not depend on the texts it inserts: every search
    runs on a part of the format, never on an inserted text. So the recursion on the arguments cuts
    the format into pieces once for all, characters to copy and chosen identifiers, and every call
    with as many arguments fills these pieces. Two calls then agree but for the inserted texts. -/

namespace GtLogging
open TextSearch

/-! ### Cutting a format -/

/-- What a token stands for in a format. -/
def Token.spell : Token → Str
  | .lit c => [c]
  | .arg d => '%' :: stdToString (d + 1)

/-- The pieces of a format for `k` arguments, the first of them being number `idx`: the recursion
    of `formatImpl` without the texts. -/
def pieces (idx : ℕ) : ℕ → Str → List Token
  | 0, s => s.map .lit
  | k + 1, s =>
    match search (ident idx) s with
    | some i => pieces (idx + 1) k (s.take i) ++ .arg idx :: pieces (idx + 1) k (s.drop (i + 2))
    | none => pieces (idx + 1) k s

theorem ident_eq : ∀ d < 9, ident d = '%' :: stdToString (d + 1) := by decide

/-- SPLIT: the pieces of one more argument. -/
theorem pieces_succ (idx k : ℕ) (s : Str) :
    (search (ident idx) s = none ∧ pieces idx (k + 1) s = pieces (idx + 1) k s) ∨
      ∃ i, search (ident idx) s = some i ∧
        pieces idx (k + 1) s =
          pieces (idx + 1) k (s.take i) ++ .arg idx :: pieces (idx + 1) k (s.drop (i + 2)) := by
  rw [pieces]
  cases search (ident idx) s with
  | none => exact Or.inl ⟨rfl, rfl⟩
  | some i => exact Or.inr ⟨i, rfl, rfl⟩

/-- Put together again, the pieces are the format. -/
theorem spell_pieces {k idx : ℕ} (h : idx + k ≤ 9) (s : Str) :
    (pieces idx k s).flatMap Token.spell = s := by
  induction k generalizing idx s with
  | zero =>
    rw [pieces, List.flatMap_map]
    exact List.flatMap_singleton' s
  | succ k ih =>
    rcases pieces_succ idx k s with ⟨-, heq⟩ | ⟨i, hi, heq⟩
    · rw [heq]
      exact ih (by omega) s
    · have hsplit := eq_of_search hi
      rw [heq, List.flatMap_append, List.flatMap_cons, ih (by omega), ih (by omega), Token.spell,
        ← ident_eq idx (by omega), ← List.append_assoc]
      exact hsplit.symm

theorem mem_pieces {k idx d : ℕ} {s : Str} (h : .arg d ∈ pieces idx k s) :
    idx ≤ d ∧ d < idx + k := by
  induction k generalizing idx s with
  | zero =>
    rw [pieces, List.mem_map] at h
    obtain ⟨c, -, hc⟩ := h
    cases hc
  | succ k ih =>
    have hstep : ∀ t, .arg d ∈ pieces (idx + 1) k t → idx ≤ d ∧ d < idx + (k + 1) := by
      intro t ht
      have := ih ht
      omega
    rcases pieces_succ idx k s with ⟨-, heq⟩ | ⟨i, -, heq⟩
    · rw [heq] at h
      exact hstep _ h
    · rw [heq, List.mem_append, List.mem_cons] at h
      rcases h with h | h | h
      · exact hstep _ h
      · obtain rfl := Token.arg.inj h
        omega
      · exact hstep _ h

/-- RUN: `formatImpl` fills the pieces, whatever the texts are. -/
theorem formatImpl_pieces {all args : List Str} {idx : ℕ} (hargs : all.drop idx = args) (s : Str) :
    formatImpl idx s args = (pieces idx args.length s).flatMap (Token.text all) := by
  induction args generalizing idx s with
  | nil => rw [formatImpl, List.length_nil, pieces, flatMap_text_lit]
  | cons arg args ih =>
    have hidx : idx < all.length := by
      by_contra hge
      rw [List.drop_eq_nil_of_le (by omega)] at hargs
      cases hargs
    obtain ⟨harg, hrest⟩ := List.cons.inj ((List.drop_eq_getElem_cons hidx).symm.trans hargs)
    rw [formatImpl, List.length_cons]
    rcases pieces_succ idx args.length s with ⟨hi, heq⟩ | ⟨i, hi, heq⟩
    · rw [hi, heq]
      exact ih hrest s
    · rw [hi, heq, List.flatMap_append, List.flatMap_cons, Token.text,
        List.getD_eq_getElem _ _ hidx, harg, ← ih hrest, ← ih hrest]
      exact List.append_assoc _ _ _

/-! ### Two calls -/

/-- Two results agree along some pieces: character by character where one is copied, while the texts
    in the place of an identifier may be any. -/
inductive Aligned : List Token → Str → Str → Prop where
  | nil : Aligned [] [] []
  | lit {ts : List Token} {r r' : Str} (c : Char) :
    Aligned ts r r' → Aligned (.lit c :: ts) (c :: r) (c :: r')
  | arg {ts : List Token} {r r' : Str} (d : ℕ) (t t' : Str) :
    Aligned ts r r' → Aligned (.arg d :: ts) (t ++ r) (t' ++ r')

theorem aligned_flatMap_text (args args' : List Str) (ts : List Token) :
    Aligned ts (ts.flatMap (Token.text args)) (ts.flatMap (Token.text args')) := by
  induction ts with
  | nil => exact .nil
  | cons t ts ih =>
    cases t with
    | lit c => exact .lit c ih
    | arg d => exact .arg d _ _ ih

/-- `ts` is how every call with `k` arguments reads the format. -/
structure Decomposes (k : ℕ) (fmt : Str) (ts : List Token) : Prop where
  whole : ts.flatMap Token.spell = fmt
  chosen : ∀ d, .arg d ∈ ts → d < k
  filled : ∀ args : List Str, args.length = k →
    formatImpl 0 fmt args = ts.flatMap (Token.text args)
  aligned : ∀ args args' : List Str, args.length = k → args'.length = k →
    Aligned ts (formatImpl 0 fmt args) (formatImpl 0 fmt args')

/-- TWO RUNS: a format and a number of arguments fix the pieces of the result; argument texts only
    fill the places of the chosen identifiers, also where they look like identifiers themselves. -/
theorem format_decomposes {k : ℕ} (hk : k ≤ 9) (fmt : Str) : ∃ ts, Decomposes k fmt ts := by
  have hfilled : ∀ args : List Str, args.length = k →
      formatImpl 0 fmt args = (pieces 0 k fmt).flatMap (Token.text args) := by
    rintro args rfl
    exact formatImpl_pieces rfl fmt
  refine ⟨pieces 0 k fmt, spell_pieces (by omega) fmt, ?_, hfilled, ?_⟩
  · intro d hd
    have := mem_pieces hd
    omega
  · intro args args' hlen hlen'
    rw [hfilled args hlen, hfilled args' hlen']
    exact aligned_flatMap_text args args' _

/-- Three arguments of the default line, one of which is `%1`. -/
theorem default_line_decomposes : 3 ≤ 9 ∧ ∃ ts, Decomposes 3 "%1 [%2] %3".toList ts :=
  ⟨by decide, format_decomposes (by decide) _⟩

end GtLogging
