import GtLogging.Lib.TextSearch

/-! @lib prefix-codec | kind:library | printers and the readers that invert them

    A prefix codec prints a value and reads a value off the front of a text. It carries its law: it
    reads `b` and leaves `t` exactly when `b` is good and the text is the print of `b` in front of
    `t`. So a good value is read back in front of anything, nothing else is ever read, and two
    prints of good values never clash. Codecs are built from tables of texts none of which starts
    another, from texts closed by a separator, and by sequencing. -/

open TextSearch

structure PrefixCodec (α β : Type*) where
  print : β → List α
  Good : β → Prop
  read : List α → Option (β × List α)
  law : ∀ s b t, read s = some (b, t) ↔ Good b ∧ s = print b ++ t

namespace PrefixCodec

variable {α β γ : Type*}

/-- One codec after the other. -/
def seq (c : PrefixCodec α β) (d : PrefixCodec α γ) : PrefixCodec α (β × γ) where
  print p := c.print p.1 ++ d.print p.2
  Good p := c.Good p.1 ∧ d.Good p.2
  read s := (c.read s).bind fun r => (d.read r.2).map fun q => ((r.1, q.1), q.2)
  law s p t := by
    obtain ⟨b, e⟩ := p
    simp only [Option.bind_eq_some_iff, Option.map_eq_some_iff, Prod.exists, Prod.mk.injEq]
    constructor
    · rintro ⟨b, u, hb, e, t, he, ⟨rfl, rfl⟩, rfl⟩
      obtain ⟨hgood, rfl⟩ := (c.law s b u).mp hb
      obtain ⟨hgood', rfl⟩ := (d.law u e t).mp he
      exact ⟨⟨hgood, hgood'⟩, by rw [List.append_assoc]⟩
    · rintro ⟨⟨hgood, hgood'⟩, rfl⟩
      rw [List.append_assoc]
      exact ⟨b, _, (c.law _ b _).mpr ⟨hgood, rfl⟩, e, t, (d.law _ e t).mpr ⟨hgood', rfl⟩,
        ⟨rfl, rfl⟩, rfl⟩

section Search
variable [DecidableEq α]

/-- The entries of a table, none of whose texts starts another. -/
def table (entries : List β) (print : β → List α)
    (free : ∀ b ∈ entries, ∀ e ∈ entries, print b <+: print e → b = e) : PrefixCodec α β where
  print := print
  Good := (· ∈ entries)
  read s := (entries.find? fun b => print b <+: s).map fun b => (b, s.drop (print b).length)
  law s b t := by
    rw [Option.map_eq_some_iff]
    constructor
    · rintro ⟨e, he, heq⟩
      obtain ⟨rfl, rfl⟩ := Prod.mk.inj heq
      have hpre : print e <+: s := by simpa using List.find?_some he
      exact ⟨List.mem_of_find?_eq_some he, (List.prefix_iff_eq_append.mp hpre).symm⟩
    · rintro ⟨hb, rfl⟩
      have hsome : (entries.find? fun e => print e <+: print b ++ t).isSome := by
        rw [List.find?_isSome]
        exact ⟨b, hb, by simp⟩
      obtain ⟨e, he⟩ := Option.isSome_iff_exists.mp hsome
      have hpre : print e <+: print b ++ t := by simpa using List.find?_some he
      have hmem := List.mem_of_find?_eq_some he
      have heb : e = b := by
        rcases List.prefix_or_prefix_of_prefix hpre (List.prefix_append (print b) t) with h | h
        · exact free e hmem b hb h
        · exact (free b hb e hmem h).symm
      refine ⟨e, he, ?_⟩
      rw [heb, List.drop_left]

/-- A text up to the first place where the separator stands. -/
def upTo (sep : List α) : PrefixCodec α (List α) where
  print x := x ++ sep
  Good x := search sep (x ++ sep) = some x.length
  read s := (search sep s).map fun i => (s.take i, s.drop (i + sep.length))
  law s x t := by
    rw [Option.map_eq_some_iff]
    constructor
    · rintro ⟨i, hi, heq⟩
      obtain ⟨rfl, rfl⟩ := Prod.mk.inj heq
      have hs := eq_of_search hi
      have hlen : (s.take i).length = i := by
        rw [List.length_take]
        have := (search_eq_some_iff.mp hi).1
        omega
      refine ⟨?_, hs⟩
      rw [← search_append_append _ _ (s.drop (i + sep.length)), ← hs, hlen]
      exact hi
    · rintro ⟨hgood, rfl⟩
      refine ⟨x.length, (search_append_append x sep t).mpr hgood, ?_⟩
      rw [List.append_assoc, List.take_left, ← List.append_assoc, ← List.length_append,
        List.drop_left]

end Search

end PrefixCodec
