import Mathlib

/-! @lib ordered-map | kind:library | a finite map that remembers the order of insertion

    The entries in the order of their insertion, no key twice. A key that is present is not inserted
    again; erasing a key keeps the order of the others. -/

structure OrderedMap (κ α : Type*) where
  entries : List (κ × α)
  nodup : (entries.map Prod.fst).Nodup

namespace OrderedMap

variable {κ α : Type*}

@[ext] theorem ext {m m' : OrderedMap κ α} (h : m.entries = m'.entries) : m = m' := by
  cases m; cases m'; cases h; rfl

def empty : OrderedMap κ α := ⟨[], List.nodup_nil⟩

/-- The keys in the order of insertion. -/
def keys (m : OrderedMap κ α) : List κ := m.entries.map Prod.fst

theorem nodup_keys (m : OrderedMap κ α) : m.keys.Nodup := m.nodup

variable [DecidableEq κ]

def lookup (k : κ) (m : OrderedMap κ α) : Option α := (m.entries.find? (·.1 = k)).map Prod.snd

/-- Append an entry, unless the key is present. -/
def insertNew (k : κ) (a : α) (m : OrderedMap κ α) : OrderedMap κ α :=
  if h : k ∈ m.keys then m
  else
    ⟨m.entries ++ [(k, a)], by
      rw [List.map_append, List.map_singleton]
      exact List.nodup_append.mpr ⟨m.nodup, List.nodup_singleton k, by
        intro j hj i hi hji
        have hik : i = k := List.mem_singleton.mp hi
        exact h (hik ▸ hji ▸ hj)⟩⟩

def erase (k : κ) (m : OrderedMap κ α) : OrderedMap κ α :=
  ⟨m.entries.filter (·.1 ≠ k), (List.filter_sublist.map Prod.fst).nodup m.nodup⟩

theorem entries_insertNew {k : κ} {m : OrderedMap κ α} (h : k ∉ m.keys) (a : α) :
    (m.insertNew k a).entries = m.entries ++ [(k, a)] := by
  rw [insertNew, dif_neg h]

theorem insertNew_of_mem {k : κ} {m : OrderedMap κ α} (h : k ∈ m.keys) (a : α) :
    m.insertNew k a = m := dif_pos h

theorem erase_of_not_mem {k : κ} {m : OrderedMap κ α} (h : k ∉ m.keys) : m.erase k = m := by
  refine ext (List.filter_eq_self.mpr fun e he => ?_)
  simpa using fun hk : e.1 = k => h (hk ▸ List.mem_map_of_mem he)

/-- A key is present exactly when it has a value. -/
theorem isSome_lookup (k : κ) (m : OrderedMap κ α) : (m.lookup k).isSome ↔ k ∈ m.keys := by
  simp [lookup, keys]

/-- The value of a key is the one it was inserted with. -/
theorem lookup_eq_some_iff {k : κ} {a : α} {m : OrderedMap κ α} :
    m.lookup k = some a ↔ (k, a) ∈ m.entries := by
  obtain ⟨es, hes⟩ := m
  simp only [lookup]
  induction es with
  | nil => simp
  | cons e es ih =>
    obtain ⟨hne, hes'⟩ := List.nodup_cons.mp hes
    rw [List.find?_cons, List.mem_cons]
    by_cases he : e.1 = k
    · have hnot : (k, a) ∉ es := fun hmem => hne (he ▸ List.mem_map_of_mem (f := Prod.fst) hmem)
      simp only [he, decide_true, Option.map_some, Option.some.injEq, hnot, or_false]
      exact ⟨fun h => by rw [← h, ← he], fun h => by rw [← h]⟩
    · have hnot : (k, a) ≠ e := fun h => he (by rw [← h])
      simp only [he, decide_false, hnot, false_or]
      exact ih hes'

end OrderedMap
