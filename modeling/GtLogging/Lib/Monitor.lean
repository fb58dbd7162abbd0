import Mathlib

/-! @lib monitor | kind:library | data behind a mutex

    The data of a monitor is accessed by the one thread that holds its mutex, access by access.
    `settled` is the data as it is when the open section, if there is one, has been left. No access
    changes it and neither does leaving, so a section takes effect at once, where it is entered; and
    an open section can always be completed, whatever the rest of the program does. -/

/-- Programs for guarded sections over the data `X`, with an answer in `B`: `access` is what is
    next, nothing when the answer is there; `finish` is all that is left, and `left` bounds its
    length. -/
structure Sections (W X B : Type*) where
  access : W → X → Option (W × X)
  finish : W → X → B × X
  left : W → X → ℕ
  finish_access : ∀ {w x p}, access w x = some p → finish p.1 p.2 = finish w x
  left_access : ∀ {w x p}, access w x = some p → left p.1 p.2 < left w x
  finish_done : ∀ {w x}, access w x = none → (finish w x).2 = x

/-- Data, and who holds its mutex: in which section, and what is left of it. -/
@[ext] structure Monitor (E W X : Type*) where
  data : X
  holder : Option (E × W) := none

namespace Monitor

variable {E W X B : Type*}

/-- The mutex is free. -/
def Free (m : Monitor E W X) : Prop := m.holder = none

/-- Lock the mutex. -/
def enter (e : E) (w : W) (m : Monitor E W X) : Monitor E W X := { m with holder := some (e, w) }

variable (P : Sections W X B)

/-- One access of the holder. -/
def access (m : Monitor E W X) : Option (Monitor E W X) :=
  m.holder.bind fun h =>
    (P.access h.2 m.data).map fun p => { data := p.2, holder := some (h.1, p.1) }

/-- Unlock the mutex; the section and its answer. -/
def leave (m : Monitor E W X) : Option ((E × B) × Monitor E W X) :=
  m.holder.bind fun h =>
    if (P.access h.2 m.data).isNone then
      some ((h.1, (P.finish h.2 m.data).1), { m with holder := none })
    else none

/-- The open section and the answer it is going to have. -/
def outcome (m : Monitor E W X) : Option (E × B) :=
  m.holder.map fun h => (h.1, (P.finish h.2 m.data).1)

/-- The data when the open section has been left. -/
def settled (m : Monitor E W X) : X := m.holder.elim m.data fun h => (P.finish h.2 m.data).2

variable {P} {m m' : Monitor E W X} {e : E} {w : W} {a : E × B}

theorem outcome_free (h : m.Free) : m.outcome P = none := by
  rw [outcome, show m.holder = none from h]
  rfl

theorem settled_free (h : m.Free) : m.settled P = m.data := by
  rw [settled, show m.holder = none from h]
  rfl

theorem access_eq_some : m.access P = some m' ↔
    ∃ e w p, m.holder = some (e, w) ∧ P.access w m.data = some p ∧
      m' = { data := p.2, holder := some (e, p.1) } := by
  rw [access]
  constructor
  · intro h
    obtain ⟨⟨e, w⟩, hh, h⟩ := Option.bind_eq_some_iff.mp h
    obtain ⟨p, hp, rfl⟩ := Option.map_eq_some_iff.mp h
    exact ⟨e, w, p, hh, hp, rfl⟩
  · rintro ⟨e, w, p, hh, hp, rfl⟩
    simp [hh, hp]

theorem leave_eq_some : m.leave P = some (a, m') ↔
    ∃ e w, m.holder = some (e, w) ∧ P.access w m.data = none ∧
      a = (e, (P.finish w m.data).1) ∧ m' = { m with holder := none } := by
  rw [leave]
  constructor
  · intro h
    obtain ⟨⟨e, w⟩, hh, h⟩ := Option.bind_eq_some_iff.mp h
    split_ifs at h with hn
    obtain ⟨rfl, rfl⟩ := Prod.mk.inj (Option.some.inj h)
    exact ⟨e, w, hh, Option.isNone_iff_eq_none.mp hn, rfl, rfl⟩
  · rintro ⟨e, w, hh, hn, rfl, rfl⟩
    simp [hh, hn]

/-- STEP: an access changes neither what the section is going to answer nor the settled data. -/
theorem settled_access (h : m.access P = some m') :
    m'.outcome P = m.outcome P ∧ m'.settled P = m.settled P := by
  obtain ⟨e, w, p, hh, hp, rfl⟩ := access_eq_some.mp h
  simp [outcome, settled, hh, P.finish_access hp]

/-- STEP: neither does leaving, which gives that answer. -/
theorem settled_leave (h : m.leave P = some (a, m')) :
    m.outcome P = some a ∧ m'.settled P = m.settled P ∧ m'.Free := by
  obtain ⟨e, w, hh, hn, rfl, rfl⟩ := leave_eq_some.mp h
  refine ⟨?_, ?_, rfl⟩
  · simp [outcome, hh]
  · simp [settled, hh, P.finish_done hn]

/-- The holder can always go on. -/
theorem access_or_leave (h : m.holder = some (e, w)) :
    (∃ m', m.access P = some m') ∨
      m.leave P = some ((e, (P.finish w m.data).1), { m with holder := none }) := by
  cases hp : P.access w m.data with
  | some p => exact Or.inl ⟨_, access_eq_some.mpr ⟨e, w, p, h, hp, rfl⟩⟩
  | none => exact Or.inr (leave_eq_some.mpr ⟨e, w, h, hp, rfl, rfl⟩)

/-- What is left of the open section. -/
def left (P : Sections W X B) (m : Monitor E W X) : ℕ := m.holder.elim 0 fun h => P.left h.2 m.data

theorem left_access (h : m.access P = some m') : m'.left P < m.left P := by
  obtain ⟨e, w, p, hh, hp, rfl⟩ := access_eq_some.mp h
  simpa [left, hh] using P.left_access hp

/-- An access leaves the section with its thread. -/
theorem holder_access (h : m.access P = some m') (hh : m.holder = some (e, w)) :
    ∃ w', m'.holder = some (e, w') := by
  obtain ⟨e', w', p, hh', -, rfl⟩ := access_eq_some.mp h
  obtain ⟨rfl, -⟩ := Prod.mk.inj (Option.some.inj (hh.symm.trans hh'))
  exact ⟨p.1, rfl⟩

end Monitor
