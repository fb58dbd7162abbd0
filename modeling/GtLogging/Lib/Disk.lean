import Mathlib

/-! @lib disk | kind:library | model:names over inodes

    A disk is a directory of names over numbered files. Renaming and unlinking touch the directory
    only; truncating and writing go through a handle and touch the data only, so a handle keeps its
    file when the name moves. The directory carries its own well-formedness: names point below the
    allocation counter and no two names share a file. Opening follows the open-mode table of the
    C++ standard for output file streams (`out` is always added). -/

variable {κ α : Type*}

/-- The bits of an open mode, `out` left out since an output stream always adds it. -/
structure OpenMode where
  inp : Bool := false
  app : Bool := false
  trunc : Bool := false
  ate : Bool := false
  binary : Bool := false
  deriving DecidableEq

/-- Bits that the table lets open together: `app` and `trunc` exclude each other. -/
def OpenMode.legal (m : OpenMode) : Bool := !(m.app && m.trunc)

/-- `in` without `trunc` or `app` opens existing files only. -/
def OpenMode.mustExist (m : OpenMode) : Bool := m.inp && !m.app && !m.trunc

/-- The existing bytes survive the open: `app`, or `in` without `trunc`. -/
def OpenMode.keeps (m : OpenMode) : Bool := m.app || (m.inp && !m.trunc)

/-- An open output stream: its file, whether it writes at the end, and its position. -/
structure Handle where
  inode : ℕ
  app : Bool
  pos : ℕ
  deriving DecidableEq

structure Disk (κ α : Type*) where
  names : κ → Option ℕ
  data : ℕ → List α
  fresh : ℕ
  bounded : ∀ p i, names p = some i → i < fresh
  inj : ∀ p q i, names p = some i → names q = some i → p = q

namespace Disk

/-- The disk without files. -/
def empty : Disk κ α where
  names _ := none
  data _ := []
  fresh := 0
  bounded := by simp
  inj := by simp

/-- The content found under a name. -/
def read (d : Disk κ α) (p : κ) : Option (List α) := (d.names p).map d.data

/-- Replace the data of one file. -/
def setData (d : Disk κ α) (i : ℕ) (c : List α) : Disk κ α :=
  { d with data := Function.update d.data i c }

theorem isSome_read (d : Disk κ α) (p : κ) : (d.read p).isSome = (d.names p).isSome := by
  simp [read]

theorem read_of_names {d : Disk κ α} {p : κ} {i : ℕ} (h : d.names p = some i) :
    d.read p = some (d.data i) := by
  simp [read, h]

@[simp] theorem names_setData (d : Disk κ α) (i : ℕ) (c : List α) :
    (d.setData i c).names = d.names := rfl

theorem read_setData {d : Disk κ α} {p : κ} {i : ℕ} (h : d.names p = some i) (c : List α) :
    (d.setData i c).read p = some c := by
  simp [read, setData, h]

/-- Writing one file is invisible under every other name. -/
theorem read_setData_of_ne {d : Disk κ α} {p q : κ} {i : ℕ} (h : d.names p = some i) (hq : q ≠ p)
    (c : List α) : (d.setData i c).read q = d.read q := by
  cases hn : d.names q with
  | none => simp [read, hn]
  | some j =>
    have hj : j ≠ i := by rintro rfl; exact hq (d.inj q p j hn h)
    simp [read, setData, hn, Function.update_of_ne hj]

theorem setData_self (d : Disk κ α) (i : ℕ) : d.setData i (d.data i) = d := by
  cases d; simp [setData]

/-- A stream's `<<`: at the end in append mode, else over the bytes at the position (a gap left by
    a foreign truncation is filled with `pad`). -/
def write (pad : α) (d : Disk κ α) (h : Handle) (txt : List α) : Handle × Disk κ α :=
  let old := d.data h.inode
  let new := if h.app then old ++ txt
    else old.take h.pos ++ List.replicate (h.pos - old.length) pad ++ txt
      ++ old.drop (h.pos + txt.length)
  ({ h with pos := if h.app then new.length else h.pos + txt.length }, d.setData h.inode new)

@[simp] theorem inode_write (pad : α) (d : Disk κ α) (h : Handle) (txt : List α) :
    (d.write pad h txt).1.inode = h.inode := rfl

@[simp] theorem app_write (pad : α) (d : Disk κ α) (h : Handle) (txt : List α) :
    (d.write pad h txt).1.app = h.app := rfl

@[simp] theorem names_write (pad : α) (d : Disk κ α) (h : Handle) (txt : List α) :
    (d.write pad h txt).2.names = d.names := rfl

theorem write_app (pad : α) (d : Disk κ α) {h : Handle} (happ : h.app = true) (txt : List α) :
    (d.write pad h txt).2 = d.setData h.inode (d.data h.inode ++ txt) := by
  simp [write, happ]

/-- The stream writes behind the last byte of its file. -/
def AtEnd (d : Disk κ α) (h : Handle) : Prop := h.app = true ∨ h.pos = (d.data h.inode).length

/-- A stream at the end of its file appends, and is at the end again. -/
theorem write_atEnd (pad : α) {d : Disk κ α} {h : Handle} (he : d.AtEnd h) (txt : List α) :
    (d.write pad h txt).2 = d.setData h.inode (d.data h.inode ++ txt) ∧
      (d.write pad h txt).2.AtEnd (d.write pad h txt).1 := by
  cases happ : h.app with
  | true => exact ⟨write_app pad d happ txt, Or.inl happ⟩
  | false =>
    have hpos : h.pos = (d.data h.inode).length := he.resolve_left (by simp [happ])
    have hdrop : (d.data h.inode).drop ((d.data h.inode).length + txt.length) = [] :=
      List.drop_eq_nil_of_le (by omega)
    have hd : (d.write pad h txt).2 = d.setData h.inode (d.data h.inode ++ txt) := by
      simp [write, happ, hpos, hdrop]
    refine ⟨hd, Or.inr ?_⟩
    rw [hd]
    simp [write, happ, hpos, setData]

variable [DecidableEq κ]

/-- Drop a name. -/
def unlink (d : Disk κ α) (p : κ) : Disk κ α where
  names q := if q = p then none else d.names q
  data := d.data
  fresh := d.fresh
  bounded q i h := by
    by_cases hq : q = p
    · simp [hq] at h
    · exact d.bounded q i (by simpa [hq] using h)
  inj q r i hq hr := by
    by_cases h₁ : q = p
    · simp [h₁] at hq
    · by_cases h₂ : r = p
      · simp [h₂] at hr
      · exact d.inj q r i (by simpa [h₁] using hq) (by simpa [h₂] using hr)

/-- Give the file named `p` the name `q`, replacing what `q` named. -/
def move (d : Disk κ α) (p q : κ) : Disk κ α where
  names r := if r = q then d.names p else if r = p then none else d.names r
  data := d.data
  fresh := d.fresh
  bounded r i h := by
    split_ifs at h with h₁ h₂
    · exact d.bounded p i h
    · exact d.bounded r i h
  inj r s i hr hs := by
    split_ifs at hr hs with h₁ h₂ h₃ h₄ h₅ h₆
    · rw [h₁, h₂]
    · exact absurd (d.inj p s i hr hs).symm h₃
    · exact absurd (d.inj p r i hs hr).symm h₄
    · exact d.inj r s i hr hs

/-- A new empty file under a name that has none. -/
def create (d : Disk κ α) (p : κ) : Disk κ α where
  names q := if q = p then some d.fresh else d.names q
  data := Function.update d.data d.fresh []
  fresh := d.fresh + 1
  bounded q i h := by
    split_ifs at h with h₁
    · cases h; omega
    · have := d.bounded q i h; omega
  inj q r i hq hr := by
    split_ifs at hq hr with h₁ h₂ h₃
    · rw [h₁, h₂]
    · cases hq; exact absurd (d.bounded r _ hr) (lt_irrefl _)
    · cases hr; exact absurd (d.bounded q _ hq) (lt_irrefl _)
    · exact d.inj q r i hq hr

theorem read_unlink (d : Disk κ α) (p q : κ) :
    (d.unlink p).read q = if q = p then none else d.read q := by
  by_cases h : q = p <;> simp [read, unlink, h]

theorem read_move (d : Disk κ α) (p q r : κ) :
    (d.move p q).read r = if r = q then d.read p else if r = p then none else d.read r := by
  simp only [read, move]
  split_ifs <;> rfl

theorem read_create (d : Disk κ α) (p q : κ) :
    (d.create p).read q = if q = p then some [] else d.read q := by
  by_cases h : q = p
  · simp [read, create, h]
  · cases hn : d.names q with
    | none => simp [read, create, h, hn]
    | some i =>
      have hi : i ≠ d.fresh := (d.bounded q i hn).ne
      simp [read, create, h, hn, Function.update_of_ne hi]

@[simp] theorem names_create_self (d : Disk κ α) (p : κ) :
    (d.create p).names p = some d.fresh := by
  simp [create]

/-- A disk with the given files. -/
def ofFiles (files : List (κ × List α)) : Disk κ α :=
  files.foldl (fun d f => (d.create f.1).setData d.fresh f.2) empty

/-- Open a name for output: `none` when the table refuses. -/
def openFile (d : Disk κ α) (p : κ) (m : OpenMode) : Option (Handle × Disk κ α) :=
  if !m.legal then none
  else match d.names p with
    | some i =>
      let d' := if m.keeps then d else d.setData i []
      some ({ inode := i, app := m.app, pos := if m.ate then (d'.data i).length else 0 }, d')
    | none =>
      if m.mustExist then none
      else some ({ inode := d.fresh, app := m.app, pos := 0 }, d.create p)

/-- What an open leaves behind: the handle is on the file of that name (the old file, where there
    was one), the name reads `c`, and no other name notices. -/
structure OpenedAt (d d' : Disk κ α) (h : Handle) (p : κ) (c : List α) : Prop where
  attached : d'.names p = some h.inode
  same : ∀ i, d.names p = some i → h.inode = i
  content : d'.read p = some c
  others : ∀ q, q ≠ p → d'.read q = d.read q

/-- A mode that keeps existing bytes and may create. -/
theorem openFile_keeps (d : Disk κ α) (p : κ) {m : OpenMode} (hl : m.legal = true)
    (hk : m.keeps = true) (he : m.mustExist = false) :
    ∃ h d', d.openFile p m = some (h, d') ∧ h.app = m.app ∧
      OpenedAt d d' h p ((d.read p).getD []) := by
  cases hn : d.names p with
  | some i =>
    refine ⟨⟨i, m.app, if m.ate then (d.data i).length else 0⟩, d, ?_, rfl, hn, ?_, ?_, ?_⟩
    · simp [openFile, hl, hn, hk]
    · intro j hj; exact Option.some.inj (hn.symm.trans hj)
    · simp [read, hn]
    · exact fun _ _ => rfl
  | none =>
    refine ⟨⟨d.fresh, m.app, 0⟩, d.create p, ?_, rfl, by simp, by simp [hn], ?_, ?_⟩
    · simp [openFile, hl, hn, he]
    · rw [read_create, if_pos rfl]; simp [read, hn]
    · intro q hq; rw [read_create, if_neg hq]

/-- A mode that does not keep existing bytes leaves an empty file, whatever was there. -/
theorem openFile_truncates (d : Disk κ α) (p : κ) {m : OpenMode} (hl : m.legal = true)
    (hk : m.keeps = false) (he : m.mustExist = false) :
    ∃ h d', d.openFile p m = some (h, d') ∧ h.pos = 0 ∧ OpenedAt d d' h p [] := by
  cases hn : d.names p with
  | some i =>
    refine ⟨⟨i, m.app, 0⟩, d.setData i [], ?_, rfl, hn, ?_, read_setData hn [], ?_⟩
    · simp [openFile, hl, hn, hk, setData]
    · intro j hj; exact Option.some.inj (hn.symm.trans hj)
    · intro q hq; exact read_setData_of_ne hn hq []
  | none =>
    refine ⟨⟨d.fresh, m.app, 0⟩, d.create p, ?_, rfl, by simp, by simp [hn], ?_, ?_⟩
    · simp [openFile, hl, hn, he]
    · rw [read_create, if_pos rfl]
    · intro q hq; rw [read_create, if_neg hq]

/-- INVERSION: an open that succeeds is on the old file, kept or emptied, or on a new one. -/
theorem openFile_cases {d d' : Disk κ α} {p : κ} {m : OpenMode} {h : Handle}
    (ho : d.openFile p m = some (h, d')) :
    (d.names p = some h.inode ∧ (d' = d ∨ d' = d.setData h.inode [])) ∨
    (h.inode = d.fresh ∧ d' = d.create p) := by
  rw [openFile] at ho
  cases hl : m.legal with
  | false => simp [hl] at ho
  | true =>
    rw [hl] at ho
    cases hn : d.names p with
    | some i =>
      rw [hn] at ho
      obtain ⟨rfl, rfl⟩ := Prod.mk.inj (Option.some.inj ho)
      refine Or.inl ⟨rfl, ?_⟩
      cases m.keeps with
      | false => exact Or.inr rfl
      | true => exact Or.inl rfl
    | none =>
      rw [hn] at ho
      cases he : m.mustExist with
      | false =>
        rw [he] at ho
        obtain ⟨rfl, rfl⟩ := Prod.mk.inj (Option.some.inj ho)
        exact Or.inr ⟨rfl, rfl⟩
      | true => simp [he] at ho

/-- Whatever the mode, the handle is on the file of the name. -/
theorem names_openFile {d d' : Disk κ α} {p : κ} {m : OpenMode} {h : Handle}
    (ho : d.openFile p m = some (h, d')) : d'.names p = some h.inode := by
  rcases openFile_cases ho with ⟨hn, rfl | rfl⟩ | ⟨hi, rfl⟩
  · exact hn
  · exact hn
  · rw [hi]
    exact names_create_self d p

/-! ### Frames -/

/-- FRAME: outside `P`, every name is on the same file as before, and that file holds the same
    data. -/
structure SameOutside (P : κ → Prop) (d d' : Disk κ α) : Prop where
  names : ∀ q, ¬ P q → d'.names q = d.names q
  data : ∀ q i, ¬ P q → d.names q = some i → d'.data i = d.data i

namespace SameOutside

omit [DecidableEq κ]
variable {P Q : κ → Prop} {d d' d'' : Disk κ α}

theorem refl (P : κ → Prop) (d : Disk κ α) : SameOutside P d d :=
  ⟨fun _ _ => rfl, fun _ _ _ _ => rfl⟩

theorem trans (h : SameOutside P d d') (h' : SameOutside P d' d'') : SameOutside P d d'' := by
  refine ⟨fun q hq => (h'.names q hq).trans (h.names q hq), ?_⟩
  intro q i hq hn
  exact (h'.data q i hq ((h.names q hq).trans hn)).trans (h.data q i hq hn)

theorem mono (h : SameOutside P d d') (hle : ∀ q, P q → Q q) : SameOutside Q d d' :=
  ⟨fun q hq => h.names q (mt (hle q) hq), fun q i hq => h.data q i (mt (hle q) hq)⟩

/-- What is read outside stays. -/
theorem read (h : SameOutside P d d') {q : κ} (hq : ¬ P q) : d'.read q = d.read q := by
  rw [Disk.read, Disk.read, h.names q hq]
  cases hn : d.names q with
  | none => rfl
  | some i => exact congrArg some (h.data q i hq hn)

end SameOutside

theorem sameOutside_unlink (d : Disk κ α) (p : κ) : SameOutside (· = p) d (d.unlink p) :=
  ⟨fun _ hq => if_neg hq, fun _ _ _ _ => rfl⟩

theorem sameOutside_move (d : Disk κ α) (p q : κ) :
    SameOutside (fun r => r = p ∨ r = q) d (d.move p q) := by
  refine ⟨?_, fun _ _ _ _ => rfl⟩
  intro r hr
  rw [not_or] at hr
  exact (if_neg hr.2).trans (if_neg hr.1)

theorem sameOutside_create (d : Disk κ α) (p : κ) : SameOutside (· = p) d (d.create p) := by
  refine ⟨fun _ hq => if_neg hq, ?_⟩
  intro q i _ hn
  exact Function.update_of_ne (d.bounded q i hn).ne _ _

omit [DecidableEq κ] in
/-- Data written to the file of a name. -/
theorem sameOutside_setData {d : Disk κ α} {p : κ} {i : ℕ} (h : d.names p = some i) (c : List α) :
    SameOutside (· = p) d (d.setData i c) := by
  refine ⟨fun _ _ => rfl, ?_⟩
  rintro q j hq hn
  have hj : j ≠ i := by rintro rfl; exact hq (d.inj q p j hn h)
  exact Function.update_of_ne hj _ _

omit [DecidableEq κ] in
/-- A stream on the file of a name. -/
theorem sameOutside_write (pad : α) {d : Disk κ α} {p : κ} {h : Handle}
    (hn : d.names p = some h.inode) (txt : List α) : SameOutside (· = p) d (d.write pad h txt).2 :=
  sameOutside_setData hn _

theorem sameOutside_openFile {d d' : Disk κ α} {p : κ} {m : OpenMode} {h : Handle}
    (ho : d.openFile p m = some (h, d')) : SameOutside (· = p) d d' := by
  rcases openFile_cases ho with ⟨hn, rfl | rfl⟩ | ⟨-, rfl⟩
  · exact .refl _ _
  · exact sameOutside_setData hn []
  · exact sameOutside_create d p

end Disk
