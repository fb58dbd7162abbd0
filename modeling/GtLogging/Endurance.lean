import GtLogging.Ownership
import GtLogging.Lib.Slots

/-! @src src/gt_logdestfile.cpp | layer:result | a log over failures and restarts

    Retention is exact as long as no file operation fails. Here every step of a run has its own
    failing calls, the family may hold anything at the start, the setters may be called at any
    time, and the program may restart with another strategy. What is left is order: in every state
    the files, read from the highest index down, hold what was found there first and then written
    lines, each whole, at most once and in the order of the calls. A line starts behind a new line
    if the current file that was found had no open end. -/

namespace GtLogging

/-- A step in the life of a log file: a call, or the end of the destination and a new one on the
    same path. -/
inductive LifeOp where
  | call (op : FileOp)
  | restart (rot : RotationStrategy)

namespace LifeOp

def exec (flt : Faults) : LifeOp → FileLog → FileLog
  | .call op, log => op.exec flt log
  | .restart rot, log => .construct flt log.dest.filePath rot log.destroy

/-- Consecutive steps, each with its own failing calls. -/
def run (steps : List (Faults × LifeOp)) (log : FileLog) : FileLog :=
  steps.foldl (fun l st => st.2.exec st.1 l) log

/-- The message of a step, if it writes one. -/
def message : LifeOp → List Str
  | .call op => FileOp.written [op]
  | .restart _ => []

/-- The messages of the write calls, in order. -/
def written (steps : List (Faults × LifeOp)) : List Str := steps.flatMap (message ·.2)

theorem run_concat (steps : List (Faults × LifeOp)) (st : Faults × LifeOp) (log : FileLog) :
    run (steps ++ [st]) log = st.2.exec st.1 (run steps log) := by
  rw [run, List.foldl_append]
  rfl

end LifeOp

namespace FileLog
open Rotation SizeRotationStrategy
open Disk (SameOutside)

variable {flt : Faults} {path : Str} {s : SizeRotationStrategy} {log : FileLog} {b : Slots Str}
  {d d' : Disk Str Char} {l : List Str}

/-! ### Files as slots of blocks -/

/-- A file that reads the blocks `l`, one behind the other; a missing file has none. -/
def Reads (o : Option Str) (l : List Str) : Prop := (o = none ∧ l = []) ∨ o = some l.flatten

/-- Each file of the family reads the blocks of its slot. -/
def Holds (path : Str) (b : Slots Str) (d : Disk Str Char) : Prop :=
  ∀ i, Reads (d.read (family path i)) (b i)

/-- What a disk holds, each file one block. -/
def found (path : Str) (d : Disk Str Char) : Slots Str := fun i => (d.read (family path i)).toList

theorem holds_found (path : Str) (d : Disk Str Char) : Holds path (found path d) d := by
  intro i
  cases h : d.read (family path i) with
  | none => exact Or.inl ⟨rfl, by simp [found, h]⟩
  | some c => exact Or.inr (by simp [found, h])

/-- FRAME: what happens to the current file leaves the other slots. -/
theorem holds_update (hb : Holds path b d) (hs : SameOutside (· = path) d d')
    (hr : Reads (d'.read path) l) : Holds path (Function.update b 0 l) d' := by
  rintro (_ | i)
  · rw [Function.update_self]
    exact hr
  · rw [Function.update_of_ne (Nat.succ_ne_zero i),
      hs.read (family_ne (i := i + 1) (j := 0) (Nat.succ_ne_zero i))]
    exact hb (i + 1)

/-! ### A rotation is a thinning shift -/

/-- STEP: moving a file up brings nothing new and reorders nothing, whatever fails, and whatever the
    probe sees. -/
theorem holds_moveOnto (flt : Faults) (m₁ m₂ : Str) (i : ℕ) {w : World}
    (hb : Holds path b w.disk) :
    ∃ b', Holds path b' (moveOnto flt (family path i) (family path (i + 1)) m₁ m₂ w).disk ∧
      Slots.Takes [] b b' := by
  have hne : family path i ≠ family path (i + 1) := family_ne (by omega)
  rcases moveOnto_cases flt m₁ m₂ w hne with h | h | h
  · -- nothing happens
    exact ⟨b, fun k => by rw [h]; exact hb k, .refl [] b⟩
  · -- the target is cleared
    refine ⟨Function.update b (i + 1) [], fun k => ?_, .drop b _⟩
    rw [h]
    by_cases hk : k = i + 1
    · subst hk
      rw [if_pos rfl, Function.update_self]
      exact Or.inl ⟨rfl, rfl⟩
    · rw [if_neg (family_ne hk), Function.update_of_ne hk]
      exact hb k
  · -- the file moves
    refine ⟨_, fun k => ?_, .shift b i⟩
    rw [h]
    by_cases hk : k = i
    · subst hk
      rw [if_neg hne, if_pos rfl, Function.update_self]
      exact Or.inl ⟨rfl, rfl⟩
    · rw [Function.update_of_ne hk]
      by_cases hk' : k = i + 1
      · subst hk'
        rw [if_pos rfl, Function.update_self]
        exact hb i
      · rw [if_neg (family_ne hk'), if_neg (family_ne hk), Function.update_of_ne hk']
        exact hb k

/-- RUN of the loop. -/
theorem holds_shiftUp (flt : Faults) (hs : s.fileName = path) (i : ℕ) {w : World}
    (hb : Holds path b w.disk) :
    ∃ b', Holds path b' (shiftUp flt s i w).disk ∧ Slots.Takes [] b b' := by
  induction i generalizing b w with
  | zero => exact ⟨b, hb, .refl [] b⟩
  | succ i ih =>
    subst hs
    obtain ⟨b₁, hb₁, ht₁⟩ := holds_moveOnto flt _ _ (i + 1) hb
    obtain ⟨b₂, hb₂, ht₂⟩ := ih hb₁
    exact ⟨b₂, hb₂, ht₁.trans ht₂⟩

/-- STEP: a rotation brings nothing new and reorders nothing, whatever fails. -/
theorem holds_rotate (flt : Faults) {w : World} (hs : s.fileName = path)
    (hb : Holds path b w.disk) :
    ∃ b', Holds path b' (s.rotate flt w).disk ∧ Slots.Takes [] b b' := by
  rcases Nat.eq_zero_or_pos s.maxBackupsCount with h0 | hpos
  · -- one file only: it goes, or it stays
    have hz := rotate_zero flt (w := w) h0
    rw [hs] at hz
    cases hf : flt.removeFails path with
    | false =>
      refine ⟨Function.update b 0 [], ?_, .drop b 0⟩
      rintro (_ | i)
      · rw [hz, if_pos ⟨rfl, hf⟩]
        exact Or.inl ⟨rfl, Function.update_self ..⟩
      · have hne : family path (i + 1) ≠ path := family_ne (j := 0) (Nat.succ_ne_zero i)
        rw [hz, if_neg (not_and.mpr fun h => absurd h hne),
          Function.update_of_ne (Nat.succ_ne_zero i)]
        exact hb (i + 1)
    | true =>
      refine ⟨b, fun i => ?_, .refl [] b⟩
      rw [hz, if_neg (by simp [hf])]
      exact hb i
  · obtain ⟨b₁, hb₁, ht₁⟩ := holds_shiftUp flt hs (lastExistingBackupIndex flt s w) hb
    rw [rotate, if_neg (by omega), renameCurrent, hs]
    obtain ⟨b₂, hb₂, ht₂⟩ := holds_moveOnto flt _ _ 0 hb₁
    exact ⟨b₂, hb₂, ht₁.trans ht₂⟩

/-- The current file stays as it is or goes. -/
theorem rotate_current (flt : Faults) (w : World) (hs : s.fileName = path) :
    (s.rotate flt w).disk.read path = w.disk.read path ∨
      (s.rotate flt w).disk.read path = none := by
  rcases Nat.eq_zero_or_pos s.maxBackupsCount with h0 | hpos
  · rw [rotate_zero flt h0]
    split_ifs
    · exact Or.inr rfl
    · exact Or.inl rfl
  · have hloop : (shiftUp flt s (lastExistingBackupIndex flt s w) w).disk.read path =
        w.disk.read path := by
      refine (sameOutside_shiftUp flt s _ w).read ?_
      rintro ⟨j, hj, -, h⟩
      rw [hs] at h
      exact family_ne (i := 0) (j := j) (by omega) h
    have hne : path ≠ backupName path 1 := family_ne (i := 0) (j := 1) (by omega)
    rw [rotate, if_neg (by omega), renameCurrent, hs]
    rcases moveOnto_cases flt _ _ (shiftUp flt s (lastExistingBackupIndex flt s w) w) hne
      with h | h | h
    · exact Or.inl (by rw [h, hloop])
    · exact Or.inl (by rw [h, if_neg hne, hloop])
    · exact Or.inr (by rw [h, if_neg hne, if_pos rfl])

/-! ### Opening -/

/-- A text that ends with a new line, or is empty. -/
def Ended (c : Str) : Prop := c = [] ∨ ∃ front, c = front ++ ['\n']

theorem ended_append_line (c m : Str) : Ended (c ++ line m) :=
  Or.inr ⟨c ++ m, by rw [line, List.append_assoc]⟩

/-- The current file, if there is one, has no open end. -/
def CurrentEnded (path : Str) (d : Disk Str Char) : Prop := ∀ c, d.read path = some c → Ended c

/-- The destination is on its own file, at the end of it. -/
structure AtEnd (path : Str) (log : FileLog) : Prop extends Own path log where
  atEnd : ∀ h, log.dest.fstream = some h → log.world.disk.AtEnd h

/-- What a construction that cannot open its stream does to the disk: nothing if the measuring open
    fails too; else that empties the file. -/
structure Unopened (flt : Faults) (path : Str) (d d' : Disk Str Char) : Prop where
  unmeasured : flt.measureFails path = true → d' = d
  measured : flt.measureFails path = false → d'.read path = some []
  outside : SameOutside (· = path) d d'

theorem unopened_construct (hf : flt.openFails path = true) (s : SizeRotationStrategy)
    (w : World) : Unopened flt path w.disk (construct flt path (.size s) w).world.disk := by
  obtain ⟨k, d, hm, -, hopen⟩ := w.disk.openFile_truncates path (m := measureMode) rfl rfl rfl
  refine ⟨fun hmf => ?_, fun hmf => Eq.trans ?_ hopen.content, sameOutside_construct _ _ _ _⟩
  · simp [construct, RotationStrategy.setFileInfo, setFileInfo, openStream, hf, hmf]
  · simp [construct, RotationStrategy.setFileInfo, setFileInfo, openStream, hf, hmf, hm]

theorem null_construct_failed (hf : flt.openFails path = true) (w : World) :
    (construct flt path .null w).dest.fstream = none ∧
      (construct flt path .null w).world.disk = w.disk := by
  simp [construct, RotationStrategy.setFileInfo, openStream, hf]

/-- A stream that is not opened leaves its file to the measuring one. -/
theorem construct_failed (hf : flt.openFails path = true) (rot : RotationStrategy) (w : World) :
    (construct flt path rot w).dest.fstream = none ∧
      ((construct flt path rot w).world.disk = w.disk ∨
        (construct flt path rot w).world.disk.read path = some []) := by
  cases rot with
  | null =>
    obtain ⟨hst, hdisk⟩ := null_construct_failed hf w
    exact ⟨hst, Or.inl hdisk⟩
  | size s =>
    refine ⟨construct_size_closed hf s w, ?_⟩
    have hun := unopened_construct hf s w
    cases hmf : flt.measureFails path with
    | true => exact Or.inl (hun.unmeasured hmf)
    | false => exact Or.inr (hun.measured hmf)

theorem null_construct_opened (hf : flt.openFails path = false) (w : World) :
    (∀ h, (construct flt path .null w).dest.fstream = some h →
      (construct flt path .null w).world.disk.AtEnd h) ∧
    (construct flt path .null w).world.disk.read path = some [] := by
  obtain ⟨h, d, ho, hpos, hopen⟩ := w.disk.openFile_truncates path
    (m := RotationStrategy.null.openMode) rfl rfl rfl
  have heq : construct flt path .null w =
      { dest := { fstream := some h, filePath := path }
        rot := .null
        world := { w with disk := d } } := by
    simp [construct, openStream, hf, ho, RotationStrategy.setFileInfo]
  have hdata : d.data h.inode = [] := by
    have hread := hopen.content
    rw [Disk.read_of_names hopen.attached] at hread
    exact Option.some.inj hread
  rw [heq]
  refine ⟨?_, hopen.content⟩
  rintro _ ⟨⟩
  exact Or.inr (by rw [hpos, hdata]; rfl)

/-- With either strategy an opened file is empty, or has not been measured and is as it was. -/
theorem construct_opened (hf : flt.openFails path = false) (rot : RotationStrategy) (w : World) :
    (∀ h, (construct flt path rot w).dest.fstream = some h →
      (construct flt path rot w).world.disk.AtEnd h) ∧
    ((construct flt path rot w).world.disk.read path = some [] ∨
      (construct flt path rot w).world.disk.read path = some ((w.disk.read path).getD [])) := by
  cases rot with
  | null =>
    obtain ⟨hend, hread⟩ := null_construct_opened hf w
    exact ⟨hend, Or.inl hread⟩
  | size s =>
    have hl := live_construct flt path hf s w
    obtain ⟨h, hh, happ, -⟩ := hl.stream
    refine ⟨?_, ?_⟩
    · intro h' hh'
      obtain rfl := Option.some.inj (hh.symm.trans hh')
      exact Or.inl happ
    · have hc := hl.content
      rw [leftover] at hc
      split_ifs at hc
      · exact Or.inr hc
      · exact Or.inl hc

theorem atEnd_construct (flt : Faults) (path : Str) (rot : RotationStrategy) (w : World) :
    AtEnd path (construct flt path rot w) := by
  refine ⟨own_construct flt path rot w, ?_⟩
  cases hf : flt.openFails path with
  | false => exact (construct_opened hf rot w).1
  | true =>
    intro h hh
    rw [(construct_failed hf rot w).1] at hh
    cases hh

/-- STEP: opening empties the current file or leaves what it holds. -/
theorem holds_construct (flt : Faults) (rot : RotationStrategy) {w : World}
    (hb : Holds path b w.disk) :
    ∃ b', Holds path b' (construct flt path rot w).world.disk ∧ Slots.Takes [] b b' := by
  have hs := sameOutside_construct flt path rot w
  have hclear : (construct flt path rot w).world.disk.read path = some [] →
      ∃ b', Holds path b' (construct flt path rot w).world.disk ∧ Slots.Takes [] b b' := fun h =>
    ⟨Function.update b 0 [], holds_update hb hs (by rw [h]; exact Or.inr rfl), .drop b 0⟩
  cases hf : flt.openFails path with
  | false =>
    rcases (construct_opened hf rot w).2 with h | h
    · exact hclear h
    · refine ⟨Function.update b 0 (b 0), holds_update hb hs ?_, ?_⟩
      · rw [h]
        rcases hb 0 with ⟨hnone, hnil⟩ | hsome
        · rw [show w.disk.read path = none from hnone, hnil]
          exact Or.inr rfl
        · rw [show w.disk.read path = some (b 0).flatten from hsome]
          exact Or.inr rfl
      · rw [Function.update_eq_self]
        exact .refl [] b
  | true =>
    rcases (construct_failed hf rot w).2 with h | h
    · rw [h]
      exact ⟨b, hb, .refl [] b⟩
    · exact hclear h

/-- STEP: a construction leaves no open end where there was none. -/
theorem ended_construct (flt : Faults) (rot : RotationStrategy) {w : World}
    (he : CurrentEnded path w.disk) :
    CurrentEnded path (construct flt path rot w).world.disk := by
  intro c hc
  have hempty : (construct flt path rot w).world.disk.read path = some [] → Ended c := by
    intro h
    rw [h] at hc
    exact Or.inl (Option.some.inj hc).symm
  cases hf : flt.openFails path with
  | false =>
    rcases (construct_opened hf rot w).2 with h | h
    · exact hempty h
    · rw [h] at hc
      obtain rfl := Option.some.inj hc
      cases hr : w.disk.read path with
      | none => exact Or.inl rfl
      | some c => exact he c hr
  | true =>
    rcases (construct_failed hf rot w).2 with h | h
    · exact he c (h ▸ hc)
    · exact hempty h

/-! ### Writing -/

/-- The message is the last line of the current file if the stream is open. -/
def LastLine (path m : Str) (log : FileLog) : Prop :=
  log.isValid = true → ∃ c, Ended c ∧ log.file path 0 = some (c ++ line m)

/-- A closed stream drops the message. -/
theorem put_closed (m : Str) (hst : log.dest.fstream = none) :
    (log.put m).dest.fstream = none ∧ (log.put m).world = log.world := by
  simp [put, hst, writeStream]

/-- An open stream adds the line to its file. -/
theorem put_open (m : Str) {h : Handle} (ha : AtEnd path log) (hst : log.dest.fstream = some h) :
    AtEnd path (log.put m) ∧ ∃ c, log.world.disk.read path = some c ∧
      (log.put m).world.disk.read path = some (c ++ line m) := by
  obtain ⟨hdisk, hend⟩ := Disk.write_atEnd '\x00' (ha.atEnd h hst) (m ++ ['\n'])
  have hn := ha.stream h hst
  refine ⟨⟨own_put m ha.toOwn, ?_⟩, _, Disk.read_of_names hn, ?_⟩
  · intro h' hh'
    simp only [put, hst, writeStream, Option.some.injEq] at hh' ⊢
    rw [← hh']
    exact hend
  · simp only [put, hst, writeStream]
    rw [hdisk, Disk.read_setData hn, line]

/-- STEP: a message goes behind everything on an open stream, and nowhere else. -/
theorem holds_put (m : Str) (ha : AtEnd path log) (hb : Holds path b log.world.disk) :
    AtEnd path (log.put m) ∧
      ∃ b', Holds path b' (log.put m).world.disk ∧ Slots.Takes [line m] b b' := by
  cases hst : log.dest.fstream with
  | none =>
    obtain ⟨hnone, hw⟩ := put_closed m hst
    refine ⟨⟨own_put m ha.toOwn, by simp [hnone]⟩, b, ?_, .refl _ b⟩
    rw [hw]
    exact hb
  | some h =>
    obtain ⟨hend, c, hc, hread⟩ := put_open m ha hst
    refine ⟨hend, Function.update b 0 (b 0 ++ [line m]), ?_, .put (.refl _) _⟩
    refine holds_update hb (sameOutside_put m ha.stream) ?_
    rw [hread]
    rcases hb 0 with ⟨hnone, -⟩ | hsome
    · rw [show log.world.disk.read path = none from hnone] at hc
      cases hc
    · rw [show log.world.disk.read path = some (b 0).flatten from hsome] at hc
      obtain rfl := Option.some.inj hc
      exact Or.inr (by simp)

theorem ended_put (m : Str) (ha : AtEnd path log) (he : CurrentEnded path log.world.disk) :
    CurrentEnded path (log.put m).world.disk ∧ LastLine path m (log.put m) := by
  cases hst : log.dest.fstream with
  | none =>
    obtain ⟨hnone, hw⟩ := put_closed m hst
    rw [hw]
    exact ⟨he, by simp [LastLine, isValid, hnone]⟩
  | some h =>
    obtain ⟨-, c, hc, hread⟩ := put_open m ha hst
    refine ⟨fun c' hc' => ?_, fun _ => ⟨c, he c hc, hread⟩⟩
    rw [hread] at hc'
    obtain rfl := Option.some.inj hc'
    exact ended_append_line c m

/-- A write that rotates and reopens is a construction on what the rotation left. -/
theorem write_rotated (m : Str) (ha : Attached path s log) (hr : s.shouldRotate = true)
    (hf : flt.openFails path = false) :
    log.write flt m = (construct flt path log.rot (s.rotate flt log.world)).put m := by
  have ho := isSome_openStream hf log.rot (s.rotate flt log.world)
  rw [write, construct]
  simp only [ha.rot, ha.filePath, RotationStrategy.shouldRotate, hr, RotationStrategy.rotate,
    if_true] at ho ⊢
  rw [if_pos ho, if_pos ho]

/-- STEP: whatever fails, a write adds at most its line, behind everything that is kept. -/
theorem holds_write (flt : Faults) (m : Str) (ha : AtEnd path log)
    (hb : Holds path b log.world.disk) :
    AtEnd path (log.write flt m) ∧
      ∃ b', Holds path b' (log.write flt m).world.disk ∧ Slots.Takes [line m] b b' := by
  rcases ha.write_cases flt m with heq | ⟨s, hatt, hr⟩
  · rw [heq]
    exact holds_put m ha hb
  · obtain ⟨b₁, hb₁, ht₁⟩ := holds_rotate flt hatt.name hb
    cases hf : flt.openFails path with
    | false =>
      obtain ⟨b₂, hb₂, ht₂⟩ := holds_construct flt log.rot hb₁
      obtain ⟨hend, b₃, hb₃, ht₃⟩ := holds_put m (atEnd_construct flt path log.rot _) hb₂
      rw [write_rotated m hatt hr hf]
      exact ⟨hend, b₃, hb₃, (ht₁.trans ht₂).trans ht₃⟩
    | true =>
      refine ⟨⟨own_write flt m ha.toOwn, by simp [write_closed m hatt hr hf]⟩, b₁, ?_,
        ht₁.trans (.refl [line m] b₁)⟩
      rw [(write_unopened m hatt hr hf).2]
      exact hb₁

/-- STEP: no write opens the end of the current file, and it is behind a whole line. -/
theorem ended_write (flt : Faults) (m : Str) (ha : AtEnd path log)
    (he : CurrentEnded path log.world.disk) :
    CurrentEnded path (log.write flt m).world.disk ∧ LastLine path m (log.write flt m) := by
  rcases ha.write_cases flt m with heq | ⟨s, hatt, hr⟩
  · rw [heq]
    exact ended_put m ha he
  · have hrot : CurrentEnded path (s.rotate flt log.world).disk := by
      intro c hc
      rcases rotate_current flt log.world hatt.name with h | h
      · exact he c (h ▸ hc)
      · rw [h] at hc
        cases hc
    cases hf : flt.openFails path with
    | false =>
      rw [write_rotated m hatt hr hf]
      exact ended_put m (atEnd_construct flt path log.rot _) (ended_construct flt log.rot hrot)
    | true =>
      rw [(write_unopened m hatt hr hf).2]
      exact ⟨hrot, by simp [LastLine, isValid, write_closed m hatt hr hf]⟩

/-! ### Runs -/

/-- A setter touches the strategy only. -/
@[simp] theorem world_mapSize (f : SizeRotationStrategy → SizeRotationStrategy) (log : FileLog) :
    (log.mapSize f).world = log.world := by
  rw [mapSize]
  cases log.rot <;> rfl

theorem atEnd_mapSize (f : SizeRotationStrategy → SizeRotationStrategy)
    (hname : ∀ s, (f s).fileName = s.fileName) (ha : AtEnd path log) :
    AtEnd path (log.mapSize f) := by
  rw [mapSize]
  cases hrot : log.rot with
  | null => exact ha
  | size s =>
    refine ⟨⟨ha.filePath, ?_, ha.stream⟩, ha.atEnd⟩
    rintro _ ⟨⟩
    exact (hname s).trans (ha.fileName s hrot)

/-- STEP: what one step does to the family, and that it keeps to it. -/
theorem holds_exec (st : Faults × LifeOp) (ha : AtEnd path log)
    (hb : Holds path b log.world.disk) :
    AtEnd path (st.2.exec st.1 log) ∧
      SameOutside (InFamily path) log.world.disk (st.2.exec st.1 log).world.disk ∧
      ∃ b', Holds path b' (st.2.exec st.1 log).world.disk ∧
        Slots.Takes (st.2.message.map line) b b' := by
  obtain ⟨flt, op⟩ := st
  have hsetter : ∀ f : SizeRotationStrategy → SizeRotationStrategy,
      (∀ s, (f s).fileName = s.fileName) →
      AtEnd path (log.mapSize f) ∧
        SameOutside (InFamily path) log.world.disk (log.mapSize f).world.disk ∧
        ∃ b', Holds path b' (log.mapSize f).world.disk ∧ Slots.Takes [] b b' := by
    intro f hname
    rw [world_mapSize]
    exact ⟨atEnd_mapSize f hname ha, .refl _ _, b, hb, .refl [] b⟩
  cases op with
  | call op =>
    cases op with
    | write m =>
      obtain ⟨hend, hb'⟩ := holds_write flt m ha hb
      exact ⟨hend, sameOutside_write flt m ha.toOwn, hb'⟩
    | setBackupCount n => exact hsetter _ fun _ => rfl
    | setMaximumSizeInBytes size => exact hsetter _ fun _ => rfl
  | restart rot =>
    have hp := ha.filePath
    refine ⟨?_, ?_, ?_⟩
    · rw [LifeOp.exec, hp]
      exact atEnd_construct flt path rot _
    · rw [LifeOp.exec, hp]
      exact (sameOutside_construct flt path rot _).mono fun q hq => ⟨0, hq⟩
    · rw [LifeOp.exec, hp]
      exact holds_construct flt rot hb

/-- RUN: step by step, what is taken up is at most what was written. -/
theorem holds_run (steps : List (Faults × LifeOp)) (ha : AtEnd path log)
    (hb : Holds path b log.world.disk) :
    AtEnd path (LifeOp.run steps log) ∧
      SameOutside (InFamily path) log.world.disk (LifeOp.run steps log).world.disk ∧
      ∃ b', Holds path b' (LifeOp.run steps log).world.disk ∧
        Slots.Takes ((LifeOp.written steps).map line) b b' := by
  induction steps using List.reverseRecOn with
  | nil => exact ⟨ha, .refl _ _, b, hb, .refl [] b⟩
  | append_singleton steps st ih =>
    obtain ⟨ha₁, hs₁, b₁, hb₁, ht₁⟩ := ih
    obtain ⟨ha₂, hs₂, b₂, hb₂, ht₂⟩ := holds_exec st ha₁ hb₁
    rw [LifeOp.run_concat]
    refine ⟨ha₂, hs₁.trans hs₂, b₂, hb₂, ?_⟩
    simpa [LifeOp.written] using ht₁.trans ht₂

theorem ended_exec (st : Faults × LifeOp) (ha : AtEnd path log)
    (he : CurrentEnded path log.world.disk) :
    CurrentEnded path (st.2.exec st.1 log).world.disk := by
  obtain ⟨flt, op⟩ := st
  cases op with
  | call op =>
    cases op with
    | write m => exact (ended_write flt m ha he).1
    | setBackupCount n => rwa [LifeOp.exec, FileOp.exec, world_mapSize]
    | setMaximumSizeInBytes size => rwa [LifeOp.exec, FileOp.exec, world_mapSize]
  | restart rot =>
    rw [LifeOp.exec, ha.filePath]
    exact ended_construct flt rot he

/-- RUN: the current file never has an open end that it did not have at the start. -/
theorem ended_run (steps : List (Faults × LifeOp)) (ha : AtEnd path log)
    (he : CurrentEnded path log.world.disk) :
    CurrentEnded path (LifeOp.run steps log).world.disk := by
  induction steps using List.reverseRecOn with
  | nil => exact he
  | append_singleton steps st ih =>
    rw [LifeOp.run_concat]
    exact ended_exec st (holds_run steps ha (holds_found path log.world.disk)).1 ih

/-- What a run leaves: the files of the family are cut into blocks which, read from the highest
    index down, are some of the files found at the start and then some of the lines `ms`, in order
    and none twice; no file outside the family has changed. -/
structure Endures (path : Str) (d d' : Disk Str Char) (ms : List Str) : Prop where
  chronicle : ∃ b, Holds path b d' ∧ Slots.Takes (ms.map line) (found path d) b
  outside : SameOutside (InFamily path) d d'

/-- RUN: whatever the family holds at the start, whichever removes, renames and opens fail in which
    step, and however often the strategy is changed or the program restarts, the family keeps whole
    lines in the order of the calls; and if the current file that was found had no open end, a
    message whose write leaves the stream open is the last line of its file. -/
theorem log_endures (flt : Faults) (path : Str) (rot : RotationStrategy) (w : World)
    (steps : List (Faults × LifeOp)) :
    Endures path w.disk (LifeOp.run steps (construct flt path rot w)).world.disk
      (LifeOp.written steps) ∧
    (CurrentEnded path w.disk → ∀ (flt' : Faults) (m : Str),
      LastLine path m ((LifeOp.run steps (construct flt path rot w)).write flt' m)) := by
  have ha₀ := atEnd_construct flt path rot w
  obtain ⟨b₀, hb₀, ht₀⟩ := holds_construct flt rot (holds_found path w.disk)
  obtain ⟨ha, hs, b, hb, ht⟩ := holds_run steps ha₀ hb₀
  have hs₀ : SameOutside (InFamily path) w.disk (construct flt path rot w).world.disk :=
    (sameOutside_construct flt path rot w).mono fun q hq => ⟨0, hq⟩
  refine ⟨⟨⟨b, hb, ht₀.trans ht⟩, hs₀.trans hs⟩, fun he flt' m => ?_⟩
  exact (ended_write flt' m ha (ended_run steps ha₀ (ended_construct flt rot he))).2

end FileLog

end GtLogging
