import GtLogging.FileDestination

/-! @src src/gt_logdestfile.cpp | layer:spec | a destination and its own file

    `Own` says that a destination and its strategy are about one file: the stream is on the file of
    the path, and a size strategy names it. Construction establishes it, every write keeps it and
    touches nothing outside the family of the path, and it survives whatever happens to other files,
    whichever file operations fail. `Counted` adds that a size strategy counts the bytes of the
    file: for that, whatever was opened must have been measured as well. -/

namespace GtLogging.FileLog
open Rotation SizeRotationStrategy
open Disk (SameOutside)

variable {flt : Faults} {path : Str} {s : SizeRotationStrategy} {c : Str} {log : FileLog}

/-! ### A destination and its own file -/

/-- No measuring stream fails alone. -/
def Measures (flt : Faults) : Prop := ∀ p, flt.measureFails p = true → flt.openFails p = true

theorem measures_none : Measures Faults.none := by
  rintro p ⟨⟩

theorem Measures.measured (hm : Measures flt) (hf : flt.openFails path = false) :
    flt.measureFails path = false := by
  rw [← Bool.not_eq_true]
  intro h
  rw [hm path h] at hf
  cases hf

/-- The names of the family. -/
def InFamily (path q : Str) : Prop := ∃ i, q = family path i

/-- The stream, when open, is on the file of `path`, and a size strategy names that file. -/
structure Own (path : Str) (log : FileLog) : Prop where
  filePath : log.dest.filePath = path
  fileName : ∀ s, log.rot = .size s → s.fileName = path
  stream : ∀ h, log.dest.fstream = some h → log.world.disk.names path = some h.inode

/-- An open stream appends, and a size strategy counts the bytes of its file. -/
structure Counted (path : Str) (log : FileLog) : Prop extends Own path log where
  counter : ∀ h s, log.dest.fstream = some h → log.rot = .size s → h.app = true ∧
    s.currentFileSizeInBytes = UInt64.ofNat (log.world.disk.data h.inode).length

theorem own_of_attached (ha : Attached path s log)
    (hst : ∀ h, log.dest.fstream = some h → log.world.disk.names path = some h.inode) :
    Own path log := by
  refine ⟨ha.filePath, ?_, hst⟩
  intro s' hs'
  obtain rfl := RotationStrategy.size.inj (ha.rot.symm.trans hs')
  exact ha.name

theorem counted_of_live (hl : Live path s c log)
    (hcount : s.currentFileSizeInBytes = UInt64.ofNat c.length) : Counted path log := by
  refine ⟨own_of_attached hl.toAttached hl.names, ?_⟩
  intro h' s' hh' hs'
  obtain ⟨h, hh, happ, hn⟩ := hl.stream
  obtain rfl := Option.some.inj (hh.symm.trans hh')
  obtain rfl := RotationStrategy.size.inj (hl.rot.symm.trans hs')
  have hread := hl.content
  rw [Disk.read_of_names hn] at hread
  rw [Option.some.inj hread]
  exact ⟨happ, hcount⟩

/-- A stream that is not open counts nothing. -/
theorem counted_of_closed (ho : Own path log) (hst : log.dest.fstream = none) :
    Counted path log := by
  refine ⟨ho, ?_⟩
  intro h _ hh
  rw [hst] at hh
  cases hh

/-- A destination that never rotates: only the stream matters. -/
theorem own_of_null (hpath : log.dest.filePath = path) (hrot : log.rot = .null)
    (hst : ∀ h, log.dest.fstream = some h → log.world.disk.names path = some h.inode) :
    Own path log := by
  refine ⟨hpath, ?_, hst⟩
  intro s hs
  rw [hrot] at hs
  cases hs

/-- A size strategy whose stream could not be opened. -/
theorem construct_size_closed (hf : flt.openFails path = true) (s : SizeRotationStrategy)
    (w : World) : (construct flt path (.size s) w).dest.fstream = none := by
  rw [construct, openStream, if_pos hf]

theorem own_construct (flt : Faults) (path : Str) (rot : RotationStrategy) (w : World) :
    Own path (construct flt path rot w) := by
  cases rot with
  | null =>
    refine own_of_null rfl rfl ?_
    intro h hh
    have ho : openStream flt.openFails path RotationStrategy.null.openMode w = (some h, _) :=
      Prod.ext hh rfl
    rw [construct, ho]
    exact names_openStream ho
  | size s =>
    refine own_of_attached (attached_construct flt path s w) ?_
    cases hf : flt.openFails path with
    | false => exact (live_construct flt path hf s w).names
    | true =>
      intro h hh
      rw [construct_size_closed hf] at hh
      cases hh

theorem counted_construct (hm : Measures flt) (path : Str) (rot : RotationStrategy) (w : World) :
    Counted path (construct flt path rot w) := by
  cases rot with
  | null => exact ⟨own_construct flt path .null w, fun _ _ _ hs => by cases hs⟩
  | size s =>
    cases hf : flt.openFails path with
    | false =>
      have hl := live_construct flt path hf s w
      rw [leftover_measured (hm.measured hf)] at hl
      exact counted_of_live hl rfl
    | true => exact counted_of_closed (own_construct flt path _ w) (construct_size_closed hf s w)

theorem rot_put {m : Str} {s' : SizeRotationStrategy} (hs' : (log.put m).rot = .size s') :
    ∃ s, log.rot = .size s ∧ s' = s.appendMessageSize (m.length + 1) := by
  rw [put] at hs'
  cases hr : log.rot with
  | null => rw [hr] at hs'; cases hs'
  | size s =>
    rw [hr] at hs'
    exact ⟨s, rfl, (RotationStrategy.size.inj hs').symm⟩

theorem fstream_put {m : Str} {h' : Handle} (hh' : (log.put m).dest.fstream = some h') :
    ∃ h, log.dest.fstream = some h ∧ h'.inode = h.inode ∧ h'.app = h.app ∧
      (log.put m).world.disk = (log.world.disk.write '\x00' h (m ++ ['\n'])).2 := by
  rw [put] at hh' ⊢
  cases hl : log.dest.fstream with
  | none => rw [hl] at hh'; cases hh'
  | some h =>
    rw [hl] at hh'
    obtain rfl := Option.some.inj hh'
    exact ⟨h, rfl, rfl, rfl, rfl⟩

theorem own_put (m : Str) (ho : Own path log) : Own path (log.put m) := by
  refine ⟨ho.filePath, ?_, ?_⟩
  · -- fileName
    intro s' hs'
    obtain ⟨s, hs, rfl⟩ := rot_put hs'
    exact ho.fileName s hs
  · -- stream
    intro h' hh'
    obtain ⟨h, hl, hi, -, hd⟩ := fstream_put hh'
    rw [hd, hi]
    exact ho.stream h hl

theorem counted_put (m : Str) (ho : Counted path log) : Counted path (log.put m) := by
  refine ⟨own_put m ho.toOwn, ?_⟩
  intro h' s' hh' hs'
  obtain ⟨s, hs, rfl⟩ := rot_put hs'
  obtain ⟨h, hl, hi, happ, hd⟩ := fstream_put hh'
  obtain ⟨happ', hc⟩ := ho.counter h s hl hs
  refine ⟨happ.trans happ', ?_⟩
  rw [hd, hi, Disk.write_app _ _ happ', appendMessageSize, hc]
  simp [Disk.setData, UInt64.ofNat_add]

/-- A write that does not just put its message rotates the destination's own files. -/
theorem Own.write_cases (flt : Faults) (m : Str) (ho : Own path log) :
    log.write flt m = log.put m ∨ ∃ s, Attached path s log ∧ s.shouldRotate = true := by
  cases hrot : log.rot with
  | null =>
    refine Or.inl ?_
    rw [write, hrot, RotationStrategy.shouldRotate, if_neg Bool.false_ne_true]
  | size s =>
    cases hr : s.shouldRotate with
    | false =>
      refine Or.inl ?_
      rw [write, hrot, RotationStrategy.shouldRotate, hr, if_neg Bool.false_ne_true]
    | true => exact Or.inr ⟨s, ⟨hrot, ho.fileName s hrot, ho.filePath⟩, hr⟩

/-- A write that rotates and cannot reopen leaves the stream closed. -/
theorem write_closed (m : Str) (ha : Attached path s log) (hr : s.shouldRotate = true)
    (hf : flt.openFails path = true) : (log.write flt m).dest.fstream = none := by
  simp [write, ha.rot, ha.filePath, RotationStrategy.shouldRotate, hr, openStream, hf]

/-- STEP: a write keeps the destination on its own file, whatever fails. -/
theorem own_write (flt : Faults) (m : Str) (ho : Own path log) : Own path (log.write flt m) := by
  rcases ho.write_cases flt m with heq | ⟨s, ha, hr⟩
  · rw [heq]
    exact own_put m ho
  · cases hf : flt.openFails path with
    | false =>
      have hl := (live_write_rotate flt m ha hr hf).1
      exact own_of_attached hl.toAttached hl.names
    | true =>
      refine own_of_attached (write_unopened m ha hr hf).1 fun h hh => ?_
      rw [write_closed m ha hr hf] at hh
      cases hh

/-- STEP: the count stays exact if what is opened is measured. -/
theorem counted_write (hm : Measures flt) (m : Str) (ho : Counted path log) :
    Counted path (log.write flt m) := by
  rcases ho.write_cases flt m with heq | ⟨s, ha, hr⟩
  · rw [heq]
    exact counted_put m ho
  · cases hf : flt.openFails path with
    | false =>
      have hl := (live_write_rotate flt m ha hr hf).1
      rw [leftover_measured (hm.measured hf), List.nil_append] at hl
      exact counted_of_live hl (by simp [appendMessageSize, line])
    | true => exact counted_of_closed (own_write flt m ho.toOwn) (write_closed m ha hr hf)

/-- FRAME: a destination on its own file writes to its own family only, whatever fails. -/
theorem sameOutside_write (flt : Faults) (m : Str) (ho : Own path log) :
    SameOutside (InFamily path) log.world.disk (log.write flt m).world.disk := by
  have hself : ∀ q, q = path → InFamily path q := fun q hq => ⟨0, hq⟩
  rcases ho.write_cases flt m with heq | ⟨s, ha, hr⟩
  · rw [heq]
    exact (sameOutside_put m ho.stream).mono hself
  · have hrotate := sameOutside_rotate flt s log.world
    rw [ha.name] at hrotate
    cases hf : flt.openFails path with
    | false => exact hrotate.trans ((live_write_rotate flt m ha hr hf).2.mono hself)
    | true =>
      rw [(write_unopened m ha hr hf).2]
      exact hrotate

/-- What happens outside leaves a destination on its own file. -/
theorem own_frame {P : Str → Prop} {w' : World} (hs : SameOutside P log.world.disk w'.disk)
    (hp : ¬ P path) (ho : Own path log) : Own path { log with world := w' } :=
  ⟨ho.filePath, ho.fileName, fun h hh => (hs.names path hp).trans (ho.stream h hh)⟩

theorem counted_frame {P : Str → Prop} {w' : World} (hs : SameOutside P log.world.disk w'.disk)
    (hp : ¬ P path) (ho : Counted path log) : Counted path { log with world := w' } := by
  refine ⟨own_frame hs hp ho.toOwn, ?_⟩
  intro h s hh hrot
  rw [hs.data path h.inode hp (ho.stream h hh)]
  exact ho.counter h s hh hrot

/-- What a destination keeps about its own file if the failures are `ok`. -/
structure KeepsOwn (ok : Faults → Prop) (K : Str → FileLog → Prop) : Prop where
  own : ∀ {path log}, K path log → Own path log
  construct : ∀ {flt}, ok flt → ∀ path rot w, K path (construct flt path rot w)
  write : ∀ {flt path log}, ok flt → ∀ m, K path log → K path (log.write flt m)
  frame : ∀ {path log} {P : Str → Prop} {w' : World}, SameOutside P log.world.disk w'.disk →
    ¬ P path → K path log → K path { log with world := w' }

theorem keeps_own : KeepsOwn (fun _ => True) Own :=
  ⟨id, fun _ => own_construct _, fun _ m => own_write _ m, own_frame⟩

theorem keeps_counted : KeepsOwn Measures Counted :=
  ⟨Counted.toOwn, counted_construct, counted_write, counted_frame⟩

/-! ### Staying open -/

theorem isSome_openStream {p : Str} (hf : flt.openFails p = false) (rot : RotationStrategy)
    (w : World) : (openStream flt.openFails p rot.openMode w).1.isSome = true := by
  cases rot with
  | null =>
    obtain ⟨h, d, ho, -, -⟩ := w.disk.openFile_truncates p (m := RotationStrategy.null.openMode)
      rfl rfl rfl
    simp [openStream, hf, ho]
  | size s =>
    obtain ⟨h, d, ho, -, -⟩ := w.disk.openFile_keeps p (m := openMode) rfl rfl rfl
    simp [openStream, hf, RotationStrategy.openMode, ho]

theorem isValid_construct {p : Str} (hf : flt.openFails p = false) (rot : RotationStrategy)
    (w : World) : (construct flt p rot w).isValid = true :=
  isSome_openStream hf rot w

theorem isValid_put (m : Str) (hv : log.isValid = true) : (log.put m).isValid = true := by
  obtain ⟨h, hh⟩ := Option.isSome_iff_exists.mp hv
  rw [isValid, put, hh]
  rfl

theorem isValid_write (m : Str) (hf : flt.openFails log.dest.filePath = false)
    (hv : log.isValid = true) : (log.write flt m).isValid = true := by
  have ho := isSome_openStream hf log.rot (log.rot.rotate flt log.world)
  rw [write]
  split_ifs
  · simp only [ho, if_true]
    exact isValid_put m ho
  · exact isValid_put m hv

/-! ### A destination that never rotates -/

theorem rot_null_construct (flt : Faults) (p : Str) (w : World) :
    (construct flt p .null w).rot = .null := rfl

theorem rot_null_write (flt : Faults) (m : Str) (hrot : log.rot = .null) :
    (log.write flt m).rot = .null := by
  rw [write, hrot, RotationStrategy.shouldRotate, if_neg Bool.false_ne_true, put, hrot]
  rfl

end GtLogging.FileLog
