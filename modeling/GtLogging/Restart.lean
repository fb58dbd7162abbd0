import GtLogging.FileDestination

/-! @src src/gt_logdestfile.h src/gt_logdestfile.cpp | layer:result | restarting on an existing log

    The class comment promises that `SizeRotationStrategy` "appends to existing file". The file is
    opened for append, but `setFileInfo` then measures it through an output stream opened with
    `ate | binary`, which the open-mode table turns into a truncating open. A restart is therefore
    transparent exactly when there was nothing to restart from. -/

namespace GtLogging.FileLog
open Rotation SizeRotationStrategy

/-- A fresh destination on `path` with a fresh strategy of the given parameters. -/
def fresh (path : Str) (maxFileSize : UInt64) (maxBackups : ℕ) (w : World) : FileLog :=
  construct Faults.none path (.size (.new maxFileSize maxBackups)) w

/-- Construct, write `ms₁`, destroy, and construct again. -/
def reopened (path : Str) (maxFileSize : UInt64) (maxBackups : ℕ) (w : World) (ms₁ : List Str) :
    FileLog :=
  fresh path maxFileSize maxBackups
    (writeAll Faults.none ms₁ (fresh path maxFileSize maxBackups w)).destroy

/-- The restarted run and the uninterrupted run leave the same family up to the backup count. -/
def SameContents (path : Str) (maxFileSize : UInt64) (maxBackups : ℕ) (w : World)
    (ms₁ ms₂ : List Str) : Prop :=
  ∀ i ≤ maxBackups,
    (writeAll Faults.none ms₂ (reopened path maxFileSize maxBackups w ms₁)).file path i =
      (writeAll Faults.none (ms₁ ++ ms₂) (fresh path maxFileSize maxBackups w)).file path i

/-- What a transparent restart promises. -/
structure RestartTransparent (path : Str) (maxFileSize : UInt64) (maxBackups : ℕ) (w : World)
    (ms₁ ms₂ : List Str) : Prop where
  sameContents : SameContents path maxFileSize maxBackups w ms₁ ms₂
  /-- Construction keeps every byte of the existing file. -/
  keepsBytes : (reopened path maxFileSize maxBackups w ms₁).file path 0 =
    (writeAll Faults.none ms₁ (fresh path maxFileSize maxBackups w)).file path 0
  /-- Construction counts those bytes towards the limit. -/
  countsBytes : ∀ c s,
    (writeAll Faults.none ms₁ (fresh path maxFileSize maxBackups w)).file path 0 = some c →
    (reopened path maxFileSize maxBackups w ms₁).rot = .size s →
    s.currentFileSizeInBytes = UInt64.ofNat c.length

variable {path : Str} {M : UInt64} {N : ℕ} {w : World}

/-- A file that is there and empty: opening and measuring it changes nothing. -/
theorem fresh_on_empty_file {i : ℕ} (hn : w.disk.names path = some i) (hd : w.disk.data i = []) :
    fresh path M N w =
      { dest := { fstream := some ⟨i, true, 0⟩, filePath := path }
        rot := .size { SizeRotationStrategy.new M N with fileName := path }
        world := w } := by
  have hsame : w.disk.setData i [] = w.disk := by rw [← hd, Disk.setData_self]
  simp [fresh, construct, RotationStrategy.openMode, RotationStrategy.setFileInfo, setFileInfo,
    openStream, Disk.openFile, openMode, measureMode, OpenMode.legal, OpenMode.keeps, hn, hd, hsame,
    SizeRotationStrategy.new]

/-- A file that is not there: it is created, and measuring it changes nothing. -/
theorem fresh_on_missing_file (hn : w.disk.names path = none) :
    fresh path M N w =
      { dest := { fstream := some ⟨w.disk.fresh, true, 0⟩, filePath := path }
        rot := .size { SizeRotationStrategy.new M N with fileName := path }
        world := { w with disk := w.disk.create path } } := by
  have hd : (w.disk.create path).data w.disk.fresh = [] := by simp [Disk.create]
  have hsame : (w.disk.create path).setData w.disk.fresh [] = w.disk.create path := by
    conv_lhs => rw [← hd]
    exact Disk.setData_self _ _
  simp [fresh, construct, RotationStrategy.openMode, RotationStrategy.setFileInfo, setFileInfo,
    openStream, Disk.openFile, openMode, measureMode, OpenMode.legal, OpenMode.keeps,
    OpenMode.mustExist, hn, hd, hsame, SizeRotationStrategy.new]

/-- Restarting before anything was written is the first start. -/
theorem reopened_nil (hempty : ∀ i, w.disk.read (family path i) = none) :
    reopened path M N w [] = fresh path M N w := by
  have hn : w.disk.names path = none := by
    have h := hempty 0
    simpa [Disk.read, family] using h
  have h₁ := fresh_on_missing_file (M := M) (N := N) hn
  rw [reopened, writeAll, List.foldl_nil, h₁, destroy]
  exact fresh_on_empty_file (by simp) (by simp [Disk.create])

/-- After at least one message the restart finds an empty file where a nonempty one was. -/
theorem reopened_loses (path : Str) (M : UInt64) (N : ℕ) (w : World) {ms₁ : List Str}
    (hms : ms₁ ≠ []) :
    ∃ c, c ≠ [] ∧
      (writeAll Faults.none ms₁ (fresh path M N w)).file path 0 = some c ∧
      (reopened path M N w ms₁).file path 0 = some [] := by
  have hl := live_construct Faults.none path rfl (.new M N) w
  obtain ⟨s, c, hl', hc⟩ := live_writeAll (Faults.none_openFails path) ms₁ hl
  refine ⟨c, hc (Or.inl hms), hl'.content, ?_⟩
  exact (live_construct Faults.none path rfl (.new M N) _).content

/-- EXACT: on a path with an empty family a restart is transparent, to any continuation, iff nothing
    was written before it; in particular only then do the contents agree for every continuation. -/
theorem restart_transparent_iff (path : Str) (M : UInt64) (N : ℕ) (w : World)
    (hempty : ∀ i, w.disk.read (family path i) = none) (ms₁ : List Str) :
    (∀ ms₂, RestartTransparent path M N w ms₁ ms₂ ↔ ms₁ = []) ∧
    ((∀ ms₂, SameContents path M N w ms₁ ms₂) ↔ ms₁ = []) := by
  have hnil : ∀ ms₂, RestartTransparent path M N w [] ms₂ := by
    intro ms₂
    have hre := reopened_nil (M := M) (N := N) hempty
    have hl := live_construct Faults.none path rfl (.new M N) w
    refine ⟨fun i _ => by rw [hre]; rfl, by rw [hre]; rfl, ?_⟩
    intro c s hc hs
    have hc' : some c = some [] := hc.symm.trans hl.content
    rw [hre] at hs
    cases hc'
    cases hl.rot.symm.trans hs
    rfl
  constructor
  · intro ms₂
    refine ⟨fun h => ?_, fun h => h ▸ hnil ms₂⟩
    by_contra hms
    obtain ⟨c, hc, hbefore, hafter⟩ := reopened_loses path M N w hms
    have hkeep := h.keepsBytes
    rw [hbefore, hafter, Option.some.injEq] at hkeep
    exact hc hkeep.symm
  · refine ⟨fun h => ?_, fun h ms₂ => h ▸ (hnil ms₂).sameContents⟩
    by_contra hms
    obtain ⟨c, hc, hbefore, hafter⟩ := reopened_loses path M N w hms
    have hsame := h [] 0 (Nat.zero_le _)
    rw [List.append_nil, hbefore] at hsame
    exact hc (Option.some.inj (hsame.symm.trans hafter))

/-- A restart before the first message goes unnoticed. -/
theorem restart_before_first_message :
    (∀ i, ({} : World).disk.read (family "log".toList i) = none) ∧
    RestartTransparent "log".toList 100 1 {} [] ["b".toList] :=
  ⟨fun _ => rfl, ((restart_transparent_iff "log".toList 100 1 {} (fun _ => rfl) []).1 _).mpr rfl⟩

/-- COUNTEREXAMPLE: the message written before the restart is gone after it. -/
theorem restart_loses_message :
    ¬ SameContents "log".toList 100 1 {} ["a".toList] ["b".toList] := by
  intro h
  have h0 := h 0 (by decide)
  revert h0
  decide

end GtLogging.FileLog
