import GtLogging.FileDestination

/-! @src src/gt_logdestfile.cpp | layer:result | a rotation whose calls fail

    Within one `rotate` every remove and every rename call has its own arguments, so a pattern of
    failures is a choice for each path (`removeFails`) and each pair (`renameFails`). A backup that
    is still in its place when its name becomes the target is removed there: that is how a failed
    rename of one backup destroys it one iteration later. Nothing is lost, whatever the files
    hold, exactly when every such backup also refuses to be removed. -/

namespace GtLogging.Rotation
open SizeRotationStrategy

/-- Every content of the current file and of the backups below the count is found again. -/
def NothingLost (flt : Faults) (s : SizeRotationStrategy) (w : World) : Prop :=
  ∀ j < s.maxBackupsCount, ∀ c, w.disk.read (family s.fileName j) = some c →
    ∃ i ≤ s.maxBackupsCount, (s.rotate flt w).disk.read (family s.fileName i) = some c

/-- The same files exist, with any contents. -/
def SameNames (w w' : World) : Prop := ∀ p, (w'.disk.read p).isSome = (w.disk.read p).isSome

variable {flt : Faults} {path : Str} {n : ℕ} {d d' : Disk Str Char}

/-- Being blocked is a matter of which files exist, not of what they hold. -/
theorem blockedFrom_congr (h : ∀ p, (d'.read p).isSome = (d.read p).isSome) (k j : ℕ) :
    blockedFrom flt path d' k j = blockedFrom flt path d k j := by
  induction k generalizing j with
  | zero => exact h _
  | succ k ih => rw [blockedFrom, blockedFrom, h, ih]

/-- A file that is not blocked arrives one index higher. -/
theorem afterRotate_of_not_blocked {j : ℕ} {c : Str} (hj : j < n)
    (hc : d.read (family path j) = some c) (hb : blocked flt path n d j = false) :
    afterRotate flt path n d (j + 1) = some c := by
  rw [blocked_of_lt hj, hc] at hb
  simp only [Option.isSome_some, Bool.true_and, Bool.or_eq_false_iff] at hb
  rw [afterRotate, hb.1, hb.2, hc]
  simp

/-- A file that is blocked and cannot be removed stays. -/
theorem afterRotate_of_stuck {j : ℕ} (hb : blocked flt path n d j = true)
    (hrm : 1 ≤ j → flt.removeFails (family path j) = true) :
    afterRotate flt path n d j = d.read (family path j) := by
  cases j with
  | zero => rw [afterRotate, if_pos hb]
  | succ j => rw [afterRotate, hb, hrm (by omega)]; rfl

/-- Where a content can come from: its own index, if the file was stuck there, or the index below,
    if that file was not blocked. -/
theorem source_of_afterRotate {i : ℕ} {c : Str} (hi : i ≤ n)
    (h : afterRotate flt path n d i = some c) :
    (d.read (family path i) = some c ∧
      (1 ≤ i → blocked flt path n d i = true ∧ flt.removeFails (family path i) = true)) ∨
    ∃ k, i = k + 1 ∧ d.read (family path k) = some c ∧ blocked flt path n d k = false := by
  cases i with
  | zero =>
    rw [afterRotate] at h
    split_ifs at h
    exact Or.inl ⟨h, by omega⟩
  | succ k =>
    rw [afterRotate] at h
    split_ifs at h with hb hm
    · exact Or.inl ⟨h, fun _ => by simpa using hb⟩
    · refine Or.inr ⟨k, rfl, h, ?_⟩
      rw [blocked_of_lt hi, Bool.eq_false_of_not_eq_true hb, Bool.eq_false_of_not_eq_true hm]
      simp

/-- The files of `w`, where the file under `p` reads `"x"` and all others are empty. -/
def marked (w : World) (p : Str) : World :=
  { w with disk := { w.disk with data := fun i => if w.disk.names p = some i then ['x'] else [] } }

theorem sameNames_marked (w : World) (p : Str) : SameNames w (marked w p) :=
  fun q => by rw [Disk.isSome_read, Disk.isSome_read]; rfl

/-- The mark is found under its own name only. -/
theorem read_marked {w : World} {p q : Str} (h : (marked w p).disk.read q = some ['x']) :
    q = p := by
  obtain ⟨i, hi, hx⟩ := Option.map_eq_some_iff.mp h
  by_cases hp : w.disk.names p = some i
  · exact w.disk.inj q p i hi hp
  · simp [marked, hp] at hx

/-- EXACT: a rotation loses no content but the oldest backup's, whatever the files hold, iff every
    backup below the count that is blocked refuses to be removed. -/
theorem rotate_loses_nothing_iff (flt : Faults) (s : SizeRotationStrategy) (w : World)
    (hprobe : ∀ p, flt.probeFails p = false) (hn : 1 ≤ s.maxBackupsCount) :
    (∀ w', SameNames w w' → NothingLost flt s w') ↔
      ∀ j, 1 ≤ j → j < s.maxBackupsCount →
        blocked flt s.fileName s.maxBackupsCount w.disk j = true →
        flt.removeFails (family s.fileName j) = true := by
  constructor
  · intro h j hj hjn hb
    by_contra hrm
    have hbm : blocked flt s.fileName s.maxBackupsCount (marked w (family s.fileName j)).disk j
        = true := by
      rw [blocked, blockedFrom_congr (sameNames_marked w _), ← hb, blocked]
    have hread : (marked w (family s.fileName j)).disk.read (family s.fileName j) =
        some ['x'] := by
      have hsome := isSome_of_blocked hjn.le hb
      rw [Disk.isSome_read] at hsome
      obtain ⟨i, hi⟩ := Option.isSome_iff_exists.mp hsome
      simp [Disk.read, marked, hi]
    obtain ⟨i, hi, hc⟩ := h _ (sameNames_marked w (family s.fileName j)) j hjn _ hread
    rw [(rotate_spec flt rfl rfl hn hprobe).1 i hi] at hc
    rcases source_of_afterRotate hi hc with ⟨hsrc, hst⟩ | ⟨k, rfl, hsrc, hnb⟩
    · -- the mark stayed: then it was stuck
      obtain rfl := family_inj (read_marked hsrc)
      exact hrm (hst hj).2
    · -- the mark moved: then it was not blocked
      obtain rfl := family_inj (read_marked hsrc)
      rw [hbm] at hnb
      cases hnb
  · intro h w' hw' j hjn c hc
    have hcongr : ∀ i, blocked flt s.fileName s.maxBackupsCount w'.disk i =
        blocked flt s.fileName s.maxBackupsCount w.disk i := fun i => blockedFrom_congr hw' _ i
    have hspec := (rotate_spec flt (w := w') (s := s) rfl rfl hn hprobe).1
    cases hb : blocked flt s.fileName s.maxBackupsCount w'.disk j with
    | true =>
      refine ⟨j, hjn.le, ?_⟩
      rw [hspec j hjn.le, afterRotate_of_stuck hb, hc]
      exact fun h1 => h j h1 hjn (by rw [← hcongr, hb])
    | false =>
      exact ⟨j + 1, hjn, by rw [hspec (j + 1) hjn, afterRotate_of_not_blocked hjn hc hb]⟩

/-- A current file with two backups. -/
def threeFiles : World :=
  { disk := Disk.ofFiles [("log".toList, ['c']), ("log.1".toList, ['b']), ("log.2".toList, ['a'])] }

def twoBackups : SizeRotationStrategy := { fileName := "log".toList, maxBackupsCount := 2 }

/-- The rename of `log.1` fails: two steps later `log.1` is removed as the current file's target. -/
def firstRenameFails : Faults := { renameFails := fun o _ => o = "log.1".toList }

/-- If `log.1` cannot be removed either, it stays, and nothing is lost. -/
theorem rotate_loses_nothing_stuck :
    NothingLost { firstRenameFails with removeFails := fun p => p = "log.1".toList } twoBackups
      threeFiles := by
  refine (rotate_loses_nothing_iff _ _ threeFiles (fun _ => rfl) (by decide)).mpr ?_ _
    fun _ => rfl
  intro j hj hjn _
  obtain rfl : j = 1 := by
    change j < 2 at hjn
    omega
  decide

/-- COUNTEREXAMPLE: one failed rename loses the newest backup. -/
theorem rotate_loses_newest_backup : ¬ NothingLost firstRenameFails twoBackups threeFiles := by
  intro h
  obtain ⟨i, hi, hc⟩ := h 1 (by decide) ['b'] (by decide)
  change i ≤ 2 at hi
  interval_cases i <;> revert hc <;> decide

end GtLogging.Rotation
