import GtLogging.LineReader
import GtLogging.Endurance
import GtLogging.Retention

/-! @src src/gt_logdestfile.cpp src/gt_logformatter.h | layer:result | reading a log back

    A log file is cut at the new lines and every line is read as a default line. On records whose
    line is one line and canonical this inverts what the destination does, so that order and
    completeness of the files become statements about records: what is read back from the family,
    oldest file first, is a subsequence of what was logged, whichever removes, renames and opens
    failed in between and however often the program restarted. -/

namespace GtLogging
open LineReader

/-! ### A whole file -/

/-- The lines of a text, each of which must be terminated. -/
def splitLines : Str → Option (List Str)
  | [] => some []
  | c :: s =>
    if c = '\n' then (splitLines s).map ([] :: ·)
    else match splitLines s with
      | some (m :: ms) => some ((c :: m) :: ms)
      | _ => none

theorem splitLines_line {m : Str} (hm : '\n' ∉ m) (s : Str) :
    splitLines (line m ++ s) = (splitLines s).map (m :: ·) := by
  induction m with
  | nil => simp [line, splitLines]
  | cons c m ih =>
    obtain ⟨hc, hm'⟩ := not_or.mp (mt List.mem_cons.mpr hm)
    have hline : line (c :: m) ++ s = c :: (line m ++ s) := rfl
    rw [hline, splitLines, if_neg (Ne.symm hc), ih hm']
    cases splitLines s <;> rfl

/-- Splitting inverts `lines` on messages without a new line. -/
theorem splitLines_iff (s : Str) (ms : List Str) :
    splitLines s = some ms ↔ (∀ m ∈ ms, '\n' ∉ m) ∧ lines ms = s := by
  constructor
  · intro h
    induction s generalizing ms with
    | nil =>
      obtain rfl := Option.some.inj h
      simp
    | cons c s ih =>
      rw [splitLines] at h
      split_ifs at h with hc
      · obtain ⟨ns, hns, rfl⟩ := Option.map_eq_some_iff.mp h
        obtain ⟨hfree, rfl⟩ := ih ns hns
        refine ⟨by simpa using hfree, ?_⟩
        simp [lines, line, hc]
      · split at h
        · rename_i m ns hns
          obtain rfl := Option.some.inj h
          obtain ⟨hfree, rfl⟩ := ih _ hns
          rw [List.forall_mem_cons] at hfree ⊢
          refine ⟨⟨by simp [hfree.1, Ne.symm hc], hfree.2⟩, ?_⟩
          simp [lines, line]
        · cases h
  · rintro ⟨hfree, rfl⟩
    induction ms with
    | nil => rfl
    | cons m ms ih =>
      rw [List.forall_mem_cons] at hfree
      rw [lines, List.flatMap_cons, ← lines, splitLines_line hfree.1, ih hfree.2]
      rfl

/-- The records of a file of default lines. -/
def readFile (s : Str) : Option (List Record) := (splitLines s).bind (List.mapM readLine)

/-- A record whose default line is one line that can be read back. -/
structure Record.Readable (r : Record) : Prop extends r.Canonical where
  oneLine : '\n' ∉ r.text

theorem mapM_readLine_iff (ms : List Str) (rs : List Record) :
    ms.mapM readLine = some rs ↔ (∀ r ∈ rs, r.Canonical) ∧ rs.map Record.text = ms := by
  induction ms generalizing rs with
  | nil =>
    rw [List.mapM_nil]
    constructor
    · rintro ⟨⟩
      simp
    · rintro ⟨-, hnil⟩
      rw [List.map_eq_nil_iff.mp hnil]
      rfl
  | cons m ms ih =>
    rw [List.mapM_cons]
    constructor
    · intro h
      obtain ⟨r, hr, h⟩ := Option.bind_eq_some_iff.mp h
      obtain ⟨rs', hrs, h⟩ := Option.bind_eq_some_iff.mp h
      obtain rfl := Option.some.inj h
      obtain ⟨hcan, rfl⟩ := (readLine_iff m r).mp hr
      obtain ⟨hall, rfl⟩ := (ih rs').mp hrs
      exact ⟨List.forall_mem_cons.mpr ⟨hcan, hall⟩, rfl⟩
    · rintro ⟨hall, heq⟩
      cases rs with
      | nil => cases heq
      | cons r rs =>
        obtain ⟨rfl, rfl⟩ := List.cons.inj heq
        rw [List.forall_mem_cons] at hall
        have hhead := (readLine_iff _ r).mpr ⟨hall.1, rfl⟩
        have htail := (ih rs).mpr ⟨hall.2, rfl⟩
        simp only [hhead, htail]
        rfl

/-- A file is read back iff it is the file of readable records. -/
theorem readFile_iff (s : Str) (rs : List Record) :
    readFile s = some rs ↔ (∀ r ∈ rs, r.Readable) ∧ lines (rs.map Record.text) = s := by
  rw [readFile, Option.bind_eq_some_iff]
  constructor
  · rintro ⟨ms, hms, hrs⟩
    obtain ⟨hfree, rfl⟩ := (splitLines_iff s ms).mp hms
    obtain ⟨hcan, rfl⟩ := (mapM_readLine_iff ms rs).mp hrs
    refine ⟨fun r hr => ⟨hcan r hr, hfree _ (List.mem_map_of_mem hr)⟩, rfl⟩
  · rintro ⟨hall, rfl⟩
    refine ⟨rs.map Record.text, (splitLines_iff _ _).mpr ⟨?_, rfl⟩, ?_⟩
    · rintro _ hm
      obtain ⟨r, hr, rfl⟩ := List.mem_map.mp hm
      exact (hall r hr).oneLine
    · exact (mapM_readLine_iff _ rs).mpr ⟨fun r hr => (hall r hr).toCanonical, rfl⟩

/-! ### The family of a log -/

open Rotation
open FileLog (Holds Reads)

/-- The records of a file, which may be missing. -/
def readSlot (o : Option Str) : Option (List Record) := o.elim (some []) readFile

/-- The block a record leaves in a file. -/
def Record.block (r : Record) : Str := line r.text

/-- The record of a block. -/
def ofBlock (b : Str) : Option Record := readLine b.dropLast

theorem ofBlock_block {r : Record} (hr : r.Canonical) : ofBlock r.block = some r := by
  rw [ofBlock, Record.block, line, List.dropLast_concat]
  exact (readLine_iff _ r).mpr ⟨hr, rfl⟩

theorem filterMap_ofBlock {rs : List Record} (h : ∀ r ∈ rs, r.Readable) :
    (rs.map Record.block).filterMap ofBlock = rs := by
  rw [List.filterMap_map]
  refine (List.filterMap_congr fun r hr => ?_).trans List.filterMap_some
  exact ofBlock_block (h r hr).toCanonical

/-- Blocks of readable records, read as a file and one by one. -/
theorem readFile_flatten {bs : List Str}
    (h : ∀ b ∈ bs, ∃ r : Record, r.Readable ∧ b = r.block) :
    readFile bs.flatten = some (bs.filterMap ofBlock) := by
  have hex : ∃ rs : List Record, (∀ r ∈ rs, r.Readable) ∧ bs = rs.map Record.block := by
    induction bs with
    | nil => exact ⟨[], by simp⟩
    | cons b bs ih =>
      rw [List.forall_mem_cons] at h
      obtain ⟨⟨r, hr, rfl⟩, hbs⟩ := h
      obtain ⟨rs, hrs, rfl⟩ := ih hbs
      exact ⟨r :: rs, List.forall_mem_cons.mpr ⟨hr, hrs⟩, rfl⟩
  obtain ⟨rs, hrs, rfl⟩ := hex
  rw [filterMap_ofBlock hrs, readFile_iff]
  refine ⟨hrs, ?_⟩
  rw [lines, List.flatMap_map, List.flatMap]
  rfl

/-- Files that can be read hold the blocks of their records. -/
theorem reads_of_readSlot {o : Option Str} {rs : List Record} (h : readSlot o = some rs) :
    (∀ r ∈ rs, r.Readable) ∧ Reads o (rs.map Record.block) := by
  cases o with
  | none =>
    obtain rfl := Option.some.inj h
    exact ⟨by simp, Or.inl ⟨rfl, rfl⟩⟩
  | some c =>
    obtain ⟨hall, rfl⟩ := (readFile_iff c rs).mp h
    refine ⟨hall, Or.inr ?_⟩
    rw [lines, List.flatMap_map, List.flatMap]
    rfl

theorem readSlot_of_reads {o : Option Str} {bs : List Str}
    (h : ∀ b ∈ bs, ∃ r : Record, r.Readable ∧ b = r.block) (hr : Reads o bs) :
    readSlot o = some (bs.filterMap ofBlock) := by
  rcases hr with ⟨rfl, rfl⟩ | rfl
  · rfl
  · exact readFile_flatten h

/-- Blocks of readable records behind readable files: the files are readable, and what they hold
    is what was there and what came. -/
theorem exists_kept {path : Str} {d d' : Disk Str Char} {before : Slots Record} {b : Slots Str}
    {rs : List Record} (hbefore : ∀ i, readSlot (d.read (family path i)) = some (before i))
    (hrs : ∀ r ∈ rs, r.Readable) (hfiles : Holds path b d')
    (htakes : Slots.Takes (rs.map Record.block) (fun i => (before i).map Record.block) b) :
    ∃ kept : Slots Record, (∀ i, readSlot (d'.read (family path i)) = some (kept i)) ∧
      Slots.Takes rs before kept := by
  have hold := fun i => (reads_of_readSlot (hbefore i)).1
  -- every block on the disk is that of a readable record
  have hblocks : ∀ i, ∀ x ∈ b i, ∃ r : Record, r.Readable ∧ x = r.block := by
    intro i x hx
    rcases htakes.mem hx with ⟨j, hj⟩ | hnew
    · obtain ⟨r, hr, rfl⟩ := List.mem_map.mp hj
      exact ⟨r, hold j r hr, rfl⟩
    · obtain ⟨r, hr, rfl⟩ := List.mem_map.mp hnew
      exact ⟨r, hrs r hr, rfl⟩
  refine ⟨fun i => (b i).filterMap ofBlock, fun i => ?_, ?_⟩
  · exact readSlot_of_reads (hblocks i) (hfiles i)
  · have h := htakes.filterMap ofBlock
    simp only [filterMap_ofBlock hrs, filterMap_ofBlock (hold _)] at h
    exact h

/-- RUN: on a family of readable files, whichever removes, renames and opens fail in which step and
    however often the program restarts, if what is logged is readable every file can be read at
    every time, and the records in the files, read from the highest index down, are some of those
    that were there and then some of those logged since, in order and none twice. -/
theorem log_read_back (flt : Faults) (path : Str) (rot : RotationStrategy) (w : World)
    (before : Slots Record)
    (hbefore : ∀ i, readSlot (w.disk.read (family path i)) = some (before i))
    (steps : List (Faults × LifeOp)) (rs : List Record)
    (hsteps : LifeOp.written steps = rs.map Record.text) (hrs : ∀ r ∈ rs, r.Readable) :
    ∃ kept : Slots Record,
      (∀ i, readSlot ((LifeOp.run steps (.construct flt path rot w)).file path i) =
        some (kept i)) ∧ Slots.Takes rs before kept := by
  have hb : Holds path (fun i => (before i).map Record.block) w.disk :=
    fun i => (reads_of_readSlot (hbefore i)).2
  obtain ⟨b₀, hb₀, ht₀⟩ := FileLog.holds_construct flt rot hb
  obtain ⟨-, -, b, hfiles, ht⟩ :=
    FileLog.holds_run steps (FileLog.atEnd_construct flt path rot w) hb₀
  have htakes : Slots.Takes (rs.map Record.block) (fun i => (before i).map Record.block) b := by
    have h := ht₀.trans ht
    rwa [hsteps, List.map_map, List.nil_append] at h
  exact exists_kept hbefore hrs hfiles htakes

/-- A readable record. -/
def startedRecord : Record := ⟨"started".toList, .InfoLevel, ⟨"app".toList, noon⟩⟩

theorem readable_startedRecord : startedRecord.Readable :=
  ⟨⟨by decide, canonicalTail_of_clean (by decide) (by decide) _⟩, by decide⟩

/-- One record on an empty family. -/
theorem log_read_back_one_record :
    ∃ kept : Slots Record,
      (∀ i, readSlot ((LifeOp.run [(Faults.none, .call (.write startedRecord.text))]
        (.construct Faults.none "log".toList .null {})).file "log".toList i) = some (kept i)) ∧
      Slots.Takes [startedRecord] (fun _ => []) kept :=
  log_read_back Faults.none "log".toList .null {} (fun _ => []) (fun _ => rfl)
    [(Faults.none, .call (.write startedRecord.text))] [startedRecord] rfl
    (by simpa using readable_startedRecord)

/-! ### Undisturbed runs -/

open FileLog

theorem lines_text_drop {rs : List Record} {out kept : List Str}
    (h : rs.map Record.text = out ++ kept) : kept = (rs.drop out.length).map Record.text := by
  rw [List.map_drop, h, List.drop_left]

/-- EXACT: a run of readable records on an empty family, with one backup count and no failing call,
    reads back as exactly the records of the newest generations, which are all of them as long as
    no more generations were closed than there are backups. -/
theorem undisturbed_read_back (path : Str) (w : World) (maxFileSize : UInt64) (maxBackups : ℕ)
    (hempty : ∀ i, w.disk.read (family path i) = none) (ops : List FileOp)
    (hcount : ∀ op ∈ ops, countStep maxBackups op = maxBackups) (rs : List Record)
    (hops : FileOp.written ops = rs.map Record.text) (hrs : ∀ r ∈ rs, r.Readable) :
    let log := construct Faults.none path (.size (.new maxFileSize maxBackups)) w
    let past := (generations ops log {}).past
    readFile (readAll path (min maxBackups past.length) (FileOp.run Faults.none ops log)) =
      some (rs.drop (past.drop maxBackups).flatten.length) := by
  intro log past
  have ht := tracks_construct hempty (.new maxFileSize maxBackups)
  have h₀ : KeepsWindow path maxBackups {} [] log := ⟨_, _, ht, rfl, rfl, by simp, rfl⟩
  have hw := windowKept_of_keepsWindow (keepsWindow_run ops {} [] log hcount h₀)
  have hall : rs.map Record.text = (past.drop maxBackups).reverse.flatten ++
      ((past.take maxBackups).reverse.flatten ++ (generations ops log {}).current) := by
    rw [← hops, ← List.append_assoc, ← List.flatten_append, ← List.reverse_append,
      List.take_append_drop]
    exact hw.all
  have hlen : (past.drop maxBackups).reverse.flatten.length =
      (past.drop maxBackups).flatten.length := by
    simp [List.length_flatten, List.sum_reverse]
  rw [hw.reads, lines_text_drop hall, hlen, readFile_iff]
  exact ⟨fun r hr => hrs r (List.mem_of_mem_drop hr), rfl⟩

/-- Two records, one backup, a limit of one byte: both are read back. -/
theorem undisturbed_read_back_two_records :
    let log := construct Faults.none "log".toList (.size (.new 1 1)) {}
    let ops := [FileOp.write startedRecord.text, FileOp.write startedRecord.text]
    readFile (readAll "log".toList (min 1 (generations ops log {}).past.length)
      (FileOp.run Faults.none ops log)) =
      some ([startedRecord, startedRecord].drop
        ((generations ops log {}).past.drop 1).flatten.length) :=
  undisturbed_read_back "log".toList {} 1 1 (fun _ => rfl)
    [.write startedRecord.text, .write startedRecord.text] (by simp [countStep])
    [startedRecord, startedRecord] rfl (by simpa using readable_startedRecord)

end GtLogging
