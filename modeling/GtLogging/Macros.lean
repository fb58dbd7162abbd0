import GtLogging.Gating

/-! @src src/gt_logging.h, src/gt_logstream.h | layer:model,spec,refinement,result | the
    meaning of a statement

    The defines of a translation unit put operations in front of every statement: a line number,
    `quote()`, `nospace()`. Without manipulators, a statement means what a recursion over its
    operations says that knows no formatting state and no saver: the text is made of rendered values
    and spaces, and what an operation sets in a saver's scope ends with the scope. With them, a line
    number still only adds its text in front. -/

namespace GtLogging
open Iostream StreamOp StreamStateSaver

/-! ### The defines -/

/-- `GT_LOG_LINE_NUMBERS` with the place of the statement, `GT_LOG_QUOTE` and `GT_LOG_NOSPACE`. -/
structure GlobalDefines where
  lineNumbers : Option (Str × ℕ) := none
  quote : Bool := false
  nospace : Bool := false

/-- `__FILE__ "@" GT_LOG_TO_STR(__LINE__) ":"`. -/
def lineLiteral (file : Str) (line : ℕ) : Str := file ++ ['@'] ++ stdToString line ++ [':']

namespace GlobalDefines

def lineNumberOps (defs : GlobalDefines) : List StreamOp :=
  match defs.lineNumbers with
  | some (file, line) => [.value (.cstring (lineLiteral file line))]
  | none => []

/-- `GT_LOG_IMPL_APPLY_FLAGS`. -/
def applyFlags (defs : GlobalDefines) : List StreamOp :=
  defs.lineNumberOps ++ (if defs.quote then [.quote] else []) ++
    (if defs.nospace then [.nospace] else [])

end GlobalDefines

/-- The statement as the macros expand it. -/
def LogStatement.expand (defs : GlobalDefines) (st : LogStatement) : LogStatement :=
  { st with ops := defs.applyFlags ++ st.ops }

/-! ### Meaning -/

/-- What a stream remembers between two operations, formatting aside. -/
structure Mode where
  space : Bool := true
  quote : Bool := false
  vlevel : ℤ := Silent

def Stream.mode (s : Stream) : Mode := ⟨s.spaceFlag, s.quoteFlag, s.vlevel⟩

mutual

/-- REFERENCE: the text of an operation, and the mode after it. -/
def denote (verbosity : ℤ) : StreamOp → Mode → Str × Mode
  | .value t, m =>
    (if m.vlevel ≤ verbosity then render m.quote t ++ spaceIf m.space
      else if t.isPointer then spaceIf m.space else [], m)
  | .space, m => ([], { m with space := true })
  | .nospace, m => ([], { m with space := false })
  | .quote, m => ([], { m with quote := true })
  | .noquote, m => ([], { m with quote := false })
  | .verbose level, m => ([], { m with vlevel := level })
  | .ostream written, m => (if m.vlevel ≤ verbosity then written else [], m)
  | .saver scope, m => ((denoteAll verbosity scope m).1, m)
  | .manip _, m | .setw _, m | .setprecision _, m => ([], m)

def denoteAll (verbosity : ℤ) : List StreamOp → Mode → Str × Mode
  | [], m => ([], m)
  | op :: ops, m =>
    ((denote verbosity op m).1 ++ (denoteAll verbosity ops (denote verbosity op m).2).1,
      (denoteAll verbosity ops (denote verbosity op m).2).2)

/-- No operation that changes how later ones are formatted, under a saver either. -/
def StreamOp.keepsFormat : StreamOp → Bool
  | .manip _ | .setw _ | .setprecision _ => false
  | .saver scope => keepFormat scope
  | .value _ | .space | .nospace | .quote | .noquote | .verbose _ | .ostream _ => true

def keepFormat : List StreamOp → Bool
  | [] => true
  | op :: ops => op.keepsFormat && keepFormat ops

end

/-- The defines set the mode a statement starts in. -/
def GlobalDefines.mode (defs : GlobalDefines) : Mode :=
  { space := !defs.nospace, quote := defs.quote }

/-- The line number of a statement, if it is printed. -/
def GlobalDefines.lineNumber (defs : GlobalDefines) (verbosity : ℤ) : Str :=
  match defs.lineNumbers with
  | some (file, line) => if Silent ≤ verbosity then lineLiteral file line ++ [' '] else []
  | none => []

/-- REFERENCE: what a statement delivers. -/
def LogStatement.meaning (defs : GlobalDefines) (g : Settings) (st : LogStatement) :
    Option Message :=
  let d := denoteAll g.verbosity st.ops defs.mode
  let text := defs.lineNumber g.verbosity ++ d.1
  if levelToInt g.level ≤ levelToInt st.level ∧ d.2.vlevel ≤ g.verbosity ∧ text ≠ [] then
    some ⟨text, st.id, st.level⟩
  else none

/-! ### The stream and the reference -/

variable {v : ℤ} {s s' : Stream}

/-- SIMULATION: an operation of a plain stream does what the reference says. -/
structure Denotes (d : Str × Mode) (s s' : Stream) : Prop where
  text : s'.text = s.text ++ d.1
  mode : s'.mode = d.2
  plain : Plain s'.ios

theorem denotes_log (hs : Plain s.ios) (t : Value) :
    Denotes (denote v (.value t) s.mode) s (s.log v t) := by
  obtain ⟨htext, hplain, hspace, hquote, hlevel⟩ := log_text v hs t
  refine ⟨?_, ?_, hplain⟩
  · rw [htext, denote]
    by_cases hle : s.vlevel ≤ v
    · simp [Stream.mayLog, Stream.mode, hle]
    · simp [Stream.mayLog, Stream.mode, hle]
  · rw [Stream.mode, hspace, hquote, hlevel, denote]
    rfl

/-- An operation that only sets the mode. -/
theorem Denotes.quiet {m : Mode} (hs : Plain s.ios) (htext : s'.text = s.text)
    (hios : s'.ios = s.ios) (hmode : s'.mode = m) : Denotes ([], m) s s' :=
  ⟨by rw [htext, List.append_nil], hmode, by rwa [hios]⟩

theorem denotes_ostream (hs : Plain s.ios) (written : Str) :
    Denotes (denote v (.ostream written) s.mode) s (exec v (.ostream written) s) := by
  rw [denote, exec]
  by_cases hle : s.vlevel ≤ v
  · rw [Stream.mayLog, decide_eq_true hle, if_pos rfl]
    exact ⟨by rw [Stream.mode, if_pos hle], rfl, hs⟩
  · rw [Stream.mayLog, decide_eq_false hle, if_neg Bool.false_ne_true]
    exact ⟨by rw [Stream.mode, if_neg hle, List.append_nil], rfl, hs⟩

/-- A scope ends in the mode it began in. -/
theorem denotes_saver (hs : Plain s.ios) {d : Str × Mode} (h : Denotes d s s') :
    Denotes (d.1, s.mode) s ((new s).destroy s') :=
  ⟨h.text, rfl, plain_setf h.plain hs.flags⟩

mutual

/-- STEP: every operation but a manipulator does what the reference says. -/
theorem denotes_exec : ∀ (op : StreamOp) {s : Stream}, op.keepsFormat = true → Plain s.ios →
    Denotes (denote v op s.mode) s (op.exec v s)
  | .value t, s, _, hs => by rw [exec]; exact denotes_log hs t
  | .space, s, _, hs => by rw [exec, denote]; exact .quiet hs rfl rfl rfl
  | .nospace, s, _, hs => by rw [exec, denote]; exact .quiet hs rfl rfl rfl
  | .quote, s, _, hs => by rw [exec, denote]; exact .quiet hs rfl rfl rfl
  | .noquote, s, _, hs => by rw [exec, denote]; exact .quiet hs rfl rfl rfl
  | .verbose level, s, _, hs => by rw [exec, denote]; exact .quiet hs rfl rfl rfl
  | .ostream written, s, _, hs => denotes_ostream hs written
  | .saver scope, s, hop, hs => by
    rw [keepsFormat] at hop
    rw [exec, denote]
    exact denotes_saver hs (denotes_run scope hop hs)
  | .manip m, _, hop, _ => by simp [keepsFormat] at hop
  | .setw n, _, hop, _ => by simp [keepsFormat] at hop
  | .setprecision n, _, hop, _ => by simp [keepsFormat] at hop

/-- RUN: so does every sequence of them. -/
theorem denotes_run : ∀ (ops : List StreamOp) {s : Stream}, keepFormat ops = true → Plain s.ios →
    Denotes (denoteAll v ops s.mode) s (run v ops s)
  | [], s, _, hs => by rw [run, denoteAll]; exact .quiet hs rfl rfl rfl
  | op :: ops, s, hops, hs => by
    rw [keepFormat, Bool.and_eq_true] at hops
    rw [run, denoteAll]
    have hfirst := denotes_exec op hops.1 hs
    have hrest := denotes_run ops hops.2 hfirst.plain
    rw [hfirst.mode] at hrest
    exact ⟨by rw [hrest.text, hfirst.text, List.append_assoc], hrest.mode, hrest.plain⟩

end

/-! ### Expanded statements -/

/-- The stream after the defines: a line number in it, the mode set. -/
theorem denotes_applyFlags (v : ℤ) (defs : GlobalDefines) :
    Denotes (defs.lineNumber v, defs.mode) {} (run v defs.applyFlags {}) := by
  have hkeep : keepFormat defs.applyFlags = true := by
    obtain ⟨_ | ⟨file, line⟩, quote, nospace⟩ := defs <;> cases quote <;> cases nospace <;> rfl
  have hmeans : denoteAll v defs.applyFlags (Stream.mode {}) = (defs.lineNumber v, defs.mode) := by
    obtain ⟨_ | ⟨file, line⟩, quote, nospace⟩ := defs <;> cases quote <;> cases nospace <;>
      simp [GlobalDefines.applyFlags, GlobalDefines.lineNumberOps, GlobalDefines.lineNumber,
        GlobalDefines.mode, Stream.mode, denoteAll, denote, render, spaceIf, Value.isPointer]
  rw [← hmeans]
  exact denotes_run defs.applyFlags hkeep ⟨Or.inl rfl, rfl, rfl⟩

/-- SPEC of a statement without manipulators. -/
theorem delivered_eq_meaning (defs : GlobalDefines) (g : Settings) (st : LogStatement)
    (hst : keepFormat st.ops = true) : (st.expand defs).delivered g = st.meaning defs g := by
  have hflags := denotes_applyFlags g.verbosity defs
  have hops := denotes_run (v := g.verbosity) st.ops hst hflags.plain
  rw [hflags.mode] at hops
  have htext : (run g.verbosity (st.expand defs).ops {}).str =
      defs.lineNumber g.verbosity ++ (denoteAll g.verbosity st.ops defs.mode).1 := by
    rw [LogStatement.expand, run_append, Stream.str, hops.text, hflags.text]
    rfl
  have hmay : (run g.verbosity (st.expand defs).ops {}).mayLog g.verbosity =
      decide ((denoteAll g.verbosity st.ops defs.mode).2.vlevel ≤ g.verbosity) := by
    rw [LogStatement.expand, run_append, ← hops.mode]
    rfl
  rw [LogStatement.delivered, writeToLog, hmay, htext, LogStatement.meaning]
  simp only [decide_eq_true_eq, LogStatement.expand, ite_and, ne_eq, ite_not]

/-- The same operations in a log-once macro, which tests the level as well. -/
def LogStatement.once (st : LogStatement) : Statement :=
  { level := st.level, id := st.id, body := fun verbosity s => run verbosity st.ops s }

theorem eligible_once (g : Settings) (st : LogStatement) :
    g.eligible st.once = st.delivered g := by
  have hgate : g.passesLevel st.once = decide (levelToInt g.level ≤ levelToInt st.level) := rfl
  rw [Settings.eligible, hgate, LogStatement.delivered]
  simp only [decide_eq_true_eq]
  rfl

/-- MEANING: under any defines and settings, a statement without manipulators delivers what the
    reference says, and its log-once form is eligible for the same: nothing below the logging
    level, at a verbosity level above that of the logger, or without a text, and else its line
    number and its rendered values. -/
theorem macros_mean (defs : GlobalDefines) (g : Settings) (st : LogStatement)
    (hst : keepFormat st.ops = true) :
    (st.expand defs).delivered g = st.meaning defs g ∧
      g.eligible (st.expand defs).once = st.meaning defs g :=
  ⟨delivered_eq_meaning defs g st hst,
    (eligible_once g _).trans (delivered_eq_meaning defs g st hst)⟩

/-- A nested vector with a pointer, and a scope, under all three defines. -/
def mixedStatement : LogStatement where
  level := .ErrorLevel
  ops := [.value (.int .int 7), .saver [.space, .noquote, .value (.string ['a'])],
    .value (.vector [.string ['b'], .pointer 255]), .verbose Silent]

theorem macros_mean_mixed :
    (mixedStatement.expand ⟨some ("m.cpp".toList, 12), true, true⟩).delivered {} =
      some ⟨"m.cpp@12: 7a (\"b\", 0xff)".toList, [], .ErrorLevel⟩ :=
  (macros_mean ⟨some ("m.cpp".toList, 12), true, true⟩ {} mixedStatement (by decide)).1.trans
    (by decide)

/-! ### Line numbers -/

namespace Stream

/-- The stream with a text in front. -/
def prefixed (p : Str) (s : Stream) : Stream := { s with text := p ++ s.text }

@[simp] theorem mayLog_prefixed (p : Str) (s : Stream) : (s.prefixed p).mayLog v = s.mayLog v := rfl

theorem emit_prefixed (p : Str) (as : List Atom) :
    (s.prefixed p).emit as = (s.emit as).prefixed p := by
  simp [emit, prefixed]

theorem log_prefixed (p : Str) (t : Value) : (s.prefixed p).log v t = (s.log v t).prefixed p := by
  cases hmay : s.mayLog v with
  | true =>
    rw [log_eq t hmay, log_eq t ((mayLog_prefixed p s).trans hmay), emit_prefixed]
    rfl
  | false =>
    rw [log_suppressed t hmay, log_suppressed t ((mayLog_prefixed p s).trans hmay),
      doLogSpace_eq, doLogSpace_eq, emit_prefixed]
    split_ifs <;> rfl

end Stream

mutual

/-- STEP: no operation looks at the text before it. -/
theorem exec_prefixed (p : Str) : ∀ (op : StreamOp) (s : Stream),
    op.exec v (s.prefixed p) = (op.exec v s).prefixed p
  | .value t, s => by rw [exec, exec, Stream.log_prefixed]
  | .space, s => by rw [exec, exec]; rfl
  | .nospace, s => by rw [exec, exec]; rfl
  | .quote, s => by rw [exec, exec]; rfl
  | .noquote, s => by rw [exec, exec]; rfl
  | .verbose level, s => by rw [exec, exec]; rfl
  | .manip m, s => by rw [exec, exec, Stream.mayLog_prefixed]; cases s.mayLog v <;> rfl
  | .setw n, s => by rw [exec, exec, Stream.mayLog_prefixed]; cases s.mayLog v <;> rfl
  | .setprecision n, s => by rw [exec, exec, Stream.mayLog_prefixed]; cases s.mayLog v <;> rfl
  | .ostream written, s => by
    rw [exec, exec, Stream.mayLog_prefixed]
    cases s.mayLog v with
    | true => simp [Stream.prefixed]
    | false => rfl
  | .saver scope, s => by
    rw [exec, exec, run_prefixed p scope s]
    rfl

/-- RUN: nor does a sequence of them. -/
theorem run_prefixed (p : Str) : ∀ (ops : List StreamOp) (s : Stream),
    run v ops (s.prefixed p) = (run v ops s).prefixed p
  | [], s => by rw [run, run]
  | op :: ops, s => by rw [run, run, exec_prefixed p op s, run_prefixed p ops _]

end

/-- A message of the statement, unless the text is empty. -/
def LogStatement.say (st : LogStatement) (text : Str) : Option Message :=
  if text = [] then none else some ⟨text, st.id, st.level⟩

theorem LogStatement.say_eq_some {st : LogStatement} {text : Str} {m : Message} :
    st.say text = some m ↔ text ≠ [] ∧ ⟨text, st.id, st.level⟩ = m := by
  simp [LogStatement.say]

theorem LogStatement.say_eq_none {st : LogStatement} {text : Str} :
    st.say text = none ↔ text = [] := by
  simp [LogStatement.say]

/-- The text in the stream of a statement, if both gates let it through. -/
def LogStatement.spoken (g : Settings) (st : LogStatement) : Option Str :=
  if levelToInt g.level ≤ levelToInt st.level ∧
      (run g.verbosity st.ops {}).vlevel ≤ g.verbosity then
    some (run g.verbosity st.ops {}).text
  else none

/-- What a statement delivers is what it says through the gates. -/
theorem delivered_eq_say (g : Settings) (st : LogStatement) :
    st.delivered g = (st.spoken g).bind st.say := by
  rw [LogStatement.delivered, writeToLog, LogStatement.spoken]
  simp only [Stream.mayLog, decide_eq_true_eq, ite_and]
  split_ifs with h₁ h₂ h₃
  · exact (if_pos h₃).symm
  · exact (if_neg h₃).symm
  · rfl
  · rfl

theorem run_lineNumberOps (v : ℤ) (defs : GlobalDefines) :
    run v defs.lineNumberOps {} = Stream.prefixed (defs.lineNumber v) {} := by
  obtain ⟨_ | ⟨file, line⟩, quote, nospace⟩ := defs
  · exact run_nil v {}
  · rw [GlobalDefines.lineNumberOps, run_cons, run_nil, exec, GlobalDefines.lineNumber]
    cases hmay : Stream.mayLog v {} with
    | true =>
      rw [Stream.log_eq _ hmay]
      simp only [if_pos (of_decide_eq_true hmay)]
      rw [Value.layout, trail, if_pos rfl]
      simp [Stream.emit, Stream.prefixed, spell, Atom.print, Item.print, Item.shown, Item.numeric,
        Ios.pad_zero]
    | false =>
      rw [Stream.log_suppressed _ hmay]
      simp only [if_neg (of_decide_eq_false hmay)]
      rfl

/-- The line number goes in front of what a statement says, and changes no gate. -/
theorem spoken_expand (defs : GlobalDefines) (g : Settings) (st : LogStatement) :
    (st.expand defs).spoken g =
      ((st.expand { defs with lineNumbers := none }).spoken g).map
        (defs.lineNumber g.verbosity ++ ·) := by
  have hrun : run g.verbosity (st.expand defs).ops {} =
      (run g.verbosity (st.expand { defs with lineNumbers := none }).ops {}).prefixed
        (defs.lineNumber g.verbosity) := by
    simp only [LogStatement.expand, GlobalDefines.applyFlags, List.append_assoc, run_append,
      run_lineNumberOps, run_prefixed]
    rfl
  rw [LogStatement.spoken, LogStatement.spoken, hrun, Option.map_if]
  rfl

/-- LINE NUMBERS: whatever a statement does to its stream, manipulators included, it passes the same
    gates with line numbers as without, and its text is its text without them behind the line
    number. So what it delivers it still delivers, and what it delivers only with line numbers has
    an empty text without them. -/
theorem line_number_prefixes (defs : GlobalDefines) (g : Settings) (st : LogStatement) :
    let bare := st.expand { defs with lineNumbers := none }
    bare.delivered g = (bare.spoken g).bind st.say ∧
      (st.expand defs).delivered g =
        ((bare.spoken g).map (defs.lineNumber g.verbosity ++ ·)).bind st.say ∧
      (∀ m, bare.delivered g = some m →
        (st.expand defs).delivered g =
          some { m with text := defs.lineNumber g.verbosity ++ m.text }) ∧
      ∀ m, bare.delivered g = none → (st.expand defs).delivered g = some m →
        bare.spoken g = some [] := by
  intro bare
  have hbare : bare.delivered g = (bare.spoken g).bind st.say := delivered_eq_say g bare
  have hnumbered : (st.expand defs).delivered g =
      ((bare.spoken g).map (defs.lineNumber g.verbosity ++ ·)).bind st.say := by
    rw [delivered_eq_say, spoken_expand]
    rfl
  refine ⟨hbare, hnumbered, fun m hm => ?_, fun m hnone hm => ?_⟩
  · -- delivered without line numbers
    obtain ⟨text, htext, hsay⟩ := Option.bind_eq_some_iff.mp (hbare ▸ hm)
    obtain ⟨hne, rfl⟩ := LogStatement.say_eq_some.mp hsay
    rw [hnumbered, htext]
    exact LogStatement.say_eq_some.mpr ⟨List.append_ne_nil_of_right_ne_nil _ hne, rfl⟩
  · -- delivered only with them
    obtain ⟨text, htext, hsay⟩ := Option.bind_eq_some_iff.mp (hnumbered ▸ hm)
    obtain ⟨text, hspoken, -⟩ := Option.map_eq_some_iff.mp htext
    rw [hbare, hspoken] at hnone
    rw [hspoken, LogStatement.say_eq_none.mp hnone]

end GtLogging
