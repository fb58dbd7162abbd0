import Mathlib

/-! @lib step-machine | kind:library | runs of partial step functions

    A machine is a partial step function: `step s e` is the state after event `e`, or nothing when
    `e` is not enabled. `run` folds it over an event list. The rules below are what a proof about
    every interleaving needs: an invariant is checked on one step and holds after every run; a run
    splits at any event; and a *guarded* run, all of whose steps meet a condition on the state
    before them, keeps invariants that only guarded steps keep. -/

namespace StepMachine

variable {σ ε : Type*} (step : σ → ε → Option σ)

/-- Fold the step over the events; `none` as soon as one is not enabled. -/
def run (s : σ) : List ε → Option σ
  | [] => some s
  | e :: es => (step s e).bind (run · es)

/-- Every step of the run is taken in a state where `ok` allows it. -/
def Guarded (ok : σ → ε → Prop) (s : σ) : List ε → Prop
  | [] => True
  | e :: es => ok s e ∧ ∀ s' ∈ step s e, Guarded ok s' es

instance Guarded.decidable {ok : σ → ε → Prop} [∀ s e, Decidable (ok s e)] :
    ∀ (s : σ) (es : List ε), Decidable (Guarded step ok s es)
  | _, [] => isTrue trivial
  | s, e :: es =>
    have : ∀ m, Decidable (Guarded step ok m es) := fun m => Guarded.decidable m es
    inferInstanceAs (Decidable (ok s e ∧ ∀ m ∈ step s e, Guarded step ok m es))

variable {step}

@[simp] theorem run_nil (s : σ) : run step s [] = some s := rfl

theorem run_cons {s s' : σ} {e : ε} {es : List ε} :
    run step s (e :: es) = some s' ↔ ∃ m, step s e = some m ∧ run step m es = some s' := by
  simp [run, Option.bind_eq_some_iff]

theorem run_append {s s' : σ} {es fs : List ε} :
    run step s (es ++ fs) = some s' ↔ ∃ m, run step s es = some m ∧ run step m fs = some s' := by
  induction es generalizing s with
  | nil => simp
  | cons e es ih =>
    simp only [List.cons_append, run_cons]
    constructor
    · rintro ⟨m, hm, h⟩
      obtain ⟨k, hk, hf⟩ := ih.mp h
      exact ⟨k, ⟨m, hm, hk⟩, hf⟩
    · rintro ⟨k, ⟨m, hm, hk⟩, hf⟩
      exact ⟨m, hm, ih.mpr ⟨k, hk, hf⟩⟩

/-- A run through `pre ++ e :: post` stops before `e`, takes it, and goes on. -/
theorem run_split {s s' : σ} {pre post : List ε} {e : ε} :
    run step s (pre ++ e :: post) = some s' ↔
      ∃ m m', run step s pre = some m ∧ step m e = some m' ∧ run step m' post = some s' := by
  rw [run_append]
  constructor
  · rintro ⟨m, hm, h⟩
    obtain ⟨m', hs, hr⟩ := run_cons.mp h
    exact ⟨m, m', hm, hs, hr⟩
  · rintro ⟨m, m', hm, hs, hr⟩
    exact ⟨m, hm, run_cons.mpr ⟨m', hs, hr⟩⟩

/-- INVARIANT RULE: what one step keeps, every run keeps. -/
theorem run_inv {I : σ → Prop} (hstep : ∀ s e s', I s → step s e = some s' → I s')
    {es : List ε} {s s' : σ} (hs : I s) (h : run step s es = some s') : I s' := by
  induction es generalizing s with
  | nil => cases h; exact hs
  | cons e es ih =>
    obtain ⟨m, hm, hr⟩ := run_cons.mp h
    exact ih (hstep s e m hs hm) hr

/-- GUARDED INVARIANT RULE: what one allowed step keeps, every guarded run keeps. -/
theorem run_inv_of_guarded {I : σ → Prop} {ok : σ → ε → Prop}
    (hstep : ∀ s e s', I s → ok s e → step s e = some s' → I s') {es : List ε} {s s' : σ}
    (hs : I s) (hg : Guarded step ok s es) (h : run step s es = some s') : I s' := by
  induction es generalizing s with
  | nil => cases h; exact hs
  | cons e es ih =>
    obtain ⟨m, hm, hr⟩ := run_cons.mp h
    exact ih (hstep s e m hs hg.1 hm) (hg.2 m hm) hr

/-- REFINEMENT RULE: if each step of the machine is seen as a step of another one, or is not seen at
    all, then a run is seen as a run of the other one. -/
theorem run_refines {τ φ : Type*} {step' : τ → φ → Option τ} {I : σ → Prop} (f : σ → τ)
    (seen : ε → Option φ) (hinv : ∀ s e s', I s → step s e = some s' → I s')
    (hstep : ∀ s e s', I s → step s e = some s' → run step' (f s) (seen e).toList = some (f s'))
    {es : List ε} {s s' : σ} (hs : I s) (h : run step s es = some s') :
    run step' (f s) (es.filterMap seen) = some (f s') := by
  induction es generalizing s with
  | nil =>
    cases h
    rfl
  | cons e es ih =>
    obtain ⟨m, hm, hr⟩ := run_cons.mp h
    have hhead := hstep s e m hs hm
    have htail := ih (hinv s e m hs hm) hr
    cases he : seen e with
    | none =>
      rw [he] at hhead
      rw [List.filterMap_cons_none he, Option.some.inj hhead]
      exact htail
    | some e' =>
      rw [he] at hhead
      rw [List.filterMap_cons_some he, ← List.singleton_append]
      exact run_append.mpr ⟨_, hhead, htail⟩

/-- A condition that the events of a list meet in every state guards its runs. -/
theorem guarded_of_forall {ok : σ → ε → Prop} {es : List ε} (h : ∀ e ∈ es, ∀ s, ok s e) (s : σ) :
    Guarded step ok s es := by
  induction es generalizing s with
  | nil => exact trivial
  | cons e es ih =>
    rw [List.forall_mem_cons] at h
    exact ⟨h.1 s, fun s' _ => ih h.2 s'⟩

/-- A run that is guarded by a condition is guarded by what follows from it. -/
theorem Guarded.imp {ok ok' : σ → ε → Prop} {es : List ε} {s : σ}
    (himp : ∀ e ∈ es, ∀ s, ok s e → ok' s e) (h : Guarded step ok s es) :
    Guarded step ok' s es := by
  induction es generalizing s with
  | nil => exact trivial
  | cons e es ih =>
    rw [List.forall_mem_cons] at himp
    exact ⟨himp.1 s h.1, fun s' hs' => ih himp.2 (h.2 s' hs')⟩

/-- Both halves of a guarded run are guarded. -/
theorem guarded_append {ok : σ → ε → Prop} {s : σ} {es fs : List ε}
    (h : Guarded step ok s (es ++ fs)) :
    Guarded step ok s es ∧ ∀ m, run step s es = some m → Guarded step ok m fs := by
  induction es generalizing s with
  | nil => exact ⟨trivial, by rintro m ⟨⟩; exact h⟩
  | cons e es ih =>
    obtain ⟨hok, h⟩ := h
    refine ⟨⟨hok, fun s' hs' => (ih (h s' hs')).1⟩, ?_⟩
    intro m hm
    obtain ⟨k, hk, hr⟩ := run_cons.mp hm
    exact (ih (h k hk)).2 m hr

end StepMachine
