import GtLogging.Formatter

/-! @src src/gt_logging.cpp | layer:model | the vector of destinations

    The registry of a logger is a vector of entries, an id and the destination object it owns.
    `D` names the objects. -/

namespace GtLogging

/-- What `Destination::write` is called with. -/
structure Record where
  message : Str
  level : Level
  details : Details
  deriving DecidableEq

structure DestinationEntry (D : Type*) where
  id : Str
  ptr : D
  deriving DecidableEq

namespace Registry

variable {D ρ : Type*}

def hasDestination (ds : List (DestinationEntry D)) (id : Str) : Bool := ds.any (·.id = id)

theorem hasDestination_iff {ds : List (DestinationEntry D)} {id : Str} :
    hasDestination ds id = true ↔ id ∈ ds.map (·.id) := by
  simp [hasDestination]

/-- `std::remove_if` and `vector::erase`; whether something was found, and the vector. -/
def erase (op : DestinationEntry D → Bool) (ds : List (DestinationEntry D)) :
    Bool × List (DestinationEntry D) :=
  if (ds.filter (!op ·)).length = ds.length then (false, ds) else (true, ds.filter (!op ·))

theorem erase_snd (op : DestinationEntry D → Bool) (ds : List (DestinationEntry D)) :
    (erase op ds).2 = ds.filter (!op ·) := by
  rw [erase]
  split_ifs with h
  · exact (List.filter_sublist.eq_of_length h).symm
  · rfl

/-- Something is found exactly when some entry satisfies `op`. -/
theorem erase_fst (op : DestinationEntry D → Bool) (ds : List (DestinationEntry D)) :
    (erase op ds).1 = ds.any op := by
  rw [erase]
  split_ifs with h
  · rw [List.length_filter_eq_length_iff] at h
    exact (List.any_eq_false.mpr fun d hd => by simpa using h d hd).symm
  · rw [List.length_filter_eq_length_iff] at h
    push Not at h
    obtain ⟨d, hd, hop⟩ := h
    exact (List.any_eq_true.mpr ⟨d, hd, by simpa using hop⟩).symm

/-- The guarded section of `removeDestination`. -/
def eraseId (id : Str) (ds : List (DestinationEntry D)) : Bool × List (DestinationEntry D) :=
  erase (·.id = id) ds

@[simp]
theorem eraseId_nil (id : Str) : eraseId id ([] : List (DestinationEntry D)) = (false, []) := rfl

/-- An entry with the id is found, and not kept. -/
@[simp]
theorem eraseId_cons_self (d : DestinationEntry D) (ds : List (DestinationEntry D)) :
    eraseId d.id (d :: ds) = (true, (eraseId d.id ds).2) := by
  refine Prod.ext ?_ ?_
  · simp [eraseId, erase_fst]
  · simp [eraseId, erase_snd]

/-- Any other one is kept. -/
theorem eraseId_cons_ne {id : Str} {d : DestinationEntry D} (hid : d.id ≠ id)
    (ds : List (DestinationEntry D)) :
    eraseId id (d :: ds) = ((eraseId id ds).1, d :: (eraseId id ds).2) := by
  refine Prod.ext ?_ ?_
  · simp [eraseId, erase_fst, hid]
  · simp [eraseId, erase_snd, hid]

theorem eraseId_sublist (id : Str) (ds : List (DestinationEntry D)) :
    (eraseId id ds).2.Sublist ds := by
  rw [eraseId, erase_snd]
  exact List.filter_sublist

theorem mem_eraseId {id : Str} {ds : List (DestinationEntry D)} {d : DestinationEntry D} :
    d ∈ (eraseId id ds).2 ↔ d ∈ ds ∧ d.id ≠ id := by
  simp [eraseId, erase_snd]

/-- The loop of `Logger::write`: every destination, in order, takes `x`. -/
def write [DecidableEq D] (ds : List (DestinationEntry D)) (x : ρ) (received : D → List ρ) :
    D → List ρ :=
  ds.foldl (fun rc d => Function.update rc d.ptr (rc d.ptr ++ [x])) received

/-- Where no object is registered twice, each registered one takes `x` once. -/
theorem received_write [DecidableEq D] (x : ρ) (o : D) {ds : List (DestinationEntry D)}
    (h : (ds.map (·.ptr)).Nodup) (received : D → List ρ) :
    write ds x received o = if o ∈ ds.map (·.ptr) then received o ++ [x] else received o := by
  induction ds generalizing received with
  | nil => rfl
  | cons d ds ih =>
    obtain ⟨hd, hds⟩ := List.nodup_cons.mp h
    rw [write, List.foldl_cons, ← write, ih hds, List.map_cons]
    by_cases ho : o = d.ptr
    · subst ho
      rw [if_neg hd, if_pos List.mem_cons_self, Function.update_self]
    · rw [Function.update_of_ne ho]
      simp only [List.mem_cons, ho, false_or]

end Registry

end GtLogging
