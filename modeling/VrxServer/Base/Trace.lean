import VrxServer.Base.Run

/-! What a run shows to the outside.

Where a step of a machine shows some observations, a run shows them one after the other
(`trace`). A relation between what has been shown and the state reached is kept by every
run if it is kept by every step (`trace_rule`). Two uses of the rule have names: a machine
that is driven by what another one shows (`run_trace`), and a record in the state to which
each step adds what it shows (`record_trace`). Two kinds of observation are the same but for
what is still pending if they are at every step (`trace_pending`). -/
namespace VrxServer.Base.Machine
variable {S L O : Type} (M : Machine S L)

/-- The observations of a run, as far as it goes. -/
def trace (f : S → L → List O) : S → List L → List O
  | _, [] => []
  | s, l :: ls =>
    match M.step s l with
    | some t => f s l ++ trace f t ls
    | none => []

variable {M} {f : S → L → List O}

theorem trace_cons {s t : S} {l : L} (h : M.step s l = some t) (ls : List L) :
    M.trace f s (l :: ls) = f s l ++ M.trace f t ls := by
  simp only [trace, h]

theorem trace_append {s t : S} {a : List L} (h : M.run s a = some t) (b : List L) :
    M.trace f s (a ++ b) = M.trace f s a ++ M.trace f t b := by
  induction a generalizing s with
  | nil =>
    obtain rfl := Option.some.inj h
    rfl
  | cons l a ih =>
    obtain ⟨u, hu, ht⟩ := Option.bind_eq_some_iff.mp h
    rw [List.cons_append, trace_cons hu, trace_cons hu, ih ht, List.append_assoc]

/-- Observations that are observations of others. -/
theorem trace_flatMap {Q : Type} (g : O → List Q) (s : S) (ls : List L) :
    M.trace (fun s l => (f s l).flatMap g) s ls = (M.trace f s ls).flatMap g := by
  induction ls generalizing s with
  | nil => rfl
  | cons l ls ih =>
    cases h : M.step s l with
    | none => simp only [trace, h, List.flatMap_nil]
    | some t => rw [trace_cons h, trace_cons h, ih t, List.flatMap_append]

theorem trace_filterMap {Q : Type} (g : O → Option Q) (s : S) (ls : List L) :
    M.trace (fun s l => (f s l).filterMap g) s ls = (M.trace f s ls).filterMap g := by
  simp only [List.filterMap_eq_flatMap_toList, trace_flatMap]

theorem trace_map {Q : Type} (g : O → Q) (s : S) (ls : List L) :
    M.trace (fun s l => (f s l).map g) s ls = (M.trace f s ls).map g := by
  simp only [List.map_eq_flatMap, trace_flatMap]

/-- **What each step keeps of the observations and the state, a run keeps.** -/
theorem trace_rule (R : List O → S → Prop) (C : L → Prop)
    (hstep : ∀ os s l t, C l → R os s → M.step s l = some t → R (os ++ f s l) t)
    {s t : S} {ls : List L} (hls : ∀ l ∈ ls, C l) (h : M.run s ls = some t) (os : List O) (hs : R os s) :
    R (os ++ M.trace f s ls) t := by
  induction ls generalizing s os with
  | nil =>
    obtain rfl := Option.some.inj h
    rwa [trace, List.append_nil]
  | cons l ls ih =>
    obtain ⟨u, hu, ht⟩ := Option.bind_eq_some_iff.mp h
    rw [trace_cons hu, ← List.append_assoc]
    exact ih (fun m hm => hls m (List.mem_cons_of_mem l hm)) ht _ (hstep os s l u (hls l List.mem_cons_self) hs hu)

/-- **A machine that takes the steps shown.** `I` is what every step keeps. -/
theorem run_trace {S' : Type} {N : Machine S' O} (view : S → S') (I : S → Prop)
    (hI : ∀ s l t, I s → M.step s l = some t → I t)
    (hstep : ∀ s l t, I s → M.step s l = some t → N.run (view s) (f s l) = some (view t))
    {s t : S} {ls : List L} (h : M.run s ls = some t) (hs : I s) :
    N.run (view s) (M.trace f s ls) = some (view t) := by
  have hrule := trace_rule (M := M) (f := f) (fun os u => I u ∧ N.run (view s) os = some (view u))
    (fun _ => True) ?_ (fun _ _ => trivial) h [] ⟨hs, rfl⟩
  · exact hrule.2
  · intro os u l w _ hu hw
    refine ⟨hI u l w hu.1 hw, ?_⟩
    rw [run_append, hu.2]
    exact hstep u l w hu.1 hw

/-- Where what comes in is either shown later or still pending, nothing is lost, doubled or
out of order. `I` is what every step keeps. -/
theorem trace_pending {g : S → L → List O} {pending : S → List O} (I : S → Prop)
    (hI : ∀ s l t, I s → M.step s l = some t → I t)
    (hstep : ∀ s l t, I s → M.step s l = some t → pending s ++ f s l = g s l ++ pending t)
    {s t : S} {ls : List L} (h : M.run s ls = some t) (hs : I s) :
    pending s ++ M.trace f s ls = M.trace g s ls ++ pending t := by
  induction ls generalizing s with
  | nil =>
    obtain rfl := Option.some.inj h
    exact List.append_nil _
  | cons l ls ih =>
    obtain ⟨u, hu, ht⟩ := Option.bind_eq_some_iff.mp h
    rw [trace_cons hu, trace_cons hu, ← List.append_assoc, hstep s l u hs hu, List.append_assoc,
      ih ht (hI s l u hs hu), List.append_assoc]

/-- A record to which every admitted step adds what it shows. -/
theorem record_trace (view : S → List O) (I : S → Prop) (C : L → Prop)
    (hI : ∀ s l t, C l → I s → M.step s l = some t → I t)
    (hstep : ∀ s l t, C l → I s → M.step s l = some t → view t = view s ++ f s l)
    {s t : S} {ls : List L} (hls : ∀ l ∈ ls, C l) (h : M.run s ls = some t) (hs : I s) :
    view t = view s ++ M.trace f s ls := by
  have hrule := trace_rule (M := M) (f := f) (fun os u => I u ∧ view u = view s ++ os) C ?_ hls h []
    ⟨hs, (List.append_nil _).symm⟩
  · exact hrule.2
  · intro os u l w hl hu hw
    refine ⟨hI u l w hl hu.1 hw, ?_⟩
    rw [hstep u l w hl hu.1 hw, hu.2, List.append_assoc]

end VrxServer.Base.Machine
