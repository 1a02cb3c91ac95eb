import Mathlib.Data.List.Induction

/-!
# Machine — runs of a deterministic labelled machine

A machine is a step function `σ → ε → σ`; all nondeterminism is in the events.
A run is the left fold of the step over a list of events. The rules below are
the induction principles the rest of the development uses: an invariant of
every run, an invariant of the runs whose steps all meet a condition, and a
simulation between two machines.
-/

namespace Machine

variable {σ τ ε δ : Type*}

/-- The state reached from `s` by the events `es`, in order. -/
def run (step : σ → ε → σ) (s : σ) (es : List ε) : σ := es.foldl step s

section Run

variable (step : σ → ε → σ) (s : σ)

@[simp] theorem run_nil : run step s [] = s := rfl

@[simp] theorem run_cons (e : ε) (es : List ε) :
    run step s (e :: es) = run step (step s e) es := rfl

@[simp] theorem run_append (es fs : List ε) :
    run step s (es ++ fs) = run step (run step s es) fs := by
  simp [run]

theorem run_snoc (es : List ε) (e : ε) :
    run step s (es ++ [e]) = step (run step s es) e := by
  simp

end Run

/-! ## Invariants -/

/-- Invariant induction: what the start has and every step preserves holds at
the end of every run. -/
theorem run_invariant (inv : σ → Prop) {step : σ → ε → σ}
    (hstep : ∀ s e, inv s → inv (step s e)) {s : σ} (hinit : inv s) (es : List ε) :
    inv (run step s es) := by
  induction es generalizing s with
  | nil => exact hinit
  | cons e es ih => exact ih (hstep s e hinit)

/-- Invariant induction when the events of the run are known. -/
theorem run_invariant_mem (inv : σ → Prop) {step : σ → ε → σ} {es : List ε}
    (hstep : ∀ s, ∀ e ∈ es, inv s → inv (step s e)) {s : σ} (hinit : inv s) : inv (run step s es) := by
  induction es generalizing s with
  | nil => exact hinit
  | cons e es ih =>
    exact ih (fun s e' he' => hstep s e' (List.mem_cons_of_mem e he'))
      (hstep s e List.mem_cons_self hinit)

/-- The rule of a counting loop: the invariant of index `i` holds when the body starts with it. -/
theorem run_range' (inv : Nat → σ → Prop) {step : σ → Nat → σ} {a : Nat}
    (hstep : ∀ i s, a ≤ i → inv i s → inv (i + 1) (step s i)) {s : σ} (hinit : inv a s) (n : Nat) :
    inv (a + n) (run step s (List.range' a n)) := by
  induction n with
  | zero => exact hinit
  | succ n ih =>
    rw [List.range'_concat, run_snoc, Nat.one_mul]
    exact hstep (a + n) _ (Nat.le_add_right a n) ih

/-- Every event of the run meets `C` in the state it is applied to. -/
def Along (step : σ → ε → σ) (C : σ → ε → Prop) : σ → List ε → Prop
  | _, [] => True
  | s, e :: es => C s e ∧ Along step C (step s e) es

section Along

variable {step : σ → ε → σ} {C D : σ → ε → Prop} {s : σ}

@[simp] theorem along_nil : Along step C s [] := trivial

@[simp] theorem along_cons {e : ε} {es : List ε} :
    Along step C s (e :: es) ↔ C s e ∧ Along step C (step s e) es := Iff.rfl

theorem along_append {es fs : List ε} :
    Along step C s (es ++ fs) ↔ Along step C s es ∧ Along step C (run step s es) fs := by
  induction es generalizing s with
  | nil => simp
  | cons e es ih => simp [ih, and_assoc]

theorem along_of_forall (h : ∀ s e, C s e) (es : List ε) : Along step C s es := by
  induction es generalizing s with
  | nil => trivial
  | cons e es ih => exact ⟨h s e, ih⟩

/-- A condition that decides, at each step from a good state, whether the next state is good:
all states of a run are good if and only if the condition holds along it. -/
theorem forall_run_iff_along (inv P : σ → Prop) (hinv : ∀ s e, inv s → inv (step s e))
    (hstep : ∀ s e, inv s → P s → (P (step s e) ↔ C s e)) (hs : inv s) (hP : P s) {es : List ε} :
    (∀ fs, fs <+: es → P (run step s fs)) ↔ Along step C s es := by
  induction es generalizing s with
  | nil =>
    refine iff_of_true ?_ trivial
    intro fs hfs
    rw [List.prefix_nil.mp hfs]
    exact hP
  | cons e es ih =>
    constructor
    · intro h
      have hnext : P (step s e) := h [e] (List.prefix_append [e] es)
      refine ⟨(hstep s e hs hP).mp hnext, (ih (hinv s e hs) hnext).mp ?_⟩
      intro fs hfs
      exact h (e :: fs) (List.cons_prefix_cons.mpr ⟨rfl, hfs⟩)
    · rintro ⟨hC, hrest⟩ fs hfs
      have hnext := (hstep s e hs hP).mpr hC
      rcases fs with - | ⟨f, fs⟩
      · exact hP
      · rcases List.cons_prefix_cons.mp hfs with ⟨rfl, htail⟩
        exact (ih (hinv s _ hs) hnext).mpr hrest fs htail

instance decidableAlong [∀ s e, Decidable (C s e)] : ∀ s es, Decidable (Along step C s es)
  | _, [] => .isTrue trivial
  | s, e :: es =>
    have := decidableAlong (step s e) es
    inferInstanceAs (Decidable (C s e ∧ Along step C (step s e) es))

/-- Invariant induction for the runs whose steps all meet `C`. -/
theorem run_invariant_along (inv : σ → Prop)
    (hstep : ∀ s e, inv s → C s e → inv (step s e)) (hinit : inv s) {es : List ε}
    (h : Along step C s es) : inv (run step s es) := by
  induction es generalizing s with
  | nil => exact hinit
  | cons e es ih => exact ih (hstep s e hinit h.1) h.2

/-- What `C` and an invariant give at every step of a run that meets `C`. -/
theorem Along.of_invariant (inv : σ → Prop)
    (hstep : ∀ s e, inv s → C s e → inv (step s e)) (hD : ∀ s e, inv s → C s e → D s e)
    (hinit : inv s) {es : List ε} (h : Along step C s es) : Along step D s es := by
  induction es generalizing s with
  | nil => trivial
  | cons e es ih => exact ⟨hD s e hinit h.1, ih (hstep s e hinit h.1) h.2⟩

/-- A condition that fails only at a step that raises a level. -/
theorem along_or_lt (level : σ → Nat) (hmono : ∀ s e, level s ≤ level (step s e))
    (hstep : ∀ s e, C s e ∨ level s < level (step s e)) (es : List ε) :
    Along step C s es ∨ level s < level (run step s es) := by
  induction es generalizing s with
  | nil => exact .inl trivial
  | cons e es ih =>
    have hrun : level (step s e) ≤ level (run step (step s e) es) :=
      run_invariant (fun s' => level (step s e) ≤ level s')
        (fun s' e' h => Nat.le_trans h (hmono s' e')) (Nat.le_refl _) es
    rcases hstep s e with hC | hlt
    · rcases ih (s := step s e) with halong | hlt
      · exact .inl ⟨hC, halong⟩
      · exact .inr (Nat.lt_of_le_of_lt (hmono s e) hlt)
    · exact .inr (Nat.lt_of_lt_of_le hlt hrun)

/-- A condition on the events alone. -/
theorem along_of_mem {P : ε → Prop} {es : List ε} (h : ∀ e ∈ es, P e) :
    Along step (fun _ e => P e) s es := by
  induction es generalizing s with
  | nil => trivial
  | cons e es ih =>
    exact ⟨h e List.mem_cons_self, ih fun e' he' => h e' (List.mem_cons_of_mem e he')⟩

theorem along_congr (h : ∀ s e, C s e ↔ D s e) {es : List ε} :
    Along step C s es ↔ Along step D s es := by
  induction es generalizing s with
  | nil => rfl
  | cons e es ih => rw [along_cons, along_cons, h s e, ih]

/-- Two conditions that agree in the states with an invariant, which the steps that meet `K` keep. -/
theorem along_congr_along (inv : σ → Prop) {K : σ → ε → Prop}
    (hinv : ∀ s e, inv s → K s e → inv (step s e)) (h : ∀ s e, inv s → (C s e ↔ D s e)) (hs : inv s)
    {es : List ε} (hK : Along step K s es) : Along step C s es ↔ Along step D s es := by
  induction es generalizing s with
  | nil => rfl
  | cons e es ih => rw [along_cons, along_cons, h s e hs, ih (hinv s e hs hK.1) hK.2]

theorem Along.and {es : List ε} (h : Along step C s es) (h' : Along step D s es) :
    Along step (fun s e => C s e ∧ D s e) s es := by
  induction es generalizing s with
  | nil => trivial
  | cons e es ih => exact ⟨⟨h.1, h'.1⟩, ih h.2 h'.2⟩

/-- A condition along a run holds along its beginnings. -/
theorem Along.beginning {es fs : List ε} (h : Along step C s es) (hpre : fs <+: es) :
    Along step C s fs := by
  rcases hpre with ⟨gs, rfl⟩
  exact (along_append.mp h).1

end Along

/-- A machine that idles when it is done is done after as many steps as its measure says. -/
theorem run_exhausts (inv more : σ → Prop) (measure : σ → Nat) {step : σ → ε → σ}
    (hinv : ∀ s e, inv s → inv (step s e)) (hmore : ∀ s, more s → 0 < measure s)
    (hstep : ∀ s e, inv s → more s → measure (step s e) < measure s)
    (hidle : ∀ s e, ¬ more s → step s e = s) {s : σ} (hs : inv s) {es : List ε}
    (hlength : measure s ≤ es.length) : ¬ more (run step s es) := by
  induction es generalizing s with
  | nil =>
    intro h
    have := hmore s h
    rw [List.length_nil] at hlength
    omega
  | cons e es ih =>
    by_cases h : more s
    · refine ih (hinv s e hs) ?_
      have := hstep s e hs h
      rw [List.length_cons] at hlength
      omega
    · have hstays : run step s es = s :=
        run_invariant (fun t => t = s) (fun t e ht => by rw [ht, hidle s e h]) rfl es
      rw [run_cons, hidle s e h, hstays]
      exact h

/-- A size that grows in no step but to the load of the next state never exceeds the largest
load so far. -/
theorem run_le_peak (inv : σ → Prop) (size load : σ → Nat) {step : σ → ε → σ}
    (hinv : ∀ s e, inv s → inv (step s e))
    (hstep : ∀ s e, inv s → size (step s e) ≤ size s ∨ size (step s e) ≤ load (step s e)) {s : σ}
    (hs : inv s) (hinit : size s ≤ load s) (es : List ε) :
    ∃ fs, fs <+: es ∧ size (run step s es) ≤ load (run step s fs) := by
  induction es using List.reverseRecOn with
  | nil => exact ⟨[], List.prefix_refl _, hinit⟩
  | append_singleton es e ih =>
    rw [run_snoc]
    rcases hstep _ e (run_invariant inv hinv hs es) with hsize | hload
    · rcases ih with ⟨fs, hfs, hle⟩
      exact ⟨fs, hfs.trans (List.prefix_append es [e]), Nat.le_trans hsize hle⟩
    · refine ⟨es ++ [e], List.prefix_refl _, ?_⟩
      rwa [run_snoc]

/-! ## Reaching a state by allowed events -/

/-- `s'` is reached from `s` by events that all meet `C`. -/
def Reaches (step : σ → ε → σ) (C : σ → ε → Prop) (s s' : σ) : Prop :=
  ∃ es, Along step C s es ∧ run step s es = s'

namespace Reaches

variable {step : σ → ε → σ} {C : σ → ε → Prop} {s s' s'' : σ}

theorem refl (s : σ) : Reaches step C s s := ⟨[], trivial, rfl⟩

theorem single {e : ε} (h : C s e) : Reaches step C s (step s e) := ⟨[e], ⟨h, trivial⟩, rfl⟩

theorem trans (h : Reaches step C s s') (h' : Reaches step C s' s'') : Reaches step C s s'' := by
  rcases h with ⟨es, hes, rfl⟩
  rcases h' with ⟨fs, hfs, rfl⟩
  refine ⟨es ++ fs, ?_, run_append step s es fs⟩
  rw [along_append]
  exact ⟨hes, hfs⟩

/-- More events may be allowed. -/
theorem mono {D : σ → ε → Prop} (h : Reaches step C s s') (hCD : ∀ s e, C s e → D s e) :
    Reaches step D s s' := by
  rcases h with ⟨es, hes, hrun⟩
  exact ⟨es, hes.of_invariant (fun _ => True) (fun _ _ _ _ => trivial)
    (fun s e _ hC => hCD s e hC) trivial, hrun⟩

/-- What every allowed event preserves is preserved. -/
theorem preserves (inv : σ → Prop) (hstep : ∀ s e, inv s → C s e → inv (step s e))
    (h : Reaches step C s s') (hs : inv s) : inv s' := by
  rcases h with ⟨es, hes, rfl⟩
  exact run_invariant_along inv hstep hs hes

/-- A machine inside another: what the inner one reaches, the outer one reaches too. -/
theorem lift {step' : τ → δ → τ} {C' : τ → δ → Prop} (f : σ → τ) (g : ε → δ) (inv : σ → Prop)
    (hinv : ∀ s e, inv s → C s e → inv (step s e))
    (hstep : ∀ s e, inv s → step' (f s) (g e) = f (step s e))
    (hC : ∀ s e, inv s → C s e → C' (f s) (g e)) (hs : inv s) (h : Reaches step C s s') :
    Reaches step' C' (f s) (f s') := by
  rcases h with ⟨es, hes, rfl⟩
  induction es generalizing s with
  | nil => exact refl _
  | cons e es ih =>
    have hfirst : Reaches step' C' (f s) (f (step s e)) := by
      rw [← hstep s e hs]
      exact single (hC s e hs hes.1)
    exact hfirst.trans (ih (hinv s e hs hes.1) hes.2)

end Reaches

/-- Simulation: if every step is matched by events of the abstract machine, so is a run. -/
theorem run_simulates {step : σ → ε → σ} {astep : τ → δ → τ} {C : τ → δ → Prop} (abs : σ → τ)
    (hsim : ∀ s e, Reaches astep C (abs s) (abs (step s e))) (s : σ) (es : List ε) :
    Reaches astep C (abs s) (abs (run step s es)) := by
  induction es generalizing s with
  | nil => exact Reaches.refl _
  | cons e es ih => exact (hsim s e).trans (ih _)

/-- Simulation of the runs whose steps all meet `D`. -/
theorem run_simulates_along {step : σ → ε → σ} {astep : τ → δ → τ} {D : σ → ε → Prop}
    {C : τ → δ → Prop} (abs : σ → τ)
    (hsim : ∀ s e, D s e → Reaches astep C (abs s) (abs (step s e)))
    {s : σ} {es : List ε} (h : Along step D s es) :
    Reaches astep C (abs s) (abs (run step s es)) := by
  induction es generalizing s with
  | nil => exact Reaches.refl _
  | cons e es ih => exact (hsim s e h.1).trans (ih h.2)

end Machine
