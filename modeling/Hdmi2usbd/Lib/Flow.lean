import Hdmi2usbd.Lib.Machine

/-!
# Flow — what goes into a machine and what comes out of it

Each step of a machine may take items in and give items out, and a state holds some. If no
step loses or reorders an item, neither does a run: what has come out, followed by what is
held at the end, is what was held at the start followed by what has gone in.
-/

namespace Flow

open Machine (run Along)

variable {σ ε α : Type*}

/-- The items of all steps of a run, in order. -/
def total (step : σ → ε → σ) (items : σ → ε → List α) : σ → List ε → List α
  | _, [] => []
  | s, e :: es => items s e ++ total step items (step s e) es

section Total

variable (step : σ → ε → σ) (items : σ → ε → List α) (s : σ)

@[simp] theorem total_nil : total step items s [] = [] := rfl

@[simp] theorem total_cons (e : ε) (es : List ε) :
    total step items s (e :: es) = items s e ++ total step items (step s e) es := rfl

end Total

/-- The conservation law of a run, from that of a step: as long as the machine is alive, what has
come out and what is held is what was held and what has gone in. `alive` is never regained. -/
theorem conserved_until (alive : σ → Prop) (input output : σ → ε → List α) (held : σ → List α)
    {step : σ → ε → σ} {C : σ → ε → Prop}
    (halive : ∀ s e, C s e → alive (step s e) → alive s)
    (hstep : ∀ s e, C s e → alive (step s e) →
      output s e ++ held (step s e) = held s ++ input s e) {s : σ}
    {es : List ε} (h : Along step C s es) (hend : alive (run step s es)) :
    alive s ∧ total step output s es ++ held (run step s es) = held s ++ total step input s es := by
  induction es generalizing s with
  | nil => exact ⟨hend, by simp⟩
  | cons e es ih =>
    rcases h with ⟨hC, hrest⟩
    rcases ih hrest hend with ⟨hnext, htail⟩
    refine ⟨halive s e hC hnext, ?_⟩
    calc output s e ++ total step output (step s e) es ++ held (run step s (e :: es))
        = output s e ++ (held (step s e) ++ total step input (step s e) es) := by
          rw [List.append_assoc]
          exact congrArg _ htail
      _ = held s ++ (input s e ++ total step input (step s e) es) := by
          rw [← List.append_assoc, hstep s e hC hnext, List.append_assoc]

/-- What a machine gives out when each step writes it to the end of a log. -/
theorem total_logged (log : σ → List α) (output : σ → ε → List α) {step : σ → ε → σ}
    {C : σ → ε → Prop} (hstep : ∀ s e, C s e → log (step s e) = log s ++ output s e) {s : σ}
    {es : List ε} (h : Along step C s es) : log (run step s es) = log s ++ total step output s es := by
  induction es generalizing s with
  | nil => simp
  | cons e es ih =>
    rw [Machine.run_cons, ih h.2, hstep s e h.1, List.append_assoc, total_cons]

/-- Where each step pays for the items it gives out with what is held and what is earned in it, so
does a run. -/
theorem length_total_add_le (inv : σ → Prop) (held earned : σ → Nat) (output : σ → ε → List α)
    {step : σ → ε → σ} {C : σ → ε → Prop} (hinv : ∀ s e, inv s → C s e → inv (step s e))
    (hstep : ∀ s e, inv s → C s e →
      earned s + (output s e).length + held (step s e) ≤ earned (step s e) + held s) {s : σ}
    (hs : inv s) {es : List ε} (h : Along step C s es) :
    earned s + (total step output s es).length + held (run step s es) ≤
      earned (run step s es) + held s := by
  induction es generalizing s with
  | nil => exact Nat.le_refl _
  | cons e es ih =>
    have hfirst := hstep s e hs h.1
    have hrest := ih (hinv s e hs h.1) h.2
    rw [total_cons, List.length_append, Machine.run_cons]
    omega

/-- Where each step raises a level by the number of items it gives out, or more, a run raises it by
the number of all of them, or more. -/
theorem length_total_le (inv : σ → Prop) (level : σ → Nat) (output : σ → ε → List α)
    {step : σ → ε → σ} (hinv : ∀ s e, inv s → inv (step s e))
    (hstep : ∀ s e, inv s → level s + (output s e).length ≤ level (step s e)) {s : σ} (hs : inv s)
    (es : List ε) : level s + (total step output s es).length ≤ level (run step s es) :=
  length_total_add_le inv (fun _ => 0) level output (fun s e h _ => hinv s e h)
    (fun s e h _ => hstep s e h) hs (Machine.along_of_forall (fun _ _ => trivial) es)

end Flow
