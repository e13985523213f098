import Mathlib.Data.List.Induction

/-!
# Runs

A machine answers each command and goes to another state. A run is what it answers
to a list of commands, and where it ends. Two machines whose states are related, and
stay related through every command that both answer alike, answer every list of
commands alike.
-/

namespace LiveCollections

variable {S T C A : Type}

def run (step : S → C → A × S) (s : S) : List C → List A × S
  | [] => ([], s)
  | c :: cs =>
    let (answer, t) := step s c
    let (answers, last) := run step t cs
    (answer :: answers, last)

theorem run_cons (step : S → C → A × S) (s : S) (c : C) (cs : List C) :
    run step s (c :: cs) =
      ((step s c).1 :: (run step (step s c).2 cs).1, (run step (step s c).2 cs).2) := rfl

theorem run_append (step : S → C → A × S) (s : S) (cs more : List C) :
    run step s (cs ++ more) =
      ((run step s cs).1 ++ (run step (run step s cs).2 more).1,
        (run step (run step s cs).2 more).2) := by
  induction cs generalizing s with
  | nil => rfl
  | cons c cs ih =>
    rw [List.cons_append, run_cons, ih]
    rfl

theorem run_concat (step : S → C → A × S) (s : S) (cs : List C) (c : C) :
    run step s (cs ++ [c]) =
      ((run step s cs).1 ++ [(step (run step s cs).2 c).1], (step (run step s cs).2 c).2) :=
  run_append step s cs [c]

theorem run_flatMap {step : S → C → A × S} {parts : C → List C}
    (same : ∀ s c, (run step s (parts c)).2 = (step s c).2) (s : S) (cs : List C) :
    (run step s (cs.flatMap parts)).2 = (run step s cs).2 := by
  induction cs generalizing s with
  | nil => rfl
  | cons c cs ih =>
    rw [List.flatMap_cons, run_append, same]
    exact ih _

/-- The invariant may speak of the commands so far. -/
theorem run_invariant {step : S → C → A × S} {s : S} {I : List C → S → Prop} (init : I [] s)
    (kept : ∀ history s c, I history s → I (history ++ [c]) (step s c).2) (cs : List C) :
    I cs (run step s cs).2 := by
  induction cs using List.reverseRecOn with
  | nil => exact init
  | append_singleton cs c ih =>
    rw [run_concat]
    exact kept _ _ c ih

theorem run_answers {step : S → C → A × S} {s : S} {I : S → Prop} {P : A → Prop} (init : I s)
    (kept : ∀ s c, I s → P (step s c).1 ∧ I (step s c).2) (cs : List C) :
    (∀ answer ∈ (run step s cs).1, P answer) ∧ I (run step s cs).2 := by
  induction cs generalizing s with
  | nil => exact ⟨nofun, init⟩
  | cons c cs ih =>
    obtain ⟨answer, after⟩ := kept s c init
    obtain ⟨answers, last⟩ := ih after
    rw [run_cons]
    exact ⟨List.forall_mem_cons.mpr ⟨answer, answers⟩, last⟩

theorem run_simulates {step : S → C → A × S} {step' : T → C → A × T} {s : S} {t : T}
    {R : List C → S → T → Prop} (init : R [] s t)
    (kept : ∀ history s t c, R history s t →
      (step s c).1 = (step' t c).1 ∧ R (history ++ [c]) (step s c).2 (step' t c).2)
    (cs : List C) :
    (run step s cs).1 = (run step' t cs).1 ∧ R cs (run step s cs).2 (run step' t cs).2 := by
  induction cs using List.reverseRecOn with
  | nil => exact ⟨rfl, init⟩
  | append_singleton cs c ih =>
    obtain ⟨answers, related⟩ := ih
    obtain ⟨answer, related⟩ := kept _ _ _ c related
    rw [run_concat, run_concat, answers, answer]
    exact ⟨rfl, related⟩

end LiveCollections
