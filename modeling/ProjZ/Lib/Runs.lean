import Mathlib.Data.List.Induction
import Mathlib.Data.List.Infix

/-!
# Runs of deterministic machines

A machine is a step function on states and events; a run feeds it a list of
events. Three rules carry every fact about runs in this development:

- `run_invariant`: what the start satisfies and every step preserves holds after
  every run;
- `run_past`: the same for a property that also mentions the events so far, listed
  newest first, for facts such as "since the last event of that kind";
- `run_always_iff`: the exact condition on the steps of a run for a property to hold
  after each of its prefixes.

For machines whose steps emit outputs, `final` and `outputs` are the two halves of a
run; `kept_or_lost` is the rule for a property that is lost for good,
`outputs_eq_of_bisim` the one for "an observer sees no difference", and `outputs_view` the
one for a part of the state that only some of the events concern.
-/

namespace Runs

universe u v w

variable {σ : Type u} {τ : Type v} {ε : Type w}

/-- The state after a list of events. -/
def run (step : σ → ε → σ) (s : σ) (es : List ε) : σ := es.foldl step s

variable {step : σ → ε → σ}

theorem run_append (s : σ) (es fs : List ε) :
    run step s (es ++ fs) = run step (run step s es) fs := List.foldl_append

@[simp] theorem run_concat (s : σ) (es : List ε) (e : ε) :
    run step s (es ++ [e]) = step (run step s es) e := by
  rw [run_append]
  rfl

/-- A run along a past, newest event first, ends with the newest event. -/
@[simp] theorem run_reverse_cons (s : σ) (e : ε) (past : List ε) :
    run step s (e :: past).reverse = step (run step s past.reverse) e := by
  rw [List.reverse_cons, run_concat]

/-- **Induction over runs with their past**, newest event first. -/
theorem run_past {I : List ε → σ → Prop} {s : σ} (h0 : I [] s)
    (hstep : ∀ past e t, I past t → I (e :: past) (step t e)) (past : List ε) :
    I past (run step s past.reverse) := by
  induction past with
  | nil => exact h0
  | cons e past ih =>
    rw [run_reverse_cons]
    exact hstep past e _ ih

/-- **Invariants hold in every reachable state.** -/
theorem run_invariant {P : σ → Prop} {s : σ} (h0 : P s)
    (hstep : ∀ e t, P t → P (step t e)) (es : List ε) : P (run step s es) := by
  have h := run_past (I := fun _ t => P t) h0 (fun _ e t => hstep e t) es.reverse
  rwa [List.reverse_reverse] at h

/-- **Properties held all along**: when a step keeps `P` exactly if `G` allows it, `P` holds
after every prefix of a run exactly if `G` allows every step of the run. -/
theorem run_always_iff {P : σ → Prop} {G : σ → ε → Prop} {s : σ} (h0 : P s)
    (hstep : ∀ e t, P t → (P (step t e) ↔ G t e)) (es : List ε) :
    (∀ pre suf, es = pre ++ suf → P (run step s pre)) ↔
      ∀ pre e suf, es = pre ++ e :: suf → G (run step s pre) e := by
  constructor
  · intro h pre e suf hsplit
    have hnext := h (pre ++ [e]) suf (by rw [hsplit, List.append_assoc]; rfl)
    rw [run_concat] at hnext
    exact (hstep e _ (h pre (e :: suf) hsplit)).mp hnext
  · intro h pre
    induction pre using List.reverseRecOn with
    | nil =>
      intro _ _
      exact h0
    | append_singleton pre e ih =>
      intro suf hsplit
      have hsplit' : es = pre ++ e :: suf := by
        rw [hsplit, List.append_assoc]
        rfl
      rw [run_concat]
      exact (hstep e _ (ih (e :: suf) hsplit')).mpr (h pre e suf hsplit')

/-! ## Machines with outputs -/

section Outputs

universe x y

variable {ο : Type x} {ι : Type y}

/-- The state after a run of a machine whose steps also emit outputs. -/
def final (act : σ → ε → σ × List ο) (s : σ) (es : List ε) : σ :=
  run (fun t e => (act t e).1) s es

/-- All outputs of a run, in order. -/
def outputs (act : σ → ε → σ × List ο) : σ → List ε → List ο
  | _, [] => []
  | s, e :: es => (act s e).2 ++ outputs act (act s e).1 es

variable {act : σ → ε → σ × List ο} {act' : τ → ε → τ × List ο}

theorem final_append (s : σ) (es fs : List ε) :
    final act s (es ++ fs) = final act (final act s es) fs := run_append s es fs

@[simp] theorem outputs_cons (s : σ) (e : ε) (es : List ε) :
    outputs act s (e :: es) = (act s e).2 ++ outputs act (act s e).1 es := rfl

theorem outputs_append (s : σ) (es fs : List ε) :
    outputs act s (es ++ fs) = outputs act s es ++ outputs act (final act s es) fs := by
  induction es generalizing s with
  | nil => rfl
  | cons e es ih =>
    rw [List.cons_append, outputs_cons, outputs_cons, ih, List.append_assoc]
    rfl

@[simp] theorem final_concat (s : σ) (es : List ε) (e : ε) :
    final act s (es ++ [e]) = (act (final act s es) e).1 := run_concat s es e

@[simp] theorem outputs_concat (s : σ) (es : List ε) (e : ε) :
    outputs act s (es ++ [e]) = outputs act s es ++ (act (final act s es) e).2 := by
  rw [outputs_append, outputs_cons, outputs, List.append_nil]

/-- Invariants of the state and the outputs so far. -/
theorem outputs_invariant (act : σ → ε → σ × List ο) {P : σ → List ο → Prop} {s : σ} (h0 : P s [])
    (hstep : ∀ e t os, P t os → P (act t e).1 (os ++ (act t e).2)) (es : List ε) :
    P (final act s es) (outputs act s es) := by
  induction es using List.reverseRecOn with
  | nil => exact h0
  | append_singleton es e ih =>
    rw [final_concat, outputs_concat]
    exact hstep e _ _ ih

/-- **Properties lost for good**: when the steps that `G` allows keep `P`, the others lead to
`Q`, and `Q` stays, a run ends in `P` with all its steps allowed, or in `Q` with one that is
not. Both properties may speak of the outputs so far. -/
theorem kept_or_lost (act : σ → ε → σ × List ο) {P Q : σ → List ο → Prop} {G : σ → ε → Prop}
    {s : σ} (h0 : P s [])
    (hkeep : ∀ e t os, P t os → G t e → P (act t e).1 (os ++ (act t e).2))
    (hlose : ∀ e t os, P t os → ¬ G t e → Q (act t e).1 (os ++ (act t e).2))
    (hlost : ∀ e t os, Q t os → Q (act t e).1 (os ++ (act t e).2)) (es : List ε) :
    (P (final act s es) (outputs act s es) ∧
        ∀ pre e suf, es = pre ++ e :: suf → G (final act s pre) e) ∨
      (Q (final act s es) (outputs act s es) ∧
        ∃ pre e suf, es = pre ++ e :: suf ∧ ¬ G (final act s pre) e) := by
  induction es using List.reverseRecOn with
  | nil =>
    refine Or.inl ⟨h0, ?_⟩
    intro pre e suf hsplit
    exact absurd hsplit.symm (List.append_ne_nil_of_right_ne_nil _ (List.cons_ne_nil e suf))
  | append_singleton es e ih =>
    rw [final_concat, outputs_concat]
    rcases ih with ⟨hP, hall⟩ | ⟨hQ, pre, f, suf, rfl, hbad⟩
    · -- nothing is lost yet, so it depends on the last step
      by_cases hG : G (final act s es) e
      · refine Or.inl ⟨hkeep e _ _ hP hG, ?_⟩
        intro pre f suf hsplit
        rcases List.eq_nil_or_concat' suf with rfl | ⟨suf, g, rfl⟩
        · obtain ⟨rfl, hf⟩ := List.append_inj' hsplit rfl
          obtain rfl : e = f := (List.cons.inj hf).1
          exact hG
        · rw [← List.cons_append, ← List.append_assoc] at hsplit
          obtain ⟨rfl, -⟩ := List.append_inj' hsplit rfl
          exact hall pre f suf rfl
      · exact Or.inr ⟨hlose e _ _ hP hG, es, e, [], rfl, hG⟩
    · refine Or.inr ⟨hlost e _ _ hQ, pre, f, suf ++ [e], ?_, hbad⟩
      -- lost before, and lost it stays
      rw [List.append_assoc, List.cons_append]

/-- **Bisimulation**: related machines that answer every event alike emit the same
outputs and stay related. -/
theorem outputs_eq_of_bisim {R : σ → τ → Prop}
    (hstep : ∀ e s t, R s t → R (act s e).1 (act' t e).1 ∧ (act s e).2 = (act' t e).2)
    {s : σ} {t : τ} (h0 : R s t) (es : List ε) :
    R (final act s es) (final act' t es) ∧ outputs act s es = outputs act' t es := by
  induction es generalizing s t with
  | nil => exact ⟨h0, rfl⟩
  | cons e es ih =>
    obtain ⟨hR, hout⟩ := hstep e s t h0
    obtain ⟨hfinal, hrest⟩ := ih hR
    refine ⟨hfinal, ?_⟩
    rw [outputs_cons, outputs_cons, hout, hrest]

/-- **A view that some events leave alone**: if the others act on the view as events of a machine
of its own, a run looks through the view like the run of that machine on those events. -/
theorem outputs_view (act : σ → ε → σ × List ο) (act' : τ → ι → τ × List ο) (view : σ → τ)
    (part : ε → Option ι) {P : σ → Prop} (hinv : ∀ e s, P s → P (act s e).1)
    (hskip : ∀ e s, P s → part e = none → view (act s e).1 = view s ∧ (act s e).2 = [])
    (hkeep : ∀ e i s, P s → part e = some i →
      act' (view s) i = (view (act s e).1, (act s e).2))
    {s : σ} (h0 : P s) (es : List ε) :
    view (final act s es) = final act' (view s) (es.filterMap part) ∧
      outputs act s es = outputs act' (view s) (es.filterMap part) := by
  induction es generalizing s with
  | nil => exact ⟨rfl, rfl⟩
  | cons e es ih =>
    obtain ⟨hfinal, hrest⟩ := ih (hinv e s h0)
    rw [outputs_cons, hrest]
    cases he : part e with
    | none =>
      obtain ⟨hview, hnone⟩ := hskip e s h0 he
      rw [List.filterMap_cons_none he, hnone, List.nil_append]
      rw [hview] at hfinal ⊢
      exact ⟨hfinal, rfl⟩
    | some i =>
      have hact := hkeep e i s h0 he
      rw [List.filterMap_cons_some he, outputs_cons, hact]
      refine ⟨?_, rfl⟩
      show view (final act (act s e).1 es) = final act' (act' (view s) i).1 (es.filterMap part)
      rw [hact]
      exact hfinal

/-- The same of a machine without outputs. -/
theorem run_view (step : σ → ε → σ) (step' : τ → ι → τ) (view : σ → τ) (part : ε → Option ι)
    (hskip : ∀ e s, part e = none → view (step s e) = view s)
    (hkeep : ∀ e i s, part e = some i → view (step s e) = step' (view s) i)
    (s : σ) (es : List ε) :
    view (run step s es) = run step' (view s) (es.filterMap part) :=
  (outputs_view (fun s e => (step s e, ([] : List Unit))) (fun t i => (step' t i, [])) view part
    (P := fun _ => True) (fun _ _ _ => trivial) (fun e s _ he => ⟨hskip e s he, rfl⟩)
    (fun e i s _ he => Prod.ext (hkeep e i s he).symm rfl) trivial es).1

end Outputs

end Runs
