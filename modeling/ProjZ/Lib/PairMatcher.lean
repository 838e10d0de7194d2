import Mathlib.Data.List.Infix

/-!
# A matcher that does not look back

The search for a pair `a b` that keeps one bit: whether the last element was taken for the
`a`. After a mismatch it starts anew with the element that follows, so that the second
of two `a`s is spent on the mismatch. In a run of `a`s every other one is taken, and the
`b` after the run is seen exactly when the run is odd (`hits_concat`).
-/

namespace PairMatcher

variable {α : Type} {a b : α} {s : List α}

/-- The text ends in an odd run of `a`s and a `b`. -/
def Hits (a b : α) (s : List α) : Prop :=
  ∃ x k, s = x ++ List.replicate (2 * k + 1) a ++ [b] ∧ x.getLast? ≠ some a

/-- No beginning of the text does. -/
def NoHit (a b : α) (s : List α) : Prop := ∀ p, p <+: s → ¬ Hits a b p

/-- The text does, and no shorter beginning of it. -/
structure FirstHit (a b : α) (s : List α) : Prop where
  hits : Hits a b s
  first : ∀ p, p <+: s → Hits a b p → p = s

theorem not_hits_nil (a b : α) : ¬ Hits a b [] := by
  rintro ⟨x, k, heq, -⟩
  exact absurd heq.symm (List.append_ne_nil_of_right_ne_nil _ (List.cons_ne_nil b []))

/-- What is seen ends in the pair. -/
theorem Hits.pair (h : Hits a b s) : ∃ x, s = x ++ [a, b] := by
  obtain ⟨x, k, rfl, -⟩ := h
  refine ⟨x ++ List.replicate (2 * k) a, ?_⟩
  rw [List.replicate_succ', ← List.append_assoc, List.append_assoc _ [a] [b]]
  rfl

theorem noHit_nil (a b : α) : NoHit a b [] := by
  intro p hp
  rw [List.prefix_nil.mp hp]
  exact not_hits_nil a b

theorem NoHit.concat (h : NoHit a b s) {c : α} (hc : ¬ Hits a b (s ++ [c])) :
    NoHit a b (s ++ [c]) := by
  intro p hp
  rcases List.prefix_concat_iff.mp hp with rfl | hp
  · exact hc
  · exact h p hp

theorem NoHit.firstHit (h : NoHit a b s) {c : α} (hc : Hits a b (s ++ [c])) :
    FirstHit a b (s ++ [c]) := by
  refine ⟨hc, ?_⟩
  intro p hp hhits
  rcases List.prefix_concat_iff.mp hp with rfl | hp
  · rfl
  · exact absurd hhits (h p hp)

/-! ## The bit -/

variable [DecidableEq α]

/-- The bit after one more element. -/
def next (a : α) (held : Bool) (c : α) : Bool := decide (c = a) && !held

/-- The bit after a text. -/
def held (a : α) (s : List α) : Bool := s.foldl (next a) false

@[simp] theorem held_concat (a : α) (s : List α) (c : α) :
    held a (s ++ [c]) = next a (held a s) c := List.foldl_concat ..

/-- A run of `a`s flips the bit once for each of them. -/
theorem held_replicate (a : α) {x : List α} (hx : held a x = false) (n : Nat) :
    held a (x ++ List.replicate n a) = decide (n % 2 = 1) := by
  induction n with
  | zero =>
    rw [List.replicate_zero, List.append_nil, hx]
    rfl
  | succ n ih =>
    rw [List.replicate_succ', ← List.append_assoc, held_concat, ih, next, decide_eq_true rfl,
      Bool.true_and, ← decide_not, decide_eq_decide]
    omega

/-- A text that does not end in `a` leaves the bit clear. -/
theorem held_of_getLast (h : s.getLast? ≠ some a) : held a s = false := by
  rcases List.eq_nil_or_concat' s with rfl | ⟨y, c, rfl⟩
  · rfl
  · have hc : c ≠ a := by
      rintro rfl
      exact h List.getLast?_concat
    rw [held_concat, next, decide_eq_false hc, Bool.false_and]

/-- Every text ends in a run of `a`s, which may be empty. -/
theorem exists_run (a : α) (s : List α) :
    ∃ x n, s = x ++ List.replicate n a ∧ x.getLast? ≠ some a := by
  induction s using List.reverseRecOn with
  | nil => exact ⟨[], 0, rfl, nofun⟩
  | append_singleton s c ih =>
    by_cases hc : c = a
    · obtain ⟨x, n, hs, hx⟩ := ih
      refine ⟨x, n + 1, ?_, hx⟩
      rw [hc, hs, List.replicate_succ', List.append_assoc]
    · refine ⟨s ++ [c], 0, (List.append_nil _).symm, ?_⟩
      rw [List.getLast?_concat]
      rintro ⟨⟩
      exact hc rfl

/-- **The `b` is seen exactly when the bit is set.** -/
theorem hits_concat {c : α} : Hits a b (s ++ [c]) ↔ c = b ∧ held a s = true := by
  constructor
  · rintro ⟨x, k, heq, hx⟩
    obtain ⟨rfl, hc⟩ := List.append_inj' heq rfl
    refine ⟨(List.cons.inj hc).1, ?_⟩
    rw [held_replicate a (held_of_getLast hx), decide_eq_true_iff]
    omega
  · rintro ⟨rfl, hheld⟩
    obtain ⟨x, n, rfl, hx⟩ := exists_run a s
    rw [held_replicate a (held_of_getLast hx), decide_eq_true_iff] at hheld
    refine ⟨x, n / 2, ?_, hx⟩
    rw [show 2 * (n / 2) + 1 = n by omega]

/-- A text without `a`s hides no pair. -/
theorem firstHit_of_notMem (b : α) (h : a ∉ s) : FirstHit a b (s ++ [a] ++ [b]) := by
  have hno : NoHit a b s := by
    intro p hp hhits
    obtain ⟨x, rfl⟩ := hhits.pair
    exact h (hp.subset (List.mem_append_right _ (List.mem_cons_self ..)))
  have hheld : held a s = false := held_of_getLast fun hlast => h (List.mem_of_getLast? hlast)
  have hno' : NoHit a b (s ++ [a]) := by
    refine hno.concat ?_
    rw [hits_concat, hheld]
    exact fun hh => Bool.false_ne_true hh.2
  refine hno'.firstHit (hits_concat.mpr ⟨rfl, ?_⟩)
  rw [held_concat, hheld, next, decide_eq_true rfl]
  rfl

end PairMatcher
