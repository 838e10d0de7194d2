import ProjZ.Lib.Runs
import Mathlib.Logic.Function.Basic

/-!
# Threads around one mutex

Threads that share data under one mutex with one condition variable, as POSIX has them. A
program tells the next operation of a thread from its local state and an input of the
environment; the scheduler runs any thread at any time, and a wait on the condition may
also end without a broadcast.

- `Sound.run`: the rule for such programs. A resource invariant `free` speaks of the
  shared data while nobody owns the mutex, `held` of the data and the owner while
  somebody does, `out` of every other thread on its own. What each operation preserves by
  itself, every interleaving preserves.
- `Sound.owner_of_writes`: under the rule, only the owner writes the shared data.
- `Sound.released`: a thread whose operations under the mutex have a decreasing rank gives the
  mutex back, whatever runs in between; `Sound.kept`: one that never gives it back keeps it.
-/

namespace Monitor

open Runs

universe u v w x y z

/-- The next operation of a thread: `α` are the local states, `ρ` the shared data, `η` what
a broadcast announces and `ο` what a thread emits on its own. -/
inductive Op (α : Type u) (ρ : Type v) (η : Type w) (ο : Type x) where
  | go (next : α) (out : List ο)
  | lock (next : α)
  | unlock (next : α)
  /-- Reads and writes of the shared data. -/
  | access (f : ρ → ρ × α)
  /-- `pthread_cond_wait`: the mutex is given back, and taken again at the end. -/
  | wait (next : α)
  /-- `pthread_cond_broadcast`. -/
  | broadcast (next : α) (news : η)

/-- A thread waits for the signal, waits for the mutex after it, or does neither. -/
inductive Status where
  | running
  | asleep
  | signalled
deriving DecidableEq, Repr

/-- A thread, with what it has emitted. -/
structure Thread (α : Type u) (ο : Type x) where
  loc : α
  status : Status
  sent : List ο

/-- The state of all threads, with what the broadcasts have announced. -/
structure State (τ : Type y) (α : Type u) (ρ : Type v) (η : Type w) (ο : Type x) where
  shared : ρ
  owner : Option τ
  thread : τ → Thread α ο
  news : List η

/-- What the scheduler does: let a thread run, or end its wait without a broadcast. -/
inductive Event (τ : Type y) (ε : Type z) where
  | run (t : τ) (input : ε)
  | wake (t : τ)

/-- The next operation of a thread, by its local state and an input from outside. -/
abbrev Program (τ : Type y) (α : Type u) (ρ : Type v) (η : Type w) (ο : Type x)
    (ε : Type z) := τ → α → ε → Op α ρ η ο

variable {τ : Type y} {α : Type u} {ρ : Type v} {η : Type w} {ο : Type x} {ε : Type z}

/-- The effect of a signal. -/
def Thread.wake (th : Thread α ο) : Thread α ο :=
  match th.status with
  | .asleep => { th with status := .signalled }
  | _ => th

theorem Thread.wake_of_ne {th : Thread α ο} (h : th.status ≠ .asleep) : th.wake = th := by
  unfold Thread.wake
  cases hst : th.status with
  | asleep => exact absurd hst h
  | running => rfl
  | signalled => rfl

@[simp] theorem Thread.wake_loc (th : Thread α ο) : th.wake.loc = th.loc := by
  unfold Thread.wake
  split <;> rfl

@[simp] theorem Thread.wake_sent (th : Thread α ο) : th.wake.sent = th.sent := by
  unfold Thread.wake
  split <;> rfl

variable [DecidableEq τ]

/-- The state after an operation of a running thread. A `lock` of a taken mutex blocks. -/
def State.perform (s : State τ α ρ η ο) (t : τ) : Op α ρ η ο → State τ α ρ η ο
  | .go next out =>
    { s with
      thread := Function.update s.thread t
        { s.thread t with loc := next, sent := (s.thread t).sent ++ out } }
  | .lock next =>
    if s.owner = none then
      { s with
        owner := some t
        thread := Function.update s.thread t { s.thread t with loc := next } }
    else s
  | .unlock next =>
    { s with
      owner := none
      thread := Function.update s.thread t { s.thread t with loc := next } }
  | .access f =>
    { s with
      shared := (f s.shared).1
      thread := Function.update s.thread t { s.thread t with loc := (f s.shared).2 } }
  | .wait next =>
    { s with
      owner := none
      thread := Function.update s.thread t { s.thread t with loc := next, status := .asleep } }
  | .broadcast next news =>
    { s with
      -- everyone who waits is signalled, and has to get the mutex then
      thread := Function.update (fun u => (s.thread u).wake) t { s.thread t with loc := next }
      news := s.news ++ [news] }

/-- One step of the scheduler. -/
def step (prog : Program τ α ρ η ο ε) (s : State τ α ρ η ο) : Event τ ε → State τ α ρ η ο
  | .wake t => { s with thread := Function.update s.thread t (s.thread t).wake }
  | .run t input =>
    match (s.thread t).status with
    | .asleep => s
    | .signalled =>
      if s.owner = none then
        { s with
          owner := some t
          thread := Function.update s.thread t { s.thread t with status := .running } }
      else s
    | .running => s.perform t (prog t (s.thread t).loc input)

section Step

variable {prog : Program τ α ρ η ο ε} {s : State τ α ρ η ο} {t : τ} (input : ε)

theorem step_running (h : (s.thread t).status = .running) :
    step prog s (.run t input) = s.perform t (prog t (s.thread t).loc input) := by
  simp only [step, h]

theorem step_asleep (h : (s.thread t).status = .asleep) : step prog s (.run t input) = s := by
  simp only [step, h]

theorem step_signalled (h : (s.thread t).status = .signalled) :
    step prog s (.run t input) =
      if s.owner = none then
        { s with
          owner := some t
          thread := Function.update s.thread t { s.thread t with status := .running } }
      else s := by
  simp only [step, h]

end Step

/-- Wake-ups leave the local states alone. -/
theorem step_wake_loc (prog : Program τ α ρ η ο ε) (s : State τ α ρ η ο) (t u : τ) :
    ((step prog s (.wake u)).thread t).loc = (s.thread t).loc := by
  show (Function.update s.thread u (s.thread u).wake t).loc = _
  rcases eq_or_ne t u with rfl | hne
  · rw [Function.update_self, Thread.wake_loc]
  · rw [Function.update_of_ne hne]

/-! ## The rule -/

/-- What is to hold of the shared data while the mutex is free, of the data and the owner
while it is taken, and of each thread that does not own it. -/
structure Spec (τ : Type y) (α : Type u) (ρ : Type v) (η : Type w) (ο : Type x) where
  free : List η → ρ → Prop
  held : τ → List η → ρ → Thread α ο → Prop
  out : τ → List η → Thread α ο → Prop

namespace Spec

/-- What an operation of the owner has to establish. -/
def AfterHeld (I : Spec τ α ρ η ο) (t : τ) (news : List η) (shared : ρ) (th : Thread α ο) :
    Op α ρ η ο → Prop
  | .go next out => I.held t news shared { th with loc := next, sent := th.sent ++ out }
  | .lock _ => False
  | .unlock next => I.free news shared ∧ I.out t news { th with loc := next }
  | .access f => I.held t news (f shared).1 { th with loc := (f shared).2 }
  | .wait next => I.free news shared ∧ I.out t news { th with loc := next, status := .asleep }
  | .broadcast next n =>
    I.held t (news ++ [n]) shared { th with loc := next } ∧
      ∀ u th', u ≠ t → I.out u news th' → I.out u (news ++ [n]) th'.wake

/-- What an operation of another thread has to establish: it may look at the shared data,
whatever they are. -/
def AfterOut (I : Spec τ α ρ η ο) (t : τ) (news : List η) (th : Thread α ο) :
    Op α ρ η ο → Prop
  | .go next out => I.out t news { th with loc := next, sent := th.sent ++ out }
  | .lock next => ∀ shared, I.free news shared → I.held t news shared { th with loc := next }
  | .access f => ∀ shared, (f shared).1 = shared ∧ I.out t news { th with loc := (f shared).2 }
  | _ => False

/-- The conditions on the threads, each taken alone, for the events that are `allowed`. -/
structure Sound (I : Spec τ α ρ η ο) (prog : Program τ α ρ η ο ε)
    (allowed : Event τ ε → Prop) : Prop where
  held : ∀ t input, allowed (.run t input) → ∀ news shared th, th.status = .running →
    I.held t news shared th → I.AfterHeld t news shared th (prog t th.loc input)
  out : ∀ t input, allowed (.run t input) → ∀ news th, th.status = .running →
    I.out t news th → I.AfterOut t news th (prog t th.loc input)
  resume : ∀ t news shared th, th.status = .signalled → I.free news shared → I.out t news th →
    I.held t news shared { th with status := .running }
  wake : ∀ t, allowed (.wake t) → ∀ news th, I.out t news th → I.out t news th.wake

/-- The invariant of the whole. -/
structure Inv (I : Spec τ α ρ η ο) (s : State τ α ρ η ο) : Prop where
  free : s.owner = none → I.free s.news s.shared
  running : ∀ t, s.owner = some t → (s.thread t).status = .running
  held : ∀ t, s.owner = some t → I.held t s.news s.shared (s.thread t)
  out : ∀ t, s.owner ≠ some t → I.out t s.news (s.thread t)

variable {I : Spec τ α ρ η ο} {prog : Program τ α ρ η ο ε} {allowed : Event τ ε → Prop}
  {s : State τ α ρ η ο} {t : τ}

/-- A step that changes one thread outside the mutex. -/
theorem Inv.update_out (h : I.Inv s) (ht : s.owner ≠ some t) {th : Thread α ο}
    (hth : I.out t s.news th) :
    I.Inv { s with thread := Function.update s.thread t th } where
  free := h.free
  running u hu := by
    have hne : u ≠ t := by
      rintro rfl
      exact ht hu
    show (Function.update s.thread t th u).status = _
    rw [Function.update_of_ne hne]
    exact h.running u hu
  held u hu := by
    have hne : u ≠ t := by
      rintro rfl
      exact ht hu
    show I.held u _ _ (Function.update s.thread t th u)
    rw [Function.update_of_ne hne]
    exact h.held u hu
  out u hu := by
    show I.out u _ (Function.update s.thread t th u)
    rcases eq_or_ne u t with rfl | hne
    · rw [Function.update_self]
      exact hth
    · rw [Function.update_of_ne hne]
      exact h.out u hu

/-- A thread takes the free mutex. -/
theorem Inv.take (h : I.Inv s) (hfree : s.owner = none) {th : Thread α ο}
    (hst : th.status = .running) (hth : I.held t s.news s.shared th) :
    I.Inv { s with owner := some t, thread := Function.update s.thread t th } where
  free ht := absurd ht (Option.some_ne_none t)
  running u hu := by
    obtain rfl := Option.some.inj hu
    show (Function.update s.thread t th t).status = _
    rw [Function.update_self]
    exact hst
  held u hu := by
    obtain rfl := Option.some.inj hu
    show I.held t _ _ (Function.update s.thread t th t)
    rw [Function.update_self]
    exact hth
  out u hu := by
    have hne : u ≠ t := by
      rintro rfl
      exact hu rfl
    show I.out u _ (Function.update s.thread t th u)
    rw [Function.update_of_ne hne]
    refine h.out u ?_
    rw [hfree]
    exact nofun

/-- The owner works on the shared data. -/
theorem Inv.update_held (h : I.Inv s) (ht : s.owner = some t) {shared : ρ} {th : Thread α ο}
    (hst : th.status = .running) (hth : I.held t s.news shared th) :
    I.Inv { s with shared := shared, thread := Function.update s.thread t th } where
  free hnone := by
    rw [show s.owner = none from hnone] at ht
    exact absurd ht (Option.some_ne_none t).symm
  running u hu := by
    obtain rfl : t = u := Option.some.inj (ht.symm.trans hu)
    show (Function.update s.thread t th t).status = _
    rw [Function.update_self]
    exact hst
  held u hu := by
    obtain rfl : t = u := Option.some.inj (ht.symm.trans hu)
    show I.held t _ _ (Function.update s.thread t th t)
    rw [Function.update_self]
    exact hth
  out u hu := by
    have hne : u ≠ t := by
      rintro rfl
      exact hu ht
    show I.out u _ (Function.update s.thread t th u)
    rw [Function.update_of_ne hne]
    exact h.out u hu

/-- The owner gives the mutex back. -/
theorem Inv.release (h : I.Inv s) (ht : s.owner = some t) {th : Thread α ο}
    (hfree : I.free s.news s.shared) (hth : I.out t s.news th) :
    I.Inv { s with owner := none, thread := Function.update s.thread t th } where
  free _ := hfree
  running _ hu := absurd hu.symm (Option.some_ne_none _)
  held _ hu := absurd hu.symm (Option.some_ne_none _)
  out u _ := by
    show I.out u _ (Function.update s.thread t th u)
    rcases eq_or_ne u t with rfl | hne
    · rw [Function.update_self]
      exact hth
    · rw [Function.update_of_ne hne]
      refine h.out u ?_
      rw [ht]
      exact fun hut => hne (Option.some.inj hut).symm

/-- The owner announces `n`. -/
theorem Inv.announce (h : I.Inv s) (ht : s.owner = some t) {n : η} {next : α}
    (hheld : I.held t (s.news ++ [n]) s.shared { s.thread t with loc := next })
    (hout : ∀ u th', u ≠ t → I.out u s.news th' → I.out u (s.news ++ [n]) th'.wake) :
    I.Inv (s.perform t (.broadcast next n)) where
  free hnone := by
    rw [show s.owner = none from hnone] at ht
    exact absurd ht (Option.some_ne_none t).symm
  running u hu := by
    obtain rfl : t = u := Option.some.inj (ht.symm.trans hu)
    simp only [State.perform, Function.update_self]
    exact h.running t ht
  held u hu := by
    obtain rfl : t = u := Option.some.inj (ht.symm.trans hu)
    simp only [State.perform, Function.update_self]
    exact hheld
  out u hu := by
    have hne : u ≠ t := by
      rintro rfl
      exact hu ht
    simp only [State.perform, Function.update_of_ne hne]
    exact hout u _ hne (h.out u hu)

/-- Every operation of a running thread keeps the invariant. -/
theorem Sound.perform (hsound : I.Sound prog allowed) (h : I.Inv s)
    (hrun : (s.thread t).status = .running) {input : ε} (ha : allowed (.run t input)) :
    I.Inv (s.perform t (prog t (s.thread t).loc input)) := by
  -- the owner may do what `AfterHeld` says, any other thread what `AfterOut` says
  by_cases ht : s.owner = some t
  · have hheld := hsound.held t input ha _ _ _ hrun (h.held t ht)
    generalize prog t (s.thread t).loc input = op at hheld ⊢
    cases op with
    | go next out => exact h.update_held ht hrun hheld
    | lock next => exact hheld.elim
    | unlock next => exact h.release ht hheld.1 hheld.2
    | access f => exact h.update_held ht hrun hheld
    | wait next => exact h.release ht hheld.1 hheld.2
    | broadcast next n => exact h.announce ht hheld.1 hheld.2
  · have hout := hsound.out t input ha _ _ hrun (h.out t ht)
    generalize prog t (s.thread t).loc input = op at hout ⊢
    cases op with
    | go next out => exact h.update_out ht hout
    | lock next =>
      by_cases hfree : s.owner = none
      · rw [State.perform, if_pos hfree]
        exact h.take hfree hrun (hout _ (h.free hfree))
      · rw [State.perform, if_neg hfree]
        exact h
    | access f =>
      -- without the mutex a thread may look, but not store
      obtain ⟨hsame, hout⟩ := hout s.shared
      rw [State.perform, hsame]
      exact h.update_out ht hout
    | unlock next => exact hout.elim
    | wait next => exact hout.elim
    | broadcast next n => exact hout.elim

/-- Every step keeps the invariant. -/
theorem Sound.step (hsound : I.Sound prog allowed) (h : I.Inv s) {e : Event τ ε}
    (he : allowed e) : I.Inv (step prog s e) := by
  cases e with
  | wake t =>
    by_cases ht : s.owner = some t
    · -- the owner is running, so a wake-up finds nobody asleep
      have hrun := h.running t ht
      have hsame : (s.thread t).wake = s.thread t := Thread.wake_of_ne (by rw [hrun]; nofun)
      show I.Inv { s with thread := Function.update s.thread t (s.thread t).wake }
      rw [hsame, Function.update_eq_self]
      exact h
    · exact h.update_out ht (hsound.wake t he _ _ (h.out t ht))
  | run t input =>
    cases hst : (s.thread t).status with
    | asleep =>
      rw [step_asleep input hst]
      exact h
    | running =>
      rw [step_running input hst]
      exact hsound.perform h hst he
    | signalled =>
      rw [step_signalled input hst]
      by_cases hfree : s.owner = none
      · -- a thread that has been signalled goes on with the mutex
        have hne : s.owner ≠ some t := by
          rw [hfree]
          exact nofun
        rw [if_pos hfree]
        exact h.take hfree rfl (hsound.resume t _ _ _ hst (h.free hfree) (h.out t hne))
      · rw [if_neg hfree]
        exact h

/-- **What every thread preserves by itself holds after every interleaving.** -/
theorem Sound.run (hsound : I.Sound prog allowed) (h : I.Inv s) (es : List (Event τ ε))
    (hes : ∀ e ∈ es, allowed e) : I.Inv (run (Monitor.step prog) s es) := by
  induction es generalizing s with
  | nil => exact h
  | cons e es ih =>
    exact ih (hsound.step h (hes e List.mem_cons_self))
      fun e' he' => hes e' (List.mem_cons_of_mem e he')

/-! ## Who writes, and for how long -/

/-- **Only the owner of the mutex changes the shared data.** -/
theorem Sound.owner_of_writes (hsound : I.Sound prog allowed) (h : I.Inv s) {input : ε}
    (ha : allowed (.run t input))
    (hne : (Monitor.step prog s (.run t input)).shared ≠ s.shared) : s.owner = some t := by
  by_contra ht
  cases hst : (s.thread t).status with
  | asleep =>
    rw [step_asleep input hst] at hne
    exact hne rfl
  | signalled =>
    rw [step_signalled input hst] at hne
    -- it tries to take the mutex, and that is no store
    split at hne
    · exact hne rfl
    · exact hne rfl
  | running =>
    rw [step_running input hst] at hne
    have hout := hsound.out t input ha _ _ hst (h.out t ht)
    generalize prog t (s.thread t).loc input = op at hout hne
    cases op with
    | go next out => exact hne rfl
    | lock next =>
      unfold State.perform at hne
      dsimp only at hne
      split at hne
      · exact hne rfl
      · exact hne rfl
    | access f => exact hne (hout s.shared).1
    | unlock next => exact hout
    | wait next => exact hout
    | broadcast next n => exact hout

/-- The owner stays in `K` and goes on at a lower rank, or gives the mutex back. -/
def Lowers (K : α → Prop) (rank : α → Nat) (shared : ρ) (loc : α) : Op α ρ η ο → Prop
  | .go next _ => K next ∧ rank next < rank loc
  | .access f => K (f shared).2 ∧ rank (f shared).2 < rank loc
  | .broadcast next _ => K next ∧ rank next < rank loc
  | _ => True

/-- The owner stays in `K`, and does not give the mutex back. -/
def Keeps (K : α → Prop) (shared : ρ) : Op α ρ η ο → Prop
  | .go next _ => K next
  | .access f => K (f shared).2
  | .broadcast next _ => K next
  | _ => False

/-- How often a thread gets to run. -/
def turns (t : τ) : List (Event τ ε) → Nat
  | [] => 0
  | .run u _ :: es => (if u = t then 1 else 0) + turns t es
  | .wake _ :: es => turns t es

/-- While a thread owns the mutex, the others leave it and the mutex alone. -/
theorem Sound.step_other (hsound : I.Sound prog allowed) (h : I.Inv s) (ht : s.owner = some t)
    {u : τ} (hne : u ≠ t) {input : ε} (ha : allowed (.run u input)) :
    (Monitor.step prog s (.run u input)).owner = some t ∧
      (Monitor.step prog s (.run u input)).thread t = s.thread t := by
  have htaken : ¬ s.owner = none := by
    rw [ht]
    exact nofun
  have hu : s.owner ≠ some u := by
    rw [ht]
    exact fun h => hne (Option.some.inj h).symm
  cases hst : (s.thread u).status with
  | asleep =>
    rw [step_asleep input hst]
    exact ⟨ht, rfl⟩
  | signalled =>
    rw [step_signalled input hst, if_neg htaken]
    exact ⟨ht, rfl⟩
  | running =>
    rw [step_running input hst]
    have hout := hsound.out u input ha _ _ hst (h.out u hu)
    generalize prog u (s.thread u).loc input = op at hout
    cases op with
    | go next out => exact ⟨ht, Function.update_of_ne hne.symm _ _⟩
    | lock next =>
      -- the thread waits for the mutex
      rw [State.perform, if_neg htaken]
      exact ⟨ht, rfl⟩
    | access f => exact ⟨ht, Function.update_of_ne hne.symm _ _⟩
    | unlock next => exact hout.elim
    | wait next => exact hout.elim
    | broadcast next n => exact hout.elim

/-- An owner that keeps the mutex still has it after a step of whatever thread. -/
theorem Sound.step_kept (hsound : I.Sound prog allowed) {K : α → Prop}
    (hkeeps : ∀ t input, allowed (.run t input) → ∀ news shared th, I.held t news shared th →
      K th.loc → Keeps K shared (prog t th.loc input))
    (h : I.Inv s) (ht : s.owner = some t) (hk : K (s.thread t).loc) {e : Event τ ε}
    (he : allowed e) :
    (Monitor.step prog s e).owner = some t ∧ K ((Monitor.step prog s e).thread t).loc := by
  cases e with
  | wake u =>
    rw [step_wake_loc]
    exact ⟨ht, hk⟩
  | run u input =>
    rcases eq_or_ne u t with rfl | hne
    · have hkeep := hkeeps u input he _ _ _ (h.held u ht) hk
      rw [step_running input (h.running u ht)]
      generalize prog u (s.thread u).loc input = op at hkeep
      cases op with
      | go next out =>
        simp only [State.perform, Function.update_self]
        exact ⟨ht, hkeep⟩
      | access f =>
        simp only [State.perform, Function.update_self]
        exact ⟨ht, hkeep⟩
      | broadcast next n =>
        simp only [State.perform, Function.update_self]
        exact ⟨ht, hkeep⟩
      | lock next => exact hkeep.elim
      | unlock next => exact hkeep.elim
      | wait next => exact hkeep.elim
    · -- the other threads cannot take it away
      obtain ⟨howner, hthread⟩ := hsound.step_other h ht hne he
      rw [hthread]
      exact ⟨howner, hk⟩

/-- **The mutex is never given back** by an owner that stays where it keeps it. -/
theorem Sound.kept (hsound : I.Sound prog allowed) {K : α → Prop}
    (hkeeps : ∀ t input, allowed (.run t input) → ∀ news shared th, I.held t news shared th →
      K th.loc → Keeps K shared (prog t th.loc input))
    (h : I.Inv s) (ht : s.owner = some t) (hk : K (s.thread t).loc) (es : List (Event τ ε))
    (hes : ∀ e ∈ es, allowed e) : (Runs.run (Monitor.step prog) s es).owner = some t := by
  induction es generalizing s with
  | nil => exact ht
  | cons e es ih =>
    have he := hes e List.mem_cons_self
    obtain ⟨howner, hk⟩ := hsound.step_kept hkeeps h ht hk he
    exact ih (hsound.step h he) howner hk fun e' he' => hes e' (List.mem_cons_of_mem e he')

/-- **The mutex is given back** once its owner has had more turns than its rank, whatever
the other threads do in between. -/
theorem Sound.released (hsound : I.Sound prog allowed) {K : α → Prop} (rank : α → Nat)
    (hrank : ∀ t input, allowed (.run t input) → ∀ news shared th, I.held t news shared th →
      K th.loc → Lowers K rank shared th.loc (prog t th.loc input))
    (h : I.Inv s) (ht : s.owner = some t) (hk : K (s.thread t).loc) (es : List (Event τ ε))
    (hes : ∀ e ∈ es, allowed e) (hturns : rank (s.thread t).loc < turns t es) :
    ∃ pre, pre <+: es ∧ (Runs.run (Monitor.step prog) s pre).owner = none := by
  induction es generalizing s with
  | nil => exact absurd hturns (Nat.not_lt_zero _)
  | cons e es ih =>
    have ha := hes e List.mem_cons_self
    have hnext := hsound.step h ha
    have hrest : ∀ e' ∈ es, allowed e' := fun e' he' =>
      hes e' (List.mem_cons_of_mem e he')
    -- the rest of the run, if the owner keeps the mutex at this rank or below
    have hgo : (Monitor.step prog s e).owner = some t →
        K ((Monitor.step prog s e).thread t).loc →
        rank ((Monitor.step prog s e).thread t).loc < turns t es →
        ∃ pre, pre <+: e :: es ∧ (Runs.run (Monitor.step prog) s pre).owner = none := by
      intro howner hk hlt
      obtain ⟨pre, hpre, hnone⟩ := ih hnext howner hk hrest hlt
      exact ⟨e :: pre, List.cons_prefix_cons.mpr ⟨rfl, hpre⟩, hnone⟩
    cases e with
    | wake u =>
      rw [step_wake_loc] at hgo
      exact hgo ht hk hturns
    | run u input =>
      rcases eq_or_ne u t with rfl | hne
      · have hrun := h.running u ht
        have hlow := hrank u input ha _ _ _ (h.held u ht) hk
        have hheld := hsound.held u input ha _ _ _ hrun (h.held u ht)
        have hcount : rank (s.thread u).loc < 1 + turns u es := by
          simpa only [turns, if_pos] using hturns
        rw [step_running input hrun] at hgo
        have hstep : Monitor.step prog s (.run u input) =
            s.perform u (prog u (s.thread u).loc input) := step_running input hrun
        generalize prog u (s.thread u).loc input = op at hlow hheld hgo hstep
        -- the operation ends the critical section, or the rank goes down
        have hstop : (s.perform u op).owner = none →
            ∃ pre, pre <+: Event.run u input :: es ∧
              (Runs.run (Monitor.step prog) s pre).owner = none := by
          intro hnone
          refine ⟨[.run u input], List.prefix_append _ es, ?_⟩
          show (Monitor.step prog s (.run u input)).owner = none
          rw [hstep]
          exact hnone
        cases op with
        | go next out =>
          simp only [State.perform, Function.update_self] at hgo
          exact hgo ht hlow.1 (Nat.lt_of_lt_of_le hlow.2 (by omega))
        | access f =>
          simp only [State.perform, Function.update_self] at hgo
          exact hgo ht hlow.1 (Nat.lt_of_lt_of_le hlow.2 (by omega))
        | broadcast next n =>
          simp only [State.perform, Function.update_self] at hgo
          exact hgo ht hlow.1 (Nat.lt_of_lt_of_le hlow.2 (by omega))
        | lock next => exact hheld.elim
        | unlock next => exact hstop rfl
        | wait next => exact hstop rfl
      · obtain ⟨howner, hthread⟩ := hsound.step_other h ht hne ha
        rw [hthread] at hgo
        refine hgo howner hk ?_
        simpa only [turns, if_neg hne, Nat.zero_add] using hturns

end Spec

end Monitor
