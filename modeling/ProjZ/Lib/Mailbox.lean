import Mathlib.Data.List.Basic
import Mathlib.Logic.Function.Iterate
import ProjZ.Lib.Runs

/-!
# Mailboxes: devices read one item at a time

A mailbox holds a store and the rest of the answer to the last message. A message
replaces both, so an answer read only in part is dropped; a read takes the next
item, or a filler when nothing is left.

`Refines` says that a device with more state than that (a reply state machine, a
counter) behaves as a mailbox: an abstraction function that its operations
commute with, under an invariant they keep. `Refines.reply` is then all that can
be said of its replies: after any history, the reads that follow a message see the
answer to that message and then fillers.
-/

namespace Mailbox

universe u v w x

variable {σ : Type u} {ρ : Type v} {μ : Type w} {β : Type x}

/-- A store and the items still to be read. -/
structure Box (ρ : Type v) (β : Type x) where
  store : ρ
  out : List β

/-- What messages do to the store, and what they are answered in the store they leave. -/
structure Spec (ρ : Type v) (μ : Type w) (β : Type x) where
  effect : μ → ρ → ρ
  answer : μ → ρ → List β
  filler : β

/-- The operations of a device. -/
inductive Call (μ : Type w) where
  | post (m : μ)
  | read

/-- A device: a message handler and a read. -/
structure Device (σ : Type u) (μ : Type w) (β : Type x) where
  post : μ → σ → σ
  read : σ → β × σ

/-- The mailbox of a specification. -/
def Spec.box (S : Spec ρ μ β) : Device (Box ρ β) μ β where
  post m b := ⟨S.effect m b.store, S.answer m (S.effect m b.store)⟩
  read b := (b.out.headD S.filler, ⟨b.store, b.out.tail⟩)

namespace Device

variable (D : Device σ μ β)

/-- One operation. -/
def step (s : σ) : Call μ → σ
  | .post m => D.post m s
  | .read => (D.read s).2

/-- One operation, with the item a read returns. -/
def act (s : σ) : Call μ → σ × List β
  | .post m => (D.post m s, [])
  | .read => ((D.read s).2, [(D.read s).1])

/-- The state after `k` reads. -/
def afterReads (k : Nat) (s : σ) : σ := (fun t => (D.read t).2)^[k] s

/-- What the read after `k` reads returns. -/
def readAt (k : Nat) (s : σ) : β := (D.read (D.afterReads k s)).1

@[simp] theorem afterReads_zero (s : σ) : D.afterReads 0 s = s := rfl

theorem afterReads_succ (k : Nat) (s : σ) :
    D.afterReads (k + 1) s = (D.read (D.afterReads k s)).2 :=
  Function.iterate_succ_apply' ..

end Device

/-- `k` reads of a mailbox drop `k` items and leave the store alone. -/
theorem Spec.box_afterReads (S : Spec ρ μ β) (k : Nat) (b : Box ρ β) :
    S.box.afterReads k b = ⟨b.store, b.out.drop k⟩ := by
  induction k with
  | zero => rfl
  | succ k ih =>
    rw [Device.afterReads_succ, ih]
    simp [Spec.box]

/-- `D` behaves as the mailbox of `S`: `abs` commutes with its operations in the
states that satisfy `Inv`, which they preserve. -/
structure Refines (D : Device σ μ β) (S : Spec ρ μ β) (abs : σ → Box ρ β)
    (Inv : σ → Prop) : Prop where
  inv_post : ∀ m s, Inv s → Inv (D.post m s)
  inv_read : ∀ s, Inv s → Inv (D.read s).2
  abs_post : ∀ m s, Inv s → abs (D.post m s) = S.box.post m (abs s)
  abs_read : ∀ s, Inv s → abs (D.read s).2 = (S.box.read (abs s)).2
  read_fst : ∀ s, Inv s → (D.read s).1 = (S.box.read (abs s)).1

namespace Refines

variable {D : Device σ μ β} {S : Spec ρ μ β} {abs : σ → Box ρ β} {Inv : σ → Prop}

/-- The invariant holds in every reachable state. -/
theorem inv_run (h : Refines D S abs Inv) {s : σ} (h0 : Inv s) (cs : List (Call μ)) :
    Inv (Runs.run D.step s cs) := by
  refine Runs.run_invariant h0 ?_ cs
  intro c t ht
  cases c with
  | post m => exact h.inv_post m t ht
  | read => exact h.inv_read t ht

/-- An operation, and what it returns, as the mailbox has it. -/
theorem act (h : Refines D S abs Inv) {s : σ} (hs : Inv s) (c : Call μ) :
    Inv (D.act s c).1 ∧ S.box.act (abs s) c = (abs (D.act s c).1, (D.act s c).2) := by
  cases c with
  | post m => exact ⟨h.inv_post m s hs, Prod.ext (h.abs_post m s hs).symm rfl⟩
  | read =>
    refine ⟨h.inv_read s hs, Prod.ext (h.abs_read s hs).symm ?_⟩
    exact congrArg (fun b => [b]) (h.read_fst s hs).symm

/-- All the items that the reads of a run return are those of the mailbox. -/
theorem outputs_act (h : Refines D S abs Inv) {s : σ} (h0 : Inv s) (cs : List (Call μ)) :
    abs (Runs.final D.act s cs) = Runs.final S.box.act (abs s) cs ∧
      Runs.outputs D.act s cs = Runs.outputs S.box.act (abs s) cs := by
  have hview := Runs.outputs_view D.act S.box.act abs some (P := Inv)
    (fun c t ht => (h.act ht c).1) (fun _ _ _ hc => nomatch hc) ?_ h0 cs
  · rwa [List.filterMap_some] at hview
  · rintro c _ t ht ⟨⟩
    exact (h.act ht c).2

/-- Reads keep the invariant and follow the mailbox. -/
theorem afterReads (h : Refines D S abs Inv) {s : σ} (h0 : Inv s) (k : Nat) :
    Inv (D.afterReads k s) ∧
      abs (D.afterReads k s) = ⟨(abs s).store, (abs s).out.drop k⟩ := by
  rw [← S.box_afterReads]
  induction k with
  | zero => exact ⟨h0, rfl⟩
  | succ k ih =>
    rw [Device.afterReads_succ, Device.afterReads_succ]
    refine ⟨h.inv_read _ ih.1, ?_⟩
    rw [h.abs_read _ ih.1, ih.2]

/-- The `k`-th read returns the `k`-th pending item, or the filler. -/
theorem readAt (h : Refines D S abs Inv) {s : σ} (h0 : Inv s) (k : Nat) :
    D.readAt k s = (abs s).out.getD k S.filler := by
  obtain ⟨hinv, habs⟩ := h.afterReads h0 k
  rw [Device.readAt, h.read_fst _ hinv, habs]
  simp [Spec.box]

/-- **Replies are history-free**: the reads that follow a message see its answer. -/
theorem reply (h : Refines D S abs Inv) {s : σ} (h0 : Inv s) (m : μ) (k : Nat) :
    D.readAt k (D.post m s) =
      (S.answer m (S.effect m (abs s).store)).getD k S.filler := by
  rw [h.readAt (h.inv_post m s h0), h.abs_post m s h0]
  rfl

end Refines

end Mailbox
