import Mathlib.Algebra.Group.Fin.Basic
import Mathlib.Algebra.GroupWithZero.Nat
import Mathlib.Data.List.Basic
import Mathlib.Logic.Function.Basic

/-!
# A ring buffer that stores before it looks

A ring of `n` slots with a head and a tail. The element read next stands behind the tail,
the one stored last at the head, and the slot at the tail is kept free, so that at most
`n - 1` elements are unread. `push` moves the head only if that does not run into the tail,
but it stores in both cases: on a full ring the new element replaces the newest unread one
(`unread_push_full`), and not the other way round.
-/

namespace RingBuffer

variable {α : Type} {n : Nat} [NeZero n]

/-- The slots and the two positions. -/
structure Ring (α : Type) (n : Nat) where
  slots : Fin n → α
  head : Fin n
  tail : Fin n

/-- The `k` elements behind a slot. -/
def walk (slots : Fin n → α) (p : Fin n) : Nat → List α
  | 0 => []
  | k + 1 => slots (p + 1) :: walk slots (p + 1) k

namespace Ring

variable (r : Ring α n)

/-- The number of unread elements. -/
def count : Nat := (r.head - r.tail).val

/-- The unread elements, oldest first. -/
def unread : List α := walk r.slots r.tail r.count

/-- The element is stored where the head then stands, and the head moves unless the ring is full. -/
def push (a : α) : Ring α n :=
  let head := if r.head + 1 = r.tail then r.head else r.head + 1
  { r with slots := Function.update r.slots head a, head := head }

/-- The oldest unread element, and the ring without it. -/
def pop : Option (α × Ring α n) :=
  if r.tail = r.head then none
  else some (r.slots (r.tail + 1), { r with tail := r.tail + 1 })

/-- Both ends at one slot. -/
def clear (p : Fin n) : Ring α n := { r with head := p, tail := p }

end Ring

/-- An element arrives at a queue for at most `cap` of them, which drops it when it is full. -/
def arrive (cap : Nat) (queue : List α) (a : α) : List α :=
  if queue.length < cap then queue ++ [a] else queue

/-! ## Walks -/

theorem ofNat_succ (k : Nat) : Fin.ofNat n (k + 1) = Fin.ofNat n k + 1 := by
  ext
  simp [Fin.val_add]

@[simp] theorem length_walk (slots : Fin n → α) (p : Fin n) (k : Nat) :
    (walk slots p k).length = k := by
  induction k generalizing p with
  | zero => rfl
  | succ k ih => exact congrArg (· + 1) (ih (p + 1))

/-- A walk seen from its end. -/
theorem walk_succ (slots : Fin n → α) (p : Fin n) (k : Nat) :
    walk slots p (k + 1) = walk slots p k ++ [slots (p + Fin.ofNat n (k + 1))] := by
  induction k generalizing p with
  | zero =>
    have hone : Fin.ofNat n (0 + 1) = 1 := by
      rw [ofNat_succ 0, Fin.ofNat_zero]
      exact zero_add 1
    show [slots (p + 1)] = [slots (p + Fin.ofNat n (0 + 1))]
    rw [hone]
  | succ k ih =>
    have hp : p + 1 + Fin.ofNat n (k + 1) = p + Fin.ofNat n (k + 1 + 1) := by
      rw [ofNat_succ (k + 1), add_assoc, add_comm 1]
    show slots (p + 1) :: walk slots (p + 1) (k + 1) = _
    rw [ih, hp]
    rfl

/-- A walk does not see a slot it does not reach. -/
theorem walk_update (slots : Fin n → α) (p q : Fin n) (a : α) {k : Nat}
    (h : ∀ i < k, p + Fin.ofNat n (i + 1) ≠ q) :
    walk (Function.update slots q a) p k = walk slots p k := by
  induction k with
  | zero => rfl
  | succ k ih =>
    rw [walk_succ, walk_succ, ih fun i hi => h i (Nat.lt_succ_of_lt hi),
      Function.update_of_ne (h k (Nat.lt_succ_self k))]

/-- Different distances lead to different slots. -/
theorem add_ofNat_ne (p : Fin n) {i j : Nat} (hi : i < n) (hj : j < n) (hne : i ≠ j) :
    p + Fin.ofNat n i ≠ p + Fin.ofNat n j := by
  intro heq
  have hval := congrArg Fin.val (add_left_cancel heq)
  rw [Fin.val_ofNat, Fin.val_ofNat, Nat.mod_eq_of_lt hi, Nat.mod_eq_of_lt hj] at hval
  exact hne hval

/-! ## The operations on the unread elements -/

namespace Ring

variable {r : Ring α n}

@[simp] theorem length_unread (r : Ring α n) : r.unread.length = r.count := length_walk ..

omit [NeZero n] in
theorem count_lt (r : Ring α n) : r.count < n := (r.head - r.tail).isLt

/-- The head stands at its distance from the tail. -/
theorem head_eq (r : Ring α n) : r.head = r.tail + Fin.ofNat n r.count := by
  unfold count
  rw [Fin.ofNat_val_eq_self, add_sub_cancel]

@[simp] theorem unread_clear (r : Ring α n) (p : Fin n) : (r.clear p).unread = [] := by
  unfold unread count
  show walk r.slots p (p - p).val = []
  rw [sub_self]
  rfl

/-- The count of a head at a known distance. -/
theorem count_of_head {k : Nat} (hk : k < n) (h : r.head = r.tail + Fin.ofNat n k) :
    r.count = k := by
  unfold count
  rw [h, add_sub_cancel_left, Fin.val_ofNat, Nat.mod_eq_of_lt hk]

theorem head_succ (r : Ring α n) : r.head + 1 = r.tail + Fin.ofNat n (r.count + 1) := by
  rw [ofNat_succ, ← add_assoc, ← head_eq]

/-- The ring is full when the next slot is the free one. -/
theorem full_iff (r : Ring α n) : r.head + 1 = r.tail ↔ r.count + 1 = n := by
  rw [head_succ]
  constructor
  · intro hfull
    by_contra hne
    have hlt : r.count + 1 < n := by
      have := r.count_lt
      omega
    refine add_ofNat_ne r.tail hlt (Nat.pos_of_neZero n) (Nat.succ_ne_zero _) ?_
    rw [hfull, Fin.ofNat_zero, add_zero]
  · intro hfull
    rw [hfull, Fin.ofNat_self, add_zero]

theorem empty_iff (r : Ring α n) : r.tail = r.head ↔ r.count = 0 := by
  unfold count
  rw [Fin.val_eq_zero_iff, sub_eq_zero, eq_comm]

theorem unread_push (h : r.count + 1 < n) (a : α) : (r.push a).unread = r.unread ++ [a] := by
  have hroom : ¬ r.head + 1 = r.tail := by
    rw [full_iff]
    exact Nat.ne_of_lt h
  have hpush : r.push a =
      { slots := Function.update r.slots (r.head + 1) a, head := r.head + 1, tail := r.tail } := by
    unfold push
    rw [if_neg hroom]
  have hcount : (r.push a).count = r.count + 1 := by
    rw [hpush]
    exact count_of_head h r.head_succ
  have hpast : ∀ i < r.count, r.tail + Fin.ofNat n (i + 1) ≠ r.head + 1 := by
    intro i hi
    rw [head_succ]
    exact add_ofNat_ne r.tail (by omega) h (by omega)
  unfold unread
  rw [hcount, hpush]
  show walk (Function.update r.slots (r.head + 1) a) r.tail (r.count + 1) = _
  rw [walk_succ, walk_update _ _ _ _ hpast, ← head_succ, Function.update_self]

/-- **A full ring gives up its newest element.** -/
theorem unread_push_full (h : r.count + 1 = n) (hne : r.count ≠ 0) (a : α) :
    (r.push a).unread = r.unread.dropLast ++ [a] := by
  obtain ⟨k, hk⟩ := Nat.exists_eq_succ_of_ne_zero hne
  have hpush : r.push a =
      { slots := Function.update r.slots r.head a, head := r.head, tail := r.tail } := by
    unfold push
    rw [if_pos (r.full_iff.mpr h)]
  have hhead := r.head_eq
  rw [hk] at hhead
  have hcount : (r.push a).count = k + 1 := by
    rw [hpush]
    exact count_of_head (by omega) hhead
  have hpast : ∀ i < k, r.tail + Fin.ofNat n (i + 1) ≠ r.head := by
    intro i hi
    rw [hhead]
    exact add_ofNat_ne r.tail (by omega) (by omega) (by omega)
  unfold unread
  rw [hcount, hpush, hk]
  show walk (Function.update r.slots r.head a) r.tail (k + 1) = _
  rw [walk_succ, walk_update _ _ _ _ hpast, ← hhead, Function.update_self, walk_succ,
    List.dropLast_concat]

theorem pop_nil (h : r.unread = []) : r.pop = none := by
  have hcount : r.count = 0 := by rw [← length_unread, h, List.length_nil]
  unfold pop
  rw [if_pos (r.empty_iff.mpr hcount)]

theorem pop_cons {a : α} {rest : List α} (h : r.unread = a :: rest) :
    r.pop = some (a, { r with tail := r.tail + 1 }) ∧
      ({ r with tail := r.tail + 1 } : Ring α n).unread = rest := by
  have hcount : r.count = rest.length + 1 := by rw [← length_unread, h, List.length_cons]
  have hsome : ¬ r.tail = r.head := by
    rw [empty_iff, hcount]
    exact Nat.succ_ne_zero _
  have hnext : ({ r with tail := r.tail + 1 } : Ring α n).count = rest.length := by
    have hlt := r.count_lt
    refine count_of_head (by omega) ?_
    show r.head = r.tail + 1 + Fin.ofNat n rest.length
    rw [r.head_eq, hcount, ofNat_succ, add_assoc, add_comm 1]
  unfold unread at h
  rw [hcount] at h
  obtain ⟨hfirst, hrest⟩ := List.cons.inj h
  constructor
  · unfold pop
    rw [if_neg hsome, hfirst]
  · unfold unread
    rw [hnext]
    exact hrest

/-- What is unread comes from what was unread and the new element. -/
theorem unread_push_sublist (hn : 1 < n) (r : Ring α n) (a : α) :
    (r.push a).unread.Sublist (r.unread ++ [a]) := by
  rcases Nat.lt_or_eq_of_le (Nat.succ_le_of_lt r.count_lt) with hroom | hfull
  · rw [unread_push hroom]
  · rw [unread_push_full hfull (by omega)]
    exact (List.dropLast_sublist _).append (List.Sublist.refl _)

/-- **A push is an arrival, unless the ring is full and its newest element another one.** -/
theorem unread_push_eq_arrive_iff (hn : 1 < n) (r : Ring α n) (a : α) :
    (r.push a).unread = arrive (n - 1) r.unread a ↔
      (r.unread.length = n - 1 → r.unread.getLast? = some a) := by
  unfold arrive
  rw [length_unread]
  rcases Nat.lt_or_eq_of_le (Nat.succ_le_of_lt r.count_lt) with hroom | hfull
  · rw [unread_push hroom, if_pos (by omega)]
    exact ⟨fun _ hcount => by omega, fun _ => rfl⟩
  · rw [unread_push_full hfull (by omega), if_neg (by omega)]
    constructor
    · intro heq _
      rw [← heq, List.getLast?_concat]
    · intro hlast
      exact List.dropLast_append_getLast? a (hlast (by omega))

end Ring

end RingBuffer
