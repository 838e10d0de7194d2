import Mathlib.Data.List.Basic

/-!
# Memory behind a pointer

A `Memory` is what a C pointer to bytes gives access to: the byte at each distance from it.
`read`, `write` and `store` are the sides of `memcpy`, `add` moves the pointer, and `pair` is
what a search for a two-byte marker compares. `firstPair` is that search, one byte at a time.
-/

/-- The bytes from a pointer on. -/
def Memory := Nat → UInt8

namespace Memory

/-- The pointer `k` bytes further on. -/
def add (p : Memory) (k : Nat) : Memory := fun i => p (k + i)

/-- The first `n` bytes. -/
def read (p : Memory) : Nat → List UInt8
  | 0 => []
  | n + 1 => p 0 :: read (p.add 1) n

/-- The memory after `s` has been stored. -/
def write (p : Memory) (s : List UInt8) : Memory := fun i => s[i]?.getD (p i)

/-- The memory after `s` has been stored at distance `k`. -/
def store (p : Memory) (k : Nat) (s : List UInt8) : Memory :=
  fun i => if i < k then p i else s[i - k]?.getD (p i)

/-- The two bytes at distance `i`. -/
def pair (p : Memory) (i : Nat) : UInt8 × UInt8 := (p i, p (i + 1))

@[simp] theorem add_zero (p : Memory) : p.add 0 = p := by
  funext i
  exact congrArg p (Nat.zero_add i)

/-- Pointers are moved by sums. -/
theorem add_add (p : Memory) (j k : Nat) : (p.add j).add k = p.add (j + k) := by
  funext i
  exact congrArg p (Nat.add_assoc j k i).symm

@[simp] theorem length_read (p : Memory) (n : Nat) : (p.read n).length = n := by
  induction n generalizing p with
  | zero => rfl
  | succ n ih => rw [read, List.length_cons, ih]

/-- A read in two pieces. -/
theorem read_add (p : Memory) (m n : Nat) : p.read (m + n) = p.read m ++ (p.add m).read n := by
  induction m generalizing p with
  | zero => rw [Nat.zero_add, add_zero]; rfl
  | succ m ih =>
    rw [Nat.succ_add, read, ih, read, List.cons_append, add_add, Nat.add_comm 1 m]

/-- The bytes that are read. -/
theorem getElem?_read (p : Memory) {n i : Nat} (h : i < n) : (p.read n)[i]? = some (p i) := by
  induction i generalizing p n with
  | zero =>
    cases n with
    | zero => exact absurd h (Nat.lt_irrefl 0)
    | succ n => rfl
  | succ i ih =>
    cases n with
    | zero => exact absurd h (Nat.not_lt_zero _)
    | succ n =>
      rw [read, List.getElem?_cons_succ, ih (p.add 1) (Nat.lt_of_succ_lt_succ h)]
      exact congrArg (fun k => some (p k)) (Nat.add_comm 1 i)

/-- Reading tells the bytes apart. -/
theorem eq_of_read_eq {p q : Memory} {n : Nat} (h : p.read n = q.read n) {i : Nat} (hi : i < n) :
    p i = q i := by
  have hp := getElem?_read p hi
  rw [h, getElem?_read q hi] at hp
  exact (Option.some.inj hp).symm

/-- What has been written is read back. -/
theorem read_write (p : Memory) (s : List UInt8) : (p.write s).read s.length = s := by
  refine List.ext_getElem? fun i => ?_
  rcases Nat.lt_or_ge i s.length with hi | hi
  · rw [getElem?_read _ hi, write, List.getElem?_eq_getElem hi]
    rfl
  · rw [List.getElem?_eq_none hi, List.getElem?_eq_none (by rw [length_read]; exact hi)]

/-- Memory that begins with two texts has the second one behind the first. -/
theorem read_append {p : Memory} {s t : List UInt8} (h : p.read (s ++ t).length = s ++ t) :
    p.read s.length = s ∧ (p.add s.length).read t.length = t := by
  rw [List.length_append, read_add] at h
  exact List.append_inj h (length_read p s.length)

/-- Reading depends on the bytes read only. -/
theorem read_congr {p q : Memory} {n : Nat} (h : ∀ i < n, p i = q i) : p.read n = q.read n := by
  refine List.ext_getElem? fun i => ?_
  rcases Nat.lt_or_ge i n with hi | hi
  · rw [getElem?_read p hi, getElem?_read q hi, h i hi]
  · rw [List.getElem?_eq_none (by rw [length_read]; exact hi),
      List.getElem?_eq_none (by rw [length_read]; exact hi)]

/-- A store behind the first `k` bytes leaves them, and stands behind them. -/
theorem read_store (p : Memory) (k : Nat) (s : List UInt8) :
    (p.store k s).read (k + s.length) = p.read k ++ s := by
  have hhead : (p.store k s).read k = p.read k := read_congr fun i hi => if_pos hi
  have htail : (p.store k s).add k = (p.add k).write s := by
    funext i
    have hnot : ¬ k + i < k := by omega
    show (if k + i < k then _ else _) = _
    rw [if_neg hnot, Nat.add_sub_cancel_left]
    rfl
  rw [read_add, hhead, htail, read_write]

/-- Behind a store nothing changes. -/
theorem store_of_ge (p : Memory) {k i : Nat} {s : List UInt8} (h : k + s.length ≤ i) :
    p.store k s i = p i := by
  unfold store
  split
  · rfl
  · rw [List.getElem?_eq_none (by omega)]
    rfl

/-! ## Searching -/

/-- The first distance from `i` on, within `n` rounds, at which the marker `m` stands. -/
def firstPair (p : Memory) (m : UInt8 × UInt8) : Nat → Nat → Option Nat
  | 0, _ => none
  | n + 1, i => if p.pair i = m then some i else firstPair p m n (i + 1)

/-- `m` stands at distance `k`, and nowhere between `i` and `k`. -/
structure First (p : Memory) (m : UInt8 × UInt8) (i k : Nat) : Prop where
  le : i ≤ k
  at_ : p.pair k = m
  before : ∀ j, i ≤ j → j < k → p.pair j ≠ m

/-- The search finds the first place there is, if it is in reach, -/
theorem firstPair_eq_some_iff {p : Memory} {m : UInt8 × UInt8} {n i k : Nat} :
    firstPair p m n i = some k ↔ First p m i k ∧ k < i + n := by
  -- on the rounds that are left
  induction n generalizing i with
  | zero =>
    constructor
    · nofun
    · rintro ⟨h, hlt⟩
      exact absurd h.le (by omega)
  | succ n ih =>
    unfold firstPair
    by_cases hm : p.pair i = m
    · rw [if_pos hm]
      constructor
      · intro hk
        rw [← Option.some.inj hk]
        exact ⟨⟨Nat.le_refl i, hm, fun j hij hji => absurd hij (by omega)⟩, by omega⟩
      · rintro ⟨h, -⟩
        -- a marker here is the first one
        rcases Nat.eq_or_lt_of_le h.le with heq | hlt
        · rw [heq]
        · exact absurd hm (h.before i (Nat.le_refl i) hlt)
    · rw [if_neg hm, ih]
      constructor
      · rintro ⟨h, hlt⟩
        refine ⟨⟨by have := h.le; omega, h.at_, ?_⟩, by omega⟩
        intro j hij hjk
        rcases Nat.eq_or_lt_of_le hij with heq | hlt
        · rw [← heq]
          exact hm
        · exact h.before j hlt hjk
      · rintro ⟨h, hlt⟩
        have hne : i ≠ k := by
          rintro rfl
          exact hm h.at_
        have hle := h.le
        exact ⟨⟨by omega, h.at_, fun j hij hjk => h.before j (by omega) hjk⟩, by omega⟩

/-- and nothing exactly if there is none in reach. -/
theorem firstPair_eq_none_iff {p : Memory} {m : UInt8 × UInt8} {n i : Nat} :
    firstPair p m n i = none ↔ ∀ j, i ≤ j → j < i + n → p.pair j ≠ m := by
  induction n generalizing i with
  | zero => exact ⟨fun _ j hij hj => absurd hij (by omega), fun _ => rfl⟩
  | succ n ih =>
    unfold firstPair
    by_cases hm : p.pair i = m
    · rw [if_pos hm]
      exact ⟨nofun, fun h => absurd hm (h i (Nat.le_refl i) (by omega))⟩
    · rw [if_neg hm, ih]
      constructor
      · intro h j hij hj
        rcases Nat.eq_or_lt_of_le hij with heq | hlt
        · rw [← heq]
          exact hm
        · exact h j hlt (by omega)
      · exact fun h j hij hj => h j (by omega) (by omega)

end Memory
