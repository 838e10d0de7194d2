import Mathlib.Data.List.Basic

/-!
# Lines of a byte stream

A reader with a buffer of `limit` bytes takes a line with the newline at its end, or `limit`
bytes of a line that is longer; bytes behind the last newline are no line until there are
`limit` of them.
-/

namespace Lines

/-- The byte that ends a line. -/
def newline : UInt8 := 10

/-- The lines of `s`, the first of which has begun with the bytes `begun`. -/
def linesFrom (limit : Nat) (begun : List UInt8) : List UInt8 → List (List UInt8)
  | [] => []
  | c :: s =>
    if c = newline ∨ begun.length + 1 = limit then (begun ++ [c]) :: linesFrom limit [] s
    else linesFrom limit (begun ++ [c]) s

/-- The lines of a text, none longer than the limit. -/
def lines (limit : Nat) (s : List UInt8) : List (List UInt8) := linesFrom limit [] s

variable {limit : Nat} {begun line : List UInt8} {c : UInt8}

theorem linesFrom_end (h : c = newline ∨ begun.length + 1 = limit) (s : List UInt8) :
    linesFrom limit begun (c :: s) = (begun ++ [c]) :: lines limit s := if_pos h

theorem linesFrom_more (h : ¬(c = newline ∨ begun.length + 1 = limit)) (s : List UInt8) :
    linesFrom limit begun (c :: s) = linesFrom limit (begun ++ [c]) s := if_neg h

theorem length_linesFrom_le (limit : Nat) (begun s : List UInt8) :
    (linesFrom limit begun s).length ≤ s.length := by
  induction s generalizing begun with
  | nil => exact Nat.le_refl 0
  | cons c s ih =>
    by_cases h : c = newline ∨ begun.length + 1 = limit
    · rw [linesFrom_end h, List.length_cons, List.length_cons]
      exact Nat.succ_le_succ (ih [])
    · rw [linesFrom_more h]
      exact Nat.le_succ_of_le (ih _)

/-- A line that fits comes out as it was. -/
theorem linesFrom_line (hline : newline ∉ line) (hlen : begun.length + line.length < limit)
    (s : List UInt8) :
    linesFrom limit begun (line ++ newline :: s) =
      (begun ++ line ++ [newline]) :: lines limit s := by
  induction line generalizing begun with
  | nil => rw [List.nil_append, linesFrom_end (.inl rfl), List.append_nil]
  | cons c line ih =>
    rw [List.length_cons] at hlen
    have hc : ¬(c = newline ∨ begun.length + 1 = limit) := by
      rintro (rfl | h)
      · exact hline List.mem_cons_self
      · omega
    have hlen' : (begun ++ [c]).length + line.length < limit := by
      rw [List.length_append, List.length_singleton]
      omega
    rw [List.cons_append, linesFrom_more hc,
      ih (fun h => hline (List.mem_cons_of_mem c h)) hlen', List.append_assoc begun]
    rfl

/-- What is sent as lines that fit arrives as these lines. -/
theorem lines_flatMap {ls : List (List UInt8)}
    (h : ∀ line ∈ ls, newline ∉ line ∧ line.length < limit) (s : List UInt8) :
    lines limit ((ls.flatMap fun line => line ++ [newline]) ++ s) =
      ls.map (· ++ [newline]) ++ lines limit s := by
  induction ls with
  | nil => rfl
  | cons line ls ih =>
    obtain ⟨⟨hline, hlen⟩, hls⟩ := List.forall_mem_cons.mp h
    have hbegun : ([] : List UInt8).length + line.length < limit := by
      rw [List.length_nil, Nat.zero_add]
      exact hlen
    have hfirst := linesFrom_line hline hbegun ((ls.flatMap fun line => line ++ [newline]) ++ s)
    rw [List.flatMap_cons, List.append_assoc, List.append_assoc, List.singleton_append,
      List.map_cons, List.cons_append, ← ih hls]
    exact hfirst

end Lines
