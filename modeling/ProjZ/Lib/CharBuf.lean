import Mathlib.Data.List.TakeWhile

/-!
# Fixed-size C character buffers

`CharBuf n` is a `char buf[n]`: its length is part of the type. Stores go through
`write`, which fails outside the buffer; `overlay i s` is the effect of storing the
bytes `s` one after the other from index `i`, as the copy loops of C code do, and
`writes` carries out a log of stores with every index checked (`record` keeps such a log).
The C string in the
buffer (`cstr`) ends before the first `'\0'`, and reading it without one runs past the
end (`none`).
-/

/-- `char buf[n]`. -/
structure CharBuf (n : Nat) where
  bytes : List UInt8
  length_eq : bytes.length = n
deriving DecidableEq

namespace CharBuf

variable {n : Nat}

/-- `buf[i] = c` for an index inside the buffer (no effect outside). -/
def set (i : Nat) (c : UInt8) (b : CharBuf n) : CharBuf n :=
  ⟨b.bytes.set i c, by rw [List.length_set, b.length_eq]⟩

/-- `buf[i] = c`, `none` when `i` is out of bounds. -/
def write (i : Nat) (c : UInt8) (b : CharBuf n) : Option (CharBuf n) :=
  if i < n then some (b.set i c) else none

/-- `buf[i] = s[0], buf[i + 1] = s[1], …` -/
def overlay (i : Nat) : List UInt8 → CharBuf n → CharBuf n
  | [], b => b
  | c :: s, b => overlay (i + 1) s (b.set i c)

/-- The stores of `overlay`, as a log of indices and bytes. -/
def stores (i : Nat) : List UInt8 → List (Nat × UInt8)
  | [] => []
  | c :: s => (i, c) :: stores (i + 1) s

/-- A log of stores carried out, each of them checked. -/
def writes : List (Nat × UInt8) → CharBuf n → Option (CharBuf n)
  | [], b => some b
  | (i, c) :: log, b => (b.write i c).bind (writes log)

/-- A store noted at the end of a log, whatever its index. -/
def record (i : Nat) (c : UInt8) (log : List (Nat × UInt8)) : Option (List (Nat × UInt8)) :=
  some (log ++ [(i, c)])

/-- `overlay` for bytes some of which do not come: their places are skipped. -/
def overlayGaps (i : Nat) : List (Option UInt8) → CharBuf n → CharBuf n
  | [], b => b
  | none :: os, b => overlayGaps (i + 1) os b
  | some c :: os, b => overlayGaps (i + 1) os (b.set i c)

/-- The C string in the buffer; `none` when no `'\0'` ends it. -/
def cstr (b : CharBuf n) : Option (List UInt8) :=
  if 0 ∈ b.bytes then some (b.bytes.takeWhile fun c => decide (c ≠ 0)) else none

/-! ## Stores -/

theorem write_of_lt {i : Nat} (h : i < n) (c : UInt8) (b : CharBuf n) :
    b.write i c = some (b.set i c) := if_pos h

theorem write_of_ge {i : Nat} (h : n ≤ i) (c : UInt8) (b : CharBuf n) : b.write i c = none :=
  if_neg (Nat.not_lt_of_le h)

@[simp] theorem overlay_nil (i : Nat) (b : CharBuf n) : b.overlay i [] = b := rfl

theorem overlay_cons (i : Nat) (c : UInt8) (s : List UInt8) (b : CharBuf n) :
    b.overlay i (c :: s) = (b.set i c).overlay (i + 1) s := rfl

/-- What a store does to the bytes. -/
theorem bytes_set {i : Nat} (h : i < n) (c : UInt8) (b : CharBuf n) :
    (b.set i c).bytes = b.bytes.take i ++ c :: b.bytes.drop (i + 1) := by
  have hlt : i < b.bytes.length := by rw [b.length_eq]; exact h
  show b.bytes.set i c = _
  rw [List.set_eq_take_append_cons_drop, if_pos hlt]

/-- What consecutive stores do to the bytes. -/
theorem bytes_overlay {s : List UInt8} {i : Nat} {b : CharBuf n} (h : i + s.length ≤ n) :
    (b.overlay i s).bytes = b.bytes.take i ++ s ++ b.bytes.drop (i + s.length) := by
  induction s generalizing i b with
  | nil => simp
  | cons c s ih =>
    rw [List.length_cons] at h
    have hi : i < n := by omega
    have hlen : (b.bytes.take i).length = i := by
      rw [List.length_take, b.length_eq]
      omega
    rw [overlay_cons, ih (by omega), bytes_set hi]
    have htake : (b.bytes.take i ++ c :: b.bytes.drop (i + 1)).take (i + 1) =
        b.bytes.take i ++ [c] := by
      rw [List.take_append, hlen, List.take_of_length_le (by omega)]
      simp
    have hdrop : (b.bytes.take i ++ c :: b.bytes.drop (i + 1)).drop (i + 1 + s.length) =
        b.bytes.drop (i + (s.length + 1)) := by
      have hsub : i + 1 + s.length - i = s.length + 1 := by omega
      have hadd : i + 1 + s.length = i + (s.length + 1) := by omega
      rw [List.drop_append, hlen, List.drop_of_length_le (by omega), List.nil_append, hsub,
        List.drop_succ_cons, List.drop_drop, hadd]
    rw [htake, hdrop, List.append_assoc, List.append_assoc, List.append_assoc, List.length_cons]
    rfl

/-- Stores compose. -/
theorem overlay_append (i : Nat) (s t : List UInt8) (b : CharBuf n) :
    b.overlay i (s ++ t) = (b.overlay i s).overlay (i + s.length) t := by
  induction s generalizing i b with
  | nil => rfl
  | cons c s ih =>
    rw [List.cons_append, overlay_cons, overlay_cons, ih, List.length_cons]
    congr 1
    omega

/-- The bytes up to the last one stored are known from those before the first. -/
theorem take_overlay {s : List UInt8} {i : Nat} {b : CharBuf n} (h : i + s.length ≤ n) :
    (b.overlay i s).bytes.take (i + s.length) = b.bytes.take i ++ s := by
  have hlen : (b.bytes.take i ++ s).length = i + s.length := by
    rw [List.length_append, List.length_take, b.length_eq]
    omega
  rw [bytes_overlay h, List.take_append, hlen, List.take_of_length_le (by omega)]
  simp

/-- The bytes before the first one stored stay. -/
theorem take_overlay_of_le {s : List UInt8} {i p : Nat} {b : CharBuf n}
    (h : i + s.length ≤ n) (hp : p ≤ i) : (b.overlay i s).bytes.take p = b.bytes.take p := by
  have hlen : (b.bytes.take i).length = i := by
    rw [List.length_take, b.length_eq]
    omega
  rw [bytes_overlay h, List.append_assoc, List.take_append_of_le_length (by omega),
    List.take_take, Nat.min_eq_left hp]

/-- The first byte stays when nothing is stored at index 0. -/
theorem head_overlay {s : List UInt8} {i : Nat} {b : CharBuf n} (h : i + s.length ≤ n)
    (hi : 1 ≤ i) {c : UInt8} {rest : List UInt8} (hb : b.bytes = c :: rest) :
    ∃ rest', (b.overlay i s).bytes = c :: rest' := by
  obtain ⟨k, rfl⟩ : ∃ k, i = k + 1 := ⟨i - 1, by omega⟩
  rw [bytes_overlay h, hb, List.take_succ_cons]
  exact ⟨_, rfl⟩

/-- Without gaps the bytes are stored as a text. -/
theorem overlayGaps_map_some (i : Nat) (s : List UInt8) (b : CharBuf n) :
    b.overlayGaps i (s.map some) = b.overlay i s := by
  induction s generalizing i b with
  | nil => rfl
  | cons c s ih => exact ih (i + 1) (b.set i c)

/-! ## Logs of stores -/

theorem writes_cons {i : Nat} (h : i < n) (c : UInt8) (log : List (Nat × UInt8))
    (b : CharBuf n) : b.writes ((i, c) :: log) = (b.set i c).writes log := by
  rw [writes, write_of_lt h]
  rfl

theorem writes_append {log log' : List (Nat × UInt8)} {b b' : CharBuf n}
    (h : b.writes log = some b') : b.writes (log ++ log') = b'.writes log' := by
  induction log generalizing b with
  | nil =>
    obtain rfl : b = b' := Option.some.inj h
    rfl
  | cons st log ih =>
    obtain ⟨b₁, hw, hlog⟩ := Option.bind_eq_some_iff.mp h
    show (b.write st.1 st.2).bind (writes (log ++ log')) = _
    rw [hw]
    exact ih hlog

/-- A store that is made, noted at the end of the log of those before it. -/
theorem writes_record {log : List (Nat × UInt8)} {b b' b'' : CharBuf n} {i : Nat} {c : UInt8}
    (h : b.writes log = some b') (hw : b'.write i c = some b'') :
    b.writes (log ++ [(i, c)]) = some b'' := by
  rw [writes_append h, writes, hw]
  rfl

/-- Every store of a log that has been carried out was inside the buffer. -/
theorem lt_of_writes {log : List (Nat × UInt8)} {b b' : CharBuf n}
    (h : b.writes log = some b') : ∀ st ∈ log, st.1 < n := by
  induction log generalizing b with
  | nil =>
    intro st hst
    cases hst
  | cons st log ih =>
    obtain ⟨b₁, hw, hlog⟩ := Option.bind_eq_some_iff.mp h
    intro st' hst
    rcases List.mem_cons.mp hst with rfl | hst
    · by_contra hout
      rw [write, if_neg hout] at hw
      cases hw
    · exact ih hlog st' hst

theorem writes_stores {s : List UInt8} {i : Nat} (h : i + s.length ≤ n) (b : CharBuf n) :
    b.writes (stores i s) = some (b.overlay i s) := by
  induction s generalizing i b with
  | nil => rfl
  | cons c s ih =>
    rw [List.length_cons] at h
    rw [stores, writes_cons (by omega), overlay_cons]
    exact ih (by omega) (b.set i c)

/-- In a gap the old byte shows through. -/
theorem bytes_overlayGaps {os : List (Option UInt8)} {i : Nat} {b : CharBuf n}
    {pre mid post : List UInt8} (hb : b.bytes = pre ++ (mid ++ post)) (hi : pre.length = i)
    (hlen : mid.length = os.length) :
    (b.overlayGaps i os).bytes =
      pre ++ (List.zipWith (fun o c => o.getD c) os mid ++ post) := by
  -- on the outcomes; `pre` grows by what is in the place of each
  induction os generalizing i b pre mid with
  | nil =>
    obtain rfl := List.length_eq_zero_iff.mp hlen
    exact hb
  | cons o os ih =>
    cases mid with
    | nil => cases hlen
    | cons m mid =>
      have hi' : (pre ++ [o.getD m]).length = i + 1 := by
        rw [List.length_append, hi]
        rfl
      have hlen' : mid.length = os.length := Nat.succ.inj hlen
      have hcons : pre ++ (List.zipWith (fun o c => o.getD c) (o :: os) (m :: mid) ++ post) =
          pre ++ [o.getD m] ++ (List.zipWith (fun o c => o.getD c) os mid ++ post) := by
        rw [List.append_assoc]
        rfl
      rw [hcons]
      cases o with
      | none =>
        refine ih ?_ hi' hlen'
        rw [hb, List.append_assoc]
        rfl
      | some c =>
        refine ih ?_ hi' hlen'
        show b.bytes.set i c = _
        rw [hb, ← hi, List.set_append_right _ _ (Nat.le_refl _), Nat.sub_self, List.append_assoc]
        rfl

/-! ## C strings -/

/-- The text before the first `'\0'`, when it is known. -/
theorem takeWhile_eq {pre : List UInt8} (h0 : 0 ∉ pre) (rest : List UInt8) :
    (pre ++ 0 :: rest).takeWhile (fun c => decide (c ≠ 0)) = pre := by
  have hall : ∀ c ∈ pre, decide (c ≠ 0) = true := by
    intro c hc
    rw [decide_eq_true_iff]
    rintro rfl
    exact h0 hc
  rw [List.takeWhile_append_of_pos hall]
  simp

/-- The first `'\0'` of a text is in one place. -/
theorem terminated_unique {pre pre' rest rest' : List UInt8}
    (h : pre ++ 0 :: rest = pre' ++ 0 :: rest') (h0 : 0 ∉ pre) (h0' : 0 ∉ pre') :
    pre = pre' := by
  rw [← takeWhile_eq h0 rest, h, takeWhile_eq h0']

/-- A terminated prefix is the C string. -/
theorem cstr_of_bytes {b : CharBuf n} {s : List UInt8} (rest : List UInt8)
    (h : b.bytes = s ++ 0 :: rest) (h0 : 0 ∉ s) : b.cstr = some s := by
  have hmem : 0 ∈ b.bytes := by
    rw [h]
    exact List.mem_append_right s (List.mem_cons_self ..)
  rw [cstr, if_pos hmem, h, takeWhile_eq h0]

/-- A C string stored at the start of the buffer is read back. -/
theorem cstr_overlay {s : List UInt8} {b : CharBuf n} (h : s.length < n) (h0 : 0 ∉ s) :
    (b.overlay 0 (s ++ [0])).cstr = some s := by
  have hlen : 0 + (s ++ [0]).length ≤ n := by
    rw [List.length_append, List.length_singleton]
    omega
  refine cstr_of_bytes (b.bytes.drop (0 + (s ++ [0]).length)) ?_ h0
  rw [bytes_overlay hlen]
  simp

/-- The text before the first `'\0'` of a list that has one. -/
theorem eq_takeWhile_append {l : List UInt8} (h : 0 ∈ l) :
    ∃ rest, l = l.takeWhile (fun c => decide (c ≠ 0)) ++ 0 :: rest := by
  induction l with
  | nil => cases h
  | cons c l ih =>
    by_cases hc : c = 0
    · exact ⟨l, by simp [hc]⟩
    · obtain ⟨rest, hrest⟩ := ih ((List.mem_cons.mp h).resolve_left (Ne.symm hc))
      refine ⟨rest, ?_⟩
      rw [List.takeWhile_cons_of_pos (by simp [hc]), List.cons_append, ← hrest]

/-- The C string is what precedes the first `'\0'`. -/
theorem bytes_of_cstr {b : CharBuf n} {s : List UInt8} (h : b.cstr = some s) :
    ∃ rest, b.bytes = s ++ 0 :: rest := by
  unfold cstr at h
  split at h
  · next hmem =>
    obtain ⟨rest, hrest⟩ := eq_takeWhile_append hmem
    rw [Option.some.injEq] at h
    exact ⟨rest, by rw [← h]; exact hrest⟩
  · cases h

/-- A `'\0'` bounds the C string from above. -/
theorem length_cstr_le {b : CharBuf n} {s : List UInt8} (h : b.cstr = some s)
    {pre rest : List UInt8} (hb : b.bytes = pre ++ 0 :: rest) : s.length ≤ pre.length := by
  have hmem : 0 ∈ b.bytes := by
    rw [hb]
    exact List.mem_append_right pre (List.mem_cons_self ..)
  rw [cstr, if_pos hmem, Option.some.injEq, hb] at h
  subst h
  clear hb hmem
  induction pre with
  | nil => simp
  | cons c pre ih =>
    by_cases hc : c = 0
    · simp [hc]
    · rw [List.cons_append, List.takeWhile_cons_of_pos (by simp [hc]), List.length_cons,
        List.length_cons]
      exact Nat.succ_le_succ ih

/-- A C string and its `'\0'` are inside the buffer. -/
theorem length_cstr_lt {b : CharBuf n} {s : List UInt8} (h : b.cstr = some s) :
    s.length < n := by
  obtain ⟨rest, hrest⟩ := bytes_of_cstr h
  have hlen := b.length_eq
  rw [hrest, List.length_append, List.length_cons] at hlen
  omega

/-- A buffer with a `'\0'` in it holds a C string. -/
theorem exists_cstr {b : CharBuf n} (h : 0 ∈ b.bytes) : ∃ s, b.cstr = some s :=
  ⟨_, if_pos h⟩

/-- Bytes that were stored are in the buffer. -/
theorem mem_overlay {s : List UInt8} {i : Nat} {b : CharBuf n} (h : i + s.length ≤ n)
    {c : UInt8} (hc : c ∈ s) : c ∈ (b.overlay i s).bytes := by
  rw [bytes_overlay h]
  exact List.mem_append_left _ (List.mem_append_right _ hc)

/-- Buffers that agree up to a `'\0'` hold the same C string. -/
theorem cstr_eq_of_take {a b : CharBuf n} {p : Nat} (h : a.bytes.take p = b.bytes.take p)
    (h0 : 0 ∈ a.bytes.take p) : a.cstr = b.cstr := by
  obtain ⟨rest, hrest⟩ := eq_takeWhile_append h0
  have hnot : 0 ∉ (a.bytes.take p).takeWhile fun c => decide (c ≠ 0) := by
    intro hm
    have hne := List.mem_takeWhile_imp hm
    revert hne
    decide
  generalize (a.bytes.take p).takeWhile (fun c => decide (c ≠ 0)) = s at hrest hnot
  have ha : a.cstr = some s := by
    refine cstr_of_bytes (rest ++ a.bytes.drop p) ?_ hnot
    rw [← List.cons_append, ← List.append_assoc, ← hrest, List.take_append_drop]
  have hb : b.cstr = some s := by
    refine cstr_of_bytes (rest ++ b.bytes.drop p) ?_ hnot
    rw [← List.cons_append, ← List.append_assoc, ← hrest, h, List.take_append_drop]
  rw [ha, hb]

end CharBuf
