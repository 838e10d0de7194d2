import Mathlib.Data.List.ReduceOption
import ProjZ.Server.ZServer

/-!
# The reply loop and failed reads

The loop that collects a reply (z_server.c:34–46, and the same text for every command of
the server) goes on after a `read` that has failed. It does so with `continue` in a `for`
loop, which counts `i` up: the byte that arrives next is stored one place too far, and
what the failed read should have brought stays what it was in `cmd`.

Here the bus answers from a script. `replyLoop_script` gives the buffer after any
finite sequence of outcomes that ends with the reply's `'\0'`, and
`replyLoop_tolerates_iff` says that the loop tolerates no failed read at all.
-/

namespace ProjZ

open Ascii

namespace Server

/-- A bus whose reads have the given outcomes; writes change nothing. -/
def scriptBus : I2cBus (List (Option UInt8)) where
  write _ os := os
  read
    | [] => (none, [])
    | o :: os => (o, os)

theorem scriptBus_read (o : Option UInt8) (os : List (Option UInt8)) :
    scriptBus.read (o :: os) = (o, os) := rfl

/-- **The loop on a script.** It stays inside `cmd` when the outcomes before the `'\0'`
leave room for it; then the bytes stand where the successful reads were. -/
theorem replyLoop_script {os : List (Option UInt8)} (h0 : some 0 ∉ os)
    (rest : List (Option UInt8)) {fuel i : Nat} (hfuel : os.length < fuel) (cmd : CharBuf 16) :
    replyLoop scriptBus fuel i cmd (os ++ some 0 :: rest) =
      if i + os.length < 16 then .ok ((cmd.overlayGaps i os).set (i + os.length) 0, rest)
      else .error .outOfBounds := by
  -- on the outcomes before the `'\0'`; each takes a place, failed or not
  induction os generalizing fuel i cmd with
  | nil =>
    obtain ⟨fuel, rfl⟩ : ∃ f, fuel = f + 1 := ⟨fuel - 1, by simp at hfuel; omega⟩
    have hread : scriptBus.read (some 0 :: rest) = (some 0, rest) := scriptBus_read ..
    by_cases hi : i < 16
    · exact (replyLoop_end hread (CharBuf.write_of_lt hi ..)).trans (if_pos hi).symm
    · exact (replyLoop_past hread (CharBuf.write_of_ge (Nat.le_of_not_lt hi) ..)).trans
        (if_neg hi).symm
  | cons o os ih =>
    obtain ⟨fuel, rfl⟩ : ∃ f, fuel = f + 1 := ⟨fuel - 1, by simp at hfuel; omega⟩
    have h0' : some 0 ∉ os := fun h => h0 (List.mem_cons_of_mem o h)
    have hfuel' : os.length < fuel := Nat.lt_of_succ_lt_succ hfuel
    have hplace : i + (o :: os).length = i + 1 + os.length := by
      rw [List.length_cons]
      omega
    rw [hplace, List.cons_append]
    have hread := scriptBus_read o (os ++ some 0 :: rest)
    cases o with
    | none =>
      rw [replyLoop_failed hread]
      exact ih h0' hfuel' cmd
    | some c =>
      have hc : c ≠ 0 := by
        rintro rfl
        exact h0 (List.mem_cons_self ..)
      by_cases hi : i < 16
      · rw [replyLoop_byte hread (CharBuf.write_of_lt hi ..) hc]
        exact ih h0' hfuel' (cmd.set i c)
      · rw [replyLoop_past hread (CharBuf.write_of_ge (Nat.le_of_not_lt hi) ..),
          if_neg (by omega)]

/-- A buffer full of ones, as a C string. -/
def ones : CharBuf 16 := ⟨List.replicate 15 1 ++ [0], rfl⟩

theorem ones_cstr : ones.cstr = some (List.replicate 15 1) := by decide +kernel

/-- Over ones, the gaps are ones. -/
theorem zipWith_ones (os : List (Option UInt8)) :
    List.zipWith (fun o c => o.getD c) os (List.replicate os.length 1) =
      os.map fun o => o.getD 1 := by
  induction os with
  | nil => rfl
  | cons o os ih => exact congrArg (o.getD 1 :: ·) ih

/-- Collected into the ones, a reply has as many bytes as there were reads before its
`'\0'`, failed ones included. -/
theorem cstr_ones {os : List (Option UInt8)} (h0 : some 0 ∉ os) (hlen : os.length < 16) :
    ∃ s, ((ones.overlayGaps 0 os).set os.length 0).cstr = some s ∧ s.length = os.length := by
  obtain ⟨k, hk⟩ : ∃ k, 15 = os.length + k := ⟨15 - os.length, by omega⟩
  have hones : ones.bytes = [] ++ (List.replicate os.length 1 ++ (List.replicate k 1 ++ [0])) := by
    show List.replicate 15 1 ++ [0] = _
    rw [hk, List.replicate_add, List.append_assoc]
    rfl
  have hbytes := CharBuf.bytes_overlayGaps (i := 0) hones rfl
    (List.length_replicate (n := os.length))
  rw [List.nil_append, zipWith_ones] at hbytes
  have hslen : (os.map fun o => o.getD 1).length = os.length := List.length_map _
  have htake : (ones.overlayGaps 0 os).bytes.take os.length = os.map fun o => o.getD 1 := by
    rw [hbytes, ← hslen, List.take_left]
  refine ⟨os.map fun o => o.getD 1, ?_, hslen⟩
  -- no gap is a `NUL`, so the string goes on to the one that was read
  refine CharBuf.cstr_of_bytes ((ones.overlayGaps 0 os).bytes.drop (os.length + 1)) ?_ ?_
  · rw [CharBuf.bytes_set hlen, htake]
  · intro hmem
    obtain ⟨o, ho, hzero⟩ := List.mem_map.mp hmem
    cases o with
    | none => cases hzero
    | some c =>
      obtain rfl : c = 0 := hzero
      exact h0 ho

/-- Outcomes without a failure are the bytes delivered. -/
theorem eq_map_some {os : List (Option UInt8)} (h : none ∉ os) :
    os = os.reduceOption.map some := by
  induction os with
  | nil => rfl
  | cons o os ih =>
    have htail := ih fun hmem => h (List.mem_cons_of_mem o hmem)
    cases o with
    | none => exact absurd (List.mem_cons_self ..) h
    | some c =>
      rw [List.reduceOption_cons_of_some, List.map_cons, ← htail]

/-- **The loop tolerates no failed read.** For outcomes whose successful reads deliver a reply
of at most 7 bytes and its `'\0'`: the loop ends inside `cmd` with the reply in it,
whatever string was there before, exactly when no read fails. -/
theorem replyLoop_tolerates_iff {os : List (Option UInt8)} (h0 : 0 ∉ os.reduceOption)
    (hlen : os.reduceOption.length ≤ 7) (rest : List (Option UInt8)) :
    (∀ (cmd : CharBuf 16) (msg : List UInt8), cmd.cstr = some msg →
      ∀ fuel, os.length < fuel →
        ∃ cmd', replyLoop scriptBus fuel 0 cmd (os ++ some 0 :: rest) = .ok (cmd', rest) ∧
          cmd'.cstr = some os.reduceOption) ↔
    none ∉ os := by
  have hnul : some 0 ∉ os := fun h => h0 (List.reduceOption_mem_iff.mpr h)
  constructor
  · intro h hnone
    obtain ⟨cmd', hloop, hcstr⟩ := h ones _ ones_cstr (os.length + 1) (Nat.lt_succ_self _)
    rw [replyLoop_script hnul rest (Nat.lt_succ_self _), Nat.zero_add] at hloop
    by_cases hroom : os.length < 16
    · rw [if_pos hroom, Except.ok.injEq, Prod.mk.injEq] at hloop
      obtain ⟨s, hs, hslen⟩ := cstr_ones hnul hroom
      rw [hloop.1, hcstr, Option.some.injEq] at hs
      -- the string in `cmd` is longer than the reply
      have hlt := List.reduceOption_length_lt_iff.mpr hnone
      rw [hs] at hlt
      omega
    · rw [if_neg hroom] at hloop
      cases hloop
  · intro hnone cmd msg _ fuel hfuel
    have hsome : os = os.reduceOption.map some := eq_map_some hnone
    have hroom : 0 + os.length < 16 := by
      have hlength := congrArg List.length hsome
      rw [List.length_map] at hlength
      omega
    rw [replyLoop_script hnul rest hfuel, if_pos hroom]
    refine ⟨_, rfl, ?_⟩
    -- the bytes are stored one after the other, as a C string
    generalize os.reduceOption = r at h0 hlen hsome
    subst hsome
    rw [CharBuf.overlayGaps_map_some, List.length_map]
    have hstore := CharBuf.overlay_append 0 r [0] cmd
    rw [CharBuf.overlay_cons, CharBuf.overlay_nil] at hstore
    rw [← hstore]
    exact CharBuf.cstr_overlay (by omega) h0

/-- The reply to a set command, with no failure. -/
theorem replyLoop_tolerates_iff_set :
    (∀ (cmd : CharBuf 16) (msg : List UInt8), cmd.cstr = some msg →
      ∀ fuel, [some 'T'.toUInt8].length < fuel →
        ∃ cmd', replyLoop scriptBus fuel 0 cmd ([some 'T'.toUInt8] ++ [some 0]) =
            .ok (cmd', []) ∧
          cmd'.cstr = some [some 'T'.toUInt8].reduceOption) ↔
    none ∉ [some 'T'.toUInt8] :=
  replyLoop_tolerates_iff (by decide) (by decide) []

/-- `SSE0` has been sent, the first read fails, and its reply `"T"` is collected as `"ST"`. -/
theorem replyLoop_spoiled :
    ¬ ∀ (os : List (Option UInt8)) (cmd : CharBuf 16) (msg : List UInt8) (fuel : Nat),
      0 ∉ os.reduceOption → os.reduceOption.length ≤ 7 → cmd.cstr = some msg →
      os.length < fuel →
      ∃ cmd', replyLoop scriptBus fuel 0 cmd (os ++ [some 0]) = .ok (cmd', []) ∧
        cmd'.cstr = some os.reduceOption := by
  intro h
  obtain ⟨cmd', hloop, hcstr⟩ := h [none, some 'T'.toUInt8]
    ⟨bytes ['S', 'S', 'E', '0'] ++ List.replicate 12 0, rfl⟩ (bytes ['S', 'S', 'E', '0']) 3
    (by decide) (by decide) (by decide +kernel) (by decide)
  have hspoiled : replyLoop scriptBus 3 0
      ⟨bytes ['S', 'S', 'E', '0'] ++ List.replicate 12 0, rfl⟩
      ([none, some 'T'.toUInt8] ++ [some 0]) =
      .ok (⟨bytes ['S', 'T'] ++ 0 :: bytes ['0'] ++ List.replicate 12 0, rfl⟩, []) := rfl
  rw [hspoiled, Except.ok.injEq, Prod.mk.injEq] at hloop
  rw [← hloop.1] at hcstr
  revert hcstr
  decide +kernel

end Server

end ProjZ
