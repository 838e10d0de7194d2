import Mathlib.Data.Bool.AllAny
import ProjZ.Lib.JavaText

/-!
# Java's property files

`Properties.load` on a byte stream, which it reads as ISO 8859-1: natural lines, comments
and continued lines, the key and the element of a logical line, and their escapes; then
`Integer.parseInt` on a text of `char`s. Texts of plain lines, such as the header fields of
the internet protocols, have their lines for properties (`lines_crlf`, `property_field`).
-/

namespace JavaProperties

/-- A `char` of Java, a UTF-16 code unit. -/
abbrev JChar := UInt16

/-- The code unit of an ASCII character. -/
def jchar (c : Char) : JChar := c.toUInt8.toUInt16

/-- The text of a string literal of ASCII characters. -/
def text (s : List Char) : List JChar := s.map jchar

/-! ## Lines -/

/-- The natural lines of a text, with the line ends `\n`, `\r` and `\r\n`: `line` is what
the current one has so far, and `skipLF` tells that a `\r` has just ended one. -/
def naturalLines (skipLF : Bool) (line : List JChar) : List JChar → List (List JChar)
  | [] => [line]
  | c :: s =>
    if c = jchar '\n' then
      if skipLF then naturalLines false line s else line :: naturalLines false [] s
    else if c = jchar '\r' then line :: naturalLines true [] s
    else naturalLines false (line ++ [c]) s

/-- White space inside a line: a space, a tab or a form feed. -/
def isBlank (c : JChar) : Bool := decide (c = 32 ∨ c = 9 ∨ c = 12)

/-- A line without its leading white space has no data: it is empty or a comment. -/
def isIgnored : List JChar → Bool
  | [] => true
  | c :: _ => decide (c = jchar '#' ∨ c = jchar '!')

/-- The line end is escaped: an odd number of backslashes stands before it. -/
def isContinued (line : List JChar) : Bool :=
  decide ((line.reverse.takeWhile (· = jchar '\\')).length % 2 = 1)

/-- The logical lines: `continued` holds the data of the lines before whose end was
escaped, without the backslash. A comment cannot be continued, and does not stand in a
continued line. -/
def logicalLines (continued : Option (List JChar)) : List (List JChar) → List (List JChar)
  | [] => (continued.toList).filter (· ≠ [])
  | natural :: rest =>
    let line := natural.dropWhile isBlank
    if continued = none ∧ isIgnored line then logicalLines none rest
    else
      let data := continued.getD [] ++ line
      if isContinued line then logicalLines (some data.dropLast) rest
      else if data = [] then logicalLines none rest
      else data :: logicalLines none rest

/-! ## Keys and elements -/

/-- The characters that end a key. -/
def endsKey (c : JChar) : Bool := decide (c = jchar '=' ∨ c = jchar ':') || isBlank c

/-- The key of a logical line, up to the first unescaped character that ends it, and the
rest of the line. -/
def splitKey (escaped : Bool) : List JChar → List JChar × List JChar
  | [] => ([], [])
  | c :: s =>
    if escaped = false ∧ endsKey c then ([], c :: s)
    else
      let (key, rest) := splitKey (decide (c = jchar '\\' ∧ escaped = false)) s
      (c :: key, rest)

/-- The element: one `=` or `:` after the key and the white space around it are dropped. -/
def element (rest : List JChar) : List JChar :=
  match rest.dropWhile isBlank with
  | [] => []
  | c :: s => if c = jchar '=' ∨ c = jchar ':' then s.dropWhile isBlank else c :: s

/-- The value of a hexadecimal digit. -/
def hexDigit (c : JChar) : Option JChar :=
  if jchar '0' ≤ c ∧ c ≤ jchar '9' then some (c - jchar '0')
  else if jchar 'a' ≤ c ∧ c ≤ jchar 'f' then some (c - jchar 'a' + 10)
  else if jchar 'A' ≤ c ∧ c ≤ jchar 'F' then some (c - jchar 'A' + 10)
  else none

/-- The character `\c` stands for; an unknown escape is the character itself. -/
def escape (c : JChar) : JChar :=
  if c = jchar 't' then 9
  else if c = jchar 'n' then 10
  else if c = jchar 'f' then 12
  else if c = jchar 'r' then 13
  else c

/-- Escape processing. `none` stands for the `IllegalArgumentException` of a malformed
`\uxxxx`. -/
def unescape : List JChar → Option (List JChar)
  | [] => some []
  | [c] => some (if c = jchar '\\' then [] else [c])
  | c :: e :: s =>
    if c ≠ jchar '\\' then (unescape (e :: s)).map (c :: ·)
    else if e ≠ jchar 'u' then (unescape s).map (escape e :: ·)
    else
      match s with
      | a :: b :: x :: y :: s => do
        let a ← hexDigit a
        let b ← hexDigit b
        let x ← hexDigit x
        let y ← hexDigit y
        let s ← unescape s
        some ((a * 4096 + b * 256 + x * 16 + y) :: s)
      | _ => none

/-- The property of a logical line. -/
def property (line : List JChar) : Option (List JChar × List JChar) := do
  let key ← unescape (splitKey false line).1
  let value ← unescape (element (splitKey false line).2)
  some (key, value)

/-- The logical lines of a byte stream. -/
def lines (s : List UInt8) : List (List JChar) :=
  logicalLines none (naturalLines false [] (s.map UInt8.toUInt16))

/-- `Properties.load` into an empty table: the properties in the order of the lines. -/
def load (s : List UInt8) : Option (List (List JChar × List JChar)) :=
  (lines s).mapM property

/-- `getProperty`: a later line replaces the element of an earlier one. -/
def getProperty (props : List (List JChar × List JChar)) (key : List JChar) :
    Option (List JChar) :=
  (props.reverse.find? fun p => p.1 = key).map Prod.snd

/-- The text has a line with this key. -/
def HasLine (s : List UInt8) (key : List JChar) : Prop :=
  ∃ line ∈ lines s, unescape (splitKey false line).1 = some key

instance (s : List UInt8) (key : List JChar) : Decidable (HasLine s key) :=
  inferInstanceAs (Decidable (∃ line ∈ lines s, _))

/-- The key of a property is that of its line. -/
theorem key_of_property {line : List JChar} {p : List JChar × List JChar}
    (h : property line = some p) : unescape (splitKey false line).1 = some p.1 := by
  simp only [property, Option.bind_eq_bind, Option.bind_eq_some_iff, Option.some.injEq] at h
  obtain ⟨key, hkey, value, -, rfl⟩ := h
  exact hkey

/-- Every property comes from a line. -/
theorem exists_line {lines : List (List JChar)} {props : List (List JChar × List JChar)}
    (h : lines.mapM property = some props) {p : List JChar × List JChar} (hp : p ∈ props) :
    ∃ line ∈ lines, property line = some p := by
  induction lines generalizing props with
  | nil =>
    obtain rfl : [] = props := Option.some.inj h
    exact absurd hp List.not_mem_nil
  | cons line lines ih =>
    simp only [List.mapM_cons, Option.bind_eq_bind, Option.bind_eq_some_iff, Option.pure_def,
      Option.some.injEq] at h
    obtain ⟨q, hq, rest, hrest, rfl⟩ := h
    rcases List.mem_cons.mp hp with rfl | hp
    · exact ⟨line, List.mem_cons_self .., hq⟩
    · obtain ⟨line', hmem, hline'⟩ := ih hrest hp
      exact ⟨line', List.mem_cons_of_mem _ hmem, hline'⟩

theorem getProperty_eq_none {s : List UInt8} {props : List (List JChar × List JChar)}
    {key : List JChar} (h : load s = some props) (hno : ¬ HasLine s key) :
    getProperty props key = none := by
  unfold getProperty
  rw [Option.map_eq_none_iff, List.find?_eq_none]
  intro p hp hkey
  obtain ⟨line, hline, hprop⟩ := exists_line h (List.mem_reverse.mp hp)
  refine hno ⟨line, hline, ?_⟩
  rw [key_of_property hprop]
  exact congrArg some (of_decide_eq_true hkey)

/-! ## Integers -/

/-- The zeros of the decimal digits that are one code unit (general category `Nd`). -/
def digitZeros : List JChar :=
  [0x0030, 0x0660, 0x06F0, 0x07C0, 0x0966, 0x09E6, 0x0A66, 0x0AE6, 0x0B66, 0x0BE6, 0x0C66,
    0x0CE6, 0x0D66, 0x0DE6, 0x0E50, 0x0ED0, 0x0F20, 0x1040, 0x1090, 0x17E0, 0x1810, 0x1946,
    0x19D0, 0x1A80, 0x1A90, 0x1B50, 0x1BB0, 0x1C40, 0x1C50, 0xA620, 0xA8D0, 0xA900, 0xA9D0,
    0xA9F0, 0xAA50, 0xABF0, 0xFF10]

/-- `Character.digit(c, 10)`. -/
def digit (c : JChar) : Option Nat :=
  (digitZeros.find? fun z => z ≤ c ∧ c.toNat < z.toNat + 10).map fun z => c.toNat - z.toNat

/-- The number of a text of digits. -/
def digitsValue : Nat → List JChar → Option Nat
  | n, [] => some n
  | n, c :: s => do digitsValue (n * 10 + (← digit c)) s

/-- `Integer.parseInt`; `none` is its `NumberFormatException`. -/
def parseInt (s : List JChar) : Option Int := do
  let (negative, digits) :=
    match s with
    | [] => (false, [])
    | c :: t =>
      if c = jchar '-' then (true, t) else if c = jchar '+' then (false, t) else (false, c :: t)
  if digits = [] then none
  else
    let n ← digitsValue 0 digits
    let v : Int := if negative then -n else n
    if -2147483648 ≤ v ∧ v ≤ 2147483647 then some v else none

/-! ## Header fields -/

/-- The text of lines that each end in CR LF. -/
def crlf (ls : List (List UInt8)) : List UInt8 := ls.flatMap fun l => l ++ [13, 10]

/-- A line without line ends and backslashes, that is no comment and does not begin with
white space. -/
structure Plain (line : List JChar) : Prop where
  ne_nil : line ≠ []
  chars : ∀ c ∈ line, c ≠ jchar '\n' ∧ c ≠ jchar '\r' ∧ c ≠ jchar '\\'
  head : ∀ c ∈ line.head?, isBlank c = false ∧ c ≠ jchar '#' ∧ c ≠ jchar '!'

instance : DecidablePred Plain := fun line =>
  decidable_of_iff (line ≠ [] ∧
      (line.all fun c => c ≠ jchar '\n' ∧ c ≠ jchar '\r' ∧ c ≠ jchar '\\') = true ∧
      (line.head?.toList.all fun c => isBlank c = false ∧ c ≠ jchar '#' ∧ c ≠ jchar '!') = true)
    { mp := fun ⟨hne, hchars, hhead⟩ =>
        { ne_nil := hne
          chars := List.all_iff_forall_prop.mp hchars
          head := fun c hc => List.all_iff_forall_prop.mp hhead c (Option.mem_toList.mpr hc) }
      mpr := fun h =>
        ⟨h.ne_nil, List.all_iff_forall_prop.mpr h.chars,
          List.all_iff_forall_prop.mpr fun c hc => h.head c (Option.mem_toList.mp hc)⟩ }

theorem naturalLines_crlf {line : List JChar}
    (h : ∀ c ∈ line, c ≠ jchar '\n' ∧ c ≠ jchar '\r') (skipLF : Bool) (acc s : List JChar) :
    naturalLines skipLF acc (line ++ 13 :: 10 :: s) = (acc ++ line) :: naturalLines false [] s := by
  induction line generalizing skipLF acc with
  | nil =>
    rw [List.nil_append, List.append_nil]
    rfl
  | cons c line ih =>
    obtain ⟨hlf, hcr⟩ := h c List.mem_cons_self
    have hrest := ih (fun d hd => h d (List.mem_cons_of_mem c hd)) false (acc ++ [c])
    rw [List.append_assoc] at hrest
    rw [List.cons_append, naturalLines, if_neg hlf, if_neg hcr, hrest]
    rfl

theorem Plain.dropWhile_isBlank {line : List JChar} (h : Plain line) :
    line.dropWhile isBlank = line := by
  cases line with
  | nil => rfl
  | cons c line => exact List.dropWhile_cons_of_neg (by rw [(h.head c rfl).1]; nofun)

theorem Plain.isIgnored {line : List JChar} (h : Plain line) : isIgnored line = false := by
  cases line with
  | nil => exact absurd rfl h.ne_nil
  | cons c line =>
    obtain ⟨-, hhash, hbang⟩ := h.head c rfl
    exact decide_eq_false fun hc => hc.elim hhash hbang

theorem isContinued_of_chars {line : List JChar} (h : ∀ c ∈ line, c ≠ jchar '\\') :
    isContinued line = false := by
  have hnone : line.reverse.takeWhile (· = jchar '\\') = [] := by
    cases hrev : line.reverse with
    | nil => rfl
    | cons c rest =>
      have hmem : c ∈ line := List.mem_reverse.mp (by rw [hrev]; exact List.mem_cons_self)
      exact List.takeWhile_cons_of_neg fun hc => h c hmem (of_decide_eq_true hc)
  unfold isContinued
  rw [hnone]
  rfl

/-- **The lines of a text of plain and empty lines** are the plain ones. -/
theorem lines_crlf (ls : List (List UInt8))
    (h : ∀ l ∈ ls, l = [] ∨ Plain (l.map UInt8.toUInt16)) :
    lines (crlf ls) = (ls.filter (· ≠ [])).map (List.map UInt8.toUInt16) := by
  unfold lines
  induction ls with
  | nil => rfl
  | cons l ls ih =>
    have hrest := ih fun l' hl' => h l' (List.mem_cons_of_mem l hl')
    have htext : (crlf (l :: ls)).map UInt8.toUInt16 =
        l.map UInt8.toUInt16 ++ 13 :: 10 :: (crlf ls).map UInt8.toUInt16 := by
      unfold crlf
      rw [List.flatMap_cons, List.map_append, List.map_append, List.append_assoc]
      rfl
    rw [htext]
    rcases h l List.mem_cons_self with rfl | hplain
    · -- an empty line is no logical line
      have hempty : ∀ c ∈ ([] : List JChar), c ≠ jchar '\n' ∧ c ≠ jchar '\r' := nofun
      rw [List.map_nil, naturalLines_crlf hempty]
      exact hrest
    · have hl : l ≠ [] := by
        rintro rfl
        exact hplain.ne_nil rfl
      rw [naturalLines_crlf fun c hc => ⟨(hplain.chars c hc).1, (hplain.chars c hc).2.1⟩,
        List.nil_append, logicalLines, hplain.dropWhile_isBlank, hplain.isIgnored,
        if_neg (fun hc => absurd hc.2 Bool.false_ne_true),
        isContinued_of_chars fun c hc => (hplain.chars c hc).2.2]
      show (if l.map UInt8.toUInt16 = [] then _ else _) = _
      have hfilter : (l :: ls).filter (· ≠ []) = l :: ls.filter (· ≠ []) :=
        List.filter_cons_of_pos (decide_eq_true hl)
      rw [if_neg hplain.ne_nil, hrest, hfilter]
      rfl

/-- Text without backslashes has no escapes. -/
theorem unescape_of_chars {s : List JChar} (h : ∀ c ∈ s, c ≠ jchar '\\') :
    unescape s = some s := by
  induction s with
  | nil => rfl
  | cons c s ih =>
    have hc := h c List.mem_cons_self
    have hrest := ih fun d hd => h d (List.mem_cons_of_mem c hd)
    cases s with
    | nil =>
      show some (if c = jchar '\\' then [] else [c]) = _
      rw [if_neg hc]
    | cons e s =>
      unfold unescape
      rw [if_pos hc, hrest]
      rfl

theorem splitKey_of_chars {key : List JChar}
    (h : ∀ c ∈ key, c ≠ jchar '\\' ∧ endsKey c = false) {d : JChar} (hd : endsKey d = true)
    (s : List JChar) : splitKey false (key ++ d :: s) = (key, d :: s) := by
  induction key with
  | nil => exact if_pos ⟨rfl, hd⟩
  | cons c key ih =>
    obtain ⟨hslash, hends⟩ := h c List.mem_cons_self
    have hnot : decide (c = jchar '\\' ∧ false = false) = false :=
      decide_eq_false fun hc => hslash hc.1
    have hgo : ¬ (false = false ∧ endsKey c = true) := by
      rw [hends]
      exact fun hc => Bool.false_ne_true hc.2
    rw [List.cons_append, splitKey, if_neg hgo, hnot,
      ih fun e he => h e (List.mem_cons_of_mem c he)]

/-- **A header field** `key: value` is the property of that key and value. -/
theorem property_field {key value : List JChar}
    (hkey : ∀ c ∈ key, c ≠ jchar '\\' ∧ endsKey c = false)
    (hvalue : ∀ c ∈ value, c ≠ jchar '\\') (hhead : ∀ c ∈ value.head?, isBlank c = false) :
    property (key ++ 58 :: 32 :: value) = some (key, value) := by
  have hsplit := splitKey_of_chars hkey (d := 58) (by decide) (32 :: value)
  have helement : element (58 :: 32 :: value) = value := by
    show (32 :: value).dropWhile isBlank = value
    rw [List.dropWhile_cons_of_pos (by decide)]
    cases value with
    | nil => rfl
    | cons c value => exact List.dropWhile_cons_of_neg (by rw [hhead c rfl]; nofun)
  unfold property
  rw [hsplit, helement, unescape_of_chars fun c hc => (hkey c hc).1, unescape_of_chars hvalue]
  rfl

/-! ## Decimal numbers -/

theorem digit_toUInt16 {c : UInt8} (h : Ascii.isDigit c = true) :
    digit c.toUInt16 = some (c.toNat - 48) := by
  have hall : ∀ d : Fin 10, digit (UInt8.ofNat (48 + d)).toUInt16 = some d.val := by
    decide +kernel
  rw [Ascii.isDigit_iff] at h
  obtain ⟨hlo, hhi⟩ := h
  have hlo' : 48 ≤ c.toNat := hlo
  have hhi' : c.toNat ≤ 57 := hhi
  have hc := hall ⟨c.toNat - 48, by omega⟩
  rwa [show 48 + (c.toNat - 48) = c.toNat by omega, UInt8.ofNat_toNat] at hc

theorem digitsValue_map {s : List UInt8} (h : ∀ c ∈ s, Ascii.isDigit c = true) (n : Nat) :
    digitsValue n (s.map UInt8.toUInt16) =
      some (s.foldl (fun acc c => 10 * acc + (c.toNat - 48)) n) := by
  induction s generalizing n with
  | nil => rfl
  | cons c s ih =>
    have hc := digit_toUInt16 (h c List.mem_cons_self)
    rw [List.map_cons, digitsValue, hc, List.foldl_cons, Nat.mul_comm 10 n]
    exact ih (fun d hd => h d (List.mem_cons_of_mem c hd)) _

/-- **Printing, then parsing** a number in the range of `int` gives it back. -/
theorem parseInt_decimal {n : Nat} (h : n ≤ 2147483647) :
    parseInt ((Decimal.decimal n).map UInt8.toUInt16) = some (n : Int) := by
  have hdigits : ∀ c ∈ Decimal.decimal n, Ascii.isDigit c = true :=
    fun _ => Decimal.isDigit_of_mem_decimal
  have hvalue := digitsValue_map hdigits 0
  rw [show (Decimal.decimal n).foldl _ 0 = n from Decimal.value_decimal n] at hvalue
  cases hs : Decimal.decimal n with
  | nil =>
    have hzero := Decimal.value_decimal n
    rw [hs] at hzero
    obtain rfl : 0 = n := hzero
    exact absurd hs (by decide)
  | cons c s =>
    rw [hs] at hvalue
    have hc := hdigits c (by rw [hs]; exact List.mem_cons_self)
    have hall : ∀ d : Fin 10, (UInt8.ofNat (48 + d)).toUInt16 ≠ jchar '-' ∧
        (UInt8.ofNat (48 + d)).toUInt16 ≠ jchar '+' := by
      decide +kernel
    rw [Ascii.isDigit_iff] at hc
    have hlo : 48 ≤ c.toNat := hc.1
    have hhi : c.toNat ≤ 57 := hc.2
    have hsign := hall ⟨c.toNat - 48, by omega⟩
    rw [show 48 + (c.toNat - 48) = c.toNat by omega, UInt8.ofNat_toNat] at hsign
    have hrange : -2147483648 ≤ (n : Int) ∧ (n : Int) ≤ 2147483647 := by omega
    rw [List.map_cons] at hvalue ⊢
    unfold parseInt
    simp only [if_neg hsign.1, if_neg hsign.2, hvalue, if_neg (List.cons_ne_nil _ _)]
    exact if_pos hrange

end JavaProperties
