import AdMatch.Lib.Json
import Mathlib.Algebra.GroupWithZero.Nat
import Mathlib.Data.List.TakeWhile

/-!
# JSON text

A text format for documents: the compact form, in which a document is printed without
any white space, and a parser for the whole grammar, with white space, all escapes, and
a limit on how deep a document may nest. What is printed is parsed as it was
(`AdMatch.Json.compact_keeps`).

The parser runs on fuel, of which the length of the text is enough.
-/

namespace AdMatch

namespace Json

/-! ### Strings -/

/-- The characters that have an escape of one letter, by that letter. -/
def shortEscapes : List (Char × Char) :=
  [('"', '"'), ('\\', '\\'), ('b', Char.ofNat 8), ('t', '\t'), ('n', '\n'), ('f', Char.ofNat 12),
    ('r', '\r')]

/-- A character in a string. -/
def escape (c : Char) : List Char :=
  match shortEscapes.find? fun m => m.2 = c with
  | some m => ['\\', m.1]
  | none =>
    if c.toNat < 32 then
      ['\\', 'u', '0', '0', Nat.digitChar (c.toNat / 16), Nat.digitChar (c.toNat % 16)]
    else [c]

/-- A string, in quotes. -/
def quote (s : String) : List Char := '"' :: s.toList.flatMap escape ++ ['"']

def hexValue (c : Char) : Option ℕ := (List.range 16).find? fun n => n.digitChar = c.toLower

/-- The value of four hexadecimal digits. -/
def hex4 (a b c d : Char) : Option ℕ := do
  return ((← hexValue a) * 16 + (← hexValue b)) * 256 + (← hexValue c) * 16 + (← hexValue d)

/-- The character of a code unit. A high surrogate has to be followed by a low one. -/
def ofCodeUnit (n : ℕ) (rest : List Char) : Option (Char × List Char) :=
  if n < 0xD800 ∨ 0xE000 ≤ n then some (Char.ofNat n, rest)
  else if 0xDC00 ≤ n then none
  else match rest with
    | '\\' :: 'u' :: a :: b :: c :: d :: rest => do
      let m ← hex4 a b c d
      if 0xDC00 ≤ m ∧ m < 0xE000 then
        some (Char.ofNat (0x10000 + (n - 0xD800) * 0x400 + (m - 0xDC00)), rest)
      else none
    | _ => none

/-- The character of an escape, from what follows the backslash. -/
def unescape : List Char → Option (Char × List Char)
  | 'u' :: a :: b :: c :: d :: rest => (hex4 a b c d).bind fun n => ofCodeUnit n rest
  | '/' :: rest => some ('/', rest)
  | c :: rest => (shortEscapes.find? fun m => m.1 = c).map fun m => (m.2, rest)
  | [] => none

/-- Reads a string up to its closing quote. -/
def scan : ℕ → List Char → Option (List Char × List Char)
  | 0, _ => none
  | _ + 1, [] => none
  | n + 1, c :: rest =>
    if c = '"' then some ([], rest)
    else if c = '\\' then
      (unescape rest).bind fun r => (scan n r.2).map fun s => (r.1 :: s.1, s.2)
    else if c.toNat < 32 then none
    else (scan n rest).map fun s => (c :: s.1, s.2)

theorem unescape_short {m : Char × Char} (h : m ∈ shortEscapes) (rest : List Char) :
    unescape (m.1 :: rest) = some (m.2, rest) := by
  simp only [shortEscapes, List.mem_cons, List.not_mem_nil, or_false] at h
  rcases h with rfl | rfl | rfl | rfl | rfl | rfl | rfl <;> rfl

theorem unescape_control {n : ℕ} (h : n < 32) (rest : List Char) :
    unescape ('u' :: '0' :: '0' :: (n / 16).digitChar :: (n % 16).digitChar :: rest) =
      some (Char.ofNat n, rest) := by
  have hvalue : ∀ k < 32, hex4 '0' '0' (k / 16).digitChar (k % 16).digitChar = some k := by
    decide
  rw [unescape, hvalue n h, Option.bind_some]
  exact if_pos (.inl (by omega))

/-- **A character is read as it was written.** -/
theorem scan_escape (n : ℕ) (c : Char) (rest : List Char) :
    scan (n + 1) (escape c ++ rest) = (scan n rest).map fun s => (c :: s.1, s.2) := by
  rcases hfind : shortEscapes.find? fun m => m.2 = c with _ | m
  · have hne : ∀ m ∈ shortEscapes, m.2 ≠ c := by simpa using List.find?_eq_none.mp hfind
    by_cases hcontrol : c.toNat < 32
    · rw [escape, hfind]
      simp only [if_pos hcontrol, List.cons_append, List.nil_append]
      rw [scan, if_neg (by decide), if_pos rfl, unescape_control hcontrol, Char.ofNat_toNat,
        Option.bind_some]
    · rw [escape, hfind]
      simp only [if_neg hcontrol, List.cons_append, List.nil_append]
      rw [scan, if_neg (hne ('"', '"') (by decide)).symm,
        if_neg (hne ('\\', '\\') (by decide)).symm, if_neg hcontrol]
  · have hm : m.2 = c := by simpa using List.find?_some hfind
    rw [escape, hfind]
    simp only [List.cons_append, List.nil_append]
    rw [scan, if_neg (by decide), if_pos rfl, unescape_short (List.mem_of_find?_eq_some hfind), hm,
      Option.bind_some]

theorem length_escape_pos (c : Char) : 0 < (escape c).length := by
  rw [escape]
  split
  · exact Nat.zero_lt_succ _
  · split <;> exact Nat.zero_lt_succ _

theorem length_le_flatMap_escape (s : List Char) : s.length ≤ (s.flatMap escape).length := by
  induction s with
  | nil => exact Nat.le_refl _
  | cons c s ih =>
    have hpos := length_escape_pos c
    rw [List.flatMap_cons, List.length_append, List.length_cons]
    omega

/-- **A string is read as it was written**, up to its closing quote. -/
theorem scan_quote {n : ℕ} {s : List Char} (h : s.length < n) (rest : List Char) :
    scan n (s.flatMap escape ++ '"' :: rest) = some (s, rest) := by
  induction s generalizing n with
  | nil =>
    obtain ⟨n, rfl⟩ := Nat.exists_eq_succ_of_ne_zero (Nat.ne_zero_of_lt h)
    rfl
  | cons c s ih =>
    obtain ⟨n, rfl⟩ := Nat.exists_eq_succ_of_ne_zero (Nat.ne_zero_of_lt h)
    rw [List.flatMap_cons, List.append_assoc, scan_escape, ih (Nat.lt_of_succ_lt_succ h),
      Option.map_some]

/-! ### Numbers -/

/-- The characters of numbers. -/
def isNumeral (c : Char) : Bool := c.isDigit || ['-', '+', '.', 'e', 'E'].contains c

/-- What may follow the digits of a number, or of its fraction. -/
def isExponent : List Char → Bool
  | [] => true
  | e :: rest =>
    let digits := if rest.head? = some '-' ∨ rest.head? = some '+' then rest.tail else rest
    (e == 'e' || e == 'E') && !digits.isEmpty && digits.all Char.isDigit

/-- What may follow the digits of a number. -/
def isFraction : List Char → Bool
  | '.' :: rest =>
    !(rest.takeWhile Char.isDigit).isEmpty && isExponent (rest.dropWhile Char.isDigit)
  | rest => isExponent rest

/-- The integer of a sign and of digits, if it has 64 bits. There is no negative zero. -/
def integerOf (negative : Bool) (digits : List Char) : Option ℤ :=
  let n := Nat.ofDigitChars 10 digits 0
  if negative then if 0 < n ∧ n ≤ 2 ^ 63 then some (-n) else none
  else if n < 2 ^ 64 then some n else none

/-- **The number of a literal**, if it is one. -/
def number (literal : List Char) : Option Json :=
  let negative : Bool := literal.head? = some '-'
  let rest := if negative then literal.tail else literal
  let digits := rest.takeWhile Char.isDigit
  let tail := rest.dropWhile Char.isDigit
  if digits = [] ∨ (digits.head? = some '0' ∧ digits ≠ ['0']) ∨ isFraction tail = false then none
  else match tail, integerOf negative digits with
    | [], some n => some (.int n)
    | _, _ => some (.real (String.ofList literal))

/-- An integer, in decimal. -/
def decimal (n : ℤ) : List Char :=
  if n < 0 then '-' :: Nat.toDigits 10 n.natAbs else Nat.toDigits 10 n.natAbs

theorem takeWhile_toDigits (n : ℕ) :
    (Nat.toDigits 10 n).takeWhile Char.isDigit = Nat.toDigits 10 n ∧
      (Nat.toDigits 10 n).dropWhile Char.isDigit = [] := by
  have hdigits : ∀ c ∈ Nat.toDigits 10 n, c.isDigit = true := fun c hc =>
    Nat.isDigit_of_mem_toDigits (by omega) (by omega) hc
  exact ⟨List.takeWhile_eq_self_iff.mpr hdigits, List.dropWhile_eq_nil_iff.mpr hdigits⟩

/-- A number does not start with a zero, unless it is zero. -/
theorem head_toDigits {n : ℕ} (h : (Nat.toDigits 10 n).head? = some '0') : n = 0 := by
  induction n using Nat.strong_induction_on with
  | h n ih =>
    rw [Nat.toDigits_eq_if (by omega)] at h
    by_cases hlt : n < 10
    · rw [if_pos hlt, List.head?_cons, Option.some_inj, Nat.digitChar_eq_zero] at h
      exact h
    · rw [if_neg hlt, List.head?_append_of_ne_nil _ Nat.toDigits_ne_nil] at h
      have := ih (n / 10) (by omega) h
      omega

/-- **An integer is read as it was written.** -/
theorem number_decimal {n : ℤ} (h : -2 ^ 63 ≤ n ∧ n < 2 ^ 64) :
    number (decimal n) = some (.int n) := by
  obtain ⟨htake, hdrop⟩ := takeWhile_toDigits n.natAbs
  have hzero : ¬((Nat.toDigits 10 n.natAbs).head? = some '0' ∧
      Nat.toDigits 10 n.natAbs ≠ ['0']) := by
    rintro ⟨hhead, hne⟩
    rw [head_toDigits hhead] at hne
    exact hne rfl
  have hminus : (Nat.toDigits 10 n.natAbs).head? ≠ some '-' := by
    intro hhead
    have hmem := List.mem_of_head? hhead
    exact absurd (Nat.isDigit_of_mem_toDigits (by omega) (by omega) hmem) (by decide)
  have hguard : ¬(Nat.toDigits 10 n.natAbs = [] ∨ ((Nat.toDigits 10 n.natAbs).head? = some '0' ∧
      Nat.toDigits 10 n.natAbs ≠ ['0']) ∨ isFraction [] = false) := by
    rintro (hnil | hhead | hfraction)
    · exact Nat.toDigits_ne_nil hnil
    · exact hzero hhead
    · exact absurd hfraction (by decide)
  by_cases hn : n < 0
  · have hinteger : integerOf true (Nat.toDigits 10 n.natAbs) = some n := by
      simp only [integerOf, Nat.ofDigitChars_ten_toDigits, if_true]
      rw [if_pos ⟨by omega, by omega⟩]
      congr 1
      omega
    rw [decimal, if_pos hn, number]
    simp only [List.head?_cons, decide_true, if_true, List.tail_cons, htake, hdrop, if_neg hguard,
      hinteger]
  · have hinteger : integerOf false (Nat.toDigits 10 n.natAbs) = some n := by
      simp only [integerOf, Nat.ofDigitChars_ten_toDigits, Bool.false_eq_true, if_false]
      rw [if_pos (by omega)]
      congr 1
      omega
    rw [decimal, if_neg hn, number]
    simp only [hminus, decide_false, Bool.false_eq_true, if_false, htake, hdrop, if_neg hguard,
      hinteger]

/-! ### Printing -/

mutual

/-- **The compact form of a document.** -/
def print : Json → List Char
  | .null => ['n', 'u', 'l', 'l']
  | .bool true => ['t', 'r', 'u', 'e']
  | .bool false => ['f', 'a', 'l', 's', 'e']
  | .int n => decimal n
  | .real literal => literal.toList
  | .str s => quote s
  | .arr items => '[' :: printItems items
  | .obj members => '{' :: printMembers members

/-- The items of an array, and its closing bracket. -/
def printItems : List Json → List Char
  | [] => [']']
  | [v] => print v ++ [']']
  | v :: vs => print v ++ ',' :: printItems vs

/-- The members of an object, and its closing bracket. -/
def printMembers : List (String × Json) → List Char
  | [] => ['}']
  | [(name, v)] => quote name ++ ':' :: print v ++ ['}']
  | (name, v) :: ms => quote name ++ ':' :: print v ++ ',' :: printMembers ms

end

/-! ### Parsing -/

/-- Skips white space. -/
def skip (cs : List Char) : List Char := cs.dropWhile [' ', '\n', '\t', '\r'].contains

/-- The word that the text starts with, and what follows it. -/
def word (cs : List Char) : Option (Json × List Char) :=
  [null, bool true, bool false].findSome? fun v =>
    if (print v).isPrefixOf cs then some (v, cs.drop (print v).length) else none

mutual

/-- **Reads a document** that nests at most so deep, and what follows it. -/
def value : ℕ → ℕ → List Char → Option (Json × List Char)
  | 0, _, _ => none
  | n + 1, depth, cs =>
    match skip cs with
    | [] => none
    | c :: rest =>
      if c = '"' then (scan rest.length rest).map fun s => (.str (String.ofList s.1), s.2)
      else if c = '[' then
        match depth with
        | 0 => none
        | depth + 1 =>
          if (skip rest).head? = some ']' then some (.arr [], (skip rest).tail)
          else (items n depth rest).map fun r => (.arr r.1, r.2)
      else if c = '{' then
        match depth with
        | 0 => none
        | depth + 1 =>
          if (skip rest).head? = some '}' then some (.obj [], (skip rest).tail)
          else (members n depth rest).map fun r => (.obj r.1, r.2)
      else if c.isDigit || c == '-' then
        (number ((c :: rest).takeWhile isNumeral)).map fun v =>
          (v, (c :: rest).dropWhile isNumeral)
      else word (c :: rest)

/-- Reads the items of an array, up to its closing bracket. -/
def items : ℕ → ℕ → List Char → Option (List Json × List Char)
  | 0, _, _ => none
  | n + 1, depth, cs =>
    (value n depth cs).bind fun v =>
      match skip v.2 with
      | [] => none
      | c :: rest =>
        if c = ']' then some ([v.1], rest)
        else if c = ',' then (items n depth rest).map fun vs => (v.1 :: vs.1, vs.2)
        else none

/-- Reads the members of an object, up to its closing bracket. -/
def members : ℕ → ℕ → List Char → Option (List (String × Json) × List Char)
  | 0, _, _ => none
  | n + 1, depth, cs =>
    if (skip cs).head? = some '"' then
      (scan cs.length (skip cs).tail).bind fun name =>
        if (skip name.2).head? = some ':' then
          (value n depth (skip name.2).tail).bind fun v =>
            match skip v.2 with
            | [] => none
            | c :: rest =>
              if c = '}' then some ([(String.ofList name.1, v.1)], rest)
              else if c = ',' then
                (members n depth rest).map fun ms => ((String.ofList name.1, v.1) :: ms.1, ms.2)
              else none
        else none
    else none

end

/-- **Parses a text**, which may hold nothing but one document. -/
def parse (text : String) : Option Json :=
  (value text.length 127 text.toList).bind fun v => if skip v.2 = [] then some v.1 else none

/-! ### What is printed is parsed as it was -/

/-- What may follow a number. -/
def Stops (rest : List Char) : Prop := ∀ c ∈ rest.head?, isNumeral c = false

/-- What documents start with: no white space, and no closing bracket. -/
def Starts (c : Char) : Prop :=
  [' ', '\n', '\t', '\r'].contains c = false ∧ c ≠ ']' ∧ c ≠ '}'

instance (c : Char) : Decidable (Starts c) := inferInstanceAs (Decidable (_ ∧ _))

theorem skip_cons {c : Char} (h : Starts c) (rest : List Char) : skip (c :: rest) = c :: rest := by
  rw [skip, List.dropWhile_cons, h.1]
  rfl

/-- Digits are none of the characters with a meaning of their own. -/
theorem starts_of_isDigit {c : Char} (h : c.isDigit = true) :
    Starts c ∧ c ≠ '"' ∧ c ≠ '[' ∧ c ≠ '{' := by
  have hne : ∀ d : Char, d.isDigit = false → c ≠ d := by
    rintro d hd rfl
    rw [h] at hd
    cases hd
  refine ⟨⟨?_, hne _ (by decide), hne _ (by decide)⟩, hne _ (by decide), hne _ (by decide),
    hne _ (by decide)⟩
  simp [hne ' ' (by decide), hne '\n' (by decide), hne '\t' (by decide), hne '\r' (by decide)]

/-- The first character of an integer. -/
theorem exists_decimal (n : ℤ) : ∃ c tail, decimal n = c :: tail ∧
    (c.isDigit || c == '-') = true ∧ Starts c ∧ c ≠ '"' ∧ c ≠ '[' ∧ c ≠ '{' := by
  rw [decimal]
  by_cases hn : n < 0
  · rw [if_pos hn]
    exact ⟨_, _, rfl, by decide⟩
  · rw [if_neg hn]
    rcases hdigits : Nat.toDigits 10 n.natAbs with _ | ⟨c, tail⟩
    · exact absurd hdigits Nat.toDigits_ne_nil
    · have hdigit : c.isDigit = true := by
        refine Nat.isDigit_of_mem_toDigits (b := 10) (n := n.natAbs) (by omega) (by omega) ?_
        rw [hdigits]
        exact List.mem_cons_self
      exact ⟨c, tail, rfl, by rw [hdigit]; rfl, starts_of_isDigit hdigit⟩

theorem isNumeral_of_mem_decimal {n : ℤ} {c : Char} (h : c ∈ decimal n) : isNumeral c = true := by
  have hdigit : ∀ c ∈ Nat.toDigits 10 n.natAbs, isNumeral c = true := by
    intro c hc
    rw [isNumeral, Nat.isDigit_of_mem_toDigits (by omega) (by omega) hc]
    rfl
  rw [decimal] at h
  split at h
  · rcases List.mem_cons.mp h with rfl | h
    · decide
    · exact hdigit c h
  · exact hdigit c h

/-- A number ends where nothing of a number follows. -/
theorem span_decimal (n : ℤ) {rest : List Char} (h : Stops rest) :
    (decimal n ++ rest).takeWhile isNumeral = decimal n ∧
      (decimal n ++ rest).dropWhile isNumeral = rest := by
  have hall : ∀ c ∈ decimal n, isNumeral c = true := fun c => isNumeral_of_mem_decimal
  rw [List.takeWhile_append_of_pos hall, List.dropWhile_append_of_pos hall]
  rcases rest with _ | ⟨c, rest⟩
  · exact ⟨List.append_nil _, rfl⟩
  · have hc : isNumeral c = false := h c rfl
    rw [List.takeWhile_cons, List.dropWhile_cons, hc]
    exact ⟨List.append_nil _, rfl⟩

theorem value_decimal {n : ℤ} (hn : -2 ^ 63 ≤ n ∧ n < 2 ^ 64) (fuel depth : ℕ) {rest : List Char}
    (h : Stops rest) : value (fuel + 1) depth (decimal n ++ rest) = some (.int n, rest) := by
  obtain ⟨htake, hdrop⟩ := span_decimal n h
  have hnumber := number_decimal hn
  obtain ⟨c, tail, hdecimal, hc, hstarts, hquote, harr, hobj⟩ := exists_decimal n
  rw [hdecimal] at htake hdrop hnumber ⊢
  rw [List.cons_append] at htake hdrop ⊢
  rw [value, skip_cons hstarts]
  simp only [if_neg hquote, if_neg harr, if_neg hobj, hc, if_true, htake, hdrop, hnumber,
    Option.map_some]

theorem value_quote {s : String} (fuel depth : ℕ) (rest : List Char) :
    value (fuel + 1) depth (quote s ++ rest) = some (.str s, rest) := by
  have hlength := length_le_flatMap_escape s.toList
  have hscan : scan (s.toList.flatMap escape ++ '"' :: rest).length
      (s.toList.flatMap escape ++ '"' :: rest) = some (s.toList, rest) := by
    refine scan_quote ?_ rest
    rw [List.length_append, List.length_cons]
    omega
  have hquote : quote s ++ rest = '"' :: (s.toList.flatMap escape ++ '"' :: rest) := by
    rw [quote, List.append_assoc]
    rfl
  rw [hquote, value, skip_cons (by decide)]
  simp only [if_true, hscan, Option.map_some, String.ofList_toList]

/-- The first character of a document. -/
theorem exists_print {depth : ℕ} {v : Json} (h : v.Plain depth) :
    ∃ c tail, print v = c :: tail ∧ Starts c := by
  rcases v with _ | (_ | _) | n | literal | s | vs | ms
  · exact ⟨_, _, rfl, by decide⟩
  · exact ⟨_, _, rfl, by decide⟩
  · exact ⟨_, _, rfl, by decide⟩
  · obtain ⟨c, tail, hdecimal, -, hstarts, -⟩ := exists_decimal n
    exact ⟨c, tail, by rw [print, hdecimal], hstarts⟩
  · cases depth <;> exact absurd h id
  · exact ⟨_, _, by rw [print, quote, List.cons_append], by decide⟩
  · exact ⟨_, _, by rw [print], by decide⟩
  · exact ⟨_, _, by rw [print], by decide⟩

/-- **That a document is read as it was printed**, whatever follows that does not make it
longer. -/
def Reads (depth : ℕ) (v : Json) : Prop :=
  ∀ fuel rest, (print v).length ≤ fuel → Stops rest →
    value fuel depth (print v ++ rest) = some (v, rest)

theorem stops_cons {c : Char} (h : isNumeral c = false) (rest : List Char) : Stops (c :: rest) := by
  intro d hd
  rw [← Option.some.inj hd]
  exact h

theorem printItems_cons (v w : Json) (vs : List Json) :
    printItems (v :: w :: vs) = print v ++ ',' :: printItems (w :: vs) := by
  rw [printItems]
  exact nofun

theorem printMembers_cons (m n : String × Json) (ms : List (String × Json)) :
    printMembers (m :: n :: ms) =
      quote m.1 ++ ':' :: (print m.2 ++ ',' :: printMembers (n :: ms)) := by
  rw [printMembers]
  · rw [List.append_assoc, List.cons_append]
  · exact nofun

theorem items_print {depth : ℕ} {vs : List Json} (hne : vs ≠ []) (h : ∀ v ∈ vs, Reads depth v)
    {fuel : ℕ} (rest : List Char) (hfuel : (printItems vs).length ≤ fuel) :
    items fuel depth (printItems vs ++ rest) = some (vs, rest) := by
  induction vs generalizing fuel with
  | nil => exact absurd rfl hne
  | cons v vs ih =>
    have hv := h v List.mem_cons_self
    rcases vs with _ | ⟨w, vs⟩
    · rw [printItems, List.length_append, List.length_singleton] at hfuel
      obtain ⟨fuel, rfl⟩ := Nat.exists_eq_succ_of_ne_zero (n := fuel) (by omega)
      rw [printItems, List.append_assoc, List.cons_append, List.nil_append, items,
        hv fuel _ (by omega) (stops_cons (by decide) _), Option.bind_some]
      rfl
    · rw [printItems_cons, List.length_append, List.length_cons] at hfuel
      obtain ⟨fuel, rfl⟩ := Nat.exists_eq_succ_of_ne_zero (n := fuel) (by omega)
      rw [printItems_cons, List.append_assoc, List.cons_append, items,
        hv fuel _ (by omega) (stops_cons (by decide) _), Option.bind_some, skip_cons (by decide)]
      simp only [if_true, if_neg (show ',' ≠ ']' by decide)]
      rw [ih nofun (fun v hv => h v (List.mem_cons_of_mem _ hv)) (by omega), Option.map_some]

/-- A member is read up to its value. -/
theorem members_quote {name : String} {fuel depth : ℕ} (rest : List Char) :
    members (fuel + 1) depth (quote name ++ ':' :: rest) =
      (value fuel depth rest).bind fun v =>
        match skip v.2 with
        | [] => none
        | c :: rest =>
          if c = '}' then some ([(name, v.1)], rest)
          else if c = ',' then
            (members fuel depth rest).map fun ms => ((name, v.1) :: ms.1, ms.2)
          else none := by
  have hlength := length_le_flatMap_escape name.toList
  have hquote : quote name ++ ':' :: rest =
      '"' :: (name.toList.flatMap escape ++ '"' :: ':' :: rest) := by
    rw [quote, List.append_assoc]
    rfl
  have hscan : scan (quote name ++ ':' :: rest).length
      (name.toList.flatMap escape ++ '"' :: ':' :: rest) = some (name.toList, ':' :: rest) := by
    refine scan_quote ?_ _
    rw [hquote, List.length_cons, List.length_append]
    omega
  rw [hquote] at hscan ⊢
  rw [members, skip_cons (by decide)]
  simp only [List.head?_cons, List.tail_cons, if_true, hscan, Option.bind_some,
    skip_cons (show Starts ':' by decide), String.ofList_toList]

theorem members_print {depth : ℕ} {ms : List (String × Json)} (hne : ms ≠ [])
    (h : ∀ m ∈ ms, Reads depth m.2) {fuel : ℕ} (rest : List Char)
    (hfuel : (printMembers ms).length ≤ fuel) :
    members fuel depth (printMembers ms ++ rest) = some (ms, rest) := by
  induction ms generalizing fuel with
  | nil => exact absurd rfl hne
  | cons m ms ih =>
    have hv := h m List.mem_cons_self
    rcases ms with _ | ⟨n, ms⟩
    · rw [printMembers, List.length_append, List.length_append, List.length_cons] at hfuel
      obtain ⟨fuel, rfl⟩ := Nat.exists_eq_succ_of_ne_zero (n := fuel) (by omega)
      rw [printMembers, List.append_assoc, List.append_assoc, List.cons_append, members_quote,
        List.cons_append, List.nil_append, hv fuel _ (by omega) (stops_cons (by decide) _),
        Option.bind_some]
      rfl
    · rw [printMembers_cons, List.length_append, List.length_cons, List.length_append,
        List.length_cons] at hfuel
      obtain ⟨fuel, rfl⟩ := Nat.exists_eq_succ_of_ne_zero (n := fuel) (by omega)
      rw [printMembers_cons, List.append_assoc, List.cons_append, members_quote, List.append_assoc,
        List.cons_append, hv fuel _ (by omega) (stops_cons (by decide) _), Option.bind_some,
        skip_cons (by decide)]
      simp only [if_true, if_neg (show ',' ≠ '}' by decide)]
      rw [ih nofun (fun v hv => h v (List.mem_cons_of_mem _ hv)) (by omega), Option.map_some]

theorem value_arr {depth : ℕ} {vs : List Json} (hplain : ∀ v ∈ vs, v.Plain depth)
    (h : ∀ v ∈ vs, Reads depth v) {fuel : ℕ} (rest : List Char)
    (hfuel : (printItems vs).length ≤ fuel) :
    value (fuel + 1) (depth + 1) ('[' :: printItems vs ++ rest) = some (.arr vs, rest) := by
  rw [List.cons_append, value, skip_cons (by decide)]
  simp only [if_true, if_neg (show '[' ≠ '"' by decide)]
  rcases vs with _ | ⟨v, vs⟩
  · rfl
  · obtain ⟨c, tail, hc, hstarts⟩ := exists_print (hplain v List.mem_cons_self)
    have hhead : (skip (printItems (v :: vs) ++ rest)).head? ≠ some ']' := by
      have hitems : ∃ tail', printItems (v :: vs) ++ rest = c :: tail' := by
        rcases vs with _ | ⟨w, vs⟩
        · rw [printItems, hc]
          exact ⟨_, rfl⟩
        · rw [printItems_cons, hc]
          exact ⟨_, rfl⟩
      obtain ⟨tail', htail⟩ := hitems
      rw [htail, skip_cons hstarts, List.head?_cons]
      exact fun heq => hstarts.2.1 (Option.some.inj heq)
    rw [if_neg hhead, items_print (List.cons_ne_nil _ _) h rest hfuel, Option.map_some]

theorem value_obj {depth : ℕ} {ms : List (String × Json)} (h : ∀ m ∈ ms, Reads depth m.2)
    {fuel : ℕ} (rest : List Char) (hfuel : (printMembers ms).length ≤ fuel) :
    value (fuel + 1) (depth + 1) ('{' :: printMembers ms ++ rest) = some (.obj ms, rest) := by
  rw [List.cons_append, value, skip_cons (by decide)]
  simp only [if_true, if_neg (show '{' ≠ '"' by decide), if_neg (show '{' ≠ '[' by decide)]
  rcases ms with _ | ⟨m, ms⟩
  · rfl
  · have hhead : (skip (printMembers (m :: ms) ++ rest)).head? ≠ some '}' := by
      have hmembers : ∃ tail, printMembers (m :: ms) ++ rest = '"' :: tail := by
        rcases ms with _ | ⟨n, ms⟩
        · rw [printMembers, quote]
          exact ⟨_, rfl⟩
        · rw [printMembers_cons, quote]
          exact ⟨_, rfl⟩
      obtain ⟨tail, htail⟩ := hmembers
      rw [htail, skip_cons (by decide), List.head?_cons]
      exact fun heq => absurd (Option.some.inj heq) (by decide)
    rw [if_neg hhead, members_print (List.cons_ne_nil _ _) h rest hfuel, Option.map_some]

/-- **A plain document is read as it was printed.** -/
theorem reads_of_plain {depth : ℕ} {v : Json} (h : v.Plain depth) : Reads depth v := by
  induction depth generalizing v with
  | zero =>
    intro fuel rest hfuel hstops
    obtain ⟨c, tail, hc, -⟩ := exists_print h
    rw [hc, List.length_cons] at hfuel
    obtain ⟨fuel, rfl⟩ := Nat.exists_eq_succ_of_ne_zero (n := fuel) (by omega)
    rcases v with _ | (_ | _) | n | literal | s | vs | ms
    · rfl
    · rfl
    · rfl
    · exact value_decimal h fuel 0 hstops
    · exact absurd h id
    · exact value_quote fuel 0 rest
    · exact absurd h id
    · exact absurd h id
  | succ depth ih =>
    intro fuel rest hfuel hstops
    obtain ⟨c, tail, hc, -⟩ := exists_print h
    have hpos : 0 < fuel := by
      rw [hc, List.length_cons] at hfuel
      omega
    obtain ⟨fuel, rfl⟩ := Nat.exists_eq_succ_of_ne_zero hpos.ne'
    rcases v with _ | (_ | _) | n | literal | s | vs | ms
    · rfl
    · rfl
    · rfl
    · exact value_decimal h fuel _ hstops
    · exact absurd h id
    · exact value_quote fuel _ rest
    · rw [print, List.length_cons] at hfuel
      exact value_arr h (fun v hv => ih (h v hv)) rest (Nat.le_of_succ_le_succ hfuel)
    · rw [print, List.length_cons] at hfuel
      exact value_obj (fun m hm => ih (h m hm)) rest (Nat.le_of_succ_le_succ hfuel)

/-- **Compact JSON.** -/
def compact : JsonText where
  Text := String
  print v := String.ofList (print v)
  parse := parse

/-- **What is printed in compact form is parsed as it was.** -/
theorem compact_keeps : compact.Keeps := by
  intro v hplain
  have hread := reads_of_plain hplain (print v).length [] (le_refl _) nofun
  rw [List.append_nil] at hread
  change parse (String.ofList (print v)) = some v
  rw [parse, String.toList_ofList, String.length_ofList, hread]
  rfl

end Json

end AdMatch
