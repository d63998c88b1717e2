import Mathlib.Data.Finset.Card
import Mathlib.Data.String.Basic

/-!
# Query normalisation

Raw search text in, a list of tokens out. Queries and keywords go through the
same function `AdMatch.tokenize`; only queries are held to the limits of
`AdMatch.normalize`.

The three passes of `AdMatch.tokenize` are those of the Rust standard library:
the full lowercase mapping with its one context-sensitive rule, the replacement
of every character that is not alphanumeric by a space, and the split on white
space. Their character tables are a parameter, `AdMatch.Unicode`: nothing below
depends on which characters are letters, and the results that do depend on it
name what they assume.
-/

namespace AdMatch

/-! ### The character tables -/

/-- The Unicode character tables that the string functions consult. -/
class Unicode where
  /-- The full lowercase mapping of a character. -/
  toLower : Char → List Char
  /-- `Alphabetic`, or one of the numeric categories. -/
  isAlphanumeric : Char → Bool
  /-- `White_Space`. -/
  isWhitespace : Char → Bool
  /-- `Cased`. -/
  cased : Char → Bool
  /-- `Case_Ignorable`. -/
  caseIgnorable : Char → Bool

namespace Unicode

/-- The tables, on ASCII and the basic Greek letters. -/
@[reducible] def asciiGreek : Unicode where
  toLower c :=
    if ('A' ≤ c ∧ c ≤ 'Z') ∨ ('Α' ≤ c ∧ c ≤ 'Ω') then [Char.ofNat (c.toNat + 32)] else [c]
  isAlphanumeric c :=
    ('a' ≤ c ∧ c ≤ 'z') ∨ ('A' ≤ c ∧ c ≤ 'Z') ∨ ('0' ≤ c ∧ c ≤ '9') ∨
      ('Α' ≤ c ∧ c ≤ 'Ω') ∨ ('α' ≤ c ∧ c ≤ 'ω')
  isWhitespace c := c = ' ' ∨ (9 ≤ c.toNat ∧ c.toNat ≤ 13)
  cased c :=
    ('a' ≤ c ∧ c ≤ 'z') ∨ ('A' ≤ c ∧ c ≤ 'Z') ∨ ('Α' ≤ c ∧ c ≤ 'Ω') ∨ ('α' ≤ c ∧ c ≤ 'ω')
  caseIgnorable c := c.toNat ∈ [0x27, 0x2E, 0x3A, 0x5E, 0x60]

variable [Unicode]

/-! ### Lowercasing -/

/-- Whether, past the case-ignorable characters, a cased one comes next. -/
def caseIgnorableThenCased (cs : List Char) : Bool :=
  match cs.dropWhile caseIgnorable with
  | c :: _ => cased c
  | [] => false

/-- The lowercase of a capital sigma, given the characters before it (nearest
first) and after it: final at the end of a word. -/
def mapUppercaseSigma (before after : List Char) : Char :=
  if caseIgnorableThenCased before && !caseIgnorableThenCased after then 'ς' else 'σ'

/-- Lowercasing what is left of a text, the characters already read being
`before`, nearest first. -/
def lowerFrom (before : List Char) : List Char → List Char
  | [] => []
  | c :: rest =>
    (if c = 'Σ' then [mapUppercaseSigma before rest] else toLower c) ++ lowerFrom (c :: before) rest

/-- `str::to_lowercase`. -/
def toLowercase (text : List Char) : List Char := lowerFrom [] text

/-! ### Splitting -/

/-- The first run of characters that are not white space (empty where the text
starts with white space), and the runs after it. -/
def runs : List Char → List Char × List (List Char)
  | [] => ([], [])
  | c :: rest =>
    if isWhitespace c then ([], if (runs rest).1 = [] then (runs rest).2 else
      (runs rest).1 :: (runs rest).2)
    else (c :: (runs rest).1, (runs rest).2)

/-- `str::split_whitespace`: the maximal runs of characters that are not white
space. -/
def splitWhitespace (text : List Char) : List (List Char) :=
  if (runs text).1 = [] then (runs text).2 else (runs text).1 :: (runs text).2

end Unicode

/-! ### Tokens -/

section Tokens

variable [Unicode]

/-- The normalisation rules without the request limits. -/
def tokenize (text : String) : List String :=
  let cleaned := (Unicode.toLowercase text.toList).map fun c =>
    if Unicode.isAlphanumeric c then c else ' '
  (Unicode.splitWhitespace cleaned).map String.ofList

/-- Longest accepted query, in characters before normalisation. -/
def maxQueryChars : ℕ := 200

/-- Most tokens accepted after normalisation. -/
def maxQueryTokens : ℕ := 16

/-- Why a query was rejected. -/
inductive QueryError
  /-- Nothing is left after normalisation. -/
  | empty
  /-- The raw query is too long. -/
  | tooLong
  /-- The query has too many tokens. -/
  | tooManyTokens
  deriving DecidableEq, Repr

/-- Normalises a query into tokens, within the request limits. -/
def normalize (query : String) : Except QueryError (List String) :=
  if query.toList.length > maxQueryChars then .error .tooLong
  else
    let tokens := tokenize query
    if tokens = [] then .error .empty
    else if tokens.length > maxQueryTokens then .error .tooManyTokens
    else .ok tokens

/-- **What an accepted query is**: within both limits, with at least one
token. -/
theorem normalize_eq_ok {query : String} {tokens : List String} :
    normalize query = .ok tokens ↔ tokens = tokenize query ∧ tokens ≠ [] ∧
      query.toList.length ≤ maxQueryChars ∧ tokens.length ≤ maxQueryTokens := by
  simp only [normalize]
  split_ifs with h1 h2 h3
  · simp only [false_iff]
    rintro ⟨-, -, hl, -⟩
    omega
  · simp only [false_iff]
    rintro ⟨rfl, hne, -⟩
    exact hne h2
  · simp only [false_iff]
    rintro ⟨rfl, -, -, hl⟩
    omega
  · constructor
    · intro h
      obtain rfl := Except.ok.inj h
      exact ⟨rfl, h2, by omega, by omega⟩
    · rintro ⟨rfl, -⟩
      rfl

/-- The set of distinct tokens of a text: what keywords, negatives and queries
are compared by. -/
def tokenSet (text : String) : Finset String := (tokenize text).toFinset

/-- The token set of an accepted query is made of its tokens. -/
theorem tokenSet_of_normalize {query : String} {tokens : List String}
    (h : normalize query = .ok tokens) : tokenSet query = tokens.toFinset := by
  rw [tokenSet, (normalize_eq_ok.mp h).1]

theorem tokenSet_nonempty {text : String} : (tokenSet text).Nonempty ↔ tokenize text ≠ [] := by
  rw [tokenSet, List.toFinset_nonempty_iff]

end Tokens

end AdMatch
