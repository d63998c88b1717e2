import AdMatch.Seedgen.Basic
import AdMatch.Tokens

/-!
# The words of the generator

All texts that the generator makes are plain words joined by blanks: small letters and
digits, never empty, and short. The normaliser gives back what was joined
(`AdMatch.Seedgen.normalize_join`), and so does a split at blanks
(`AdMatch.Seedgen.splitBlank_join`), so that what is said of words below is said of
tokens. No made-up word is in the vocabulary (`AdMatch.Seedgen.nonsense_words`).
-/

namespace AdMatch

namespace Unicode

/-- A small letter or a digit of ASCII. -/
def isPlain (c : Char) : Bool := ('a' ≤ c ∧ c ≤ 'z') ∨ ('0' ≤ c ∧ c ≤ '9')

/-- Plain characters are alphanumeric, and their own lowercase. -/
class PlainSettles [Unicode] : Prop extends LowerSettles where
  isAlphanumeric_plain : ∀ c, isPlain c = true → isAlphanumeric c = true
  settled_plain : ∀ c, isPlain c = true → Settled c

section Sample

attribute [local instance] asciiGreek

instance asciiGreek_plain : PlainSettles where
  isAlphanumeric_plain c h := by
    rcases of_decide_eq_true h with h | h
    · exact asciiGreek_isAlphanumeric.mpr (.inl h)
    · exact asciiGreek_isAlphanumeric.mpr (.inr (.inr (.inl h)))
  settled_plain c h := by
    have hrange : (97 ≤ c.toNat ∧ c.toNat ≤ 122) ∨ (48 ≤ c.toNat ∧ c.toNat ≤ 57) :=
      of_decide_eq_true h
    refine ⟨?_, ?_⟩
    · rintro rfl
      exact absurd h (by decide)
    · rcases asciiGreek_toLower c with ⟨-, -, -, hupper⟩ | ⟨hc, -⟩
      · omega
      · exact hc

end Sample

end Unicode

namespace Seedgen

/-! ### Plain words -/

/-- **A plain word**: small letters and digits, one at least and a dozen at most. -/
structure IsWord (w : String) : Prop where
  ne_empty : w ≠ ""
  plain : ∀ c ∈ w.toList, Unicode.isPlain c = true
  length_le : w.toList.length ≤ 12

instance (w : String) : Decidable (IsWord w) :=
  decidable_of_iff (w ≠ "" ∧ w.toList.all Unicode.isPlain = true ∧ w.toList.length ≤ 12)
    ⟨fun h => ⟨h.1, List.all_eq_true.mp h.2.1, h.2.2⟩,
      fun h => ⟨h.ne_empty, List.all_eq_true.mpr h.plain, h.length_le⟩⟩

/-- **The vocabulary consists of plain words.** -/
theorem vocabulary_words : ∀ w ∈ vocabulary, IsWord w := by
  have hall : vocabulary.all (fun w => IsWord w) = true := by decide +kernel
  exact fun w hw => of_decide_eq_true (List.all_eq_true.mp hall w hw)

/-- No word of the vocabulary begins with a syllable of the made-up words. -/
theorem not_prefix_of_mem_vocabulary {a w : String} (ha : a ∈ nonsense) (hw : w ∈ vocabulary) :
    ¬a.toList <+: w.toList := by
  have hall : (vocabulary.all fun w => nonsense.all fun a =>
      !a.toList.isPrefixOf w.toList) = true := by decide +kernel
  have hnot := List.all_eq_true.mp (List.all_eq_true.mp hall w hw) a ha
  rw [Bool.not_eq_true'] at hnot
  exact fun hprefix => absurd (List.isPrefixOf_iff_prefix.mpr hprefix) (Bool.eq_false_iff.mp hnot)

/-- **Two syllables make a plain word that is not in the vocabulary.** -/
theorem nonsense_words {a b : String} (ha : a ∈ nonsense) (hb : b ∈ nonsense) :
    IsWord (a ++ b) ∧ a ++ b ∉ vocabulary := by
  have hall : (nonsense.all fun a => nonsense.all fun b => IsWord (a ++ b)) = true := by
    decide +kernel
  have hword := List.all_eq_true.mp (List.all_eq_true.mp hall a ha) b hb
  refine ⟨of_decide_eq_true hword, fun hmem => not_prefix_of_mem_vocabulary ha hmem ?_⟩
  rw [String.toList_append]
  exact List.prefix_append _ _

theorem IsWord.blank_not_mem {w : String} (h : IsWord w) : ' ' ∉ w.toList := by
  intro hblank
  exact absurd (h.plain ' ' hblank) (by decide)

/-! ### Words joined by blanks -/

theorem toList_join (words : List String) :
    (join words).toList = [' '].intercalate (words.map String.toList) :=
  String.toList_intercalate

/-- **Splitting at blanks undoes joining.** -/
theorem splitBlank_join {words : List String} (hne : words ≠ []) (h : ∀ w ∈ words, IsWord w) :
    splitBlank (join words) = words := by
  have hblank : ∀ l ∈ words.map String.toList, ' ' ∉ l := by
    intro l hl
    obtain ⟨w, hw, rfl⟩ := List.mem_map.mp hl
    exact (h w hw).blank_not_mem
  rw [splitBlank, toList_join, List.splitOn_intercalate ' ' hblank (by simpa using hne),
    List.map_map]
  exact (List.map_congr_left fun w _ => String.ofList_toList).trans (List.map_id words)

/-- A word has no blank to be split at. -/
theorem splitBlank_word {w : String} (h : IsWord w) : splitBlank w = [w] := by
  have hjoin : join [w] = w := by
    refine String.toList_inj.mp ?_
    rw [toList_join, List.map_singleton, List.intercalate_singleton]
  have hsplit := splitBlank_join (List.cons_ne_nil w []) fun v hv => by
    rwa [List.mem_singleton.mp hv]
  rwa [hjoin] at hsplit

/-- Joining undoes splitting at blanks. -/
theorem join_splitBlank (text : String) : join (splitBlank text) = text := by
  refine String.toList_inj.mp ?_
  have hlists : (splitBlank text).map String.toList = text.toList.splitOn ' ' := by
    rw [splitBlank, List.map_map]
    exact (List.map_congr_left fun l _ => String.toList_ofList).trans (List.map_id _)
  rw [toList_join, hlists, List.intercalate_splitOn]

/-- A join is no longer than its words, each with a blank. -/
theorem length_join_le {words : List String} (h : ∀ w ∈ words, IsWord w) :
    (join words).toList.length ≤ 13 * words.length := by
  rw [toList_join]
  induction words with
  | nil => exact le_rfl
  | cons w words ih =>
    have hw := (h w List.mem_cons_self).length_le
    have hrest := ih fun v hv => h v (List.mem_cons_of_mem w hv)
    rcases words with _ | ⟨v, words⟩
    · rw [List.map_cons, List.map_nil, List.intercalate_singleton, List.length_singleton]
      omega
    · rw [List.map_cons, List.map_cons, List.intercalate_cons_cons, List.length_append,
        List.length_append, List.length_singleton, List.length_cons]
      rw [List.map_cons] at hrest
      omega

section Tokens

variable [Unicode] [Unicode.PlainSettles]

/-- **The tokens of joined words are the words.** -/
theorem tokenize_join_words {words : List String} (h : ∀ w ∈ words, IsWord w) :
    tokenize (join words) = words :=
  tokenize_join (fun w hw => (h w hw).ne_empty) fun w hw c hc =>
    ⟨Unicode.PlainSettles.isAlphanumeric_plain c ((h w hw).plain c hc),
      Unicode.PlainSettles.settled_plain c ((h w hw).plain c hc)⟩

/-- **A few joined words are an accepted query.** -/
theorem normalize_join {words : List String} (h : ∀ w ∈ words, IsWord w) (hne : words ≠ [])
    (hlen : words.length ≤ 15) : normalize (join words) = .ok words := by
  have hchars := length_join_le h
  refine normalize_eq_ok.mpr ⟨(tokenize_join_words h).symm, hne, ?_, ?_⟩
  · rw [maxQueryChars]
    omega
  · rw [maxQueryTokens]
    omega

/-- A text that splits into words has them as its tokens. -/
theorem tokenize_eq_splitBlank {text : String} (h : ∀ w ∈ splitBlank text, IsWord w) :
    tokenize text = splitBlank text := by
  have htokens := tokenize_join_words h
  rwa [join_splitBlank] at htokens

/-- A word is its own only token. -/
theorem tokenize_word {w : String} (h : IsWord w) : tokenize w = [w] := by
  have hsplit := splitBlank_word h
  rw [tokenize_eq_splitBlank (by simpa [hsplit] using h), hsplit]

theorem tokenSet_word {w : String} (h : IsWord w) : tokenSet w = {w} := by
  rw [tokenSet, tokenize_word h]
  rfl

end Tokens

end Seedgen

end AdMatch
