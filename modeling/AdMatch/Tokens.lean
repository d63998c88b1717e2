import AdMatch.Lib.Runs
import AdMatch.Normalize

/-!
# The words of a text and its tokens

The *words* of a text are its maximal runs of alphanumeric characters. Tokens come
from a lowercased text, so they are the words of that
(`AdMatch.tokenize_eq_maximal`), which is why tokenising joined tokens gives them
back (`AdMatch.tokenize_join`).

The words of the text itself determine its tokens up to one thing: a capital sigma
lowercases by what surrounds it, separators included. With every capital sigma of a
word marked as final or not, the words do determine the tokens
(`AdMatch.tokenize_eq_markedWords`), and nothing less does
(`AdMatch.tokenize_eq_iff_markedWords`).
-/

namespace AdMatch

namespace Unicode

variable [Unicode]

/-! ### What is relied on -/

/-- A blank is white space, and no alphanumeric character is. -/
class Blanks : Prop where
  isWhitespace_blank : isWhitespace ' ' = true
  not_isWhitespace : ∀ c, isAlphanumeric c = true → isWhitespace c = false

/-- A character that lowercasing leaves alone, whatever surrounds it. -/
def Settled (c : Char) : Prop := c ≠ 'Σ' ∧ toLower c = [c]

/-- What lowercasing produces is settled, as far as it is alphanumeric. -/
class LowerSettles : Prop extends Blanks where
  settled_blank : Settled ' '
  settled_sigma : Settled 'σ'
  settled_finalSigma : Settled 'ς'
  settled_of_mem_toLower : ∀ c d, c ≠ 'Σ' → d ∈ toLower c → isAlphanumeric d = true → Settled d

/-- Lowercasing makes no word of a separator, and loses none. -/
class LowerSeparates : Prop extends Blanks where
  toLower_separator : ∀ c, isAlphanumeric c = false →
    toLower c ≠ [] ∧ ∀ d ∈ toLower c, isAlphanumeric d = false
  isAlphanumeric_capitalSigma : isAlphanumeric 'Σ' = true
  isAlphanumeric_sigma : isAlphanumeric 'σ' = true
  isAlphanumeric_finalSigma : isAlphanumeric 'ς' = true

/-! ### Splitting on white space -/

theorem runs_of_all {text : List Char} (h : ∀ c ∈ text, isWhitespace c = false) :
    runs text = (text, []) := by
  induction text with
  | nil => rfl
  | cons c text ih =>
    rw [runs, h c List.mem_cons_self, ih fun d hd => h d (List.mem_cons_of_mem _ hd)]
    rfl

theorem runs_append_cons {text rest : List Char} {c : Char}
    (h : ∀ d ∈ text, isWhitespace d = false) (hc : isWhitespace c = true) :
    runs (text ++ c :: rest) = (text, splitWhitespace rest) := by
  induction text with
  | nil =>
    rw [List.nil_append, runs, if_pos hc]
    rfl
  | cons d text ih =>
    rw [List.cons_append, runs, h d List.mem_cons_self,
      ih fun e he => h e (List.mem_cons_of_mem _ he)]
    rfl

/-- **The split on white space** returns the maximal runs of the other
characters. -/
theorem splitWhitespace_eq_maximal (text : List Char) :
    splitWhitespace text = Runs.maximal (fun c => !isWhitespace c) text := by
  induction text using Runs.split_induction fun c => !isWhitespace c with
  | all text h =>
    rw [splitWhitespace, runs_of_all fun c hc => by simpa using h c hc]
    rcases eq_or_ne text [] with rfl | hne
    · rw [if_pos rfl, Runs.maximal_nil]
    · rw [if_neg hne, Runs.maximal_of_all h hne]
  | split text c rest h hc ih =>
    rw [splitWhitespace, runs_append_cons (fun d hd => by simpa using h d hd) (by simpa using hc),
      Runs.maximal_append_cons text rest hc, ← ih]
    rcases eq_or_ne text [] with rfl | hne
    · rw [if_pos rfl, Runs.maximal_nil, List.nil_append]
    · rw [if_neg hne, Runs.maximal_of_all h hne, List.singleton_append]

end Unicode

section Tokens

variable [Unicode]

open Unicode

/-! ### Tokens are words of the lowercased text -/

section Blanks

variable [Blanks]

/-- A blank is no letter and no digit. -/
theorem isAlphanumeric_blank : isAlphanumeric ' ' = false := by
  rw [← Bool.not_eq_true]
  intro h
  have := Blanks.not_isWhitespace ' ' h
  rw [Blanks.isWhitespace_blank] at this
  cases this

/-- **The tokens of a text are the words of the lowercased text.** -/
theorem tokenize_eq_maximal (text : String) : tokenize text =
    (Runs.maximal isAlphanumeric (toLowercase text.toList)).map String.ofList := by
  have hclean : ∀ c, (!isWhitespace (if isAlphanumeric c then c else ' ')) = isAlphanumeric c := by
    intro c
    by_cases hc : isAlphanumeric c = true
    · rw [if_pos hc, Blanks.not_isWhitespace c hc, hc, Bool.not_false]
    · rw [if_neg hc, Blanks.isWhitespace_blank, Bool.eq_false_iff.mpr hc, Bool.not_true]
  rw [tokenize, splitWhitespace_eq_maximal,
    Runs.maximal_map (q := fun c => !isWhitespace c) hclean, List.map_map]
  refine List.map_congr_left fun r hr => congrArg String.ofList ?_
  -- inside a run nothing was replaced
  have hall := (Runs.all_of_mem_maximal hr).2
  refine (List.map_congr_left fun c hc => ?_).trans (List.map_id r)
  rw [if_pos (hall c hc), id]

/-- **Every token is a word**: not empty, and alphanumeric throughout. -/
theorem mem_tokenize {text token : String} (h : token ∈ tokenize text) :
    token ≠ "" ∧ ∀ c ∈ token.toList, isAlphanumeric c = true := by
  rw [tokenize_eq_maximal] at h
  obtain ⟨r, hr, rfl⟩ := List.mem_map.mp h
  obtain ⟨hne, hall⟩ := Runs.all_of_mem_maximal hr
  refine ⟨fun hempty => hne ?_, fun c hc => hall c (by rwa [String.toList_ofList] at hc)⟩
  have := congrArg String.toList hempty
  rwa [String.toList_ofList] at this

end Blanks

/-! ### Joined tokens -/

section LowerSettles

variable [LowerSettles]

omit [LowerSettles] in
theorem lowerFrom_of_settled {text : List Char} (h : ∀ c ∈ text, Settled c) (before : List Char) :
    lowerFrom before text = text := by
  induction text generalizing before with
  | nil => rfl
  | cons c text ih =>
    obtain ⟨hne, hc⟩ := h c List.mem_cons_self
    rw [lowerFrom, if_neg hne, hc, ih fun d hd => h d (List.mem_cons_of_mem _ hd)]
    rfl

/-- **Lowercased text is settled**, as far as it is alphanumeric. -/
theorem settled_of_mem_lowerFrom {before text : List Char} {d : Char}
    (hd : d ∈ lowerFrom before text) (halnum : isAlphanumeric d = true) : Settled d := by
  induction text generalizing before with
  | nil => exact absurd hd List.not_mem_nil
  | cons c text ih =>
    rw [lowerFrom] at hd
    rcases List.mem_append.mp hd with hd | hd
    · split_ifs at hd with hc
      · -- a capital sigma becomes one of the two small ones
        rw [List.mem_singleton.mp hd, mapUppercaseSigma]
        split_ifs
        · exact LowerSettles.settled_finalSigma
        · exact LowerSettles.settled_sigma
      · exact LowerSettles.settled_of_mem_toLower c d hc hd halnum
    · exact ih hd

theorem settled_of_mem_token {text token : String} (h : token ∈ tokenize text) {c : Char}
    (hc : c ∈ token.toList) : Settled c := by
  have halnum := (mem_tokenize h).2 c hc
  rw [tokenize_eq_maximal] at h
  obtain ⟨r, hr, rfl⟩ := List.mem_map.mp h
  rw [String.toList_ofList] at hc
  have hflat : c ∈ (Runs.maximal isAlphanumeric (toLowercase text.toList)).flatten :=
    List.mem_flatten.mpr ⟨r, hr, hc⟩
  rw [Runs.flatten_maximal] at hflat
  exact settled_of_mem_lowerFrom (List.mem_of_mem_filter hflat) halnum

/-- **Settled words, joined by blanks, are the tokens of the result.** -/
theorem tokenize_join {tokens : List String} (hne : ∀ t ∈ tokens, t ≠ "")
    (h : ∀ t ∈ tokens, ∀ c ∈ t.toList, isAlphanumeric c = true ∧ Settled c) :
    tokenize (" ".intercalate tokens) = tokens := by
  have hsettled : ∀ c ∈ [' '].intercalate (tokens.map String.toList), Settled c := by
    intro c hc
    rcases eq_or_ne c ' ' with rfl | hblank
    · exact LowerSettles.settled_blank
    · obtain ⟨r, hr, hc⟩ := Runs.mem_of_mem_intercalate hblank hc
      obtain ⟨t, ht, rfl⟩ := List.mem_map.mp hr
      exact (h t ht c hc).2
  have hwords : ∀ r ∈ tokens.map String.toList, r ≠ [] ∧ ∀ c ∈ r, isAlphanumeric c = true := by
    intro r hr
    obtain ⟨t, ht, rfl⟩ := List.mem_map.mp hr
    exact ⟨fun hnil => hne t ht (String.toList_inj.mp hnil), fun c hc => (h t ht c hc).1⟩
  rw [tokenize_eq_maximal, String.toList_intercalate, toLowercase]
  rw [show " ".toList = [' '] from rfl, lowerFrom_of_settled hsettled,
    Runs.maximal_intercalate isAlphanumeric_blank hwords, List.map_map]
  refine (List.map_congr_left fun t _ => ?_).trans (List.map_id tokens)
  exact String.ofList_toList

/-- **Tokenising is a projection**: the tokens of joined tokens are the tokens. -/
theorem tokenize_join_tokenize (text : String) :
    tokenize (" ".intercalate (tokenize text)) = tokenize text :=
  tokenize_join (fun _ ht => (mem_tokenize ht).1) fun _ ht c hc =>
    ⟨(mem_tokenize ht).2 c hc, settled_of_mem_token ht hc⟩

end LowerSettles

/-! ### Words, with their capital sigmas marked -/

/-- The maximal runs of alphanumeric characters of a text. -/
def words (text : String) : List (List Char) := Runs.maximal isAlphanumeric text.toList

/-- The characters of a text, the `true` mark for a capital sigma that is final. -/
def marked (before : List Char) : List Char → List (Char × Bool)
  | [] => []
  | c :: rest =>
    (c, c = 'Σ' && (caseIgnorableThenCased before && !caseIgnorableThenCased rest)) ::
      marked (c :: before) rest

/-- **The words of a text, their capital sigmas marked.** -/
def markedWords (text : String) : List (List (Char × Bool)) :=
  Runs.maximal (fun m => isAlphanumeric m.1) (marked [] text.toList)

/-- The lowercase of a marked character. -/
def lowerMarked (m : Char × Bool) : List Char :=
  if m.1 = 'Σ' then [if m.2 then 'ς' else 'σ'] else toLower m.1

theorem lowerFrom_eq_flatMap (before text : List Char) :
    lowerFrom before text = (marked before text).flatMap lowerMarked := by
  induction text generalizing before with
  | nil => rfl
  | cons c text ih =>
    rw [lowerFrom, marked, List.flatMap_cons, ih, lowerMarked]
    by_cases hc : c = 'Σ'
    · simp only [hc, if_true, decide_true, Bool.true_and, mapUppercaseSigma]
    · simp only [hc, if_false]

theorem map_fst_marked (before text : List Char) : (marked before text).map Prod.fst = text := by
  induction text generalizing before with
  | nil => rfl
  | cons c text ih => rw [marked, List.map_cons, ih]

/-- Only capital sigmas are marked. -/
theorem mark_eq_false {before text : List Char} {m : Char × Bool} (h : m ∈ marked before text)
    (hne : m.1 ≠ 'Σ') : m.2 = false := by
  induction text generalizing before with
  | nil => exact absurd h List.not_mem_nil
  | cons c text ih =>
    rcases List.mem_cons.mp h with rfl | h
    · simp only [decide_eq_false hne, Bool.false_and]
    · exact ih h

/-- Forgetting the marks leaves the words. -/
theorem map_markedWords (text : String) :
    (markedWords text).map (List.map Prod.fst) = words text := by
  rw [words, ← map_fst_marked [] text.toList,
    Runs.maximal_map (p := fun m : Char × Bool => isAlphanumeric m.1) fun _ => rfl]
  rfl

theorem mark_eq_false_of_mem_markedWords {text : String} {w : List (Char × Bool)}
    (hw : w ∈ markedWords text) {m : Char × Bool} (hm : m ∈ w) (hne : m.1 ≠ 'Σ') :
    m.2 = false := by
  have hflat : m ∈ (markedWords text).flatten := List.mem_flatten.mpr ⟨w, hw, hm⟩
  rw [markedWords, Runs.flatten_maximal] at hflat
  exact mark_eq_false (List.mem_of_mem_filter hflat) hne

/-- Without capital sigmas there is nothing to mark. -/
theorem markedWords_eq_of_words {text text' : String} (h : words text = words text')
    (hsigma : ∀ w ∈ words text, 'Σ' ∉ w) : markedWords text = markedWords text' := by
  have hmarks : ∀ text, (∀ w ∈ words text, 'Σ' ∉ w) →
      markedWords text = (words text).map (List.map fun c => (c, false)) := by
    intro text hsigma
    rw [← map_markedWords, List.map_map]
    refine ((List.map_congr_left fun w hw => ?_).trans (List.map_id _)).symm
    rw [Function.comp_apply, List.map_map]
    refine (List.map_congr_left fun m hm => ?_).trans (List.map_id w)
    have hne : m.1 ≠ 'Σ' := by
      intro heq
      refine hsigma (w.map Prod.fst) ?_ (heq ▸ List.mem_map_of_mem hm)
      rw [← map_markedWords]
      exact List.mem_map_of_mem hw
    exact Prod.ext rfl (mark_eq_false_of_mem_markedWords hw hm hne).symm
  rw [hmarks text hsigma, hmarks text' (h ▸ hsigma), h]

section LowerSeparates

variable [LowerSeparates]

/-- A separator lowercases to separators. -/
theorem lowerMarked_separator {m : Char × Bool} (h : isAlphanumeric m.1 = false) :
    lowerMarked m ≠ [] ∧ ∀ d ∈ lowerMarked m, isAlphanumeric d = false := by
  have hne : m.1 ≠ 'Σ' := by
    intro heq
    rw [heq, LowerSeparates.isAlphanumeric_capitalSigma] at h
    cases h
  rw [lowerMarked, if_neg hne]
  exact LowerSeparates.toLower_separator m.1 h

/-- **The tokens of a text come from its marked words**, one after the other. -/
theorem tokenize_eq_flatMap (text : String) : tokenize text =
    (markedWords text).flatMap fun w =>
      (Runs.maximal isAlphanumeric (w.flatMap lowerMarked)).map String.ofList := by
  rw [tokenize_eq_maximal, toLowercase, lowerFrom_eq_flatMap,
    Runs.maximal_flatMap fun m hm => lowerMarked_separator hm, List.map_flatMap]
  rfl

/-- **One token per word**: a text whose letters and digits lowercase to letters
and digits has its lowercased words for tokens. -/
theorem tokenize_eq_markedWords {text : String}
    (h : ∀ c ∈ text.toList, isAlphanumeric c = true → c ≠ 'Σ' →
      toLower c ≠ [] ∧ ∀ d ∈ toLower c, isAlphanumeric d = true) :
    tokenize text = (markedWords text).map fun w => String.ofList (w.flatMap lowerMarked) := by
  have hlower : ∀ m ∈ marked [] text.toList, isAlphanumeric m.1 = true →
      lowerMarked m ≠ [] ∧ ∀ d ∈ lowerMarked m, isAlphanumeric d = true := by
    intro m hm halnum
    rw [lowerMarked]
    split_ifs with hsigma hmark
    · exact ⟨List.cons_ne_nil _ _, fun d hd => by
        rw [List.mem_singleton.mp hd, LowerSeparates.isAlphanumeric_finalSigma]⟩
    · exact ⟨List.cons_ne_nil _ _, fun d hd => by
        rw [List.mem_singleton.mp hd, LowerSeparates.isAlphanumeric_sigma]⟩
    · refine h m.1 ?_ halnum hsigma
      rw [← map_fst_marked [] text.toList]
      exact List.mem_map_of_mem hm
  rw [tokenize_eq_flatMap, List.map_eq_flatMap]
  refine List.flatMap_congr fun w hw => ?_
  obtain ⟨hne, hall⟩ := Runs.all_of_mem_maximal hw
  have hmem : ∀ m ∈ w, m ∈ marked [] text.toList := by
    intro m hm
    have hflat : m ∈ (markedWords text).flatten := List.mem_flatten.mpr ⟨w, hw, hm⟩
    rw [markedWords, Runs.flatten_maximal] at hflat
    exact List.mem_of_mem_filter hflat
  rw [Runs.maximal_of_all, List.map_singleton]
  · intro d hd
    obtain ⟨m, hm, hd⟩ := List.mem_flatMap.mp hd
    exact (hlower m (hmem m hm) (hall m hm)).2 d hd
  · rcases w with _ | ⟨m, w⟩
    · exact absurd rfl hne
    · rw [List.flatMap_cons]
      exact List.append_ne_nil_of_left_ne_nil
        (hlower m (hmem m List.mem_cons_self) (hall m List.mem_cons_self)).1 _

/-- The letters and digits of a text's tokens, in a row. -/
theorem flatten_tokenize (text : String) : ((tokenize text).map String.toList).flatten =
    ((markedWords text).flatten.flatMap lowerMarked).filter isAlphanumeric := by
  have hcancel : ∀ w, ((Runs.maximal isAlphanumeric w).map String.ofList).map String.toList =
      Runs.maximal isAlphanumeric w := by
    intro w
    rw [List.map_map]
    exact (List.map_congr_left fun r _ => String.toList_ofList).trans (List.map_id _)
  rw [tokenize_eq_maximal, hcancel, Runs.flatten_maximal, toLowercase, lowerFrom_eq_flatMap,
    markedWords, Runs.flatten_maximal]
  -- separators contribute nothing to either side
  induction marked [] text.toList with
  | nil => rfl
  | cons m ms ih =>
    rw [List.flatMap_cons, List.filter_append, ih]
    by_cases hm : isAlphanumeric m.1 = true
    · rw [List.filter_cons_of_pos (by simpa using hm), List.flatMap_cons, List.filter_append]
    · have hsep := (lowerMarked_separator (Bool.eq_false_iff.mpr hm)).2
      rw [List.filter_cons_of_neg (by simpa using hm),
        List.filter_eq_nil_iff.mpr fun d hd => by rw [hsep d hd]; exact Bool.false_ne_true,
        List.nil_append]

/-- Marked characters that differ in a mark lowercase differently. -/
theorem eq_of_lowerMarked {l l' : List (Char × Bool)} (hfst : l.map Prod.fst = l'.map Prod.fst)
    (hl : ∀ m ∈ l, m.1 ≠ 'Σ' → m.2 = false) (hl' : ∀ m ∈ l', m.1 ≠ 'Σ' → m.2 = false)
    (h : (l.flatMap lowerMarked).filter isAlphanumeric =
      (l'.flatMap lowerMarked).filter isAlphanumeric) : l = l' := by
  induction l generalizing l' with
  | nil => exact (List.map_eq_nil_iff.mp hfst.symm).symm
  | cons m l ih =>
    rcases l' with _ | ⟨m', l'⟩
    · exact absurd hfst (List.cons_ne_nil _ _)
    · obtain ⟨c, b⟩ := m
      obtain ⟨c', b'⟩ := m'
      obtain ⟨hc, hrest⟩ := List.cons.inj hfst
      obtain rfl : c = c' := hc
      have hltail := fun m hm => hl m (List.mem_cons_of_mem _ hm)
      have hltail' := fun m hm => hl' m (List.mem_cons_of_mem _ hm)
      simp only [List.flatMap_cons, List.filter_append] at h
      by_cases hsigma : c = 'Σ'
      · -- the small sigma shows the mark
        have hsig : ∀ b : Bool, isAlphanumeric (if b then 'ς' else 'σ') = true := by
          intro b
          rcases b with _ | _
          · exact LowerSeparates.isAlphanumeric_sigma
          · exact LowerSeparates.isAlphanumeric_finalSigma
        simp only [lowerMarked, hsigma, if_true, List.filter_cons_of_pos (hsig _),
          List.filter_nil, List.singleton_append, List.cons.injEq] at h
        have hb : b = b' := by
          have := h.1
          rcases b with _ | _ <;> rcases b' with _ | _ <;>
            first | rfl | exact absurd this (by decide)
        rw [hb, ih hrest hltail hltail' h.2]
      · obtain rfl : b = false := hl (c, b) List.mem_cons_self hsigma
        obtain rfl : b' = false := hl' (c, b') List.mem_cons_self hsigma
        rw [ih hrest hltail hltail' (List.append_cancel_left h)]

/-- **For texts of the same words, the marks decide**: they have the same tokens
exactly when corresponding capital sigmas are final in both or in neither. -/
theorem tokenize_eq_iff_markedWords {text text' : String} (h : words text = words text') :
    tokenize text = tokenize text' ↔ markedWords text = markedWords text' := by
  constructor
  · intro htokens
    rw [← map_markedWords, ← map_markedWords] at h
    refine List.eq_iff_flatten_eq.mpr ⟨?_, ?_⟩
    · have hflat := congrArg (fun l => (l.map String.toList).flatten) htokens
      simp only [flatten_tokenize] at hflat
      refine eq_of_lowerMarked ?_ ?_ ?_ hflat
      · have := congrArg List.flatten h
        rwa [← List.map_flatten, ← List.map_flatten] at this
      · intro m hm hne
        obtain ⟨w, hw, hm⟩ := List.mem_flatten.mp hm
        exact mark_eq_false_of_mem_markedWords hw hm hne
      · intro m hm hne
        obtain ⟨w, hw, hm⟩ := List.mem_flatten.mp hm
        exact mark_eq_false_of_mem_markedWords hw hm hne
    · have := congrArg (List.map List.length) h
      simpa [List.map_map, Function.comp_def] using this
  · intro hmarked
    rw [tokenize_eq_flatMap, tokenize_eq_flatMap, hmarked]

end LowerSeparates

end Tokens

/-! ### The sample tables -/

namespace Unicode

section Sample

attribute [local instance] asciiGreek

/-- Which characters the sample tables count as letters and digits. -/
theorem asciiGreek_isAlphanumeric {c : Char} : asciiGreek.isAlphanumeric c = true ↔
    (97 ≤ c.toNat ∧ c.toNat ≤ 122) ∨ (65 ≤ c.toNat ∧ c.toNat ≤ 90) ∨
      (48 ≤ c.toNat ∧ c.toNat ≤ 57) ∨ (913 ≤ c.toNat ∧ c.toNat ≤ 937) ∨
      (945 ≤ c.toNat ∧ c.toNat ≤ 969) :=
  decide_eq_true_iff

theorem asciiGreek_isWhitespace {c : Char} : asciiGreek.isWhitespace c = true ↔
    c = ' ' ∨ (9 ≤ c.toNat ∧ c.toNat ≤ 13) :=
  decide_eq_true_iff

/-- A capital letter of the sample tables stands 32 before its small one. -/
theorem asciiGreek_toLower (c : Char) :
    (∃ d, asciiGreek.toLower c = [d] ∧ d.toNat = c.toNat + 32 ∧
      ((65 ≤ c.toNat ∧ c.toNat ≤ 90) ∨ (913 ≤ c.toNat ∧ c.toNat ≤ 937))) ∨
    asciiGreek.toLower c = [c] ∧
      ¬((65 ≤ c.toNat ∧ c.toNat ≤ 90) ∨ (913 ≤ c.toNat ∧ c.toNat ≤ 937)) := by
  by_cases h : (65 ≤ c.toNat ∧ c.toNat ≤ 90) ∨ (913 ≤ c.toNat ∧ c.toNat ≤ 937)
  · refine Or.inl ⟨Char.ofNat (c.toNat + 32), if_pos h, ?_, h⟩
    have hvalid : (c.toNat + 32).isValidChar := Or.inl (by omega)
    rw [Char.ofNat, dif_pos hvalid]
    rfl
  · exact Or.inr ⟨if_neg h, h⟩

instance asciiGreek_blanks : Blanks where
  isWhitespace_blank := by decide
  not_isWhitespace c h := by
    rw [← Bool.not_eq_true]
    intro hw
    rcases asciiGreek_isWhitespace.mp hw with rfl | hw
    · exact absurd h (by decide)
    · have := asciiGreek_isAlphanumeric.mp h
      omega

instance asciiGreek_settles : LowerSettles where
  settled_blank := ⟨by decide, by decide⟩
  settled_sigma := ⟨by decide, by decide⟩
  settled_finalSigma := ⟨by decide, by decide⟩
  settled_of_mem_toLower c d hc hd halnum := by
    -- no small letter is a capital sigma
    have hne : ∀ e : Char, e.toNat ≠ 931 → e ≠ 'Σ' := fun e he heq => he (by rw [heq]; rfl)
    rcases asciiGreek_toLower c with ⟨e, he, hnat, hrange⟩ | ⟨he, hrange⟩
    · rw [he, List.mem_singleton] at hd
      subst hd
      refine ⟨hne d (by omega), ?_⟩
      rcases asciiGreek_toLower d with ⟨-, -, -, hrange'⟩ | ⟨hd, -⟩
      · omega
      · exact hd
    · rw [he, List.mem_singleton] at hd
      subst hd
      exact ⟨hc, he⟩

instance asciiGreek_separates : LowerSeparates where
  toLower_separator c h := by
    have hnot : ¬_ := fun hc => Bool.false_ne_true (h.symm.trans (asciiGreek_isAlphanumeric.mpr hc))
    rcases asciiGreek_toLower c with ⟨-, -, -, hrange⟩ | ⟨hc, -⟩
    · omega
    · rw [hc]
      exact ⟨List.cons_ne_nil _ _, fun d hd => by rw [List.mem_singleton.mp hd, h]⟩
  isAlphanumeric_capitalSigma := by decide
  isAlphanumeric_sigma := by decide
  isAlphanumeric_finalSigma := by decide

/-- The letters and digits of the sample tables lowercase to letters and digits. -/
theorem asciiGreek_alphanumeric {c : Char} (h : isAlphanumeric c = true) :
    toLower c ≠ [] ∧ ∀ d ∈ toLower c, isAlphanumeric d = true := by
  rcases asciiGreek_toLower c with ⟨e, he, hnat, hrange⟩ | ⟨he, -⟩
  · refine ⟨he ▸ List.cons_ne_nil _ _, fun d hd => ?_⟩
    rw [he, List.mem_singleton] at hd
    subst hd
    exact asciiGreek_isAlphanumeric.mpr (by omega)
  · refine ⟨he ▸ List.cons_ne_nil _ _, fun d hd => ?_⟩
    rw [he, List.mem_singleton] at hd
    rwa [hd]

end Sample

/-- The sample tables and the dotted capital I, which lowercases to an `i` and a
combining dot; the dot is not alphanumeric. -/
@[reducible] def asciiGreekDotted : Unicode where
  toLower c := if c = 'İ' then ['i', '\u0307'] else asciiGreek.toLower c
  isAlphanumeric c := c = 'İ' || asciiGreek.isAlphanumeric c
  isWhitespace := asciiGreek.isWhitespace
  cased c := c = 'İ' || asciiGreek.cased c
  caseIgnorable c := c = '\u0307' || asciiGreek.caseIgnorable c

end Unicode

end AdMatch
