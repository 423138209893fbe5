import Mathlib.Data.List.Infix

/-!
# Patterns with stars, and a search that gives up early

A pattern is a sequence of items. One kind takes a single letter that it accepts, the other
takes any number of letters. A search that tries a star at every place can stop as soon as
an attempt runs out of letters, because a later place leaves even fewer. The third verdict of
the search carries that knowledge, and only one star is ever being tried.
-/

namespace Foundations.Globs

universe u
variable {α : Type u}

/-- A part of a pattern: one letter that is accepted by a test, or a star. -/
inductive Item (α : Type u) where
  | one : (α → Bool) → Item α
  | many : Item α

/-- What a pattern means: its items stand for parts of the word, one after the other. -/
inductive Matches : List (Item α) → List α → Prop where
  | done : Matches [] []
  | one {accepts : α → Bool} {items : List (Item α)} {letter : α} {word : List α}
      (accepted : accepts letter = true) (rest : Matches items word) :
      Matches (.one accepts :: items) (letter :: word)
  | many {items : List (Item α)} {word : List α} (skipped : List α)
      (rest : Matches items word) : Matches (.many :: items) (skipped ++ word)

/-- An attempt that ends with `abort` has met the end of the word. -/
inductive Verdict where
  | no
  | yes
  | abort
deriving DecidableEq

/-- What an attempt finds, and the number of attempts it has made in turn. -/
structure Search where
  verdict : Verdict
  attempts : Nat
deriving DecidableEq

/-- The attempts at one place after another, up to the first that is not a plain no. -/
def tryPlaces (attempt : List α → Search) : List α → Search
  | [] => ⟨.abort, 0⟩
  | letter :: word =>
    let tried := attempt (letter :: word)
    if tried.verdict = .no then
      let rest := tryPlaces attempt word
      ⟨rest.verdict, 1 + tried.attempts + rest.attempts⟩
    else ⟨tried.verdict, 1 + tried.attempts⟩

/-- The search as the matcher makes it. Of several stars in a row only the last one searches. -/
def search : List (Item α) → List α → Search
  | [], word => ⟨if word.isEmpty then .yes else .no, 0⟩
  | .one _ :: _, [] => ⟨.abort, 0⟩
  | .one accepts :: items, letter :: word =>
    if accepts letter then search items word else ⟨.no, 0⟩
  | .many :: items, word =>
    match items with
    | [] => ⟨.yes, 0⟩
    | .many :: _ => search items word
    | .one _ :: _ => tryPlaces (search items) word

/-! ## What the patterns stand for -/

/-- The empty pattern stands for the empty word. -/
theorem matches_nil_iff (word : List α) : Matches [] word ↔ word = [] := by
  constructor
  · rintro ⟨⟩
    trivial
  · rintro rfl
    exact .done

/-- An item for one letter stands for the first letter of the word. -/
theorem matches_one_iff (accepts : α → Bool) (items : List (Item α)) (letter : α)
    (word : List α) : Matches (.one accepts :: items) (letter :: word) ↔
      accepts letter = true ∧ Matches items word := by
  constructor
  · rintro ⟨⟩
    constructor <;> assumption
  · rintro ⟨accepted, rest⟩
    exact .one accepted rest

/-- It does not stand for the empty word. -/
theorem not_matches_one_nil (accepts : α → Bool) (items : List (Item α)) :
    ¬ Matches (.one accepts :: items) [] := by
  rintro ⟨⟩

/-- A star leaves the rest of the pattern some end of the word, which may be the whole word. -/
theorem matches_many_iff (items : List (Item α)) (word : List α) :
    Matches (.many :: items) word ↔ ∃ rest, rest <:+ word ∧ Matches items rest := by
  constructor
  · intro denoted
    cases denoted with
    | many skipped rest => exact ⟨_, List.suffix_append skipped _, rest⟩
  · rintro ⟨rest, ⟨skipped, rfl⟩, denoted⟩
    exact .many skipped denoted

/-- Two stars in a row stand for what one does. -/
theorem matches_many_many_iff (items : List (Item α)) (word : List α) :
    Matches (.many :: .many :: items) word ↔ Matches (.many :: items) word := by
  simp only [matches_many_iff]
  constructor
  · rintro ⟨rest, inside, rest', inside', denoted⟩
    exact ⟨rest', inside'.trans inside, denoted⟩
  · rintro ⟨rest, inside, denoted⟩
    exact ⟨rest, inside, rest, List.suffix_refl rest, denoted⟩

/-! ## What the search finds -/

/-- What a verdict on a word says about the words that are meant. An abort says that no end of the
word will do either. -/
structure Sound (denoted : List α → Prop) (word : List α) (verdict : Verdict) : Prop where
  yes : verdict = .yes → denoted word
  no : verdict = .no → ¬ denoted word
  abort : verdict = .abort → ∀ rest, rest <:+ word → ¬ denoted rest

/-- A verdict is about what is meant and not about how it is said. -/
theorem Sound.congr {denoted denoted' : List α → Prop} {word : List α} {verdict : Verdict}
    (sound : Sound denoted word verdict) (same : ∀ rest, denoted' rest ↔ denoted rest) :
    Sound denoted' word verdict := by
  constructor
  · exact fun found => (same word).mpr (sound.yes found)
  · exact fun found meant => sound.no found ((same word).mp meant)
  · exact fun found rest inside meant => sound.abort found rest inside ((same rest).mp meant)

/-- When all places have been tried, the verdict is final. -/
theorem tryPlaces_ne_no (attempt : List α → Search) (word : List α) :
    (tryPlaces attempt word).verdict ≠ .no := by
  induction word with
  | nil => simp [tryPlaces]
  | cons letter word inductionHypothesis =>
    by_cases refused : (attempt (letter :: word)).verdict = .no
    · simpa [tryPlaces, refused] using inductionHypothesis
    · simp [tryPlaces, refused]

/-- Trying the places of a word in turn decides whether the pattern stands for an end of it,
for a pattern that does not stand for the empty word. -/
theorem tryPlaces_sound (attempt : List α → Search) (denoted : List α → Prop)
    (nonempty : ¬ denoted []) (sound : ∀ word, Sound denoted word (attempt word).verdict)
    (word : List α) : Sound (fun word => ∃ rest, rest <:+ word ∧ denoted rest) word
      (tryPlaces attempt word).verdict := by
  induction word with
  | nil =>
    constructor
    · simp [tryPlaces]
    · simp [tryPlaces]
    · rintro - rest inside ⟨rest', inside', meant⟩
      have vacant : rest' = [] := List.suffix_nil.mp (inside'.trans inside)
      exact nonempty (vacant ▸ meant)
  | cons letter word inductionHypothesis =>
    have judged := sound (letter :: word)
    by_cases refused : (attempt (letter :: word)).verdict = .no
    · have further : (tryPlaces attempt (letter :: word)).verdict =
          (tryPlaces attempt word).verdict := by
        simp [tryPlaces, refused]
      rw [further]
      constructor
      · intro found
        obtain ⟨rest, inside, meant⟩ := inductionHypothesis.yes found
        exact ⟨rest, inside.trans (List.suffix_cons letter word), meant⟩
      · exact fun found => absurd found (tryPlaces_ne_no attempt word)
      · rintro found rest inside ⟨rest', inside', meant⟩
        rcases List.suffix_cons_iff.mp (inside'.trans inside) with whole | later
        · exact judged.no refused (whole ▸ meant)
        · exact inductionHypothesis.abort found rest' later
            ⟨rest', List.suffix_refl rest', meant⟩
    · have decided : (tryPlaces attempt (letter :: word)).verdict =
          (attempt (letter :: word)).verdict := by
        simp [tryPlaces, refused]
      rw [decided]
      constructor
      · exact fun found => ⟨letter :: word, List.suffix_refl _, judged.yes found⟩
      · exact fun found => absurd found refused
      · rintro found rest inside ⟨rest', inside', meant⟩
        exact judged.abort found rest' (inside'.trans inside) meant

/-- Every verdict of the search is right, and an abort holds for all shorter ends as well.

By induction along the search. At a star the places are tried one after another; an abort of one
of them settles the later ones, whose words are shorter. -/
theorem search_sound (items : List (Item α)) (word : List α) :
    Sound (Matches items) word (search items word).verdict := by
  induction items generalizing word with
  | nil =>
    constructor
    · cases word <;> simp [search, matches_nil_iff]
    · cases word <;> simp [search, matches_nil_iff]
    · cases word <;> simp [search]
  | cons item items inductionHypothesis =>
    cases item with
    | one accepts =>
      cases word with
      | nil =>
        constructor
        · simp [search]
        · simp [search]
        · intro found rest inside
          rw [List.suffix_nil.mp inside]
          exact not_matches_one_nil accepts items
      | cons letter word =>
        by_cases accepted : accepts letter = true
        · have judged := inductionHypothesis word
          have same : search (.one accepts :: items) (letter :: word) = search items word := by
            simp [search, accepted]
          rw [same]
          constructor
          · exact fun found => .one accepted (judged.yes found)
          · exact fun found meant => judged.no found ((matches_one_iff _ _ _ _).mp meant).2
          · intro found rest inside meant
            cases meant with
            | @one _ _ first tail kept meant' =>
              have behind : tail <:+ word := by
                rcases List.suffix_cons_iff.mp inside with whole | later
                · exact (List.cons.inj whole).2 ▸ List.suffix_refl _
                · exact (List.suffix_cons first tail).trans later
              exact judged.abort found tail behind meant'
        · constructor
          · simp [search, accepted]
          · intro found meant
            exact accepted ((matches_one_iff _ _ _ _).mp meant).1
          · simp [search, accepted]
    | many =>
      cases items with
      | nil =>
        constructor
        · intro found
          exact (matches_many_iff [] word).mpr ⟨[], List.nil_suffix, .done⟩
        · simp [search]
        · simp [search]
      | cons next rest =>
        cases next with
        | many => exact (inductionHypothesis word).congr (matches_many_many_iff rest)
        | one accepts =>
          exact (tryPlaces_sound (search (.one accepts :: rest)) (Matches (.one accepts :: rest))
            (not_matches_one_nil accepts rest) inductionHypothesis word).congr
            (matches_many_iff (.one accepts :: rest))

/-- The search says yes exactly to the words that the pattern stands for. -/
theorem search_yes_iff (items : List (Item α)) (word : List α) :
    (search items word).verdict = .yes ↔ Matches items word := by
  have sound := search_sound items word
  constructor
  · exact sound.yes
  · intro meant
    cases verdict : (search items word).verdict with
    | yes => rfl
    | no => exact absurd meant (sound.no verdict)
    | abort => exact absurd meant (sound.abort verdict word (List.suffix_refl word))

/-! ## What the search costs -/

/-- A plain no is given before any star, so without attempts. -/
theorem search_no_attempts (items : List (Item α)) (word : List α)
    (refused : (search items word).verdict = .no) : (search items word).attempts = 0 := by
  induction items generalizing word with
  | nil => simp [search]
  | cons item items inductionHypothesis =>
    cases item with
    | one accepts =>
      cases word with
      | nil => simp [search]
      | cons letter word =>
        by_cases accepted : accepts letter = true
        · simp only [search, accepted, if_true] at refused ⊢
          exact inductionHypothesis word refused
        · simp [search, accepted]
    | many =>
      cases items with
      | nil => simp [search]
      | cons next rest =>
        cases next with
        | many => exact inductionHypothesis word refused
        | one accepts => exact absurd refused (tryPlaces_ne_no _ word)

/-- Attempts that make none of their own unless they decide need one place each: the one that
decides is the last. -/
theorem tryPlaces_attempts (attempt : List α → Search)
    (idle : ∀ word, (attempt word).verdict = .no → (attempt word).attempts = 0)
    (bound : ∀ letter word, (attempt (letter :: word)).attempts ≤ word.length) (word : List α) :
    (tryPlaces attempt word).attempts ≤ word.length := by
  induction word with
  | nil => simp [tryPlaces]
  | cons letter word inductionHypothesis =>
    by_cases refused : (attempt (letter :: word)).verdict = .no
    · have vacant := idle _ refused
      simp only [tryPlaces, refused, if_true, vacant, List.length_cons]
      omega
    · have few := bound letter word
      simp only [tryPlaces, refused, if_false, List.length_cons]
      omega

/-- The attempts of a whole search are at most as many as the letters, and fewer if the
pattern begins with a single letter. -/
theorem search_attempts_room (items : List (Item α)) (word : List α) :
    (search items word).attempts ≤ word.length ∧ ∀ accepts rest, items = .one accepts :: rest →
      (search items word).attempts ≤ word.length - 1 := by
  induction items generalizing word with
  | nil => simp [search]
  | cons item items inductionHypothesis =>
    cases item with
    | one accepts =>
      cases word with
      | nil => simp [search]
      | cons letter word =>
        have few : (search (.one accepts :: items) (letter :: word)).attempts ≤ word.length := by
          by_cases accepted : accepts letter = true
          · simpa [search, accepted] using (inductionHypothesis word).1
          · simp [search, accepted]
        constructor
        · exact few.trans (Nat.le_succ word.length)
        · exact fun _ _ _ => few
    | many =>
      refine ⟨?_, by simp⟩
      cases items with
      | nil => simp [search]
      | cons next rest =>
        cases next with
        | many => exact (inductionHypothesis word).1
        | one accepts =>
          apply tryPlaces_attempts _ (search_no_attempts _)
          exact fun letter word => (inductionHypothesis (letter :: word)).2 accepts rest rfl

/-- A search makes at most as many attempts as there are letters. -/
theorem search_attempts (items : List (Item α)) (word : List α) :
    (search items word).attempts ≤ word.length := (search_attempts_room items word).1

end Foundations.Globs
