import Mathlib.Data.List.Chain
import Mathlib.Data.List.DropRight
import Mathlib.Data.List.Induction
import Mathlib.Data.List.ReduceOption

/-!
# Paragraphs of a list

Some elements of a list are content and some are breaks, and no element is both. A break
closes a paragraph if there is content behind the last break that closed one. Reading the
list from its beginning, all there is to remember is whether a paragraph is pending.

The marks of a list are its content and the breaks that close a paragraph, in their order.
-/

namespace Foundations.Paragraphs

universe u v
variable {α : Type u}

/-- An element that counts, as content or because it closes a paragraph. -/
inductive Mark (α : Type u) where
  | content (x : α)
  | closing (x : α)

/-- The element closes a paragraph, and is not content. -/
def Mark.isClosing : Mark α → Bool
  | content _ => false
  | closing _ => true

/-- The content of a mark, if it is content and does not close anything. -/
def Mark.content? : Mark α → Option α
  | content x => some x
  | closing _ => none

section Reading

variable (content breaks : α → Bool)

/-- There is content behind the last break, so a paragraph has begun and not been closed. -/
def pending (list : List α) : Bool := (list.rtakeWhile fun x => !breaks x).any content

/-- The element closes a paragraph, with these elements before it. -/
def closes (earlier : List α) (x : α) : Bool := breaks x && pending content breaks earlier

/-- The mark of an element, if it counts at all: content is content wherever it stands. -/
def mark (earlier : List α) (x : α) : Option (Mark α) :=
  if content x then some (.content x)
  else if closes content breaks earlier x then some (.closing x)
  else none

/-- Every element is marked with the elements before it in view. -/
def marks (list : List α) : List (Mark α) :=
  (list.mapIdx fun index x => mark content breaks (list.take index) x).reduceOption

/-- In an empty list nothing has begun, so that nothing can be closed. -/
theorem pending_nil : pending content breaks [] = false := rfl

/-- A break ends what has begun, content begins, and other elements change nothing. -/
theorem pending_concat (list : List α) (x : α) :
    pending content breaks (list ++ [x]) =
      (!breaks x && (content x || pending content breaks list)) := by
  rw [pending, pending]
  by_cases isBreak : breaks x = true
  · rw [List.rtakeWhile_concat_neg _ _ _ (by simpa using isBreak), isBreak]
    rfl
  · rw [List.rtakeWhile_concat_pos _ _ _ (by simpa using isBreak), List.any_append,
      eq_false_of_ne_true isBreak]
    simp [Bool.or_comm]

/-- A paragraph is pending exactly if some content has no break behind it. -/
theorem pending_iff (list : List α) :
    pending content breaks list = true ↔ ∃ before x after, list = before ++ x :: after ∧
      content x = true ∧ breaks x = false ∧ ∀ y ∈ after, breaks y = false := by
  constructor
  · intro isPending
    obtain ⟨x, member, isContent⟩ := List.any_eq_true.mp isPending
    obtain ⟨front, whole⟩ := List.rtakeWhile_suffix (fun x => !breaks x) list
    have free : ∀ y ∈ list.rtakeWhile fun x => !breaks x, breaks y = false := by
      intro y inside
      simpa using List.mem_rtakeWhile_imp inside
    obtain ⟨before, after, same⟩ := List.append_of_mem member
    rw [same] at whole free
    refine ⟨front ++ before, x, after, ?_, isContent, free x (by simp), ?_⟩
    · rw [List.append_assoc, whole]
    · intro y behind
      exact free y (by simp [behind])
  · rintro ⟨before, x, after, rfl, isContent, whole, rest⟩
    have kept : ∀ y ∈ after.reverse ++ [x], (!breaks y) = true := by
      intro y member
      obtain inside | last := List.mem_append.mp member
      · simpa using rest y (List.mem_reverse.mp inside)
      · simpa [List.mem_singleton.mp last] using whole
    have turned : (before ++ x :: after).reverse = after.reverse ++ [x] ++ before.reverse := by simp
    rw [pending, List.rtakeWhile, turned, List.takeWhile_append_of_pos kept]
    simp [isContent]

/-- The marks of a list and one more element, which has no part in the marks before it. -/
theorem marks_concat (list : List α) (x : α) :
    marks content breaks (list ++ [x]) =
      marks content breaks list ++ (mark content breaks list x).toList := by
  have before : (list.mapIdx fun index y => mark content breaks ((list ++ [x]).take index) y) =
      list.mapIdx fun index y => mark content breaks (list.take index) y := by
    apply List.mapIdx_eq_mapIdx_iff.mpr
    intro index inside
    rw [List.take_append_of_le_length (Nat.le_of_lt inside)]
  rw [marks, List.mapIdx_concat, before, List.take_left, List.reduceOption_append, marks]
  cases mark content breaks list x with
  | none => rfl
  | some marked => rfl

/-- An empty list has no marks, neither of content nor of closings. -/
theorem marks_nil : marks content breaks [] = [] := rfl

/-- The content among the marks is the content of the list, each once and in its order. -/
theorem marks_content (list : List α) :
    (marks content breaks list).filterMap Mark.content? = list.filter content := by
  induction list using List.reverseRecOn with
  | nil => rfl
  | append_singleton list x inductionHypothesis =>
    rw [marks_concat, List.filterMap_append, inductionHypothesis, List.filter_append, mark]
    by_cases isContent : content x = true
    · simp [isContent, Mark.content?]
    · by_cases isClosing : closes content breaks list x = true
      · simp [isContent, isClosing, Mark.content?]
      · simp [isContent, isClosing]

/-- Each mark comes from an element and the elements before it. What comes later has no influence.
-/
theorem mem_marks_iff (list : List α) (marked : Mark α) :
    marked ∈ marks content breaks list ↔ ∃ earlier x later, list = earlier ++ x :: later ∧
      mark content breaks earlier x = some marked := by
  rw [marks, List.reduceOption_mem_iff, List.mem_mapIdx]
  constructor
  · rintro ⟨index, inside, same⟩
    refine ⟨list.take index, list[index], list.drop (index + 1), ?_, same⟩
    rw [← List.drop_eq_getElem_cons inside, List.take_append_drop]
  · rintro ⟨earlier, x, later, rfl, same⟩
    refine ⟨earlier.length, by simp, ?_⟩
    simpa using same

end Reading

section Apart

variable {content breaks : α → Bool}

/-- In terms of the last closing alone: a break closes a paragraph exactly if there is content
before it and nothing between the two closes one. -/
theorem closes_iff_since (apart : ∀ x, content x = true → breaks x = false)
    (earlier : List α) (x : α) :
    closes content breaks earlier x = true ↔ breaks x = true ∧
      ∃ before y between, earlier = before ++ y :: between ∧ content y = true ∧
        ∀ front z back, between = front ++ z :: back →
          closes content breaks (before ++ y :: front) z = false := by
  rw [closes, Bool.and_eq_true, pending_iff]
  constructor
  · rintro ⟨isBreak, before, y, between, rfl, isContent, _, free⟩
    refine ⟨isBreak, before, y, between, rfl, isContent, ?_⟩
    rintro front z back rfl
    rw [closes, free z (by simp), Bool.false_and]
  · rintro ⟨isBreak, before, y, between, rfl, isContent, none⟩
    refine ⟨isBreak, before, y, between, rfl, isContent, apart y isContent, ?_⟩
    -- The first break behind the content would close its paragraph.
    cases first : between.find? breaks with
    | none =>
      intro z member
      simpa using List.find?_eq_none.mp first z member
    | some z =>
      obtain ⟨isBreakToo, front, back, split, free⟩ := List.find?_eq_some_iff_append.mp first
      have closing : closes content breaks (before ++ y :: front) z = true := by
        rw [closes, isBreakToo, Bool.true_and, pending_iff]
        exact ⟨before, y, front, rfl, isContent, apart y isContent, by simpa using free⟩
      rw [none front z back split] at closing
      cases closing

/-- Some mark closes a paragraph exactly if some element does, with those before it in view. -/
theorem marks_closing_iff (apart : ∀ x, content x = true → breaks x = false) (list : List α) :
    (marks content breaks list).any Mark.isClosing = true ↔ ∃ earlier x later,
      list = earlier ++ x :: later ∧ closes content breaks earlier x = true := by
  rw [List.any_eq_true]
  constructor
  · rintro ⟨marked, member, isClosing⟩
    obtain ⟨earlier, x, later, split, same⟩ := (mem_marks_iff content breaks list marked).mp member
    refine ⟨earlier, x, later, split, ?_⟩
    rw [mark] at same
    split at same
    · obtain rfl := Option.some.inj same
      cases isClosing
    · split at same
      · assumption
      · cases same
  · rintro ⟨earlier, x, later, split, isClosing⟩
    refine ⟨.closing x, (mem_marks_iff content breaks list _).mpr ?_, rfl⟩
    refine ⟨earlier, x, later, split, ?_⟩
    have noContent : ¬content x = true := by
      intro isContent
      rw [closes, apart x isContent] at isClosing
      cases isClosing
    rw [mark, if_neg noContent, if_pos isClosing]

/-- A chain goes on with an element that may follow its last one. An empty chain goes on with any
element. -/
theorem chain_concat {β : Type v} {follows : β → β → Prop} {list : List β} {next : β}
    (chain : list.IsChain follows)
    (last : ∀ other, list.getLast? = some other → follows other next) :
    (list ++ [next]).IsChain follows := by
  refine List.isChain_append.mpr ⟨chain, List.isChain_singleton next, ?_⟩
  intro other isLast first isFirst
  obtain rfl := Option.some.inj isFirst
  exact last other isLast

/-- No two closings follow each other, and while a paragraph is pending the last mark is content.
The second part carries the induction. -/
theorem marks_chain (list : List α) :
    (marks content breaks list).IsChain
        (fun first second => second.isClosing = true → first.isClosing = false) ∧
      (pending content breaks list = true →
        ∃ last, (marks content breaks list).getLast? = some last ∧ last.isClosing = false) := by
  induction list using List.reverseRecOn with
  | nil => simp [marks_nil, pending_nil]
  | append_singleton list x inductionHypothesis =>
    obtain ⟨chain, ends⟩ := inductionHypothesis
    rw [marks_concat, pending_concat, mark]
    by_cases isContent : content x = true
    · rw [if_pos isContent]
      refine ⟨chain_concat chain ?_, fun _ => ⟨.content x, List.getLast?_concat, rfl⟩⟩
      intro _ _ isClosing
      cases isClosing
    · rw [if_neg isContent, eq_false_of_ne_true isContent, Bool.false_or]
      by_cases isClosing : closes content breaks list x = true
      · obtain ⟨isBreak, isPending⟩ := (Bool.and_eq_true _ _).mp isClosing
        obtain ⟨last, isLast, isContentToo⟩ := ends isPending
        rw [if_pos isClosing]
        constructor
        · apply chain_concat chain
          intro other isOther _
          rw [isLast] at isOther
          rwa [← Option.some.inj isOther]
        · rw [isBreak]
          intro impossible
          cases impossible
      · rw [if_neg isClosing, Option.toList_none, List.append_nil]
        refine ⟨chain, ?_⟩
        intro isPending
        exact ends ((Bool.and_eq_true _ _).mp isPending).2

end Apart

end Foundations.Paragraphs
