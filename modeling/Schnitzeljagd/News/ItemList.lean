import Schnitzeljagd.Foundations.CString
import Schnitzeljagd.Foundations.PerlText

/-!
# Lists of items in one string

`itemlist.c` cuts a copy of a string into its items in place: a separator behind an item
becomes the NUL that ends it, and every other separator a byte that is skipped. Allocation
succeeds.
-/

namespace Schnitzeljagd.News

open Foundations.CArithmetic Foundations.CString Foundations.PerlText

/-- `SEP_CHAR`, the byte that the list puts in place of a separator. Nothing keeps it from being
in the text. -/
def sepChar : Byte := 1

/-- The loop of `new_Itl`: the string with its separators replaced, and the number of items
that end from here on. -/
def cutItems (isSep : Byte → Bool) : Bool → List Byte → List Byte × Nat
  | inItem, [] => ([], if inItem then 1 else 0)
  | true, byte :: rest =>
    if isSep byte then (0 :: (cutItems isSep false rest).1, (cutItems isSep false rest).2 + 1)
    else (byte :: (cutItems isSep true rest).1, (cutItems isSep true rest).2)
  | false, byte :: rest =>
    if isSep byte then (sepChar :: (cutItems isSep false rest).1, (cutItems isSep false rest).2)
    else (byte :: (cutItems isSep true rest).1, (cutItems isSep true rest).2)

/-- `struct ItemList` -/
structure ItemList where
  list : List Byte
  next : Nat
  count : Nat

/-- `new_Itl`, which copies the text, puts `SEP_CHAR` in place of separators and NUL behind every
item, and counts the items. -/
def newItl (list separators : Text) : ItemList :=
  let cut := cutItems separators.contains false list
  ⟨cut.1 ++ [0, 0], 0, cut.2⟩

/-- `Itl_next`: where the next item begins, if there is one -/
def itlNext (itl : ItemList) : Option (Option Nat × ItemList) := do
  let first ← load itl.list itl.next
  if first = 0 then some (none, itl)
  else
    let skipped ← scan (fun byte => byte = sepChar) (itl.list.drop itl.next)
    let res := itl.next + skipped
    let byte ← load itl.list res
    let behind ← if byte = 0 then load itl.list (res + 1 : Nat) else some 1
    if byte = 0 ∧ behind = 0 then some (none, itl)
    else
      let length ← strlen itl.list res
      some (some res, { itl with next := res + length + 1 })

/-- `Itl_first` begins at the start of the string again, whatever was read before. -/
def itlFirst (itl : ItemList) : Option (Option Nat × ItemList) := itlNext { itl with next := 0 }

/-- The body of the loop over the items, which are read where they begin, with what `Itl_first`
or `Itl_next` has returned. There are at most so many items. -/
def itlLoop : Nat → Option Nat × ItemList → Option (List Text)
  | _, (none, _) => some []
  | 0, (some _, _) => none
  | fuel + 1, (some res, itl) => do
    let item ← stringAt itl.list res
    let next ← itlNext itl
    let later ← itlLoop fuel next
    some (item :: later)

/-- What `for ( item = Itl_first( .. ); item != NULL; item = Itl_next( .. ) )` goes through. -/
def itlItems (itl : ItemList) : Option (List Text) := do
  let first ← itlFirst itl
  itlLoop itl.list.length first

/-! ## Runs between separators -/

/-- The pieces of a text between separators that are not empty. These are the items as they are
meant. -/
def runs (isSep : Byte → Bool) (text : Text) : List Text :=
  (text.splitOnP isSep).filter fun run => run ≠ []

variable {isSep : Byte → Bool}

/-- A separator divides the pieces into those before it and those behind it. -/
theorem runs_separator {separator : Byte} (separates : isSep separator = true)
    (before behind : Text) :
    runs isSep (before ++ separator :: behind) = runs isSep before ++ runs isSep behind := by
  rw [runs, List.splitOnP_append_cons before behind separates, List.filter_append]
  rfl

/-- Separators alone add no piece. -/
theorem runs_gap (gap text : Text) (separates : ∀ byte ∈ gap, isSep byte = true) :
    runs isSep (gap ++ text) = runs isSep text := by
  induction gap with
  | nil => rfl
  | cons byte gap inductionHypothesis =>
    obtain ⟨first, others⟩ := List.forall_mem_cons.mp separates
    have split := runs_separator first [] (gap ++ text)
    rw [List.nil_append] at split
    rw [List.cons_append, split, inductionHypothesis others]
    simp [runs, List.splitOnP_nil]

/-- A text without separators is one piece, unless it is empty. -/
theorem runs_item (item : Text) (nonempty : item ≠ []) (whole : ∀ byte ∈ item, isSep byte = false) :
    runs isSep item = [item] := by
  rw [runs, List.splitOnP_eq_singleton whole]
  simp [nonempty]

/-- A piece consists of bytes of the text. -/
theorem runs_bytes (text : Text) : ∀ run ∈ runs isSep text, ∀ byte ∈ run, byte ∈ text :=
  fun run member => splitOnP_bytes isSep text run (List.mem_of_mem_filter member)

/-! ## Cutting in place -/

/-- Outside an item separators are replaced, one by one. -/
theorem cutItems_gap (gap text : Text) (separates : ∀ byte ∈ gap, isSep byte = true) :
    cutItems isSep false (gap ++ text) =
      (List.replicate gap.length sepChar ++ (cutItems isSep false text).1,
        (cutItems isSep false text).2) := by
  induction gap with
  | nil => rfl
  | cons byte gap inductionHypothesis =>
    obtain ⟨first, others⟩ := List.forall_mem_cons.mp separates
    rw [List.cons_append, cutItems, if_pos first, inductionHypothesis others]
    rfl

/-- Inside an item the bytes are copied. -/
theorem cutItems_inside (item text : Text) (whole : ∀ byte ∈ item, isSep byte = false) :
    cutItems isSep true (item ++ text) =
      (item ++ (cutItems isSep true text).1, (cutItems isSep true text).2) := by
  induction item with
  | nil => rfl
  | cons byte item inductionHypothesis =>
    obtain ⟨first, others⟩ := List.forall_mem_cons.mp whole
    rw [List.cons_append, cutItems, if_neg (by simp [first]), inductionHypothesis others]
    rfl

/-- An item begins with its first byte, which is copied as well. -/
theorem cutItems_item (item text : Text) (nonempty : item ≠ [])
    (whole : ∀ byte ∈ item, isSep byte = false) :
    cutItems isSep false (item ++ text) =
      (item ++ (cutItems isSep true text).1, (cutItems isSep true text).2) := by
  obtain ⟨byte, item, rfl⟩ := List.exists_cons_of_ne_nil nonempty
  obtain ⟨first, others⟩ := List.forall_mem_cons.mp whole
  rw [List.cons_append, cutItems, if_neg (by simp [first]), cutItems_inside item text others]
  rfl

/-- A text begins with separators, an item, and what follows a further separator, as far as it
goes. Any of the three may be missing at the end. -/
theorem shape (isSep : Byte → Bool) (text : Text) :
    ∃ gap item behind, text = gap ++ (item ++ behind) ∧ (∀ byte ∈ gap, isSep byte = true) ∧
      (∀ byte ∈ item, isSep byte = false) ∧ (item = [] → behind = []) ∧
      ∀ byte ∈ behind.head?, isSep byte = true := by
  refine ⟨text.takeWhile isSep, (text.dropWhile isSep).takeWhile fun byte => !isSep byte,
    (text.dropWhile isSep).dropWhile fun byte => !isSep byte, ?_, ?_, ?_, ?_, ?_⟩
  · rw [List.takeWhile_append_dropWhile, List.takeWhile_append_dropWhile]
  · exact fun byte member => List.mem_takeWhile_imp member
  · intro byte member
    simpa using List.mem_takeWhile_imp member
  · intro empty
    cases rest : text.dropWhile isSep with
    | nil => rfl
    | cons byte later =>
      have other : isSep byte = false := by
        have refused := List.head_dropWhile_not isSep
          (show text.dropWhile isSep ≠ [] by simp [rest])
        simpa [rest] using refused
      rw [rest, List.takeWhile_cons_of_pos (by simp [other])] at empty
      contradiction
  · intro byte first
    have refused := List.head?_dropWhile_not (fun byte => !isSep byte) (text.dropWhile isSep)
    rw [Option.mem_def.mp first] at refused
    simpa using refused

/-- The induction over a text that all results on lists of items use: separators alone, a last
item, or an item with a separator behind it and a text that is shorter. -/
theorem pieces_induction (isSep : Byte → Bool) {holds : Text → Prop}
    (nothing : ∀ gap, (∀ byte ∈ gap, isSep byte = true) → holds gap)
    (last : ∀ gap item, (∀ byte ∈ gap, isSep byte = true) → item ≠ [] →
      (∀ byte ∈ item, isSep byte = false) → holds (gap ++ item))
    (more : ∀ gap item separator text, (∀ byte ∈ gap, isSep byte = true) → item ≠ [] →
      (∀ byte ∈ item, isSep byte = false) → isSep separator = true → holds text →
      holds (gap ++ (item ++ separator :: text)))
    (text : Text) : holds text := by
  induction measured : text.length using Nat.strongRecOn generalizing text with
  | ind length inductionHypothesis =>
    obtain ⟨gap, item, behind, rfl, separates, whole, alone, stop⟩ := shape isSep text
    by_cases empty : item = []
    · rw [empty, alone empty, List.append_nil, List.append_nil]
      exact nothing gap separates
    · cases behind with
      | nil =>
        rw [List.append_nil]
        exact last gap item separates empty whole
      | cons separator text =>
        have shorter : text.length < length := by
          simp only [List.length_append, List.length_cons] at measured
          omega
        exact more gap item separator text separates empty whole (stop separator rfl)
          (inductionHypothesis text.length shorter text rfl)

section Pieces

variable {gap item : Text} {separator : Byte}

/-- Separators alone have no piece. -/
theorem runs_nothing (separates : ∀ byte ∈ gap, isSep byte = true) : runs isSep gap = [] := by
  have all := runs_gap gap [] separates
  rw [List.append_nil] at all
  rw [all]
  simp [runs, List.splitOnP_nil]

/-- A last item is the only piece. -/
theorem runs_last (separates : ∀ byte ∈ gap, isSep byte = true) (nonempty : item ≠ [])
    (whole : ∀ byte ∈ item, isSep byte = false) : runs isSep (gap ++ item) = [item] := by
  rw [runs_gap gap item separates, runs_item item nonempty whole]

/-- An item and a separator behind it are followed by the pieces of the rest. -/
theorem runs_more (separates : ∀ byte ∈ gap, isSep byte = true) (nonempty : item ≠ [])
    (whole : ∀ byte ∈ item, isSep byte = false) (stop : isSep separator = true) (text : Text) :
    runs isSep (gap ++ (item ++ separator :: text)) = item :: runs isSep text := by
  rw [runs_gap gap _ separates, runs_separator stop, runs_item item nonempty whole]
  rfl

/-- Separators alone are all replaced, and nothing is counted. -/
theorem cutItems_nothing (separates : ∀ byte ∈ gap, isSep byte = true) :
    cutItems isSep false gap = (List.replicate gap.length sepChar, 0) := by
  have all := cutItems_gap gap [] separates
  rw [List.append_nil] at all
  rw [all]
  simp [cutItems]

/-- A last item is copied and counted. -/
theorem cutItems_last (separates : ∀ byte ∈ gap, isSep byte = true) (nonempty : item ≠ [])
    (whole : ∀ byte ∈ item, isSep byte = false) :
    cutItems isSep false (gap ++ item) = (List.replicate gap.length sepChar ++ item, 1) := by
  have all := cutItems_item item [] nonempty whole
  rw [List.append_nil] at all
  rw [cutItems_gap gap item separates, all]
  simp [cutItems]

/-- An item is copied and counted, and its separator becomes its end. -/
theorem cutItems_more (separates : ∀ byte ∈ gap, isSep byte = true) (nonempty : item ≠ [])
    (whole : ∀ byte ∈ item, isSep byte = false) (stop : isSep separator = true) (text : Text) :
    cutItems isSep false (gap ++ (item ++ separator :: text)) =
      (List.replicate gap.length sepChar ++ (item ++ 0 :: (cutItems isSep false text).1),
        (cutItems isSep false text).2 + 1) := by
  rw [cutItems_gap gap _ separates, cutItems_item item _ nonempty whole, cutItems, if_pos stop]

end Pieces

/-- The items are counted right, whatever bytes they have, since the count is made while the text
is cut. -/
theorem cutItems_count (isSep : Byte → Bool) (text : Text) :
    (cutItems isSep false text).2 = (runs isSep text).length := by
  induction text using pieces_induction isSep with
  | nothing gap separates =>
    rw [cutItems_nothing separates, runs_nothing separates]
    rfl
  | last gap item separates nonempty whole =>
    rw [cutItems_last separates nonempty whole, runs_last separates nonempty whole]
    rfl
  | more gap item separator text separates nonempty whole stop inductionHypothesis =>
    rw [cutItems_more separates nonempty whole stop, runs_more separates nonempty whole stop,
      List.length_cons, inductionHypothesis]

/-! ## Reading items -/

variable {itl : ItemList}

/-- An item that does not begin with the byte for separators is found behind those in front of it,
and the next call goes on behind its end. -/
theorem itlNext_item (itl : ItemList) (before rest : List Byte) (count : Nat) (byte : Byte)
    (item : Text) (other : byte ≠ sepChar) (noNul : ∀ inside ∈ byte :: item, inside ≠ 0)
    (lies : itl.list = before ++ (List.replicate count sepChar ++ (byte :: item ++ 0 :: rest)))
    (here : itl.next = before.length) :
    itlNext itl = some (some (itl.next + count),
        { itl with next := itl.next + count + (byte :: item).length + 1 }) ∧
      stringAt itl.list (itl.next + count) = some (byte :: item) := by
  have real : byte ≠ 0 := noNul byte List.mem_cons_self
  have dropped : itl.list.drop itl.next =
      List.replicate count sepChar ++ (byte :: (item ++ 0 :: rest)) := by
    rw [lies, here, List.drop_left]
    rfl
  have skipped : scan (fun byte => byte = sepChar) (itl.list.drop itl.next) = some count := by
    rw [dropped]
    have stopped := scan_stop (fun byte => decide (byte = sepChar)) (List.replicate count sepChar)
      (item ++ 0 :: rest) byte (by simp [List.mem_replicate]) (by simpa using other)
    rwa [List.length_replicate] at stopped
  have moved : itl.list.drop (itl.next + count) = byte :: item ++ 0 :: rest := by
    rw [← List.drop_drop, dropped, List.drop_left' List.length_replicate]
    rfl
  have first : ∃ found, load itl.list itl.next = some found ∧ found ≠ 0 := by
    cases count with
    | zero => exact ⟨byte, by rw [lies]; exact load_append before _ byte _ here, real⟩
    | succ count =>
      exact ⟨sepChar, by rw [lies]; exact load_append before _ sepChar _ here, by decide⟩
  have start : load itl.list (itl.next + count : Nat) = some byte := by
    rw [lies, ← List.append_assoc]
    exact load_append _ _ byte _ (by simp [here])
  obtain ⟨found, loaded, some⟩ := first
  constructor
  · simp only [itlNext, loaded, Option.bind_eq_bind, Option.bind_some, some, if_false, skipped,
      start, real, false_and, strlen_text _ _ rest _ moved noNul]
  · exact stringAt_text _ _ rest _ moved noNul

/-- Behind the last item there is none, however often one is asked for. -/
theorem itlNext_end (itl : ItemList) (before rest : List Byte)
    (lies : itl.list = before ++ 0 :: rest) (here : itl.next = before.length) :
    itlNext itl = some (none, itl) := by
  have first : load itl.list itl.next = some 0 := by
    rw [lies]
    exact load_append before rest 0 _ here
  simp [itlNext, first]

/-- Separators up to a NUL are skipped. If a second NUL follows, nothing is left; otherwise the
empty string in front of the NUL is taken for an item. -/
theorem itlNext_skip (itl : ItemList) (before rest : List Byte) (count : Nat) (byte : Byte)
    (lies : itl.list = before ++ (List.replicate (count + 1) sepChar ++ 0 :: byte :: rest))
    (here : itl.next = before.length) :
    itlNext itl = some (if byte = 0 then (none, itl)
      else (some (itl.next + (count + 1)), { itl with next := itl.next + (count + 1) + 0 + 1 })) ∧
      stringAt itl.list (itl.next + (count + 1)) = some [] := by
  have first : load itl.list itl.next = some sepChar := by
    rw [lies]
    exact load_append before _ sepChar _ here
  have dropped : itl.list.drop itl.next =
      List.replicate (count + 1) sepChar ++ 0 :: byte :: rest := by
    rw [lies, here, List.drop_left]
  have skipped : scan (fun byte => byte = sepChar) (itl.list.drop itl.next) =
      some (count + 1) := by
    have stopped := scan_stop (fun byte => decide (byte = sepChar))
      (List.replicate (count + 1) sepChar) (byte :: rest) 0 (by simp [List.mem_replicate])
      (by decide)
    rwa [List.length_replicate, ← dropped] at stopped
  have moved : itl.list.drop (itl.next + (count + 1)) = [] ++ 0 :: byte :: rest := by
    rw [← List.drop_drop, dropped, List.drop_left' List.length_replicate]
    rfl
  have start : load itl.list (itl.next + (count + 1) : Nat) = some 0 := by
    rw [lies, ← List.append_assoc]
    exact load_append _ _ 0 _ (by simp [here])
  have behind : load itl.list (itl.next + (count + 1) + 1 : Nat) = some byte := by
    have split : itl.list =
        (before ++ (List.replicate (count + 1) sepChar ++ [0])) ++ byte :: rest := by
      simp [lies]
    rw [split]
    exact load_append _ _ byte _ (by simp [here]; omega)
  have different : sepChar ≠ 0 := by decide
  have length := strlen_text _ [] (byte :: rest) _ moved (by simp)
  constructor
  · simp only [itlNext, first, Option.bind_eq_bind, Option.bind_some, different, if_false, skipped,
      start, if_true, behind, true_and, length, List.length_nil]
    split <;> rfl
  · exact stringAt_text _ [] (byte :: rest) _ moved (by simp)

/-- The items from the next one on. -/
def itlRest (fuel : Nat) (itl : ItemList) : Option (List Text) := do
  let next ← itlNext itl
  itlLoop fuel next

/-- At the end there are no items left. -/
theorem itlRest_end {fuel : Nat} (next : itlNext itl = some (none, itl)) :
    itlRest fuel itl = some [] := by
  rw [itlRest, next, Option.bind_eq_bind, Option.bind_some]
  cases fuel <;> rfl

/-- An item that is found is delivered, and the rest is read from behind it. -/
theorem itlRest_item {fuel res : Nat} {item : Text} {itl' : ItemList}
    (next : itlNext itl = some (some res, itl')) (same : itl'.list = itl.list)
    (read : stringAt itl.list res = some item) :
    itlRest (fuel + 1) itl = (itlRest fuel itl').map (item :: ·) := by
  rw [itlRest, next, Option.bind_eq_bind, Option.bind_some, itlLoop, itlRest, same, read]
  cases itlNext itl' with
  | none => rfl
  | some next => cases later : itlLoop fuel next <;> simp [later]

/-- Only what stands at the place that was found can be delivered first. -/
theorem itlRest_other {fuel res : Nat} {item other : Text} {itl' : ItemList}
    (next : itlNext itl = some (some res, itl')) (same : itl'.list = itl.list)
    (read : stringAt itl.list res = some item) (different : item ≠ other) (later : List Text) :
    itlRest fuel itl ≠ some (other :: later) := by
  intro delivered
  cases fuel with
  | zero =>
    rw [itlRest, next, Option.bind_eq_bind, Option.bind_some, itlLoop] at delivered
    contradiction
  | succ fuel =>
    rw [itlRest_item next same read] at delivered
    obtain ⟨_, _, shown⟩ := Option.map_eq_some_iff.mp delivered
    exact different (List.cons.inj shown).1

/-- An item whose first byte looks like a replaced separator is not delivered: this byte is
skipped, and the item is delivered without it or not at all. -/
theorem itlRest_marked (before rest : List Byte) (count fuel number : Nat) (item : Text)
    (noNul : ∀ byte ∈ item, byte ≠ 0) (nonempty : rest ≠ []) (later : List Text) :
    itlRest fuel ⟨before ++ (List.replicate count sepChar ++ (sepChar :: item ++ 0 :: rest)),
      before.length, number⟩ ≠ some ((sepChar :: item) :: later) := by
  obtain ⟨skipped, left, rfl, marks, start⟩ : ∃ skipped left, item = skipped ++ left ∧
      skipped = List.replicate skipped.length sepChar ∧ left.head? ≠ some sepChar := by
    refine ⟨item.takeWhile (· = sepChar), item.dropWhile (· = sepChar),
      List.takeWhile_append_dropWhile.symm, ?_, ?_⟩
    · exact List.eq_replicate_of_mem fun byte member => by
        simpa using List.mem_takeWhile_imp member
    · intro first
      have refused := List.head?_dropWhile_not (fun byte => decide (byte = sepChar)) item
      rw [first] at refused
      simp at refused
  have all : List.replicate count sepChar ++ (sepChar :: (skipped ++ left) ++ 0 :: rest) =
      List.replicate (count + skipped.length + 1) sepChar ++ (left ++ 0 :: rest) := by
    rw [marks, List.length_replicate, List.cons_append, List.append_assoc, ← List.singleton_append,
      ← List.replicate_one, ← List.append_assoc, ← List.append_assoc, List.replicate_append_replicate,
      List.replicate_append_replicate]
    congr 2
    omega
  rw [all]
  cases left with
  | nil =>
    obtain ⟨byte, rest, rfl⟩ := List.exists_cons_of_ne_nil nonempty
    obtain ⟨next, read⟩ := itlNext_skip ⟨before ++ (List.replicate (count + skipped.length + 1)
      sepChar ++ ([] ++ 0 :: byte :: rest)), before.length, number⟩ before rest
      (count + skipped.length) byte rfl rfl
    by_cases last : byte = 0
    · rw [if_pos last] at next
      rw [itlRest_end next]
      simp
    · rw [if_neg last] at next
      exact itlRest_other next rfl read (by simp) later
  | cons byte left =>
    have other : byte ≠ sepChar := fun same => start (congrArg some same)
    obtain ⟨next, read⟩ := itlNext_item ⟨before ++ (List.replicate (count + skipped.length + 1)
      sepChar ++ (byte :: left ++ 0 :: rest)), before.length, number⟩ before rest
      (count + skipped.length + 1) byte left other
      (fun inside member => noNul inside (List.mem_append_right _ member)) rfl rfl
    exact itlRest_other next rfl read (fun same => other (List.cons.inj same).1) later

/-! ## Delivering the pieces -/

section Delivering

variable {gap item : Text} {fuel : Nat} (before : List Byte) (count : Nat)

/-- From separators alone nothing is read: they are skipped up to the two NUL bytes at the end. -/
theorem itlRest_nothing (separates : ∀ byte ∈ gap, isSep byte = true) :
    itlRest fuel ⟨before ++ ((cutItems isSep false gap).1 ++ [0, 0]), before.length, count⟩ =
      some [] := by
  rw [cutItems_nothing separates]
  cases gap with
  | nil => exact itlRest_end (itlNext_end _ before [0] rfl rfl)
  | cons byte gap =>
    have next := (itlNext_skip ⟨before ++ (List.replicate (byte :: gap).length sepChar ++ [0, 0]),
      before.length, count⟩ before [] gap.length 0 rfl rfl).1
    exact itlRest_end next

/-- The last item is read whole, and then the end is found. -/
theorem itlRest_last (separates : ∀ byte ∈ gap, isSep byte = true) (nonempty : item ≠ [])
    (whole : ∀ byte ∈ item, isSep byte = false) (noNul : ∀ byte ∈ item, byte ≠ 0)
    (plain : item.head? ≠ some sepChar) :
    itlRest (fuel + 1) ⟨before ++ ((cutItems isSep false (gap ++ item)).1 ++ [0, 0]),
      before.length, count⟩ = some [item] := by
  rw [cutItems_last separates nonempty whole, List.append_assoc]
  obtain ⟨byte, item, rfl⟩ := List.exists_cons_of_ne_nil nonempty
  have other : byte ≠ sepChar := fun same => plain (congrArg some same)
  obtain ⟨next, read⟩ := itlNext_item ⟨before ++ (List.replicate gap.length sepChar ++
    (byte :: item ++ [0, 0])), before.length, count⟩ before [0] gap.length byte item other noNul
    rfl rfl
  have done := itlNext_end ⟨before ++ (List.replicate gap.length sepChar ++
    (byte :: item ++ [0, 0])), before.length + gap.length + (byte :: item).length + 1, count⟩
    (before ++ (List.replicate gap.length sepChar ++ (byte :: item ++ [0]))) []
    (by simp) (by simp; omega)
  rw [itlRest_item next rfl read, itlRest_end done]
  rfl

/-- An item with a separator behind it is read whole, and the rest of the text is read as if it
stood alone. -/
theorem itlRest_more {separator : Byte} {text : Text} (separates : ∀ byte ∈ gap, isSep byte = true)
    (nonempty : item ≠ []) (whole : ∀ byte ∈ item, isSep byte = false)
    (stop : isSep separator = true) (noNul : ∀ byte ∈ item, byte ≠ 0)
    (plain : item.head? ≠ some sepChar) :
    itlRest (fuel + 1) ⟨before ++ ((cutItems isSep false
        (gap ++ (item ++ separator :: text))).1 ++ [0, 0]), before.length, count⟩ =
      (itlRest fuel ⟨(before ++ (List.replicate gap.length sepChar ++ (item ++ [0]))) ++
          ((cutItems isSep false text).1 ++ [0, 0]),
        (before ++ (List.replicate gap.length sepChar ++ (item ++ [0]))).length, count⟩).map
          (item :: ·) := by
  have list : before ++ ((cutItems isSep false (gap ++ (item ++ separator :: text))).1 ++ [0, 0]) =
      before ++ (List.replicate gap.length sepChar ++
        (item ++ 0 :: ((cutItems isSep false text).1 ++ [0, 0]))) := by
    rw [cutItems_more separates nonempty whole stop]
    simp
  have list' : (before ++ (List.replicate gap.length sepChar ++ (item ++ [0]))) ++
      ((cutItems isSep false text).1 ++ [0, 0]) =
        before ++ (List.replicate gap.length sepChar ++
          (item ++ 0 :: ((cutItems isSep false text).1 ++ [0, 0]))) := by
    simp
  have place : (before ++ (List.replicate gap.length sepChar ++ (item ++ [0]))).length =
      before.length + gap.length + item.length + 1 := by
    simp
    omega
  rw [list, list', place]
  obtain ⟨byte, item, rfl⟩ := List.exists_cons_of_ne_nil nonempty
  have other : byte ≠ sepChar := fun same => plain (congrArg some same)
  obtain ⟨next, read⟩ := itlNext_item ⟨before ++ (List.replicate gap.length sepChar ++
    (byte :: item ++ 0 :: ((cutItems isSep false text).1 ++ [0, 0]))), before.length, count⟩
    before ((cutItems isSep false text).1 ++ [0, 0]) gap.length byte item other noNul rfl rfl
  exact itlRest_item next rfl read

end Delivering

/-- Reading from a place on gives the runs of the text that was cut there, unless one of them
begins with the byte for separators. By induction over the pieces of the text, with the buffer in
front of the place and the fuel arbitrary. -/
theorem itlRest_cut (text before : List Byte) (count fuel : Nat) (noNul : ∀ byte ∈ text, byte ≠ 0)
    (enough : (runs isSep text).length ≤ fuel) :
    itlRest fuel ⟨before ++ ((cutItems isSep false text).1 ++ [0, 0]), before.length, count⟩ =
        some (runs isSep text) ↔
      ∀ run ∈ runs isSep text, run.head? ≠ some sepChar := by
  induction text using pieces_induction isSep generalizing before fuel with
  | nothing gap separates =>
    rw [itlRest_nothing before count separates, runs_nothing separates]
    simp
  | last gap item separates nonempty whole =>
    have noNul' : ∀ byte ∈ item, byte ≠ 0 := fun byte member =>
      noNul byte (List.mem_append_right _ member)
    rw [runs_last separates nonempty whole] at enough ⊢
    obtain ⟨fuel, rfl⟩ : ∃ less, fuel = less + 1 := ⟨fuel - 1, by simp at enough; omega⟩
    by_cases plain : item.head? = some sepChar
    · refine iff_of_false ?_ fun all => all item List.mem_cons_self plain
      obtain ⟨item, rfl⟩ := List.head?_eq_some_iff.mp plain
      rw [cutItems_last separates nonempty whole, List.append_assoc]
      exact itlRest_marked before [0] gap.length _ count item
        (fun byte member => noNul' byte (List.mem_cons_of_mem _ member)) (by simp) []
    · rw [itlRest_last before count separates nonempty whole noNul' plain]
      simp [plain]
  | more gap item separator text separates nonempty whole stop inductionHypothesis =>
    have noNul' : ∀ byte ∈ item, byte ≠ 0 := fun byte member =>
      noNul byte (List.mem_append_right _ (List.mem_append_left _ member))
    have noNul'' : ∀ byte ∈ text, byte ≠ 0 := fun byte member =>
      noNul byte (List.mem_append_right _ (List.mem_append_right _ (List.mem_cons_of_mem _ member)))
    rw [runs_more separates nonempty whole stop] at enough ⊢
    obtain ⟨fuel, rfl⟩ : ∃ less, fuel = less + 1 := ⟨fuel - 1, by simp at enough; omega⟩
    rw [List.length_cons] at enough
    by_cases plain : item.head? = some sepChar
    · refine iff_of_false ?_ fun all => all item List.mem_cons_self plain
      obtain ⟨item, rfl⟩ := List.head?_eq_some_iff.mp plain
      have list : before ++ ((cutItems isSep false
          (gap ++ (sepChar :: item ++ separator :: text))).1 ++ [0, 0]) =
            before ++ (List.replicate gap.length sepChar ++
              (sepChar :: item ++ 0 :: ((cutItems isSep false text).1 ++ [0, 0]))) := by
        rw [cutItems_more separates nonempty whole stop]
        simp
      rw [list]
      exact itlRest_marked before _ gap.length _ count item
        (fun byte member => noNul' byte (List.mem_cons_of_mem _ member)) (by simp) _
    · have later := inductionHypothesis
        (before ++ (List.replicate gap.length sepChar ++ (item ++ [0]))) fuel noNul'' (by omega)
      rw [itlRest_more before count separates nonempty whole stop noNul' plain,
        List.forall_mem_cons, ← later]
      simp [plain]

/-- Cutting replaces bytes and adds none. -/
theorem cutItems_length (isSep : Byte → Bool) (inItem : Bool) (text : List Byte) :
    (cutItems isSep inItem text).1.length = text.length := by
  induction text generalizing inItem with
  | nil => cases inItem <;> rfl
  | cons byte text inductionHypothesis =>
    cases inItem with
    | false =>
      rw [cutItems]
      split <;> simp [inductionHypothesis]
    | true =>
      rw [cutItems]
      split <;> simp [inductionHypothesis]

/-- A text has no more runs than bytes, so the fuel of the loop is enough. -/
theorem runs_length (isSep : Byte → Bool) (text : Text) :
    (runs isSep text).length ≤ text.length := by
  induction text using pieces_induction isSep with
  | nothing gap separates => simp [runs_nothing separates]
  | last gap item separates nonempty whole =>
    have some : 0 < item.length := List.length_pos_iff.mpr nonempty
    rw [runs_last separates nonempty whole, List.length_append]
    simp
    omega
  | more gap item separator text separates nonempty whole stop inductionHypothesis =>
    rw [runs_more separates nonempty whole stop]
    simp
    omega

/-- The count of a list of items is the number of its runs, also where not all of them are
delivered. -/
theorem newItl_count (list separators : Text) :
    (newItl list separators).count = (runs separators.contains list).length :=
  cutItems_count separators.contains list

/-- The runs are delivered exactly if none of them begins with the byte for a separator. -/
theorem newItl_items (list separators : Text) (noNul : ∀ byte ∈ list, byte ≠ 0) :
    itlItems (newItl list separators) = some (runs separators.contains list) ↔
      ∀ run ∈ runs separators.contains list, run.head? ≠ some sepChar := by
  have room : (runs separators.contains list).length ≤ (newItl list separators).list.length := by
    have fewer := runs_length separators.contains list
    simp only [newItl, List.length_append, cutItems_length]
    omega
  exact itlRest_cut list [] _ (newItl list separators).list.length noNul room

/-- No run of a text without this byte begins with it. This is how the other modules use lists of
items. -/
theorem newItl_plain (list separators : Text) (noNul : ∀ byte ∈ list, byte ≠ 0)
    (noSep : ∀ byte ∈ list, byte ≠ sepChar) :
    itlItems (newItl list separators) = some (runs separators.contains list) := by
  apply (newItl_items list separators noNul).mpr
  intro run member first
  exact noSep sepChar (runs_bytes list run member sepChar (List.mem_of_mem_head? first)) rfl

/-- A list of items delivers the pieces between separators exactly if none of them begins with the
byte that the list itself uses for a separator, and it always counts them.

Cutting is a pass over the text with one bit of state, reading is a walk over the buffer that was
cut. Both follow the same decomposition of the text into gaps and items (`pieces_induction`), at
each step of which one lemma says what cutting leaves and another what reading finds there. -/
theorem itlItems_runs_iff (list separators : Text) (noNul : ∀ byte ∈ list, byte ≠ 0) :
    (itlItems (newItl list separators) = some (runs separators.contains list) ↔
      ∀ run ∈ runs separators.contains list, run.head? ≠ some sepChar) ∧
    (newItl list separators).count = (runs separators.contains list).length :=
  ⟨newItl_items list separators noNul, newItl_count list separators⟩

/-- A group name behind a separator and one that begins with the byte of a separator: only one
of them is delivered, and two are counted. -/
theorem itlItems_runs_marked :
    (itlItems (newItl (latin1 " de.a,\x01") (latin1 " ,")) =
        some (runs (latin1 " ,").contains (latin1 " de.a,\x01")) ↔
      ∀ run ∈ runs (latin1 " ,").contains (latin1 " de.a,\x01"), run.head? ≠ some sepChar) ∧
    (newItl (latin1 " de.a,\x01") (latin1 " ,")).count =
      (runs (latin1 " ,").contains (latin1 " de.a,\x01")).length :=
  itlItems_runs_iff _ _ (by decide)

example : itlItems (newItl (latin1 " de.a,\x01") (latin1 " ,")) = some [latin1 "de.a"] := by decide

end Schnitzeljagd.News
