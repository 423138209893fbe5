import Schnitzeljagd.News.Overview
import Mathlib.Data.List.ReduceOption
import Mathlib.Logic.Function.Iterate

/-!
# The overviews of a group

`content.c` keeps the overviews of one group in an array with one place for every article
number, and reads and writes them as the overview file of the group. Files are opened and
written without errors, memory is not exhausted, and what lies outside the array counts as a
null pointer.
-/

namespace Schnitzeljagd.News

open Foundations.CArithmetic Foundations.CString Foundations.PerlText

/-- `struct cont` without the file names: the number of the first place, the first and the last
number, and the places with overviews or without. -/
structure Cont where
  vecFirst : Int
  first : Int
  last : Int
  elem : List (Option Over)

/-- `Cont_app`, which puts an overview or a null pointer behind the last place and gives it the
next number. -/
def Cont.app (cont : Cont) (ov : Option Over) : Cont :=
  { cont with
    elem := cont.elem ++ [ov.map fun overview => overview.setNumb (cont.vecFirst + cont.elem.length)]
    last := cont.vecFirst + (cont.elem.length + 1) - 1 }

/-- `cont.elem[ n - cont.vecFirst ]`, the place of a number. Outside of the array there is
nothing. -/
def Cont.entry (cont : Cont) (n : Int) : Option Over :=
  if n < cont.vecFirst then none else (cont.elem[(n - cont.vecFirst).toNat]?).join

/-- `Cont_validNumb`: the number is in range and there is an overview in its place. -/
def Cont.validNumb (cont : Cont) (n : Int) : Bool :=
  n ≠ 0 && cont.first ≤ n && n ≤ cont.last && (cont.entry n).isSome

/-- `Cont_get`, the null pointer for a number out of range and for an empty place. -/
def Cont.get (cont : Cont) (numb : Int) : Option Over :=
  if cont.validNumb numb then cont.entry numb else none

/-- `Cont_delete`, which leaves the place empty and changes no number. -/
def Cont.delete (cont : Cont) (n : Int) : Cont :=
  if cont.validNumb n then
    { cont with elem := cont.elem.set (n - cont.vecFirst).toNat none }
  else cont

/-- `setupEmpty`, which begins behind the last number of the group so that no number is given
again. -/
def setupEmpty (grpLast : Int) (cont : Cont) : Cont :=
  { cont with last := grpLast, first := grpLast + 1, vecFirst := grpLast + 1 }

/-- `extendCont`, which appends empty places up to a number of them, and removes none. -/
def extendCont (cnt : Int) (cont : Cont) : Cont :=
  (fun cont => cont.app none)^[(cnt - cont.elem.length).toNat] cont

/-- The buffers that `fgets` fills from a file. A line that is too long comes in several. -/
def bufferLines (file : List Byte) : List (List Byte) :=
  match _read : fgets maxChar file with
  | none => []
  | some (buffer, rest) => buffer :: bufferLines rest
termination_by file.length
decreasing_by
  rw [fgets] at _read
  split at _read
  · contradiction
  · next some =>
    have whole := takeLine_length (maxChar - 1) file
    have positive := takeLine_nonempty (maxChar - 1) (by decide) file some
    obtain rfl := (Prod.mk.inj (Option.some.inj _read)).2
    omega

/-- One turn of the loop of `Cont_read`. A line that cannot be read, or comes too early, is passed
over; gaps between numbers become empty places. -/
def readOverview (cont : Cont) (buffer : List Byte) : Option Cont := do
  match ← ovRead (untilNul buffer) with
  | none => some cont
  | some ov =>
    if ov.numb < cont.first then some cont
    else
      let cont := if cont.first = 0 then { cont with first := ov.numb, vecFirst := ov.numb }
        else cont
      let cont := extendCont (ov.numb - cont.first + 1) { cont with last := ov.numb }
      some { cont with elem := cont.elem.set (ov.numb - cont.first).toNat (some ov) }

/-- `Cont_read`, given the overview file and what `Grp_last` says. A last number that is too small
is corrected at the end by empty places. -/
def contRead (file : Option (List Byte)) (grpLast : Int) : Option Cont :=
  match file with
  | none => some (setupEmpty grpLast ⟨0, 0, 0, []⟩)
  | some text => do
    let cont ← (bufferLines text).foldlM readOverview ⟨0, 0, 0, []⟩
    if cont.first = 0 then some (setupEmpty grpLast cont)
    else if cont.last < grpLast then some (extendCont (grpLast - cont.first + 1) cont)
    else some cont

/-- `Pseudo_isGeneralInfo`, which looks for a word anywhere in the identifier. -/
def isGeneralInfo (msgId : Text) : Bool := latin1 "NOFFLE-GENERAL-INFO" <:+: msgId

/-- `Cont_write` writes this overview. The general information is left out unless an article
stands right behind it. -/
def Cont.writes (cont : Cont) (i : Nat) (ov : Over) : Bool :=
  !isGeneralInfo ov.msgId ||
    match (cont.elem[i + 1]?).join with
    | some next => next.numb - ov.numb = 1
    | none => false

/-- What the loop of `Cont_write` has done: the text of the file, `anythingWritten`, and
`cont.first`. -/
structure Writing where
  text : List Byte
  anythingWritten : Bool
  first : Int

/-- One turn of the loop of `Cont_write`. The first overview that is written sets the first
number. -/
def writeOverview (cont : Cont) (done : Writing) (i : Nat) : Writing :=
  match (cont.elem[i]?).join with
  | some ov =>
    if cont.writes i ov then
      ⟨done.text ++ ovWrite ov, true, if done.first < 0 then cont.vecFirst + i else done.first⟩
    else done
  | none => done

/-- `Cont_write`: the overview file, which is removed if nothing was written. The content gets the
first number that was written. -/
def contWrite (cont : Cont) : Option (List Byte) × Cont :=
  let done := (List.range cont.elem.length).foldl (writeOverview cont) ⟨[], false, -1⟩
  if done.anythingWritten then (some done.text, { cont with first := done.first })
  else (none, { cont with first := cont.last + 1 })

/-! ## Appending and deleting -/

/-- The overviews that are there, in the order of their places. -/
def Cont.articles (cont : Cont) : List Over := cont.elem.reduceOption

/-- Every overview is in the place of its number, and the places end with the last number. -/
structure Cont.Sound (cont : Cont) : Prop where
  positive : 0 < cont.vecFirst
  begins : cont.vecFirst ≤ cont.first
  reach : cont.first ≤ cont.last + 1
  ends : cont.last = cont.vecFirst + cont.elem.length - 1
  numbered : ∀ (i : Nat) (ov : Over), cont.elem[i]? = some (some ov) → ov.numb = cont.vecFirst + i
  covered : ∀ ov ∈ cont.articles, cont.first ≤ ov.numb

variable {cont : Cont}

/-- What is in the place of a number is the overview with this number. -/
theorem Cont.Sound.entry (sound : cont.Sound) (n : Int) (ov : Over) :
    cont.entry n = some ov ↔ ov ∈ cont.articles ∧ ov.numb = n := by
  constructor
  · intro stored
    rw [Cont.entry] at stored
    split at stored
    · contradiction
    · next inside =>
      have place := Option.join_eq_some_iff.mp stored
      have number := sound.numbered _ ov place
      exact ⟨List.reduceOption_mem_iff.mpr (List.mem_of_getElem? place), by omega⟩
  · rintro ⟨member, rfl⟩
    obtain ⟨i, place⟩ := List.mem_iff_getElem?.mp (List.reduceOption_mem_iff.mp member)
    have number := sound.numbered i ov place
    have index : (ov.numb - cont.vecFirst).toNat = i := by omega
    rw [Cont.entry, if_neg (by omega), index, place]
    rfl

/-- No overview is behind the last number, so that the next number is free. -/
theorem Cont.Sound.below (sound : cont.Sound) {ov : Over} (member : ov ∈ cont.articles) :
    ov.numb ≤ cont.last := by
  obtain ⟨i, place⟩ := List.mem_iff_getElem?.mp (List.reduceOption_mem_iff.mp member)
  have number := sound.numbered i ov place
  have inside : i < cont.elem.length := (List.getElem?_eq_some_iff.mp place).1
  have ends := sound.ends
  omega

/-- An article number is valid exactly if there is an overview with it. -/
theorem Cont.Sound.validNumb (sound : cont.Sound) (n : Int) :
    cont.validNumb n = true ↔ ∃ ov ∈ cont.articles, ov.numb = n := by
  simp only [Cont.validNumb, Bool.and_eq_true, decide_eq_true_eq, Option.isSome_iff_exists,
    sound.entry]
  constructor
  · rintro ⟨-, ov, member, same⟩
    exact ⟨ov, member, same⟩
  · rintro ⟨ov, member, rfl⟩
    have above := sound.covered ov member
    have positive := sound.positive
    have begins := sound.begins
    exact ⟨⟨⟨by omega, above⟩, sound.below member⟩, ov, member, rfl⟩

/-- Asking for a number gives the overview with this number, and no other. -/
theorem Cont.Sound.get (sound : cont.Sound) (n : Int) (ov : Over) :
    cont.get n = some ov ↔ ov ∈ cont.articles ∧ ov.numb = n := by
  rw [← sound.entry, Cont.get]
  constructor
  · intro got
    split at got
    · exact got
    · contradiction
  · intro stored
    obtain ⟨member, same⟩ := (sound.entry n ov).mp stored
    rw [if_pos ((sound.validNumb n).mpr ⟨ov, member, same⟩), stored]

/-- One place more at the end, whatever is in it. The last number grows with it. -/
def Cont.place (cont : Cont) (slot : Option Over) : Cont :=
  { cont with elem := cont.elem ++ [slot], last := cont.last + 1 }

/-- An overview in the new place comes last, and an empty place adds none. -/
theorem Cont.place_articles (cont : Cont) (slot : Option Over) :
    (cont.place slot).articles = cont.articles ++ slot.toList := by
  rw [Cont.articles, Cont.place, List.reduceOption_append]
  cases slot <;> rfl

/-- A new place keeps everything in order if its overview has the next number. -/
theorem Cont.Sound.place (sound : cont.Sound) (slot : Option Over)
    (number : ∀ ov, slot = some ov → ov.numb = cont.last + 1) : (cont.place slot).Sound := by
  obtain ⟨positive, begins, reach, ends, numbered, covered⟩ := sound
  refine ⟨positive, begins, ?_, ?_, ?_, ?_⟩
  · show cont.first ≤ cont.last + 1 + 1
    omega
  · show cont.last + 1 = cont.vecFirst + (cont.elem ++ [slot]).length - 1
    rw [List.length_append, List.length_singleton]
    omega
  · intro i ov stored
    rw [Cont.place, List.getElem?_append] at stored
    split at stored
    · exact numbered i ov stored
    · next behind =>
      obtain ⟨inside, same⟩ := List.getElem?_eq_some_iff.mp stored
      rw [List.length_singleton] at inside
      rw [List.getElem_singleton] at same
      rw [number ov same]
      show cont.last + 1 = cont.vecFirst + i
      omega
  · intro ov member
    rw [Cont.place_articles, List.mem_append, Option.mem_toList] at member
    rcases member with old | new
    · exact covered ov old
    · rw [number ov new]
      exact reach

/-- Appending gives an article the next number, so it is adding a place with that article in it.
-/
theorem Cont.Sound.app_place (sound : cont.Sound) (ov : Option Over) :
    cont.app ov = cont.place (ov.map fun overview => overview.setNumb (cont.last + 1)) := by
  have ends := sound.ends
  have next : cont.vecFirst + cont.elem.length = cont.last + 1 := by omega
  rw [Cont.app, Cont.place, next]
  congr 1
  omega

/-- Appending keeps everything in order, for a null pointer as well as for an overview. -/
theorem Cont.Sound.app (sound : cont.Sound) (ov : Option Over) : (cont.app ov).Sound := by
  rw [sound.app_place]
  apply sound.place
  intro overview same
  obtain ⟨other, -, rfl⟩ := Option.map_eq_some_iff.mp same
  rfl

/-- Appending null pointers, any number of them, adds no overview. -/
theorem Cont.Sound.app_nulls (sound : cont.Sound) (count : Nat) :
    let extended := (fun cont => Cont.app cont none)^[count] cont
    extended.Sound ∧ extended.articles = cont.articles ∧ extended.vecFirst = cont.vecFirst ∧
      extended.first = cont.first ∧ extended.last = cont.last + count := by
  induction count with
  | zero => exact ⟨sound, rfl, rfl, rfl, (Int.add_zero _).symm⟩
  | succ count inductionHypothesis =>
    obtain ⟨sound', articles, vecFirst, first, last⟩ := inductionHypothesis
    simp only [Function.iterate_succ_apply', sound'.app_place]
    refine ⟨sound'.place _ (by simp), ?_, vecFirst, first, ?_⟩
    · rw [Cont.place_articles, articles]
      exact List.append_nil _
    · show ((fun cont => Cont.app cont none)^[count] cont).last + 1 = _
      rw [last]
      omega

/-- Places for numbers without an article. -/
theorem Cont.Sound.extend (sound : cont.Sound) (cnt : Int) :
    (extendCont cnt cont).Sound ∧ (extendCont cnt cont).articles = cont.articles ∧
      (extendCont cnt cont).vecFirst = cont.vecFirst ∧ (extendCont cnt cont).first = cont.first ∧
      (extendCont cnt cont).last = max cont.last (cont.vecFirst + cnt - 1) := by
  obtain ⟨sound', articles, vecFirst, first, last⟩ :=
    sound.app_nulls (cnt - cont.elem.length).toNat
  have ends := sound.ends
  refine ⟨sound', articles, vecFirst, first, last.trans ?_⟩
  omega

/-- What is among the overviews of the first places has its place there. -/
theorem mem_reduceOption_take {list : List (Option Over)} {ov : Over} {i : Nat}
    (member : ov ∈ (list.take i).reduceOption) : ∃ j < i, list[j]? = some (some ov) := by
  obtain ⟨j, stored⟩ := List.mem_iff_getElem?.mp (List.reduceOption_mem_iff.mp member)
  rw [List.getElem?_take] at stored
  split at stored
  · exact ⟨j, ‹_›, stored⟩
  · contradiction

/-- What is among the overviews of the other places has its place behind the first ones. -/
theorem mem_reduceOption_drop {list : List (Option Over)} {ov : Over} {i : Nat}
    (member : ov ∈ (list.drop i).reduceOption) : ∃ j ≥ i, list[j]? = some (some ov) := by
  obtain ⟨j, stored⟩ := List.mem_iff_getElem?.mp (List.reduceOption_mem_iff.mp member)
  rw [List.getElem?_drop] at stored
  exact ⟨i + j, Nat.le_add_right i j, stored⟩

/-- Deleting an article takes it out and leaves the others their numbers. The last number stays,
even if it was that of this article.

The number says in which place the article is, and every other article is in the place of another
number. A number without an article deletes nothing. -/
theorem Cont.Sound.delete (sound : cont.Sound) (n : Int) :
    (cont.delete n).Sound ∧ (cont.delete n).last = cont.last ∧
      (cont.delete n).articles = cont.articles.filter fun ov => ov.numb ≠ n := by
  by_cases valid : cont.validNumb n = true
  · obtain ⟨ov, member, rfl⟩ := (sound.validNumb n).mp valid
    obtain ⟨i, stored⟩ := List.mem_iff_getElem?.mp (List.reduceOption_mem_iff.mp member)
    have number := sound.numbered i ov stored
    have index : (ov.numb - cont.vecFirst).toNat = i := by omega
    obtain ⟨inside, value⟩ := List.getElem?_eq_some_iff.mp stored
    have split : cont.elem = cont.elem.take i ++ some ov :: cont.elem.drop (i + 1) := by
      rw [← value, List.getElem_cons_drop, List.take_append_drop]
    have others : ∀ other ∈ (cont.elem.take i).reduceOption ++
        (cont.elem.drop (i + 1)).reduceOption, other.numb ≠ ov.numb := by
      intro other member
      rcases List.mem_append.mp member with before | behind
      · obtain ⟨j, less, stored'⟩ := mem_reduceOption_take before
        have number' := sound.numbered j other stored'
        omega
      · obtain ⟨j, more, stored'⟩ := mem_reduceOption_drop behind
        have number' := sound.numbered j other stored'
        omega
    have shape : cont.delete ov.numb = { cont with elem := cont.elem.set i none } := by
      rw [Cont.delete, if_pos valid, index]
    have articles : (cont.elem.set i none).reduceOption =
        cont.articles.filter fun other => other.numb ≠ ov.numb := by
      rw [Cont.articles, List.set_eq_take_append_cons_drop, if_pos inside,
        List.reduceOption_append, List.reduceOption_cons_of_none]
      conv => rhs; rw [split, List.reduceOption_append, List.reduceOption_cons_of_some]
      rw [List.filter_append, List.filter_cons_of_neg (by simp), ← List.filter_append,
        List.filter_eq_self.mpr fun other member => by simpa using others other member]
    rw [shape]
    refine ⟨⟨sound.positive, sound.begins, sound.reach, ?_, ?_, ?_⟩, rfl, articles⟩
    · show cont.last = cont.vecFirst + (cont.elem.set i none).length - 1
      rw [List.length_set]
      exact sound.ends
    · intro j other stored'
      rw [List.getElem?_set] at stored'
      split at stored'
      · simp at stored'
      · exact sound.numbered j other stored'
    · intro other member'
      rw [Cont.articles, articles] at member'
      exact sound.covered other (List.mem_of_mem_filter member')
  · have nothing : cont.delete n = cont := if_neg valid
    have absent : ∀ ov ∈ cont.articles, ov.numb ≠ n := fun ov member same =>
      valid ((sound.validNumb n).mpr ⟨ov, member, same⟩)
    rw [nothing, List.filter_eq_self.mpr fun ov member => by simpa using absent ov member]
    exact ⟨sound, rfl, rfl⟩

/-! ## Reading -/

/-- Lines that fit are read one by one. -/
theorem bufferLines_lines (lines : List Text)
    (whole : ∀ line ∈ lines, (∃ text, line = text ++ [newline] ∧ newline ∉ text) ∧
      line.length < maxChar) : bufferLines lines.flatten = lines := by
  induction lines with
  | nil =>
    rw [bufferLines]
    rfl
  | cons line lines inductionHypothesis =>
    obtain ⟨⟨⟨text, rfl, oneLine⟩, short⟩, others⟩ := List.forall_mem_cons.mp whole
    rw [List.length_append, List.length_singleton] at short
    have read : fgets maxChar ((text ++ [newline]) ++ lines.flatten) =
        some (text ++ [newline], lines.flatten) := by
      rw [fgets, if_neg (by simp), List.append_assoc, List.singleton_append,
        takeLine_line _ text _ oneLine (by omega)]
    rw [List.flatten_cons, bufferLines]
    split
    · simp_all
    · next buffer rest same =>
      rw [read, Option.some.injEq, Prod.mk.injEq] at same
      rw [← same.1, ← same.2, inductionHypothesis others]

/-- The lines of the overview file are those of the articles, one for each. -/
theorem bufferLines_ovWrite (articles : List Over) (storable : ∀ ov ∈ articles, ov.Storable) :
    bufferLines (articles.flatMap ovWrite) = articles.map ovWrite := by
  rw [List.flatMap_def]
  apply bufferLines_lines
  intro line member
  obtain ⟨ov, stored, rfl⟩ := List.mem_map.mp member
  obtain ⟨text, same, oneLine, -⟩ := ovWrite_line ov (storable ov stored)
  exact ⟨⟨text, same, oneLine⟩, (storable ov stored).short⟩

/-- What is written for an overview has no NUL in it. -/
theorem untilNul_ovWrite (ov : Over) (storable : ov.Storable) :
    untilNul (ovWrite ov) = ovWrite ov := by
  obtain ⟨text, same, -, noNul⟩ := ovWrite_line ov storable
  apply untilNul_clean_text
  rw [same, List.mem_append, not_or]
  exact ⟨noNul, by decide⟩

/-- The first line of a file sets the first number. -/
theorem readOverview_first (ov : Over) (positive : 0 < ov.numb) (storable : ov.Storable) :
    readOverview ⟨0, 0, 0, []⟩ (ovWrite ov) = some ⟨ov.numb, ov.numb, ov.numb, [some ov]⟩ := by
  have one : (ov.numb - ov.numb + 1 - (([] : List (Option Over)).length : Int)).toNat = 1 := by
    simp
  simp only [readOverview, untilNul_ovWrite ov storable, ovRead_ovWrite ov storable,
    Option.bind_eq_bind, Option.bind_some, if_true, if_neg (show ¬ ov.numb < 0 by omega),
    extendCont, one, Function.iterate_one]
  simp [Cont.app]

/-- An article with a higher number than those before is put behind them, with empty places for
the numbers in between.

Extending the content up to the number adds one place for each number that is skipped and one for
the article, and the overview is put into the last of them. -/
theorem readOverview_next (sound : cont.Sound) (start : cont.first = cont.vecFirst) (ov : Over)
    (storable : ov.Storable) (above : cont.last < ov.numb) :
    ∃ next, readOverview cont (ovWrite ov) = some next ∧ next.Sound ∧
      next.articles = cont.articles ++ [ov] ∧ next.vecFirst = cont.vecFirst ∧
      next.first = cont.first ∧ next.last = ov.numb := by
  have positive := sound.positive
  have ends := sound.ends
  have reach := sound.reach
  obtain ⟨gap, far⟩ : ∃ gap : Nat, ov.numb = cont.last + gap + 1 :=
    ⟨(ov.numb - cont.last - 1).toNat, by omega⟩
  obtain ⟨sound', articles, vecFirst, first, last⟩ := sound.app_nulls gap
  generalize base : (fun cont => Cont.app cont none)^[gap] cont = behind at *
  have ends' := sound'.ends
  have count : (ov.numb - cont.first + 1 - cont.elem.length).toNat = gap + 1 := by omega
  -- Appending nothing does not look at the last number, which has been set already.
  have extended : extendCont (ov.numb - cont.first + 1) { cont with last := ov.numb } =
      behind.place none := by
    calc extendCont (ov.numb - cont.first + 1) { cont with last := ov.numb }
        = (fun cont => Cont.app cont none)^[gap + 1] { cont with last := ov.numb } := by
          rw [← count]
          rfl
      _ = (fun cont => Cont.app cont none)^[gap + 1] cont := by
          rw [Function.iterate_succ_apply, Function.iterate_succ_apply]
          rfl
      _ = behind.app none := by rw [Function.iterate_succ_apply', base]
      _ = behind.place none := sound'.app_place none
  have index : (ov.numb - behind.first).toNat = behind.elem.length := by omega
  have stored : (behind.elem ++ [none]).set behind.elem.length (some ov) =
      behind.elem ++ [some ov] := by
    simp
  refine ⟨behind.place (some ov), ?_, ?_, ?_, vecFirst, first, ?_⟩
  · simp only [readOverview, untilNul_ovWrite ov storable, ovRead_ovWrite ov storable,
      Option.bind_eq_bind, Option.bind_some, if_neg (show ¬ ov.numb < cont.first by omega),
      if_neg (show ¬ cont.first = 0 by omega), extended]
    show some { behind.place none with
      elem := (behind.elem ++ [none]).set (ov.numb - behind.first).toNat (some ov) } = _
    rw [index, stored]
    rfl
  · apply sound'.place
    intro other same
    obtain rfl := Option.some.inj same
    omega
  · rw [Cont.place_articles, articles]
    rfl
  · show behind.last + 1 = ov.numb
    omega

/-- Overviews in the order of their numbers, which are positive. -/
def Ascending (articles : List Over) : Prop :=
  (articles.Pairwise fun ov next => ov.numb < next.numb) ∧ ∀ ov ∈ articles, 0 < ov.numb

/-- The number of the last article, or another number. -/
def lastNumb (articles : List Over) (otherwise : Int) : Int :=
  (articles.getLast?.map Over.numb).getD otherwise

/-- Reading the lines of articles in order, one after the other, gives these articles.

By induction from the back. The first line sets the number of the first place, and every later one
has a higher number than those before it. -/
theorem readOverview_all (ov : Over) (articles : List Over) (ascending : Ascending (ov :: articles))
    (storable : ∀ ov' ∈ ov :: articles, ov'.Storable) :
    ∃ cont, ((ov :: articles).map ovWrite).foldlM readOverview ⟨0, 0, 0, []⟩ = some cont ∧
      cont.Sound ∧ cont.articles = ov :: articles ∧ cont.first = cont.vecFirst ∧
      cont.first = ov.numb ∧ cont.last = lastNumb (ov :: articles) 0 := by
  induction articles using List.reverseRecOn with
  | nil =>
    have positive := ascending.2 ov List.mem_cons_self
    refine ⟨⟨ov.numb, ov.numb, ov.numb, [some ov]⟩, ?_, ⟨positive, Int.le_refl _, ?_, ?_, ?_, ?_⟩,
      rfl, rfl, rfl, rfl⟩
    · rw [List.map_singleton, List.foldlM_cons,
        readOverview_first ov positive (storable ov List.mem_cons_self)]
      rfl
    · show ov.numb ≤ ov.numb + 1
      omega
    · show ov.numb = ov.numb + 1 - 1
      omega
    · intro i other stored
      obtain ⟨inside, same⟩ := List.getElem?_eq_some_iff.mp stored
      rw [List.length_singleton] at inside
      rw [List.getElem_singleton] at same
      obtain rfl := Option.some.inj same
      show ov.numb = ov.numb + i
      omega
    · intro other member
      obtain rfl := List.mem_singleton.mp member
      exact Int.le_refl _
  | append_singleton articles last inductionHypothesis =>
    rw [← List.cons_append] at ascending storable ⊢
    obtain ⟨ordered, positive⟩ := ascending
    obtain ⟨ordered', -, above⟩ := List.pairwise_append.mp ordered
    obtain ⟨cont, read, sound, articles', start, first, end'⟩ := inductionHypothesis
      ⟨ordered', fun other member => positive other (List.mem_append_left _ member)⟩
      (fun other member => storable other (List.mem_append_left _ member))
    have below : cont.last < last.numb := by
      rw [end', lastNumb, List.getLast?_eq_some_getLast (List.cons_ne_nil ov articles)]
      exact above _ (List.getLast_mem _) last (by simp)
    obtain ⟨next, read', sound', articles'', vecFirst, first', last'⟩ :=
      readOverview_next sound start last (storable last (by simp)) below
    refine ⟨next, ?_, sound', ?_, ?_, first'.trans first, ?_⟩
    · rw [List.map_append, List.foldlM_append, read]
      simp only [List.map_singleton, Option.bind_eq_bind, Option.bind_some, List.foldlM_cons, read',
        List.foldlM_nil]
      rfl
    · rw [articles'', articles']
    · rw [first', start, vecFirst]
    · rw [last', lastNumb, List.getLast?_append]
      rfl

/-- The overview file of these articles: none if there are none. -/
def overviewFile (articles : List Over) : Option (List Byte) :=
  if articles = [] then none else some (articles.flatMap ovWrite)

/-- Reading the overview file of articles in order gives these articles, with their first number
and the last number of the group. -/
theorem contRead_overviewFile (articles : List Over) (ascending : Ascending articles)
    (storable : ∀ ov ∈ articles, ov.Storable) (grpLast : Int) (real : 0 ≤ grpLast)
    (reach : ∀ ov ∈ articles, ov.numb ≤ grpLast) :
    ∃ cont, contRead (overviewFile articles) grpLast = some cont ∧ cont.Sound ∧
      cont.articles = articles ∧ cont.last = grpLast ∧
      cont.first = ((articles.head?.map Over.numb).getD (grpLast + 1)) := by
  cases articles with
  | nil =>
    refine ⟨_, rfl, ⟨?_, Int.le_refl _, Int.le_refl _, ?_, by simp [setupEmpty], ?_⟩, rfl, rfl, rfl⟩
    · show 0 < grpLast + 1
      omega
    · show grpLast = grpLast + 1 + 0 - 1
      omega
    · intro ov member
      contradiction
  | cons ov articles =>
    obtain ⟨cont, read, sound, articles', start, first, end'⟩ :=
      readOverview_all ov articles ascending storable
    have positive := sound.positive
    have below : cont.last ≤ grpLast := by
      rw [end', lastNumb, List.getLast?_eq_some_getLast (List.cons_ne_nil ov articles)]
      exact reach _ (List.getLast_mem _)
    have file : overviewFile (ov :: articles) = some ((ov :: articles).flatMap ovWrite) := rfl
    rw [file, contRead]
    simp only [bufferLines_ovWrite _ storable, read, Option.bind_eq_bind, Option.bind_some,
      if_neg (show ¬ cont.first = 0 by omega)]
    by_cases short : cont.last < grpLast
    · obtain ⟨sound', articles'', -, first', last'⟩ := sound.extend (grpLast - cont.first + 1)
      refine ⟨_, if_pos short, sound', articles''.trans articles', ?_, first'.trans first⟩
      omega
    · exact ⟨cont, if_neg short, sound, articles', by omega, first⟩

/-! ## Writing -/

/-- What the loop of `Cont_write` has written after so many places: the overviews in them, since
none is the general information. -/
theorem writeOverview_places (sound : cont.Sound)
    (ordinary : ∀ ov ∈ cont.articles, isGeneralInfo ov.msgId = false) (places : Nat)
    (inside : places ≤ cont.elem.length) :
    (List.range places).foldl (writeOverview cont) ⟨[], false, -1⟩ =
      ⟨(cont.elem.take places).reduceOption.flatMap ovWrite,
        decide ((cont.elem.take places).reduceOption ≠ []),
        ((cont.elem.take places).reduceOption.head?.map Over.numb).getD (-1)⟩ := by
  induction places with
  | zero => rfl
  | succ places inductionHypothesis =>
    have here : cont.elem[places]? = some cont.elem[places] := List.getElem?_eq_getElem inside
    rw [List.range_succ, List.foldl_append, inductionHypothesis (Nat.le_of_succ_le inside),
      List.foldl_cons, List.foldl_nil, List.take_add_one, here, Option.toList_some,
      List.reduceOption_append]
    cases stored : cont.elem[places] with
    | none => simp [writeOverview, here, stored]
    | some ov =>
      rw [stored] at here
      have member : ov ∈ cont.articles :=
        List.reduceOption_mem_iff.mpr (List.mem_of_getElem? here)
      have number := sound.numbered places ov here
      have written : cont.writes places ov = true := by simp [Cont.writes, ordinary ov member]
      have single : [some ov].reduceOption = [ov] := rfl
      rw [writeOverview, here, single]
      simp only [Option.join_some, written, if_true, List.flatMap_append, List.flatMap_singleton]
      cases before : (cont.elem.take places).reduceOption with
      | nil => simp [number]
      | cons first others =>
        obtain ⟨j, -, stored'⟩ := mem_reduceOption_take (before ▸ List.mem_cons_self)
        have number' := sound.numbered j first stored'
        have positive := sound.positive
        simp [show ¬ first.numb < 0 by omega]

/-- Writing the overviews that are there makes their overview file, and sets the first number to
that of the first one. -/
theorem contWrite_articles (sound : cont.Sound)
    (ordinary : ∀ ov ∈ cont.articles, isGeneralInfo ov.msgId = false) :
    (contWrite cont).1 = overviewFile cont.articles ∧ (contWrite cont).2.last = cont.last ∧
      (contWrite cont).2.first = ((cont.articles.head?.map Over.numb).getD (cont.last + 1)) := by
  have written := writeOverview_places sound ordinary cont.elem.length (Nat.le_refl _)
  rw [List.take_length] at written
  rw [contWrite, Cont.articles]
  simp only [written, overviewFile]
  cases cont.elem.reduceOption with
  | nil => simp
  | cons ov articles => simp

/-- Overviews in their places are in the order of their numbers, which is what reading a file
needs. -/
theorem Cont.Sound.ascending (sound : cont.Sound) : Ascending cont.articles := by
  constructor
  · rw [Cont.articles, List.reduceOption, List.pairwise_filterMap, List.pairwise_iff_getElem]
    intro i j inside inside' before ov same ov' same'
    have number := sound.numbered i ov (by rw [List.getElem?_eq_getElem inside]; exact congrArg _ same)
    have number' := sound.numbered j ov'
      (by rw [List.getElem?_eq_getElem inside']; exact congrArg _ same')
    omega
  · intro ov member
    have covered := sound.covered ov member
    have begins := sound.begins
    have positive := sound.positive
    omega

end Schnitzeljagd.News
