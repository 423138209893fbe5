import Mathlib.Algebra.GroupWithZero.Nat
import Mathlib.Data.List.Count
import Mathlib.Logic.Function.Basic
import Mathlib.Order.Monotone.Basic

/-!
# Distribution into buckets that share one array

Every bucket has a region of the array, as long as the number of its entries. A mark for
each bucket starts at the end of its region and goes down by one with every entry that is
placed. Taking the entries from the last to the first leaves them in their order.
-/

namespace Foundations.Distribution

universe u
variable {α : Type u}

/-- The marks of the buckets, and the array. The mark of a bucket is where its last entry was put.
-/
structure Places (α : Type u) where
  start : Nat → Nat
  slots : Nat → Option α

/-- One turn of the loop: the mark of the entry's bucket is moved one place down, and the entry is
put there. -/
def Places.place (bucket : α → Nat) (places : Places α) (entry : α) : Places α :=
  let slot := places.start (bucket entry) - 1
  ⟨Function.update places.start (bucket entry) slot,
    Function.update places.slots slot (some entry)⟩

/-- The entries placed from the last to the first, with the marks at the ends of the regions. -/
def placeAll (bucket : α → Nat) (ends : Nat → Nat) (entries : List α) : Places α :=
  entries.foldr (fun entry places => places.place bucket entry) ⟨ends, fun _ => none⟩

/-- Regions that end at these places are long enough and do not overlap. -/
structure Regions (bucket : α → Nat) (entries : List α) (ends : Nat → Nat) : Prop where
  fits : ∀ number, entries.countP (fun entry => bucket entry = number) ≤ ends number
  apart : ∀ number number', number < number' →
    ends number + entries.countP (fun entry => bucket entry = number') ≤ ends number'

variable {bucket : α → Nat} {entries : List α} {ends : Nat → Nat}

/-- Regions for all entries are regions for those behind the first. -/
theorem Regions.tail {entry : α} (regions : Regions bucket (entry :: entries) ends) :
    Regions bucket entries ends := by
  have fewer : ∀ number, entries.countP (fun entry => bucket entry = number) ≤
      (entry :: entries).countP (fun entry => bucket entry = number) :=
    fun number => (List.sublist_cons_self entry entries).countP_le
  constructor
  · exact fun number => Nat.le_trans (fewer number) (regions.fits number)
  · intro number number' before
    exact Nat.le_trans (Nat.add_le_add_left (fewer number') _)
      (regions.apart number number' before)

/-- Every region then holds the entries of its bucket in order.

By induction on the entries, the last of which is placed first. An entry of the bucket goes right
in front of those already there. Any other entry goes into a region of its own, which lies before
or behind this one. -/
theorem placeAll_region (regions : Regions bucket entries ends) (number : Nat) :
    (placeAll bucket ends entries).start number =
        ends number - entries.countP (fun entry => bucket entry = number) ∧
      ∀ index < entries.countP (fun entry => bucket entry = number),
        (placeAll bucket ends entries).slots
            ((placeAll bucket ends entries).start number + index) =
          (entries.filter fun entry => bucket entry = number)[index]? := by
  induction entries generalizing number with
  | nil => simp [placeAll]
  | cons entry entries inductionHypothesis =>
    have before := inductionHypothesis regions.tail
    have same : placeAll bucket ends (entry :: entries) =
        (placeAll bucket ends entries).place bucket entry := rfl
    generalize placeAll bucket ends (entry :: entries) = places at same
    generalize placeAll bucket ends entries = earlier at before same
    subst same
    obtain ⟨mark, stored⟩ := before number
    obtain ⟨mark', -⟩ := before (bucket entry)
    have fits := regions.fits (bucket entry)
    rw [List.countP_cons_of_pos (by simp)] at fits
    by_cases own : bucket entry = number
    · subst own
      have start : (earlier.place bucket entry).start (bucket entry) =
          earlier.start (bucket entry) - 1 := by
        simp [Places.place]
      rw [List.countP_cons_of_pos (by simp), List.filter_cons_of_pos (by simp), start]
      refine ⟨by omega, ?_⟩
      intro index short
      cases index with
      | zero => simp [Places.place]
      | succ index =>
        have behind : earlier.start (bucket entry) - 1 + (index + 1) =
            earlier.start (bucket entry) + index := by omega
        rw [behind, List.getElem?_cons_succ, ← stored index (by omega)]
        exact Function.update_of_ne (by omega) _ _
    · have start : (earlier.place bucket entry).start number = earlier.start number := by
        simp [Places.place, Function.update_of_ne (Ne.symm own)]
      rw [List.countP_cons_of_neg (by simp [own]), List.filter_cons_of_neg (by simp [own]), start]
      refine ⟨mark, ?_⟩
      intro index short
      rw [← stored index short]
      apply Function.update_of_ne
      have fits' := regions.fits number
      rw [List.countP_cons_of_neg (by simp [own])] at fits'
      rcases Nat.lt_or_gt_of_ne own with below | above
      · have room := regions.apart (bucket entry) number below
        rw [List.countP_cons_of_neg (by simp [own])] at room
        omega
      · have room := regions.apart number (bucket entry) above
        rw [List.countP_cons_of_pos (by simp)] at room
        omega

/-- The number of entries of the buckets up to this one. -/
def upTo (bucket : α → Nat) (entries : List α) (number : Nat) : Nat :=
  ((List.range (number + 1)).map fun earlier =>
    entries.countP fun entry => bucket entry = earlier).sum

/-- The number up to the next bucket is larger by the entries of that bucket. -/
theorem upTo_succ (bucket : α → Nat) (entries : List α) (number : Nat) :
    upTo bucket entries (number + 1) =
      upTo bucket entries number + entries.countP fun entry => bucket entry = number + 1 := by
  rw [upTo, List.range_succ, List.map_append, List.sum_append]
  simp [upTo]

/-- It grows with the buckets. -/
theorem upTo_mono (bucket : α → Nat) (entries : List α) : Monotone (upTo bucket entries) := by
  apply monotone_nat_of_le_succ
  intro number
  rw [upTo_succ]
  omega

/-- Regions that end at these numbers leave room for each other, since the entries of a bucket fit
exactly between the ends of two of them. -/
theorem regions_upTo (bucket : α → Nat) (entries : List α) :
    Regions bucket entries (upTo bucket entries) := by
  constructor
  · intro number
    cases number with
    | zero => simp [upTo]
    | succ number =>
      rw [upTo_succ]
      omega
  · intro number number' before
    obtain ⟨below, rfl⟩ := Nat.exists_eq_succ_of_ne_zero (Nat.ne_zero_of_lt before)
    have earlier : upTo bucket entries number ≤ upTo bucket entries below :=
      upTo_mono bucket entries (Nat.le_of_lt_succ before)
    rw [Nat.succ_eq_add_one, upTo_succ]
    omega

end Foundations.Distribution
