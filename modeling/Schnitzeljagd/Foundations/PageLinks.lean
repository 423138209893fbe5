import Schnitzeljagd.Foundations.PerlText

/-!
# The links of a page

A link is a tag with the address between single quotes. Text and other tags add no links to
a page, so the links of a page that is put together from pieces are those of its pieces.
-/

namespace Foundations.PageLinks

open Foundations.PerlText

/-- The byte that ends the address of a link, an apostrophe. -/
def quote : BitVec 8 := 0x27

/-- The byte that begins every tag, a less-than sign. -/
def less : BitVec 8 := 0x3c

/-- The addresses of the links on a page, each up to the next apostrophe. The page is searched
byte by byte for the beginning of a link. -/
def links : Text → List Text
  | [] => []
  | byte :: rest =>
    if (latin1 "<a href='").isPrefixOf (byte :: rest) then
      ((byte :: rest).drop (latin1 "<a href='").length).takeWhile (fun byte => byte ≠ quote) ::
        links rest
    else links rest

/-- The bytes that a link begins with. -/
theorem anchor_bytes : latin1 "<a href='" = less :: 0x61 :: latin1 " href='" := by decide

/-- A byte that does not begin a tag is passed over. -/
theorem links_other (byte : BitVec 8) (rest : Text) (other : byte ≠ less) :
    links (byte :: rest) = links rest := by
  have noMatch : (latin1 "<a href='").isPrefixOf (byte :: rest) = false := by
    rw [anchor_bytes, List.isPrefixOf_cons_cons, beq_false_of_ne other.symm, Bool.false_and]
  rw [links, noMatch]
  rfl

/-- Text without tags has no links, so that the links of a page are those of what follows. -/
theorem links_text (text rest : Text) (noTag : less ∉ text) :
    links (text ++ rest) = links rest := by
  induction text with
  | nil => rfl
  | cons byte text inductionHypothesis =>
    have other : byte ≠ less := fun same => noTag (same ▸ List.mem_cons_self)
    rw [List.cons_append, links_other byte _ other]
    exact inductionHypothesis fun member => noTag (List.mem_cons_of_mem _ member)

/-- Another tag is no link. Its second byte tells it from one. -/
theorem links_tag (second : BitVec 8) (rest : Text) (other : second ≠ 0x61) :
    links (less :: second :: rest) = links (second :: rest) := by
  have noMatch : (latin1 "<a href='").isPrefixOf (less :: second :: rest) = false := by
    rw [anchor_bytes, List.isPrefixOf_cons_cons, List.isPrefixOf_cons_cons, beq_false_of_ne other.symm,
      Bool.false_and, Bool.and_false]
  rw [links, noMatch]
  rfl

/-- A tag other than a link is passed over with the text up to the next tag, and the links are
those of what follows. -/
theorem links_markup (second : BitVec 8) (name rest : Text) (other : second ≠ 0x61)
    (noTag : less ∉ second :: name) : links (less :: second :: name ++ rest) = links rest := by
  rw [List.cons_append, List.cons_append, links_tag second _ other, ← List.cons_append]
  exact links_text _ rest noTag

/-- A link at the front of a page gives its address, if neither an apostrophe nor another tag is
in it. -/
theorem links_anchor (address rest : Text) (plain : quote ∉ address) (noTag : less ∉ address) :
    links (latin1 "<a href='" ++ address ++ quote :: rest) = address :: links rest := by
  let tail := 0x61 :: latin1 " href='" ++ (address ++ quote :: rest)
  have whole : latin1 "<a href='" ++ (address ++ quote :: rest) = less :: tail := by
    rw [anchor_bytes]
    rfl
  have starts : (latin1 "<a href='").isPrefixOf (less :: tail) = true := by
    rw [← whole]
    exact List.isPrefixOf_iff_prefix.mpr (List.prefix_append _ _)
  have target : ((less :: tail).drop (latin1 "<a href='").length).takeWhile
      (fun byte => byte ≠ quote) = address := by
    rw [← whole, List.drop_left]
    exact takeWhile_until plain rest
  have behind : links tail = links rest := by
    have inner : less ∉ 0x61 :: latin1 " href='" ++ address ++ [quote] := by
      rw [List.mem_append, List.mem_append]
      rintro ((inside | inside) | inside)
      · exact absurd inside (by decide)
      · exact noTag inside
      · exact absurd inside (by decide)
    have skipped := links_text _ rest inner
    rwa [List.append_assoc, List.append_assoc] at skipped
  rw [List.append_assoc, whole, links, if_pos starts, target, behind]

end Foundations.PageLinks
