import Schnitzeljagd.Foundations.LineFile
import Schnitzeljagd.Foundations.PageLinks
import Schnitzeljagd.Foundations.UrlCoding
import Mathlib.Data.List.DropRight

/-!
# The content management of the Spert site

`cms.foo` lists the texts of a directory as links to itself, and shows the text that such a
link names. Only names of texts are meant to be listed, and one of them is held back. The
pattern for them looks for `.txt` anywhere in the name.

The directory and the path of the script come from outside. Magic quotes are off, the
variables of the query are global ones, and `opendir` succeeds.
-/

namespace Schnitzeljagd.Spert

open Foundations.PerlText Foundations.LineFile Foundations.PageLinks Foundations.UrlCoding

/-! ## The script -/

/-- `'/'`, which no name in a directory has -/
def slash : BitVec 8 := 0x2f

/-- `'?'`, in front of the parameters of an address -/
def questionMark : BitVec 8 := 0x3f

/-- `'#'`, in front of the fragment of an address -/
def hash : BitVec 8 := 0x23

/-- `$datapath`, the directory next to that of the script. -/
def datapath : Text := latin1 "../data/"

/-- The data directory: the entries in the order of `readdir`, and what is in those that are
files. -/
structure Directory where
  names : List Text
  content : Text → Option Text
  distinct : names.Nodup
  plain : ∀ name ∈ names, name ≠ [] ∧ slash ∉ name ∧ 0 ∉ name

/-- `htmlentities`: whatever it makes of a text, no tag begins in it. Which characters it replaces
depends on a setting of the language. -/
structure Entities where
  htmlentities : Text → Text
  noTag : ∀ text, less ∉ htmlentities text

/-- `$PHP_SELF`: the path of the script, which needs no quoting in an address or a page. -/
structure PhpSelf where
  path : Text
  plain : questionMark ∉ path ∧ hash ∉ path ∧ quote ∉ path ∧ less ∉ path

/-- What the script echoes, and the paths that it opens with `file`. -/
structure Response where
  page : Text
  opened : List Text
  deriving DecidableEq

/-- `file`: the lines of a file, their newlines included. There are none if it cannot be read. -/
def fileLines (content : Option Text) : List Text := (content.map lines).getD []

/-- `$content[0]` as a string, which is empty for a file without lines. -/
def title (content : Option Text) : Text := (fileLines content).head?.getD []

/-- The two tests in the loop: `preg_match("/.*\.txt/", $file)`, where the first part of the
pattern matches anything, and the name of the report that is held back. -/
def isListed (file : Text) : Bool :=
  decide (latin1 ".txt" <:+: file) && file ≠ latin1 "scheduler.txt"

section Script

variable (phpSelf : PhpSelf) (entities : Entities) (directory : Directory)

/-- The address in a link, with the name encoded for a query. -/
def href (file : Text) : Text :=
  phpSelf.path ++ latin1 "?mode=show&file=" ++ urlencode file

/-- One item of the list, with the first line of the file as its text. -/
def listItem (file : Text) : Text :=
  latin1 "<li><a href='" ++ href phpSelf file ++ latin1 "'>" ++
    entities.htmlentities (title (directory.content file)) ++ latin1 "</a>"

/-- `case "list"`, which opens every file that it lists. -/
def listMode : Response :=
  let files := directory.names.filter isListed
  ⟨latin1 "<ul>" ++ files.flatMap (listItem phpSelf entities directory) ++ latin1 "</ul>",
    files.map fun file => datapath ++ file⟩

/-- What is behind the last slash, slashes at the end apart. -/
def basename (path : Text) : Text :=
  (path.rdropWhile fun byte => byte = slash).rtakeWhile fun byte => byte ≠ slash

/-- `file_exists($datapath.$file)`, which is the directory itself for an empty name. -/
def Directory.fileExists (file : Text) : Bool :=
  file = [] || directory.names.contains file

/-- `case "show"`, which shows the file if there is one of that name. -/
def showMode (file : Text) : Response :=
  let file := basename file
  if !directory.fileExists file then
    ⟨latin1 "Datei " ++ datapath ++ file ++ latin1 " exisitert nicht", []⟩
  else
    let content := directory.content file
    ⟨latin1 "<h1>" ++ title content ++ latin1 "</h1>" ++ latin1 "<pre>" ++
        (fileLines content).flatten ++ latin1 "</pre>", [datapath ++ file]⟩

/-- The script for a query. Of several assignments to a variable the last one counts. -/
def cms (query : Text) : Response :=
  let globals := (queryVariables query).reverse
  let mode := (globals.lookup (latin1 "mode")).getD (latin1 "list")
  if mode = latin1 "list" then listMode phpSelf entities directory
  else if mode = latin1 "show" then
    showMode directory ((globals.lookup (latin1 "file")).getD [])
  else ⟨[], []⟩

/-! ## The browser -/

/-- What comes back for an address. The part from the first hash on is not sent, and another path
is not the script. -/
def follow (address : Text) : Option Response :=
  let sent := address.takeWhile fun byte => byte ≠ hash
  let path := sent.takeWhile fun byte => byte ≠ questionMark
  if path = phpSelf.path then
    some (cms phpSelf entities directory ((sent.dropWhile fun byte => byte ≠ questionMark).drop 1))
  else none

/-- A name that is to be listed, by the comment of the source: a text file other than the report.
-/
def Wanted (name : Text) : Prop := latin1 ".txt" <:+ name ∧ name ≠ latin1 "scheduler.txt"

instance (name : Text) : Decidable (Wanted name) := inferInstanceAs (Decidable (_ ∧ _))

/-- The page has one link for every name that is to be listed and no other link, and behind
each of them is the file that it was made for. -/
structure Sound : Prop where
  listed : ∀ name, (links (listMode phpSelf entities directory).page).count (href phpSelf name) =
    if name ∈ directory.names ∧ Wanted name then 1 else 0
  nothingElse : ∀ address ∈ links (listMode phpSelf entities directory).page,
    ∃ name, address = href phpSelf name
  linked : ∀ name, href phpSelf name ∈ links (listMode phpSelf entities directory).page →
    ∃ page, follow phpSelf entities directory (href phpSelf name) = some ⟨page, [datapath ++ name]⟩

end Script

/-! ## The links of the page -/

variable {phpSelf : PhpSelf} {entities : Entities} {directory : Directory}

/-- A byte that is not in the path of the script, and has a meaning of its own, is not in an
address. -/
theorem not_mem_href (file : Text) (byte : BitVec 8) (outside : byte ∉ phpSelf.path)
    (parameters : byte ∉ latin1 "?mode=show&file=")
    (special : byte ≠ plus ∧ byte ≠ percent ∧ isUnreserved byte = false) :
    byte ∉ href phpSelf file := by
  rw [href, List.mem_append, List.mem_append]
  rintro ((inside | inside) | inside)
  · exact outside inside
  · exact parameters inside
  · exact not_mem_urlencode file byte special inside

/-- Each item of the list has exactly one link. -/
theorem links_listItem (file rest : Text) :
    links (listItem phpSelf entities directory file ++ rest) = href phpSelf file :: links rest := by
  obtain ⟨_, _, noQuote, noLess⟩ := phpSelf.plain
  have plain : quote ∉ href phpSelf file :=
    not_mem_href file quote noQuote (by decide) (by decide)
  have noTag : less ∉ href phpSelf file := not_mem_href file less noLess (by decide) (by decide)
  have opening : latin1 "<li><a href='" = less :: 0x6c :: latin1 "i>" ++ latin1 "<a href='" := by
    decide
  have closing : latin1 "'>" = quote :: [0x3e] := by decide
  have ending : latin1 "</a>" = less :: 0x2f :: latin1 "a>" := by decide
  have text : less ∉ 0x3e :: entities.htmlentities (title (directory.content file)) := by
    rw [List.mem_cons]
    rintro (same | inside)
    · exact absurd same (by decide)
    · exact entities.noTag _ inside
  calc links (listItem phpSelf entities directory file ++ rest)
      = links (less :: 0x6c :: latin1 "i>" ++ (latin1 "<a href='" ++ href phpSelf file ++
          quote :: (0x3e :: entities.htmlentities (title (directory.content file)) ++
            (latin1 "</a>" ++ rest)))) := by
        rw [listItem, opening, closing]
        simp
    _ = links (latin1 "<a href='" ++ href phpSelf file ++
          quote :: (0x3e :: entities.htmlentities (title (directory.content file)) ++
            (latin1 "</a>" ++ rest))) := links_markup 0x6c _ _ (by decide) (by decide)
    _ = href phpSelf file :: links (0x3e :: entities.htmlentities (title (directory.content file)) ++
            (latin1 "</a>" ++ rest)) := links_anchor _ _ plain noTag
    _ = href phpSelf file :: links (latin1 "</a>" ++ rest) := by rw [links_text _ _ text]
    _ = href phpSelf file :: links rest := by
        rw [ending, links_markup 0x2f _ _ (by decide) (by decide)]

/-- The links of the page are those of the names that pass the tests, in the order of the
directory. Nothing in a title can be taken for a link. -/
theorem links_listMode : links (listMode phpSelf entities directory).page =
    (directory.names.filter isListed).map (href phpSelf) := by
  have items : ∀ files : List Text,
      links (files.flatMap (listItem phpSelf entities directory) ++ latin1 "</ul>") =
        files.map (href phpSelf) := by
    intro files
    induction files with
    | nil => rfl
    | cons file files inductionHypothesis =>
      rw [List.flatMap_cons, List.append_assoc, links_listItem, inductionHypothesis, List.map_cons]
  have opening : latin1 "<ul>" = less :: 0x75 :: latin1 "l>" := by decide
  rw [listMode]
  dsimp only
  rw [List.append_assoc, opening, links_markup 0x75 _ _ (by decide) (by decide), items]

/-! ## Following a link -/

/-- A name without slashes is its own last part. -/
theorem basename_plain (name : Text) (plain : slash ∉ name) : basename name = name := by
  have other : ∀ byte ∈ name, byte ≠ slash := by
    rintro byte member rfl
    exact plain member
  have nothing : name.rdropWhile (fun byte => byte = slash) = name := by
    apply List.rdropWhile_eq_self_iff.mpr
    intro nonempty
    simpa using other _ (List.getLast_mem nonempty)
  rw [basename, nothing]
  apply List.rtakeWhile_eq_self_iff.mpr
  intro byte member
  simpa using other byte member

/-- The query of an address assigns both variables, and the encoding is undone. -/
theorem queryVariables_href (file : Text) :
    queryVariables (latin1 "mode=show&file=" ++ urlencode file) =
      [(latin1 "mode", latin1 "show"), (latin1 "file", file)] := by
  have parts : latin1 "mode=show&file=" ++ urlencode file =
      latin1 "mode" ++ equals :: latin1 "show" ++ ampersand ::
        (latin1 "file" ++ equals :: urlencode file) := by
    rw [show latin1 "mode=show&file=" = latin1 "mode" ++ equals :: latin1 "show" ++ ampersand ::
      (latin1 "file" ++ [equals]) by decide]
    simp
  have oneAssignment : ampersand ∉ latin1 "file" ++ equals :: urlencode file := by
    rw [List.mem_append, List.mem_cons]
    rintro (inside | same | inside)
    · exact absurd inside (by decide)
    · exact absurd same (by decide)
    · exact not_mem_urlencode file ampersand (by decide) inside
  rw [parts, queryVariables_cons _ _ _ (by decide) (by decide),
    queryVariables_last _ _ (by decide) oneAssignment, urldecode_urlencode]
  rfl

/-- A link shows the name that it was made for, whatever characters are in it. -/
theorem follow_href (file : Text) : follow phpSelf entities directory (href phpSelf file) =
    some (showMode directory file) := by
  obtain ⟨noQuestionMark, noHash, _, _⟩ := phpSelf.plain
  have parts : href phpSelf file =
      phpSelf.path ++ questionMark :: (latin1 "mode=show&file=" ++ urlencode file) := by
    rw [href, show latin1 "?mode=show&file=" = questionMark :: latin1 "mode=show&file=" by decide,
      List.append_assoc, List.cons_append]
  have sent : (href phpSelf file).takeWhile (fun byte => byte ≠ hash) = href phpSelf file := by
    apply List.takeWhile_eq_self_iff.mpr
    intro byte member
    rw [decide_eq_true_eq]
    rintro rfl
    exact not_mem_href file hash noHash (by decide) (by decide) member
  have shown : cms phpSelf entities directory (latin1 "mode=show&file=" ++ urlencode file) =
      showMode directory file := by
    have mode : [(latin1 "file", file), (latin1 "mode", latin1 "show")].lookup (latin1 "mode") =
        some (latin1 "show") := rfl
    have named : [(latin1 "file", file), (latin1 "mode", latin1 "show")].lookup (latin1 "file") =
        some file := rfl
    rw [cms, queryVariables_href]
    simp only [List.reverse_cons, List.reverse_nil, List.nil_append, List.singleton_append, mode,
      named, Option.getD_some]
    rw [if_neg (by decide), if_pos trivial]
  rw [follow]
  rw [sent, parts, takeWhile_until noQuestionMark, dropWhile_until noQuestionMark, if_pos rfl,
    List.drop_succ_cons, List.drop_zero, shown]

/-- For an entry of the directory, its file is opened and shown, with its first line as the
heading. -/
theorem showMode_entry (name : Text) (entry : name ∈ directory.names) :
    showMode directory name =
      ⟨latin1 "<h1>" ++ title (directory.content name) ++ latin1 "</h1>" ++ latin1 "<pre>" ++
          (directory.content name).getD [] ++ latin1 "</pre>", [datapath ++ name]⟩ := by
  have here : basename name = name := basename_plain name (directory.plain name entry).2.1
  have found : directory.fileExists name = true := by
    simp [Directory.fileExists, entry]
  have whole : (fileLines (directory.content name)).flatten = (directory.content name).getD [] := by
    rw [fileLines]
    cases directory.content name with
    | none => rfl
    | some content => exact lines_flatten content
  rw [showMode]
  simp only [here, found, whole, Bool.not_true, Bool.false_eq_true, if_false]

/-- Different names have different addresses. -/
theorem href_injective : Function.Injective (href phpSelf) := by
  intro left right same
  exact urlencode_injective (List.append_cancel_left same)

/-- The tests are for the wanted names where the pattern finds no others. The pattern is not
anchored, so it also finds names that go on behind the ending. -/
theorem isListed_iff {name : Text} (ending : latin1 ".txt" <:+: name → latin1 ".txt" <:+ name) :
    isListed name = true ↔ Wanted name := by
  rw [isListed, Bool.and_eq_true, decide_eq_true_eq, decide_eq_true_eq, Wanted]
  constructor
  · rintro ⟨inside, shown⟩
    exact ⟨ending inside, shown⟩
  · rintro ⟨atEnd, shown⟩
    exact ⟨atEnd.isInfix, shown⟩

/-- A name is linked once if it is listed, and otherwise not at all. -/
theorem count_href (name : Text) :
    (links (listMode phpSelf entities directory).page).count (href phpSelf name) =
      if name ∈ directory.names ∧ isListed name = true then 1 else 0 := by
  have distinct : (directory.names.filter isListed).Nodup := directory.distinct.filter _
  rw [links_listMode, List.count_map_of_injective _ _ href_injective, distinct.count]
  simp only [List.mem_filter]

/-- The list is right and its links lead to their files exactly if every name with `.txt` in it
ends that way.

Everything but the choice of names is right for any directory: a link is made for each name that
passes the tests (`links_listMode`), and following it gives the file (`follow_href`,
`showMode_entry`), since the encoding of names can be undone. So the list is right exactly if the
tests are, and of the two tests only the pattern can differ from what its comment says. -/
theorem sound_iff (phpSelf : PhpSelf) (entities : Entities) (directory : Directory) :
    Sound phpSelf entities directory ↔
      ∀ name ∈ directory.names, latin1 ".txt" <:+: name → latin1 ".txt" <:+ name := by
  constructor
  · intro sound name entry inside
    by_cases hidden : name = latin1 "scheduler.txt"
    · rw [hidden]
      decide
    · have passes : isListed name = true := by
        rw [isListed, Bool.and_eq_true, decide_eq_true_eq, decide_eq_true_eq]
        exact ⟨inside, hidden⟩
      have count := sound.listed name
      rw [count_href, if_pos ⟨entry, passes⟩] at count
      by_contra notAtEnd
      rw [if_neg fun both => notAtEnd both.2.1] at count
      exact absurd count Nat.one_ne_zero
  · intro ending
    constructor
    · intro name
      rw [count_href]
      apply if_congr _ rfl rfl
      constructor
      · rintro ⟨entry, passes⟩
        exact ⟨entry, (isListed_iff (ending name entry)).mp passes⟩
      · rintro ⟨entry, wanted⟩
        exact ⟨entry, (isListed_iff (ending name entry)).mpr wanted⟩
    · intro address member
      rw [links_listMode] at member
      obtain ⟨name, _, same⟩ := List.mem_map.mp member
      exact ⟨name, same.symm⟩
    · intro name member
      rw [links_listMode] at member
      obtain ⟨file, listed, same⟩ := List.mem_map.mp member
      obtain rfl := href_injective same
      rw [follow_href, showMode_entry file (List.mem_of_mem_filter listed)]
      exact ⟨_, rfl⟩

/-! ## A copy of the report -/

/-- The characters of ASCII that `htmlentities` replaces. -/
def entity (byte : BitVec 8) : Text :=
  if byte = 0x26 then latin1 "&amp;"
  else if byte = 0x22 then latin1 "&quot;"
  else if byte = less then latin1 "&lt;"
  else if byte = 0x3e then latin1 "&gt;"
  else [byte]

/-- No replacement begins a tag. -/
theorem less_not_mem_entity : ∀ byte : BitVec 8, less ∉ entity byte := by decide

/-- `htmlentities` as far as ASCII is concerned. -/
def asciiEntities : Entities where
  htmlentities text := text.flatMap entity
  noTag text := by
    intro member
    obtain ⟨byte, _, inside⟩ := List.mem_flatMap.mp member
    exact less_not_mem_entity byte inside

/-- The script at its place on the server. -/
def cmsFoo : PhpSelf where
  path := latin1 "/cms/run/cms.foo"
  plain := by decide

/-- The report that is held back, a copy that an editor has made of it, and another text. -/
def edited : Directory where
  names := [latin1 ".", latin1 "..", latin1 "pizza.txt", latin1 "scheduler.txt",
    latin1 "scheduler.txt~"]
  content name :=
    if name = latin1 "." ∨ name = latin1 ".." then none else some (latin1 "Der Scheduler\n")
  distinct := by decide
  plain := by decide

/-- The copy of the report gets a link, and so the list is not what it is meant to be. -/
theorem copy_is_listed :
    links (listMode cmsFoo asciiEntities edited).page =
        [latin1 "/cms/run/cms.foo?mode=show&file=pizza.txt",
          latin1 "/cms/run/cms.foo?mode=show&file=scheduler.txt%7E"] ∧
      ¬Sound cmsFoo asciiEntities edited := by
  constructor
  · rw [links_listMode]
    decide
  · intro sound
    have count := sound.listed (latin1 "scheduler.txt~")
    rw [count_href] at count
    exact absurd count (by decide)

end Schnitzeljagd.Spert
