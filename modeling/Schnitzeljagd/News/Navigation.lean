import Schnitzeljagd.News.Newsgroups
import Schnitzeljagd.News.Wildmat

/-!
# Reading a group

A client selects a group, moves from one article to another, and asks for the overviews of a
range of articles. `server.c` answers from the overviews that it has read when the group was
selected. The server is not online.
-/

namespace Schnitzeljagd.News

open Foundations.CArithmetic Foundations.CString Foundations.Globs
open Foundations.Numbering Foundations.PerlText Foundations.Scanning

/-- What `server` holds of a client, and `cont`: the selected group, the number of the current
article, and the overviews of the group as they were read. -/
structure Session where
  grp : Text
  artPtr : Int
  cont : Cont

/-- `putStat`: a status line, cut off where its buffer ends. -/
def putStat (stat : Nat) (text : Text) : List Byte :=
  clipped (decimal stat ++ 0x20 :: clipped text) ++ [carriageReturn, newline]

/-- `putStat( stat, "%ld %s selected", n, msgId )` -/
def putSelected (n : Int) (msgId : Text) : List Byte :=
  putStat 223 (printInt n ++ 0x20 :: msgId ++ latin1 " selected")

/-- What every command on articles answers before a group has been selected. -/
def noGroup : List Byte := putStat 412 (latin1 "No group selected")

/-- What is answered when the current article has been asked for and its number is not valid. -/
def noArticle : List Byte := putStat 420 (latin1 "No article selected")

/-! ## Selecting a group -/

/-- `needsPseudoGenInfo`: the general information stands in a group that is neither local nor
fetched from another server. -/
def Spool.needsPseudoGenInfo (spool : Spool) (fetchlist : Text → Bool) (grp : Text) : Bool :=
  !(spool.grpLocal grp || fetchlist grp)

/-- `readCont`, where `generalInfo` is what `genOv` makes -/
def Spool.readCont (spool : Spool) (fetchlist : Text → Bool) (generalInfo : Over) (name : Text) :
    Option Cont := do
  let cont ← spool.contRead name
  some (if spool.needsPseudoGenInfo fetchlist name then cont.app (some generalInfo) else cont)

/-- `changeToGrp`, which makes the first number of the group the current one, whether or not it is
valid. -/
def Spool.changeToGrp (spool : Spool) (fetchlist : Text → Bool) (generalInfo : Over)
    (grp : Text) : Option Session := do
  let cont ← spool.readCont fetchlist generalInfo grp
  some ⟨grp, cont.first, cont⟩

/-- The first and the last number that `doGrp` announces, and how many articles there may be. -/
def Cont.announced (cont : Cont) : Int × Int × Int :=
  if cont.first = 0 ∧ cont.last = 0 ∨ cont.first > cont.last then (0, 0, 0)
  else (cont.first, cont.last, cont.last - cont.first + 1)

/-- `doGrp`: a group that does not exist leaves the session as it was. -/
def Spool.doGrp (spool : Spool) (fetchlist : Text → Bool) (generalInfo : Over) (arg : Text)
    (session : Session) : Option (List Byte × Session) :=
  if arg = [] then some (putStat 501 (latin1 "Syntax error. Usage: GROUP grp"), session)
  else if (spool.groups arg).isNone then some (putStat 411 (latin1 "No such group"), session)
  else do
    let session ← spool.changeToGrp fetchlist generalInfo arg
    let (first, last, numb) := session.cont.announced
    some (putStat 211 (printInt numb ++ 0x20 :: printInt first ++ 0x20 :: printInt last ++
      0x20 :: arg ++ latin1 " selected"), session)

/-- The numbers from `first` to `last`, none if there is nothing between them. -/
def numbers (first last : Int) : List Int :=
  (List.range (last - first + 1).toNat).map fun (i : Nat) => first + i

/-- `doListgrp`, which selects the group as `GROUP` does when it is given one. -/
def Spool.doListgrp (spool : Spool) (fetchlist : Text → Bool) (generalInfo : Over) (arg : Text)
    (session : Session) : Option (List Byte × Session) :=
  if (spool.groups arg).isNone then some (putStat 411 (latin1 "No such group"), session)
  else do
    let session ← spool.changeToGrp fetchlist generalInfo arg
    let lines := (numbers session.cont.first session.cont.last).flatMap fun i =>
      if (session.cont.get i).isSome then putTxtLn (clipped (printInt i)) else []
    some (putStat 211 (latin1 "Article list") ++ lines ++ putEndOfTxt, session)

/-- `printActive` of a group that exists, from the numbers in its record and not from its
overviews. -/
def Spool.printActive (spool : Spool) (fetchlist : Text → Bool) (grp : Text) (info : Group) :
    Text :=
  let last := if spool.needsPseudoGenInfo fetchlist grp then info.last + 1 else info.last
  clipped (grp ++ 0x20 :: printInt last ++ 0x20 :: printInt info.first ++ [0x20, info.postAllow])

/-! ## Moving -/

/-- The loop of `doNext`. It ends behind the last number, so the steps that it may take are
counted. -/
def nextNumb (cont : Cont) (n : Int) : Int :=
  if !cont.validNumb (n + 1) ∧ n + 1 ≤ cont.last then nextNumb cont (n + 1) else n + 1
termination_by (cont.last - n).toNat

/-- The loop of `doLast`. It ends in front of the first number. -/
def prevNumb (cont : Cont) (n : Int) : Int :=
  if !cont.validNumb (n - 1) ∧ n - 1 ≥ cont.first then prevNumb cont (n - 1) else n - 1
termination_by (n - cont.first).toNat

/-- What `doNext` and `doLast` do with the number that they have looked for. -/
def Session.moveTo (session : Session) (n : Int) (missing : List Byte) : List Byte × Session :=
  match session.cont.get n with
  | none => (missing, session)
  | some ov => (putSelected n ov.msgId, { session with artPtr := n })

/-- `doNext` -/
def Session.doNext (session : Session) : List Byte × Session :=
  if session.grp = [] then (noGroup, session)
  else if !session.cont.validNumb session.artPtr then (noArticle, session)
  else session.moveTo (nextNumb session.cont session.artPtr)
    (putStat 421 (latin1 "No next article"))

/-- `doLast` -/
def Session.doLast (session : Session) : List Byte × Session :=
  if session.grp = [] then (noGroup, session)
  else if !session.cont.validNumb session.artPtr then (noArticle, session)
  else session.moveTo (prevNumb session.cont session.artPtr)
    (putStat 422 (latin1 "No previous article"))

/-- The article with this message id is in the database, or is the general information, which is
in no database. -/
def held (articles : Text → Option Text) (msgId : Text) : Bool :=
  isGeneralInfo msgId || (articles msgId).isSome

/-- `whichId` for a number: the message id and the number, or the line that says why not. -/
def Session.numbered (session : Session) (articles : Text → Option Text) (n : Int) :
    Except (List Byte) (Text × Int) :=
  if session.grp = [] then .error noGroup
  else
    match session.cont.get n with
    | none => .error (putStat 423 (latin1 "No such article"))
    | some ov =>
      if held articles ov.msgId then .ok (ov.msgId, n)
      else .error (putStat 423 (latin1 "No such article"))

/-- `whichId`, which takes a number, nothing or an identifier. A valid number that it has been
given becomes the current one. -/
def Session.whichId (session : Session) (articles : Text → Option Text) (arg : Text) :
    Except (List Byte) (Text × Int) × Session :=
  match scanDecimal arg with
  | some (n, _) =>
    (session.numbered articles n,
      if session.grp ≠ [] ∧ session.cont.validNumb n then { session with artPtr := n }
      else session)
  | none =>
    if arg = [] then (session.numbered articles session.artPtr, session)
    else if held articles arg then (.ok (arg, 0), session)
    else (.error (putStat 430 (latin1 "No such article")), session)

/-- `doStat` -/
def Session.doStat (session : Session) (articles : Text → Option Text) (arg : Text) :
    List Byte × Session :=
  match session.whichId articles arg with
  | (.error line, session) => (line, session)
  | (.ok (msgId, numb), session) => (putSelected (if numb > 0 then numb else 0) msgId, session)

/-! ## Ranges of articles -/

/-- The range that the argument asks for: two numbers, one number, all from a number on, or just
the current article. -/
def Session.askedRange (session : Session) (s : Text) : Int × Int :=
  let p := stripWhiteSpace s
  match scanDecimal p with
  | none => (session.artPtr, session.artPtr)
  | some (first, rest) =>
    let second := match rest with
      | [] => none
      | byte :: rest => if byte = 0x2d then scanDecimal rest else none
    match second with
    | some (last, _) => (first, last)
    | none => (first, if p.getLast? = some 0x2d then session.cont.last else first)

/-- `parseRange`: the range that is asked for, limited to the group, and how many articles it
holds. -/
def Session.parseRange (session : Session) (s : Text) : Int × Int × Nat :=
  let (first, last) := session.askedRange s
  let first := if first < session.cont.first then session.cont.first else first
  let last := if last > session.cont.last then session.cont.last else last
  let last := if first > session.cont.last ∨ last < session.cont.first then first - 1 else last
  (first, last, (numbers first last).countP session.cont.validNumb)

/-- The line of `doXOver`, with tabs between the fields. -/
def overviewLine (ov : Over) : Text :=
  printInt ov.numb ++ tab :: (ov.subj ++ tab :: (ov.sender ++ tab :: (ov.date ++ tab ::
    (ov.msgId ++ tab :: (ov.ref ++ tab :: (printInt ov.bytes.toInt ++ tab ::
      (printInt ov.lines.toInt ++ [tab])))))))

/-- A loop over the articles from `first` to `last`. -/
def Cont.forArticles (cont : Cont) (first last : Int) (put : Over → List Byte) : List Byte :=
  (numbers first last).flatMap fun i =>
    match cont.get i with
    | some ov => put ov
    | none => []

/-- `doXOver` -/
def Session.doXOver (session : Session) (arg : Text) : List Byte :=
  if session.grp = [] then noGroup
  else
    let (first, last, n) := session.parseRange arg
    let (first, last) := if n = 0 then (session.artPtr, session.artPtr) else (first, last)
    putStat 224 (latin1 "Overview " ++ printInt first ++ 0x2d :: printInt last) ++
      session.cont.forArticles first last (fun ov => putTxtLn (clipped (overviewLine ov))) ++
        putEndOfTxt

/-- `enum XhdrType` without the unknown ones -/
inductive XhdrType where
  | subj
  | sender
  | date
  | msgId
  | ref
  | bytes
  | lines
  | xref
deriving DecidableEq

/-- `whatXhdrField`, which compares without regard to case. -/
def whatXhdrField (fieldname : Text) : Option XhdrType :=
  let name := fieldname.map tolower
  if name = latin1 "subject" then some .subj
  else if name = latin1 "from" then some .sender
  else if name = latin1 "date" then some .date
  else if name = latin1 "message-id" then some .msgId
  else if name = latin1 "references" then some .ref
  else if name = latin1 "bytes" then some .bytes
  else if name = latin1 "lines" then some .lines
  else if name = latin1 "xref" then some .xref
  else none

/-- What `Db_over` and `Db_xref` say of an article, and the name of the host. An article that is
not in the database has no overview there. -/
structure ArticleDatabase where
  ov : Text → Option Over
  xref : Text → Text
  host : Text

/-- `getXhdrField`: a field of an article from its overview, and two that are looked up in the
database. -/
def getXhdrField (database : ArticleDatabase) (what : XhdrType) (ov : Over) : Text :=
  match what with
  | .subj => ov.subj
  | .sender => ov.sender
  | .date => ov.date
  | .msgId => ov.msgId
  | .ref => ov.ref
  | .bytes => printInt ov.bytes.toInt
  | .lines => printInt ov.lines.toInt
  | .xref =>
    if isGeneralInfo ov.msgId then latin1 "none"
    else clipped (database.host ++ 0x20 :: database.xref ov.msgId)

/-- `sscanf( arg, "%s %s %s", whatStr, articles, pat )` -/
def xpatWords (arg : Text) : Option (Text × Text × Text) := do
  let (whatStr, rest) ← scanWord arg
  let (articles, rest) ← scanWord rest
  let (pat, _) ← scanWord rest
  some (whatStr, articles, pat)

/-- What `doXpat` sends for an article that it finds under a name: nothing when its field does not
match. -/
def xpatLine (database : ArticleDatabase) (abi : Abi) (what : XhdrType) (pat name : Text) (ov : Over) :
    Option (List Byte) := do
  let field := getXhdrField database what ov
  let found ← wldMatch abi (field ++ [0]) (pat ++ [0])
  some (if found then putTxtLn (clipped (name ++ 0x20 :: field)) else [])

/-- `doXpat`, where a range is looked up in the group and an identifier in the database. A missing
word is a syntax error, and an unknown field has an empty list. -/
def Session.doXpat (session : Session) (database : ArticleDatabase) (abi : Abi) (arg : Text) :
    Option (List Byte) :=
  match xpatWords arg with
  | none =>
    some (putStat 501 (latin1 "Syntax error. Usage: XPAT over-field msg-id|m[-[n]] pat"))
  | some (whatStr, articles, pat) =>
    match whatXhdrField whatStr with
    | none => some (putStat 221 (latin1 "Unknown header (empty list follows)") ++ putEndOfTxt)
    | some what =>
      if articles.head? = some 0x3c then
        match database.ov articles with
        | none => some (putStat 430 (latin1 "No such article"))
        | some ov => do
          let line ← xpatLine database abi what pat articles ov
          some (putStat 221 (whatStr ++ latin1 " header " ++ articles) ++ line ++ putEndOfTxt)
      else if session.grp = [] then some noGroup
      else
        let (first, last, numb) := session.parseRange articles
        if numb = 0 then some (putStat 420 (latin1 "No articles selected"))
        else do
          let lines ← (numbers first last).mapM fun i =>
            match session.cont.get i with
            | some ov => xpatLine database abi what pat (printInt ov.numb) ov
            | none => some []
          some (putStat 221 (whatStr ++ latin1 " header " ++ printInt first ++ 0x2d ::
            printInt last) ++ lines.flatten ++ putEndOfTxt)

/-! ## The article pointer as a cursor -/

/-- An article of a group between those in front of it, the nearest first, and those behind it.
This is what a reader takes the article pointer for. -/
structure Cursor where
  before : List Over
  here : Over
  behind : List Over

/-- The articles of the group, in their order. -/
def Cursor.articles (cursor : Cursor) : List Over :=
  cursor.before.reverse ++ cursor.here :: cursor.behind

/-- The commands that look at the current article or go on from it. -/
inductive Move where
  | next
  | last
  | stat

/-- One command as a cursor carries it out: it moves by one article, and at either end it stays.
-/
def Cursor.move (articles : Text → Option Text) : Move → Cursor → List Byte × Cursor
  | .next, ⟨before, here, []⟩ => (putStat 421 (latin1 "No next article"), ⟨before, here, []⟩)
  | .next, ⟨before, here, ov :: behind⟩ =>
    (putSelected ov.numb ov.msgId, ⟨here :: before, ov, behind⟩)
  | .last, ⟨[], here, behind⟩ => (putStat 422 (latin1 "No previous article"), ⟨[], here, behind⟩)
  | .last, ⟨ov :: before, here, behind⟩ =>
    (putSelected ov.numb ov.msgId, ⟨before, ov, here :: behind⟩)
  | .stat, cursor =>
    (if held articles cursor.here.msgId then putSelected cursor.here.numb cursor.here.msgId
      else putStat 423 (latin1 "No such article"), cursor)

/-- One command as the server carries it out, over the numbers of the group. -/
def Session.move (articles : Text → Option Text) : Move → Session → List Byte × Session
  | .next, session => session.doNext
  | .last, session => session.doLast
  | .stat, session => session.doStat articles []

/-- The article pointer of the session is where the cursor is. This is the relation that every
command keeps. -/
structure Placed (session : Session) (cursor : Cursor) : Prop where
  selected : session.grp ≠ []
  sound : session.cont.Sound
  articles : session.cont.articles = cursor.articles
  here : session.artPtr = cursor.here.numb

variable {cont : Cont}

/-- `NEXT` never goes back, and never stays. -/
theorem nextNumb_above (cont : Cont) (n : Int) : n < nextNumb cont n := by
  fun_induction nextNumb cont n with
  | case1 n more inductionHypothesis => omega
  | case2 n found => omega

/-- `LAST` never goes forward, and never stays. -/
theorem prevNumb_below (cont : Cont) (n : Int) : prevNumb cont n < n := by
  fun_induction prevNumb cont n with
  | case1 n more inductionHypothesis => omega
  | case2 n found => omega

/-- Only numbers that the group covers are valid. -/
theorem validNumb_bounds {m : Int} (valid : cont.validNumb m = true) :
    cont.first ≤ m ∧ m ≤ cont.last := by
  simp only [Cont.validNumb, Bool.and_eq_true, decide_eq_true_eq] at valid
  exact ⟨valid.1.1.2, valid.1.2⟩

/-- The loop stops at the next number that is valid, however many are missing in between. -/
theorem nextNumb_eq {m : Int} (valid : cont.validNumb m = true) (n : Int) (less : n < m)
    (between : ∀ k, n < k → k < m → cont.validNumb k = false) : nextNumb cont n = m := by
  have bounds := validNumb_bounds valid
  fun_induction nextNumb cont n with
  | case1 n more inductionHypothesis =>
    have other : n + 1 ≠ m := by
      rintro rfl
      simp [valid] at more
    exact inductionHypothesis (by omega) fun k above below => between k (by omega) below
  | case2 n found =>
    by_contra other
    have invalid := between (n + 1) (by omega) (by omega)
    exact found ⟨by simp [invalid], by omega⟩

/-- The same backwards. -/
theorem prevNumb_eq {m : Int} (valid : cont.validNumb m = true) (n : Int) (less : m < n)
    (between : ∀ k, m < k → k < n → cont.validNumb k = false) : prevNumb cont n = m := by
  have bounds := validNumb_bounds valid
  fun_induction prevNumb cont n with
  | case1 n more inductionHypothesis =>
    have other : n - 1 ≠ m := by
      rintro rfl
      simp [valid] at more
    exact inductionHypothesis (by omega) fun k above below => between k above (by omega)
  | case2 n found =>
    by_contra other
    have invalid := between (n - 1) (by omega) (by omega)
    exact found ⟨by simp [invalid], by omega⟩

/-- A number that no article has is not valid. -/
theorem Cont.Sound.invalid (sound : cont.Sound) {n : Int} (absent : ∀ ov ∈ cont.articles,
    ov.numb ≠ n) : cont.validNumb n = false := by
  rw [Bool.eq_false_iff]
  intro valid
  obtain ⟨ov, member, same⟩ := (sound.validNumb n).mp valid
  exact absent ov member same

/-- The number of an article is valid. -/
theorem Cont.Sound.valid (sound : cont.Sound) {ov : Over} (member : ov ∈ cont.articles) :
    cont.validNumb ov.numb = true := (sound.validNumb _).mpr ⟨ov, member, rfl⟩

/-- Two articles next to each other, and no number between theirs is valid. What lies between them
is what has expired. -/
theorem Cont.Sound.neighbours (sound : cont.Sound) {front rest : List Over} {ov next : Over}
    (articles : cont.articles = front ++ ov :: next :: rest) :
    ov.numb < next.numb ∧ ∀ k, ov.numb < k → k < next.numb → cont.validNumb k = false := by
  obtain ⟨ordered, -⟩ := sound.ascending
  rw [articles] at ordered
  obtain ⟨-, tail, across⟩ := List.pairwise_append.mp ordered
  obtain ⟨above, tail'⟩ := List.pairwise_cons.mp tail
  refine ⟨above next List.mem_cons_self, fun k more less => sound.invalid fun other member => ?_⟩
  rw [articles, List.mem_append, List.mem_cons, List.mem_cons] at member
  rcases member with early | rfl | rfl | late
  · have below := across other early ov List.mem_cons_self
    omega
  · omega
  · omega
  · have further := List.rel_of_pairwise_cons tail' late
    omega

/-- A number that an article has becomes the current one, and the article is announced. -/
theorem moveTo_article {session : Session} (sound : session.cont.Sound) {ov : Over}
    (member : ov ∈ session.cont.articles) (missing : List Byte) :
    session.moveTo ov.numb missing =
      (putSelected ov.numb ov.msgId, { session with artPtr := ov.numb }) := by
  rw [Session.moveTo, (sound.get ov.numb ov).mpr ⟨member, rfl⟩]

/-- A number that none has leaves the pointer where it is. -/
theorem moveTo_missing {session : Session} {n : Int} (invalid : session.cont.validNumb n = false)
    (missing : List Byte) : session.moveTo n missing = (missing, session) := by
  have nothing : session.cont.get n = none := if_neg (Bool.eq_false_iff.mp invalid)
  rw [Session.moveTo, nothing]

/-- Behind the last article of a group no number is valid. -/
theorem Cont.Sound.beyond (sound : cont.Sound) {front : List Over} {ov : Over}
    (articles : cont.articles = front ++ [ov]) {n : Int} (above : ov.numb < n) :
    cont.validNumb n = false := by
  apply sound.invalid
  intro other member
  have ordered := sound.ascending.1
  rw [articles] at ordered member
  rcases List.mem_append.mp member with early | last
  · have below := (List.pairwise_append.mp ordered).2.2 other early ov (by simp)
    omega
  · obtain rfl := List.mem_singleton.mp last
    omega

/-- In front of the first article of a group no number is valid. -/
theorem Cont.Sound.ahead (sound : cont.Sound) {rest : List Over} {ov : Over}
    (articles : cont.articles = ov :: rest) {n : Int} (below : n < ov.numb) :
    cont.validNumb n = false := by
  apply sound.invalid
  intro other member
  have ordered := sound.ascending.1
  rw [articles] at ordered member
  rcases List.mem_cons.mp member with rfl | late
  · omega
  · have above := List.rel_of_pairwise_cons ordered late
    omega

variable {session : Session}

section Moving

variable {cursor : Cursor}

/-- The article under the cursor is in the group, and the article pointer is at its number. -/
theorem Placed.current (placed : Placed session cursor) :
    cursor.here ∈ session.cont.articles ∧ session.cont.validNumb session.artPtr = true := by
  have member : cursor.here ∈ session.cont.articles := by
    rw [placed.articles, Cursor.articles]
    simp
  exact ⟨member, placed.here ▸ placed.sound.valid member⟩

/-- `NEXT` goes to the article behind the cursor. At the last one it runs to a number behind all
articles, which is not valid, and the pointer stays. -/
theorem Placed.next (placed : Placed session cursor) (articles : Text → Option Text) :
    session.doNext.1 = (cursor.move articles .next).1 ∧
      Placed session.doNext.2 (cursor.move articles .next).2 := by
  obtain ⟨-, current⟩ := placed.current
  obtain ⟨selected, sound, same, here⟩ := placed
  obtain ⟨before, ov, behind⟩ := cursor
  replace same : session.cont.articles = before.reverse ++ ov :: behind := same
  replace here : session.artPtr = ov.numb := here
  rw [Session.doNext, if_neg selected, if_neg (by simp [current]), here]
  cases behind with
  | nil =>
    rw [moveTo_missing (sound.beyond same (nextNumb_above session.cont ov.numb))]
    exact ⟨rfl, selected, sound, same, here⟩
  | cons next behind =>
    have member : next ∈ session.cont.articles := by simp [same]
    obtain ⟨less, between⟩ := sound.neighbours same
    rw [nextNumb_eq (sound.valid member) ov.numb less between, moveTo_article sound member]
    refine ⟨rfl, selected, sound, same.trans ?_, rfl⟩
    simp [Cursor.move, Cursor.articles]

/-- `LAST` goes to the article in front of the cursor, if there is one. At the first article it
runs to a number that is too small, and the pointer stays. -/
theorem Placed.last (placed : Placed session cursor) (articles : Text → Option Text) :
    session.doLast.1 = (cursor.move articles .last).1 ∧
      Placed session.doLast.2 (cursor.move articles .last).2 := by
  obtain ⟨-, current⟩ := placed.current
  obtain ⟨selected, sound, same, here⟩ := placed
  obtain ⟨before, ov, behind⟩ := cursor
  replace same : session.cont.articles = before.reverse ++ ov :: behind := same
  replace here : session.artPtr = ov.numb := here
  rw [Session.doLast, if_neg selected, if_neg (by simp [current]), here]
  cases before with
  | nil =>
    rw [moveTo_missing (sound.ahead same (prevNumb_below session.cont ov.numb))]
    exact ⟨rfl, selected, sound, same, here⟩
  | cons prev before =>
    have member : prev ∈ session.cont.articles := by simp [same]
    have shape : session.cont.articles = before.reverse ++ prev :: ov :: behind := by
      simp [same]
    obtain ⟨less, between⟩ := sound.neighbours shape
    rw [prevNumb_eq (sound.valid member) ov.numb less between, moveTo_article sound member]
    exact ⟨rfl, selected, sound, shape, rfl⟩

/-- `STAT` without an argument is about the article under the cursor and moves nothing. -/
theorem Placed.stat (placed : Placed session cursor) (articles : Text → Option Text) :
    (session.doStat articles []).1 = (cursor.move articles .stat).1 ∧
      Placed (session.doStat articles []).2 (cursor.move articles .stat).2 := by
  obtain ⟨member, -⟩ := placed.current
  obtain ⟨selected, sound, same, here⟩ := placed
  have positive := sound.ascending.2 cursor.here member
  have scanned : scanDecimal [] = none := rfl
  rw [Session.doStat, Session.whichId, scanned]
  simp only [if_true, Session.numbered, if_neg selected, here,
    (sound.get cursor.here.numb cursor.here).mpr ⟨member, rfl⟩]
  by_cases present : held articles cursor.here.msgId = true
  · simp only [present, if_true]
    exact ⟨by simp [Cursor.move, present, positive], selected, sound, same, here⟩
  · simp only [present]
    exact ⟨by simp [Cursor.move, present], selected, sound, same, here⟩

/-- The answers are those of the cursor, and the article pointer stays with it. One lemma for each
command. -/
theorem Placed.move (placed : Placed session cursor) (articles : Text → Option Text)
    (move : Move) :
    (session.move articles move).1 = (cursor.move articles move).1 ∧
      Placed (session.move articles move).2 (cursor.move articles move).2 := by
  cases move with
  | next => exact placed.next articles
  | last => exact placed.last articles
  | stat => exact placed.stat articles

end Moving

/-! ## The articles of a range -/

/-- The range in the loop of the source has these numbers in it. -/
theorem mem_numbers (first last n : Int) : n ∈ numbers first last ↔ first ≤ n ∧ n ≤ last := by
  rw [numbers, List.mem_map]
  constructor
  · rintro ⟨i, member, rfl⟩
    have below := List.mem_range.mp member
    omega
  · rintro ⟨above, below⟩
    exact ⟨(n - first).toNat, List.mem_range.mpr (by omega), by omega⟩

/-- They come in ascending order, so what is sent is in the order of the group. -/
theorem numbers_ordered (first last : Int) : (numbers first last).Pairwise (· < ·) := by
  rw [numbers, List.pairwise_map]
  apply List.pairwise_lt_range.imp
  intro i j less
  omega

/-- The articles with numbers from `first` to `last`, in the order of the group. -/
def Cont.within (cont : Cont) (first last : Int) : List Over :=
  cont.articles.filter fun ov => first ≤ ov.numb && ov.numb ≤ last

/-- Asking for one number after the other finds these articles in their order. So the loops of the
source over numbers are loops over articles. -/
theorem Cont.Sound.within_get (sound : cont.Sound) (first last : Int) :
    (numbers first last).filterMap cont.get = cont.within first last := by
  have irreflexive : Std.Irrefl fun ov next : Over => ov.numb < next.numb :=
    ⟨fun ov => Int.lt_irrefl ov.numb⟩
  apply List.Pairwise.eq_of_mem_iff (r := fun ov next => ov.numb < next.numb)
  · rw [List.pairwise_filterMap]
    apply (numbers_ordered first last).imp
    intro n m less ov found next found'
    rw [((sound.get n ov).mp found).2, ((sound.get m next).mp found').2]
    exact less
  · exact sound.ascending.1.filter _
  · intro ov
    simp only [List.mem_filterMap, mem_numbers, sound.get, Cont.within, List.mem_filter,
      Bool.and_eq_true, decide_eq_true_eq]
    constructor
    · rintro ⟨n, inside, member, rfl⟩
      exact ⟨member, inside⟩
    · rintro ⟨member, inside⟩
      exact ⟨ov.numb, inside, member, rfl⟩

/-- What such a loop sends is what it sends for each of the articles. -/
theorem Cont.Sound.forArticles (sound : cont.Sound) (first last : Int) (put : Over → List Byte) :
    cont.forArticles first last put = (cont.within first last).flatMap put := by
  rw [← sound.within_get, Cont.forArticles, List.filterMap_eq_flatMap_toList, List.flatMap_assoc]
  apply List.flatMap_congr
  intro n member
  cases cont.get n with
  | none => rfl
  | some ov => exact (List.append_nil _).symm

/-- Counting the valid numbers of a range is counting its articles. -/
theorem Cont.Sound.count (sound : cont.Sound) (first last : Int) :
    (numbers first last).countP cont.validNumb = (cont.within first last).length := by
  rw [← sound.within_get, List.length_filterMap_eq_countP]
  apply List.countP_congr
  intro n member
  rw [Option.isSome_iff_exists, sound.validNumb]
  exact exists_congr fun ov => (sound.get n ov).symm

/-- The articles of a range are those of the part of it that the group covers. -/
theorem Cont.Sound.within_clamped (sound : cont.Sound) (first last : Int) :
    cont.within (max first cont.first) (min last cont.last) = cont.within first last := by
  apply List.filter_congr
  intro ov member
  have above := sound.covered ov member
  have below := sound.below member
  rw [Bool.eq_iff_iff]
  simp only [Bool.and_eq_true, decide_eq_true_eq]
  omega

/-- A range that holds no number of the group holds no article. -/
theorem Cont.Sound.within_outside (sound : cont.Sound) {first last : Int}
    (outside : max first cont.first > cont.last ∨ min last cont.last < cont.first ∨ last < first) :
    cont.within first last = [] := by
  rw [Cont.within, List.filter_eq_nil_iff]
  intro ov member
  have above := sound.covered ov member
  have below := sound.below member
  simp only [Bool.and_eq_true, decide_eq_true_eq]
  omega

/-- The articles that a client asks for, before any limits are taken into account. -/
def Session.wanted (session : Session) (s : Text) : List Over :=
  session.cont.within (session.askedRange s).1 (session.askedRange s).2

/-- Limiting the range to the group loses none of them. A range that lies outside the group is
replaced by an empty one. -/
theorem parseRange_within (sound : session.cont.Sound) (s : Text) :
    session.cont.within (session.parseRange s).1 (session.parseRange s).2.1 =
      session.wanted s := by
  rw [Session.wanted, Session.parseRange]
  obtain ⟨asked, asked'⟩ := session.askedRange s
  have first : (if asked < session.cont.first then session.cont.first else asked) =
      max asked session.cont.first := by
    split_ifs <;> omega
  have last : (if asked' > session.cont.last then session.cont.last else asked') =
      min asked' session.cont.last := by
    split_ifs <;> omega
  simp only [first, last]
  by_cases outside : max asked session.cont.first > session.cont.last ∨
      min asked' session.cont.last < session.cont.first
  · rw [if_pos outside, sound.within_outside (by omega), sound.within_outside (by omega)]
  · rw [if_neg outside, sound.within_clamped]

/-- The count that comes with the range is that of the articles, so zero means that none was asked
for. -/
theorem parseRange_count (sound : session.cont.Sound) (s : Text) :
    (session.parseRange s).2.2 = (session.wanted s).length := by
  rw [← parseRange_within sound]
  exact sound.count _ _

/-- The overviews that `XOVER` sends: those of the range that the client asks for, and that of the
current article if there are none. -/
theorem xover_sent (session : Session) (sound : session.cont.Sound) (selected : session.grp ≠ [])
    (arg : Text) : ∃ first last, session.doXOver arg =
      putStat 224 (latin1 "Overview " ++ printInt first ++ 0x2d :: printInt last) ++
        (if session.wanted arg = [] then session.cont.within session.artPtr session.artPtr
          else session.wanted arg).flatMap (fun ov => putTxtLn (clipped (overviewLine ov))) ++
        putEndOfTxt := by
  have within := parseRange_within sound arg
  have count := parseRange_count sound arg
  rw [Session.doXOver, if_neg selected]
  rcases ranged : session.parseRange arg with ⟨first, last, n⟩
  rw [ranged] at within count
  simp only [sound.forArticles] at within count ⊢
  by_cases nothing : session.wanted arg = []
  · rw [nothing, List.length_nil] at count
    rw [if_pos count, if_pos nothing]
    exact ⟨_, _, rfl⟩
  · have some : n ≠ 0 := by
      rw [count]
      exact fun zero => nothing (List.length_eq_zero_iff.mp zero)
    rw [if_neg some, if_neg nothing, ← within]
    exact ⟨_, _, rfl⟩

/-- A search that succeeds everywhere can be made with a function. -/
theorem mapM_total {α β : Type} (find : α → Option β) (value : α → β) (list : List α)
    (finds : ∀ entry ∈ list, find entry = some (value entry)) :
    list.mapM find = some (list.map value) := by
  induction list with
  | nil => rfl
  | cons entry list inductionHypothesis =>
    rw [List.mapM_cons, finds entry List.mem_cons_self,
      inductionHypothesis fun other member => finds other (List.mem_cons_of_mem _ member)]
    rfl

/-- Sending what is kept is going through all and sending something for some. -/
theorem flatMap_filter {α β : Type} (keep : α → Bool) (put : α → List β) (list : List α) :
    (list.filter keep).flatMap put =
      list.flatMap fun entry => if keep entry then put entry else [] := by
  induction list with
  | nil => rfl
  | cons entry list inductionHypothesis =>
    by_cases kept : keep entry = true
    · rw [List.filter_cons_of_pos kept, List.flatMap_cons, List.flatMap_cons, if_pos kept,
        inductionHypothesis]
    · rw [List.filter_cons_of_neg kept, List.flatMap_cons, if_neg kept, inductionHypothesis]
      rfl

/-- Of the articles that a client asks for, `XPAT` sends those whose field matches the pattern,
and in their order.

The range is the one that `XOVER` would use, so what is sent is a part of the articles asked for.
Whether an article is in this part is decided by `Wld_match`, of which `wldMatch_search` says that
it decides as the items of the pattern mean, provided that its classes are closed and no field has
a NUL in it. -/
theorem xpat_matches (session : Session) (sound : session.cont.Sound) (selected : session.grp ≠ [])
    (database : ArticleDatabase) (abi : Abi) (arg whatStr s pat : Text) (what : XhdrType)
    (asked : xpatWords arg = some (whatStr, s, pat)) (known : whatXhdrField whatStr = some what)
    (range : s.head? ≠ some 0x3c) (nonempty : session.wanted s ≠ [])
    (clean : ∀ ov ∈ session.wanted s, ∀ byte ∈ getXhdrField database what ov, byte ≠ 0)
    (clean' : ∀ byte ∈ pat, byte ≠ 0) (parsed : List (Item Byte))
    (closed : items abi pat = some parsed) :
    ∃ (first last : Int) (sent : List Over), session.doXpat database abi arg =
        some (putStat 221 (whatStr ++ latin1 " header " ++ printInt first ++ 0x2d ::
            printInt last) ++
          sent.flatMap (fun ov => putTxtLn (clipped (printInt ov.numb ++ 0x20 ::
            getXhdrField database what ov))) ++ putEndOfTxt) ∧
      sent.Sublist (session.wanted s) ∧
      ∀ ov ∈ session.wanted s, ov ∈ sent ↔ Matches parsed (getXhdrField database what ov) := by
  have within := parseRange_within sound s
  have count := parseRange_count sound s
  rcases ranged : session.parseRange s with ⟨first, last, numb⟩
  rw [ranged] at within count
  have real : numb ≠ 0 := by
    rw [show numb = _ from count]
    exact fun zero => nonempty (List.length_eq_zero_iff.mp zero)
  let matching : Over → Bool := fun ov =>
    decide ((search parsed (getXhdrField database what ov)).verdict = .yes)
  let line : Over → List Byte := fun ov =>
    putTxtLn (clipped (printInt ov.numb ++ 0x20 :: getXhdrField database what ov))
  have lines : (numbers first last).mapM (fun i =>
      match session.cont.get i with
      | some ov => xpatLine database abi what pat (printInt ov.numb) ov
      | none => some []) = some ((numbers first last).map fun i =>
        match session.cont.get i with
        | some ov => if matching ov then line ov else []
        | none => []) := by
    apply mapM_total
    intro i member
    cases found : session.cont.get i with
    | none => rfl
    | some ov =>
      obtain ⟨member', rfl⟩ := (sound.get i ov).mp found
      have wanted : ov ∈ session.wanted s := by
        rw [← within]
        have inside := (mem_numbers first last ov.numb).mp member
        exact List.mem_filter.mpr ⟨member', by simpa using inside⟩
      simp only [xpatLine, wldMatch_search abi _ pat (clean ov wanted) clean' parsed closed,
        Option.bind_eq_bind, Option.bind_some]
      rfl
  refine ⟨first, last, (session.wanted s).filter matching, ?_, List.filter_sublist,
    fun ov member => ?_⟩
  · rw [Session.doXpat, asked]
    simp only [known, range, if_false, selected, ranged, real, lines, Option.bind_eq_bind,
      Option.bind_some]
    have sent := sound.forArticles first last fun ov => if matching ov then line ov else []
    rw [flatMap_filter, ← within, ← sent]
    rfl
  · rw [List.mem_filter, ← search_yes_iff]
    simp [matching, member]

/-! ## What a group has to show -/

/-- The overviews of a group, and the general information if it stands in the group. It comes
last, under the number behind the last one. -/
def Newsgroup.shown (group : Newsgroup) (stands : Bool) (generalInfo : Over) : List Over :=
  if stands then group.board.live ++ [generalInfo.setNumb (group.board.last + 1)]
  else group.board.live

/-- The last number that readers are told of. -/
def Newsgroup.lastShown (group : Newsgroup) (stands : Bool) : Int :=
  if stands then group.board.last + 1 else group.board.last

/-- The group begins with the first of them. -/
theorem Newsgroup.shown_first (group : Newsgroup) (stands : Bool) (generalInfo : Over) :
    ∀ ov ∈ (group.shown stands generalInfo).head?, ov.numb = group.first := by
  intro ov head
  rw [Newsgroup.first]
  cases live : group.board.live with
  | nil =>
    cases stands with
    | true =>
      rw [Newsgroup.shown, live] at head
      obtain rfl := Option.some.inj head
      rfl
    | false =>
      rw [Newsgroup.shown, live] at head
      contradiction
  | cons ov others =>
    have head' : (group.shown stands generalInfo).head? = some ov := by
      cases stands <;> rw [Newsgroup.shown, live] <;> rfl
    obtain rfl := Option.some.inj (head'.symm.trans head)
    rfl

variable {store : Store} {name : Text} {group : Newsgroup}

/-- What `readCont` makes of the files of a store: a content with what the group shows, and the
two numbers that belong to it. -/
theorem files_readCont (sound : store.Sound) (stored : store.groups name = some group)
    (fetchlist : Text → Bool) (generalInfo : Over) :
    let stands := store.files.needsPseudoGenInfo fetchlist name
    ∃ cont, store.files.readCont fetchlist generalInfo name = some cont ∧ cont.Sound ∧
      cont.articles = group.shown stands generalInfo ∧ cont.first = group.first ∧
      cont.last = group.lastShown stands := by
  obtain ⟨cont, read, whole, articles, last, first⟩ :=
    files_contRead (sound.groups name group stored) stored
  simp only [Spool.readCont, read, Option.bind_eq_bind, Option.bind_some]
  cases store.files.needsPseudoGenInfo fetchlist name with
  | false => exact ⟨cont, rfl, whole, articles, first, last⟩
  | true =>
    refine ⟨cont.app (some generalInfo), rfl, whole.app _, ?_, ?_, ?_⟩
    · rw [whole.app_place, Cont.place_articles, articles, last]
      rfl
    · rw [whole.app_place]
      exact first
    · rw [whole.app_place]
      exact congrArg (· + 1) last

/-- A group that is there is selected, with its first number as the current one. The answer has
the numbers of the overviews. -/
theorem doGrp_selects (named : name ≠ []) (stored : store.groups name = some group)
    {fetchlist : Text → Bool} {generalInfo : Over} {cont : Cont}
    (read : store.files.readCont fetchlist generalInfo name = some cont) (session : Session) :
    store.files.doGrp fetchlist generalInfo name session =
      some (putStat 211 (printInt cont.announced.2.2 ++ 0x20 :: printInt cont.announced.1 ++
        0x20 :: printInt cont.announced.2.1 ++ 0x20 :: name ++ latin1 " selected"),
        ⟨name, cont.first, cont⟩) := by
  have known : ¬ (store.files.groups name).isNone = true := by simp [Store.files, stored]
  rw [Spool.doGrp, if_neg named, if_neg known, Spool.changeToGrp, read]
  rfl

/-- Nothing is stripped from a text without white space. -/
theorem stripWhiteSpace_solid (text : Text) (solid : ∀ byte ∈ text, isSpace byte = false) :
    stripWhiteSpace text = text := by
  have front : text.dropWhile isSpace = text := by
    rw [List.dropWhile_eq_self_iff]
    intro nonempty
    simp [solid _ (List.getElem_mem nonempty)]
  rw [stripWhiteSpace, front, stripTrailing, List.rdropWhile_eq_self_iff]
  intro nonempty
  simp [solid _ (List.getLast_mem nonempty)]

/-- A range that is written down is the range that is asked for. -/
theorem askedRange_printInt (session : Session) (first last : Int) :
    session.askedRange (printInt first ++ 0x2d :: printInt last) = (first, last) := by
  have solid : ∀ number, ∀ byte ∈ printInt number, isSpace byte = false := by
    intro number byte member
    rcases printInt_bytes number byte member with digit | rfl
    · exact (isDigit_real byte digit).1
    · rfl
  have whole : stripWhiteSpace (printInt first ++ 0x2d :: printInt last) =
      printInt first ++ 0x2d :: printInt last := by
    apply stripWhiteSpace_solid
    intro byte member
    rcases List.mem_append.mp member with front | back
    · exact solid first byte front
    · rcases List.mem_cons.mp back with rfl | back
      · rfl
      · exact solid last byte back
  have ends : ∀ byte ∈ (0x2d :: printInt last).head?, isDigit byte = false := by
    intro byte head
    obtain rfl : 0x2d = byte := Option.some.inj head
    rfl
  simp only [Session.askedRange, whole, scanDecimal_front first _ ends, if_true,
    scanDecimal_printInt]

/-- Overviews with numbers from `first` to `last`. -/
def between (first last : Int) (ov : Over) : Bool := first ≤ ov.numb && ov.numb ≤ last

/-- The overviews that a range brings, and the first one if it brings none. -/
def ranged (shown : List Over) (first last : Int) : List Over :=
  if shown.filter (between first last) = [] then shown.head?.toList
  else shown.filter (between first last)

/-- `XOVER` with a range right after the group has been selected. The first article is the current
one then, and it is sent when the range is empty. -/
theorem xover_ranged (sound : session.cont.Sound) (selected : session.grp ≠ [])
    (here : session.artPtr = session.cont.first)
    (starts : ∀ ov ∈ session.cont.articles.head?, ov.numb = session.cont.first) (a b : Int) :
    ∃ low high, session.doXOver (printInt a ++ 0x2d :: printInt b) =
      putStat 224 (latin1 "Overview " ++ printInt low ++ 0x2d :: printInt high) ++
        (ranged session.cont.articles a b).flatMap
          (fun ov => putTxtLn (clipped (overviewLine ov))) ++ putEndOfTxt := by
  obtain ⟨low, high, sent⟩ := xover_sent session sound selected (printInt a ++ 0x2d :: printInt b)
  have wanted : session.wanted (printInt a ++ 0x2d :: printInt b) =
      session.cont.articles.filter (between a b) := by
    rw [Session.wanted, askedRange_printInt]
    rfl
  have current : session.cont.within session.artPtr session.artPtr =
      session.cont.articles.head?.toList := by
    have ordered := sound.ascending.1
    rw [Cont.within, here]
    cases articles : session.cont.articles with
    | nil => rfl
    | cons ov others =>
      rw [articles] at starts ordered
      have first : ov.numb = session.cont.first := starts ov rfl
      have others' : others.filter (fun other => session.cont.first ≤ other.numb &&
          other.numb ≤ session.cont.first) = [] := by
        rw [List.filter_eq_nil_iff]
        intro other member
        have above := List.rel_of_pairwise_cons ordered member
        simp only [Bool.and_eq_true, decide_eq_true_eq]
        omega
      rw [List.filter_cons_of_pos (by simp [first]), others']
      rfl
  rw [wanted, current] at sent
  exact ⟨low, high, sent⟩

/-- A group with articles is announced with its first and its last number. -/
theorem announced_some (sound : cont.Sound) (some : cont.articles ≠ []) :
    cont.announced = (cont.first, cont.last, cont.last - cont.first + 1) := by
  obtain ⟨ov, member⟩ := List.exists_mem_of_ne_nil cont.articles some
  have above := sound.covered ov member
  have below := sound.below member
  have positive := sound.positive
  have begins := sound.begins
  exact if_neg (by omega)

/-- A group whose first number is behind its last one is announced with zeros, which is how the
protocol says that a group is empty. -/
theorem announced_none (empty : cont.last < cont.first) : cont.announced = (0, 0, 0) :=
  if_pos (Or.inr empty)

/-- `LISTGROUP` goes through all numbers of a group and lists those of its articles, which are
also the ones in the group. -/
theorem doListgrp_lists (stored : store.groups name = some group) {fetchlist : Text → Bool}
    {generalInfo : Over} (read : store.files.readCont fetchlist generalInfo name = some cont)
    (sound : cont.Sound) (session : Session) :
    store.files.doListgrp fetchlist generalInfo name session =
      some (putStat 211 (latin1 "Article list") ++
        cont.articles.flatMap (fun ov => putTxtLn (clipped (printInt ov.numb))) ++ putEndOfTxt,
        ⟨name, cont.first, cont⟩) := by
  have known : ¬ (store.files.groups name).isNone = true := by simp [Store.files, stored]
  have changed : store.files.changeToGrp fetchlist generalInfo name =
      some ⟨name, cont.first, cont⟩ := by
    rw [Spool.changeToGrp, read]
    rfl
  have lines : (numbers cont.first cont.last).flatMap (fun i =>
      if (cont.get i).isSome then putTxtLn (clipped (printInt i)) else []) =
        cont.articles.flatMap fun ov => putTxtLn (clipped (printInt ov.numb)) := by
    calc (numbers cont.first cont.last).flatMap (fun i =>
          if (cont.get i).isSome then putTxtLn (clipped (printInt i)) else [])
        = cont.forArticles cont.first cont.last
            fun ov => putTxtLn (clipped (printInt ov.numb)) := by
          apply List.flatMap_congr
          intro i member
          cases found : cont.get i with
          | none => rfl
          | some ov =>
            obtain ⟨-, rfl⟩ := (sound.get i ov).mp found
            rfl
      _ = (cont.within cont.first cont.last).flatMap _ := sound.forArticles _ _ _
      _ = cont.articles.flatMap _ := by
          rw [Cont.within, List.filter_eq_self.mpr]
          intro ov member
          simp [sound.covered ov member, sound.below member]
  rw [Spool.doListgrp, if_neg known, changed]
  simp only [Option.bind_eq_bind, Option.bind_some, lines]

/-- A group shows nothing only if it has no article and no general information stands in it. -/
theorem Newsgroup.shown_nil {stands : Bool} {generalInfo : Over}
    (empty : group.shown stands generalInfo = []) : stands = false ∧ group.board.live = [] := by
  cases stands with
  | false => exact ⟨rfl, empty⟩
  | true => exact absurd empty (by simp [Newsgroup.shown])

/-- `GROUP`, `LISTGROUP`, `XOVER` and `LIST ACTIVE` agree about a group: `LISTGROUP` lists the
numbers of the overviews that `XOVER` brings, all of which are in the range that `GROUP` has
announced, and a group that has some is listed with this range. A group without any is
announced with zeros, and listed with a first number behind its last one.

All four answers are made from the same overviews, those that `readCont` makes of the overview
file, so that they can be read off its articles, which are those of the board. -/
theorem group_reads (store : Store) (sound : store.Sound) (fetchlist : Text → Bool)
    (generalInfo : Over) (name : Text) (named : name ≠ []) (group : Newsgroup)
    (stored : store.groups name = some group) (session : Session) :
    let shown := group.shown (store.files.needsPseudoGenInfo fetchlist name) generalInfo
    ∃ (numb first last : Int) (read : Session),
      store.files.doGrp fetchlist generalInfo name session =
        some (putStat 211 (printInt numb ++ 0x20 :: printInt first ++ 0x20 :: printInt last ++
          0x20 :: name ++ latin1 " selected"), read) ∧
      (∀ ov ∈ shown, first ≤ ov.numb ∧ ov.numb ≤ last) ∧
      store.files.doListgrp fetchlist generalInfo name session =
        some (putStat 211 (latin1 "Article list") ++
          shown.flatMap (fun ov => putTxtLn (clipped (printInt ov.numb))) ++ putEndOfTxt, read) ∧
      (∀ a b, ∃ low high, read.doXOver (printInt a ++ 0x2d :: printInt b) =
        putStat 224 (latin1 "Overview " ++ printInt low ++ 0x2d :: printInt high) ++
          (ranged shown a b).flatMap (fun ov => putTxtLn (clipped (overviewLine ov))) ++
          putEndOfTxt) ∧
      (shown ≠ [] → store.files.printActive fetchlist name group.info =
        clipped (name ++ 0x20 :: printInt last ++ 0x20 :: printInt first ++
          [0x20, group.postAllow])) ∧
      (shown = [] → numb = 0 ∧ first = 0 ∧ last = 0 ∧
        store.files.printActive fetchlist name group.info =
          clipped (name ++ 0x20 :: printInt group.board.last ++
            0x20 :: printInt (group.board.last + 1) ++ [0x20, group.postAllow])) := by
  obtain ⟨cont, read, whole, articles, first, last⟩ :=
    files_readCont sound stored fetchlist generalInfo
  intro shown
  replace articles : cont.articles = shown := articles
  have starts : ∀ ov ∈ cont.articles.head?, ov.numb = cont.first := by
    rw [articles, first]
    exact group.shown_first _ generalInfo
  refine ⟨cont.announced.2.2, cont.announced.1, cont.announced.2.1, ⟨name, cont.first, cont⟩,
    doGrp_selects named stored read session, ?_, articles ▸ doListgrp_lists stored read whole session,
    ?_, ?_, ?_⟩
  · rw [← articles]
    intro ov member
    rw [announced_some whole (List.ne_nil_of_mem member)]
    exact ⟨whole.covered ov member, whole.below member⟩
  · intro a b
    rw [← articles]
    exact xover_ranged whole named rfl starts a b
  · intro some
    rw [announced_some whole (articles ▸ some), Spool.printActive, first, last]
    rfl
  · intro empty
    obtain ⟨away, live⟩ := group.shown_nil empty
    have behind : group.first = group.board.last + 1 := by
      rw [Newsgroup.first, live]
      rfl
    rw [away] at last
    replace last : cont.last = group.board.last := last
    rw [announced_none (by omega), Spool.printActive, away]
    refine ⟨rfl, rfl, rfl, ?_⟩
    rw [Newsgroup.info, behind]
    rfl

/-! ## Sequences of requests -/

section Answering

universe u v w
variable {σ τ : Type u} {ι : Type v} {α : Type w}

/-- The answers of a machine to a sequence of requests, which it takes one after the other. -/
def answers (step : ι → σ → α × σ) : List ι → σ → List α
  | [], _ => []
  | request :: requests, state =>
    (step request state).1 :: answers step requests (step request state).2

/-- Two machines whose states can be related, so that related states give the same answer and
stay related, give the same answers to all sequences of requests. -/
theorem answers_related (step : ι → σ → α × σ) (step' : ι → τ → α × τ) (Related : σ → τ → Prop)
    (kept : ∀ request state state', Related state state' →
      (step request state).1 = (step' request state').1 ∧
        Related (step request state).2 (step' request state').2)
    (requests : List ι) (state : σ) (state' : τ) (related : Related state state') :
    answers step requests state = answers step' requests state' := by
  induction requests generalizing state state' with
  | nil => rfl
  | cons request requests inductionHypothesis =>
    obtain ⟨same, related'⟩ := kept request state state' related
    rw [answers, answers, same, inductionHypothesis _ _ related']

end Answering

/-- From the moment a group is selected, `NEXT`, `LAST` and `STAT` answer as a cursor does that
stands on its first article, in whatever order they come.

The server knows nothing of articles in a row: it counts numbers up or down until one is valid.
The proof is a simulation with the relation `Placed`; for one command it comes down to the fact
that no number between two neighbours is valid, and for a sequence of them to `answers_related`.
-/
theorem cursor_walks (store : Store) (sound : store.Sound) (fetchlist : Text → Bool)
    (generalInfo : Over) (name : Text) (named : name ≠ []) (group : Newsgroup)
    (stored : store.groups name = some group) (ov : Over) (others : List Over)
    (shown : group.shown (store.files.needsPseudoGenInfo fetchlist name) generalInfo =
      ov :: others) (session : Session) (moves : List Move) :
    ∃ reply read, store.files.doGrp fetchlist generalInfo name session = some (reply, read) ∧
      answers (Session.move store.files.articles) moves read =
        answers (Cursor.move store.articles) moves ⟨[], ov, others⟩ := by
  obtain ⟨cont, read, whole, articles, first, -⟩ :=
    files_readCont sound stored fetchlist generalInfo
  refine ⟨_, _, doGrp_selects named stored read session, ?_⟩
  apply answers_related _ _ Placed
  · intro move session cursor placed
    exact placed.move store.articles move
  · have begins := group.shown_first _ generalInfo ov (by rw [shown]; rfl)
    exact ⟨named, whole, articles.trans shown, first.trans begins.symm⟩

/-! ## A group with two articles left -/

/-- Before the first command no group is selected and no overviews have been read. -/
def newSession : Session := ⟨[], 0, ⟨0, 0, 0, []⟩⟩

/-- A group of the local server in which two of five articles are left, under the numbers 2 and 4.
-/
def trollGroup : Newsgroup :=
  ⟨⟨5, [trollPost.setNumb 2, { trollPost.setNumb 4 with subj := latin1 "Re: Hallo" }]⟩,
    localServer, 0x79⟩

/-- The group, with both articles in the database. -/
def trollStore : Store :=
  ⟨fun name => if name = latin1 "de.org.troll" then some trollGroup else none, fun _ => none⟩

/-- The store is in order. -/
theorem trollStore_sound : trollStore.Sound := by
  refine ⟨fun name group stored => ?_, by simp [trollStore]⟩
  have same : group = trollGroup := by
    replace stored : (if name = latin1 "de.org.troll" then some trollGroup else none) =
        some group := stored
    split at stored
    · exact (Option.some.inj stored).symm
    · contradiction
  subst same
  have storable : ∀ ov ∈ trollGroup.board.live, ov.Storable := by
    intro ov member
    rcases List.mem_pair.mp member with rfl | rfl
    · exact ⟨by decide, by decide, by decide, by decide, by decide, by decide +kernel⟩
    · exact ⟨by decide, by decide, by decide, by decide, by decide, by decide +kernel⟩
  refine ⟨⟨by decide, ?_, by decide +kernel⟩, by decide, storable, by decide +kernel⟩
  exact List.pairwise_pair.mpr (by decide)

/-- Two steps forward, of which the second is one too many, one back, and a look at where the
cursor is. -/
theorem cursor_walks_troll : ∃ reply read,
    trollStore.files.doGrp (fun _ => false) trollPost (latin1 "de.org.troll") newSession =
        some (reply, read) ∧
      answers (Session.move trollStore.files.articles) [.next, .next, .last, .stat] read =
        answers (Cursor.move trollStore.articles) [.next, .next, .last, .stat]
          ⟨[], trollPost.setNumb 2, [{ trollPost.setNumb 4 with subj := latin1 "Re: Hallo" }]⟩ :=
  cursor_walks trollStore trollStore_sound _ _ _ (by decide) trollGroup rfl _ _
    (by decide +kernel) _ _

/-- What the four commands say of the group. -/
theorem group_reads_troll : ∃ (numb first last : Int) (read : Session),
    trollStore.files.doGrp (fun _ => false) trollPost (latin1 "de.org.troll") newSession =
      some (putStat 211 (printInt numb ++ 0x20 :: printInt first ++ 0x20 :: printInt last ++
        0x20 :: latin1 "de.org.troll" ++ latin1 " selected"), read) ∧
    (∀ ov ∈ trollGroup.board.live, first ≤ ov.numb ∧ ov.numb ≤ last) ∧
    trollStore.files.doListgrp (fun _ => false) trollPost (latin1 "de.org.troll") newSession =
      some (putStat 211 (latin1 "Article list") ++ trollGroup.board.live.flatMap
        (fun ov => putTxtLn (clipped (printInt ov.numb))) ++ putEndOfTxt, read) ∧
    (∀ a b, ∃ low high, read.doXOver (printInt a ++ 0x2d :: printInt b) =
      putStat 224 (latin1 "Overview " ++ printInt low ++ 0x2d :: printInt high) ++
        (ranged trollGroup.board.live a b).flatMap
          (fun ov => putTxtLn (clipped (overviewLine ov))) ++ putEndOfTxt) ∧
    (trollGroup.board.live ≠ [] →
      trollStore.files.printActive (fun _ => false) (latin1 "de.org.troll") trollGroup.info =
        clipped (latin1 "de.org.troll" ++ 0x20 :: printInt last ++ 0x20 :: printInt first ++
          [0x20, 0x79])) ∧
    (trollGroup.board.live = [] → numb = 0 ∧ first = 0 ∧ last = 0 ∧
      trollStore.files.printActive (fun _ => false) (latin1 "de.org.troll") trollGroup.info =
        clipped (latin1 "de.org.troll" ++ 0x20 :: printInt trollGroup.board.last ++
          0x20 :: printInt (trollGroup.board.last + 1) ++ [0x20, 0x79])) :=
  group_reads trollStore trollStore_sound (fun _ => false) trollPost _ (by decide) trollGroup rfl _

/-- A session that has read this group. -/
def trollSession : Session :=
  ⟨latin1 "de.org.troll", 2, ⟨2, 2, 5, [some (trollPost.setNumb 2), none,
    some { trollPost.setNumb 4 with subj := latin1 "Re: Hallo" }, none]⟩⟩

/-- What the session has read is in order. -/
theorem trollSession_sound : trollSession.cont.Sound := by
  refine ⟨by decide, by decide, by decide, by decide, ?_, by decide +kernel⟩
  rintro (_ | _ | _ | _ | i) ov stored
  · obtain rfl := Option.some.inj (Option.some.inj stored)
    rfl
  · cases stored
  · obtain rfl := Option.some.inj (Option.some.inj stored)
    rfl
  · cases stored
  · cases stored

/-- The replies among the articles from 1 to 9. -/
theorem xpat_matches_troll :
    ∃ (first last : Int) (sent : List Over),
      trollSession.doXpat ⟨fun _ => none, fun _ => [], []⟩ ⟨true, 32, le_rfl⟩
          (latin1 "Subject 1-9 Re*") =
        some (putStat 221 (latin1 "Subject header " ++ printInt first ++ 0x2d :: printInt last) ++
          sent.flatMap (fun ov => putTxtLn (clipped (printInt ov.numb ++ 0x20 :: ov.subj))) ++
          putEndOfTxt) ∧
      sent.Sublist (trollSession.wanted (latin1 "1-9")) ∧
      ∀ ov ∈ trollSession.wanted (latin1 "1-9"), ov ∈ sent ↔
        Matches [.one fun letter => letter = 0x52, .one fun letter => letter = 0x65, .many]
          ov.subj :=
  xpat_matches trollSession trollSession_sound (by decide) ⟨fun _ => none, fun _ => [], []⟩
    ⟨true, 32, le_rfl⟩ (latin1 "Subject 1-9 Re*") (latin1 "Subject") (latin1 "1-9") [0x52, 0x65, 0x2a]
    .subj (by decide +kernel) (by decide) (by decide) (by decide +kernel) (by decide +kernel)
    (by decide) _ (by simp [items, backslash, questionMark, asterisk, leftBracket])

end Schnitzeljagd.News
