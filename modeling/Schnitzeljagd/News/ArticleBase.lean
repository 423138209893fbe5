import Schnitzeljagd.News.GroupInfo
import Schnitzeljagd.News.LongHeaders

/-!
# The article database

`database.c` keeps the articles in `articles.gdbm`, and one of them in the global `db`. Every
function goes by the Message-ID of an article. What the database holds was written by `saveArt`
or can be read like it; how the server lists and expires its articles is not modelled here.
-/

namespace Schnitzeljagd.News

open Foundations.CArithmetic Foundations.CString Foundations.PerlText Foundations.LockedSharing
open Foundations.RecordCache Foundations.Scanning

/-! ## What is loaded can be saved -/

/-- A line that has been read fits where lines are kept, since the loop stops in time. -/
theorem getLine_fits {read text line rest : Text}
    (got : getLine read text = some (some (line, rest))) (oneLine : newline ∉ read)
    (room : read.length + 1 < maxChar) : OneLine line := by
  induction text generalizing read with
  | nil => cases got
  | cons byte text inductionHypothesis =>
    rw [getLine.eq_def] at got
    simp only at got
    split at got
    · obtain ⟨rfl, -⟩ := Prod.mk.inj (Option.some.inj (Option.some.inj got))
      exact ⟨oneLine, by omega⟩
    · next other =>
      have oneLine' : newline ∉ read ++ [byte] := by
        simp [oneLine, Ne.symm other]
      split at got
      · split at got
        · contradiction
        · obtain ⟨rfl, -⟩ := Prod.mk.inj (Option.some.inj (Option.some.inj got))
          exact ⟨oneLine', by simpa using room⟩
      · exact inductionHypothesis got oneLine' (by simp; omega)

/-- The same for a whole line, of which nothing has been read before. -/
theorem utlGetLn_fits {p line rest : Text} (got : (utlGetLn p).join = some (line, rest)) :
    OneLine line :=
  getLine_fits (Option.join_eq_some_iff.mp got) (by simp) (by simp [maxChar])

/-- Whatever is loaded fits on its lines again, also from a record that was not written by this
program. -/
theorem loadArt_storable {val : Text} {article : Article} (loaded : loadArt val = some article) :
    article.Storable := by
  simp only [loadArt, loadFields, Option.bind_eq_bind, Option.bind_eq_some_iff] at loaded
  obtain ⟨_, -, _, -, _, ⟨_, subj, _, sender, _, date, _, ref, _, xref, fields⟩, _, -, _, -, same⟩ :=
    loaded
  obtain rfl := Option.some.inj fields
  obtain rfl := Option.some.inj same
  exact ⟨utlGetLn_fits subj, utlGetLn_fits sender, utlGetLn_fits date, utlGetLn_fits ref,
    utlGetLn_fits xref⟩

/-! ## The functions -/

/-- `loadArt` and `saveArt`, which saves nothing without a Message-ID -/
def articleFormat : Format Text Text Article :=
  ⟨cpyStr, loadArt, saveArt, fun msgId => msgId ≠ []⟩

/-- `db`, except for the database and the name of the host: the Message-ID of the article that was
loaded last, and the article. -/
abbrev Db := Cache Text Article

/-- `articles.gdbm`, of which only the record of each Message-ID matters. -/
abbrev ArticleFile := Text → Option Text

/-- What a function of `database.c` returns. A text and an overview may be the null pointer. -/
inductive ArticleAnswer where
  | bool (answer : Bool)
  | number (answer : Int)
  | text (answer : Option Text)
  | ov (answer : Option Over)
  | done
deriving DecidableEq

/-- What a function of `database.c` does to the global and to the database. There is no result
where it reads or writes outside a buffer. -/
abbrev ArticleFunction := Db → ArticleFile → Option (ArticleAnswer × Db × ArticleFile)

/-- `Db_contains`, which takes the article in the global for one of the database. -/
def dbContains (msgId : Text) : ArticleFunction := fun db dbf =>
  some (.bool (msgId = db.name || (dbf msgId).isSome), db, dbf)

/-- `Db_prepareEntry` at the time `now`: the overview of an article is entered, and the article is
marked as not downloaded. -/
def dbPrepareEntry (now : BitVec 32) (grp : Text) (numb : Int) (ov : Over) : ArticleFunction :=
  fun _ dbf => do
    let msgId ← cpyStr ov.msgId
    let subj ← cpyStr ov.subj
    let sender ← cpyStr ov.sender
    let date ← cpyStr ov.date
    let ref ← cpyStr ov.ref
    let db : Db := ⟨msgId, ⟨notDownloaded, now, subj, sender, date, ref,
      clipped (reference grp numb), ov.bytes, ov.lines, []⟩⟩
    some (.bool (articleFormat.saves msgId), db, articleFormat.save dbf db)

/-- `Db_storeArt`: the text is added to an article that was entered before, and the article is
saved. One that comes without its body is changed in the global alone. -/
def dbStoreArt (now : BitVec 32) (artTxt msgId : Text) : ArticleFunction := fun db dbf => do
  let (found, db) ← articleFormat.load dbf db msgId
  if found then
    let (stored, article) ← db.value.storeArt now artTxt
    let db : Db := ⟨db.name, article⟩
    if stored then
      some (.bool (articleFormat.saves db.name), db, articleFormat.save dbf db)
    else some (.bool false, db, dbf)
  else some (.bool false, db, dbf)

/-- The assignment of `Db_setStatus`, which cannot fail. -/
def Article.setStatus (status : BitVec 32) (article : Article) : Option Article :=
  some { article with status }

/-- The assignment of `Db_updateLastAccess`, which cannot fail either. -/
def Article.setLastAccess (lastAccess : BitVec 32) (article : Article) : Option Article :=
  some { article with lastAccess }

/-- `Utl_cpyStr( db.xref, xref )`, which has no result for a text that does not fit -/
def Article.setXref (value : Text) (article : Article) : Option Article :=
  (cpyStr value).map fun xref => { article with xref }

/-- `Db_setStatus`, which changes nothing if the article cannot be loaded. -/
def dbSetStatus (status : BitVec 32) : Text → ArticleFunction :=
  articleFormat.change (Article.setStatus status) .done

/-- `Db_updateLastAccess` at the time `now`, for an article that can be loaded. -/
def dbUpdateLastAccess (now : BitVec 32) : Text → ArticleFunction :=
  articleFormat.change (Article.setLastAccess now) .done

/-- `Db_setXref`, for an article that can be loaded. -/
def dbSetXref (xref : Text) : Text → ArticleFunction :=
  articleFormat.change (Article.setXref xref) .done

/-- The words of `X-NOFFLE-Status`, one for each flag. -/
def statusWords (status : BitVec 32) : Text :=
  (if status &&& 1 ≠ 0 then latin1 " INTERESTING" else []) ++
    ((if status &&& notDownloaded ≠ 0 then latin1 " NOT_DOWNLOADED" else []) ++
      if status &&& retrievingFailed ≠ 0 then latin1 " RETRIEVING_FAILED" else [])

/-- What of the text belongs to the header: all up to the first two newlines in a row. -/
def headerPart : Text → Text
  | byte :: next :: rest =>
    if byte = newline ∧ next = newline then [newline] else byte :: headerPart (next :: rest)
  | text => text

/-- `Db_header` of an article, where `stamp` prints a time and `xrefHost` is `db.xrefHost` -/
def Article.header (stamp : BitVec 32 → Text) (xrefHost msgId : Text) (article : Article) : Text :=
  clipped (latin1 "Message-ID: " ++ (msgId ++ (latin1 "\nX-NOFFLE-Status:" ++
      (statusWords article.status ++ (latin1 "\nX-NOFFLE-LastAccess: " ++
        (stamp article.lastAccess ++ [newline])))))) ++
    (appendLongHeader (latin1 "Subject:") article.subj ++
      (appendLongHeader (latin1 "From:") article.sender ++
        (appendLongHeader (latin1 "Date:") article.date ++
          (appendLongHeader (latin1 "References:") article.ref ++
            (latin1 "Bytes: " ++ (decimal article.bytes.toNat ++ newline ::
              (latin1 "Lines: " ++ (decimal article.lines.toNat ++ newline ::
                (appendLongHeader xrefHost article.xref ++ headerPart article.txt)))))))))

/-- `Db_over` of an article, without a number, which the content of a group gives it. -/
def Article.overview (msgId : Text) (article : Article) : Over :=
  ⟨0, article.subj, article.sender, article.date, msgId, article.ref, article.bytes,
    article.lines⟩

/-- `Db_header`, the header that a reader is sent, with the null pointer for an article that
cannot be loaded. -/
def dbHeader (stamp : BitVec 32 → Text) (xrefHost msgId : Text) : ArticleFunction :=
  articleFormat.ask (fun article => .text (some (article.header stamp xrefHost msgId)))
    (.text none) msgId

/-- `Db_body`, what is behind the header in the text, empty for an article that cannot be loaded.
-/
def dbBodyOf : Text → ArticleFunction :=
  articleFormat.ask (fun article => .text (some (dbBody article.txt))) (.text (some []))

/-- `Db_status`, zero for an article that cannot be loaded. -/
def dbStatus : Text → ArticleFunction :=
  articleFormat.ask (fun article => .number article.status.toInt) (.number 0)

/-- `Db_lastAccess` of the article, if it can be loaded, and an answer that is no time otherwise.
-/
def dbLastAccess : Text → ArticleFunction :=
  articleFormat.ask (fun article => .number article.lastAccess.toInt) (.number (-1))

/-- `Db_ref`, the identifiers that the article refers to, empty for an article that cannot be
loaded. -/
def dbRef : Text → ArticleFunction :=
  articleFormat.ask (fun article => .text (some article.ref)) (.text (some []))

/-- `Db_xref`, the groups and numbers of the article, likewise. -/
def dbXref : Text → ArticleFunction :=
  articleFormat.ask (fun article => .text (some article.xref)) (.text (some []))

/-- `Db_from`, the sender of the article, likewise. -/
def dbFrom : Text → ArticleFunction :=
  articleFormat.ask (fun article => .text (some article.sender)) (.text (some []))

/-- `Db_date`, the date as the article has it, likewise. -/
def dbDate : Text → ArticleFunction :=
  articleFormat.ask (fun article => .text (some article.date)) (.text (some []))

/-- `Db_over`, the overview of the article, with the null pointer for one that cannot be loaded.
-/
def dbOver (msgId : Text) : ArticleFunction :=
  articleFormat.ask (fun article => .ov (some (article.overview msgId))) (.ov none) msgId

/-- `Db_delete`, which empties the global if it holds this article. -/
def dbDelete (msgId : Text) : ArticleFunction := fun db dbf =>
  some (.done, if msgId = db.name then { db with name := [] } else db,
    Function.update dbf msgId none)

/-- `Db_close`, which makes sure that the next call loads its article anew. -/
def dbClose (db : Db) : Db := { db with name := [] }

/-! ## Calls and what they stand for -/

/-- A call of a function of `database.c`, except those that go through the articles in the order
of the database. -/
inductive ArticleCall where
  | dbContains (msgId : Text)
  | dbPrepareEntry (now : BitVec 32) (grp : Text) (numb : Int) (ov : Over)
  | dbStoreArt (now : BitVec 32) (artTxt msgId : Text)
  | dbSetStatus (status : BitVec 32) (msgId : Text)
  | dbUpdateLastAccess (now : BitVec 32) (msgId : Text)
  | dbSetXref (xref msgId : Text)
  | dbHeader (msgId : Text)
  | dbBody (msgId : Text)
  | dbStatus (msgId : Text)
  | dbLastAccess (msgId : Text)
  | dbRef (msgId : Text)
  | dbXref (msgId : Text)
  | dbFrom (msgId : Text)
  | dbDate (msgId : Text)
  | dbOver (msgId : Text)
  | dbDelete (msgId : Text)

/-- The function that a call is a call of, with the arguments of the call. -/
def ArticleCall.function (stamp : BitVec 32 → Text) (xrefHost : Text) :
    ArticleCall → ArticleFunction
  | .dbContains msgId => News.dbContains msgId
  | .dbPrepareEntry now grp numb ov => News.dbPrepareEntry now grp numb ov
  | .dbStoreArt now artTxt msgId => News.dbStoreArt now artTxt msgId
  | .dbSetStatus status msgId => News.dbSetStatus status msgId
  | .dbUpdateLastAccess now msgId => News.dbUpdateLastAccess now msgId
  | .dbSetXref xref msgId => News.dbSetXref xref msgId
  | .dbHeader msgId => News.dbHeader stamp xrefHost msgId
  | .dbBody msgId => News.dbBodyOf msgId
  | .dbStatus msgId => News.dbStatus msgId
  | .dbLastAccess msgId => News.dbLastAccess msgId
  | .dbRef msgId => News.dbRef msgId
  | .dbXref msgId => News.dbXref msgId
  | .dbFrom msgId => News.dbFrom msgId
  | .dbDate msgId => News.dbDate msgId
  | .dbOver msgId => News.dbOver msgId
  | .dbDelete msgId => News.dbDelete msgId

/-- The article database with `db` in front of it, as a component whose global must be closed
before another process goes on. -/
def articleBase (stamp : BitVec 32 → Text) (xrefHost : Text) :
    Component Db ArticleFile ArticleCall ArticleAnswer :=
  ⟨ArticleCall.function stamp xrefHost, dbClose⟩

/-- The articles by Message-ID, and those of which one was stored that has no body. -/
abbrev Articles := Register Text Article

/-- An article or none that a function may be asked for: its name fits into a buffer, is not
empty, and is not that of an article left in the global without its body. -/
structure Held (articles : Articles) (msgId : Text) : Prop where
  short : msgId.length < maxChar
  named : msgId ≠ []
  trusted : ¬ articles.spent msgId

/-- The article of `Db_prepareEntry`: the fields of the overview, the group and the number in
`Xref`, no text, and a status that says so. -/
def prepared (now : BitVec 32) (grp : Text) (numb : Int) (ov : Over) : Article :=
  ⟨notDownloaded, now, ov.subj, ov.sender, ov.date, ov.ref, clipped (reference grp numb), ov.bytes,
    ov.lines, []⟩

/-- `Db_storeArt` without `db`. An article that has its body already is left alone, one that
comes without a body is not stored but left in `db`. -/
def Articles.storeArt (articles : Articles) (now : BitVec 32) (artTxt msgId : Text) :
    ArticleAnswer × Articles :=
  match articles.records msgId with
  | none => (.bool false, articles)
  | some article =>
    match article.storeArt now artTxt with
    | none => (.bool false, articles)
    | some (true, article) => (.bool true, articles.set msgId (some article))
    | some (false, _) =>
      (.bool false, if article.status &&& notDownloaded = 0 then articles else articles.spend msgId)

/-- What a call answers and changes, said of the articles alone: no global is mentioned. -/
def ArticleCall.meaning (stamp : BitVec 32 → Text) (xrefHost : Text) :
    ArticleCall → Articles → ArticleAnswer × Articles
  | .dbContains msgId, articles => (.bool (articles.records msgId).isSome, articles)
  | .dbPrepareEntry now grp numb ov, articles =>
    (.bool true, articles.set ov.msgId (some (prepared now grp numb ov)))
  | .dbStoreArt now artTxt msgId, articles => articles.storeArt now artTxt msgId
  | .dbSetStatus status msgId, articles =>
    articles.change msgId (Article.setStatus status) .done
  | .dbUpdateLastAccess now msgId, articles =>
    articles.change msgId (Article.setLastAccess now) .done
  | .dbSetXref xref msgId, articles =>
    articles.change msgId (fun article => some { article with xref }) .done
  | .dbHeader msgId, articles =>
    articles.ask msgId (fun article => .text (some (article.header stamp xrefHost msgId)))
      (.text none)
  | .dbBody msgId, articles =>
    articles.ask msgId (fun article => .text (some (News.dbBody article.txt))) (.text (some []))
  | .dbStatus msgId, articles =>
    articles.ask msgId (fun article => .number article.status.toInt) (.number 0)
  | .dbLastAccess msgId, articles =>
    articles.ask msgId (fun article => .number article.lastAccess.toInt) (.number (-1))
  | .dbRef msgId, articles =>
    articles.ask msgId (fun article => .text (some article.ref)) (.text (some []))
  | .dbXref msgId, articles =>
    articles.ask msgId (fun article => .text (some article.xref)) (.text (some []))
  | .dbFrom msgId, articles =>
    articles.ask msgId (fun article => .text (some article.sender)) (.text (some []))
  | .dbDate msgId, articles =>
    articles.ask msgId (fun article => .text (some article.date)) (.text (some []))
  | .dbOver msgId, articles =>
    articles.ask msgId (fun article => .ov (some (article.overview msgId))) (.ov none)
  | .dbDelete msgId, articles => (.done, articles.set msgId none)

/-- The fields of an article that is entered fit on their lines, and it has a Message-ID. -/
structure Over.Enters (ov : Over) : Prop where
  subj : OneLine ov.subj
  sender : OneLine ov.sender
  date : OneLine ov.date
  ref : OneLine ov.ref
  short : ov.msgId.length < maxChar
  named : ov.msgId ≠ []

/-- What a call needs: texts that fit, and not an article that could not be stored since the
database was opened, except to delete it or to enter it again. -/
def ArticleCall.Admitted : ArticleCall → Articles → Prop
  | .dbDelete _, _ => True
  | .dbPrepareEntry _ grp _ ov, _ => ov.Enters ∧ newline ∉ grp
  | .dbStoreArt now artTxt msgId, articles => Held articles msgId ∧
    ∀ article, articles.records msgId = some article → article.storeArt now artTxt ≠ none
  | .dbSetXref xref msgId, articles => Held articles msgId ∧ OneLine xref
  | .dbContains msgId, articles => Held articles msgId
  | .dbSetStatus _ msgId, articles => Held articles msgId
  | .dbUpdateLastAccess _ msgId, articles => Held articles msgId
  | .dbHeader msgId, articles => Held articles msgId
  | .dbBody msgId, articles => Held articles msgId
  | .dbStatus msgId, articles => Held articles msgId
  | .dbLastAccess msgId, articles => Held articles msgId
  | .dbRef msgId, articles => Held articles msgId
  | .dbXref msgId, articles => Held articles msgId
  | .dbFrom msgId, articles => Held articles msgId
  | .dbDate msgId, articles => Held articles msgId
  | .dbOver msgId, articles => Held articles msgId

/-- The meaning of calls as a specification of the component. Closing gives up the copy and leaves
the articles as they are. -/
def articleMeaning (stamp : BitVec 32 → Text) (xrefHost : Text) :
    Meaning Articles ArticleCall ArticleAnswer :=
  ⟨ArticleCall.meaning stamp xrefHost, Register.close, ArticleCall.Admitted⟩

/-! ## The copy in `db` is not seen -/

section Calls

variable {db : Db} {dbf : ArticleFile} {articles : Articles} {msgId : Text}

/-- A question to `db` is answered from the database, whichever article is loaded. Afterwards the
one that was asked for is. -/
theorem articles_ask (coherent : Coherent articleFormat (· = []) db dbf articles)
    (held : Held articles msgId) (answer : Article → ArticleAnswer) (missing : ArticleAnswer) :
    ∃ db' dbf', articleFormat.ask answer missing msgId db dbf =
        some ((articles.ask msgId answer missing).1, db', dbf') ∧
      Coherent articleFormat (· = []) db' dbf' (articles.ask msgId answer missing).2 :=
  coherent.ask held.named held.trusted (cpyStr_fitting held.short) answer missing

/-- A change to `db` is a change in the database, since every function saves what it has changed.
-/
theorem articles_change (coherent : Coherent articleFormat (· = []) db dbf articles)
    (held : Held articles msgId) (next : Article → Option Article)
    (storable : ∀ article, article.Storable →
      ∃ article', next article = some article' ∧ article'.Storable) :
    ∃ db' dbf', articleFormat.change next .done msgId db dbf =
        some ((articles.change msgId next ArticleAnswer.done).1, db', dbf') ∧
      Coherent articleFormat (· = []) db' dbf'
        (articles.change msgId next ArticleAnswer.done).2 := by
  apply coherent.change held.named held.trusted (cpyStr_fitting held.short) next ArticleAnswer.done
    (decide_eq_true held.named)
  intro article found
  obtain ⟨val, -, loaded⟩ := coherent.stands.found found
  obtain ⟨article', changed, storable'⟩ := storable article (loadArt_storable loaded)
  exact ⟨article', changed, loadArt_saveArt article' storable'⟩

/-- A field that fits on a line is copied whole, and nothing else of the article is changed. -/
theorem setXref_oneLine {xref : Text} (oneLine : OneLine xref) :
    Article.setXref xref = fun article => some { article with xref } := by
  funext article
  rw [Article.setXref, cpyStr_fitting oneLine.2, Option.map_some]

/-- What the global has loaded is in the database, so looking at the global first makes no
difference. -/
theorem articles_contains (coherent : Coherent articleFormat (· = []) db dbf articles)
    (held : Held articles msgId) :
    (decide (msgId = db.name) || (dbf msgId).isSome) = (articles.records msgId).isSome := by
  rw [coherent.stands.isSome msgId]
  by_cases same : msgId = db.name
  · subst same
    rw [coherent.hit held.named held.trusted]
    simp
  · simp [same]

/-- Storing a text leaves the fields of the overview as they were, so that the article still fits
on its lines. -/
theorem storeArt_storable {article next : Article} {now : BitVec 32} {artTxt : Text} {stored : Bool}
    (storable : article.Storable) (called : article.storeArt now artTxt = some (stored, next)) :
    next.Storable := by
  rw [Article.storeArt] at called
  split at called
  · obtain ⟨-, rfl⟩ := Prod.mk.inj (Option.some.inj called)
    exact storable
  · obtain ⟨⟨status, txt, body⟩, -, rest⟩ := Option.bind_eq_some_iff.mp called
    cases body with
    | none =>
      obtain ⟨-, rfl⟩ := Prod.mk.inj (Option.some.inj rest)
      exact ⟨storable.subj, storable.sender, storable.date, storable.ref, storable.xref⟩
    | some body =>
      obtain ⟨txt', -, rest⟩ := Option.bind_eq_some_iff.mp rest
      obtain ⟨-, rfl⟩ := Prod.mk.inj (Option.some.inj rest)
      exact ⟨storable.subj, storable.sender, storable.date, storable.ref, storable.xref⟩

/-- Storing a text is a change in the database, unless the article has its body already or comes
without one.

In the first case nothing is saved and the copy stays as it was loaded. In the second the copy has
been changed and not saved, so that its name is spent. -/
theorem articles_storeArt (coherent : Coherent articleFormat (· = []) db dbf articles)
    (held : Held articles msgId) (now : BitVec 32) (artTxt : Text)
    (whole : ∀ article, articles.records msgId = some article →
      article.storeArt now artTxt ≠ none) :
    ∃ db' dbf', dbStoreArt now artTxt msgId db dbf =
        some ((articles.storeArt now artTxt msgId).1, db', dbf') ∧
      Coherent articleFormat (· = []) db' dbf' (articles.storeArt now artTxt msgId).2 := by
  rw [Articles.storeArt, dbStoreArt]
  cases found : articles.records msgId with
  | none =>
    refine ⟨db, dbf, ?_, coherent⟩
    simp only [coherent.load_missing held.named held.trusted found, Option.bind_eq_bind,
      Option.bind_some, Bool.false_eq_true, if_false]
  | some article =>
    have loaded := coherent.load_found held.named held.trusted (cpyStr_fitting held.short) found
    obtain ⟨⟨stored, next⟩, called⟩ := Option.ne_none_iff_exists'.mp (whole article found)
    obtain ⟨val, -, read⟩ := coherent.stands.found found
    have storable := storeArt_storable (loadArt_storable read) called
    have saves : articleFormat.saves msgId = true := decide_eq_true held.named
    cases stored with
    | true =>
      refine ⟨⟨msgId, next⟩, articleFormat.save dbf ⟨msgId, next⟩, ?_, ?_⟩
      · simp only [loaded, called, saves, Option.bind_eq_bind, Option.bind_some, if_true]
      · simp only [called]
        exact coherent.saved saves (loadArt_saveArt next storable)
    | false =>
      refine ⟨⟨msgId, next⟩, dbf, ?_, ?_⟩
      · simp only [loaded, called, Option.bind_eq_bind, Option.bind_some, if_true,
          Bool.false_eq_true, if_false]
      · simp only [called]
        split
        · next retrieved =>
          rw [Article.storeArt, if_pos retrieved] at called
          obtain ⟨-, rfl⟩ := Prod.mk.inj (Option.some.inj called)
          exact coherent.loaded found
        · exact coherent.spoiled msgId next

/-- Deleting an article takes it out of both places, so nothing is left to be trusted by mistake.
-/
theorem articles_delete (coherent : Coherent articleFormat (· = []) db dbf articles)
    (msgId : Text) :
    Coherent articleFormat (· = []) (if msgId = db.name then { db with name := [] } else db)
      (Function.update dbf msgId none) (articles.set msgId none) := by
  by_cases same : msgId = db.name
  · rw [if_pos same]
    exact .opened (coherent.stands.update msgId none none rfl) rfl
  · rw [if_neg same]
    exact coherent.erased (Or.inr (Ne.symm same))

/-- What is noted of a group and a number fits on a line, cut if it must be. -/
theorem clipped_reference {grp : Text} (oneLine : newline ∉ grp) (numb : Int) :
    OneLine (clipped (reference grp numb)) := by
  constructor
  · intro member
    have member' := List.mem_of_mem_take member
    rw [reference, List.mem_append, List.mem_cons] at member'
    rcases member' with inGrp | colon | inNumber
    · exact oneLine inGrp
    · exact absurd colon (by decide)
    · exact (printInt_separate numb).2.1 inNumber
  · rw [clipped, List.length_take, maxChar]
    omega

end Calls

/-- The functions of `database.c` answer from the database, whatever `db` holds. The relation
`Coherent` says that what is loaded is what the database has, unless it is an article left without
its body.

One case for each function. Those that ask and those that change a field are instances of what
holds for every cached file; only entering, storing and deleting an article have a way of their
own. -/
theorem articleBase_simulates (stamp : BitVec 32 → Text) (xrefHost : Text) :
    Simulates (articleBase stamp xrefHost) (articleMeaning stamp xrefHost) (fun db => db.name = [])
      (fun dbf articles => Stands loadArt dbf articles.records)
      (Coherent articleFormat (· = [])) where
  opened db dbf articles closed stands := .opened stands closed
  closed db dbf articles coherent := ⟨rfl, coherent.stands⟩
  called call db dbf articles admitted coherent := by
    cases call with
    | dbContains msgId =>
      refine ⟨db, dbf, ?_, coherent⟩
      show some (ArticleAnswer.bool (msgId = db.name || (dbf msgId).isSome), db, dbf) = _
      rw [articles_contains coherent admitted]
      rfl
    | dbPrepareEntry now grp numb ov =>
      obtain ⟨enters, oneLine⟩ := admitted
      have storable : (prepared now grp numb ov).Storable :=
        ⟨enters.subj, enters.sender, enters.date, enters.ref, clipped_reference oneLine numb⟩
      have saves : articleFormat.saves ov.msgId = true := decide_eq_true enters.named
      refine ⟨_, _, ?_, coherent.saved saves (loadArt_saveArt _ storable)⟩
      show dbPrepareEntry now grp numb ov db dbf = _
      simp only [dbPrepareEntry, cpyStr_fitting enters.short, cpyStr_fitting enters.subj.2,
        cpyStr_fitting enters.sender.2, cpyStr_fitting enters.date.2, cpyStr_fitting enters.ref.2,
        saves, Option.bind_eq_bind, Option.bind_some]
      rfl
    | dbStoreArt now artTxt msgId =>
      exact articles_storeArt coherent admitted.1 now artTxt admitted.2
    | dbSetStatus status msgId =>
      exact articles_change coherent admitted (Article.setStatus status) fun _ storable =>
        ⟨_, rfl, storable.subj, storable.sender, storable.date, storable.ref, storable.xref⟩
    | dbUpdateLastAccess now msgId =>
      exact articles_change coherent admitted (Article.setLastAccess now) fun _ storable =>
        ⟨_, rfl, storable.subj, storable.sender, storable.date, storable.ref, storable.xref⟩
    | dbSetXref xref msgId =>
      show ∃ db' dbf', dbSetXref xref msgId db dbf = _ ∧ _
      rw [dbSetXref, setXref_oneLine admitted.2]
      exact articles_change coherent admitted.1 _ fun _ storable =>
        ⟨_, rfl, storable.subj, storable.sender, storable.date, storable.ref, admitted.2⟩
    | dbHeader msgId =>
      exact articles_ask coherent admitted
        (fun article => .text (some (article.header stamp xrefHost msgId))) (.text none)
    | dbBody msgId =>
      exact articles_ask coherent admitted (fun article => .text (some (dbBody article.txt)))
        (.text (some []))
    | dbStatus msgId =>
      exact articles_ask coherent admitted (fun article => .number article.status.toInt) (.number 0)
    | dbLastAccess msgId =>
      exact articles_ask coherent admitted (fun article => .number article.lastAccess.toInt)
        (.number (-1))
    | dbRef msgId =>
      exact articles_ask coherent admitted (fun article => .text (some article.ref))
        (.text (some []))
    | dbXref msgId =>
      exact articles_ask coherent admitted (fun article => .text (some article.xref))
        (.text (some []))
    | dbFrom msgId =>
      exact articles_ask coherent admitted (fun article => .text (some article.sender))
        (.text (some []))
    | dbDate msgId =>
      exact articles_ask coherent admitted (fun article => .text (some article.date))
        (.text (some []))
    | dbOver msgId =>
      exact articles_ask coherent admitted (fun article => .ov (some (article.overview msgId)))
        (.ov none)
    | dbDelete msgId => exact ⟨_, _, rfl, articles_delete coherent msgId⟩

end Schnitzeljagd.News
