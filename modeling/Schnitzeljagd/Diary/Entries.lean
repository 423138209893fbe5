import Schnitzeljagd.Diary.Answers

/-!
# The entries that LIST and GET show

The loading loop pushes a title for every entry file with a line in it and a body for
every entry file. GET takes the number it is given as it stands, compares it with the
number of bodies and leaves the rounding to the subtraction and to the array. A body is
sent exactly for numbers above zero up to the number of entries, and the index is the one
before the floor of the number. For a number so small that one less than it is rounded to
minus one, the index is minus one instead, and the last entry is sent.

LIST counts the titles. It counts as GET does unless an entry file is empty.
-/

namespace Schnitzeljagd.Diary

open Foundations.PerlText Foundations.LineFile Foundations.Binary64 Foundations.Loops

/-- The first line of an entry file, if there is one. -/
def title (entry : Text) : Option Text := (readLine entry).map fun (line, _) => chomp line

/-- The lines behind the first one. -/
def body (entry : Text) : Text :=
  match readLine entry with
  | some (_, rest) => rest
  | none => []

/-- Only an empty file has no first line. -/
theorem title_none (entry : Text) : title entry = none ↔ entry = [] := by
  rw [title, Option.map_eq_none_iff, readLine_none]

/-- The loading loop, from the arrays it has filled so far. -/
theorem load_fold (entries titles msgs : List Text) :
    entries.foldl (fun (titles, msgs) entry =>
      match readLine entry with
      | some (line, rest) => (titles ++ [chomp line], msgs ++ [rest])
      | none => (titles, msgs ++ [[]])) (titles, msgs) =
        (titles ++ entries.filterMap title, msgs ++ entries.map body) := by
  induction entries generalizing titles msgs with
  | nil => simp
  | cons entry entries inductionHypothesis =>
    rw [List.foldl_cons]
    cases first : readLine entry with
    | none =>
      have noTitle : title entry = none := by rw [title, first]; rfl
      have noBody : body entry = [] := by rw [body, first]
      simp only [inductionHypothesis, List.filterMap_cons, noTitle, List.map_cons, noBody,
        List.append_assoc, List.singleton_append]
    | some parts =>
      have itsTitle : title entry = some (chomp parts.1) := by rw [title, first]; rfl
      have itsBody : body entry = parts.2 := by rw [body, first]
      simp only [inductionHypothesis, List.filterMap_cons, itsTitle, List.map_cons, itsBody,
        List.append_assoc, List.singleton_append]

/-- The titles are those of the files that have one, in their order. -/
theorem diaryTitles_eq (server : Server) : server.diaryTitles = server.entries.filterMap title :=
  congrArg Prod.fst (load_fold server.entries [] [])

/-- The bodies are those of all files. -/
theorem diaryMsgs_eq (server : Server) : server.diaryMsgs = server.entries.map body :=
  congrArg Prod.snd (load_fold server.entries [] [])

/-! ## GET -/

/-- The place that an array is read at: a negative one counts from the end. -/
theorem element_place (array : List Text) (index : Rat) :
    element array index =
      if 0 ≤ truncate index then array.getD (truncate index).toNat []
      else if 0 ≤ truncate index + array.length then
        array.getD (truncate index + array.length).toNat []
      else [] :=
  rfl

/-- One less than a number in the range of the array reads a place of the array, if the
number is not so small that it is lost in the subtraction. -/
theorem element_inside (array : List Text) (number : Rat) (kept : IsScalar number)
    (more : 1 / 2 ^ 54 < number) (inside : number ≤ array.length) :
    array[(max 1 ⌊number⌋).toNat - 1]? = some (element array (minus number 1)) := by
  obtain ⟨nonneg, below⟩ : 0 ≤ truncate (minus number 1) ∧
      truncate (minus number 1) < array.length :=
    truncate_pred_bounds number array.length kept more inside
  have place : (truncate (minus number 1)).toNat = (max 1 ⌊number⌋).toNat - 1 := by
    rw [minus, truncate_pred number kept more]
    omega
  have within : (max 1 ⌊number⌋).toNat - 1 < array.length := by
    rw [← place]
    exact Int.toNat_lt nonneg |>.mpr below
  rw [element_place, if_pos nonneg, place, List.getD_eq_getElem _ _ within,
    List.getElem?_eq_getElem within]

/-- What is sent with an entry cannot be taken for the refusal. -/
theorem getText_ne_refusal (num sentBody : Text) :
    ackText (latin1 "GET " ++ num ++ [newline] ++ sentBody) ≠ ackText (latin1 "GET <> !") := by
  intro same
  have member : newline ∈ latin1 "GET <> !" := by
    rw [← ackText_injective same]
    simp
  exact absurd member (by decide)

/-- GET with an argument in an authenticated session sends the body at the place that
the number reads, or a refusal. Both are acknowledged. -/
theorem diaryGet_num (server : Server) (sends : Nat → Bool) (num : Text) (rest : List Text)
    (session : Session server.perl) (authenticated : session.authenticated = true) :
    diaryGet server sends (num :: rest) session =
      ack sends (if numify num ≤ server.diaryMsgs.length ∧ 0 < numify num then
          latin1 "GET " ++ num ++ [newline] ++ element server.diaryMsgs (minus (numify num) 1)
        else latin1 "GET <> !") session := by
  rw [diaryGet, if_neg (by simp [authenticated])]
  split <;> rfl

/-- GET stays inside the diary: what it has added to the messages of a session is a body
exactly for a number above zero up to the number of entries, the index it uses is one of the
array, and the body is that of the entry at the floor of the number, or of the first entry
for a number below one. -/
def GetInside (server : Server) (num : Text) (session next : Session server.perl) : Prop :=
  ((∃ sentBody, next.sent =
      session.sent ++ [ackText (latin1 "GET " ++ num ++ [newline] ++ sentBody)]) ↔
    0 < numify num ∧ numify num ≤ server.entries.length) ∧
  (0 < numify num → numify num ≤ server.entries.length →
    0 ≤ truncate (minus (numify num) 1) ∧
    truncate (minus (numify num) 1) < server.diaryMsgs.length ∧
    ∃ entry, server.entries[(max 1 ⌊numify num⌋).toNat - 1]? = some entry ∧
      next.sent =
        session.sent ++ [ackText (latin1 "GET " ++ num ++ [newline] ++ body entry)])

section Reading

variable (server : Server) (sends : Nat → Bool) (num : Text) (rest : List Text)
variable (session next : Session server.perl)

/-- There are as many bodies as files. -/
theorem diaryMsgs_length : server.diaryMsgs.length = server.entries.length := by
  rw [diaryMsgs_eq, List.length_map]

/-- Whatever the number, a body is sent exactly if the check in front of it lets the number
pass. The refusal cannot be taken for a body, since it has no newline in it. -/
theorem diaryGet_sends_iff (authenticated : session.authenticated = true)
    (got : diaryGet server sends (num :: rest) session = .ok next) :
    (∃ sentBody, next.sent =
      session.sent ++ [ackText (latin1 "GET " ++ num ++ [newline] ++ sentBody)]) ↔
      0 < numify num ∧ numify num ≤ server.entries.length := by
  rw [diaryGet_num server sends num rest session authenticated, ack] at got
  obtain ⟨_, rfl⟩ := (send_ok sends _ _ _).mp got
  constructor
  · rintro ⟨sentBody, replied⟩
    have reply := List.singleton_inj.mp (List.append_cancel_left replied)
    split at reply
    · next inside => exact ⟨inside.2, diaryMsgs_length server ▸ inside.1⟩
    · exact absurd reply.symm (getText_ne_refusal num sentBody)
  · rintro ⟨positive, inside⟩
    rw [if_pos ⟨(diaryMsgs_length server).symm ▸ inside, positive⟩]
    exact ⟨_, rfl⟩

/-- For a number that passes the check and is not lost in the subtraction, the index is one
of the array, and the body is that of the entry the number means. -/
theorem diaryGet_inside (authenticated : session.authenticated = true)
    (got : diaryGet server sends (num :: rest) session = .ok next)
    (more : 1 / 2 ^ 54 < numify num) (inside : numify num ≤ server.entries.length) :
    0 ≤ truncate (minus (numify num) 1) ∧
    truncate (minus (numify num) 1) < server.diaryMsgs.length ∧
    ∃ entry, server.entries[(max 1 ⌊numify num⌋).toNat - 1]? = some entry ∧
      next.sent =
        session.sent ++ [ackText (latin1 "GET " ++ num ++ [newline] ++ body entry)] := by
  have kept : IsScalar (numify num) := scalar_isScalar _
  have positive : 0 < numify num := lt_trans (by norm_num) more
  have within : numify num ≤ server.diaryMsgs.length := by rwa [diaryMsgs_length]
  obtain ⟨nonneg, below⟩ := truncate_pred_bounds _ _ kept more within
  have found := element_inside server.diaryMsgs _ kept more within
  rw [diaryMsgs_eq, List.getElem?_map] at found
  obtain ⟨entry, itsPlace, itsBody⟩ := Option.map_eq_some_iff.mp found
  rw [diaryGet_num server sends num rest session authenticated, ack] at got
  obtain ⟨_, rfl⟩ := (send_ok sends _ _ _).mp got
  refine ⟨nonneg, below, entry, itsPlace, ?_⟩
  rw [if_pos ⟨within, positive⟩, diaryMsgs_eq, itsBody]

end Reading

/-- GET stays inside the diary exactly if its number is not one of the tiny ones.

A tiny number passes the check, since it is above zero, but one less than it is the double
minus one, which is a negative index. For all other numbers the subtraction keeps what
the array needs: it is exact from one on, and below one it stays above minus one. -/
theorem get_inside_iff (server : Server) (sends : Nat → Bool) (num : Text) (rest : List Text)
    (session next : Session server.perl) (authenticated : session.authenticated = true)
    (got : diaryGet server sends (num :: rest) session = .ok next) :
    GetInside server num session next ↔
      ¬(0 < numify num ∧ numify num ≤ 1 / 2 ^ 54 ∧ server.entries ≠ []) := by
  constructor
  · rintro ⟨_, stays⟩ ⟨positive, tiny, loaded⟩
    have someEntry : (1 : Rat) ≤ server.entries.length := by
      exact_mod_cast List.length_pos_iff.mpr loaded
    have inside : numify num ≤ server.entries.length :=
      (tiny.trans (by norm_num)).trans someEntry
    have index : truncate (minus (numify num) 1) = -1 := by
      rw [minus, scalar_pred_tiny _ positive tiny]
      rfl
    have nonneg := (stays positive inside).1
    rw [index] at nonneg
    omega
  · intro notTiny
    refine ⟨diaryGet_sends_iff server sends num rest session next authenticated got, ?_⟩
    intro positive inside
    apply diaryGet_inside server sends num rest session next authenticated got _ inside
    by_contra tiny
    refine notTiny ⟨positive, not_lt.mp tiny, ?_⟩
    intro empty
    rw [empty, List.length_nil, Nat.cast_zero] at inside
    exact absurd positive (not_lt.mpr inside)

/-- A server with an empty entry file before another one. -/
def emptyEntryServer : Server :=
  { exampleServer with entries := [[], latin1 "Montag\nRegen\n"] }

/-- GET 1.5 reads the first of two entries, which is empty. -/
theorem get_inside_fraction :
    ∃ next, diaryGet emptyEntryServer (fun _ => true) [latin1 "1.5"]
        { emptyEntryServer.fork with authenticated := true } = .ok next ∧
      GetInside emptyEntryServer (latin1 "1.5")
        { emptyEntryServer.fork with authenticated := true } next := by
  let session : Session emptyEntryServer.perl :=
    { emptyEntryServer.fork with authenticated := true }
  have answered : ∃ next, diaryGet emptyEntryServer (fun _ => true) [latin1 "1.5"] session =
      .ok next := by
    rw [diaryGet_num emptyEntryServer _ _ _ session rfl]
    exact ⟨_, rfl⟩
  obtain ⟨next, got⟩ := answered
  refine ⟨next, got, ?_⟩
  refine (get_inside_iff emptyEntryServer (fun _ => true) (latin1 "1.5") [] session next rfl
    got).mpr ?_
  rintro ⟨_, tiny, _⟩
  exact absurd tiny (by decide +kernel)

/-- A server with two entries. -/
def twoEntriesServer : Server :=
  { exampleServer with
    entries := [latin1 "Sonntag\nSonne\n", latin1 "Montag\nRegen\n"] }

/-- In any authenticated session with this server, a tiny number gets the last entry. -/
theorem turn_get_tiny (session : Session twoEntriesServer.perl)
    (authenticated : session.authenticated = true) :
    ∃ next, turn twoEntriesServer (fun _ => true) session (some (latin1 "GET 1e-17\n")) =
        .ok next ∧
      next.sent = session.sent ++ [ackText (latin1 "GET 1e-17\nRegen\n")] := by
  have asked : turn twoEntriesServer (fun _ => true) session (some (latin1 "GET 1e-17\n")) =
      diaryGet twoEntriesServer (fun _ => true) [latin1 "1e-17"] session := by
    rw [turn_words twoEntriesServer _ session _ (latin1 "GET") [latin1 "1e-17"] (by decide)]
    rfl
  have reply : (if numify (latin1 "1e-17") ≤ twoEntriesServer.diaryMsgs.length ∧
        0 < numify (latin1 "1e-17") then
      latin1 "GET " ++ latin1 "1e-17" ++ [newline] ++
        element twoEntriesServer.diaryMsgs (minus (numify (latin1 "1e-17")) 1)
      else latin1 "GET <> !") = latin1 "GET 1e-17\nRegen\n" := by
    decide +kernel
  rw [asked, diaryGet_num _ _ _ _ _ authenticated, reply]
  exact ⟨_, rfl, rfl⟩

/-- A client that is authenticated by the start-up answer and asks for a tiny number gets
the last of two entries, through a negative index. -/
theorem get_tiny_sends_last :
    ∃ session next, diary twoEntriesServer (fun _ => true)
        [some (latin1 "AUTH MzkwNjI2\n")] = .ok session ∧
      session.authenticated = true ∧
      turn twoEntriesServer (fun _ => true) session (some (latin1 "GET 1e-17\n")) = .ok next ∧
      next.sent = session.sent ++ [ackText (latin1 "GET 1e-17\nRegen\n")] ∧
      ¬GetInside twoEntriesServer (latin1 "1e-17") session next := by
  have opened : ∃ session, diary twoEntriesServer (fun _ => true)
      [some (latin1 "AUTH MzkwNjI2\n")] = .ok session ∧ session.authenticated = true :=
    ⟨_, rfl, rfl⟩
  obtain ⟨session, ran, authenticated⟩ := opened
  obtain ⟨next, got, sent⟩ := turn_get_tiny session authenticated
  refine ⟨session, next, ran, authenticated, got, sent, ?_⟩
  rintro ⟨_, stays⟩
  have index := (stays (by decide +kernel) (by decide +kernel)).1
  exact absurd index (by decide +kernel)

/-! ## LIST and GET together -/

/-- A line of LIST. -/
def listLine (title : Text) (i : Nat) : Text :=
  ackText (latin1 "LIST " ++ decimal i ++ latin1 " " ++ title)

/-- LIST prints a line for every entry file, and for each line it prints, GET with the
number of the line returns the remaining lines of the file that begins with its title. -/
def NumbersAlike (server : Server) : Prop :=
  ∀ (sends : Nat → Bool) (session next : Session server.perl), session.authenticated = true →
    turn server sends session (some (latin1 "LIST\n")) = .ok next →
    ∃ titles : List Text,
      next.sent = session.sent ++ (titles.zipIdx 1).map (fun (title, i) => listLine title i) ∧
      titles.length = server.entries.length ∧
      ∀ i title, titles[i]? = some title →
        ∃ entry line rest, server.entries[i]? = some entry ∧
          readLine entry = some (line, rest) ∧ title = chomp line ∧
          ∀ (sends' : Nat → Bool) (session' next' : Session server.perl),
            session'.authenticated = true →
            turn server sends' session' (some (latin1 "GET " ++ decimal (i + 1) ++ [newline])) =
              .ok next' →
            next'.sent = session'.sent ++
              [ackText (latin1 "GET " ++ decimal (i + 1) ++ [newline] ++ rest)]

section Numbering

variable (server : Server) (sends : Nat → Bool)

/-- The command for the list, as it is received. -/
theorem turn_list (session : Session server.perl) :
    turn server sends session (some (latin1 "LIST\n")) = diaryList server sends session := by
  rw [turn_words server sends session _ (latin1 "LIST") [] (by decide)]
  rfl

/-- The command for an entry, as it is received with a decimal number. -/
theorem turn_get (session : Session server.perl) (i : Nat) :
    turn server sends session (some (latin1 "GET " ++ decimal i ++ [newline])) =
      diaryGet server sends [decimal i] session := by
  have real : ∀ byte ∈ decimal i, isSpace byte = false := by
    intro byte member
    exact (isDigit_real byte (decimal_isDigit i byte member)).1
  have fields : words (some (latin1 "GET " ++ decimal i ++ [newline])) =
      [latin1 "GET", decimal i] := by
    rw [words, split_chomp]
    exact split_two_words (latin1 "GET") _ (latin1 " ") [newline] (decimal_nonempty i) (by decide)
      (by decide) real (by decide) (by decide)
  rw [turn_words server sends session _ _ _ fields]
  rfl

/-- A loop that acknowledges one text after another. -/
theorem foldlM_ack {ι : Type} (text : ι → Text) (items : List ι)
    (session next : Session server.perl) :
    items.foldlM (fun session item => ack sends (text item) session) session = .ok next →
      next = { session with sent := session.sent ++ items.map fun item => ackText (text item) } := by
  induction items generalizing session with
  | nil =>
    intro done
    obtain rfl := Except.ok.inj done
    simp
  | cons item items inductionHypothesis =>
    intro ran
    rw [List.foldlM_cons, bind_ok] at ran
    obtain ⟨state, acknowledged, rest⟩ := ran
    obtain ⟨_, rfl⟩ := (send_ok sends _ _ _).mp acknowledged
    rw [inductionHypothesis _ rest]
    simp

/-- What a list adds to the messages: a line for each title, numbered from one. -/
theorem diaryList_sent (session next : Session server.perl)
    (authenticated : session.authenticated = true)
    (listed : diaryList server sends session = .ok next) :
    next.sent = session.sent ++
      (server.diaryTitles.zipIdx 1).map fun (title, i) => listLine title i := by
  rw [diaryList, if_neg (by simp [authenticated])] at listed
  have printed := foldlM_ack server sends
    (fun entry : Text × Nat => latin1 "LIST " ++ decimal entry.2 ++ latin1 " " ++ entry.1)
    (server.diaryTitles.zipIdx 1) session next listed
  rw [printed]
  rfl

/-- A client that can be sent everything gets all lines. -/
theorem foldlM_ack_all {ι : Type} (text : ι → Text) (items : List ι)
    (session : Session server.perl) :
    ∃ next, items.foldlM (fun session item => ack (fun _ => true) (text item) session) session =
      .ok next := by
  induction items generalizing session with
  | nil => exact ⟨session, rfl⟩
  | cons item items inductionHypothesis => exact inductionHypothesis _

/-- A client that can be sent everything gets the whole list. -/
theorem diaryList_all (session : Session server.perl)
    (authenticated : session.authenticated = true) :
    ∃ next, diaryList server (fun _ => true) session = .ok next := by
  rw [diaryList, if_neg (by simp [authenticated])]
  exact foldlM_ack_all server
    (fun entry : Text × Nat => latin1 "LIST " ++ decimal entry.2 ++ latin1 " " ++ entry.1) _ session

/-- GET with the number of an entry, counted from one, sends its body. -/
theorem diaryGet_entry (session next : Session server.perl) (i : Nat) (entry : Text)
    (authenticated : session.authenticated = true) (found : server.entries[i]? = some entry)
    (got : diaryGet server sends [decimal (i + 1)] session = .ok next) :
    next.sent = session.sent ++
      [ackText (latin1 "GET " ++ decimal (i + 1) ++ [newline] ++ body entry)] := by
  have value : numify (decimal (i + 1)) = ((i + 1 : Nat) : Rat) := numify_decimal (i + 1)
  have place : (max 1 ⌊numify (decimal (i + 1))⌋).toNat - 1 = i := by
    rw [value, Int.floor_natCast]
    omega
  have more : 1 / 2 ^ 54 < numify (decimal (i + 1)) := by
    have atLeastOne : ((1 : Nat) : Rat) ≤ (i + 1 : Nat) := by
      exact_mod_cast Nat.succ_le_succ (Nat.zero_le i)
    rw [value]
    exact lt_of_lt_of_le (by norm_num) atLeastOne
  have inside : numify (decimal (i + 1)) ≤ server.entries.length := by
    rw [value]
    exact_mod_cast (List.getElem?_eq_some_iff.mp found).1
  obtain ⟨_, _, entry', found', sent⟩ :=
    diaryGet_inside server sends _ [] session next authenticated got more inside
  rw [place, found] at found'
  obtain rfl := Option.some.inj found'
  exact sent

end Numbering

/-- An empty file has no line in LIST. -/
theorem NumbersAlike.nonempty {server : Server} (alike : NumbersAlike server) :
    ∀ entry ∈ server.entries, entry ≠ [] := by
  let session : Session server.perl := { server.fork with authenticated := true }
  obtain ⟨next, listed⟩ := diaryList_all server session rfl
  have printed := diaryList_sent server (fun _ => true) session next rfl listed
  obtain ⟨titles, sent, count, _⟩ := alike (fun _ => true) session next rfl
    ((turn_list server _ session).trans listed)
  have lines := congrArg List.length (List.append_cancel_left (sent.symm.trans printed))
  simp only [List.length_map, List.length_zipIdx, count, diaryTitles_eq] at lines
  intro entry member empty
  have some := List.filterMap_length_eq_length.mp lines.symm entry member
  rw [(title_none entry).mpr empty] at some
  exact absurd some (by simp)

/-- LIST and GET number the diary alike exactly when no entry file is empty.

A file gives a title if it has a first line, and a body in any case. So the two arrays are those
of the same files exactly if every file has a first line; otherwise the first empty file shifts
all titles behind it, and LIST has a line less than there are files. -/
theorem numbers_alike_iff (server : Server) :
    NumbersAlike server ↔ ∀ entry ∈ server.entries, entry ≠ [] := by
  constructor
  · exact NumbersAlike.nonempty
  · intro nonempty sends session next authenticated listed
    rw [turn_list] at listed
    have titled : server.diaryTitles = server.entries.map fun entry => (title entry).getD [] := by
      rw [diaryTitles_eq, ← List.filterMap_eq_map]
      apply List.filterMap_congr
      intro entry member
      cases first : title entry with
      | none => exact absurd ((title_none entry).mp first) (nonempty entry member)
      | some text => simp [first]
    refine ⟨server.diaryTitles, diaryList_sent server sends session next authenticated listed,
      by rw [titled, List.length_map], ?_⟩
    intro i text atPlace
    rw [titled, List.getElem?_map] at atPlace
    obtain ⟨entry, found, rfl⟩ := Option.map_eq_some_iff.mp atPlace
    cases first : readLine entry with
    | none =>
      exact absurd ((readLine_none entry).mp first) (nonempty entry (List.mem_of_getElem? found))
    | some parts =>
      refine ⟨entry, parts.1, parts.2, found, first, by rw [title, first]; rfl, ?_⟩
      intro sends' session' next' authenticated' got
      rw [turn_get] at got
      have sent := diaryGet_entry server sends' session' next' i entry authenticated' found got
      have rest : body entry = parts.2 := by rw [body, first]
      rw [sent, rest]

/-- The session of a client that is authenticated by the start-up answer. -/
def montag : List (Option Text) :=
  [some (latin1 "AUTH MzkwNjI2\n"), some (latin1 "LIST\n"), some (latin1 "GET 1\n")]

/-- LIST prints one line for two entry files, and GET with the number in it returns
nothing of the file that has this title. -/
theorem empty_entry_misnumbered :
    (∃ session, diary emptyEntryServer (fun _ => true) montag = .ok session ∧
      session.authenticated = true ∧
      session.sent.drop 2 = [listLine (latin1 "Montag") 1, ackText (latin1 "GET 1\n")]) ∧
      ¬NumbersAlike emptyEntryServer := by
  refine ⟨⟨_, rfl, rfl, by decide +kernel⟩, ?_⟩
  intro alike
  exact alike.nonempty [] List.mem_cons_self rfl

end Schnitzeljagd.Diary
