import Mathlib.Data.List.DropRight
import Schnitzeljagd.Foundations.CString
import Schnitzeljagd.Foundations.PerlText
import Schnitzeljagd.News.DatabaseSearch

/-!
# Access rules of the network tools

`tcprules.c` makes a constant database from a text with one rule on a line, and `rules.c` looks
in it for what `tcpserver.c` has to do with a connection. A text without a NUL is compiled if
every line of it says a rule or nothing, and a connection then gets the first rule of the text
for the most specific of the addresses that fit it. An `unsigned long` has 32 bits. Writing,
reading and allocation succeed.
-/

namespace Schnitzeljagd.News

open Foundations.CArithmetic Foundations.CString Foundations.PerlText

/-! ## Compiling the rules -/

/-- `byte_chr`: the place of the first such byte, or the length of the text if there is none -/
def byteChr (s : Text) (c : Byte) : Nat := (s.takeWhile fun byte => byte ≠ c).length

/-- `byte_rchr`: the place of the last such byte, or the length of the text if there is none -/
def byteRchr (s : Text) (c : Byte) : Nat :=
  if s.contains c then s.length - 1 - byteChr s.reverse c else s.length

/-- `scan_ulong`: how many digits there are, and their value -/
def scanUlong (s : Text) : Nat × Nat :=
  let digits := s.takeWhile isDigit
  (digits.length,
    digits.foldl (fun result byte => (result * 10 + (byte.toNat - 0x30)) % 2 ^ 32) 0)

/-- `getnum`, which dies if there is something else than digits. Dying has no value here. -/
def getnum (buf : Text) : Option Nat :=
  let (count, u) := scanUlong buf
  if (buf ++ [0])[count]? = some 0 then some u else none

/-- `doaddressdata`, with the keys that it adds. A range of numbers in the address stands for one
key each. -/
def addressKeys (address : Text) : Option (List Text) :=
  if byteChr address 0x3d = address.length ∧ byteChr address 0x40 = address.length ∧
      byteChr address 0x2d < address.length then do
    let i := byteChr address 0x2d
    let dot := byteRchr (address.take i) 0x2e
    let left := if dot = i then 0 else dot + 1
    let right := i + 1 + byteChr (address.drop (i + 1)) 0x2e
    let bot ← getnum ((address.take i).drop left)
    let top ← getnum ((address.take right).drop (i + 1))
    let top := if top > 255 then 255 else top
    some ((List.range (top + 1 - bot)).map fun n =>
      address.take left ++ (decimal (bot + n) ++ address.drop right))
  else some [address]

/-- `while (len) switch(*x)`: the environment that a rule sets, one variable behind each comma.
Anything else there has no value, since the program dies. -/
def settings (data : Text) : Text → Option Text
  | [] => some data
  | byte :: rest =>
    if byte = 0x2c then
      let i := byteChr (byte :: rest) 0x3d
      if i = rest.length + 1 then none
      else
        match _behind : rest.drop i with
        | [] => none
        | ch :: value =>
          let j := byteChr value ch
          if j = value.length then none
          else
            settings (data ++ (0x2b :: rest.take i ++ (value.take j ++ [0]))) (value.drop (j + 1))
    else none
termination_by x => x.length
decreasing_by
  have shorter := congrArg List.length _behind
  simp only [List.length_drop, List.length_cons] at shorter ⊢
  omega

/-- The white space that is cut off a line at its end. -/
def isBlank (byte : Byte) : Bool := byte = newline || byte = 0x20 || byte = 0x09

/-- The body of the loop of `tcprules`, for a line without its newline: the address and the data
if the line has a rule. -/
def ruleLine (line : Text) : Option (Option (Text × Text)) :=
  if line = [] ∨ line.head? = some 0x23 then some none
  else
    let x := line.rdropWhile isBlank
    let colon := byteChr x 0x3a
    if colon = x.length then some none
    else
      let address := x.take colon
      let x := x.drop (colon + 1)
      if latin1 "deny" <+: x then
        (settings [0x44, 0] (x.drop 4)).map fun data => some (address, data)
      else if latin1 "allow" <+: x then
        (settings [] (x.drop 5)).map fun data => some (address, data)
      else none

/-- The records that `tcprules` adds for a line. -/
def lineRecords (line : Text) : Option (List (Text × Text)) := do
  match ← ruleLine line with
  | none => some []
  | some (address, data) => (addressKeys address).map fun keys => keys.map fun key => (key, data)

/-- The records that `tcprules` adds for a text, if it does not die. They are those of its lines,
in order. -/
def ruleRecords (text : Text) : Option (List (Text × Text)) := do
  let records ← (text.splitOn newline).mapM lineRecords
  some records.flatten

/-- `tcprules`: the file that it makes of the text it reads, a database of the records -/
def tcprules (text : Text) : Option (List Byte) := do
  let records ← ruleRecords text
  cdbMake records

/-! ## Looking for a rule -/

/-- `dorule`, whose callback gets the data; no value is an error. The outer value is the
database's, the inner one tells whether there is a rule. -/
def dorule (file : List Byte) (name : Text) : Option (Option Text) := do
  let (found, c) ← cdbFind file name ⟨0, 0, 0, 0, 0, 0, 0⟩
  if found then (cdbRead file c.dlen c.dpos).map some else some none

/-- `if (r) return r;`, so that a rule that has been found or an error ends the search -/
def orElseRule (r next : Option (Option Text)) : Option (Option Text) := do
  match ← r with
  | some data => some (some data)
  | none => next

/-- `while (rules_name.len > 0)`: the rules for the address up to each of its dots, the longest
first -/
def ipLoop (rule : Text → Option (Option Text)) (ip : Text) : Nat → Option (Option Text)
  | 0 => some none
  | len + 1 =>
    if ip[len]? = some 0x2e then orElseRule (rule (ip.take (len + 1))) (ipLoop rule ip len)
    else ipLoop rule ip len

/-- `while (*host)`: the rules for the name from each of its dots on, the longest first -/
def hostLoop (rule : Text → Option (Option Text)) : Text → Option (Option Text)
  | [] => some none
  | byte :: host =>
    if byte = 0x2e then orElseRule (rule (0x3d :: byte :: host)) (hostLoop rule host)
    else hostLoop rule host

/-- A part of `doit` that is only for a known host or name, and finds no rule without one. -/
def ifKnown (known : Option Text) (next : Text → Option (Option Text)) : Option (Option Text) :=
  match known with
  | some text => next text
  | none => some none

/-- `doit` of `rules.c`: the rules for the address and the name of the caller, from the most
special to the most general -/
def rulesDoit (rule : Text → Option (Option Text)) (ip : Text) (host info : Option Text) :
    Option (Option Text) :=
  orElseRule (ifKnown info fun info => orElseRule (rule (info ++ 0x40 :: ip))
    (ifKnown host fun host => rule (info ++ 0x40 :: 0x3d :: host)))
  (orElseRule (rule ip)
    (orElseRule (ifKnown host fun host => rule (0x3d :: host))
      (orElseRule (ipLoop rule ip ip.length)
        (orElseRule (ifKnown host fun host => orElseRule (hostLoop rule host) (rule [0x3d]))
          (rule [])))))

/-! ## Obeying a rule -/

/-- `flagdeny`, and what is put into the environment. A connection begins with neither. -/
structure Access where
  deny : Bool
  env : List (Text × Text)
deriving DecidableEq

/-- What `found` does with one entry of the data, which ends before its NUL. -/
def foundEntry (access : Access) : Text → Access
  | byte :: rest =>
    if byte = 0x44 then { access with deny := true }
    else if byte = 0x2b then
      let split := byteChr rest 0x3d
      if split < rest.length then
        { access with env := access.env ++ [(rest.take split, rest.drop (split + 1))] }
      else access
    else access
  | [] => access

/-- `found`, which goes through the entries of the data, each with a NUL behind it -/
def found (access : Access) (data : Text) : Access :=
  let next0 := byteChr data 0
  if _inside : next0 < data.length then
    found (foundEntry access (data.take next0)) (data.drop (next0 + 1))
  else access
termination_by data.length
decreasing_by
  simp only [List.length_drop]
  omega

/-- What `doit` of `tcpserver.c` makes of the rules: `found` is called for the rule there is. -/
def obey (file : List Byte) (ip : Text) (host info : Option Text) : Option Access :=
  (rulesDoit (dorule file) ip host info).map fun data => data.elim ⟨false, []⟩ (found ⟨false, []⟩)

end Schnitzeljagd.News
