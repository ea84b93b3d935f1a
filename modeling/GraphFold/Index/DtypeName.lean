/-
GraphFold.Index.DtypeName — the names of element types.

An element type goes by a WORD, such as `int64` or `double`, or by a CODE: one
letter, or a letter for its kind and a size in bytes, such as `i8`; a mark for
the order of the bytes may stand before a code. The types are numbered too,
and the character of a number is a code. Texts, dates and records have types
with names, but no arrays are made of them, and neither are any of numbers
whose bytes come in the other order. A record is named by the names of its
parts; before the name of a part its extent may stand.

  §1 Meanings — what a name stands for, and why it may stand for nothing.
  §2 Words
  §3 Codes
  §4 Dates    — the unit in brackets.
  §5 Extents  — types with an extent.
  §6 Records  — the names of the parts.
  §7 Reading  — `Dtype.ofName?`.
-/
import GraphFold.Index.Dtype
import GraphFold.Index.Extent

namespace GraphFold.Index

/-! ## §1 Meanings -/

/-- What the entries of a type are. -/
inductive EntryKind where
  | numbers (d : Dtype)
  /-- Numbers whose bytes come in the other order. -/
  | reversed (d : Dtype)
  /-- Texts of any length. -/
  | texts
  /-- Something of which no arrays are made. -/
  | foreign
  deriving DecidableEq, Repr

/-- What a name stands for: the kind of the entries, and the number of bytes of each. A type whose
entries have no bytes takes a size instead of an extent. -/
structure NamedType where
  kind : EntryKind
  size : Nat
  deriving DecidableEq, Repr

/-- Why a name stands for no element type. -/
inductive DtypeNameError where
  /-- What is given is no name; it is shown as it is. -/
  | notName (shown : String)
  /-- A list is given, but its items are no fields; the first is shown. -/
  | notField (shown : String)
  /-- Something is given for a field of a record that is no tuple. -/
  | notEntry
  /-- There is no type of this name. -/
  | unknown (name : String)
  /-- A word that is out of use. -/
  | retired (name : String)
  /-- No arrays are made of the type, of which this is told. -/
  | foreign (name : String)
  /-- Arrays of texts are made of nothing else than such arrays. -/
  | texts
  /-- What follows the name of a type of dates is no unit in brackets, maybe from a position on. -/
  | badUnit (given : String) (position : Option Nat)
  /-- There is no such unit. -/
  | unknownUnit (given : String)
  /-- A unit cannot be divided by this number. -/
  | badDivisor (divisor : Int) (given : String)
  /-- What is divided is no unit in particular. -/
  | noUnit
  /-- Behind the part of this number, counted from one, something else follows. -/
  | badPart (number : Nat) (name : String)
  /-- A part has two marks for the order of the bytes, which differ. -/
  | twoOrders (first second : Char)
  | extent (flaw : ExtentFlaw)
  /-- An extent has too many axes, or is beyond all sizes. -/
  | badExtent
  /-- One of the axes is too long. -/
  | longAxis
  /-- A part has too many bytes. -/
  | tooManyBytes
  /-- A row is given for a size. -/
  | notSize
  /-- A size is too large for entries. -/
  | largeSize
  /-- A size is beyond all sizes. -/
  | overflow
  deriving DecidableEq, Repr

namespace DtypeNameError

/-- Whether a name fails by the way it is written, or by a size in it, so that it is not taken for
anything else. -/
def isFinal : DtypeNameError → Bool
  | badDivisor _ _ | noUnit | badPart _ _ | twoOrders _ _ | extent _ | badExtent | longAxis
  | tooManyBytes | largeSize | overflow => true
  | _ => false

/-- The report on a name that stands for no element type, if there is one. -/
def message? : DtypeNameError → Option String
  | notName shown => some ("Cannot interpret '" ++ shown ++ "' as a data type")
  | notField shown => some ("Field elements must be 2- or 3-tuples, got '" ++ shown ++ "'")
  | notEntry => some "entry not a 2- or 3- tuple"
  | unknown name => some ("data type " ++ Text.quoted name ++ " not understood")
  | retired name =>
    some ("Alias " ++ Text.quoted name ++
      " was removed in NumPy 2.0. Use a name without a digit at the end.")
  | foreign name =>
    some ("JAX only supports number, bool, and string dtypes, got dtype " ++ name ++ " in asarray")
  | texts =>
    some "Currently, string arrays can only be made from NumPy arrays. Got:  <class 'list'>."
  | badUnit given position =>
    some ("Invalid datetime metadata string \"" ++ given ++ "\"" ++
      (position.elim "" fun n => " at position " ++ toString n))
  | unknownUnit given => some ("Invalid datetime unit in metadata string \"" ++ given ++ "\"")
  | badDivisor divisor given =>
    some ("divisor (" ++ toString divisor ++
      ") is not a multiple of a lower-unit in datetime metadata \"" ++ given ++ "\"")
  | noUnit => some "Can't use 'den' divisor with generic units"
  | badPart number name =>
    some ("format number " ++ toString number ++ " of \"" ++ name ++ "\" is not recognized")
  | twoOrders first second =>
    some ("inconsistent byte-order specification " ++ String.singleton first ++ " and " ++
      String.singleton second)
  | extent flaw => some flaw.message
  | badExtent => some "invalid shape in fixed-type tuple."
  | longAxis =>
    some "invalid shape in fixed-type tuple: dimension does not fit into a C int."
  | tooManyBytes =>
    some "invalid shape in fixed-type tuple: dtype size in bytes must fit into a C int."
  | notSize => some "'tuple' object cannot be interpreted as an integer"
  | largeSize => some "integer won't fit into a C int"
  | overflow => none

end DtypeNameError

/-- The number of bytes of an entry. Integers that are narrower than a byte take one. -/
def Dtype.bytes : Dtype → Nat
  | truth => 1
  | signed bits | unsigned bits => max 1 (bits / 8)
  | float "bfloat16" | float "float16" => 2
  | float "float32" => 4
  | float "float64" => 8
  | float _ => 1
  | complex bits => bits / 8

/-- The type of numbers of an element type. -/
def Dtype.named (d : Dtype) : NamedType := ⟨.numbers d, d.bytes⟩

/-- A type of which no arrays are made, with entries of some bytes. -/
def NamedType.ofBytes (size : Nat) : NamedType := ⟨.foreign, size⟩

namespace DtypeName

/-! ## §2 Words -/

/-- Words for element types besides their proper names. -/
def otherWords : List (String × Dtype) := [
  ("bool_", .truth),
  ("byte", .signed 8), ("short", .signed 16), ("intc", .signed 32), ("int", .signed 64),
  ("int_", .signed 64), ("long", .signed 64), ("longlong", .signed 64), ("intp", .signed 64),
  ("ubyte", .unsigned 8), ("ushort", .unsigned 16), ("uintc", .unsigned 32),
  ("uint", .unsigned 64), ("ulong", .unsigned 64), ("ulonglong", .unsigned 64),
  ("uintp", .unsigned 64),
  ("half", .float "float16"), ("single", .float "float32"), ("double", .float "float64"),
  ("float", .float "float64"),
  ("csingle", .complex 64), ("cdouble", .complex 128), ("complex", .complex 128)]

/-- Words for other types, and the bytes of an entry. -/
def foreignWords : List (String × Nat) := [
  ("float6_e2m3fn", 1), ("float6_e3m2fn", 1), ("complex32", 4), ("bcomplex32", 4),
  ("float128", 16), ("longdouble", 16), ("complex256", 32), ("clongdouble", 32),
  ("object", 8), ("object_", 8), ("str", 0), ("str_", 0), ("unicode", 0), ("bytes", 0),
  ("bytes_", 0), ("a", 0), ("void", 0)]

/-- Words that are out of use. -/
def retiredWords : List String :=
  ["bool8", "int0", "uint0", "void0", "object0", "str0", "bytes0"]

/-- The meaning of a word. -/
def word? (s : String) : Option NamedType :=
  match Dtype.all.find? fun d => d.name == s, otherWords.find? fun entry => entry.1 == s with
  | some d, _ => some d.named
  | none, some entry => some entry.2.named
  | none, none =>
    (foreignWords.find? fun entry => entry.1 == s).map fun entry => .ofBytes entry.2

/-! ## §3 Codes -/

/-- Letters for element types. -/
def letters : List (Char × Dtype) := [
  ('?', .truth),
  ('b', .signed 8), ('h', .signed 16), ('i', .signed 32), ('l', .signed 64), ('q', .signed 64),
  ('p', .signed 64), ('n', .signed 64),
  ('B', .unsigned 8), ('H', .unsigned 16), ('I', .unsigned 32), ('L', .unsigned 64),
  ('Q', .unsigned 64), ('P', .unsigned 64), ('N', .unsigned 64),
  ('e', .float "float16"), ('f', .float "float32"), ('d', .float "float64"),
  ('F', .complex 64), ('D', .complex 128)]

/-- Letters for other types, and the bytes of an entry. -/
def foreignLetters : List (Char × Nat) := [
  ('g', 16), ('G', 32), ('O', 8), ('S', 0), ('U', 0), ('V', 0), ('M', 8), ('m', 8), ('c', 1)]

/-- The letter for texts of any length. -/
def textsLetter : Char := 'T'

/-- The types by their numbers, from zero on. -/
def numbered : List NamedType :=
  [Dtype.truth, .signed 8, .unsigned 8, .signed 16, .unsigned 16, .signed 32, .unsigned 32,
    .signed 64, .unsigned 64, .signed 64, .unsigned 64, .float "float32", .float "float64"].map
      Dtype.named ++
  [.ofBytes 16, Dtype.named (.complex 64), Dtype.named (.complex 128), .ofBytes 32, .ofBytes 8,
    .ofBytes 0, .ofBytes 0, .ofBytes 0, .ofBytes 8, .ofBytes 8, Dtype.named (.float "float16")]

/-- The meaning of a code of one character. -/
def letter? (c : Char) : Option NamedType :=
  match letters.find? fun entry => entry.1 == c, foreignLetters.find? fun entry => entry.1 == c with
  | some entry, _ => some entry.2.named
  | none, some entry => some (.ofBytes entry.2)
  | none, none => if c = textsLetter then some ⟨.texts, 16⟩ else numbered[c.toNat]?

/-- Letters for kinds of element types, with the sizes in bytes that there are. -/
def sizedLetters : List (Char × Nat × Dtype) := [
  ('b', 1, .truth),
  ('i', 1, .signed 8), ('i', 2, .signed 16), ('i', 4, .signed 32), ('i', 8, .signed 64),
  ('u', 1, .unsigned 8), ('u', 2, .unsigned 16), ('u', 4, .unsigned 32), ('u', 8, .unsigned 64),
  ('f', 2, .float "float16"), ('f', 4, .float "float32"), ('f', 8, .float "float64"),
  ('c', 8, .complex 64), ('c', 16, .complex 128)]

/-- The same for other types. -/
def foreignSizedLetters : List (Char × Nat) :=
  [('f', 16), ('c', 32), ('O', 4), ('O', 8), ('M', 8), ('m', 8)]

/-- The greatest size. -/
def maxSize : Nat := powerOfTwo 31 - 1

/-- The meaning of a letter with a size. Texts may have any size; a character of some of them takes
four bytes. -/
def sized? (letter : Char) (size : Nat) : Option NamedType :=
  match sizedLetters.find? fun entry => entry.1 == letter && entry.2.1 == size with
  | some entry => some entry.2.2.named
  | none =>
    if foreignSizedLetters.contains (letter, size) || ['S', 'V', 'a'].contains letter then
      some (.ofBytes size)
    else if letter == 'U' && size ≤ maxSize / 4 then
      some (.ofBytes (4 * size))
    else
      none

/-- A number at the front of some characters, and what is left: maybe blanks, maybe a sign, and
digits. -/
def number? (cs : List Char) : Option (Int × List Char) :=
  let signed := cs.dropWhile fun c => c == ' ' || (9 ≤ c.toNat && c.toNat ≤ 13)
  let digits := (Text.afterSign signed).takeWhile Char.isDigit
  let size : Int := Text.ofDigits (digits.map fun c => c.toNat - '0'.toNat)
  if digits.isEmpty then none
  else
    some (if signed.head? = some '-' then -size else size,
      (Text.afterSign signed).drop digits.length)

/-- The size that some characters stand for. -/
def size? (cs : List Char) : Option Nat :=
  match number? cs with
  | some (n, []) => if 0 ≤ n ∧ n ≤ maxSize then some n.toNat else none
  | _ => none

/-- The meaning of a code. -/
def code? : List Char → Option NamedType
  | [] => none
  | [c] => letter? c
  | letter :: rest => (size? rest).bind (sized? letter)

/-- The marks for the order of bytes. -/
def orderMarks : List Char := ['<', '>', '=', '|']

/-- The mark for the order of bytes that is not the usual one. -/
def otherOrder : Char := '>'

/-- The mark at the front, if there is one, and what is left. -/
def splitOrder : List Char → Option Char × List Char
  | c :: rest => if orderMarks.contains c then (some c, rest) else (none, c :: rest)
  | [] => (none, [])

/-- A type whose bytes come in this order. It matters for numbers of more than one byte. -/
def inOrder (mark : Option Char) (type : NamedType) : NamedType :=
  match type.kind with
  | .numbers d => if mark = some otherOrder ∧ 1 < d.bytes then ⟨.reversed d, type.size⟩ else type
  | _ => type

/-! ## §4 Dates -/

/-- Names of types of dates, which a unit may follow. -/
def dateNames : List String := ["M8", "m8", "timedelta64", "datetime64"]

/-- The units of time, each with the numbers of smaller units that it can be divided into. -/
def dateUnits : List (String × List Nat) := [
  ("Y", [12, 52, 365]), ("M", [4, 30, 720]), ("W", [7, 168, 10080, 604800]),
  ("D", [24, 1440, 86400]), ("h", [60, 3600]), ("m", [60, 60000]),
  ("s", [1000, 1000000]), ("ms", [1000, 1000000]), ("us", [1000, 1000000]),
  ("μs", [1000, 1000000]), ("ns", [1000, 1000000]), ("ps", [1000, 1000000]), ("fs", [1000]),
  ("as", [])]

/-- The word for no unit in particular. -/
def anyUnit : String := "generic"

/-- What follows the name of a type of dates, if that is what some characters are. -/
def dateUnit? (cs : List Char) : Option (List Char) :=
  dateNames.findSome? fun name =>
    if name.toList.isPrefixOf cs then some (cs.drop name.length) else none

/-- The number of bytes that some characters take. -/
def byteCount (cs : List Char) : Nat := (String.ofList cs).utf8ByteSize

/-- Why a unit cannot be divided, if it cannot. -/
def divisorError? (given unit : String) (divisor : Int) : Option DtypeNameError :=
  let multiples : List Nat := ((dateUnits.find? fun entry => entry.1 == unit).map fun entry => entry.2).getD []
  if divisor = 1 then none
  else if unit = anyUnit then some .noUnit
  else if multiples.any fun n => (n : Int) % divisor == 0 then none
  else some (.badDivisor divisor given)

/-- Why what follows a unit is no divisor: a slash and a number. It starts at this position of what
is given. -/
def slashError? (given unit : String) (position : Nat) : List Char → Option DtypeNameError
  | [] => none
  | _ :: later =>
    match number? later with
    | some (divisor, []) => divisorError? given unit (divisor.bmod (powerOfTwo 32))
    | _ => some (.badUnit given (some (position + 1)))

/-- Why what stands in brackets is no unit: a count, which is not zero, a name of a unit, and maybe
a divisor. What is given is shown with the brackets. -/
def bracketError? (given : String) (inner : List Char) : Option DtypeNameError :=
  let (count, named) := (number? inner).getD (1, inner)
  let unit := String.ofList (named.takeWhile (· != '/'))
  let start := 1 + inner.length - named.length
  if count ≤ 0 ∨ maxSize < count then
    some (.badUnit given (some 1))
  else if unit.isEmpty then
    some (.badUnit given (some start))
  else if unit ≠ anyUnit ∧ (dateUnits.find? fun entry => entry.1 == unit).isNone then
    some (.unknownUnit given)
  else
    slashError? given unit (start + unit.utf8ByteSize) (named.dropWhile (· != '/'))

/-- Why what follows the name of a type of dates is no unit. It may be missing. Positions are counted
in bytes. -/
def unitError? (cs : List Char) : Option DtypeNameError :=
  let given := String.ofList cs
  if cs.isEmpty then
    none
  else if byteCount cs < 3 then
    some (.badUnit given none)
  else
    match cs with
    | '[' :: later =>
      let inner := later.takeWhile (· != ']')
      match later.drop inner.length with
      | [] => some (.badUnit given (some (byteCount cs)))
      | [_] => bracketError? given inner
      | _ => (bracketError? given inner) <|> some (.badUnit given (some (byteCount inner + 2)))
    | _ => some (.badUnit given (some 1))

/-! ## §5 Extents -/

/-- The greatest number of axes. -/
def maxAxes : Nat := 64

/-- The greatest number that a length may be. -/
def maxLength : Nat := powerOfTwo 63 - 1

/-- The number of entries along some axes: none if it gets too large before an axis without length
is met. -/
def entries? (product : Nat) : List Nat → Option Nat
  | [] => some product
  | n :: later =>
    if n = 0 then some 0
    else if maxLength < product * n then none
    else entries? (product * n) later

/-- A type of parts of several entries, along these axes. -/
def repeated? (type : NamedType) (axes : List Nat) : Except DtypeNameError NamedType :=
  if maxAxes < axes.length || axes.any (maxLength < ·) then
    .error .badExtent
  else if axes.any (maxSize < ·) then
    .error .longAxis
  else
    match entries? 1 axes with
    | none => .error .tooManyBytes
    | some count =>
      if maxSize < count || maxSize < type.size * count then .error .tooManyBytes
      else .ok (.ofBytes (type.size * count))

/-- A type whose entries take this size. -/
def ofSize? (size : Nat) : Except DtypeNameError NamedType :=
  if maxLength < size then .error .overflow
  else if maxSize < size then .error .largeSize
  else .ok (.ofBytes size)

/-- A type with an extent, which is a size if the entries have no bytes. An extent without axes
changes nothing. -/
def extended? (type : NamedType) (extent : Extent) : Except DtypeNameError NamedType :=
  match decide (type.size = 0), extent with
  | true, .count n => ofSize? n
  | true, .axes _ => .error .notSize
  | false, .count n => repeated? type [n]
  | false, .axes [] => .ok type
  | false, .axes ns => repeated? type ns

/-! ## §6 Records -/

/-- Whether a comma stands outside of brackets; `depth` brackets are open. -/
def hasComma (depth : Int) : List Char → Bool
  | [] => false
  | ',' :: later => depth == 0 || hasComma depth later
  | '[' :: later => hasComma (depth + 1) later
  | ']' :: later => hasComma (depth - 1) later
  | _ :: later => hasComma depth later

/-- Whether a name has parts: it begins with an extent, or names are separated by commas. -/
def hasParts (cs : List Char) : Bool :=
  match splitOrder cs with
  | (mark, c :: later) =>
    c.isDigit || (c == '(' && later.head? == some ')' && (mark.isNone || later.length > 1))
      || hasComma 0 (cs.drop 1)
  | (_, []) => false

/-- A part of a name as it is written: an extent between two marks, and a name. -/
structure WrittenPart where
  first : Option Char
  extent : List Char
  second : Option Char
  name : List Char

/-- A part of a name. -/
structure Part where
  name : String
  extent : Option Extent

/-- What is left after a character, if it is there. -/
def afterChar (c : Char) (cs : List Char) : List Char :=
  if cs.head? = some c then cs.drop 1 else cs

/-- What is left after an extent: blanks, maybe a parenthesis, numbers with blanks and commas between
them, maybe a parenthesis, and blanks. -/
def afterExtent (cs : List Char) : List Char :=
  let opened := afterChar '(' (cs.dropWhile (· == ' '))
  let numbers := opened.dropWhile fun c => c == ' ' || c == ',' || c.isDigit
  (afterChar ')' numbers).dropWhile (· == ' ')

/-- What is left after the name of a part, which may end in brackets. -/
def afterName (cs : List Char) : List Char :=
  let rest := cs.dropWhile fun c => c.isAlphanum || c == '.' || c == '?'
  match rest with
  | '[' :: later =>
    match later.dropWhile fun c => c.isAlphanum || c == '.' || c == ',' with
    | ']' :: last => last
    | _ => rest
  | _ => rest

/-- The part at the front, and what is left. -/
def frontPart (cs : List Char) : WrittenPart × List Char :=
  let (first, atExtent) := splitOrder cs
  let atOrder := afterExtent atExtent
  let (second, atName) := splitOrder atOrder
  let rest := afterName atName
  (⟨first, atExtent.take (atExtent.length - atOrder.length), second,
    atName.take (atName.length - rest.length)⟩, rest)

/-- The order that two marks give, one before and one after the extent. -/
def commonOrder (first second : Option Char) : Except DtypeNameError (Option Char) :=
  let plain (mark : Char) : Char := if mark = '=' then '<' else mark
  match first, second with
  | some a, some b => if plain a = plain b then .ok first else .error (.twoOrders (plain a) (plain b))
  | first, second => .ok (first <|> second)

/-- The part that is written: its marks, then its extent. Only the mark of the other order is
kept. -/
def WrittenPart.part? (p : WrittenPart) : Except DtypeNameError Part := do
  let mark ← commonOrder p.first p.second
  let name := String.ofList (if mark = some otherOrder then otherOrder :: p.name else p.name)
  if p.extent.isEmpty then
    return ⟨name, none⟩
  else
    return ⟨name, some (← (Extent.read? p.extent).mapError .extent)⟩

/-- Whether a character is a blank between parts. -/
def isGap (c : Char) : Bool := Text.isBlank c || (28 ≤ c.toNat && c.toNat ≤ 31)

/-- What is left after a comma with blanks around it, or at the end; nothing if something else
follows. The flag tells whether there was a comma. -/
def afterComma? (cs : List Char) : Option (List Char × Bool) :=
  match cs.dropWhile isGap with
  | [] => some ([], false)
  | ',' :: later => some (later.dropWhile isGap, true)
  | _ => none

/-- The parts of a name, and whether there is a comma. -/
def parts? (whole : String) :
    (fuel number : Nat) → List Char → Except DtypeNameError (List Part × Bool)
  | 0, _, _ => .ok ([], false)
  | _, _, [] => .ok ([], false)
  | fuel + 1, number, cs => do
    let (written, rest) := frontPart cs
    match afterComma? rest with
    | none => throw (.badPart number whole)
    | some (later, comma) =>
      let part ← written.part?
      let (parts, more) ← parts? whole fuel (number + 1) later
      return (part :: parts, comma || more)

/-! ## §7 Reading -/

/-- The meaning of a name without parts. -/
def single? (name : String) : Except DtypeNameError NamedType :=
  let (mark, code) := splitOrder name.toList
  match dateUnit? code, code? code with
  | some unit, _ =>
    match unitError? unit with
    | some e => .error e
    | none => .ok (.ofBytes 8)
  | none, some type => .ok (inOrder mark type)
  | none, none =>
    match word? name with
    | some type => .ok type
    | none =>
      if retiredWords.contains (String.ofList code) then .error (.retired name)
      else .error (.unknown name)

/-- The meaning of a name. Names of parts are shorter than it. -/
def meaning? : (fuel : Nat) → String → Except DtypeNameError NamedType
  | 0, name => .error (.unknown name)
  | fuel + 1, name => do
    if !hasParts name.toList then
      single? name
    else
      let (parts, comma) ← parts? name name.length 1 name.toList
      let types ← parts.mapM fun part => do
        let type ← meaning? fuel part.name
        part.extent.elim (.ok type) (extended? type)
      match types, comma with
      | [type], false => return type
      | _, _ => return .ofBytes (types.foldl (fun size type => size + type.size) 0)

end DtypeName

/-- What a name stands for. -/
def NamedType.ofName? (name : String) : Except DtypeNameError NamedType :=
  DtypeName.meaning? (name.length + 1) name

/-- The element type of a name. -/
def Dtype.ofName? (name : String) : Except DtypeNameError Dtype :=
  match NamedType.ofName? name with
  | .ok ⟨.numbers d, _⟩ => .ok d
  | .ok ⟨.texts, _⟩ => .error .texts
  | .ok ⟨.reversed _, _⟩ | .ok ⟨.foreign, _⟩ => .error (.foreign name)
  | .error e => .error e

end GraphFold.Index
