/-
  Lexemes of TypeScript sources.

  * `Source` is a text with the byte offset and the line of each character.
  * `blankEnd`, `commentEnd?` skip what may stand between tokens.
  * `lexemes` gives the tokens that a text can begin with at a place; which of them
    counts is decided by the grammar.
  * `impliesSemicolon` says where a statement may end without a semicolon.
-/
import UberPackage.TypeScript.Table

namespace UberPackage.TypeScript

/-- A text prepared for reading. -/
structure Source where
  chars : Array Char
  /-- Byte offset of each character, and of the end. -/
  offsets : Array Nat
  /-- Number of line feeds before each character, and before the end. -/
  lines : Array Nat
deriving Inhabited

namespace Source

/-- Prepares a text. -/
def ofChars (cs : List Char) : Source :=
  let step := fun (acc : Array Nat × Array Nat × Nat × Nat) (c : Char) =>
    let (offsets, lines, offset, line) := acc
    let offset := offset + c.utf8Size
    let line := if c = '\n' then line + 1 else line
    (offsets.push offset, lines.push line, offset, line)
  let (offsets, lines, _, _) := cs.foldl step (#[0], #[0], 0, 0)
  { chars := cs.toArray, offsets, lines }

def size (s : Source) : Nat := s.chars.size

/-- The byte offset of a character. -/
def offset (s : Source) (i : Nat) : Nat := s.offsets.getD i (s.offsets.back?.getD 0)

/-- The line of a character. -/
def line (s : Source) (i : Nat) : Nat := s.lines.getD i (s.lines.back?.getD 0)

/-- The first place from `i` on whose character is not in the class. -/
def skipWhile (s : Source) (p : Char → Bool) (i : Nat) : Nat :=
  if h : i < s.chars.size then
    if p s.chars[i] then s.skipWhile p (i + 1) else i
  else i
termination_by s.chars.size - i

/-- The text has these characters from `i` on. -/
def hasAt (s : Source) (i : Nat) : List Char → Bool
  | [] => true
  | c :: cs => s.chars[i]? == some c && s.hasAt (i + 1) cs

/-- The characters from `i` up to `j`. -/
def slice (s : Source) (i j : Nat) : List Char := (s.chars.extract i j).toList

end Source

/-! ## Character classes -/

/-- Blanks between tokens. -/
def isBlank (c : Char) : Bool :=
  let n := c.toNat
  (9 ≤ n && n ≤ 13) || n == 0x20 || n == 0x85 || n == 0xA0 || n == 0x1680 ||
    (0x2000 ≤ n && n ≤ 0x200B) || n == 0x2028 || n == 0x2029 || n == 0x202F || n == 0x205F ||
    n == 0x2060 || n == 0x3000 || n == 0xFEFF

/-- Blanks that are passed over in the search for the end of a statement. -/
def isSoftBlank (c : Char) : Bool :=
  let n := c.toNat
  (9 ≤ n && n ≤ 13) || n == 0x20 || n == 0x1680 || (0x2000 ≤ n && n ≤ 0x2006) ||
    (0x2008 ≤ n && n ≤ 0x200A) || n == 0x2028 || n == 0x2029 || n == 0x205F || n == 0x3000

/-- Characters that end a comment line. -/
def isLineEnd (c : Char) : Bool := c == '\n' || c == '\r' || c == '\u2028' || c == '\u2029'

/-- Characters of names, digits included; all but blanks, controls and punctuation. -/
def isNamePart (c : Char) : Bool :=
  !(c.toNat < 0x20 || isBlank c || ":;`\"'@#.,|^&<=>+-*/\\%?!~()[]\x7b\x7d".toList.contains c)

/-- Characters that can begin a name. -/
def isNameStart (c : Char) : Bool := isNamePart c && !c.isDigit

def isHexDigit (c : Char) : Bool :=
  c.isDigit || ('a' ≤ c && c ≤ 'f') || ('A' ≤ c && c ≤ 'F')

/-! ## Blanks and comments -/

namespace Source

/-- The end of the blanks at `i`. -/
def blankEnd (s : Source) (i : Nat) : Nat := s.skipWhile isBlank i

/-- The place after the first `*/` from `i` on. -/
def blockEnd? (s : Source) (i : Nat) : Option Nat :=
  if h : i < s.chars.size then
    if s.chars[i] = '*' && s.chars[i + 1]? == some '/' then some (i + 2) else s.blockEnd? (i + 1)
  else none
termination_by s.chars.size - i

/-- The end of the comment that begins at `i`. -/
def commentEnd? (s : Source) (i : Nat) : Option Nat :=
  if s.hasAt i ['/', '/'] then some (s.skipWhile (!isLineEnd ·) (i + 2))
  else if s.hasAt i ['/', '*'] then s.blockEnd? (i + 2)
  else none

/-- Where the next token begins after blanks and comments at `i`, and the comments passed. -/
def afterComments (s : Source) (i : Nat) : Nat × List (Nat × Nat) :=
  go (s.size + 1) i
where
  go : Nat → Nat → Nat × List (Nat × Nat)
    | 0, i => (i, [])
    | n + 1, i =>
      let j := s.blankEnd i
      match s.commentEnd? j with
      | none => (j, [])
      | some e =>
        let (k, rest) := go n e
        (k, (j, e) :: rest)

/-! ## Where a statement may end without a semicolon -/

/-- The end of blanks and comments after a line break, unless a lone slash follows. -/
def afterLineBreak? (s : Source) : Nat → Nat → Option Nat
  | 0, i => some i
  | n + 1, i =>
    let j := s.skipWhile isSoftBlank i
    if s.chars[j]? != some '/' then some j
    else if s.chars[j + 1]? == some '/' then
      s.afterLineBreak? n
        (s.skipWhile (fun c => c != '\n' && c != '\u2028' && c != '\u2029') (j + 2))
    else if s.chars[j + 1]? == some '*' then
      s.afterLineBreak? n ((s.blockEnd? (j + 2)).getD s.size)
    else none

/-- Whether what follows a line break begins a new statement. -/
def beginsStatement (s : Source) (inExpression inSignature : Bool) (i : Nat) : Bool :=
  match s.chars[i]? with
  | none => true
  | some c =>
    if "`,.;*%><=?^|&/:".toList.contains c then false
    else if c == '\x7b' then !inSignature
    else if c == '(' || c == '[' then !inExpression
    else if c == '+' || c == '-' then s.chars[i + 1]? == some c
    else if c == '!' then s.chars[i + 1]? != some '='
    else if c == 'i' then
      let continues := fun (j : Nat) =>
        match s.chars[j]? with
        | some d => d.isAlpha || d.toNat > 0x7F
        | none => false
      if s.chars[i + 1]? != some 'n' then true
      else if !continues (i + 2) then false
      else if s.hasAt (i + 2) "stanceof".toList then continues (i + 10)
      else true
    else true

/-- A statement that is complete at `i` may end there: the text ends, a brace closes, or a line
break is followed by something that does not go on with an expression. -/
def impliesSemicolon (s : Source) (inExpression inSignature : Bool) (i : Nat) : Bool :=
  let j := s.skipWhile (fun c => isSoftBlank c && c != '\n') i
  match s.chars[j]? with
  | none => true
  | some '\x7d' =>
    if s.chars[s.skipWhile isSoftBlank (j + 1)]? == some ':' then inExpression else true
  | some '\n' =>
    match s.afterLineBreak? (s.size + 1) (j + 1) with
    | none => false
    | some k => s.beginsStatement inExpression inSignature k
  | some _ => false

/-! ## Words, numbers, regular expressions -/

/-- The end of a `\u` escape at `i`. -/
def unicodeEscapeEnd? (s : Source) (i : Nat) : Option Nat :=
  if !s.hasAt i ['\\', 'u'] then none
  else if s.chars[i + 2]? == some '\x7b' then
    let j := s.skipWhile isHexDigit (i + 3)
    if j > i + 3 && s.chars[j]? == some '\x7d' then some (j + 1) else none
  else
    let j := s.skipWhile isHexDigit (i + 2)
    if j ≥ i + 6 then some (i + 6) else none

/-- The end of the name characters at `i`. -/
def nameEnd (s : Source) : Nat → Nat → Nat
  | 0, i => i
  | n + 1, i =>
    let j := s.skipWhile isNamePart i
    match s.unicodeEscapeEnd? j with
    | some k => s.nameEnd n k
    | none => j

/-- The end of the name that begins at `i`. -/
def name? (s : Source) (i : Nat) : Option Nat :=
  match s.chars[i]? with
  | none => none
  | some c =>
    if isNameStart c || (s.unicodeEscapeEnd? i).isSome then some (s.nameEnd (s.size + 1) i)
    else none

/-- The end of digits of a class, single underscores between them. -/
def digitsEnd (s : Source) (p : Char → Bool) : Nat → Nat → Nat
  | 0, i => i
  | n + 1, i =>
    let j := s.skipWhile p i
    if j > i && s.chars[j]? == some '_' && (s.chars[j + 1]?.map p).getD false then
      s.digitsEnd p n (j + 1)
    else j

/-- The end of an exponent at `i`, or `i` itself. -/
def exponentEnd (s : Source) (i : Nat) : Nat :=
  if s.chars[i]? == some 'e' || s.chars[i]? == some 'E' then
    let j := if s.chars[i + 1]? == some '+' || s.chars[i + 1]? == some '-' then i + 2 else i + 1
    let k := s.digitsEnd Char.isDigit (s.size + 1) j
    if k > j then k else i
  else i

/-- The end of a number at `i`. -/
def number? (s : Source) (i : Nat) : Option Nat :=
  let big := fun (j : Nat) => if s.chars[j]? == some 'n' then j + 1 else j
  let digits := s.digitsEnd Char.isDigit (s.size + 1)
  let based := fun (p : Char → Bool) =>
    let j := s.digitsEnd p (s.size + 1) (i + 2)
    if j > i + 2 then some (big j) else some (i + 1)
  match s.chars[i]?, s.chars[i + 1]? with
  | some '0', some 'x' | some '0', some 'X' => based isHexDigit
  | some '0', some 'b' | some '0', some 'B' => based fun c => c == '0' || c == '1'
  | some '0', some 'o' | some '0', some 'O' => based fun c => '0' ≤ c && c ≤ '7'
  | some '.', some d => if d.isDigit then some (s.exponentEnd (digits (i + 1))) else none
  | some c, _ =>
    if c.isDigit then
      let j := digits i
      if s.chars[j]? == some '.' then some (s.exponentEnd (digits (j + 1)))
      else
        let k := s.exponentEnd j
        some (if k > j then k else big j)
    else none
  | none, _ => none

/-- The end of the body of a regular expression, at its closing slash. -/
def regexBodyEnd? (s : Source) (inClass : Bool) : Nat → Nat → Option Nat
  | 0, _ => none
  | n + 1, i =>
    match s.chars[i]? with
    | none => none
    | some '\n' => none
    | some '\\' =>
      match s.chars[i + 1]? with
      | none => none
      | some '\n' => none
      | some _ => s.regexBodyEnd? inClass n (i + 2)
    | some '[' => s.regexBodyEnd? true n (i + 1)
    | some ']' => s.regexBodyEnd? false n (i + 1)
    | some '/' => if inClass then s.regexBodyEnd? inClass n (i + 1) else some i
    | some _ => s.regexBodyEnd? inClass n (i + 1)

/-- The end of a regular expression with its flags. -/
def regex? (s : Source) (i : Nat) : Option Nat :=
  if s.chars[i]? != some '/' then none
  else
    match s.regexBodyEnd? false (s.size + 1) (i + 1) with
    | some j =>
      if j > i + 1 then some (s.skipWhile (fun c => 'a' ≤ c && c ≤ 'z') (j + 1)) else none
    | none => none

/-! ## Parts of strings and templates -/

/-- The end of an escape at `i`. -/
def escape? (s : Source) (i : Nat) : Option Nat :=
  if s.chars[i]? != some '\\' then none
  else
    match s.chars[i + 1]? with
    | none => none
    | some 'u' => s.unicodeEscapeEnd? i
    | some 'x' => if s.skipWhile isHexDigit (i + 2) ≥ i + 4 then some (i + 4) else none
    | some '\r' => some (if s.chars[i + 2]? == some '\n' then i + 3 else i + 2)
    | some c =>
      if '0' ≤ c && c ≤ '7' then
        some (min (s.skipWhile (fun d => '0' ≤ d && d ≤ '7') (i + 1)) (i + 4))
      else some (i + 2)

/-- The end of template characters at `i`, up to the closing mark, a substitution or an escape. -/
def templateEnd? (s : Source) : Nat → Nat → Option Nat
  | 0, _ => none
  | n + 1, i =>
    match s.chars[i]? with
    | none => none
    | some '`' => some i
    | some '\\' => some i
    | some '$' => if s.chars[i + 1]? == some '\x7b' then some i else s.templateEnd? n (i + 1)
    | some _ => s.templateEnd? n (i + 1)

/-- Tokens that continue a string or a template at `i`. -/
def continuations (s : Source) (i : Nat) : List (Token × Nat) :=
  let fragment := fun (t : Token) (quote : Char) =>
    let j := s.skipWhile (fun c => c != quote && c != '\\' && c != '\r' && c != '\n') i
    if j > i then [(t, j)] else []
  fragment .singleFragment '\'' ++ fragment .doubleFragment '"' ++
    (match s.escape? i with | some j => [(Token.escape, j)] | none => []) ++
    (match s.templateEnd? (s.size + 1) i with
      | some j => if j > i then [(Token.templateChars, j)] else []
      | none => [])

/-! ## Tokens at a place -/

/-- The longest punctuation mark at `i`, with the shorter marks that count beside it. -/
def marksAt (s : Source) (t : Table) (i : Nat) : List (Nat × Nat) :=
  match s.chars[i]? with
  | none => []
  | some c =>
    let here := (t.marks.getD c.toNat []).filter fun (cs, _) => s.hasAt i cs
    let digitAfter := (s.chars[i + 2]?.map Char.isDigit).getD false
    let here := here.filter fun (cs, _) => !(cs == ['?', '.'] && digitAfter)
    let special := fun (cs : List Char) => cs.length ≥ 2 && cs.getLast? == some ':'
    let plain := here.filter fun (cs, _) => !special cs
    (here.filter fun (cs, _) => special cs).map (fun (cs, n) => (n, i + cs.length)) ++
      (plain.take 1).map (fun (cs, n) => (n, i + cs.length))

/-- All tokens that the text can begin with at `i`, by number, with their ends. -/
def lexemes (s : Source) (t : Table) (i : Nat) : List (Nat × Nat) :=
  let numbered := fun (tok : Token) (e : Option Nat) =>
    match e, t.tokenNumber[tok]? with
    | some e, some n => [(n, e)]
    | _, _ => []
  if i ≥ s.size then numbered .endOfText (some i)
  else
    let nameEnd := s.name? i
    let word := match nameEnd with
      | some e => numbered (.word (String.ofList (s.slice i e))) (some e)
      | none => []
    let angle := if s.chars[i]? == some '>' then numbered .closeAngle (some (i + 1)) else []
    let hash := if i = 0 && s.hasAt 0 ['#', '!'] then
        numbered .hashBang (some (s.skipWhile (· != '\n') 0))
      else if s.chars[i]? == some '#' then numbered .privateName (s.name? (i + 1))
      else []
    word ++ numbered .identifier nameEnd ++ numbered .number (s.number? i) ++ s.marksAt t i ++
      angle ++ numbered .regex (s.regex? i) ++ hash

end Source

end UberPackage.TypeScript
