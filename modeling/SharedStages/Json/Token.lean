/-! JSON tokens and the scanner that cuts a text into them. Numbers and strings keep their
spelling; the scanner checks it one character at a time. -/

namespace SharedStages.Json

inductive Mark where
  | leftBrace | rightBrace | leftBracket | rightBracket | comma | colon
  deriving DecidableEq, Repr

namespace Mark

def char : Mark → Char
  | leftBrace => '{'
  | rightBrace => '}'
  | leftBracket => '['
  | rightBracket => ']'
  | comma => ','
  | colon => ':'

def ofChar? (c : Char) : Option Mark :=
  [leftBrace, rightBrace, leftBracket, rightBracket, comma, colon].find? (·.char = c)

@[simp] theorem ofChar?_char (m : Mark) : ofChar? m.char = some m := by cases m <;> rfl

end Mark

inductive Word where
  | null | yes | no
  deriving DecidableEq, Repr

namespace Word

def letters : Word → List Char
  | null => ['n', 'u', 'l', 'l']
  | yes => ['t', 'r', 'u', 'e']
  | no => ['f', 'a', 'l', 's', 'e']

/-- The word that starts with `c`. -/
def ofInitial? (c : Char) : Option Word :=
  [null, yes, no].find? (·.letters.head? = some c)

end Word

/-- A lexical unit. A number or a string is held as it is spelled, a string without its
quotes. -/
inductive Token where
  | mark (m : Mark)
  | word (w : Word)
  | number (spelling : List Char)
  | string (spelling : List Char)
  deriving DecidableEq, Repr

def Token.text : Token → List Char
  | mark m => [m.char]
  | word w => w.letters
  | number s => s
  | string s => '"' :: s ++ ['"']

/-- The blanks allowed between tokens. -/
def isBlank (c : Char) : Bool := c = ' ' || c = '\t' || c = '\n' || c = '\r'

/-- What was read last of a number. -/
inductive Numeral where
  | sign | zero | whole | point | fraction | mark | markSign | exponent
  deriving DecidableEq, Repr

namespace Numeral

def start? (c : Char) : Option Numeral :=
  if c = '-' then some sign
  else if c = '0' then some zero
  else if c.isDigit then some whole
  else none

def step? (s : Numeral) (c : Char) : Option Numeral :=
  match s with
  | sign => if c = '0' then some zero else if c.isDigit then some whole else none
  | zero => tail c
  | whole => if c.isDigit then some whole else tail c
  | point => if c.isDigit then some fraction else none
  | fraction => if c.isDigit then some fraction else power c
  | mark => if c = '+' || c = '-' then some markSign else if c.isDigit then some exponent else none
  | markSign => if c.isDigit then some exponent else none
  | exponent => if c.isDigit then some exponent else none
where
  /-- After the whole part a point or an exponent may follow. -/
  tail (c : Char) : Option Numeral := if c = '.' then some point else power c
  /-- The letter of an exponent. -/
  power (c : Char) : Option Numeral := if c = 'e' || c = 'E' then some mark else none

/-- Whether a number may end here. -/
def isComplete : Numeral → Bool
  | zero | whole | fraction | exponent => true
  | sign | point | mark | markSign => false

end Numeral

/-- Where the scanner stands in a string: on plain characters, after a backslash, or with
`missing + 1` hexadecimal digits to come. -/
inductive Quoting where
  | plain
  | escape
  | digits (missing : Nat)
  deriving DecidableEq, Repr

def isHexDigit (c : Char) : Bool :=
  c.isDigit || ('a' ≤ c && c ≤ 'f') || ('A' ≤ c && c ≤ 'F')

/-- One character of a string's spelling. The surrogates are not checked here. -/
def Quoting.step? (s : Quoting) (c : Char) : Option Quoting :=
  match s with
  | plain =>
    if c = '\\' then some escape else if c = '"' || c.toNat < 0x20 then none else some plain
  | escape =>
    if c = 'u' then some (digits 3)
    else if ['"', '\\', '/', 'b', 'f', 'n', 'r', 't'].contains c then some plain else none
  | digits n =>
    if isHexDigit c then some (match n with | 0 => plain | m + 1 => digits m) else none

/-- The scanner between two characters; `seen` is the spelling so far, the last character
first. -/
inductive Scan where
  | between
  | word (w : Word) (missing : List Char)
  | number (s : Numeral) (seen : List Char)
  | string (s : Quoting) (seen : List Char)
  deriving DecidableEq, Repr

namespace Scan

/-- A character that no open token can take. -/
def start (c : Char) : Option (List Token × Scan) :=
  if isBlank c then some ([], between)
  else if c = '"' then some ([], string .plain [])
  else match Mark.ofChar? c with
    | some m => some ([.mark m], between)
    | none =>
      match Word.ofInitial? c with
      | some w => some ([], word w w.letters.tail)
      | none => (Numeral.start? c).map fun s => ([], number s [c])

/-- The tokens that end with `c`, and where the scanner stands after it. -/
def step : Scan → Char → Option (List Token × Scan)
  | between, c => start c
  | word _ [], _ => none
  | word w (x :: missing), c =>
    if c ≠ x then none
    else if missing = [] then some ([.word w], between)
    else some ([], word w missing)
  | number s seen, c =>
    match s.step? c with
    | some s' => some ([], number s' (c :: seen))
    | none =>
      if s.isComplete then (start c).map fun r => (.number seen.reverse :: r.1, r.2) else none
  | string s seen, c =>
    if s = .plain ∧ c = '"' then some ([.string seen.reverse], between)
    else (s.step? c).map fun s' => ([], string s' (c :: seen))

/-- The tokens that end with the text. -/
def finish : Scan → Option (List Token)
  | between => some []
  | number s seen => if s.isComplete then some [.number seen.reverse] else none
  | word .. | string .. => none

def run : Scan → List Char → Option (List Token)
  | s, [] => s.finish
  | s, c :: cs =>
    match s.step c with
    | some (ts, s') => (run s' cs).map (ts ++ ·)
    | none => none

@[simp] theorem run_nil (s : Scan) : s.run [] = s.finish := rfl

theorem run_cons (s : Scan) (c : Char) (cs : List Char) :
    s.run (c :: cs) = (s.step c).bind fun r => (r.2.run cs).map (r.1 ++ ·) := by
  rw [run]; cases s.step c <;> rfl

end Scan

/-- The tokens of a text, or `none` if it has some other character in it. -/
def tokens? (s : List Char) : Option (List Token) := Scan.between.run s

end SharedStages.Json
