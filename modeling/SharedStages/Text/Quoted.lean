import SharedStages.Text.Extending
import SharedStages.Text.Printable

/-! Texts on one line: quotation marks and backslashes escaped, controls and other unprintable
characters written by code point. The classes of characters are a parameter, so that what holds
of the escapes does not hang on one edition of the tables. -/

namespace SharedStages.Text

/-- Which characters show as themselves, and which attach to the one before them. -/
structure Glyphs where
  isPrintable : Char → Bool
  isExtending : Char → Bool
  control_unprintable : ∀ c, isControl c = true → isPrintable c = false

/-- The classes given by the tables. -/
def glyphs : Glyphs where
  isPrintable := isPrintable
  isExtending := isExtending
  control_unprintable _ := isPrintable_eq_false_of_isControl

/-- A code point in lower-case hexadecimal without padding. -/
def codePoint (c : Char) : List Char :=
  ['\\', 'u', '{'] ++ Nat.toDigits 16 c.toNat ++ ['}']

/-- The letter that stands for a character after a backslash. The apostrophe has one only where
`apostrophe` is set. -/
def escapeLetter (apostrophe : Bool) (c : Char) : Option Char :=
  if c = '\x00' then some '0'
  else if c = '\t' then some 't'
  else if c = '\r' then some 'r'
  else if c = '\n' then some 'n'
  else if c = '\\' then some '\\'
  else if c = '"' then some '"'
  else if apostrophe && c = '\x27' then some '\x27'
  else none

namespace Glyphs

variable (g : Glyphs)

/-- Whether `c` is written by its code point. With `alone` set nothing stands before `c`, and a
character that extends counts as unprintable. -/
def isHidden (alone : Bool) (c : Char) : Bool :=
  (alone && g.isExtending c) || !g.isPrintable c

def escapeChar (apostrophe alone : Bool) (c : Char) : List Char :=
  match escapeLetter apostrophe c with
  | some l => ['\\', l]
  | none => if g.isHidden alone c then codePoint c else [c]

/-- A text between double quotes. Every extending character goes by code point. -/
def quoteChars (s : List Char) : List Char :=
  '"' :: s.flatMap (g.escapeChar false true) ++ ['"']

/-- A text without enclosing quotes. Both quotation marks are escaped, and an extending
character goes by code point only at the start. -/
def escapeChars : List Char → List Char
  | [] => []
  | c :: s => g.escapeChar true true c ++ s.flatMap (g.escapeChar true false)

def quote (s : String) : String := String.ofList (g.quoteChars s.toList)

def escape (s : String) : String := String.ofList (g.escapeChars s.toList)

@[simp] theorem toList_quote (s : String) : (g.quote s).toList = g.quoteChars s.toList := by
  simp [quote]

@[simp] theorem toList_escape (s : String) : (g.escape s).toList = g.escapeChars s.toList := by
  simp [escape]

end Glyphs

end SharedStages.Text
