import SharedStages.Json.Token

/-! JSON values, their tokens, and the reader that rebuilds a value from tokens. The reader keeps
the open containers on a stack, so it takes any depth. -/

namespace SharedStages

/-- A JSON value whose numbers and strings keep their spelling. -/
inductive Json where
  | null
  | bool (b : Bool)
  | number (spelling : List Char)
  | string (spelling : List Char)
  | array (items : List Json)
  | object (members : List (List Char × Json))

namespace Json

mutual

/-- The tokens a value is written with. -/
def tokens : Json → List Token
  | null => [.word .null]
  | bool b => [.word (if b then .yes else .no)]
  | number s => [.number s]
  | string s => [.string s]
  | array vs => .mark .leftBracket :: (itemTokens vs ++ [.mark .rightBracket])
  | object ms => .mark .leftBrace :: (memberTokens ms ++ [.mark .rightBrace])

def itemTokens : List Json → List Token
  | [] => []
  | [v] => v.tokens
  | v :: w :: vs => v.tokens ++ .mark .comma :: itemTokens (w :: vs)

def memberTokens : List (List Char × Json) → List Token
  | [] => []
  | [(s, v)] => .string s :: .mark .colon :: v.tokens
  | (s, v) :: m :: ms =>
    .string s :: .mark .colon :: (v.tokens ++ .mark .comma :: memberTokens (m :: ms))

end

/-- The compact text. -/
def text (v : Json) : List Char := v.tokens.flatMap Token.text

/-- An open container, with what it holds so far in reverse. -/
inductive Frame where
  | items (before : List Json)
  | member (before : List (List Char × Json)) (name : List Char)

/-- What the next token may be. -/
inductive Expect where
  | value
  | firstItem
  | firstMember
  | name (before : List (List Char × Json))
  | colon (before : List (List Char × Json)) (name : List Char)
  | after (v : Json)

/-- The first token of a value. -/
def Expect.start (fs : List Frame) : Token → Option (Expect × List Frame)
  | .mark .leftBracket => some (firstItem, fs)
  | .mark .leftBrace => some (firstMember, fs)
  | .word .null => some (after null, fs)
  | .word .yes => some (after (bool true), fs)
  | .word .no => some (after (bool false), fs)
  | .number s => some (after (number s), fs)
  | .string s => some (after (string s), fs)
  | .mark _ => none

def Expect.step : Expect × List Frame → Token → Option (Expect × List Frame)
  | (value, fs), t => start fs t
  | (firstItem, fs), .mark .rightBracket => some (after (array []), fs)
  | (firstItem, fs), t => start (.items [] :: fs) t
  | (firstMember, fs), .mark .rightBrace => some (after (object []), fs)
  | (firstMember, fs), .string s => some (colon [] s, fs)
  | (name ms, fs), .string s => some (colon ms s, fs)
  | (colon ms s, fs), .mark .colon => some (value, .member ms s :: fs)
  | (after v, .items vs :: fs), .mark .comma => some (value, .items (v :: vs) :: fs)
  | (after v, .items vs :: fs), .mark .rightBracket => some (after (array (v :: vs).reverse), fs)
  | (after v, .member ms s :: fs), .mark .comma => some (name ((s, v) :: ms), fs)
  | (after v, .member ms s :: fs), .mark .rightBrace =>
    some (after (object ((s, v) :: ms).reverse), fs)
  | _, _ => none

/-- The value that is complete with nothing open. -/
def Expect.result : Expect × List Frame → Option Json
  | (after v, []) => some v
  | _ => none

def ofTokens? (ts : List Token) : Option Json :=
  (ts.foldlM Expect.step (.value, [])).bind Expect.result

/-- Reads one value with blanks around its tokens and nothing else. -/
def read? (s : List Char) : Option Json := (tokens? s).bind ofTokens?

end Json

end SharedStages
