/-! The spelling of a text inside a JSON string. -/

namespace SharedStages.Json.Literal

/-- The letter of the short escapes that are written. -/
def letter? (c : Char) : Option Char :=
  if c = '"' then some '"'
  else if c = '\\' then some '\\'
  else if c = '\x08' then some 'b'
  else if c = '\t' then some 't'
  else if c = '\n' then some 'n'
  else if c = '\x0c' then some 'f'
  else if c = '\r' then some 'r'
  else none

/-- The spelling of one character. Only the quote, the backslash and the characters below U+0020
are escaped. -/
def encodeChar (c : Char) : List Char :=
  match letter? c with
  | some l => ['\\', l]
  | none =>
    if c.toNat < 0x20 then
      ['\\', 'u', '0', '0', Nat.digitChar (c.toNat / 16), Nat.digitChar (c.toNat % 16)]
    else [c]

def encode (s : List Char) : List Char := s.flatMap encodeChar

/-- The character that a letter after a backslash stands for. -/
def unletter? (c : Char) : Option Char :=
  if c = '"' then some '"'
  else if c = '\\' then some '\\'
  else if c = '/' then some '/'
  else if c = 'b' then some '\x08'
  else if c = 'f' then some '\x0c'
  else if c = 'n' then some '\n'
  else if c = 'r' then some '\r'
  else if c = 't' then some '\t'
  else none

def hexValue? (c : Char) : Option Nat :=
  if c.isDigit then some (c.toNat - 48)
  else if 'a' ≤ c ∧ c ≤ 'f' then some (c.toNat - 87)
  else if 'A' ≤ c ∧ c ≤ 'F' then some (c.toNat - 55)
  else none

/-- The 16-bit unit of four hexadecimal digits. -/
def unit? (a b c d : Char) : Option Nat := do
  let a ← hexValue? a
  let b ← hexValue? b
  let c ← hexValue? c
  let d ← hexValue? d
  return ((a * 16 + b) * 16 + c) * 16 + d

def isHigh (n : Nat) : Bool := 0xd800 ≤ n && n < 0xdc00

def isLow (n : Nat) : Bool := 0xdc00 ≤ n && n < 0xe000

/-- The character beyond U+FFFF given by two surrogates. -/
def ofPair (high low : Nat) : Char :=
  Char.ofNat (0x10000 + (high - 0xd800) * 0x400 + (low - 0xdc00))

/-- The text of a spelling. A surrogate counts only as one half of a pair. -/
def decode : List Char → Option (List Char)
  | [] => some []
  | '\\' :: 'u' :: a :: b :: c :: d :: s =>
    match unit? a b c d with
    | none => none
    | some n =>
      if isHigh n then
        match s with
        | '\\' :: 'u' :: a' :: b' :: c' :: d' :: s' =>
          match unit? a' b' c' d' with
          | none => none
          | some m => if isLow m then (decode s').map (ofPair n m :: ·) else none
        | _ => none
      else if isLow n then none
      else (decode s).map (Char.ofNat n :: ·)
  | '\\' :: l :: s =>
    match unletter? l with
    | none => none
    | some x => (decode s).map (x :: ·)
  | c :: s =>
    if c = '\\' ∨ c = '"' ∨ c.toNat < 0x20 then none else (decode s).map (c :: ·)

@[simp] theorem encode_nil : encode [] = [] := rfl

@[simp] theorem encode_cons (c : Char) (s : List Char) :
    encode (c :: s) = encodeChar c ++ encode s := rfl

theorem unit?_control : ∀ n, n < 0x20 →
    unit? '0' '0' (Nat.digitChar (n / 16)) (Nat.digitChar (n % 16)) = some n := by decide

theorem decode_escape {l x : Char} (s : List Char) (hl : l ≠ 'u') (h : unletter? l = some x) :
    decode ('\\' :: l :: s) = (decode s).map (x :: ·) := by
  rw [decode.eq_3 _ _ (by intros; simp_all)]
  simp [h]

theorem decode_plain {c : Char} (s : List Char) (h : c ≠ '\\') (h' : c ≠ '"')
    (h'' : ¬ c.toNat < 0x20) :
    decode (c :: s) = (decode s).map (c :: ·) := by
  rw [decode.eq_4 _ _ (by intros; simp_all) (by intros; simp_all)]
  simp [h, h', h'']

theorem decode_unit {a b c d : Char} {n : Nat} (s : List Char) (h : unit? a b c d = some n)
    (hh : isHigh n = false) (hl : isLow n = false) :
    decode ('\\' :: 'u' :: a :: b :: c :: d :: s) = (decode s).map (Char.ofNat n :: ·) := by
  rw [decode]; simp [h, hh, hl]

theorem decode_encodeChar (c : Char) (s : List Char) :
    decode (encodeChar c ++ s) = (decode s).map (c :: ·) := by
  unfold encodeChar
  split
  · rename_i l h
    unfold letter? at h
    repeat' split at h
    all_goals first
      | (obtain rfl := Option.some.inj h; subst_vars; exact decode_escape s (by decide) (by decide))
      | simp at h
  · rename_i h
    have hq : c ≠ '"' := by rintro rfl; simp [letter?] at h
    have hb : c ≠ '\\' := by rintro rfl; simp [letter?] at h
    split
    · rename_i hc
      have hn := unit?_control c.toNat hc
      simp only [List.cons_append, List.nil_append]
      rw [decode_unit s hn (by simp [isHigh]; omega) (by simp [isLow]; omega)]
      simp
    · exact decode_plain s hb hq ‹_›

@[simp] theorem decode_encode (s : List Char) : decode (encode s) = some s := by
  induction s with
  | nil => rfl
  | cons c s ih => simp [encode_cons, decode_encodeChar, ih]

end SharedStages.Json.Literal
