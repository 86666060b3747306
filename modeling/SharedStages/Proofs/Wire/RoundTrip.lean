import SharedStages.Proofs.Wire.Records

/-! The compact texts of keys and configurations are read back as what was written. -/

namespace SharedStages

namespace Json

section Layout

/-! The compact text of a value in terms of the texts of its parts. -/

theorem text_items (vs : List Json) :
    (itemTokens vs).flatMap Token.text = [','].intercalate (vs.map text) := by
  induction vs with
  | nil => rfl
  | cons v vs ih =>
    cases vs with
    | nil => simp [itemTokens, text]
    | cons w vs =>
      rw [itemTokens, List.flatMap_append, List.flatMap_cons, ih]
      simp [text, Token.text, Mark.char, List.intercalate]

theorem text_members (ms : Members) : (memberTokens ms).flatMap Token.text =
    [','].intercalate (ms.map fun m => '"' :: m.1 ++ '"' :: ':' :: m.2.text) := by
  induction ms with
  | nil => rfl
  | cons m ms ih =>
    cases ms with
    | nil => simp [memberTokens, text, Token.text, Mark.char]
    | cons n ms =>
      rw [memberTokens, List.flatMap_cons, List.flatMap_cons, List.flatMap_append,
        List.flatMap_cons, ih]
      simp [text, Token.text, Mark.char, List.intercalate]

theorem text_array (vs : List Json) :
    (array vs).text = '[' :: [','].intercalate (vs.map text) ++ [']'] := by
  rw [text, tokens, List.flatMap_cons, List.flatMap_append, text_items]
  rfl

theorem text_object (ms : Members) : (object ms).text =
    '\x7b' :: [','].intercalate (ms.map fun m => '"' :: m.1 ++ '"' :: ':' :: m.2.text) ++
      ['\x7d'] := by
  rw [text, tokens, List.flatMap_cons, List.flatMap_append, text_members]
  rfl

end Layout

section Written

theorem denotes_ofString (t : String) : (ofString t).Denotes t :=
  ⟨Literal.encode t.toList, rfl, Literal.Spells.of_decode (Literal.decode_encode t.toList)⟩

theorem lists_ofString (ts : List String) : (array (ts.map ofString)).Lists ts :=
  ⟨_, rfl, List.forall₂_map_left_iff.2 (List.forall₂_same.2 fun t _ => denotes_ofString t)⟩

theorem givenOrNot_ofOption (o : Option String) : GivenOrNot Denotes [ofOption ofString o] o := by
  cases o with
  | none => exact .inr rfl
  | some t => exact ⟨_, rfl, denotes_ofString t⟩

theorem isSpelled_ofString (t : String) : (ofString t).IsSpelled :=
  isSpelled_string.2 (Literal.isLiteral_encode t.toList)

theorem isSpelled_ofOption (o : Option String) : (ofOption ofString o).IsSpelled := by
  cases o with
  | none => exact isSpelled_null
  | some t => exact isSpelled_ofString t

theorem isSpelled_ofStrings (ts : List String) : (array (ts.map ofString)).IsSpelled :=
  isSpelled_array.2 (List.forall_mem_map.2 fun t _ => isSpelled_ofString t)

variable {cols : List (String × Json)} {names : List String}

theorem isSpelled_ofColumns (h : ∀ c ∈ cols, c.2.IsSpelled) : (ofColumns cols).IsSpelled :=
  isSpelled_object.2 (List.forall_mem_map.2 fun c hc => ⟨Literal.isLiteral_encode _, h c hc⟩)

/-- The members of a record's object under their plain names. -/
def members (cols : List (String × Json)) : Members := cols.map fun c => (c.1.toList, c.2)

/-- Names of fields need no escapes. -/
def Plain (n : String) : Prop := Literal.encode n.toList = n.toList ∧ '\\' ∉ n.toList

instance : DecidablePred Plain := fun _ => inferInstanceAs (Decidable (_ ∧ _))

theorem ofColumns_eq (hnames : ∀ c ∈ cols, Plain c.1) : ofColumns cols = object (members cols) := by
  refine congrArg object (List.map_congr_left fun c hc => ?_)
  rw [(hnames c hc).1]

theorem isObjectText_print (hnames : ∀ c ∈ cols, Plain c.1) (hs : ∀ c ∈ cols, c.2.IsSpelled) :
    IsObjectText (members cols) (ofColumns cols).print := by
  constructor
  · rw [← ofColumns_eq hnames, print, String.toList_ofList]
    exact (isSpelled_ofColumns hs).isText
  · exact List.forall_mem_map.2 fun c hc => (hnames c hc).2

end Written

end Json

open Json

namespace Key

variable (k : Key String (List String))

def written : List (String × Json) :=
  [("root", ofString k.root), ("session", ofOption ofString k.session),
    ("context", array (k.context.map ofString))]

theorem plain_written : ∀ c ∈ k.written, Plain c.1 := by
  have hnames : ∀ n ∈ columns, Plain n := by decide
  exact fun c hc => hnames c.1 (List.mem_map_of_mem (f := Prod.fst) hc)

theorem isSpelled_written : ∀ c ∈ k.written, c.2.IsSpelled := by
  simp [written, isSpelled_ofString, isSpelled_ofOption, isSpelled_ofStrings]

/-- The fields stand in the order of declaration, and `null` for no session. -/
theorem json_eq : k.json = "\x7b\"root\":" ++ (ofString k.root).print ++ ",\"session\":" ++
    (ofOption ofString k.session).print ++ ",\"context\":[" ++
    ",".intercalate (k.context.map fun t => (ofString t).print) ++ "]\x7d" := by
  have hobject : k.toJson = object (members k.written) := ofColumns_eq k.plain_written
  rw [json, hobject, print, text_object, ← String.toList_inj]
  simp [members, written, print, text_array, List.intercalate, Function.comp_def]

theorem parseJson?_json : parseJson? k.json = some k := by
  have htext : IsObjectText (members k.written) k.json :=
    isObjectText_print k.plain_written k.isSpelled_written
  have hsession : valuesOf (members k.written) "session" = [ofOption ofString k.session] := by
    simp [valuesOf, members, written]
  refine (decodes.object_value htext).2 ⟨?_, ?_, ?_⟩
  · exact ⟨_, by simp [valuesOf, members, written], denotes_ofString k.root⟩
  · exact hsession ▸ givenOrNot_ofOption k.session
  · exact ⟨_, by simp [valuesOf, members, written], lists_ofString k.context⟩

end Key

namespace Config

variable (c : Config)

def written : List (String × Json) :=
  [("debug_name", ofOption ofString c.debugName), ("trace", .bool c.trace)]

theorem plain_written : ∀ d ∈ c.written, Plain d.1 := by
  have hnames : ∀ n ∈ columns, Plain n := by decide
  exact fun d hd => hnames d.1 (List.mem_map_of_mem (f := Prod.fst) hd)

theorem isSpelled_written : ∀ d ∈ c.written, d.2.IsSpelled := by
  simp [written, isSpelled_ofOption, isSpelled_bool]

/-- The fields stand in the order of declaration, and `null` for no name. -/
theorem json_eq : c.json = "\x7b\"debug_name\":" ++ (ofOption ofString c.debugName).print ++
    ",\"trace\":" ++ (if c.trace then "true" else "false") ++ "\x7d" := by
  have hobject : c.toJson = object (members c.written) := ofColumns_eq c.plain_written
  rw [json, hobject, print, text_object, ← String.toList_inj]
  cases htrace : c.trace <;>
    simp [members, written, print, htrace, List.intercalate, text, tokens, Token.text, Word.letters]

theorem parseJson?_json : parseJson? c.json = some c := by
  have htext : IsObjectText (members c.written) c.json :=
    isObjectText_print c.plain_written c.isSpelled_written
  have hname : valuesOf (members c.written) "debug_name" = [ofOption ofString c.debugName] := by
    simp [valuesOf, members, written]
  refine (decodes.object_value htext).2 ⟨?_, ?_⟩
  · exact hname ▸ givenOrNot_ofOption c.debugName
  · exact ⟨_, by simp [valuesOf, members, written], rfl⟩

end Config

/-- What is written has no raw control character and is read back. -/
structure Faithful {α : Type} (write : α → String) (parse : String → Option α) : Prop where
  read_back (a : α) : parse (write a) = some a
  controls_escaped (a : α) : ∀ c ∈ (write a).toList, 0x20 ≤ c.toNat
  distinct {a b : α} : a ≠ b → write a ≠ write b

theorem Faithful.of_read_back {α : Type} {written : α → List (String × Json)}
    {parse : String → Option α} (hspelled : ∀ a, ∀ c ∈ written a, c.2.IsSpelled)
    (hread : ∀ a, parse (ofColumns (written a)).print = some a) :
    Faithful (fun a => (ofColumns (written a)).print) parse where
  read_back := hread
  controls_escaped a := by
    rw [print, String.toList_ofList]
    exact (isSpelled_ofColumns (hspelled a)).le_toNat
  distinct {a b} hne h := by
    have hsome := hread a
    rw [h, hread b] at hsome
    exact hne (Option.some.inj hsome).symm

/-- Keys and configurations survive their compact texts. -/
theorem records_read_back :
    Faithful Key.json Key.parseJson? ∧ Faithful Config.json Config.parseJson? :=
  ⟨.of_read_back Key.isSpelled_written Key.parseJson?_json,
    .of_read_back Config.isSpelled_written Config.parseJson?_json⟩

end SharedStages
