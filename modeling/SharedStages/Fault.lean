import SharedStages.Text.Quoted

/-! The two ways a request is refused before it reaches a cache, and their texts. -/

namespace SharedStages

/-- A refused request: a text that is no stage id, or a setting with a bad value. -/
inductive Fault where
  | badId (input reason : String)
  | badSetting (field value reason : String)
  deriving DecidableEq, Repr

namespace Fault

/-- The text of the fault alone. The refused id is quoted, so the text stays on one line. -/
def detailWith (g : Text.Glyphs) : Fault → String
  | badId input reason => "Invalid stage id " ++ g.quote input ++ ": " ++ reason
  | badSetting field value reason =>
    "Invalid value for " ++ field ++ ": " ++ value ++ " - " ++ reason

/-- The area a fault belongs to. -/
def area : Fault → String
  | badId .. => "Format error: "
  | badSetting .. => "Config error: "

/-- The text of the fault with its area in front. -/
def messageWith (g : Text.Glyphs) (f : Fault) : String := f.area ++ f.detailWith g

def detail (f : Fault) : String := f.detailWith Text.glyphs

def message (f : Fault) : String := f.messageWith Text.glyphs

theorem messageWith_eq (g : Text.Glyphs) (f : Fault) :
    f.messageWith g = f.area ++ f.detailWith g := rfl

end Fault

end SharedStages
