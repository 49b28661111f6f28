/-!
# Character entities

Characters that would be taken for markup are replaced by entities.

## Main definitions

* `Text.escapeText` — for the text between tags
* `Text.escapeAttribute` — for the value of an attribute in double quotes
* `Text.escapeHtml` — for both
-/

namespace ViewGen.Text

/-- A text with some characters replaced. -/
def replaceChars (table : List (Char × String)) (s : String) : String :=
  String.ofList (s.toList.flatMap fun c =>
    match table.lookup c with
    | some entity => entity.toList
    | none => [c])

/-- The entities for the text between tags. -/
def textEntities : List (Char × String) :=
  [('&', "&amp;"), ('<', "&lt;"), ('>', "&gt;")]

/-- The entities for the value of an attribute. -/
def attributeEntities : List (Char × String) :=
  [('&', "&amp;"), ('"', "&quot;")]

/-- The entities for values that may stand anywhere in a page. The character 0x60 is the grave
accent. -/
def htmlEntities : List (Char × String) :=
  [('<', "&lt;"), ('>', "&gt;"), ('"', "&quot;"), ('&', "&amp;"), ('\'', "&#x27;"),
   (Char.ofNat 0x60, "&#x60;"), ('=', "&#x3D;")]

/-- A text that is to stand between tags. -/
def escapeText : String → String :=
  replaceChars textEntities

/-- A text that is to stand in double quotes as the value of an attribute. -/
def escapeAttribute : String → String :=
  replaceChars attributeEntities

/-- A text that is to stand anywhere in a page. -/
def escapeHtml : String → String :=
  replaceChars htmlEntities

end ViewGen.Text
