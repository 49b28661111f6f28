import ViewGen.Text.Letter

/-!
# Words inside a name

A name such as `backgroundColor`, `URLPath2` or `user card` is cut into words, and the words are put
together again in one of three styles.

## Main definitions

* `Text.words` — the words of a name
* `Text.pascal` — every word capitalized: `UserCard`
* `Text.camel` — every word but the first capitalized: `userCard`
* `Text.kebab` — lower case words joined by hyphens: `user-card`

## Design notes

A word ends at a separator (low line, hyphen, space), which is dropped; where the class of the
characters changes from lower case to upper case, or between letters and digits; and before the last
upper case letter of a run that a lower case letter follows, so that `ABc` is `A`, `Bc`.

Words are cut, capitalized and put into lower case character by character. A letter that is written
with a combining mark is two characters, and a capital sigma at the end of a word becomes the same
small letter as anywhere else.
-/

namespace ViewGen.Text

/-- Separators end a word and belong to none. -/
def isSeparator (c : Char) : Bool :=
  c == '_' || c == '-' || c == ' '

/-- Whether a word ends between `c` and what follows it, neither being a separator. -/
def endsWord (c : Char) : List Char → Bool
  | [] => false
  | d :: rest =>
    (isLower c && isUpper d) || (isUpper c && d.isDigit) || (c.isDigit && isUpper d) ||
      (c.isDigit && isLower d) || (isLower c && d.isDigit) ||
      (isUpper c && isUpper d && rest.head?.any isLower)

/-- The words of a list of characters; some may be empty. -/
def cutWords : List Char → List (List Char)
  | [] => [[]]
  | c :: cs =>
    if isSeparator c then [] :: cutWords cs
    else
      match cutWords cs with
      | [] => [[c]]
      | w :: ws => if endsWord c cs then [c] :: w :: ws else (c :: w) :: ws

/-- The words of a name. -/
def words (s : String) : List (List Char) :=
  (cutWords s.toList).filter (fun w => !w.isEmpty)

/-- A word in lower case. -/
def lowerWord (w : List Char) : List Char :=
  w.flatMap lower

/-- A word with its first character in upper case and the others in lower case. -/
def capitalize : List Char → List Char
  | [] => []
  | c :: cs => upper c ++ lowerWord cs

/-- Every word capitalized: `UserCard`. -/
def pascal (s : String) : String :=
  String.ofList ((words s).flatMap capitalize)

/-- Every word but the first capitalized: `userCard`. -/
def camel (s : String) : String :=
  match words s with
  | [] => ""
  | w :: ws => String.ofList (lowerWord w ++ ws.flatMap capitalize)

/-- Lower case words joined by hyphens: `user-card`. -/
def kebab (s : String) : String :=
  String.ofList (['-'].intercalate ((words s).map lowerWord))

end ViewGen.Text
