import ViewGen.Text.Blank
import ViewGen.Text.Words

/-!
# Names in generated code

How the names of a document become identifiers, file names and attribute names.

## Main definitions

* `isIdentifier` — a name that can stand by itself in a script
* `componentName`, `kebabName` — the identifier and the file name of a component
* `setterName` — the function that sets a state
* `eventAttribute` — the attribute that listens to an event
-/

namespace ViewGen

/-- A character that an identifier may start with. -/
def startsIdentifier (c : Char) : Bool :=
  c.isAlpha || c == '_' || c == '$'

/-- A character that an identifier may go on with. -/
def continuesIdentifier (c : Char) : Bool :=
  c.isAlphanum || c == '_' || c == '$'

/-- A name that can stand by itself in a script. -/
def isIdentifier (name : String) : Bool :=
  match name.toList with
  | [] => false
  | c :: cs => startsIdentifier c && cs.all continuesIdentifier

/-- A name with everything but ASCII letters and digits replaced by single spaces. -/
def plainWords (name : String) : String :=
  " ".intercalate ((Text.split (fun c => !c.isAlphanum) name).filter fun w => !w.isEmpty)

/-- The identifier of a component: `user card` is `UserCard`. -/
def componentName (name : String) : String :=
  let pascal := Text.pascal (plainWords name)
  match pascal.toList with
  | c :: _ => if c.isAlpha then pascal else "Component" ++ pascal
  | [] => "Component" ++ pascal

/-- A name as files and packages have it: `My <Shop>` is `my-shop`. -/
def kebabName (name : String) : String :=
  Text.kebab (plainWords name)

/-- The function that sets a state: `isOpen` is set by `setIsOpen`. -/
def setterName (state : String) : String :=
  "set" ++ Text.pascal state

/-- Events whose names do not show where their words end. -/
def compoundEvents : List (String × String) :=
  [("dblclick", "DoubleClick"), ("keydown", "KeyDown"), ("keyup", "KeyUp"),
   ("keypress", "KeyPress"), ("mouseenter", "MouseEnter"), ("mouseleave", "MouseLeave"),
   ("mouseover", "MouseOver"), ("mouseout", "MouseOut"), ("mousedown", "MouseDown"),
   ("mouseup", "MouseUp")]

/-- A name that is an attribute for an event already, such as `onClick`. -/
def isEventAttribute (event : String) : Bool :=
  match event.toList with
  | 'o' :: 'n' :: c :: _ => c.isUpper
  | _ => false

/-- The attribute that listens to an event. -/
def eventAttribute (event : String) : String :=
  if isEventAttribute event then event
  else "on" ++ (compoundEvents.lookup event).getD (Text.pascal event)

end ViewGen
