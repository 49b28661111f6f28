import ViewGen.Document.Dependency
import ViewGen.Error

/-!
# Frameworks and other choices

What a caller chooses by name: the framework of the components, the place of their styles, the type
of a project and the publisher it is handed to.

## Main definitions

* `Framework`, `StylePlace`, `ProjectType`, `PublisherType` — the choices
* `Framework.runtime?` — what a framework with markup in scripts needs in scope
* `Framework.ofName`, … — a choice by its name, upper and lower case alike
-/

namespace ViewGen

/-- The version of React. -/
def reactVersion : String := "^17.0.2"

/-- The version of Preact. -/
def preactVersion : String := "^10.5.13"

/-- The version of the package for prop types. -/
def propTypesVersion : String := "^15.7.2"

/-- The version of the router. -/
def routerVersion : String := "^5.2.0"

/-- The version of the build scripts. -/
def buildScriptsVersion : String := "^4.0.3"

/-- The frameworks that components are generated for. -/
inductive Framework where
  | react
  | preact
  | vue
  deriving DecidableEq

/-- What a framework with markup in scripts needs in scope: the name that markup compiles to, its
package, and where the hook for states comes from. -/
structure Runtime where
  pragma : String
  package : Dependency
  hooks : Dependency

namespace Framework

/-- The name of a framework. -/
def name : Framework → String
  | .react => "react"
  | .preact => "preact"
  | .vue => "vue"

/-- The attribute for the class of an element. -/
def classAttribute : Framework → String
  | .react => "className"
  | .preact | .vue => "class"

/-- What the framework needs in scope; nothing when it has templates. -/
def runtime? : Framework → Option Runtime
  | .react => some {
      pragma := "React"
      package := .package "react" reactVersion
      hooks := (Dependency.package "react" reactVersion).byName }
  | .preact => some {
      pragma := "h"
      package := (Dependency.package "preact" preactVersion).byName
      hooks := (Dependency.package "preact/hooks" preactVersion).byName }
  | .vue => none

end Framework

/-- Where the styles of elements go. -/
inductive StylePlace where
  | inlineStyles
  | cssModules
  deriving DecidableEq

/-- The name of a place for styles. -/
def StylePlace.name : StylePlace → String
  | .inlineStyles => "inline-styles"
  | .cssModules => "css-modules"

/-- The types of projects. -/
inductive ProjectType where
  | react
  deriving DecidableEq

/-- The name of a project type. -/
def ProjectType.name : ProjectType → String
  | .react => "react"

/-- The publishers that a project can be handed to. -/
inductive PublisherType where
  | zip
  | disk
  | github
  | codesandbox
  deriving DecidableEq

/-- The name of a publisher. -/
def PublisherType.name : PublisherType → String
  | .zip => "zip"
  | .disk => "disk"
  | .github => "github"
  | .codesandbox => "codesandbox"

/-- A choice by its name, upper and lower case of ASCII letters alike. -/
def chooseByName {α : Type} (kind : String) (table : List (String × α)) (value : String) :
    Except GenError α :=
  match table.lookup (String.ofList (value.toList.map Char.toLower)) with
  | some a => .ok a
  | none => .error (.invalidSelector kind value)

/-- The frameworks by name. -/
def Framework.table : List (String × Framework) :=
  [Framework.react, .preact, .vue].map fun f => (f.name, f)

/-- The places for styles by name. -/
def StylePlace.table : List (String × StylePlace) :=
  [StylePlace.inlineStyles, .cssModules].map fun s => (s.name, s)

/-- The project types by name. -/
def ProjectType.table : List (String × ProjectType) :=
  [ProjectType.react].map fun t => (t.name, t)

/-- The publishers by name. -/
def PublisherType.table : List (String × PublisherType) :=
  [PublisherType.zip, .disk, .github, .codesandbox].map fun t => (t.name, t)

/-- A framework by its name. -/
def Framework.ofName : String → Except GenError Framework :=
  chooseByName "component type" Framework.table

/-- A place for styles by its name, with or without the hyphen. -/
def StylePlace.ofName : String → Except GenError StylePlace :=
  chooseByName "style variation"
    (StylePlace.table ++ [("inlinestyles", .inlineStyles), ("cssmodules", .cssModules)])

/-- A project type by its name. -/
def ProjectType.ofName : String → Except GenError ProjectType :=
  chooseByName "project type" ProjectType.table

/-- A publisher by its name. -/
def PublisherType.ofName : String → Except GenError PublisherType :=
  chooseByName "publisher type" PublisherType.table

end ViewGen
