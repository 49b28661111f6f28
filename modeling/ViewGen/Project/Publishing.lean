import ViewGen.Project.Basic

/-!
# Publishing

A generated project is handed to a publisher, which delivers it somewhere.

## Main definitions

* `Publisher` — what delivers a project
* `Publishers` — publishers by type
* `Project.pack` — generate a project and hand it over
-/

namespace ViewGen

/-- What a publisher reports. -/
structure PublishOutcome where
  location : Option String := none
  filesWritten : Nat := 0

/-- What delivers a project. -/
abbrev Publisher := GeneratedProject → Except GenError PublishOutcome

/-- Publishers by type. -/
structure Publishers where
  entries : List (PublisherType × Publisher) := []

namespace Publishers

/-- Add a publisher, in place of one of the same type. -/
def register (ps : Publishers) (type : PublisherType) (publisher : Publisher) : Publishers :=
  { entries := (type, publisher) :: ps.entries }

/-- The publisher of a type. -/
def get? (ps : Publishers) (type : PublisherType) : Option Publisher :=
  ps.entries.lookup type

end Publishers

/-- Generate a project and hand it to a publisher. The publisher is looked up before anything is
generated. -/
def Project.pack (p : Project) (o : PackOptions) (publishers : Publishers) :
    Except GenError PublishOutcome := do
  match publishers.get? o.publisher with
  | none => throw (.invalidSelector "publisher type" o.publisher.name)
  | some publisher =>
    let generator ← match o.projectType with
      | .react => ProjectGenerator.ofOptions o.generator
    let project ← generator.generate p
    publisher project

end ViewGen
