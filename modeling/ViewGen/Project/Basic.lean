import ViewGen.Json.Printer
import ViewGen.Page.Index
import ViewGen.Project.Component
import ViewGen.Project.Pages

/-!
# Generating a project

All files of an application: a view for each page, the components, the entry, the package manifest
and the index page.

## Main definitions

* `Project.jobs` — what is to be compiled, and where its files go
* `ProjectGenerator` — a generator for the components of a project
* `ProjectGenerator.generate` — the files of a project
-/

namespace ViewGen

/-- A component to compile, the name of its files and the directory they go to. -/
structure Job where
  component : Component
  directory : String
  fileName : String

/-- A page to compile. -/
def Page.job (p : Page) : Job :=
  { component := p.component, directory := "src/views", fileName := p.fileName }

/-- A component to compile. -/
def Component.job (c : Component) : Job :=
  { component := c, directory := "src/components", fileName := kebabName c.name }

/-- What is to be compiled for a project: its pages and then its components. -/
def Project.jobs (p : Project) : List Job :=
  p.root.pages.map Page.job ++ p.components.map Component.job

/-- A file in a directory. -/
def GeneratedFile.within (directory : String) (f : GeneratedFile) : GeneratedFile :=
  { f with path := directory ++ "/" ++ f.path }

/-- A generated project. -/
structure GeneratedProject where
  name : String
  files : List GeneratedFile
  imports : ImportTable

/-- The package manifest of a project. -/
def Project.manifest (p : Project) (imports : ImportTable) : Json :=
  .obj [("name", .str (kebabName p.name)),
    ("version", .str "1.0.0"),
    ("private", .bool true),
    ("scripts", .obj [("start", .str "react-scripts start"),
      ("build", .str "react-scripts build")]),
    ("dependencies",
      .obj (imports.packageVersions.map fun (name, version) => (name, .str version))),
    ("devDependencies", .obj [("react-scripts", .str buildScriptsVersion)])]

/-- The file of the package manifest. -/
def Project.manifestFile (p : Project) (imports : ImportTable) : GeneratedFile where
  path := "package.json"
  fileType := .json
  content := (p.manifest imports).pretty ++ "\n"

/-- The file of the index page. -/
def Project.indexFile (p : Project) : Except GenError GeneratedFile := do
  let templates ← projectTemplates
  let content ← templates.render indexName p.indexData
  return { path := "public/index.html", fileType := .html, content }

/-- A generator for the components of a project. -/
structure ProjectGenerator where
  generator : Generator

namespace ProjectGenerator

/-- The generator for options. The entry of a project has markup in its script, so the framework
needs to have it too. Every component keeps its own file name. -/
def ofOptions (o : GeneratorOptions) : Except GenError ProjectGenerator :=
  match o.framework.runtime? with
  | none => .error (.invalidSelector "project component type" o.framework.name)
  | some _ => .ok { generator := .ofOptions { o with fileName := none } }

/-- Compile the components of a project one after the other, unless cancelled. -/
def compileJobs (g : ProjectGenerator) (cancel : Bool) :
    List Job → Except GenError (List (Job × CompiledComponent))
  | [] => .ok []
  | job :: rest => do
    if cancel then throw .cancelled
    let compiled ← g.generator.compile job.component job.fileName
    let others ← compileJobs g cancel rest
    return (job, compiled) :: others

/-- The entry: the router over the pages. -/
def entry (g : ProjectGenerator) (root : Component) (routes : List Route) :
    Except GenError CompiledComponent := do
  let d ← runPasses [routerPass routes, importPass] { component := root, fileName := "index" }
  return {
    files := g.generator.emission.files d.arena d.chunks "src/index"
    imports := d.imports }

/-- Check a project and generate all its files. -/
def generate (g : ProjectGenerator) (p : Project) (cancel : Bool := false) :
    Except GenError GeneratedProject := do
  p.resolve.mapError .ofCheck
  let compiled ← g.compileJobs cancel p.jobs
  let entry ← g.entry p.root (p.root.pages.map Page.route)
  let imports := ImportTable.mergeAll (compiled.map (·.2.imports) ++ [entry.imports])
  let index ← p.indexFile
  return {
    name := p.name
    files := compiled.flatMap (fun (job, c) => c.files.map (·.within job.directory)) ++
      entry.files ++ [p.manifestFile imports, index]
    imports }

end ProjectGenerator

end ViewGen
