import ViewGen.Project.Basic

/-!
# The text of the index page

The index page of a project is rendered from a fixed template, and rendering is strict.  The
template asks for three names at the top and two in every meta tag, and a project gives all of them,
so the index page is always rendered, with one line for every meta tag.

## Main definitions

* `indexParts` — the template as a tree
* `MetaTag.line`, `Project.indexPage` — the text

## Main statements

* `parse_indexTemplate` — the template is well formed
* `render_each` — a block is its body for every item, one after the other
* `Project.indexFile_eq` — the index page of every project
-/

namespace ViewGen

/-- The body of the block for meta tags. -/
def metaParts : List PagePart :=
  [.text "    <meta name=\"", .value ["name"], .text "\" content=\"", .value ["content"],
    .text "\" />\n"]

/-- The template of the index page as a tree. -/
def indexParts : List PagePart :=
  [.text "<!DOCTYPE html>\n<html lang=\"", .value ["language"],
    .text "\">\n  <head>\n    <meta charset=\"utf-8\" />\n",
    .each (.path ["meta"]) metaParts none,
    .text "    <title>", .value ["title"],
    .text "</title>\n  </head>\n  <body>\n    <div id=\"app\"></div>\n  </body>\n</html>\n"]

set_option maxRecDepth 4000 in
/-- The lines with the tags of the block are gone, and everything else is kept. -/
theorem parse_indexTemplate : PagePart.parse? indexTemplate = some indexParts := by
  unfold PagePart.parse? PageToken.scan? indexTemplate
  -- The characters of each piece are read off before the scan, which is then evaluated.
  repeat rw [String.toList_append]
  repeat rw [String.toList_ofList]
  rfl

/-- Parts are shown one after the other. -/
theorem renderAll_cons {part : PagePart} {rest : List PagePart} {data : Json} {text texts : String}
    (hpart : part.render data = some text) (hrest : PagePart.renderAll rest data = some texts) :
    PagePart.renderAll (part :: rest) data = some (text ++ texts) := by
  rw [PagePart.renderAll, hpart, hrest]
  rfl

theorem renderAll_singleton {part : PagePart} {data : Json} {text : String}
    (hpart : part.render data = some text) : PagePart.renderAll [part] data = some text :=
  (renderAll_cons hpart rfl).trans (congrArg some (String.append_empty))

/-- A block is its body for every item, one after the other. -/
theorem render_each {α : Type} {source : EachSource} {body : List PagePart} {data : Json}
    {items : List α} {datum : α → Json} {text : α → String}
    (hitems : source.items? data = some (some (items.map datum)))
    (hbody : ∀ item, PagePart.renderAll body (datum item) = some (text item)) :
    (PagePart.each source body none).render data = some (String.join (items.map text)) := by
  have htexts : (items.map datum).mapM (PagePart.renderAll body) = some (items.map text) := by
    have hcomposed : PagePart.renderAll body ∘ datum = fun item => pure (text item) :=
      funext hbody
    rw [List.mapM_map, hcomposed, List.mapM_pure]
    rfl
  rw [PagePart.render, hitems]
  cases items with
  | nil => rfl
  | cons item rest => exact congrArg (Option.bind · fun texts => some (String.join texts)) htexts

/-- The line of a meta tag. -/
def MetaTag.line (tag : MetaTag) : String :=
  "    <meta name=\"" ++ Text.escapeHtml tag.name ++ "\" content=\"" ++
    Text.escapeHtml tag.content ++ "\" />\n"

theorem MetaTag.renderAll_metaParts (tag : MetaTag) :
    PagePart.renderAll metaParts tag.indexData = some tag.line := by
  have hname : (PagePart.value ["name"]).render tag.indexData =
      some (Text.escapeHtml tag.name) := rfl
  have hcontent : (PagePart.value ["content"]).render tag.indexData =
      some (Text.escapeHtml tag.content) := rfl
  refine (renderAll_cons rfl (renderAll_cons hname (renderAll_cons rfl (renderAll_cons hcontent
    (renderAll_singleton rfl))))).trans (congrArg some ?_)
  unfold line
  rw [String.append_assoc, String.append_assoc, String.append_assoc]

namespace Project

variable (p : Project)

/-- The text of the index page. -/
def indexPage : String :=
  "<!DOCTYPE html>\n<html lang=\"" ++ Text.escapeHtml (p.globals.language.getD defaultLanguage) ++
    "\">\n  <head>\n    <meta charset=\"utf-8\" />\n" ++
    String.join (p.globals.metaTags.map MetaTag.line) ++
    "    <title>" ++ Text.escapeHtml p.title ++
    "</title>\n  </head>\n  <body>\n    <div id=\"app\"></div>\n  </body>\n</html>\n"

theorem renderAll_indexParts : PagePart.renderAll indexParts p.indexData = some p.indexPage := by
  have hlanguage : (PagePart.value ["language"]).render p.indexData =
      some (Text.escapeHtml (p.globals.language.getD defaultLanguage)) := rfl
  have htitle : (PagePart.value ["title"]).render p.indexData =
      some (Text.escapeHtml p.title) := rfl
  have hmeta : (PagePart.each (.path ["meta"]) metaParts none).render p.indexData =
      some (String.join (p.globals.metaTags.map MetaTag.line)) :=
    render_each rfl MetaTag.renderAll_metaParts
  refine (renderAll_cons rfl (renderAll_cons hlanguage (renderAll_cons rfl (renderAll_cons hmeta
    (renderAll_cons rfl (renderAll_cons htitle (renderAll_singleton rfl))))))).trans
    (congrArg some ?_)
  unfold indexPage
  simp only [String.append_assoc]

/-- **The index page of every project is rendered.** -/
theorem indexFile_eq : p.indexFile = .ok ⟨"public/index.html", .html, p.indexPage⟩ := by
  have htemplates : projectTemplates = .ok [(indexName, indexParts)] := by
    rw [projectTemplates, PageTemplates.register, parse_indexTemplate]
    rfl
  have hrender : PageTemplates.render [(indexName, indexParts)] indexName p.indexData =
      .ok p.indexPage := by
    have hfound : Dict.get? [(indexName, indexParts)] indexName = some indexParts := rfl
    rw [PageTemplates.render, hfound, Option.bind_some, renderAll_indexParts]
  rw [indexFile, htemplates]
  show (PageTemplates.render _ indexName p.indexData >>= _) = _
  rw [hrender]
  rfl

end Project

end ViewGen
