import ViewGen.Document.Component
import ViewGen.Page.Template
import ViewGen.Text.Entity

/-!
# The index page

The page that the browser loads before the application starts.

## Main definitions

* `indexTemplate` — its template
* `Project.indexData` — the data that a project gives for it
-/

namespace ViewGen

/-- The name of the template of the index page. -/
def indexName : String := "index.html"

/-- The template of the index page. -/
def indexTemplate : String :=
  "<!DOCTYPE html>\n" ++
  "<html lang=\"\x7b\x7blanguage\x7d\x7d\">\n" ++
  "  <head>\n" ++
  "    <meta charset=\"utf-8\" />\n" ++
  "\x7b\x7b#each meta\x7d\x7d\n" ++
  "    <meta name=\"\x7b\x7bname\x7d\x7d\" content=\"\x7b\x7bcontent\x7d\x7d\" />\n" ++
  "\x7b\x7b/each\x7d\x7d\n" ++
  "    <title>\x7b\x7btitle\x7d\x7d</title>\n" ++
  "  </head>\n" ++
  "  <body>\n" ++
  "    <div id=\"app\"></div>\n" ++
  "  </body>\n" ++
  "</html>\n"

/-- The templates of a project. -/
def projectTemplates : Except GenError PageTemplates :=
  PageTemplates.register [] indexName indexTemplate

/-- The language of an index page that gives none. -/
def defaultLanguage : String := "en"

/-- The title of the index page: that of the project, or else the project's name. -/
def Project.title (p : Project) : String :=
  if p.globals.title.isEmpty then p.name else p.globals.title

/-- The data of a meta tag. -/
def MetaTag.indexData (tag : MetaTag) : Json :=
  .obj [("content", .str (Text.escapeHtml tag.content)), ("name", .str (Text.escapeHtml tag.name))]

/-- The data that a project gives for its index page. All texts are escaped. -/
def Project.indexData (p : Project) : Json :=
  .obj [("language", .str (Text.escapeHtml (p.globals.language.getD defaultLanguage))),
    ("meta", .arr (p.globals.metaTags.map MetaTag.indexData)),
    ("title", .str (Text.escapeHtml p.title))]

end ViewGen
