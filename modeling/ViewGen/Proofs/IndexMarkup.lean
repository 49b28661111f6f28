import ViewGen.Proofs.CharacterReferences
import ViewGen.Proofs.ProjectGeneration

/-!
# The markup of the index page

The values that a project gives for its index page are put into the template as they are, so they
are escaped before.  An escaped value has no character that starts or ends a tag or a value in
quotes: all such characters of the page are those of its template, and the values stand between the
texts of the template, where they can be read back.

## Main definitions

* `Text.markup` — the characters of a text that start and end tags and values
* `PagePart.unrolled` — a template with the bodies of its blocks repeated
* `PagePart.gaps` — what stands between the texts of a template
* `Project.indexValues` — the values of an index page

## Main statements

* `markup_escapeHtml` — escaped values have no markup
* `gaps_value` — a value ends where the next text of the template starts
* `index_page_keeps_markup` — the index page has the markup of its template, and the values of its
  project can be read back from it
-/

namespace ViewGen

namespace Text

/-- A character that starts or ends a tag, or a value in quotes. -/
def isMarkup (c : Char) : Bool :=
  c == '<' || c == '>' || c == '"'

/-- The characters of a text that start or end tags and values, in order. -/
def markup (s : String) : List Char :=
  s.toList.filter isMarkup

theorem markup_append (s t : String) : markup (s ++ t) = markup s ++ markup t := by
  rw [markup, String.toList_append, List.filter_append]
  rfl

theorem notMem_escapeHtml {c : Char} (hc : isMarkup c = true) (s : String) :
    c ∉ (escapeHtml s).toList := by
  have hcases : c = '<' ∨ c = '>' ∨ c = '"' := by simpa [isMarkup, or_assoc] using hc
  rcases hcases with rfl | rfl | rfl <;>
    exact reversible_htmlEntities.notMem_escaped (by decide) (by decide) s

/-- **Escaped values have no markup.** -/
theorem markup_escapeHtml (s : String) : markup (escapeHtml s) = [] :=
  List.filter_eq_nil_iff.mpr fun _ hmem hc => notMem_escapeHtml hc s hmem

/-- Cut a text at the first place where another one stands, which is left out. -/
def cutBefore (part : List Char) : List Char → Option (List Char × List Char)
  | [] => if part = [] then some ([], []) else none
  | c :: cs =>
    match (c :: cs).dropPrefix? part with
    | some rest => some ([], rest)
    | none => (cutBefore part cs).map fun cut => (c :: cut.1, cut.2)

/-- A text that does not have the first character of another one ends where that one stands. -/
theorem cutBefore_append {c : Char} {before : List Char} (h : c ∉ before) (part after : List Char) :
    cutBefore (c :: part) (before ++ (c :: part ++ after)) = some (before, after) := by
  induction before with
  | nil =>
      have hdrop : (c :: part ++ after).dropPrefix? (c :: part) = some after :=
        List.dropPrefix?_append_of_beq _ (beq_self_eq_true _)
      rw [List.nil_append, List.cons_append, cutBefore, ← List.cons_append, hdrop]
  | cons d before ih =>
      obtain ⟨hne, hrest⟩ := not_or.mp (mt List.mem_cons.mpr h)
      have hdrop : (d :: (before ++ (c :: part ++ after))).dropPrefix? (c :: part) = none := by
        simp [List.dropPrefix?, Ne.symm hne]
      rw [List.cons_append, cutBefore, hdrop, ih hrest]
      rfl

end Text

namespace PagePart

/-- A part of a template, with the body of a block repeated so many times. -/
def repeated (n : Nat) : PagePart → List PagePart
  | .each _ body _ => (List.replicate n body).flatten
  | part => [part]

/-- A template with the bodies of its blocks repeated so many times. -/
def unrolled (n : Nat) (parts : List PagePart) : List PagePart :=
  parts.flatMap (repeated n)

/-- The markup that a part of a template has by itself. -/
def markup : PagePart → List Char
  | .text s => Text.markup s
  | _ => []

/-- What stands between the texts of a template in a page: a value goes up to the first place where
the text after it stands. -/
def gaps : List PagePart → List Char → Option (List String)
  | [], [] => some []
  | .text s :: parts, cs => (cs.dropPrefix? s.toList).bind (gaps parts)
  | .value _ :: .text s :: parts, cs =>
    (Text.cutBefore s.toList cs).bind fun cut =>
      (gaps parts cut.2).map (String.ofList cut.1 :: ·)
  | _, _ => none

theorem gaps_text (s : String) (parts : List PagePart) (cs : List Char) :
    gaps (.text s :: parts) (s.toList ++ cs) = gaps parts cs := by
  have hdrop : (s.toList ++ cs).dropPrefix? s.toList = some cs :=
    List.dropPrefix?_append_of_beq _ (beq_self_eq_true _)
  rw [gaps, hdrop, Option.bind_some]

/-- **A value ends where the next text of the template starts**, if it does not have the character
that this starts with. -/
theorem gaps_value (path : DataPath) {s value : String} {c : Char} (hc : c ∉ value.toList)
    (parts : List PagePart) (cs : List Char) (hs : s.toList.head? = some c) :
    gaps (.value path :: .text s :: parts) (value.toList ++ (s.toList ++ cs)) =
      (gaps parts cs).map (value :: ·) := by
  obtain ⟨rest, hrest⟩ := List.head?_eq_some_iff.mp hs
  rw [gaps, hrest, Text.cutBefore_append hc, Option.bind_some, String.ofList_toList]

theorem gaps_last (path : DataPath) {s value : String} {c : Char} (hc : c ∉ value.toList)
    (hs : s.toList.head? = some c) :
    gaps [.value path, .text s] (value.toList ++ s.toList) = some [value] := by
  rw [← List.append_nil s.toList, gaps_value path hc [] [] hs]
  rfl

end PagePart

/-! ## Meta tags -/

/-- The values of a meta tag. -/
def MetaTag.values (tag : MetaTag) : List String :=
  [tag.name, tag.content]

theorem MetaTag.markup_line (tag : MetaTag) :
    Text.markup tag.line = metaParts.flatMap PagePart.markup := by
  unfold line metaParts
  simp only [Text.markup_append, Text.markup_escapeHtml, List.flatMap_cons, List.flatMap_nil,
    PagePart.markup, List.nil_append, List.append_nil, List.append_assoc]

/-- The values of a meta tag stand in the gaps of its line. -/
theorem MetaTag.gaps_line (tag : MetaTag) (parts : List PagePart) (cs : List Char) :
    PagePart.gaps (metaParts ++ parts) (tag.line.toList ++ cs) =
      (PagePart.gaps parts cs).map (tag.values.map Text.escapeHtml ++ ·) := by
  have hquote : ∀ value, '"' ∉ (Text.escapeHtml value).toList :=
    Text.notMem_escapeHtml (by decide)
  unfold line metaParts
  simp only [String.toList_append, List.append_assoc, List.cons_append, List.nil_append]
  rw [PagePart.gaps_text, PagePart.gaps_value _ (hquote _), PagePart.gaps_value _ (hquote _),
    Option.map_map]
  · rfl
  · decide
  · decide

/-- The lines of meta tags have the markup of the body of their block, once for each of them. -/
theorem markup_join_line (tags : List MetaTag) :
    Text.markup (String.join (tags.map MetaTag.line)) =
      (List.replicate tags.length metaParts).flatten.flatMap PagePart.markup := by
  induction tags with
  | nil => rfl
  | cons tag rest ih =>
      rw [List.map_cons, String.join_cons, Text.markup_append, tag.markup_line, ih,
        List.length_cons, List.replicate_succ, List.flatten_cons, List.flatMap_append]

/-- The values of meta tags stand in the gaps of these bodies, in order. -/
theorem gaps_join_line (tags : List MetaTag) (parts : List PagePart) (cs : List Char) :
    PagePart.gaps ((List.replicate tags.length metaParts).flatten ++ parts)
        ((String.join (tags.map MetaTag.line)).toList ++ cs) =
      (PagePart.gaps parts cs).map ((tags.flatMap MetaTag.values).map Text.escapeHtml ++ ·) := by
  induction tags with
  | nil => simp
  | cons tag rest ih =>
      rw [List.length_cons, List.replicate_succ, List.flatten_cons, List.append_assoc,
        List.map_cons, String.join_cons, String.toList_append, List.append_assoc, tag.gaps_line,
        ih, Option.map_map, List.flatMap_cons, List.map_append]
      simp [Function.comp_def]

/-! ## The page -/

namespace Project

variable (p : Project)

/-- The values of an index page, in the order of the page: the language, the names and contents of
the meta tags, and the title.  A project without a title has its name there. -/
def indexValues : List String :=
  [p.globals.language.getD "en"] ++ p.globals.metaTags.flatMap MetaTag.values ++
    [if p.globals.title = "" then p.name else p.globals.title]

/-- The page has the markup of its template, with one line for each meta tag. -/
theorem markup_indexPage :
    Text.markup p.indexPage =
      (PagePart.unrolled p.globals.metaTags.length indexParts).flatMap PagePart.markup := by
  unfold indexPage indexParts PagePart.unrolled
  simp only [Text.markup_append, Text.markup_escapeHtml, markup_join_line, List.flatMap_cons,
    List.flatMap_nil, List.flatMap_append, PagePart.repeated, PagePart.markup, List.nil_append,
    List.append_nil, List.append_assoc]

theorem indexValues_eq :
    p.indexValues = [p.globals.language.getD defaultLanguage] ++
      p.globals.metaTags.flatMap MetaTag.values ++ [p.title] := by
  simp [indexValues, title, defaultLanguage, String.isEmpty_iff]

/-- The escaped values stand in the gaps of the template. -/
theorem gaps_indexPage :
    PagePart.gaps (PagePart.unrolled p.globals.metaTags.length indexParts) p.indexPage.toList =
      some (p.indexValues.map Text.escapeHtml) := by
  have hquote : ∀ value, '"' ∉ (Text.escapeHtml value).toList :=
    Text.notMem_escapeHtml (by decide)
  have hbracket : ∀ value, '<' ∉ (Text.escapeHtml value).toList :=
    Text.notMem_escapeHtml (by decide)
  unfold indexPage indexParts PagePart.unrolled
  simp only [List.flatMap_cons, List.flatMap_nil, PagePart.repeated, String.toList_append,
    List.append_assoc, List.cons_append, List.nil_append]
  rw [PagePart.gaps_text, PagePart.gaps_value _ (hquote _), gaps_join_line, PagePart.gaps_text,
    PagePart.gaps_last _ (hbracket _), indexValues_eq]
  · simp
  · decide
  · decide

end Project

/-- **The index page has the markup of its template, and the values of its project can be read back
from it.**  There is an index page for every project.  The characters in it that start and end tags
and values are those of the template, with the line for meta tags as many times as there are meta
tags, whatever the values are.  Every reader that knows the entities finds the values between the
texts of the template.  This is the page that is put into a generated project. -/
theorem index_page_keeps_markup (p : Project) :
    ∃ parts page, PagePart.parse? indexTemplate = some parts ∧
      p.indexFile = .ok ⟨"public/index.html", .html, page⟩ ∧
      Text.markup page =
        (PagePart.unrolled p.globals.metaTags.length parts).flatMap PagePart.markup ∧
      (∀ refs : CharacterReferences, refs.Knows Text.htmlEntities →
        ∃ gaps, PagePart.gaps (PagePart.unrolled p.globals.metaTags.length parts) page.toList =
            some gaps ∧ gaps.map refs.decode = p.indexValues) ∧
      ∀ (g : ProjectGenerator) (r : GeneratedProject), g.generate p = .ok r →
        ⟨"public/index.html", .html, page⟩ ∈ r.files := by
  refine ⟨indexParts, p.indexPage, parse_indexTemplate, p.indexFile_eq, p.markup_indexPage,
    fun refs hrefs => ⟨_, p.gaps_indexPage, ?_⟩, fun g r hr => ?_⟩
  · rw [List.map_map]
    refine (List.map_congr_left fun value _ => ?_).trans (List.map_id _)
    exact CharacterReferences.decode_replaceChars hrefs Text.reversible_htmlEntities.ampersand value
  · obtain ⟨-, compiled, entry, -, -, rfl⟩ := ProjectGenerator.generate_iff.mp hr
    simp [Project.generated]

/-- A shop with markup, an entity and a tag of templates in its name, language and meta tags. -/
def quotedShop : Project where
  name := "<Shop> & \"Co\""
  globals := {
    language := some "en\"><script>"
    metaTags := [⟨"a\"b", "&lt;"⟩, ⟨"\x7b\x7btitle\x7d\x7d", ""⟩] }
  root := { name := "App", node := .element { tag := "div" } }

/-- The shop is generated, and the values are read back from its index page. -/
theorem quotedShop_reads_back :
    ∃ g r parts page gaps, ProjectGenerator.ofOptions {} = .ok g ∧ g.generate quotedShop = .ok r ∧
      ⟨"public/index.html", .html, page⟩ ∈ r.files ∧ PagePart.parse? indexTemplate = some parts ∧
      Text.markup page = (PagePart.unrolled 2 parts).flatMap PagePart.markup ∧
      PagePart.gaps (PagePart.unrolled 2 parts) page.toList = some gaps ∧
      gaps.map Text.reversible_htmlEntities.references.decode =
        ["en\"><script>", "a\"b", "&lt;", "\x7b\x7btitle\x7d\x7d", "", "<Shop> & \"Co\""] := by
  have hg : ProjectGenerator.ofOptions {} = .ok _ :=
    ProjectGenerator.ofOptions_iff.mpr ⟨by decide, rfl⟩
  obtain ⟨r, hr⟩ := ProjectGenerator.exists_generate hg (rfl : quotedShop.resolve = .ok ())
  obtain ⟨parts, page, hparts, -, hmarkup, hread, hfile⟩ := index_page_keeps_markup quotedShop
  obtain ⟨gaps, hgaps, hvalues⟩ := hread _ Text.reversible_htmlEntities.knows_references
  exact ⟨_, r, parts, page, gaps, hg, hr, hfile _ r hr, hparts, hmarkup, hgaps, hvalues⟩

end ViewGen
