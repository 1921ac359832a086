import AssetAudit.Dependency.Graph
import AssetAudit.Proofs.PlainReference

/-!
# References that are followed and references that are read

A page or a style sheet is searched for the files it leads to, and it is read for its facts. The files that
are followed are those the facts name where the references are written plainly (`followed_eq_named`);
elsewhere they may differ (`followed_ne_named`).
-/
namespace AssetAudit.Dependency

/-- The path of a local address from a directory, with or without a leading slash. -/
def localPath (directory address : String) : String :=
  Path.normalize (Path.join directory
    (String.ofList (if address.toList.head? = some '/' then address.toList.tail else address.toList)))

/-- What the addresses in a file lead to that are local, as far as it is there, in their order. -/
def namedFiles (disk : Disk) (file : String) (addresses : List String) : List String :=
  ((addresses.filter fun address => !isRemote address.toList).map (localPath (Path.directory file))).filter
    disk.holds

theorem existing?_eq (disk : Disk) (directory address : String) :
    existing? disk directory address.toList =
      if isRemote address.toList then none
      else if disk.holds (localPath directory address) then some (localPath directory address) else none := by
  unfold existing? localPath
  split
  · rfl
  · cases address.toList with
    | nil => rfl
    | cons c rest =>
      by_cases hc : c = '/'
      · subst hc
        rfl
      · simp [hc]

theorem filterMap_existing? (disk : Disk) (file : String) (addresses : List String) :
    addresses.filterMap (fun address => existing? disk (Path.directory file) address.toList) =
      namedFiles disk file addresses := by
  induction addresses with
  | nil => rfl
  | cons address addresses ih =>
    rw [List.filterMap_cons, existing?_eq, ih, namedFiles, namedFiles, List.filter_cons]
    cases isRemote address.toList with
    | true => rfl
    | false =>
      simp only [Bool.not_false, if_true, List.map_cons, List.filter_cons, Bool.false_eq_true, if_false]
      cases disk.holds (localPath (Path.directory file) address) <;> rfl

/-- The addresses of the scripts and then of the style sheets that a page loads. -/
def pageAddresses (facts : Page.Facts) : List String :=
  facts.resources.externalScripts.map (·.src) ++ facts.resources.externalStyles.map (·.href)

/-- The addresses of the imports of a style sheet. -/
def sheetAddresses (facts : Style.Facts) : List String := facts.imports.map (·.url)

theorem ofPage_eq (disk : Disk) (file : String) {content : String} (h : PlainPage content.toList)
    (ignored : List String) (exclude : Bool) :
    ofPage disk (Path.directory file) content =
      namedFiles disk file (pageAddresses (Page.extract ignored exclude content)) := by
  obtain ⟨hscripts, hstyles⟩ :=
    Page.externals_resourcesOfAll content.toList (Page.readPage content.toList)
  have haddresses : pageAddresses (Page.extract ignored exclude content) =
      (Page.tagsOfAll (Page.readPage content.toList)).filterMap (Page.scriptSource? ·.2) ++
        (Page.tagsOfAll (Page.readPage content.toList)).filterMap (Page.styleSource? ·.2) := by
    rw [← hscripts, ← hstyles]
    rfl
  rw [ofPage, ← filterMap_existing?, haddresses, h.findings_scriptAt?, h.findings_linkAt?,
    List.filterMap_append, List.filterMap_map, List.filterMap_map]
  rfl

theorem ofStyle_eq (disk : Disk) (file : String) {content : String} (h : PlainSheet content.toList)
    (exclude : Bool) :
    ofStyle disk (Path.directory file) content =
      namedFiles disk file (sheetAddresses (Style.extract exclude content)) := by
  rw [ofStyle, ← filterMap_existing?, sheetAddresses, Style.imports_extract, h.findings_importAt?,
    List.filterMap_map, List.filterMap_map]
  rfl

/-- The files followed from a page or a style sheet are those its facts name, if its references are
written plainly. -/
theorem followed_eq_named (disk : Disk) (settings : Settings) {file content : String}
    (hread : disk.read? file = some content) (ignored : List String) (exclude : Bool) :
    (Path.extension file ∈ pageExtensions → PlainPage content.toList →
      edges disk settings file =
        namedFiles disk file (pageAddresses (Page.extract ignored exclude content))) ∧
    (Path.extension file ∈ styleExtensions → PlainSheet content.toList →
      edges disk settings file =
        namedFiles disk file (sheetAddresses (Style.extract exclude content))) := by
  have hpages : ∀ extension ∈ pageExtensions, scriptExtensions.contains extension = false ∧
      styleExtensions.contains extension = false ∧ pageExtensions.contains extension = true := by
    decide
  have hstyles : ∀ extension ∈ styleExtensions, scriptExtensions.contains extension = false ∧
      styleExtensions.contains extension = true := by
    decide
  unfold edges
  rw [hread]
  constructor
  · intro hextension hplain
    obtain ⟨hscript, hstyle, hpage⟩ := hpages _ hextension
    simp only [hscript, hstyle, hpage, if_true, Bool.false_eq_true, if_false]
    exact ofPage_eq disk file hplain ignored exclude
  · intro hextension hplain
    obtain ⟨hscript, hstyle⟩ := hstyles _ hextension
    simp only [hscript, hstyle, if_true, Bool.false_eq_true, if_false]
    exact ofStyle_eq disk file hplain exclude

theorem plain_references_followed :
    let page := "<link rel=\"stylesheet\" href=\"c.css\" onload=\"this.media='all'\">\n" ++
      "<script async src='b.js'></script>"
    let sheet := "@import \"b.css\";\na \x7b color: red \x7d\n@import url( 'c.css' );"
    let disk : Disk := ⟨["app"], [(["app", "p.html"], .text page), (["app", "p.css"], .text sheet),
      (["app", "b.js"], .text ""), (["app", "b.css"], .text ""), (["app", "c.css"], .text "")]⟩
    let settings : Settings := .ofOptions "/app" {}
    edges disk settings "/app/p.html" = ["/app/b.js", "/app/c.css"] ∧
      edges disk settings "/app/p.css" = ["/app/b.css", "/app/c.css"] ∧
      edges disk settings "/app/p.html" =
        namedFiles disk "/app/p.html" (pageAddresses (Page.extract [] false page)) ∧
      edges disk settings "/app/p.css" =
        namedFiles disk "/app/p.css" (sheetAddresses (Style.extract false sheet)) := by
  intro page sheet disk settings
  have hnil : Text.Blanks [] := by rintro _ ⟨⟩
  have hspace : Text.Blanks [' '] := (by decide : ∀ c ∈ [' '], Text.isAsciiBlank c = true)
  have htags : Page.tagsOfAll (Page.readPage page.toList) =
      [(0, ⟨"link", [⟨"rel", "stylesheet", ⟨6, 22⟩⟩, ⟨"href", "c.css", ⟨23, 35⟩⟩,
          ⟨"onload", "this.media='all'", ⟨36, 61⟩⟩]⟩),
        (63, ⟨"script", [⟨"async", "", ⟨71, 76⟩⟩, ⟨"src", "b.js", ⟨77, 87⟩⟩]⟩)] := by
    decide +kernel
  have hscript : PlainScript (Text.dropBytes page.toList 63) := by
    refine ⟨_, [⟨"async".toList, [], false⟩, ⟨"src".toList, "b.js".toList, true⟩], "</script>".toList, ?_,
      .cons hspace (by decide) ⟨by decide, by decide⟩ .none (.cons hspace (by decide) ⟨by decide, by decide⟩
        (.quoted hnil hnil (by decide : isQuote '\'' = true) (by decide)) (.close hnil)),
      ⟨by decide, by decide, by decide⟩, by decide⟩
    decide +kernel
  have hlink : PlainLink (Text.dropBytes page.toList 0) := by
    refine ⟨_, [⟨"rel".toList, "stylesheet".toList, true⟩, ⟨"href".toList, "c.css".toList, true⟩,
        ⟨"onload".toList, "this.media='all'".toList, true⟩],
      "\n<script async src='b.js'></script>".toList, ?_,
      .cons hspace (by decide) ⟨by decide, by decide⟩
        (.quoted hnil hnil (by decide : isQuote '"' = true) (by decide))
        (.cons hspace (by decide) ⟨by decide, by decide⟩
          (.quoted hnil hnil (by decide : isQuote '"' = true) (by decide))
          (.cons hspace (by decide) ⟨by decide, by decide⟩
            (.quoted hnil hnil (by decide : isQuote '"' = true) (by decide)) (.close hnil))),
      ⟨by decide, by decide, by decide⟩, ⟨by decide, by decide, by decide⟩, by decide, by decide⟩
    decide +kernel
  have hpage : PlainPage page.toList := by
    refine ⟨?_, ?_, ?_, ?_⟩
    · rw [htags]
      intro entry hentry hname
      simp only [List.mem_cons, List.not_mem_nil, or_false] at hentry
      rcases hentry with rfl | rfl
      · exact absurd hname (by decide)
      · exact hscript
    · rw [htags]
      intro entry hentry hname
      simp only [List.mem_cons, List.not_mem_nil, or_false] at hentry
      rcases hentry with rfl | rfl
      · exact hlink
      · exact absurd hname (by decide)
    · rw [htags]
      decide +kernel
    · rw [htags]
      decide +kernel
  have himports : Style.importsOfAll (Style.readSheet sheet.toList) = [(0, "b.css"), (34, "c.css")] := by
    decide +kernel
  have hsheet : PlainSheet sheet.toList := by
    refine ⟨?_, ?_⟩
    · rw [himports]
      intro entry hentry
      simp only [List.mem_cons, List.not_mem_nil, or_false] at hentry
      rcases hentry with rfl | rfl
      · refine ⟨[' '], _, "b.css".toList, ";\na \x7b color: red \x7d\n@import url( 'c.css' );".toList, ?_,
          hspace, by decide, .quoted (by decide : isQuote '"' = true),
          ⟨by decide, by decide, by decide, by decide⟩⟩
        decide +kernel
      · refine ⟨[' '], _, "c.css".toList, " );".toList, ?_, hspace, by decide,
          @Style.Target.called '\'' [' '] [' '] _ [';'] (by decide) hspace hspace,
          ⟨by decide, by decide, by decide, by decide⟩⟩
        decide +kernel
    · rw [himports]
      decide +kernel
  refine ⟨by decide +kernel, by decide +kernel, ?_, ?_⟩
  · exact (followed_eq_named disk settings (by decide +kernel) [] false).1 (by decide +kernel) hpage
  · exact (followed_eq_named disk settings (by decide +kernel) [] false).2 (by decide +kernel) hsheet

/-- References that are not written plainly: in a comment, without quotation marks, in capital letters,
under a name that ends in the one looked for, behind a `>`, given twice, of another relation, with the
word for a style sheet in second place; and imports in a comment, without quotation marks and without a
blank. -/
theorem followed_ne_named :
    let settings : Settings := .ofOptions "/app" {}
    let others : List (List String × Node) := [(["app", "a.js"], .text ""), (["app", "b.js"], .text ""),
      (["app", "b.css"], .text ""), (["app", "s"], .text "")]
    (∀ page ∈ ["<!-- <script src=\"b.js\"></script> -->", "<script src=b.js></script>",
        "<SCRIPT src=\"b.js\"></SCRIPT>", "<script data-src=\"b.js\"></script>",
        "<script title=\"a>b\" src=\"b.js\"></script>", "<script src=\"a.js\" src=\"b.js\"></script>",
        "<link rel=\"icon\" href=\"b.css\">", "<link rel=\"alternate stylesheet\" href=\"s\">"],
      let disk : Disk := ⟨["app"], (["app", "p.html"], .text page) :: others⟩
      edges disk settings "/app/p.html" ≠
        namedFiles disk "/app/p.html" (pageAddresses (Page.extract [] false page))) ∧
    ∀ sheet ∈ ["/* @import \"b.css\"; */", "@import url(b.css);", "@import\"b.css\";"],
      let disk : Disk := ⟨["app"], (["app", "p.css"], .text sheet) :: others⟩
      edges disk settings "/app/p.css" ≠
        namedFiles disk "/app/p.css" (sheetAddresses (Style.extract false sheet)) := by
  decide +kernel

end AssetAudit.Dependency
