import DesktopSearch.Proofs.Term.Exact
import DesktopSearch.Proofs.Xml.Rendering
import DesktopSearch.Query.Markup

/-!
# Queries read back

A query that is no file query has no folders and wants both files and folders (`IsSound`), so the name of
its element and two switches tell all that its document says about files. The attributes give back the query
without content (`ofAttributes?_attributes`), the elements of the content are told apart by their names and
put back what they were made of, one kind after the other, and the document is read as the element of the
query behind its prolog. All in all `ofMarkup` gives back a query of which only the term may have changed
(`ofMarkup_markup_eq`), to what is recorded of it.
-/

namespace DesktopSearch.Query

open Xml

/-! ## Sound queries -/

/-- Nothing is said about files unless the query is a file query, and all numbers are ones that the program
can hold. -/
structure IsSound (q : Query) : Prop where
  plain : q.isFileQuery = false →
    q.fileMode = .both ∧ q.includeFolders = [] ∧ q.excludeFolders = []
  limit_lt : q.limit < Text.nat64Limit
  offset_lt : q.offset < Text.nat64Limit
  fits : q.term.Fits

variable {q : Query}

/-! ## Attributes -/

/-- The attributes of a query, each with its value if it is written. -/
def fields (q : Query) : List (String × Option String) :=
  [("queryFiles", if q.isFileQuery then some (switchText q.fileMode.wantsFiles) else none),
    ("queryFolders", if q.isFileQuery then some (switchText q.fileMode.wantsFolders) else none),
    ("limit", some (toString q.limit)), ("offset", some (toString q.offset)),
    ("fullTextScoring", some (switchText q.scoring)),
    ("fullTextScoringOrder", some q.scoringOrder.name), ("flags", some (flagsText q.flags))]

theorem map_fst_fields (q : Query) : q.fields.map Prod.fst = ["queryFiles", "queryFolders", "limit",
    "offset", "fullTextScoring", "fullTextScoringOrder", "flags"] := rfl

theorem attributes_eq (q : Query) : q.attributes = allGiven q.fields := by
  cases h : q.isFileQuery <;> simp [attributes, fields, allGiven, given, h]

theorem isName_attributes (q : Query) : ∀ a ∈ q.attributes, isName a.1.toList = true := by
  intro a ha
  rw [attributes_eq] at ha
  have hnames : ∀ name ∈ q.fields.map Prod.fst, isName name.toList = true := by
    rw [map_fst_fields]
    decide
  exact hnames _ (mem_allGiven ha)

/-- Every field of a query is found under its name. -/
theorem attribute?_attributes {name : String} {value : Option String}
    (h : (name, value) ∈ q.fields) : attribute? q.attributes name = value := by
  have hnodup : (q.fields.map Prod.fst).Nodup := by
    rw [map_fst_fields]
    decide
  rw [attributes_eq, attribute?_allGiven hnodup h]

theorem beq_switchText (b : Bool) : (some (switchText b) == some "true") = b := by
  cases b <;> rfl

/-- The flags are read back from the words for them. -/
theorem readFlags_flagsText (flags : QueryFlags) : readFlags (flagsText flags) = flags := by
  obtain ⟨noResultRestrictions, withExcerpt⟩ := flags
  cases noResultRestrictions <;> cases withExcerpt <;> decide +kernel

theorem readCount_toString {n : Nat} (h : n < Text.nat64Limit) : readCount (some (toString n)) = n := by
  have htrim : Text.trim (toString n).toList = (toString n).toList :=
    Text.trim_eq_self fun c hc => Text.isBlank_of_isDigit (Text.isDigit_of_mem_toString hc)
  rw [readCount, Option.bind_some, htrim, Text.readNat?_toString h, Option.getD_some]

/-- The two switches tell which files are wanted. -/
theorem ofSwitches_wants (m : FileMode) : FileMode.ofSwitches m.wantsFiles m.wantsFolders = m := by
  cases m <;> rfl

/-- The query without its term, folders and fetched properties. -/
def shell (q : Query) : Query :=
  { q with term := .nothing, includeFolders := [], excludeFolders := [], requestProperties := [] }

/-- The name and the attributes of the element of a query tell all but its content. -/
theorem ofAttributes?_attributes (h : q.IsSound) :
    ofAttributes? q.elementName q.attributes = some q.shell := by
  have hlimit : attribute? q.attributes "limit" = some (toString q.limit) :=
    attribute?_attributes (by simp [fields])
  have hoffset : attribute? q.attributes "offset" = some (toString q.offset) :=
    attribute?_attributes (by simp [fields])
  have hscoring : attribute? q.attributes "fullTextScoring" = some (switchText q.scoring) :=
    attribute?_attributes (by simp [fields])
  have horder : attribute? q.attributes "fullTextScoringOrder" = some q.scoringOrder.name :=
    attribute?_attributes (by simp [fields])
  have hflags : attribute? q.attributes "flags" = some (flagsText q.flags) :=
    attribute?_attributes (by simp [fields])
  have hfiles (hfile : q.isFileQuery = true) :
      attribute? q.attributes "queryFiles" = some (switchText q.fileMode.wantsFiles) :=
    attribute?_attributes (by simp [fields, hfile])
  have hfolders (hfile : q.isFileQuery = true) :
      attribute? q.attributes "queryFolders" = some (switchText q.fileMode.wantsFolders) :=
    attribute?_attributes (by simp [fields, hfile])
  cases hfile : q.isFileQuery with
  | false =>
    simp only [ofAttributes?, elementName, hfile, hlimit, hoffset, flag, hscoring, horder, hflags,
      readCount_toString h.limit_lt, readCount_toString h.offset_lt, beq_switchText,
      Option.getD_some, SortOrder.ofName_name, readFlags_flagsText, shell, (h.plain hfile).1]
    rfl
  | true =>
    simp only [ofAttributes?, elementName, hfile, hlimit, hoffset, flag, hscoring, horder, hflags,
      hfiles hfile, hfolders hfile, readCount_toString h.limit_lt, readCount_toString h.offset_lt,
      beq_switchText, ofSwitches_wants, Option.getD_some, SortOrder.ofName_name,
      readFlags_flagsText, shell]
    rfl

/-! ## Content -/

/-- The element of a term is taken for a term. -/
theorem addContent?_of_mem_toXml {t : Term} {x : Xml} (h : x ∈ t.toXml) (q : Query) :
    addContent? q x = some { q with term := .ofXml x } := by
  cases t with
  | invalid s => simp [Term.toXml] at h
  | types s us =>
    cases us with
    | nil =>
      rw [Term.toXml, List.mem_singleton] at h
      subst h
      rfl
    | cons u us =>
      rw [Term.toXml, List.mem_singleton] at h
      subst h
      rfl
  | group s k ts =>
    rw [Term.toXml, List.mem_singleton] at h
    subst h
    cases k <;> rfl
  | _ =>
    rw [Term.toXml, List.mem_singleton] at h
    subst h
    rfl

/-- The term of a query is read back as it is recorded. -/
theorem foldlM_toXml {t : Term} (hfits : t.Fits) (hdoubles : t.SpellsDoubles)
    (hq : q.term = .nothing) :
    t.toXml.foldlM addContent? q = some { q with term := t.recorded } := by
  have helements := Term.allOfXml_toXml hfits hdoubles
  rcases t.toXml_eq with ⟨hv, hnil⟩ | ⟨hv, name, attributes, content, hone⟩
  · rw [hnil, List.foldlM_nil, Term.recorded_of_not_isValid hv, ← hq]
    rfl
  · have hread : Term.ofXml (.element name attributes content) = t.recorded := by
      simpa [hone, hv, Term.allOfXml, Xml.isElement] using helements
    rw [hone, List.foldlM_cons, addContent?_of_mem_toXml (t := t) (by simp [hone]), hread]
    rfl

/-- The element of a request adds the request. -/
theorem addContent?_requestElement (q : Query) (r : RequestProperty) :
    addContent? q (requestElement r) = some (q.addRequestProperty r) := by
  obtain ⟨⟨uri⟩, optional⟩ := r
  cases optional <;> rfl

theorem addContent?_includeElement (hq : q.isFileQuery = true) (f : Folder) :
    addContent? q (includeElement f) = some (q.addIncludeFolder f) := by
  obtain ⟨url, recursive⟩ := f
  have htrue : (some "true" != some "false") = true := by decide
  cases recursive <;> simp [includeElement, addContent?, hq, attribute?, switchText, htrue]

theorem addContent?_excludeElement (hq : q.isFileQuery = true) (url : String) :
    addContent? q (excludeElement url) = some (q.addExcludeFolder url) := by
  simp [excludeElement, addContent?, hq, attribute?]

/-- Elements that add something to a query of some kind, and leave it of this kind, add it one after the
other. -/
theorem foldlM_elements {α : Type} (P : Query → Prop) {element : α → Xml} (add : Query → α → Query)
    (h : ∀ q, P q → ∀ a, addContent? q (element a) = some (add q a) ∧ P (add q a)) (as : List α)
    (hq : P q) : (as.map element).foldlM addContent? q = some (as.foldl add q) := by
  induction as generalizing q with
  | nil => rfl
  | cons a as ih =>
    obtain ⟨hadd, hkept⟩ := h q hq a
    rw [List.map_cons, List.foldlM_cons, hadd, Option.bind_eq_bind, Option.bind_some, ih hkept,
      List.foldl_cons]

theorem foldl_addRequestProperty (rs : List RequestProperty) (q : Query) :
    rs.foldl addRequestProperty q = { q with requestProperties := q.requestProperties ++ rs } := by
  induction rs generalizing q with
  | nil => simp
  | cons r rs ih => simp [ih, addRequestProperty]

theorem foldl_addIncludeFolder (hq : q.isFileQuery = true) (fs : List Folder) :
    fs.foldl addIncludeFolder q = { q with includeFolders := q.includeFolders ++ fs } := by
  induction fs generalizing q with
  | nil => simp
  | cons f fs ih => simp [ih, addIncludeFolder, hq]

theorem foldl_addExcludeFolder (hq : q.isFileQuery = true) (urls : List String) :
    urls.foldl addExcludeFolder q = { q with excludeFolders := q.excludeFolders ++ urls } := by
  induction urls generalizing q with
  | nil => simp
  | cons url urls ih => simp [ih, addExcludeFolder, hq]

/-- The requests are added in their order. -/
theorem foldlM_requestElement (rs : List RequestProperty) (q : Query) :
    (rs.map requestElement).foldlM addContent? q =
      some { q with requestProperties := q.requestProperties ++ rs } := by
  rw [foldlM_elements (fun _ => True) addRequestProperty
    (fun q _ r => ⟨addContent?_requestElement q r, trivial⟩) rs trivial, foldl_addRequestProperty]

/-- The folders of a query for files are added in their order. -/
theorem foldlM_folders (hq : q.isFileQuery = true) (fs : List Folder) (urls : List String) :
    (fs.map includeElement ++ urls.map excludeElement).foldlM addContent? q = some { q with
      includeFolders := q.includeFolders ++ fs, excludeFolders := q.excludeFolders ++ urls } := by
  rw [List.foldlM_append, foldlM_elements (·.isFileQuery = true) addIncludeFolder
    (fun _ hq f => ⟨addContent?_includeElement hq f, rfl⟩) fs hq, foldl_addIncludeFolder hq,
    Option.bind_eq_bind, Option.bind_some, foldlM_elements (·.isFileQuery = true) addExcludeFolder
    (fun _ hq url => ⟨addContent?_excludeElement hq url, rfl⟩) urls (by exact hq),
    foldl_addExcludeFolder (by exact hq)]

/-- Folders are put back in a query without any, if it is a file query or there are none. -/
theorem foldlM_folders_of_nil {r : Query} (hinclude : r.includeFolders = [])
    (hexclude : r.excludeFolders = [])
    (hplain : r.isFileQuery = false → q.includeFolders = [] ∧ q.excludeFolders = []) :
    (q.includeFolders.map includeElement ++ q.excludeFolders.map excludeElement).foldlM addContent? r =
      some { r with includeFolders := q.includeFolders, excludeFolders := q.excludeFolders } := by
  by_cases hfile : r.isFileQuery = true
  · rw [foldlM_folders hfile, hinclude, hexclude, List.nil_append, List.nil_append]
  · obtain ⟨hi, he⟩ := hplain (Bool.eq_false_of_not_eq_true hfile)
    rw [hi, he, List.map_nil, List.map_nil, List.append_nil, List.foldlM_nil, ← hinclude, ← hexclude]
    rfl

/-- The content of the element of a query fills its shell. -/
theorem ofXml?_toXml (h : q.IsSound) (hdoubles : q.term.SpellsDoubles) :
    ofXml? q.toXml = some { q with term := q.term.recorded } := by
  rw [toXml, ofXml?, ofAttributes?_attributes h, Option.bind_some, List.append_assoc,
    List.foldlM_append, List.foldlM_append, foldlM_toXml h.fits hdoubles rfl, Option.bind_eq_bind,
    Option.bind_some, foldlM_requestElement, Option.bind_some]
  exact foldlM_folders_of_nil rfl rfl fun hfile => (h.plain hfile).2

/-! ## The document -/

theorem isName_elementName (q : Query) : isName q.elementName.toList = true := by
  unfold elementName
  split <;> decide

theorem isTidy_childless {name : String} {attributes : List (String × String)}
    (hname : isName name.toList = true)
    (hattributes : ∀ a ∈ attributes, isName a.1.toList = true) :
    (Xml.element name attributes []).IsTidy :=
  .element _ _ _ hname hattributes (by simp) (by simp)

/-- All that stands in the element of a query can be written and read. -/
theorem isTidy_of_mem_content {x : Xml} (h : x ∈ q.term.toXml ++
    q.requestProperties.map requestElement ++ q.includeFolders.map includeElement ++
      q.excludeFolders.map excludeElement) : x.isElement = true ∧ x.IsTidy := by
  simp only [List.mem_append, List.mem_map] at h
  rcases h with ((h | ⟨r, -, rfl⟩) | ⟨f, -, rfl⟩) | ⟨url, -, rfl⟩
  · exact ⟨Term.isElement_of_mem_toXml h, Term.isTidy_of_mem_toXml _ x h⟩
  · exact ⟨rfl, isTidy_childless (by decide) (by simp; decide)⟩
  · exact ⟨rfl, isTidy_childless (by decide) (by simp; decide)⟩
  · exact ⟨rfl, isTidy_childless (by decide) (by simp; decide)⟩

/-- The element of a query shows all of its tree. -/
theorem isTidy_toXml (q : Query) : q.toXml.IsTidy :=
  .element _ _ _ q.isName_elementName q.isName_attributes
    (fun _ hx => (isTidy_of_mem_content hx).2)
    (Term.separate_of_isElement fun _ hx => (isTidy_of_mem_content hx).1)

theorem prologText_prolog : PrologText prolog.toList := by
  have hinner : ¬ ['?', '>'] <:+: "xml version=\"1.0\" encoding=\"UTF-8\"".toList := by
    decide +kernel
  have htext : prolog.toList =
      '<' :: '?' :: ("xml version=\"1.0\" encoding=\"UTF-8\"".toList ++ ['?', '>']) := by
    decide +kernel
  rw [htext]
  exact .intro hinner

/-- What is written is a document, with the prolog and the element of the query. -/
theorem documentText_markup (q : Query) : DocumentText [] q.toXml q.markup.toList := by
  have hspace : AllSpace [] := by simp [AllSpace]
  have h : DocumentText [] q.toXml ([] ++ prolog.toList ++ [] ++ q.toXml.render.toList ++ []) :=
    .intro (.prolog hspace prologText_prolog) (q.isTidy_toXml.elementText rfl) hspace
  simpa [markup] using h

/-- The document of a sound query is read as the query with what is recorded of its term. -/
theorem ofMarkup_markup_eq (h : q.IsSound) (hdoubles : q.term.SpellsDoubles) :
    ofMarkup q.markup = { q with term := q.term.recorded } := by
  have hspace : AllSpace [] := by simp [AllSpace]
  rw [ofMarkup, q.documentText_markup.read? hspace, Option.bind_some, ofXml?_toXml h hdoubles,
    Option.getD_some]

end DesktopSearch.Query
