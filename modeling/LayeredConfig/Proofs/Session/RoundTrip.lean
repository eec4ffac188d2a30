import LayeredConfig.Proofs.Document.Lines
import LayeredConfig.Proofs.Section.Append
import LayeredConfig.Proofs.Session.Frames
import LayeredConfig.Proofs.Template.SourceForm
import LayeredConfig.Section.Plain

/-!
# Writing a mapping and parsing it

A mapping is written as a document with a line for each text and each nested mapping, and the
document is parsed to the mapping. Reading gives back the lines. Applying their items appends to the
tree, entry by entry: `foldlM_apply` says so of the part of a document that is about one section and
what is nested in it, by induction on the mapping. The tree that comes out holds texts only and no
flags, so that completing it changes nothing (`Stores`).
-/

namespace LayeredConfig

open Document

/-! ## Writing -/

/-- Whether the value is a mapping. -/
def PlainValue.isMapping : PlainValue → Bool
  | .text _ => false
  | .mapping _ => true

mutual

/-- The lines for the value of the last key of a path. -/
def PlainValue.lines (quoting : List String → Quoting) (path : List String) (key : String) :
    PlainValue → List Line
  | .text value => [.assign key (quoting path) value]
  | .mapping ⟨entries⟩ => .header path.length key :: PlainMap.lines quoting path entries

/-- The lines for some entries of the mapping at a path. Every text may be quoted in its own way. -/
def PlainMap.lines (quoting : List String → Quoting) (path : List String) :
    List (String × PlainValue) → List Line
  | [] => []
  | (key, value) :: entries =>
    value.lines quoting (path ++ [key]) key ++ PlainMap.lines quoting path entries

end

namespace PlainMap

/-- The document for a mapping. -/
def write (quoting : List String → Quoting) (endOfLine : Bool) (m : PlainMap) : String :=
  String.ofList (document endOfLine (lines quoting [] m.toList))

end PlainMap

/-- Entries that can be written: at every level the keys are distinct words, and the texts come
before the mappings. -/
inductive Expressible : List (String × PlainValue) → Prop
  | nil : Expressible []
  | text {key value : String} {entries : List (String × PlainValue)} (word : IsWord key)
      (new : key ∉ entries.map (·.1)) (rest : Expressible entries) :
      Expressible ((key, .text value) :: entries)
  | mapping {key : String} {inner : PlainMap} {entries : List (String × PlainValue)}
      (word : IsWord key) (new : key ∉ entries.map (·.1))
      (last : ∀ entry ∈ entries, entry.2.isMapping = true) (below : Expressible inner.toList)
      (rest : Expressible entries) : Expressible ((key, .mapping inner) :: entries)

namespace PlainMap

variable {quoting : List String → Quoting} {path : List String} {key value : String}
  {inner : PlainMap} {entries : List (String × PlainValue)}

/-- A text is written as one line with its key. -/
theorem lines_text : lines quoting path ((key, .text value) :: entries) =
    .assign key (quoting (path ++ [key])) value :: lines quoting path entries := rfl

/-- A nested mapping is written as its header, followed by its own lines and those of the entries
behind it. -/
theorem lines_mapping : lines quoting path ((key, .mapping inner) :: entries) =
    .header (path.length + 1) key ::
      (lines quoting (path ++ [key]) inner.toList ++ lines quoting path entries) := by
  rw [lines, PlainValue.lines, List.length_append, List.length_singleton, List.cons_append]

/-- Every line of an expressible mapping can be written. -/
theorem isValid_of_mem_lines (h : Expressible entries) :
    ∀ l ∈ lines quoting path entries, l.IsValid := by
  induction h generalizing path with
  | nil => nofun
  | text word new rest ih =>
    rw [lines_text]
    exact List.forall_mem_cons.mpr ⟨word, ih⟩
  | mapping word new last below rest ihbelow ih =>
    rw [lines_mapping, List.forall_mem_cons, List.forall_mem_append]
    exact ⟨⟨Nat.succ_pos _, word⟩, ihbelow, ih⟩

end PlainMap

/-! ## What is stored -/

/-- The entries of a section that hold just some plain entries: no templates and no flags. -/
inductive Stores : List (String × PlainValue) → List (String × Entry) → Prop
  | nil : Stores [] []
  | text {key value : String} {history : Provenance} {entries : List (String × PlainValue)}
      {stored : List (String × Entry)} (rest : Stores entries stored) :
      Stores ((key, .text value) :: entries)
        ((key, ⟨.scalar (.text value), { history }⟩) :: stored)
  | mapping {key : String} {name : Option String} {history : Provenance} {inner : PlainMap}
      {entries : List (String × PlainValue)} {nested stored : List (String × Entry)}
      (below : Stores inner.toList nested) (rest : Stores entries stored) :
      Stores ((key, .mapping inner) :: entries)
        ((key, ⟨.subsection ⟨name, ⟨nested⟩⟩, { history }⟩) :: stored)

namespace Stores

variable {entries : List (String × PlainValue)} {stored : List (String × Entry)}

/-- The plain entries of what stores some entries are these entries again. -/
theorem toPlainEntries (h : Stores entries stored) : Section.toPlainEntries stored = entries := by
  induction h with
  | nil => rfl
  | text rest ih => rw [Section.toPlainEntries, ih, Section.toPlainValue, Scalar.render]
  | mapping below rest ihbelow ih =>
    rw [Section.toPlainEntries, ih, Section.toPlainValue, Section.toPlain, ihbelow]

/-- There is nothing to evaluate. -/
theorem evaluateEntries (h : Stores entries stored) (root : Section) (path : List String) :
    Section.evaluateEntries root path stored = .ok stored := by
  induction h generalizing path with
  | nil => rfl
  | text rest ih =>
    rw [Section.evaluateEntries, Section.evaluateValue, ih]
    rfl
  | mapping below rest ihbelow ih =>
    rw [Section.evaluateEntries, Section.evaluateValue, Section.evaluateIn, ihbelow, ih]
    rfl

/-- There is nothing to drop. -/
theorem dropTemporaryEntries (h : Stores entries stored) :
    Section.dropTemporaryEntries stored = stored := by
  induction h with
  | nil => rfl
  | text rest ih =>
    rw [Section.dropTemporaryEntries, if_neg Bool.false_ne_true, Section.dropTemporaryValue, ih]
  | mapping below rest ihbelow ih =>
    rw [Section.dropTemporaryEntries, if_neg Bool.false_ne_true, Section.dropTemporaryValue,
      Section.dropTemporaryDeep, ihbelow, ih]

/-- Completing a tree of texts changes nothing. -/
theorem finish_eq (h : Stores entries stored) (name : Option String) :
    Session.finish ⟨name, ⟨stored⟩⟩ = .ok ⟨name, ⟨stored⟩⟩ := by
  rw [Session.finish, Section.evaluateAll, Section.evaluateIn, h.evaluateEntries]
  change Except.ok (Section.dropTemporaryDeep ⟨name, ⟨stored⟩⟩) = _
  rw [Section.dropTemporaryDeep, h.dropTemporaryEntries]

end Stores

/-! ## Building a section -/

/-- The draft has come as far as the section `s` at a path of the tree `r`. That section, or one
nested in it, is open. -/
structure Builds (r : Section) (path : List String) (s : Section) (d : Draft) : Prop where
  leads : ∃ s₀, r.sectionAt? path = some s₀
  root : d.root = r.replaceAt path s
  opened : path <+: d.sections

namespace Builds

variable {r s sub x : Section} {path : List String} {d : Draft} {key : String} {attrs : KeyAttrs}

/-- The section that a draft builds is found at the path at which it is built. -/
theorem sectionAt? (h : Builds r path s d) : d.root.sectionAt? path = some s := by
  obtain ⟨s₀, hs⟩ := h.leads
  rw [h.root, Section.sectionAt?_replaceAt hs]

/-- Replacing the section that a draft builds gives the same tree as replacing it in the tree that
the draft started from. -/
theorem replaceAt (h : Builds r path s d) (s' : Section) :
    d.root.replaceAt path s' = r.replaceAt path s' := by
  obtain ⟨s₀, hs⟩ := h.leads
  rw [h.root, Section.replaceAt_replaceAt hs]

/-- A write that succeeds on the section being built, which is the open one, goes on building the
section that it gives. -/
theorem writeOpen {f : Section → Except SectionError Section} {s' : Section}
    (h : Builds r path s d) (hopen : d.sections = path) (origin : Origin) (hf : f s = .ok s') :
    ∃ d', d.writeOpen origin f = .ok d' ∧ Builds r path s' d' ∧ d'.sections = path := by
  have hwrite : (f s).mapError (ParseError.writeProtection · origin) = .ok s' :=
    Except.mapError_eq_ok_iff.mpr hf
  have hupdate := Section.updateAt_eq
    (f := fun s => (f s).mapError (ParseError.writeProtection · origin)) h.sectionAt? hwrite
  refine ⟨{ d with root := r.replaceAt path s' }, ?_, ⟨h.leads, rfl, h.opened⟩, hopen⟩
  rw [Draft.writeOpen, Draft.updateOpen, hopen, hupdate, h.replaceAt]
  rfl

/-- An assignment of literal text appends a new key to the open section. -/
theorem applyAssign (h : Builds r path s d) (hopen : d.sections = path)
    (hkey : key ∉ s.entries.keys) (frames : List Frame) (offset : Nat) (value : String) :
    ∃ d' history, d.applyAssign frames offset none key .deferred
        (String.ofList (Fragment.escape value.toList)) = .ok d' ∧
      Builds r path (s.append [(key, ⟨.scalar (.text value), { history }⟩)]) d' ∧
      d'.sections = path := by
  -- the key is new, so that it is appended and only then gets its flags, which are none
  have hset : (s.setAt key (.scalar (.text value)) (d.origin frames offset)).map
      (·.modifyFlags key fun _ => Draft.markedFlags none) =
        .ok (s.append [(key, ⟨.scalar (.text value),
          { history := .ofOrigin (d.origin frames offset) }⟩)]) := by
    rw [Section.setAt_of_not_mem hkey, Except.map, Section.modifyFlags,
      Section.modifyAttrs_append_singleton hkey]
    rfl
  obtain ⟨d', hwrite, hbuilds, hopen'⟩ := h.writeOpen (f := fun s =>
    (s.setAt key (.scalar (.text value)) (d.origin frames offset)).map
      (·.modifyFlags key fun _ => Draft.markedFlags none)) hopen (d.origin frames offset) hset
  refine ⟨d', _, ?_, hbuilds, hopen'⟩
  rw [Draft.applyAssign, Template.parse_escape]
  exact hwrite

/-- A header appends a new section and opens it. -/
theorem applyHeader (h : Builds r path s d) (hkey : key ∉ s.entries.keys) (frames : List Frame)
    (offset : Nat) :
    ∃ d' history,
      d.applyHeader frames offset (path.length + 1) (path.length + 1) key = .ok d' ∧
      Builds r path (s.append [(key, ⟨.subsection (.named key), { history }⟩)]) d' ∧
      d'.sections = path ++ [key] := by
  have hdepth : ¬ path.length + 1 > d.sections.length + 1 := by
    have hlength := h.opened.length_le
    omega
  have htake : d.sections.take (path.length + 1 - 1) = path := by
    rw [Nat.add_sub_cancel, ← List.prefix_iff_eq_take.mp h.opened]
  have hnone : s.entries.get? key = none := OrderedMap.get?_eq_none_iff.mpr hkey
  have henter (origin : Origin) : Draft.enter s key origin =
      .ok (s.append [(key, ⟨.subsection (.named key), { history := .ofOrigin origin }⟩)]) := by
    rw [Draft.enter_of_noSection (by rw [hnone, Option.any_none]), Section.setAt_of_not_mem hkey]
  -- the sections below the one that gets the new section are closed first
  have hclosed : Builds r path s { d with sections := path } :=
    ⟨h.leads, h.root, List.prefix_refl path⟩
  obtain ⟨d₁, hwrite, hbuilds, hopen₁⟩ := hclosed.writeOpen
    (f := fun s => Draft.enter s key ({ d with sections := path }.origin frames offset)) rfl
      ({ d with sections := path }.origin frames offset) (henter _)
  refine ⟨{ d₁ with sections := path ++ [key] }, _, ?_,
    ⟨h.leads, hbuilds.root, List.prefix_append path [key]⟩, rfl⟩
  simp only [Draft.applyHeader, ne_eq, not_true, if_false, if_neg hdepth, htake]
  rw [hwrite, Except.map, hopen₁]

/-- Building a section is building the last section in it. -/
theorem down (h : Builds r path (s.append [(key, ⟨.subsection sub, attrs⟩)]) d)
    (hkey : key ∉ s.entries.keys) (hopen : path ++ [key] <+: d.sections) :
    Builds d.root (path ++ [key]) sub d := by
  have hsub : (s.append [(key, ⟨.subsection sub, attrs⟩)]).subsection? key = some sub :=
    Section.subsection?_of_get? (OrderedMap.get?_concat_of_not_mem hkey _)
  refine ⟨⟨sub, ?_⟩, ?_, hopen⟩
  · rw [Section.sectionAt?_append, h.sectionAt?, Option.bind_some, Section.sectionAt?_cons, hsub]
    rfl
  · rw [Section.replaceAt_append h.sectionAt?, Section.replaceAt_append_singleton hkey, h.replaceAt,
      h.root]

/-- What is built inside a nested section, which comes last, is built by the section around it. -/
theorem up {d' : Draft} (h : Builds r path (s.append [(key, ⟨.subsection sub, attrs⟩)]) d)
    (hkey : key ∉ s.entries.keys) (h' : Builds d.root (path ++ [key]) x d') :
    Builds r path (s.append [(key, ⟨.subsection x, attrs⟩)]) d' := by
  refine ⟨h.leads, ?_, (List.prefix_append path [key]).trans h'.opened⟩
  rw [h'.root, Section.replaceAt_append h.sectionAt?, Section.replaceAt_append_singleton hkey,
    h.replaceAt]

end Builds

/-! ## Applying the lines -/

namespace Session

variable {fs : FileSystem} {parse : (path text : String) → SessionM Section} {session : Session}
  {quoting : List String → Quoting} {entries : List (String × PlainValue)} {path : List String}
  {placed : List PlacedItem} {d : Draft} {r s : Section}

/-- The items for some entries of the mapping at a path append these entries to the section there.
Texts go to the open section, so they have to be met before a header has opened another one. -/
theorem foldlM_applyItem_lines (h : Expressible entries)
    (hplaced : placed.map (·.item) = (PlainMap.lines quoting path entries).map Line.item)
    (hbuilds : Builds r path s d)
    (hopen : d.sections = path ∨ ∀ entry ∈ entries, entry.2.isMapping = true)
    (hnew : ∀ key ∈ entries.map (·.1), key ∉ s.entries.keys) :
    ∃ d' stored,
      placed.foldlM (fun d placed => outcome (applyItem fs parse d placed) session) d = .ok d' ∧
      Builds r path (s.append stored) d' ∧ Stores entries stored := by
  induction h generalizing path placed d r s with
  | nil =>
    obtain rfl : placed = [] := List.map_eq_nil_iff.mp hplaced
    refine ⟨d, [], rfl, ?_, .nil⟩
    rwa [Section.append_nil]
  | @text key value entries word new rest ih =>
    rw [PlainMap.lines_text, List.map_cons] at hplaced
    obtain ⟨⟨offset, i⟩, placed, rfl, hi, hrest⟩ := List.map_eq_cons_iff.mp hplaced
    obtain rfl : i = (Line.assign key _ value).item := hi
    -- behind a nested mapping only mappings follow, so that a text is written into the open section
    have htext : d.sections = path := hopen.resolve_right fun hmapping =>
      Bool.false_ne_true (hmapping (key, .text value) List.mem_cons_self)
    obtain ⟨hkey, hnew⟩ := List.forall_mem_cons.mp hnew
    obtain ⟨d₁, history, happly, hbuilds₁, hopen₁⟩ :=
      hbuilds.applyAssign htext hkey session.frames offset value
    obtain ⟨d', stored, hd', hbuilds', hstored⟩ := ih hrest hbuilds₁ (.inl hopen₁)
      (Section.not_mem_keys_append_singleton hnew new)
    rw [Section.append_append] at hbuilds'
    refine ⟨d', _, ?_, hbuilds', .text hstored⟩
    rw [List.foldlM_cons, Line.item, outcome, run_applyItem_assign, happly]
    exact hd'
  | @mapping key inner entries word new last below rest ihbelow ih =>
    rw [PlainMap.lines_mapping, List.map_cons, List.map_append] at hplaced
    obtain ⟨⟨offset, i⟩, placed, rfl, hi, hrest⟩ := List.map_eq_cons_iff.mp hplaced
    obtain rfl : i = (Line.header (path.length + 1) key).item := hi
    obtain ⟨inside, behind, rfl, hinside, hbehind⟩ := List.map_eq_append_iff.mp hrest
    obtain ⟨hkey, hnew⟩ := List.forall_mem_cons.mp hnew
    -- the header closes whatever the entries before it left open
    obtain ⟨d₁, history, happly, hbuilds₁, hopen₁⟩ :=
      hbuilds.applyHeader hkey session.frames offset
    -- the nested section starts empty
    obtain ⟨d₂, nested, hd₂, hbuilds₂, hnested⟩ := ihbelow hinside
      (hbuilds₁.down hkey (hopen₁ ▸ List.prefix_refl _)) (.inl hopen₁) (fun _ _ => List.not_mem_nil)
    obtain ⟨d', stored, hd', hbuilds', hstored⟩ := ih hbehind (hbuilds₁.up hkey hbuilds₂)
      (.inr last) (Section.not_mem_keys_append_singleton hnew new)
    rw [Section.append_append] at hbuilds'
    have hrun : (inside ++ behind).foldlM
        (fun d placed => outcome (applyItem fs parse d placed) session) d₁ = .ok d' := by
      rw [List.foldlM_append, hd₂]
      exact hd'
    refine ⟨d', _, ?_, hbuilds', .mapping hnested hstored⟩
    rw [List.foldlM_cons, Line.item, outcome, run_applyItem_header, happly]
    exact hrun

/-- What is written for a mapping is read to its end, and has the items of its lines. -/
theorem read_write {m : PlainMap} (h : Expressible m.toList) (quoting : List String → Quoting)
    (endOfLine : Bool) :
    ∃ placed, Document.read .config
        (String.ofList (Text.normalizeNewlines (m.write quoting endOfLine).toList)) =
        { items := placed, fault := none } ∧
      placed.map (·.item) = (PlainMap.lines quoting [] m.toList).map Line.item := by
  have hlines : ∀ l ∈ PlainMap.lines quoting [] m.toList, l.IsValid :=
    PlainMap.isValid_of_mem_lines h
  rw [PlainMap.write, String.toList_ofList, normalizeNewlines_of_not_mem (not_mem_document hlines),
    Document.read, String.toList_ofList]
  exact readItems_document _ hlines

/-- What is written for a mapping is parsed to the mapping, with its keys in order, however the
texts are quoted. -/
theorem parseText_write {m : PlainMap} (h : Expressible m.toList) (fs : FileSystem)
    (quoting : List String → Quoting) (endOfLine : Bool) (path : String) :
    ∃ s, LayeredConfig.parseText fs .config (m.write quoting endOfLine) path = .ok s ∧
      s.toPlain = m := by
  obtain ⟨placed, hread, hplaced⟩ := read_write h quoting endOfLine
  let start : Draft :=
    { path
      source := String.ofList (Text.normalizeNewlines (m.write quoting endOfLine).toList) }
  have hstart : Builds .root [] .root start := ⟨⟨.root, rfl⟩, rfl, List.nil_prefix⟩
  -- the root is empty at first, so that every key is new in it
  have hrun : ∃ d stored, placed.foldlM (fun d placed => outcome
        (applyItem fs (parseDocument fs fs.contents.size) d placed) { mode := .config }) start =
        .ok d ∧
      Builds .root [] (Section.root.append stored) d ∧ Stores m.toList stored :=
    foldlM_applyItem_lines h hplaced hstart (.inl rfl) fun _ _ => List.not_mem_nil
  obtain ⟨d, stored, hd, hbuilds, hstored⟩ := hrun
  have hroot : d.root = ⟨none, ⟨stored⟩⟩ := hbuilds.root
  refine ⟨⟨none, ⟨stored⟩⟩, ?_, ?_⟩
  · rw [parseText_eq, outcome_parseDocument_succ, readThrough]
    simp only [hread]
    rw [hd]
    change finish d.root = _
    rw [hroot, hstored.finish_eq]
  · rw [Section.toPlain, hstored.toPlainEntries]

/-- A mapping whose texts are full of what a document has a meaning for. -/
def tricky : PlainMap :=
  ⟨[("a.b", .text "(!x) # \"q\" \\ 'p'\r\n"), ("-", .text ""),
    ("s", .mapping ⟨[("k", .text "((!"), ("t", .mapping ⟨[]⟩)]⟩)]⟩

/-- Double marks at the root of the document and triple ones below it. -/
def trickyQuoting (path : List String) : Quoting :=
  ⟨path.length == 1, path.length != 1⟩

/-- The tricky mapping has only words as keys, no key twice and its nested mappings behind its
texts. -/
theorem expressible_tricky : Expressible tricky.toList := by
  have hinner : Expressible [("k", .text "((!"), ("t", .mapping ⟨[]⟩)] :=
    .text (by decide) (by decide) (.mapping (by decide) (by decide) nofun .nil .nil)
  exact .text (by decide) (by decide) (.text (by decide) (by decide)
    (.mapping (by decide) (by decide) nofun hinner .nil))

/-- The tricky mapping is written, with both kinds of mark and without an end of line at the end,
and parsed back. -/
theorem parseText_write_tricky :
    Expressible tricky.toList ∧
      ∃ s, LayeredConfig.parseText .empty .config (tricky.write trickyQuoting false) "main" =
        .ok s ∧ s.toPlain = tricky :=
  ⟨expressible_tricky, parseText_write expressible_tricky .empty trickyQuoting false "main"⟩

example : (tricky.write trickyQuoting false).toList =
    "a.b = \"((!x) # \\\"q\\\" \\\\ 'p'\\r\\n\"\n- = \"\"\n[s]\nk = '''(((!'''\n[[t]]".toList := by
  decide +kernel

end Session

end LayeredConfig
