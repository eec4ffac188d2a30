import LayeredConfig.Proofs.FileSystem.Canonical
import LayeredConfig.Proofs.Session.Completion
import LayeredConfig.Proofs.Session.Machine
import LayeredConfig.Proofs.Session.Relocation

/-!
# Including is transparent

A document that does nothing but include another one gives what that one gives. The included
document is parsed as it would be parsed alone, except that one more document waits outside. This
shows in the origins, and in the refusal to go into the outer document. Alone, that document is gone
into, but then it includes the other one, which is being read already; so the parse fails in both
cases. What is left to the outer document is to change flags and histories and to merge into an
empty tree, none of which shows in the plain mapping.
-/

namespace LayeredConfig.Session

variable {fs : FileSystem} {mode : Mode} {depth offset : Nat} {frames : List Frame} {w : Frame}
  {path text mainText target targetText name argument : String} {d : Draft} {placed : PlacedItem}

/-- The only item of a document is a command: the document that it asks for is absorbed. -/
theorem outcome_parseDocument_command
    (hreading : readText mode text = ⟨[⟨offset, .command name argument⟩], none⟩) :
    outcome (parseDocument fs (depth + 1) path text) ⟨mode, frames⟩ =
      requested fs { path, source := sourceOf text } frames offset name argument >>=
        fun (writable, inner, innerText) =>
          outcome (parseDocument fs depth inner innerText) ⟨mode, frames ++
            [⟨path, Draft.position { path, source := sourceOf text } offset⟩]⟩ >>= fun included =>
          Draft.absorb { path, source := sourceOf text }
            (Draft.origin { path, source := sourceOf text } frames offset) writable included >>=
          ended frames none := by
  rw [outcome_parseDocument_succ, readThrough_eq, hreading, List.foldlM_cons,
    outcome_applyItem_command (balanced_parseDocument fs depth)]
  simp only [List.foldlM_nil, bind_pure, bind_assoc]

/-- The document at `main` has one item, a command that leads to the document at `target`. -/
def LeadsOnlyTo (fs : FileSystem) (mode : Mode) (main mainText target targetText : String) : Prop :=
  ∃ offset name argument, readText mode mainText = ⟨[⟨offset, .command name argument⟩], none⟩ ∧
    (grantsWriting? name).isSome ∧
    fs.fetch (Path.join (Path.parent main) argument) = .ok (target, targetText)

/-- Such a document cannot be parsed while the other one is being read. -/
theorem LeadsOnlyTo.parseDocument_ne_ok {main : String}
    (h : LeadsOnlyTo fs mode main mainText target targetText)
    (hread : ∃ p ∈ frames.map (·.path), Path.same target p) (depth : Nat) (root : Section) :
    outcome (parseDocument fs depth main mainText) ⟨mode, frames⟩ ≠ .ok root := by
  intro hroot
  cases depth with
  | zero => cases hroot
  | succ depth =>
    obtain ⟨offset, name, argument, hreading, -, hfetch⟩ := h
    rw [outcome_parseDocument_command hreading] at hroot
    obtain ⟨⟨writable, inner, innerText⟩, hrequested, -⟩ := Except.bind_eq_ok_iff.mp hroot
    obtain ⟨-, hfetch', hfresh⟩ := requested_eq_ok_iff.mp hrequested
    obtain ⟨rfl, rfl⟩ := Prod.mk.inj (Except.ok.inj (hfetch.symm.trans hfetch'))
    obtain ⟨p, hp, hsame⟩ := hread
    rw [List.any_eq_false] at hfresh
    exact hfresh p (List.mem_cons_of_mem main hp) hsame

/-! ## One more document outside -/

/-- The paths of a document that is read and of the frames, innermost first. -/
def pathsUnder (path : String) (frames : List Frame) : List String :=
  path :: (frames.map (·.path)).reverse

/-- A document that waits outermost comes last among the paths. -/
theorem pathsUnder_concat (path : String) (frames : List Frame) (w : Frame) :
    pathsUnder path (frames ++ [w]) = path :: pathsUnder w.path frames := by
  rw [pathsUnder, List.map_append, List.reverse_append]
  rfl

/-- The paths are that of the document being read and those of the documents that wait. -/
theorem mem_pathsUnder_iff {p : String} :
    p ∈ pathsUnder path frames ↔ p ∈ path :: frames.map (·.path) := by
  rw [pathsUnder, List.mem_cons, List.mem_cons, List.mem_reverse]

/-- The document at `path` is read under the frames, among which, or as which, the one at `target`
is. The outer document `w`, which includes that one, is not read unless it is added outside. -/
structure Outside (fs : FileSystem) (mode : Mode) (target : String) (w : Frame)
    (frames : List Frame) (path : String) : Prop where
  canonical : fs.Canonical
  outer : ∃ file mainText targetText, fs.fetch file = .ok (w.path, mainText) ∧
    LeadsOnlyTo fs mode w.path mainText target targetText
  distinct : Distinct fs (pathsUnder path (w :: frames))
  read : ∃ p ∈ path :: frames.map (·.path), Path.same target p

namespace Outside

/-- While a document waits for a nested one, the target is still among those being read. -/
theorem read_following (h : Outside fs mode target w frames path) (pos : SourcePos) :
    ∃ p ∈ (frames ++ [(⟨path, pos⟩ : Frame)]).map (·.path), Path.same target p := by
  obtain ⟨p, hp, hsame⟩ := h.read
  refine ⟨p, ?_, hsame⟩
  rw [List.map_append, List.mem_append, List.map_singleton, List.mem_singleton]
  exact (List.mem_cons.mp hp).symm

/-- It is so for a document that is gone into, unless that is the outer one. -/
theorem following (h : Outside fs mode target w frames path) {pos : SourcePos} {file inner : String}
    {innerText : String} (hfetch : fs.fetch file = .ok (inner, innerText))
    (hfresh : (path :: frames.map (·.path)).any (Path.same inner) = false)
    (houter : Path.same inner w.path = false) :
    Outside fs mode target w (frames ++ [⟨path, pos⟩]) inner where
  canonical := h.canonical
  outer := h.outer
  distinct := by
    rw [← List.cons_append, pathsUnder_concat]
    -- the new document is none of those that wait, and it is not the outer one either
    refine h.distinct.cons (mem_files_of_fetch hfetch) fun p hp hsame => ?_
    rw [List.any_eq_false] at hfresh
    rcases List.mem_cons.mp (mem_pathsUnder_iff.mp hp) with rfl | hp
    · exact hfresh p List.mem_cons_self hsame
    · rcases List.mem_cons.mp hp with rfl | hp
      · rw [houter] at hsame
        cases hsame
      · exact hfresh p (List.mem_cons_of_mem path hp) hsame
  read := by
    obtain ⟨p, hp, hsame⟩ := h.read_following pos
    exact ⟨p, List.mem_cons_of_mem inner hp, hsame⟩

/-- The outer document cannot be parsed under the frames. -/
theorem parseDocument_ne_ok (h : Outside fs mode target w frames path) {pos : SourcePos}
    {file inner innerText : String} (hfetch : fs.fetch file = .ok (inner, innerText))
    (houter : Path.same inner w.path = true) (depth : Nat) (root : Section) :
    outcome (parseDocument fs depth inner innerText) ⟨mode, frames ++ [⟨path, pos⟩]⟩ ≠
      .ok root := by
  obtain ⟨file', mainText, targetText, hmain, hleads⟩ := h.outer
  obtain ⟨rfl, rfl⟩ := h.canonical.eq_of_same hfetch hmain houter
  exact hleads.parseDocument_ne_ok (h.read_following pos) depth root

end Outside

/-- With one more document outside, what a command asks for is refused only if it is that one. -/
theorem requested_under_iff {g : Origin → Origin} {writable : Bool} {inner innerText : String} :
    requested fs (d.mapOrigins g) (w :: frames) offset name argument =
        .ok (writable, inner, innerText) ↔
      requested fs d frames offset name argument = .ok (writable, inner, innerText) ∧
        Path.same inner w.path = false := by
  rw [requested_eq_ok_iff, requested_eq_ok_iff, Draft.path_mapOrigins, List.map_cons, List.any_cons,
    List.any_cons, List.any_cons, Bool.or_eq_false_iff, Bool.or_eq_false_iff, Bool.or_eq_false_iff]
  constructor
  · rintro ⟨hname, hfetch, hpath, houter, hframes⟩
    exact ⟨⟨hname, hfetch, hpath, hframes⟩, houter⟩
  · rintro ⟨⟨hname, hfetch, hpath, hframes⟩, houter⟩
    exact ⟨hname, hfetch, hpath, houter, hframes⟩

/-- The document at `path` gives the same when `w` waits outside, but for one more position in front
of each trail. One level less is left for what it includes then. -/
def SameUnder (fs : FileSystem) (mode : Mode) (w : Frame) (depth : Nat) (frames : List Frame)
    (path : String) : Prop :=
  ∀ text, Except.Corresponds (Section.mapOrigins (.under w.position))
    (outcome (parseDocument fs (depth + 1) path text) ⟨mode, frames⟩)
    (outcome (parseDocument fs depth path text) ⟨mode, w :: frames⟩)

/-- A command does the same with one more document outside, if the document that it asks for is
parsed to the same. -/
theorem corresponds_applyItem_command (h : Outside fs mode target w frames d.path)
    (hparse : ∀ pos path, Outside fs mode target w (frames ++ [⟨d.path, pos⟩]) path →
      SameUnder fs mode w depth (frames ++ [⟨d.path, pos⟩]) path) :
    Except.Corresponds (Draft.mapOrigins (.under w.position))
      (outcome (applyItem fs (parseDocument fs (depth + 1)) d ⟨offset, .command name argument⟩)
        ⟨mode, frames⟩)
      (outcome (applyItem fs (parseDocument fs depth) (d.mapOrigins (.under w.position))
        ⟨offset, .command name argument⟩) ⟨mode, w :: frames⟩) := by
  rw [outcome_applyItem_command (balanced_parseDocument fs _),
    outcome_applyItem_command (balanced_parseDocument fs _)]
  cases hrequested : requested fs d frames offset name argument with
  | error e =>
    -- a refusal stays one, as there are only more documents to compare with
    refine .of_ne_ok (fun d' hd' => ?_) fun d' hd' => ?_
    · cases hd'
    · obtain ⟨⟨writable, inner, innerText⟩, hunder, -⟩ := Except.bind_eq_ok_iff.mp hd'
      rw [(requested_under_iff.mp hunder).1] at hrequested
      cases hrequested
  | ok request =>
    obtain ⟨writable, inner, innerText⟩ := request
    obtain ⟨-, hfetch, hfresh⟩ := requested_eq_ok_iff.mp hrequested
    cases houter : Path.same inner w.path with
    | true =>
      -- the outer document is refused here, and alone it includes what is being read
      refine .of_ne_ok (fun d' hd' => ?_) fun d' hd' => ?_
      · obtain ⟨request, heq, hd'⟩ := Except.bind_eq_ok_iff.mp hd'
        cases heq
        obtain ⟨included, hincluded, -⟩ := Except.bind_eq_ok_iff.mp hd'
        exact h.parseDocument_ne_ok hfetch houter (depth + 1) included hincluded
      · obtain ⟨⟨writable', inner', innerText'⟩, hunder, -⟩ := Except.bind_eq_ok_iff.mp hd'
        obtain ⟨hunder, houter'⟩ := requested_under_iff.mp hunder
        cases hrequested.symm.trans hunder
        rw [houter] at houter'
        cases houter'
    | false =>
      rw [requested_under_iff.mpr ⟨hrequested, houter⟩]
      refine (hparse _ inner (h.following hfetch hfresh houter) innerText).bind
        fun included _ => ?_
      exact Draft.absorb_mapOrigins _ d _ _ writable included

/-- An item does the same with one more document outside. -/
theorem corresponds_applyItem (h : Outside fs mode target w frames d.path)
    (hparse : ∀ pos path, Outside fs mode target w (frames ++ [⟨d.path, pos⟩]) path →
      SameUnder fs mode w depth (frames ++ [⟨d.path, pos⟩]) path) :
    Except.Corresponds (Draft.mapOrigins (.under w.position))
      (outcome (applyItem fs (parseDocument fs (depth + 1)) d placed) ⟨mode, frames⟩)
      (outcome (applyItem fs (parseDocument fs depth) (d.mapOrigins (.under w.position)) placed)
        ⟨mode, w :: frames⟩) := by
  obtain ⟨offset, item⟩ := placed
  cases item with
  | header opening closing name =>
    rw [outcome, outcome, run_applyItem_header, run_applyItem_header]
    exact Draft.applyHeader_mapOrigins d w frames offset opening closing name
  | assign marker key op raw =>
    rw [outcome, outcome, run_applyItem_assign, run_applyItem_assign]
    exact Draft.applyAssign_mapOrigins d w frames offset marker key op raw
  | command name argument =>
    exact corresponds_applyItem_command h hparse

/-- A document gives the same with one more document outside, as the levels suffice. -/
theorem sameUnder_of_outside {depth : Nat} (h : Outside fs mode target w frames path)
    (hdepth : fs.contents.size ≤ frames.length + depth) :
    SameUnder fs mode w depth frames path := by
  induction depth generalizing frames path with
  | zero =>
    -- the documents on the way are different files, and there are not that many
    have hlength := h.distinct.length_le
    have hfiles := length_files_le fs
    rw [pathsUnder, List.length_cons, List.length_reverse, List.length_map, List.length_cons]
      at hlength
    omega
  | succ depth ih =>
    intro text
    rw [outcome_parseDocument_succ, outcome_parseDocument_succ, readThrough_eq, readThrough_eq]
    have hitems : Except.Corresponds (Draft.mapOrigins (.under w.position))
        ((readText mode text).items.foldlM (fun d placed =>
          outcome (applyItem fs (parseDocument fs (depth + 1)) d placed) ⟨mode, frames⟩)
          { path, source := sourceOf text })
        ((readText mode text).items.foldlM (fun d placed =>
          outcome (applyItem fs (parseDocument fs depth) d placed) ⟨mode, w :: frames⟩)
          (Draft.mapOrigins (.under w.position) { path, source := sourceOf text })) := by
      -- `Outside` speaks of the path of the document, which its items leave alone
      have hpath : (fun d : Draft => d.path = path) { path, source := sourceOf text } := rfl
      refine Except.Corresponds.foldlM hpath
        (fun d placed d' hd hd' => (path_of_applyItem hd').trans hd) fun d placed hd _ => ?_
      subst hd
      refine corresponds_applyItem h fun pos inner hinner => ih hinner ?_
      rw [List.length_append, List.length_singleton]
      omega
    refine hitems.bind fun d _ => ?_
    cases (readText mode text).fault with
    | none => exact .ok d.root
    | some offset => exact .error _ _

/-! ## What the outer document does with the tree -/

/-- Changing attributes without touching the temporary marks commutes with finishing a tree. -/
theorem finish_mapAttrs {f : KeyAttrs → KeyAttrs}
    (hf : ∀ attrs, (f attrs).flags.temporary = attrs.flags.temporary) (s : Section) :
    Except.Corresponds (Section.mapAttrs f) (finish s) (finish (s.mapAttrs f)) :=
  ((Section.evaluateIn_mapAttrs f s [] s).mapError _ _).map
    (Section.dropTemporaryDeep_mapAttrs hf)

/-- A draft that has no tree yet takes over the tree of an included document, with its origins and
the permissions that the command gives. -/
theorem absorb_initial {root : Section} (hkeys : root.Everywhere Section.KeysDistinct)
    (hname : root.name = none) (g : Origin → Origin) (origin : Origin) (writable : Bool)
    (path source : String) :
    Draft.absorb { path, source } origin writable (root.mapOrigins g) =
      .ok { path, source, root := root.mapAttrs fun attrs =>
        Section.grant writable (attrs.mapOrigins g) } := by
  refine Draft.absorb_eq_ok_iff.mpr ⟨_, Section.updatesAt_nil_iff.mpr ?_, rfl⟩
  rw [Section.setWritableDeep_eq_mapAttrs, Section.mapOrigins, Section.mapAttrs_mapAttrs]
  refine Section.root_merge ?_ ?_
  · unfold Section.KeysDistinct
    rw [Section.mapAttrs_eq, OrderedMap.keys_map]
    exact hkeys.holds
  · rw [Section.mapAttrs_eq]
    exact hname

/-- The outer document gives what the other one gives, except for attributes. -/
theorem LeadsOnlyTo.corresponds_parseText {file main : String} (hfs : fs.Canonical)
    (hmain : fs.fetch file = .ok (main, mainText))
    (h : LeadsOnlyTo fs mode main mainText target targetText) (hother : main ≠ target) :
    ∃ f : KeyAttrs → KeyAttrs, Except.Corresponds (Section.mapAttrs f)
      (LayeredConfig.parseText fs mode targetText target)
      (LayeredConfig.parseText fs mode mainText main) := by
  have ⟨offset, name, argument, hreading, hgranted, hfetch⟩ := h
  obtain ⟨writable, hwritable⟩ := Option.isSome_iff_exists.mp hgranted
  have hsame : ¬ Path.same target main := fun hsame =>
    hother (hfs.eq_of_same hfetch hmain hsame).1.symm
  -- the outer document waits in this frame
  let d : Draft := { path := main, source := sourceOf mainText }
  let w : Frame := ⟨main, d.position offset⟩
  have houtside : Outside fs mode target w [] target :=
    { canonical := hfs
      outer := ⟨file, mainText, targetText, hmain, h⟩
      distinct := Distinct.singleton.cons (mem_files_of_fetch hfetch) fun p hp => by
        rw [List.mem_singleton.mp hp]
        exact hsame
      read := ⟨target, List.mem_cons_self, beq_self_eq_true _⟩ }
  have hparse := sameUnder_of_outside houtside (Nat.le_add_left _ _) targetText
  have hrequested : requested fs d [] offset name argument = .ok (writable, target, targetText) :=
    requested_eq_ok_iff.mpr ⟨hwritable, hfetch, by simpa using hsame⟩
  refine ⟨fun attrs => Section.grant writable (attrs.mapOrigins (.under w.position)), ?_⟩
  rw [parseText_eq, parseText_eq, outcome_parseDocument_command hreading, hrequested]
  change Except.Corresponds _ _ ((outcome _ _ >>= _) >>= finish)
  rw [bind_assoc]
  refine hparse.bind fun root hroot => ?_
  have hkeys := Section.orderly_documentInvariant.parseDocument hroot
  have hname := Section.unnamed_documentInvariant.parseDocument hroot
  -- merging into the empty tree changes nothing but what was granted
  rw [absorb_initial (hkeys.imp fun _ h => h.keysDistinct) hname]
  exact finish_mapAttrs (f := fun attrs => Section.grant writable
    (attrs.mapOrigins (.under w.position))) (fun _ => rfl) root

/-- A document whose only item is a command that includes another document can be parsed exactly if
that one can be, and then both give the same plain mapping. -/
theorem include_is_transparent (fs : FileSystem) (mode : Mode)
    {file path text file' path' text' : String} (hfs : fs.Canonical)
    (hfetch : fs.fetch file = .ok (path, text))
    (hfetch' : fs.fetch file' = .ok (path', text')) (hother : path' ≠ path)
    (hleads : LeadsOnlyTo fs mode path' text' path text) :
    ((∃ root, LayeredConfig.parseFile fs mode file' = .ok root) ↔
      ∃ root, LayeredConfig.parseFile fs mode file = .ok root) ∧
    ∀ root' root, LayeredConfig.parseFile fs mode file' = .ok root' →
      LayeredConfig.parseFile fs mode file = .ok root → root'.toPlain = root.toPlain := by
  rw [parseFile_of_fetch hfetch, parseFile_of_fetch hfetch']
  obtain ⟨f, hcorresponds⟩ := hleads.corresponds_parseText hfs hfetch' hother
  refine ⟨hcorresponds.exists_ok_iff, fun root' root hroot' hroot => ?_⟩
  rw [hcorresponds.eq_of_ok hroot hroot', Section.toPlain_mapAttrs]

/-- A document that includes another one, refers to a key of it, and drops one of its own keys. -/
def delegated : String :=
  "~who = Ann\n[s]\n@include(./deep/part)\nlast = (!:who)(!first)\n"

/-- A directory tree with a document that only inherits that one, and with the one that is included,
which evaluates a reference at once. -/
def delegating : FileSystem :=
  FileNode.toFileSystem
    (.directory ⟨[
      ("main", .file "@inherit(conf/base)\n".toUTF8),
      ("conf", .directory ⟨[
        ("base", .file delegated.toUTF8),
        ("deep", .directory ⟨[
          ("part", .file "~it = x\nfirst := <(!it)>\n".toUTF8)]⟩)]⟩)]⟩)
    []

/-- A document that only inherits another one has the plain mapping of that one, which includes a
third document in a section and drops a key of its own. -/
theorem include_is_transparent_delegating :
    ∃ root' root, LayeredConfig.parseFile delegating .config "main" = .ok root' ∧
      LayeredConfig.parseFile delegating .config "conf/base" = .ok root ∧
      root'.textAt? ["s", "last"] = some "Ann<x>" ∧ root'.toPlain = root.toPlain := by
  have hfs : delegating.Canonical := FileNode.canonical_toFileSystem _ (List.forall_mem_nil _)
  have hfetch : delegating.fetch "conf/base" = .ok ("/conf/base", delegated) := by decide +kernel
  have hfetch' : delegating.fetch "main" = .ok ("/main", "@inherit(conf/base)\n") := by
    decide +kernel
  have hfetchFrom : delegating.fetch (Path.join (Path.parent "/main") "conf/base") =
      .ok ("/conf/base", delegated) := by
    decide +kernel
  obtain ⟨hsucceeds, hplain⟩ := include_is_transparent delegating .config hfs hfetch hfetch'
    (by decide) ⟨0, "inherit", "conf/base", by decide +kernel, by decide +kernel, hfetchFrom⟩
  obtain ⟨root', hroot', htext⟩ := Except.exists_of_any_toOption
    (LayeredConfig.parseFile delegating .config "main")
    (fun root => root.textAt? ["s", "last"] == some "Ann<x>") (by decide +kernel)
  obtain ⟨root, hroot⟩ := hsucceeds.mp ⟨root', hroot'⟩
  exact ⟨root', root, hroot', hroot, beq_iff_eq.mp htext, hplain root' root hroot' hroot⟩

end LayeredConfig.Session
