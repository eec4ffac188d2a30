import LayeredConfig.FileSystem.Tree
import LayeredConfig.Proofs.Except
import LayeredConfig.Proofs.Text.SplitOn

/-!
# Canonical paths

A canonical path stands for one file, and there is one way to write it. So two canonical paths that
are the same but for pieces that name nothing are equal. A file system is asked for canonical paths
only, and `Canonical` is what a parse relies on when it compares them. Directory trees have it,
since the names that a path is followed by are neither blank nor hold a slash.
-/

namespace LayeredConfig

namespace FileSystem

/-- Canonical paths that name the same file are written in the same way. -/
def Canonical (fs : FileSystem) : Prop :=
  ∀ p q a b, fs.canonicalize p = .ok a → fs.canonicalize q = .ok b → Path.same a b → a = b

variable {fs : FileSystem} {p q a b text text' : String}

/-- A file is fetched if its path has a canonical form and can be read there. -/
theorem fetch_eq_ok_iff :
    fs.fetch p = .ok (a, text) ↔ fs.canonicalize p = .ok a ∧ fs.read a = .ok text := by
  rw [fetch, Except.bind_eq_ok_iff]
  constructor
  · rintro ⟨canonical, hcanonical, h⟩
    obtain ⟨text', htext', h⟩ := Except.bind_eq_ok_iff.mp h
    cases h
    exact ⟨hcanonical, htext'⟩
  · rintro ⟨hcanonical, htext⟩
    exact ⟨a, hcanonical, Except.bind_eq_ok_iff.mpr ⟨text, htext, rfl⟩⟩

/-- Where paths lead to the same file, there is one canonical path and one text. -/
theorem Canonical.eq_of_same (hfs : fs.Canonical) (h : fs.fetch p = .ok (a, text))
    (h' : fs.fetch q = .ok (b, text')) (hsame : Path.same a b) : a = b ∧ text = text' := by
  obtain ⟨ha, htext⟩ := fetch_eq_ok_iff.mp h
  obtain ⟨hb, htext'⟩ := fetch_eq_ok_iff.mp h'
  obtain rfl := hfs p q a b ha hb hsame
  exact ⟨rfl, Except.ok.inj (htext.symm.trans htext')⟩

end FileSystem

/-! ## Directory trees -/

namespace FileNode

/-- A text that can be the name of a file or a directory. -/
def IsName (name : String) : Prop :=
  name ≠ "" ∧ name ≠ "." ∧ '/' ∉ name.toList

variable {root : FileNode} {here names : List String} {name path : String}

/-- A step along a path leads to names, if the path so far has only names. -/
theorem isName_of_step (hhere : ∀ n ∈ here, IsName n) (hname : '/' ∉ name.toList)
    (h : root.step here name = .ok names) : ∀ n ∈ names, IsName n := by
  unfold step at h
  split at h
  · split at h
    · cases h
      exact hhere
    · rename_i hblank
      rw [not_or] at hblank
      split at h
      · cases h
        exact fun n hn => hhere n ((List.dropLast_sublist here).subset hn)
      · split at h
        · cases h
        · split at h
          · cases h
            intro n hn
            -- the last piece is neither blank nor a step back, and has no slash
            rcases List.mem_append.mp hn with hn | hn
            · exact hhere n hn
            · rw [List.mem_singleton.mp hn]
              exact ⟨hblank.1, hblank.2, hname⟩
          · cases h
  · cases h

/-- So do several steps. -/
theorem isName_of_foldlM_step {steps : List String} (hhere : ∀ n ∈ here, IsName n)
    (hsteps : ∀ n ∈ steps, '/' ∉ n.toList) (h : steps.foldlM (step root) here = .ok names) :
    ∀ n ∈ names, IsName n := by
  induction steps generalizing here with
  | nil =>
    cases h
    exact hhere
  | cons name steps ih =>
    obtain ⟨hname, hsteps⟩ := List.forall_mem_cons.mp hsteps
    rw [List.foldlM_cons, Except.bind_eq_ok_iff] at h
    obtain ⟨here', hstep, h⟩ := h
    exact ih (isName_of_step hhere hname hstep) hsteps h

/-- A path leads to a place that is named by proper names only. -/
theorem isName_of_follow (hhere : ∀ n ∈ here, IsName n) (h : root.follow here path = .ok names) :
    ∀ n ∈ names, IsName n := by
  unfold follow at h
  split at h
  · cases h
  · split at h
    · cases h
    · refine isName_of_foldlM_step (fun n hn => ?_) (fun n hn => ?_) h
      · split at hn
        · cases hn
        · exact hhere n hn
      · obtain ⟨piece, hpiece, rfl⟩ := List.mem_map.mp hn
        rw [String.toList_ofList]
        exact Text.not_mem_of_mem_splitOn hpiece

/-- A name is not passed over when a path is taken apart. -/
theorem not_isBlankPiece_of_isName (h : IsName name) : (!Path.isBlankPiece name.toList) = true := by
  have hempty : name.toList ≠ [] := fun hnil => h.1 (String.toList_inj.mp hnil)
  have hdot : name.toList ≠ ['.'] := fun hdot => h.2.1 (String.toList_inj.mp hdot)
  rw [Path.isBlankPiece, beq_eq_false_iff_ne.mpr hempty, beq_eq_false_iff_ne.mpr hdot]
  rfl

/-- The names that a canonical path is made of can be read off it. -/
theorem parts_pathOf (h : ∀ n ∈ names, IsName n) :
    Path.parts (pathOf names) = (['/'], names.map String.toList) := by
  have hlist : (pathOf names).toList = '/' :: ("/".intercalate names).toList :=
    String.toList_append
  have hpieces : (Text.splitOn '/' ("/".intercalate names).toList).filter
      (fun piece => !Path.isBlankPiece piece) = names.map String.toList := by
    by_cases hnames : names = []
    · subst hnames
      rfl
    · have hsplit : Text.splitOn '/' ("/".intercalate names).toList = names.map String.toList :=
        Text.splitOn_intercalate '/' hnames fun n hn => (h n hn).2.2
      rw [hsplit, List.filter_eq_self]
      intro piece hpiece
      obtain ⟨n, hn, rfl⟩ := List.mem_map.mp hpiece
      exact not_isBlankPiece_of_isName (h n hn)
  rw [Path.parts, hlist]
  exact congrArg (Prod.mk ['/']) hpieces

/-- The file system of a directory tree has canonical paths. -/
theorem canonical_toFileSystem (root : FileNode) (hhere : ∀ n ∈ here, IsName n) :
    (root.toFileSystem here).Canonical := by
  intro p q a b ha hb hsame
  obtain ⟨names, hnames, rfl⟩ := Except.map_eq_ok_iff.mp ha
  obtain ⟨names', hnames', rfl⟩ := Except.map_eq_ok_iff.mp hb
  rw [Path.same, parts_pathOf (isName_of_follow hhere hnames),
    parts_pathOf (isName_of_follow hhere hnames'), beq_iff_eq] at hsame
  rw [(List.map_inj_right fun _ _ => String.toList_inj.mp).mp (Prod.mk.inj hsame).2]

end FileNode

end LayeredConfig
