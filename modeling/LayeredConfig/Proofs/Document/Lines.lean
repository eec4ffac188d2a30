import LayeredConfig.Document.Read
import LayeredConfig.Proofs.Document.Quoting
import LayeredConfig.Proofs.Text.Prefixes
import LayeredConfig.Template.Basic

/-!
# Documents written line by line

A line is a header, or an assignment of a quoted text. A valid line reads as the item that is on it,
and leaves what stands behind it (`nextItem_append`). So a document of such lines is read to its end
and has the items of its lines, in their order (`readItems_document`).
-/

namespace LayeredConfig.Document

open Text

/-! ## Lines -/

/-- A word that can be the name of a key or a section. -/
def IsWord (name : String) : Prop :=
  name ≠ "" ∧ name.toList.all (isNameChar .config) = true

instance : DecidablePred IsWord := fun name =>
  inferInstanceAs (Decidable (name ≠ "" ∧ name.toList.all (isNameChar .config) = true))

/-- A line of a document. -/
inductive Line
  | header (depth : Nat) (name : String)
  | assign (key : String) (quoting : Quoting) (value : String)
deriving DecidableEq, Repr

namespace Line

/-- The text of a line. -/
def chars : Line → List Char
  | header depth name =>
    List.replicate depth '[' ++ (name.toList ++ List.replicate depth ']')
  | assign key quoting value =>
    key.toList ++ ' ' :: '=' :: ' ' :: quoting.enclose (Fragment.escape value.toList)

/-- The item that is on a line. -/
def item : Line → Item
  | header depth name => .header depth depth name
  | assign key _ value => .assign none key .deferred (String.ofList (Fragment.escape value.toList))

/-- Names are words, and headers have brackets. -/
def IsValid : Line → Prop
  | header depth name => 0 < depth ∧ IsWord name
  | assign key _ _ => IsWord key

end Line

variable {name : String} {rest : List Char} {c c' : Char} {p : Char → Bool} {cs : List Char}
  {l : Line} {depth : Nat}

/-- A character of a name is none that names do not have. -/
theorem ne_of_isNameChar (h : isNameChar .config c = true) (hc' : isNameChar .config c' = false) :
    c ≠ c' := by
  rintro rfl
  rw [h] at hc'
  cases hc'

/-- The characters of a word are characters of a name. -/
theorem IsWord.isNameChar_of_mem (h : IsWord name) :
    ∀ c ∈ name.toList, isNameChar .config c = true :=
  List.all_eq_true.mp h.2

/-- A word starts with a character of a name. -/
theorem IsWord.exists_cons (h : IsWord name) :
    ∃ c cs, name.toList = c :: cs ∧ isNameChar .config c = true := by
  have hne : name.toList ≠ [] := fun hnil => h.1 (String.toList_eq_nil_iff.mp hnil)
  obtain ⟨c, cs, hname⟩ := List.exists_cons_of_ne_nil hne
  exact ⟨c, cs, hname, h.isNameChar_of_mem c (by rw [hname]; exact List.mem_cons_self)⟩

/-- A word is read up to the first character that names do not have. -/
theorem word_append (h : IsWord name) (hrest : ∀ c ∈ rest.head?, isNameChar .config c = false) :
    word .config (name.toList ++ rest) = some (name.toList, rest) := by
  obtain ⟨c, cs, hname, -⟩ := h.exists_cons
  have hchars := h.isNameChar_of_mem
  rw [word, takeWhile_append_of_stop hchars hrest, dropWhile_append_of_stop hchars hrest, hname]

/-- Names have no white space. -/
theorem isSpace_of_isNameChar (h : isNameChar .config c = true) : isSpace c = false := by
  have hne (c' : Char) (hc' : isNameChar .config c' = false) : (c == c') = false :=
    beq_false_of_ne (ne_of_isNameChar h hc')
  rw [isSpace, hne ' ' (by decide), hne '\t' (by decide), hne '\r' (by decide),
    hne '\x0b' (by decide), hne '\x0c' (by decide)]
  rfl

/-- White space is skipped up to a text that starts with something else. -/
theorem skipSpaces_append_of_stop {spaces rest : List Char}
    (hspaces : ∀ c ∈ spaces, isSpace c = true) (hrest : ∀ c ∈ rest.head?, isSpace c = false) :
    skipSpaces (spaces ++ rest) = rest :=
  dropWhile_append_of_stop hspaces hrest

/-- White space is in no name. -/
theorem not_isNameChar_of_isSpace (h : isSpace c = true) : isNameChar .config c = false := by
  apply Bool.eq_false_iff.mpr
  intro hname
  rw [isSpace_of_isNameChar hname] at h
  exact Bool.false_ne_true h

/-- White space is no character that is not white space. -/
theorem beq_of_isSpace {b : Char} (hb : isSpace b = false) (h : isSpace c = true) :
    (c == b) = false := by
  apply beq_false_of_ne
  rintro rfl
  rw [hb] at h
  exact Bool.false_ne_true h

/-- What stands behind a line starts with a line feed, if with anything. -/
theorem head_of_atLineEnd (h : atLineEnd rest = true) (hc : p '\n' = false) :
    ∀ c ∈ rest.head?, p c = false := by
  cases rest with
  | nil => nofun
  | cons c rest =>
    obtain rfl : c = '\n' := eq_of_beq h
    rintro _ ⟨⟩
    exact hc

/-! ### Headers -/

/-- A run of one character has no other. -/
theorem beq_of_mem_replicate {b : Char} : ∀ c ∈ List.replicate depth b, (c == b) = true :=
  fun _ hc => beq_iff_eq.mpr (List.eq_of_mem_replicate hc)

/-- A run that is not empty starts with its character. -/
theorem replicate_append_eq_cons (hdepth : 0 < depth) (b : Char) (rest : List Char) :
    ∃ tail, List.replicate depth b ++ rest = b :: tail := by
  obtain ⟨n, rfl⟩ := Nat.exists_eq_add_of_lt hdepth
  rw [Nat.zero_add, List.replicate_succ, List.cons_append]
  exact ⟨_, rfl⟩

variable {before behind : List Char} {opening closing : Nat}

/-- The closing brackets end where something else follows. -/
theorem headerEnd_append (hbehind : ∀ c ∈ behind, isSpace c = true) (hclosing : 0 < closing)
    (opening : Nat) (hrest : ∀ c ∈ rest.head?, (c == ']') = false) :
    headerEnd .config opening name.toList (behind ++ (List.replicate closing ']' ++ rest)) =
      some (.header opening closing name, rest) := by
  have hspaces : skipSpaces (behind ++ (List.replicate closing ']' ++ rest)) =
      List.replicate closing ']' ++ rest := by
    apply skipSpaces_append_of_stop hbehind
    obtain ⟨tail, htail⟩ := replicate_append_eq_cons hclosing ']' rest
    rw [htail]
    rintro _ ⟨⟩
    decide
  have hsome : List.replicate closing ']' ≠ [] :=
    List.ne_nil_of_length_pos (by rwa [List.length_replicate])
  simp only [headerEnd, hspaces, takeWhile_append_of_stop beq_of_mem_replicate hrest,
    dropWhile_append_of_stop beq_of_mem_replicate hrest, if_pos hsome, List.length_replicate,
    String.ofList_toList]

/-- The opening brackets and the white space behind them end at the name, and the name ends at the
white space or the brackets behind it. -/
theorem header_append (hopening : 0 < opening) (hbefore : ∀ c ∈ before, isSpace c = true)
    (hname : IsWord name) (hbehind : ∀ c ∈ behind, isSpace c = true) (hclosing : 0 < closing)
    (hrest : ∀ c ∈ rest.head?, (c == ']') = false) :
    header .config (List.replicate opening '[' ++ (before ++ (name.toList ++ (behind ++
        (List.replicate closing ']' ++ rest))))) =
      some (.header opening closing name, rest) := by
  obtain ⟨c, cs, hcs, hc⟩ := hname.exists_cons
  -- behind the opening brackets come white space or the name, which are no brackets
  have hbracket : ∀ c ∈ (before ++ (name.toList ++ (behind ++
      (List.replicate closing ']' ++ rest)))).head?, (c == '[') = false := by
    apply forall_head_append fun c hc => beq_of_isSpace (by decide) (hbefore c hc)
    rw [hcs]
    rintro _ ⟨⟩
    exact beq_false_of_ne (ne_of_isNameChar hc (by decide))
  have hsome : List.replicate opening '[' ≠ [] :=
    List.ne_nil_of_length_pos (by rwa [List.length_replicate])
  have hspaces : skipSpaces (before ++ (name.toList ++ (behind ++
      (List.replicate closing ']' ++ rest)))) =
      name.toList ++ (behind ++ (List.replicate closing ']' ++ rest)) := by
    apply skipSpaces_append_of_stop hbefore
    rw [hcs]
    rintro _ ⟨⟩
    exact isSpace_of_isNameChar hc
  -- the name ends at white space or at the closing brackets
  have hstop : ∀ c ∈ (behind ++ (List.replicate closing ']' ++ rest)).head?,
      isNameChar .config c = false := by
    apply forall_head_append fun c hc => not_isNameChar_of_isSpace (hbehind c hc)
    obtain ⟨tail, htail⟩ := replicate_append_eq_cons hclosing ']' rest
    rw [htail]
    rintro _ ⟨⟩
    decide
  simp only [header, takeWhile_append_of_stop beq_of_mem_replicate hbracket,
    dropWhile_append_of_stop beq_of_mem_replicate hbracket, if_neg hsome, hspaces,
    word_append hname hstop, headerEnd_append hbehind hclosing _ hrest, List.length_replicate]

/-! ### Assignments -/

/-- A header starts with a bracket. -/
theorem header_of_ne {mode : Mode} (h : c ≠ '[') : header mode (c :: cs) = none := by
  have hopening : (c :: cs).takeWhile (· == '[') = [] :=
    List.takeWhile_cons_of_neg (by rwa [beq_iff_eq])
  simp only [header, hopening, if_true]

/-- A command starts with its mark. -/
theorem command_of_ne (h : c ≠ '@') : command (c :: cs) = none := by
  unfold command
  split
  · rename_i hcons
    exact absurd (List.cons.inj hcons).1 h
  · rfl

/-- Without one of the three marks there is none. -/
theorem marker_of_ne (hmandatory : c ≠ '^') (hfinal : c ≠ '!') (htemporary : c ≠ '~') :
    marker (c :: cs) = (none, c :: cs) := by
  unfold marker
  split
  · rename_i hcons
    exact absurd (List.cons.inj hcons).1 hmandatory
  · rename_i hcons
    exact absurd (List.cons.inj hcons).1 hfinal
  · rename_i hcons
    exact absurd (List.cons.inj hcons).1 htemporary
  · rfl

/-- A name starts with no mark. -/
theorem marker_of_isNameChar (h : isNameChar .config c = true) :
    marker (c :: cs) = (none, c :: cs) :=
  marker_of_ne (ne_of_isNameChar h (by decide)) (ne_of_isNameChar h (by decide))
    (ne_of_isNameChar h (by decide))

/-- A quoted assignment is read from its line, whatever lines follow. -/
theorem assign_append (hname : IsWord name) (q : Quoting) (cs : List Char)
    (h : atLineEnd rest = true) :
    assign .config (name.toList ++ ' ' :: '=' :: ' ' :: (q.enclose cs ++ rest)) =
      some (.assign none name .deferred (String.ofList cs), rest) := by
  obtain ⟨c, tail, hcons, hc⟩ := hname.exists_cons
  have hmarker (more : List Char) : marker (name.toList ++ more) = (none, name.toList ++ more) := by
    rw [hcons]
    exact marker_of_isNameChar hc
  have hstop : ∀ c ∈ (' ' :: '=' :: ' ' :: (q.enclose cs ++ rest)).head?,
      isNameChar .config c = false := by
    rintro _ ⟨⟩
    decide
  have hspaces : skipSpaces (' ' :: '=' :: ' ' :: (q.enclose cs ++ rest)) =
      '=' :: ' ' :: (q.enclose cs ++ rest) := rfl
  have hmode : ¬ (Mode.config = .schema ∧
      (!startsWithSpace (' ' :: '=' :: ' ' :: (q.enclose cs ++ rest))) = true) := nofun
  simp only [assign, hmarker, word_append hname hstop, if_neg hmode, hspaces, assignOp,
    q.value_enclose cs h, String.ofList_toList]

/-! ### Items -/

namespace Line

/-- A valid line reads as its item. -/
theorem item_append (hl : l.IsValid) (h : atLineEnd rest = true) :
    Document.item .config (l.chars ++ rest) = some (l.item, rest) := by
  cases l with
  | header depth name =>
    obtain ⟨hdepth, hname⟩ := hl
    have hheader := header_append hdepth (List.forall_mem_nil _) hname (List.forall_mem_nil _)
      hdepth (head_of_atLineEnd h (by decide))
    rw [List.nil_append, List.nil_append] at hheader
    rw [chars, Document.item, List.append_assoc, List.append_assoc, hheader, Option.some_or, item]
  | assign key q value =>
    obtain ⟨c, tail, hcons, hc⟩ := IsWord.exists_cons hl
    have hassign := assign_append hl q (Fragment.escape value.toList) h
    rw [chars, List.append_assoc, Document.item]
    simp only [List.cons_append] at hassign ⊢
    rw [hassign, hcons, List.cons_append, header_of_ne (ne_of_isNameChar hc (by decide)),
      command_of_ne (ne_of_isNameChar hc (by decide)), Option.none_or, Option.none_or, item]

/-- A valid line starts with a bracket or with a character of a name. -/
theorem append_eq_cons (hl : l.IsValid) (rest : List Char) :
    ∃ c cs, l.chars ++ rest = c :: cs ∧ (c = '[' ∨ isNameChar .config c = true) := by
  cases l with
  | header depth name =>
    obtain ⟨tail, htail⟩ := replicate_append_eq_cons hl.1 '[' (name.toList ++
      List.replicate depth ']')
    rw [chars, htail]
    exact ⟨'[', _, rfl, .inl rfl⟩
  | assign key q value =>
    obtain ⟨c, tail, hcons, hc⟩ := IsWord.exists_cons hl
    rw [chars, hcons]
    exact ⟨c, _, rfl, .inr hc⟩

/-- A valid line reads as the item that is on it. -/
theorem nextItem_append (hl : l.IsValid) (h : atLineEnd rest = true) :
    nextItem .config (l.chars ++ rest) = .item (l.chars ++ rest) l.item rest := by
  have hitem := item_append hl h
  obtain ⟨c, cs, hcons, hc⟩ := append_eq_cons hl rest
  have hblank : skipBlank false (c :: cs) = c :: cs := by
    have hne (c' : Char) (hname : isNameChar .config c' = false) (hbracket : '[' ≠ c') :
        c ≠ c' := by
      rcases hc with rfl | hc
      · exact hbracket
      · exact ne_of_isNameChar hc hname
    have hspace : isSpace c = false := by
      rcases hc with rfl | hc
      · decide
      · exact isSpace_of_isNameChar hc
    rw [skipBlank, hspace, if_neg (by simp [hne '\n' (by decide) (by decide)]),
      if_neg (hne '#' (by decide) (by decide))]
  rw [hcons] at hitem ⊢
  simp only [nextItem, hblank, hitem, skipTail_of_atLineEnd h, h, if_true]

/-- Between quotes no carriage return is written as it is, and elsewhere there is none. -/
theorem not_mem_chars (hl : l.IsValid) : '\r' ∉ l.chars := by
  have hword {name : String} (hname : IsWord name) : '\r' ∉ name.toList := fun hmem =>
    absurd (hname.isNameChar_of_mem _ hmem) (by decide)
  cases l with
  | header depth name =>
    simp only [chars, List.mem_append, List.mem_replicate, not_or]
    exact ⟨fun h => absurd h.2 (by decide), hword hl.2, fun h => absurd h.2 (by decide)⟩
  | assign key q value =>
    have hmark : '\r' ≠ q.mark := (q.mark_ne (by decide)).symm
    have hquote : '\r' ∉ q.quote := by
      unfold Quoting.quote
      split <;> simp [hmark]
    -- a carriage return is written as an escape
    have hencode : '\r' ∉ q.encode (Fragment.escape value.toList) := by
      intro hmem
      obtain ⟨c, -, hmem⟩ := List.mem_flatMap.mp hmem
      rcases q.encodeChar_cases c with ⟨e, hc, -, he⟩ | ⟨hc, -, -, hcr, -⟩
      · rw [hc] at hmem
        simp [he.symm] at hmem
      · rw [hc, List.mem_singleton] at hmem
        exact hcr hmem.symm
    simp [chars, Quoting.enclose, hword hl, hquote, hencode]

end Line

/-! ## Documents -/

/-- The text of some lines, with or without a line feed behind the last one. -/
def document (endOfLine : Bool) : List Line → List Char
  | [] => []
  | [l] => l.chars ++ if endOfLine then ['\n'] else []
  | l :: lines => l.chars ++ '\n' :: document endOfLine lines

/-- Nothing is normalized in a text without carriage returns. -/
theorem normalizeNewlines_of_not_mem {cs : List Char} (h : '\r' ∉ cs) :
    normalizeNewlines cs = cs := by
  fun_induction normalizeNewlines cs with
  | case1 cs ih => exact absurd List.mem_cons_self h
  | case2 c cs _ ih => rw [ih (List.not_mem_of_not_mem_cons h)]
  | case3 => rfl

/-- A document of valid lines has no carriage returns. -/
theorem not_mem_document {endOfLine : Bool} {lines : List Line} (h : ∀ l ∈ lines, l.IsValid) :
    '\r' ∉ document endOfLine lines := by
  fun_induction document endOfLine lines with
  | case1 => exact List.not_mem_nil
  | case2 l =>
    have hl := Line.not_mem_chars (h l List.mem_cons_self)
    cases endOfLine <;> simp [hl]
  | case3 l lines _ ih =>
    have hl := Line.not_mem_chars (h l List.mem_cons_self)
    have hlines := ih fun l' hl' => h l' (List.mem_cons_of_mem l hl')
    simp [hl, hlines]

section readItems

variable {mode : Mode} {cs start place rest : List Char} {i : Item}

/-- At the end of a text there are no items and no fault. -/
theorem readItems_of_finished (size : Nat) (h : nextItem mode cs = .finished) :
    readItems mode size cs = { items := [], fault := none } := by
  rw [readItems]
  split <;> rename_i hnext <;> rw [h] at hnext <;> cases hnext

/-- At a fault the reading ends. -/
theorem readItems_of_malformed (size : Nat) (h : nextItem mode cs = .malformed place) :
    readItems mode size cs = { items := [], fault := some (size - byteLength place) } := by
  rw [readItems]
  split <;> rename_i hnext <;> rw [h] at hnext <;> cases hnext
  rfl

/-- An item is placed where it starts, in front of those behind it. -/
theorem readItems_of_item (size : Nat) (h : nextItem mode cs = .item start i rest) :
    readItems mode size cs =
      { readItems mode size rest with
        items := ⟨size - byteLength start, i⟩ :: (readItems mode size rest).items } := by
  rw [readItems]
  split <;> rename_i hnext <;> rw [h] at hnext <;> cases hnext
  rfl

/-- Texts in which the next item is the same are read alike. -/
theorem readItems_congr (size : Nat) {cs' : List Char} (h : nextItem mode cs = nextItem mode cs') :
    readItems mode size cs = readItems mode size cs' := by
  cases hnext : nextItem mode cs' with
  | finished => rw [readItems_of_finished size (h.trans hnext), readItems_of_finished size hnext]
  | malformed place =>
    rw [readItems_of_malformed size (h.trans hnext), readItems_of_malformed size hnext]
  | item start i rest =>
    rw [readItems_of_item size (h.trans hnext), readItems_of_item size hnext]

/-- A blank line is passed over. -/
theorem readItems_lineFeed (mode : Mode) (size : Nat) (cs : List Char) :
    readItems mode size ('\n' :: cs) = readItems mode size cs :=
  readItems_congr size rfl

end readItems

/-- A document of valid lines is read to its end, and has the items of its lines. -/
theorem readItems_document {endOfLine : Bool} {lines : List Line} (size : Nat)
    (h : ∀ l ∈ lines, l.IsValid) :
    ∃ placed,
      readItems .config size (document endOfLine lines) = { items := placed, fault := none } ∧
      placed.map (·.item) = lines.map Line.item := by
  fun_induction document endOfLine lines with
  | case1 => exact ⟨[], readItems_of_finished size rfl, rfl⟩
  | case2 l =>
    have hl : l.IsValid := h l List.mem_cons_self
    have hend : readItems .config size (if endOfLine then ['\n'] else []) =
        { items := [], fault := none } := by
      cases endOfLine <;> exact readItems_of_finished size rfl
    -- the last line ends with a line feed or with the text
    have hline : atLineEnd (if endOfLine then ['\n'] else []) = true := by
      cases endOfLine <;> rfl
    have hread := readItems_of_item size (Line.nextItem_append hl hline)
    rw [hend] at hread
    exact ⟨_, hread, rfl⟩
  | case3 l lines _ ih =>
    have hl : l.IsValid := h l List.mem_cons_self
    obtain ⟨placed, hplaced, hitems⟩ := ih fun l' hl' => h l' (List.mem_cons_of_mem l hl')
    have hline : atLineEnd ('\n' :: document endOfLine lines) = true := rfl
    have hread := readItems_of_item size (Line.nextItem_append hl hline)
    rw [readItems_lineFeed, hplaced] at hread
    refine ⟨_, hread, ?_⟩
    rw [List.map_cons, List.map_cons, hitems]

end LayeredConfig.Document
