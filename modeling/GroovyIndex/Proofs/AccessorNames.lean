import GroovyIndex.Proofs.RenamePlan

/-!
# The texts that a rename writes

A rename writes the new name, and for accessors an accessor word with the new name, its first
character in upper case. The upper case of a few letters is a capital followed by combining marks
(`markedLetters`), which are no letters; for these alone the name of an accessor is no identifier.
-/

namespace GroovyIndex

/-! ### Tables of code points -/

namespace CodePoints

/-- In ascending ranges a look-up finds every code point of a range. -/
theorem search_of_mem {ranges : List (Nat × Nat)} (h : ranges.Pairwise fun r s => r.1 < s.1)
    {r : Nat × Nat} (hr : r ∈ ranges) {code : Nat} (hlow : r.1 ≤ code) (hhigh : code ≤ r.2) :
    search code ranges = true := by
  induction ranges with
  | nil => cases hr
  | cons first rest ih =>
    obtain ⟨hfirst, hrest⟩ := List.pairwise_cons.mp h
    have hstart : first.1 ≤ code := by
      rcases List.mem_cons.mp hr with rfl | hr
      · exact hlow
      · exact Nat.le_trans (Nat.le_of_lt (hfirst r hr)) hlow
    rw [search, if_neg (Nat.not_lt.mpr hstart), Bool.or_eq_true, decide_eq_true_eq]
    rcases List.mem_cons.mp hr with rfl | hr
    · exact Or.inl hhigh
    · exact Or.inr (ih hrest hr)

end CodePoints

namespace Text

private theorem pairwise_letters : letters.ranges.Pairwise fun r s => r.1 < s.1 := by
  have htrans : Trans (fun r s : Nat × Nat => r.1 < s.1) (fun r s : Nat × Nat => r.1 < s.1)
      (fun r s : Nat × Nat => r.1 < s.1) := ⟨Nat.lt_trans⟩
  have hchain : letters.ranges.IsChain fun r s => r.1 < s.1 := by decide +kernel
  exact hchain.pairwise

private theorem valid_letters :
    ∀ r ∈ letters.ranges, r.2 < 0xD800 ∨ 0xDFFF < r.1 ∧ r.2 < 0x110000 := by
  decide +kernel

/-- A code point of a range of letters is a letter. -/
theorem isLetter_ofNat {r : Nat × Nat} (hr : r ∈ letters.ranges) {code : Nat} (hlow : r.1 ≤ code)
    (hhigh : code ≤ r.2) : isLetter (Char.ofNat code) = true := by
  have hvalid : code.isValidChar := by
    have hrange := valid_letters r hr
    unfold Nat.isValidChar
    omega
  have hcode : (Char.ofNat code).toNat = code := by
    rw [Char.ofNat, dif_pos hvalid]
    rfl
  rw [isLetter, CodePoints.contains, hcode]
  exact CodePoints.search_of_mem pairwise_letters hr hlow hhigh

/-- The run leads to letters: to one range of letters, or else code point by code point. -/
private def leadsToLetters (run : CaseRun) : Bool :=
  letters.ranges.any (fun r => (run.image run.last).ble r.2 && r.1.ble run.target) ||
    (List.range (run.last - run.first + 1)).all fun i =>
      i % run.step != 0 || isLetter (Char.ofNat (run.target + i))

private theorem leadsToLetters_upperRuns : ∀ run ∈ upperRuns, leadsToLetters run = true := by
  decide +kernel

/-- Where the upper case of a character is one other character, it is a letter. -/
theorem isLetter_image {run : CaseRun} (hrun : run ∈ upperRuns) {code : Nat}
    (hcode : run.contains code = true) : isLetter (Char.ofNat (run.image code)) = true := by
  simp only [CaseRun.contains, Bool.and_eq_true, decide_eq_true_eq, beq_iff_eq] at hcode
  obtain ⟨⟨hfirst, hlast⟩, hstep⟩ := hcode
  rcases Bool.or_eq_true_iff.mp (leadsToLetters_upperRuns run hrun) with hany | hall
  · obtain ⟨r, hr, hwithin⟩ := List.any_eq_true.mp hany
    obtain ⟨hhigh, hlow⟩ := Bool.and_eq_true_iff.mp hwithin
    have hhigh := Nat.le_of_ble_eq_true hhigh
    have hlow := Nat.le_of_ble_eq_true hlow
    unfold CaseRun.image at hhigh ⊢
    exact isLetter_ofNat hr (by omega) (by omega)
  · have hpoint := List.all_eq_true.mp hall (code - run.first) (List.mem_range.mpr (by omega))
    simpa [hstep, CaseRun.image] using hpoint

/-- The letters whose upper case has a combining mark. -/
def markedLetters : List Nat :=
  [0x1F0, 0x390, 0x3B0, 0x1E96, 0x1E97, 0x1E98, 0x1E99, 0x1F50, 0x1F52, 0x1F54, 0x1F56, 0x1FB6,
   0x1FB7, 0x1FC6, 0x1FC7, 0x1FD2, 0x1FD3, 0x1FD6, 0x1FD7, 0x1FE2, 0x1FE3, 0x1FE4, 0x1FE6, 0x1FE7,
   0x1FF6, 0x1FF7]

/-- The text starts with a letter whose upper case has a combining mark. -/
def startsMarked (text : String) : Bool :=
  text.toList.head?.any fun c => markedLetters.contains c.toNat

private theorem all_isPart_upperSequences : ∀ entry ∈ upperSequences,
    (entry.2.map Char.ofNat).all Identifier.isPart = !markedLetters.contains entry.1 := by
  decide +kernel

private theorem isSome_lookup_markedLetters :
    ∀ code ∈ markedLetters, (upperSequences.lookup code).isSome = true := by
  decide +kernel

end Text

/-! ### Identifiers -/

namespace Identifier

theorem isPart_of_isLetter {c : Char} (h : Text.isLetter c = true) : isPart c = true := by
  simp [isPart, h]

theorem isPart_of_isStart {c : Char} (h : isStart c = true) : isPart c = true := by
  simp only [isStart, isPart, Bool.or_eq_true] at h ⊢
  rcases h with (hletter | hunderscore) | hdollar
  · exact Or.inl (Or.inl (Or.inl hletter))
  · exact Or.inl (Or.inr hunderscore)
  · exact Or.inr hdollar

/-- The upper case of a character that may start an identifier can stand in one, unless it has a
combining mark. -/
theorem all_isPart_upper {c : Char} (h : isStart c = true) :
    (Text.upper c).all isPart = !Text.markedLetters.contains c.toNat := by
  rw [Text.upper]
  cases hs : Text.upperSequences.lookup c.toNat with
  | some codes =>
    obtain ⟨before, after, heq, -⟩ := List.lookup_eq_some_iff.mp hs
    have hmem : (c.toNat, codes) ∈ Text.upperSequences := by simp [heq]
    exact Text.all_isPart_upperSequences _ hmem
  | none =>
    have hnot : Text.markedLetters.contains c.toNat = false := by
      rw [Bool.eq_false_iff]
      intro hmem
      have hsome := Text.isSome_lookup_markedLetters _ (List.contains_iff_mem.mp hmem)
      rw [hs] at hsome
      cases hsome
    rw [hnot]
    cases hr : Text.upperRuns.find? (·.contains c.toNat) with
    | some run =>
      have hcontains := List.find?_some hr
      have hletter := Text.isLetter_image (List.mem_of_find?_eq_some hr) hcontains
      simp [isPart_of_isLetter hletter]
    | none => simp [isPart_of_isStart h]

/-- No reserved word starts with the word of an accessor. -/
theorem isKeyword_word_append (a : Accessor) (text : String) :
    isKeyword (a.word ++ text) = false := by
  have hkeywords : ∀ k ∈ keywords, ¬ a.word.toList <+: k.toList := by
    cases a <;> decide +kernel
  rw [isKeyword, Bool.eq_false_iff]
  intro hmem
  apply hkeywords _ (List.contains_iff_mem.mp hmem)
  rw [String.toList_append]
  exact List.prefix_append _ _

/-- The name of an accessor of an identifier is an identifier, unless it gets a combining mark. -/
theorem isValid_methodName (a : Accessor) {name : String} (h : isValid name = true) :
    isValid (a.methodName name) = !Text.startsMarked name := by
  obtain ⟨w, ws, hword, hstart, hparts⟩ : ∃ w ws, a.word.toList = w :: ws ∧ isStart w = true ∧
      ws.all isPart = true := by
    cases a
    all_goals exact ⟨_, _, rfl, by decide, by decide⟩
  cases hname : name.toList with
  | nil => simp [isValid, hname] at h
  | cons first rest =>
    simp only [isValid, hname, Bool.and_eq_true] at h
    have hmethod : (a.methodName name).toList = w :: (ws ++ (Text.upper first ++ rest)) := by
      simp [Accessor.methodName, capitalize, hname, hword, String.toList_append]
    have hkeyword : isKeyword (a.methodName name) = false := isKeyword_word_append a _
    rw [isValid, hmethod, Text.startsMarked, hname]
    simp [hkeyword, hstart, hparts, h.1.2, all_isPart_upper h.1.1]

end Identifier

/-! ### The texts of a rename -/

namespace Session

variable {s : Session}

/-- A step of the plan writes the new name, or the name of an accessor if accessors
are renamed too. -/
theorem newText_of_mem_renamePlan {target : Definition} {newName : String} {uri : Uri}
    {edit : TextEdit} (h : (uri, edit) ∈ s.renamePlan target newName) :
    edit.newText = newName ∨
      s.config.synthesizeAccessors = true ∧ target.kind.hasAccessors = true ∧
        ∃ accessor ∈ Accessor.ofType target.typeName,
          edit.newText = accessor.methodName newName := by
  rcases List.mem_append.mp h with h | h
  · exact Or.inl (newText_of_mem_editsTo h)
  · rcases List.mem_append.mp h with h | h
    · split at h
      · exact Or.inl (newText_of_mem_editsTo h)
      · cases h
    · split at h
      · next hsynthesize =>
        obtain ⟨hconfig, hkind⟩ := Bool.and_eq_true_iff.mp hsynthesize
        obtain ⟨accessor, haccessor, h⟩ := List.mem_flatMap.mp h
        obtain ⟨d, -, h⟩ := List.mem_flatMap.mp h
        exact Or.inr ⟨hconfig, hkind, accessor, haccessor, newText_of_mem_editsTo h⟩
      · cases h

theorem isValid_of_rename {pos : Position} {newName : String} {batch : EditBatch}
    (h : s.rename pos newName = .ok batch) : Identifier.isValid newName = true := by
  cases hvalid : Identifier.isValid newName with
  | true => rfl
  | false =>
    rw [rename_of_not_isValid hvalid] at h
    cases h

/-- An edit of a rename writes an identifier exactly if it writes the new name, or the new name
starts with no marked letter. -/
theorem rename_writes_identifiers (s : Session) {pos : Position} {newName : String}
    {batch : EditBatch} (h : s.rename pos newName = .ok batch) {uri : Uri} {edit : TextEdit}
    (hedit : edit ∈ batch.editsFor uri) :
    ∃ e target, s.renameTarget pos = .ok (e, target) ∧
      (edit.newText = newName ∨
        s.config.synthesizeAccessors = true ∧ target.kind.hasAccessors = true ∧
          ∃ accessor ∈ Accessor.ofType target.typeName,
            edit.newText = accessor.methodName newName) ∧
      (Identifier.isValid edit.newText = true ↔
        edit.newText = newName ∨ Text.startsMarked newName = false) := by
  have hvalid := isValid_of_rename h
  obtain ⟨e, target, htarget, rfl⟩ := rename_eq_ok h
  have htext := newText_of_mem_renamePlan (EditBatch.mem_plan_of_mem_normalize hedit)
  refine ⟨e, target, htarget, htext, ?_⟩
  rcases htext with hnew | ⟨-, -, accessor, -, haccessor⟩
  · rw [hnew]
    exact iff_of_true hvalid (Or.inl rfl)
  · rw [haccessor, Identifier.isValid_methodName accessor hvalid]
    simp [accessor.methodName_ne newName]

/-- A property with its getter. -/
private def angle : Session where
  snapshot := .ofParsed (.clean ⟨⟨"file:///angle.groovy"⟩, 1⟩
    ⟨⟨0⟩, .moduleRoot, none,
      [⟨⟨1⟩, .classDecl "Angle" (some (.ofCorners 0 6 0 11)) false, some (.ofCorners 0 0 3 1),
        [⟨⟨2⟩, .propertyDecl "size" (some (.ofCorners 1 6 1 10)) none, some (.ofCorners 1 2 1 10),
          []⟩,
        ⟨⟨3⟩, .methodDecl "getSize" (some (.ofCorners 2 6 2 13)) none false,
          some (.ofCorners 2 2 2 18), []⟩]⟩]⟩) 0
  auxiliary := []
  chain := .standard
  config := {}

private def getterEdit (text : String) : TextEdit := ⟨.ofCorners 2 6 2 13, text⟩

private def angleBatch (newName getter : String) : EditBatch :=
  EditBatch.empty.put ⟨"file:///angle.groovy"⟩
    [⟨.ofCorners 1 6 1 10, newName⟩, getterEdit getter]

private theorem rename_sharp :
    angle.rename ⟨1, 7⟩ "\u00DF" = .ok (angleBatch "\u00DF" "getSS") := by
  decide +kernel

private theorem rename_iota :
    angle.rename ⟨1, 7⟩ "\u0390" = .ok (angleBatch "\u0390" "get\u0399\u0308\u0301") := by
  decide +kernel

private theorem getterEdit_mem (newName getter : String) :
    getterEdit getter ∈ (angleBatch newName getter).editsFor ⟨"file:///angle.groovy"⟩ :=
  List.mem_cons_of_mem _ List.mem_cons_self

/-- The upper case of a sharp s makes an identifier; that of an iota with dialytika and tonos has
marks and does not. -/
theorem rename_writes_identifiers_angle :
    angle.rename ⟨1, 7⟩ "\u00DF" = .ok (angleBatch "\u00DF" "getSS") ∧
    Identifier.isValid "getSS" = true ∧
    angle.rename ⟨1, 7⟩ "\u0390" = .ok (angleBatch "\u0390" "get\u0399\u0308\u0301") ∧
    Identifier.isValid "get\u0399\u0308\u0301" = false := by
  obtain ⟨-, -, -, -, hsharp⟩ :=
    rename_writes_identifiers angle rename_sharp (getterEdit_mem "\u00DF" "getSS")
  obtain ⟨-, -, -, -, hiota⟩ :=
    rename_writes_identifiers angle rename_iota (getterEdit_mem "\u0390" "get\u0399\u0308\u0301")
  refine ⟨rename_sharp, hsharp.mpr (Or.inr (by decide)), rename_iota, ?_⟩
  rw [Bool.eq_false_iff]
  intro hvalid
  rcases hiota.mp hvalid with hnew | hunmarked
  · exact absurd hnew (by decide)
  · exact absurd hunmarked (by decide)

/-- It is not so that a rename writes identifiers only. -/
theorem not_forall_rename_writes_identifiers :
    ¬ ∀ (s : Session), s.chain = .standard → ∀ pos newName batch,
      s.rename pos newName = .ok batch → ∀ uri, ∀ edit ∈ batch.editsFor uri,
        Identifier.isValid edit.newText = true := by
  intro h
  have hvalid := h angle rfl _ _ _ rename_iota _ _ (getterEdit_mem _ _)
  exact absurd hvalid (by decide +kernel)

end Session

end GroovyIndex
