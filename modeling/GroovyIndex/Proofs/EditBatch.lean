import GroovyIndex.Query.Rename

/-!
# Batches of edits

A batch is made by adding edits one by one and then putting them in order. Its edits are among
those added, and where an edit was added, some edit of the batch starts. In order, the edits of a
document come by their starts, and no two start together.
-/

namespace GroovyIndex

namespace TextEdit

/-- The first edit comes before the second or beside it: by start, then by end. -/
def Ordered (a b : TextEdit) : Prop :=
  a.range.start < b.range.start ∨ a.range.start = b.range.start ∧ a.range.stop ≤ b.range.stop

instance (a b : TextEdit) : Decidable (Ordered a b) :=
  inferInstanceAs (Decidable (_ ∨ _))

theorem atMost_iff {a b : TextEdit} : a.atMost b = true ↔ Ordered a b := by
  simp [atMost, Ordered]

theorem Ordered.trans {a b c : TextEdit} (hab : Ordered a b) (hbc : Ordered b c) : Ordered a c := by
  rcases hab with hab | ⟨hab, hstop⟩
  · rcases hbc with hbc | ⟨hbc, -⟩
    · exact Or.inl (Position.lt_trans hab hbc)
    · exact Or.inl (hbc ▸ hab)
  · rcases hbc with hbc | ⟨hbc, hstop'⟩
    · exact Or.inl (hab ▸ hbc)
    · exact Or.inr ⟨hab.trans hbc, Position.le_trans hstop hstop'⟩

theorem ordered_of_not_ordered {a b : TextEdit} (h : ¬ Ordered a b) : Ordered b a := by
  by_cases hstart : a.range.start = b.range.start
  · right
    refine ⟨hstart.symm, ?_⟩
    exact (Position.le_total _ _).resolve_right fun hle => h (Or.inr ⟨hstart, hle⟩)
  · left
    apply Position.not_le.mp
    intro hle
    exact h (Or.inl (Position.lt_of_le_of_ne hle hstart))

/-- The first edit starts before the second. -/
def StartsBefore (a b : TextEdit) : Prop := a.range.start < b.range.start

theorem insertSorted_perm (e : TextEdit) (edits : List TextEdit) :
    (insertSorted e edits).Perm (e :: edits) := by
  induction edits with
  | nil => exact List.Perm.refl _
  | cons f rest ih =>
    rw [insertSorted]
    split
    · exact (ih.cons f).trans (List.Perm.swap e f rest)
    · exact List.Perm.refl _

@[simp]
theorem sort_nil : sort [] = [] := rfl

/-- Sorting keeps the edits, each as often as it is there. -/
theorem sort_perm (edits : List TextEdit) : (sort edits).Perm edits := by
  have hfold (sorted : List TextEdit) :
      (edits.foldl (fun sorted e => insertSorted e sorted) sorted).Perm (edits ++ sorted) := by
    induction edits generalizing sorted with
    | nil => exact List.Perm.refl _
    | cons e rest ih =>
      rw [List.foldl_cons]
      have hinsert := (insertSorted_perm e sorted).append_left rest
      exact (ih _).trans (hinsert.trans List.perm_middle)
  have hperm := hfold []
  rwa [List.append_nil] at hperm

/-- Sorting keeps the edits. -/
theorem mem_sort {e : TextEdit} {edits : List TextEdit} : e ∈ sort edits ↔ e ∈ edits :=
  (sort_perm edits).mem_iff

/-- An edit is put in its place. -/
private theorem pairwise_insertSorted {e : TextEdit} {edits : List TextEdit}
    (h : edits.Pairwise Ordered) : (insertSorted e edits).Pairwise Ordered := by
  induction edits with
  | nil => exact List.pairwise_singleton _ _
  | cons f rest ih =>
    obtain ⟨hf, hrest⟩ := List.pairwise_cons.mp h
    rw [insertSorted]
    split
    · next hle =>
      apply List.pairwise_cons.mpr
      refine ⟨?_, ih hrest⟩
      intro g hg
      rcases List.mem_cons.mp ((insertSorted_perm e rest).mem_iff.mp hg) with rfl | hg
      · exact atMost_iff.mp hle
      · exact hf g hg
    · next hle =>
      have hef : Ordered e f := ordered_of_not_ordered fun hfe => hle (atMost_iff.mpr hfe)
      apply List.pairwise_cons.mpr
      refine ⟨?_, h⟩
      intro g hg
      rcases List.mem_cons.mp hg with rfl | hg
      · exact hef
      · exact hef.trans (hf g hg)

/-- Sorting puts edits in order. -/
theorem ordered_sort (edits : List TextEdit) : (sort edits).Pairwise Ordered := by
  have hfold (sorted : List TextEdit) (hsorted : sorted.Pairwise Ordered) :
      (edits.foldl (fun sorted e => insertSorted e sorted) sorted).Pairwise Ordered := by
    induction edits generalizing sorted with
    | nil => exact hsorted
    | cons e rest ih => exact ih _ (pairwise_insertSorted hsorted)
  exact hfold [] List.Pairwise.nil

/-- Edits that start apart are sorted by their starts. -/
theorem pairwise_sort {edits : List TextEdit} (h : (edits.map (·.range.start)).Nodup) :
    (sort edits).Pairwise StartsBefore := by
  have hapart : (sort edits).Pairwise fun a b => a.range.start ≠ b.range.start :=
    List.pairwise_map.mp (((sort_perm edits).map _).nodup_iff.mpr h)
  apply hapart.imp₂ _ (ordered_sort edits)
  intro a b hne hle
  exact hle.resolve_right fun hsame => hne hsame.1

end TextEdit

namespace EditBatch

variable {batch : EditBatch} {uri : Uri} {edit : TextEdit}

/-! ### One edit -/

/-- An edit is added behind the others of its document, unless one of them starts there. -/
theorem editsFor_add (batch : EditBatch) (uri other : Uri) (edit : TextEdit) :
    (batch.add uri edit).editsFor other =
      if other = uri ∧ batch.clashes uri edit = false then batch.editsFor other ++ [edit]
      else batch.editsFor other := by
  cases hc : batch.clashes uri edit with
  | true => simp [add, hc]
  | false =>
    by_cases ho : other = uri
    · subst ho
      simp [add, hc, put, editsFor]
    · simp [add, hc, put, editsFor, ho]

/-- No document of the batch is without edits. -/
def Filled (batch : EditBatch) : Prop := ∀ entry ∈ batch.changes.entries, entry.2 ≠ []

theorem filled_empty : empty.Filled := by
  intro entry h
  cases h

theorem Filled.add (h : batch.Filled) (uri : Uri) (edit : TextEdit) :
    (batch.add uri edit).Filled := by
  unfold EditBatch.add
  split
  · exact h
  · intro entry hentry
    rcases UriMap.mem_put hentry with rfl | hold
    · simp
    · exact h entry hold

/-- Ordering a batch keeps its documents. -/
private theorem Filled.entries_normalize (h : batch.Filled) :
    batch.normalize.changes.entries =
      batch.changes.entries.map fun entry => (entry.1, TextEdit.sort entry.2) := by
  apply List.filter_eq_self.mpr
  intro sorted hsorted
  obtain ⟨entry, hentry, rfl⟩ := List.mem_map.mp hsorted
  obtain ⟨edit, hedit⟩ := List.exists_mem_of_ne_nil _ (h entry hentry)
  have hne : TextEdit.sort entry.2 ≠ [] := List.ne_nil_of_mem (TextEdit.mem_sort.mpr hedit)
  simpa using hne

/-- Ordering a batch sorts the edits of each document. A document without edits loses its list,
which leaves it without edits all the same. -/
theorem editsFor_normalize (batch : EditBatch) (uri : Uri) :
    batch.normalize.editsFor uri = TextEdit.sort (batch.editsFor uri) := by
  rw [editsFor, editsFor, normalize, UriMap.get?_filter, UriMap.get?_map]
  cases batch.changes.get? uri with
  | none => rfl
  | some edits =>
    rw [Option.map_some, Option.getD_some]
    cases TextEdit.sort edits with
    | nil => rfl
    | cons e sorted => rfl

/-- No two edits of a document start together. -/
def Separate (batch : EditBatch) : Prop :=
  ∀ uri, ((batch.editsFor uri).map (·.range.start)).Nodup

theorem separate_empty : empty.Separate := by
  intro uri
  exact List.nodup_nil

theorem Separate.add (h : batch.Separate) (uri : Uri) (edit : TextEdit) :
    (batch.add uri edit).Separate := by
  intro other
  rw [editsFor_add]
  split
  · next hcond =>
    obtain ⟨rfl, hclash⟩ := hcond
    rw [List.map_append, List.nodup_append]
    refine ⟨h other, by simp, ?_⟩
    intro start hstart start' hstart' heq
    rw [List.map_singleton, List.mem_singleton] at hstart'
    subst hstart' heq
    obtain ⟨old, hold, hsame⟩ := List.mem_map.mp hstart
    rw [clashes, List.any_eq_false] at hclash
    exact hclash old hold (beq_iff_eq.mpr hsame)
  · exact h other

/-- The batch has edits to the document alone. -/
def OnlyFor (batch : EditBatch) (uri : Uri) : Prop :=
  batch.changes.entries = [] ∨ ∃ edits, batch.changes.entries = [(uri, edits)]

theorem OnlyFor.add (h : batch.OnlyFor uri) (edit : TextEdit) :
    (batch.add uri edit).OnlyFor uri := by
  unfold EditBatch.add
  split
  · exact h
  · right
    rcases h with h | ⟨edits, h⟩ <;> simp [put, UriMap.put, UriMap.putIn, h]

/-! ### Many edits -/

/-- Adds edits one by one. -/
def addEach (batch : EditBatch) (plan : List (Uri × TextEdit)) : EditBatch :=
  plan.foldl (fun batch step => batch.add step.1 step.2) batch

theorem addEach_append (batch : EditBatch) (first second : List (Uri × TextEdit)) :
    batch.addEach (first ++ second) = (batch.addEach first).addEach second :=
  List.foldl_append

theorem Filled.addEach (h : batch.Filled) (plan : List (Uri × TextEdit)) :
    (batch.addEach plan).Filled := by
  induction plan generalizing batch with
  | nil => exact h
  | cons step rest ih => exact ih (h.add step.1 step.2)

theorem Separate.addEach (h : batch.Separate) (plan : List (Uri × TextEdit)) :
    (batch.addEach plan).Separate := by
  induction plan generalizing batch with
  | nil => exact h
  | cons step rest ih => exact ih (h.add step.1 step.2)

theorem OnlyFor.addEach (h : batch.OnlyFor uri) {plan : List (Uri × TextEdit)}
    (hplan : ∀ step ∈ plan, step.1 = uri) : (batch.addEach plan).OnlyFor uri := by
  induction plan generalizing batch with
  | nil => exact h
  | cons step rest ih =>
    cases hplan step List.mem_cons_self
    exact ih (h.add step.2) fun other hother => hplan other (List.mem_cons_of_mem _ hother)

/-- Edits of the batch stay. -/
theorem mem_editsFor_addEach_of_mem (h : edit ∈ batch.editsFor uri) (plan : List (Uri × TextEdit)) :
    edit ∈ (batch.addEach plan).editsFor uri := by
  induction plan generalizing batch with
  | nil => exact h
  | cons step rest ih =>
    apply ih
    rw [editsFor_add]
    split
    · exact List.mem_append_left _ h
    · exact h

/-- An edit of the batch was there before or was added. -/
theorem mem_or_mem_of_mem_addEach {plan : List (Uri × TextEdit)}
    (h : edit ∈ (batch.addEach plan).editsFor uri) :
    edit ∈ batch.editsFor uri ∨ (uri, edit) ∈ plan := by
  induction plan generalizing batch with
  | nil => exact Or.inl h
  | cons step rest ih =>
    rcases ih h with h | h
    · rw [editsFor_add] at h
      split at h
      · next hcond =>
        rcases List.mem_append.mp h with h | h
        · exact Or.inl h
        · right
          rw [List.mem_singleton.mp h, hcond.1]
          exact List.mem_cons_self
      · exact Or.inl h
    · exact Or.inr (List.mem_cons_of_mem _ h)

/-- Where an edit is added, an edit of the batch starts. -/
theorem exists_start_of_mem_plan (batch : EditBatch) {plan : List (Uri × TextEdit)}
    (h : (uri, edit) ∈ plan) :
    ∃ other ∈ (batch.addEach plan).editsFor uri, other.range.start = edit.range.start := by
  induction plan generalizing batch with
  | nil => cases h
  | cons step rest ih =>
    rcases List.mem_cons.mp h with rfl | h
    · have hadded : ∃ other ∈ (batch.add uri edit).editsFor uri,
          other.range.start = edit.range.start := by
        rw [editsFor_add]
        cases hc : batch.clashes uri edit with
        | false => exact ⟨edit, by simp, rfl⟩
        | true =>
          obtain ⟨other, hother, hstart⟩ := List.any_eq_true.mp hc
          exact ⟨other, by simpa using hother, beq_iff_eq.mp hstart⟩
      obtain ⟨other, hother, hstart⟩ := hadded
      exact ⟨other, mem_editsFor_addEach_of_mem hother rest, hstart⟩
    · exact ih (batch.add step.1 step.2) h

/-! ### Batches in order -/

private theorem mem_editsFor_normalize {plan : List (Uri × TextEdit)} :
    edit ∈ (empty.addEach plan).normalize.editsFor uri ↔
      edit ∈ (empty.addEach plan).editsFor uri := by
  rw [editsFor_normalize, TextEdit.mem_sort]

/-- Every edit of a batch was added. -/
theorem mem_plan_of_mem_normalize {plan : List (Uri × TextEdit)}
    (h : edit ∈ (empty.addEach plan).normalize.editsFor uri) : (uri, edit) ∈ plan := by
  apply (mem_or_mem_of_mem_addEach (mem_editsFor_normalize.mp h)).resolve_left
  intro hempty
  cases hempty

/-- Where an edit was added, an edit of the batch in order starts, and it was added no later. -/
theorem exists_start_normalize {first : List (Uri × TextEdit)} (h : (uri, edit) ∈ first)
    (later : List (Uri × TextEdit)) :
    ∃ other ∈ (empty.addEach (first ++ later)).normalize.editsFor uri,
      (uri, other) ∈ first ∧ other.range.start = edit.range.start := by
  obtain ⟨other, hother, hstart⟩ := empty.exists_start_of_mem_plan h
  refine ⟨other, ?_, ?_, hstart⟩
  · apply mem_editsFor_normalize.mpr
    rw [addEach_append]
    exact mem_editsFor_addEach_of_mem hother later
  · apply (mem_or_mem_of_mem_addEach hother).resolve_left
    intro hempty
    cases hempty

/-- In a batch in order, the edits of a document come by their starts, and no two start together. -/
theorem pairwise_editsFor_normalize (plan : List (Uri × TextEdit)) (uri : Uri) :
    ((empty.addEach plan).normalize.editsFor uri).Pairwise TextEdit.StartsBefore := by
  rw [editsFor_normalize]
  exact TextEdit.pairwise_sort (separate_empty.addEach plan uri)

/-- Edits to one document make a batch of one document, with some edit in it. -/
theorem entries_normalize_of_forall {plan : List (Uri × TextEdit)}
    (huri : ∀ step ∈ plan, step.1 = uri) (hne : plan ≠ []) :
    (empty.addEach plan).normalize.changes.entries =
        [(uri, (empty.addEach plan).normalize.editsFor uri)] ∧
      (empty.addEach plan).normalize.editsFor uri ≠ [] := by
  obtain ⟨⟨uri', edit⟩, hstep⟩ := List.exists_mem_of_ne_nil plan hne
  obtain rfl : uri' = uri := huri _ hstep
  obtain ⟨other, hother, -⟩ := empty.exists_start_of_mem_plan hstep
  refine ⟨?_, List.ne_nil_of_mem (mem_editsFor_normalize.mpr hother)⟩
  have hempty : empty.OnlyFor uri' := Or.inl rfl
  rw [editsFor_normalize,
    (filled_empty.addEach plan).entries_normalize]
  rcases hempty.addEach huri with hentries | ⟨edits, hentries⟩
  · simp [editsFor, UriMap.get?, hentries, UriMap.find?] at hother
  · simp [editsFor, UriMap.get?, hentries, UriMap.find?]

end EditBatch

end GroovyIndex
