import GroovyIndex.Proofs.RenamePlan

/-!
# Where a rename starts

A rename is prepared and carried out from the same symbol, which always has an occurrence to edit.
So it fails exactly where it cannot be prepared. The identifier at the position is edited as well,
with one exception: a call that resolves to a constructor, whose class is renamed without the
calls.
-/

namespace GroovyIndex

namespace Session

variable {s : Session} {pos : Position} {e : Entry} {target : Definition} {newName : String}

/-! ### Preparing a rename -/

/-- The symbol that a rename changes is that of a node: the one at the position, or its class. -/
private theorem exists_resolve_of_renameTarget (hchain : s.chain = .standard)
    (h : s.renameTarget pos = .ok (e, target)) :
    ∃ x ∈ s.snapshot.index.entries, s.resolve x = .ok target ∧
      ∃ range, x.nameRange? = some range := by
  obtain ⟨found, hat, hfound, -, hwith, -⟩ := renameTarget_eq_ok h
  rcases renamedWith_eq_ok hwith with ⟨rfl, -⟩ | ⟨owner, -, -, hclass⟩
  · have he := (Index.entryAt?_eq_some s.snapshot.distinct hat).1
    exact ⟨e, he, hfound, exists_nameRange?_of_entryAt? hat⟩
  · obtain ⟨x, hx, -, hdef, hresolve⟩ := exists_resolve_of_definitionFor? hchain hclass
    obtain ⟨-, -, -, -, -, hplaced, -⟩ := Snapshot.definitionOf?_eq_some hdef
    obtain ⟨range, hrange⟩ := Option.isSome_iff_exists.mp hplaced
    exact ⟨x, hx, hresolve, Entry.exists_nameRange? hrange⟩

/-- The symbol that a rename changes has an occurrence. -/
theorem referencesTo_ne_nil (hchain : s.chain = .standard)
    (h : s.renameTarget pos = .ok (e, target)) : s.referencesTo target true ≠ [] := by
  obtain ⟨x, hx, hresolve, range, hrange⟩ := exists_resolve_of_renameTarget hchain h
  have hkey := key_mem_referencesTo_of_resolve hchain hx hresolve hrange
  intro hnil
  rw [hnil] at hkey
  cases hkey

private theorem prepareRename_of_error {error : QueryError}
    (h : s.renameTarget pos = .error error) :
    s.prepareRename pos = .error error := by
  rw [prepareRename, h]
  rfl

private theorem prepareRename_of_ok (h : s.renameTarget pos = .ok (e, target)) :
    ∃ range, e.nameRange? = some range ∧ s.prepareRename pos = .ok range := by
  obtain ⟨-, hat, -⟩ := renameTarget_eq_ok h
  obtain ⟨range, hrange⟩ := exists_nameRange?_of_entryAt? hat
  refine ⟨range, hrange, ?_⟩
  simp only [prepareRename, h, bind, Except.bind, hrange]

private theorem rename_of_error (hvalid : Identifier.isValid newName = true) {error : QueryError}
    (h : s.renameTarget pos = .error error) : s.rename pos newName = .error error := by
  rw [rename_of_isValid hvalid, h]
  rfl

private theorem rename_of_ok (hchain : s.chain = .standard)
    (hvalid : Identifier.isValid newName = true) (h : s.renameTarget pos = .ok (e, target)) :
    s.rename pos newName =
      .ok (EditBatch.empty.addEach (s.renamePlan target newName)).normalize := by
  rw [rename_of_isValid hvalid, h]
  exact if_neg (by simpa using referencesTo_ne_nil hchain h)

/-- A rename to an identifier succeeds exactly where it can be prepared, else it fails for
the same reason. -/
theorem rename_agrees_with_prepareRename (s : Session) (hchain : s.chain = .standard)
    (pos : Position) (newName : String) :
    (Identifier.isValid newName = true →
      ((∃ batch, s.rename pos newName = .ok batch) ↔ ∃ range, s.prepareRename pos = .ok range) ∧
      ∀ error, s.rename pos newName = .error error ↔ s.prepareRename pos = .error error) ∧
    (∀ e target, s.renameTarget pos = .ok (e, target) → s.referencesTo target true ≠ []) ∧
    (Identifier.isValid newName = false →
      s.rename pos newName = .error (.invalidIdentifier newName)) := by
  refine ⟨?_, fun _ _ htarget => referencesTo_ne_nil hchain htarget, ?_⟩
  · intro hvalid
    cases h : s.renameTarget pos with
    | error error => simp [prepareRename_of_error h, rename_of_error hvalid h]
    | ok start =>
      obtain ⟨range, -, hprepare⟩ := prepareRename_of_ok h
      simp [hprepare, rename_of_ok hchain hvalid h]
  · intro hinvalid
    exact rename_of_not_isValid hinvalid pos

/-! ### The identifier at the position -/

/-- The node is a call that resolves to a constructor of a class. -/
def CallsClassConstructor (s : Session) (e : Entry) : Prop :=
  ∃ name range implicitThis d, e.kind = .call name range implicitThis ∧ s.resolve e = .ok d ∧
    d.kind = .constructor ∧ d.owner.isSome = true

/-- A node that does not call a constructor gets a name from the rename that starts there. -/
private theorem exists_gets_of_renameTarget (hchain : s.chain = .standard)
    (h : s.renameTarget pos = .ok (e, target)) (hnot : ¬ s.CallsClassConstructor e) :
    ∃ name, s.Gets target newName e name := by
  obtain ⟨found, hat, hfound, -, hwith, -⟩ := renameTarget_eq_ok h
  rcases renamedWith_eq_ok hwith with ⟨rfl, -⟩ | ⟨owner, hkind, howner, hclass⟩
  · exact ⟨newName, .occurrence hfound⟩
  · have hresolve := hfound
    rw [resolve, hchain] at hresolve
    rcases Lookup.resolve_standard_eq_ok hresolve with ⟨-, hdef⟩ | ⟨-, -, -, -, hrefers⟩
    · -- The node is the constructor, so it is listed with those of the class.
      obtain ⟨m, hm, rfl⟩ := Snapshot.exists_mem_methods_of_definitionFor? hdef (Or.inr hkind)
      have htarget : target.kind = .classDecl := Snapshot.kind_of_owner hdef howner hclass
      have hnode : target.node = owner := (Snapshot.node_of_definitionFor? hclass).1
      have hconstructor : m.isConstructor = true := by
        cases hc : m.isConstructor <;> simp [MethodDecl.definition, hc] at hkind ⊢
      have hmem : m ∈ s.snapshot.declarations.constructorsOf target.node := by
        apply List.mem_filter.mpr
        have howner' : m.owner = some owner := howner
        simp [hm, MethodDecl.constructs, hconstructor, howner', hnode]
      exact ⟨newName, .constructor htarget hmem (Snapshot.node_of_definitionFor? hdef).1.symm⟩
    · -- Of the nodes that do not declare, only calls refer to constructors.
      rw [hkind] at hrefers
      cases hk : e.kind with
      | call name range implicitThis =>
        exact absurd ⟨name, range, implicitThis, found, hk, hfound, hkind, by simp [howner]⟩ hnot
      | _ => simp [hk, Kind.mayReferTo] at hrefers

/-- A call to a constructor gets no name from the rename that starts there. -/
private theorem not_gets_of_callsClassConstructor (hs : s.Standard)
    (h : s.renameTarget pos = .ok (e, target)) (hcalls : s.CallsClassConstructor e)
    {name : String} :
    ¬ s.Gets target newName e name := by
  obtain ⟨found, hat, hfound, huri, hwith, -⟩ := renameTarget_eq_ok h
  have he := (Index.entryAt?_eq_some s.snapshot.distinct hat).1
  obtain ⟨_, _, _, d, hk, hd, hkind, howned⟩ := hcalls
  rw [hfound] at hd
  cases hd
  have htarget : target.kind = .classDecl := by
    rcases renamedWith_eq_ok hwith with ⟨-, hother⟩ | ⟨owner, -, howner, hclass⟩
    · obtain ⟨owner, howner⟩ := Option.isSome_iff_exists.mp howned
      exact absurd howner (hother owner hkind)
    · exact Snapshot.kind_of_owner (hs.definitionFor?_of_resolve hfound huri) howner hclass
  intro hgets
  cases hgets with
  | occurrence hoccurs =>
    rw [hfound] at hoccurs
    cases hoccurs
    rw [hkind] at htarget
    cases htarget
  | constructor _ hm hid =>
    obtain ⟨e', he', hid', -, hdecl⟩ := exists_entry_of_mem_methods (List.mem_filter.mp hm).1
    rw [← Index.eq_of_id_eq s.snapshot.distinct he he' (hid.trans hid'.symm), hk] at hdecl
    cases hdecl
  | accessor _ hfield =>
    rw [htarget] at hfield
    cases hfield

/-- A rename edits the identifier at which it was prepared, unless that is a call to a constructor
of a class. -/
theorem rename_edits_prepared (s : Session) (hchain : s.chain = .standard) {pos : Position}
    {newName : String} {range : Range} {batch : EditBatch}
    (hprepare : s.prepareRename pos = .ok range) (hrename : s.rename pos newName = .ok batch) :
    ∃ e, s.snapshot.index.entryAt? pos = some e ∧ e.nameRange? = some range ∧
      (¬ s.CallsClassConstructor e →
        ∃ edit ∈ batch.editsFor s.uri, edit.range.start = range.start) ∧
      (s.CallsClassConstructor e → s.DistinctUris → ∀ edit ∈ batch.editsFor s.uri,
        ∃ other ∈ s.snapshot.index.entries, other ≠ e ∧ other.nameRange? = some edit.range) := by
  obtain ⟨e, target, htarget, rfl⟩ := rename_eq_ok hrename
  obtain ⟨found, hat, -, huri, hwith, -⟩ := renameTarget_eq_ok htarget
  obtain ⟨range', hrange, hprepare'⟩ := prepareRename_of_ok htarget
  rw [hprepare] at hprepare'
  cases hprepare'
  have he := (Index.entryAt?_eq_some s.snapshot.distinct hat).1
  refine ⟨e, hat, hrange, ?_, ?_⟩
  · intro hnot
    obtain ⟨name, hgets⟩ := exists_gets_of_renameTarget hchain htarget hnot
    have hdoc : target.uri = s.uri := by
      rcases renamedWith_eq_ok hwith with ⟨rfl, -⟩ | ⟨owner, -, -, hclass⟩
      · exact huri
      · exact (Snapshot.node_of_definitionFor? hclass).2
    obtain ⟨edit, hedit, hstart, -⟩ := exists_mem_renameEdits_of_gets hchain hdoc hgets he hrange
    exact ⟨edit, hedit, hstart⟩
  · intro hcalls huris edit hedit
    have hs : s.Standard := ⟨hchain, huris⟩
    have hdeclared := (hs.declared_of_renameTarget htarget).1
    obtain ⟨other, hother, hgets, hrange'⟩ := hs.exists_gets_of_mem_renameEdits hdeclared hedit
    refine ⟨other, hother, ?_, hrange'⟩
    rintro rfl
    exact not_gets_of_callsClassConstructor hs htarget hcalls hgets

/-! ### A call to a constructor -/

/-- A class with a constructor, and a method that calls it. -/
private def widget : Session where
  snapshot := .ofParsed (.clean ⟨⟨"file:///widget.groovy"⟩, 1⟩
    ⟨⟨0⟩, .moduleRoot, some (.ofCorners 0 0 4 0),
      [⟨⟨1⟩, .classDecl "Widget" (some (.ofCorners 0 6 0 12)) false, some (.ofCorners 0 0 3 1),
        [⟨⟨2⟩, .methodDecl "Widget" (some (.ofCorners 1 2 1 8)) none true,
          some (.ofCorners 1 2 1 13), []⟩,
         ⟨⟨3⟩, .methodDecl "copy" (some (.ofCorners 2 6 2 10)) none false,
          some (.ofCorners 2 2 2 25),
          [⟨⟨4⟩, .call "Widget" (some (.ofCorners 2 15 2 21)) true, some (.ofCorners 2 15 2 23),
            []⟩]⟩]⟩]⟩) 0
  auxiliary := []
  chain := .standard
  config := {}

private def widgetCall : Entry :=
  ⟨⟨4⟩, .call "Widget" (some (.ofCorners 2 15 2 21)) true, some (.ofCorners 2 15 2 23), [],
    [⟨3⟩, ⟨1⟩, ⟨0⟩]⟩

/-- The edits to the class and its constructor. -/
private def widgetEdits : EditBatch :=
  EditBatch.empty.put ⟨"file:///widget.groovy"⟩
    [⟨.ofCorners 0 6 0 12, "Gadget"⟩, ⟨.ofCorners 1 2 1 8, "Gadget"⟩]

private theorem prepareRename_call : widget.prepareRename ⟨2, 16⟩ = .ok (.ofCorners 2 15 2 21) := by
  rfl

private theorem rename_call : widget.rename ⟨2, 16⟩ "Gadget" = .ok widgetEdits := by
  rfl

/-- The call can be prepared for a rename, and so be renamed to an identifier, but
to nothing else. -/
theorem rename_agrees_with_prepareRename_widget :
    widget.chain = .standard ∧ widget.prepareRename ⟨2, 16⟩ = .ok (.ofCorners 2 15 2 21) ∧
    (∃ batch, widget.rename ⟨2, 16⟩ "Gadget" = .ok batch) ∧
    widget.rename ⟨2, 16⟩ "while" = .error (.invalidIdentifier "while") ∧
    widget.rename ⟨7, 0⟩ "Gadget" = .error .invalidPosition := by
  refine ⟨rfl, prepareRename_call, ?_, ?_, ?_⟩
  · have hsame := (rename_agrees_with_prepareRename widget rfl ⟨2, 16⟩ "Gadget").1 (by decide)
    exact hsame.1.mpr ⟨_, prepareRename_call⟩
  · exact (rename_agrees_with_prepareRename widget rfl ⟨2, 16⟩ "while").2.2 (by decide)
  · have hsame := (rename_agrees_with_prepareRename widget rfl ⟨7, 0⟩ "Gadget").1 (by decide)
    exact (hsame.2 _).mpr rfl

/-- A rename at the constructor edits the constructor. The same rename at the call edits
other nodes only. -/
theorem rename_edits_prepared_widget :
    widget.chain = .standard ∧ widget.prepareRename ⟨1, 3⟩ = .ok (.ofCorners 1 2 1 8) ∧
    widget.rename ⟨1, 3⟩ "Gadget" = .ok widgetEdits ∧
    (∃ edit ∈ widgetEdits.editsFor widget.uri, edit.range.start = ⟨1, 2⟩) ∧
    widget.rename ⟨2, 16⟩ "Gadget" = .ok widgetEdits ∧ widget.CallsClassConstructor widgetCall ∧
    ∀ edit ∈ widgetEdits.editsFor widget.uri, ∃ other ∈ widget.snapshot.index.entries,
      other ≠ widgetCall ∧ other.nameRange? = some edit.range := by
  have hprepare : widget.prepareRename ⟨1, 3⟩ = .ok (.ofCorners 1 2 1 8) := rfl
  have hrename : widget.rename ⟨1, 3⟩ "Gadget" = .ok widgetEdits := rfl
  have hcalls : widget.CallsClassConstructor widgetCall := ⟨_, _, _, _, rfl, rfl, rfl, rfl⟩
  refine ⟨rfl, hprepare, hrename, ?_, rename_call, hcalls, ?_⟩
  · obtain ⟨e, hat, -, hedits, -⟩ := rename_edits_prepared widget rfl hprepare hrename
    apply hedits
    rintro ⟨name, range, implicitThis, d, hk, -⟩
    cases hat
    cases hk
  · obtain ⟨e, hat, -, -, hothers⟩ :=
      rename_edits_prepared widget rfl prepareRename_call rename_call
    cases hat
    exact hothers hcalls (by decide)

/-- It is not so that a rename always edits the identifier at which it was prepared. -/
theorem not_forall_rename_edits_prepared :
    ¬ ∀ (s : Session) (pos : Position) (newName : String) (range : Range) (batch : EditBatch),
      s.chain = .standard → s.prepareRename pos = .ok range → s.rename pos newName = .ok batch →
        ∃ edit ∈ batch.editsFor s.uri, edit.range.start = range.start := by
  intro h
  have hedited := h widget ⟨2, 16⟩ "Gadget" _ _ rfl prepareRename_call rename_call
  exact absurd hedited (by decide)

end Session

end GroovyIndex
