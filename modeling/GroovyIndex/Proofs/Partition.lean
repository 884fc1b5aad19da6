import GroovyIndex.Proofs.RenamePlan

/-!
# Symbols partition their occurrences

All that a definition says is read off its declaring node, on every way that leads there. So all
occurrences of a symbol are asked about the same definition: they have the same references,
highlights and edits. For a rename a constructor and its class count as one symbol.
-/

namespace GroovyIndex

namespace Session

variable {s : Session} {p q : Position} {d₁ d₂ : Definition}

/-- A rename changes what stands for the symbol at the position, which is one of the document. -/
theorem renamedWith_of_renameTarget {e : Entry} {target : Definition} (hd : s.resolveAt p = .ok d₁)
    (h : s.renameTarget p = .ok (e, target)) : d₁.uri = s.uri ∧ s.renamedWith d₁ = .ok target := by
  obtain ⟨e', hat', hresolve⟩ := resolveAt_eq_ok hd
  obtain ⟨found, hat, hfound, huri, hwith, -⟩ := renameTarget_eq_ok h
  rw [hat'] at hat
  cases hat
  rw [hresolve] at hfound
  cases hfound
  exact ⟨huri, hwith⟩

/-- Where the same symbol stands for what two positions resolve to, renames make the same edits. -/
theorem rename_eq_of_renamedWith {newName : String} {batch₁ batch₂ : EditBatch}
    (h₁ : s.resolveAt p = .ok d₁) (h₂ : s.resolveAt q = .ok d₂)
    (hwith : d₁.uri = s.uri → d₂.uri = s.uri → s.renamedWith d₁ = s.renamedWith d₂)
    (hb₁ : s.rename p newName = .ok batch₁) (hb₂ : s.rename q newName = .ok batch₂) :
    batch₁ = batch₂ := by
  obtain ⟨e₁, target₁, htarget₁, rfl⟩ := rename_eq_ok hb₁
  obtain ⟨e₂, target₂, htarget₂, rfl⟩ := rename_eq_ok hb₂
  obtain ⟨huri₁, hwith₁⟩ := renamedWith_of_renameTarget h₁ htarget₁
  obtain ⟨huri₂, hwith₂⟩ := renamedWith_of_renameTarget h₂ htarget₂
  have htargets : target₁ = target₂ := by
    have hsame := hwith huri₁ huri₂
    rw [hwith₁, hwith₂] at hsame
    exact Except.ok.inj hsame
  rw [htargets]

namespace Standard

variable (hs : s.Standard)
include hs

/-- A symbol of the document has its declaring node there, which resolves to it. -/
theorem exists_declaring_of_resolve {e : Entry} (h : s.resolve e = .ok d₁) (huri : d₁.uri = s.uri) :
    ∃ declaring ∈ s.snapshot.index.entries, declaring.id = d₁.node ∧
      s.resolve declaring = .ok d₁ := by
  have hdef := hs.definitionFor?_of_resolve h huri
  obtain ⟨declaring, hmem, hid, -, hresolve⟩ := exists_resolve_of_definitionFor? hs.chain hdef
  exact ⟨declaring, hmem, hid, hresolve⟩

/-- The class of a constructor stands for both. -/
theorem renamedWith_eq_of_owner {e₁ e₂ : Entry} (h₁ : s.resolve e₁ = .ok d₁)
    (h₂ : s.resolve e₂ = .ok d₂) (huri₁ : d₁.uri = s.uri) (huri₂ : d₂.uri = s.uri)
    (hkind : d₁.kind = .constructor) (howner : d₁.owner = some d₂.node) :
    s.renamedWith d₁ = s.renamedWith d₂ := by
  have hdef₁ := hs.definitionFor?_of_resolve h₁ huri₁
  have hdef₂ := hs.definitionFor?_of_resolve h₂ huri₂
  have hclass : d₂.kind = .classDecl := Snapshot.kind_of_owner hdef₁ howner hdef₂
  simp only [renamedWith, hkind, howner, hdef₂, hclass]

end Standard

/-- Occurrences of one symbol have the same definition, references, highlights and edits; a
constructor and its class have the same edits. -/
theorem occurrences_agree (s : Session) (hs : s.Standard) :
    (∀ e₁ ∈ s.snapshot.index.entries, ∀ e₂ ∈ s.snapshot.index.entries, ∀ d₁ d₂,
      s.resolve e₁ = .ok d₁ → s.resolve e₂ = .ok d₂ → d₁.sameSymbol d₂ = true → d₁ = d₂) ∧
    (∀ e ∈ s.snapshot.index.entries, ∀ d, s.resolve e = .ok d → d.uri = s.uri →
      ∃ declaring ∈ s.snapshot.index.entries, declaring.id = d.node ∧
        s.resolve declaring = .ok d) ∧
    (∀ p q d₁ d₂, s.resolveAt p = .ok d₁ → s.resolveAt q = .ok d₂ →
      (d₁.sameSymbol d₂ = true →
        (∀ withDeclaration, ∃ references, s.referencesAt p withDeclaration = .ok references ∧
          s.referencesAt q withDeclaration = .ok references) ∧
        (∃ highlights, s.highlightsAt p = .ok highlights ∧ s.highlightsAt q = .ok highlights)) ∧
      (d₁.sameSymbol d₂ = true ∨ d₁.kind = .constructor ∧ d₁.owner = some d₂.node →
        ∀ newName batch₁ batch₂, s.rename p newName = .ok batch₁ →
          s.rename q newName = .ok batch₂ → batch₁ = batch₂)) := by
  refine ⟨?_, ?_, ?_⟩
  · intro e₁ _ e₂ _ d₁ d₂ h₁ h₂ hsame
    exact eq_of_sameSymbol hs.chain hs.uris h₂ h₁ hsame
  · intro e _ d h huri
    exact hs.exists_declaring_of_resolve h huri
  · intro p q d₁ d₂ h₁ h₂
    obtain ⟨e₁, -, hresolve₁⟩ := resolveAt_eq_ok h₁
    obtain ⟨e₂, -, hresolve₂⟩ := resolveAt_eq_ok h₂
    constructor
    · intro hsame
      cases eq_of_sameSymbol hs.chain hs.uris hresolve₂ hresolve₁ hsame
      refine ⟨fun withDeclaration => ?_, ?_⟩
      · refine ⟨s.referencesTo d₁ withDeclaration, ?_, ?_⟩
        · rw [referencesAt, h₁]
        · rw [referencesAt, h₂]
      · simp only [highlightsAt, referencesAt, h₁, h₂]
        exact ⟨_, rfl, rfl⟩
    · intro hsame newName batch₁ batch₂ hb₁ hb₂
      refine rename_eq_of_renamedWith h₁ h₂ ?_ hb₁ hb₂
      intro huri₁ huri₂
      rcases hsame with hsame | ⟨hkind, howner⟩
      · rw [eq_of_sameSymbol hs.chain hs.uris hresolve₂ hresolve₁ hsame]
      · exact hs.renamedWith_eq_of_owner hresolve₁ hresolve₂ huri₁ huri₂ hkind howner

/-- A class with a property, and a constructor that sets it. -/
private def torch : Session where
  snapshot := .ofParsed (.clean ⟨⟨"file:///torch.groovy"⟩, 1⟩
    ⟨⟨0⟩, .moduleRoot, none,
      [⟨⟨1⟩, .classDecl "Torch" (some (.ofCorners 0 6 0 11)) false, some (.ofCorners 0 0 3 1),
        [⟨⟨2⟩, .propertyDecl "lit" (some (.ofCorners 1 10 1 13)) (some "boolean"),
          some (.ofCorners 1 2 1 13), []⟩,
         ⟨⟨3⟩, .methodDecl "Torch" (some (.ofCorners 2 2 2 7)) none true,
          some (.ofCorners 2 2 2 30),
          [⟨⟨4⟩, .propertyRef "lit" (some (.ofCorners 2 17 2 20)), some (.ofCorners 2 12 2 20),
            [⟨⟨5⟩, .variableRef "this", some (.ofCorners 2 12 2 16), []⟩]⟩]⟩]⟩]⟩) 0
  auxiliary := []
  chain := .standard
  config := {}

private def torchEdits : EditBatch :=
  EditBatch.empty.put ⟨"file:///torch.groovy"⟩
    [⟨.ofCorners 0 6 0 11, "Lamp"⟩, ⟨.ofCorners 2 2 2 7, "Lamp"⟩]

/-- The property and the access to it have the same references, the class and its constructor the
same edits. -/
theorem occurrences_agree_torch :
    torch.Standard ∧
    (∃ d, torch.resolveAt ⟨1, 11⟩ = .ok d ∧ torch.resolveAt ⟨2, 18⟩ = .ok d) ∧
    (∃ references, torch.referencesAt ⟨1, 11⟩ true = .ok references ∧
      torch.referencesAt ⟨2, 18⟩ true = .ok references) ∧
    torch.rename ⟨2, 3⟩ "Lamp" = .ok torchEdits ∧
    ∃ batch, torch.rename ⟨0, 7⟩ "Lamp" = .ok batch ∧ torchEdits = batch := by
  have hs : torch.Standard := ⟨rfl, by decide⟩
  have hagree := (occurrences_agree torch hs).2.2
  refine ⟨hs, ⟨_, rfl, rfl⟩, ?_, rfl, ⟨_, rfl, ?_⟩⟩
  · exact ((hagree ⟨1, 11⟩ ⟨2, 18⟩ _ _ rfl rfl).1 (by decide)).1 true
  · exact (hagree ⟨2, 3⟩ ⟨0, 7⟩ _ _ rfl rfl).2 (Or.inr ⟨rfl, rfl⟩) "Lamp" _ _ rfl rfl

end Session

end GroovyIndex
