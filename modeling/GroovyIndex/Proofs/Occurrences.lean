import GroovyIndex.Proofs.Innermost
import GroovyIndex.Proofs.Resolution
import GroovyIndex.Query.Occurrences

/-!
# Occurrences are complete

The search for occurrences asks only nodes of the symbol's name and the declaring node. Nothing is
lost by that: with the standard chain, and documents of different names, every node that resolves
to the symbol passes the test. So what is found is fixed by resolution alone.
-/

namespace GroovyIndex

/-! ### First members by key -/

section FirstPerKey

variable {α β : Type} [DecidableEq β] {key : α → β}

/-- The keys of the first members are distinct. -/
theorem nodup_map_firstPerKey (key : α → β) (xs : List α) :
    ((firstPerKey key xs).map key).Nodup := by
  induction xs with
  | nil => exact List.nodup_nil
  | cons x rest ih =>
    rw [firstPerKey, List.map_cons, List.nodup_cons]
    constructor
    · intro h
      obtain ⟨y, hy, hkey⟩ := List.mem_map.mp h
      have hne := (List.mem_filter.mp hy).2
      simp [hkey] at hne
    · exact ih.sublist (List.filter_sublist.map key)

/-- The keys of the first members are those of the list. -/
theorem mem_map_firstPerKey {xs : List α} {k : β} :
    k ∈ (firstPerKey key xs).map key ↔ k ∈ xs.map key := by
  constructor
  · intro h
    obtain ⟨x, hx, rfl⟩ := List.mem_map.mp h
    exact List.mem_map_of_mem (mem_of_mem_firstPerKey hx)
  · intro h
    obtain ⟨x, hx, rfl⟩ := List.mem_map.mp h
    obtain ⟨first, hfirst, hkey⟩ := exists_mem_firstPerKey key hx
    rw [← hkey]
    exact List.mem_map_of_mem hfirst

end FirstPerKey

namespace Session

variable {s : Session}

/-- The documents that a session can see have different names. -/
def DistinctUris (s : Session) : Prop := (s.uri :: s.auxiliary.map Snapshot.uri).Nodup

instance (s : Session) : Decidable s.DistinctUris :=
  inferInstanceAs (Decidable (s.uri :: s.auxiliary.map Snapshot.uri).Nodup)

/-- The node resolves to the symbol, and the key is that of its identifier. No name is compared. -/
def OccursAt (s : Session) (target : Definition) (e : Entry) (key : Uri × Position) : Prop :=
  (∃ d, s.resolve e = .ok d ∧ d.sameSymbol target) ∧
    ∃ range ∈ e.nameRange?, key = (s.uri, range.start)

/-! ### The name test -/

/-- What a session resolves a node to is declared in one of the documents that it can see. -/
theorem exists_owning_of_resolve (hchain : s.chain = .standard) {e : Entry} {d : Definition}
    (h : s.resolve e = .ok d) :
    ∃ owning ∈ s.snapshot :: s.auxiliary, owning.definitionFor? d.node = some d := by
  rw [resolve, hchain] at h
  rcases Lookup.resolve_standard_eq_ok h with ⟨-, hdef⟩ | ⟨owning, hmem, hdef, -⟩
  · refine ⟨s.snapshot, List.mem_cons_self, ?_⟩
    rw [(Snapshot.node_of_definitionFor? hdef).1]
    exact hdef
  · exact ⟨owning, hmem, hdef⟩

/-- What a node resolves to, if it has the name of the document and no auxiliary document has it, is
declared there. -/
theorem definitionFor?_of_resolve (hchain : s.chain = .standard)
    (hown : s.uri ∉ s.auxiliary.map Snapshot.uri) {e : Entry} {d : Definition}
    (h : s.resolve e = .ok d) (huri : d.uri = s.uri) :
    s.snapshot.definitionFor? d.node = some d := by
  obtain ⟨owning, hmem, hdef⟩ := exists_owning_of_resolve hchain h
  rcases List.mem_cons.mp hmem with rfl | hmem
  · exact hdef
  · have hsame : owning.uri = s.uri := by rw [← (Snapshot.node_of_definitionFor? hdef).2, huri]
    exact absurd (List.mem_map.mpr ⟨owning, hmem, hsame⟩) hown

/-- Where documents have different names, two nodes that resolve to one symbol resolve
to one definition. -/
theorem eq_of_sameSymbol (hchain : s.chain = .standard) (huris : s.DistinctUris) {e₀ e : Entry}
    {target d : Definition} (htarget : s.resolve e₀ = .ok target) (hd : s.resolve e = .ok d)
    (hsame : d.sameSymbol target = true) : d = target := by
  obtain ⟨a, ha, hdef⟩ := exists_owning_of_resolve hchain hd
  obtain ⟨b, hb, htargetDef⟩ := exists_owning_of_resolve hchain htarget
  simp only [Definition.sameSymbol, Bool.and_eq_true, beq_iff_eq] at hsame
  have huri : a.uri = b.uri := by
    rw [← (Snapshot.node_of_definitionFor? hdef).2, hsame.2,
      (Snapshot.node_of_definitionFor? htargetDef).2]
  have hab : a = b := by
    have hnodup : ((s.snapshot :: s.auxiliary).map Snapshot.uri).Nodup := huris
    exact List.inj_on_of_nodup_map hnodup ha hb huri
  rw [hab, hsame.1, htargetDef] at hdef
  exact (Option.some.inj hdef).symm

/-- The node of a definition resolves to it. -/
theorem exists_resolve_of_definitionFor? (hchain : s.chain = .standard) {id : NodeId}
    {d : Definition} (h : s.snapshot.definitionFor? id = some d) :
    ∃ e ∈ s.snapshot.index.entries, e.id = id ∧ s.snapshot.definitionOf? e = some d ∧
      s.resolve e = .ok d := by
  obtain ⟨e, hget, hdef, rfl⟩ := Snapshot.exists_entry_of_definitionFor? h
  have he := (Index.mem_of_get? hget).1
  refine ⟨e, he, rfl, hdef, ?_⟩
  rw [resolve, hchain]
  exact Lookup.resolve_standard_of_definitionFor? he h

/-- A node passes the name test for the symbol that it resolves to. -/
private theorem isCandidate_of_resolve (hchain : s.chain = .standard) {e : Entry} {d : Definition}
    (h : s.resolve e = .ok d) : s.isCandidate d e = true := by
  rw [resolve, hchain] at h
  rcases Lookup.resolve_standard_eq_ok h with ⟨-, hdef⟩ | ⟨-, -, -, hname, -⟩
  · -- The node declares: then it is the declaring node of the symbol.
    obtain ⟨hnode, huri⟩ := Snapshot.node_of_definitionFor? hdef
    have hdoc : d.uri = s.uri := huri
    simp [isCandidate, hnode, hdoc]
  · simp [isCandidate, hname]

/-- Every node that resolves to the symbol passes the name test. -/
private theorem isCandidate_of_refersTo (hchain : s.chain = .standard) (huris : s.DistinctUris)
    {e₀ e : Entry} {target d : Definition} (htarget : s.resolve e₀ = .ok target)
    (hd : s.resolve e = .ok d) (hsame : d.sameSymbol target = true) :
    s.isCandidate target e = true := by
  cases eq_of_sameSymbol hchain huris htarget hd hsame
  exact isCandidate_of_resolve hchain hd

/-- Every node that resolves to the symbol and has an identifier is an occurrence, and no other. -/
private theorem occurrence?_eq_some_iff (hchain : s.chain = .standard) (huris : s.DistinctUris)
    {e₀ e : Entry} {target : Definition} {r : Reference} (htarget : s.resolve e₀ = .ok target) :
    s.occurrence? target e = some r ↔
      (∃ d, s.resolve e = .ok d ∧ d.sameSymbol target) ∧
        ∃ range ∈ e.nameRange?, r = ⟨⟨s.uri, range⟩, s.snapshot.index.declares e⟩ := by
  have hrefers : s.refersTo target e = true ↔ ∃ d, s.resolve e = .ok d ∧ d.sameSymbol target := by
    unfold refersTo
    split
    · next d hd => simp [hd]
    · next error herror => simp [herror]
  rw [occurrence?, ← hrefers]
  constructor
  · intro h
    split at h
    · next hcond =>
      obtain ⟨range, hrange, hr⟩ := Option.map_eq_some_iff.mp h
      exact ⟨(Bool.and_eq_true_iff.mp hcond).2, range, hrange, hr.symm⟩
    · cases h
  · rintro ⟨href, range, hrange, rfl⟩
    obtain ⟨d, hd, hsame⟩ := hrefers.mp href
    have hcandidate := isCandidate_of_refersTo hchain huris htarget hd hsame
    rw [Option.mem_def] at hrange
    simp [hcandidate, href, hrange]

/-! ### The keys that are found -/

/-- A symbol comes from another document exactly if an auxiliary document has its name. -/
private theorem uri_mem_auxiliary_iff (hchain : s.chain = .standard) (huris : s.DistinctUris)
    {e₀ : Entry} {target : Definition} (htarget : s.resolve e₀ = .ok target) :
    target.uri ∈ s.auxiliary.map Snapshot.uri ↔ target.uri ≠ s.uri := by
  obtain ⟨hnot, -⟩ := List.nodup_cons.mp huris
  constructor
  · intro hmem heq
    rw [heq] at hmem
    exact hnot hmem
  · intro hne
    obtain ⟨home, hhome, hdef⟩ := exists_owning_of_resolve hchain htarget
    have huri := (Snapshot.node_of_definitionFor? hdef).2
    rcases List.mem_cons.mp hhome with rfl | hhome
    · exact absurd huri hne
    · exact List.mem_map.mpr ⟨home, hhome, huri.symm⟩

private theorem key_mem_referencesTo {target : Definition} {withDeclaration : Bool}
    {key : Uri × Position} :
    key ∈ (s.referencesTo target withDeclaration).map Reference.key ↔
      ∃ r, (r ∈ s.foreignDeclaration target ∨
          ∃ e ∈ s.snapshot.index.entries, s.occurrence? target e = some r) ∧
        (withDeclaration || !r.isDeclaration) = true ∧ r.key = key := by
  rw [referencesTo, mem_map_firstPerKey, List.mem_map]
  simp only [List.mem_filter, List.mem_append, List.mem_filterMap, and_assoc]

/-- The search for what a node resolves to finds the node. -/
theorem key_mem_referencesTo_of_resolve (hchain : s.chain = .standard) {e : Entry} {d : Definition}
    {range : Range} (he : e ∈ s.snapshot.index.entries) (h : s.resolve e = .ok d)
    (hrange : e.nameRange? = some range) :
    (s.uri, range.start) ∈ (s.referencesTo d true).map Reference.key := by
  have hrefers : s.refersTo d e = true := by simp [refersTo, h, Definition.sameSymbol]
  have hoccurrence : s.occurrence? d e = some ⟨⟨s.uri, range⟩, s.snapshot.index.declares e⟩ := by
    simp [occurrence?, isCandidate_of_resolve hchain h, hrefers, hrange]
  exact key_mem_referencesTo.mpr ⟨_, Or.inr ⟨e, he, hoccurrence⟩, rfl, rfl⟩

/-- What the search finds within the document is a node that resolves to the symbol,
at its identifier. -/
theorem exists_of_mem_referencesTo (hchain : s.chain = .standard) (huris : s.DistinctUris)
    {e₀ : Entry} {target : Definition} (htarget : s.resolve e₀ = .ok target)
    (huri : target.uri = s.uri) {withDeclaration : Bool} {r : Reference}
    (h : r ∈ s.referencesTo target withDeclaration) :
    r.location.uri = s.uri ∧ ∃ e ∈ s.snapshot.index.entries, s.resolve e = .ok target ∧
      e.nameRange? = some r.location.range := by
  have hmem := (List.mem_filter.mp (mem_of_mem_firstPerKey h)).1
  rw [foreignDeclaration, if_pos huri, List.nil_append] at hmem
  obtain ⟨e, he, hocc⟩ := List.mem_filterMap.mp hmem
  obtain ⟨⟨d, hd, hsame⟩, range, hrange, rfl⟩ :=
    (occurrence?_eq_some_iff hchain huris htarget).mp hocc
  rw [eq_of_sameSymbol hchain huris htarget hd hsame] at hd
  exact ⟨rfl, e, he, hd, hrange⟩

/-- With declarations the search finds the identifiers of the nodes that resolve to the symbol, and
its declaration in another document. -/
theorem key_mem_referencesTo_true (hchain : s.chain = .standard) (huris : s.DistinctUris)
    {e₀ : Entry} {target : Definition} (htarget : s.resolve e₀ = .ok target)
    (key : Uri × Position) :
    key ∈ (s.referencesTo target true).map Reference.key ↔
      (∃ e ∈ s.snapshot.index.entries, s.OccursAt target e key) ∨
        target.uri ∈ s.auxiliary.map Snapshot.uri ∧
          key = (target.uri, target.selectionRange.start) := by
  rw [key_mem_referencesTo, uri_mem_auxiliary_iff hchain huris htarget]
  constructor
  · rintro ⟨r, hr | ⟨e, he, hocc⟩, -, rfl⟩
    · right
      unfold foreignDeclaration at hr
      split at hr
      · cases hr
      · next hne =>
        rw [List.mem_singleton.mp hr]
        exact ⟨hne, rfl⟩
    · left
      obtain ⟨hrefers, range, hrange, rfl⟩ := (occurrence?_eq_some_iff hchain huris htarget).mp hocc
      exact ⟨e, he, hrefers, range, hrange, rfl⟩
  · rintro (⟨e, he, hrefers, range, hrange, rfl⟩ | ⟨hne, rfl⟩)
    · refine ⟨⟨⟨s.uri, range⟩, s.snapshot.index.declares e⟩, Or.inr ⟨e, he, ?_⟩, rfl, rfl⟩
      exact (occurrence?_eq_some_iff hchain huris htarget).mpr ⟨hrefers, range, hrange, rfl⟩
    · refine ⟨⟨target.location, true⟩, Or.inl ?_, rfl, rfl⟩
      rw [foreignDeclaration, if_neg hne]
      exact List.mem_singleton_self _

/-- A node declares exactly if it is of a declaring kind or the variable of a statement. -/
private theorem declares_eq_false_iff {idx : Index} {e : Entry} :
    idx.declares e = false ↔
      e.kind.isDeclaration = false ∧ (idx.declaringStatement? e.id).isSome = false := by
  cases hk : e.kind.isDeclaration <;> simp [Index.declares, Index.declarer?, hk]

private theorem key_mem_referencesTo_false (hchain : s.chain = .standard) (huris : s.DistinctUris)
    {e₀ : Entry} {target : Definition} (htarget : s.resolve e₀ = .ok target)
    (key : Uri × Position) :
    key ∈ (s.referencesTo target false).map Reference.key ↔
      ∃ e ∈ s.snapshot.index.entries, s.OccursAt target e key ∧ e.kind.isDeclaration = false ∧
        (s.snapshot.index.declaringStatement? e.id).isSome = false := by
  rw [key_mem_referencesTo]
  constructor
  · rintro ⟨r, hr | ⟨e, he, hocc⟩, hdecl, rfl⟩
    · unfold foreignDeclaration at hr
      split at hr
      · cases hr
      · rw [List.mem_singleton.mp hr] at hdecl
        cases hdecl
    · obtain ⟨hrefers, range, hrange, rfl⟩ := (occurrence?_eq_some_iff hchain huris htarget).mp hocc
      have hnot : s.snapshot.index.declares e = false := by simpa using hdecl
      exact ⟨e, he, ⟨hrefers, range, hrange, rfl⟩, declares_eq_false_iff.mp hnot⟩
  · rintro ⟨e, he, ⟨hrefers, range, hrange, rfl⟩, hnot⟩
    refine ⟨⟨⟨s.uri, range⟩, s.snapshot.index.declares e⟩, Or.inr ⟨e, he, ?_⟩, ?_, rfl⟩
    · exact (occurrence?_eq_some_iff hchain huris htarget).mpr ⟨hrefers, range, hrange, rfl⟩
    · simp [declares_eq_false_iff.mpr hnot]

/-- The node at a position has an identifier. -/
theorem exists_nameRange?_of_entryAt? {pos : Position} {e : Entry}
    (h : s.snapshot.index.entryAt? pos = some e) : ∃ range, e.nameRange? = some range := by
  obtain ⟨-, -, hcontains⟩ := Index.entryAt?_eq_some s.snapshot.distinct h
  obtain ⟨range, hrange, -⟩ := Entry.contains_iff.mp hcontains
  exact Entry.exists_nameRange? hrange

/-- What a position resolves to is what the node there resolves to. -/
theorem resolveAt_eq_ok {pos : Position} {target : Definition}
    (h : s.resolveAt pos = .ok target) :
    ∃ e, s.snapshot.index.entryAt? pos = some e ∧ s.resolve e = .ok target := by
  unfold resolveAt entryAt at h
  split at h
  · next e he => exact ⟨e, he, h⟩
  · cases h

/-- The search by name finds the identifiers of all nodes that resolve to the symbol,
and each once. -/
theorem referencesTo_complete (s : Session) (hchain : s.chain = .standard)
    (huris : s.DistinctUris) :
    (∀ e₀ ∈ s.snapshot.index.entries, ∀ target, s.resolve e₀ = .ok target →
      (∀ withDeclaration, ((s.referencesTo target withDeclaration).map Reference.key).Nodup) ∧
      (∀ key, key ∈ (s.referencesTo target true).map Reference.key ↔
        (∃ e ∈ s.snapshot.index.entries, s.OccursAt target e key) ∨
          target.uri ∈ s.auxiliary.map Snapshot.uri ∧
            key = (target.uri, target.selectionRange.start)) ∧
      (∀ key, key ∈ (s.referencesTo target false).map Reference.key ↔
        ∃ e ∈ s.snapshot.index.entries, s.OccursAt target e key ∧ e.kind.isDeclaration = false ∧
          (s.snapshot.index.declaringStatement? e.id).isSome = false)) ∧
    (∀ pos target, s.resolveAt pos = .ok target →
      ∃ e range references, s.snapshot.index.entryAt? pos = some e ∧ e.nameRange? = some range ∧
        s.referencesAt pos true = .ok references ∧
        (s.uri, range.start) ∈ references.map Reference.key) := by
  constructor
  · intro e₀ _ target htarget
    refine ⟨?_, ?_, ?_⟩
    · intro withDeclaration
      exact nodup_map_firstPerKey _ _
    · exact key_mem_referencesTo_true hchain huris htarget
    · exact key_mem_referencesTo_false hchain huris htarget
  · intro pos target h
    obtain ⟨e, he, hresolve⟩ := resolveAt_eq_ok h
    obtain ⟨range, hrange⟩ := exists_nameRange?_of_entryAt? he
    refine ⟨e, range, s.referencesTo target true, he, hrange, by rw [referencesAt, h], ?_⟩
    rw [key_mem_referencesTo_true hchain huris hresolve]
    have hmem := (Index.entryAt?_eq_some s.snapshot.distinct he).1
    have hsame : target.sameSymbol target = true := by simp [Definition.sameSymbol]
    exact Or.inl ⟨e, hmem, ⟨target, hresolve, hsame⟩, range, hrange, rfl⟩

/-- The document creates an instance of a class that an auxiliary document declares. -/
private def creating : Session where
  snapshot := .ofParsed (.clean ⟨⟨"file:///main.groovy"⟩, 1⟩
    ⟨⟨0⟩, .moduleRoot, none,
      [⟨⟨1⟩, .constructorCall "Item" (some (.ofCorners 0 4 0 8)), some (.ofCorners 0 0 0 10),
        []⟩]⟩) 0
  auxiliary := [.ofParsed (.clean ⟨⟨"file:///item.groovy"⟩, 1⟩
    ⟨⟨0⟩, .moduleRoot, none,
      [⟨⟨1⟩, .classDecl "Item" (some (.ofCorners 2 6 2 10)) false, some (.ofCorners 2 0 3 1),
        []⟩]⟩) 1]
  chain := .standard
  config := {}

private def creation : Entry :=
  ⟨⟨1⟩, .constructorCall "Item" (some (.ofCorners 0 4 0 8)), some (.ofCorners 0 0 0 10), [], [⟨0⟩]⟩

private def foreignItem : Definition :=
  ⟨⟨"file:///item.groovy"⟩, ⟨1⟩, "Item", .classDecl, .ofCorners 2 0 3 1, .ofCorners 2 6 2 10, none,
    none⟩

private theorem resolve_creation : creating.resolve creation = .ok foreignItem := by
  rfl

/-- The class of the other document and its one instance creation are found. -/
theorem referencesTo_complete_creating :
    creating.DistinctUris ∧ creating.resolve creation = .ok foreignItem ∧
    (⟨"file:///item.groovy"⟩, ⟨2, 6⟩) ∈ (creating.referencesTo foreignItem true).map Reference.key ∧
    (⟨"file:///main.groovy"⟩, ⟨0, 4⟩) ∈
      (creating.referencesTo foreignItem false).map Reference.key := by
  have huris : creating.DistinctUris := by decide
  have hmem : creation ∈ creating.snapshot.index.entries := by decide
  obtain ⟨-, hwith, hwithout⟩ :=
    (referencesTo_complete creating rfl huris).1 creation hmem foreignItem resolve_creation
  refine ⟨huris, resolve_creation, ?_, ?_⟩
  · exact (hwith _).mpr (Or.inr ⟨by decide, rfl⟩)
  · refine (hwithout _).mpr ⟨creation, hmem, ?_, rfl, by decide⟩
    exact ⟨⟨foreignItem, resolve_creation, by decide⟩, .ofCorners 0 4 0 8, rfl, rfl⟩

end Session

end GroovyIndex
