import GroovyIndex.Proofs.Occurrences

/-!
# A definition is its own definition

An editor jumps to where the identifier of a definition starts. Asking there again gives the same
definition, if siblings share no position, not even an end, and identifiers of declarations keep
clear of the placed nodes below: the way down meets the declaring node and cannot go on.
-/

namespace GroovyIndex

namespace Range

/-- Some position is in both ranges. -/
def Meets (a b : Range) : Prop := ∃ pos, a.contains pos = true ∧ b.contains pos = true

/-- Ranges meet exactly if neither is inverted and each starts before the other is over. -/
theorem meets_iff {a b : Range} :
    a.Meets b ↔ a.start ≤ a.stop ∧ b.start ≤ b.stop ∧ a.start ≤ b.stop ∧ b.start ≤ a.stop := by
  simp only [Meets, contains_iff]
  constructor
  · rintro ⟨pos, ⟨ha, ha'⟩, hb, hb'⟩
    exact ⟨Position.le_trans ha ha', Position.le_trans hb hb', Position.le_trans ha hb',
      Position.le_trans hb ha'⟩
  · rintro ⟨ha, hb, hab, hba⟩
    -- They meet where the later one starts.
    rcases Position.le_total a.start b.start with h | h
    · exact ⟨b.start, ⟨h, hba⟩, Position.le_refl _, hb⟩
    · exact ⟨a.start, ⟨Position.le_refl _, ha⟩, h, hab⟩

instance (a b : Range) : Decidable (a.Meets b) := decidable_of_iff' _ meets_iff

theorem Meets.symm {a b : Range} (h : a.Meets b) : b.Meets a := by
  obtain ⟨pos, ha, hb⟩ := h
  exact ⟨pos, hb, ha⟩

end Range

/-- The entries share no position. -/
def Entry.ClearOf (a b : Entry) : Prop := ∀ r ∈ a.range, ∀ s ∈ b.range, ¬ r.Meets s

instance (a b : Entry) : Decidable (a.ClearOf b) :=
  inferInstanceAs (Decidable (∀ r ∈ a.range, ∀ s ∈ b.range, ¬ r.Meets s))

instance : Std.Symm Entry.ClearOf := ⟨fun _ _ h s hs r hr hmeets => h r hr s hs hmeets.symm⟩

namespace Index

/-- Placed nodes lie inside their placed parents, the root apart, and siblings share no position.
The identifier of a declaration lies inside it and shares none with a placed child. -/
structure SetApart (idx : Index) : Prop where
  nests : idx.Nests
  siblings : ∀ p ∈ idx.entries, p = idx.root ∨ p.range.isSome →
    (idx.placedChildren p).Pairwise Entry.ClearOf
  identifiers : ∀ e ∈ idx.entries, idx.declares e → ∀ r ∈ e.range, ∀ i ∈ e.nameRange?,
    i.isInverted = false ∧ r.containsRange i ∧
      ∀ c ∈ idx.placedChildren e, ∀ s ∈ c.range, ¬ i.Meets s

variable {idx : Index}

namespace SetApart

variable (h : idx.SetApart)
include h

/-- Two placed siblings around one position are one node. -/
theorem eq_of_contains {p a b : Entry} {pos : Position} (hp : p ∈ idx.entries)
    (hbase : p = idx.root ∨ p.range.isSome = true) (ha : a ∈ idx.placedChildren p)
    (hb : b ∈ idx.placedChildren p) (hac : a.contains pos = true) (hbc : b.contains pos = true) :
    a = b := by
  by_contra hne
  obtain ⟨r, hr, hrc⟩ := Entry.contains_iff.mp hac
  obtain ⟨s, hs, hsc⟩ := Entry.contains_iff.mp hbc
  exact (h.siblings p hp hbase).forall ha hb hne r hr s hs ⟨pos, hrc, hsc⟩

/-- A position is contested for no node around it. -/
theorem uncontested (hd : idx.Distinct) {n : Entry} {pos : Position} (hn : n ∈ idx.entries)
    (hc : n.contains pos = true) : idx.Uncontested pos n := by
  intro m hm hmne hmsome habove sibling hsibling hne
  obtain ⟨r, hr, hrc⟩ := Entry.contains_iff.mp hc
  obtain ⟨s, hs⟩ := Option.isSome_iff_exists.mp hmsome
  -- The node at or above `n` is around the position too, so its sibling is not.
  have hmc : m.contains pos = true := by
    have hsr := h.nests.containsRange_of_above hd hm hmne hn hs hr habove
    exact Entry.contains_iff.mpr ⟨s, hs, Range.contains_of_containsRange hsr hrc⟩
  rw [Bool.eq_false_iff]
  intro hsc
  obtain ⟨hp, hbase⟩ := idx.placedParent_isBase m
  have hself := mem_placedChildren_placedParent hm hmne hmsome
  exact hne (h.eq_of_contains hp hbase hsibling hself hsc hmc)

/-- The way down to a position has a start, if some node is around the position. -/
theorem exists_locate? (hd : idx.Distinct) (hup : idx.Upright) {n : Entry} {pos : Position}
    (hn : n ∈ idx.entries) (hne : n ≠ idx.root) (hc : n.contains pos = true) :
    ∃ x, idx.tree.locate? pos = some x := by
  refine h.nests.exists_locate? hd hn hne hc ?_
  intro a ha b hb r hr s hs hrc hle hstart
  -- Where the second starts, both are; so they are one node.
  have hbmem := (List.mem_filter.mp hb).1
  have hrs : a.contains s.start = true :=
    Entry.contains_iff.mpr ⟨r, hr, Range.contains_iff.mpr
      ⟨hle, Position.le_trans hstart (Range.contains_iff.mp hrc).2⟩⟩
  have hss : b.contains s.start = true :=
    Entry.contains_iff.mpr ⟨s, hs, Range.contains_iff.mpr
      ⟨Position.le_refl _, hup b hbmem s hs⟩⟩
  have hab := h.eq_of_contains idx.root_mem (Or.inl rfl) ha hb hrs hss
  rw [hab, Option.mem_def, hs] at hr
  cases hr
  exact hrc

/-- A node around a position is found there if no placed child of it is around the position. -/
theorem entryAt?_eq (hd : idx.Distinct) (hup : idx.Upright) {n : Entry} {pos : Position}
    (hn : n ∈ idx.entries) (hne : n ≠ idx.root) (hc : n.contains pos = true)
    (hchildren : ∀ c ∈ idx.placedChildren n, c.contains pos = false) :
    idx.entryAt? pos = some n := by
  obtain ⟨found, hfound, hwhere⟩ := h.nests.entryAt?_of_uncontested hd hn hne hc
    (h.uncontested hd hn hc) (h.exists_locate? hd hup hn hne hc)
  rcases hwhere with rfl | hbelow
  · exact hfound
  · obtain ⟨hmem, -, hfc⟩ := entryAt?_eq_some hd hfound
    obtain ⟨r, hr, -⟩ := Entry.contains_iff.mp hc
    have hplaced : n.range.isSome = true := by rw [hr]; rfl
    obtain ⟨c, hcmem, hcc⟩ :=
      h.nests.exists_placedChild_around hd hn (Or.inr hplaced) hmem hbelow hfc
    rw [hchildren c hcmem] at hcc
    cases hcc

/-- A placed declaration is the node at the start of its identifier. -/
theorem entryAt?_start_of_declares (hd : idx.Distinct) (hup : idx.Upright) {e : Entry} {i : Range}
    (he : e ∈ idx.entries) (hne : e ≠ idx.root) (hdecl : idx.declares e = true)
    (hplaced : e.range.isSome = true) (hi : e.nameRange? = some i) :
    idx.entryAt? i.start = some e := by
  obtain ⟨r, hr⟩ := Option.isSome_iff_exists.mp hplaced
  obtain ⟨hupright, hinside, hclear⟩ := h.identifiers e he hdecl r hr i hi
  have hstart : i.contains i.start = true :=
    Range.contains_iff.mpr ⟨Position.le_refl _, Range.isInverted_eq_false_iff.mp hupright⟩
  apply h.entryAt?_eq hd hup he hne
  · exact Entry.contains_iff.mpr ⟨r, hr, Range.contains_of_containsRange hinside hstart⟩
  · intro c hc
    rw [Bool.eq_false_iff]
    intro hcc
    obtain ⟨s, hs, hsc⟩ := Entry.contains_iff.mp hcc
    exact hclear c hc s hs ⟨i.start, hstart, hsc⟩

end SetApart

end Index

namespace Session

variable {s : Session}

/-- The root of a document declares nothing. -/
private theorem ne_root_of_definitionOf? {s : Snapshot} {e : Entry} {d : Definition}
    (hroot : s.index.root.kind = .moduleRoot) (h : s.definitionOf? e = some d) :
    e ≠ s.index.root := by
  rintro rfl
  obtain ⟨-, -, -, hkind, -⟩ := Snapshot.definitionOf?_eq_some h
  rw [hroot] at hkind
  cases hkind

/-- Where placed nodes are set apart, asking again at the start of a definition's identifier gives
the same definition. -/
theorem resolveAt_selection (s : Session) (hchain : s.chain = .standard)
    (hown : s.uri ∉ s.auxiliary.map Snapshot.uri)
    (hroot : s.snapshot.index.root.kind = .moduleRoot) (hapart : s.snapshot.index.SetApart)
    (p : Position) (d : Definition) (h : s.resolveAt p = .ok d) (huri : d.uri = s.uri) :
    s.resolveAt d.selectionRange.start = .ok d := by
  obtain ⟨e, -, hresolve⟩ := resolveAt_eq_ok h
  have hdef := definitionFor?_of_resolve hchain hown hresolve huri
  obtain ⟨declaring, hmem, -, hdefOf, hself⟩ := exists_resolve_of_definitionFor? hchain hdef
  obtain ⟨hdecl, -, -, -, -, hplaced, -⟩ := Snapshot.definitionOf?_eq_some hdefOf
  have hat : s.snapshot.index.entryAt? d.selectionRange.start = some declaring :=
    hapart.entryAt?_start_of_declares s.snapshot.distinct s.snapshot.upright hmem
      (ne_root_of_definitionOf? hroot hdefOf) hdecl hplaced
      (Snapshot.nameRange?_of_definitionOf? hdefOf)
  simp only [resolveAt, entryAt, hat]
  exact hself

/-- A method that takes the side of a square and keeps twice the side in a variable, and another
document with a method of its own. -/
private def square : Session where
  snapshot := .ofParsed (.clean ⟨⟨"file:///square.groovy"⟩, 1⟩
    ⟨⟨0⟩, .moduleRoot, none,
      [⟨⟨1⟩, .methodDecl "area" (some (.ofCorners 0 4 0 8)) none false, some (.ofCorners 0 0 3 1),
        [⟨⟨2⟩, .parameter "side" (some (.ofCorners 0 13 0 17)) (some "int") false,
          some (.ofCorners 0 9 0 17), []⟩,
         ⟨⟨3⟩, .block, some (.ofCorners 0 19 3 1),
          [⟨⟨4⟩, .declaration none, some (.ofCorners 1 2 1 25),
            [⟨⟨5⟩, .variableRef "twice", some (.ofCorners 1 6 1 11), []⟩,
             ⟨⟨6⟩, .binary "+", some (.ofCorners 1 14 1 25),
              [⟨⟨7⟩, .variableRef "side", some (.ofCorners 1 14 1 18), []⟩,
               ⟨⟨8⟩, .variableRef "side", some (.ofCorners 1 21 1 25), []⟩]⟩]⟩,
           ⟨⟨9⟩, .expressionStatement, none,
            [⟨⟨10⟩, .binary "*", some (.ofCorners 2 2 2 14),
              [⟨⟨11⟩, .variableRef "twice", some (.ofCorners 2 2 2 7), []⟩,
               ⟨⟨12⟩, .variableRef "side", some (.ofCorners 2 10 2 14), []⟩]⟩]⟩]⟩]⟩]⟩) 0
  auxiliary := [.ofParsed (.clean ⟨⟨"file:///circle.groovy"⟩, 1⟩
    ⟨⟨0⟩, .moduleRoot, none,
      [⟨⟨1⟩, .methodDecl "area" none none false, some (.ofCorners 0 0 0 12), []⟩]⟩) 1]
  chain := .standard
  config := {}

private theorem setApart_square : square.snapshot.index.SetApart where
  nests := by decide
  siblings := by decide
  identifiers := by decide

/-- The variable and the parameter that the last line uses are found again where
they are declared. -/
theorem resolveAt_selection_square :
    square.snapshot.index.SetApart ∧
    (∃ twice, square.resolveAt ⟨2, 3⟩ = .ok twice ∧ twice.selectionRange.start = ⟨1, 6⟩ ∧
      square.resolveAt twice.selectionRange.start = .ok twice) ∧
    ∃ side, square.resolveAt ⟨2, 11⟩ = .ok side ∧ side.selectionRange.start = ⟨0, 13⟩ ∧
      square.resolveAt side.selectionRange.start = .ok side := by
  have hapart := setApart_square
  have hagain := resolveAt_selection square rfl (by decide) rfl hapart
  refine ⟨hapart, ⟨_, rfl, rfl, ?_⟩, ⟨_, rfl, rfl, ?_⟩⟩
  · exact hagain ⟨2, 3⟩ _ rfl rfl
  · exact hagain ⟨2, 11⟩ _ rfl rfl

end Session

end GroovyIndex
