import GroovyIndex.Proofs.RenamePlan

/-!
# Symbols that keep their names

Symbols of other documents, imports, built-in and synthetic classes are not the user's to rename.
A rename is guarded where it starts and at what it changes; in between a constructor gives way to
its class. A synthetic class is refused by the first guard only, so its constructors lead to it.
-/

namespace GroovyIndex

namespace Kind

/-- The node is a class made by the compiler. -/
def isSyntheticClass : Kind → Bool
  | classDecl _ _ synthetic => synthetic
  | _ => false

end Kind

namespace Snapshot

variable {s : Snapshot}

/-- The node is a class made by the compiler. -/
def isSynthetic (s : Snapshot) (id : NodeId) : Bool :=
  (s.index.get? id).any (·.kind.isSyntheticClass)

/-- What a synthetic class declares is a class. -/
theorem kind_of_isSynthetic {id : NodeId} {d : Definition} (h : s.isSynthetic id = true)
    (hd : s.definitionFor? id = some d) : d.kind = .classDecl := by
  obtain ⟨e, hget, hdef, -⟩ := exists_entry_of_definitionFor? hd
  obtain ⟨-, -, -, hsymbol, -⟩ := definitionOf?_eq_some hdef
  rw [isSynthetic, hget, Option.any_some] at h
  cases hk : e.kind <;> simp [hk, Kind.isSyntheticClass, Kind.symbolKind?] at h hsymbol
  exact hsymbol.symm

end Snapshot

namespace Session

variable {s : Session} {pos : Position} {e : Entry} {found target : Definition}

/-- The symbol is a class made by the compiler. -/
def IsSyntheticClass (s : Session) (d : Definition) : Prop :=
  d.kind = .classDecl ∧ s.snapshot.isSynthetic d.node = true

/-- The symbol is a constructor of a synthetic class. -/
def ConstructsSynthetic (s : Session) (d : Definition) : Prop :=
  d.kind = .constructor ∧ ∃ owner ∈ d.owner, s.snapshot.isSynthetic owner = true

/-! ### The two guards -/

/-- A rename that starts at a class declaration starts at one that the user wrote: no other such
node resolves to a class. -/
theorem not_isSynthetic_of_isRenameable (hchain : s.chain = .standard)
    (he : e ∈ s.snapshot.index.entries) (hstart : s.config.isRenameable e.kind = true)
    (hfound : s.resolve e = .ok found) (hclass : found.kind = .classDecl) :
    s.snapshot.isSynthetic found.node = false := by
  rw [resolve, hchain] at hfound
  rcases Lookup.resolve_standard_eq_ok hfound with ⟨-, hdef⟩ | ⟨-, -, -, -, hrefers⟩
  · have hnode : found.node = e.id := (Snapshot.node_of_definitionFor? hdef).1
    rw [hnode, Snapshot.isSynthetic, Index.get?_of_mem s.snapshot.distinct he, Option.any_some]
    cases hk : e.kind with
    | classDecl name nameRange synthetic =>
      rw [hk, ServiceConfig.isRenameable, Bool.and_eq_true_iff] at hstart
      simpa [Kind.isSyntheticClass] using hstart.1
    | _ => rfl
  · rw [hclass] at hrefers
    cases hk : e.kind <;> simp [hk, Kind.mayReferTo, ServiceConfig.isRenameable] at hrefers hstart

/-- The second guard refuses imports and built-in classes. -/
theorem spared_of_keepsName (h : s.keepsName target = false) :
    target.kind ≠ .importDecl ∧
      (target.kind = .classDecl → target.name ∉ s.config.builtinTypes) := by
  constructor
  · intro hkind
    simp [keepsName, hkind] at h
  · intro hclass hmem
    simp [keepsName, hclass, ServiceConfig.isBuiltinType, hmem] at h

/-- What is renamed in place of a symbol of the document belongs to the document. -/
theorem uri_of_renamedWith (huri : found.uri = s.uri) (h : s.renamedWith found = .ok target) :
    target.uri = s.uri := by
  rcases renamedWith_eq_ok h with ⟨rfl, -⟩ | ⟨owner, -, -, hclass⟩
  · exact huri
  · exact (Snapshot.node_of_definitionFor? hclass).2

/-- The class of a constructor takes its place. -/
theorem definitionFor?_of_renamedWith {owner : NodeId} (hkind : found.kind = .constructor)
    (howner : found.owner = some owner) (h : s.renamedWith found = .ok target) :
    s.snapshot.definitionFor? owner = some target := by
  rcases renamedWith_eq_ok h with ⟨-, hother⟩ | ⟨owner', -, howner', hclass⟩
  · exact absurd howner (hother owner hkind)
  · rw [howner] at howner'
    cases howner'
    exact hclass

/-- A rename changes a synthetic class exactly if it starts at a constructor of such a class. -/
theorem isSyntheticClass_iff_constructsSynthetic (hchain : s.chain = .standard)
    (h : s.renameTarget pos = .ok (e, target)) (hfound : s.resolve e = .ok found) :
    s.IsSyntheticClass target ↔ s.ConstructsSynthetic found := by
  obtain ⟨found', hat, hfound', -, hwith, -, hstart⟩ := renameTarget_eq_ok h
  rw [hfound] at hfound'
  cases hfound'
  have he := (Index.entryAt?_eq_some s.snapshot.distinct hat).1
  constructor
  · rintro ⟨hclass, hsynthetic⟩
    rcases renamedWith_eq_ok hwith with ⟨rfl, -⟩ | ⟨owner, hkind, howner, hdef⟩
    · rw [not_isSynthetic_of_isRenameable hchain he hstart hfound hclass] at hsynthetic
      cases hsynthetic
    · rw [(Snapshot.node_of_definitionFor? hdef).1] at hsynthetic
      exact ⟨hkind, owner, howner, hsynthetic⟩
  · rintro ⟨hkind, owner, howner, hsynthetic⟩
    have hdef := definitionFor?_of_renamedWith hkind howner hwith
    have hclass := Snapshot.kind_of_isSynthetic hsynthetic hdef
    rw [← (Snapshot.node_of_definitionFor? hdef).1] at hsynthetic
    exact ⟨hclass, hsynthetic⟩

/-- A rename changes a symbol of the document, no import, no built-in class, and a synthetic class
only from one of its constructors. -/
theorem rename_spares_protected (s : Session) (hchain : s.chain = .standard) {pos : Position}
    (h : (∃ range, s.prepareRename pos = .ok range) ∨
      ∃ newName batch, s.rename pos newName = .ok batch) :
    ∃ e found target, s.renameTarget pos = .ok (e, target) ∧ s.resolve e = .ok found ∧
      (∀ newName batch, s.rename pos newName = .ok batch →
        batch = (EditBatch.empty.addEach (s.renamePlan target newName)).normalize) ∧
      target.uri = s.uri ∧
      (s.uri ∉ s.auxiliary.map Snapshot.uri →
        s.snapshot.definitionFor? target.node = some target) ∧
      target.kind ≠ .importDecl ∧
      (target.kind = .classDecl → target.name ∉ s.config.builtinTypes) ∧
      (s.IsSyntheticClass target ↔ s.ConstructsSynthetic found) := by
  have hstart : ∃ e target, s.renameTarget pos = .ok (e, target) := by
    rcases h with ⟨range, hprepare⟩ | ⟨newName, batch, hrename⟩
    · obtain ⟨e, target, htarget, -⟩ := prepareRename_eq_ok hprepare
      exact ⟨e, target, htarget⟩
    · obtain ⟨e, target, htarget, -⟩ := rename_eq_ok hrename
      exact ⟨e, target, htarget⟩
  obtain ⟨e, target, htarget⟩ := hstart
  obtain ⟨found, -, hfound, huri, hwith, hkeeps, -⟩ := renameTarget_eq_ok htarget
  obtain ⟨himport, hbuiltin⟩ := spared_of_keepsName hkeeps
  refine ⟨e, found, target, htarget, hfound, ?_, uri_of_renamedWith huri hwith, ?_, himport,
    hbuiltin, isSyntheticClass_iff_constructsSynthetic hchain htarget hfound⟩
  · intro newName batch hrename
    obtain ⟨e', target', htarget', rfl⟩ := rename_eq_ok hrename
    rw [htarget] at htarget'
    cases htarget'
    rfl
  · intro hown
    exact definitionFor?_of_renameTarget hchain hown htarget

/-! ### A constructor of the script's class -/

/-- The synthetic class of a script, with a constructor, a method and a call to the method. -/
private def job : Session where
  snapshot := .ofParsed (.clean ⟨⟨"file:///job.groovy"⟩, 1⟩
    ⟨⟨0⟩, .moduleRoot, none,
      [⟨⟨1⟩, .classDecl "Job" none true, some (.ofCorners 0 0 2 8),
        [⟨⟨2⟩, .call "start" (some (.ofCorners 0 0 0 5)) true, some (.ofCorners 0 0 0 7), []⟩,
         ⟨⟨3⟩, .methodDecl "start" (some (.ofCorners 1 4 1 9)) none false,
          some (.ofCorners 1 0 1 14), []⟩,
         ⟨⟨4⟩, .methodDecl "Job" (some (.ofCorners 2 0 2 3)) none true,
          some (.ofCorners 2 0 2 8), []⟩]⟩]⟩) 0
  auxiliary := []
  chain := .standard
  config := {}

private def jobStart : Definition :=
  ⟨⟨"file:///job.groovy"⟩, ⟨3⟩, "start", .method, .ofCorners 1 0 1 14, .ofCorners 1 4 1 9, none,
    some ⟨1⟩⟩

private def jobClass : Definition :=
  ⟨⟨"file:///job.groovy"⟩, ⟨1⟩, "Job", .classDecl, .ofCorners 0 0 2 8, .ofCorners 0 0 2 8, none,
    none⟩

/-- The edits to the class and its constructor; the class spans the script. -/
private def jobEdits : EditBatch :=
  EditBatch.empty.put ⟨"file:///job.groovy"⟩
    [⟨.ofCorners 0 0 2 8, "Task"⟩, ⟨.ofCorners 2 0 2 3, "Task"⟩]

/-- A rename at the call changes the method; one at the constructor changes the synthetic class,
which spans the script. -/
theorem rename_spares_protected_job :
    job.chain = .standard ∧ job.prepareRename ⟨0, 2⟩ = .ok (.ofCorners 0 0 0 5) ∧
    (∃ e, job.renameTarget ⟨0, 2⟩ = .ok (e, jobStart)) ∧ ¬ job.IsSyntheticClass jobStart ∧
    job.rename ⟨2, 1⟩ "Task" = .ok jobEdits ∧
    (∃ e, job.renameTarget ⟨2, 1⟩ = .ok (e, jobClass)) ∧ job.IsSyntheticClass jobClass := by
  have hprepare : job.prepareRename ⟨0, 2⟩ = .ok (.ofCorners 0 0 0 5) := rfl
  have hrename : job.rename ⟨2, 1⟩ "Task" = .ok jobEdits := rfl
  refine ⟨rfl, hprepare, ⟨_, rfl⟩, ?_, hrename, ⟨_, rfl⟩, ?_⟩
  · obtain ⟨_, _, _, htarget, hfound, -, -, -, -, -, hsynthetic⟩ :=
      rename_spares_protected job rfl (Or.inl ⟨_, hprepare⟩)
    cases htarget
    cases hfound
    intro hclass
    cases (hsynthetic.mp hclass).1
  · obtain ⟨_, _, _, htarget, hfound, -, -, -, -, -, hsynthetic⟩ :=
      rename_spares_protected job rfl (Or.inr ⟨_, _, hrename⟩)
    cases htarget
    cases hfound
    exact hsynthetic.mpr ⟨rfl, ⟨1⟩, rfl, rfl⟩

/-- It is not so that a rename never changes a synthetic class. -/
theorem not_forall_rename_spares_synthetic :
    ¬ ∀ (s : Session) (pos : Position) (newName : String) (range : Range) (batch : EditBatch)
      (e : Entry) (target : Definition), s.chain = .standard → s.prepareRename pos = .ok range →
        s.rename pos newName = .ok batch → s.renameTarget pos = .ok (e, target) →
          ¬ s.IsSyntheticClass target := by
  intro h
  exact h job ⟨2, 1⟩ "Task" _ _ _ jobClass rfl rfl rfl rfl ⟨rfl, rfl⟩

end Session

end GroovyIndex
