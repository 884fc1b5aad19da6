import GroovyIndex.Proofs.RenamePlan
import GroovyIndex.Service

/-!
# Failures of the service

A computation is quiet if all it can fail with says "nothing here". Quietness passes from the
strategies of a chain to every question that a session answers, a refused new name apart. The
service turns quiet failures into empty answers, so only stale documents and wrong names are
errors.
-/

namespace GroovyIndex

/-- The computation fails, if it does, with a cause that only says "nothing here". -/
def Quiet {α : Type} (result : Except QueryError α) : Prop :=
  ∀ error, result = .error error → error.isEmptyResult = true

section Quiet

variable {α β : Type}

theorem quiet_ok (a : α) : Quiet (.ok a) := by
  intro error h
  cases h

theorem quiet_error {error : QueryError} (h : error.isEmptyResult = true) :
    Quiet (.error error : Except QueryError α) := by
  intro other heq
  cases heq
  exact h

/-- Quiet steps in a row are quiet. -/
theorem Quiet.bind {first : Except QueryError α} {next : α → Except QueryError β}
    (h : Quiet first) (hnext : ∀ a, Quiet (next a)) : Quiet (first >>= next) := by
  cases first with
  | error error => exact quiet_error (h error rfl)
  | ok a => exact hnext a

/-- A quiet failure is settled as the absence of an answer. -/
theorem Quiet.settle_eq {result : Except QueryError α} (h : Quiet result) :
    settle result = .ok result.toOption := by
  cases result with
  | error error => simp [settle, h error rfl, Except.toOption]
  | ok a => rfl

end Quiet

/-! ### Chains of strategies -/

namespace Strategy

/-- The failures of the strategy only say "nothing here". -/
def IsQuiet (s : Strategy) : Prop :=
  ∀ l error, s.attempt l = .notFound error → error.isEmptyResult = true

end Strategy

/-- What is looked up in vain is reported by a quiet failure. -/
private theorem isEmptyResult_of_ofOption {found : Option Definition} {error : QueryError}
    (h : Outcome.ofOption found = .notFound error) : error.isEmptyResult = true := by
  cases found with
  | none =>
    cases h
    rfl
  | some definition => cases h

namespace Strategy

theorem isQuiet_auxiliary : auxiliary.IsQuiet := by
  intro l error h
  change l.elsewhere = .notFound error at h
  unfold Lookup.elsewhere at h
  split at h
  · cases h
  · split at h
    · split at h
      · cases h
      · exact isEmptyResult_of_ofOption h
    · split at h
      · cases h
      · exact isEmptyResult_of_ofOption h
    · split at h
      · cases h
      · exact isEmptyResult_of_ofOption h
    · cases h

theorem isQuiet_lexical : lexical.IsQuiet := by
  intro l error h
  change l.lexical = .notFound error at h
  unfold Lookup.lexical at h
  split at h
  · exact isEmptyResult_of_ofOption h
  · cases h

end Strategy

namespace Chain

/-- A run of quiet strategies is quiet, if the failure that it carries along is. -/
theorem quiet_run (l : Lookup) {strategies : List Strategy} (h : ∀ s ∈ strategies, s.IsQuiet)
    {pending : Option QueryError} (hpending : ∀ error ∈ pending, error.isEmptyResult = true) :
    Quiet (run l pending strategies) := by
  induction strategies generalizing pending with
  | nil =>
    rw [run]
    cases pending with
    | none => exact quiet_error rfl
    | some error => exact quiet_error (hpending error rfl)
  | cons s rest ih =>
    obtain ⟨hs, hrest⟩ := List.forall_mem_cons.mp h
    rw [run]
    cases hattempt : s.attempt l with
    | found definition => exact quiet_ok definition
    | notApplicable => exact ih hrest hpending
    | notFound error =>
      have herror := hs l error hattempt
      by_cases hterminal : s.isTerminal = true
      · simp only [hterminal, if_true]
        exact quiet_error herror
      · simp only [hterminal]
        apply ih hrest
        rintro _ ⟨⟩
        exact herror

/-- The strategies of the chain are quiet ones in front of the standard chain. -/
def Extends (chain : Chain) : Prop :=
  ∃ extra : List Strategy, (∀ s ∈ extra, s.IsQuiet) ∧
    chain.strategies = extra ++ standard.strategies

/-- Quiet strategies in front of the standard chain leave it quiet. -/
theorem Extends.quiet_resolve {chain : Chain} (h : chain.Extends) (l : Lookup) :
    Quiet (chain.resolve l) := by
  obtain ⟨extra, hextra, heq⟩ := h
  rw [resolve, heq]
  apply quiet_run
  · intro s hs
    simp only [standard, List.mem_append, List.mem_cons, List.not_mem_nil, or_false] at hs
    rcases hs with hs | rfl | rfl
    · exact hextra s hs
    · exact Strategy.isQuiet_auxiliary
    · exact Strategy.isQuiet_lexical
  · simp

end Chain

/-! ### Questions to a session -/

namespace Session

variable {s : Session}

theorem quiet_entryAt (pos : Position) : Quiet (s.entryAt pos) := by
  unfold entryAt
  split
  · exact quiet_ok _
  · exact quiet_error rfl

theorem quiet_resolveAt (h : s.chain.Extends) (pos : Position) : Quiet (s.resolveAt pos) :=
  (quiet_entryAt pos).bind fun _ => h.quiet_resolve _

theorem quiet_definitionAt (h : s.chain.Extends) (pos : Position) : Quiet (s.definitionAt pos) :=
  (quiet_resolveAt h pos).bind fun _ => quiet_ok _

-- Whatever the chain fails with, a search for occurrences reports one of two quiet causes.
theorem quiet_referencesAt (pos : Position) (withDeclaration : Bool) :
    Quiet (s.referencesAt pos withDeclaration) := by
  unfold referencesAt
  split
  · exact quiet_ok _
  · exact quiet_error rfl
  · exact quiet_error rfl

theorem quiet_highlightsAt (pos : Position) : Quiet (s.highlightsAt pos) :=
  (quiet_referencesAt pos true).bind fun _ => quiet_ok _

theorem quiet_renamedWith (target : Definition) : Quiet (s.renamedWith target) := by
  unfold renamedWith
  split
  · split
    · exact quiet_ok _
    · exact quiet_error rfl
  · exact quiet_ok _

theorem quiet_renameTarget (h : s.chain.Extends) (pos : Position) : Quiet (s.renameTarget pos) := by
  apply (quiet_entryAt pos).bind
  intro e
  split
  · apply (h.quiet_resolve _).bind
    intro found
    split
    · apply (quiet_renamedWith found).bind
      intro target
      split
      · exact quiet_error rfl
      · exact quiet_ok _
    · exact quiet_error rfl
  · exact quiet_error rfl

theorem quiet_prepareRename (h : s.chain.Extends) (pos : Position) :
    Quiet (s.prepareRename pos) := by
  apply (quiet_renameTarget h pos).bind
  rintro ⟨e, -⟩
  simp only
  split
  · exact quiet_ok _
  · exact quiet_error rfl

/-- A rename to an identifier is quiet. -/
theorem quiet_rename (h : s.chain.Extends) {newName : String}
    (hvalid : Identifier.isValid newName = true) (pos : Position) :
    Quiet (s.rename pos newName) := by
  rw [rename_of_isValid hvalid]
  apply (quiet_renameTarget h pos).bind
  intro start
  split
  · exact quiet_error rfl
  · exact quiet_ok _

theorem quiet_signatureHelp (h : s.chain.Extends) (pos : Position) :
    Quiet (s.signatureHelp pos) := by
  apply (quiet_entryAt pos).bind
  intro e
  split
  · apply (h.quiet_resolve _).bind
    intro target
    split
    · split
      · exact quiet_ok _
      · exact quiet_error rfl
    · exact quiet_error rfl
  · exact quiet_error rfl

end Session

/-! ### Answers of the service -/

namespace Service

/-- A document has a session exactly if it has a snapshot. -/
theorem session_eq (v : Service) (uri : Uri) (auxiliary : List Snapshot) :
    v.session uri auxiliary =
      match v.store.documents.get? uri with
      | some snapshot => .ok ⟨snapshot, auxiliary, v.chain, v.config⟩
      | none => .error (.staleIndex uri.text) := by
  unfold session Store.snapshot
  cases v.store.documents.get? uri <;> rfl

/-- The answer comes from a session on the document. It is an error exactly if the document has no
snapshot, and the error says so. -/
structure AnswersFrom {α : Type} (v : Service) (uri : Uri) (answer : Except QueryError α)
    (value : Session → α) : Prop where
  error_iff : ∀ error, answer = .error error ↔
    v.store.documents.get? uri = none ∧ error = .staleIndex uri.text
  ok : ∀ s, v.session uri [] = .ok s → answer = .ok (value s)

/-- What every session with the service's chain can answer fails only for want of a session. -/
theorem answersFrom {α : Type} {v : Service} {uri : Uri} {ask : Session → Except QueryError α}
    {value : Session → α} (h : ∀ s, s.chain = v.chain → ask s = .ok (value s)) :
    v.AnswersFrom uri (v.session uri [] >>= ask) value := by
  rw [session_eq]
  cases hget : v.store.documents.get? uri with
  | none =>
    constructor
    · intro error
      change Except.error (.staleIndex uri.text) = Except.error error ↔ _
      simp [hget, eq_comm]
    · intro s hs
      simp [session_eq, hget] at hs
  | some snapshot =>
    have hask := h ⟨snapshot, [], v.chain, v.config⟩ rfl
    constructor
    · intro error
      change ask ⟨snapshot, [], v.chain, v.config⟩ = .error error ↔ _
      simp [hget, hask]
    · intro s hs
      simp only [session_eq, hget, Except.ok.injEq] at hs
      subst hs
      exact hask

variable {v : Service} {uri : Uri}

/-- A quiet question is answered by its result, if it has one. -/
private theorem answersFrom_settle {α : Type} {ask : Session → Except QueryError α}
    (h : ∀ s, s.chain = v.chain → Quiet (ask s)) :
    v.AnswersFrom uri (v.session uri [] >>= fun s => settle (ask s)) fun s => (ask s).toOption :=
  answersFrom fun s hs => (h s hs).settle_eq

/-- A quiet question for a list is answered by the list, if there is one, else by the empty list. -/
private theorem answersFrom_settle_list {α : Type} {ask : Session → Except QueryError (List α)}
    (h : ∀ s, s.chain = v.chain → Quiet (ask s)) :
    v.AnswersFrom uri
      (v.session uri [] >>= fun s => settle (ask s) >>= fun found => pure (found.getD []))
      fun s => (ask s).toOption.getD [] := by
  apply answersFrom
  intro s hs
  rw [(h s hs).settle_eq]
  rfl

/-- A rename to a text that is no identifier fails for want of a session, else for the text. -/
private theorem rename_eq_error_iff_of_not_isValid {newName : String}
    (hinvalid : Identifier.isValid newName = false) (pos : Position) (error : QueryError) :
    v.rename uri pos newName = .error error ↔
      v.store.documents.get? uri = none ∧ error = .staleIndex uri.text ∨
        (v.store.documents.get? uri).isSome = true ∧ error = .invalidIdentifier newName := by
  unfold rename
  rw [session_eq]
  cases hget : v.store.documents.get? uri with
  | none =>
    change Except.error (.staleIndex uri.text) = Except.error error ↔ _
    simp [eq_comm]
  | some snapshot =>
    change settle (Session.rename ⟨snapshot, [], v.chain, v.config⟩ pos newName) = .error error ↔ _
    rw [Session.rename_of_not_isValid hinvalid]
    simp [settle, QueryError.isEmptyResult, eq_comm]

/-- With quiet strategies in front, a question fails exactly if the document is stale, and a rename
also at a wrong name. -/
theorem fails_only_if_stale_or_misnamed (v : Service) (hchain : v.chain.Extends) (uri : Uri)
    (pos : Position) (withDeclaration : Bool) (newName : String) :
    v.AnswersFrom uri (v.definition uri pos) (fun s => (s.definitionAt pos).toOption) ∧
    v.AnswersFrom uri (v.highlights uri pos) (fun s => (s.highlightsAt pos).toOption.getD []) ∧
    v.AnswersFrom uri (v.references uri pos withDeclaration)
      (fun s => (s.referencesAt pos withDeclaration).toOption.getD []) ∧
    v.AnswersFrom uri (v.prepareRename uri pos) (fun s => (s.prepareRename pos).toOption) ∧
    v.AnswersFrom uri (v.signatureHelp uri pos) (fun s => (s.signatureHelp pos).toOption) ∧
    v.AnswersFrom uri (v.outline uri) (fun s => s.snapshot.outline) ∧
    (Identifier.isValid newName = true →
      v.AnswersFrom uri (v.rename uri pos newName) (fun s => (s.rename pos newName).toOption)) ∧
    (∀ error, v.rename uri pos newName = .error error ↔
      v.store.documents.get? uri = none ∧ error = .staleIndex uri.text ∨
        (v.store.documents.get? uri).isSome = true ∧ Identifier.isValid newName = false ∧
          error = .invalidIdentifier newName) := by
  have hsession (s : Session) (hs : s.chain = v.chain) : s.chain.Extends := hs ▸ hchain
  have hrename (hvalid : Identifier.isValid newName = true) :
      v.AnswersFrom uri (v.rename uri pos newName) fun s => (s.rename pos newName).toOption :=
    answersFrom_settle fun s hs => Session.quiet_rename (hsession s hs) hvalid pos
  refine ⟨?_, ?_, ?_, ?_, ?_, ?_, hrename, ?_⟩
  · exact answersFrom_settle fun s hs => Session.quiet_definitionAt (hsession s hs) pos
  · exact answersFrom_settle_list fun s _ => Session.quiet_highlightsAt pos
  · exact answersFrom_settle_list fun s _ => Session.quiet_referencesAt pos withDeclaration
  · exact answersFrom_settle fun s hs => Session.quiet_prepareRename (hsession s hs) pos
  · exact answersFrom_settle fun s hs => Session.quiet_signatureHelp (hsession s hs) pos
  · exact answersFrom fun s _ => rfl
  · intro error
    cases hvalid : Identifier.isValid newName with
    | true => simpa using (hrename hvalid).error_iff error
    | false => simpa using rename_eq_error_iff_of_not_isValid hvalid pos error

/-! ### A service with strategies of its own -/

private def note : Uri := ⟨"file:///note.groovy"⟩

private def draft : Uri := ⟨"file:///draft.groovy"⟩

/-- A strategy that gives up on calls for good. -/
private def refusal : Strategy where
  name := "refusal"
  isTerminal := true
  attempt l := if l.entry.kind.label = "call" then .notFound .unsupportedNodeKind
    else .notApplicable

/-- A service that knows one document: `def x` and a call. Before the standard chain it asks a
strategy that never helps, and one that refuses calls. -/
private def desk : Service where
  store := (Store.empty.update (.clean ⟨note, 1⟩
    ⟨⟨0⟩, .moduleRoot, none,
      [⟨⟨1⟩, .declaration none, some (.ofCorners 0 0 0 5),
        [⟨⟨2⟩, .variableRef "x", some (.ofCorners 0 4 0 5), []⟩]⟩,
       ⟨⟨3⟩, .call "run" (some (.ofCorners 1 0 1 3)) true, some (.ofCorners 1 0 1 5), []⟩]⟩)).2
  chain := ⟨[⟨"idle", false, fun _ => .notFound .invalidPosition⟩, refusal] ++
    Chain.standard.strategies⟩
  config := {}

private theorem extends_desk : desk.chain.Extends := by
  refine ⟨_, ?_, rfl⟩
  intro s hs l error h
  simp only [List.mem_cons, List.not_mem_nil, or_false] at hs
  rcases hs with rfl | rfl
  · cases h
    rfl
  · simp only [refusal] at h
    split at h
    · cases h
      rfl
    · cases h

/-- The variable is found, the call is not. A document without a snapshot and a reserved word as new
name are errors. -/
theorem fails_only_if_stale_or_misnamed_desk :
    desk.chain.Extends ∧
    desk.definition note ⟨0, 4⟩ = .ok (some ⟨note, .ofCorners 0 4 0 5⟩) ∧
    desk.definition note ⟨1, 1⟩ = .ok none ∧
    desk.references note ⟨1, 1⟩ true = .ok [] ∧
    desk.rename note ⟨1, 1⟩ "start" = .ok none ∧
    desk.outline draft = .error (.staleIndex "file:///draft.groovy") ∧
    desk.rename note ⟨0, 4⟩ "while" = .error (.invalidIdentifier "while") ∧
    desk.rename draft ⟨0, 4⟩ "while" = .error (.staleIndex "file:///draft.groovy") := by
  have h := fails_only_if_stale_or_misnamed desk extends_desk
  obtain ⟨hdefinition, -, hreferences, -, -, -, hrename, -⟩ := h note ⟨1, 1⟩ true "start"
  obtain ⟨hvariable, -, -, -, -, -, -, hmisnamed⟩ := h note ⟨0, 4⟩ true "while"
  obtain ⟨-, -, -, -, -, houtline, -, hstale⟩ := h draft ⟨0, 4⟩ true "while"
  refine ⟨extends_desk, hvariable.ok _ rfl, hdefinition.ok _ rfl, hreferences.ok _ rfl,
    (hrename (by decide)).ok _ rfl, ?_, ?_, ?_⟩
  · exact (houtline.error_iff _).mpr ⟨rfl, rfl⟩
  · exact (hmisnamed _).mpr (Or.inr ⟨rfl, by decide, rfl⟩)
  · exact (hstale _).mpr (Or.inl ⟨rfl, rfl⟩)

end Service

end GroovyIndex
