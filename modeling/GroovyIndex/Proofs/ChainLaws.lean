import GroovyIndex.Resolution.Auxiliary

/-!
# Which strategy decides

A strategy decides a look-up by a find or, if it is terminal, by a failure; otherwise it passes
the look-up on. `Settles` says without a run what strategies come to: the first decision, else the
last failure, else that nothing applies. A chain resolves to exactly that, so behind a decision
nothing matters.
-/

namespace GroovyIndex

namespace Strategy

/-- The strategy ends the look-up with the result: a find, or the failure of a terminal strategy. -/
inductive Decides (l : Lookup) (s : Strategy) : Except QueryError Definition → Prop where
  | found {d : Definition} (h : s.attempt l = .found d) : Decides l s (.ok d)
  | failed {error : QueryError} (h : s.attempt l = .notFound error)
      (hterminal : s.isTerminal = true) : Decides l s (.error error)

/-- The strategy leaves the look-up to those behind it. -/
def PassesOn (l : Lookup) (s : Strategy) : Prop := ∀ r, ¬ s.Decides l r

/-- The failure that the strategy reports. -/
def failure? (l : Lookup) (s : Strategy) : Option QueryError :=
  match s.attempt l with
  | .notFound error => some error
  | _ => none

variable {l : Lookup} {s : Strategy}

theorem passesOn_of_notApplicable (h : s.attempt l = .notApplicable) : s.PassesOn l := by
  intro r hr
  cases hr with
  | found h' => rw [h] at h'; cases h'
  | failed h' => rw [h] at h'; cases h'

theorem passesOn_of_not_isTerminal (hterminal : s.isTerminal = false)
    (hfound : ∀ d, s.attempt l ≠ .found d) : s.PassesOn l := by
  intro r hr
  cases hr with
  | found h => exact hfound _ h
  | failed h ht => rw [hterminal] at ht; cases ht

/-- A strategy decides, does not apply, or reports a failure that is not final. -/
theorem decides_or_passesOn (l : Lookup) (s : Strategy) :
    (∃ r, s.Decides l r) ∨ s.PassesOn l ∧ (s.attempt l = .notApplicable ∨
      ∃ error, s.attempt l = .notFound error ∧ s.isTerminal = false) := by
  cases h : s.attempt l with
  | found d => exact Or.inl ⟨.ok d, .found h⟩
  | notApplicable => exact Or.inr ⟨passesOn_of_notApplicable h, Or.inl rfl⟩
  | notFound error =>
    cases ht : s.isTerminal with
    | true => exact Or.inl ⟨.error error, .failed h ht⟩
    | false =>
      refine Or.inr ⟨passesOn_of_not_isTerminal ht ?_, Or.inr ⟨error, rfl, rfl⟩⟩
      intro d hd
      rw [h] at hd
      cases hd

end Strategy

namespace Chain

variable {l : Lookup} {s : Strategy} {before after : List Strategy}

/-! ### One step of a run -/

theorem run_cons_of_decides {r : Except QueryError Definition} (h : s.Decides l r)
    (pending : Option QueryError) : run l pending (s :: after) = r := by
  cases h with
  | found h => simp only [run, h]
  | failed h ht => simp only [run, h, ht, if_true]

/-- A strategy that passes on hands over its failure, or else the one it was given. -/
theorem run_cons_of_passesOn (h : s.PassesOn l) (pending : Option QueryError) :
    run l pending (s :: after) = run l ((s.failure? l).or pending) after := by
  rcases s.decides_or_passesOn l with ⟨r, hr⟩ | ⟨-, hnone | ⟨error, herror, ht⟩⟩
  · exact absurd hr (h r)
  · simp only [run, Strategy.failure?, hnone, Option.none_or]
  · simp only [run, Strategy.failure?, herror, ht, Bool.false_eq_true, if_false, Option.some_or]

/-! ### Whole runs -/

/-- The failure reported last. -/
def lastFailure? (l : Lookup) (strategies : List Strategy) : Option QueryError :=
  (strategies.filterMap (·.failure? l)).getLast?

theorem lastFailure?_cons (l : Lookup) (s : Strategy) (rest : List Strategy) :
    lastFailure? l (s :: rest) = (lastFailure? l rest).or (s.failure? l) := by
  rw [lastFailure?, lastFailure?, List.filterMap_cons]
  cases s.failure? l with
  | none => rw [Option.or_none]
  | some error =>
    rw [List.getLast?_cons]
    cases (rest.filterMap (·.failure? l)).getLast? <;> rfl

/-- Strategies that pass on hand over their last failure, or else the one they were given. -/
theorem run_append_of_passesOn (h : ∀ b ∈ before, b.PassesOn l) (pending : Option QueryError) :
    run l pending (before ++ after) = run l ((lastFailure? l before).or pending) after := by
  induction before generalizing pending with
  | nil => rfl
  | cons b before ih =>
    obtain ⟨hb, hbefore⟩ := List.forall_mem_cons.mp h
    rw [List.cons_append, run_cons_of_passesOn hb, ih hbefore, lastFailure?_cons, Option.or_assoc]

/-- Where no strategy applies, the failure that the run was given is reported. -/
theorem run_of_notApplicable {strategies : List Strategy}
    (h : ∀ s ∈ strategies, s.attempt l = .notApplicable) (pending : Option QueryError) :
    run l pending strategies = .error (pending.getD .unsupportedNodeKind) := by
  induction strategies with
  | nil => rfl
  | cons s rest ih =>
    obtain ⟨hs, hrest⟩ := List.forall_mem_cons.mp h
    simp only [run, hs, ih hrest]

/-- Strategies in front do not tell apart what is behind them. -/
theorem run_append_congr {xs ys : List Strategy}
    (h : ∀ pending, run l pending xs = run l pending ys) (before : List Strategy)
    (pending : Option QueryError) :
    run l pending (before ++ xs) = run l pending (before ++ ys) := by
  induction before generalizing pending with
  | nil => exact h pending
  | cons b before ih =>
    simp only [List.cons_append, run]
    cases b.attempt l with
    | found d => rfl
    | notApplicable => exact ih pending
    | notFound error => simp only [ih]

/-- A failure that a run is given can only replace the report that nothing applies. -/
theorem run_eq_of_ne_unsupported {strategies : List Strategy}
    (h : run l none strategies ≠ .error .unsupportedNodeKind) (pending : Option QueryError) :
    run l pending strategies = run l none strategies := by
  induction strategies with
  | nil => exact absurd rfl h
  | cons s rest ih =>
    simp only [run] at h ⊢
    cases hs : s.attempt l with
    | found d => rfl
    | notApplicable =>
      rw [hs] at h
      exact ih h
    | notFound error => rfl

/-! ### What a list of strategies comes to -/

/-- What a look-up comes to. The first strategy that decides settles it. If none decides, the
failure reported last does, and if nothing is reported, no strategy applies. -/
inductive Settles (l : Lookup) : List Strategy → Except QueryError Definition → Prop where
  | decided (before after : List Strategy) {s : Strategy} {r : Except QueryError Definition}
      (passed : ∀ b ∈ before, b.PassesOn l) (decides : s.Decides l r) :
      Settles l (before ++ s :: after) r
  | failed (before after : List Strategy) {s : Strategy} {error : QueryError}
      (passed : ∀ b ∈ before ++ s :: after, b.PassesOn l) (failure : s.attempt l = .notFound error)
      (last : ∀ a ∈ after, ∀ later, a.attempt l ≠ .notFound later) :
      Settles l (before ++ s :: after) (.error error)
  | unsupported {strategies : List Strategy}
      (h : ∀ s ∈ strategies, s.attempt l = .notApplicable) :
      Settles l strategies (.error .unsupportedNodeKind)

/-- A strategy that passes on without a failure does not apply. -/
private theorem notApplicable_of_passesOn (h : s.PassesOn l)
    (hfailure : ∀ error, s.attempt l ≠ .notFound error) : s.attempt l = .notApplicable := by
  rcases s.decides_or_passesOn l with ⟨r, hr⟩ | ⟨-, hnone | ⟨error, herror, -⟩⟩
  · exact absurd hr (h r)
  · exact hnone
  · exact absurd herror (hfailure error)

/-- A run ends with what the look-up comes to. -/
theorem Settles.run_eq {strategies : List Strategy} {r : Except QueryError Definition}
    (h : Settles l strategies r) : run l none strategies = r := by
  cases h with
  | decided before after passed decides =>
    rw [run_append_of_passesOn passed, run_cons_of_decides decides]
  | @failed before after s error passed failure last =>
    have hbefore : ∀ b ∈ before, b.PassesOn l := fun b hb => passed b (List.mem_append_left _ hb)
    obtain ⟨hs, hafter⟩ := List.forall_mem_cons.mp fun b hb => passed b (List.mem_append_right _ hb)
    have hnone : ∀ a ∈ after, a.attempt l = .notApplicable := fun a ha =>
      notApplicable_of_passesOn (hafter a ha) (last a ha)
    have hfailure : s.failure? l = some error := by rw [Strategy.failure?, failure]
    rw [run_append_of_passesOn hbefore, run_cons_of_passesOn hs, run_of_notApplicable hnone,
      hfailure]
    rfl
  | unsupported h => exact run_of_notApplicable h none

/-- Every look-up comes to something. -/
theorem exists_settles (l : Lookup) (strategies : List Strategy) : ∃ r, Settles l strategies r := by
  induction strategies with
  | nil => exact ⟨_, .unsupported (by simp)⟩
  | cons s rest ih =>
    rcases s.decides_or_passesOn l with ⟨r, hr⟩ | ⟨hpass, hs⟩
    · exact ⟨r, .decided [] rest (by simp) hr⟩
    · obtain ⟨r, hrest⟩ := ih
      -- What is behind comes first; the strategy's own failure counts only where nothing applies
      -- there.
      cases hrest with
      | decided before after passed decides =>
        have hpassed := List.forall_mem_cons.mpr ⟨hpass, passed⟩
        exact ⟨r, .decided (s :: before) after hpassed decides⟩
      | failed before after passed failure last =>
        have hpassed := List.forall_mem_cons.mpr ⟨hpass, passed⟩
        exact ⟨_, .failed (s :: before) after hpassed failure last⟩
      | unsupported hnone =>
        rcases hs with hs | ⟨error, herror, -⟩
        · exact ⟨_, .unsupported (List.forall_mem_cons.mpr ⟨hs, hnone⟩)⟩
        · have hpassed : ∀ b ∈ rest, b.PassesOn l := fun b hb =>
            Strategy.passesOn_of_notApplicable (hnone b hb)
          refine ⟨_, .failed [] rest (List.forall_mem_cons.mpr ⟨hpass, hpassed⟩) herror ?_⟩
          intro a ha later hlater
          rw [hnone a ha] at hlater
          cases hlater

/-- A chain resolves a node to what the look-up comes to. -/
theorem resolve_eq_iff {chain : Chain} {r : Except QueryError Definition} :
    chain.resolve l = r ↔ Settles l chain.strategies r := by
  constructor
  · intro h
    obtain ⟨r', hr'⟩ := exists_settles l chain.strategies
    rw [resolve, hr'.run_eq] at h
    rwa [← h]
  · exact Settles.run_eq

/-! ### Strategies that can be left out -/

theorem strategies_foldl_prepend (extra : List Strategy) (chain : Chain) :
    (extra.foldl prepend chain).strategies = extra.reverse ++ chain.strategies := by
  induction extra generalizing chain with
  | nil => rfl
  | cons s extra ih => rw [List.foldl_cons, ih, prepend, List.reverse_cons, List.append_assoc]; rfl

/-- Strategies that pass on, put in front of a chain, can only replace the report
that nothing applies. -/
theorem resolve_foldl_prepend {extra : List Strategy} (h : ∀ s ∈ extra, s.PassesOn l)
    {chain : Chain} (hne : chain.resolve l ≠ .error .unsupportedNodeKind) :
    (extra.foldl prepend chain).resolve l = chain.resolve l := by
  have hreverse : ∀ s ∈ extra.reverse, s.PassesOn l := fun s hs => h s (List.mem_reverse.mp hs)
  rw [resolve, strategies_foldl_prepend, run_append_of_passesOn hreverse]
  exact run_eq_of_ne_unsupported hne _

/-- A chain resolves to what its strategies settle; what stands behind a decision, does not apply,
or finds nothing makes no difference. -/
theorem resolve_settled (l : Lookup) :
    (∀ (chain : Chain) r, chain.resolve l = r ↔ Settles l chain.strategies r) ∧
    (∀ before s after after' r, s.Decides l r →
      resolve ⟨before ++ s :: after⟩ l = resolve ⟨before ++ s :: after'⟩ l) ∧
    (∀ before s after, s.attempt l = .notApplicable →
      resolve ⟨before ++ s :: after⟩ l = resolve ⟨before ++ after⟩ l) ∧
    ∀ extra : List Strategy,
      (∀ s ∈ extra, s.isTerminal = false ∧ ∀ d, s.attempt l ≠ .found d) →
      (∀ d, standard.resolve l = .ok d → (extra.foldl prepend standard).resolve l = .ok d) ∧
      (standard.resolve l = .error .nodeNotFound →
        (extra.foldl prepend standard).resolve l = .error .nodeNotFound) := by
  refine ⟨fun chain r => resolve_eq_iff, ?_, ?_, ?_⟩
  · intro before s after after' r hs
    refine run_append_congr (fun pending => ?_) before none
    rw [run_cons_of_decides hs, run_cons_of_decides hs]
  · intro before s after hs
    refine run_append_congr (fun pending => ?_) before none
    simp only [run, hs]
  · intro extra hextra
    have hpass : ∀ s ∈ extra, s.PassesOn l := fun s hs =>
      Strategy.passesOn_of_not_isTerminal (hextra s hs).1 (hextra s hs).2
    constructor
    · intro d hd
      rw [resolve_foldl_prepend hpass (by rw [hd]; rintro ⟨⟩), hd]
    · intro hnone
      rw [resolve_foldl_prepend hpass (by rw [hnone]; rintro ⟨⟩), hnone]

/-- A script that declares `count` and uses `count` and `total`. -/
private def tally : Snapshot :=
  .ofParsed (.clean ⟨⟨"file:///tally.groovy"⟩, 1⟩
    ⟨⟨0⟩, .moduleRoot, none,
      [⟨⟨1⟩, .declaration none, some (.ofCorners 0 0 0 13),
        [⟨⟨2⟩, .variableRef "count", some (.ofCorners 0 4 0 9), []⟩]⟩,
      ⟨⟨3⟩, .variableRef "count", some (.ofCorners 1 0 1 5), []⟩,
      ⟨⟨4⟩, .variableRef "total", some (.ofCorners 2 0 2 5), []⟩]⟩) 0

private def countUse : Lookup :=
  ⟨tally, [], ⟨⟨3⟩, .variableRef "count", some (.ofCorners 1 0 1 5), [], [⟨0⟩]⟩⟩

private def totalUse : Lookup :=
  ⟨tally, [], ⟨⟨4⟩, .variableRef "total", some (.ofCorners 2 0 2 5), [], [⟨0⟩]⟩⟩

private def countDefinition : Definition :=
  ⟨⟨"file:///tally.groovy"⟩, ⟨2⟩, "count", .localVar, .ofCorners 0 0 0 13, .ofCorners 0 4 0 9, none,
    none⟩

private def probe : Strategy := ⟨"probe", false, fun _ => .notFound .invalidPosition⟩

private def idle : Strategy := ⟨"idle", true, fun _ => .notApplicable⟩

/-- A failing probe keeps neither the find of `count` nor the failure of `total` from coming out;
alone, its own failure is reported. -/
theorem resolve_settled_tally :
    ([probe].foldl prepend standard).resolve countUse = .ok countDefinition ∧
    ([probe].foldl prepend standard).resolve totalUse = .error .nodeNotFound ∧
    Settles countUse [probe, idle] (.error .invalidPosition) ∧
    resolve ⟨[probe, .lexical, idle]⟩ countUse = resolve ⟨[probe, .lexical]⟩ countUse ∧
    resolve ⟨[probe, idle, .lexical]⟩ countUse = resolve ⟨[probe, .lexical]⟩ countUse := by
  obtain ⟨hsettles, hbehind, hidle, hfront⟩ := resolve_settled countUse
  have hprobe (l : Lookup) (s : Strategy) (hs : s ∈ [probe]) :
      s.isTerminal = false ∧ ∀ d, s.attempt l ≠ .found d := by
    cases List.mem_singleton.mp hs
    exact ⟨rfl, fun d h => by cases h⟩
  refine ⟨(hfront [probe] (hprobe countUse)).1 countDefinition rfl, ?_, ?_, ?_, ?_⟩
  · exact ((resolve_settled totalUse).2.2.2 [probe] (hprobe totalUse)).2 rfl
  · exact (hsettles ⟨[probe, idle]⟩ _).mp rfl
  · exact hbehind [probe] .lexical [idle] [] (.ok countDefinition) (.found rfl)
  · exact hidle [probe] idle [.lexical] rfl

end Chain

end GroovyIndex
