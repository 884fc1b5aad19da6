import Mathlib.Data.List.Nodup
import GroovyIndex.Store

/-!
# Histories of a store

A store is changed by updates, by refreshes that start and end in any order, and by documents that
are closed. A *run* lists what has happened since the store was empty. From the list alone it can
be told what is current, which numbers were handed out, and which refreshes are under way.
-/

namespace GroovyIndex.Store

/-- A store, and the numbers of the refreshes under way. -/
structure State where
  store : Store
  underWay : List Nat

/-- Something that happens to a store, with what the store hands out. -/
inductive Event where
  | update (parsed : ParsedModule) (generation : Nat)
  | start (generation : Nat)
  | finish (generation : Nat) (outcome : ParseOutcome)
  | close (uri : Uri) (wasOpen : Bool)

namespace Event

/-- The snapshot that becomes current. -/
def installed? : Event → Option Snapshot
  | update parsed generation | finish generation (.parsed parsed) =>
    some (.ofParsed parsed generation)
  | _ => none

/-- The document that the event is about: that of the snapshot, or the closed one. -/
def uri? : Event → Option Uri
  | close uri _ => some uri
  | event => event.installed?.map Snapshot.uri

/-- The number that is handed out. -/
def number? : Event → Option Nat
  | update _ generation | start generation => some generation
  | _ => none

theorem uri?_of_installed? {event : Event} {s : Snapshot} (h : event.installed? = some s) :
    event.uri? = some s.uri := by
  cases event with
  | update parsed generation => simp [uri?, h]
  | start generation => cases h
  | finish generation outcome => simp [uri?, h]
  | close uri wasOpen => cases h

theorem uri_of_installed? {event : Event} {s : Snapshot} {uri : Uri}
    (h : event.installed? = some s) (huri : event.uri? = some uri) : s.uri = uri := by
  rw [uri?_of_installed? h] at huri
  exact Option.some.inj huri

end Event

/-- One thing happens. A refresh can end while it is under way. -/
inductive Step : State → Event → State → Prop
  | update (st : State) (parsed : ParsedModule) :
    Step st (.update parsed (st.store.update parsed).1.generation)
      ⟨(st.store.update parsed).2, st.underWay⟩
  | start (st : State) :
    Step st (.start st.store.startBuild.1)
      ⟨st.store.startBuild.2, st.store.startBuild.1 :: st.underWay⟩
  | finish (st : State) (generation : Nat) (outcome : ParseOutcome)
    (h : generation ∈ st.underWay) :
    Step st (.finish generation outcome)
      ⟨(st.store.endRefresh generation outcome).2, st.underWay.erase generation⟩
  | close (st : State) (uri : Uri) :
    Step st (.close uri (st.store.close uri).1) ⟨(st.store.close uri).2, st.underWay⟩

/-- What can have happened since the store was empty, oldest first, and the state then. -/
inductive Run : List Event → State → Prop
  | empty : Run [] ⟨.empty, []⟩
  | step {history : List Event} {st st' : State} {event : Event} (before : Run history st)
    (next : Step st event st') : Run (history ++ [event]) st'

variable {history : List Event} {st st' : State} {event : Event} {uri : Uri} {s : Snapshot}

/-! ### The current snapshot -/

/-- Of all events about the document the last one made the snapshot current. -/
def LastInstalled (history : List Event) (uri : Uri) (s : Snapshot) : Prop :=
  ∃ before event after, history = before ++ event :: after ∧ event.installed? = some s ∧
    s.uri = uri ∧ ∀ later ∈ after, later.uri? ≠ some uri

theorem not_lastInstalled_nil : ¬ LastInstalled [] uri s := by
  rintro ⟨before, event, after, hsplit, -⟩
  simp at hsplit

/-- The latest event decides, if it is about the document; else it is passed over. -/
theorem lastInstalled_append :
    LastInstalled (history ++ [event]) uri s ↔
      if event.uri? = some uri then event.installed? = some s else LastInstalled history uri s := by
  constructor
  · rintro ⟨before, found, after, hsplit, hfound, huri, hlater⟩
    rcases List.eq_nil_or_concat after with rfl | ⟨between, latest, rfl⟩
    · obtain ⟨-, hevent⟩ := List.append_inj' hsplit rfl
      obtain rfl := List.singleton_inj.mp hevent
      rw [if_pos (huri ▸ Event.uri?_of_installed? hfound)]
      exact hfound
    · rw [List.concat_eq_append, ← List.cons_append, ← List.append_assoc] at hsplit
      obtain ⟨rfl, hevent⟩ := List.append_inj' hsplit rfl
      obtain rfl := List.singleton_inj.mp hevent
      rw [if_neg (hlater event (by simp))]
      exact ⟨before, found, between, rfl, hfound, huri, fun later h => hlater later (by simp [h])⟩
  · split
    · next huri =>
      intro hevent
      exact ⟨history, event, [], rfl, hevent, Event.uri_of_installed? hevent huri, by simp⟩
    · next hother =>
      rintro ⟨before, found, after, rfl, hfound, huri, hlater⟩
      refine ⟨before, found, after ++ [event], by simp, hfound, huri, ?_⟩
      intro later h
      rcases List.mem_append.mp h with h | h
      · exact hlater later h
      · rw [List.mem_singleton.mp h]
        exact hother

/-- A step changes the snapshot of the document that it is about, and no other. -/
theorem Step.get? (h : Step st event st') (uri : Uri) :
    st'.store.documents.get? uri =
      if event.uri? = some uri then event.installed? else st.store.documents.get? uri := by
  cases h with
  | update parsed =>
    simp [Store.update, install, startBuild, Event.uri?, Event.installed?, Snapshot.ofParsed,
      eq_comm]
  | start => simp [startBuild, Event.uri?, Event.installed?]
  | finish generation outcome hmem =>
    cases outcome <;> simp [endRefresh, install, Event.uri?, Event.installed?, eq_comm]
  | close other => simp [Store.close, Event.uri?, Event.installed?, eq_comm]

/-- The current snapshot of a document is the last one installed. -/
theorem Run.get?_eq_some_iff (h : Run history st) :
    st.store.documents.get? uri = some s ↔ LastInstalled history uri s := by
  induction h with
  | empty => simp [Store.empty, not_lastInstalled_nil]
  | step before next ih =>
    rw [next.get? uri, lastInstalled_append, ← ih]
    split <;> rfl

/-- Every snapshot is filed under the name of its document. -/
def FiledByName (store : Store) : Prop := ∀ entry ∈ store.documents.entries, entry.2.uri = entry.1

theorem FiledByName.install {store : Store} (h : store.FiledByName) (s : Snapshot) :
    (store.install s).FiledByName := by
  intro entry hentry
  rcases UriMap.mem_put hentry with rfl | hold
  · rfl
  · exact h entry hold

theorem Step.filedByName (h : Step st event st') (hst : st.store.FiledByName) :
    st'.store.FiledByName := by
  cases h with
  | update parsed => exact (show st.store.startBuild.2.FiledByName from hst).install _
  | start => exact hst
  | finish generation outcome hmem =>
    cases outcome with
    | parsed result => exact hst.install _
    | failed error => exact hst
    | cancelled => exact hst
  | close uri =>
    intro entry hentry
    exact hst entry (List.mem_filter.mp hentry).1

theorem Run.filedByName (h : Run history st) : st.store.FiledByName := by
  induction h with
  | empty =>
    intro entry hentry
    cases hentry
  | step before next ih => exact next.filedByName ih

/-! ### Numbers -/

/-- The numbers that were handed out, in order. -/
def numbers (history : List Event) : List Nat := history.filterMap Event.number?

theorem Step.number? (h : Step st event st') :
    (event.number? = none ∧ st'.store.generation = st.store.generation) ∨
      event.number? = some (st.store.generation + 1) ∧
        st'.store.generation = st.store.generation + 1 := by
  cases h with
  | update parsed => exact Or.inr ⟨rfl, rfl⟩
  | start => exact Or.inr ⟨rfl, rfl⟩
  | finish generation outcome hmem => cases outcome <;> exact Or.inl ⟨rfl, rfl⟩
  | close uri => exact Or.inl ⟨rfl, rfl⟩

/-- Numbers are handed out one after the other, from one up to the count of builds. -/
theorem Run.numbers_eq (h : Run history st) :
    numbers history = List.range' 1 st.store.generation := by
  induction h with
  | empty => rfl
  | step before next ih =>
    rw [numbers] at ih ⊢
    rcases next.number? with ⟨hnone, hcount⟩ | ⟨hsome, hcount⟩
    · simp [ih, hnone, hcount]
    · simp [ih, hsome, hcount, List.range'_1_concat, Nat.add_comm]

theorem Run.le_generation (h : Run history st) {n : Nat} (hn : n ∈ numbers history) :
    n ≤ st.store.generation := by
  rw [h.numbers_eq, List.mem_range'_1] at hn
  omega

theorem mem_numbers_of_start {n : Nat} (h : .start n ∈ history) : n ∈ numbers history :=
  List.mem_filterMap.mpr ⟨.start n, h, rfl⟩

/-! ### Refreshes under way -/

/-- The refreshes under way are those that have started and not ended, each once. None ends that has
not started. -/
structure Tracks (history : List Event) (underWay : List Nat) : Prop where
  nodup : underWay.Nodup
  mem_iff : ∀ n, n ∈ underWay ↔ .start n ∈ history ∧ ∀ outcome, .finish n outcome ∉ history
  started : ∀ n outcome, .finish n outcome ∈ history → .start n ∈ history

/-- A refresh starts under a number that no refresh has had. -/
theorem Tracks.start {underWay : List Nat} {n : Nat} (h : Tracks history underWay)
    (hfresh : .start n ∉ history) : Tracks (history ++ [.start n]) (n :: underWay) where
  nodup := List.nodup_cons.mpr ⟨fun hmem => hfresh ((h.mem_iff n).mp hmem).1, h.nodup⟩
  mem_iff := by
    intro m
    have hended (outcome : ParseOutcome) : .finish n outcome ∉ history :=
      fun hmem => hfresh (h.started n outcome hmem)
    by_cases hm : m = n
    · subst hm
      simp [hended]
    · simp [hm, h.mem_iff m]
  started := by
    intro m outcome hmem
    have hold : .finish m outcome ∈ history := by simpa using hmem
    exact List.mem_append_left _ (h.started m outcome hold)

/-- A refresh that ends is under way no longer. -/
theorem Tracks.finish {underWay : List Nat} {n : Nat} (h : Tracks history underWay)
    (hn : n ∈ underWay) (outcome : ParseOutcome) :
    Tracks (history ++ [.finish n outcome]) (underWay.erase n) where
  nodup := h.nodup.erase n
  mem_iff := by
    intro m
    rw [h.nodup.mem_erase_iff, h.mem_iff m]
    by_cases hm : m = n
    · subst hm
      constructor
      · intro hleft
        exact absurd rfl hleft.1
      · intro hright
        exact absurd (List.mem_append_right _ List.mem_cons_self) (hright.2 outcome)
    · simp [hm]
  started := by
    intro m other hmem
    apply List.mem_append_left
    rcases List.mem_append.mp hmem with hold | hnew
    · exact h.started m other hold
    · cases List.mem_singleton.mp hnew
      exact ((h.mem_iff n).mp hn).1

/-- Other events leave the refreshes under way alone. -/
theorem Tracks.append {underWay : List Nat} (h : Tracks history underWay)
    (hstart : ∀ n, event ≠ .start n) (hfinish : ∀ n outcome, event ≠ .finish n outcome) :
    Tracks (history ++ [event]) underWay where
  nodup := h.nodup
  mem_iff := by
    intro n
    simp [h.mem_iff n, (hstart n).symm, fun outcome => (hfinish n outcome).symm]
  started := by
    intro n outcome hmem
    have hold : .finish n outcome ∈ history := by
      simpa [(hfinish n outcome).symm] using hmem
    exact List.mem_append_left _ (h.started n outcome hold)

theorem Run.tracks (h : Run history st) : Tracks history st.underWay := by
  induction h with
  | empty => exact ⟨List.nodup_nil, by simp, by simp⟩
  | step before next ih =>
    cases next with
    | update parsed => exact ih.append (by simp) (by simp)
    | start =>
      apply ih.start
      intro hmem
      exact Nat.not_succ_le_self _ (before.le_generation (mem_numbers_of_start hmem))
    | finish generation outcome hmem => exact ih.finish hmem outcome
    | close uri => exact ih.append (by simp) (by simp)

/-! ### What a history tells -/

theorem snapshot_eq_ok_iff (store : Store) :
    store.snapshot uri = .ok s ↔ store.documents.get? uri = some s := by
  unfold snapshot
  cases store.documents.get? uri <;> simp

theorem snapshot_eq_error (store : Store) (h : ∀ s, store.documents.get? uri ≠ some s) :
    store.snapshot uri = .error (.staleIndex uri.text) := by
  rw [snapshot, Option.eq_none_iff_forall_ne_some.mpr h]

/-- A failed or cancelled refresh changes no document. -/
theorem Step.documents_of_finish {n : Nat} {outcome : ParseOutcome}
    (h : Step st (.finish n outcome) st') (hnone : ∀ result, outcome ≠ .parsed result) :
    st'.store.documents = st.store.documents := by
  cases h with
  | finish _ _ hmem =>
    cases outcome with
    | parsed result => exact absurd rfl (hnone result)
    | failed error => rfl
    | cancelled => rfl

/-- Closing a document tells whether it was open. -/
theorem Step.wasOpen_iff {wasOpen : Bool} (h : Step st (.close uri wasOpen) st') :
    wasOpen = true ↔ ∃ s, st.store.snapshot uri = .ok s := by
  cases h with
  | close =>
    simp only [snapshot_eq_ok_iff]
    exact Option.isSome_iff_exists

/-- Whatever has happened, the current snapshot of a document is the last one installed, unless the
document was closed since. -/
theorem run_keeps_last_installed (history : List Event) (st : State) (h : Run history st) :
    (∀ uri s, st.store.snapshot uri = .ok s ↔ LastInstalled history uri s) ∧
    (∀ uri, (¬ ∃ s, LastInstalled history uri s) →
      st.store.snapshot uri = .error (.staleIndex uri.text)) ∧
    -- Snapshots are filed under the names of their documents.
    (∀ entry ∈ st.store.documents.entries, entry.2.uri = entry.1) ∧
    -- Numbers go up, and fit into 64 bits if few enough are handed out.
    (numbers history).Nodup ∧ (numbers history).Pairwise (· < ·) ∧
    (∀ n ∈ numbers history, n ≤ st.store.generation) ∧
    ((numbers history).length < UInt64.size → ∀ n ∈ numbers history, n < UInt64.size) ∧
    (∀ n, n ∈ st.underWay ↔ .start n ∈ history ∧ ∀ outcome, .finish n outcome ∉ history) ∧
    -- Whatever happens next, other documents do not notice, and a failed refresh changes nothing.
    ∀ event st', Step st event st' →
      (∀ uri, event.uri? ≠ some uri → st'.store.snapshot uri = st.store.snapshot uri) ∧
      (∀ n outcome, event = .finish n outcome → (∀ result, outcome ≠ .parsed result) →
        st'.store.documents = st.store.documents) ∧
      (∀ uri wasOpen, event = .close uri wasOpen →
        (wasOpen = true ↔ ∃ s, st.store.snapshot uri = .ok s)) := by
  refine ⟨?_, ?_, h.filedByName, ?_, ?_, fun n => h.le_generation, ?_, h.tracks.mem_iff, ?_⟩
  · intro uri s
    rw [snapshot_eq_ok_iff, h.get?_eq_some_iff]
  · intro uri hnone
    apply snapshot_eq_error
    intro s hs
    exact hnone ⟨s, h.get?_eq_some_iff.mp hs⟩
  · rw [h.numbers_eq]
    exact List.nodup_range'
  · rw [h.numbers_eq]
    exact List.pairwise_lt_range'
  · intro hcount n hn
    rw [h.numbers_eq, List.length_range'] at hcount
    exact Nat.lt_of_le_of_lt (h.le_generation hn) hcount
  · intro event st' hstep
    refine ⟨?_, ?_, ?_⟩
    · intro uri huri
      rw [snapshot, snapshot, hstep.get? uri, if_neg huri]
    · rintro n outcome rfl hnone
      exact hstep.documents_of_finish hnone
    · rintro uri wasOpen rfl
      exact hstep.wasOpen_iff

private def page : Uri := ⟨"file:///page.groovy"⟩

/-- A version of a document without declarations. -/
private def version (n : Nat) : ParsedModule := .clean ⟨page, n⟩ ⟨⟨0⟩, .moduleRoot, none, []⟩

/-- Of two refreshes of a document the one that started first ends last. -/
private def overlapping : List Event :=
  [.start 1, .start 2, .finish 2 (.parsed (version 2)), .finish 1 (.parsed (version 1))]

private def overlapped : State := ⟨⟨UriMap.empty.put page (.ofParsed (version 1) 1), 2⟩, []⟩

private theorem run_overlapping : Run overlapping overlapped :=
  Run.empty
    |>.step (.start _)
    |>.step (.start _)
    |>.step (.finish _ 2 (.parsed (version 2)) List.mem_cons_self)
    |>.step (.finish _ 1 (.parsed (version 1)) List.mem_cons_self)

/-- The older build is current then, as the last one installed. Numbers still go up, and closing the
document tells that it was open. -/
theorem run_keeps_last_installed_overlapping :
    Run overlapping overlapped ∧
    LastInstalled overlapping page (.ofParsed (version 1) 1) ∧
    (numbers overlapping).Pairwise (· < ·) ∧
    ∀ wasOpen st', Step overlapped (.close page wasOpen) st' → wasOpen = true := by
  have hrun := run_overlapping
  obtain ⟨hcurrent, -, -, -, hup, -, -, -, hnext⟩ :=
    run_keeps_last_installed overlapping overlapped hrun
  refine ⟨hrun, ?_, hup, ?_⟩
  · exact (hcurrent page _).mp rfl
  · intro wasOpen st' hstep
    exact ((hnext _ st' hstep).2.2 page wasOpen rfl).mpr ⟨_, rfl⟩

end GroovyIndex.Store
