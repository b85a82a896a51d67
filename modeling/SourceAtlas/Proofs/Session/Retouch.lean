import Mathlib.Tactic
import SourceAtlas.Session.Step

/-! # Retouched sessions

Refreshing, replacing, editing files and watching change nothing but the files, the log and the
texts of records. Tables, ids, names, paths and kinds stay as they are, in every order of these and
whatever fails in between.
-/

namespace SourceAtlas

inductive SourceFile.Rewritten (record : SourceFile) : SourceFile → Prop
  | same : Rewritten record record
  | replaced (source : String) : Rewritten record (record.replaceContent source)

namespace SourceFile.Rewritten

variable {a b c : SourceFile}

theorem trans (h : a.Rewritten b) (h' : b.Rewritten c) : a.Rewritten c := by
  cases h' with
  | same => exact h
  | replaced source =>
    cases h with
    | same => exact .replaced source
    | replaced first =>
      have he : (a.replaceContent first).replaceContent source = a.replaceContent source := rfl
      exact he ▸ .replaced source

theorem id_eq (h : a.Rewritten b) : b.id = a.id := by cases h <;> rfl

theorem name_eq (h : a.Rewritten b) : b.name = a.name := by cases h <;> rfl

theorem path_eq (h : a.Rewritten b) : b.path = a.path := by cases h <;> rfl

theorem kind_eq (h : a.Rewritten b) : b.kind = a.kind := by cases h <;> rfl

/-- A rewritten record keeps a snapshot that belongs to its text. -/
theorem snapshot_eq (h : a.Rewritten b) (ha : a.snapshot = Snapshot.of a.source) :
    b.snapshot = Snapshot.of b.source := by
  cases h with
  | same => exact ha
  | replaced source => rfl

end SourceFile.Rewritten

/-- The second session differs from the first only in files, log and texts of records. -/
structure Retouched (s s' : Session) : Prop where
  trees : s'.trees = s.trees
  counter : s'.counter = s.counter
  catalogs : s'.catalogs = s.catalogs
  batches : s'.batches = s.batches
  records : ∀ handle : Handle,
    Option.Rel SourceFile.Rewritten s.records[handle]? s'.records[handle]?

namespace Retouched

variable {s s' s'' : Session}

theorem of_records (ht : s'.trees = s.trees) (hc : s'.counter = s.counter)
    (hn : s'.catalogs = s.catalogs) (hb : s'.batches = s.batches) (hr : s'.records = s.records) :
    Retouched s s' := by
  refine ⟨ht, hc, hn, hb, fun handle => ?_⟩
  rw [hr]
  cases s.records[handle]? with
  | none => exact .none
  | some record => exact .some .same

theorem refl (s : Session) : Retouched s s := of_records rfl rfl rfl rfl rfl

theorem trans (h : Retouched s s') (h' : Retouched s' s'') : Retouched s s'' := by
  refine ⟨h'.trees.trans h.trees, h'.counter.trans h.counter, h'.catalogs.trans h.catalogs,
    h'.batches.trans h.batches, fun handle => ?_⟩
  have hr := h.records handle
  have hr' := h'.records handle
  generalize s.records[handle]? = a, s'.records[handle]? = b, s''.records[handle]? = c at hr hr'
  cases hr with
  | none => exact hr'
  | some hab =>
    cases hr' with
    | some hbc => exact .some (hab.trans hbc)

/-- What a record has become. -/
theorem exists_rewritten (h : Retouched s s') {handle : Handle} {record : SourceFile}
    (hr : s.records[handle]? = some record) :
    ∃ record', s'.records[handle]? = some record' ∧ record.Rewritten record' := by
  have := h.records handle
  rw [hr] at this
  generalize s'.records[handle]? = b at this
  cases this with
  | some hab => exact ⟨_, rfl, hab⟩

/-- Where a record comes from. -/
theorem exists_original (h : Retouched s s') {handle : Handle} {record' : SourceFile}
    (hr : s'.records[handle]? = some record') :
    ∃ record, s.records[handle]? = some record ∧ record.Rewritten record' := by
  have := h.records handle
  rw [hr] at this
  generalize s.records[handle]? = a at this
  cases this with
  | some hab => exact ⟨_, rfl, hab⟩

theorem size_eq (h : Retouched s s') : s'.records.size = s.records.size := by
  apply Nat.le_antisymm <;> by_contra hlt
  · obtain ⟨_, hr, _⟩ := h.exists_original
      (Array.getElem?_eq_getElem (i := s.records.size) (by omega))
    simp at hr
  · obtain ⟨_, hr, _⟩ := h.exists_rewritten
      (Array.getElem?_eq_getElem (i := s'.records.size) (by omega))
    simp at hr

/-! ## One change -/

theorem emit (s : Session) (event : Event) : Retouched s (s.emit event) :=
  of_records rfl rfl rfl rfl rfl

theorem files (s : Session) (files : FileSystem) : Retouched s { s with files } :=
  of_records rfl rfl rfl rfl rfl

theorem replace (s : Session) (handle : Handle) (source : String) :
    Retouched s (s.replace handle source) := by
  refine ⟨rfl, rfl, rfl, rfl, fun other => ?_⟩
  rw [Session.replace, Array.getElem?_modify]
  split_ifs
  all_goals cases s.records[other]? with
    | none => exact .none
    | some record => exact .some (by constructor)

/-! ## Refreshing -/

theorem refresh (s : Session) (table : Table) (path : Path) :
    Retouched s (s.refresh table path).1 := by
  unfold Session.refresh
  split
  · exact refl s
  · split
    · exact (replace s _ _).trans (emit _ _)
    · exact refl s
    · exact emit s _

theorem refreshEach (s : Session) (table : Table) (paths : List Path) :
    Retouched s (s.refreshEach table paths).1 := by
  induction paths generalizing s with
  | nil => exact refl s
  | cons path rest ih =>
    have hr := refresh s table path
    unfold Session.refreshEach
    split
    · next he =>
      rw [he] at hr
      exact hr.trans (ih _)
    · next he =>
      rw [he] at hr
      exact hr

theorem refreshAll (s : Session) (table : Table) (paths : List Path) :
    Retouched s (s.refreshAll table paths).1 :=
  refreshEach s table _

/-! ## Watching -/

theorem withCatalog {α : Type} (s : Session) (name : String)
    {next : Catalog → Session × Except Failure α} (h : ∀ catalog, Retouched s (next catalog).1) :
    Retouched s (s.withCatalog name next).1 := by
  unfold Session.withCatalog
  split
  · exact h _
  · exact refl s

theorem react (name : String) (reaction : Reaction) (fails : List Bool) (turn : ℕ)
    (paths : List Path) (s : Session) :
    Retouched s (Session.react name reaction fails turn paths s).1 := by
  unfold Session.react
  split_ifs
  · exact refl s
  · cases reaction with
    | record => exact refl s
    | refresh => exact withCatalog s name fun catalog => refreshAll s catalog.table paths

section Watcher

open Watcher

variable {setup : Setup} (hs : ∀ turn paths s, Retouched s (setup.callback turn paths s).1)

include hs

theorem deliver (state : State) (paths : List Path) :
    Retouched state.session (setup.deliver state paths).1.session := by
  have hc := hs state.delivered.length (setup.hits paths)
    (state.session.emit (.changesDetected (setup.hits paths).length))
  unfold Setup.deliver
  split
  · exact refl _
  · dsimp only
    split
    · next he =>
      rw [he] at hc
      exact (emit _ _).trans hc
    · next he =>
      rw [he] at hc
      exact (emit _ _).trans hc
    · next he =>
      rw [he] at hc
      exact ((emit _ _).trans hc).trans (emit _ _)

theorem consume (state : State) (queue : List Batch) :
    Retouched state.session (setup.consume state queue).session := by
  induction queue generalizing state with
  | nil => exact refl _
  | cons batch rest ih =>
    cases batch with
    | failing failure => exact refl _
    | changes edits paths =>
      unfold Setup.consume
      split
      · exact files _ _
      · next changed _ =>
        have hd := (files state.session changed).trans (deliver hs { state with
          session := { state.session with files := changed } } paths)
        split
        · next he =>
          rw [he] at hd
          exact hd
        · next he =>
          rw [he] at hd
          exact hd.trans (ih _)

theorem call (state : State) (call : Call) :
    Retouched state.session (setup.call state call).1.session := by
  cases call <;> simp only [Setup.call]
  case start =>
    unfold Setup.start
    split
    · exact emit _ _
    · exact refl _
  case stop =>
    unfold Setup.stop
    split
    · exact refl _
    · exact refl _
    · exact emit _ _
    · exact emit _ _
  case wait =>
    unfold Setup.wait
    split
    · exact consume hs { state with opened := state.opened ++ [setup.directory] } _
    · exact refl _

theorem calls (state : State) (calls : List Call) :
    Retouched state.session (setup.calls state calls).1.session := by
  induction calls generalizing state with
  | nil => exact refl _
  | cons first rest ih => exact (call hs state first).trans (ih _)

end Watcher

theorem watch (s : Session) (name : String) (plan : WatchPlan) :
    Retouched s (s.watch name plan).1 :=
  calls (fun turn paths s => react name plan.reaction plan.fails turn paths s)
    (.initial s plan.batches) plan.calls

end Retouched

end SourceAtlas
