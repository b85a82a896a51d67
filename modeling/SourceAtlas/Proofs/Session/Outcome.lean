import SourceAtlas.Proofs.Session.Retouch
import SourceAtlas.Proofs.Session.Taking

/-! # What a step does

Each step of a session does one of seven things, failed steps included. Whatever holds after all of
these holds after every step.
-/

namespace SourceAtlas

/-- Whether the records that a step makes stand for files on disk. -/
def Step.readsDisk : Step → Bool
  | .add _ (.virtual ..) | .add _ (.full ..) => false
  | _ => true

namespace Session

/-- Whether a table is in use, as that of a catalog or as a batch. -/
def HasTable (s : Session) (table : Table) : Prop :=
  (∃ name catalog, s.catalogs.get? name = some catalog ∧ catalog.table = table) ∨
    ∃ batch, s.batches.get? batch = some table

inductive Performs (s : Session) : Step → Session → Except Failure Answer → Prop
  | retouch {step s' outcome} : Retouched s s' → (∀ ids, outcome ≠ .ok (.ids ids)) →
      Performs s step s' outcome
  | create {name fields config} : Config.ofFields fields = .ok config →
      Performs s (.create name fields) (s.create name config) (.ok (.config config))
  | take {step paths error} : step.readsDisk → Performs s step (s.takeAll paths).1 (.error error)
  | ofRoots {name roots fields pool config paths batch} : s.IsBatch paths batch →
      Performs s (.ofRoots name roots fields pool) (s.filled name ⟨config, .empty⟩ paths batch)
        (.ok (.ids batch.keys))
  | load {name roots pool catalog paths batch} : s.catalogs.get? name = some catalog →
      s.IsBatch paths batch →
      Performs s (.load name roots pool) (s.filled name catalog paths batch)
        (.ok (.ids batch.keys))
  | loadBatch {name target roots pool paths batch} : s.IsBatch paths batch →
      Performs s (.loadBatch name target roots pool)
        { (s.takeAll paths).1 with batches := s.batches.insert target batch }
        (.ok (.ids batch.keys))
  | merge {step name catalog table} : s.catalogs.get? name = some catalog → s.HasTable table →
      Performs s step (s.merge name catalog table) (.ok .done)
  | add {name draft catalog s' record} : s.catalogs.get? name = some catalog →
      s.make draft = (s', .ok record) →
      Performs s (.add name draft) (s'.add name catalog record) (.ok (.id (some record.id)))

variable {s : Session}

theorem make_of_error {draft : Draft} {s' : Session} {failure : Failure}
    (h : s.make draft = (s', .error failure)) : s' = s := by
  unfold make at h
  split at h
  · cases h
  · split at h <;> cases h
    rfl
  · split at h <;> cases h
    rfl

/-- What is made by hand has a snapshot that belongs to its text; only the counter may change. -/
theorem make_of_ok {draft : Draft} {s' : Session} {record : SourceFile}
    (h : s.make draft = (s', .ok record)) :
    (∃ counter, s' = { s with counter }) ∧
      ∃ source name path id kind, record = SourceFile.make source name path id kind := by
  unfold make at h
  split at h
  · cases h
    exact ⟨⟨_, rfl⟩, _, _, _, _, _, rfl⟩
  · split at h <;> cases h
    exact ⟨⟨_, rfl⟩, _, _, _, _, _, rfl⟩
  · split at h <;> cases h
    exact ⟨⟨_, rfl⟩, _, _, _, _, _, rfl⟩

theorem performs_withCatalog {step : Step} {name : String}
    {next : Catalog → Session × Except Failure Answer}
    (h : ∀ catalog, s.catalogs.get? name = some catalog →
      Performs s step (next catalog).1 (next catalog).2) :
    Performs s step (s.withCatalog name next).1 (s.withCatalog name next).2 := by
  unfold withCatalog
  split
  · next catalog hc => exact h catalog hc
  · exact .retouch (.refl s) nofun

theorem performs_load {step : Step} {name : String} {catalog : Catalog} {pool : Pool}
    (hr : step.readsDisk)
    (h : ∀ paths batch, s.IsBatch paths batch →
      Performs s step (s.filled name catalog paths batch) (.ok (.ids batch.keys)))
    (roots : List Path) :
    Performs s step (s.load name catalog roots pool).1
      ((s.load name catalog roots pool).2.map Answer.ids) := by
  rcases hc : catalog.config.candidates s.files roots with ⟨paths, _ | e⟩
  · rw [load_of_none hc]
    exact h _ _ (s.isBatch_batchOf catalog.config pool paths)
  · rw [load_of_some hc]
    exact .take hr

theorem performs (s : Session) (step : Step) :
    Performs s step (s.perform step).1 (s.perform step).2 := by
  cases step with
  | edit edit =>
    simp only [perform]
    split <;> exact .retouch (.files s _) nofun
  | create name fields =>
    simp only [perform]
    split
    · next h => exact .create h
    · exact .retouch (.refl s) nofun
  | ofRoots name roots fields pool =>
    simp only [perform]
    split
    · exact performs_load rfl (fun _ _ => .ofRoots) roots
    · exact .retouch (.refl s) nofun
  | load name roots pool =>
    exact performs_withCatalog fun catalog hc => performs_load rfl (fun _ _ => .load hc) roots
  | loadBatch name batch roots pool =>
    refine performs_withCatalog fun catalog _ => ?_
    rcases hc : catalog.config.candidates s.files roots with ⟨paths, _ | e⟩
    · rw [read_of_none hc]
      have hb : (s.takeAll (pool.issued catalog.config paths)).1.batches = s.batches := by
        rw [takeAll_eq]
      dsimp only
      rw [hb]
      exact .loadBatch (s.isBatch_batchOf catalog.config pool paths)
    · rw [read_of_some hc]
      exact .take rfl
  | merge name other =>
    refine performs_withCatalog fun catalog hc => performs_withCatalog fun source ho => ?_
    exact .merge hc (Or.inl ⟨other, source, ho, rfl⟩)
  | mergeBatch name batch =>
    refine performs_withCatalog fun catalog hc => ?_
    split
    · next hb => exact .merge hc (Or.inr ⟨batch, hb⟩)
    · exact .retouch (.refl s) nofun
  | add name draft =>
    refine performs_withCatalog fun catalog hc => ?_
    split
    · next hm => exact .add hc hm
    · next hm =>
      rw [make_of_error hm]
      exact .retouch (.refl s) nofun
  | refresh name path =>
    refine performs_withCatalog fun catalog _ => ?_
    have hr := Retouched.refresh s catalog.table path
    split
    · next he =>
      rw [he] at hr
      exact .retouch hr nofun
    · next he =>
      rw [he] at hr
      exact .retouch hr nofun
  | refreshAll name paths =>
    refine performs_withCatalog fun catalog _ => ?_
    have hr := Retouched.refreshAll s catalog.table paths
    rcases he : s.refreshAll catalog.table paths with ⟨s', _ | _⟩ <;> rw [he] at hr <;>
      exact .retouch hr nofun
  | watch name plan =>
    exact performs_withCatalog fun _ _ => .retouch (.watch s name plan) nofun
  | replace name id source =>
    refine performs_withCatalog fun catalog _ => ?_
    split
    · exact .retouch (.replace s _ source) nofun
    · exact .retouch (.refl s) nofun

end Session

end SourceAtlas
